import NetSystem.StaEffect

/-!
# Disassociation discipline

A law about the whole trace of the station: a disassociation message goes
to the BSSID of the latest accepted association, with no other
disassociation and no probe request since, and the rescan follows at once
(`Disciplined`).

It holds because the message is queued only in state `ASSOCIATED`, which
only an accepted association enters, and because the BSSID is not touched
there: the last of these marks in the trace is then the association with
the current BSSID (`Discipline.held`).
-/

namespace NetSystem

namespace StaMac

variable {Addr Ssid Snr Db : Type*}

/-! ## The law -/

/-- Accepted associations, disassociation messages and probe requests. -/
def isMark : Event Addr Ssid Snr → Bool
  | .assoc _ | .disassociation _ | .probeRequest => true
  | _ => false

def lastMark (tr : List (Event Addr Ssid Snr)) : Option (Event Addr Ssid Snr) :=
  (tr.filter isMark).getLast?

/-- The trace goes on with the rescan, which queues its probe request if it
is an active one. -/
def Rescans (dst : Addr) (post : List (Event Addr Ssid Snr)) : Prop :=
  ∃ active rest, post = [Event.deAssoc dst, .linkDown, .scan active] ++
    ((if active then [Event.probeRequest] else []) ++ rest)

def Disciplined (tr : List (Event Addr Ssid Snr)) : Prop :=
  ∀ pre dst post, tr = pre ++ .disassociation dst :: post →
    lastMark pre = some (.assoc dst) ∧ Rescans dst post

/-- Accepted associations and disassociation messages. -/
def isSession : Event Addr Ssid Snr → Bool
  | .assoc _ | .disassociation _ => true
  | _ => false

/-- Right before every disassociation stands an association with the AP it
goes to. So the sequence begins with an association, and no two
disassociations are adjacent. -/
def Paired (l : List (Event Addr Ssid Snr)) : Prop :=
  ∀ pre dst post, l = pre ++ .disassociation dst :: post → pre.getLast? = some (.assoc dst)

/-- The law about the trace, read for the associations and disassociations
alone. -/
theorem Disciplined.paired {tr : List (Event Addr Ssid Snr)} (h : Disciplined tr) :
    Paired (tr.filter isSession) := by
  intro pre dst post heq
  obtain ⟨before, rest, rfl, rfl, hrest⟩ := List.filter_eq_append_iff.mp heq
  obtain ⟨gap, after, rfl, hgap, -, -⟩ := List.filter_eq_cons_iff.mp hrest
  have hlast := (h (before ++ gap) dst after (by simp)).1
  obtain ⟨marks, hmarks⟩ := List.getLast?_eq_some_iff.mp hlast
  -- sessions are marks, so filtering the marks loses nothing
  have hsub : (before ++ gap).filter isSession =
      ((before ++ gap).filter isMark).filter isSession := by
    rw [List.filter_filter]
    congr 1
    funext e
    cases e <;> rfl
  have hnone : gap.filter isSession = [] := List.filter_eq_nil_iff.mpr hgap
  rw [List.filter_append, hnone, List.append_nil, hmarks, List.filter_append] at hsub
  rw [hsub]
  simp [isSession]

theorem lastMark_append (tr l : List (Event Addr Ssid Snr)) :
    lastMark (tr ++ l) = (lastMark l).or (lastMark tr) := by
  simp only [lastMark, List.filter_append, List.getLast?_append]

theorem Rescans.append {dst : Addr} {post : List (Event Addr Ssid Snr)} (h : Rescans dst post)
    (l : List (Event Addr Ssid Snr)) : Rescans dst (post ++ l) := by
  obtain ⟨active, rest, rfl⟩ := h
  exact ⟨active, rest ++ l, by simp⟩

/-- Appending keeps what is said about the messages that are there, so only
the new ones are left to look at. -/
theorem Disciplined.append {tr l : List (Event Addr Ssid Snr)} (h : Disciplined tr)
    (hnew : ∀ a dst post, l = a ++ .disassociation dst :: post →
      lastMark (tr ++ a) = some (.assoc dst) ∧ Rescans dst post) :
    Disciplined (tr ++ l) := by
  intro pre dst post heq
  rcases List.append_eq_append_iff.mp heq with ⟨a, hpre, hl⟩ | ⟨b, htr, hpost⟩
  · rw [hpre]
    exact hnew a dst post hl
  · cases b with
    | nil =>
        rw [List.append_nil] at htr
        have := hnew [] dst post (by simpa using hpost.symm)
        rwa [List.append_nil, htr] at this
    | cons e b =>
        rw [List.cons_append, List.cons.injEq] at hpost
        obtain ⟨rfl, rfl⟩ := hpost
        obtain ⟨hlast, hrescan⟩ := h pre dst b htr
        exact ⟨hlast, hrescan.append l⟩

theorem disciplined_nil : Disciplined ([] : List (Event Addr Ssid Snr)) := by
  intro pre dst post heq
  simp at heq

theorem Disciplined.append_quiet {tr l : List (Event Addr Ssid Snr)} (h : Disciplined tr)
    (hl : ∀ dst, .disassociation dst ∉ l) : Disciplined (tr ++ l) :=
  h.append fun a dst post heq => absurd (by simp [heq]) (hl dst)

theorem Disciplined.append_message {tr post : List (Event Addr Ssid Snr)} {b : Addr}
    (h : Disciplined tr) (hlast : lastMark tr = some (.assoc b)) (hrescan : Rescans b post)
    (hpost : ∀ dst, .disassociation dst ∉ post) :
    Disciplined (tr ++ .disassociation b :: post) := by
  refine h.append fun a dst post' heq => ?_
  cases a with
  | nil =>
      rw [List.nil_append, List.cons.injEq, Event.disassociation.injEq] at heq
      obtain ⟨rfl, rfl⟩ := heq
      rw [List.append_nil]
      exact ⟨hlast, hrescan⟩
  | cons e a =>
      rw [List.cons_append, List.cons.injEq] at heq
      exact absurd (by simp [heq.2]) (hpost dst)

/-! ## The invariant -/

structure Discipline (s : Core Addr Ssid Snr) : Prop where
  law : Disciplined s.trace
  held : s.state = .associated → lastMark s.trace = some (.assoc s.bssid)

theorem startScanning_discipline {s : Core Addr Ssid Snr} (h : Disciplined s.trace) :
    Discipline s.startScanning := by
  refine ⟨?_, fun ht => ?_⟩
  · rw [s.startScanning_trace]
    refine h.append_quiet fun dst => ?_
    split_ifs <;> simp
  · cases hactive : s.activeProbing <;> simp [hactive] at ht

theorem setState_disciplined {s : Core Addr Ssid Snr} (h : Disciplined s.trace)
    (value : MacState) : Disciplined (s.setState value).trace := by
  rw [s.setState_trace]
  refine h.append_quiet fun dst => ?_
  unfold Core.stateEvents
  split_ifs <;> simp

theorem note_disciplined {s : Core Addr Ssid Snr} (h : Disciplined s.trace)
    {e : Event Addr Ssid Snr} (he : ∀ dst, .disassociation dst ≠ e) :
    Disciplined (s.note e).trace :=
  h.append_quiet fun dst hmem => he dst (List.mem_singleton.mp hmem)

theorem scanningTimeout_discipline {s : Core Addr Ssid Snr} (h : Disciplined s.trace)
    (selectors : List Nat) : Discipline (s.scanningTimeout selectors) := by
  cases hlist : s.candidateAps with
  | nil =>
      rw [s.scanningTimeout_nil hlist]
      exact startScanning_discipline h
  | cons bestAp rest =>
      rw [s.scanningTimeout_cons hlist]
      refine ⟨h.append_quiet fun dst => ?_, fun ht => by simp at ht⟩
      split_ifs <;> simp

theorem request_discipline {s : Core Addr Ssid Snr} (h : Disciplined s.trace)
    (isReassoc : Bool) :
    Discipline ((s.setState .waitAssocResp).sendAssociationRequest isReassoc) := by
  refine ⟨?_, fun ht => by simp [Core.sendAssociationRequest] at ht⟩
  exact note_disciplined (setState_disciplined h .waitAssocResp) fun dst => by simp

/-- The weak beacon: the message, then the rescan. -/
theorem disconnect_disciplined {s : Core Addr Ssid Snr} (h : Discipline s)
    (hstate : s.state = .associated) : Disciplined s.disconnect.trace := by
  have hlast : lastMark (s.trace ++ [.compared s.bssid false]) = some (.assoc s.bssid) := by
    rw [lastMark_append, h.held hstate]
    rfl
  have hcompared : Disciplined (s.trace ++ [.compared s.bssid false]) :=
    h.law.append_quiet fun dst => by simp
  have hall := hcompared.append_message hlast ⟨s.activeProbing, [], rfl⟩ (by
    intro dst
    cases s.activeProbing <;> simp)
  rw [s.disconnect_trace hstate]
  simpa using hall

variable [DecidableEq Addr] [LinearOrder Snr] [LinearOrder Db] {c : Config Addr Ssid Snr Db}

theorem report_discipline {s : Core Addr Ssid Snr} (h : Disciplined s.trace)
    (hstate : s.state ≠ .associated) (ap : ApInfo Addr Ssid Snr) :
    Discipline (s.updateCandidateApList c ap) := by
  refine ⟨?_, fun ht => absurd ht hstate⟩
  exact note_disciplined (note_disciplined h fun dst => by simp) fun dst => by simp

/-- **The step lemma.** -/
theorem effect_discipline {s t : Core Addr Ssid Snr} {i : Input Addr Ssid Snr}
    (h : Discipline s) (heff : Effect c s i t) : Discipline t := by
  cases heff with
  | stay => exact h
  | report ap hstate =>
      refine report_discipline h.law ?_ ap
      rcases hstate with hstate | hstate <;> simp [hstate]
  | strongBeacon hstate =>
      refine ⟨note_disciplined h.law fun dst => by simp, fun _ => ?_⟩
      rw [Core.note_trace, lastMark_append, h.held hstate]
      rfl
  | weakBeacon hstate hactive =>
      exact ⟨disconnect_disciplined h hstate, fun ht => by simp [hactive] at ht⟩
  | weakBeaconPassive hstate hactive ap =>
      exact report_discipline (disconnect_disciplined h hstate) (by simp [hactive]) ap
  | probeTimer hpending =>
      refine scanningTimeout_discipline ?_ _
      exact h.law
  | beaconTimer hpending =>
      refine scanningTimeout_discipline ?_ _
      exact h.law
  | accept hstate =>
      refine ⟨note_disciplined (setState_disciplined h.law _) fun dst => by simp, fun _ => ?_⟩
      -- the state was not ASSOCIATED, so the association is logged
      have hlog : s.stopAssocRequest.stateEvents .associated = [.assoc s.bssid] := by
        have hwait : s.stopAssocRequest.state = .waitAssocResp := hstate
        simp [Core.stateEvents, hwait]
        rfl
      rw [Core.note_trace, Core.setState_trace, hlog, lastMark_append, lastMark_append]
      rfl
  | refuse hi hstate hnone =>
      refine ⟨note_disciplined (setState_disciplined h.law _) fun dst => by simp, fun ht => ?_⟩
      simp at ht
  | nextAp hi hstate hsome =>
      refine scanningTimeout_discipline ?_ _
      exact h.law
  | missedBeacons =>
      refine startScanning_discipline (note_disciplined ?_ fun dst => by simp)
      exact setState_disciplined h.law .unassociated
  | unassociatedEnqueue hstate =>
      exact startScanning_discipline (note_disciplined h.law fun dst => by simp)
  | probingMode enable => exact ⟨h.law, h.held⟩
  | probingRestart enable hstate =>
      refine startScanning_discipline ?_
      exact h.law
  | reassociate hstate => exact request_discipline h.law true

/-! ## Runs -/

variable [DecidableEq Ssid]

theorem step_discipline {s s' : Sta Addr Ssid Snr} {i : Input Addr Ssid Snr}
    (h : Discipline s.toCore) (hstep : step c s i = some s') : Discipline s'.toCore := by
  rcases step_effect hstep with ⟨-, -, hcore⟩ | ⟨-, heff⟩
  · rw [hcore]
    exact request_discipline h.law false
  · exact effect_discipline h heff

/-- **Disassociation discipline.** In every run, every disassociation message
is preceded by an accepted association with the BSSID it goes to, with no
other disassociation and no probe request in between, and is followed at
once by the rescan and its probe request. Among associations and
disassociations alone, each disassociation comes right after the association
it ends. -/
theorem disassociation_discipline (c : Config Addr Ssid Snr Db) (bssid : Addr)
    (activeProbing : Bool) (is : List (Input Addr Ssid Snr)) (s : Sta Addr Ssid Snr)
    (h : run (step c) (init bssid activeProbing) is = some s) :
    Paired (s.trace.filter isSession) ∧ Disciplined s.trace := by
  have hinv : Discipline s.toCore :=
    run_inv (P := fun s : Sta Addr Ssid Snr => Discipline s.toCore)
      (fun _ _ _ hs hstep => step_discipline hs hstep)
      (startScanning_discipline disciplined_nil) h
  exact ⟨hinv.law.paired, hinv.law⟩

/-- The AP is joined at 30 dB; a beacon at 10 dB ends it. -/
def labWeakBeacon : List (Input Nat Nat Nat) :=
  [.receive 10000 (labProbeResp 1 1000), .probeRequestTimer 50000,
    .receive 51000 (labAssocResp 1 true),
    .receive 102400 ⟨0, 1, 1, false, .beacon ⟨1, [], 102400, true⟩, some 10⟩]

theorem disassociation_discipline_labWeakBeacon : ∃ s,
    run (step labConfig) (init 0 true) labWeakBeacon = some s ∧
      .disassociation 1 ∈ s.trace ∧ Paired (s.trace.filter isSession) ∧
      Disciplined s.trace := by
  have hend : (run (step labConfig) (init 0 true) labWeakBeacon).map
      (fun s => decide (.disassociation 1 ∈ s.trace)) = some true := by decide +kernel
  obtain ⟨s, hs, hmem⟩ := Option.map_eq_some_iff.mp hend
  exact ⟨s, hs, by simpa using hmem, disassociation_discipline labConfig 0 true labWeakBeacon s hs⟩

end StaMac

end NetSystem
