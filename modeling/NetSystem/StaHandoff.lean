import NetSystem.StaCandidates
import NetSystem.StaEffect

/-!
# The candidate list over whole scans

The reports and the attempts since the last `StartScanning`, read off the
trace (`scanLog`), and what they have to do with the candidate list in any
reachable state (`Handoff`): the reference list of the reports is what has
been attempted, in this order, followed by what is in the list. Reports
come in only while nothing has been attempted yet.

From this, `candidates_reference`: the k-th attempt of a scan goes to the
k-th entry of the reference list, and a refusal leads to `REFUSED` exactly
when there is no further entry.
-/

namespace NetSystem

namespace StaMac

variable {Addr Ssid Snr Db : Type*}

/-! ## The current scan -/

def scanStep : List (ApInfo Addr Ssid Snr) × List Addr → Event Addr Ssid Snr →
    List (ApInfo Addr Ssid Snr) × List Addr
  | _, .scan _ => ([], [])
  | (rs, as), .report ap => (rs ++ [ap], as)
  | (rs, as), .attempt dst => (rs, as ++ [dst])
  | log, _ => log

/-- Reports and attempts since the last `StartScanning`. -/
def scanLog (tr : List (Event Addr Ssid Snr)) : List (ApInfo Addr Ssid Snr) × List Addr :=
  tr.foldl scanStep ([], [])

def reports (tr : List (Event Addr Ssid Snr)) : List (ApInfo Addr Ssid Snr) := (scanLog tr).1

def attempts (tr : List (Event Addr Ssid Snr)) : List Addr := (scanLog tr).2

theorem scanLog_append (tr l : List (Event Addr Ssid Snr)) :
    scanLog (tr ++ l) = l.foldl scanStep (scanLog tr) := List.foldl_append

/-! ## Events that leave it alone -/

variable (s : Core Addr Ssid Snr)

theorem startScanning_scanLog : scanLog s.startScanning.trace = ([], []) := by
  rw [s.startScanning_trace, scanLog_append]
  split_ifs <;> simp [scanStep]

theorem setState_scanLog (value : MacState) :
    scanLog (s.setState value).trace = scanLog s.trace := by
  rw [s.setState_trace, scanLog_append, Core.stateEvents]
  split_ifs <;> simp [scanStep]

theorem request_scanLog (isReassoc : Bool) :
    scanLog ((s.setState .waitAssocResp).sendAssociationRequest isReassoc).trace =
      scanLog s.trace := by
  rw [← setState_scanLog s .waitAssocResp]
  exact scanLog_append _ _

theorem attempt_scanLog (selectors : List Nat) {bestAp : ApInfo Addr Ssid Snr}
    {rest : List (ApInfo Addr Ssid Snr)} (h : s.candidateAps = bestAp :: rest) :
    scanLog (s.scanningTimeout selectors).trace =
      ((scanLog s.trace).1, (scanLog s.trace).2 ++ [s.attemptAddr selectors bestAp]) := by
  rw [s.scanningTimeout_cons h, scanLog_append]
  split_ifs <;> simp [scanStep]

/-! ## The invariant -/

variable [DecidableEq Addr] [LinearOrder Snr] [LinearOrder Db] {c : Config Addr Ssid Snr Db}
  {s}

structure Handoff (c : Config Addr Ssid Snr Db) (s : Core Addr Ssid Snr) : Prop where
  split : ∃ done, reference c (reports s.trace) = done ++ s.candidateAps ∧
    attempts s.trace = done.map (·.bssid)
  scanning : s.state = .waitProbeResp ∨ s.state = .waitBeacon → attempts s.trace = []

theorem Handoff.mono {t : Core Addr Ssid Snr} (h : Handoff c s)
    (hlist : t.candidateAps = s.candidateAps) (hlog : scanLog t.trace = scanLog s.trace)
    (hstate : t.state = .waitProbeResp ∨ t.state = .waitBeacon →
      s.state = .waitProbeResp ∨ s.state = .waitBeacon) : Handoff c t := by
  obtain ⟨hsplit, hscan⟩ := h
  constructor
  · rw [reports, attempts, hlog, hlist]
    exact hsplit
  · rw [attempts, hlog]
    exact fun ht => hscan (hstate ht)

theorem startScanning_handoff (s : Core Addr Ssid Snr) : Handoff c s.startScanning := by
  constructor
  · refine ⟨[], ?_, ?_⟩
    · rw [reports, startScanning_scanLog, s.startScanning_candidateAps]
      rfl
    · rw [attempts, startScanning_scanLog]
      rfl
  · intro _
    rw [attempts, startScanning_scanLog]

theorem report_handoff (h : Handoff c s)
    (hstate : s.state = .waitProbeResp ∨ s.state = .waitBeacon) (ap : ApInfo Addr Ssid Snr) :
    Handoff c (s.updateCandidateApList c ap) := by
  obtain ⟨done, hsplit, hdone⟩ := h.split
  have hnone := h.scanning hstate
  -- nothing has been attempted, so the list is the whole reference
  obtain rfl : done = [] := by
    rw [hnone] at hdone
    exact List.map_eq_nil_iff.mp hdone.symm
  have hlog : scanLog (s.updateCandidateApList c ap).trace =
      ((scanLog s.trace).1 ++ [ap], (scanLog s.trace).2) := by
    simp [Core.updateCandidateApList, scanLog_append, scanStep]
  constructor
  · refine ⟨[], ?_, ?_⟩
    · rw [reports, hlog]
      rw [reports, List.nil_append] at hsplit
      simp only [List.nil_append, Core.updateCandidateApList]
      rw [← hsplit, updateList_reference]
    · rw [attempts, hlog]
      exact hdone
  · intro _
    rw [attempts, hlog]
    exact hnone

theorem scanningTimeout_handoff (h : Handoff c s) : Handoff c (s.scanningTimeout []) := by
  cases hlist : s.candidateAps with
  | nil =>
      rw [s.scanningTimeout_nil hlist]
      exact startScanning_handoff s
  | cons bestAp rest =>
      obtain ⟨done, hsplit, hdone⟩ := h.split
      have hlog := attempt_scanLog s [] hlist
      constructor
      · refine ⟨done ++ [bestAp], ?_, ?_⟩
        · rw [reports, hlog, s.scanningTimeout_cons hlist]
          rw [hlist] at hsplit
          simpa [reports] using hsplit
        · rw [attempts, hlog]
          rw [attempts] at hdone
          simp [hdone]
      · intro hstate
        rw [s.scanningTimeout_cons hlist] at hstate
        simp at hstate

/-- **The step lemma.** -/
theorem effect_handoff (hsel : c.selectors = []) {t : Core Addr Ssid Snr}
    {i : Input Addr Ssid Snr} (h : Handoff c s) (heff : Effect c s i t) : Handoff c t := by
  cases heff with
  | stay => exact h
  | report ap hstate => exact report_handoff h hstate ap
  | strongBeacon hstate =>
      refine h.mono rfl ?_ id
      rw [Core.note_trace, scanLog_append]
      rfl
  | weakBeacon hstate hactive => exact startScanning_handoff _
  | weakBeaconPassive hstate hactive ap =>
      refine report_handoff (startScanning_handoff _) ?_ ap
      have hwait : s.disconnect.state = .waitBeacon := by simp [hactive]
      exact Or.inr hwait
  | probeTimer hpending =>
      rw [hsel]
      exact scanningTimeout_handoff (h.mono rfl rfl id)
  | beaconTimer hpending =>
      rw [hsel]
      exact scanningTimeout_handoff (h.mono rfl rfl id)
  | accept hstate =>
      refine h.mono rfl ?_ (by simp)
      rw [Core.note_trace, scanLog_append, setState_scanLog]
      rfl
  | refuse hi hstate hnone =>
      refine h.mono rfl ?_ (by simp)
      rw [Core.note_trace, scanLog_append, setState_scanLog]
      rfl
  | nextAp hi hstate hsome =>
      rw [hsel]
      exact scanningTimeout_handoff (h.mono rfl rfl id)
  | missedBeacons => exact startScanning_handoff _
  | unassociatedEnqueue hstate => exact startScanning_handoff _
  | probingMode enable => exact h.mono rfl rfl id
  | probingRestart enable hstate => exact startScanning_handoff _
  | reassociate hstate =>
      exact h.mono rfl (request_scanLog s true) (by simp [Core.sendAssociationRequest])

/-- Only a refusal with an empty list leads to `REFUSED`. -/
theorem effect_refused {s t : Core Addr Ssid Snr} {i : Input Addr Ssid Snr}
    (heff : Effect c s i t) (ht : t.state = .refused) (hs : s.state ≠ .refused) :
    IsRefusal c i ∧ s.state = .waitAssocResp ∧ s.candidateAps = [] := by
  cases heff with
  | stay => exact absurd ht hs
  | report ap hstate => exact absurd ht hs
  | strongBeacon hstate => exact absurd ht hs
  | weakBeacon hstate hactive => simp [hactive] at ht
  | weakBeaconPassive hstate hactive ap => simp [Core.updateCandidateApList, hactive] at ht
  | probeTimer hpending => exact absurd ht (Core.scanningTimeout_ne _ (by decide) _)
  | beaconTimer hpending => exact absurd ht (Core.scanningTimeout_ne _ (by decide) _)
  | accept hstate => simp at ht
  | refuse hi hstate hnone => exact ⟨hi, hstate, hnone⟩
  | nextAp hi hstate hsome => exact absurd ht (Core.scanningTimeout_ne _ (by decide) _)
  | missedBeacons => exact absurd ht (Core.startScanning_ne _ (by decide))
  | unassociatedEnqueue hstate => exact absurd ht (Core.startScanning_ne _ (by decide))
  | probingMode enable => exact absurd ht hs
  | probingRestart enable hstate => exact absurd ht (Core.startScanning_ne _ (by decide))
  | reassociate hstate => simp [Core.sendAssociationRequest] at ht

/-! ## Runs -/

variable [DecidableEq Ssid]

theorem step_handoff (hsel : c.selectors = []) {s s' : Sta Addr Ssid Snr}
    {i : Input Addr Ssid Snr} (h : Handoff c s.toCore) (hstep : step c s i = some s') :
    Handoff c s'.toCore := by
  rcases step_effect hstep with ⟨-, -, hcore⟩ | ⟨-, heff⟩
  · rw [hcore]
    exact h.mono rfl (request_scanLog _ false)
      (by simp [Core.assocRequestTimeout, Core.sendAssociationRequest])
  · exact effect_handoff hsel h heff

/-- **The run lemma.** -/
theorem run_handoff (hsel : c.selectors = []) {bssid : Addr} {activeProbing : Bool}
    {is : List (Input Addr Ssid Snr)} {s : Sta Addr Ssid Snr}
    (h : run (step c) (init bssid activeProbing) is = some s) : Handoff c s.toCore :=
  run_inv (P := fun s : Sta Addr Ssid Snr => Handoff c s.toCore)
    (fun _ _ _ hs hstep => step_handoff hsel hs hstep) (startScanning_handoff _) h

/-- **The candidate list is its reference.** In every reachable state, with
the reports and attempts since the last `StartScanning`: the reference list
is as it should be; the attempts went to its first entries, in order, and
the candidate list is the rest of it, all of it while scanning. A refusal
makes the next attempt go to the next entry, or, if there is none, leads to
`REFUSED`; nothing else does. -/
theorem candidates_reference (c : Config Addr Ssid Snr Db) (hsel : c.selectors = [])
    (bssid : Addr) (activeProbing : Bool) (is : List (Input Addr Ssid Snr))
    (s : Sta Addr Ssid Snr) (h : run (step c) (init bssid activeProbing) is = some s) :
    CandidateSpec c (reports s.trace) (reference c (reports s.trace)) ∧
    s.candidateAps = (reference c (reports s.trace)).drop (attempts s.trace).length ∧
    attempts s.trace =
      ((reference c (reports s.trace)).take (attempts s.trace).length).map (·.bssid) ∧
    (s.state = .waitProbeResp ∨ s.state = .waitBeacon → attempts s.trace = []) ∧
    ∀ i s', step c s i = some s' →
      (IsRefusal c i → s.state = .waitAssocResp →
        match (reference c (reports s.trace))[(attempts s.trace).length]? with
        | some ap => s'.state = .waitAssocResp ∧ attempts s'.trace = attempts s.trace ++ [ap.bssid]
        | none => s'.state = .refused) ∧
      (s'.state = .refused → s.state ≠ .refused →
        IsRefusal c i ∧ s.state = .waitAssocResp ∧
          (attempts s.trace).length = (reference c (reports s.trace)).length) := by
  obtain ⟨⟨done, hsplit, hdone⟩, hscan⟩ := run_handoff hsel h
  have hlen : (attempts s.trace).length = done.length := by rw [hdone, List.length_map]
  refine ⟨reference_spec c _, ?_, ?_, hscan,
    fun i s' hstep => ⟨fun hi hstate => ?_, fun ht hs => ?_⟩⟩
  · rw [hsplit, hlen, List.drop_left]
  · rw [hsplit, hlen, List.take_left, hdone]
  · have hcore := refusal_core hi hstate hstep
    rw [hsplit, hlen, List.getElem?_append_right le_rfl, Nat.sub_self]
    cases hlist : s.candidateAps with
    | nil =>
        rw [if_pos hlist] at hcore
        simp only [List.getElem?_nil]
        rw [hcore]
        rfl
    | cons ap rest =>
        rw [if_neg (by simp [hlist]), hsel] at hcore
        have hlog := attempt_scanLog s.stopAssocRequest [] hlist
        rw [← hcore, Core.attemptAddr_nil] at hlog
        simp only [List.getElem?_cons_zero]
        refine ⟨?_, by rw [attempts, hlog]; rfl⟩
        rw [hcore, s.stopAssocRequest.scanningTimeout_cons hlist]
  · rcases step_effect hstep with ⟨-, -, hcore⟩ | ⟨-, heff⟩
    · rw [hcore] at ht
      simp [Core.assocRequestTimeout, Core.sendAssociationRequest] at ht
    · obtain ⟨hi, hstate, hnone⟩ := effect_refused heff ht hs
      refine ⟨hi, hstate, ?_⟩
      rw [hsplit, hnone, hlen, List.append_nil]

/-- Two APs at 20 and 30 dB, both of which refuse. -/
def labRefused : List (Input Nat Nat Nat) :=
  [.receive 10000 (labProbeResp 1 100), .receive 11000 (labProbeResp 2 1000),
    .probeRequestTimer 50000, .receive 51000 (labAssocResp 2 false),
    .receive 52000 (labAssocResp 1 false)]

theorem candidates_reference_labRefused : ∃ s,
    run (step labConfig) (init 0 true) labRefused = some s ∧ s.state = .refused ∧
      ((reference labConfig (reports s.trace)).take 2).map (·.bssid) = [2, 1] := by
  have hend : (run (step labConfig) (init 0 true) labRefused).map
      (fun s => (s.state, attempts s.trace)) = some (.refused, [2, 1]) := by decide +kernel
  obtain ⟨s, hs, heq⟩ := Option.map_eq_some_iff.mp hend
  simp only [Prod.mk.injEq] at heq
  obtain ⟨-, -, hattempts, -, -⟩ := candidates_reference labConfig rfl 0 true labRefused s hs
  rw [heq.2] at hattempts
  exact ⟨s, hs, heq.1, hattempts.symm⟩

end StaMac

end NetSystem
