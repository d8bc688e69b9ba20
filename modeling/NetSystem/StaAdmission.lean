import NetSystem.StaCandidates
import NetSystem.StaEffect

/-!
# The SNR admission policy

The station may request or hold an association only with an AP that its
last comparison with the threshold found strong enough (`Admitted`).

The comparison is made when a scan report comes in and on beacons of the
current AP. `Approved` is what the candidate list contributes: every entry
was last found strong enough, because a weak report erases the entry
first. All steps keep `Admitted` but one: the association-request timer is
not cancelled by a rescan, and when it expires then, the request goes to
the BSSID the station still holds, whatever the rescan has found out about
it since. `admitted_iff` says that a run keeps to the policy exactly if
this does not happen in it.
-/

namespace NetSystem

namespace StaMac

variable {Addr Ssid Snr Db : Type*} [DecidableEq Addr]

/-! ## The last comparison -/

/-- What a comparison found about `b`. -/
def verdictOf (b : Addr) : Event Addr Ssid Snr → Option Bool
  | .compared b' ok => if b' = b then some ok else none
  | _ => none

/-- What the last comparison found about `b`. -/
def verdict (tr : List (Event Addr Ssid Snr)) (b : Addr) : Option Bool :=
  (tr.filterMap (verdictOf b)).getLast?

@[simp] theorem verdict_nil (b : Addr) : verdict ([] : List (Event Addr Ssid Snr)) b = none := rfl

@[simp] theorem verdict_cons (e : Event Addr Ssid Snr) (l : List (Event Addr Ssid Snr)) (b : Addr) :
    verdict (e :: l) b = (verdict l b).or (verdictOf b e) := by
  cases he : verdictOf b e with
  | none => simp [verdict, he]
  | some ok =>
      rw [verdict, List.filterMap_cons_some he, List.getLast?_cons, verdict]
      cases (l.filterMap (verdictOf b)).getLast? <;> rfl

theorem verdict_append (tr l : List (Event Addr Ssid Snr)) (b : Addr) :
    verdict (tr ++ l) b = (verdict l b).or (verdict tr b) := by
  simp only [verdict, List.filterMap_append, List.getLast?_append]

/-- The policy. -/
def Admitted (s : Core Addr Ssid Snr) : Prop :=
  s.state = .waitAssocResp ∨ s.state = .associated → verdict s.trace s.bssid = some true

/-- Every candidate was last found strong enough, and is listed once. -/
structure Approved (s : Core Addr Ssid Snr) : Prop where
  ok : ∀ ap ∈ s.candidateAps, verdict s.trace ap.bssid = some true
  nodup : (s.candidateAps.map (·.bssid)).Nodup

theorem approved_of_empty {s : Core Addr Ssid Snr} (h : s.candidateAps = []) : Approved s :=
  ⟨by simp [h], by simp [h]⟩

/-! ## One step -/

/-- Events that are not comparisons change no verdict. -/
theorem verdict_append_of_none {tr l : List (Event Addr Ssid Snr)} {b : Addr}
    (h : verdict l b = none) : verdict (tr ++ l) b = verdict tr b := by
  rw [verdict_append, h, Option.none_or]

theorem Admitted.mono {s t : Core Addr Ssid Snr} (h : Admitted s)
    (hstate : t.state = .waitAssocResp ∨ t.state = .associated →
      s.state = .waitAssocResp ∨ s.state = .associated)
    (hbssid : t.bssid = s.bssid) (hv : ∀ b, verdict t.trace b = verdict s.trace b) :
    Admitted t := by
  intro ht
  rw [hbssid, hv]
  exact h (hstate ht)

theorem Approved.mono {s t : Core Addr Ssid Snr} (h : Approved s)
    (hlist : t.candidateAps = s.candidateAps) (hv : ∀ b, verdict t.trace b = verdict s.trace b) :
    Approved t := by
  refine ⟨fun ap hap => ?_, ?_⟩
  · rw [hv]
    exact h.ok ap (hlist ▸ hap)
  · rw [hlist]
    exact h.nodup

theorem setState_verdict (s : Core Addr Ssid Snr) (value : MacState) (b : Addr) :
    verdict (s.setState value).trace b = verdict s.trace b := by
  refine verdict_append_of_none ?_
  unfold Core.stateEvents
  split_ifs <;> simp [verdictOf]

theorem note_verdict (s : Core Addr Ssid Snr) {e : Event Addr Ssid Snr} {b : Addr}
    (he : verdictOf b e = none) : verdict (s.note e).trace b = verdict s.trace b :=
  verdict_append_of_none (by simp [he])

theorem request_verdict (s : Core Addr Ssid Snr) (isReassoc : Bool) (b : Addr) :
    verdict ((s.setState .waitAssocResp).sendAssociationRequest isReassoc).trace b =
      verdict s.trace b := by
  rw [← setState_verdict s .waitAssocResp b]
  exact note_verdict (s.setState .waitAssocResp) rfl

theorem startScanning_admitted (s : Core Addr Ssid Snr) : Admitted s.startScanning := by
  intro h
  cases hactive : s.activeProbing <;> simp [hactive] at h

theorem startScanning_approved (s : Core Addr Ssid Snr) : Approved s.startScanning :=
  approved_of_empty (by simp)

/-- `ScanningTimeout` picks an approved AP, or scans again. -/
theorem scanningTimeout_admitted {s : Core Addr Ssid Snr} (h : Approved s) :
    Admitted (s.scanningTimeout []) ∧ Approved (s.scanningTimeout []) := by
  cases hc : s.candidateAps with
  | nil =>
      rw [s.scanningTimeout_nil hc]
      exact ⟨startScanning_admitted s, startScanning_approved s⟩
  | cons bestAp rest =>
      have hquiet : ∀ b, verdict (s.scanningTimeout []).trace b = verdict s.trace b := by
        intro b
        rw [s.scanningTimeout_cons hc]
        refine verdict_append_of_none ?_
        split <;> simp [verdictOf]
      have hok := h.ok
      have hnodup := h.nodup
      rw [hc] at hok hnodup
      refine ⟨fun _ => ?_, fun ap hap => ?_, ?_⟩
      · rw [hquiet, s.scanningTimeout_cons hc, Core.attemptAddr_nil]
        exact hok bestAp (by simp)
      · rw [s.scanningTimeout_cons hc] at hap
        rw [hquiet]
        exact hok ap (List.mem_cons_of_mem bestAp hap)
      · rw [s.scanningTimeout_cons hc]
        exact (List.nodup_cons.mp hnodup).2

variable [LinearOrder Snr] [LinearOrder Db] {c : Config Addr Ssid Snr Db}

theorem report_approved {s : Core Addr Ssid Snr} (h : Approved s) (ap : ApInfo Addr Ssid Snr) :
    Approved (s.updateCandidateApList c ap) := by
  constructor
  · intro x hx
    simp only [Core.updateCandidateApList, Core.note_trace] at hx ⊢
    rw [mem_updateList h.nodup] at hx
    rw [List.append_assoc, verdict_append]
    rcases hx with ⟨rfl, hstrong⟩ | ⟨hx, hne⟩
    · simp [verdictOf, hstrong]
    · simpa [verdictOf, hne] using h.ok x hx
  · exact updateList_nodup ap h.nodup

/-- **The step lemma**, for all that `Effect` lists. -/
theorem effect_admitted (hsel : c.selectors = []) {s t : Core Addr Ssid Snr}
    {i : Input Addr Ssid Snr} (happ : Approved s) (heff : Effect c s i t) :
    (Admitted s → Admitted t) ∧ Approved t := by
  cases heff with
  | stay => exact ⟨id, happ⟩
  | report ap hstate =>
      refine ⟨fun _ h => ?_, report_approved happ ap⟩
      have hsame : (s.updateCandidateApList c ap).state = s.state := rfl
      rw [hsame] at h
      rcases hstate with hstate | hstate <;> simp [hstate] at h
  | strongBeacon hstate =>
      have hv : ∀ b, verdict (s.note (.compared s.bssid true)).trace b =
          if s.bssid = b then some true else verdict s.trace b := by
        intro b
        rw [Core.note_trace, verdict_append]
        by_cases hb : s.bssid = b <;> simp [verdictOf, hb]
      refine ⟨fun _ _ => ?_, fun ap hap => ?_, happ.nodup⟩
      · rw [hv, Core.note_bssid, if_pos rfl]
      · rw [hv]
        split
        · rfl
        · exact happ.ok ap hap
  | weakBeacon hstate hactive =>
      exact ⟨fun _ => startScanning_admitted _, startScanning_approved _⟩
  | weakBeaconPassive hstate hactive ap =>
      refine ⟨fun _ h => ?_, report_approved (startScanning_approved _) ap⟩
      have hwait : (s.disconnect.updateCandidateApList c ap).state = .waitBeacon := by
        simp [Core.updateCandidateApList, hactive]
      simp [hwait] at h
  | probeTimer hpending =>
      rw [hsel]
      have hkeep : Approved { s with probeRequestEvent := false } := happ.mono rfl fun _ => rfl
      exact ⟨fun _ => (scanningTimeout_admitted hkeep).1, (scanningTimeout_admitted hkeep).2⟩
  | beaconTimer hpending =>
      rw [hsel]
      have hkeep : Approved { s with waitBeaconEvent := false } := happ.mono rfl fun _ => rfl
      exact ⟨fun _ => (scanningTimeout_admitted hkeep).1, (scanningTimeout_admitted hkeep).2⟩
  | accept hstate =>
      have hv : ∀ b, verdict ((s.stopAssocRequest.setState .associated).note .linkUp).trace b =
          verdict s.trace b := by
        intro b
        rw [note_verdict _ rfl, setState_verdict]
        rfl
      exact ⟨fun h => h.mono (fun _ => Or.inl hstate) rfl hv, happ.mono rfl hv⟩
  | refuse hi hstate hnone =>
      exact ⟨fun _ h => by simp at h, approved_of_empty hnone⟩
  | nextAp hi hstate hsome =>
      rw [hsel]
      have hkeep : Approved s.stopAssocRequest := happ.mono rfl fun _ => rfl
      exact ⟨fun _ => (scanningTimeout_admitted hkeep).1, (scanningTimeout_admitted hkeep).2⟩
  | missedBeacons => exact ⟨fun _ => startScanning_admitted _, startScanning_approved _⟩
  | unassociatedEnqueue hstate =>
      exact ⟨fun _ => startScanning_admitted _, startScanning_approved _⟩
  | probingMode enable => exact ⟨fun h => h.mono id rfl fun _ => rfl, happ.mono rfl fun _ => rfl⟩
  | probingRestart enable hstate =>
      exact ⟨fun _ => startScanning_admitted _, startScanning_approved _⟩
  | reassociate hstate =>
      have hv := request_verdict s true
      exact ⟨fun h => h.mono (fun _ => Or.inr hstate) rfl hv, happ.mono rfl hv⟩

/-! ## Runs -/

variable [DecidableEq Ssid]

/-- The step does not repeat an association request outside the wait for a
response, for an AP that was last found too weak. -/
def NoStaleRequest (s : Sta Addr Ssid Snr) (i : Input Addr Ssid Snr) : Prop :=
  i = .assocRequestTimer → s.assocRequestEvent = true → s.state ≠ .waitAssocResp →
    verdict s.trace s.bssid = some true

theorem step_approved (hsel : c.selectors = []) {s s' : Sta Addr Ssid Snr}
    {i : Input Addr Ssid Snr} (happ : Approved s.toCore) (h : step c s i = some s') :
    Approved s'.toCore := by
  rcases step_effect h with ⟨-, -, hcore⟩ | ⟨-, heff⟩
  · rw [hcore]
    exact happ.mono rfl (request_verdict _ false)
  · exact (effect_admitted hsel happ heff).2

/-- A step out of a state that keeps to the policy. -/
theorem step_admitted_iff (hsel : c.selectors = []) {s s' : Sta Addr Ssid Snr}
    {i : Input Addr Ssid Snr} (happ : Approved s.toCore) (hadm : Admitted s.toCore)
    (h : step c s i = some s') : Admitted s'.toCore ↔ NoStaleRequest s i := by
  rcases step_effect h with ⟨rfl, hpending, hcore⟩ | ⟨hi, heff⟩
  · have hgood : Admitted s'.toCore ↔ verdict s.trace s.bssid = some true := by
      rw [hcore, Admitted, Core.assocRequestTimeout, request_verdict]
      exact ⟨fun hall => hall (Or.inl rfl), fun hv _ => hv⟩
    rw [hgood]
    constructor
    · intro hv _ _ _
      exact hv
    · intro hno
      by_cases hstate : s.state = .waitAssocResp
      · exact hadm (Or.inl hstate)
      · exact hno rfl hpending hstate
  · exact iff_of_true ((effect_admitted hsel happ heff).1 hadm) fun heq => absurd heq hi

/-- **When the station keeps to the admission policy.** For every run: in
every state that is `WAIT_ASSOC_RESP` or `ASSOCIATED` the last comparison
made for the current BSSID found it at or above the threshold, if and only
if in no step the association-request timer expires outside
`WAIT_ASSOC_RESP` while the AP held was last found below it. -/
theorem admitted_iff (c : Config Addr Ssid Snr Db) (hsel : c.selectors = []) (bssid : Addr)
    (activeProbing : Bool) (is : List (Input Addr Ssid Snr)) :
    Always (step c) (fun s => Admitted s.toCore) (init bssid activeProbing) is ↔
      EachStep (step c) NoStaleRequest (init bssid activeProbing) is := by
  refine always_iff_eachStep (I := fun s => Approved s.toCore) ?_ ?_ ?_ ?_ ?_
  · intro s i s' happ h
    exact step_approved hsel happ h
  · intro s i s' happ hadm h
    exact step_admitted_iff hsel happ hadm h
  · intro s i hnone hi hpending
    rw [hi, step, if_pos hpending] at hnone
    cases hnone
  · exact startScanning_approved _
  · exact startScanning_admitted _

/-! ## Two runs of the lab station -/

/-- One AP at 30 dB, attempted and joined. -/
def labJoin : List (Input Nat Nat Nat) :=
  [.receive 10000 (labProbeResp 1 1000), .probeRequestTimer 50000,
    .receive 51000 (labAssocResp 1 true)]

theorem admitted_labJoin :
    Always (step labConfig) (fun s => Admitted s.toCore) (init 0 true) labJoin := by
  refine (admitted_iff labConfig rfl 0 true labJoin).mpr ?_
  intro js i t hpre _ hi
  have hmem : Input.assocRequestTimer ∈ labJoin := hi ▸ hpre.subset (by simp)
  exact absurd hmem (by decide)

/-- With the default timeouts: the AP does not answer the requests, which
are repeated after 0.5 s; the watchdog expires 1.024 s after the attempt and
the station scans again, with the timer of the last request still running.
The AP is now at 10 dB, and the scan is repeated every 50 ms until that
timer expires. -/
def labStale : List (Input Nat Nat Nat) :=
  [Input.receive 10000 (labProbeResp 1 1000), .probeRequestTimer 50000, .assocRequestTimer,
    .assocRequestTimer, .beaconWatchdog 1074000, .receive 1080000 (labProbeResp 1 10)] ++
  (List.range 9).map (fun k => Input.probeRequestTimer (1124000 + 50000 * k)) ++
  [Input.assocRequestTimer]

theorem stale_request :
    ¬ Always (step labConfig) (fun s => Admitted s.toCore) (init 0 true) labStale := by
  intro hall
  have hend : (run (step labConfig) (init 0 true) labStale).map
      (fun s => (s.state, s.bssid, verdict s.trace s.bssid)) =
        some (.waitAssocResp, 1, some false) := by decide +kernel
  obtain ⟨s, hs, heq⟩ := Option.map_eq_some_iff.mp hend
  simp only [Prod.mk.injEq] at heq
  have hadm := hall labStale s (List.prefix_refl _) hs (Or.inl heq.1)
  rw [heq.2.2] at hadm
  cases hadm

end StaMac

end NetSystem
