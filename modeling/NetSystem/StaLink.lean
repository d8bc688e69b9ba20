import NetSystem.StaTimers

/-!
# The link callbacks of the handoff station

`StaWifiMac` tells its device through the link callbacks whether the link is
up. `linkIsUp` is what the device believes, the last callback it got;
`LinkAgrees` says that this is whether the station is `ASSOCIATED`.

The station is associated only with the callback made, but not every way out
of `ASSOCIATED` goes through `TryToEnsureAssociated`, which makes the other:
the expiry of a scan timer and a change of the PHY leave the link up.
`link_agrees_iff` says that these are the only ones, for every run. The
traces `Assoc` and `DeAssoc` come with `SetState` and are always right.
-/

namespace NetSystem

namespace StaMac

variable {Addr Ssid Snr Db : Type*}

/-! ## What the device believes -/

def linkAfter (up : Bool) : Event Addr Ssid Snr → Bool
  | .linkUp => true
  | .linkDown => false
  | .probeRequest | .assocRequest _ _ | .disassociation _ | .assoc _ | .deAssoc _ | .scan _
  | .report _ | .compared _ _ | .attempt _ | .refused => up

def linkIsUp (tr : List (Event Addr Ssid Snr)) : Bool := tr.foldl linkAfter false

def LinkAgrees (s : Core Addr Ssid Snr) : Prop :=
  linkIsUp s.trace = true ↔ s.state = .associated

@[simp] theorem linkIsUp_append (tr l : List (Event Addr Ssid Snr)) :
    linkIsUp (tr ++ l) = l.foldl linkAfter (linkIsUp tr) := List.foldl_append

@[simp] theorem stateEvents_link (value : MacState) (s : Core Addr Ssid Snr) (up : Bool) :
    (s.stateEvents value).foldl linkAfter up = up := by
  unfold Core.stateEvents
  split_ifs <;> rfl

@[simp] theorem startScanning_link (s : Core Addr Ssid Snr) :
    linkIsUp s.startScanning.trace = linkIsUp s.trace := by
  rw [Core.startScanning_trace, linkIsUp_append]
  split_ifs <;> rfl

@[simp] theorem scanningTimeout_link (selectors : List Nat) (s : Core Addr Ssid Snr) :
    linkIsUp (s.scanningTimeout selectors).trace = linkIsUp s.trace := by
  cases hlist : s.candidateAps with
  | nil => rw [s.scanningTimeout_nil hlist, startScanning_link]
  | cons bestAp rest =>
      rw [s.scanningTimeout_cons hlist, linkIsUp_append]
      split_ifs <;> rfl

/-! ## Steps -/

theorem linkAgrees_of_down {s : Core Addr Ssid Snr} (hlink : linkIsUp s.trace = false)
    (hstate : s.state ≠ .associated) : LinkAgrees s := by
  refine iff_of_false ?_ hstate
  rw [hlink]
  exact Bool.false_ne_true

theorem not_linkAgrees {s : Core Addr Ssid Snr} (hlink : linkIsUp s.trace = true)
    (hstate : s.state ≠ .associated) : ¬ LinkAgrees s := fun h => hstate (h.mp hlink)

theorem LinkAgrees.down {s : Core Addr Ssid Snr} (h : LinkAgrees s)
    (hstate : s.state ≠ .associated) : linkIsUp s.trace = false :=
  Bool.eq_false_iff.mpr fun hup => hstate (h.mp hup)

/-- Where a scan starts after the callback, the link is down. -/
theorem linkAgrees_of_linkDown (s : Core Addr Ssid Snr) :
    LinkAgrees (s.note .linkDown).startScanning := by
  refine linkAgrees_of_down ?_ (Core.startScanning_ne _ (by decide))
  rw [startScanning_link]
  simp [linkAfter]

theorem disconnect_linkAgrees (s : Core Addr Ssid Snr) : LinkAgrees s.disconnect := by
  rw [Core.disconnect, Core.rescan_eq]
  exact linkAgrees_of_linkDown _

section Steps

variable [DecidableEq Addr] [LinearOrder Snr] [LinearOrder Db] {c : Config Addr Ssid Snr Db}

theorem report_linkAgrees {s : Core Addr Ssid Snr} (h : LinkAgrees s) (ap : ApInfo Addr Ssid Snr) :
    LinkAgrees (s.updateCandidateApList c ap) := by
  simpa [LinkAgrees, Core.updateCandidateApList, linkAfter] using h

/-- A station that is not associated makes no mistake. -/
theorem effect_linkAgrees {s t : Core Addr Ssid Snr} {i : Input Addr Ssid Snr} (h : LinkAgrees s)
    (hstate : s.state ≠ .associated) (heff : Effect c s i t) : LinkAgrees t := by
  have hdown := h.down hstate
  cases heff with
  | stay => exact h
  | report ap hscan => exact report_linkAgrees h ap
  | strongBeacon hassoc => exact absurd hassoc hstate
  | weakBeacon hassoc hactive => exact absurd hassoc hstate
  | weakBeaconPassive hassoc hactive ap => exact absurd hassoc hstate
  | probeTimer hpending =>
      exact linkAgrees_of_down (by simpa using hdown) (Core.scanningTimeout_ne _ (by decide) _)
  | beaconTimer hpending =>
      exact linkAgrees_of_down (by simpa using hdown) (Core.scanningTimeout_ne _ (by decide) _)
  | accept hwait => exact iff_of_true (by simp [linkAfter]) rfl
  | refuse hi hwait hnone =>
      refine linkAgrees_of_down ?_ (by simp)
      simpa [linkAfter, Core.stopAssocRequest] using hdown
  | nextAp hi hwait hsome =>
      refine linkAgrees_of_down ?_ (Core.scanningTimeout_ne _ (by decide) _)
      simpa [Core.stopAssocRequest] using hdown
  | missedBeacons => exact linkAgrees_of_linkDown _
  | unassociatedEnqueue hun => exact linkAgrees_of_linkDown _
  | probingMode enable => exact h
  | probingRestart enable hscan =>
      refine linkAgrees_of_down ?_ (Core.startScanning_ne _ (by decide))
      rw [startScanning_link]
      exact hdown
  | reassociate hassoc => exact absurd hassoc hstate

variable [DecidableEq Ssid]

/-- An associated station does not lose the association to a scan timer or
to a change of the PHY. -/
def KeepsLink (s : Sta Addr Ssid Snr) (i : Input Addr Ssid Snr) : Prop :=
  s.state = .associated → i ≠ .phyCapabilitiesChanged ∧
    (s.probeRequestEvent = true → ∀ now, i ≠ .probeRequestTimer now) ∧
    (s.waitBeaconEvent = true → ∀ now, i ≠ .waitBeaconTimer now)

theorem receive_linkAgrees {now : Nat} {f : Frame Addr Ssid Snr} {s : Sta Addr Ssid Snr}
    (h : LinkAgrees s.toCore) (hstate : s.state = .associated) :
    LinkAgrees (s.receive c now f).toCore := by
  rcases receive_cases c now f s with hsame | ⟨s₁, hcore, -, hcases⟩
  · rw [hsame]
    exact h
  · rw [← hcore] at h hstate
    rcases hcases with ⟨b, -, heq⟩ | ⟨p, -, heq⟩ | ⟨isSuccess, aid, -, heq⟩
    · rw [heq]
      rcases receiveBeacon_of_associated c now f b hstate with
        hsame | ⟨-, -, ⟨-, hbeacon⟩ | ⟨-, -, hbeacon⟩ | ⟨-, -, ap, hbeacon⟩⟩
      · rw [hsame]
        exact h
      · rw [hbeacon]
        simpa [LinkAgrees, linkAfter] using h
      · rw [hbeacon]
        exact disconnect_linkAgrees _
      · rw [hbeacon]
        exact report_linkAgrees (disconnect_linkAgrees _) ap
    · rw [heq, Sta.receiveProbeResp, if_neg (by simp [hstate])]
      exact h
    · rw [heq, Sta.receiveAssocResp, if_neg (by simp [hstate])]
      exact h

/-- **The step lemma** for an associated station. -/
theorem step_link_of_associated {s s' : Sta Addr Ssid Snr} {i : Input Addr Ssid Snr}
    (hrequest : s.assocRequestEvent = false) (h : LinkAgrees s.toCore)
    (hstate : s.state = .associated) (hs' : step c s i = some s') :
    LinkAgrees s'.toCore ↔ KeepsLink s i := by
  have hup : linkIsUp s.trace = true := h.mpr hstate
  cases i with
  | receive now f =>
      obtain rfl := Option.some.inj hs'
      exact iff_of_true (receive_linkAgrees h hstate) fun _ => ⟨by simp, by simp, by simp⟩
  | probeRequestTimer now =>
      rw [step] at hs'
      split at hs'
      · rename_i hpending
        obtain rfl := Option.some.inj hs'
        refine iff_of_false ?_ fun hkeep => (hkeep hstate).2.1 hpending now rfl
        rw [Sta.scanningTimeout_toCore]
        exact not_linkAgrees (by simpa using hup) (Core.scanningTimeout_ne _ (by decide) _)
      · cases hs'
  | waitBeaconTimer now =>
      rw [step] at hs'
      split at hs'
      · rename_i hpending
        obtain rfl := Option.some.inj hs'
        refine iff_of_false ?_ fun hkeep => (hkeep hstate).2.2 hpending now rfl
        rw [Sta.scanningTimeout_toCore]
        exact not_linkAgrees (by simpa using hup) (Core.scanningTimeout_ne _ (by decide) _)
      · cases hs'
  | assocRequestTimer =>
      rw [step, hrequest] at hs'
      cases hs'
  | beaconWatchdog now =>
      refine iff_of_true ?_ fun _ => ⟨by simp, by simp, by simp⟩
      rw [step] at hs'
      split at hs'
      · obtain rfl := Option.some.inj hs'
        unfold Sta.missedBeacons
        split
        · exact h
        · exact linkAgrees_of_linkDown _
      · cases hs'
  | enqueue dst =>
      obtain rfl := Option.some.inj hs'
      refine iff_of_true ?_ fun _ => ⟨by simp, by simp, by simp⟩
      rw [Sta.enqueue, if_pos hstate]
      exact h
  | setActiveProbing enable =>
      obtain rfl := Option.some.inj hs'
      refine iff_of_true ?_ fun _ => ⟨by simp, by simp, by simp⟩
      rw [Sta.onCore_toCore, Core.setActiveProbing, if_neg (by simp [hstate])]
      exact h
  | phyCapabilitiesChanged =>
      obtain rfl := Option.some.inj hs'
      refine iff_of_false ?_ fun hkeep => (hkeep hstate).1 rfl
      rw [Sta.onCore_toCore, Core.phyCapabilitiesChanged, if_pos hstate]
      refine not_linkAgrees ?_ (by simp [Core.sendAssociationRequest])
      simpa [Core.sendAssociationRequest, linkAfter] using hup

theorem step_link_iff {s s' : Sta Addr Ssid Snr} {i : Input Addr Ssid Snr}
    (hrequest : s.state = .associated → s.assocRequestEvent = false) (h : LinkAgrees s.toCore)
    (hs' : step c s i = some s') : LinkAgrees s'.toCore ↔ KeepsLink s i := by
  by_cases hstate : s.state = .associated
  · exact step_link_of_associated (hrequest hstate) h hstate hs'
  · refine iff_of_true ?_ fun hassoc => absurd hassoc hstate
    rcases step_effect hs' with ⟨-, -, hcore⟩ | ⟨-, heff⟩
    · have hdown := h.down hstate
      rw [hcore]
      refine linkAgrees_of_down ?_ (by simp [Core.assocRequestTimeout, Core.sendAssociationRequest])
      simpa [Core.assocRequestTimeout, Core.sendAssociationRequest, Core.stopAssocRequest,
        linkAfter] using hdown
    · exact effect_linkAgrees h hstate heff

end Steps

/-! ## The traces -/

def sessionAfter (on : Bool) : Event Addr Ssid Snr → Bool
  | .assoc _ => true
  | .deAssoc _ => false
  | .probeRequest | .assocRequest _ _ | .disassociation _ | .linkUp | .linkDown | .scan _
  | .report _ | .compared _ _ | .attempt _ | .refused => on

/-- The last of the `Assoc` and `DeAssoc` traces was an `Assoc`. -/
def sessionIsOn (tr : List (Event Addr Ssid Snr)) : Bool := tr.foldl sessionAfter false

def SessionAgrees (s : Core Addr Ssid Snr) : Prop :=
  sessionIsOn s.trace = true ↔ s.state = .associated

@[simp] theorem sessionIsOn_append (tr l : List (Event Addr Ssid Snr)) :
    sessionIsOn (tr ++ l) = l.foldl sessionAfter (sessionIsOn tr) := List.foldl_append

theorem SessionAgrees.note {s : Core Addr Ssid Snr} (h : SessionAgrees s)
    {e : Event Addr Ssid Snr} (he : ∀ on, sessionAfter on e = on) : SessionAgrees (s.note e) := by
  simpa [SessionAgrees, he] using h

/-- `SetState` logs every change. -/
theorem SessionAgrees.setState {s : Core Addr Ssid Snr} (h : SessionAgrees s)
    (value : MacState) : SessionAgrees (s.setState value) := by
  rw [SessionAgrees, Core.setState_trace, sessionIsOn_append, Core.setState_state,
    Core.stateEvents]
  by_cases hvalue : value = .associated
  · by_cases hstate : s.state = .associated
    · simpa [hvalue, hstate] using h.mpr hstate
    · simp [hvalue, hstate, sessionAfter]
  · by_cases hstate : s.state = .associated
    · simp [hvalue, hstate, sessionAfter]
    · simpa [hvalue, hstate] using fun hon => hstate (h.mp hon)

theorem SessionAgrees.startScanning {s : Core Addr Ssid Snr} (h : SessionAgrees s) :
    SessionAgrees s.startScanning := by
  have hnote : SessionAgrees (s.note (.scan s.activeProbing)) := h.note fun _ => rfl
  unfold Core.startScanning
  dsimp only
  split
  · exact (hnote.setState .waitProbeResp).note fun _ => rfl
  · exact hnote.setState .waitBeacon

theorem SessionAgrees.scanningTimeout {s : Core Addr Ssid Snr} (h : SessionAgrees s)
    (selectors : List Nat) : SessionAgrees (s.scanningTimeout selectors) := by
  cases hlist : s.candidateAps with
  | nil =>
      rw [s.scanningTimeout_nil hlist]
      exact h.startScanning
  | cons bestAp rest =>
      rw [s.scanningTimeout_cons hlist]
      refine iff_of_false ?_ (by simp)
      by_cases hstate : s.state = .associated
      · simp [hstate, sessionAfter]
      · simpa [hstate, sessionAfter] using fun hon => hstate (h.mp hon)

/-- The traces agree with the state, and no request is pending while
associated. -/
structure SessionInv (s : Core Addr Ssid Snr) : Prop where
  agrees : SessionAgrees s
  request : s.state = .associated → s.assocRequestEvent = false

theorem SessionAgrees.inv {s : Core Addr Ssid Snr} (h : SessionAgrees s)
    (hstate : s.state ≠ .associated) : SessionInv s :=
  ⟨h, fun hassoc => absurd hassoc hstate⟩

theorem startScanning_sessionInv {s : Core Addr Ssid Snr} (h : SessionAgrees s) :
    SessionInv s.startScanning := h.startScanning.inv (s.startScanning_ne (by decide))

theorem request_sessionInv {s : Core Addr Ssid Snr} (h : SessionAgrees s) (isReassoc : Bool) :
    SessionInv ((s.setState .waitAssocResp).sendAssociationRequest isReassoc) := by
  have hnote : SessionAgrees ((s.setState .waitAssocResp).note (.assocRequest s.bssid isReassoc)) :=
    (h.setState .waitAssocResp).note fun _ => rfl
  exact ⟨hnote, by simp [Core.sendAssociationRequest]⟩

theorem disconnect_sessionAgrees {s : Core Addr Ssid Snr} (h : SessionAgrees s) :
    SessionAgrees s.disconnect := by
  rw [Core.disconnect, Core.rescan_eq, Core.sendDisassociationMsg]
  refine SessionAgrees.startScanning ((SessionAgrees.setState ?_ _).note fun _ => rfl)
  exact SessionAgrees.note (h.note fun _ => rfl) fun _ => rfl

section Runs

variable [DecidableEq Addr] [LinearOrder Snr] [LinearOrder Db] {c : Config Addr Ssid Snr Db}

theorem report_sessionAgrees {s : Core Addr Ssid Snr} (h : SessionAgrees s)
    (ap : ApInfo Addr Ssid Snr) : SessionAgrees (s.updateCandidateApList c ap) :=
  SessionAgrees.note (h.note (e := .report ap) fun _ => rfl) fun _ => rfl

theorem effect_sessionInv {s t : Core Addr Ssid Snr} {i : Input Addr Ssid Snr}
    (h : SessionInv s) (heff : Effect c s i t) : SessionInv t := by
  cases heff with
  | stay => exact h
  | report ap hscan => exact ⟨report_sessionAgrees h.agrees ap, h.request⟩
  | strongBeacon hassoc => exact ⟨h.agrees.note fun _ => rfl, h.request⟩
  | weakBeacon hassoc hactive =>
      exact (disconnect_sessionAgrees h.agrees).inv (s.disconnect_ne (by decide))
  | weakBeaconPassive hassoc hactive ap =>
      exact (report_sessionAgrees (disconnect_sessionAgrees h.agrees) ap).inv
        (s.disconnect_ne (by decide))
  | probeTimer hpending =>
      have hoff : SessionAgrees { s with probeRequestEvent := false } := h.agrees
      exact (hoff.scanningTimeout _).inv (Core.scanningTimeout_ne _ (by decide) _)
  | beaconTimer hpending =>
      have hoff : SessionAgrees { s with waitBeaconEvent := false } := h.agrees
      exact (hoff.scanningTimeout _).inv (Core.scanningTimeout_ne _ (by decide) _)
  | accept hwait =>
      have hstop : SessionAgrees s.stopAssocRequest := h.agrees
      exact ⟨(hstop.setState .associated).note fun _ => rfl, fun _ => rfl⟩
  | refuse hi hwait hnone =>
      have hstop : SessionAgrees s.stopAssocRequest := h.agrees
      exact ⟨(hstop.setState .refused).note fun _ => rfl, by simp⟩
  | nextAp hi hwait hsome =>
      have hstop : SessionAgrees s.stopAssocRequest := h.agrees
      exact (hstop.scanningTimeout _).inv (Core.scanningTimeout_ne _ (by decide) _)
  | missedBeacons => exact startScanning_sessionInv ((h.agrees.setState _).note fun _ => rfl)
  | unassociatedEnqueue hun => exact startScanning_sessionInv (h.agrees.note fun _ => rfl)
  | probingMode enable => exact ⟨h.agrees, h.request⟩
  | probingRestart enable hscan =>
      have hmode : SessionAgrees { s with activeProbing := enable } := h.agrees
      exact startScanning_sessionInv hmode
  | reassociate hassoc => exact request_sessionInv h.agrees true

variable [DecidableEq Ssid]

theorem step_sessionInv {s s' : Sta Addr Ssid Snr} {i : Input Addr Ssid Snr}
    (h : SessionInv s.toCore) (hs' : step c s i = some s') : SessionInv s'.toCore := by
  rcases step_effect hs' with ⟨-, -, hcore⟩ | ⟨-, heff⟩
  · rw [hcore]
    have hstop : SessionAgrees s.stopAssocRequest := h.agrees
    exact request_sessionInv hstop false
  · exact effect_sessionInv h heff

/-- **What the device and the traces know of the association.** For every
run: the `Assoc` and `DeAssoc` traces are right in every state; the link
callbacks are right in every state if and only if no step ends an
association by a scan timer or by a change of the PHY. -/
theorem link_agrees_iff (c : Config Addr Ssid Snr Db) (bssid : Addr) (activeProbing : Bool)
    (is : List (Input Addr Ssid Snr)) :
    Always (step c) (fun s => SessionAgrees s.toCore) (init bssid activeProbing) is ∧
      (Always (step c) (fun s => LinkAgrees s.toCore) (init bssid activeProbing) is ↔
        EachStep (step c) KeepsLink (init bssid activeProbing) is) := by
  have hinit : SessionInv (init bssid activeProbing : Sta Addr Ssid Snr).toCore :=
    startScanning_sessionInv (iff_of_false (by simp [sessionIsOn]) (by simp))
  constructor
  · intro js s hjs hs
    exact (run_inv (fun _ _ _ => step_sessionInv) hinit hs).agrees
  · refine always_iff_eachStep (I := fun s => SessionInv s.toCore) ?_ ?_ ?_ hinit ?_
    · intro s i s' h hs'
      exact step_sessionInv h hs'
    · intro s i s' hinv h hs'
      exact step_link_iff hinv.request h hs'
    · intro s i hnone hstate
      refine ⟨?_, ?_, ?_⟩
      · rintro rfl
        cases hnone
      · rintro hpending now rfl
        rw [step, if_pos hpending] at hnone
        cases hnone
      · rintro hpending now rfl
        rw [step, if_pos hpending] at hnone
        cases hnone
    · exact linkAgrees_of_down (startScanning_link _) (Core.startScanning_ne _ (by decide))

end Runs

end StaMac

end NetSystem
