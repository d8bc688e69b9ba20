import NetSystem.StaMac

/-!
# What an input can do to the station

`Effect` lists once and for all what a step can do to the core of the
station, guards included; `step_effect` says that the list is complete.
The expiry of the association-request timer is kept apart, since one
result is about exactly these steps.

Every invariant of the station is proved by cases on `Effect`, so a change
of `Receive` or of a timer handler needs `step_effect` again and the
invariants only where the list changes.
-/

namespace NetSystem

namespace StaMac

variable {Addr Ssid Snr Db : Type*}

/-! ## What the wrappers leave alone -/

namespace Sta

variable (s : Sta Addr Ssid Snr)

@[simp] theorem out_toCore (o : Side Addr) : (s.out o).toCore = s.toCore := rfl

@[simp] theorem onCore_toCore (f : Core Addr Ssid Snr → Core Addr Ssid Snr) :
    (s.onCore f).toCore = f s.toCore := rfl

@[simp] theorem assert_toCore (b : Bool) : (s.assert b).toCore = s.toCore := by
  unfold assert
  split <;> rfl

@[simp] theorem restartBeaconWatchdog_toCore (now delay : Nat) :
    (s.restartBeaconWatchdog now delay).toCore = s.toCore := by
  unfold restartBeaconWatchdog
  simp only
  split <;> rfl

@[simp] theorem scanningTimeout_toCore (c : Config Addr Ssid Snr Db) (now : Nat) :
    (s.scanningTimeout c now).toCore = s.toCore.scanningTimeout c.selectors := by
  unfold scanningTimeout
  simp only [onCore_toCore]
  split <;> simp

@[simp] theorem receiveData_toCore [DecidableEq Addr] (f : Frame Addr Ssid Snr)
    (b₁ b₂ b₃ b₄ b₅ : Bool) :
    (s.receiveData f b₁ b₂ b₃ b₄ b₅).toCore = s.toCore := by
  unfold receiveData
  split_ifs <;> simp

end Sta

/-! ## The core functions, field by field -/

namespace Core

variable (s : Core Addr Ssid Snr)

@[simp] theorem note_state (e : Event Addr Ssid Snr) : (s.note e).state = s.state := rfl
@[simp] theorem note_bssid (e : Event Addr Ssid Snr) : (s.note e).bssid = s.bssid := rfl
@[simp] theorem note_candidateAps (e : Event Addr Ssid Snr) :
    (s.note e).candidateAps = s.candidateAps := rfl
@[simp] theorem note_activeProbing (e : Event Addr Ssid Snr) :
    (s.note e).activeProbing = s.activeProbing := rfl
@[simp] theorem note_trace (e : Event Addr Ssid Snr) : (s.note e).trace = s.trace ++ [e] := rfl

@[simp] theorem setState_state (value : MacState) : (s.setState value).state = value := rfl
@[simp] theorem setState_bssid (value : MacState) : (s.setState value).bssid = s.bssid := rfl
@[simp] theorem setState_candidateAps (value : MacState) :
    (s.setState value).candidateAps = s.candidateAps := rfl
@[simp] theorem setState_activeProbing (value : MacState) :
    (s.setState value).activeProbing = s.activeProbing := rfl
@[simp] theorem setState_trace (value : MacState) :
    (s.setState value).trace = s.trace ++ s.stateEvents value := rfl

@[simp] theorem stopAssocRequest_candidateAps :
    s.stopAssocRequest.candidateAps = s.candidateAps := rfl

@[simp] theorem startScanning_state :
    s.startScanning.state = if s.activeProbing then .waitProbeResp else .waitBeacon := by
  cases h : s.activeProbing <;> simp [startScanning, h]

@[simp] theorem startScanning_bssid : s.startScanning.bssid = s.bssid := by
  cases h : s.activeProbing <;> simp [startScanning, h]

@[simp] theorem startScanning_candidateAps : s.startScanning.candidateAps = [] := by
  cases h : s.activeProbing <;> simp [startScanning, h]

@[simp] theorem startScanning_activeProbing :
    s.startScanning.activeProbing = s.activeProbing := by
  cases h : s.activeProbing <;> simp [startScanning, h]

@[simp] theorem startScanning_trace :
    s.startScanning.trace = s.trace ++ (Event.scan s.activeProbing ::
      (if s.state = .associated then [Event.deAssoc s.bssid] else []) ++
      if s.activeProbing then [Event.probeRequest] else []) := by
  cases h : s.activeProbing <;> simp [startScanning, h, stateEvents]

/-- Where an attempt at `bestAp` goes: a probe response without the PHY's
membership selectors leaves the BSSID as it was. -/
def attemptAddr (selectors : List Nat) (bestAp : ApInfo Addr Ssid Snr) : Addr :=
  if bestAp.activeProbing ∧ ¬ selectors.all fun x => decide (x ∈ bestAp.frame.rates) then s.bssid
  else bestAp.bssid

@[simp] theorem attemptAddr_nil (bestAp : ApInfo Addr Ssid Snr) :
    s.attemptAddr [] bestAp = bestAp.bssid := by simp [attemptAddr]

/-- An attempt of `ScanningTimeout`. -/
theorem scanningTimeout_cons {selectors : List Nat} {bestAp : ApInfo Addr Ssid Snr}
    {rest : List (ApInfo Addr Ssid Snr)} (h : s.candidateAps = bestAp :: rest) :
    s.scanningTimeout selectors = { s with
      state := .waitAssocResp
      bssid := s.attemptAddr selectors bestAp
      candidateAps := rest
      assocRequestEvent := true
      trace := s.trace ++
        ((if s.state = .associated then [.deAssoc (s.attemptAddr selectors bestAp)] else []) ++
          [.assocRequest (s.attemptAddr selectors bestAp) false,
            .attempt (s.attemptAddr selectors bestAp)]) } := by
  unfold scanningTimeout
  rw [h]
  dsimp only
  cases hactive : bestAp.activeProbing with
  | false =>
      simp [hactive, updateApInfoFromBeacon, sendAssociationRequest, setState, stateEvents, note,
        attemptAddr]
  | true =>
      by_cases hall : selectors.all fun x => decide (x ∈ bestAp.frame.rates)
      · simp [hactive, hall, updateApInfoFromProbeResp, sendAssociationRequest, setState,
          stateEvents, note, attemptAddr]
      · simp [hactive, hall, updateApInfoFromProbeResp, sendAssociationRequest, setState,
          stateEvents, note, attemptAddr]

theorem scanningTimeout_nil {selectors : List Nat} (h : s.candidateAps = []) :
    s.scanningTimeout selectors = s.startScanning := by
  unfold scanningTimeout
  rw [h]

theorem rescan_eq : (s.setState .unassociated).tryToEnsureAssociated =
    ((s.setState .unassociated).note .linkDown).startScanning := rfl

/-- A beacon below the threshold: tell the AP and scan again. -/
def disconnect (s : Core Addr Ssid Snr) : Core Addr Ssid Snr :=
  ((s.note (.compared s.bssid false)).sendDisassociationMsg.setState
    .unassociated).tryToEnsureAssociated

@[simp] theorem disconnect_state :
    s.disconnect.state = if s.activeProbing then .waitProbeResp else .waitBeacon := by
  cases hactive : s.activeProbing <;> simp [disconnect, rescan_eq, sendDisassociationMsg, hactive]

theorem disconnect_trace (h : s.state = .associated) :
    s.disconnect.trace = s.trace ++ ([Event.compared s.bssid false, .disassociation s.bssid,
      .deAssoc s.bssid, .linkDown, .scan s.activeProbing] ++
      if s.activeProbing then [Event.probeRequest] else []) := by
  cases hactive : s.activeProbing <;>
    simp [disconnect, rescan_eq, sendDisassociationMsg, stateEvents, h, hactive]

/-- The station waits for something afterwards: for an AP, or for the response
of one. -/
theorem startScanning_ne {value : MacState}
    (h : value ∉ [MacState.waitProbeResp, .waitBeacon, .waitAssocResp]) :
    s.startScanning.state ≠ value := by
  rintro rfl
  cases hactive : s.activeProbing <;> simp [hactive] at h

theorem scanningTimeout_ne {value : MacState}
    (h : value ∉ [MacState.waitProbeResp, .waitBeacon, .waitAssocResp]) (selectors : List Nat) :
    (s.scanningTimeout selectors).state ≠ value := by
  cases hlist : s.candidateAps with
  | nil =>
      rw [s.scanningTimeout_nil hlist]
      exact s.startScanning_ne h
  | cons bestAp rest =>
      rintro rfl
      simp [s.scanningTimeout_cons hlist] at h

theorem disconnect_ne {value : MacState}
    (h : value ∉ [MacState.waitProbeResp, .waitBeacon, .waitAssocResp]) :
    s.disconnect.state ≠ value :=
  startScanning_ne _ h

end Core

/-- A good beacon of an associated station carries its BSSID. -/
theorem addr3_of_goodBeacon [DecidableEq Addr] [DecidableEq Ssid]
    {c : Config Addr Ssid Snr Db} {s : Sta Addr Ssid Snr} {addr3 : Addr} {b : ApFrame Ssid}
    (hgood : s.goodBeacon c addr3 b = true) (hstate : s.state = .associated) :
    addr3 = s.bssid := by
  by_contra hne
  simp [Sta.goodBeacon, hstate, hne] at hgood

theorem associatedBeacon_toCore [LinearOrder Db] (c : Config Addr Ssid Snr Db) (now : Nat)
    {f : Frame Addr Ssid Snr} (b : ApFrame Ssid) {s : Sta Addr Ssid Snr}
    (haddr : f.addr3 = s.bssid) :
    (s.associatedBeacon c now f b).toCore =
      if weak c (f.snrTag.getD c.noSnr) then s.toCore.disconnect
      else s.toCore.note (.compared s.bssid true) := by
  unfold Sta.associatedBeacon
  simp only [haddr]
  split
  · rename_i hweak
    simp only [hweak, Sta.onCore_toCore, Core.disconnect, Bool.not_true]
  · rename_i hstrong
    simp only [hstrong, Sta.onCore_toCore, Sta.restartBeaconWatchdog_toCore, Sta.out_toCore,
      Sta.assert_toCore, Bool.not_false]
    rfl

/-! ## The list -/

variable [DecidableEq Addr] [LinearOrder Snr] [LinearOrder Db]

/-- A frame that gets past the address checks of `Receive`. -/
def Addressed (c : Config Addr Ssid Snr Db) (f : Frame Addr Ssid Snr) : Prop :=
  f.addr3 ≠ c.address ∧ (f.addr1 = c.address ∨ c.isGroup f.addr1 = true)

/-- An association response that refuses. -/
def IsRefusal (c : Config Addr Ssid Snr Db) (i : Input Addr Ssid Snr) : Prop :=
  ∃ now f aid, i = .receive now f ∧ Addressed c f ∧
    (f.body = .assocResp false aid ∨ f.body = .reassocResp false aid)

/-- What input `i` can make of the core `s`. -/
inductive Effect (c : Config Addr Ssid Snr Db) (s : Core Addr Ssid Snr)
    (i : Input Addr Ssid Snr) : Core Addr Ssid Snr → Prop where
  | stay : Effect c s i s
  | report (ap : ApInfo Addr Ssid Snr)
      (hstate : s.state = .waitProbeResp ∨ s.state = .waitBeacon) :
      Effect c s i (s.updateCandidateApList c ap)
  | strongBeacon (hstate : s.state = .associated) : Effect c s i (s.note (.compared s.bssid true))
  | weakBeacon (hstate : s.state = .associated) (hactive : s.activeProbing = true) :
      Effect c s i s.disconnect
  | weakBeaconPassive (hstate : s.state = .associated) (hactive : s.activeProbing = false)
      (ap : ApInfo Addr Ssid Snr) : Effect c s i (s.disconnect.updateCandidateApList c ap)
  | probeTimer (hpending : s.probeRequestEvent = true) :
      Effect c s i (Core.scanningTimeout c.selectors { s with probeRequestEvent := false })
  | beaconTimer (hpending : s.waitBeaconEvent = true) :
      Effect c s i (Core.scanningTimeout c.selectors { s with waitBeaconEvent := false })
  | accept (hstate : s.state = .waitAssocResp) :
      Effect c s i ((s.stopAssocRequest.setState .associated).note .linkUp)
  | refuse (hi : IsRefusal c i) (hstate : s.state = .waitAssocResp)
      (hnone : s.candidateAps = []) :
      Effect c s i ((s.stopAssocRequest.setState .refused).note .refused)
  | nextAp (hi : IsRefusal c i) (hstate : s.state = .waitAssocResp)
      (hsome : s.candidateAps ≠ []) :
      Effect c s i (s.stopAssocRequest.scanningTimeout c.selectors)
  | missedBeacons : Effect c s i ((s.setState .unassociated).note .linkDown).startScanning
  | unassociatedEnqueue (hstate : s.state = .unassociated) :
      Effect c s i (s.note .linkDown).startScanning
  | probingMode (enable : Bool) : Effect c s i { s with activeProbing := enable }
  | probingRestart (enable : Bool) (hstate : s.state = .waitProbeResp ∨ s.state = .waitBeacon) :
      Effect c s i (Core.startScanning { s with activeProbing := enable })
  | reassociate (hstate : s.state = .associated) :
      Effect c s i ((s.setState .waitAssocResp).sendAssociationRequest true)

variable {c : Config Addr Ssid Snr Db} {i : Input Addr Ssid Snr}

theorem tryToEnsureAssociated_effect (s : Core Addr Ssid Snr) :
    Effect c s i s.tryToEnsureAssociated := by
  cases hstate : s.state with
  | unassociated =>
      rw [Core.tryToEnsureAssociated, hstate]
      exact .unassociatedEnqueue hstate
  | _ =>
      rw [Core.tryToEnsureAssociated, hstate]
      exact .stay

theorem receiveAssocResp_effect (now : Nat) (isSuccess : Bool) (aid : Nat)
    (s : Sta Addr Ssid Snr) (hi : isSuccess = false → IsRefusal c i) :
    Effect c s.toCore i (s.receiveAssocResp c now isSuccess aid).toCore := by
  unfold Sta.receiveAssocResp
  split
  · rename_i hstate
    dsimp only
    split
    · exact .accept hstate
    · rename_i hfail
      have hrefusal := hi (Bool.eq_false_iff.mpr hfail)
      split
      · rename_i hnone
        exact .refuse hrefusal hstate (List.isEmpty_iff.mp hnone)
      · rename_i hsome
        rw [Sta.scanningTimeout_toCore, Sta.onCore_toCore]
        exact .nextAp hrefusal hstate fun hnil => hsome (List.isEmpty_iff.mpr hnil)
  · exact .stay

variable [DecidableEq Ssid]

/-- A beacon at an associated station is ignored or compared. -/
theorem receiveBeacon_of_associated (c : Config Addr Ssid Snr Db) (now : Nat)
    (f : Frame Addr Ssid Snr) (b : ApFrame Ssid) {s : Sta Addr Ssid Snr}
    (hstate : s.state = .associated) :
    (s.receiveBeacon c now f b).toCore = s.toCore ∨
    f.addr3 = s.bssid ∧ s.goodBeacon c f.addr3 b = true ∧
      ((weak c (f.snrTag.getD c.noSnr) = false ∧
        (s.receiveBeacon c now f b).toCore = s.note (.compared s.bssid true)) ∨
      (weak c (f.snrTag.getD c.noSnr) = true ∧ s.activeProbing = true ∧
        (s.receiveBeacon c now f b).toCore = s.disconnect) ∨
      (weak c (f.snrTag.getD c.noSnr) = true ∧ s.activeProbing = false ∧
        ∃ ap, (s.receiveBeacon c now f b).toCore = s.disconnect.updateCandidateApList c ap)) := by
  have hcore := s.assert_toCore b.isEss
  have hsame : (s.assert b.isEss).goodBeacon c f.addr3 b = s.goodBeacon c f.addr3 b := by
    simp only [Sta.goodBeacon, hcore]
  unfold Sta.receiveBeacon
  simp only [hsame]
  cases hgood : s.goodBeacon c f.addr3 b with
  | false => exact Or.inl (by simp)
  | true =>
      have haddr := addr3_of_goodBeacon hgood hstate
      generalize s.assert b.isEss = s₁ at hcore ⊢
      have hbeacon := associatedBeacon_toCore c now b (haddr.trans (congrArg Core.bssid hcore).symm)
      rw [hcore] at hbeacon
      simp only [hcore, hstate, decide_true, Bool.and_true, if_true, Bool.true_and,
        decide_eq_true_eq]
      refine Or.inr ⟨haddr, trivial, ?_⟩
      cases hweak : weak c (f.snrTag.getD c.noSnr) with
      | false =>
          rw [hweak, if_neg (by simp)] at hbeacon
          have hnext : (s₁.associatedBeacon c now f b).state = .associated := by
            rw [hbeacon]
            exact hstate
          rw [if_neg (by simp [hnext])]
          exact Or.inl ⟨rfl, hbeacon⟩
      | true =>
          rw [hweak, if_pos rfl] at hbeacon
          have hnext : (s₁.associatedBeacon c now f b).state = s.disconnect.state := by
            rw [hbeacon]
          cases hactive : s.activeProbing with
          | true =>
              rw [if_neg (by rw [hnext]; simp [hactive])]
              exact Or.inr (Or.inl ⟨rfl, rfl, hbeacon⟩)
          | false =>
              rw [if_pos (by rw [hnext]; simp [hactive])]
              simp only [Sta.reportAp, Sta.onCore_toCore, Sta.assert_toCore, hbeacon]
              exact Or.inr (Or.inr ⟨trivial, trivial, _, rfl⟩)

/-- A beacon at any other station is ignored or reported. -/
theorem receiveBeacon_of_not_associated (c : Config Addr Ssid Snr Db) (now : Nat)
    (f : Frame Addr Ssid Snr) (b : ApFrame Ssid) {s : Sta Addr Ssid Snr}
    (hstate : s.state ≠ .associated) :
    (s.receiveBeacon c now f b).toCore = s.toCore ∨
    s.state = .waitBeacon ∧
      ∃ ap, (s.receiveBeacon c now f b).toCore = s.updateCandidateApList c ap := by
  rw [← s.assert_toCore b.isEss] at hstate ⊢
  unfold Sta.receiveBeacon
  simp only [hstate, decide_false, Bool.and_false, Bool.false_eq_true, if_false,
    Bool.and_eq_true, decide_eq_true_eq]
  split
  · rename_i hwait
    simp only [Sta.reportAp, Sta.onCore_toCore, Sta.assert_toCore]
    exact Or.inr ⟨by simpa using hwait.2, _, rfl⟩
  · exact Or.inl rfl

theorem receiveBeacon_effect (now : Nat) (f : Frame Addr Ssid Snr) (b : ApFrame Ssid)
    (s : Sta Addr Ssid Snr) : Effect c s.toCore i (s.receiveBeacon c now f b).toCore := by
  by_cases hstate : s.state = .associated
  · rcases receiveBeacon_of_associated c now f b hstate with
      hsame | ⟨-, -, ⟨-, hcore⟩ | ⟨-, hactive, hcore⟩ | ⟨-, hactive, ap, hcore⟩⟩
    · rw [hsame]
      exact .stay
    · rw [hcore]
      exact .strongBeacon hstate
    · rw [hcore]
      exact .weakBeacon hstate hactive
    · rw [hcore]
      exact .weakBeaconPassive hstate hactive ap
  · rcases receiveBeacon_of_not_associated c now f b hstate with hsame | ⟨hwait, ap, hcore⟩
    · rw [hsame]
      exact .stay
    · rw [hcore]
      exact .report ap (Or.inr hwait)

theorem receiveProbeResp_effect (f : Frame Addr Ssid Snr) (p : ApFrame Ssid)
    (s : Sta Addr Ssid Snr) : Effect c s.toCore i (s.receiveProbeResp c f p).toCore := by
  unfold Sta.receiveProbeResp
  split
  · rename_i h
    simp only [Sta.reportAp, Sta.onCore_toCore, Sta.assert_toCore]
    exact .report _ (Or.inl h.1)
  · exact .stay

/-- The handler `receive` passes a frame on to, if any; before it only the
answer to a poll goes out. -/
theorem receive_cases (c : Config Addr Ssid Snr Db) (now : Nat) (f : Frame Addr Ssid Snr)
    (s : Sta Addr Ssid Snr) :
    (s.receive c now f).toCore = s.toCore ∨
    ∃ s₁ : Sta Addr Ssid Snr, s₁.toCore = s.toCore ∧ Addressed c f ∧
      ((∃ b, f.body = .beacon b ∧ s.receive c now f = s₁.receiveBeacon c now f b) ∨
      (∃ p, f.body = .probeResp p ∧ s.receive c now f = s₁.receiveProbeResp c f p) ∨
      ∃ isSuccess aid, (f.body = .assocResp isSuccess aid ∨ f.body = .reassocResp isSuccess aid) ∧
        s.receive c now f = s₁.receiveAssocResp c now isSuccess aid) := by
  unfold Sta.receive
  split
  · exact Or.inl rfl
  · rename_i hthird
    split
    · exact Or.inl rfl
    · rename_i hfirst
      have haddr : Addressed c f := by
        refine ⟨hthird, ?_⟩
        by_contra hno
        rw [not_or] at hno
        exact hfirst hno
      generalize hs : (if f.addr1 = c.address ∧ f.addr2 = s.bssid ∧ f.isCfPoll then
        (s.assert c.pcfSupported).out (.cfPollResponse s.bssid) else s) = s₁
      have hcore : s₁.toCore = s.toCore := by
        rw [← hs]
        split <;> simp
      cases hbody : f.body with
      | data b₁ b₂ b₃ b₄ b₅ => exact Or.inl (by simp [hcore])
      | probeReq => exact Or.inl hcore
      | assocReq => exact Or.inl hcore
      | reassocReq => exact Or.inl hcore
      | beacon b => exact Or.inr ⟨s₁, hcore, haddr, Or.inl ⟨b, rfl, rfl⟩⟩
      | probeResp p => exact Or.inr ⟨s₁, hcore, haddr, Or.inr (Or.inl ⟨p, rfl, rfl⟩)⟩
      | assocResp isSuccess aid =>
          exact Or.inr ⟨s₁, hcore, haddr, Or.inr (Or.inr ⟨isSuccess, aid, Or.inl rfl, rfl⟩)⟩
      | reassocResp isSuccess aid =>
          exact Or.inr ⟨s₁, hcore, haddr, Or.inr (Or.inr ⟨isSuccess, aid, Or.inr rfl, rfl⟩)⟩
      | other => exact Or.inl hcore

theorem receive_effect (now : Nat) (f : Frame Addr Ssid Snr) (s : Sta Addr Ssid Snr) :
    Effect c s.toCore (.receive now f) (s.receive c now f).toCore := by
  rcases receive_cases c now f s with hsame | ⟨s₁, hcore, haddr, hcases⟩
  · rw [hsame]
    exact .stay
  · rw [← hcore]
    rcases hcases with ⟨b, -, heq⟩ | ⟨p, -, heq⟩ | ⟨isSuccess, aid, hbody, heq⟩
    · rw [heq]
      exact receiveBeacon_effect now f b s₁
    · rw [heq]
      exact receiveProbeResp_effect f p s₁
    · rw [heq]
      refine receiveAssocResp_effect now isSuccess aid s₁ fun hfail => ?_
      exact ⟨now, f, aid, rfl, haddr, hfail ▸ hbody⟩

/-- **The list is complete.** -/
theorem step_effect {s s' : Sta Addr Ssid Snr} (h : step c s i = some s') :
    (i = .assocRequestTimer ∧ s.assocRequestEvent = true ∧
      s'.toCore = s.stopAssocRequest.assocRequestTimeout) ∨
    (i ≠ .assocRequestTimer ∧ Effect c s.toCore i s'.toCore) := by
  cases i with
  | receive now f =>
      obtain rfl := Option.some.inj h
      exact Or.inr ⟨by simp, receive_effect now f s⟩
  | probeRequestTimer now =>
      rw [step] at h
      split at h
      · rename_i hpending
        obtain rfl := Option.some.inj h
        refine Or.inr ⟨by simp, ?_⟩
        rw [Sta.scanningTimeout_toCore, Sta.onCore_toCore]
        exact .probeTimer hpending
      · cases h
  | waitBeaconTimer now =>
      rw [step] at h
      split at h
      · rename_i hpending
        obtain rfl := Option.some.inj h
        refine Or.inr ⟨by simp, ?_⟩
        rw [Sta.scanningTimeout_toCore, Sta.onCore_toCore]
        exact .beaconTimer hpending
      · cases h
  | assocRequestTimer =>
      rw [step] at h
      split at h
      · rename_i hpending
        obtain rfl := Option.some.inj h
        exact Or.inl ⟨rfl, hpending, rfl⟩
      · cases h
  | beaconWatchdog now =>
      rw [step] at h
      split at h
      · obtain rfl := Option.some.inj h
        refine Or.inr ⟨by simp, ?_⟩
        unfold Sta.missedBeacons
        split
        · exact .stay
        · exact .missedBeacons
      · cases h
  | enqueue dst =>
      obtain rfl := Option.some.inj h
      refine Or.inr ⟨by simp, ?_⟩
      unfold Sta.enqueue
      split
      · exact .stay
      · exact tryToEnsureAssociated_effect s.toCore
  | setActiveProbing enable =>
      obtain rfl := Option.some.inj h
      refine Or.inr ⟨by simp, ?_⟩
      rw [Sta.onCore_toCore, Core.setActiveProbing]
      dsimp only
      split
      · rename_i hstate
        exact .probingRestart enable hstate
      · exact .probingMode enable
  | phyCapabilitiesChanged =>
      obtain rfl := Option.some.inj h
      refine Or.inr ⟨by simp, ?_⟩
      rw [Sta.onCore_toCore, Core.phyCapabilitiesChanged]
      split
      · rename_i hstate
        exact .reassociate hstate
      · exact .stay

/-- What a refusal does to a station that waits for a response. -/
theorem refusal_core {s s' : Sta Addr Ssid Snr} (hi : IsRefusal c i)
    (hstate : s.state = .waitAssocResp) (h : step c s i = some s') :
    s'.toCore =
      if s.candidateAps = [] then
        (s.stopAssocRequest.setState .refused).note .refused
      else s.stopAssocRequest.scanningTimeout c.selectors := by
  obtain ⟨now, f, aid, rfl, ⟨hthird, hfirst⟩, hbody⟩ := hi
  have hpass : ¬ (f.addr1 ≠ c.address ∧ ¬ c.isGroup f.addr1 = true) := by
    rw [not_and_or, not_not, not_not]
    exact hfirst
  obtain rfl := Option.some.inj h
  have hresp : ∀ s₁ : Sta Addr Ssid Snr, s₁.toCore = s.toCore →
      (s₁.receiveAssocResp c now false aid).toCore =
        if s.candidateAps = [] then
          (s.stopAssocRequest.setState .refused).note .refused
        else s.stopAssocRequest.scanningTimeout c.selectors := by
    intro s₁ hcore
    have hwait : s₁.toCore.state = .waitAssocResp := by rw [hcore, hstate]
    rw [Sta.receiveAssocResp, if_pos hwait, ← hcore]
    cases hlist : s₁.candidateAps with
    | nil => simp [hlist, Sta.onCore]
    | cons bestAp rest => simp [hlist, Sta.onCore]
  unfold Sta.receive
  rw [if_neg hthird, if_neg hpass]
  rcases hbody with hbody | hbody
  · rw [hbody]
    refine hresp _ ?_
    split <;> simp
  · rw [hbody]
    refine hresp _ ?_
    split <;> simp

end StaMac

end NetSystem
