import NetSystem.StaAdmission
import NetSystem.StaAsserts

/-!
# The handoff station does not get stuck

A station that waits with no timer pending would wait for ever if nothing is
received. `Live` says which timer is pending in which state: the scan timer
during a scan, the association-request timer while a response is awaited,
and from the first attempt of a scan on the beacon watchdog, `REFUSED`
included. Where an old association-request timer has cut a scan short, the
scan timer stands in for the watchdog.

The watchdog is only armed for a delay above zero, so the APs have to
announce a beacon interval (`Announces`). `never_stuck` is the result over
schedules: an expiry of a scan timer, or of the watchdog at its end, is always
to be expected, and two of them do not pass without a scan. Scan timers are
started by scans only, which is the potential behind it (`Core.Pays`).
-/

namespace NetSystem

namespace StaMac

variable {Addr Ssid Snr Db : Type*}

/-! ## The watchdog -/

namespace Sta

variable (s : Sta Addr Ssid Snr)

@[simp] theorem out_beaconWatchdog (o : Side Addr) :
    (s.out o).beaconWatchdog = s.beaconWatchdog := rfl

@[simp] theorem onCore_beaconWatchdog (f : Core Addr Ssid Snr → Core Addr Ssid Snr) :
    (s.onCore f).beaconWatchdog = s.beaconWatchdog := rfl

@[simp] theorem assert_beaconWatchdog (b : Bool) :
    (s.assert b).beaconWatchdog = s.beaconWatchdog := by
  unfold assert
  split <;> rfl

@[simp] theorem restartBeaconWatchdog_beaconWatchdog (now delay : Nat) :
    (s.restartBeaconWatchdog now delay).beaconWatchdog =
      (s.beaconWatchdog || decide (0 < delay)) := by
  unfold restartBeaconWatchdog
  by_cases hd : 0 < delay
  · cases s.beaconWatchdog <;> simp [hd]
  · simp [hd]

theorem associatedBeacon_beaconWatchdog [LinearOrder Db] (c : Config Addr Ssid Snr Db) (now : Nat)
    (f : Frame Addr Ssid Snr) (b : ApFrame Ssid) (h : s.beaconWatchdog = true) :
    (s.associatedBeacon c now f b).beaconWatchdog = true := by
  unfold associatedBeacon
  dsimp only
  split <;> simp [h]

end Sta

/-- The frame announces a beacon interval, and the station tolerates missed
beacons. -/
def Announces (c : Config Addr Ssid Snr Db) (b : ApFrame Ssid) : Prop :=
  0 < b.beaconIntervalUs * c.maxMissedBeacons

def Announced (c : Config Addr Ssid Snr Db) (_s : Sta Addr Ssid Snr) (i : Input Addr Ssid Snr) :
    Prop :=
  ∀ now f b, i = .receive now f → f.body = .beacon b ∨ f.body = .probeResp b → Announces c b

/-! ## The invariant -/

def Scanning (s : Core Addr Ssid Snr) : Prop := s.state = .waitProbeResp ∨ s.state = .waitBeacon

/-- The timer of the state is pending. -/
structure Armed (s : Core Addr Ssid Snr) : Prop where
  probe : s.state = .waitProbeResp → s.probeRequestEvent = true
  beacon : s.state = .waitBeacon → s.waitBeaconEvent = true
  request : s.state = .waitAssocResp → s.assocRequestEvent = true
  settled : s.state ≠ .unassociated

structure Live (c : Config Addr Ssid Snr Db) (s : Sta Addr Ssid Snr) : Prop where
  armed : Armed s.toCore
  guarded : Scanning s.toCore ∨ s.beaconWatchdog = true ∨ s.probeRequestEvent = true ∨
    s.waitBeaconEvent = true
  announced : ∀ ap ∈ s.candidateAps, Announces c ap.frame

theorem startScanning_armed (s : Core Addr Ssid Snr) :
    Armed s.startScanning ∧ Scanning s.startScanning := by
  cases hactive : s.activeProbing with
  | true =>
      have hstate : s.startScanning.state = .waitProbeResp := by simp [hactive]
      refine ⟨⟨fun _ => ?_, ?_, ?_, ?_⟩, Or.inl hstate⟩
      · simp [Core.startScanning, Core.note, Core.setState, hactive]
      all_goals simp [hactive]
  | false =>
      have hstate : s.startScanning.state = .waitBeacon := by simp [hactive]
      refine ⟨⟨?_, fun _ => ?_, ?_, ?_⟩, Or.inr hstate⟩
      · simp [hactive]
      · simp [Core.startScanning, Core.note, Core.setState, hactive]
      all_goals simp [hactive]

/-- Where a scan starts, the rest does not matter. -/
theorem live_of_startScanning {c : Config Addr Ssid Snr Db} {s : Sta Addr Ssid Snr}
    {k : Core Addr Ssid Snr} (h : s.toCore = k.startScanning) : Live c s := by
  obtain ⟨harmed, hscan⟩ := startScanning_armed k
  refine ⟨?_, Or.inl ?_, ?_⟩
  · rw [h]
    exact harmed
  · rw [h]
    exact hscan
  · rw [h]
    simp

theorem Live.frame {c : Config Addr Ssid Snr Db} {s t : Sta Addr Ssid Snr} (h : Live c s)
    (hcore : t.toCore = s.toCore) (hdog : t.beaconWatchdog = s.beaconWatchdog) : Live c t := by
  refine ⟨?_, ?_, ?_⟩
  · rw [hcore]
    exact h.armed
  · rw [hcore, hdog]
    exact h.guarded
  · rw [hcore]
    exact h.announced

/-- An attempt arms the watchdog. -/
theorem scanningTimeout_watchdog {c : Config Addr Ssid Snr Db} (now : Nat)
    {s : Sta Addr Ssid Snr} (h : ∀ ap ∈ s.candidateAps, Announces c ap.frame)
    {bestAp : ApInfo Addr Ssid Snr} {rest : List (ApInfo Addr Ssid Snr)}
    (hlist : s.candidateAps = bestAp :: rest) :
    (s.scanningTimeout c now).beaconWatchdog = true := by
  have hdelay : 0 < bestAp.frame.beaconIntervalUs * c.maxMissedBeacons :=
    h bestAp (hlist ▸ List.mem_cons_self)
  unfold Sta.scanningTimeout
  rw [hlist]
  simp [hdelay]

/-- `ScanningTimeout` scans again or arms the watchdog, whatever was
pending. -/
theorem scanningTimeout_live {c : Config Addr Ssid Snr Db} (now : Nat) {s : Sta Addr Ssid Snr}
    (h : ∀ ap ∈ s.candidateAps, Announces c ap.frame) : Live c (s.scanningTimeout c now) := by
  cases hlist : s.candidateAps with
  | nil =>
      refine live_of_startScanning (k := s.toCore) ?_
      rw [Sta.scanningTimeout_toCore, s.scanningTimeout_nil hlist]
  | cons bestAp rest =>
      have hcore := @Core.scanningTimeout_cons _ _ _ s.toCore c.selectors bestAp rest hlist
      have hdog := scanningTimeout_watchdog now h hlist
      rw [hlist, List.forall_mem_cons] at h
      refine ⟨?_, Or.inr (Or.inl hdog), ?_⟩
      · rw [Sta.scanningTimeout_toCore, hcore]
        exact ⟨by simp, by simp, by simp, by simp⟩
      · rw [Sta.scanningTimeout_toCore, hcore]
        exact h.2

/-! ## Steps -/

theorem receiveAssocResp_live (now : Nat) (isSuccess : Bool) (aid : Nat)
    {c : Config Addr Ssid Snr Db} {s : Sta Addr Ssid Snr} (h : Live c s) :
    Live c (s.receiveAssocResp c now isSuccess aid) := by
  unfold Sta.receiveAssocResp
  split
  · rename_i hstate
    have hguard : s.beaconWatchdog = true ∨ s.probeRequestEvent = true ∨
        s.waitBeaconEvent = true := by
      refine h.guarded.resolve_left ?_
      rw [Scanning, hstate]
      simp
    dsimp only
    split
    · exact ⟨⟨by simp, by simp, by simp, by simp⟩, Or.inr hguard, h.announced⟩
    · split
      · exact ⟨⟨by simp, by simp, by simp, by simp⟩, Or.inr hguard, h.announced⟩
      · exact scanningTimeout_live now h.announced
  · exact h

theorem associatedBeacon_live [LinearOrder Db] {c : Config Addr Ssid Snr Db} (now : Nat)
    {f : Frame Addr Ssid Snr} {b : ApFrame Ssid} {s : Sta Addr Ssid Snr} (h : Live c s)
    (haddr : f.addr3 = s.bssid) : Live c (s.associatedBeacon c now f b) := by
  have hcore := associatedBeacon_toCore c now b haddr
  split at hcore
  · refine live_of_startScanning (k := ?_) (hcore.trans ?_)
    exact (((s.toCore.note (.compared s.bssid false)).sendDisassociationMsg.setState
      .unassociated).note .linkDown)
    rfl
  · refine ⟨?_, ?_, ?_⟩
    · rw [hcore]
      exact ⟨h.armed.probe, h.armed.beacon, h.armed.request, h.armed.settled⟩
    · rw [hcore]
      rcases h.guarded with hscan | hdog | hscan
      · exact Or.inl hscan
      · exact Or.inr (Or.inl (s.associatedBeacon_beaconWatchdog c now f b hdog))
      · exact Or.inr (Or.inr hscan)
    · rw [hcore]
      exact h.announced

section Steps

variable [DecidableEq Addr] [LinearOrder Snr] [LinearOrder Db] {c : Config Addr Ssid Snr Db}

theorem mem_of_mem_updateList {l : List (ApInfo Addr Ssid Snr)} {ap x : ApInfo Addr Ssid Snr}
    (hx : x ∈ updateList c l ap) : x = ap ∨ x ∈ l := by
  simp only [updateList] at hx
  split at hx
  · exact Or.inr (List.mem_of_mem_eraseP hx)
  · rw [insertAp, (insertBelow_perm ap _).mem_iff, List.mem_cons] at hx
    exact hx.imp_right List.mem_of_mem_eraseP

theorem reportAp_live {f : Frame Addr Ssid Snr} {activeProbing : Bool} {tag : Option Snr}
    {b : ApFrame Ssid} {s : Sta Addr Ssid Snr} (h : Live c s) (hb : Announces c b) :
    Live c (s.reportAp c f activeProbing tag b) := by
  refine ⟨?_, ?_, fun x hx => ?_⟩
  · simp only [Sta.reportAp, Sta.onCore_toCore, Sta.assert_toCore]
    exact ⟨h.armed.probe, h.armed.beacon, h.armed.request, h.armed.settled⟩
  · simp only [Sta.reportAp, Sta.onCore_toCore, Sta.onCore_beaconWatchdog, Sta.assert_toCore,
      Sta.assert_beaconWatchdog]
    exact h.guarded
  · simp only [Sta.reportAp, Sta.onCore_toCore, Sta.assert_toCore] at hx
    rcases mem_of_mem_updateList hx with rfl | hold
    · exact hb
    · exact h.announced x hold

theorem receiveProbeResp_live {f : Frame Addr Ssid Snr} {p : ApFrame Ssid} [DecidableEq Ssid]
    {s : Sta Addr Ssid Snr} (h : Live c s) (hp : Announces c p) :
    Live c (s.receiveProbeResp c f p) := by
  unfold Sta.receiveProbeResp
  split
  · exact reportAp_live h hp
  · exact h

theorem receiveBeacon_live [DecidableEq Ssid] (now : Nat) {f : Frame Addr Ssid Snr}
    {b : ApFrame Ssid} {s : Sta Addr Ssid Snr} (h : Live c s) (hb : Announces c b) :
    Live c (s.receiveBeacon c now f b) := by
  have h₁ : Live c (s.assert b.isEss) :=
    h.frame (s.assert_toCore b.isEss) (s.assert_beaconWatchdog b.isEss)
  unfold Sta.receiveBeacon
  generalize s.assert b.isEss = s₁ at h₁ ⊢
  dsimp only
  have h₂ : Live c (if (s₁.goodBeacon c f.addr3 b && decide (s₁.state = .associated)) = true then
      s₁.associatedBeacon c now f b else s₁) := by
    split
    · rename_i hfirst
      rw [Bool.and_eq_true, decide_eq_true_eq] at hfirst
      exact associatedBeacon_live now h₁ (addr3_of_goodBeacon hfirst.1 hfirst.2)
    · exact h₁
  generalize (if (s₁.goodBeacon c f.addr3 b && decide (s₁.state = .associated)) = true then
    s₁.associatedBeacon c now f b else s₁) = s₂ at h₂ ⊢
  split
  · exact reportAp_live h₂ hb
  · exact h₂

theorem receive_live [DecidableEq Ssid] (now : Nat) {f : Frame Addr Ssid Snr}
    {s : Sta Addr Ssid Snr} (h : Live c s)
    (hf : ∀ b, f.body = .beacon b ∨ f.body = .probeResp b → Announces c b) :
    Live c (s.receive c now f) := by
  have hsame : ∀ t : Sta Addr Ssid Snr, t.toCore = s.toCore → t.beaconWatchdog = s.beaconWatchdog →
      Live c t := fun t hcore hdog => h.frame hcore hdog
  unfold Sta.receive
  split
  · exact h
  split
  · exact hsame _ (by simp) (by simp)
  generalize hs : (if f.addr1 = c.address ∧ f.addr2 = s.bssid ∧ f.isCfPoll then
    (s.assert c.pcfSupported).out (.cfPollResponse s.bssid) else s) = s₁
  have h₁ : Live c s₁ := by
    rw [← hs]
    split
    · exact hsame _ (by simp) (by simp)
    · exact h
  dsimp only
  have hout : ∀ o, Live c (s₁.out o) := fun o => h₁.frame (by simp) (by simp)
  split
  · unfold Sta.receiveData
    split_ifs
    all_goals first | exact hout _ | exact h₁ | exact h₁.frame (by simp) (by simp)
  · exact hout _
  · exact hout _
  · exact hout _
  · rename_i b hbody
    exact receiveBeacon_live now h₁ (hf b (Or.inl hbody))
  · rename_i p hbody
    exact receiveProbeResp_live h₁ (hf p (Or.inr hbody))
  · exact receiveAssocResp_live now _ _ h₁
  · exact receiveAssocResp_live now _ _ h₁
  · exact hout _

/-- **The step lemma.** -/
theorem step_live [DecidableEq Ssid] {s s' : Sta Addr Ssid Snr} {i : Input Addr Ssid Snr}
    (h : Live c s) (hi : Announced c s i) (hs' : step c s i = some s') : Live c s' := by
  cases i with
  | receive now f =>
      obtain rfl := Option.some.inj hs'
      exact receive_live now h fun b hb => hi now f b rfl hb
  | probeRequestTimer now =>
      rw [step] at hs'
      split at hs'
      · obtain rfl := Option.some.inj hs'
        exact scanningTimeout_live now h.announced
      · cases hs'
  | waitBeaconTimer now =>
      rw [step] at hs'
      split at hs'
      · obtain rfl := Option.some.inj hs'
        exact scanningTimeout_live now h.announced
      · cases hs'
  | assocRequestTimer =>
      rw [step] at hs'
      split at hs'
      · obtain rfl := Option.some.inj hs'
        refine ⟨⟨by simp [Core.assocRequestTimeout, Core.sendAssociationRequest],
          by simp [Core.assocRequestTimeout, Core.sendAssociationRequest], fun _ => rfl,
          by simp [Core.assocRequestTimeout, Core.sendAssociationRequest]⟩, Or.inr ?_, h.announced⟩
        -- a scan that is cut short leaves its timer behind
        rcases h.guarded with (hscan | hscan) | hdog | hscan
        · exact Or.inr (Or.inl (h.armed.probe hscan))
        · exact Or.inr (Or.inr (h.armed.beacon hscan))
        · exact Or.inl hdog
        · exact Or.inr hscan
      · cases hs'
  | beaconWatchdog now =>
      rw [step] at hs'
      split at hs'
      · obtain rfl := Option.some.inj hs'
        unfold Sta.missedBeacons
        split
        · exact ⟨h.armed, Or.inr (Or.inl rfl), h.announced⟩
        · exact live_of_startScanning
            (k := (s.toCore.setState .unassociated).note .linkDown) rfl
      · cases hs'
  | enqueue dst =>
      obtain rfl := Option.some.inj hs'
      unfold Sta.enqueue
      split
      · exact h.frame rfl rfl
      · have hstay : s.tryToEnsureAssociated = s.toCore := by
          unfold Core.tryToEnsureAssociated
          split
          · rename_i hun
            exact absurd hun h.armed.settled
          · rfl
          · rfl
          · rfl
          · rfl
          · rfl
        exact h.frame hstay rfl
  | setActiveProbing enable =>
      obtain rfl := Option.some.inj hs'
      by_cases hscan : s.state = .waitProbeResp ∨ s.state = .waitBeacon
      · refine live_of_startScanning (k := { s.toCore with activeProbing := enable }) ?_
        simp [Core.setActiveProbing, hscan]
      · have hcore : (s.onCore (Core.setActiveProbing enable)).toCore =
            { s.toCore with activeProbing := enable } := by
          simp [Core.setActiveProbing, hscan]
        refine ⟨?_, ?_, ?_⟩
        · rw [hcore]
          exact ⟨h.armed.probe, h.armed.beacon, h.armed.request, h.armed.settled⟩
        · rw [hcore]
          exact h.guarded
        · rw [hcore]
          exact h.announced
  | phyCapabilitiesChanged =>
      obtain rfl := Option.some.inj hs'
      by_cases hassoc : s.state = .associated
      · have hcore : (s.onCore Core.phyCapabilitiesChanged).toCore =
            (s.toCore.setState .waitAssocResp).sendAssociationRequest true := by
          simp [Core.phyCapabilitiesChanged, hassoc]
        refine ⟨?_, ?_, ?_⟩
        · rw [hcore]
          exact ⟨by simp [Core.sendAssociationRequest], by simp [Core.sendAssociationRequest],
            fun _ => rfl, by simp [Core.sendAssociationRequest]⟩
        · rw [hcore]
          refine Or.inr (h.guarded.resolve_left ?_)
          rw [Scanning, hassoc]
          simp
        · rw [hcore]
          exact h.announced
      · exact h.frame (by simp [Core.phyCapabilitiesChanged, hassoc]) rfl

end Steps

theorem Live.pending {c : Config Addr Ssid Snr Db} {s : Sta Addr Ssid Snr} (h : Live c s) :
    s.beaconWatchdog = true ∨ s.probeRequestEvent = true ∨ s.waitBeaconEvent = true := by
  rcases h.guarded with (hscan | hscan) | hpending
  · exact Or.inr (Or.inl (h.armed.probe hscan))
  · exact Or.inr (Or.inr (h.armed.beacon hscan))
  · exact hpending

/-! ## Scans and scan timers -/

def Event.isScan : Event Addr Ssid Snr → Bool
  | .scan _ => true
  | .probeRequest | .assocRequest _ _ | .disassociation _ | .assoc _ | .deAssoc _ | .linkUp
  | .linkDown | .report _ | .compared _ _ | .attempt _ | .refused => false

namespace Core

variable (s : Core Addr Ssid Snr)

/-- The calls of `StartScanning` so far. -/
def scans : Nat := s.trace.countP Event.isScan

/-- The scan timers that are pending. -/
def scanTimers : Nat := s.probeRequestEvent.toNat + s.waitBeaconEvent.toNat

@[simp] theorem scans_note (e : Event Addr Ssid Snr) :
    (s.note e).scans = s.scans + e.isScan.toNat := by
  cases he : e.isScan <;> simp [scans, he]

@[simp] theorem scans_setState (value : MacState) : (s.setState value).scans = s.scans := by
  unfold scans
  rw [setState_trace, List.countP_append, stateEvents]
  split_ifs <;> simp [Event.isScan]

@[simp] theorem scans_startScanning : s.startScanning.scans = s.scans + 1 := by
  unfold scans
  rw [startScanning_trace, List.countP_append]
  split_ifs <;> rfl

@[simp] theorem scanTimers_startScanning : s.startScanning.scanTimers = 1 := by
  cases hactive : s.activeProbing <;>
    simp [scanTimers, startScanning, note, setState, hactive]

/-- A step of the given cost: a scan pays for two, the scan timer that it
starts and the expiry that led to it. -/
def Pays (cost : Nat) (s t : Core Addr Ssid Snr) : Prop :=
  t.scanTimers ≤ 1 ∧ cost + t.scanTimers + 2 * s.scans ≤ s.scanTimers + 2 * t.scans

variable {s} {k t : Core Addr Ssid Snr}

theorem Pays.free (h : Pays 1 s t) : Pays 0 s t := by
  refine ⟨h.1, ?_⟩
  have hpay := h.2
  omega

theorem pays_of_same (hone : s.scanTimers ≤ 1) (htimers : t.scanTimers = s.scanTimers)
    (hscans : t.scans = s.scans) : Pays 0 s t := by
  refine ⟨htimers ▸ hone, ?_⟩
  rw [htimers, hscans, Nat.zero_add]

theorem pays_startScanning (hscans : k.scans = s.scans) : Pays 1 s k.startScanning := by
  refine ⟨k.scanTimers_startScanning.le, ?_⟩
  rw [scanTimers_startScanning, scans_startScanning, hscans]
  omega

/-- `ScanningTimeout` scans again or leaves the scan timers alone. -/
theorem scanningTimeout_cases (k : Core Addr Ssid Snr) (selectors : List Nat) :
    k.scanningTimeout selectors = k.startScanning ∨
      (k.scanningTimeout selectors).scanTimers = k.scanTimers ∧
        (k.scanningTimeout selectors).scans = k.scans := by
  cases hlist : k.candidateAps with
  | nil => exact Or.inl (k.scanningTimeout_nil hlist)
  | cons bestAp rest =>
      refine Or.inr ?_
      rw [k.scanningTimeout_cons hlist]
      refine ⟨rfl, ?_⟩
      unfold scans
      split_ifs <;> simp [Event.isScan]

/-- Where a scan timer has just expired. -/
theorem scanningTimeout_pays (selectors : List Nat) (hone : s.scanTimers ≤ 1)
    (htimers : k.scanTimers + 1 = s.scanTimers) (hscans : k.scans = s.scans) :
    Pays 1 s (k.scanningTimeout selectors) := by
  rcases k.scanningTimeout_cases selectors with heq | ⟨htimers', hscans'⟩
  · rw [heq]
    exact pays_startScanning hscans
  · refine ⟨by omega, ?_⟩
    rw [htimers', hscans', hscans]
    omega

theorem disconnect_pays (s : Core Addr Ssid Snr) : Pays 1 s s.disconnect := by
  rw [disconnect, rescan_eq]
  exact pays_startScanning (by simp [sendDisassociationMsg, Event.isScan])

end Core

section Schedules

variable [DecidableEq Addr] [LinearOrder Snr] [LinearOrder Db] {c : Config Addr Ssid Snr Db}

theorem report_pays {n : Nat} {s t : Core Addr Ssid Snr} (h : Core.Pays n s t)
    (ap : ApInfo Addr Ssid Snr) : Core.Pays n s (t.updateCandidateApList c ap) := by
  have hscans : (t.updateCandidateApList c ap).scans = t.scans := by
    have hnote : ((t.note (.report ap)).note (.compared ap.bssid (!weak c ap.snr))).scans =
        t.scans := by simp [Event.isScan]
    exact hnote
  exact ⟨h.1, hscans ▸ h.2⟩

/-- Scan timers are only started by scans. -/
theorem effect_pays {s t : Core Addr Ssid Snr} {i : Input Addr Ssid Snr}
    (hone : s.scanTimers ≤ 1) (heff : Effect c s i t) : Core.Pays 0 s t := by
  have hexpired : ∀ {k : Core Addr Ssid Snr}, k.scanTimers + 1 = s.scanTimers →
      k.scans = s.scans → Core.Pays 0 s (k.scanningTimeout c.selectors) :=
    fun htimers hscans => (Core.scanningTimeout_pays c.selectors hone htimers hscans).free
  cases heff with
  | stay => exact Core.pays_of_same hone rfl rfl
  | report ap hstate => exact report_pays (Core.pays_of_same hone rfl rfl) ap
  | strongBeacon hstate => exact Core.pays_of_same hone rfl (by simp [Event.isScan])
  | weakBeacon hstate hactive => exact s.disconnect_pays.free
  | weakBeaconPassive hstate hactive ap => exact report_pays s.disconnect_pays.free ap
  | probeTimer hpending => exact hexpired (by simp [Core.scanTimers, hpending, Nat.add_comm]) rfl
  | beaconTimer hpending => exact hexpired (by simp [Core.scanTimers, hpending]) rfl
  | accept hstate =>
      refine Core.pays_of_same hone rfl ?_
      rw [Core.scans_note, Core.scans_setState]
      rfl
  | refuse hi hstate hnone =>
      refine Core.pays_of_same hone rfl ?_
      rw [Core.scans_note, Core.scans_setState]
      rfl
  | nextAp hi hstate hsome =>
      rcases s.stopAssocRequest.scanningTimeout_cases c.selectors with heq | ⟨htimers, hscans⟩
      · rw [heq]
        exact (Core.pays_startScanning rfl).free
      · exact Core.pays_of_same hone htimers hscans
  | missedBeacons => exact (Core.pays_startScanning (by simp [Event.isScan])).free
  | unassociatedEnqueue hstate => exact (Core.pays_startScanning (by simp [Event.isScan])).free
  | probingMode enable => exact Core.pays_of_same hone rfl rfl
  | probingRestart enable hstate => exact (Core.pays_startScanning rfl).free
  | reassociate hstate =>
      refine Core.pays_of_same hone rfl ?_
      have hnote : ((s.setState .waitAssocResp).note (.assocRequest s.bssid true)).scans =
          s.scans := by simp [Event.isScan]
      exact hnote

/-- A scan timer expires, or the watchdog no earlier than its end. -/
def due (s : Sta Addr Ssid Snr) : Input Addr Ssid Snr → Bool
  | .probeRequestTimer _ | .waitBeaconTimer _ => true
  | .beaconWatchdog now => decide (s.beaconWatchdogEnd ≤ now)
  | .receive _ _ | .assocRequestTimer | .enqueue _ | .setActiveProbing _
  | .phyCapabilitiesChanged => false

variable [DecidableEq Ssid]

/-- A due expiry starts a scan, or it is the end of the only scan timer. -/
theorem due_pays {s s' : Sta Addr Ssid Snr} {i : Input Addr Ssid Snr}
    (hone : s.toCore.scanTimers ≤ 1) (hdue : due s i = true) (h : step c s i = some s') :
    Core.Pays 1 s.toCore s'.toCore := by
  cases i with
  | probeRequestTimer now =>
      rw [step] at h
      split at h
      · rename_i hpending
        obtain rfl := Option.some.inj h
        rw [Sta.scanningTimeout_toCore]
        refine Core.scanningTimeout_pays c.selectors hone ?_ rfl
        simp [Core.scanTimers, hpending, Nat.add_comm]
      · cases h
  | waitBeaconTimer now =>
      rw [step] at h
      split at h
      · rename_i hpending
        obtain rfl := Option.some.inj h
        rw [Sta.scanningTimeout_toCore]
        refine Core.scanningTimeout_pays c.selectors hone ?_ rfl
        simp [Core.scanTimers, hpending]
      · cases h
  | beaconWatchdog now =>
      rw [step] at h
      split at h
      · obtain rfl := Option.some.inj h
        rw [Sta.missedBeacons, if_neg (not_lt.mpr (of_decide_eq_true hdue)), Sta.onCore_toCore,
          Core.rescan_eq]
        exact Core.pays_startScanning (by simp [Event.isScan])
      · cases h
  | receive now f => cases hdue
  | assocRequestTimer => cases hdue
  | enqueue dst => cases hdue
  | setActiveProbing enable => cases hdue
  | phyCapabilitiesChanged => cases hdue

theorem step_pays {s s' : Sta Addr Ssid Snr} {i : Input Addr Ssid Snr}
    (hone : s.toCore.scanTimers ≤ 1) (h : step c s i = some s') :
    Core.Pays (due s i).toNat s.toCore s'.toCore := by
  cases hdue : due s i with
  | true => exact due_pays hone hdue h
  | false =>
      rcases step_effect h with ⟨-, -, hcore⟩ | ⟨-, heff⟩
      · rw [hcore]
        refine Core.pays_of_same hone rfl ?_
        have hnote : ((s.stopAssocRequest.setState .waitAssocResp).note
            (.assocRequest s.bssid false)).scans = s.toCore.scans := by
          rw [Core.scans_note, Core.scans_setState]
          rfl
        exact hnote
      · exact effect_pays hone heff

end Schedules

/-! ## Runs -/

variable [DecidableEq Addr] [DecidableEq Ssid] [LinearOrder Snr] [LinearOrder Db]
  {c : Config Addr Ssid Snr Db}

/-- Some due expiry can come. -/
theorem Live.exists_due {s : Sta Addr Ssid Snr} (h : Live c s) :
    ∃ i, due s i = true ∧ (step c s i).isSome := by
  rcases h.pending with hdog | hprobe | hbeacon
  · exact ⟨.beaconWatchdog s.beaconWatchdogEnd, by simp [due], by simp [step, hdog]⟩
  · exact ⟨.probeRequestTimer 0, rfl, by simp [step, hprobe]⟩
  · exact ⟨.waitBeaconTimer 0, rfl, by simp [step, hbeacon]⟩

/-- **The station does not get stuck.** If the frames it receives announce
beacon intervals, then after every run a scan timer or the beacon watchdog is
pending. And however the run goes on, with whatever frames, requests and
other expiries: if `n` times a scan timer expires, or the watchdog at its end
or later, then the station has called `StartScanning` at least `(n - 1) / 2`
times. -/
theorem never_stuck (c : Config Addr Ssid Snr Db) (bssid : Addr) (activeProbing : Bool)
    (is js : List (Input Addr Ssid Snr)) (s t : Sta Addr Ssid Snr)
    (hann : EachStep (step c) (Announced c) (init bssid activeProbing) is)
    (hs : run (step c) (init bssid activeProbing) is = some s)
    (ht : run (step c) s js = some t) :
    (∃ i, due s i = true ∧ (step c s i).isSome) ∧
      stepsWhere (step c) due s js + 2 * s.toCore.scans ≤ 2 * t.toCore.scans + 1 := by
  have hlive : Always (step c) (Live c) (init bssid activeProbing) is :=
    always_of_eachStep (fun _ _ _ h hi hstep => step_live h hi hstep)
      (live_of_startScanning rfl) hann
  refine ⟨(hlive is s (List.prefix_refl is) hs).exists_due, ?_⟩
  have hone : s.toCore.scanTimers ≤ 1 := by
    refine run_inv (P := fun s : Sta Addr Ssid Snr => s.toCore.scanTimers ≤ 1)
      (fun _ _ _ h hstep => (step_pays h hstep).1) ?_ hs
    exact (Core.scanTimers_startScanning _).le
  have hpaid : stepsWhere (step c) due s js + t.toCore.scanTimers + 2 * s.toCore.scans ≤
      s.toCore.scanTimers + 2 * t.toCore.scans :=
    stepsWhere_le (I := fun s : Sta Addr Ssid Snr => s.toCore.scanTimers ≤ 1)
      (fun s => s.toCore.scanTimers) (fun s => 2 * s.toCore.scans)
      (fun _ _ _ h hstep => step_pays h hstep) hone ht
  omega

/-- The associated station misses its beacons: the scan that the watchdog
starts finds the AP again, which does not answer. -/
def labSilent : List (Input Nat Nat Nat) :=
  [.beaconWatchdog 1074000, .receive 1080000 (labProbeResp 1 1000), .probeRequestTimer 1124000,
    .assocRequestTimer, .beaconWatchdog 2148000]

theorem never_stuck_labSilent : ∃ s t, run (step labConfig) (init 0 true) labJoin = some s ∧
    run (step labConfig) s labSilent = some t ∧
      (∃ i, due s i = true ∧ (step labConfig s i).isSome) ∧
      3 + 2 * s.toCore.scans ≤ 2 * t.toCore.scans + 1 := by
  have hruns : ((run (step labConfig) (init 0 true) labJoin).bind fun s =>
      (run (step labConfig) s labSilent).map fun _ => stepsWhere (step labConfig) due s labSilent) =
        some 3 := by decide +kernel
  obtain ⟨s, hs, hrest⟩ := Option.bind_eq_some_iff.mp hruns
  obtain ⟨t, ht, hthree⟩ := Option.map_eq_some_iff.mp hrest
  refine ⟨s, t, hs, ht, hthree ▸ never_stuck labConfig 0 true labJoin labSilent s t ?_ hs ht⟩
  intro js i u hpre _ now f b hi hbody
  have hmem : Input.receive now f ∈ labJoin := hi ▸ hpre.subset (by simp)
  simp only [labJoin, List.mem_cons, List.not_mem_nil, or_false, Input.receive.injEq,
    reduceCtorEq, false_or] at hmem
  rcases hmem with ⟨-, rfl⟩ | ⟨-, rfl⟩
  · simp only [labProbeResp, reduceCtorEq, false_or, Body.probeResp.injEq] at hbody
    rw [← hbody]
    change 0 < 102400 * labConfig.maxMissedBeacons
    decide
  · simp [labAssocResp] at hbody

end StaMac

end NetSystem
