import NetSystem.StaAdmission

/-!
# Timers of the handoff station

Which timers are pending in which state. A scan timer belongs to a scan and
the association-request timer to a wait for a response, so that neither is
pending while the station is `ASSOCIATED` (`Quiet`) and no old timer can end
an association.

`TimerInv` is the invariant behind it. Every step keeps it but the one of
`StaAdmission`: `StartScanning` does not cancel the association-request
timer, and when that expires during the scan, the station waits for a
response with the scan timer running, which a later response does not
cancel either. `association_quiet` is about the runs in which it does not
expire then (`RequestOnTime`), `torn_by_scan_timer` is one in which it does.
-/

namespace NetSystem

namespace StaMac

variable {Addr Ssid Snr Db : Type*}

/-! ## The invariant -/

/-- Neither scan timer is pending. -/
def NoScanTimer (s : Core Addr Ssid Snr) : Prop :=
  s.probeRequestEvent = false ∧ s.waitBeaconEvent = false

/-- No timer but the beacon watchdog is pending. -/
def Quiet (s : Core Addr Ssid Snr) : Prop := NoScanTimer s ∧ s.assocRequestEvent = false

structure TimerInv (s : Core Addr Ssid Snr) : Prop where
  scan : s.state = .waitProbeResp ∨ s.state = .waitBeacon ∨ NoScanTimer s
  single : s.probeRequestEvent = false ∨ s.waitBeaconEvent = false
  request : s.state = .associated → s.assocRequestEvent = false

theorem TimerInv.quiet {s : Core Addr Ssid Snr} (h : TimerInv s) (hstate : s.state = .associated) :
    Quiet s := by
  refine ⟨?_, h.request hstate⟩
  rcases h.scan with hscan | hscan | hscan
  · rw [hstate] at hscan
    cases hscan
  · rw [hstate] at hscan
    cases hscan
  · exact hscan

theorem TimerInv.noScanTimer {s : Core Addr Ssid Snr} (h : TimerInv s)
    (hstate : s.state = .waitAssocResp) : NoScanTimer s := by
  rcases h.scan with hscan | hscan | hscan
  · rw [hstate] at hscan
    cases hscan
  · rw [hstate] at hscan
    cases hscan
  · exact hscan

/-- Outside a scan and an association, no scan timer is all there is to say. -/
theorem timerInv_of_noScanTimer {s : Core Addr Ssid Snr} (h : NoScanTimer s)
    (hstate : s.state ≠ .associated) : TimerInv s :=
  ⟨Or.inr (Or.inr h), Or.inl h.1, fun heq => absurd heq hstate⟩

theorem startScanning_timerInv (s : Core Addr Ssid Snr) : TimerInv s.startScanning := by
  cases hactive : s.activeProbing with
  | true =>
      refine ⟨Or.inl (by simp [hactive]), Or.inr ?_, fun h => by simp [hactive] at h⟩
      simp [Core.startScanning, Core.note, Core.setState, hactive]
  | false =>
      refine ⟨Or.inr (Or.inl (by simp [hactive])), Or.inl ?_, fun h => by simp [hactive] at h⟩
      simp [Core.startScanning, Core.note, Core.setState, hactive]

theorem disconnect_timerInv (s : Core Addr Ssid Snr) : TimerInv s.disconnect := by
  rw [Core.disconnect, Core.rescan_eq]
  exact startScanning_timerInv _

theorem scanningTimeout_timerInv {s : Core Addr Ssid Snr} (h : NoScanTimer s)
    (selectors : List Nat) : TimerInv (s.scanningTimeout selectors) := by
  cases hlist : s.candidateAps with
  | nil =>
      rw [s.scanningTimeout_nil hlist]
      exact startScanning_timerInv s
  | cons bestAp rest =>
      rw [s.scanningTimeout_cons hlist]
      exact timerInv_of_noScanTimer h (by simp)

section Effects

variable [DecidableEq Addr] [LinearOrder Snr] [LinearOrder Db] {c : Config Addr Ssid Snr Db}

theorem report_timerInv {s : Core Addr Ssid Snr} (h : TimerInv s) (ap : ApInfo Addr Ssid Snr) :
    TimerInv (s.updateCandidateApList c ap) := ⟨h.scan, h.single, h.request⟩

/-- **The step lemma**, for all that `Effect` lists. -/
theorem effect_timerInv {s t : Core Addr Ssid Snr} {i : Input Addr Ssid Snr} (h : TimerInv s)
    (heff : Effect c s i t) : TimerInv t := by
  cases heff with
  | stay => exact h
  | report ap hstate => exact report_timerInv h ap
  | strongBeacon hstate => exact ⟨h.scan, h.single, h.request⟩
  | weakBeacon hstate hactive => exact disconnect_timerInv s
  | weakBeaconPassive hstate hactive ap => exact report_timerInv (disconnect_timerInv s) ap
  | probeTimer hpending =>
      refine scanningTimeout_timerInv ⟨rfl, ?_⟩ _
      rcases h.single with hoff | hoff
      · rw [hoff] at hpending
        cases hpending
      · exact hoff
  | beaconTimer hpending =>
      refine scanningTimeout_timerInv ⟨?_, rfl⟩ _
      rcases h.single with hoff | hoff
      · exact hoff
      · rw [hoff] at hpending
        cases hpending
  | accept hstate =>
      have hquiet := h.noScanTimer hstate
      exact ⟨Or.inr (Or.inr hquiet), Or.inl hquiet.1, fun _ => rfl⟩
  | refuse hi hstate hnone => exact timerInv_of_noScanTimer (h.noScanTimer hstate) (by simp)
  | nextAp hi hstate hsome =>
      have hquiet : NoScanTimer s.stopAssocRequest := h.noScanTimer hstate
      exact scanningTimeout_timerInv hquiet _
  | missedBeacons => exact startScanning_timerInv _
  | unassociatedEnqueue hstate => exact startScanning_timerInv _
  | probingMode enable => exact ⟨h.scan, h.single, h.request⟩
  | probingRestart enable hstate => exact startScanning_timerInv _
  | reassociate hstate =>
      refine timerInv_of_noScanTimer (h.quiet hstate).1 ?_
      simp [Core.sendAssociationRequest]

end Effects

/-! ## How an association ends -/

variable [DecidableEq Addr] [DecidableEq Ssid] [LinearOrder Snr] [LinearOrder Db]
  {c : Config Addr Ssid Snr Db}

/-- The inputs that may end an association: a good beacon of the station's
own AP that is below the threshold, the watchdog, a change of the PHY. -/
def Ends (c : Config Addr Ssid Snr Db) (s : Sta Addr Ssid Snr) (i : Input Addr Ssid Snr) : Prop :=
  (∃ now f b, i = .receive now f ∧ f.body = .beacon b ∧ f.addr3 = s.bssid ∧
    s.goodBeacon c f.addr3 b = true ∧ weak c (f.snrTag.getD c.noSnr) = true) ∨
  (∃ now, i = .beaconWatchdog now) ∨ i = .phyCapabilitiesChanged

/-- The association goes on, with the same AP. -/
def Stays (s t : Core Addr Ssid Snr) : Prop := t.state = .associated ∧ t.bssid = s.bssid

theorem receiveBeacon_associated (now : Nat) (f : Frame Addr Ssid Snr) (b : ApFrame Ssid)
    {s : Sta Addr Ssid Snr} (hstate : s.state = .associated) :
    Stays s.toCore (s.receiveBeacon c now f b).toCore ∨
      ((s.receiveBeacon c now f b).state ≠ .associated ∧ f.addr3 = s.bssid ∧
        s.goodBeacon c f.addr3 b = true ∧ weak c (f.snrTag.getD c.noSnr) = true) := by
  have hleft : s.disconnect.state ≠ .associated := s.disconnect_ne (by decide)
  rcases receiveBeacon_of_associated c now f b hstate with hsame | ⟨haddr, hgood, hcases⟩
  · rw [hsame]
    exact Or.inl ⟨hstate, rfl⟩
  · rcases hcases with ⟨-, hcore⟩ | ⟨hweak, -, hcore⟩ | ⟨hweak, -, ap, hcore⟩
    · rw [hcore]
      exact Or.inl ⟨hstate, rfl⟩
    · rw [hcore]
      exact Or.inr ⟨hleft, haddr, hgood, hweak⟩
    · rw [hcore]
      exact Or.inr ⟨hleft, haddr, hgood, hweak⟩

theorem receive_associated (now : Nat) (f : Frame Addr Ssid Snr) {s : Sta Addr Ssid Snr}
    (hstate : s.state = .associated) :
    Stays s.toCore (s.receive c now f).toCore ∨
      ((s.receive c now f).state ≠ .associated ∧ Ends c s (.receive now f)) := by
  rcases receive_cases c now f s with hsame | ⟨s₁, hcore, -, hcases⟩
  · rw [hsame]
    exact Or.inl ⟨hstate, rfl⟩
  · have hstate₁ : s₁.state = .associated := by rw [hcore]; exact hstate
    have hstays : Stays s.toCore s₁.toCore := by
      rw [hcore]
      exact ⟨hstate, rfl⟩
    rcases hcases with ⟨b, hbody, heq⟩ | ⟨p, -, heq⟩ | ⟨isSuccess, aid, -, heq⟩
    · have hbeacon := receiveBeacon_associated (c := c) now f b hstate₁
      have hsame : s₁.goodBeacon c f.addr3 b = s.goodBeacon c f.addr3 b := by
        simp only [Sta.goodBeacon, hcore]
      rw [hcore, hsame, ← heq] at hbeacon
      rcases hbeacon with hgo | ⟨hleft, haddr, hgood, hweak⟩
      · exact Or.inl hgo
      · exact Or.inr ⟨hleft, Or.inl ⟨now, f, b, rfl, hbody, haddr, hgood, hweak⟩⟩
    · rw [heq, Sta.receiveProbeResp, if_neg (by simp [hstate₁])]
      exact Or.inl hstays
    · rw [heq, Sta.receiveAssocResp, if_neg (by simp [hstate₁])]
      exact Or.inl hstays

/-- One step out of `ASSOCIATED`. -/
theorem step_associated {s s' : Sta Addr Ssid Snr} {i : Input Addr Ssid Snr}
    (hstate : s.state = .associated) (hquiet : Quiet s.toCore) (h : step c s i = some s') :
    Stays s.toCore s'.toCore ∨ (s'.state ≠ .associated ∧ Ends c s i) := by
  obtain ⟨⟨hprobe, hbeacon⟩, hrequest⟩ := hquiet
  cases i with
  | receive now f =>
      obtain rfl := Option.some.inj h
      exact receive_associated now f hstate
  | probeRequestTimer now => simp [step, hprobe] at h
  | waitBeaconTimer now => simp [step, hbeacon] at h
  | assocRequestTimer => simp [step, hrequest] at h
  | beaconWatchdog now =>
      rw [step] at h
      split at h
      · obtain rfl := Option.some.inj h
        unfold Sta.missedBeacons
        split
        · exact Or.inl ⟨hstate, rfl⟩
        · refine Or.inr ⟨?_, Or.inr (Or.inl ⟨now, rfl⟩)⟩
          rw [Sta.onCore_toCore, Core.rescan_eq, Core.startScanning_state]
          split <;> simp
      · cases h
  | enqueue dst =>
      obtain rfl := Option.some.inj h
      rw [Sta.enqueue, if_pos hstate]
      exact Or.inl ⟨hstate, rfl⟩
  | setActiveProbing enable =>
      obtain rfl := Option.some.inj h
      refine Or.inl ⟨?_, ?_⟩
      · simp [Core.setActiveProbing, hstate]
      · simp [Core.setActiveProbing, hstate]
  | phyCapabilitiesChanged =>
      obtain rfl := Option.some.inj h
      refine Or.inr ⟨?_, Or.inr (Or.inr rfl)⟩
      simp [Core.phyCapabilitiesChanged, hstate, Core.sendAssociationRequest]

/-! ## Runs -/

/-- The association-request timer does not expire while a scan timer is
pending. -/
def RequestOnTime (s : Sta Addr Ssid Snr) (i : Input Addr Ssid Snr) : Prop :=
  i = .assocRequestTimer → s.assocRequestEvent = true → NoScanTimer s.toCore

theorem step_timerInv {s s' : Sta Addr Ssid Snr} {i : Input Addr Ssid Snr}
    (h : TimerInv s.toCore) (hcond : RequestOnTime s i) (hstep : step c s i = some s') :
    TimerInv s'.toCore := by
  rcases step_effect hstep with ⟨hi, hpending, hcore⟩ | ⟨-, heff⟩
  · rw [hcore]
    have hoff : NoScanTimer s.stopAssocRequest.assocRequestTimeout := hcond hi hpending
    refine timerInv_of_noScanTimer hoff ?_
    simp [Core.assocRequestTimeout, Core.sendAssociationRequest]
  · exact effect_timerInv h heff

/-- What the station promises about an association: no timer but the
watchdog is pending, and it goes on with the same AP until one of the three
inputs ends it. -/
def Undisturbed (c : Config Addr Ssid Snr Db) (s : Sta Addr Ssid Snr) : Prop :=
  s.state = .associated → Quiet s.toCore ∧
    ∀ i s', step c s i = some s' →
      Stays s.toCore s'.toCore ∨ (s'.state ≠ .associated ∧ Ends c s i)

/-- **An association is not torn down by an old timer**, in every run in
which the association-request timer does not expire during a scan. -/
theorem association_quiet (c : Config Addr Ssid Snr Db) (bssid : Addr) (activeProbing : Bool)
    (is : List (Input Addr Ssid Snr))
    (hcond : EachStep (step c) RequestOnTime (init bssid activeProbing) is) :
    Always (step c) (Undisturbed c) (init bssid activeProbing) is := by
  have hinv : Always (step c) (fun s : Sta Addr Ssid Snr => TimerInv s.toCore)
      (init bssid activeProbing) is :=
    always_of_eachStep (fun _ _ _ h hC hstep => step_timerInv h hC hstep)
      (startScanning_timerInv _) hcond
  intro js s hjs hs hstate
  have hquiet := (hinv js s hjs hs).quiet hstate
  exact ⟨hquiet, fun i s' hstep => step_associated hstate hquiet hstep⟩

/-! ## Two runs of the lab station -/

theorem association_quiet_labJoin :
    Always (step labConfig) (Undisturbed labConfig) (init 0 true) labJoin := by
  refine association_quiet labConfig 0 true labJoin ?_
  intro js i t hpre _ hi
  have hmem : Input.assocRequestTimer ∈ labJoin := hi ▸ hpre.subset (by simp)
  exact absurd hmem (by decide)

/-- The AP answers the request that the old timer has repeated during the
rescan. The scan timer is still running and expires 23 ms later. -/
def labTorn : List (Input Nat Nat Nat) := labStale ++ [.receive 1551000 (labAssocResp 1 true)]

/-- The station is associated with a scan timer pending, and its expiry ends
the association. -/
theorem torn_by_scan_timer :
    ¬ Always (step labConfig) (Undisturbed labConfig) (init 0 true) labTorn ∧
      (run (step labConfig) (init 0 true) labTorn).map (fun s => (s.state, s.probeRequestEvent)) =
        some (.associated, true) ∧
      (run (step labConfig) (init 0 true) (labTorn ++ [.probeRequestTimer 1574000])).map
        (fun s => s.state) = some .waitProbeResp := by
  have hend : (run (step labConfig) (init 0 true) labTorn).map
      (fun s => (s.state, s.probeRequestEvent)) = some (.associated, true) := by decide +kernel
  refine ⟨fun hall => ?_, hend, by decide +kernel⟩
  obtain ⟨s, hs, heq⟩ := Option.map_eq_some_iff.mp hend
  simp only [Prod.mk.injEq] at heq
  obtain ⟨⟨hprobe, -⟩, -⟩ := (hall labTorn s (List.prefix_refl _) hs heq.1).1
  rw [heq.2] at hprobe
  cases hprobe

end StaMac

end NetSystem
