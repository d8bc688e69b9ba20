import NetSystem.StaEffect

/-!
# The SNR tag and the assertions about it

`Receive` takes the SNR tag off a copy of a beacon or probe response and
asserts that there was one (`NS_ASSERT (removed)`). The two blocks for
beacons follow each other, and the first one may leave the station in the
state the second one asks for: a weak beacon of the own AP makes a passive
station wait for beacons, and the beacon is reported a second time, without
its tag.

`Sta.removals` is the sequence of the results of `RemovePacketTag` in a
call; `receiveBeacon_failures` connects it with the failed assertions the
station notes.
-/

namespace NetSystem

namespace StaMac

variable {Addr Ssid Snr Db : Type*}

/-! ## What a call does with the tag -/

/-- The assertions that failed so far. -/
def Sta.failures [DecidableEq Addr] (s : Sta Addr Ssid Snr) : Nat := s.side.count .assertFailed

section Calls

variable [DecidableEq Addr] [DecidableEq Ssid] [LinearOrder Snr] [LinearOrder Db]

/-- The results of `RemovePacketTag` on the copy of a beacon, in order: the
first block takes the tag, the second one finds it or finds it gone. -/
def Sta.beaconRemovals (c : Config Addr Ssid Snr Db) (now : Nat) (f : Frame Addr Ssid Snr)
    (b : ApFrame Ssid) (s : Sta Addr Ssid Snr) : List Bool :=
  let s := s.assert b.isEss
  let good := s.goodBeacon c f.addr3 b
  let first := good && decide (s.state = .associated)
  let s' := if first then s.associatedBeacon c now f b else s
  (if first then [f.snrTag.isSome] else []) ++
    if good && decide (s'.state = .waitBeacon) then
      [(if first then none else f.snrTag).isSome]
    else []

instance (c : Config Addr Ssid Snr Db) (f : Frame Addr Ssid Snr) : Decidable (Addressed c f) :=
  inferInstanceAs (Decidable (_ ∧ _))

/-- The same for any frame. -/
def Sta.removals (c : Config Addr Ssid Snr Db) (now : Nat) (f : Frame Addr Ssid Snr)
    (s : Sta Addr Ssid Snr) : List Bool :=
  if Addressed c f then
    match f.body with
    | .beacon b => s.beaconRemovals c now f b
    | .probeResp p =>
        if s.state = .waitProbeResp ∧ p.ssid = c.ssid then [f.snrTag.isSome] else []
    | _ => []
  else []

/-- A poll that a station without PCF is asked to answer. -/
def Sta.pollFailures (c : Config Addr Ssid Snr Db) (f : Frame Addr Ssid Snr)
    (s : Sta Addr Ssid Snr) : Nat :=
  if (f.addr1 = c.address ∧ f.addr2 = s.bssid ∧ f.isCfPoll) ∧ ¬ c.pcfSupported then 1 else 0

/-- The other assertions that fail while a beacon or probe response is
handled: the poll, and a beacon without the ESS bit. -/
def Sta.otherFailures (c : Config Addr Ssid Snr Db) (f : Frame Addr Ssid Snr)
    (s : Sta Addr Ssid Snr) : Nat :=
  if Addressed c f then
    s.pollFailures c f +
      match f.body with
      | .beacon b => if b.isEss then 0 else 1
      | _ => 0
  else 0

/-- What a call appends to the trace. -/
def Sta.newEvents (c : Config Addr Ssid Snr Db) (now : Nat) (f : Frame Addr Ssid Snr)
    (s : Sta Addr Ssid Snr) : List (Event Addr Ssid Snr) :=
  (s.receive c now f).trace.drop s.trace.length

/-- No `NS_ASSERT (removed)` fails, the tag is taken at most once, and a
frame that ends the association is not reported as well. -/
structure TagSafe (c : Config Addr Ssid Snr Db) (now : Nat) (f : Frame Addr Ssid Snr)
    (s : Sta Addr Ssid Snr) : Prop where
  asserted : (s.receive c now f).failures = s.failures + s.otherFailures c f
  once : (s.removals c now f).length ≤ 1
  single : ∀ dst ap, .disassociation dst ∈ s.newEvents c now f → .report ap ∉ s.newEvents c now f

/-- A weak beacon of the own AP, at a passive station. -/
def PassiveWeak (c : Config Addr Ssid Snr Db) (f : Frame Addr Ssid Snr)
    (s : Sta Addr Ssid Snr) : Prop :=
  Addressed c f ∧ s.state = .associated ∧ s.activeProbing = false ∧
    ∃ b, f.body = .beacon b ∧ s.goodBeacon c f.addr3 b = true ∧
      weak c (f.snrTag.getD c.noSnr) = true

end Calls

/-! ## Failed assertions -/

section Failures

variable [DecidableEq Addr] {s : Sta Addr Ssid Snr}

@[simp] theorem failures_onCore (g : Core Addr Ssid Snr → Core Addr Ssid Snr) :
    (s.onCore g).failures = s.failures := rfl

theorem failures_out (o : Side Addr) :
    (s.out o).failures = s.failures + if o = .assertFailed then 1 else 0 := by
  rw [Sta.failures, Sta.out, List.count_append, List.count_singleton]
  simp [Sta.failures]

theorem failures_assert (b : Bool) :
    (s.assert b).failures = s.failures + if b then 0 else 1 := by
  cases b with
  | true => rfl
  | false => simp [Sta.assert, failures_out]

@[simp] theorem failures_restartBeaconWatchdog (now delay : Nat) :
    (s.restartBeaconWatchdog now delay).failures = s.failures := by
  unfold Sta.restartBeaconWatchdog
  simp only
  split <;> rfl

variable [LinearOrder Db] {c : Config Addr Ssid Snr Db}

theorem failures_associatedBeacon (now : Nat) {f : Frame Addr Ssid Snr} (b : ApFrame Ssid)
    (htag : f.snrTag.isSome = true) : (s.associatedBeacon c now f b).failures = s.failures := by
  unfold Sta.associatedBeacon
  simp only
  split
  · rfl
  · simp [failures_assert, failures_out, htag]

theorem failures_reportAp [LinearOrder Snr] (f : Frame Addr Ssid Snr) (activeProbing : Bool)
    (tag : Option Snr) (frame : ApFrame Ssid) : (s.reportAp c f activeProbing tag frame).failures =
      s.failures + if tag.isSome then 0 else 1 := by
  rw [Sta.reportAp, failures_onCore, failures_assert]

theorem updateCandidateApList_trace [LinearOrder Snr] (ap : ApInfo Addr Ssid Snr)
    (s : Core Addr Ssid Snr) : (s.updateCandidateApList c ap).trace =
      s.trace ++ [.report ap, .compared ap.bssid (!weak c ap.snr)] := by
  simp [Core.updateCandidateApList]

end Failures

/-! ## Beacons -/

theorem not_mem_new {k s : Core Addr Ssid Snr} {new : List (Event Addr Ssid Snr)}
    (htrace : k.trace = s.trace ++ new) {e : Event Addr Ssid Snr} (he : e ∉ new) :
    e ∉ k.trace.drop s.trace.length := by
  rwa [htrace, List.drop_left]

variable [DecidableEq Addr] [DecidableEq Ssid] [LinearOrder Db] {c : Config Addr Ssid Snr Db}

/-- The tag is asked for twice exactly by a passive station that a weak
beacon has just disconnected. -/
theorem beaconRemovals_eq (now : Nat) {f : Frame Addr Ssid Snr} (b : ApFrame Ssid)
    (s : Sta Addr Ssid Snr) (htag : f.snrTag.isSome = true) :
    s.beaconRemovals c now f b =
      if s.goodBeacon c f.addr3 b = true then
        if s.state = .associated then
          true :: if weak c (f.snrTag.getD c.noSnr) = true ∧ s.activeProbing = false
            then [false] else []
        else if s.state = .waitBeacon then [true] else []
      else [] := by
  have hcore := s.assert_toCore b.isEss
  have hsame : (s.assert b.isEss).goodBeacon c f.addr3 b = s.goodBeacon c f.addr3 b := by
    simp only [Sta.goodBeacon, hcore]
  unfold Sta.beaconRemovals
  simp only [hsame, hcore]
  cases hgood : s.goodBeacon c f.addr3 b with
  | false => simp
  | true =>
      by_cases hstate : s.state = .associated
      · have haddr := addr3_of_goodBeacon hgood hstate
        generalize s.assert b.isEss = s₁ at hcore ⊢
        have hbeacon :=
          associatedBeacon_toCore c now b (haddr.trans (congrArg Core.bssid hcore).symm)
        rw [hcore] at hbeacon
        simp only [hstate, htag, decide_true, Bool.and_true, if_true, hbeacon,
          Option.isSome_none, List.singleton_append]
        cases hweak : weak c (f.snrTag.getD c.noSnr) with
        | true => cases hactive : s.activeProbing <;> simp [hactive]
        | false => simp [hstate]
      · simp [hstate, htag]

theorem beaconRemovals_short (now : Nat) {f : Frame Addr Ssid Snr} {b : ApFrame Ssid}
    {s : Sta Addr Ssid Snr} (htag : f.snrTag.isSome = true)
    (hsafe : ¬ (s.state = .associated ∧ s.activeProbing = false ∧
      s.goodBeacon c f.addr3 b = true ∧ weak c (f.snrTag.getD c.noSnr) = true)) :
    s.beaconRemovals c now f b = [] ∨ s.beaconRemovals c now f b = [true] := by
  rw [beaconRemovals_eq now b s htag]
  split_ifs with hgood hstate hcond hwait
  · exact absurd ⟨hstate, hcond.2, hgood, hcond.1⟩ hsafe
  · exact Or.inr rfl
  · exact Or.inr rfl
  · exact Or.inl rfl
  · exact Or.inl rfl

variable [LinearOrder Snr]

/-- The failed assertions of a call are the removals that found no tag, and
a missing ESS bit. -/
theorem receiveBeacon_failures (now : Nat) {f : Frame Addr Ssid Snr} (b : ApFrame Ssid)
    (s : Sta Addr Ssid Snr) (htag : f.snrTag.isSome = true) :
    (s.receiveBeacon c now f b).failures =
      s.failures + (if b.isEss then 0 else 1) + (s.beaconRemovals c now f b).count false := by
  rw [← failures_assert]
  unfold Sta.receiveBeacon Sta.beaconRemovals
  simp only
  generalize s.assert b.isEss = s₁
  cases hfirst : s₁.goodBeacon c f.addr3 b && decide (s₁.state = .associated) with
  | true =>
      simp only [if_true, htag, Option.isSome_none]
      split
      · simp [failures_reportAp, failures_associatedBeacon, htag]
      · simp [failures_associatedBeacon, htag]
  | false =>
      simp only [Bool.false_eq_true, if_false, htag]
      split
      · simp [failures_reportAp, htag]
      · simp

/-! ## Calls -/

/-- A call drops the frame, or hands it on after answering a poll. -/
theorem receive_handed (now : Nat) (f : Frame Addr Ssid Snr) (s : Sta Addr Ssid Snr) :
    (¬ Addressed c f ∧ (s.receive c now f).toCore = s.toCore ∧
      (s.receive c now f).failures = s.failures) ∨
    (Addressed c f ∧ ∃ s₁ : Sta Addr Ssid Snr, s₁.toCore = s.toCore ∧
      s₁.failures = s.failures + s.pollFailures c f ∧
      (∀ b, f.body = .beacon b → s.receive c now f = s₁.receiveBeacon c now f b) ∧
      ∀ p, f.body = .probeResp p → s.receive c now f = s₁.receiveProbeResp c f p) := by
  unfold Sta.receive
  split
  · rename_i hown
    exact Or.inl ⟨fun h => h.1 hown, rfl, rfl⟩
  · rename_i hown
    split
    · rename_i hother
      refine Or.inl ⟨fun h => ?_, rfl, by simp [failures_out]⟩
      rcases h.2 with hme | hgroup
      · exact hother.1 hme
      · exact hother.2 hgroup
    · rename_i hother
      have haddr : Addressed c f := by
        refine ⟨hown, ?_⟩
        by_contra hno
        rw [not_or] at hno
        exact hother hno
      refine Or.inr ⟨haddr, _, ?_, ?_, fun b hb => by rw [hb], fun p hp => by rw [hp]⟩
      · split <;> simp
      · unfold Sta.pollFailures
        by_cases hpoll : f.addr1 = c.address ∧ f.addr2 = s.bssid ∧ f.isCfPoll = true
        · rw [if_pos hpoll, failures_out, failures_assert]
          cases c.pcfSupported <;> simp [hpoll]
        · rw [if_neg hpoll, if_neg fun h => hpoll h.1]
          rfl

/-- No call for a beacon both ends the association and reports, except the
one in question. -/
theorem beacon_single (now : Nat) {f : Frame Addr Ssid Snr} (b : ApFrame Ssid)
    {s : Sta Addr Ssid Snr} (hsafe : ¬ (s.state = .associated ∧ s.activeProbing = false ∧
      s.goodBeacon c f.addr3 b = true ∧ weak c (f.snrTag.getD c.noSnr) = true)) :
    (∀ dst, .disassociation dst ∉ (s.receiveBeacon c now f b).trace.drop s.trace.length) ∨
      ∀ ap, .report ap ∉ (s.receiveBeacon c now f b).trace.drop s.trace.length := by
  by_cases hstate : s.state = .associated
  · rcases receiveBeacon_of_associated c now f b hstate with hsame | ⟨-, hgood, hcases⟩
    · rw [hsame]
      refine Or.inl fun dst => ?_
      rw [List.drop_length]
      exact List.not_mem_nil
    · rcases hcases with ⟨-, hcore⟩ | ⟨-, -, hcore⟩ | ⟨hweak, hpassive, ap, -⟩
      · rw [hcore]
        exact Or.inl fun dst => not_mem_new (s.note_trace _) (by simp)
      · rw [hcore]
        refine Or.inr fun ap => not_mem_new (s.disconnect_trace hstate) ?_
        cases s.activeProbing <;> simp
      · exact absurd ⟨hstate, hpassive, hgood, hweak⟩ hsafe
  · rcases receiveBeacon_of_not_associated c now f b hstate with hsame | ⟨-, ap, hcore⟩
    · rw [hsame]
      refine Or.inl fun dst => ?_
      rw [List.drop_length]
      exact List.not_mem_nil
    · rw [hcore]
      exact Or.inl fun dst => not_mem_new (updateCandidateApList_trace ap s.toCore) (by simp)

theorem tagSafe_of_dropped {now : Nat} {f : Frame Addr Ssid Snr} {s : Sta Addr Ssid Snr}
    (hno : ¬ Addressed c f) (hcore : (s.receive c now f).toCore = s.toCore)
    (hfail : (s.receive c now f).failures = s.failures) : TagSafe c now f s where
  asserted := by
    rw [hfail, Sta.otherFailures, if_neg hno]
    rfl
  once := by simp [Sta.removals, hno]
  single := by
    intro dst ap hmem
    rw [Sta.newEvents, hcore] at hmem
    simp at hmem

theorem tagSafe_beacon (now : Nat) {f : Frame Addr Ssid Snr} {b : ApFrame Ssid}
    {s : Sta Addr Ssid Snr} (htag : f.snrTag.isSome = true) (hbody : f.body = .beacon b) :
    TagSafe c now f s ↔ ¬ PassiveWeak c f s := by
  rcases receive_handed (c := c) now f s with ⟨hno, hcore, hfail⟩ | ⟨haddr, s₁, hcore, hfail, hb, -⟩
  · exact ⟨fun _ h => hno h.1, fun _ => tagSafe_of_dropped hno hcore hfail⟩
  · have hremovals : s.removals c now f = s.beaconRemovals c now f b := by
      rw [Sta.removals, if_pos haddr, hbody]
    have hsame : s₁.goodBeacon c f.addr3 b = s.goodBeacon c f.addr3 b := by
      simp only [Sta.goodBeacon, hcore]
    have hmoved : s₁.beaconRemovals c now f b = s.beaconRemovals c now f b := by
      rw [beaconRemovals_eq now b s₁ htag, beaconRemovals_eq now b s htag, hsame, hcore]
    constructor
    · rintro ⟨-, honce, -⟩ ⟨-, hstate, hpassive, b', hb', hgood, hweak⟩
      obtain rfl : b = b' := by simpa [hbody] using hb'
      rw [hremovals, beaconRemovals_eq now b s htag, if_pos hgood, if_pos hstate,
        if_pos ⟨hweak, hpassive⟩] at honce
      simp at honce
    · intro hsafe
      have hsafe' : ¬ (s.state = .associated ∧ s.activeProbing = false ∧
          s.goodBeacon c f.addr3 b = true ∧ weak c (f.snrTag.getD c.noSnr) = true) := by
        rintro ⟨hstate, hpassive, hgood, hweak⟩
        exact hsafe ⟨haddr, hstate, hpassive, b, hbody, hgood, hweak⟩
      have hlist := beaconRemovals_short (c := c) now htag hsafe'
      refine ⟨?_, ?_, fun dst ap hdis => ?_⟩
      · rw [hb b hbody, receiveBeacon_failures now b s₁ htag, hmoved, hfail, Sta.otherFailures,
          if_pos haddr, hbody]
        rcases hlist with hnil | hone
        · simp [hnil, Nat.add_assoc]
        · simp [hone, Nat.add_assoc]
      · rw [hremovals]
        rcases hlist with hnil | hone
        · simp [hnil]
        · simp [hone]
      · rw [Sta.newEvents, hb b hbody] at hdis ⊢
        rw [← hcore, ← hsame] at hsafe'
        rw [← hcore] at hdis ⊢
        rcases beacon_single now b hsafe' with hnone | hnone
        · exact absurd hdis (hnone dst)
        · exact hnone ap

theorem tagSafe_probeResp (now : Nat) {f : Frame Addr Ssid Snr} {p : ApFrame Ssid}
    {s : Sta Addr Ssid Snr} (htag : f.snrTag.isSome = true) (hbody : f.body = .probeResp p) :
    TagSafe c now f s := by
  rcases receive_handed (c := c) now f s with ⟨hno, hcore, hfail⟩ | ⟨haddr, s₁, hcore, hfail, -, hp⟩
  · exact tagSafe_of_dropped hno hcore hfail
  · have hother : s.otherFailures c f = s.pollFailures c f := by
      rw [Sta.otherFailures, if_pos haddr, hbody]
      rfl
    have honce : (s.removals c now f).length ≤ 1 := by
      rw [Sta.removals, if_pos haddr, hbody]
      dsimp only
      split <;> simp
    have hevents := hp p hbody
    unfold Sta.receiveProbeResp at hevents
    split at hevents
    · refine ⟨?_, honce, fun dst ap hdis => ?_⟩
      · rw [hevents, failures_reportAp, hfail, hother]
        simp [htag]
      · rw [Sta.newEvents, hevents, ← hcore] at hdis
        rw [Sta.reportAp, Sta.onCore_toCore, Sta.assert_toCore] at hdis
        exact absurd hdis (not_mem_new (updateCandidateApList_trace _ _) (by simp))
    · refine ⟨?_, honce, fun dst ap hdis => ?_⟩
      · rw [hevents, hfail, hother]
      · rw [Sta.newEvents, hevents, hcore] at hdis
        simp at hdis

/-! ## Runs -/

/-- A beacon or a probe response with an SNR tag. -/
def TaggedFrame (f : Frame Addr Ssid Snr) : Prop :=
  f.snrTag.isSome = true ∧ ((∃ b, f.body = .beacon b) ∨ ∃ p, f.body = .probeResp p)

/-- The step handles such a frame, if it does, as it should. -/
def TagSafeStep (c : Config Addr Ssid Snr Db) (s : Sta Addr Ssid Snr)
    (i : Input Addr Ssid Snr) : Prop :=
  ∀ now f, i = .receive now f → TaggedFrame f → TagSafe c now f s

theorem tagSafeStep_iff {s : Sta Addr Ssid Snr} {i : Input Addr Ssid Snr} :
    TagSafeStep c s i ↔ ∀ now f, i = .receive now f → TaggedFrame f → ¬ PassiveWeak c f s := by
  constructor
  · intro h now f hi hf
    have hsafe := h now f hi hf
    rcases hf with ⟨htag, ⟨b, hbody⟩ | ⟨p, hbody⟩⟩
    · exact (tagSafe_beacon now htag hbody).mp hsafe
    · rintro ⟨-, -, -, b, hb, -⟩
      rw [hbody] at hb
      cases hb
  · intro h now f hi hf
    have hno := h now f hi hf
    rcases hf with ⟨htag, ⟨b, hbody⟩ | ⟨p, hbody⟩⟩
    · exact (tagSafe_beacon now htag hbody).mpr hno
    · exact tagSafe_probeResp now htag hbody

/-- **The tag is taken once**, in all steps of exactly those runs in which
no passive station hears its own AP below the threshold. -/
theorem tag_taken_once_iff (c : Config Addr Ssid Snr Db) (bssid : Addr) (activeProbing : Bool)
    (is : List (Input Addr Ssid Snr)) :
    EachStep (step c) (TagSafeStep c) (init bssid activeProbing) is ↔
      EachStep (step c) (fun s i => ∀ now f, i = .receive now f → TaggedFrame f →
        ¬ PassiveWeak c f s) (init bssid activeProbing) is := by
  constructor
  · intro h js i t hjs ht
    exact tagSafeStep_iff.mp (h js i t hjs ht)
  · intro h js i t hjs ht
    exact tagSafeStep_iff.mpr (h js i t hjs ht)

/-- A beacon of the AP. -/
def labBeacon (ap snr : Nat) : Frame Nat Nat Nat :=
  ⟨0, ap, ap, false, .beacon ⟨1, [], 102400, true⟩, some snr⟩

/-- Passive scanning: the AP is joined at 30 dB, its next beacon comes at
10 dB. -/
def labPassive : List (Input Nat Nat Nat) :=
  [.receive 10000 (labBeacon 1 1000), .waitBeaconTimer 120000,
    .receive 121000 (labAssocResp 1 true), .receive 204800 (labBeacon 1 10)]

/-- The second removal finds no tag, and the assertion fails. -/
theorem tag_taken_twice :
    ¬ EachStep (step labConfig) (TagSafeStep labConfig) (init 0 false) labPassive ∧
      (run (step labConfig) (init 0 false) (labPassive.take 3)).map
        (fun s => s.removals labConfig 204800 (labBeacon 1 10)) = some [true, false] ∧
      (run (step labConfig) (init 0 false) labPassive).map Sta.failures = some 1 := by
  have htags : (run (step labConfig) (init 0 false) (labPassive.take 3)).map
      (fun s => s.removals labConfig 204800 (labBeacon 1 10)) = some [true, false] := by
    decide +kernel
  refine ⟨fun hall => ?_, htags, by decide +kernel⟩
  obtain ⟨s, hs, hremovals⟩ := Option.map_eq_some_iff.mp htags
  have hsafe := hall (labPassive.take 3) (.receive 204800 (labBeacon 1 10)) s
    (List.prefix_refl labPassive) hs 204800 (labBeacon 1 10) rfl ⟨rfl, Or.inl ⟨_, rfl⟩⟩
  have honce := hsafe.once
  rw [hremovals] at honce
  simp at honce

end StaMac

end NetSystem
