import NetSystem.BgpSelect

/-!
# Selecting again

Step 10 of `bgp_info_cmp` prefers, among external paths that are equal so
far, the one that is selected. So the flags that a selection leaves behind
change the comparison that it was made with, and with deterministic-med even
which paths are in the race. `IsBest.again` says that the selected path is
still the best one: selecting again changes nothing. Nor does the order of
the paths (`selection_stable`); without deterministic-med or
always-compare-med it would.
-/

namespace NetSystem

namespace Bgp

open Criteria

/-- A path without the flags that the selection changes. -/
def Info.bare (i : Info) : Info := { i with selected := false, attrChanged := false }

/-- The values that steps 1 to 8 compare. -/
def frontKey (c : Config) (med : Bool) (i : Info) : List Int :=
  [-(i.attr.weight : Int), -(pref c i : Int), if i.subType = .normal then 1 else 0,
    if ¬ c.aspathIgnore then (pathLength c i.attr.aspath : Int) else 0, (i.attr.origin : Int),
    if med then (bgpMedValue c i.attr : Int) else 0, if peerSort c i = .ebgp then 0 else 1,
    (i.igpmetric : Int)]

/-- The values that steps 11 to 13 compare. -/
def idKey (c : Config) (i : Info) : List Int :=
  (routerId c i : Int) :: (clusterLength i : Int) :: (if i.stale then 1 else 0) ::
    ((c.peer i.peer).suRemote.map SockUnion.values).getD []

/-- Step 10 applies to the path. -/
def Sticky (c : Config) (i : Info) : Prop := ¬ c.compareRouterId ∧ peerSort c i = .ebgp

instance (c : Config) (i : Info) : Decidable (Sticky c i) := inferInstanceAs (Decidable (_ ∧ _))

theorem key_lt_iff {c : Config} {med : Bool} {i j : Info} :
    key c med i < key c med j ↔ frontKey c med i < frontKey c med j ∨
      (frontKey c med i = frontKey c med j ∧ tieKey c i < tieKey c j) :=
  @append_lt_append_iff _ _ (frontKey c med i) (frontKey c med j) rfl

theorem tieKey_eq (c : Config) (i : Info) :
    tieKey c i = (if Sticky c i ∧ i.selected then 0 else 1) :: idKey c i := by
  rw [tieKey, idKey]
  congr 1
  exact if_congr and_assoc.symm rfl rfl

theorem sticky_iff_of_frontKey {c : Config} {med : Bool} {i j : Info}
    (heq : frontKey c med i = frontKey c med j) : Sticky c i ↔ Sticky c j := by
  simp only [frontKey, List.cons.injEq] at heq
  have hsort : (if peerSort c i = .ebgp then (0 : Int) else 1) =
      if peerSort c j = .ebgp then 0 else 1 := heq.2.2.2.2.2.2.1
  refine and_congr_right fun _ => ?_
  by_cases hi : peerSort c i = .ebgp
  · by_cases hj : peerSort c j = .ebgp
    · exact iff_of_true hi hj
    · simp [hi, hj] at hsort
  · by_cases hj : peerSort c j = .ebgp
    · simp [hi, hj] at hsort
    · exact iff_of_false hi hj

/-- Equal values with the MED are equal values without. -/
theorem frontKey_med {c : Config} {i j : Info} (heq : frontKey c true i = frontKey c true j)
    (med : Bool) : frontKey c med i = frontKey c med j := by
  cases med with
  | true => exact heq
  | false =>
      simp only [frontKey, List.cons.injEq] at heq ⊢
      obtain ⟨hw, hp, hl, hlen, ho, -, hs, hm, -⟩ := heq
      exact ⟨hw, hp, hl, hlen, ho, rfl, hs, hm, trivial⟩

/-- `n` is the only selected path now; nothing else has changed. -/
structure Reselected (h h' : Heap) (list : List Ptr) (n : Ptr) : Prop where
  bare : ∀ x ∈ list, (h' x).bare = (h x).bare
  selected : ∀ x ∈ list, (h' x).selected = decide (x = n)

section Again

variable {c : Config} {st : Status} {h h' : Heap} {list : List Ptr} {n : Ptr}

namespace Reselected

variable (hre : Reselected h h' list n) {x y : Ptr}

include hre

/-- What does not read the flags is as before. -/
theorem congr {β : Sort*} (f : Info → β) (hf : ∀ i : Info, f i.bare = f i) (hx : x ∈ list) :
    f (h' x) = f (h x) := by
  rw [← hf (h' x), ← hf (h x), hre.bare x hx]

theorem peer_eq (hx : x ∈ list) : (h' x).peer = (h x).peer :=
  hre.congr Info.peer (fun _ => rfl) hx

theorem subType_eq (hx : x ∈ list) : (h' x).subType = (h x).subType :=
  hre.congr Info.subType (fun _ => rfl) hx

theorem attr_eq (hx : x ∈ list) : (h' x).attr = (h x).attr :=
  hre.congr Info.attr (fun _ => rfl) hx

theorem usable_iff : Usable c st h' list x ↔ Usable c st h list x :=
  and_congr_right fun hx => by rw [hre.congr (usable c st) (fun _ => rfl) hx]

theorem same_iff (hx : x ∈ list) (hy : y ∈ list) : Same h' x y ↔ Same h x y := by
  rw [Same, Same, hre.attr_eq hx, hre.attr_eq hy]

theorem frontKey_eq (hx : x ∈ list) (med : Bool) : frontKey c med (h' x) = frontKey c med (h x) :=
  hre.congr (frontKey c med) (fun _ => rfl) hx

theorem tieKey_self (hn : n ∈ list) :
    tieKey c (h' n) = (if Sticky c (h n) then 0 else 1) :: idKey c (h n) := by
  have hsticky : Sticky c (h' n) = Sticky c (h n) := hre.congr (Sticky c) (fun _ => rfl) hn
  rw [tieKey_eq, hre.congr (idKey c) (fun _ => rfl) hn, hre.selected n hn]
  simp [hsticky]

theorem tieKey_other (hx : x ∈ list) (hne : x ≠ n) : tieKey c (h' x) = 1 :: idKey c (h x) := by
  rw [tieKey_eq, hre.congr (idKey c) (fun _ => rfl) hx, hre.selected x hx, decide_eq_false hne]
  simp

theorem tidy (ht : Tidy c st h list) : Tidy c st h' list := by
  refine ⟨ht.nodup, ht.mpath, fun x y hx hy hne => ?_, fun x hx => ?_, fun hdet x hx => ?_, ht.med⟩
  · have hapart := ht.apart x y (hre.usable_iff.mp hx) (hre.usable_iff.mp hy) hne
    have hsx := hre.subType_eq hx.1
    have hsy := hre.subType_eq hy.1
    have hpx := hre.peer_eq hx.1
    have hpy := hre.peer_eq hy.1
    refine ⟨?_, ?_, ?_, ?_, ?_⟩
    · have hsorts := hapart.sorts
      simp only [List.forall_mem_cons, peerSort, hsx, hsy, hpx, hpy] at hsorts ⊢
      exact hsorts
    · rw [hsx, hsy]
      exact hapart.oneNormal
    · rw [hre.selected x hx.1, hre.selected y hy.1]
      rintro ⟨hxn, hyn⟩
      exact hne ((of_decide_eq_true hxn).trans (of_decide_eq_true hyn).symm)
    · rw [hre.congr Info.stale (fun _ => rfl) hx.1, hre.congr Info.stale (fun _ => rfl) hy.1]
      exact hapart.stale
    · rw [hsx, hsy, hpx, hpy]
      exact hapart.remote
  · rw [hre.peer_eq hx]
    exact ht.noRestart x hx
  · rw [hre.attr_eq hx.1]
    exact ht.noConfed hdet x (hre.usable_iff.mp hx)

end Reselected

theorem Tidy.beats_iff (ht : Tidy c st h list) {x y : Ptr} (hx : Usable c st h list x)
    (hy : Usable c st h list y) (hne : x ≠ y) {med : Bool}
    (hmed : medCompared c (h x).attr.aspath (h y).attr.aspath = med) :
    Beats c h x y ↔ frontKey c med (h x) < frontKey c med (h y) ∨
      (frontKey c med (h x) = frontKey c med (h y) ∧ tieKey c (h x) < tieKey c (h y)) := by
  rw [Beats, prefers_iff ht.mpath (ht.apart x y hx hy hne), hmed, key_lt_iff]

/-- What the path is preferred to, it is preferred to as the selected one. -/
theorem Beats.again (ht : Tidy c st h list) (hre : Reselected h h' list n) {y : Ptr}
    (hn : Usable c st h list n) (hy : Usable c st h list y) (hne : y ≠ n) (hbeats : Beats c h n y) :
    Beats c h' n y := by
  have hmed : medCompared c (h' n).attr.aspath (h' y).attr.aspath =
      medCompared c (h n).attr.aspath (h y).attr.aspath := by
    rw [hre.attr_eq hn.1, hre.attr_eq hy.1]
  rw [ht.beats_iff hn hy hne.symm rfl] at hbeats
  rw [(hre.tidy ht).beats_iff (hre.usable_iff.mpr hn) (hre.usable_iff.mpr hy) hne.symm hmed,
    hre.frontKey_eq hn.1, hre.frontKey_eq hy.1, hre.tieKey_self hn.1, hre.tieKey_other hy.1 hne]
  refine hbeats.imp_right fun ⟨hfront, htie⟩ => ⟨hfront, ?_⟩
  by_cases hsticky : Sticky c (h n)
  · rw [if_pos hsticky]
    exact List.cons_lt_cons_iff.mpr (Or.inl (by decide))
  · have hother := (not_congr (sticky_iff_of_frontKey hfront)).mp hsticky
    rw [tieKey_eq, tieKey_eq, if_neg fun hc => hsticky hc.1, if_neg fun hc => hother hc.1] at htie
    rwa [if_neg hsticky]

/-- Two paths over one neighbour whose order has changed: the one that was
preferred had been selected, and steps 1 to 8 do not tell them apart. -/
theorem Reselected.overtaken (ht : Tidy c st h list) (hre : Reselected h h' list n) {a y : Ptr}
    (ha : Usable c st h list a) (hy : Usable c st h list y) (hne : a ≠ y) (han : a ≠ n)
    (hyn : y ≠ n) (hmed : medCompared c (h a).attr.aspath (h y).attr.aspath = true)
    (hmed' : medCompared c (h y).attr.aspath (h a).attr.aspath = true)
    (hbefore : Beats c h a y) (hafter : Beats c h' y a) :
    frontKey c true (h a) = frontKey c true (h y) ∧ Sticky c (h a) ∧ (h a).selected = true := by
  rw [ht.beats_iff ha hy hne hmed] at hbefore
  have hmed'' : medCompared c (h' y).attr.aspath (h' a).attr.aspath = true := by
    rw [hre.attr_eq ha.1, hre.attr_eq hy.1, hmed']
  rw [(hre.tidy ht).beats_iff (hre.usable_iff.mpr hy) (hre.usable_iff.mpr ha) hne.symm hmed'',
    hre.frontKey_eq ha.1, hre.frontKey_eq hy.1, hre.tieKey_other hy.1 hyn,
    hre.tieKey_other ha.1 han] at hafter
  rcases hbefore with hlt | ⟨heq, htie⟩
  · rcases hafter with hgt | ⟨heq, -⟩
    · exact absurd hgt (lt_asymm hlt)
    · exact absurd hlt (heq ▸ lt_irrefl _)
  · rcases hafter with hgt | ⟨-, hid⟩
    · exact absurd hgt (heq ▸ lt_irrefl _)
    · refine ⟨heq, ?_⟩
      rw [List.cons_lt_cons_iff, or_iff_right (lt_irrefl _), and_iff_right rfl] at hid
      rw [tieKey_eq, tieKey_eq] at htie
      by_contra hno
      -- then the ids decide, and they say the opposite
      rw [if_neg hno, List.cons_lt_cons_iff] at htie
      split at htie
      · exact absurd htie (by simp)
      · rw [or_iff_right (lt_irrefl _), and_iff_right rfl] at htie
        exact absurd htie (lt_asymm hid)

/-- `y` has overtaken the path `a`, which the best path `n` was preferred to.
Then `n` is preferred to `y` already by steps 1 to 8. -/
theorem IsBest.beats_overtaking (ht : Tidy c st h list) (hone : OneSelected h list)
    (hre : Reselected h h' list n) (hbest : IsBest c st h list n) (hdet : c.deterministicMed = true)
    {a y : Ptr} (ha : InRace c st h list a) (hy : Usable c st h list y) (hya : Same h y a)
    (hny : ¬ Same h n y) (hay : a ≠ y) (hyn : y ≠ n) (hafter : Beats c h' y a) :
    Beats c h' n y := by
  have hn : Usable c st h list n := hbest.mem.1
  have hay' : Same h a y := ht.same_symm hdet hy ha.1 hya
  have hna : ¬ Same h n a := fun hs => hny (ht.same_trans hdet hn ha.1 hy hs hay')
  have han : a ≠ n := by
    rintro rfl
    exact hny hay'
  have hconf : ∀ z, Usable c st h list z → NoConfed (h z).attr.aspath := ht.noConfed hdet
  obtain ⟨hfront, hsticky, hsel⟩ := hre.overtaken ht ha.1 hy hay han hyn
    (by rw [medCompared_eq (hconf a ha.1) (hconf y hy), hay', Bool.or_true])
    (by rw [medCompared_eq (hconf y hy) (hconf a ha.1), hya, Bool.or_true])
    (ha.2 hdet y hy (Ne.symm hay) hay') hafter
  have hmed : ∀ z, Usable c st h list z → ¬ Same h n z →
      medCompared c (h n).attr.aspath (h z).attr.aspath = c.alwaysCompareMed := by
    intro z hz hnz
    rw [Same, Bool.not_eq_true] at hnz
    rw [medCompared_eq (hconf n hn) (hconf z hz), hnz, Bool.or_false]
  have hlt : frontKey c c.alwaysCompareMed (h n) < frontKey c c.alwaysCompareMed (h a) := by
    have hbeats := hbest.beats a ha han
    rw [ht.beats_iff hn ha.1 han.symm (hmed a ha.1 hna)] at hbeats
    refine hbeats.resolve_right fun htie => ?_
    have hnot : ¬ (Sticky c (h n) ∧ (h n).selected = true) := fun hs =>
      han (hone a ha.1.1 n hn.1 hsel hs.2)
    rw [tieKey_eq, tieKey_eq, if_neg hnot, if_pos ⟨hsticky, hsel⟩, List.cons_lt_cons_iff] at htie
    simp at htie
  have hmed' : medCompared c (h' n).attr.aspath (h' y).attr.aspath = c.alwaysCompareMed := by
    rw [hre.attr_eq hn.1, hre.attr_eq hy.1, hmed y hy hny]
  rw [(hre.tidy ht).beats_iff (hre.usable_iff.mpr hn) (hre.usable_iff.mpr hy) hyn.symm hmed',
    hre.frontKey_eq hn.1, hre.frontKey_eq hy.1, ← frontKey_med hfront]
  exact Or.inl hlt

/-- **Selecting again** selects the same path. -/
theorem IsBest.again (ht : Tidy c st h list) (hone : OneSelected h list)
    (hre : Reselected h h' list n) (hbest : IsBest c st h list n) : IsBest c st h' list n := by
  have hn : Usable c st h list n := hbest.mem.1
  have hsame : c.deterministicMed = true → ∀ y, Usable c st h list y → y ≠ n → Same h n y →
      Beats c h' n y := fun hdet y hy hne hs =>
    Beats.again ht hre hn hy hne (hbest.mem.2 hdet y hy hne hs)
  have hrace : ∀ y, InRace c st h list y → y ≠ n → Beats c h' n y := fun y hy hne =>
    Beats.again ht hre hn hy.1 hne (hbest.beats y hy hne)
  refine ⟨⟨hre.usable_iff.mpr hn, fun hdet y hy hne hs => ?_⟩, fun y hy hne => ?_⟩
  · exact hsame hdet y (hre.usable_iff.mp hy) hne ((hre.same_iff hn.1 hy.1).mp hs)
  · have hyu : Usable c st h list y := hre.usable_iff.mp hy.1
    cases hdet : c.deterministicMed with
    | false => exact hrace y ⟨hyu, fun hd => absurd (hdet.symm.trans hd) Bool.false_ne_true⟩ hne
    | true =>
        by_cases hny : Same h n y
        · exact hsame hdet y hyu hne hny
        obtain ⟨a, ha, hor⟩ := exists_inRace ht hyu
        by_cases hay : a = y
        · exact hrace y (hay ▸ ha) hne
        -- `a` was the best over this neighbour and is not any more
        have hya : Same h y a := hor.resolve_left hay
        exact hbest.beats_overtaking ht hone hre hdet ha hyu hya hny hay hne
          (hy.2 hdet a (hre.usable_iff.mpr ha.1) hay ((hre.same_iff hyu.1 ha.1.1).mpr hya))

end Again

/-! ## The order of the list -/

section Order

theorem Tidy.perm {c : Config} {st : Status} {h : Heap} {list list' : List Ptr}
    (ht : Tidy c st h list) (hperm : list.Perm list') : Tidy c st h list' where
  nodup := hperm.nodup_iff.mp ht.nodup
  mpath := ht.mpath
  apart x y hx hy := ht.apart x y ⟨hperm.mem_iff.mpr hx.1, hx.2⟩ ⟨hperm.mem_iff.mpr hy.1, hy.2⟩
  noRestart x hx := ht.noRestart x (hperm.mem_iff.mpr hx)
  noConfed hdet x hx := ht.noConfed hdet x ⟨hperm.mem_iff.mpr hx.1, hx.2⟩
  med := ht.med

theorem isBest_congr {c : Config} {st st' : Status} {h : Heap} {l l' : List Ptr} {b : Ptr}
    (husable : ∀ x, Usable c st h l x ↔ Usable c st' h l' x) :
    IsBest c st h l b ↔ IsBest c st' h l' b := by
  have hrace : InRace c st h l = InRace c st' h l' := by
    funext x
    simp only [InRace, husable]
  rw [IsBest, IsBest, hrace]

/-- **The selection** does not depend on the order of the paths, and selecting
once more does not change it. -/
theorem selection_stable {c : Config} {st : Status} {h : Heap} {list list' : List Ptr}
    (ht : Tidy c st h list) (hone : OneSelected h list) (hperm : list.Perm list') :
    (bgpBestSelection c st h list' Marks.empty).new =
        (bgpBestSelection c st h list Marks.empty).new ∧
      ∀ n h', (bgpBestSelection c st h list Marks.empty).new = some n →
        Reselected h h' list n → (bgpBestSelection c st h' list' Marks.empty).new = some n := by
  have hbest : ∀ {h : Heap} {b : Ptr}, IsBest c st h list' b ↔ IsBest c st h list b := by
    intro h b
    refine isBest_congr fun x => ?_
    rw [Usable, Usable, hperm.mem_iff]
  have hone' : ∀ {h : Heap}, OneSelected h list → OneSelected h list' := fun ho x hx y hy =>
    ho x (hperm.mem_iff.mpr hx) y (hperm.mem_iff.mpr hy)
  have hsel := bgpBestSelection_spec ht hone
  have hsel' := bgpBestSelection_spec (ht.perm hperm) (hone' hone)
  refine ⟨Option.ext fun b => ?_, fun n h' hn hre => ?_⟩
  · rw [hsel'.new, hsel.new, hbest]
  · have hone'' : OneSelected h' list := by
      intro x hx y hy hxs hys
      rw [hre.selected x hx, decide_eq_true_iff] at hxs
      rw [hre.selected y hy, decide_eq_true_iff] at hys
      exact hxs.trans hys.symm
    have hsel'' := bgpBestSelection_spec ((hre.tidy ht).perm hperm) (hone' hone'')
    rw [hsel''.new, hbest]
    exact IsBest.again ht hone hre ((hsel.new n).mp hn)

/-- Two paths over AS 1 and one over AS 2. By MED the first is preferred to
the second, and by router id the second to the third and that to the
first. -/
def cyclicPaths (x : Ptr) : Info where
  peer := x
  subType := .normal
  attr :=
    ⟨0, 0, none, [⟨.asSequence, if x = 3 then 2 else 1, []⟩], 0, some (10 * x), none, none, []⟩
  igpmetric := 0
  selected := false
  valid := true
  attrChanged := false
  igpChanged := false
  stale := false
  removed := false
  history := false
  damped := false

def cyclicConfig (deterministicMed : Bool) : Config where
  defaultLocalPref := 100
  aspathIgnore := false
  aspathConfed := false
  alwaysCompareMed := false
  medConfed := false
  medMissingAsWorst := false
  compareRouterId := false
  deterministicMed := deterministicMed
  multipathRelax := false
  mpathIsConfigured := false
  peer := fun p => ⟨.ebgp, if p = 3 then 2 else 1, if p = 1 then 4 else p, some (.inet p)⟩
  peerSelf := 0

def allUp : Status := ⟨fun _ => true, fun _ => false⟩

theorem cyclic_tidy : Tidy (cyclicConfig true) allUp cyclicPaths [1, 2, 3] where
  nodup := by decide
  mpath := rfl
  apart x y _ _ hne := by
    refine ⟨fun _ _ _ => nofun, Or.inl rfl, nofun, nofun, fun _ _ => ⟨_, _, rfl, rfl, ?_⟩⟩
    intro heq
    simp only [cyclicPaths, SockUnion.values, List.cons.injEq] at heq
    exact hne (Int.ofNat.inj heq.2.1)
  noRestart _ _ := rfl
  noConfed _ x _ s hs := by
    rw [List.mem_singleton.mp hs]
    rfl
  med := nofun

theorem selection_stable_cyclic :
    (bgpBestSelection (cyclicConfig true) allUp cyclicPaths [3, 2, 1] Marks.empty).new = some 3 ∧
      (bgpBestSelection (cyclicConfig true) allUp cyclicPaths [1, 2, 3] Marks.empty).new =
        some 3 := by
  have hsel : (bgpBestSelection (cyclicConfig true) allUp cyclicPaths [1, 2, 3] Marks.empty).new =
      some 3 := by decide
  have hone : OneSelected cyclicPaths [1, 2, 3] := fun _ _ _ _ hx => absurd hx nofun
  exact ⟨(selection_stable cyclic_tidy hone (by decide)).1.trans hsel, hsel⟩

-- without deterministic-med the order decides
example :
    (bgpBestSelection (cyclicConfig false) allUp cyclicPaths [3, 2, 1] Marks.empty).new = some 1 ∧
      (bgpBestSelection (cyclicConfig false) allUp cyclicPaths [1, 2, 3] Marks.empty).new =
        some 3 := by
  decide

end Order

end Bgp

end NetSystem
