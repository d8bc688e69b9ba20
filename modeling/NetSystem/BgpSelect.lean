import NetSystem.BgpPath

/-!
# Best path selection

`bgp_best_selection` of quagga's `bgpd/bgp_route.c`. The paths to a prefix
are a list of pointers into a heap. With deterministic-med a first pass marks
the best path of every neighbouring AS; the second pass goes through the list,
with deterministic-med through the marked paths only, and keeps the best one.
It also finds the path that was selected before and takes removed paths out
of the list.

`bgpBestSelection_spec`: what is selected is the path that is preferred to
all others in the race (`IsBest`), which does not depend on the order of the
list. This needs either always-compare-med or deterministic-med: otherwise
the comparison is not transitive.
-/

namespace NetSystem

namespace Bgp

open Criteria

abbrev Ptr := Nat

abbrev Heap := Ptr → Info

/-- The flags `BGP_INFO_DMED_CHECK` and `BGP_INFO_DMED_SELECTED`, which only
the selection uses, as sets of paths. -/
@[ext] structure Marks where
  check : Ptr → Bool
  selected : Ptr → Bool

def Marks.empty : Marks := ⟨fun _ => false, fun _ => false⟩

/-- `peer->status` and `PEER_STATUS_NSF_WAIT`. -/
structure Status where
  established : PeerId → Bool
  nsfWait : PeerId → Bool

/-- `BGP_INFO_HOLDDOWN` -/
def holddown (i : Info) : Bool := !i.valid || i.history || i.damped || i.removed

section Model

variable (c : Config) (st : Status) (h : Heap)

/-- What the first pass asks of a path that opens a group: unlike everywhere
else, a restarting peer does not count. -/
def opens (i : Info) : Bool :=
  !holddown i && (i.peer = c.peerSelf || st.established i.peer)

def usable (i : Info) : Bool :=
  !holddown i && (i.peer = c.peerSelf || st.nsfWait i.peer || st.established i.peer)

/-- The inner loop of the first pass, over the paths behind `ri1`. -/
def dmedGroup (ri1 : Ptr) : List Ptr → Ptr → Marks → Ptr × Marks
  | [], newSelect, m => (newSelect, m)
  | ri2 :: ris, newSelect, m =>
      if m.check ri2 ∨ ¬ usable c st (h ri2) then dmedGroup ri1 ris newSelect m
      else if sameNeighbour (h ri1).attr.aspath (h ri2).attr.aspath then
        if Prefers c (h ri2) (h newSelect) then
          dmedGroup ri1 ris ri2 ⟨Function.update m.check ri2 true,
            Function.update m.selected newSelect false⟩
        else dmedGroup ri1 ris newSelect { m with check := Function.update m.check ri2 true }
      else dmedGroup ri1 ris newSelect m

/-- The first pass, for deterministic-med. -/
def dmedLoop : List Ptr → Marks → Marks
  | [], m => m
  | ri1 :: ris, m =>
      if m.check ri1 ∨ ¬ opens c st (h ri1) then dmedLoop ris m
      else
        let (newSelect, m) := dmedGroup c st h ri1 ris ri1 m
        dmedLoop ris ⟨Function.update m.check newSelect true,
          Function.update m.selected newSelect true⟩

/-- `struct bgp_info_pair`, the marks, and the list as it is left. -/
structure Selection where
  old : Option Ptr
  new : Option Ptr
  marks : Marks
  list : List Ptr

/-- One round of the second pass. -/
def selectStep (s : Selection) (ri : Ptr) : Selection :=
  let s := if (h ri).selected then { s with old := some ri } else s
  if holddown (h ri) then
    if (h ri).removed ∧ s.old ≠ some ri then s else { s with list := s.list ++ [ri] }
  else
    let s := { s with list := s.list ++ [ri] }
    if ¬ usable c st (h ri) then s
    else if c.deterministicMed ∧ ¬ s.marks.selected ri then
      { s with marks.check := Function.update s.marks.check ri false }
    else
      { s with
        new := match s.new with
          | none => some ri
          | some best => if Prefers c (h ri) (h best) then some ri else some best
        marks := ⟨Function.update s.marks.check ri false,
          Function.update s.marks.selected ri false⟩ }

def bgpBestSelection (list : List Ptr) (m : Marks) : Selection :=
  list.foldl (selectStep c st h)
    ⟨none, none, if c.deterministicMed then dmedLoop c st h list m else m, []⟩

end Model

/-! ## What is selected -/

section Spec

variable (c : Config) (st : Status) (h : Heap) (list : List Ptr)

def Beats (x y : Ptr) : Prop := Prefers c (h x) (h y)

instance : DecidableRel (Beats c h) := fun _ _ => inferInstanceAs (Decidable (Prefers _ _ _))

def Same (x y : Ptr) : Prop := sameNeighbour (h x).attr.aspath (h y).attr.aspath = true

instance : DecidableRel (Same h) := fun _ _ => inferInstanceAs (Decidable (_ = _))

def Usable (x : Ptr) : Prop := x ∈ list ∧ usable c st (h x) = true

/-- With deterministic-med, the best of every neighbouring AS is in the
race. -/
def InRace (x : Ptr) : Prop :=
  Usable c st h list x ∧ (c.deterministicMed = true →
    ∀ y, Usable c st h list y → y ≠ x → Same h x y → Beats c h x y)

/-- The best path. -/
def IsBest (b : Ptr) : Prop := Leads (Beats c h) (InRace c st h list) b

/-- What the selection needs to be independent of the order. -/
structure Tidy : Prop where
  nodup : list.Nodup
  mpath : c.mpathIsConfigured = false
  apart : ∀ x y, Usable c st h list x → Usable c st h list y → x ≠ y → Apart c (h x) (h y)
  noRestart : ∀ x ∈ list, st.nsfWait (h x).peer = false
  noConfed : c.deterministicMed = true → ∀ x, Usable c st h list x → NoConfed (h x).attr.aspath
  med : c.deterministicMed = false → c.alwaysCompareMed = true

end Spec

section Order

variable {c : Config} {st : Status} {h : Heap} {list : List Ptr}

theorem Tidy.same_symm (ht : Tidy c st h list) (hdet : c.deterministicMed = true) {x y : Ptr}
    (hx : Usable c st h list x) (hy : Usable c st h list y) (hxy : Same h x y) : Same h y x :=
  sameNeighbour_symm (ht.noConfed hdet x hx) (ht.noConfed hdet y hy) hxy

theorem Tidy.same_trans (ht : Tidy c st h list) (hdet : c.deterministicMed = true) {x y z : Ptr}
    (hx : Usable c st h list x) (hy : Usable c st h list y) (hz : Usable c st h list z)
    (hxy : Same h x y) (hyz : Same h y z) : Same h x z :=
  sameNeighbour_trans (ht.noConfed hdet x hx) (ht.noConfed hdet y hy) (ht.noConfed hdet z hz)
    hxy hyz

/-- Paths for which MEDs count alike are in a strict order. -/
theorem Tidy.strictOn (ht : Tidy c st h list) (med : Bool) {P : Ptr → Prop}
    (husable : ∀ x, P x → Usable c st h list x)
    (hmed : ∀ x y, P x → P y → x ≠ y →
      medCompared c (h x).attr.aspath (h y).attr.aspath = med) : StrictOn (Beats c h) P := by
  refine strictOn_of_rank (fun x => key c med (h x)) (fun x y hx hy heq => ?_)
    fun x y hx hy hne => ?_
  · by_contra hne
    exact key_ne (ht.apart x y (husable x hx) (husable y hy) hne) med heq
  · rw [Beats, prefers_iff ht.mpath (ht.apart x y (husable x hx) (husable y hy) hne),
      hmed x y hx hy hne]

/-- The paths over one neighbour. -/
theorem Tidy.strictOn_same (ht : Tidy c st h list) (hdet : c.deterministicMed = true)
    {P : Ptr → Prop} (husable : ∀ x, P x → Usable c st h list x)
    (hsame : ∀ x y, P x → P y → x ≠ y → Same h x y) : StrictOn (Beats c h) P := by
  refine ht.strictOn true husable fun x y hx hy hne => ?_
  rw [medCompared_eq (ht.noConfed hdet x (husable x hx)) (ht.noConfed hdet y (husable y hy)),
    hsame x y hx hy hne, Bool.or_true]

/-- The paths in the race. -/
theorem Tidy.strictOn_race (ht : Tidy c st h list) : StrictOn (Beats c h) (InRace c st h list) := by
  refine ht.strictOn c.alwaysCompareMed (fun x hx => hx.1) fun x y hx hy hne => ?_
  cases hdet : c.deterministicMed with
  | false => simp [medCompared, ht.med hdet]
  | true =>
      have hother : ¬ Same h x y := by
        intro hsame
        have hpair : StrictOn (Beats c h) fun z => z = x ∨ z = y := by
          refine ht.strictOn_same hdet ?_ ?_
          · rintro z (rfl | rfl)
            · exact hx.1
            · exact hy.1
          · rintro z w (rfl | rfl) (rfl | rfl) hzw
            · exact absurd rfl hzw
            · exact hsame
            · exact ht.same_symm hdet hx.1 hy.1 hsame
            · exact absurd rfl hzw
        exact hpair.asymm x y (Or.inl rfl) (Or.inr rfl) hne
          (hx.2 hdet y hy.1 (Ne.symm hne) hsame)
          (hy.2 hdet x hx.1 hne (ht.same_symm hdet hx.1 hy.1 hsame))
      rw [Same, Bool.not_eq_true] at hother
      rw [medCompared_eq (ht.noConfed hdet x hx.1) (ht.noConfed hdet y hy.1), hother, Bool.or_false]

end Order

/-! ## The first pass -/

section Dmed

variable {c : Config} {st : Status} {h : Heap}

/-- The first pass has not dealt with the path yet. -/
def Open (c : Config) (st : Status) (h : Heap) (m : Marks) (x : Ptr) : Prop :=
  m.check x = false ∧ usable c st (h x) = true

instance (m : Marks) : DecidablePred (Open c st h m) := fun _ =>
  inferInstanceAs (Decidable (_ ∧ _))

/-- The group that the inner loop collects. -/
def group (c : Config) (st : Status) (h : Heap) (m : Marks) (r : Ptr) (ris : List Ptr) : List Ptr :=
  ris.filter fun x => Open c st h m x ∧ Same h r x

theorem group_congr {m m' : Marks} {r : Ptr} {ris : List Ptr}
    (hcheck : ∀ x ∈ ris, m'.check x = m.check x) :
    group c st h m' r ris = group c st h m r ris := by
  refine List.filter_congr fun x hx => decide_eq_decide.mpr ?_
  rw [Open, Open, hcheck x hx]

theorem mem_group {m : Marks} {r x : Ptr} {ris : List Ptr} :
    x ∈ group c st h m r ris ↔ x ∈ ris ∧ Open c st h m x ∧ Same h r x := by
  simp [group]

/-- The inner loop finds the best of `b` and the group, and checks the
group. -/
theorem dmedGroup_spec {r : Ptr} : ∀ {ris : List Ptr} {b : Ptr} {m : Marks}, ris.Nodup →
    (∀ x ∈ ris, m.check x = false → m.selected x = false) → m.selected b = false →
    ∃ w, scanBest (Beats c h) (group c st h m r ris) (some b) = some w ∧
      dmedGroup c st h r ris b m =
        (w, ⟨fun x => m.check x || decide (x ∈ group c st h m r ris), m.selected⟩)
  | [], b, m, _, _, _ => ⟨b, rfl, by simp [dmedGroup, group]⟩
  | ri2 :: ris, b, m, hnd, hfresh, hb => by
      obtain ⟨hnot, hnd⟩ := List.nodup_cons.mp hnd
      have hfresh' := fun x hx => hfresh x (List.mem_cons_of_mem ri2 hx)
      rw [dmedGroup]
      by_cases hskip : m.check ri2 = true ∨ ¬ usable c st (h ri2) = true
      · have hopen : ¬ Open c st h m ri2 := fun ho => hskip.elim (by simp [ho.1]) (· ho.2)
        rw [if_pos hskip, group, List.filter_cons_of_neg (by simp [hopen]), ← group]
        exact dmedGroup_spec hnd hfresh' hb
      · rw [if_neg hskip]
        have hopen : Open c st h m ri2 := by
          rw [not_or, not_not, Bool.not_eq_true] at hskip
          exact hskip
        by_cases hsame : sameNeighbour (h r).attr.aspath (h ri2).attr.aspath = true
        · have hgroup : group c st h m r (ri2 :: ris) = ri2 :: group c st h m r ris :=
            List.filter_cons_of_pos (by simp [hopen, Same, hsame])
          -- `ri2` is not among the rest, whose group stays the same
          have hcheck : ∀ x ∈ ris, Function.update m.check ri2 true x = m.check x := by
            intro x hx
            have hne : x ≠ ri2 := fun heq => hnot (heq ▸ hx)
            exact Function.update_of_ne hne ..
          have hrest : group c st h ⟨Function.update m.check ri2 true, m.selected⟩ r ris =
              group c st h m r ris := group_congr hcheck
          have hchecked : (fun x => Function.update m.check ri2 true x ||
              decide (x ∈ group c st h m r ris)) =
              fun x => m.check x || decide (x ∈ group c st h m r (ri2 :: ris)) := by
            funext x
            rw [hgroup]
            by_cases hx : x = ri2
            · simp [hx]
            · simp [hx]
          have hcleared : Function.update m.selected b false = m.selected := by
            rw [← hb, Function.update_eq_self]
          have hnext : m.selected (if Beats c h ri2 b then ri2 else b) = false := by
            split
            · exact hfresh ri2 (List.mem_cons_self ..) hopen.1
            · exact hb
          obtain ⟨w, hw, hrun⟩ := dmedGroup_spec
            (m := ⟨Function.update m.check ri2 true, m.selected⟩) hnd
            (fun x hx hno => hfresh' x hx (hcheck x hx ▸ hno)) hnext
          rw [hrest] at hw hrun
          refine ⟨w, by rw [hgroup, scanBest]; exact hw, ?_⟩
          rw [if_pos hsame, hcleared, ← hchecked, ← hrun]
          by_cases hbeats : Prefers c (h ri2) (h b)
          · rw [if_pos hbeats, if_pos (show Beats c h ri2 b from hbeats)]
          · rw [if_neg hbeats, if_neg (show ¬ Beats c h ri2 b from hbeats)]
        · rw [if_neg hsame, group, List.filter_cons_of_neg (by simp [Same, hsame]), ← group]
          exact dmedGroup_spec hnd hfresh' hb

/-- The marks after a group `g` with winner `w`. -/
def Marks.close (m : Marks) (g : List Ptr) (w : Ptr) : Marks :=
  ⟨Function.update (fun x => m.check x || decide (x ∈ g)) w true,
    Function.update m.selected w true⟩

theorem Marks.close_check {m : Marks} {g : List Ptr} {w x : Ptr} :
    (m.close g w).check x = true ↔ m.check x = true ∨ x ∈ g ∨ x = w := by
  by_cases hx : x = w
  · simp [Marks.close, hx]
  · simp [Marks.close, hx]

theorem Marks.close_selected {m : Marks} {g : List Ptr} {w x : Ptr} :
    (m.close g w).selected x = true ↔ m.selected x = true ∨ x = w := by
  by_cases hx : x = w
  · simp [Marks.close, hx]
  · simp [Marks.close, hx]

/-- Paths that are not checked are not marked. -/
def Marks.Fresh (m : Marks) (l : List Ptr) : Prop :=
  ∀ x ∈ l, m.check x = false → m.selected x = false

theorem Marks.Fresh.close {m : Marks} {l : List Ptr} (hm : m.Fresh l) (g : List Ptr) (w : Ptr) :
    (m.close g w).Fresh l := by
  intro x hx hcheck
  rw [← Bool.not_eq_true, Marks.close_check, not_or, not_or, Bool.not_eq_true] at hcheck
  rw [← Bool.not_eq_true, Marks.close_selected, not_or, Bool.not_eq_true]
  exact ⟨hm x hx hcheck.1, hcheck.2.2⟩

theorem dmedLoop_open {m : Marks} {r : Ptr} {l : List Ptr} (hnd : l.Nodup)
    (hfresh : m.Fresh (r :: l)) (hcheck : m.check r = false) (hopens : opens c st (h r) = true) :
    ∃ w, scanBest (Beats c h) (group c st h m r l) (some r) = some w ∧
      dmedLoop c st h (r :: l) m = dmedLoop c st h l (m.close (group c st h m r l) w) := by
  obtain ⟨w, hw, hrun⟩ := dmedGroup_spec (c := c) (h := h) (r := r) (m := m) hnd
    (fun x hx => hfresh x (List.mem_cons_of_mem r hx)) (hfresh r (List.mem_cons_self ..) hcheck)
  refine ⟨w, hw, ?_⟩
  rw [dmedLoop, if_neg (by simp [hcheck, hopens]), hrun]
  rfl

theorem usable_of_opens {i : Info} (hopens : opens c st i = true) : usable c st i = true := by
  simp only [opens, usable, Bool.and_eq_true, Bool.or_eq_true] at hopens ⊢
  exact ⟨hopens.1, hopens.2.imp_left Or.inl⟩

/-- The first pass only checks usable paths of the list. -/
theorem dmedLoop_check {x : Ptr} : ∀ {l : List Ptr} {m : Marks}, l.Nodup → m.Fresh l →
    (dmedLoop c st h l m).check x = true → m.check x = true ∨ (x ∈ l ∧ usable c st (h x) = true)
  | [], m, _, _, hx => Or.inl hx
  | r :: l, m, hnd, hfresh, hx => by
      have hrest : m.Fresh l := fun y hy => hfresh y (List.mem_cons_of_mem r hy)
      have hnd' := (List.nodup_cons.mp hnd).2
      by_cases hskip : m.check r = true ∨ ¬ opens c st (h r) = true
      · rw [dmedLoop, if_pos hskip] at hx
        exact (dmedLoop_check hnd' hrest hx).imp_right (And.imp_left (List.mem_cons_of_mem r))
      · rw [not_or, not_not, Bool.not_eq_true] at hskip
        obtain ⟨w, hw, hrun⟩ := dmedLoop_open hnd' hfresh hskip.1 hskip.2
        have hgroup : ∀ y ∈ r :: group c st h m r l, y ∈ r :: l ∧ usable c st (h y) = true := by
          intro y hy
          rcases List.mem_cons.mp hy with rfl | hy
          · exact ⟨List.mem_cons_self .., usable_of_opens hskip.2⟩
          · obtain ⟨hmem, hopen, -⟩ := mem_group.mp hy
            exact ⟨List.mem_cons_of_mem r hmem, hopen.2⟩
        rw [hrun] at hx
        rcases dmedLoop_check hnd' (hrest.close _ w) hx with hclose | ⟨hmem, husable⟩
        · rcases Marks.close_check.mp hclose with hx | hx | rfl
          · exact Or.inl hx
          · exact Or.inr (hgroup x (List.mem_cons_of_mem r hx))
          · exact Or.inr (hgroup x (scanBest_mem hw))
        · exact Or.inr ⟨List.mem_cons_of_mem r hmem, husable⟩

variable {list : List Ptr}

/-- Paths over the neighbour of a checked path are checked. -/
def Closed (c : Config) (st : Status) (h : Heap) (m : Marks) (l : List Ptr) : Prop :=
  ∀ x ∈ l, ∀ y ∈ l, usable c st (h x) = true → usable c st (h y) = true → Same h x y →
    m.check x = true → m.check y = true

/-- `x` is the best of the open paths over its neighbour. -/
structure Wins (c : Config) (st : Status) (h : Heap) (m : Marks) (l : List Ptr) (x : Ptr) :
    Prop where
  mem : x ∈ l
  isOpen : Open c st h m x
  beats : ∀ y ∈ l, Open c st h m y → y ≠ x → Same h x y → Beats c h x y

section Group

variable {m : Marks} {r : Ptr} {l : List Ptr}

theorem mem_cons_group (hopen : Open c st h m r) {x : Ptr} :
    x ∈ r :: group c st h m r l ↔
      x ∈ r :: l ∧ Open c st h m x ∧ (x = r ∨ Same h r x) := by
  rw [List.mem_cons, List.mem_cons, mem_group]
  constructor
  · rintro (rfl | ⟨hmem, hx, hsame⟩)
    · exact ⟨Or.inl rfl, hopen, Or.inl rfl⟩
    · exact ⟨Or.inr hmem, hx, Or.inr hsame⟩
  · rintro ⟨hmem, hx, hself | hsame⟩
    · exact Or.inl hself
    · exact hmem.imp_right fun hmem => ⟨hmem, hx, hsame⟩

/-- The paths that the group leaves open are over other neighbours. -/
theorem open_close_iff (hnot : r ∉ l) {w x : Ptr} (hw : w ∈ r :: group c st h m r l) (hx : x ∈ l) :
    Open c st h (m.close (group c st h m r l) w) x ↔ Open c st h m x ∧ ¬ Same h r x := by
  have hxr : x ≠ r := fun heq => hnot (heq ▸ hx)
  rw [Open, ← Bool.not_eq_true, Marks.close_check, mem_group, Open]
  constructor
  · rintro ⟨hno, husable⟩
    simp only [not_or, Bool.not_eq_true] at hno
    exact ⟨⟨hno.1, husable⟩, fun hsame => hno.2.1 ⟨hx, ⟨hno.1, husable⟩, hsame⟩⟩
  · rintro ⟨hopen, hsame⟩
    refine ⟨?_, hopen.2⟩
    rintro (hcheck | ⟨-, -, hsame'⟩ | rfl)
    · rw [hopen.1] at hcheck
      exact Bool.false_ne_true hcheck
    · exact hsame hsame'
    · rcases List.mem_cons.mp hw with hw | hw
      · exact hxr hw
      · exact hsame (mem_group.mp hw).2.2

variable (ht : Tidy c st h list) (hdet : c.deterministicMed = true)
  (hsub : ∀ y ∈ r :: l, y ∈ list)

include ht hdet hsub

/-- Members of a group are over the same neighbour. -/
theorem same_of_group (hopen : Open c st h m r) {x y : Ptr} (hx : x ∈ r :: group c st h m r l)
    (hy : y ∈ r :: group c st h m r l) (hne : x ≠ y) : Same h x y := by
  have husable : ∀ {z}, z ∈ r :: group c st h m r l → Usable c st h list z := fun hz =>
    ⟨hsub _ ((mem_cons_group hopen).mp hz).1, ((mem_cons_group hopen).mp hz).2.1.2⟩
  have hr := husable (List.mem_cons_self ..)
  rcases ((mem_cons_group hopen).mp hx).2.2 with rfl | hrx
  · exact ((mem_cons_group hopen).mp hy).2.2.resolve_left (Ne.symm hne)
  · rcases ((mem_cons_group hopen).mp hy).2.2 with rfl | hry
    · exact ht.same_symm hdet hr (husable hx) hrx
    · exact ht.same_trans hdet (husable hx) hr (husable hy)
        (ht.same_symm hdet hr (husable hx) hrx) hry

/-- The winner of a group. -/
theorem leads_group (hopen : Open c st h m r) (hnd : (r :: l).Nodup) {w : Ptr}
    (hw : scanBest (Beats c h) (group c st h m r l) (some r) = some w) :
    Leads (Beats c h) (fun x => x ∈ r :: group c st h m r l) w ∧
      ∀ w', Leads (Beats c h) (fun x => x ∈ r :: group c st h m r l) w' → w' = w := by
  have hstrict : StrictOn (Beats c h) fun x => x ∈ r :: group c st h m r l :=
    ht.strictOn_same hdet
      (fun x hx => ⟨hsub x ((mem_cons_group hopen).mp hx).1, ((mem_cons_group hopen).mp hx).2.1.2⟩)
      fun x y hx hy hne => same_of_group ht hdet hsub hopen hx hy hne
  have hnd' : (r :: group c st h m r l).Nodup := hnd.sublist (List.filter_sublist.cons_cons r)
  obtain ⟨w', hw', hlead⟩ := scanBest_some hstrict hnd'
  rw [hw, Option.some.injEq] at hw'
  subst hw'
  exact ⟨hlead, fun w' hlead' => hlead'.unique hstrict hlead⟩

/-- What a group leaves open stays closed. -/
theorem Closed.close (hclosed : Closed c st h m (r :: l)) (hopen : Open c st h m r) (hnot : r ∉ l)
    {w : Ptr} (hw : w ∈ r :: group c st h m r l) :
    Closed c st h (m.close (group c st h m r l) w) l := by
  intro x hx y hy hux huy hsame hcheck
  by_contra hno
  rw [Bool.not_eq_true] at hno
  have hy' := (open_close_iff hnot hw hy).mp ⟨hno, huy⟩
  have hr : Usable c st h list r := ⟨hsub r (List.mem_cons_self ..), hopen.2⟩
  have hx' : Usable c st h list x := ⟨hsub x (List.mem_cons_of_mem r hx), hux⟩
  have hyu : Usable c st h list y := ⟨hsub y (List.mem_cons_of_mem r hy), huy⟩
  by_cases hold : m.check x = true
  · have := hclosed x (List.mem_cons_of_mem r hx) y (List.mem_cons_of_mem r hy) hux huy hsame hold
    rw [hy'.1.1] at this
    exact Bool.false_ne_true this
  · rw [Bool.not_eq_true] at hold
    have hrx : Same h r x := by
      by_contra hrx
      have := ((open_close_iff hnot hw hx).mpr ⟨⟨hold, hux⟩, hrx⟩).1
      rw [hcheck] at this
      exact Bool.false_ne_true this.symm
    exact hy'.2 (ht.same_trans hdet hr hx' hyu hrx hsame)

/-- The winners are that of the group and those of the rest. -/
theorem wins_cons_iff (hopen : Open c st h m r) (hnd : (r :: l).Nodup) {w x : Ptr}
    (hw : scanBest (Beats c h) (group c st h m r l) (some r) = some w) :
    Wins c st h m (r :: l) x ↔
      x = w ∨ Wins c st h (m.close (group c st h m r l) w) l x := by
  obtain ⟨hlead, hunique⟩ := leads_group ht hdet hsub hopen hnd hw
  have hnot := (List.nodup_cons.mp hnd).1
  have hwmem := scanBest_mem hw
  have husable : ∀ {z}, z ∈ r :: l → Open c st h m z → Usable c st h list z := fun hz hz' =>
    ⟨hsub _ hz, hz'.2⟩
  have hr := husable (List.mem_cons_self ..) hopen
  constructor
  · intro hx
    by_cases hgroup : x = r ∨ Same h r x
    · -- it is in the group, and beats the others there
      have hxmem := (mem_cons_group hopen).mpr ⟨hx.mem, hx.isOpen, hgroup⟩
      refine Or.inl (hunique x ⟨hxmem, fun y hy hne => ?_⟩)
      obtain ⟨hymem, hyopen, -⟩ := (mem_cons_group hopen).mp hy
      exact hx.beats y hymem hyopen hne (same_of_group ht hdet hsub hopen hxmem hy (Ne.symm hne))
    · rw [not_or] at hgroup
      have hxl := (List.mem_cons.mp hx.mem).resolve_left hgroup.1
      refine Or.inr ⟨hxl, (open_close_iff hnot hwmem hxl).mpr ⟨hx.isOpen, hgroup.2⟩,
        fun y hy hyopen => ?_⟩
      exact hx.beats y (List.mem_cons_of_mem r hy) ((open_close_iff hnot hwmem hy).mp hyopen).1
  · rintro (rfl | hx)
    · obtain ⟨hxmem, hxopen, hxr⟩ := (mem_cons_group hopen).mp hlead.mem
      refine ⟨hxmem, hxopen, fun y hy hyopen hne hsame => hlead.beats y ?_ hne⟩
      refine (mem_cons_group hopen).mpr ⟨hy, hyopen, Or.inr ?_⟩
      rcases hxr with rfl | hrx
      · exact hsame
      · exact ht.same_trans hdet hr (husable hxmem hxopen) (husable hy hyopen) hrx hsame
    · obtain ⟨hxopen, hrx⟩ := (open_close_iff hnot hwmem hx.mem).mp hx.isOpen
      have hxmem := List.mem_cons_of_mem r hx.mem
      have hxu := husable hxmem hxopen
      refine ⟨hxmem, hxopen, fun y hy hyopen hne hsame => ?_⟩
      have hyu := husable hy hyopen
      have hyx := ht.same_symm hdet hxu hyu hsame
      have hyr : ¬ y = r := by
        rintro rfl
        exact hrx hyx
      have hyl := (List.mem_cons.mp hy).resolve_left hyr
      refine hx.beats y hyl ((open_close_iff hnot hwmem hyl).mpr ⟨hyopen, fun hry => ?_⟩) hne hsame
      exact hrx (ht.same_trans hdet hr hyu hxu hry hyx)

end Group

/-- **The first pass** marks the best of the paths over each neighbour. -/
theorem dmedLoop_spec (ht : Tidy c st h list) (hdet : c.deterministicMed = true) {x : Ptr} :
    ∀ {l : List Ptr} {m : Marks}, l.Nodup → (∀ y ∈ l, y ∈ list) → m.Fresh l → Closed c st h m l →
    ((dmedLoop c st h l m).selected x = true ↔ m.selected x = true ∨ Wins c st h m l x)
  | [], m, _, _, _, _ => ⟨Or.inl, fun hx => hx.elim id fun hw => by cases hw.mem⟩
  | r :: l, m, hnd, hsub, hfresh, hclosed => by
      have hrest : m.Fresh l := fun y hy => hfresh y (List.mem_cons_of_mem r hy)
      obtain ⟨hnot, hnd'⟩ := List.nodup_cons.mp hnd
      have hsub' : ∀ y ∈ l, y ∈ list := fun y hy => hsub y (List.mem_cons_of_mem r hy)
      have hopens : opens c st (h r) = usable c st (h r) := by
        simp [opens, usable, ht.noRestart r (hsub r (List.mem_cons_self ..))]
      by_cases hopen : Open c st h m r
      · obtain ⟨w, hw, hrun⟩ := dmedLoop_open hnd' hfresh hopen.1 (hopens.trans hopen.2)
        rw [hrun, dmedLoop_spec ht hdet hnd' hsub' (hrest.close _ w)
          (hclosed.close ht hdet hsub hopen hnot (scanBest_mem hw)), Marks.close_selected,
          or_assoc, wins_cons_iff ht hdet hsub hopen hnd hw]
      · have hskip : m.check r = true ∨ ¬ opens c st (h r) = true := by
          by_cases hcheck : m.check r = true
          · exact Or.inl hcheck
          · rw [hopens]
            exact Or.inr fun hu => hopen ⟨Bool.not_eq_true _ ▸ hcheck, hu⟩
        have hclosed' : Closed c st h m l := fun y hy z hz =>
          hclosed y (List.mem_cons_of_mem r hy) z (List.mem_cons_of_mem r hz)
        rw [dmedLoop, if_pos hskip, dmedLoop_spec ht hdet hnd' hsub' hrest hclosed']
        refine or_congr_right ⟨fun hw => ?_, fun hw => ?_⟩
        · refine ⟨List.mem_cons_of_mem r hw.mem, hw.isOpen, fun y hy hyopen => ?_⟩
          rcases List.mem_cons.mp hy with rfl | hy
          · exact absurd hyopen hopen
          · exact hw.beats y hy hyopen
        · have hxr : x ≠ r := fun heq => hopen (heq ▸ hw.isOpen)
          exact ⟨(List.mem_cons.mp hw.mem).resolve_left hxr, hw.isOpen,
            fun y hy => hw.beats y (List.mem_cons_of_mem r hy)⟩

end Dmed

/-! ## The second pass -/

section Select

variable {c : Config} {st : Status} {h : Heap}

/-- The paths that the second pass compares. -/
def candidate (c : Config) (st : Status) (h : Heap) (m : Marks) (x : Ptr) : Bool :=
  usable c st (h x) && (!c.deterministicMed || m.selected x)

/-- The paths that stay in the list. -/
def stays (h : Heap) (x : Ptr) : Bool := !(h x).removed || (h x).selected

/-- What the second pass makes of the paths `l`. -/
structure Scanned (c : Config) (st : Status) (h : Heap) (l : List Ptr) (s r : Selection) :
    Prop where
  new : r.new = scanBest (Beats c h) (l.filter (candidate c st h s.marks)) s.new
  old : r.old = l.foldl (fun o x => if (h x).selected then some x else o) s.old
  list : r.list = s.list ++ l.filter (stays h)
  check : ∀ x, r.marks.check x = (s.marks.check x && !decide (x ∈ l ∧ usable c st (h x) = true))
  selected : ∀ x,
    r.marks.selected x = (s.marks.selected x && !decide (x ∈ l ∧ usable c st (h x) = true))

/-- One round, component by component. -/
theorem selectStep_eq {s : Selection} {ri : Ptr} (hold : s.old ≠ some ri) :
    selectStep c st h s ri =
      { old := if (h ri).selected then some ri else s.old
        new := if candidate c st h s.marks ri then scanBest (Beats c h) [ri] s.new else s.new
        marks := if usable c st (h ri) then
            ⟨Function.update s.marks.check ri false, Function.update s.marks.selected ri false⟩
          else s.marks
        list := if stays h ri then s.list ++ [ri] else s.list } := by
  rw [selectStep]
  cases hhold : holddown (h ri) with
  | true =>
      have hnot : usable c st (h ri) = false := by simp [usable, hhold]
      cases hsel : (h ri).selected with
      | true => simp [candidate, stays, hnot, hsel]
      | false =>
          cases hrem : (h ri).removed with
          | true => simp [candidate, stays, hnot, hsel, hrem, hold]
          | false => simp [candidate, stays, hnot, hsel, hrem]
  | false =>
      have hstays : stays h ri = true := by
        have hrem : (h ri).removed = false := by
          simp only [holddown, Bool.or_eq_false_iff] at hhold
          exact hhold.2
        simp [stays, hrem]
      cases husable : usable c st (h ri) with
      | false => cases hsel : (h ri).selected <;> simp [candidate, husable, hstays]
      | true =>
          have hnext : ∀ best : Option Ptr, (match best with
              | none => some ri
              | some b => if Prefers c (h ri) (h b) then some ri else some b) =
                scanBest (Beats c h) [ri] best := by
            intro best
            cases best with
            | none => rfl
            | some b => exact (apply_ite some (Beats c h ri b) ri b).symm
          by_cases hdet : c.deterministicMed = true ∧ s.marks.selected ri = false
          · have hclear : Function.update s.marks.selected ri false = s.marks.selected := by
              rw [← hdet.2, Function.update_eq_self]
            cases hsel : (h ri).selected <;>
              simp [candidate, husable, hstays, hdet.1, hdet.2, hclear]
          · have hcand : candidate c st h s.marks ri = true := by
              rw [candidate, husable, Bool.true_and]
              cases hmed : c.deterministicMed <;> cases hmark : s.marks.selected ri <;> simp_all
            have hno : ¬ (c.deterministicMed = true ∧ ¬ s.marks.selected ri = true) := by
              simpa using hdet
            cases hsel : (h ri).selected <;>
              simp only [Bool.false_eq_true, if_false, if_true, hcand, hstays, hnext,
                not_true_eq_false, if_neg hno]

/-- The whole pass. -/
theorem foldl_scanned : ∀ {l : List Ptr} {s : Selection}, l.Nodup → (∀ x ∈ l, s.old ≠ some x) →
    Scanned c st h l s (l.foldl (selectStep c st h) s)
  | [], s, _, _ => by constructor <;> simp [scanBest]
  | ri :: l, s, hnd, hold => by
      obtain ⟨hnot, hnd⟩ := List.nodup_cons.mp hnd
      have hstep : selectStep c st h s ri = _ := selectStep_eq (hold ri (List.mem_cons_self ..))
      have hne : ∀ x ∈ l, x ≠ ri := fun x hx heq => hnot (heq ▸ hx)
      rw [List.foldl_cons]
      generalize selectStep c st h s ri = s' at hstep ⊢
      have hmarks : ∀ x ∈ l, s'.marks.selected x = s.marks.selected x := by
        intro x hx
        rw [hstep]
        dsimp only
        split
        · exact Function.update_of_ne (hne x hx) ..
        · rfl
      have hcand : l.filter (candidate c st h s'.marks) = l.filter (candidate c st h s.marks) :=
        List.filter_congr fun x hx => by rw [candidate, candidate, hmarks x hx]
      have hold' : ∀ x ∈ l, s'.old ≠ some x := by
        intro x hx
        rw [hstep]
        dsimp only
        split
        · exact fun heq => hne x hx (Option.some.inj heq).symm
        · exact hold x (List.mem_cons_of_mem ri hx)
      obtain ⟨hnew, hlast, hlist, hcheck, hselected⟩ := foldl_scanned hnd hold'
      refine ⟨?_, ?_, ?_, fun x => ?_, fun x => ?_⟩
      · rw [hnew, hcand, hstep]
        dsimp only
        by_cases hc : candidate c st h s.marks ri = true
        · rw [List.filter_cons_of_pos hc, if_pos hc]
          cases s.new <;> rfl
        · rw [List.filter_cons_of_neg hc, if_neg hc]
      · rw [hlast, hstep, List.foldl_cons]
      · rw [hlist, hstep]
        dsimp only
        by_cases hs : stays h ri = true
        · rw [List.filter_cons_of_pos hs, if_pos hs, List.append_assoc, List.singleton_append]
        · rw [List.filter_cons_of_neg hs, if_neg hs]
      · rw [hcheck, hstep]
        dsimp only
        by_cases hx : x = ri
        · subst hx
          cases hu : usable c st (h x) <;> simp [hnot]
        · cases hu : usable c st (h ri) <;> simp [hx]
      · rw [hselected, hstep]
        dsimp only
        by_cases hx : x = ri
        · subst hx
          cases hu : usable c st (h x) <;> simp [hnot]
        · cases hu : usable c st (h ri) <;> simp [hx]

end Select

/-! ## Both passes -/

section Both

variable {c : Config} {st : Status} {h : Heap} {list : List Ptr}

theorem open_empty {x : Ptr} : Open c st h Marks.empty x ↔ usable c st (h x) = true :=
  and_iff_right rfl

theorem dmedLoop_empty (ht : Tidy c st h list) (hdet : c.deterministicMed = true) {x : Ptr} :
    (dmedLoop c st h list Marks.empty).selected x = true ↔ Wins c st h Marks.empty list x := by
  rw [dmedLoop_spec ht hdet ht.nodup (fun _ hy => hy) (fun _ _ _ => rfl)
    fun _ _ _ _ _ _ _ hcheck => absurd hcheck Bool.false_ne_true]
  exact or_iff_right Bool.false_ne_true

theorem mem_candidates (ht : Tidy c st h list) {x : Ptr} :
    x ∈ list.filter (candidate c st h
      (if c.deterministicMed then dmedLoop c st h list Marks.empty else Marks.empty)) ↔
      InRace c st h list x := by
  rw [List.mem_filter, candidate, InRace, Usable]
  cases hdet : c.deterministicMed with
  | false => simp
  | true =>
      simp only [if_true, Bool.not_true, Bool.false_or, Bool.and_eq_true, dmedLoop_empty ht hdet,
        true_implies]
      constructor
      · rintro ⟨hmem, husable, hwins⟩
        exact ⟨⟨hmem, husable⟩, fun y hy => hwins.beats y hy.1 (open_empty.mpr hy.2)⟩
      · rintro ⟨⟨hmem, husable⟩, hbeats⟩
        exact ⟨hmem, husable, hmem, open_empty.mpr husable, fun y hy hopen =>
          hbeats y ⟨hy, open_empty.mp hopen⟩⟩

/-- The best of the paths over a neighbour is in the race. -/
theorem exists_inRace (ht : Tidy c st h list) {u : Ptr} (hu : Usable c st h list u) :
    ∃ w, InRace c st h list w ∧ (w = u ∨ Same h u w) := by
  cases hdet : c.deterministicMed with
  | false =>
      exact ⟨u, ⟨hu, fun hd => absurd (hdet.symm.trans hd) Bool.false_ne_true⟩, Or.inl rfl⟩
  | true =>
      have hperm := List.perm_cons_erase hu.1
      have hnd : (u :: list.erase u).Nodup := hperm.nodup_iff.mp ht.nodup
      have hsub : ∀ y ∈ u :: list.erase u, y ∈ list := fun y hy => hperm.mem_iff.mpr hy
      have hopen : Open c st h Marks.empty u := open_empty.mpr hu.2
      obtain ⟨w, hw, -⟩ := dmedGroup_spec (c := c) (h := h) (r := u) (m := Marks.empty) (b := u)
        (List.nodup_cons.mp hnd).2 (fun _ _ _ => rfl) rfl
      obtain ⟨hlead, -⟩ := leads_group ht hdet hsub hopen hnd hw
      obtain ⟨hmem, hopen', hsame⟩ := (mem_cons_group hopen).mp hlead.mem
      have hwu : Usable c st h list w := ⟨hsub w hmem, hopen'.2⟩
      refine ⟨w, ⟨hwu, fun _ y hy hne hwy => hlead.beats y ?_ hne⟩, hsame⟩
      refine (mem_cons_group hopen).mpr ⟨hperm.mem_iff.mp hy.1, open_empty.mpr hy.2, Or.inr ?_⟩
      rcases hsame with rfl | hsame
      · exact hwy
      · exact ht.same_trans hdet hu hwu hy hsame hwy

/-- At most one path is selected. -/
def OneSelected (h : Heap) (list : List Ptr) : Prop :=
  ∀ x ∈ list, ∀ y ∈ list, (h x).selected = true → (h y).selected = true → x = y

/-- The last selected path of a list, if there is one. -/
theorem foldl_selected : ∀ (l : List Ptr) (o : Option Ptr),
    (∃ x ∈ l, (h x).selected = true ∧
      l.foldl (fun o x => if (h x).selected then some x else o) o = some x) ∨
    ((∀ x ∈ l, (h x).selected = false) ∧
      l.foldl (fun o x => if (h x).selected then some x else o) o = o)
  | [], o => Or.inr ⟨by simp, rfl⟩
  | y :: l, o => by
      rw [List.foldl_cons]
      rcases foldl_selected l (if (h y).selected then some y else o) with
        ⟨x, hx, hsel, hlast⟩ | ⟨hnone, hlast⟩
      · exact Or.inl ⟨x, List.mem_cons_of_mem y hx, hsel, hlast⟩
      · rw [hlast]
        cases hsel : (h y).selected with
        | true => exact Or.inl ⟨y, List.mem_cons_self .., hsel, rfl⟩
        | false => exact Or.inr ⟨List.forall_mem_cons.mpr ⟨hsel, hnone⟩, rfl⟩

/-- What the selection returns and leaves behind. -/
structure Chosen (c : Config) (st : Status) (h : Heap) (list : List Ptr) (r : Selection) :
    Prop where
  new : ∀ b, r.new = some b ↔ IsBest c st h list b
  none : r.new = none ↔ ∀ x, ¬ Usable c st h list x
  old : ∀ o, r.old = some o ↔ o ∈ list ∧ (h o).selected = true
  list : r.list = list.filter (stays h)
  marks : r.marks = Marks.empty

/-- **`bgp_best_selection`** -/
theorem bgpBestSelection_spec (ht : Tidy c st h list) (hone : OneSelected h list) :
    Chosen c st h list (bgpBestSelection c st h list Marks.empty) := by
  have hrace : (fun x => x ∈ list.filter (candidate c st h
      (if c.deterministicMed then dmedLoop c st h list Marks.empty else Marks.empty))) =
      InRace c st h list := funext fun x => propext (mem_candidates ht)
  have hstrict := ht.strictOn_race
  rw [← hrace] at hstrict
  have hnd := ht.nodup.filter (candidate c st h
    (if c.deterministicMed then dmedLoop c st h list Marks.empty else Marks.empty))
  have hscan : Scanned c st h list _ (bgpBestSelection c st h list Marks.empty) :=
    foldl_scanned ht.nodup fun _ _ => nofun
  refine ⟨fun b => ?_, ?_, fun o => ?_, hscan.list, ?_⟩
  · rw [hscan.new, scanBest_eq_some_iff hstrict hnd, hrace, IsBest]
  · rw [hscan.new, scanBest_eq_none_iff hstrict hnd, List.eq_nil_iff_forall_not_mem]
    refine ⟨fun hnone x hx => ?_, fun hnone x hx => ?_⟩
    · obtain ⟨w, hw, -⟩ := exists_inRace ht hx
      exact hnone w ((mem_candidates ht).mpr hw)
    · exact hnone x ((mem_candidates ht).mp hx).1
  · rw [hscan.old]
    rcases foldl_selected (h := h) list none with ⟨x, hx, hsel, hlast⟩ | ⟨hnone, hlast⟩
    · rw [hlast, Option.some.injEq]
      refine ⟨?_, fun ho => hone x hx o ho.1 hsel ho.2⟩
      rintro rfl
      exact ⟨hx, hsel⟩
    · rw [hlast]
      refine iff_of_false nofun fun ho => ?_
      exact Bool.false_ne_true ((hnone o ho.1).symm.trans ho.2)
  · -- the first pass marks usable paths, and the second takes their marks off
    have hcheck : ∀ x, (if c.deterministicMed then dmedLoop c st h list Marks.empty
        else Marks.empty).check x = true → x ∈ list ∧ usable c st (h x) = true := by
      intro x hx
      split at hx
      · exact (dmedLoop_check ht.nodup (fun _ _ _ => rfl) hx).resolve_left Bool.false_ne_true
      · exact absurd hx Bool.false_ne_true
    have hselected : ∀ x, (if c.deterministicMed then dmedLoop c st h list Marks.empty
        else Marks.empty).selected x = true → x ∈ list ∧ usable c st (h x) = true := by
      intro x hx
      split at hx
      · rename_i hdet
        have hwins := (dmedLoop_empty ht hdet).mp hx
        exact ⟨hwins.mem, hwins.isOpen.2⟩
      · exact absurd hx Bool.false_ne_true
    have hempty : ∀ {b : Bool} {p : Prop} [Decidable p], (b = true → p) →
        (b && !decide p) = false := by
      intro b p _ hp
      cases b with
      | false => rfl
      | true => simp [hp rfl]
    exact Marks.ext (funext fun x => (hscan.check x).trans (hempty (hcheck x)))
      (funext fun x => (hscan.selected x).trans (hempty (hselected x)))

end Both

end Bgp

end NetSystem
