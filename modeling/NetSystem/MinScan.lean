import Mathlib.Algebra.BigOperators.Fin
import Mathlib.Algebra.Order.BigOperators.Group.Finset
import Mathlib.Data.List.FinRange
import Mathlib.Data.Set.Finite.Lemmas

/-!
# Loops over an index range

Two loops that imperative code writes again and again: the search for a
minimum that starts from a bound and no index, and a count that adds
something for each index and may fail.

The search (`scanMin`) finds the first minimiser exactly if some value is
below the bound it starts from (`scanMin_eq_some_iff`).
-/

namespace NetSystem

/-! ## The search for a minimum -/

section MinScan

variable {ι α : Type*} [LinearOrder α]

/-- `val` and `ind` after the loop over `l`: an index is taken if its value
is below the least one so far. -/
def scanMin (f : ι → α) (l : List ι) (val : α) (ind : Option ι) : α × Option ι :=
  l.foldl (fun acc j => if f j < acc.1 then (f j, some j) else acc) (val, ind)

/-- `j` is the first index at which `f` has its least value. -/
def IsFirstMin [LinearOrder ι] (f : ι → α) (j : ι) : Prop :=
  (∀ i, f j ≤ f i) ∧ ∀ i, i < j → f j < f i

theorem IsFirstMin.unique [LinearOrder ι] {f : ι → α} {j k : ι} (hj : IsFirstMin f j)
    (hk : IsFirstMin f k) : j = k := by
  rcases lt_trichotomy j k with h | h | h
  · exact absurd (hk.2 j h) (not_lt.mpr (hj.1 k))
  · exact h
  · exact absurd (hj.2 k h) (not_lt.mpr (hk.1 j))

theorem exists_isFirstMin [LinearOrder ι] [Finite ι] [Nonempty ι] (f : ι → α) :
    ∃ j, IsFirstMin f j := by
  obtain ⟨m, -, hm⟩ := Set.exists_min_image Set.univ f Set.finite_univ Set.univ_nonempty
  have hmin : ∀ {j i}, f j = f m → f j ≤ f i := fun hj => hj.trans_le (hm _ (Set.mem_univ _))
  obtain ⟨j, hj, hleast⟩ :=
    Set.exists_min_image {j | f j = f m} id (Set.toFinite _) ⟨m, rfl⟩
  refine ⟨j, fun i => hmin hj, fun i hi => lt_of_le_of_ne (hmin hj) fun heq => ?_⟩
  exact absurd (hleast i (heq.symm.trans hj)) (not_le.mpr hi)

variable {f : ι → α}

theorem scanMin_cons (j : ι) (l : List ι) (val : α) (ind : Option ι) :
    scanMin f (j :: l) val ind =
      if f j < val then scanMin f l (f j) (some j) else scanMin f l val ind := by
  rw [scanMin, List.foldl_cons]
  split <;> rfl

/-- Nothing is taken where nothing is below the bound. -/
theorem scanMin_of_le {l : List ι} {val : α} (h : ∀ i ∈ l, val ≤ f i) (ind : Option ι) :
    scanMin f l val ind = (val, ind) := by
  induction l with
  | nil => rfl
  | cons j l ih =>
      rw [List.forall_mem_cons] at h
      rw [scanMin_cons, if_neg (not_lt.mpr h.1), ih h.2]

/-- The loop stops changing at the first index with the least value. -/
theorem scanMin_append_cons {pre post : List ι} {j : ι} {val : α} (hval : f j < val)
    (hpre : ∀ i ∈ pre, f j < f i) (hpost : ∀ i ∈ post, f j ≤ f i) (ind : Option ι) :
    scanMin f (pre ++ j :: post) val ind = (f j, some j) := by
  induction pre generalizing val ind with
  | nil => rw [List.nil_append, scanMin_cons, if_pos hval, scanMin_of_le hpost]
  | cons i pre ih =>
      rw [List.forall_mem_cons] at hpre
      rw [List.cons_append, scanMin_cons]
      split
      · exact ih hpre.1 hpre.2 _
      · exact ih hval hpre.2 _

/-- The search over all indices in their order. -/
theorem scanMin_finRange {n : Nat} {f : Fin n → α} {j : Fin n} (h : IsFirstMin f j) {val : α}
    (hval : f j < val) : scanMin f (List.finRange n) val none = (f j, some j) := by
  obtain ⟨pre, post, hsplit⟩ := List.append_of_mem (List.mem_finRange j)
  have hsorted : (List.finRange n).Pairwise (· < ·) := List.pairwise_lt_finRange n
  rw [hsplit, List.pairwise_append] at hsorted
  rw [hsplit]
  exact scanMin_append_cons hval (fun i hi => h.2 i (hsorted.2.2 i hi j List.mem_cons_self))
    (fun i _ => h.1 i) none

/-- The search ends with an index exactly if some value is below the bound,
and the index is the first minimiser then. -/
theorem scanMin_eq_some_iff {n : Nat} {f : Fin n → α} {val : α} {j : Fin n} :
    (scanMin f (List.finRange n) val none).2 = some j ↔ IsFirstMin f j ∧ f j < val := by
  constructor
  · intro h
    have hsome : ∃ i, f i < val := by
      by_contra hnone
      rw [scanMin_of_le fun i _ => not_lt.mp fun hi => hnone ⟨i, hi⟩] at h
      cases h
    obtain ⟨i, hi⟩ := hsome
    have : Nonempty (Fin n) := ⟨i⟩
    obtain ⟨k, hk⟩ := exists_isFirstMin f
    have hkval := (hk.1 i).trans_lt hi
    rw [scanMin_finRange hk hkval] at h
    obtain rfl := Option.some.inj h
    exact ⟨hk, hkval⟩
  · rintro ⟨hj, hval⟩
    rw [scanMin_finRange hj hval]

end MinScan

/-! ## Counting -/

section Count

variable {ι : Type*}

/-- A count that adds `g i` for each index, or fails. -/
def countM (g : ι → Option Nat) (l : List ι) : Option Nat :=
  l.foldlM (fun count i => (g i).map (count + ·)) 0

theorem foldlM_add_eq_some {g : ι → Option Nat} {c : ι → Nat} {l : List ι}
    (h : ∀ i ∈ l, g i = some (c i)) (a : Nat) :
    l.foldlM (fun count i => (g i).map (count + ·)) a = some (a + (l.map c).sum) := by
  induction l generalizing a with
  | nil => rfl
  | cons i l ih =>
      rw [List.forall_mem_cons] at h
      rw [List.foldlM_cons, h.1, Option.map_some, Option.bind_eq_bind, Option.bind_some, ih h.2,
        List.map_cons, List.sum_cons, Nat.add_assoc]

theorem foldlM_add_eq_none {g : ι → Option Nat} {l : List ι} {i : ι} (hi : i ∈ l)
    (h : g i = none) (a : Nat) :
    l.foldlM (fun count i => (g i).map (count + ·)) a = none := by
  induction l generalizing a with
  | nil => cases hi
  | cons k l ih =>
      rw [List.foldlM_cons]
      cases hk : g k with
      | none => rfl
      | some c =>
          have hmem : i ∈ l := by
            refine (List.mem_cons.mp hi).resolve_left fun heq => ?_
            rw [← heq, h] at hk
            cases hk
          exact ih hmem (a + c)

/-- The count over all indices is the sum, if no index fails. -/
theorem countM_eq_some_iff {n : Nat} {g : Fin n → Option Nat} {total : Nat} :
    countM g (List.finRange n) = some total ↔
      ∃ c : Fin n → Nat, (∀ i, g i = some (c i)) ∧ total = ∑ i, c i := by
  have hsum : ∀ {c : Fin n → Nat}, (∀ i, g i = some (c i)) →
      countM g (List.finRange n) = some (∑ i, c i) := fun {c} hc => by
    rw [countM, foldlM_add_eq_some fun i _ => hc i, Nat.zero_add, ← List.sum_ofFn,
      List.ofFn_eq_map]
  constructor
  · intro h
    have hall : ∀ i, ∃ c, g i = some c := fun i => by
      cases hi : g i with
      | none =>
          rw [countM, foldlM_add_eq_none (List.mem_finRange i) hi] at h
          cases h
      | some c => exact ⟨c, rfl⟩
    choose c hc using hall
    rw [hsum hc] at h
    exact ⟨c, hc, (Option.some.inj h).symm⟩
  · rintro ⟨c, hc, rfl⟩
    exact hsum hc

/-- Against a sum that is no smaller at any index, or no greater, the total
is right only if it is right at each index. -/
theorem countM_eq_sum_iff {n : Nat} {g : Fin n → Option Nat} {d : Fin n → Nat}
    (h : (∀ i c, g i = some c → c ≤ d i) ∨ ∀ i c, g i = some c → d i ≤ c) :
    countM g (List.finRange n) = some (∑ i, d i) ↔ ∀ i, g i = some (d i) := by
  rw [countM_eq_some_iff]
  constructor
  · rintro ⟨c, hc, hsum⟩ i
    have heq : c i = d i := by
      rcases h with hle | hle
      · have hall := (Finset.sum_eq_sum_iff_of_le fun i _ => hle i _ (hc i)).mp hsum.symm
        exact hall i (Finset.mem_univ i)
      · have hall := (Finset.sum_eq_sum_iff_of_le fun i _ => hle i _ (hc i)).mp hsum
        exact (hall i (Finset.mem_univ i)).symm
    rw [hc i, heq]
  · exact fun hall => ⟨d, hall, rfl⟩

/-- The same for a count that cannot fail, with what is right at an index
given as a condition. -/
theorem countM_some_eq_sum_iff {n : Nat} {e d : Fin n → Nat} {Q : Fin n → Prop}
    (h : (∀ i, e i ≤ d i ∧ (e i = d i ↔ Q i)) ∨ ∀ i, d i ≤ e i ∧ (e i = d i ↔ Q i)) :
    countM (fun i => some (e i)) (List.finRange n) = some (∑ i, d i) ↔ ∀ i, Q i := by
  have hle : (∀ i c, some (e i) = some c → c ≤ d i) ∨ ∀ i c, some (e i) = some c → d i ≤ c := by
    refine h.imp (fun h i c hc => ?_) fun h i c hc => ?_
    · exact Option.some.inj hc ▸ (h i).1
    · exact Option.some.inj hc ▸ (h i).1
  rw [countM_eq_sum_iff hle]
  refine forall_congr' fun i => ?_
  rw [Option.some.injEq]
  rcases h with h | h
  · exact (h i).2
  · exact (h i).2

end Count

end NetSystem
