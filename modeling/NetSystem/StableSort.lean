import Mathlib.Data.List.Sort

/-!
# Stable descending sort

A list kept in descending order of a key, ties in order of arrival. The
specification is `sortDesc`, the insertion sort of Mathlib, which is
stable; the operation is `insertBelow`, which puts a new element before
the first one with a smaller key. Inserting the elements as they arrive
sorts the sequence of arrivals (`sortDesc_concat`), and selecting elements
before or after sorting is the same (`sortDesc_filter`).
-/

namespace NetSystem

variable {α β : Type*} [LinearOrder β]

/-- Insert before the first element with a smaller key, or at the end. -/
def insertBelow (key : α → β) (a : α) : List α → List α
  | [] => [a]
  | x :: l => if key x < key a then a :: x :: l else x :: insertBelow key a l

/-- Stable sort, largest key first. -/
def sortDesc (key : α → β) (l : List α) : List α :=
  l.insertionSort fun a b => key b ≤ key a

variable {key : α → β}

theorem insertBelow_perm (a : α) (l : List α) : (insertBelow key a l).Perm (a :: l) := by
  induction l with
  | nil => exact .refl _
  | cons x l ih =>
      rw [insertBelow]
      split
      · exact .refl _
      · exact (ih.cons x).trans (.swap a x l)

theorem sortDesc_perm (l : List α) : (sortDesc key l).Perm l := List.perm_insertionSort _ l

theorem mem_sortDesc {l : List α} {a : α} : a ∈ sortDesc key l ↔ a ∈ l :=
  (sortDesc_perm l).mem_iff

theorem sortDesc_sorted (l : List α) : (sortDesc key l).Pairwise fun a b => key b ≤ key a := by
  have htotal : Std.Total fun a b : α => key b ≤ key a := ⟨fun a b => le_total (key b) (key a)⟩
  have htrans : IsTrans α fun a b => key b ≤ key a := ⟨fun _ _ _ hab hbc => hbc.trans hab⟩
  exact List.pairwise_insertionSort _ l

/-- The two insertions commute: `b` goes in front of its equals, `a`
behind. -/
theorem orderedInsert_insertBelow (a b : α) (l : List α) :
    List.orderedInsert (fun a b => key b ≤ key a) b (insertBelow key a l) =
      insertBelow key a (List.orderedInsert (fun a b => key b ≤ key a) b l) := by
  induction l with
  | nil =>
      by_cases hab : key a ≤ key b
      · simp [insertBelow, hab, not_lt.mpr hab]
      · simp [insertBelow, hab, not_le.mp hab]
  | cons x l ih =>
      by_cases hxb : key x ≤ key b
      · by_cases hxa : key x < key a
        · by_cases hab : key a ≤ key b
          · simp [insertBelow, hxb, hxa, hab, not_lt.mpr hab]
          · simp [insertBelow, hxb, hxa, hab, not_le.mp hab]
        · have hab : ¬ key b < key a := not_lt.mpr ((not_lt.mp hxa).trans hxb)
          simp [insertBelow, hxb, hxa, hab]
      · by_cases hxa : key x < key a
        · have hab : ¬ key a ≤ key b := not_le.mpr ((not_le.mp hxb).trans hxa)
          simp [insertBelow, hxb, hxa, hab]
        · simp [insertBelow, hxb, hxa, ih]

/-- An element that arrives last is inserted behind its equals. -/
theorem sortDesc_concat (a : α) (l : List α) :
    sortDesc key (l ++ [a]) = insertBelow key a (sortDesc key l) := by
  induction l with
  | nil => rfl
  | cons x l ih =>
      simp only [sortDesc, List.cons_append, List.insertionSort_cons] at ih ⊢
      rw [ih, orderedInsert_insertBelow]

/-- Filtering and inserting, on a list in order. -/
theorem filter_orderedInsert (p : α → Bool) (a : α) {l : List α}
    (h : l.Pairwise fun a b => key b ≤ key a) :
    (List.orderedInsert (fun a b => key b ≤ key a) a l).filter p =
      if p a then List.orderedInsert (fun a b => key b ≤ key a) a (l.filter p)
      else l.filter p := by
  induction l with
  | nil => simp [List.filter_cons]
  | cons x l ih =>
      rw [List.pairwise_cons] at h
      by_cases hxa : key x ≤ key a
      · -- everything behind `x` is below `a` too, so `a` is put in front
        have hfront : ∀ y ∈ (x :: l).filter p, key y ≤ key a := by
          intro y hy
          rcases List.mem_cons.mp (List.mem_filter.mp hy).1 with rfl | hy
          · exact hxa
          · exact (h.1 y hy).trans hxa
        rw [List.orderedInsert, if_pos hxa, List.filter_cons]
        cases hl : (x :: l).filter p with
        | nil => simp
        | cons y l' =>
            have hy := hfront y (by rw [hl]; exact List.mem_cons_self ..)
            rw [List.orderedInsert, if_pos hy]
      · rw [List.orderedInsert, if_neg hxa, List.filter_cons, List.filter_cons, ih h.2]
        by_cases hpa : p a
        · by_cases hpx : p x
          · simp [hpa, hpx, hxa]
          · simp [hpa, hpx]
        · simp [hpa]

theorem sortDesc_filter (p : α → Bool) (l : List α) :
    sortDesc key (l.filter p) = (sortDesc key l).filter p := by
  induction l with
  | nil => rfl
  | cons x l ih =>
      have hsorted : (sortDesc key l).Pairwise fun a b => key b ≤ key a := sortDesc_sorted l
      simp only [sortDesc, List.insertionSort_cons] at ih hsorted ⊢
      rw [filter_orderedInsert p x hsorted, ← ih, List.filter_cons]
      split <;> simp

/-- Stability: elements with the same key stay in order. -/
theorem sortDesc_ties (v : β) (l : List α) :
    (sortDesc key l).filter (fun x => decide (key x = v)) =
      l.filter fun x => decide (key x = v) := by
  rw [← sortDesc_filter]
  refine List.Pairwise.insertionSort_eq (List.pairwise_iff_forall_sublist.mpr ?_)
  intro a b hab
  have hmem : ∀ x ∈ [a, b], key x = v := by
    intro x hx
    simpa using (List.mem_filter.mp (hab.subset hx)).2
  rw [hmem a (by simp), hmem b (by simp)]

end NetSystem
