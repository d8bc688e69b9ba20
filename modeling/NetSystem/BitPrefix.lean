import Mathlib.Data.Bool.Basic
import Mathlib.Data.List.Infix
import Mathlib.Data.List.Lex

/-!
# Bit strings and their order

Bit strings as lists of `Bool`, with the prefix order and the lexicographic
order, in which a prefix comes before its extensions and 0 before 1.

Two strings that are not prefixes of each other part after a common prefix
(`Parts`), one with a 0 and the other with a 1, and this bit decides their
order, and that of all their extensions (`Parts.lt_iff`). The three ways two
strings can lie are `prefix_or_parts`.
-/

namespace NetSystem

namespace BitPrefix

variable {a b u : List Bool} {x : Bool}

/-- `a` goes on after `u` with `x`, and `b` with the other bit. -/
structure Parts (u : List Bool) (x : Bool) (a b : List Bool) : Prop where
  left : u ++ [x] <+: a
  right : u ++ [!x] <+: b

theorem Parts.cons (y : Bool) (h : Parts u x a b) : Parts (y :: u) x (y :: a) (y :: b) :=
  ⟨List.cons_prefix_cons.mpr ⟨rfl, h.left⟩, List.cons_prefix_cons.mpr ⟨rfl, h.right⟩⟩

theorem prefix_or_parts : ∀ a b : List Bool, a <+: b ∨ b <+: a ∨ ∃ u x, Parts u x a b
  | [], b => Or.inl List.nil_prefix
  | a, [] => Or.inr (Or.inl List.nil_prefix)
  | x :: a, y :: b => by
      by_cases hxy : x = y
      · subst hxy
        rcases prefix_or_parts a b with h | h | ⟨u, z, h⟩
        · exact Or.inl (List.cons_prefix_cons.mpr ⟨rfl, h⟩)
        · exact Or.inr (Or.inl (List.cons_prefix_cons.mpr ⟨rfl, h⟩))
        · exact Or.inr (Or.inr ⟨x :: u, z, h.cons x⟩)
      · have hy : y = !x := by cases x <;> cases y <;> simp_all
        subst hy
        exact Or.inr (Or.inr ⟨[], x, by simp, by simp⟩)

/-- A string does not go on with both bits. -/
theorem not_both (h : u ++ [x] <+: a) : ¬ u ++ [!x] <+: a := by
  intro h'
  have hlen : (u ++ [x]).length = (u ++ [!x]).length := by simp
  have heq := (List.prefix_of_prefix_length_le h h' hlen.le).eq_of_length hlen
  simp at heq

theorem Parts.not_prefix (h : Parts u x a b) : ¬ a <+: b := fun hab =>
  not_both (h.left.trans hab) h.right

/-- A proper prefix comes first. -/
theorem prefix_lt (h : a <+: b) (hne : a ≠ b) : a < b := by
  obtain ⟨c, rfl⟩ := h
  cases c with
  | nil => simp at hne
  | cons y c =>
      have hlt : a ++ [] < a ++ y :: c := List.append_left_lt (List.nil_lt_cons y c)
      simpa using hlt

theorem prefix_snoc_lt (h : a ++ [x] <+: b) : a < b := by
  refine prefix_lt ((List.prefix_append a [x]).trans h) ?_
  rintro rfl
  have hlen := h.length_le
  rw [List.length_append, List.length_singleton] at hlen
  omega

theorem lt_of_branch (ha : u ++ [false] <+: a) (hb : u ++ [true] <+: b) : a < b := by
  obtain ⟨c, rfl⟩ := ha
  obtain ⟨d, rfl⟩ := hb
  rw [List.append_assoc, List.append_assoc]
  refine List.append_left_lt ?_
  exact List.cons_lt_cons_iff.mpr (Or.inl (by decide))

/-- Where two strings part decides their order. -/
theorem Parts.lt_iff (h : Parts u x a b) : a < b ↔ x = false := by
  cases x with
  | false => exact iff_of_true (lt_of_branch h.left h.right) rfl
  | true => exact iff_of_false (lt_of_branch h.right h.left).not_gt (by simp)

theorem prefix_le (h : a <+: b) : a ≤ b := by
  by_cases heq : a = b
  · exact heq.le
  · exact (prefix_lt h heq).le

/-- An extension of `u` that is at least as long as `u` and a bit goes on
with one of the two. -/
theorem prefix_snoc (h : u <+: a) (hne : u.length < a.length) : ∃ x, u ++ [x] <+: a := by
  obtain ⟨c, rfl⟩ := h
  cases c with
  | nil => simp at hne
  | cons x c => exact ⟨x, c, by simp⟩

theorem snoc_prefix_iff (h : u <+: a) (hlen : u.length < a.length) :
    u ++ [x] <+: a ↔ a[u.length]? = some x := by
  obtain ⟨c, rfl⟩ := h
  cases c with
  | nil => simp at hlen
  | cons y c => simp [eq_comm]

end BitPrefix

end NetSystem
