import Mathlib.InformationTheory.Hamming
import Mathlib.LinearAlgebra.Matrix.Notation
import Mathlib.Logic.Equiv.Fin.Basic

/-!
# Column-major matrices

`reshape` and `flatten` between vectors and matrices that are stored column
by column: entry `i, j` of a matrix with `r` rows has index `i + r * j`.
The vector of the matrix of a vector is the vector (`flatten_reshape`), and
the Hamming distance of two vectors is the sum of the distances of the rows,
or of the columns.
-/

namespace NetSystem

variable {α : Type*} {r c : Nat}

/-- The `r` by `c` matrix of a vector. -/
def reshape (v : Fin (c * r) → α) : Matrix (Fin r) (Fin c) α :=
  fun i j => v (finProdFinEquiv (j, i))

/-- The vector of a matrix. -/
def flatten (A : Matrix (Fin r) (Fin c) α) : Fin (c * r) → α :=
  fun k => A (finProdFinEquiv.symm k).2 (finProdFinEquiv.symm k).1

@[simp] theorem flatten_index (A : Matrix (Fin r) (Fin c) α) (i : Fin r) (j : Fin c) :
    flatten A (finProdFinEquiv (j, i)) = A i j := by
  rw [flatten, Equiv.symm_apply_apply]

@[simp] theorem flatten_reshape (v : Fin (c * r) → α) : flatten (reshape v) = v := by
  funext k
  rw [flatten, reshape, Prod.mk.eta, Equiv.apply_symm_apply]

section Hamming

variable [DecidableEq α]

/-- Errors counted in the vector are those counted row by row. -/
theorem hammingDist_flatten (v : Fin (c * r) → α) (A : Matrix (Fin r) (Fin c) α) :
    hammingDist v (flatten A) = ∑ i, hammingDist (reshape v i) (A i) := by
  simp only [hammingDist, Finset.card_filter]
  rw [← finProdFinEquiv.sum_comp, Fintype.sum_prod_type_right]
  simp only [flatten_index]
  rfl

/-- The same column by column. -/
theorem hammingDist_flatten_transpose (v : Fin (c * r) → α) (A : Matrix (Fin c) (Fin r) α) :
    hammingDist v (flatten A.transpose) =
      ∑ j, hammingDist ((reshape v).transpose j) (A j) := by
  simp only [hammingDist, Finset.card_filter]
  rw [← finProdFinEquiv.sum_comp, Fintype.sum_prod_type]
  simp only [flatten_index]
  rfl

theorem hammingDist_le {n : Nat} (x y : Fin n → α) : hammingDist x y ≤ n := by
  have hcard : hammingDist x y ≤ Fintype.card (Fin n) := hammingDist_le_card_fintype
  rwa [Fintype.card_fin] at hcard

/-- All entries differ. -/
theorem hammingDist_eq_card_iff {n : Nat} {x y : Fin n → α} :
    hammingDist x y = n ↔ ∀ i, x i ≠ y i := by
  have hcard : hammingDist x y = (Finset.univ : Finset (Fin n)).card ↔ ∀ i, x i ≠ y i := by
    rw [hammingDist, Finset.card_filter_eq_iff]
    simp
  rwa [Finset.card_fin] at hcard

end Hamming

end NetSystem
