import Mathlib.Analysis.Complex.ReImTopology
import NetSystem.MimoLink

/-!
# The slicer

`pre_lab7_mod_0716206.m` has no search for the nearest point. It compares a
sample with the symbol that was sent, by signs for QPSK, and for 16QAM by
signs and by the side of 2 on which the absolute values lie. Both tests say
whether the symbol is strictly nearer to the sample than all other points
(`qamAccepts_iff`, `qpskAccepts_iff`): the points form a grid, and the
question splits into one for each coordinate.

The search of `lab7_mimo.m` runs over its own table, which for 16QAM is the
grid divided by `sqrt(10)`. It has the symbol as its only answer if moreover
the sample is nearer than 10000, its first `min_val`, in those coordinates.
-/

namespace NetSystem

namespace Mimo

/-! ## Points and decisions -/

/-- The levels of 16QAM, and those of QPSK. -/
def pam4 : Set ℝ := {-3, -1, 1, 3}

noncomputable def pam2 : Set ℝ := {-(1 / qpskTable.scale), 1 / qpskTable.scale}

/-- `x` is nearer to the sample than every other point. -/
def StrictlyNearest (points : Set ℂ) (s x : ℂ) : Prop :=
  ∀ x' ∈ points, x' ≠ x → ‖s - x‖ < ‖s - x'‖

/-- The search ends at `x`, in whatever order the points are listed. -/
def OnlyAnswer (points : Set ℂ) (s x : ℂ) : Prop :=
  ∀ (k : Nat) (iq : Fin k → ℂ), Set.range iq = points → ∃ j, minInd iq s = some j ∧ iq j = x

/-! ## One coordinate -/

/-- The level `a` is nearer to `t` than every other one. -/
def NearestLevel (levels : Set ℝ) (t a : ℝ) : Prop :=
  ∀ b ∈ levels, b ≠ a → (t - a) ^ 2 < (t - b) ^ 2

/-- Two levels are told apart by their middle. -/
theorem sub_sq_lt_iff {t a b : ℝ} (h : a < b) :
    ((t - a) ^ 2 < (t - b) ^ 2 ↔ 2 * t < a + b) ∧
      ((t - b) ^ 2 < (t - a) ^ 2 ↔ a + b < 2 * t) := by
  have hdiff : (t - b) ^ 2 - (t - a) ^ 2 = (b - a) * (a + b - 2 * t) := by ring
  have hpos : 0 < b - a := sub_pos.mpr h
  constructor
  · rw [← sub_pos, hdiff, mul_pos_iff_of_pos_left hpos, sub_pos]
  · rw [← sub_neg, hdiff, mul_neg_iff, sub_neg]
    constructor
    · rintro (⟨-, ht⟩ | ⟨hneg, -⟩)
      · exact ht
      · exact absurd hneg (not_lt.mpr hpos.le)
    · exact fun ht => .inl ⟨hpos, ht⟩

/-- The levels and the test are symmetric. -/
theorem nearestLevel_pam4_neg (t a : ℝ) :
    NearestLevel pam4 (-t) (-a) ↔ NearestLevel pam4 t a := by
  have hneg : ∀ b, -b ∈ pam4 ↔ b ∈ pam4 := by
    intro b
    simp only [pam4, Set.mem_insert_iff, Set.mem_singleton_iff, neg_eq_iff_eq_neg, neg_neg]
    tauto
  have hsq : ∀ b, (-t - -a) ^ 2 < (-t - -b) ^ 2 ↔ (t - a) ^ 2 < (t - b) ^ 2 := fun b => by
    rw [neg_sub_neg, neg_sub_neg, sub_sq_comm, sub_sq_comm b]
  constructor
  · intro h b hb hne
    exact (hsq b).mp (h (-b) ((hneg b).mpr hb) fun heq => hne (neg_injective heq))
  · intro h b hb hne
    have hb' := h (-b) ((hneg b).mpr hb) fun heq => hne (by rw [← heq, neg_neg])
    rw [← hsq, neg_neg] at hb'
    exact hb'

theorem nearestLevel_one (t : ℝ) : NearestLevel pam4 t 1 ↔ 0 < t ∧ t < 2 := by
  constructor
  · intro h
    have hbelow := (sub_sq_lt_iff (by norm_num)).2.mp (h (-1) (by simp [pam4]) (by norm_num))
    have habove := (sub_sq_lt_iff (by norm_num)).1.mp (h 3 (by simp [pam4]) (by norm_num))
    constructor <;> linarith
  · rintro ⟨hpos, hlt⟩ b (rfl | rfl | rfl | rfl) hne
    · exact (sub_sq_lt_iff (by norm_num)).2.mpr (by linarith)
    · exact (sub_sq_lt_iff (by norm_num)).2.mpr (by linarith)
    · exact absurd rfl hne
    · exact (sub_sq_lt_iff (by norm_num)).1.mpr (by linarith)

theorem nearestLevel_three (t : ℝ) : NearestLevel pam4 t 3 ↔ 2 < t := by
  constructor
  · intro h
    have hbelow := (sub_sq_lt_iff (by norm_num)).2.mp (h 1 (by simp [pam4]) (by norm_num))
    linarith
  · rintro hlt b (rfl | rfl | rfl | rfl) hne
    · exact (sub_sq_lt_iff (by norm_num)).2.mpr (by linarith)
    · exact (sub_sq_lt_iff (by norm_num)).2.mpr (by linarith)
    · exact (sub_sq_lt_iff (by norm_num)).2.mpr (by linarith)
    · exact absurd rfl hne

theorem pam4_iff_of_pos {t a : ℝ} (ha : a = 1 ∨ a = 3) :
    NearestLevel pam4 t a ↔ 0 < t * a ∧ 0 < (|t| - 2) * (|a| - 2) := by
  rcases ha with rfl | rfl
  · rw [nearestLevel_one, mul_one, abs_one]
    refine and_congr_right fun hpos => ?_
    rw [abs_of_pos hpos]
    constructor <;> intro ht <;> linarith
  · have hthree : |(3 : ℝ)| = 3 := abs_of_pos three_pos
    rw [nearestLevel_three, hthree]
    constructor
    · intro ht
      rw [abs_of_pos (by linarith)]
      constructor <;> linarith
    · rintro ⟨hpos, ht⟩
      rw [abs_of_pos (by linarith)] at ht
      linarith

theorem pam4_iff {t a : ℝ} (ha : a ∈ pam4) :
    NearestLevel pam4 t a ↔ 0 < t * a ∧ 0 < (|t| - 2) * (|a| - 2) := by
  by_cases hpos : a = 1 ∨ a = 3
  · exact pam4_iff_of_pos hpos
  · have hneg : -a = 1 ∨ -a = 3 := by
      rcases ha with rfl | rfl | rfl | rfl
      · exact .inr (neg_neg 3)
      · exact .inl (neg_neg 1)
      · exact absurd (.inl rfl) hpos
      · exact absurd (.inr rfl) hpos
    rw [← nearestLevel_pam4_neg, pam4_iff_of_pos hneg, neg_mul_neg, abs_neg, abs_neg]

theorem pam2_iff {t a : ℝ} (ha : a ∈ pam2) : NearestLevel pam2 t a ↔ 0 < t * a := by
  have hpos : 0 < 1 / qpskTable.scale := one_div_pos.mpr qpskTable.scale_pos
  have hlt : -(1 / qpskTable.scale) < 1 / qpskTable.scale := by linarith
  rcases ha with rfl | rfl
  · rw [mul_neg, neg_pos, mul_neg_iff]
    constructor
    · intro h
      have ht := (sub_sq_lt_iff hlt).1.mp (h _ (.inr rfl) hlt.ne')
      exact .inr ⟨by linarith, hpos⟩
    · rintro (⟨-, h⟩ | ⟨ht, -⟩)
      · exact absurd h (not_lt.mpr hpos.le)
      · rintro b (rfl | rfl) hne
        · exact absurd rfl hne
        · exact (sub_sq_lt_iff hlt).1.mpr (by linarith)
  · rw [mul_pos_iff_of_pos_right hpos]
    constructor
    · intro h
      have ht := (sub_sq_lt_iff hlt).2.mp (h _ (.inl rfl) hlt.ne)
      linarith
    · rintro ht b (rfl | rfl) hne
      · exact (sub_sq_lt_iff hlt).2.mpr (by linarith)
      · exact absurd rfl hne

/-- On a grid the nearest point has the nearest level in each coordinate. -/
theorem strictlyNearest_reProdIm {A B : Set ℝ} {s x : ℂ} (hx : x ∈ A ×ℂ B) :
    StrictlyNearest (A ×ℂ B) s x ↔ NearestLevel A s.re x.re ∧ NearestLevel B s.im x.im := by
  have hnorm : ∀ x' : ℂ, ‖s - x‖ < ‖s - x'‖ ↔
      (s.re - x.re) ^ 2 + (s.im - x.im) ^ 2 < (s.re - x'.re) ^ 2 + (s.im - x'.im) ^ 2 := by
    intro x'
    rw [← sq_lt_sq₀ (norm_nonneg _) (norm_nonneg _), Complex.sq_norm, Complex.sq_norm,
      Complex.normSq_apply, Complex.normSq_apply]
    simp only [Complex.sub_re, Complex.sub_im, ← sq]
  obtain ⟨hre, him⟩ := hx
  constructor
  · intro h
    refine ⟨fun b hb hne => ?_, fun b hb hne => ?_⟩
    · have hb' := h ⟨b, x.im⟩ ⟨hb, him⟩ fun heq => hne (congrArg Complex.re heq)
      rw [hnorm] at hb'
      linarith
    · have hb' := h ⟨x.re, b⟩ ⟨hre, hb⟩ fun heq => hne (congrArg Complex.im heq)
      rw [hnorm] at hb'
      linarith
  · rintro ⟨hA, hB⟩ x' ⟨hre', him'⟩ hne
    have hle : ∀ {C : Set ℝ} {t a b : ℝ}, NearestLevel C t a → b ∈ C →
        (t - a) ^ 2 ≤ (t - b) ^ 2 := by
      intro C t a b hC hb
      rcases eq_or_ne b a with rfl | hba
      · exact le_rfl
      · exact (hC b hb hba).le
    rw [hnorm]
    by_cases heq : x'.re = x.re
    · have him : x'.im ≠ x.im := fun him => hne (Complex.ext heq him)
      exact add_lt_add_of_le_of_lt (hle hA hre') (hB _ him' him)
    · exact add_lt_add_of_lt_of_le (hA _ hre' heq) (hle hB him')

/-! ## The search -/

/-- A point listed first wins every tie. -/
theorem lt_norm_of_onlyAnswer {points : Set ℂ} {s x : ℂ} (h : OnlyAnswer points s x)
    {k : Nat} {iq : Fin k → ℂ} (hiq : Set.range iq = points) {x' : ℂ} (hx' : x' ∈ points)
    (hne : x' ≠ x) : ‖s - x‖ < ‖s - x'‖ := by
  have hrange : Set.range (Fin.cons x' iq : Fin (k + 1) → ℂ) = points := by
    rw [Fin.range_cons, hiq, Set.insert_eq_of_mem hx']
  obtain ⟨j, hj, rfl⟩ := h (k + 1) (Fin.cons x' iq) hrange
  have hfirst := (minInd_eq_some_iff.mp hj).1
  have hj0 : j ≠ 0 := by
    rintro rfl
    exact hne rfl
  exact hfirst.2 0 (Fin.pos_of_ne_zero hj0)

theorem onlyAnswer_iff {k : Nat} {iq : Fin k → ℂ} {s x : ℂ} (hx : x ∈ Set.range iq) :
    OnlyAnswer (Set.range iq) s x ↔ StrictlyNearest (Set.range iq) s x ∧ ‖s - x‖ < minVal := by
  constructor
  · intro h
    refine ⟨fun x' hx' hne => lt_norm_of_onlyAnswer h rfl hx' hne, ?_⟩
    obtain ⟨j, hj, rfl⟩ := h k iq rfl
    exact (minInd_eq_some_iff.mp hj).2
  · rintro ⟨hnear, hval⟩ k iq hiq
    obtain ⟨i, rfl⟩ : x ∈ Set.range iq := hiq.symm ▸ hx
    have : Nonempty (Fin k) := ⟨i⟩
    obtain ⟨j, hj⟩ := exists_isFirstMin fun i => ‖s - iq i‖
    have heq : iq j = iq i := by
      by_contra hne
      have hlt := hnear (iq j) (hiq ▸ Set.mem_range_self j) hne
      exact absurd hlt (not_lt.mpr (hj.1 i))
    exact ⟨j, minInd_eq_some_iff.mpr ⟨hj, (hj.1 i).trans_lt hval⟩, heq⟩

/-! ## The slicer and the search -/

theorem qamAccepts_iff {s x : ℂ} (hx : x ∈ pam4 ×ℂ pam4) :
    qamAccepts s x ↔ StrictlyNearest (pam4 ×ℂ pam4) s x := by
  rw [strictlyNearest_reProdIm hx, pam4_iff hx.1, pam4_iff hx.2, qamAccepts]
  tauto

theorem qpskAccepts_iff {s x : ℂ} (hx : x ∈ pam2 ×ℂ pam2) :
    qpskAccepts s x ↔ StrictlyNearest (pam2 ×ℂ pam2) s x := by
  rw [strictlyNearest_reProdIm hx, pam2_iff hx.1, pam2_iff hx.2, qpskAccepts]

/-- A table whose points are a square grid, multiplied by `c`. -/
theorem range_mul_iq {order : Nat} {T : Table order} {levels : Finset ℤ}
    (hmem : ∀ j, (T.point j).1 ∈ levels ∧ (T.point j).2 ∈ levels)
    (hall : ∀ a ∈ levels, ∀ b ∈ levels, ∃ j, T.point j = (a, b)) (c : ℝ) :
    Set.range (fun j => (c : ℂ) * T.iq j) =
      ((fun a : ℤ => c * (a / T.scale)) '' levels) ×ℂ
        ((fun a : ℤ => c * (a / T.scale)) '' levels) := by
  ext z
  constructor
  · rintro ⟨j, rfl⟩
    refine ⟨⟨(T.point j).1, (hmem j).1, ?_⟩, ⟨(T.point j).2, (hmem j).2, ?_⟩⟩
    · exact (Complex.re_ofReal_mul c (T.iq j)).symm
    · exact (Complex.im_ofReal_mul c (T.iq j)).symm
  · rintro ⟨⟨a, ha, hre⟩, ⟨b, hb, him⟩⟩
    obtain ⟨j, hj⟩ := hall a ha b hb
    refine ⟨j, Complex.ext ?_ ?_⟩
    · rw [Complex.re_ofReal_mul, ← hre, Table.iq, hj]
    · rw [Complex.im_ofReal_mul, ← him, Table.iq, hj]

/-- The points of `lab7_mimo.m` are the same, those of 16QAM times `sqrt(10)`. -/
theorem range_qpsk : Set.range (fun j => ((1 : ℝ) : ℂ) * qpskTable.iq j) = pam2 ×ℂ pam2 := by
  have hmem : ∀ j, (qpskTable.point j).1 ∈ ({-1, 1} : Finset ℤ) ∧
      (qpskTable.point j).2 ∈ ({-1, 1} : Finset ℤ) := by decide
  have hall : ∀ a ∈ ({-1, 1} : Finset ℤ), ∀ b ∈ ({-1, 1} : Finset ℤ),
      ∃ j, qpskTable.point j = (a, b) := by decide
  have hlevels : (fun a : ℤ => (1 : ℝ) * (a / qpskTable.scale)) '' ↑({-1, 1} : Finset ℤ) =
      pam2 := by
    simp [Set.image_insert_eq, pam2, neg_div]
  have hrange := range_mul_iq (T := qpskTable) hmem hall 1
  rw [hlevels] at hrange
  exact hrange

theorem range_qam : Set.range (fun j => (sqrt10 : ℂ) * qamTable.iq j) = pam4 ×ℂ pam4 := by
  have hmem : ∀ j, (qamTable.point j).1 ∈ ({-3, -1, 1, 3} : Finset ℤ) ∧
      (qamTable.point j).2 ∈ ({-3, -1, 1, 3} : Finset ℤ) := by decide
  have hall : ∀ a ∈ ({-3, -1, 1, 3} : Finset ℤ), ∀ b ∈ ({-3, -1, 1, 3} : Finset ℤ),
      ∃ j, qamTable.point j = (a, b) := by decide
  have hlevels : (fun a : ℤ => qamTable.scale * ((a : ℝ) / qamTable.scale)) ''
      ↑({-3, -1, 1, 3} : Finset ℤ) = pam4 := by
    simp only [mul_div_cancel₀ _ qamTable.scale_pos.ne']
    simp [Set.image_insert_eq, pam4]
  have hrange := range_mul_iq (T := qamTable) hmem hall qamTable.scale
  rw [hlevels] at hrange
  exact hrange

section Scaled

variable {order : Nat} {T : Table order} {points : Set ℂ} {s x : ℂ}

/-- A test agrees with the search, which runs over the points of a table. The
test has sample and symbol in coordinates in which these are `c` times as
large. -/
def Agrees (accepts : ℂ → ℂ → Prop) (points : Set ℂ) (T : Table order) (c : ℝ) (s x : ℂ) : Prop :=
  (accepts s x ↔ StrictlyNearest points s x) ∧
    (accepts s x ↔ OnlyAnswer (Set.range T.iq) (s / c) (x / c))

theorem norm_scaled {c : ℝ} (hc : 0 < c) (s x : ℂ) : ‖s / c - x / c‖ = ‖s - x‖ / c := by
  rw [← sub_div, norm_div, Complex.norm_real, Real.norm_of_nonneg hc.le]

/-- Distances in the coordinates of the test and of the table. -/
theorem onlyAnswer_scaled {c : ℝ} (hc : 0 < c)
    (hpoints : Set.range (fun j => (c : ℂ) * T.iq j) = points) (hx : x ∈ points) :
    OnlyAnswer (Set.range T.iq) (s / c) (x / c) ↔
      StrictlyNearest points s x ∧ ‖s - x‖ < minVal * c := by
  have hne : (c : ℂ) ≠ 0 := Complex.ofReal_ne_zero.mpr hc.ne'
  have hdiv : ∀ j, (c : ℂ) * T.iq j / c = T.iq j := fun j => mul_div_cancel_left₀ _ hne
  have hmem : x / c ∈ Set.range T.iq := by
    obtain ⟨j, rfl⟩ : x ∈ Set.range fun j => (c : ℂ) * T.iq j := hpoints ▸ hx
    exact ⟨j, (hdiv j).symm⟩
  have hnear : StrictlyNearest (Set.range T.iq) (s / c) (x / c) ↔ StrictlyNearest points s x := by
    rw [StrictlyNearest, StrictlyNearest, ← hpoints, Set.forall_mem_range, Set.forall_mem_range]
    refine forall_congr' fun j => ?_
    have hlt : ‖s / c - x / c‖ < ‖s / c - T.iq j‖ ↔ ‖s - x‖ < ‖s - c * T.iq j‖ := by
      rw [norm_scaled hc, ← hdiv j, norm_scaled hc, hdiv j, div_lt_div_iff_of_pos_right hc]
    rw [hlt, ne_eq, ne_eq, eq_div_iff hne, mul_comm]
  rw [onlyAnswer_iff hmem, hnear, norm_scaled hc, div_lt_iff₀ hc]

theorem agrees_iff {accepts : ℂ → ℂ → Prop} {c : ℝ} (hc : 0 < c)
    (hpoints : Set.range (fun j => (c : ℂ) * T.iq j) = points) (hx : x ∈ points)
    (h : accepts s x ↔ StrictlyNearest points s x) :
    Agrees accepts points T c s x ↔
      ‖s - x‖ < minVal * c ∨ ∃ x' ∈ points, x' ≠ x ∧ ‖s - x'‖ ≤ ‖s - x‖ := by
  have hnot : (∃ x' ∈ points, x' ≠ x ∧ ‖s - x'‖ ≤ ‖s - x‖) ↔ ¬ StrictlyNearest points s x := by
    simp only [StrictlyNearest, not_forall, not_lt, exists_prop]
  rw [Agrees, onlyAnswer_scaled hc hpoints hx, h, hnot]
  tauto

end Scaled

theorem sqrt10_pos : 0 < sqrt10 := qamTable.scale_pos

/-- **Slicer and search.** The two tests accept a sample exactly if the
symbol is strictly nearest, and they agree with the search of `lab7_mimo.m`
unless the symbol is strictly nearest but no nearer than 10000 in the
coordinates of its table. -/
theorem slicer_agrees_iff (s : ℂ) :
    (∀ x ∈ pam4 ×ℂ pam4,
      (qamAccepts s x ↔ StrictlyNearest (pam4 ×ℂ pam4) s x) ∧
      (Agrees qamAccepts (pam4 ×ℂ pam4) qamTable sqrt10 s x ↔
        ‖s - x‖ < minVal * sqrt10 ∨ ∃ x' ∈ pam4 ×ℂ pam4, x' ≠ x ∧ ‖s - x'‖ ≤ ‖s - x‖)) ∧
    ∀ x ∈ pam2 ×ℂ pam2,
      (qpskAccepts s x ↔ StrictlyNearest (pam2 ×ℂ pam2) s x) ∧
      (Agrees qpskAccepts (pam2 ×ℂ pam2) qpskTable 1 s x ↔
        ‖s - x‖ < minVal ∨ ∃ x' ∈ pam2 ×ℂ pam2, x' ≠ x ∧ ‖s - x'‖ ≤ ‖s - x‖) := by
  refine ⟨fun x hx => ⟨qamAccepts_iff hx, ?_⟩, fun x hx => ⟨qpskAccepts_iff hx, ?_⟩⟩
  · exact agrees_iff sqrt10_pos range_qam hx (qamAccepts_iff hx)
  · rw [agrees_iff one_pos range_qpsk hx (qpskAccepts_iff hx), mul_one]

theorem slicer_agrees_corner :
    Agrees qamAccepts (pam4 ×ℂ pam4) qamTable sqrt10 ⟨4, 5⟩ ⟨3, 3⟩ := by
  have hx : (⟨3, 3⟩ : ℂ) ∈ pam4 ×ℂ pam4 := ⟨by simp [pam4], by simp [pam4]⟩
  refine ((slicer_agrees_iff ⟨4, 5⟩).1 ⟨3, 3⟩ hx).2.mpr (.inl ?_)
  have hone : (1 : ℝ) ≤ sqrt10 := qamTable.one_le_scale
  refine (Complex.norm_le_abs_re_add_abs_im _).trans_lt ?_
  rw [Complex.sub_re, Complex.sub_im, minVal]
  norm_num
  linarith

/-- A sample far out in the corner of the grid is accepted by the test, and
the search finds nothing. -/
theorem slicer_far_sample :
    (⟨3, 3⟩ : ℂ) ∈ pam4 ×ℂ pam4 ∧
      ¬ Agrees qamAccepts (pam4 ×ℂ pam4) qamTable sqrt10 ⟨40000, 40000⟩ ⟨3, 3⟩ := by
  have hx : (⟨3, 3⟩ : ℂ) ∈ pam4 ×ℂ pam4 := ⟨by simp [pam4], by simp [pam4]⟩
  refine ⟨hx, fun h => ?_⟩
  have haccepts : qamAccepts ⟨40000, 40000⟩ ⟨3, 3⟩ := by
    simp only [qamAccepts]
    norm_num
  have hnear := (onlyAnswer_scaled sqrt10_pos range_qam hx).mp (h.2.mp haccepts)
  have hroot : sqrt10 < 3.9 := by
    rw [sqrt10, Real.sqrt_lt' (by norm_num)]
    norm_num
  have hre := (Complex.abs_re_le_norm _).trans_lt hnear.2
  rw [Complex.sub_re, minVal] at hre
  norm_num at hre
  linarith

end Mimo

end NetSystem
