import NetSystem.MimoLink

/-!
# Noise amplification and SNR of the MIMO simulation

`lab7_mimo.m`, what it plots besides the bit errors: the angle `theta` of the
two columns of the channel, the amplification `amp` of the noise by each row
of the inverse, and `SNR_simulated`, the energy of the symbols over that of
the errors.

The entries of the channel have absolute value 1, and then both rows amplify
alike and the angle bounds by how much (`amp_theta`). The angle is computed
from the real part of the dot product, so that it is the exact value only
where the dot product is real. `snr_simulated` is about the SNR: it does not
depend on the bits, its distance to the SNR of a single antenna in dB is the
same at all distances, and it is lost by `amp` at most.
-/

namespace NetSystem

namespace Mimo

open Matrix

/-! ## The channel of a round -/

theorem norm_channel {g : Matrix (Fin 2) (Fin 2) ℂ} {i j : Fin 2} (h : g i j ≠ 0) :
    ‖channel g i j‖ = 1 := by
  have hne : ‖g i j‖ ≠ 0 := norm_ne_zero_iff.mpr h
  rw [channel, Matrix.map_apply, norm_div, Complex.norm_real, norm_norm, div_self hne]

/-- The entries have absolute value 1. -/
def UnitEntries (h : Matrix (Fin 2) (Fin 2) ℂ) : Prop := ∀ i j, ‖h i j‖ = 1

/-! ## Amplification -/

/-- Lagrange's identity for the columns. -/
theorem normSq_det_add_dot (h : Matrix (Fin 2) (Fin 2) ℂ) :
    ‖h.det‖ ^ 2 + ‖dot h‖ ^ 2 =
      (‖h 0 0‖ ^ 2 + ‖h 1 0‖ ^ 2) * (‖h 0 1‖ ^ 2 + ‖h 1 1‖ ^ 2) := by
  rw [Matrix.det_fin_two, dot]
  simp only [Complex.sq_norm, Complex.normSq_apply, Complex.sub_re, Complex.sub_im,
    Complex.mul_re, Complex.mul_im, Complex.add_re, Complex.add_im, Complex.star_def,
    Complex.conj_re, Complex.conj_im]
  ring

theorem normSq_det {h : Matrix (Fin 2) (Fin 2) ℂ} (hu : UnitEntries h) :
    ‖h.det‖ ^ 2 = 4 - ‖dot h‖ ^ 2 := by
  have hsum := normSq_det_add_dot h
  rw [hu, hu, hu, hu] at hsum
  linarith

theorem inv_fin_two (h : GL (Fin 2) ℂ) :
    (↑h⁻¹ : Matrix (Fin 2) (Fin 2) ℂ) =
      !![h 1 1 / (h : Matrix (Fin 2) (Fin 2) ℂ).det,
          -h 0 1 / (h : Matrix (Fin 2) (Fin 2) ℂ).det;
        -h 1 0 / (h : Matrix (Fin 2) (Fin 2) ℂ).det,
          h 0 0 / (h : Matrix (Fin 2) (Fin 2) ℂ).det] := by
  rw [Matrix.coe_units_inv, Matrix.inv_def, Matrix.adjugate_fin_two]
  ext i j
  fin_cases i <;> fin_cases j <;> simp [Ring.inverse_eq_inv', div_eq_inv_mul]

theorem det_ne_zero (h : GL (Fin 2) ℂ) : (h : Matrix (Fin 2) (Fin 2) ℂ).det ≠ 0 :=
  (Matrix.isUnits_det_units h).ne_zero

/-- Both rows of the inverse amplify alike. -/
theorem amp_eq {h : GL (Fin 2) ℂ} (hu : UnitEntries (h : Matrix (Fin 2) (Fin 2) ℂ)) (i : Fin 2) :
    amp h i = 2 / ‖(h : Matrix (Fin 2) (Fin 2) ℂ).det‖ ^ 2 := by
  have hentry : ∀ i j, ‖h i j‖ = 1 := hu
  rw [amp, inv_fin_two]
  fin_cases i <;> simp [hentry] <;> ring

theorem cosine_eq {h : Matrix (Fin 2) (Fin 2) ℂ} (hu : UnitEntries h) :
    cosine h = |(dot h).re| / 2 := by
  have hnorm : ∀ j, columnNorm h j = √2 := by
    intro j
    rw [columnNorm, hu, hu]
    norm_num
  rw [cosine, hnorm, hnorm, Real.mul_self_sqrt (by norm_num)]

theorem re_sq_add_im_sq (z : ℂ) : z.re ^ 2 + z.im ^ 2 = ‖z‖ ^ 2 := by
  rw [Complex.sq_norm, Complex.normSq_apply]
  ring

/-- The sine of the angle against the determinant. -/
theorem four_sin_sq {h : Matrix (Fin 2) (Fin 2) ℂ} (hu : UnitEntries h) :
    4 * Real.sin (theta h * Real.pi / 180) ^ 2 = ‖h.det‖ ^ 2 + (dot h).im ^ 2 := by
  have hangle : theta h * Real.pi / 180 = Real.arccos (cosine h) := by
    rw [theta]
    field_simp
  have hsplit := re_sq_add_im_sq (dot h)
  have hdet := normSq_det hu
  have hcos : cosine h ^ 2 = (dot h).re ^ 2 / 4 := by
    rw [cosine_eq hu, div_pow, sq_abs]
    norm_num
  have hle : cosine h ^ 2 ≤ 1 := by
    rw [hcos]
    nlinarith [sq_nonneg ‖h.det‖, sq_nonneg (dot h).im]
  rw [hangle, Real.sin_arccos, Real.sq_sqrt (by linarith), hcos, hdet]
  linarith

/-- **Angle and amplification.** For every channel of the program: both
streams get the same amplification, at least 1/2, and at least that of the
angle, `1 / (2 sin^2 theta)`, which it is exactly if the dot product of the
columns is real. -/
theorem amp_theta (g : Matrix (Fin 2) (Fin 2) ℂ) (hg : ∀ i j, g i j ≠ 0) (h : GL (Fin 2) ℂ)
    (hh : (h : Matrix (Fin 2) (Fin 2) ℂ) = channel g) :
    amp h 0 = amp h 1 ∧ 1 / 2 ≤ amp h 0 ∧
      1 / (2 * Real.sin (theta (channel g) * Real.pi / 180) ^ 2) ≤ amp h 0 ∧
      (amp h 0 = 1 / (2 * Real.sin (theta (channel g) * Real.pi / 180) ^ 2) ↔
        (dot (channel g)).im = 0) := by
  have hu : UnitEntries (channel g) := fun i j => norm_channel (hg i j)
  have hne : (channel g).det ≠ 0 := hh ▸ det_ne_zero h
  have hamp : ∀ i, amp h i = 2 / ‖(channel g).det‖ ^ 2 := by
    intro i
    rw [amp_eq (hh ▸ hu) i, hh]
  have hpos : 0 < ‖(channel g).det‖ ^ 2 := by positivity
  have hdet := normSq_det hu
  have hsin := four_sin_sq hu
  have hrhs : 1 / (2 * Real.sin (theta (channel g) * Real.pi / 180) ^ 2) =
      2 / (‖(channel g).det‖ ^ 2 + (dot (channel g)).im ^ 2) := by
    rw [← hsin]
    have hsinpos : Real.sin (theta (channel g) * Real.pi / 180) ^ 2 ≠ 0 := by
      intro hzero
      rw [hzero] at hsin
      nlinarith [sq_nonneg (dot (channel g)).im]
    field_simp
    norm_num
  refine ⟨by rw [hamp, hamp], ?_, ?_, ?_⟩
  · rw [hamp, le_div_iff₀ hpos]
    nlinarith [sq_nonneg ‖dot (channel g)‖]
  · rw [hrhs, hamp]
    have hsq := sq_nonneg (dot (channel g)).im
    gcongr
    linarith
  · have hsum : 0 < ‖(channel g).det‖ ^ 2 + (dot (channel g)).im ^ 2 := by positivity
    rw [hrhs, hamp, div_eq_div_iff hpos.ne' hsum.ne']
    constructor
    · intro heq
      have hzero : (dot (channel g)).im ^ 2 = 0 := by linarith
      exact pow_eq_zero_iff two_ne_zero |>.mp hzero
    · intro hzero
      rw [hzero]
      ring

/-- Orthogonal columns, at the distance where nothing is lost. -/
noncomputable def orthogonalLink : Link where
  h := Matrix.GeneralLinearGroup.mkOfDetNeZero !![1, 1; 1, -1] (by norm_num [Matrix.det_fin_two])
  pr := plainLink.pr
  pr_pos := plainLink.pr_pos

theorem orthogonalLink_channel :
    (orthogonalLink.h : Matrix (Fin 2) (Fin 2) ℂ) = channel !![2, 3; 1, -1] := by
  change !![1, 1; 1, -1] = _
  ext i j
  fin_cases i <;> fin_cases j <;> simp [channel]

theorem orthogonalLink_ne_zero (i j : Fin 2) :
    (!![2, 3; 1, -1] : Matrix (Fin 2) (Fin 2) ℂ) i j ≠ 0 := by
  fin_cases i <;> fin_cases j <;> simp

theorem amp_theta_orthogonal :
    amp orthogonalLink.h 0 = amp orthogonalLink.h 1 ∧ 1 / 2 ≤ amp orthogonalLink.h 0 := by
  have hbase := amp_theta !![2, 3; 1, -1] orthogonalLink_ne_zero orthogonalLink.h
    orthogonalLink_channel
  exact ⟨hbase.1, hbase.2.1⟩

/-! ## The SNR -/

variable (m : ModOrder) (L : Link)

/-- The squared norm of a vector of two entries. -/
noncomputable def energy (v : Fin 2 → ℂ) : ℝ := ∑ i, ‖v i‖ ^ 2

theorem energy_eq (v : Fin 2 → ℂ) : energy v = ‖v 0‖ ^ 2 + ‖v 1‖ ^ 2 := Fin.sum_univ_two _

theorem energy_pos {v : Fin 2 → ℂ} (h : v ≠ 0) : 0 < energy v := by
  obtain ⟨i, hi⟩ := Function.ne_iff.mp h
  have hpos : 0 < ‖v i‖ := norm_pos_iff.mpr hi
  exact Finset.sum_pos' (fun j _ => sq_nonneg _) ⟨i, Finset.mem_univ i, pow_pos hpos 2⟩

/-- A row of a matrix amplifies by its own energy at most. -/
theorem normSq_mulVec_le (A : Matrix (Fin 2) (Fin 2) ℂ) (v : Fin 2 → ℂ) (i : Fin 2) :
    ‖(A *ᵥ v) i‖ ^ 2 ≤ (‖A i 0‖ ^ 2 + ‖A i 1‖ ^ 2) * energy v := by
  have htri : ‖(A *ᵥ v) i‖ ≤ ‖A i 0‖ * ‖v 0‖ + ‖A i 1‖ * ‖v 1‖ := by
    rw [Matrix.mulVec, dotProduct, Fin.sum_univ_two]
    refine (norm_add_le _ _).trans_eq ?_
    rw [norm_mul, norm_mul]
  calc ‖(A *ᵥ v) i‖ ^ 2 ≤ (‖A i 0‖ * ‖v 0‖ + ‖A i 1‖ * ‖v 1‖) ^ 2 := by gcongr
    _ ≤ (‖A i 0‖ ^ 2 + ‖A i 1‖ ^ 2) * energy v := by
        rw [energy_eq]
        nlinarith [sq_nonneg (‖A i 0‖ * ‖v 1‖ - ‖A i 1‖ * ‖v 0‖)]

theorem normSq_noise (v : Fin 2 → ℂ) (i : Fin 2) :
    ‖L.noise v i‖ ^ 2 = ‖((↑L.h⁻¹ : Matrix (Fin 2) (Fin 2) ℂ) *ᵥ v) i‖ ^ 2 / L.pr := by
  rw [Link.noise, norm_div, div_pow, Complex.norm_real, Real.norm_of_nonneg (Real.sqrt_nonneg _),
    Real.sq_sqrt L.pr_pos.le]

/-- Every symbol has the error of its stream. -/
theorem sumN_eq (txData : Bits m m.slots) (n : Matrix (Fin 2) (Fin 1000) ℂ) :
    sumN m L txData n = m.slots *
      (energy ((↑L.h⁻¹ : Matrix (Fin 2) (Fin 2) ℂ) *ᵥ fun i => n i m.noiseColumn) / L.pr) := by
  have herr : ∀ i, estimates m L txData n i - modulate m txData i =
      L.noise (fun i => n i m.noiseColumn) (finProdFinEquiv.symm i).2 := by
    intro i
    rw [estimates, Link.sEst_eq, add_sub_cancel_left]
  rw [sumN]
  simp only [herr]
  rw [← finProdFinEquiv.sum_comp]
  simp only [Equiv.symm_apply_apply, Fintype.sum_prod_type, Fin.sum_univ_two, normSq_noise]
  rw [Finset.sum_const, Finset.card_univ, Fintype.card_fin, nsmul_eq_mul, energy_eq, add_div]

theorem numSym_eq : m.numSym = 2 * m.slots := by
  cases m <;> norm_num [ModOrder.numSym, ModOrder.slots]

theorem mulVec_inv_mulVec (h : GL (Fin 2) ℂ) (v : Fin 2 → ℂ) :
    (h : Matrix (Fin 2) (Fin 2) ℂ) *ᵥ ((↑h⁻¹ : Matrix (Fin 2) (Fin 2) ℂ) *ᵥ v) = v := by
  rw [Matrix.mulVec_mulVec, ← Units.val_mul, mul_inv_cancel, Units.val_one, Matrix.one_mulVec]

theorem energy_inv_pos (h : GL (Fin 2) ℂ) {v : Fin 2 → ℂ} (hv : v ≠ 0) :
    0 < energy ((↑h⁻¹ : Matrix (Fin 2) (Fin 2) ℂ) *ᵥ v) := by
  refine energy_pos fun hzero => hv ?_
  rw [← mulVec_inv_mulVec h v, hzero, Matrix.mulVec_zero]

/-- The inverse gives the noise at most twice the energy of `amp`, and the
channel takes at most a factor of four back. -/
theorem energy_inv_bounds {h : GL (Fin 2) ℂ} (hu : UnitEntries (h : Matrix (Fin 2) (Fin 2) ℂ))
    (v : Fin 2 → ℂ) :
    energy ((↑h⁻¹ : Matrix (Fin 2) (Fin 2) ℂ) *ᵥ v) ≤ 2 * (amp h 0 * energy v) ∧
      energy v ≤ 4 * energy ((↑h⁻¹ : Matrix (Fin 2) (Fin 2) ℂ) *ᵥ v) := by
  have hsame : amp h 1 = amp h 0 := by rw [amp_eq hu, amp_eq hu]
  have hinv := normSq_mulVec_le (↑h⁻¹ : Matrix (Fin 2) (Fin 2) ℂ) v
  have hrow := normSq_mulVec_le (h : Matrix (Fin 2) (Fin 2) ℂ)
    ((↑h⁻¹ : Matrix (Fin 2) (Fin 2) ℂ) *ᵥ v)
  rw [mulVec_inv_mulVec] at hrow
  have h0 : ‖((↑h⁻¹ : Matrix (Fin 2) (Fin 2) ℂ) *ᵥ v) 0‖ ^ 2 ≤ amp h 0 * energy v := hinv 0
  have h1 : ‖((↑h⁻¹ : Matrix (Fin 2) (Fin 2) ℂ) *ᵥ v) 1‖ ^ 2 ≤ amp h 0 * energy v :=
    hsame ▸ hinv 1
  have hv0 := hrow 0
  have hv1 := hrow 1
  simp only [hu _ _, one_pow] at hv0 hv1
  constructor
  · rw [energy_eq]
    linarith
  · rw [energy_eq]
    linarith

theorem snrSimulated_eq (txData : Bits m m.slots) (n : Matrix (Fin 2) (Fin 1000) ℂ) :
    snrSimulated m L txData n = 2 * L.pr /
      energy ((↑L.h⁻¹ : Matrix (Fin 2) (Fin 2) ℂ) *ᵥ fun i => n i m.noiseColumn) := by
  have hslots : (m.slots : ℝ) ≠ 0 := by
    cases m <;> norm_num [ModOrder.slots]
  rw [snrSimulated, numSym_eq, sumN_eq, mul_comm (2 : ℝ), mul_div_mul_left _ _ hslots,
    div_div_eq_mul_div]

/-- In dB, the received power is a summand of both. -/
theorem snrdBSimulated_sub (txData : Bits m m.slots) (n : Matrix (Fin 2) (Fin 1000) ℂ)
    (hn : (fun i => n i m.noiseColumn) ≠ 0) :
    snrdBSimulated m L txData n - snrdB L.pr = 10 * Real.logb 10
      (2 / (energy ((↑L.h⁻¹ : Matrix (Fin 2) (Fin 2) ℂ) *ᵥ fun i => n i m.noiseColumn) * 1000))
        - 85 := by
  have hpos := energy_inv_pos L.h hn
  have hpr := L.pr_pos
  rw [snrdBSimulated, snrSimulated_eq, snrdB, Nat.cast_ofNat]
  generalize energy _ = e at hpos ⊢
  have hsplit : 2 * L.pr / e = 2 / (e * 1000) * (L.pr * 1000) := by
    field_simp
  rw [hsplit, Real.logb_mul (by positivity) (by positivity)]
  ring

/-- **The simulated SNR.** For every channel, noise and modulation: it
exceeds the SNR of a single antenna by the same number of dB whatever the
bits and at whatever distance, and for the channels of the program it is
between the received power over the energy of the noise, divided by `amp`,
and eight times the quotient. -/
theorem snr_simulated (n : Matrix (Fin 2) (Fin 1000) ℂ) (hn : (fun i => n i m.noiseColumn) ≠ 0) :
    (∀ L' : Link, L'.h = L.h → ∀ txData txData' : Bits m m.slots,
      snrdBSimulated m L' txData' n - snrdB L'.pr = snrdBSimulated m L txData n - snrdB L.pr) ∧
    (UnitEntries (L.h : Matrix (Fin 2) (Fin 2) ℂ) → ∀ txData : Bits m m.slots,
      L.pr / (amp L.h 0 * energy fun i => n i m.noiseColumn) ≤ snrSimulated m L txData n ∧
        snrSimulated m L txData n ≤ 8 * L.pr / energy fun i => n i m.noiseColumn) := by
  constructor
  · intro L' hL' txData txData'
    rw [snrdBSimulated_sub m L' txData' n hn, snrdBSimulated_sub m L txData n hn, hL']
  · intro hu txData
    have hpr := L.pr_pos
    have hv := energy_pos hn
    have hw := energy_inv_pos L.h hn
    obtain ⟨hle, hge⟩ := energy_inv_bounds hu fun i => n i m.noiseColumn
    have hamp : 0 < amp L.h 0 := by
      rw [amp_eq hu]
      have hdet := det_ne_zero L.h
      positivity
    rw [snrSimulated_eq]
    generalize energy ((↑L.h⁻¹ : Matrix (Fin 2) (Fin 2) ℂ) *ᵥ fun i => n i m.noiseColumn) = e
      at hw hle hge ⊢
    constructor
    · rw [div_le_div_iff₀ (by positivity) hw]
      nlinarith
    · rw [div_le_div_iff₀ hw hv]
      nlinarith

theorem snr_simulated_orthogonal :
    orthogonalLink.pr / (amp orthogonalLink.h 0 * energy fun _ => 1) ≤
      snrSimulated .qpsk orthogonalLink (fun _ => true) fun _ _ => 1 := by
  have hu : UnitEntries (orthogonalLink.h : Matrix (Fin 2) (Fin 2) ℂ) := by
    rw [orthogonalLink_channel]
    exact fun i j => norm_channel (orthogonalLink_ne_zero i j)
  exact ((snr_simulated .qpsk orthogonalLink (fun _ _ => 1)
    fun h => one_ne_zero (congrFun h 0)).2 hu fun _ => true).1

end Mimo

end NetSystem
