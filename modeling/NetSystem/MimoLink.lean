import NetSystem.MimoModel

/-!
# Zero forcing

What the equaliser makes of a transmission: each symbol, plus the noise of
its stream, multiplied by the inverse of the channel and divided by the
amplitude (`Link.sEst_eq`). Noise that stays below half the distance of two
points changes no decision (`zf_error_free`).

The search for the nearest point is right for samples that have a point
nearer than 10000, and for no others (`nearest_search_iff`). The equaliser
produces others: its gain has no bound as the columns of the channel align.

All symbols get the same noise, that of column `1000/mod_order`
(`noise_columnwise_iff`).
-/

namespace NetSystem

namespace Mimo

open Matrix

variable {slots : Nat}

/-! ## The equaliser -/

namespace Link

variable (L : Link)

/-- The noise behind the equaliser. -/
noncomputable def noise (v : Fin 2 → ℂ) (i : Fin 2) : ℂ :=
  ((↑L.h⁻¹ : Matrix (Fin 2) (Fin 2) ℂ) *ᵥ v) i / (√L.pr : ℂ)

theorem sqrt_pr_ne_zero : (√L.pr : ℂ) ≠ 0 := by
  exact_mod_cast (Real.sqrt_pos.mpr L.pr_pos).ne'

theorem equalise_receive (x : Matrix (Fin 2) (Fin slots) ℂ) (v : Fin 2 → ℂ) :
    L.equalise (L.receive x v) = x + Matrix.of fun i _ => L.noise v i := by
  have hpr := L.sqrt_pr_ne_zero
  have hmap : (L.receive x v).map (· / (√L.pr : ℂ)) =
      (L.h : Matrix (Fin 2) (Fin 2) ℂ) * x + Matrix.of fun i _ => v i / (√L.pr : ℂ) := by
    ext i j
    simp only [receive, Matrix.map_apply, Matrix.add_apply, Matrix.smul_mul,
      Matrix.smul_apply, smul_eq_mul, Matrix.of_apply]
    rw [add_div, mul_div_cancel_left₀ _ hpr]
  have hinv : (↑L.h⁻¹ : Matrix (Fin 2) (Fin 2) ℂ) * (L.h : Matrix (Fin 2) (Fin 2) ℂ) = 1 := by
    rw [← Units.val_mul, inv_mul_cancel, Units.val_one]
  rw [equalise, hmap, Matrix.mul_add, ← Matrix.mul_assoc, hinv, Matrix.one_mul]
  congr 1
  ext i j
  simp only [Matrix.mul_apply, Matrix.of_apply, noise, Matrix.mulVec, dotProduct,
    Finset.sum_div, mul_div_assoc]

/-- Symbol `k` goes through stream `k mod 2`. -/
theorem sEst_eq (s : Fin (slots * 2) → ℂ) (v : Fin 2 → ℂ) (k : Fin (slots * 2)) :
    L.sEst s v k = s k + L.noise v (finProdFinEquiv.symm k).2 := by
  have hs := congrFun (flatten_reshape s) k
  rw [sEst, equalise_receive]
  rw [flatten] at hs ⊢
  rw [Matrix.add_apply, hs, Matrix.of_apply]

theorem noise_zero (i : Fin 2) : L.noise 0 i = 0 := by
  rw [noise, Matrix.mulVec_zero, Pi.zero_apply, zero_div]

theorem noise_mulVec (z : Fin 2 → ℂ) (i : Fin 2) :
    L.noise ((L.h : Matrix (Fin 2) (Fin 2) ℂ) *ᵥ z) i = z i / (√L.pr : ℂ) := by
  rw [noise, Matrix.mulVec_mulVec, ← Units.val_mul, inv_mul_cancel, Units.val_one,
    Matrix.one_mulVec]

/-- The inverse of the channel loses nothing. -/
theorem noise_injective : Function.Injective L.noise := by
  intro v v' h
  have hmul : (↑L.h⁻¹ : Matrix (Fin 2) (Fin 2) ℂ) *ᵥ v =
      (↑L.h⁻¹ : Matrix (Fin 2) (Fin 2) ℂ) *ᵥ v' := by
    funext i
    have hi := congrFun h i
    rw [noise, noise, div_left_inj' L.sqrt_pr_ne_zero] at hi
    exact hi
  have hback := congrArg ((L.h : Matrix (Fin 2) (Fin 2) ℂ) *ᵥ ·) hmul
  simp only [Matrix.mulVec_mulVec, ← Units.val_mul, mul_inv_cancel, Units.val_one,
    Matrix.one_mulVec] at hback
  exact hback

end Link

/-! ## The search -/

theorem minInd_eq_some_iff {k : Nat} {iq : Fin k → ℂ} {s : ℂ} {j : Fin k} :
    minInd iq s = some j ↔ IsFirstMin (fun i => ‖s - iq i‖) j ∧ ‖s - iq j‖ < minVal :=
  scanMin_eq_some_iff

namespace Table

variable {order : Nat} (T : Table order)

theorem scale_pos : 0 < T.scale := zero_lt_one.trans_le T.one_le_scale

/-- Two points are at least two steps of the grid apart. -/
theorem two_div_le_norm {j k : Fin T.size} (h : j ≠ k) : 2 / T.scale ≤ ‖T.iq j - T.iq k‖ := by
  have hscale := T.scale_pos
  have hgrid : (4 : ℝ) ≤ ((T.point j).1 - (T.point k).1) ^ 2 +
      ((T.point j).2 - (T.point k).2) ^ 2 := by exact_mod_cast T.spacing j k h
  refine le_of_sq_le_sq ?_ (norm_nonneg _)
  rw [Complex.sq_norm, Complex.normSq_apply]
  simp only [iq, Complex.sub_re, Complex.sub_im]
  calc (2 / T.scale) ^ 2 = 4 / T.scale ^ 2 := by ring
    _ ≤ (((T.point j).1 - (T.point k).1) ^ 2 + ((T.point j).2 - (T.point k).2) ^ 2) /
        T.scale ^ 2 := by gcongr
    _ = _ := by ring

/-- A sample nearer to a point than half that distance is nearest to it. -/
theorem lt_norm_of_near {j : Fin T.size} {s : ℂ} (h : ‖s - T.iq j‖ < 1 / T.scale)
    {k : Fin T.size} (hk : k ≠ j) : ‖s - T.iq j‖ < ‖s - T.iq k‖ := by
  have htri : ‖T.iq j - T.iq k‖ ≤ ‖s - T.iq k‖ + ‖s - T.iq j‖ := by
    rw [← norm_neg (s - T.iq j), add_comm]
    refine le_trans (le_of_eq ?_) (norm_add_le _ _)
    ring_nf
  have hfar := T.two_div_le_norm hk.symm
  have htwo : 2 / T.scale = 1 / T.scale + 1 / T.scale := by ring
  linarith

theorem minInd_of_near {j : Fin T.size} {s : ℂ} (h : ‖s - T.iq j‖ < 1 / T.scale) :
    minInd T.iq s = some j := by
  rw [minInd_eq_some_iff]
  have hone : 1 / T.scale ≤ 1 := (div_le_one T.scale_pos).mpr T.one_le_scale
  have hval : (1 : ℝ) < minVal := by norm_num [minVal]
  refine ⟨⟨fun k => ?_, fun k hk => T.lt_norm_of_near h hk.ne⟩, by linarith⟩
  rcases eq_or_ne k j with rfl | hk
  · exact le_rfl
  · exact (T.lt_norm_of_near h hk).le

end Table

/-! ## Small noise -/

theorem ModOrder.halfDist_eq (m : ModOrder) : m.halfDist = 1 / m.table.scale := by
  cases m with
  | bpsk => exact (div_one 1).symm
  | qpsk =>
      change √2 / 2 = 1 / √2
      rw [div_eq_div_iff two_ne_zero (by positivity), one_mul, Real.mul_self_sqrt zero_le_two]
  | qam => rfl

theorem bpsk_re (j : Fin bpskTable.size) :
    (bpskTable.iq j).re = 1 ∨ (bpskTable.iq j).re = -1 := by
  revert j
  change ∀ j : Fin 2, _
  rw [Fin.forall_fin_two]
  simp [Table.iq, bpskTable]

/-- The sign test accepts a sample nearer than 1 to the symbol. -/
theorem bpsk_not_neg {row : Fin 1 → Bool} {s : ℂ} (h : ‖s - bpskTable.symbol row‖ < 1) :
    ¬ s.re * (bpskTable.symbol row).re < 0 := by
  have hre := (Complex.abs_re_le_norm _).trans_lt h
  rw [Complex.sub_re, abs_lt] at hre
  rcases bpsk_re (bpskTable.ix row) with hx | hx
  · rw [Table.symbol, hx] at hre ⊢
    linarith
  · rw [Table.symbol, hx] at hre ⊢
    linarith

theorem symbolErr_of_near {order : Nat} {T : Table order} (inc : Nat) {row : Fin order → Bool}
    {s : ℂ} (h : ‖s - T.symbol row‖ < 1 / T.scale) : symbolErr T inc row s = some 0 := by
  rw [symbolErr, T.minInd_of_near h, Option.map_some, if_pos (T.bits_ix row)]

/-- Samples near enough to the symbols are demodulated without errors. -/
theorem bitE_of_near (m : ModOrder) (txData : Bits m slots) {s : Fin (slots * 2) → ℂ}
    (h : ∀ i, ‖s i - modulate m txData i‖ < m.halfDist) : bitE m txData s = some 0 := by
  have hzero : 0 = ∑ _ : Fin (slots * 2), 0 := by rw [Finset.sum_const_zero]
  cases m with
  | bpsk =>
      refine countM_eq_some_iff.mpr ⟨fun _ => 0, fun i => ?_, hzero⟩
      exact congrArg some (if_neg (bpsk_not_neg (h i)))
  | qpsk =>
      refine countM_eq_some_iff.mpr ⟨fun _ => 0, fun i => ?_, hzero⟩
      exact symbolErr_of_near 2 ((h i).trans_eq (ModOrder.halfDist_eq .qpsk))
  | qam =>
      refine countM_eq_some_iff.mpr ⟨fun _ => 0, fun i => ?_, hzero⟩
      exact symbolErr_of_near 4 ((h i).trans_eq (ModOrder.halfDist_eq .qam))

/-- **The link is free of errors** if the noise behind the equaliser stays
below half the distance of two points; without noise it returns the symbols
that were sent. -/
theorem zf_error_free (m : ModOrder) (L : Link) (txData : Bits m slots) :
    (∀ v : Fin 2 → ℂ, (∀ i, ‖((↑L.h⁻¹ : Matrix (Fin 2) (Fin 2) ℂ) *ᵥ v) i / (√L.pr : ℂ)‖ <
        m.halfDist) → bitE m txData (L.sEst (modulate m txData) v) = some 0) ∧
    L.sEst (modulate m txData) 0 = modulate m txData := by
  refine ⟨fun v hv => bitE_of_near m txData fun i => ?_, ?_⟩
  · rw [L.sEst_eq, add_sub_cancel_left]
    exact hv _
  · funext k
    rw [L.sEst_eq, L.noise_zero, add_zero]

/-- A channel without crosstalk. -/
noncomputable def plainLink : Link where
  h := 1
  pr := 1
  pr_pos := one_pos

theorem zf_error_free_plain :
    bitE .qam (fun _ => true : Bits .qam 125)
      (plainLink.sEst (modulate .qam fun _ => true) fun _ => 1 / 4) = some 0 := by
  refine (zf_error_free .qam plainLink fun _ => true).1 (fun _ => 1 / 4) fun i => ?_
  have hsqrt : sqrt10 < 4 := (Real.sqrt_lt' (by norm_num)).mpr (by norm_num)
  have hpos : 0 < sqrt10 := Real.sqrt_pos.mpr (by norm_num)
  have hhalf : (1 / 4 : ℝ) < 1 / sqrt10 := one_div_lt_one_div_of_lt hpos hsqrt
  simpa [plainLink, ModOrder.halfDist] using hhalf

/-! ## Any noise -/

/-- **The nearest-point search** ends with the first nearest point exactly
if the symbol with its noise is nearer than 10000 to some point. -/
theorem nearest_search_iff (m : ModOrder) (L : Link) (txData : Bits m slots) (v : Fin 2 → ℂ)
    (k : Fin (slots * 2)) :
    (∃ j, minInd m.table.iq (L.sEst (modulate m txData) v k) = some j ∧
      IsFirstMin (fun i => ‖L.sEst (modulate m txData) v k - m.table.iq i‖) j) ↔
    ∃ i, ‖modulate m txData k + L.noise v (finProdFinEquiv.symm k).2 - m.table.iq i‖ < minVal := by
  rw [← L.sEst_eq]
  constructor
  · rintro ⟨j, hj, -⟩
    exact ⟨j, (minInd_eq_some_iff.mp hj).2⟩
  · rintro ⟨i, hi⟩
    have : Nonempty (Fin m.table.size) := ⟨i⟩
    obtain ⟨j, hj⟩ := exists_isFirstMin fun i => ‖L.sEst (modulate m txData) v k - m.table.iq i‖
    exact ⟨j, minInd_eq_some_iff.mpr ⟨hj, (hj.1 i).trans_lt hi⟩, hj⟩

/-- The phase of the fourth entry of `alignedLink`, about 0.00002. -/
noncomputable def smallPhase : ℂ := (100000 + Complex.I) / (100000 - Complex.I)

theorem smallPhase_den : (100000 - Complex.I : ℂ) ≠ 0 := fun h => by
  have him := congrArg Complex.im h
  norm_num at him

theorem smallPhase_eq : (1 - smallPhase) * (1 / 2 + 50000 * Complex.I) = 1 := by
  have hden := smallPhase_den
  have hI := Complex.I_mul_I
  rw [smallPhase, sub_div' hden]
  field_simp
  linear_combination (-200000 : ℂ) * hI

/-- A channel with entries of modulus 1, as the program makes them, whose
columns are almost the same, 100 m from the sender. -/
noncomputable def alignedLink : Link where
  h := GeneralLinearGroup.mkOfDetNeZero !![1, 1; 1, smallPhase] (by
    rw [det_fin_two_of]
    intro h
    have hne := smallPhase_eq
    rw [show 1 - smallPhase = 0 by linear_combination -h, zero_mul] at hne
    exact zero_ne_one hne)
  pr := receivedPower 100
  pr_pos := by
    unfold receivedPower
    positivity

theorem norm_smallPhase : ‖smallPhase‖ = 1 := by
  have hconj : (starRingEnd ℂ) (100000 + Complex.I) = 100000 - Complex.I := by
    refine Complex.ext ?_ ?_ <;> simp
  have hne : ‖(100000 - Complex.I : ℂ)‖ ≠ 0 := norm_ne_zero_iff.mpr smallPhase_den
  rw [smallPhase, norm_div, ← RCLike.norm_conj (100000 + Complex.I), hconj, div_self hne]

theorem norm_alignedLink (i j : Fin 2) :
    ‖(alignedLink.h : Matrix (Fin 2) (Fin 2) ℂ) i j‖ = 1 := by
  change ‖!![1, 1; 1, smallPhase] i j‖ = 1
  fin_cases i <;> fin_cases j <;> simp [norm_smallPhase]

/-- Noise of the strength of the signal leaves the equaliser fifty thousand
times stronger. -/
theorem alignedLink_noise :
    alignedLink.noise ![(√alignedLink.pr : ℂ), 0] 1 = 1 / 2 + 50000 * Complex.I := by
  have hpr := alignedLink.sqrt_pr_ne_zero
  have hv : (alignedLink.h : Matrix (Fin 2) (Fin 2) ℂ) *ᵥ
      ![(√alignedLink.pr : ℂ) * (1 / 2 - 50000 * Complex.I),
        (√alignedLink.pr : ℂ) * (1 / 2 + 50000 * Complex.I)] = ![(√alignedLink.pr : ℂ), 0] := by
    have hphase := smallPhase_eq
    change !![1, 1; 1, smallPhase] *ᵥ _ = _
    rw [cons_mulVec, cons_mulVec, empty_mulVec]
    congr 1
    · simp only [cons_dotProduct_cons, dotProduct_of_isEmpty]
      ring
    · congr 1
      simp only [cons_dotProduct_cons, dotProduct_of_isEmpty]
      linear_combination (-√alignedLink.pr : ℂ) * hphase
  rw [← hv, alignedLink.noise_mulVec]
  exact mul_div_cancel_left₀ _ hpr

theorem qpsk_abs_im_le (j : Fin qpskTable.size) : |(qpskTable.iq j).im| ≤ 1 := by
  have hgrid : ∀ j : Fin 4, |(qpskTable.point j).2| ≤ 1 := by
    change ∀ j : Fin 4, |(![(1, -1), (-1, -1), (-1, 1), (1, 1)] j : ℤ × ℤ).2| ≤ 1
    decide
  have hpoint : |((qpskTable.point j).2 : ℝ)| ≤ 1 := by exact_mod_cast hgrid j
  have hscale := qpskTable.scale_pos
  have hone := qpskTable.one_le_scale
  rw [Table.iq, abs_div, abs_of_pos hscale, div_le_one hscale]
  linarith

/-- The search finds nothing for the second symbol of that transmission. -/
theorem search_finds_nothing :
    (∀ i j, ‖(alignedLink.h : Matrix (Fin 2) (Fin 2) ℂ) i j‖ = 1) ∧
    minInd qpskTable.iq (alignedLink.sEst (modulate .qpsk (fun _ => false : Bits .qpsk 250))
      ![(√alignedLink.pr : ℂ), 0] 1) = none := by
  refine ⟨norm_alignedLink, ?_⟩
  rw [Option.eq_none_iff_forall_ne_some]
  intro j hj
  have hnear := (minInd_eq_some_iff.mp hj).2
  rw [alignedLink.sEst_eq, minVal] at hnear
  have hstream : (finProdFinEquiv.symm (1 : Fin (250 * 2))).2 = 1 := by decide
  rw [hstream, alignedLink_noise] at hnear
  have him := (Complex.abs_im_le_norm _).trans_lt hnear
  have hsent := qpsk_abs_im_le (qpskTable.ix (reshape (fun _ => false : Bits .qpsk 250) 1))
  have hpoint := qpsk_abs_im_le j
  have hsym : modulate .qpsk (fun _ => false : Bits .qpsk 250) 1 =
      qpskTable.iq (qpskTable.ix (reshape (fun _ => false : Bits .qpsk 250) 1)) := rfl
  rw [hsym] at him
  simp only [Complex.sub_im, Complex.add_im, Complex.mul_im, Complex.I_re, Complex.I_im] at him
  norm_num at him
  rw [abs_lt] at him
  rw [abs_le] at hsent hpoint
  linarith [him.2, hsent.1, hpoint.2]

/-- The estimate for row `i` of column `k` of `x`. -/
theorem estimates_eq (m : ModOrder) (L : Link) (txData : Bits m m.slots)
    (n : Matrix (Fin 2) (Fin 1000) ℂ) (k : Fin m.slots) (i : Fin 2) :
    estimates m L txData n (finProdFinEquiv (k, i)) =
      modulate m txData (finProdFinEquiv (k, i)) + L.noise (fun i => n i m.noiseColumn) i := by
  rw [estimates, L.sEst_eq, Equiv.symm_apply_apply]

/-- Equal estimates in one column mean equal noise in the column used. -/
theorem noiseColumn_eq_of_estimates {m : ModOrder} {L : Link} {txData : Bits m m.slots}
    {n n' : Matrix (Fin 2) (Fin 1000) ℂ} {k : Fin m.slots}
    (h : ∀ i, estimates m L txData n (finProdFinEquiv (k, i)) =
      estimates m L txData n' (finProdFinEquiv (k, i))) (i : Fin 2) :
    n i m.noiseColumn = n' i m.noiseColumn := by
  have hnoise : L.noise (fun i => n i m.noiseColumn) = L.noise fun i => n' i m.noiseColumn := by
    funext i
    have hi := h i
    rw [estimates_eq, estimates_eq] at hi
    exact add_left_cancel hi
  exact congrFun (L.noise_injective hnoise) i

/-- The column used lies behind the last column of `x`. -/
theorem slots_le_noiseColumn (m : ModOrder) : m.slots ≤ m.noiseColumn := by
  cases m <;> decide

/-- **Noise by columns.** Two noise matrices that differ in column `j` only
give the same estimates in all other columns exactly if `j` is not the one
column the program uses, or the matrices do not differ. -/
theorem noise_columnwise_iff (m : ModOrder) (L : Link) (txData : Bits m m.slots)
    (n n' : Matrix (Fin 2) (Fin 1000) ℂ) (j : Fin 1000)
    (hagree : ∀ i k, k ≠ j → n i k = n' i k) :
    (∀ k : Fin m.slots, k.val ≠ j.val → ∀ i : Fin 2,
      estimates m L txData n (finProdFinEquiv (k, i)) =
        estimates m L txData n' (finProdFinEquiv (k, i))) ↔
    j ≠ m.noiseColumn ∨ n = n' := by
  constructor
  · intro h
    by_cases hj : j = m.noiseColumn
    · right
      have hpos : 0 < m.slots := by cases m <;> decide
      have hle := slots_le_noiseColumn m
      have hcol := noiseColumn_eq_of_estimates (h ⟨0, hpos⟩ (by rw [hj]; simp only; omega))
      ext i k
      by_cases hk : k = j
      · rw [hk, hj]
        exact hcol i
      · exact hagree i k hk
    · exact .inl hj
  · rintro (hj | rfl) k - i
    · rw [estimates_eq, estimates_eq]
      congr 2
      funext i
      exact hagree i _ hj.symm
    · rfl

/-- A change of the first column of the noise is not seen in the second. -/
theorem noise_columnwise_first :
    estimates .qpsk alignedLink (fun _ => false) 0 (finProdFinEquiv ((1 : Fin 250), 0)) =
      estimates .qpsk alignedLink (fun _ => false) (updateCol 0 0 ![1, 0])
        (finProdFinEquiv ((1 : Fin 250), 0)) := by
  have hagree : ∀ i k, k ≠ 0 →
      (0 : Matrix (Fin 2) (Fin 1000) ℂ) i k = updateCol 0 0 ![1, 0] i k := fun i k hk => by
    rw [updateCol_ne hk]
  have hunused : (0 : Fin 1000) ≠ ModOrder.noiseColumn .qpsk := by decide
  have hall := (noise_columnwise_iff .qpsk alignedLink (fun _ => false) 0
    (updateCol 0 0 ![1, 0]) 0 hagree).mpr (.inl hunused)
  exact hall (1 : Fin 250) one_ne_zero 0

/-- The 500th column of the noise reaches the first two symbols of a QPSK
transmission. -/
theorem noise_in_every_column :
    ¬ ∀ k : Fin 250, k.val ≠ 499 → ∀ i : Fin 2,
      estimates .qpsk alignedLink (fun _ => false) 0 (finProdFinEquiv (k, i)) =
        estimates .qpsk alignedLink (fun _ => false) (updateCol 0 499 ![1, 0])
          (finProdFinEquiv (k, i)) := by
  intro h
  have hcol := noiseColumn_eq_of_estimates (m := .qpsk) (h 0 (by decide)) 0
  have hused : ModOrder.noiseColumn .qpsk = 499 := by decide
  rw [hused, updateCol_self] at hcol
  exact zero_ne_one hcol

end Mimo

end NetSystem
