import NetSystem.Slicer

/-!
# Counting bit errors

`bit_e` of the two simulations, `lab7_mimo.m` and
`pre_lab7_mod_0716206.m`, against the number of bits in which the decided
points differ from the bits sent. For QPSK and 16QAM both programs add all
2 or 4 bits of a symbol for a wrong decision, so the count is right only
where a wrong decision is wrong in every bit. BPSK counts no error for a
sample with real part 0, whatever is decided.

In `lab7_mimo.m` the bits of a symbol are a row of the reshaped vector, in
`pre_lab7_mod_0716206.m` they are neighbours.
-/

namespace NetSystem

namespace Mimo

/-! ## Decisions -/

/-- A point nearest to the sample. -/
def Nearest {order : Nat} (symbol : (Fin order → Bool) → ℂ) (s : ℂ) (row : Fin order → Bool) :
    Prop :=
  ∀ row', ‖s - symbol row‖ ≤ ‖s - symbol row'‖

/-- The bits decided for a sample in `lab7_mimo.m`: those of the first of the
nearest points, where the program searches for it. -/
def Decides : (m : ModOrder) → ℂ → (Fin m.order → Bool) → Prop
  | .bpsk, s, row => Nearest bpskTable.symbol s row
  | .qpsk, s, row => IsFirstMin (fun j => ‖s - qpskTable.iq j‖) (qpskTable.ix row)
  | .qam, s, row => IsFirstMin (fun j => ‖s - qamTable.iq j‖) (qamTable.ix row)

/-- The bits decided for a sequence of samples. -/
structure Decision (m : ModOrder) {n : Nat} (s : Fin n → ℂ) where
  rows : Matrix (Fin n) (Fin m.order) Bool
  decides : ∀ i, Decides m (s i) (rows i)

/-- Likewise in the first simulation, which leaves open what is decided
between two nearest points. -/
structure PreDecision (m : ModOrder) {n : Nat} (s : Fin n → ℂ) where
  rows : Matrix (Fin n) (Fin m.order) Bool
  nearest : ∀ i, Nearest (preSymbol m) (s i) (rows i)

/-! ## BPSK -/

/-- The two simulations have the same BPSK symbols. -/
theorem preBpsk_eq : preBpsk = bpskTable.symbol := by
  have hiq : ∀ j : Fin 2, preBpsk (bpskTable.bits j) = bpskTable.iq j := by
    rw [Fin.forall_fin_two]
    refine ⟨Complex.ext ?_ ?_, Complex.ext ?_ ?_⟩ <;>
      simp [preBpsk, bpskTable, bitSign, Table.iq]
  funext row
  obtain ⟨j, rfl⟩ := bpskTable.bits_bijective.2 row
  rw [Table.symbol, Table.ix_bits]
  exact hiq j

/-- The two symbols are opposite to each other. -/
theorem bpsk_re_of_ne {row row' : Fin 1 → Bool} (h : row ≠ row') :
    (bpskTable.symbol row').re = -(bpskTable.symbol row).re := by
  have hbit : row 0 ≠ row' 0 := fun heq => h (funext fun i => by rwa [Subsingleton.elim i 0])
  rw [← preBpsk_eq]
  change ((bitSign (row' 0) : ℤ) : ℝ) = -((bitSign (row 0) : ℤ) : ℝ)
  cases hr : row 0 <;> cases hr' : row' 0 <;> simp_all [bitSign]

theorem bpsk_norm_le_iff {s : ℂ} {row row' : Fin 1 → Bool} :
    ‖s - bpskTable.symbol row‖ ≤ ‖s - bpskTable.symbol row'‖ ↔
      s.re * (bpskTable.symbol row').re ≤ s.re * (bpskTable.symbol row).re := by
  have him : ∀ row, (bpskTable.symbol row).im = 0 := fun row => by rw [← preBpsk_eq]; rfl
  have hre : ∀ row, (bpskTable.symbol row).re ^ 2 = 1 := fun row => by
    rcases bpsk_re (bpskTable.ix row) with h | h
    · rw [Table.symbol, h, one_pow]
    · rw [Table.symbol, h, neg_one_sq]
  rw [← sq_le_sq₀ (norm_nonneg _) (norm_nonneg _), Complex.sq_norm, Complex.sq_norm,
    Complex.normSq_apply, Complex.normSq_apply]
  simp only [Complex.sub_re, Complex.sub_im, him]
  have h1 := hre row
  have h2 := hre row'
  constructor <;> intro h <;> nlinarith

/-- A sample adds an error if its real part has the wrong sign. -/
theorem bpskErr_eq_iff {sent decided : Fin 1 → Bool} {s : ℂ}
    (h : Nearest bpskTable.symbol s decided) :
    (if s.re * (bpskTable.symbol sent).re < 0 then 1 else 0) ≤ hammingDist sent decided ∧
    ((if s.re * (bpskTable.symbol sent).re < 0 then 1 else 0) = hammingDist sent decided ↔
      (s.re = 0 → decided = sent)) := by
  by_cases heq : decided = sent
  · subst heq
    have hother : decided ≠ fun i => !decided i := fun h => by
      have h0 := congrFun h 0
      cases hd : decided 0 <;> simp [hd] at h0
    have hsign := bpsk_norm_le_iff.mp (h fun i => !decided i)
    rw [bpsk_re_of_ne hother] at hsign
    rw [if_neg (by linarith), hammingDist_self]
    simp
  · have hone : hammingDist sent decided = 1 := hammingDist_eq_card_iff.mpr fun i hi =>
      heq (funext fun k => by rw [Subsingleton.elim k i, hi])
    have hsign := bpsk_norm_le_iff.mp (h sent)
    rw [bpsk_re_of_ne (Ne.symm heq)] at hsign
    rw [hone]
    split
    · next hneg =>
        refine ⟨le_rfl, iff_of_true rfl fun hre => ?_⟩
        rw [hre, zero_mul] at hneg
        exact absurd hneg (lt_irrefl 0)
    · next hpos =>
        have hzero : s.re * (bpskTable.symbol sent).re = 0 := by linarith
        have hne : (bpskTable.symbol sent).re ≠ 0 := by
          rcases bpsk_re (bpskTable.ix sent) with hx | hx
          · rw [Table.symbol, hx]
            exact one_ne_zero
          · rw [Table.symbol, hx]
            exact neg_ne_zero.mpr one_ne_zero
        have hre : s.re = 0 := (mul_eq_zero.mp hzero).resolve_right hne
        exact ⟨zero_le_one, iff_of_false zero_ne_one fun himp => heq (himp hre)⟩

theorem preBpskErr_eq_iff {sent decided : Fin 1 → Bool} {s : ℂ} (h : Nearest preBpsk s decided) :
    (if s.re * (preBpsk sent).re < 0 then 1 else 0) ≤ hammingDist sent decided ∧
    ((if s.re * (preBpsk sent).re < 0 then 1 else 0) = hammingDist sent decided ↔
      (s.re = 0 → decided = sent)) := by
  rw [preBpsk_eq] at h ⊢
  exact bpskErr_eq_iff h

/-! ## The search -/

section Search

variable {order : Nat} {T : Table order} {sent decided : Fin order → Bool} {s : ℂ}

/-- The search finds what is decided, if it finds anything. -/
theorem symbolErr_of_first (h : IsFirstMin (fun j => ‖s - T.iq j‖) (T.ix decided)) (inc : Nat) :
    symbolErr T inc sent s =
      if ‖s - T.symbol decided‖ < minVal then some (if decided = sent then 0 else inc)
      else none := by
  rw [symbolErr]
  split
  · next hval =>
      have hfound : minInd T.iq s = some (T.ix decided) := minInd_eq_some_iff.mpr ⟨h, hval⟩
      rw [hfound, Option.map_some, T.bits_ix]
  · next hval =>
      rw [Option.map_eq_none_iff, Option.eq_none_iff_forall_ne_some]
      intro j hj
      obtain ⟨hfirst, hj⟩ := minInd_eq_some_iff.mp hj
      rw [hfirst.unique h] at hj
      exact hval hj

theorem symbolErr_eq_iff (h : IsFirstMin (fun j => ‖s - T.iq j‖) (T.ix decided)) :
    (∀ c, symbolErr T order sent s = some c → hammingDist sent decided ≤ c) ∧
    (symbolErr T order sent s = some (hammingDist sent decided) ↔
      ‖s - T.symbol decided‖ < minVal ∧ (decided = sent ∨ ∀ b, sent b ≠ decided b)) := by
  rw [symbolErr_of_first h]
  by_cases hval : ‖s - T.symbol decided‖ < minVal
  · simp only [hval, if_true, true_and, Option.some.injEq]
    by_cases heq : decided = sent
    · subst heq
      simp
    · simp only [heq, if_false, false_or, forall_eq']
      refine ⟨hammingDist_le sent decided, ?_⟩
      rw [eq_comm, hammingDist_eq_card_iff]
  · simp [hval]

end Search

/-! ## The slicer -/

section Slicer

variable {order : Nat} {symbol : (Fin order → Bool) → ℂ} {sent decided : Fin order → Bool} {s : ℂ}

/-- The symbol of `sent` is nearer than that of any other pattern. -/
def Strictly (symbol : (Fin order → Bool) → ℂ) (s : ℂ) (sent : Fin order → Bool) : Prop :=
  ∀ row, row ≠ sent → ‖s - symbol sent‖ < ‖s - symbol row‖

theorem strictlyNearest_range (hinj : Function.Injective symbol) :
    StrictlyNearest (Set.range symbol) s (symbol sent) ↔ Strictly symbol s sent := by
  rw [StrictlyNearest, Set.forall_mem_range]
  simp only [hinj.ne_iff, Strictly]

/-- A test for the nearest symbol adds nothing, or all bits. -/
theorem sliceErr_eq_iff {accepts : Prop} [Decidable accepts]
    (haccepts : accepts ↔ Strictly symbol s sent) (h : Nearest symbol s decided) :
    hammingDist sent decided ≤ (if accepts then 0 else order) ∧
    ((if accepts then 0 else order) = hammingDist sent decided ↔
      Strictly symbol s sent ∨ ∀ b, sent b ≠ decided b) := by
  rw [← haccepts]
  split
  · next hacc =>
      have heq : decided = sent := by
        by_contra hne
        exact absurd (haccepts.mp hacc decided hne) (not_lt.mpr (h sent))
      simp [heq, hacc]
  · next hacc =>
      refine ⟨hammingDist_le sent decided, ?_⟩
      rw [eq_comm, hammingDist_eq_card_iff]
      simp [hacc]

end Slicer

/-! ### Symbols and grid -/

theorem mem_pam2_iff {t : ℝ} : t ∈ pam2 ↔ ∃ b, (bitSign b : ℝ) * (1 / √2) = t := by
  have hscale : qpskTable.scale = √2 := rfl
  rw [Bool.exists_bool]
  simp [pam2, hscale, bitSign, eq_comm]

theorem mem_pam4_iff {t : ℝ} : t ∈ pam4 ↔ ∃ b c, (bitSign b : ℝ) * bitLevel c = t := by
  simp only [Bool.exists_bool, pam4, Set.mem_insert_iff, Set.mem_singleton_iff, bitSign, bitLevel]
  norm_num
  grind

theorem bitSign_inj {b c : Bool} (h : (bitSign b : ℝ) = bitSign c) : b = c := by
  have hint : bitSign b = bitSign c := by exact_mod_cast h
  clear h
  revert b c
  decide

theorem bitSign_mul_inj {b c b' c' : Bool}
    (h : (bitSign b : ℝ) * bitLevel c = bitSign b' * bitLevel c') : b = b' ∧ c = c' := by
  have hint : bitSign b * bitLevel c = bitSign b' * bitLevel c' := by exact_mod_cast h
  clear h
  revert b c b' c'
  decide

theorem range_preQpsk : Set.range preQpsk = pam2 ×ℂ pam2 := by
  ext z
  constructor
  · rintro ⟨row, rfl⟩
    exact ⟨mem_pam2_iff.mpr ⟨row 0, rfl⟩, mem_pam2_iff.mpr ⟨row 1, rfl⟩⟩
  · rintro ⟨hre, him⟩
    obtain ⟨b, hb⟩ := mem_pam2_iff.mp hre
    obtain ⟨c, hc⟩ := mem_pam2_iff.mp him
    exact ⟨![b, c], Complex.ext hb hc⟩

theorem preQpsk_injective : Function.Injective preQpsk := by
  have hsqrt : (1 / √2 : ℝ) ≠ 0 := by positivity
  intro row row' h
  have h0 := bitSign_inj (mul_right_cancel₀ hsqrt (congrArg Complex.re h))
  have h1 := bitSign_inj (mul_right_cancel₀ hsqrt (congrArg Complex.im h))
  funext i
  fin_cases i
  · exact h0
  · exact h1

theorem range_preQam : Set.range preQam = pam4 ×ℂ pam4 := by
  ext z
  constructor
  · rintro ⟨row, rfl⟩
    exact ⟨mem_pam4_iff.mpr ⟨row 0, row 1, rfl⟩, mem_pam4_iff.mpr ⟨row 2, row 3, rfl⟩⟩
  · rintro ⟨hre, him⟩
    obtain ⟨b, c, hb⟩ := mem_pam4_iff.mp hre
    obtain ⟨d, e, hd⟩ := mem_pam4_iff.mp him
    exact ⟨![b, c, d, e], Complex.ext hb hd⟩

theorem preQam_injective : Function.Injective preQam := by
  intro row row' h
  obtain ⟨h0, h1⟩ := bitSign_mul_inj (congrArg Complex.re h)
  obtain ⟨h2, h3⟩ := bitSign_mul_inj (congrArg Complex.im h)
  funext i
  fin_cases i
  · exact h0
  · exact h1
  · exact h2
  · exact h3

theorem qpskAccepts_preQpsk {s : ℂ} {sent : Fin 2 → Bool} :
    qpskAccepts s (preQpsk sent) ↔ Strictly preQpsk s sent := by
  have hmem : preQpsk sent ∈ pam2 ×ℂ pam2 := range_preQpsk ▸ Set.mem_range_self sent
  rw [qpskAccepts_iff hmem, ← range_preQpsk, strictlyNearest_range preQpsk_injective]

/-- Scaling changes no comparison. -/
theorem qamAccepts_preQam {s : ℂ} {sent : Fin 4 → Bool} :
    qamAccepts (s * preScale) (preQam sent / preScale * preScale) ↔
      Strictly (fun row => preQam row / preScale) s sent := by
  have hpos : 0 < preScale := by
    unfold preScale sqrt10
    positivity
  have hne : (preScale : ℂ) ≠ 0 := by exact_mod_cast hpos.ne'
  have hmem : preQam sent ∈ pam4 ×ℂ pam4 := range_preQam ▸ Set.mem_range_self sent
  have hnorm : ∀ row, ‖s * preScale - preQam row‖ = ‖s - preQam row / preScale‖ * preScale := by
    intro row
    have hprod : s * preScale - preQam row = (s - preQam row / preScale) * preScale := by
      rw [sub_mul, div_mul_cancel₀ _ hne]
    rw [hprod, norm_mul, Complex.norm_real, Real.norm_of_nonneg hpos.le]
  rw [div_mul_cancel₀ _ hne, qamAccepts_iff hmem, ← range_preQam,
    strictlyNearest_range preQam_injective]
  simp only [Strictly, hnorm, mul_lt_mul_iff_left₀ hpos]

/-! ## The count -/

/-- Exactly when `lab7_mimo.m` counts the errors of a sample right. -/
def CountedRight : (m : ModOrder) → ℂ → (sent decided : Fin m.order → Bool) → Prop
  | .bpsk, s, sent, decided => s.re = 0 → decided = sent
  | .qpsk, s, sent, decided =>
      ‖s - qpskTable.symbol decided‖ < minVal ∧ (decided = sent ∨ ∀ b, sent b ≠ decided b)
  | .qam, s, sent, decided =>
      ‖s - qamTable.symbol decided‖ < minVal ∧ (decided = sent ∨ ∀ b, sent b ≠ decided b)

/-- The same for the first simulation. -/
def PreCountedRight : (m : ModOrder) → ℂ → (sent decided : Fin m.order → Bool) → Prop
  | .bpsk, s, sent, decided => s.re = 0 → decided = sent
  | .qpsk, s, sent, decided => Strictly (preSymbol .qpsk) s sent ∨ ∀ b, sent b ≠ decided b
  | .qam, s, sent, decided => Strictly (preSymbol .qam) s sent ∨ ∀ b, sent b ≠ decided b

theorem bitE_eq_iff {slots : Nat} (m : ModOrder) (txData : Bits m slots)
    {s : Fin (slots * 2) → ℂ} (D : Decision m s) :
    bitE m txData s = some (hammingDist txData (flatten D.rows)) ↔
      ∀ i, CountedRight m (s i) (reshape txData i) (D.rows i) := by
  rw [hammingDist_flatten]
  cases m with
  | bpsk => exact countM_some_eq_sum_iff (.inl fun i => bpskErr_eq_iff (D.decides i))
  | qpsk =>
      refine (countM_eq_sum_iff (.inr fun i => ?_)).trans (forall_congr' fun i => ?_)
      · exact (symbolErr_eq_iff (D.decides i)).1
      · exact (symbolErr_eq_iff (D.decides i)).2
  | qam =>
      refine (countM_eq_sum_iff (.inr fun i => ?_)).trans (forall_congr' fun i => ?_)
      · exact (symbolErr_eq_iff (D.decides i)).1
      · exact (symbolErr_eq_iff (D.decides i)).2

theorem preBitE_eq_iff {n : Nat} (m : ModOrder) (txData : Fin (n * m.order) → Bool)
    {s : Fin n → ℂ} (D : PreDecision m s) :
    preBitE m txData s = some (hammingDist txData (flatten D.rows.transpose)) ↔
      ∀ i, PreCountedRight m (s i) ((reshape txData).transpose i) (D.rows i) := by
  rw [hammingDist_flatten_transpose]
  cases m with
  | bpsk => exact countM_some_eq_sum_iff (.inl fun i => preBpskErr_eq_iff (D.nearest i))
  | qpsk =>
      exact countM_some_eq_sum_iff (.inr fun i =>
        sliceErr_eq_iff qpskAccepts_preQpsk (D.nearest i))
  | qam =>
      exact countM_some_eq_sum_iff (.inr fun i => sliceErr_eq_iff qamAccepts_preQam (D.nearest i))

/-- There is something to decide for all samples. -/
theorem nonempty_decision (m : ModOrder) {n : Nat} (s : Fin n → ℂ) : Nonempty (Decision m s) := by
  have hfirst : ∀ {order : Nat} (T : Table order) (s : ℂ),
      ∃ row, IsFirstMin (fun j => ‖s - T.iq j‖) (T.ix row) := by
    intro order T s
    have : Nonempty (Fin T.size) := ⟨T.ix fun _ => false⟩
    obtain ⟨j, hj⟩ := exists_isFirstMin fun j => ‖s - T.iq j‖
    exact ⟨T.bits j, by rwa [T.ix_bits]⟩
  have hall : ∀ i, ∃ row, Decides m (s i) row := by
    intro i
    cases m with
    | bpsk =>
        obtain ⟨row, hrow⟩ := hfirst bpskTable (s i)
        exact ⟨row, fun row' => hrow.1 (bpskTable.ix row')⟩
    | qpsk => exact hfirst qpskTable (s i)
    | qam => exact hfirst qamTable (s i)
  choose rows hrows using hall
  exact ⟨⟨rows, hrows⟩⟩

theorem nonempty_preDecision (m : ModOrder) {n : Nat} (s : Fin n → ℂ) :
    Nonempty (PreDecision m s) := by
  have hall : ∀ i, ∃ row, Nearest (preSymbol m) (s i) row := by
    intro i
    obtain ⟨row, -, hrow⟩ := Set.exists_min_image Set.univ (fun row => ‖s i - preSymbol m row‖)
      Set.finite_univ Set.univ_nonempty
    exact ⟨row, fun row' => hrow row' (Set.mem_univ row')⟩
  choose rows hrows using hall
  exact ⟨⟨rows, hrows⟩⟩

/-- **Bit errors.** In both simulations `bit_e` is the number of wrong bits
exactly if each sample is counted right: in BPSK its real part is not 0, or
the bit is right; in QPSK and 16QAM the bits decided are all right or all
wrong, the sample is within reach of the search, and for the slicer not
between two nearest points. There are bits to decide for whatever samples. -/
theorem bit_errors_counted_iff (m : ModOrder) :
    (∀ (slots : Nat) (txData : Bits m slots) (s : Fin (slots * 2) → ℂ),
      Nonempty (Decision m s) ∧ ∀ D : Decision m s,
        (bitE m txData s = some (hammingDist txData (flatten D.rows)) ↔
          ∀ i, CountedRight m (s i) (reshape txData i) (D.rows i))) ∧
    ∀ (n : Nat) (txData : Fin (n * m.order) → Bool) (s : Fin n → ℂ),
      Nonempty (PreDecision m s) ∧ ∀ D : PreDecision m s,
        (preBitE m txData s = some (hammingDist txData (flatten D.rows.transpose)) ↔
          ∀ i, PreCountedRight m (s i) ((reshape txData).transpose i) (D.rows i)) :=
  ⟨fun _ txData s => ⟨nonempty_decision m s, bitE_eq_iff m txData⟩,
    fun _ txData s => ⟨nonempty_preDecision m s, preBitE_eq_iff m txData⟩⟩

/-- The bits decided if the first symbol of a transmission of zeros is taken
for 01. -/
def oneWrongBit : Matrix (Fin 500) (Fin 2) Bool :=
  fun i => if i = 0 then ![false, true] else ![false, false]

noncomputable def oneWrongDecision :
    Decision .qpsk fun i => qpskTable.symbol (oneWrongBit i) where
  rows := oneWrongBit
  decides i := by
    have hnear : ‖qpskTable.symbol (oneWrongBit i) - qpskTable.iq (qpskTable.ix (oneWrongBit i))‖ <
        1 / qpskTable.scale := by
      rw [Table.symbol, sub_self, norm_zero]
      exact one_div_pos.mpr qpskTable.scale_pos
    exact (minInd_eq_some_iff.mp (qpskTable.minInd_of_near hnear)).1

noncomputable def oneWrongPreDecision :
    PreDecision .qpsk fun i => preSymbol .qpsk (oneWrongBit i) where
  rows := oneWrongBit
  nearest i row := by
    rw [sub_self, norm_zero]
    exact norm_nonneg _

/-- One wrong bit of 1000 is counted as two. -/
theorem one_bit_counted_twice :
    bitE .qpsk (fun _ => false : Bits .qpsk 250) (fun i => qpskTable.symbol (oneWrongBit i)) ≠
      some (hammingDist (fun _ => false) (flatten oneWrongDecision.rows)) ∧
    preBitE .qpsk (fun _ => false : Fin (500 * 2) → Bool)
        (fun i => preSymbol .qpsk (oneWrongBit i)) ≠
      some (hammingDist (fun _ => false) (flatten oneWrongPreDecision.rows.transpose)) := by
  have hzero : oneWrongBit 0 = ![false, true] := if_pos rfl
  constructor
  · intro h
    have hall := (bitE_eq_iff .qpsk (fun _ => false : Bits .qpsk 250) oneWrongDecision).mp h
    have hfirst := hall (0 : Fin 500)
    obtain ⟨-, heq | hdiffer⟩ := hfirst
    · have hbit : oneWrongBit 0 1 = false := congrFun heq (1 : Fin 2)
      rw [hzero] at hbit
      cases hbit
    · have hbit : false ≠ oneWrongBit 0 0 := hdiffer (0 : Fin 2)
      rw [hzero] at hbit
      exact hbit rfl
  · intro h
    have hfirst := (preBitE_eq_iff .qpsk _ oneWrongPreDecision).mp h (0 : Fin 500)
    rcases hfirst with hstrict | hdiffer
    · have hne : oneWrongBit 0 ≠ fun _ => false := fun heq => by
        have hbit := congrFun heq 1
        rw [hzero] at hbit
        cases hbit
      have hlt := hstrict (oneWrongBit 0) hne
      rw [sub_self, norm_zero] at hlt
      exact absurd hlt (not_lt.mpr (norm_nonneg _))
    · have hbit : false ≠ oneWrongBit 0 0 := hdiffer (0 : Fin 2)
      rw [hzero] at hbit
      exact hbit rfl

end Mimo

end NetSystem
