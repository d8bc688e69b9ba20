import Mathlib.Algebra.BigOperators.Field
import Mathlib.Analysis.Complex.Basic
import Mathlib.Analysis.Real.Pi.Bounds
import Mathlib.Analysis.SpecialFunctions.Log.Base
import Mathlib.Analysis.SpecialFunctions.Trigonometric.Inverse
import Mathlib.LinearAlgebra.Matrix.GeneralLinearGroup.Defs
import NetSystem.MinScan
import NetSystem.Reshape

/-!
# The MIMO simulation

`lab7_mimo.m`, one pass of the inner loop: modulate the bits with one of
three constellations, send the symbols in two streams over a 2 by 2 channel,
equalise with the inverse of the channel (zero forcing) and demodulate.
Numbers are exact: reals and complex numbers where the source has floating
point.

Indices start at 0 here and at 1 in the source. Noise is drawn once as a
matrix with a column for each bit, of which the program takes column
`1000/mod_order` and adds it to all columns of the signal.

`pre_lab7_mod_0716206.m` is the simulation before it, with one antenna. Of
that the symbols and the demodulation are here, which compares a sample with
the symbol that was sent.
-/

namespace NetSystem

namespace Mimo

open Matrix

/-! ## Constellations -/

/-- A constellation with its bit patterns: `QPSKBit` and `QPSK`, for example.
Points are given on the grid of odd numbers, and divided by `scale`. -/
structure Table (order : Nat) where
  size : Nat
  bits : Fin size → Fin order → Bool
  point : Fin size → ℤ × ℤ
  scale : ℝ
  bits_bijective : Function.Bijective bits
  spacing : ∀ j k, j ≠ k →
    4 ≤ ((point j).1 - (point k).1) ^ 2 + ((point j).2 - (point k).2) ^ 2
  one_le_scale : 1 ≤ scale

noncomputable def sqrt10 : ℝ := √(10 : ℕ)

noncomputable def bpskTable : Table 1 where
  size := 2
  bits := ![![false], ![true]]
  point := ![(-1, 0), (1, 0)]
  scale := 1
  bits_bijective := by decide
  spacing := by decide
  one_le_scale := le_rfl

noncomputable def qpskTable : Table 2 where
  size := 4
  bits := ![![false, false], ![false, true], ![true, false], ![true, true]]
  point := ![(1, -1), (-1, -1), (-1, 1), (1, 1)]
  scale := √2
  bits_bijective := by decide
  spacing := by decide
  one_le_scale := Real.one_le_sqrt.mpr (by norm_num)

noncomputable def qamTable : Table 4 where
  size := 16
  bits :=
    ![![true, true, true, true], ![true, true, true, false],
      ![true, true, false, true], ![true, true, false, false],
      ![true, false, true, true], ![true, false, true, false],
      ![true, false, false, true], ![true, false, false, false],
      ![false, true, true, true], ![false, true, true, false],
      ![false, true, false, true], ![false, true, false, false],
      ![false, false, true, true], ![false, false, true, false],
      ![false, false, false, true], ![false, false, false, false]]
  point :=
    ![(3, 3), (3, 1), (1, 3), (1, 1), (-1, 3), (-1, 1), (-3, 3), (-3, 1),
      (3, -1), (3, -3), (1, -1), (1, -3), (-1, -1), (-1, -3), (-3, -1), (-3, -3)]
  scale := sqrt10
  bits_bijective := by decide +kernel
  spacing := by decide +kernel
  one_le_scale := Real.one_le_sqrt.mpr (by norm_num)

namespace Table

variable {order : Nat} (T : Table order)

noncomputable def iq (j : Fin T.size) : ℂ :=
  ⟨(T.point j).1 / T.scale, (T.point j).2 / T.scale⟩

/-- `ismember(row, bits, 'rows')`: the first row of the table that matches. -/
def ismember (row : Fin order → Bool) : Option (Fin T.size) :=
  (List.finRange T.size).find? fun j => T.bits j = row

theorem isSome_ismember (row : Fin order → Bool) : (T.ismember row).isSome := by
  obtain ⟨j, hj⟩ := T.bits_bijective.2 row
  rw [ismember, List.find?_isSome]
  exact ⟨j, List.mem_finRange j, decide_eq_true hj⟩

/-- The index of a bit pattern, which every pattern has. -/
def ix (row : Fin order → Bool) : Fin T.size := (T.ismember row).get (T.isSome_ismember row)

@[simp] theorem bits_ix (row : Fin order → Bool) : T.bits (T.ix row) = row := by
  have hfound : T.ismember row = some (T.ix row) := (Option.some_get _).symm
  have hmatch := List.find?_some hfound
  simpa using hmatch

@[simp] theorem ix_bits (j : Fin T.size) : T.ix (T.bits j) = j :=
  T.bits_bijective.1 (T.bits_ix _)

/-- The point sent for a bit pattern. -/
noncomputable def symbol (row : Fin order → Bool) : ℂ := T.iq (T.ix row)

end Table

/-! ## Modulation -/

/-- `MODORDER`. -/
inductive ModOrder where
  | bpsk
  | qpsk
  | qam
deriving DecidableEq, Repr

namespace ModOrder

def order : ModOrder → Nat
  | bpsk => 1
  | qpsk => 2
  | qam => 4

noncomputable def table : (m : ModOrder) → Table m.order
  | bpsk => bpskTable
  | qpsk => qpskTable
  | qam => qamTable

/-- The number of columns of `x`, for the 1000 bits of the program. -/
def slots : ModOrder → Nat
  | bpsk => 500
  | qpsk => 250
  | qam => 125

/-- Half the distance of two neighbouring points. -/
noncomputable def halfDist : ModOrder → ℝ
  | bpsk => 1
  | qpsk => √2 / 2
  | qam => 1 / sqrt10

/-- Column `1000/mod_order` of the noise. -/
def noiseColumn (m : ModOrder) : Fin 1000 := ⟨1000 / m.order - 1, by cases m <;> decide⟩

end ModOrder

variable {slots : Nat}

/-- The bits of a transmission with two symbols in each slot. -/
abbrev Bits (m : ModOrder) (slots : Nat) : Type := Fin (m.order * (slots * 2)) → Bool

/-- `s`: each row of `tx_data_reshape` gives a symbol. -/
noncomputable def modulate (m : ModOrder) (txData : Bits m slots) : Fin (slots * 2) → ℂ :=
  fun i => m.table.symbol (reshape txData i)

/-! ## Channel and equaliser -/

/-- The received power at a distance in metres. -/
noncomputable def receivedPower (dist : ℝ) : ℝ :=
  let pt : ℝ := (10 ^ (10 / 10) : ℕ) / 1000
  let lambda : ℝ := 3e8 / 2.4e9
  pt * 1 * 1 * (lambda / (4 * Real.pi * dist)) ^ 2

/-- The channel of a round and the power at the receiver. -/
structure Link where
  h : GL (Fin 2) ℂ
  pr : ℝ
  pr_pos : 0 < pr

namespace Link

variable (L : Link)

/-- `y = sqrt(Pr(d)).* h * x + v`: the column `v` is added to each column. -/
noncomputable def receive (x : Matrix (Fin 2) (Fin slots) ℂ) (v : Fin 2 → ℂ) :
    Matrix (Fin 2) (Fin slots) ℂ :=
  ((√L.pr : ℂ) • (L.h : Matrix (Fin 2) (Fin 2) ℂ)) * x + Matrix.of fun i _ => v i

/-- `x_ext = w * (y./sqrt(Pr(d)))` with `w = inv(h)`. -/
noncomputable def equalise (y : Matrix (Fin 2) (Fin slots) ℂ) : Matrix (Fin 2) (Fin slots) ℂ :=
  (↑L.h⁻¹ : Matrix (Fin 2) (Fin 2) ℂ) * y.map (· / (√L.pr : ℂ))

/-- `s_est` for the symbols `s`. -/
noncomputable def sEst (s : Fin (slots * 2) → ℂ) (v : Fin 2 → ℂ) : Fin (slots * 2) → ℂ :=
  flatten (L.equalise (L.receive (reshape s) v))

end Link

/-- `s_est` as the program has it, from the bits and the noise matrix. -/
noncomputable def estimates (m : ModOrder) (L : Link) (txData : Bits m m.slots)
    (n : Matrix (Fin 2) (Fin 1000) ℂ) : Fin (m.slots * 2) → ℂ :=
  L.sEst (modulate m txData) fun i => n i m.noiseColumn

/-! ## Demodulation -/

/-- `min_val` before the search. -/
noncomputable def minVal : ℝ := 10000

/-- The search for the nearest point, from `min_val` and `min_ind = -1`,
which is `none`. -/
noncomputable def minInd {k : Nat} (iq : Fin k → ℂ) (s : ℂ) : Option (Fin k) :=
  (scanMin (fun j => ‖s - iq j‖) (List.finRange k) minVal none).2

/-- What a symbol adds to `bit_e`: nothing, or `inc` for a wrong row. A row
with index -1 is an error and ends the program. -/
noncomputable def symbolErr {order : Nat} (T : Table order) (inc : Nat) (row : Fin order → Bool)
    (s : ℂ) : Option Nat :=
  (minInd T.iq s).map fun j => if T.bits j = row then 0 else inc

/-- `bit_e` after the loop over the symbols. The loop for BPSK has no search
but a test of signs. -/
noncomputable def bitE : (m : ModOrder) → Bits m slots → (Fin (slots * 2) → ℂ) → Option Nat
  | .bpsk, txData, s =>
      countM (fun i => some (if (s i).re * (modulate .bpsk txData i).re < 0 then 1 else 0))
        (List.finRange (slots * 2))
  | .qpsk, txData, s =>
      countM (fun i => symbolErr qpskTable 2 (reshape txData i) (s i)) (List.finRange (slots * 2))
  | .qam, txData, s =>
      countM (fun i => symbolErr qamTable 4 (reshape txData i) (s i)) (List.finRange (slots * 2))

/-! ## The first simulation -/

/-- `tx_data(i).*2-1`. -/
def bitSign (b : Bool) : ℤ := b.toNat * 2 - 1

/-- `tx_data(i).*2+1`. -/
def bitLevel (b : Bool) : ℤ := b.toNat * 2 + 1

/-- The symbols for the bits of a symbol, 16QAM still on the grid. -/
noncomputable def preBpsk (row : Fin 1 → Bool) : ℂ := ⟨bitSign (row 0), 0⟩

noncomputable def preQpsk (row : Fin 2 → Bool) : ℂ :=
  ⟨bitSign (row 0) * (1 / √2), bitSign (row 1) * (1 / √2)⟩

noncomputable def preQam (row : Fin 4 → Bool) : ℂ :=
  ⟨bitSign (row 0) * bitLevel (row 1), bitSign (row 2) * bitLevel (row 3)⟩

/-- `a`, the mean of four amplitudes. -/
noncomputable def preScale : ℝ := (√2 + sqrt10 + sqrt10 + √18) / 4

/-- The symbol `x(mod_order,i)` for its bits. -/
noncomputable def preSymbol : (m : ModOrder) → (Fin m.order → Bool) → ℂ
  | .bpsk, row => preBpsk row
  | .qpsk, row => preQpsk row
  | .qam, row => preQam row / preScale

/-- The test for QPSK on a sample `s` and the symbol `x` sent. -/
def qpskAccepts (s x : ℂ) : Prop := 0 < s.re * x.re ∧ 0 < s.im * x.im

/-- The test for 16QAM, in coordinates in which the grid is odd numbers. -/
def qamAccepts (s x : ℂ) : Prop :=
  0 < s.re * x.re ∧ 0 < s.im * x.im ∧ 0 < (|s.re| - 2) * (|x.re| - 2) ∧
    0 < (|s.im| - 2) * (|x.im| - 2)

noncomputable instance (s x : ℂ) : Decidable (qpskAccepts s x) :=
  inferInstanceAs (Decidable (_ ∧ _))

noncomputable instance (s x : ℂ) : Decidable (qamAccepts s x) :=
  inferInstanceAs (Decidable (_ ∧ _))

/-- What a sample adds to `bit_e`, for the bits sent. -/
noncomputable def preErr : (m : ModOrder) → (Fin m.order → Bool) → ℂ → Nat
  | .bpsk, row, s => if s.re * (preBpsk row).re < 0 then 1 else 0
  | .qpsk, row, s => if qpskAccepts s (preQpsk row) then 0 else 2
  | .qam, row, s => if qamAccepts (s * preScale) (preQam row / preScale * preScale) then 0 else 4

/-- `bit_e` after the loop over the samples. -/
noncomputable def preBitE {n : Nat} (m : ModOrder) (txData : Fin (n * m.order) → Bool)
    (s : Fin n → ℂ) : Option Nat :=
  countM (fun i => some (preErr m ((reshape txData).transpose i) (s i))) (List.finRange n)

/-! ## Angle, amplification and SNR -/

/-- `h ./ abs(h)`. -/
noncomputable def channel (g : Matrix (Fin 2) (Fin 2) ℂ) : Matrix (Fin 2) (Fin 2) ℂ :=
  g.map fun z => z / (‖z‖ : ℂ)

/-- `dot(h1,h2)`, the columns of the channel. -/
noncomputable def dot (h : Matrix (Fin 2) (Fin 2) ℂ) : ℂ :=
  star (h 0 0) * h 0 1 + star (h 1 0) * h 1 1

/-- `norm` of a column. -/
noncomputable def columnNorm (h : Matrix (Fin 2) (Fin 2) ℂ) (j : Fin 2) : ℝ :=
  √(‖h 0 j‖ ^ 2 + ‖h 1 j‖ ^ 2)

/-- The variable `cos`. -/
noncomputable def cosine (h : Matrix (Fin 2) (Fin 2) ℂ) : ℝ :=
  |(dot h).re| / (columnNorm h 0 * columnNorm h 1)

/-- The angle in degrees. -/
noncomputable def theta (h : Matrix (Fin 2) (Fin 2) ℂ) : ℝ :=
  Real.arccos (cosine h) / Real.pi * 180

/-- `amp(i,round)`, with `w = inv(h)`. -/
noncomputable def amp (h : GL (Fin 2) ℂ) (i : Fin 2) : ℝ :=
  ‖(↑h⁻¹ : Matrix (Fin 2) (Fin 2) ℂ) i 0‖ ^ 2 + ‖(↑h⁻¹ : Matrix (Fin 2) (Fin 2) ℂ) i 1‖ ^ 2

/-- `SNR_simulated` divides by the number of symbols, which is written out. -/
def ModOrder.numSym : ModOrder → ℝ
  | bpsk => 1000
  | qpsk => 500
  | qam => 250

section Snr

variable (m : ModOrder) (L : Link)

/-- `sum_N`. -/
noncomputable def sumN (txData : Bits m m.slots) (n : Matrix (Fin 2) (Fin 1000) ℂ) : ℝ :=
  ∑ i, ‖estimates m L txData n i - modulate m txData i‖ ^ 2

noncomputable def snrSimulated (txData : Bits m m.slots) (n : Matrix (Fin 2) (Fin 1000) ℂ) : ℝ :=
  m.numSym / sumN m L txData n

noncomputable def snrdBSimulated (txData : Bits m m.slots) (n : Matrix (Fin 2) (Fin 1000) ℂ) : ℝ :=
  (10 : ℕ) * Real.logb (10 : ℕ) (snrSimulated m L txData n)

/-- `PrdBm - PndBm`. -/
noncomputable def snrdB (pr : ℝ) : ℝ := Real.logb (10 : ℕ) (pr * 1000) * (10 : ℕ) - -85

end Snr

end Mimo

end NetSystem
