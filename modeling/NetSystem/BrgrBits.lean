import NetSystem.BrgrHandler

/-!
# `b_to_int` in 32-bit arithmetic

`power` and `b_to_int` of `ns_project/packet_capture.cpp` with every result
of an `int` operation checked against the range of the type: `none` stands
for signed overflow, which C++ leaves undefined. A checked computation that
gets through computes what the unchecked one does (`bToInt32_sound`), and
on strings of 0 and 1 it gets through exactly up to length 31
(`bToInt32_bits`, `bToInt32_eq_none`): the exponent of the 32nd bit from
the right already is out of range.
-/

namespace NetSystem

namespace Brgr

/-! ## Checked arithmetic -/

/-- The result of an `int` operation. -/
def int32 (n : Int) : Option Int :=
  if -2147483648 ≤ n ∧ n ≤ 2147483647 then some n else none

def power32 (t : Int) (p : Nat) : Option Int :=
  (List.range p).foldlM (fun k _ => int32 (k * t)) 1

/-- One round of the loop in `b_to_int`. -/
def bToIntStep32 (acc : Int × Nat) (c : Char) : Option (Int × Nat) := do
  let k ← power32 2 acc.2
  let x ← int32 (((c.toNat : Int) - 48) * k)
  let ans ← int32 (acc.1 + x)
  return (ans, acc.2 + 1)

def bToInt32 (s : Str) : Option Str :=
  (s.reverse.foldlM bToIntStep32 (0, 0)).map fun acc => intText acc.1

theorem int32_eq_some {n m : Int} : int32 n = some m ↔
    (-2147483648 ≤ n ∧ n ≤ 2147483647) ∧ n = m := by
  simp [int32]

theorem int32_of_range {n : Int} (h : -2147483648 ≤ n ∧ n ≤ 2147483647) : int32 n = some n :=
  if_pos h

/-- A checked loop that gets through computes what the plain one does. -/
theorem foldlM_sound {α ι : Type*} {f : α → ι → Option α} {g : α → ι → α}
    (h : ∀ a x b, f a x = some b → b = g a x) : ∀ {l : List ι} {a b : α},
    l.foldlM f a = some b → b = l.foldl g a
  | [], a, b, hb => (Option.some.inj hb).symm
  | x :: l, a, b, hb => by
      rw [List.foldlM_cons, Option.bind_eq_bind, Option.bind_eq_some_iff] at hb
      obtain ⟨a', ha', hb⟩ := hb
      rw [List.foldl_cons, ← h a x a' ha']
      exact foldlM_sound h hb

theorem power32_sound {t k : Int} {p : Nat} (h : power32 t p = some k) : k = power t p := by
  refine foldlM_sound (fun a _ b hb => ?_) h
  exact (int32_eq_some.mp hb).2.symm

theorem bToIntStep32_sound {acc acc' : Int × Nat} {c : Char}
    (h : bToIntStep32 acc c = some acc') : acc' = bToIntStep acc c := by
  simp only [bToIntStep32, Option.bind_eq_bind, Option.bind_eq_some_iff, int32_eq_some,
    Option.pure_def, Option.some.injEq] at h
  obtain ⟨k, hk, x, ⟨-, rfl⟩, ans, ⟨-, rfl⟩, rfl⟩ := h
  rw [bToIntStep, power32_sound hk]

theorem bToInt32_sound {s t : Str} (h : bToInt32 s = some t) : t = bToInt s := by
  rw [bToInt32, Option.map_eq_some_iff] at h
  obtain ⟨acc, hacc, rfl⟩ := h
  rw [foldlM_sound (fun a x b hb => bToIntStep32_sound hb) hacc]
  rfl

/-! ## Strings of 0 and 1 -/

/-- The largest power that fits is the 30th. -/
theorem power32_two : ∀ {p : Nat}, p ≤ 30 → power32 2 p = some (2 ^ p)
  | 0, _ => rfl
  | p + 1, hp => by
      have ih := power32_two (show p ≤ 30 by omega)
      rw [power32] at ih ⊢
      rw [List.range_succ, List.foldlM_append, ih, Option.bind_eq_bind, Option.bind_some]
      have hle : (2 : Int) ^ p ≤ 2 ^ 29 := pow_le_pow_right₀ (by norm_num) (by omega)
      have hpos : (0 : Int) < 2 ^ p := pow_pos (by norm_num) p
      have hint : int32 (2 ^ p * 2) = some (2 ^ (p + 1)) := by
        rw [int32_of_range (by omega), pow_succ]
      rw [List.foldlM_cons, hint, Option.bind_eq_bind, Option.bind_some, List.foldlM_nil,
        Option.pure_def]

theorem power32_two_31 : power32 2 31 = none := by decide +kernel

/-- A string of characters 0 and 1. -/
def IsBits (s : Str) : Prop := ∀ ch ∈ s, ch = '0' ∨ ch = '1'

theorem IsBits.tail {ch : Char} {s : Str} (h : IsBits (ch :: s)) : IsBits s :=
  fun c hc => h c (List.mem_cons_of_mem ch hc)

theorem IsBits.head {ch : Char} {s : Str} (h : IsBits (ch :: s)) :
    (ch.toNat : Int) - 48 = 0 ∨ (ch.toNat : Int) - 48 = 1 := by
  rcases h ch List.mem_cons_self with rfl | rfl
  · exact Or.inl rfl
  · exact Or.inr rfl

/-- A bit string is less than the power of its length. -/
theorem bitsVal_range : ∀ {s : Str}, IsBits s → 0 ≤ bitsVal s ∧ bitsVal s < 2 ^ s.length
  | [], _ => by simp [bitsVal]
  | ch :: s, h => by
      obtain ⟨h0, h1⟩ := bitsVal_range h.tail
      rw [bitsVal, List.length_cons, pow_succ]
      rcases h.head with hch | hch <;> rw [hch] <;> omega

/-- It is the number the string denotes in base two. -/
theorem ofDigitChars_bits : ∀ {s : Str} (n : Nat), IsBits s →
    (Nat.ofDigitChars 2 s n : Int) = n * 2 ^ s.length + bitsVal s
  | [], n, _ => by simp [bitsVal]
  | ch :: s, n, h => by
      rw [Nat.ofDigitChars_cons, ofDigitChars_bits _ h.tail, bitsVal, List.length_cons, pow_succ]
      have hsub : ((ch.toNat - 48 : Nat) : Int) = (ch.toNat : Int) - 48 := by
        rcases h.head with hch | hch <;> omega
      push_cast
      rw [hsub]
      ring

/-- One round, as long as there is room for the next bit. -/
theorem bToIntStep32_bits {ch : Char} {s : Str} (h : IsBits (ch :: s)) (hlen : s.length ≤ 30) :
    bToIntStep32 (bitsVal s, s.length) ch = some (bitsVal (ch :: s), (ch :: s).length) := by
  obtain ⟨h0, h1⟩ := bitsVal_range h.tail
  have hle : (2 : Int) ^ s.length ≤ 2 ^ 30 := pow_le_pow_right₀ (by norm_num) hlen
  have hx : int32 (((ch.toNat : Int) - 48) * 2 ^ s.length) =
      some (((ch.toNat : Int) - 48) * 2 ^ s.length) := by
    refine int32_of_range ?_
    rcases h.head with hch | hch <;> rw [hch] <;> omega
  have hans : int32 (bitsVal s + ((ch.toNat : Int) - 48) * 2 ^ s.length) =
      some (bitsVal (ch :: s)) := by
    rw [int32_of_range, bitsVal, add_comm]
    rcases h.head with hch | hch <;> rw [hch] <;> omega
  simp only [bToIntStep32, power32_two hlen, hx, hans, Option.bind_eq_bind, Option.bind_some,
    Option.pure_def, List.length_cons]

theorem foldlM_bToIntStep32 : ∀ {s : Str}, IsBits s → s.length ≤ 31 →
    s.reverse.foldlM bToIntStep32 (0, 0) = some (bitsVal s, s.length)
  | [], _, _ => rfl
  | ch :: s, h, hlen => by
      have hlen : s.length ≤ 30 := Nat.le_of_succ_le_succ hlen
      rw [List.reverse_cons, List.foldlM_append, foldlM_bToIntStep32 h.tail (by omega),
        Option.bind_eq_bind, Option.bind_some, List.foldlM_cons, bToIntStep32_bits h hlen]
      rfl

theorem bToInt32_bits {s : Str} (h : IsBits s) (hlen : s.length ≤ 31) :
    bToInt32 s = some (digits (Nat.ofDigitChars 2 s 0)) := by
  have hval : bitsVal s = (Nat.ofDigitChars 2 s 0 : Int) := by
    rw [ofDigitChars_bits 0 h]
    simp
  rw [bToInt32, foldlM_bToIntStep32 h hlen, Option.map_some, hval]
  rfl

/-- With a 32nd bit from the right there is no way through, whatever the
bit. -/
theorem bToInt32_eq_none {s : Str} (h : IsBits s) (hlen : 31 < s.length) :
    bToInt32 s = none := by
  -- split off the last 31 characters, and the one in front of them
  obtain ⟨pre, ch, post, rfl, hpost⟩ : ∃ pre ch post, s = pre ++ ch :: post ∧
      post.length = 31 := by
    refine ⟨s.take (s.length - 32), s.get ⟨s.length - 32, by omega⟩, s.drop (s.length - 31), ?_,
      by simp; omega⟩
    rw [show s.length - 31 = s.length - 32 + 1 by omega, List.get_eq_getElem,
      List.getElem_cons_drop, List.take_append_drop]
  have hbits : IsBits post := fun c hc =>
    h c (List.mem_append_right _ (List.mem_cons_of_mem _ hc))
  have hstep : bToIntStep32 (bitsVal post, post.length) ch = none := by
    rw [bToIntStep32, hpost, power32_two_31]
    rfl
  rw [bToInt32, List.reverse_append, List.reverse_cons, List.foldlM_append, List.foldlM_append,
    foldlM_bToIntStep32 hbits hpost.le]
  simp [hstep]

/-! ## Ports -/

theorem isBits_append {s t : Str} (hs : IsBits s) (ht : IsBits t) : IsBits (s ++ t) :=
  fun c hc => (List.mem_append.mp hc).elim (hs c) (ht c)

theorem isBits_bits8 (b : UInt8) : IsBits (bits8 b) := by
  intro ch hch
  rw [bits8, List.mem_map] at hch
  obtain ⟨k, -, rfl⟩ := hch
  split
  · exact Or.inr rfl
  · exact Or.inl rfl

theorem bToInt32_two_bytes (a b : UInt8) :
    bToInt32 (bits8 a ++ bits8 b) = some (digits (256 * a.toNat + b.toNat)) := by
  have hbits := isBits_append (isBits_bits8 a) (isBits_bits8 b)
  have hval : (Nat.ofDigitChars 2 (bits8 a ++ bits8 b) 0 : Int) =
      (256 * a.toNat + b.toNat : Nat) := by
    rw [ofDigitChars_bits 0 hbits, bitsVal_append, bitsVal_bits8, bitsVal_bits8, bits8_length]
    push_cast
    ring
  rw [bToInt32_bits hbits (by simp [bits8_length]), Int.ofNat_inj.mp hval]

/-- The conversion in the handler is in range on every packet: the loop
collects at most two bytes. -/
theorem bToInt32_scanPorts (c : Capture) : bToInt32 (scanPorts c c.len).1 = some (dstPort c) := by
  have hbits : IsBits (scanPorts c c.len).1 ∧ (scanPorts c c.len).1.length ≤ 31 := by
    rw [scanPorts_fst]
    split_ifs
    · exact ⟨fun ch hch => absurd hch List.not_mem_nil, by simp⟩
    · exact ⟨isBits_bits8 _, by simp [bits8_length]⟩
    · exact ⟨isBits_append (isBits_bits8 _) (isBits_bits8 _), by simp [bits8_length]⟩
  have h := bToInt32_bits hbits.1 hbits.2
  rw [h, bToInt32_sound h]
  rfl

/-- `b_to_int` on bit strings of up to 31 characters: no overflow, and the
text of the number in base two. What the handler converts is such a string,
on every packet. -/
theorem bToInt32_spec :
    (∀ s : Str, IsBits s → s.length ≤ 31 →
      bToInt32 s = some (digits (Nat.ofDigitChars 2 s 0))) ∧
    bToInt32 [] = some (digits 0) ∧
    (∀ (k : Nat) (s : Str), IsBits s → k + s.length ≤ 31 →
      bToInt32 (List.replicate k '0' ++ s) = bToInt32 s) ∧
    (∀ a b : UInt8,
      bToInt32 (bits8 a ++ bits8 b) = some (digits (256 * a.toNat + b.toNat))) ∧
    ∀ c : Capture, bToInt32 (scanPorts c c.len).1 = some (dstPort c) := by
  refine ⟨fun s => bToInt32_bits, rfl, fun k s h hlen => ?_, bToInt32_two_bytes,
    bToInt32_scanPorts⟩
  have hzeros : IsBits (List.replicate k '0') := fun ch hch => Or.inl (List.eq_of_mem_replicate hch)
  rw [bToInt32_bits (isBits_append hzeros h) (by simpa using hlen), bToInt32_bits h (by omega),
    Nat.ofDigitChars_append, Nat.ofDigitChars_replicate_zero, Nat.mul_zero]

/-- Thirty-one ones make the largest `int`. -/
theorem bToInt32_ones : IsBits (List.replicate 31 '1') ∧
    bToInt32 (List.replicate 31 '1') = some (digits 2147483647) :=
  have h : IsBits (List.replicate 31 '1') := fun _ hch => Or.inr (List.eq_of_mem_replicate hch)
  ⟨h, bToInt32_spec.1 _ h (by simp)⟩

end Brgr

end NetSystem
