import NetSystem.BitPrefix

/-!
# Prefixes of the routing table

`lib/prefix.c` and `lib/table.c` of quagga, the functions on prefixes that
the table is built on: `prefix_bit`, `prefix_match`, `route_common` and
`route_table_prefix_iter_cmp`. They work on bytes, with masks; `bits` is what
a prefix stands for, its leading `prefixlen` bits, and the specifications
are in terms of these: `prefixMatch_iff`, `routeCommon_spec`, `iterCmp_eq`.

The bits behind `prefixlen` are not looked at, so the prefixes need not be
masked first. All prefixes of a table are of one address family, which is
left out.
-/

namespace NetSystem

namespace RouteTable

open BitPrefix

abbrev Byte := BitVec 8

/-- What a `u_char *` points to. -/
abbrev Bytes := Nat → Byte

structure Prefix where
  prefixlen : Nat
  u : Bytes

/-- `maskbit[i]` -/
def maskbit (i : Nat) : Byte :=
  [0x00, 0x80, 0xc0, 0xe0, 0xf0, 0xf8, 0xfc, 0xfe, 0xff].getD i 0

/-! ## Functions on prefixes -/

def prefixBit (u : Bytes) (prefixlen : Nat) : Bool :=
  let offset := prefixlen / 8
  let shift := 7 - prefixlen % 8
  (u offset >>> shift) &&& 1 = 1

/-- `while (offset--) if (np[offset] != pp[offset]) return 0;` -/
def sameBytes (np pp : Bytes) : Nat → Bool
  | 0 => true
  | offset + 1 => if np offset ≠ pp offset then false else sameBytes np pp offset

def prefixMatch (n p : Prefix) : Bool :=
  if n.prefixlen > p.prefixlen then false
  else
    let offset := n.prefixlen / 8
    let shift := n.prefixlen % 8
    if shift ≠ 0 ∧ maskbit shift &&& (n.u offset ^^^ p.u offset) ≠ 0 then false
    else sameBytes n.u p.u offset

def Bytes.write (u : Bytes) (i : Nat) (b : Byte) : Bytes := fun j => if j = i then b else u j

@[simp] theorem Bytes.write_self (u : Bytes) (i : Nat) (b : Byte) : u.write i b i = b := if_pos rfl

theorem Bytes.write_of_ne (u : Bytes) {i j : Nat} (b : Byte) (h : j ≠ i) : u.write i b j = u j :=
  if_neg h

/-- The first loop of `route_common`: copy equal bytes, up to `k` of them
from byte `i` on. -/
def copyCommon (np pp : Bytes) : Nat → Nat → Bytes → Nat × Bytes
  | 0, i, newp => (i, newp)
  | k + 1, i, newp =>
      if np i = pp i then copyCommon np pp k (i + 1) (newp.write i (np i)) else (i, newp)

/-- The second: count equal bits of a byte, up to `k` of them. -/
def countCommon (diff : Byte) : Nat → Byte → Nat → Nat
  | 0, _, prefixlen => prefixlen
  | k + 1, mask, prefixlen =>
      if mask &&& diff = 0 then countCommon diff k (mask >>> 1) (prefixlen + 1) else prefixlen

/-- The new node comes from `calloc`. -/
def routeCommon (n p : Prefix) : Prefix :=
  let (i, newp) := copyCommon n.u p.u (p.prefixlen / 8) 0 fun _ => 0
  if i * 8 ≠ p.prefixlen then
    let prefixlen := countCommon (n.u i ^^^ p.u i) (p.prefixlen - i * 8) 0x80 (i * 8)
    ⟨prefixlen, newp.write i (n.u i &&& maskbit (prefixlen % 8))⟩
  else ⟨i * 8, newp⟩

/-- `none` is a failed assertion. -/
def iterCmp (p1 p2 : Prefix) : Option Int :=
  if p1.prefixlen ≤ p2.prefixlen ∧ prefixMatch p1 p2 = true then
    some (if p1.prefixlen = p2.prefixlen then 0 else -1)
  else if ¬ p1.prefixlen ≤ p2.prefixlen ∧ prefixMatch p2 p1 = true then some 1
  else
    let common := routeCommon p1 p2
    if common.prefixlen < p1.prefixlen ∧ common.prefixlen < p2.prefixlen then
      if prefixBit p1.u common.prefixlen then
        if prefixBit p2.u common.prefixlen then none else some 1
      else if prefixBit p2.u common.prefixlen then some (-1) else none
    else none

/-! ## Bits -/

def Prefix.bits (p : Prefix) : List Bool := (List.range p.prefixlen).map (prefixBit p.u)

@[simp] theorem Prefix.length_bits (p : Prefix) : p.bits.length = p.prefixlen := by
  simp [bits]

theorem Prefix.getElem?_bits (p : Prefix) (i : Nat) :
    p.bits[i]? = if i < p.prefixlen then some (prefixBit p.u i) else none := by
  rw [bits, List.getElem?_map]
  split
  · rename_i hi
    rw [List.getElem?_range hi]
    rfl
  · rename_i hi
    rw [List.getElem?_eq_none (by simpa using hi)]
    rfl

/-- Bit `i` is bit `i % 8` of its byte, the highest first. -/
theorem prefixBit_eq (u : Bytes) (i : Nat) : prefixBit u i = (u (i / 8)).getMsbD (i % 8) := by
  have hbyte : ∀ (b : Byte) (j : Fin 8), decide ((b >>> (7 - j.val)) &&& 1 = 1) = b.getMsbD j := by
    decide +kernel
  exact hbyte (u (i / 8)) ⟨i % 8, Nat.mod_lt _ (by omega)⟩

theorem getMsbD_maskbit {s : Nat} (hs : s ≤ 8) {j : Nat} (hj : j < 8) :
    (maskbit s).getMsbD j = decide (j < s) := by
  have hall : ∀ s : Fin 9, ∀ j : Fin 8, (maskbit s).getMsbD j = decide (j.val < s.val) := by
    decide +kernel
  exact hall ⟨s, by omega⟩ ⟨j, hj⟩

theorem byte_eq_zero_iff (b : Byte) : b = 0 ↔ ∀ j < 8, b.getMsbD j = false := by
  constructor
  · rintro rfl j -
    simp
  · intro h
    refine BitVec.eq_of_getMsbD_eq fun j hj => ?_
    rw [h j hj]
    simp

/-- A masked comparison is about the leading bits. -/
theorem masked_iff (a b : Byte) {s : Nat} (hs : s ≤ 8) :
    maskbit s &&& (a ^^^ b) = 0 ↔ ∀ j < s, a.getMsbD j = b.getMsbD j := by
  rw [byte_eq_zero_iff]
  constructor
  · intro h j hj
    have hbit := h j (by omega)
    rw [BitVec.getMsbD_and, BitVec.getMsbD_xor, getMsbD_maskbit hs (by omega), decide_eq_true hj,
      Bool.true_and] at hbit
    simpa using hbit
  · intro h j hj
    rw [BitVec.getMsbD_and, BitVec.getMsbD_xor, getMsbD_maskbit hs hj]
    by_cases hjs : j < s
    · simp [h j hjs]
    · simp [hjs]

theorem sameBytes_iff (np pp : Bytes) (k : Nat) :
    sameBytes np pp k = true ↔ ∀ i < k, np i = pp i := by
  induction k with
  | zero => simp [sameBytes]
  | succ k ih =>
      rw [sameBytes]
      by_cases heq : np k = pp k
      · rw [if_neg (by simpa using heq), ih]
        constructor
        · intro h i hi
          rcases Nat.lt_succ_iff_lt_or_eq.mp hi with hlt | rfl
          · exact h i hlt
          · exact heq
        · intro h i hi
          exact h i (by omega)
      · rw [if_pos heq]
        exact iff_of_false (by simp) fun h => heq (h k (by omega))

/-- Equal bytes are equal bits. -/
theorem byte_eq_iff (a b : Byte) : a = b ↔ ∀ j < 8, a.getMsbD j = b.getMsbD j :=
  ⟨by rintro rfl _ _; rfl, fun h => BitVec.eq_of_getMsbD_eq h⟩

/-- The bits up to `k` agree. -/
def Agree (np pp : Bytes) (k : Nat) : Prop := ∀ i < k, prefixBit np i = prefixBit pp i

theorem agree_bytes_iff (np pp : Bytes) (k : Nat) :
    Agree np pp (k * 8) ↔ ∀ i < k, np i = pp i := by
  constructor
  · intro h i hi
    rw [byte_eq_iff]
    intro j hj
    have hbit := h (i * 8 + j) (by omega)
    rw [prefixBit_eq, prefixBit_eq] at hbit
    have hdiv : (i * 8 + j) / 8 = i := by omega
    have hmod : (i * 8 + j) % 8 = j := by omega
    rwa [hdiv, hmod] at hbit
  · intro h i hi
    rw [prefixBit_eq, prefixBit_eq, h (i / 8) (by omega)]

/-- Whole bytes and the leading bits of the next. -/
theorem agree_iff (np pp : Bytes) (i s : Nat) (hs : s ≤ 8) :
    Agree np pp (i * 8 + s) ↔
      (∀ k < i, np k = pp k) ∧ ∀ j < s, (np i).getMsbD j = (pp i).getMsbD j := by
  rw [← agree_bytes_iff]
  constructor
  · intro h
    refine ⟨fun k hk => h k (by omega), fun j hj => ?_⟩
    have hbit := h (i * 8 + j) (by omega)
    rw [prefixBit_eq, prefixBit_eq] at hbit
    have hdiv : (i * 8 + j) / 8 = i := by omega
    have hmod : (i * 8 + j) % 8 = j := by omega
    rwa [hdiv, hmod] at hbit
  · rintro ⟨hbytes, hbits⟩ k hk
    by_cases hlow : k < i * 8
    · exact hbytes k hlow
    · have hdiv : k / 8 = i := by omega
      rw [prefixBit_eq, prefixBit_eq, hdiv]
      exact hbits (k % 8) (by omega)

theorem bits_prefix_iff {n p : Prefix} :
    n.bits <+: p.bits ↔ n.prefixlen ≤ p.prefixlen ∧ Agree n.u p.u n.prefixlen := by
  rw [List.prefix_iff_getElem?]
  constructor
  · intro h
    have hlen : n.prefixlen ≤ p.prefixlen := by
      by_contra hlt
      have hget := h p.prefixlen (by simpa using hlt)
      rw [p.getElem?_bits, if_neg (by omega)] at hget
      cases hget
    refine ⟨hlen, fun i hi => ?_⟩
    have hget := h i (by simpa using hi)
    rw [← List.getElem?_eq_getElem, n.getElem?_bits, p.getElem?_bits, if_pos hi,
      if_pos (by omega)] at hget
    exact (Option.some.inj hget).symm
  · rintro ⟨hlen, hagree⟩ i hi
    rw [n.length_bits] at hi
    rw [← List.getElem?_eq_getElem, n.getElem?_bits, p.getElem?_bits, if_pos hi,
      if_pos (by omega), hagree i hi]

/-- **`prefix_match`** -/
theorem prefixMatch_iff {n p : Prefix} : prefixMatch n p = true ↔ n.bits <+: p.bits := by
  rw [bits_prefix_iff, prefixMatch]
  split
  · exact iff_of_false (by simp) fun h => by omega
  · rename_i hlen
    have hsplit : n.prefixlen / 8 * 8 + n.prefixlen % 8 = n.prefixlen := by omega
    have hagree := agree_iff n.u p.u (n.prefixlen / 8) (n.prefixlen % 8) (by omega)
    rw [hsplit] at hagree
    rw [hagree, ← masked_iff _ _ (by omega), and_iff_right (by omega)]
    by_cases hshift : n.prefixlen % 8 = 0
    · have hnone : maskbit 0 = 0 := rfl
      simp [hshift, hnone, sameBytes_iff]
    · simp [hshift, sameBytes_iff, and_comm]

/-! ## Common prefixes -/

theorem copyCommon_spec (np pp : Bytes) : ∀ (k i : Nat) (newp : Bytes),
    let r := copyCommon np pp k i newp
    i ≤ r.1 ∧ r.1 ≤ i + k ∧ (∀ x, i ≤ x → x < r.1 → np x = pp x) ∧
      (r.1 < i + k → np r.1 ≠ pp r.1) ∧
      ∀ x, r.2 x = if i ≤ x ∧ x < r.1 then np x else newp x
  | 0, i, newp => by
      refine ⟨le_rfl, le_rfl, fun x h h' => absurd h' (by simp [copyCommon]; omega),
        by simp [copyCommon], fun x => ?_⟩
      rw [if_neg (by simp only [copyCommon]; omega)]
      rfl
  | k + 1, i, newp => by
      by_cases heq : np i = pp i
      · obtain ⟨hge, hle, hsame, hdiff, hcopy⟩ :=
          copyCommon_spec np pp k (i + 1) (newp.write i (np i))
        simp only [copyCommon, heq, if_true] at hge hle hsame hdiff hcopy ⊢
        refine ⟨by omega, by omega, fun x hx hx' => ?_, fun h => hdiff (by omega), fun x => ?_⟩
        · rcases Nat.eq_or_lt_of_le hx with rfl | hlt
          · exact heq
          · exact hsame x hlt hx'
        · rw [hcopy x]
          by_cases hxi : x = i
          · subst hxi
            rw [if_neg (by omega), if_pos ⟨le_rfl, by omega⟩, Bytes.write_self, heq]
          · by_cases hx : i + 1 ≤ x ∧ x < (copyCommon np pp k (i + 1) (newp.write i (pp i))).1
            · rw [if_pos hx, if_pos ⟨by omega, hx.2⟩]
            · rw [if_neg hx, if_neg (by omega), Bytes.write_of_ne _ _ hxi]
      · simp only [copyCommon, heq, if_false]
        refine ⟨le_rfl, by omega, fun x h h' => absurd h' (by omega), fun _ => heq, fun x => ?_⟩
        rw [if_neg (by omega)]

theorem mask_shift_iff (b : Byte) (m : Nat) :
    ((0x80 : Byte) >>> m) &&& b = 0 ↔ b.getMsbD m = false := by
  by_cases hm : m < 8
  · have hall : ∀ (b : Byte) (m : Fin 8), (((0x80 : Byte) >>> m.val) &&& b = 0) ↔
        b.getMsbD m = false := by decide +kernel
    exact hall b ⟨m, hm⟩
  · have hzero : (0x80 : Byte) >>> m = 0 := BitVec.ushiftRight_eq_zero (by omega)
    rw [hzero, BitVec.getMsbD_of_ge b m (by omega)]
    simp

theorem countCommon_spec (diff : Byte) : ∀ (k m len : Nat), ∃ c,
    countCommon diff k ((0x80 : Byte) >>> m) len = len + c ∧ c ≤ k ∧
      (∀ j < c, diff.getMsbD (m + j) = false) ∧ (c < k → diff.getMsbD (m + c) = true)
  | 0, m, len => ⟨0, rfl, le_rfl, by simp, by simp⟩
  | k + 1, m, len => by
      rw [countCommon]
      cases hbit : diff.getMsbD m with
      | true =>
          rw [if_neg (by rw [mask_shift_iff, hbit]; simp)]
          exact ⟨0, rfl, by omega, by simp, fun _ => hbit⟩
      | false =>
          obtain ⟨c, heq, hle, hsame, hdiff⟩ := countCommon_spec diff k (m + 1) (len + 1)
          rw [if_pos ((mask_shift_iff _ _).mpr hbit), ← BitVec.shiftRight_add, heq]
          refine ⟨c + 1, by omega, by omega, fun j hj => ?_, fun hc => ?_⟩
          · cases j with
            | zero => exact hbit
            | succ j =>
                have := hsame j (by omega)
                rwa [show m + 1 + j = m + (j + 1) by omega] at this
          · have := hdiff (by omega)
            rwa [show m + 1 + c = m + (c + 1) by omega] at this

/-- What `route_common` finds: the bits up to where the first prefix and the
second part, or all of the second. -/
structure IsCommon (n p c : Prefix) : Prop where
  len_le : c.prefixlen ≤ p.prefixlen
  agree : Agree n.u p.u c.prefixlen
  parts : c.prefixlen < p.prefixlen → prefixBit n.u c.prefixlen ≠ prefixBit p.u c.prefixlen
  copied : Agree c.u p.u c.prefixlen

/-- The last byte of the common prefix. -/
theorem isCommon_masked {n p : Prefix} {i c : Nat} {newp : Bytes} (hc : c < 8)
    (hle : i * 8 + c ≤ p.prefixlen) (hbytes : ∀ x < i, n.u x = p.u x)
    (hsame : ∀ j < c, (n.u i).getMsbD j = (p.u i).getMsbD j)
    (hdiff : i * 8 + c < p.prefixlen → (n.u i).getMsbD c ≠ (p.u i).getMsbD c)
    (hcopy : ∀ x < i, newp x = n.u x) :
    IsCommon n p ⟨i * 8 + c, newp.write i (n.u i &&& maskbit c)⟩ := by
  have hdiv : (i * 8 + c) / 8 = i := by omega
  have hmod : (i * 8 + c) % 8 = c := by omega
  refine ⟨hle, (agree_iff _ _ i c (by omega)).mpr ⟨hbytes, hsame⟩, fun hlt => ?_, ?_⟩
  · rw [prefixBit_eq, prefixBit_eq, hdiv, hmod]
    exact hdiff hlt
  · refine (agree_iff _ _ i c (by omega)).mpr ⟨fun x hx => ?_, fun j hj => ?_⟩
    · exact (Bytes.write_of_ne _ _ (by omega)).trans ((hcopy x hx).trans (hbytes x hx))
    · dsimp only
      rw [Bytes.write_self, BitVec.getMsbD_and, getMsbD_maskbit (by omega) (by omega),
        decide_eq_true hj, Bool.and_true, hsame j hj]

/-- **`route_common`** -/
theorem routeCommon_spec (n p : Prefix) : IsCommon n p (routeCommon n p) := by
  have hloop := copyCommon_spec n.u p.u (p.prefixlen / 8) 0 fun _ => 0
  rw [routeCommon]
  generalize copyCommon n.u p.u (p.prefixlen / 8) 0 (fun _ => 0) = r at hloop
  obtain ⟨i, newp⟩ := r
  obtain ⟨-, hle, hbytes, hdiff, hcopy⟩ := hloop
  simp only [Nat.zero_le, true_and, Nat.zero_add, true_imp_iff] at hle hbytes hdiff hcopy ⊢
  split
  · rename_i hne
    obtain ⟨c, hcount, hck, hsame, hend⟩ :=
      countCommon_spec (n.u i ^^^ p.u i) (p.prefixlen - i * 8) 0 (i * 8)
    simp only [BitVec.ushiftRight_zero, Nat.zero_add, BitVec.getMsbD_xor] at hcount hsame hend
    have hbits : ∀ j < c, (n.u i).getMsbD j = (p.u i).getMsbD j := by
      intro j hj
      simpa using hsame j hj
    -- a byte that differs has a bit that does, and the last byte is not full
    have hc : c < 8 := by
      rcases Nat.eq_or_lt_of_le hle with heq | hlt
      · omega
      · by_contra hge
        refine hdiff hlt ((byte_eq_iff _ _).mpr fun j hj => hbits j (by omega))
    rw [hcount, show (i * 8 + c) % 8 = c by omega]
    refine isCommon_masked hc (by omega) hbytes hbits (fun hlt => ?_) fun x hx => ?_
    · have hbit := hend (by omega)
      simpa using hbit
    · rw [hcopy x, if_pos hx]
  · rename_i heq
    rw [not_not] at heq
    have hagree : Agree n.u p.u (i * 8) := (agree_bytes_iff _ _ i).mpr hbytes
    refine ⟨heq.le, hagree, fun hlt => absurd hlt (by simp [heq]), ?_⟩
    refine (agree_bytes_iff _ _ i).mpr fun x hx => ?_
    exact (hcopy x).trans ((if_pos hx).trans (hbytes x hx))

theorem bits_snoc_prefix_iff {c n : Prefix} {x : Bool} (h : c.bits <+: n.bits)
    (hlt : c.prefixlen < n.prefixlen) :
    c.bits ++ [x] <+: n.bits ↔ prefixBit n.u c.prefixlen = x := by
  rw [snoc_prefix_iff h (by simpa using hlt), c.length_bits, n.getElem?_bits, if_pos hlt,
    Option.some.injEq]

theorem IsCommon.prefix_right {n p c : Prefix} (h : IsCommon n p c) : c.bits <+: p.bits :=
  bits_prefix_iff.mpr ⟨h.len_le, h.copied⟩

theorem IsCommon.prefix_left {n p c : Prefix} (h : IsCommon n p c)
    (hc : c.prefixlen ≤ n.prefixlen) : c.bits <+: n.bits :=
  bits_prefix_iff.mpr ⟨hc, fun i hi => (h.copied i hi).trans (h.agree i hi).symm⟩

/-- Behind their common prefix the two part. -/
theorem IsCommon.parts_of {n p c : Prefix} (h : IsCommon n p c) (hn : c.prefixlen < n.prefixlen)
    (hp : c.prefixlen < p.prefixlen) :
    Parts c.bits (prefixBit n.u c.prefixlen) n.bits p.bits := by
  refine ⟨(bits_snoc_prefix_iff (h.prefix_left hn.le) hn).mpr rfl,
    (bits_snoc_prefix_iff h.prefix_right hp).mpr ?_⟩
  have hne := h.parts hp
  revert hne
  cases prefixBit n.u c.prefixlen <;> cases prefixBit p.u c.prefixlen <;> simp

/-- The common prefix is shorter than a prefix that does not match. -/
theorem IsCommon.lt_left {n p c : Prefix} (h : IsCommon n p c)
    (hno : ¬ (n.prefixlen ≤ p.prefixlen ∧ prefixMatch n p = true)) :
    c.prefixlen < n.prefixlen := by
  by_contra hge
  rw [not_lt] at hge
  have hlen : n.prefixlen ≤ p.prefixlen := hge.trans h.len_le
  refine hno ⟨hlen, prefixMatch_iff.mpr (bits_prefix_iff.mpr ⟨hlen, fun i hi => ?_⟩)⟩
  exact h.agree i (by omega)

/-- **`route_table_prefix_iter_cmp`** is the lexicographic order, and none of
its assertions fails. -/
theorem iterCmp_eq (p1 p2 : Prefix) : iterCmp p1 p2 = some
    (if p1.bits = p2.bits then 0 else if p1.bits < p2.bits then -1 else 1) := by
  have hcommon := routeCommon_spec p1 p2
  have hmatch₁ := prefixMatch_iff (n := p1) (p := p2)
  have hmatch₂ := prefixMatch_iff (n := p2) (p := p1)
  rw [iterCmp]
  split
  · rename_i h
    have hpre := hmatch₁.mp h.2
    by_cases hlen : p1.prefixlen = p2.prefixlen
    · rw [if_pos hlen, if_pos (hpre.eq_of_length (by simpa using hlen))]
    · have hne : p1.bits ≠ p2.bits := fun heq => hlen (by simpa using congrArg List.length heq)
      rw [if_neg hlen, if_neg hne, if_pos (prefix_lt hpre hne)]
  · rename_i hno₁
    split
    · rename_i h
      have hpre := hmatch₂.mp h.2
      have hne : p2.bits ≠ p1.bits := by
        intro heq
        have hlen : p2.prefixlen = p1.prefixlen := by simpa using congrArg List.length heq
        exact h.1 hlen.ge
      rw [if_neg (Ne.symm hne), if_neg (prefix_lt hpre hne).not_gt]
    · rename_i hno₂
      have hlt₁ := hcommon.lt_left hno₁
      have hlt₂ : (routeCommon p1 p2).prefixlen < p2.prefixlen := by
        by_contra hge
        have hlen : p2.prefixlen ≤ (routeCommon p1 p2).prefixlen := not_lt.mp hge
        refine hno₂ ⟨by omega, hmatch₂.mpr (bits_prefix_iff.mpr ⟨by omega, fun i hi => ?_⟩)⟩
        exact (hcommon.agree i (by omega)).symm
      have hparts := hcommon.parts_of hlt₁ hlt₂
      have hne : p1.bits ≠ p2.bits := fun heq => hparts.not_prefix (heq ▸ List.prefix_refl _)
      have hother := hcommon.parts hlt₂
      rw [if_pos ⟨hlt₁, hlt₂⟩, if_neg hne]
      by_cases hless : p1.bits < p2.bits
      · have hbit := hparts.lt_iff.mp hless
        rw [hbit] at hother ⊢
        rw [if_neg (by simp), if_pos (by simpa using hother.symm), if_pos hless]
      · have hbit : prefixBit p1.u (routeCommon p1 p2).prefixlen = true := by
          by_contra hzero
          exact hless (hparts.lt_iff.mpr (by simpa using hzero))
        rw [hbit] at hother ⊢
        rw [if_pos rfl, if_neg (by simpa using hother.symm), if_neg hless]

end RouteTable

end NetSystem
