import NetSystem.CapFrames

/-!
# The length of the radiotap header

How `MyParser` finds the IEEE 802.11 header of a record: the third byte is
cut out, printed, edited as text and read back as a hexadecimal number. The
text operations are Python's: `str` of a `bytes` object (`bytesRepr`),
`str.replace`, and `int(s, 16)` (`pyInt16`), which raises (`none`) on what is
not a number.

The printed form of a byte is `\xhh` only where it has no shorter one. For
the bytes that print as a character the `b` of the literal is left in front
and is read as a digit, if the whole is a number at all. The field's high
byte is not looked at.
-/

namespace NetSystem

namespace Cap

/-! ## Python's texts -/

/-- A byte inside a `bytes` literal with the given quotes. -/
def reprByte (quote : Char) (b : UInt8) : Str :=
  let c := Char.ofNat b.toNat
  if c = quote ∨ c = '\\' then ['\\', c]
  else if c = '\t' then ['\\', 't']
  else if c = '\n' then ['\\', 'n']
  else if c = '\r' then ['\\', 'r']
  else if b < 0x20 ∨ 0x7f ≤ b then '\\' :: 'x' :: hex2 b
  else [c]

/-- `str(bs)`; double quotes only around single ones. -/
def bytesRepr (bs : List UInt8) : Str :=
  let quote := if 39 ∈ bs ∧ 34 ∉ bs then '"' else '\''
  'b' :: quote :: bs.flatMap (reprByte quote) ++ [quote]

/-- `s.replace(ab, new)` for two characters `ab`. -/
def replacePair (a b : Char) (new : Str) : Str → Str
  | x :: y :: s => if x = a ∧ y = b then new ++ replacePair a b new s
      else x :: replacePair a b new (y :: s)
  | s => s

/-- The ASCII characters `int` strips. -/
def isPySpace (c : Char) : Bool :=
  c = ' ' || (9 ≤ c.toNat && c.toNat ≤ 13) || (28 ≤ c.toNat && c.toNat ≤ 31)

def strip (s : Str) : Str := ((s.dropWhile isPySpace).reverse.dropWhile isPySpace).reverse

def hexDigit? (c : Char) : Option Nat :=
  let n := c.toNat
  if 48 ≤ n ∧ n ≤ 57 then some (n - 48)
  else if 65 ≤ n ∧ n ≤ 70 then some (n - 55)
  else if 97 ≤ n ∧ n ≤ 102 then some (n - 87)
  else none

/-- Digits, with single underscores between them; `afterDigit` says what the
character before was. -/
def hexDigits (acc : Nat) (afterDigit : Bool) : Str → Option Nat
  | [] => if afterDigit then some acc else none
  | c :: s =>
      if c = '_' then if afterDigit then hexDigits acc false s else none
      else (hexDigit? c).bind fun d => hexDigits (16 * acc + d) true s

/-- Behind the sign: an optional prefix, which an underscore may follow. -/
def hexNumber : Str → Option Nat
  | '0' :: x :: s =>
      if x = 'x' ∨ x = 'X' then
        match s with
        | '_' :: t => hexDigits 0 false t
        | t => hexDigits 0 false t
      else hexDigits 0 false ('0' :: x :: s)
  | s => hexDigits 0 false s

/-- `int(s, 16)`. -/
def pyInt16 (s : Str) : Option Int :=
  match strip s with
  | '-' :: t => (hexNumber t).map fun n => -(n : Int)
  | '+' :: t => (hexNumber t).map fun n => (n : Int)
  | t => (hexNumber t).map fun n => (n : Int)

/-! ## `t_len` -/

/-- `str(rawdata[2:3]).replace('\'', '').replace('b\\', '0')`. -/
def tLenText (rawdata : List UInt8) : Str :=
  replacePair 'b' '\\' ['0'] ((bytesRepr ((rawdata.drop 2).take 1)).filter (· ≠ '\''))

def tLen (rawdata : List UInt8) : Option Int := pyInt16 (tLenText rawdata)

/-- The header-length field, as `dpkt` decodes it: 16 bits, low byte first. -/
def radiotapLen (rawdata : List UInt8) : Nat :=
  (rawdata.getD 2 0).toNat + 256 * (rawdata.getD 3 0).toNat

/-- The bytes that are printed as `\xhh`. -/
def HexEscaped (b : UInt8) : Prop := (b < 0x20 ∧ b ≠ 9 ∧ b ≠ 10 ∧ b ≠ 13) ∨ 0x7f ≤ b

instance (b : UInt8) : Decidable (HexEscaped b) := inferInstanceAs (Decidable (_ ∨ _))

/-- Only the third byte is looked at. -/
theorem tLen_eq {rawdata : List UInt8} (h : 4 ≤ rawdata.length) :
    tLen rawdata = tLen [0, 0, rawdata.getD 2 0] := by
  have hcut : (rawdata.drop 2).take 1 = [rawdata.getD 2 0] := by
    rw [List.getD_eq_getElem?_getD, List.getElem?_eq_getElem (by omega), Option.getD_some,
      ← List.getElem_cons_drop (show 2 < rawdata.length by omega)]
    rfl
  rw [tLen, tLen, tLenText, tLenText, hcut]
  rfl

/-- What becomes of a byte: its value, 11 for a blank, a number with first
digit `b` for the sign of a digit, and otherwise a `ValueError`. -/
theorem tLen_byte (b : UInt8) : tLen [0, 0, b] =
    if HexEscaped b then some (b.toNat : Int)
    else if b = 32 then some 11
    else (hexDigit? (Char.ofNat b.toNat)).map fun d : Nat => (16 * 11 + d : Int) := by
  have hall : ∀ n < 256, tLen [0, 0, UInt8.ofNat n] =
      if HexEscaped (UInt8.ofNat n) then some (n : Int)
      else if UInt8.ofNat n = 32 then some 11
      else (hexDigit? (Char.ofNat n)).map fun d : Nat => (16 * 11 + d : Int) := by
    decide +kernel
  have h := hall b.toNat b.toNat_lt
  rwa [UInt8.ofNat_toNat] at h

theorem hexDigit?_eq_some {b : UInt8} {d : Nat} (h : hexDigit? (Char.ofNat b.toNat) = some d) :
    b.toNat = d + 48 ∨ b.toNat = d + 55 ∨ b.toNat = d + 87 := by
  have hchar : ∀ n < 256, (Char.ofNat n).toNat = n := by decide +kernel
  simp only [hexDigit?, hchar b.toNat b.toNat_lt] at h
  split_ifs at h <;> simp only [Option.some.injEq] at h <;> omega

theorem tLen_of_escaped {rawdata : List UInt8} (h : 4 ≤ rawdata.length)
    (h3 : rawdata.getD 3 0 = 0) (h2 : HexEscaped (rawdata.getD 2 0)) :
    tLen rawdata = some (radiotapLen rawdata : Int) := by
  rw [tLen_eq h, tLen_byte, if_pos h2, radiotapLen, h3]
  rfl

/-- `t_len` is the length of the radiotap header exactly if the length is
below 256 and its byte is one that Python prints in hexadecimal. -/
theorem tLen_eq_radiotapLen_iff {rawdata : List UInt8} (h : 4 ≤ rawdata.length) :
    tLen rawdata = some (radiotapLen rawdata : Int) ↔
      rawdata.getD 3 0 = 0 ∧ HexEscaped (rawdata.getD 2 0) := by
  refine ⟨fun heq => ?_, fun hr => tLen_of_escaped h hr.1 hr.2⟩
  rw [tLen_eq h, tLen_byte, radiotapLen] at heq
  split_ifs at heq with hesc hblank
  · have h0 : (rawdata.getD 3 0).toNat = 0 := by
      rw [Option.some.injEq] at heq
      omega
    exact ⟨UInt8.toNat_inj.mp h0, hesc⟩
  · have hval : (32 : UInt8).toNat = 32 := rfl
    rw [hblank, Option.some.injEq] at heq
    omega
  · obtain ⟨d, hd, hval⟩ := Option.map_eq_some_iff.mp heq
    -- modulo 256 the two sides differ by 128, 121 or 89
    rcases hexDigit?_eq_some hd with hb | hb | hb <;> omega

/-- The header of a capture with flags, channel, antenna signal and noise:
24 bytes. -/
theorem tLen_eq_radiotapLen_24 :
    tLen [0, 0, 0x18, 0, 0x6e, 0x48] = some (radiotapLen [0, 0, 0x18, 0, 0x6e, 0x48] : Int) :=
  (tLen_eq_radiotapLen_iff (by decide)).mpr (by decide)

/-- A header of 36 bytes is printed as `b'$'` and raises, one of 32 bytes is
taken for one of 11, and one of 256 for none. -/
theorem tLen_ne_radiotapLen :
    tLen [0, 0, 0x24, 0] = none ∧ radiotapLen [0, 0, 0x24, 0] = 36 ∧
      tLen [0, 0, 0x20, 0] = some 11 ∧ radiotapLen [0, 0, 0x20, 0] = 32 ∧
      tLen [0, 0, 0, 1] = some 0 ∧ radiotapLen [0, 0, 0, 1] = 256 := by
  decide +kernel

end Cap

end NetSystem
