import NetSystem.CapFrames
import NetSystem.GreHandler
import NetSystem.IpFrames

/-!
# Decoding a GRE packet

The console output of `lab4/packet_capture.cpp` for the part of a packet
behind the outer IP header. `packetHandler` takes both headers in front of
the inner frame to have their shortest form, 20 and 4 bytes, and knows
"Transparent Ethernet Bridging" by the decimal values of two bytes written
one after the other, `"101" + "88"`, which `"10" + "188"` matches as well.
-/

namespace NetSystem

namespace Gre

open Brgr (Capture Ipv4 Mac EtherFrame GrePacket natHeader be16 hiByte loByte hiByte_loByte
  byte_injective)
open Cap (hex2)

/-! ## The output of the handler -/

/-- `%x` of a byte. -/
def hex (b : UInt8) : Str := Nat.toDigits 16 b.toNat

/-- `ether_ntoa`. -/
def etherNtoa (m : Mac) : Str :=
  hex m.a ++ ':' :: hex m.b ++ ':' :: hex m.c ++ ':' :: hex m.d ++ ':' :: hex m.e ++ ':' :: hex m.f

/-- The local string `type`. -/
def greTypeDigits (c : Capture) : Str :=
  digits (c.packet 36).toNat ++ digits (c.packet 37).toNat

/-- What follows `GRE type: `. -/
def greType (c : Capture) : Str :=
  if greTypeDigits c = "10188".toList then "Transparent Ethernet Bridging".toList
  else ' ' :: hex2 (c.packet 34) ++ ' ' :: hex2 (c.packet 35) ++ ' ' :: hex2 (c.packet 36) ++
    ' ' :: hex2 (c.packet 37)

/-- What follows `Inner Ethernet type: `. -/
def innerType (n : Nat) : Str :=
  if n = 2048 then "IPv4".toList
  else if n = 2054 then "ARP".toList
  else if n = 34525 then "IPv6".toList
  else digits n

/-- The lines about an inner frame with these fields. -/
def innerLines (shost dhost : Mac) (type : Nat) (src dst : Ipv4) : List Str :=
  ["Inner Source MAC: ".toList ++ etherNtoa shost,
   "Inner Destination MAC: ".toList ++ etherNtoa dhost,
   "Inner Ethernet type: ".toList ++ innerType type] ++
    if type = 2048 then ["Inner Src IP ".toList ++ src.text, "Inner Dst IP ".toList ++ dst.text]
    else []

/-- `struct ether_addr` and `struct in_addr` at an offset. -/
def macAt (c : Capture) (i : Nat) : Mac :=
  ⟨c.packet i, c.packet (i + 1), c.packet (i + 2), c.packet (i + 3), c.packet (i + 4),
   c.packet (i + 5)⟩

def ipAt (c : Capture) (i : Nat) : Ipv4 :=
  ⟨c.packet i, c.packet (i + 1), c.packet (i + 2), c.packet (i + 3)⟩

/-- The lines the handler prints: the inner Ethernet header is at 38, the
inner IP header at 52. -/
def printedLines (c : Capture) : List Str :=
  innerLines (macAt c 44) (macAt c 38) (be16 c 50) (ipAt c 64) (ipAt c 68)

/-- The packet is shown as what it is. -/
def Decodes (g : GrePacket) (mem : Nat → UInt8) : Prop :=
  (greType (g.capture mem) = "Transparent Ethernet Bridging".toList ↔
    g.protoType.toNat = 0x6558) ∧
  printedLines (g.capture mem) =
    innerLines g.inner.src g.inner.dst g.inner.etherType.toNat g.inner.srcIp g.inner.dstIp

/-! ## The texts determine the fields -/

def unhex (s : Str) : Nat :=
  s.foldl (fun n ch => n * 16 + (if ch.isDigit then ch.toNat - 48 else ch.toNat - 87)) 0

theorem hex_injective : Function.Injective hex := by
  have hunhex : ∀ n < 256, unhex (Nat.toDigits 16 n) = n := by decide +kernel
  exact byte_injective hunhex

theorem colon_notMem_hex (b : UInt8) : ':' ∉ hex b := by
  have hcolon : ∀ n < 256, ':' ∉ Nat.toDigits 16 n := by decide +kernel
  exact hcolon b.toNat b.toNat_lt

theorem etherNtoa_injective : Function.Injective etherNtoa := by
  rintro ⟨a, b, c, d, e, f⟩ ⟨a', b', c', d', e', f'⟩ h
  simp only [etherNtoa, List.append_assoc, List.cons_append] at h
  obtain ⟨ha, h⟩ := append_sep_inj (colon_notMem_hex _) (colon_notMem_hex _) h
  obtain ⟨hb, h⟩ := append_sep_inj (colon_notMem_hex _) (colon_notMem_hex _) h
  obtain ⟨hc, h⟩ := append_sep_inj (colon_notMem_hex _) (colon_notMem_hex _) h
  obtain ⟨hd, h⟩ := append_sep_inj (colon_notMem_hex _) (colon_notMem_hex _) h
  obtain ⟨he, hf⟩ := append_sep_inj (colon_notMem_hex _) (colon_notMem_hex _) h
  rw [hex_injective ha, hex_injective hb, hex_injective hc, hex_injective hd, hex_injective he,
    hex_injective hf]

/-- The EtherType back from its text; the three names are not numbers. -/
def readType (s : Str) : Nat :=
  if s = "IPv4".toList then 2048
  else if s = "ARP".toList then 2054
  else if s = "IPv6".toList then 34525
  else Nat.ofDigitChars 10 s 0

theorem readType_innerType (n : Nat) : readType (innerType n) = n := by
  have hname : ∀ (ch : Char) {s : Str}, ch.isDigit = false → ch ∈ s → digits n ≠ s :=
    fun ch s hch hmem heq => by
      rw [← heq] at hmem
      rw [isDigit_of_mem_digits hmem] at hch
      cases hch
  unfold innerType
  split_ifs with h1 h2 h3
  · rw [h1]; decide +kernel
  · rw [h2]; decide +kernel
  · rw [h3]; decide +kernel
  · rw [readType, if_neg (hname 'v' rfl (by decide +kernel)),
      if_neg (hname 'A' rfl (by decide +kernel)),
      if_neg (hname 'v' rfl (by decide +kernel))]
    exact Nat.ofDigitChars_ten_toDigits

theorem innerLines_eq_iff {s s' d d' : Mac} {n n' : Nat} {a a' b b' : Ipv4} :
    innerLines s d n a b = innerLines s' d' n' a' b' ↔
      s = s' ∧ d = d' ∧ n = n' ∧ (n = 2048 → a = a' ∧ b = b') := by
  constructor
  · intro h
    obtain ⟨hhead, htail⟩ := List.append_inj h rfl
    rw [List.cons.injEq, List.cons.injEq, List.cons.injEq] at hhead
    obtain ⟨hs, hd, hn, -⟩ := hhead
    have hn : n = n' := by
      have htype := congrArg readType (List.append_cancel_left hn)
      rwa [readType_innerType, readType_innerType] at htype
    refine ⟨etherNtoa_injective (List.append_cancel_left hs),
      etherNtoa_injective (List.append_cancel_left hd), hn, fun h4 => ?_⟩
    rw [← hn, if_pos h4, if_pos h4, List.cons.injEq, List.cons.injEq] at htail
    obtain ⟨ha, hb, -⟩ := htail
    exact ⟨Ipv4.text_injective (List.append_cancel_left ha),
      Ipv4.text_injective (List.append_cancel_left hb)⟩
  · rintro ⟨rfl, rfl, rfl, hip⟩
    unfold innerLines
    split_ifs with h4
    · obtain ⟨rfl, rfl⟩ := hip h4
      rfl
    · rfl

/-- The two pairs of bytes the handler takes for the type 0x6558. -/
theorem greTypeDigits_eq_iff (c : Capture) :
    greTypeDigits c = "10188".toList ↔ be16 c 36 = 0x6558 ∨ be16 c 36 = 0x0ABC := by
  have hfirst : ∀ m < 256, digits m <+: ['1', '0', '1', '8', '8'] → m = 1 ∨ m = 10 ∨ m = 101 := by
    decide +kernel
  have hzero : ∀ n < 256, digits n ≠ ['0', '1', '8', '8'] := by decide +kernel
  have h101 : digits 101 = ['1', '0', '1'] := by decide +kernel
  have h88 : digits 88 = ['8', '8'] := by decide +kernel
  have h10 : digits 10 = ['1', '0'] := by decide +kernel
  have h188 : digits 188 = ['1', '8', '8'] := by decide +kernel
  have htext : "10188".toList = ['1', '0', '1', '8', '8'] := by decide +kernel
  have h36 := (c.packet 36).toNat_lt
  have h37 := (c.packet 37).toNat_lt
  rw [greTypeDigits, htext, be16]
  generalize (c.packet 36).toNat = m at *
  generalize (c.packet (36 + 1)).toNat = n at *
  constructor
  · intro h
    rcases hfirst m h36 ⟨_, h⟩ with rfl | rfl | rfl
    · have hn : digits n = ['0', '1', '8', '8'] := (List.cons.inj h).2
      exact absurd hn (hzero n h37)
    · rw [h10] at h
      have hn : n = 188 := digits_injective (by simpa [h188] using h)
      omega
    · rw [h101] at h
      have hn : n = 88 := digits_injective (by simpa [h88] using h)
      omega
  · rintro (h | h)
    · obtain ⟨rfl, rfl⟩ : m = 101 ∧ n = 88 := by omega
      rw [h101, h88]
      rfl
    · obtain ⟨rfl, rfl⟩ : m = 10 ∧ n = 188 := by omega
      rw [h10, h188]
      rfl

theorem greType_eq_iff (c : Capture) :
    greType c = "Transparent Ethernet Bridging".toList ↔
      be16 c 36 = 0x6558 ∨ be16 c 36 = 0x0ABC := by
  have hhead : "Transparent Ethernet Bridging".toList.head? = some 'T' := by decide +kernel
  rw [← greTypeDigits_eq_iff, greType]
  split
  · next h => simp [h]
  · next h =>
      refine iff_of_false (fun heq => ?_) h
      rw [← heq] at hhead
      cases hhead

/-! ## Where the inner frame is -/

/-- The bytes at the offsets of the handler are those of the inner frame. -/
def InPlace (g : GrePacket) : Prop :=
  (g.bytes.drop 38).take 14 = g.inner.header ∧
    (g.inner.etherType.toNat = 2048 →
      (g.bytes.drop 64).take 8 = (g.inner.body.drop 12).take 8)

/-- The type at the offset of the handler. -/
def typeInPlace (g : GrePacket) : Nat := (g.bytes.getD 36 0).toNat * 256 + (g.bytes.getD 37 0).toNat

section Packet

variable {g : GrePacket} {mem : Nat → UInt8}

theorem be16_capture (mem : Nat → UInt8) : be16 (g.capture mem) 36 = typeInPlace g := by
  have hlen := g.bytes_length
  have hpacket : ∀ i < 52, (g.capture mem).packet i = g.bytes.getD i 0 := fun i hi => by
    have happ : (Capture.whole (g.bytes ++ []) mem).packet i = g.bytes.getD i 0 :=
      Capture.whole_packet_left (by omega)
    rwa [List.append_nil] at happ
  rw [be16, hpacket 36 (by omega), hpacket 37 (by omega), typeInPlace]

theorem be16_eq_iff {c : Capture} {i n : Nat} (h : n < 65536) :
    be16 c i = n ↔ c.packet i = hiByte n ∧ c.packet (i + 1) = loByte n := by
  have hn := hiByte_loByte h
  have hlo := (loByte n).toNat_lt
  have hp := (c.packet (i + 1)).toNat_lt
  rw [be16, ← UInt8.toNat_inj, ← UInt8.toNat_inj]
  omega

theorem header_inPlace_iff (mem : Nat → UInt8) :
    (g.bytes.drop 38).take 14 = g.inner.header ↔ macAt (g.capture mem) 44 = g.inner.src ∧
      macAt (g.capture mem) 38 = g.inner.dst ∧
      be16 (g.capture mem) 50 = g.inner.etherType.toNat := by
  have hlen := g.bytes_length
  have hfield : (g.bytes.drop 38).take 14 =
      (List.range 14).map fun j => (g.capture mem).packet (38 + j) :=
    (Capture.whole_field (by omega)).symm
  rw [hfield, be16_eq_iff g.inner.etherType.toNat_lt]
  obtain ⟨dst, src, type, body, hip⟩ := g.inner
  obtain ⟨a, b, c, d, e, f⟩ := dst
  obtain ⟨a', b', c', d', e', f'⟩ := src
  simp only [List.range_succ, List.range_zero, EtherFrame.header, macAt, Mac.mk.injEq,
    List.map_cons, List.map_nil, List.cons_append, List.nil_append,
    List.cons.injEq, and_true]
  grind

theorem addresses_inPlace_iff (mem : Nat → UInt8) (h : g.inner.etherType.toNat = 2048) :
    (g.bytes.drop 64).take 8 = (g.inner.body.drop 12).take 8 ↔
      ipAt (g.capture mem) 64 = g.inner.srcIp ∧ ipAt (g.capture mem) 68 = g.inner.dstIp := by
  have hlen := g.bytes_length
  have hbody := g.inner.ip_header h
  have hfield : (g.bytes.drop 64).take 8 =
      (List.range 8).map fun j => (g.capture mem).packet (64 + j) :=
    (Capture.whole_field (by omega)).symm
  have hinner : (g.inner.body.drop 12).take 8 =
      (List.range 8).map fun j => (Capture.whole g.inner.body fun _ => 0).packet (12 + j) :=
    (Capture.whole_field (by omega)).symm
  rw [hfield, hinner]
  simp only [List.range_succ, List.range_zero, EtherFrame.srcIp, EtherFrame.dstIp, ipAt,
    Capture.whole, Ipv4.mk.injEq, List.map_cons, List.map_nil, List.cons_append, List.nil_append,
    List.cons.injEq, and_true]
  grind

theorem decodes_iff : Decodes g mem ↔
    (typeInPlace g = 0x6558 ∨ typeInPlace g = 0x0ABC ↔ g.protoType.toNat = 0x6558) ∧
      InPlace g := by
  rw [Decodes, greType_eq_iff, be16_capture, printedLines, innerLines_eq_iff]
  refine and_congr_right fun _ => ?_
  rw [InPlace, header_inPlace_iff mem]
  constructor
  · rintro ⟨hsrc, hdst, htype, hip⟩
    refine ⟨⟨hsrc, hdst, htype⟩, fun h => ?_⟩
    exact (addresses_inPlace_iff mem h).mpr (hip (htype.trans h))
  · rintro ⟨⟨hsrc, hdst, htype⟩, hip⟩
    refine ⟨hsrc, hdst, htype, fun h => ?_⟩
    have h4 := htype.symm.trans h
    exact (addresses_inPlace_iff mem h4).mp (hip h4)

/-- A packet with both headers in their shortest form has everything in its
place. -/
theorem inPlace_of_plain (ho : g.options = []) (he : g.extras = []) : InPlace g := by
  have hdrop := GrePacket.drop_of_plain ho he
  refine ⟨?_, fun h => ?_⟩
  · rw [hdrop]
    exact List.take_left' rfl
  · have hbody := g.inner.ip_header h
    have hdrop64 : g.bytes.drop 64 = (g.bytes.drop 38).drop 26 := by rw [List.drop_drop]
    rw [hdrop64, hdrop, List.drop_append, List.drop_of_length_le (by simp [EtherFrame.header]),
      List.nil_append]
    have hlen : 26 - g.inner.header.length = 12 := rfl
    rw [hlen, List.drop_append_of_le_length (by omega),
      List.take_append_of_le_length (by simp; omega)]

end Packet

/-- **GRE decoding.** A packet whose IP and GRE headers have their shortest
form is shown right unless its type is 0x0ABC; any other one only if the
bytes at the offsets of the handler happen to be right. -/
theorem gre_decoding_iff (g : GrePacket) (mem : Nat → UInt8) :
    Decodes g mem ↔
      (g.options = [] ∧ g.extras = [] ∧ g.protoType.toNat ≠ 0x0ABC) ∨
      ((g.options ≠ [] ∨ g.extras ≠ []) ∧
        (typeInPlace g = 0x6558 ∨ typeInPlace g = 0x0ABC ↔ g.protoType.toNat = 0x6558) ∧
        InPlace g) := by
  rw [decodes_iff]
  by_cases hplain : g.options = [] ∧ g.extras = []
  · obtain ⟨ho, he⟩ := hplain
    have htype : typeInPlace g = g.protoType.toNat := by
      rw [← be16_capture mem, GrePacket.be16_of_no_options ho]
    have hplace := inPlace_of_plain ho he
    rw [htype]
    simp only [hplace, ho, he, and_true, true_and, ne_eq, not_true_eq_false, or_self, false_and,
      or_false]
    omega
  · have hlong : g.options ≠ [] ∨ g.extras ≠ [] := by
      by_cases ho : g.options = []
      · exact .inr fun he => hplain ⟨ho, he⟩
      · exact .inl ho
    simp only [hlong, true_and]
    constructor
    · exact fun h => .inr h
    · rintro (⟨ho, he, -⟩ | h)
      · exact absurd ⟨ho, he⟩ hplain
      · exact h

/-- An ARP request in a gretap tunnel, with a GRE type that only looks like
the right one, and with a key. -/
def arpPacket (protoType : UInt16) (key : Option UInt32) : GrePacket where
  toIpHeader := natHeader ⟨140, 113, 0, 1⟩
  checksum := none
  key := key
  seq := none
  protoType := protoType
  inner :=
    { dst := ⟨255, 255, 255, 255, 255, 255⟩, src := ⟨2, 0, 0, 0, 0, 3⟩, etherType := 0x0806
      body := List.replicate 28 0, ip_header := by decide }
  trailer := []
  fits := by cases key <;> simp [natHeader]

theorem gre_misread :
    ¬ Decodes (arpPacket 0x0ABC none) (fun _ => 0) ∧
    ¬ Decodes (arpPacket 0x6558 (some 1)) (fun _ => 0) := by
  refine ⟨fun h => ?_, fun h => ?_⟩
  · have hteb := (decodes_iff.mp h).1.mp (.inr (by decide))
    exact absurd hteb (by decide)
  · have hheader := (decodes_iff.mp h).2.1
    exact absurd hheader (by decide)

end Gre

end NetSystem
