import Mathlib.Data.List.Basic
import NetSystem.FilterText

/-!
# Captured frames

What `pcap_loop` hands to `packetHandler`, and the header fields the
program and the kernel filter read from it. A capture is the memory
behind the `packet` pointer together with the two lengths of the packet
header: bytes from `caplen` on are whatever the buffer holds, so nothing
in this file promises anything about them.

`UdpFrame` is an Ethernet/IPv4/UDP datagram without IP options, as
`nc -u` sends it and the routers forward it; `UdpFrame.capture` is its
capture in full. `sendUdp` is the datagram of `send_udp.sh`.
-/

namespace NetSystem

namespace Brgr

/-! ## Captures and header fields -/

/-- `struct pcap_pkthdr` (its lengths) and the `packet` pointer. -/
structure Capture where
  len : Nat
  caplen : Nat
  caplen_le : caplen ≤ len
  packet : Nat → UInt8

/-- The 16-bit number in network byte order at offset `i`. -/
def be16 (c : Capture) (i : Nat) : Nat :=
  (c.packet i).toNat * 256 + (c.packet (i + 1)).toNat

theorem be16_lt (c : Capture) (i : Nat) : be16 c i < 65536 := by
  have h1 := (c.packet i).toNat_lt
  have h2 := (c.packet (i + 1)).toNat_lt
  simp only [be16]
  omega

/-- `ntohs(ethernetHeader->ether_type)`. -/
def etherType (c : Capture) : Nat := be16 c 12

/-- Length of the IPv4 header in bytes, from its first byte. -/
def ipHeaderLen (c : Capture) : Nat := 4 * ((c.packet 14).toNat % 16)

/-- The IPv4 protocol number. -/
def ipProto (c : Capture) : Nat := (c.packet 23).toNat

/-- The fragment offset; zero for a whole datagram and a first fragment. -/
def fragOffset (c : Capture) : Nat := be16 c 20 % 8192

/-- `inet_ntop(AF_INET, ...)` of the four bytes at offset `i`. -/
def inetNtop (c : Capture) (i : Nat) : Str :=
  digits (c.packet i).toNat ++ '.' :: digits (c.packet (i + 1)).toNat ++
    '.' :: digits (c.packet (i + 2)).toNat ++ '.' :: digits (c.packet (i + 3)).toNat

/-- UDP over IPv4, and the UDP header is in this packet. -/
def IsUdp (c : Capture) : Prop :=
  etherType c = 2048 ∧ ipProto c = 17 ∧ fragOffset c = 0

/-- The UDP ports, behind an IP header of any length. -/
def udpSrcPort (c : Capture) : Nat := be16 c (14 + ipHeaderLen c)

def udpDstPort (c : Capture) : Nat := be16 c (14 + ipHeaderLen c + 2)

instance (c : Capture) : Decidable (IsUdp c) :=
  inferInstanceAs (Decidable (_ ∧ _ ∧ _))

/-- The primitive `port n` of the filter, on UDP: either port, on a whole
datagram or a first fragment. -/
def udpPort (n : Nat) (c : Capture) : Bool :=
  decide (IsUdp c) && (decide (udpSrcPort c = n) || decide (udpDstPort c = n))

/-- The capture library: its filter language, with the documented meaning
of `port` on UDP packets. What `port` says about other packets is left
open. -/
structure Pcap extends FilterLang Capture where
  port_udp : ∀ {n : Nat} {c : Capture}, IsUdp c → port n c = udpPort n c

/-! ## UDP datagrams on the wire -/

structure Mac where
  (a b c d e f : UInt8)
deriving DecidableEq, Repr

structure Ipv4 where
  (a b c d : UInt8)
deriving DecidableEq, Repr

/-- Dotted quad. -/
def Ipv4.text (ip : Ipv4) : Str :=
  digits ip.a.toNat ++ '.' :: digits ip.b.toNat ++
    '.' :: digits ip.c.toNat ++ '.' :: digits ip.d.toNat

theorem dot_notMem_digits (n : Nat) : '.' ∉ digits n := fun h =>
  absurd (isDigit_of_mem_digits h) (by decide)

/-- No two addresses are written alike. -/
theorem Ipv4.text_injective : Function.Injective Ipv4.text := by
  rintro ⟨a, b, c, d⟩ ⟨a', b', c', d'⟩ h
  simp only [Ipv4.text, List.append_assoc, List.cons_append] at h
  obtain ⟨ha, h⟩ := append_sep_inj (dot_notMem_digits _) (dot_notMem_digits _) h
  obtain ⟨hb, h⟩ := append_sep_inj (dot_notMem_digits _) (dot_notMem_digits _) h
  obtain ⟨hc, hd⟩ := append_sep_inj (dot_notMem_digits _) (dot_notMem_digits _) h
  have hbyte : ∀ {x y : UInt8}, digits x.toNat = digits y.toNat → x = y := fun hxy =>
    UInt8.toNat_inj.mp (digits_injective hxy)
  rw [hbyte ha, hbyte hb, hbyte hc, hbyte hd]

/-- An address is written in digits and dots. -/
theorem Ipv4.mem_text {ip : Ipv4} {ch : Char} (h : ch ∈ ip.text) :
    ch.isDigit = true ∨ ch = '.' := by
  simp only [Ipv4.text, List.mem_append, List.mem_cons] at h
  rcases h with ((h | h | h) | h | h) | h | h
  all_goals first | exact Or.inl (isDigit_of_mem_digits h) | exact Or.inr h

theorem Ipv4.nul_notMem_text (ip : Ipv4) : '\x00' ∉ ip.text := fun h => by
  rcases Ipv4.mem_text h with hd | hd
  · exact absurd hd (by decide)
  · exact absurd hd (by decide)

def hiByte (n : Nat) : UInt8 := UInt8.ofNat (n / 256)

def loByte (n : Nat) : UInt8 := UInt8.ofNat (n % 256)

/-- A function of bytes is injective if it can be undone on 256 numbers. -/
theorem byte_injective {β : Type*} {f : Nat → β} {g : β → Nat} (h : ∀ n < 256, g (f n) = n) :
    Function.Injective fun b : UInt8 => f b.toNat := by
  intro x y hxy
  refine UInt8.toNat_inj.mp ?_
  rw [← h x.toNat x.toNat_lt, ← h y.toNat y.toNat_lt]
  exact congrArg g hxy

theorem hiByte_loByte {n : Nat} (h : n < 65536) :
    (hiByte n).toNat * 256 + (loByte n).toNat = n := by
  simp only [hiByte, loByte, UInt8.toNat_ofNat']
  omega

/-- An unfragmented Ethernet/IPv4/UDP datagram with a 20-byte IP header.
The fields the daemon never looks at are arbitrary. -/
structure UdpFrame where
  dstMac : Mac
  srcMac : Mac
  tos : UInt8
  ident : UInt16
  dontFragment : Bool
  ttl : UInt8
  ipChecksum : UInt16
  srcIp : Ipv4
  dstIp : Ipv4
  srcPort : UInt16
  dstPort : UInt16
  udpChecksum : UInt16
  payload : List UInt8
  /-- Ethernet padding behind the datagram. -/
  trailer : List UInt8
deriving DecidableEq, Repr

namespace UdpFrame

def ipTotalLen (r : UdpFrame) : Nat := 28 + r.payload.length

def udpLen (r : UdpFrame) : Nat := 8 + r.payload.length

/-- The 42 header bytes: Ethernet (0-13), IPv4 (14-33), UDP (34-41). -/
def header (r : UdpFrame) : List UInt8 :=
  [r.dstMac.a, r.dstMac.b, r.dstMac.c, r.dstMac.d, r.dstMac.e, r.dstMac.f,
   r.srcMac.a, r.srcMac.b, r.srcMac.c, r.srcMac.d, r.srcMac.e, r.srcMac.f,
   0x08, 0x00,
   0x45, r.tos, hiByte r.ipTotalLen, loByte r.ipTotalLen,
   hiByte r.ident.toNat, loByte r.ident.toNat,
   if r.dontFragment then 0x40 else 0x00, 0x00,
   r.ttl, 17, hiByte r.ipChecksum.toNat, loByte r.ipChecksum.toNat,
   r.srcIp.a, r.srcIp.b, r.srcIp.c, r.srcIp.d,
   r.dstIp.a, r.dstIp.b, r.dstIp.c, r.dstIp.d,
   hiByte r.srcPort.toNat, loByte r.srcPort.toNat,
   hiByte r.dstPort.toNat, loByte r.dstPort.toNat,
   hiByte r.udpLen, loByte r.udpLen,
   hiByte r.udpChecksum.toNat, loByte r.udpChecksum.toNat]

def bytes (r : UdpFrame) : List UInt8 := r.header ++ (r.payload ++ r.trailer)

/-- The frame captured whole; the memory behind it reads as zero. -/
def capture (r : UdpFrame) : Capture where
  len := r.bytes.length
  caplen := r.bytes.length
  caplen_le := le_rfl
  packet i := r.bytes.getD i 0

@[simp] theorem header_length (r : UdpFrame) : r.header.length = 42 := rfl

theorem capture_len (r : UdpFrame) :
    r.capture.len = 42 + (r.payload.length + r.trailer.length) := by
  simp [capture, bytes]

/-- Below offset 42 the memory is the header. -/
theorem packet_capture (r : UdpFrame) {i : Nat} (h : i < 42) :
    r.capture.packet i = r.header.getD i 0 := by
  simp only [capture, bytes, List.getD_eq_getElem?_getD]
  rw [List.getElem?_append_left (by simpa using h)]

theorem be16_capture (r : UdpFrame) {i : Nat} (h : i + 1 < 42) :
    be16 r.capture i =
      (r.header.getD i 0).toNat * 256 + (r.header.getD (i + 1) 0).toNat := by
  rw [be16, r.packet_capture h, r.packet_capture (Nat.lt_of_succ_lt h)]

theorem etherType_capture (r : UdpFrame) : etherType r.capture = 2048 := by
  rw [etherType, r.be16_capture (by omega)]
  simp [header]

theorem ipHeaderLen_capture (r : UdpFrame) : ipHeaderLen r.capture = 20 := by
  rw [ipHeaderLen, r.packet_capture (by omega)]
  simp [header]

theorem isUdp_capture (r : UdpFrame) : IsUdp r.capture := by
  refine ⟨r.etherType_capture, ?_, ?_⟩
  · rw [ipProto, r.packet_capture (by omega)]
    simp [header]
  · rw [fragOffset, r.be16_capture (by omega)]
    -- only the don't-fragment bit is arbitrary in these two bytes
    cases hdf : r.dontFragment <;> simp [header, hdf]

theorem be16_srcPort (r : UdpFrame) : be16 r.capture 34 = r.srcPort.toNat := by
  rw [r.be16_capture (by omega)]
  exact hiByte_loByte r.srcPort.toNat_lt

theorem be16_dstPort (r : UdpFrame) : be16 r.capture 36 = r.dstPort.toNat := by
  rw [r.be16_capture (by omega)]
  exact hiByte_loByte r.dstPort.toNat_lt

theorem udpPort_capture (r : UdpFrame) (n : Nat) :
    udpPort n r.capture = true ↔ r.srcPort.toNat = n ∨ r.dstPort.toNat = n := by
  have hs : udpSrcPort r.capture = r.srcPort.toNat := by
    rw [udpSrcPort, ipHeaderLen_capture]
    exact r.be16_srcPort
  have hd : udpDstPort r.capture = r.dstPort.toNat := by
    rw [udpDstPort, ipHeaderLen_capture]
    exact r.be16_dstPort
  simp [udpPort, isUdp_capture, hs, hd]

end UdpFrame

/-! ## `send_udp.sh` -/

/-- What the sender's stack, the routers and the NAT decide about a
datagram on its way to BRGr. -/
structure Wire where
  dstMac : Mac
  srcMac : Mac
  tos : UInt8
  ident : UInt16
  dontFragment : Bool
  ttl : UInt8
  ipChecksum : UInt16
  srcIp : Ipv4
  srcPort : UInt16
  udpChecksum : UInt16
deriving DecidableEq, Repr

/-- `echo -n "$1" | nc -u -w1 140.113.0.2 $2`. -/
def sendUdp (w : Wire) (arg1 : Str) (arg2 : UInt16) : UdpFrame :=
  { w with
    dstIp := ⟨140, 113, 0, 2⟩
    dstPort := arg2
    payload := arg1.map fun c => UInt8.ofNat c.toNat
    trailer := [] }

end Brgr

end NetSystem
