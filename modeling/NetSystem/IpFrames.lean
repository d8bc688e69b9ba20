import NetSystem.BrgrFrame

/-!
# IPv4 frames with options

Ethernet/IPv4 packets with a header of any length, captured whole.
`Capture.whole` keeps what lies in memory behind the frame as a parameter,
since a handler that picks its fields by fixed offsets may read there.

`UdpDatagram` and `GrePacket` are the two kinds of packet the daemons are
written for: an unfragmented UDP datagram with any payload and padding, and
an Ethernet frame in a GRE header with or without checksum, key and
sequence number.
-/

namespace NetSystem

namespace Brgr

/-! ## Captures -/

/-- The frame captured whole, with `mem` behind it. -/
def Capture.whole (bytes : List UInt8) (mem : Nat → UInt8) : Capture where
  len := bytes.length
  caplen := bytes.length
  caplen_le := le_rfl
  packet i := bytes.getD i (mem i)

namespace Capture

variable {bytes : List UInt8} {mem : Nat → UInt8}

/-- Inside the frame the memory is the frame. -/
theorem whole_packet_left {l r : List UInt8} {i : Nat} (h : i < l.length) :
    (whole (l ++ r) mem).packet i = l.getD i 0 := by
  simp only [whole, List.getD_eq_getElem?_getD]
  rw [List.getElem?_append_left h, List.getElem?_eq_getElem h]
  rfl

/-- What a loop over the frame from offset `k` on sees. -/
theorem whole_drop (k : Nat) :
    (List.range (bytes.length - k)).map (fun j => (whole bytes mem).packet (k + j)) =
      bytes.drop k := by
  refine List.ext_getElem (by simp) fun j h1 h2 => ?_
  have hj : k + j < bytes.length := by
    simp only [List.length_drop] at h2
    omega
  rw [List.getElem_map, List.getElem_range, List.getElem_drop]
  simp only [whole, List.getD_eq_getElem?_getD, List.getElem?_eq_getElem hj, Option.getD_some]

/-- A field inside the frame. -/
theorem whole_field {k n : Nat} (h : k + n ≤ bytes.length) :
    (List.range n).map (fun j => (whole bytes mem).packet (k + j)) = (bytes.drop k).take n := by
  refine List.ext_getElem (by simp; omega) fun j h1 h2 => ?_
  have hj : k + j < bytes.length := by
    simp only [List.length_map, List.length_range] at h1
    omega
  rw [List.getElem_map, List.getElem_range, List.getElem_take, List.getElem_drop]
  simp only [whole, List.getD_eq_getElem?_getD, List.getElem?_eq_getElem hj, Option.getD_some]

end Capture

/-! ## Headers -/

/-- The Ethernet header and the IPv4 header of an unfragmented packet. -/
structure IpHeader where
  dstMac : Mac
  srcMac : Mac
  tos : UInt8
  ident : UInt16
  dontFragment : Bool
  ttl : UInt8
  ipChecksum : UInt16
  srcIp : Ipv4
  dstIp : Ipv4
  options : List UInt8
  /-- The header length is counted in words of four bytes, at most 15. -/
  options_words : options.length % 4 = 0
  options_le : options.length ≤ 40
deriving DecidableEq, Repr

namespace IpHeader

def ihl (h : IpHeader) : Nat := 5 + h.options.length / 4

/-- The 34 bytes in front of the options, for a body of the given protocol
and length. -/
def fixed (h : IpHeader) (proto : UInt8) (bodyLen : Nat) : List UInt8 :=
  [h.dstMac.a, h.dstMac.b, h.dstMac.c, h.dstMac.d, h.dstMac.e, h.dstMac.f,
   h.srcMac.a, h.srcMac.b, h.srcMac.c, h.srcMac.d, h.srcMac.e, h.srcMac.f,
   0x08, 0x00,
   UInt8.ofNat (64 + h.ihl), h.tos, hiByte (4 * h.ihl + bodyLen), loByte (4 * h.ihl + bodyLen),
   hiByte h.ident.toNat, loByte h.ident.toNat,
   if h.dontFragment then 0x40 else 0x00, 0x00,
   h.ttl, proto, hiByte h.ipChecksum.toNat, loByte h.ipChecksum.toNat,
   h.srcIp.a, h.srcIp.b, h.srcIp.c, h.srcIp.d,
   h.dstIp.a, h.dstIp.b, h.dstIp.c, h.dstIp.d]

@[simp] theorem fixed_length (h : IpHeader) (proto : UInt8) (bodyLen : Nat) :
    (h.fixed proto bodyLen).length = 34 := rfl

/-- The frame: `trailer` is Ethernet padding. -/
def bytes (h : IpHeader) (proto : UInt8) (body trailer : List UInt8) : List UInt8 :=
  h.fixed proto body.length ++ (h.options ++ (body ++ trailer))

variable {h : IpHeader} {proto : UInt8} {body trailer : List UInt8} {mem : Nat → UInt8}

theorem packet_fixed {i : Nat} (hi : i < 34) :
    (Capture.whole (h.bytes proto body trailer) mem).packet i =
      (h.fixed proto body.length).getD i 0 :=
  Capture.whole_packet_left hi

theorem etherType_whole : etherType (Capture.whole (h.bytes proto body trailer) mem) = 2048 := by
  rw [etherType, be16, packet_fixed (by omega), packet_fixed (by omega)]
  simp [fixed]

/-- `inet_ntop` finds the source address, whatever the header length. -/
theorem inetNtop_whole :
    inetNtop (Capture.whole (h.bytes proto body trailer) mem) 26 = h.srcIp.text := by
  rw [inetNtop, packet_fixed (by omega), packet_fixed (by omega), packet_fixed (by omega),
    packet_fixed (by omega)]
  rfl

end IpHeader

/-- A header without options, as the NAT of the test network sends it. -/
def natHeader (dstIp : Ipv4) : IpHeader where
  dstMac := ⟨2, 0, 0, 0, 0, 1⟩
  srcMac := ⟨2, 0, 0, 0, 0, 2⟩
  tos := 0
  ident := 1
  dontFragment := true
  ttl := 62
  ipChecksum := 0
  srcIp := ⟨140, 114, 0, 1⟩
  dstIp := dstIp
  options := []
  options_words := rfl
  options_le := Nat.zero_le 40

/-! ## UDP datagrams -/

/-- A complete UDP datagram with any IPv4 header, payload and padding. -/
structure UdpDatagram extends IpHeader where
  srcPort : UInt16
  dstPort : UInt16
  udpChecksum : UInt16
  payload : List UInt8
  trailer : List UInt8
  fits : 28 + options.length + payload.length < 65536
deriving DecidableEq, Repr

namespace UdpDatagram

def udpHeader (u : UdpDatagram) : List UInt8 :=
  [hiByte u.srcPort.toNat, loByte u.srcPort.toNat, hiByte u.dstPort.toNat, loByte u.dstPort.toNat,
   hiByte (8 + u.payload.length), loByte (8 + u.payload.length),
   hiByte u.udpChecksum.toNat, loByte u.udpChecksum.toNat]

def bytes (u : UdpDatagram) : List UInt8 :=
  u.toIpHeader.bytes 17 (u.udpHeader ++ u.payload) u.trailer

def capture (u : UdpDatagram) (mem : Nat → UInt8) : Capture := Capture.whole u.bytes mem

variable {u : UdpDatagram} {mem : Nat → UInt8}

theorem bytes_length (u : UdpDatagram) :
    u.bytes.length = 42 + u.options.length + u.payload.length + u.trailer.length := by
  simp only [bytes, IpHeader.bytes, List.length_append, IpHeader.fixed_length, udpHeader,
    List.length_cons, List.length_nil]
  omega

/-- Without options the UDP header is where the program looks for it. -/
theorem bytes_of_no_options (h : u.options = []) :
    u.bytes = (u.toIpHeader.fixed 17 (u.udpHeader ++ u.payload).length ++ u.udpHeader) ++
      (u.payload ++ u.trailer) := by
  simp [bytes, IpHeader.bytes, h]

theorem be16_of_no_options (h : u.options = []) : be16 (u.capture mem) 36 = u.dstPort.toNat := by
  rw [capture, bytes_of_no_options h, be16, Capture.whole_packet_left (by simp [udpHeader]),
    Capture.whole_packet_left (by simp [udpHeader])]
  exact hiByte_loByte u.dstPort.toNat_lt

/-- With options, the program finds them in its place. -/
theorem be16_of_options (h : u.options ≠ []) : be16 (u.capture mem) 36 =
    (u.options.getD 2 0).toNat * 256 + (u.options.getD 3 0).toNat := by
  have hlen : 4 ≤ u.options.length := by
    have hpos := List.length_pos_of_ne_nil h
    have hwords := u.options_words
    omega
  have hbytes : u.bytes = (u.toIpHeader.fixed 17 (u.udpHeader ++ u.payload).length ++ u.options) ++
      (u.udpHeader ++ u.payload ++ u.trailer) := by
    simp [bytes, IpHeader.bytes]
  have hpacket : ∀ i < 4, (u.capture mem).packet (34 + i) = u.options.getD i 0 := fun i hi => by
    rw [capture, hbytes, Capture.whole_packet_left (by simp; omega),
      List.getD_eq_getElem?_getD, List.getElem?_append_right (by simp),
      IpHeader.fixed_length, Nat.add_sub_cancel_left, ← List.getD_eq_getElem?_getD]
  rw [be16, hpacket 2 (by omega), hpacket 3 (by omega)]

theorem drop_bytes (u : UdpDatagram) :
    u.bytes.drop 42 = (u.options ++ (u.udpHeader ++ u.payload ++ u.trailer)).drop 8 := by
  rw [bytes, IpHeader.bytes, List.drop_append, List.drop_of_length_le (by simp), List.nil_append]
  rfl

theorem drop_of_no_options (h : u.options = []) : u.bytes.drop 42 = u.payload ++ u.trailer := by
  rw [bytes_of_no_options h]
  exact List.drop_left' (by simp [udpHeader])

end UdpDatagram

/-! ## Ethernet in GRE -/

/-- The bytes of a 16-bit number, and of one of 32 bits. -/
def wire16 (n : UInt16) : List UInt8 := [hiByte n.toNat, loByte n.toNat]

def wire32 (n : UInt32) : List UInt8 :=
  [hiByte (n.toNat / 65536), loByte (n.toNat / 65536), hiByte (n.toNat % 65536),
   loByte (n.toNat % 65536)]

/-- An Ethernet frame; an IPv4 packet in it has its header. -/
structure EtherFrame where
  dst : Mac
  src : Mac
  etherType : UInt16
  body : List UInt8
  ip_header : etherType.toNat = 2048 → 20 ≤ body.length
deriving DecidableEq, Repr

def EtherFrame.header (e : EtherFrame) : List UInt8 :=
  [e.dst.a, e.dst.b, e.dst.c, e.dst.d, e.dst.e, e.dst.f,
   e.src.a, e.src.b, e.src.c, e.src.d, e.src.e, e.src.f,
   hiByte e.etherType.toNat, loByte e.etherType.toNat]

/-- The addresses in an IPv4 header behind the Ethernet header. -/
def EtherFrame.srcIp (e : EtherFrame) : Ipv4 :=
  ⟨e.body.getD 12 0, e.body.getD 13 0, e.body.getD 14 0, e.body.getD 15 0⟩

def EtherFrame.dstIp (e : EtherFrame) : Ipv4 :=
  ⟨e.body.getD 16 0, e.body.getD 17 0, e.body.getD 18 0, e.body.getD 19 0⟩

/-- A complete GRE packet that carries an Ethernet frame. -/
structure GrePacket extends IpHeader where
  /-- The checksum and the reserved field that comes with it. -/
  checksum : Option (UInt16 × UInt16)
  key : Option UInt32
  seq : Option UInt32
  protoType : UInt16
  inner : EtherFrame
  trailer : List UInt8
  fits : 20 + options.length + 4 * (1 + checksum.isSome.toNat + key.isSome.toNat +
    seq.isSome.toNat) + 14 + inner.body.length < 65536
deriving DecidableEq, Repr

namespace GrePacket

def flags (g : GrePacket) : UInt8 :=
  (if g.checksum.isSome then 0x80 else 0) + (if g.key.isSome then 0x20 else 0) +
    (if g.seq.isSome then 0x10 else 0)

/-- The optional fields of the GRE header. -/
def extras (g : GrePacket) : List UInt8 :=
  (g.checksum.elim [] fun c => wire16 c.1 ++ wire16 c.2) ++ g.key.elim [] wire32 ++
    g.seq.elim [] wire32

def greHeader (g : GrePacket) : List UInt8 :=
  [g.flags, 0, hiByte g.protoType.toNat, loByte g.protoType.toNat] ++ g.extras

def bytes (g : GrePacket) : List UInt8 :=
  g.toIpHeader.bytes 47 (g.greHeader ++ (g.inner.header ++ g.inner.body)) g.trailer

def capture (g : GrePacket) (mem : Nat → UInt8) : Capture := Capture.whole g.bytes mem

theorem bytes_length (g : GrePacket) : g.bytes.length =
    52 + g.options.length + g.extras.length + g.inner.body.length + g.trailer.length := by
  simp only [bytes, IpHeader.bytes, List.length_append, IpHeader.fixed_length, greHeader,
    EtherFrame.header, List.length_cons, List.length_nil]
  omega

theorem bytes_of_no_options {g : GrePacket} (h : g.options = []) :
    g.bytes = (g.toIpHeader.fixed 47 (g.greHeader ++ (g.inner.header ++ g.inner.body)).length ++
      g.greHeader) ++ (g.inner.header ++ (g.inner.body ++ g.trailer)) := by
  simp [bytes, IpHeader.bytes, h]

/-- Without options and optional fields the inner frame starts at byte 38. -/
theorem drop_of_plain {g : GrePacket} (ho : g.options = []) (he : g.extras = []) :
    g.bytes.drop 38 = g.inner.header ++ (g.inner.body ++ g.trailer) := by
  rw [bytes_of_no_options ho]
  exact List.drop_left' (by simp [greHeader, he])

theorem be16_of_no_options {g : GrePacket} {mem : Nat → UInt8} (h : g.options = []) :
    be16 (g.capture mem) 36 = g.protoType.toNat := by
  rw [capture, bytes_of_no_options h, be16, Capture.whole_packet_left (by simp [greHeader]; omega),
    Capture.whole_packet_left (by simp [greHeader]; omega)]
  exact hiByte_loByte g.protoType.toNat_lt

end GrePacket

end Brgr

end NetSystem
