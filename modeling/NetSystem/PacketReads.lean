import NetSystem.GreDecode
import NetSystem.MemRead

/-!
# The bytes the handlers look at

Both `packetHandler`s up to the point where they start on the tunnel,
written as programs over the memory behind `packet` (`handlerReads`). What
such a program computes is what the other modules say the handlers decode
(`eval_handlerReads`).

Neither program asks how much of the packet was captured: the dump runs to
`len`, and the header fields are read at fixed offsets without a look at
either length. A field inside `caplen` is a matter of the frame being long
enough for the headers its own EtherTypes announce.
-/

namespace NetSystem

namespace Brgr

open Cap (hex2)
open Gre (etherNtoa macAt ipAt)
open Reads (load Within)

/-! ## Header fields -/

/-- `ntohs` of the two bytes at `i`. -/
def ntohs (i : Nat) : Reads UInt8 Nat := do
  return (← load i).toNat * 256 + (← load (i + 1)).toNat

/-- The six bytes `ether_ntoa` is pointed at. -/
def loadMac (i : Nat) : Reads UInt8 Mac := do
  return ⟨← load i, ← load (i + 1), ← load (i + 2), ← load (i + 3), ← load (i + 4),
    ← load (i + 5)⟩

/-- The four bytes `inet_ntop` is pointed at. -/
def loadIp (i : Nat) : Reads UInt8 Ipv4 := do
  return ⟨← load i, ← load (i + 1), ← load (i + 2), ← load (i + 3)⟩

section

variable {n i : Nat}

@[simp] theorem eval_ntohs (c : Capture) : (ntohs i).eval c.packet = be16 c i := rfl

@[simp] theorem eval_loadIp (c : Capture) : (loadIp i).eval c.packet = ipAt c i := rfl

@[simp] theorem within_ntohs {mem : Nat → UInt8} : Within mem n (ntohs i) ↔ i + 2 ≤ n := by
  simp only [ntohs, Reads.within_bind, Reads.within_load, Reads.within_pure,
    and_true]
  omega

@[simp] theorem within_loadMac {mem : Nat → UInt8} : Within mem n (loadMac i) ↔ i + 6 ≤ n := by
  simp only [loadMac, Reads.within_bind, Reads.within_load, Reads.within_pure,
    and_true]
  omega

@[simp] theorem within_loadIp {mem : Nat → UInt8} : Within mem n (loadIp i) ↔ i + 4 ≤ n := by
  simp only [loadIp, Reads.within_bind, Reads.within_load, Reads.within_pure,
    and_true]
  omega

end

/-! ## What the two programs share -/

/-- `printf(" %02x", packet[i])`, and a line break after 16 bytes. -/
def dumpByte (out : Str) (i : Nat) : Reads UInt8 Str := do
  return out ++ ' ' :: hex2 (← load i) ++ if (i + 1) % 16 = 0 then ['\n'] else []

/-- The lines about the outer headers. -/
def outerLines (shost dhost : Mac) (type : Nat) (ips : Option (Ipv4 × Ipv4)) : List Str :=
  ["Source MAC: ".toList ++ etherNtoa shost, "Destination MAC: ".toList ++ etherNtoa dhost,
   "Ethernet type: ".toList ++ if type = 2048 then "IPv4".toList else digits type] ++
    match ips with
    | some (src, dst) => ["Src IP ".toList ++ src.text, "Dst IP ".toList ++ dst.text]
    | none => []

/-- The addresses of the outer IP header, which goes by the EtherType. -/
def outerIps : Reads UInt8 (Option (Ipv4 × Ipv4)) := do
  if (← ntohs 12) = 2048 then
    let src ← loadIp 26
    let dst ← loadIp 30
    return some (src, dst)
  else
    return none

/-- The lines, and `sourceIp` if it is written. -/
def outerHeaders : Reads UInt8 (List Str × Option Str) := do
  let shost ← loadMac 6
  let dhost ← loadMac 0
  let type ← ntohs 12
  let ips ← outerIps
  return (outerLines shost dhost type ips, ips.map fun p => p.1.text)

theorem within_outerIps {c : Capture} {n : Nat} : Within c.packet n outerIps ↔
    14 ≤ n ∧ (etherType c = 2048 → 34 ≤ n) := by
  simp only [outerIps, Reads.within_bind, Reads.within_ite, Reads.within_pure, within_loadIp,
    within_ntohs, and_true, implies_true]
  rw [eval_ntohs, etherType]
  omega

theorem eval_outerIps (c : Capture) : outerIps.eval c.packet =
    if etherType c = 2048 then some (ipAt c 26, ipAt c 30) else none := by
  simp only [outerIps, Reads.eval_bind, Reads.eval_ite, Reads.eval_pure, eval_loadIp]
  rfl

theorem within_outerHeaders {c : Capture} {n : Nat} :
    Within c.packet n outerHeaders ↔ 14 ≤ n ∧ (etherType c = 2048 → 34 ≤ n) := by
  simp only [outerHeaders, Reads.within_bind, Reads.within_pure, within_loadMac, within_ntohs,
    within_outerIps, and_true]
  omega

/-! ## The tunnel daemon -/

/-- What the handler of `ns_project` has in hand when it starts on the
tunnel: its local strings, and what it has printed. -/
structure Decoded where
  dstPort : Str
  srcPort : Str
  sourceIp : Option Str
  dump : Str
  lines : List Str

/-- `if (i >= 36 && i <= 37)`. -/
def dstPortByte (dst : Str) (i : Nat) : Reads UInt8 Str := do
  if 36 ≤ i ∧ i ≤ 37 then return dst ++ bits8 (← load i) else return dst

/-- `if (i >= 42)`. -/
def srcPortByte (src : Str) (i : Nat) : Reads UInt8 Str := do
  if 42 ≤ i then return src ++ [byteChar (← load i)] else return src

/-- One round of the loop over the packet. -/
def scanRound (acc : Str × Str × Str) (i : Nat) : Reads UInt8 (Str × Str × Str) := do
  let out ← dumpByte acc.1 i
  let dst ← dstPortByte acc.2.1 i
  let src ← srcPortByte acc.2.2 i
  return (out, dst, src)

def handlerReads (len : Nat) : Reads UInt8 Decoded := do
  let (dump, dst, src) ← (List.range len).foldlM scanRound ([], [], [])
  let (lines, sourceIp) ← outerHeaders
  return { dstPort := bToInt dst, srcPort := src, sourceIp, dump, lines }

/-- No byte behind the captured ones is looked at. -/
def ReadsCaptured (c : Capture) : Prop :=
  ∀ i ∈ (handlerReads c.len).offsets c.packet, i < c.caplen

theorem within_dumpByte {c : Capture} {n : Nat} (out : Str) (i : Nat) :
    Within c.packet n (dumpByte out i) ↔ i < n := by
  simp only [dumpByte, Reads.within_bind, Reads.within_load, Reads.within_pure, and_true]

theorem within_scanRound {c : Capture} {n : Nat} (acc : Str × Str × Str) (i : Nat) :
    Within c.packet n (scanRound acc i) ↔ i < n := by
  simp only [scanRound, dstPortByte, srcPortByte, Reads.within_bind, Reads.within_ite,
    Reads.within_load, Reads.within_pure, within_dumpByte, and_true, implies_true]
  -- the two ports are looked for in bytes the dump has read
  exact ⟨And.left, fun h => ⟨h, fun _ => h, fun _ => h⟩⟩

/-- Besides the dump a round does what `scanByte` does. -/
theorem eval_scanRound (c : Capture) (acc : Str × Str × Str) (i : Nat) :
    ((scanRound acc i).eval c.packet).2 = scanByte c acc.2 i := by
  simp only [scanRound, dstPortByte, srcPortByte, scanByte, Reads.eval_bind, Reads.eval_ite,
    Reads.eval_load, Reads.eval_pure]

theorem eval_scan (c : Capture) (len : Nat) :
    (((List.range len).foldlM scanRound ([], [], [])).eval c.packet).2 = scanPorts c len := by
  rw [Reads.eval_foldlM, scanPorts]
  exact (List.foldl_hom Prod.snd fun acc i => (eval_scanRound c acc i).symm).symm

/-- The tunnel is made from what was read, and from what happened to be in
`sourceIp` if nothing was written there. -/
theorem handlerLink_eq_reads (k : Nat) (env : Env) (c : Capture) :
    handlerLink k env c =
      let r := (handlerReads c.len).eval c.packet
      { index := k
        remoteIp := r.sourceIp.getD (cStr env.stack)
        localIp := "140.113.0.2".toList
        key := k
        encapSport := r.dstPort
        encapDport := r.srcPort } := by
  have hip : ((handlerReads c.len).eval c.packet).sourceIp =
      if etherType c = 2048 then some (inetNtop c 26) else none := by
    simp only [handlerReads, outerHeaders, Reads.eval_bind, Reads.eval_pure, eval_outerIps]
    split_ifs <;> rfl
  have hports : (((handlerReads c.len).eval c.packet).dstPort,
      ((handlerReads c.len).eval c.packet).srcPort) = (dstPort c, srcPort c) := by
    simp only [handlerReads, Reads.eval_bind, Reads.eval_pure, dstPort, srcPort, ← eval_scan]
  rw [Prod.mk.injEq] at hports
  simp only [handlerLink, sourceIp, hip, hports]
  split_ifs <;> rfl

/-- A loop over `len` and the outer headers. -/
theorem within_loop_outer {α : Type} {f : α → Nat → Reads UInt8 α} {a : α} {c : Capture}
    (hf : ∀ a i, Within c.packet c.caplen (f a i) ↔ i < c.caplen) :
    Within c.packet c.caplen ((List.range c.len).foldlM f a) ∧
        Within c.packet c.caplen outerHeaders ↔
      c.caplen = c.len ∧ 14 ≤ c.len ∧ (etherType c = 2048 → 34 ≤ c.len) := by
  have hle := c.caplen_le
  have hloop : (∀ i ∈ List.range c.len, i < c.caplen) ↔ c.caplen = c.len := by
    simp only [List.mem_range]
    constructor
    · intro h
      by_contra hne
      exact absurd (h c.caplen (by omega)) (lt_irrefl _)
    · intro h i hi
      omega
  rw [Reads.within_foldlM hf, hloop, within_outerHeaders]
  omega

theorem brgr_readsCaptured_iff (c : Capture) : ReadsCaptured c ↔
    c.caplen = c.len ∧ 14 ≤ c.len ∧ (etherType c = 2048 → 34 ≤ c.len) := by
  rw [← within_loop_outer (a := ([], [], [])) within_scanRound]
  change Within c.packet c.caplen (handlerReads c.len) ↔ _
  simp only [handlerReads, Reads.within_bind, Reads.within_pure, and_true]

/-- The tunnel is then decided by the captured bytes alone. -/
theorem handlerLink_captured {c c' : Capture} (h : ReadsCaptured c) (hlen : c'.len = c.len)
    (hbytes : ∀ i < c.caplen, c.packet i = c'.packet i) (k : Nat) (env : Env) :
    handlerLink k env c' = handlerLink k env c := by
  have hsame := Reads.eval_congr hbytes h
  rw [handlerLink_eq_reads, handlerLink_eq_reads, hlen]
  exact congrArg (fun r : Decoded => GreLink.mk k (r.sourceIp.getD (cStr env.stack)) _ k
    r.dstPort r.srcPort) hsame.symm

end Brgr

/-! ## The GRE lab -/

namespace Gre

open Brgr (Capture Ipv4 be16 etherType ntohs loadMac loadIp dumpByte outerHeaders inetNtop)
open Cap (hex2)
open Reads (load Within)

/-- What follows `GRE type: `. -/
def loadGreType : Reads UInt8 Str := do
  let type := digits (← load 36).toNat ++ digits (← load 37).toNat
  if type = "10188".toList then
    return "Transparent Ethernet Bridging".toList
  else
    return ' ' :: hex2 (← load 34) ++ ' ' :: hex2 (← load 35) ++ ' ' :: hex2 (← load 36) ++
      ' ' :: hex2 (← load 37)

/-- The lines about the inner headers. -/
def innerHeaders : Reads UInt8 (List Str) := do
  let shost ← loadMac 44
  let dhost ← loadMac 38
  let type ← ntohs 50
  if (← ntohs 50) = 2048 then
    let src ← loadIp 64
    let dst ← loadIp 68
    return innerLines shost dhost type src dst
  else
    -- the two addresses are not printed
    return innerLines shost dhost type ⟨0, 0, 0, 0⟩ ⟨0, 0, 0, 0⟩

/-- What the handler of `lab4` has in hand when it starts on the tunnel: the
remote address if it makes one, and what it has printed. -/
structure Decoded where
  tunnel : Option Str
  dump : Str
  outer : List Str
  greType : Str
  inner : List Str

def handlerReads (len : Nat) : Reads UInt8 Decoded := do
  let dump ← (List.range len).foldlM dumpByte []
  let (outer, sourceIp) ← outerHeaders
  let greType ← loadGreType
  let inner ← innerHeaders
  let tunnel := if (← ntohs 12) = 2048 then sourceIp else none
  return { tunnel, dump, outer, greType, inner }

/-- No byte behind the captured ones is looked at. -/
def ReadsCaptured (c : Capture) : Prop :=
  ∀ i ∈ (handlerReads c.len).offsets c.packet, i < c.caplen

theorem within_loadGreType {mem : Nat → UInt8} {n : Nat} :
    Within mem n loadGreType ↔ 38 ≤ n := by
  simp only [loadGreType, Reads.within_bind, Reads.within_ite, Reads.within_load,
    Reads.within_pure, and_true, implies_true, true_and]
  -- bytes 36 and 37 are read either way, and are the last ones
  exact ⟨fun h => h.2.1, fun h => ⟨by omega, h, fun _ => ⟨by omega, by omega, by omega, h⟩⟩⟩

theorem within_innerHeaders {c : Capture} {n : Nat} :
    Within c.packet n innerHeaders ↔ 52 ≤ n ∧ (be16 c 50 = 2048 → 72 ≤ n) := by
  simp only [innerHeaders, Reads.within_bind, Reads.within_ite, Reads.within_pure,
    Brgr.within_loadMac, Brgr.within_loadIp, Brgr.within_ntohs, and_true, implies_true]
  rw [Brgr.eval_ntohs]
  omega

theorem eval_loadGreType (c : Capture) : loadGreType.eval c.packet = greType c := by
  unfold loadGreType greType
  exact Reads.eval_ite _ _

theorem eval_innerHeaders (c : Capture) : innerHeaders.eval c.packet = printedLines c := by
  simp only [innerHeaders, Reads.eval_bind, Reads.eval_ite, Reads.eval_pure]
  split_ifs with h
  · rfl
  · rw [printedLines, innerLines_eq_iff]
    exact ⟨rfl, rfl, rfl, fun h' => absurd h' h⟩

/-- The remote address of the tunnel, if the handler makes one. -/
def remote? (c : Capture) : Option Str :=
  if etherType c = 2048 then some (inetNtop c 26) else none

/-- What the handler prints about the GRE header and the inner frame, and
the tunnel it makes, come from what it reads. -/
theorem eval_handlerReads (c : Capture) :
    let r := (handlerReads c.len).eval c.packet
    r.greType = greType c ∧ r.inner = printedLines c ∧ r.tunnel = remote? c := by
  simp only [handlerReads, outerHeaders, Reads.eval_bind, Reads.eval_pure, eval_loadGreType,
    eval_innerHeaders, Brgr.eval_outerIps, Brgr.eval_ntohs]
  refine ⟨trivial, trivial, ?_⟩
  rw [remote?, etherType]
  split_ifs <;> rfl

theorem gre_readsCaptured_iff (c : Capture) : ReadsCaptured c ↔
    c.caplen = c.len ∧ 52 ≤ c.len ∧ (be16 c 50 = 2048 → 72 ≤ c.len) := by
  have hloop := Brgr.within_loop_outer (a := []) (c := c) Brgr.within_dumpByte
  change Within c.packet c.caplen (handlerReads c.len) ↔ _
  simp only [handlerReads, Reads.within_bind, Reads.within_pure, within_loadGreType,
    within_innerHeaders, Brgr.within_ntohs, and_true]
  rw [← and_assoc, hloop]
  omega

/-- Likewise the printed lines and the remote address. -/
theorem decoded_captured {c c' : Capture} (h : ReadsCaptured c) (hlen : c'.len = c.len)
    (hbytes : ∀ i < c.caplen, c.packet i = c'.packet i) :
    greType c' = greType c ∧ printedLines c' = printedLines c ∧ remote? c' = remote? c := by
  have hsame := Reads.eval_congr hbytes h
  obtain ⟨htype, hlines, htunnel⟩ := eval_handlerReads c
  obtain ⟨htype', hlines', htunnel'⟩ := eval_handlerReads c'
  rw [hlen, ← hsame] at htype' hlines' htunnel'
  exact ⟨htype'.symm.trans htype, hlines'.symm.trans hlines, htunnel'.symm.trans htunnel⟩

end Gre

/-! ## Both handlers -/

open Brgr (Capture etherType be16)

/-- The handlers stay inside what was captured exactly on packets captured
whole that are long enough: for the Ethernet header, and the IP header if
the EtherType says IPv4; in `lab4`, which takes every packet for GRE with
Ethernet in it, for the inner Ethernet header, and the inner IP header if
the inner EtherType says IPv4. What they decode then is decided by the
captured bytes. -/
theorem readsCaptured_iff (c : Capture) :
    (Brgr.ReadsCaptured c ↔
      c.caplen = c.len ∧ 14 ≤ c.len ∧ (etherType c = 2048 → 34 ≤ c.len)) ∧
    (Gre.ReadsCaptured c ↔
      c.caplen = c.len ∧ 52 ≤ c.len ∧ (be16 c 50 = 2048 → 72 ≤ c.len)) ∧
    ∀ c' : Capture, c'.len = c.len → (∀ i < c.caplen, c.packet i = c'.packet i) →
      (Brgr.ReadsCaptured c → ∀ k env, Brgr.handlerLink k env c' = Brgr.handlerLink k env c) ∧
      (Gre.ReadsCaptured c → Gre.greType c' = Gre.greType c ∧
        Gre.printedLines c' = Gre.printedLines c ∧ Gre.remote? c' = Gre.remote? c) :=
  ⟨Brgr.brgr_readsCaptured_iff c, Gre.gre_readsCaptured_iff c, fun _ hlen hbytes =>
    ⟨fun h k env => Brgr.handlerLink_captured h hlen hbytes k env,
      fun h => Gre.decoded_captured h hlen hbytes⟩⟩

/-- A frame longer than the snapshot length of `pcap_open_live`, and a
42-byte frame (an ARP request, say) captured whole. -/
def longCapture : Capture := ⟨9014, 8192, by omega, fun _ => 0⟩

def shortCapture : Capture := ⟨42, 42, le_rfl, fun _ => 0⟩

/-- The first is read behind its end by both handlers, the second by the one
of `lab4`. -/
theorem not_readsCaptured_longCapture :
    (¬ Brgr.ReadsCaptured longCapture ∧ ¬ Gre.ReadsCaptured longCapture) ∧
      ¬ Gre.ReadsCaptured shortCapture := by
  rw [Brgr.brgr_readsCaptured_iff, Gre.gre_readsCaptured_iff, Gre.gre_readsCaptured_iff]
  simp only [longCapture, shortCapture]
  omega

end NetSystem
