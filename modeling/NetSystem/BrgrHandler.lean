import Mathlib.Algebra.Order.Ring.Int
import Mathlib.Tactic.Ring
import NetSystem.BrgrFrame

/-!
# `packetHandler` of the tunnel daemon

The BRGr side of `ns_project/packet_capture.cpp`: decoding of a captured
registration (`power`, `bToInt`, `scanPorts`), the commands it runs, the
globals it changes, and `pcap_loop` around it.

The daemon's memory of earlier tunnels is only the text in `filter`:
every tunnel appends a ` and not port P` clause and re-installs the
result. The handler is called on the packets the *installed* filter
accepts, and the two part ways when the extended text does not compile
or `pcap_setfilter` fails.

Console output is left out. Two things the handler reads are not in the
packet or the globals and come in as an `Env`: what the uninitialised
`sourceIp` buffer holds when the packet is not IPv4, and whether
`pcap_setfilter` succeeds.
-/

namespace NetSystem

namespace Brgr

/-! ## Decoding -/

/-- `for (i < p) k *= t`. -/
def power (t : Int) (p : Nat) : Int :=
  (List.range p).foldl (fun k _ => k * t) 1

/-- One round of the loop in `b_to_int`: the accumulator and the exponent. -/
def bToIntStep (acc : Int × Nat) (c : Char) : Int × Nat :=
  (acc.1 + ((c.toNat : Int) - 48) * power 2 acc.2, acc.2 + 1)

/-- The integer `b_to_int` converts to text; the loop runs from the last
character to the first. -/
def bToIntVal (s : Str) : Int := (s.reverse.foldl bToIntStep (0, 0)).1

/-- `std::to_string` of an `int`. -/
def intText : Int → Str
  | .ofNat n => digits n
  | .negSucc n => '-' :: digits (n + 1)

def bToInt (s : Str) : Str := intText (bToIntVal s)

/-- `bitset<8>(b).to_string()`: most significant bit first. -/
def bits8 (b : UInt8) : Str :=
  [7, 6, 5, 4, 3, 2, 1, 0].map fun k => if b.toNat.testBit k then '1' else '0'

/-- A byte as a `char`. -/
def byteChar (b : UInt8) : Char := Char.ofNat b.toNat

/-- The body of the printing loop, as far as it fills `dst_port` and
`src_port`. -/
def scanByte (c : Capture) (acc : Str × Str) (i : Nat) : Str × Str :=
  (if 36 ≤ i ∧ i ≤ 37 then acc.1 ++ bits8 (c.packet i) else acc.1,
   if 42 ≤ i then acc.2 ++ [byteChar (c.packet i)] else acc.2)

/-- `for (i = 0; i < len; ++i)`. -/
def scanPorts (c : Capture) (len : Nat) : Str × Str :=
  (List.range len).foldl (scanByte c) ([], [])

def dstPort (c : Capture) : Str := bToInt (scanPorts c c.len).1

def srcPort (c : Capture) : Str := (scanPorts c c.len).2

/-! ## Commands -/

/-- The operands of an `ip link add GRE<index> type gretap` command. -/
structure GreLink where
  index : Nat
  remoteIp : Str
  localIp : Str
  key : Nat
  encapSport : Str
  encapDport : Str
deriving DecidableEq, Repr

inductive Cmd where
  | fouAdd (port : Str)
  | linkAddGre (l : GreLink)
  | linkSetUp (dev : Str)
  | linkAddBridge (br : Str)
  | brctlAddif (br dev : Str)
deriving DecidableEq, Repr

def greName (k : Nat) : Str := "GRE".toList ++ digits k

/-- The string given to the shell. -/
def Cmd.text : Cmd → Str
  | .fouAdd port => "ip fou add port ".toList ++ port ++ " ipproto 47".toList
  | .linkAddGre l =>
      "ip link add ".toList ++ greName l.index ++ " type gretap remote ".toList
        ++ l.remoteIp ++ " local ".toList ++ l.localIp ++ " key ".toList
        ++ digits l.key ++ " encap fou encap-sport ".toList ++ l.encapSport
        ++ " encap-dport ".toList ++ l.encapDport
  | .linkSetUp dev => "ip link set ".toList ++ dev ++ " up".toList
  | .linkAddBridge br => "ip link add ".toList ++ br ++ " type bridge".toList
  | .brctlAddif br dev => "brctl addif ".toList ++ br ++ ' ' :: dev

def Cmd.fouPort? : Cmd → Option Str
  | .fouAdd port => some port
  | _ => none

def Cmd.greLink? : Cmd → Option GreLink
  | .linkAddGre l => some l
  | _ => none

/-! ## The daemon -/

/-- The globals of the daemon, the filter program in force, and two
history variables: the commands run so far and the ports the clauses of
the installed filter exclude (none of the handler's decisions read them). -/
structure Daemon where
  tunnelCnt : Nat
  filter : Str
  installed : Capture → Bool
  cmds : List Cmd
  excluded : List Str

/-- The local FOU ports of the tunnels created so far. -/
def Daemon.ports (d : Daemon) : List Str := d.cmds.filterMap Cmd.fouPort?

/-- The gretap links created so far. -/
def Daemon.links (d : Daemon) : List GreLink := d.cmds.filterMap Cmd.greLink?

/-- The strings passed to `system()`. -/
def Daemon.shell (d : Daemon) : List Str := d.cmds.map fun c => cStr c.text

/-- What the handler depends on besides the packet and the globals. -/
structure Env where
  stack : Str
  setfilter : Bool
deriving DecidableEq, Repr

/-- `string(sourceIp)`, up to the first NUL if nothing was written there. -/
def sourceIp (c : Capture) (env : Env) : Str :=
  if etherType c = 2048 then inetNtop c 26 else cStr env.stack

/-- The gretap link `packetHandler` adds for a packet. -/
def handlerLink (k : Nat) (env : Env) (c : Capture) : GreLink where
  index := k
  remoteIp := sourceIp c env
  localIp := "140.113.0.2".toList
  key := k
  encapSport := dstPort c
  encapDport := srcPort c

/-- The commands of one call, with the counter at `k`. -/
def handlerCmds (k : Nat) (env : Env) (c : Capture) : List Cmd :=
  [Cmd.fouAdd (dstPort c), .linkAddGre (handlerLink k env c), .linkSetUp (greName k)]
    ++ (if k = 1 then
          [Cmd.linkAddBridge "br1".toList, .brctlAddif "br1".toList "BRGr-eth0".toList]
        else [])
    ++ [Cmd.brctlAddif "br1".toList (greName k)]
    ++ (if k = 1 then [Cmd.linkSetUp "br1".toList] else [])

/-- `filter = temp + " and not port " + dst_port`. -/
def extendFilter (filter port : Str) : Str :=
  filter ++ " and not port ".toList ++ port

variable (P : Pcap)

def packetHandler (env : Env) (d : Daemon) (c : Capture) : Daemon :=
  let cmds := d.cmds ++ handlerCmds d.tunnelCnt env c
  let filter := extendFilter d.filter (dstPort c)
  let d' : Daemon := { d with tunnelCnt := d.tunnelCnt + 1, filter, cmds }
  match P.compile (cStr filter) with
  -- "Couldn't parse filter": the old program stays in force
  | none => d'
  | some f =>
      -- "Couldn't install filter": likewise
      if env.setfilter then
        -- a NUL in the text hides every clause appended after it
        let excluded := if cStr filter = filter then d'.ports else d.excluded
        { d' with installed := f, excluded }
      else d'

/-- `main` up to `pcap_loop`: the base filter is compiled and installed,
or the program exits. -/
def start (base : Str) (setfilter : Bool) : Option Daemon :=
  match P.compile (cStr base) with
  | none => none
  | some f =>
      if setfilter then
        some { tunnelCnt := 1, filter := base, installed := f, cmds := [], excluded := [] }
      else none

/-- One packet on the interface: the handler runs if the installed filter
accepts it. -/
def offer (d : Daemon) (i : Capture × Env) : Daemon :=
  if d.installed i.1 then packetHandler P i.2 d i.1 else d

/-- `pcap_loop` over a sequence of packets. -/
def pcapLoop (d : Daemon) (ins : List (Capture × Env)) : Daemon :=
  ins.foldl (offer P) d

/-! ## What the decoding computes -/

theorem power_eq (t : Int) : ∀ p, power t p = t ^ p
  | 0 => by simp [power]
  | p + 1 => by
      have ih := power_eq t p
      rw [power] at ih ⊢
      rw [List.range_succ, List.foldl_append, ih]
      exact (pow_succ t p).symm

/-- The number a string of digits 0 and 1 denotes, first digit highest. -/
def bitsVal : Str → Int
  | [] => 0
  | c :: s => ((c.toNat : Int) - 48) * 2 ^ s.length + bitsVal s

theorem bToIntStep_foldl : ∀ s : Str,
    s.reverse.foldl bToIntStep (0, 0) = (bitsVal s, s.length)
  | [] => rfl
  | c :: s => by
      rw [List.reverse_cons, List.foldl_append, bToIntStep_foldl s]
      simp only [List.foldl_cons, List.foldl_nil, bToIntStep, power_eq, bitsVal,
        List.length_cons]
      rw [add_comm]

theorem bToIntVal_eq (s : Str) : bToIntVal s = bitsVal s := by
  rw [bToIntVal, bToIntStep_foldl]

theorem bitsVal_append : ∀ s t : Str,
    bitsVal (s ++ t) = bitsVal s * 2 ^ t.length + bitsVal t
  | [], t => by simp [bitsVal]
  | c :: s, t => by
      simp only [List.cons_append, bitsVal, bitsVal_append s t, List.length_append,
        pow_add]
      ring

theorem bitsVal_bits8 (b : UInt8) : bitsVal (bits8 b) = (b.toNat : Int) := by
  have hall : ∀ n < 256, bitsVal (bits8 (UInt8.ofNat n)) = (n : Int) := by
    decide +kernel
  have h := hall b.toNat b.toNat_lt
  rwa [UInt8.ofNat_toNat] at h

theorem bits8_length (b : UInt8) : (bits8 b).length = 8 := rfl

/-- The bits the loop collects: none, one or both bytes of the port field,
depending on the length of the packet. -/
theorem scanPorts_fst (c : Capture) : ∀ n, (scanPorts c n).1 =
    if n ≤ 36 then []
    else if n = 37 then bits8 (c.packet 36)
    else bits8 (c.packet 36) ++ bits8 (c.packet 37)
  | 0 => rfl
  | n + 1 => by
      have ih := scanPorts_fst c n
      rw [scanPorts] at ih ⊢
      rw [List.range_succ, List.foldl_append, List.foldl_cons, List.foldl_nil, scanByte]
      simp only [ih]
      rcases Nat.lt_trichotomy n 36 with h | rfl | h
      · rw [if_neg (by omega), if_pos (by omega), if_pos (by omega)]
      · simp
      · rcases Nat.lt_or_eq_of_le (show 37 ≤ n by omega) with h' | rfl
        · rw [if_neg (by omega), if_neg (by omega), if_neg (by omega), if_neg (by omega),
            if_neg (by omega)]
        · simp

/-- `src_port` is every byte from offset 42 on. -/
theorem scanPorts_snd (c : Capture) : ∀ n, (scanPorts c n).2 =
    (List.range (n - 42)).map fun j => byteChar (c.packet (42 + j))
  | 0 => rfl
  | n + 1 => by
      have ih := scanPorts_snd c n
      rw [scanPorts] at ih ⊢
      rw [List.range_succ, List.foldl_append, List.foldl_cons, List.foldl_nil, scanByte]
      simp only [ih]
      by_cases h : 42 ≤ n
      · rw [if_pos h, Nat.succ_sub h, List.range_succ, List.map_append]
        simp [Nat.add_sub_cancel' h]
      · rw [if_neg h, show n + 1 - 42 = 0 by omega, show n - 42 = 0 by omega]

/-- The port number the handler decodes. -/
def dstPortNum (c : Capture) : Nat :=
  if c.len ≤ 36 then 0
  else if c.len = 37 then (c.packet 36).toNat
  else be16 c 36

theorem dstPortNum_lt (c : Capture) : dstPortNum c < 65536 := by
  have h1 := be16_lt c 36
  have h2 := (c.packet 36).toNat_lt
  unfold dstPortNum
  split
  · omega
  · split <;> omega

theorem dstPort_eq (c : Capture) : dstPort c = digits (dstPortNum c) := by
  have hval : bitsVal (scanPorts c c.len).1 = (dstPortNum c : Int) := by
    rw [scanPorts_fst, dstPortNum]
    split
    · rfl
    · split
      · exact bitsVal_bits8 _
      · rw [bitsVal_append, bitsVal_bits8, bitsVal_bits8, bits8_length, be16]
        push_cast
        ring
  rw [dstPort, bToInt, bToIntVal_eq, hval]
  rfl

namespace UdpFrame

theorem dstPort_capture (r : UdpFrame) :
    Brgr.dstPort r.capture = digits r.dstPort.toNat := by
  have hlen := r.capture_len
  rw [dstPort_eq, dstPortNum, if_neg (by omega), if_neg (by omega), be16_dstPort]

/-- The remote end of the tunnel is the address the datagram came from. -/
theorem sourceIp_capture (r : UdpFrame) (env : Env) : sourceIp r.capture env = r.srcIp.text := by
  rw [sourceIp, if_pos r.etherType_capture, inetNtop, Ipv4.text]
  simp only [r.packet_capture (show 26 < 42 by omega), r.packet_capture (show 27 < 42 by omega),
    r.packet_capture (show 28 < 42 by omega), r.packet_capture (show 29 < 42 by omega)]
  rfl

/-- Padding included: the loop runs to the end of the frame. -/
theorem srcPort_capture (r : UdpFrame) :
    Brgr.srcPort r.capture = (r.payload ++ r.trailer).map byteChar := by
  rw [Brgr.srcPort, scanPorts_snd, r.capture_len, Nat.add_sub_cancel_left]
  have hbyte : ∀ j, r.capture.packet (42 + j) = (r.payload ++ r.trailer).getD j 0 := by
    intro j
    simp only [capture, bytes, List.getD_eq_getElem?_getD]
    rw [List.getElem?_append_right (by simp)]
    simp
  refine List.ext_getElem (by simp) fun j h1 h2 => ?_
  have hj : j < (r.payload ++ r.trailer).length := by simpa using h2
  rw [List.getElem_map, List.getElem_map, List.getElem_range, hbyte,
    List.getD_eq_getElem?_getD, List.getElem?_eq_getElem hj, Option.getD_some]

end UdpFrame

/-! ## What one call of the handler changes -/

theorem handlerCmds_fouPort (k : Nat) (env : Env) (c : Capture) :
    (handlerCmds k env c).filterMap Cmd.fouPort? = [dstPort c] := by
  by_cases h : k = 1 <;> simp [handlerCmds, h, Cmd.fouPort?, List.filterMap_cons]

theorem handlerCmds_greLink (k : Nat) (env : Env) (c : Capture) :
    (handlerCmds k env c).filterMap Cmd.greLink? = [handlerLink k env c] := by
  by_cases h : k = 1 <;> simp [handlerCmds, h, Cmd.greLink?, List.filterMap_cons]

variable {P}

/-- The part of a call that does not depend on the filter: one more tunnel,
one more clause in the text, whether or not the text is installed. -/
theorem packetHandler_effect (env : Env) (d : Daemon) (c : Capture) :
    (packetHandler P env d c).tunnelCnt = d.tunnelCnt + 1 ∧
    (packetHandler P env d c).filter = extendFilter d.filter (dstPort c) ∧
    (packetHandler P env d c).cmds = d.cmds ++ handlerCmds d.tunnelCnt env c := by
  unfold packetHandler
  simp only
  split
  · exact ⟨rfl, rfl, rfl⟩
  · split <;> exact ⟨rfl, rfl, rfl⟩

/-- The program in force after a call: the extended text if it compiled and
was installed, otherwise the old one. -/
theorem packetHandler_program (env : Env) (d : Daemon) (c : Capture) :
    (∃ f, P.compile (cStr (extendFilter d.filter (dstPort c))) = some f ∧
      env.setfilter = true ∧ (packetHandler P env d c).installed = f ∧
      (packetHandler P env d c).excluded =
        if cStr (extendFilter d.filter (dstPort c)) = extendFilter d.filter (dstPort c)
        then (packetHandler P env d c).ports else d.excluded) ∨
    ((P.compile (cStr (extendFilter d.filter (dstPort c))) = none ∨
        env.setfilter = false) ∧
      (packetHandler P env d c).installed = d.installed ∧
      (packetHandler P env d c).excluded = d.excluded) := by
  unfold packetHandler
  simp only
  split
  · next h => exact Or.inr ⟨Or.inl h, rfl, rfl⟩
  · next f h =>
      split
      · next hset => exact Or.inl ⟨f, h, hset, rfl, rfl⟩
      · next hset => exact Or.inr ⟨Or.inr (by simpa using hset), rfl, rfl⟩

theorem packetHandler_ports (env : Env) (d : Daemon) (c : Capture) :
    (packetHandler P env d c).ports = d.ports ++ [dstPort c] := by
  rw [Daemon.ports, (packetHandler_effect env d c).2.2, List.filterMap_append,
    handlerCmds_fouPort]
  rfl

theorem packetHandler_links (env : Env) (d : Daemon) (c : Capture) :
    (packetHandler P env d c).links = d.links ++ [handlerLink d.tunnelCnt env c] := by
  rw [Daemon.links, (packetHandler_effect env d c).2.2, List.filterMap_append,
    handlerCmds_greLink]
  rfl

end Brgr

end NetSystem
