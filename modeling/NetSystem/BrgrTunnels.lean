import Mathlib.Data.List.Induction
import Mathlib.Data.List.Nodup
import NetSystem.BrgrHandler

/-!
# The daemon's filter over whole runs

What the filter text built by `packetHandler` means after any sequence of
packets, and the two laws that follow.

`FilterInv` is the invariant: the text is the base followed by one clause
for each tunnel, and the program in force accepts what the base accepts
less the ports of a *prefix* of the tunnels - all of them when every
update was compiled and installed. It needs nothing from the base:
a blank base makes every extension a syntax error and a NUL hides every
clause, and in both cases the prefix stays empty.

- `tunnel_ports_distinct`: no two tunnels on one port, provided the base
  is neither blank nor cut by a NUL, the updates are installed, and the
  packets the base accepts carry at bytes 36-37 a port that the filter
  sees in them too.
- `registration_handled_iff`: a registration for a new port is handled
  exactly when its *source* port is not excluded; the clause is
  `not port`, not `not dst port`.
-/

namespace NetSystem

namespace Brgr

variable {P : Pcap} {base : Str} {f : Capture → Bool} {d : Daemon}

/-! ## The text and its meaning -/

/-- The filter text after tunnels on the ports `ns`. -/
def clauseText (base : Str) (ns : List Nat) : Str :=
  ns.foldl (fun e n => extendFilter e (digits n)) base

/-- Accepted by `f`, and none of the ports `ns` seen in it. -/
def avoids (P : Pcap) (f : Capture → Bool) (ns : List Nat) (c : Capture) : Bool :=
  f c && ns.all fun n => !P.port n c

theorem clauseText_snoc (base : Str) (ns : List Nat) (n : Nat) :
    clauseText base (ns ++ [n]) = extendFilter (clauseText base ns) (digits n) := by
  simp [clauseText]

theorem avoids_nil (P : Pcap) (f : Capture → Bool) : avoids P f [] = f := by
  funext c
  simp [avoids]

theorem avoids_snoc (P : Pcap) (f : Capture → Bool) (ns : List Nat) (n : Nat) :
    avoids P f (ns ++ [n]) = fun c => avoids P f ns c && !P.port n c := by
  funext c
  simp [avoids, Bool.and_assoc]

theorem nul_notMem_extendFilter {e : Str} {n : Nat} (h : '\x00' ∉ e) :
    '\x00' ∉ extendFilter e (digits n) := by
  simp only [extendFilter, List.mem_append, not_or]
  exact ⟨⟨h, by decide⟩, nul_notMem_digits n⟩

theorem nul_notMem_clauseText (h : '\x00' ∉ base) (ns : List Nat) :
    '\x00' ∉ clauseText base ns := by
  induction ns using List.reverseRecOn with
  | nil => exact h
  | append_singleton ns n ih =>
      rw [clauseText_snoc]
      exact nul_notMem_extendFilter ih

theorem clauseText_append (base : Str) (ns : List Nat) :
    ∃ t, clauseText base ns = base ++ t := by
  induction ns using List.reverseRecOn with
  | nil => exact ⟨[], (List.append_nil base).symm⟩
  | append_singleton ns n ih =>
      obtain ⟨t, ht⟩ := ih
      refine ⟨t ++ " and not port ".toList ++ digits n, ?_⟩
      rw [clauseText_snoc, ht, extendFilter]
      simp only [List.append_assoc]

theorem not_blank_clauseText (h : ¬ Blank base) (ns : List Nat) :
    ¬ Blank (clauseText base ns) := by
  obtain ⟨t, ht⟩ := clauseText_append base ns
  rw [ht]
  exact fun hb => h fun c hc => hb c (List.mem_append_left t hc)

theorem cStr_ne_self_of_nul {s : Str} (h : '\x00' ∈ s) : cStr s ≠ s := by
  intro heq
  rw [← heq] at h
  exact absurd (List.mem_takeWhile_imp h) (by decide)

theorem nul_mem_clauseText (h : '\x00' ∈ base) (ns : List Nat) :
    '\x00' ∈ clauseText base ns := by
  obtain ⟨t, ht⟩ := clauseText_append base ns
  rw [ht]
  exact List.mem_append_left t h

/-- A NUL in the base hides all clauses. -/
theorem cStr_clauseText_of_nul (h : '\x00' ∈ base) (ns : List Nat) :
    cStr (clauseText base ns) = cStr base := by
  obtain ⟨t, ht⟩ := clauseText_append base ns
  rw [ht, cStr, List.takeWhile_append, if_neg]
  · rfl
  · intro hlen
    have hself : cStr base = base := (List.takeWhile_prefix _).eq_of_length hlen
    exact cStr_ne_self_of_nul h hself

/-- A good base: the text compiles after any tunnels, to the meaning it is
meant to have. -/
theorem compile_clauseText (hf : P.compile base = some f) (hb : ¬ Blank base)
    {ns : List Nat} (hns : ∀ n ∈ ns, n < 65536) :
    P.compile (clauseText base ns) = some (avoids P f ns) := by
  induction ns using List.reverseRecOn with
  | nil => rw [avoids_nil]; exact hf
  | append_singleton ns n ih =>
      have hold := ih fun m hm => hns m (List.mem_append_left _ hm)
      rw [clauseText_snoc, avoids_snoc, extendFilter]
      exact P.compile_and_not_port hold (not_blank_clauseText hb ns)
        (hns n (by simp))

/-- A blank base: no extension compiles. -/
theorem compile_clauseText_blank (hb : Blank base) {ns : List Nat} (hne : ns ≠ []) :
    P.compile (clauseText base ns) = none := by
  cases ns with
  | nil => exact absurd rfl hne
  | cons n ns =>
      obtain ⟨t, ht⟩ := clauseText_append (extendFilter base (digits n)) ns
      have htext : clauseText base (n :: ns) =
          base ++ " and ".toList ++ ("not port ".toList ++ (digits n ++ t)) := by
        show clauseText (extendFilter base (digits n)) ns = _
        rw [ht, extendFilter]
        simp [List.append_assoc]
      rw [htext]
      exact P.compile_blank_and hb

/-! ## The invariant -/

/-- The daemon after tunnels on the ports `ns`, `ms` of them excluded by
the program in force. -/
structure FilterInv (P : Pcap) (base : Str) (f : Capture → Bool) (d : Daemon)
    (ns ms : List Nat) : Prop where
  ports : d.ports = ns.map digits
  bound : ∀ n ∈ ns, n < 65536
  filter : d.filter = clauseText base ns
  made : ms <+: ns
  hidden : Blank base ∨ '\x00' ∈ base → ms = []
  excluded : d.excluded = ms.map digits
  installed : d.installed = avoids P f ms

theorem start_eq_some {b : Bool} (h : start P base b = some d) :
    ∃ f, P.compile (cStr base) = some f ∧ b = true ∧
      d = { tunnelCnt := 1, filter := base, installed := f, cmds := [], excluded := [] } := by
  unfold start at h
  split at h
  · cases h
  · next f hf =>
      split at h
      · next hb => exact ⟨f, hf, hb, (Option.some.inj h).symm⟩
      · cases h

theorem start_inv {b : Bool} (h : start P base b = some d) :
    P.compile (cStr base) = some d.installed ∧
      FilterInv P base d.installed d [] [] := by
  obtain ⟨f, hf, -, rfl⟩ := start_eq_some h
  exact ⟨hf, rfl, by simp, rfl, List.prefix_refl _, fun _ => rfl, rfl,
    (avoids_nil P f).symm⟩

/-- What one call of the handler does to the text and the program in
force. -/
theorem packetHandler_inv (hf : P.compile (cStr base) = some f)
    {ns ms : List Nat} (hd : FilterInv P base f d ns ms) (env : Env) (c : Capture) :
    ∃ ms', FilterInv P base f (packetHandler P env d c) (ns ++ [dstPortNum c]) ms' ∧
      (¬ Blank base → '\x00' ∉ base → env.setfilter = true →
        ms' = ns ++ [dstPortNum c]) := by
  have hports : (packetHandler P env d c).ports = (ns ++ [dstPortNum c]).map digits := by
    rw [packetHandler_ports, hd.ports, dstPort_eq]
    simp
  have hbound : ∀ m ∈ ns ++ [dstPortNum c], m < 65536 := by
    intro m hm
    rcases List.mem_append.mp hm with hm | hm
    · exact hd.bound m hm
    · rw [List.mem_singleton.mp hm]
      exact dstPortNum_lt c
  have htext : extendFilter d.filter (dstPort c) =
      clauseText base (ns ++ [dstPortNum c]) := by
    rw [clauseText_snoc, hd.filter, dstPort_eq]
  have hfilter := (packetHandler_effect (P := P) env d c).2.1.trans htext
  have hmade : ms <+: ns ++ [dstPortNum c] := hd.made.trans (List.prefix_append _ _)
  have hprog := packetHandler_program (P := P) env d c
  rw [htext] at hprog
  rcases hprog with ⟨f', hf', -, hi, he⟩ | ⟨hfail, hi, he⟩
  · by_cases hnul : '\x00' ∈ base
    · -- the text compiled is the base again, and no clause of it is new
      rw [cStr_clauseText_of_nul hnul, hf] at hf'
      rw [if_neg (cStr_ne_self_of_nul (nul_mem_clauseText hnul _))] at he
      obtain rfl := Option.some.inj hf'
      refine ⟨ms, ⟨hports, hbound, hfilter, hmade, hd.hidden, he.trans hd.excluded, ?_⟩,
        fun _ h => absurd hnul h⟩
      rw [hi, hd.hidden (Or.inr hnul), avoids_nil]
    · have hself := cStr_eq_self (nul_notMem_clauseText hnul (ns ++ [dstPortNum c]))
      rw [cStr_eq_self hnul] at hf
      rw [hself] at hf'
      rw [if_pos hself] at he
      have hb : ¬ Blank base := fun hb => by
        rw [compile_clauseText_blank hb (by simp)] at hf'
        cases hf'
      rw [compile_clauseText hf hb hbound] at hf'
      obtain rfl := Option.some.inj hf'
      exact ⟨ns ++ [dstPortNum c], ⟨hports, hbound, hfilter, List.prefix_refl _,
        fun h => (h.elim hb hnul).elim, he.trans hports, hi⟩, fun _ _ _ => rfl⟩
  · refine ⟨ms, ⟨hports, hbound, hfilter, hmade, hd.hidden, he.trans hd.excluded,
      hi.trans hd.installed⟩, fun hb hnul hset => ?_⟩
    -- a good base always compiles, so the update can only have failed to install
    rcases hfail with hnone | hset'
    · rw [cStr_eq_self hnul] at hf
      rw [cStr_eq_self (nul_notMem_clauseText hnul _),
        compile_clauseText hf hb hbound] at hnone
      cases hnone
    · rw [hset] at hset'
      cases hset'

theorem offer_inv (hf : P.compile (cStr base) = some f) {ns ms : List Nat}
    (hd : FilterInv P base f d ns ms) (i : Capture × Env) :
    ∃ ns' ms', FilterInv P base f (offer P d i) ns' ms' := by
  unfold offer
  split
  · obtain ⟨ms', h, -⟩ := packetHandler_inv hf hd i.2 i.1
    exact ⟨_, ms', h⟩
  · exact ⟨ns, ms, hd⟩

/-- The invariant holds after every sequence of packets. -/
theorem pcapLoop_inv (hf : P.compile (cStr base) = some f)
    {ns ms : List Nat} (hd : FilterInv P base f d ns ms) (ins : List (Capture × Env)) :
    ∃ ns' ms', FilterInv P base f (pcapLoop P d ins) ns' ms' := by
  induction ins generalizing d ns ms with
  | nil => exact ⟨ns, ms, hd⟩
  | cons i ins ih =>
      obtain ⟨ns', ms', h⟩ := offer_inv hf hd i
      exact ih h

/-! ## One tunnel per port -/

/-- The filter sees, as a UDP port of the packet, the number the handler
takes from bytes 36 and 37. -/
def PortVisible (c : Capture) : Prop :=
  38 ≤ c.len ∧ udpPort (be16 c 36) c = true

instance (c : Capture) : Decidable (PortVisible c) :=
  inferInstanceAs (Decidable (_ ∧ _))

theorem PortVisible.port (P : Pcap) {c : Capture} (h : PortVisible c) :
    P.port (dstPortNum c) c = true := by
  obtain ⟨hlen, hport⟩ := h
  have hudp : IsUdp c := by
    simp only [udpPort, Bool.and_eq_true, decide_eq_true_eq] at hport
    exact hport.1
  rw [dstPortNum, if_neg (by omega), if_neg (by omega), P.port_udp hudp]
  exact hport

/-- Every UDP datagram without IP options is decoded as the filter decodes
it. -/
theorem UdpFrame.portVisible (r : UdpFrame) : PortVisible r.capture := by
  refine ⟨?_, ?_⟩
  · rw [r.capture_len]
    omega
  · rw [r.be16_dstPort, r.udpPort_capture]
    exact Or.inr rfl

/-- The step of the uniqueness argument: a packet that passes the filter is
for a port no earlier tunnel has. -/
theorem offer_nodup {ns : List Nat} (hf : P.compile (cStr base) = some f)
    (hb : ¬ Blank base) (hnul : '\x00' ∉ base) (hd : FilterInv P base f d ns ns)
    (hns : ns.Nodup) {i : Capture × Env} (hset : i.2.setfilter = true)
    (hvis : f i.1 = true → PortVisible i.1) :
    ∃ ns', FilterInv P base f (offer P d i) ns' ns' ∧ ns'.Nodup := by
  unfold offer
  split
  · next hacc =>
      rw [hd.installed, avoids, Bool.and_eq_true, List.all_eq_true] at hacc
      obtain ⟨hfi, hall⟩ := hacc
      have hport := (hvis hfi).port P
      have hnew : dstPortNum i.1 ∉ ns := fun hmem => by
        have := hall _ hmem
        rw [hport] at this
        cases this
      obtain ⟨ms', h, hms⟩ := packetHandler_inv hf hd i.2 i.1
      obtain rfl := hms hb hnul hset
      exact ⟨_, h, List.Nodup.append hns (List.nodup_singleton _)
        (List.disjoint_singleton.mpr hnew)⟩
  · exact ⟨ns, hd, hns⟩

theorem pcapLoop_nodup (hf : P.compile (cStr base) = some f) (hb : ¬ Blank base)
    (hnul : '\x00' ∉ base) {ins : List (Capture × Env)} {ns : List Nat}
    (hset : ∀ i ∈ ins, i.2.setfilter = true)
    (hvis : ∀ i ∈ ins, f i.1 = true → PortVisible i.1)
    (hd : FilterInv P base f d ns ns) (hns : ns.Nodup) :
    (pcapLoop P d ins).ports.Nodup := by
  induction ins generalizing d ns with
  | nil =>
      rw [pcapLoop, List.foldl_nil, hd.ports]
      exact hns.map digits_injective
  | cons i ins ih =>
      rw [List.forall_mem_cons] at hset hvis
      obtain ⟨ns', hd', hns'⟩ := offer_nodup hf hb hnul hd hns hset.1 hvis.1
      exact ih hset.2 hvis.2 hd' hns'

/-- **At most one tunnel per port**, in every run over a base filter that
can be extended. -/
theorem tunnel_ports_distinct {ins : List (Capture × Env)}
    (hstart : start P base true = some d) (hb : ¬ Blank base) (hnul : '\x00' ∉ base)
    (hset : ∀ i ∈ ins, i.2.setfilter = true)
    (hvis : ∀ i ∈ ins, d.installed i.1 = true → PortVisible i.1) :
    (pcapLoop P d ins).ports.Nodup := by
  obtain ⟨hf, hinv⟩ := start_inv hstart
  exact pcapLoop_nodup hf hb hnul hset hvis hinv List.nodup_nil

/-- A base that cannot be extended - blank, or cut by a NUL - keeps the
first program in force for good: every packet it accepts makes a tunnel,
repeated or not. -/
theorem unextendable_handles_all (hf : P.compile (cStr base) = some f)
    (hbad : Blank base ∨ '\x00' ∈ base) {ns ms : List Nat}
    (hd : FilterInv P base f d ns ms) (ins : List (Capture × Env)) :
    (pcapLoop P d ins).ports =
      d.ports ++ (ins.filter fun i => f i.1).map fun i => dstPort i.1 := by
  induction ins generalizing d ns ms with
  | nil => simp [pcapLoop]
  | cons i ins ih =>
      have hinst : d.installed = f := by rw [hd.installed, hd.hidden hbad, avoids_nil]
      rw [pcapLoop, List.foldl_cons, offer, hinst, List.filter_cons]
      by_cases hacc : f i.1 = true
      · obtain ⟨ms', h, -⟩ := packetHandler_inv hf hd i.2 i.1
        rw [if_pos hacc, if_pos hacc]
        have hrest := ih h
        rw [pcapLoop] at hrest
        rw [hrest, packetHandler_ports]
        simp
      · rw [if_neg hacc, if_neg hacc]
        exact ih hd

/-! ## No registration is lost -/

/-- The program in force on a UDP datagram: the base, and neither port of
the datagram excluded. -/
theorem FilterInv.installed_udp {ns ms : List Nat} (hd : FilterInv P base f d ns ms)
    (r : UdpFrame) : d.installed r.capture = true ↔
      f r.capture = true ∧ digits r.srcPort.toNat ∉ d.excluded ∧
        digits r.dstPort.toNat ∉ d.excluded := by
  have hmem : ∀ n, digits n ∈ d.excluded ↔ n ∈ ms := fun n => by
    rw [hd.excluded, List.mem_map_of_injective digits_injective]
  have hport : ∀ n, P.port n r.capture = true ↔ r.srcPort.toNat = n ∨ r.dstPort.toNat = n :=
    fun n => by rw [P.port_udp r.isUdp_capture, r.udpPort_capture]
  rw [hmem, hmem, hd.installed, avoids, Bool.and_eq_true, List.all_eq_true]
  refine and_congr_right fun _ => ⟨fun h => ⟨fun hs => ?_, fun ht => ?_⟩, ?_⟩
  · have := h _ hs
    rw [(hport _).mpr (Or.inl rfl)] at this
    cases this
  · have := h _ ht
    rw [(hport _).mpr (Or.inr rfl)] at this
    cases this
  · rintro ⟨hs, ht⟩ n hn
    rw [Bool.not_eq_true', ← Bool.not_eq_true, hport]
    rintro (rfl | rfl)
    · exact hs hn
    · exact ht hn

/-- A datagram `send_udp.sh` sends: UDP to 140.113.0.2, whatever its ports
and payload. -/
def IsRegistration (r : UdpFrame) : Prop := r.dstIp = ⟨140, 113, 0, 2⟩

/-- **When a registration is handled.** After any run over a base that
accepts all registrations, a registration for a port without a tunnel is
delivered and gets its tunnel exactly when its source port is not among the
ports the installed filter excludes. -/
theorem registration_handled_iff {ins : List (Capture × Env)} {env : Env}
    {r : UdpFrame} (hstart : start P base true = some d)
    (hall : ∀ q : UdpFrame, IsRegistration q → d.installed q.capture = true)
    (hr : IsRegistration r)
    (hnew : digits r.dstPort.toNat ∉ (pcapLoop P d ins).ports) :
    ((pcapLoop P d ins).installed r.capture = true ∧
      (offer P (pcapLoop P d ins) (r.capture, env)).ports =
        (pcapLoop P d ins).ports ++ [digits r.dstPort.toNat]) ↔
    digits r.srcPort.toNat ∉ (pcapLoop P d ins).excluded := by
  obtain ⟨hf, hinv⟩ := start_inv hstart
  obtain ⟨ns, ms, h⟩ := pcapLoop_inv hf hinv ins
  have hdst : digits r.dstPort.toNat ∉ (pcapLoop P d ins).excluded := fun hmem => by
    rw [h.excluded, List.mem_map_of_injective digits_injective] at hmem
    rw [h.ports, List.mem_map_of_injective digits_injective] at hnew
    exact hnew (h.made.mem hmem)
  rw [h.installed_udp]
  constructor
  · rintro ⟨⟨-, hsrc, -⟩, -⟩
    exact hsrc
  · intro hsrc
    have hacc := (h.installed_udp r).mpr ⟨hall r hr, hsrc, hdst⟩
    refine ⟨⟨hall r hr, hsrc, hdst⟩, ?_⟩
    rw [offer, if_pos hacc, packetHandler_ports, r.dstPort_capture]

/-! ## A small capture library

`udp` and `port N`, joined by `and`, `or` and `not`. -/

def readPort (w : Str) : Option Nat :=
  if w ≠ [] ∧ w.all Char.isDigit ∧ Nat.ofDigitChars 10 w 0 < 65536 then
    some (Nat.ofDigitChars 10 w 0)
  else none

def udpPrims : List Str → Option (Capture → Bool)
  | [w] => if w = "udp".toList then some fun c => decide (IsUdp c) else none
  | [w, n] => if w = "port".toList then (readPort n).map udpPort else none
  | _ => none

theorem readPort_digits {n : Nat} (hn : n < 65536) : readPort (digits n) = some n := by
  have hval : Nat.ofDigitChars 10 (digits n) 0 = n := Nat.ofDigitChars_ten_toDigits
  rw [readPort, hval, if_pos]
  exact ⟨digits_ne_nil n, List.all_eq_true.mpr fun c hc => isDigit_of_mem_digits hc, hn⟩

def udpPcap : Pcap where
  toFilterLang := .ofPrims udpPrims udpPort
    (fun n hn => by simp [udpPrims, readPort_digits hn]) rfl
  port_udp _ := rfl

/-- A path with the NAT's address as source. -/
def natWire (srcPort : UInt16) : Wire where
  dstMac := ⟨2, 0, 0, 0, 0, 1⟩
  srcMac := ⟨2, 0, 0, 0, 0, 2⟩
  tos := 0
  ident := 1
  dontFragment := true
  ttl := 62
  ipChecksum := 0
  srcIp := ⟨140, 114, 0, 1⟩
  srcPort := srcPort
  udpChecksum := 0

/-- `send_udp.sh 30000 50000` and `send_udp.sh 20000 40000`, from a given
source port. -/
def brg1Frame (srcPort : UInt16) : UdpFrame :=
  sendUdp (natWire srcPort) "30000".toList 50000

def brg2Frame (srcPort : UInt16) : UdpFrame :=
  sendUdp (natWire srcPort) "20000".toList 40000

def quietEnv : Env := { stack := [], setfilter := true }

/-- The daemon started with the filter `udp`, and with an empty line. -/
def udpDaemon : Daemon where
  tunnelCnt := 1
  filter := "udp".toList
  installed c := decide (IsUdp c)
  cmds := []
  excluded := []

def openDaemon : Daemon where
  tunnelCnt := 1
  filter := []
  installed _ := true
  cmds := []
  excluded := []

theorem start_udp : start udpPcap "udp".toList true = some udpDaemon := rfl

theorem start_empty : start udpPcap [] true = some openDaemon := rfl

theorem udpDaemon_accepts (r : UdpFrame) : udpDaemon.installed r.capture = true := by
  simp [udpDaemon, r.isUdp_capture]

/-- Two registrations from BRG1 over the base `udp`: the second is dropped. -/
theorem tunnel_ports_distinct_udp :
    (pcapLoop udpPcap udpDaemon [((brg1Frame 33000).capture, quietEnv),
      ((brg1Frame 33001).capture, quietEnv)]).ports.Nodup := by
  refine tunnel_ports_distinct start_udp (by decide) (by decide) ?_ ?_
  · simp [quietEnv]
  · simp [UdpFrame.portVisible]

/-- Over the empty base the same two registrations make two tunnels on port
50000. -/
theorem empty_base_repeats_port :
    start udpPcap [] true = some openDaemon ∧
      ¬ (pcapLoop udpPcap openDaemon [((brg1Frame 33000).capture, quietEnv),
        ((brg1Frame 33001).capture, quietEnv)]).ports.Nodup := by
  obtain ⟨hf, hinv⟩ := start_inv start_empty
  refine ⟨start_empty, ?_⟩
  rw [unextendable_handles_all hf (Or.inl (by decide)) hinv]
  simp [UdpFrame.dstPort_capture, brg1Frame, sendUdp, openDaemon, Daemon.ports]

/-- The daemon after BRG1's registration. -/
def afterBrg1 : Daemon :=
  pcapLoop udpPcap udpDaemon [((brg1Frame 33000).capture, quietEnv)]

/-- BRG2 registers after BRG1, from a source port of its own. -/
theorem registration_handled_brg2 :
    afterBrg1.installed (brg2Frame 33001).capture = true ∧
      (offer udpPcap afterBrg1 ((brg2Frame 33001).capture, quietEnv)).ports =
        afterBrg1.ports ++ [digits 40000] := by
  have hsrc : digits 33001 ∉ afterBrg1.excluded := by decide +kernel
  exact (registration_handled_iff (r := brg2Frame 33001) start_udp
    (fun q _ => udpDaemon_accepts q) rfl (by decide +kernel)).mpr hsrc

/-- BRG2's registration leaves from port 50000, the port of BRG1's tunnel:
it is never seen, although no tunnel has port 40000. -/
theorem source_port_collision :
    start udpPcap "udp".toList true = some udpDaemon ∧
      (∀ q : UdpFrame, IsRegistration q → udpDaemon.installed q.capture = true) ∧
      IsRegistration (brg2Frame 50000) ∧ digits 40000 ∉ afterBrg1.ports ∧
      afterBrg1.installed (brg2Frame 50000).capture = false := by
  refine ⟨start_udp, fun q _ => udpDaemon_accepts q, rfl, ?_, ?_⟩
  · decide +kernel
  · decide +kernel

end Brgr

end NetSystem
