import NetSystem.BrgrFrame
import NetSystem.BrgrHandler
import NetSystem.Run

/-!
# `packetHandler` of the GRE lab

The BRGr side of `lab4/packet_capture.cpp`. The program is the older
sibling of the daemon in `ns_project`: plain gretap tunnels, one for each
IPv4 source seen, and a filter that is told to forget the sources it has
tunnels for.

Two filter texts live side by side. The one typed at start-up is installed
by `main` and never looked at again; the global `update_filter` has a
built-in text of its own, gets a ` and not src A` clause with every tunnel,
and replaces the typed filter when the first tunnel is made.

Console output is left out. Whether `pcap_setfilter` succeeds comes in with
each packet.
-/

namespace NetSystem

namespace Gre

open Brgr (Capture etherType ipProto inetNtop Ipv4 greName)

/-! ## The capture library -/

/-- `ip_src` of the outer header. -/
def ipSrc (c : Capture) : Ipv4 := ⟨c.packet 26, c.packet 27, c.packet 28, c.packet 29⟩

theorem inetNtop_eq (c : Capture) : inetNtop c 26 = (ipSrc c).text := rfl

/-- The capture library, with the documented meaning of the primitives the
program uses: `src A` and `src host A` are the same test, on an IPv4 packet
a comparison with its source address, and `ip proto gre` is true of IPv4
packets only. What `src` says about other packets is left open. -/
structure GrePcap extends FilterLang Capture where
  src : Ipv4 → Capture → Bool
  gre : Capture → Bool
  term_src : ∀ ip : Ipv4, Term ("src ".toList ++ ip.text) (src ip)
  term_srcHost : ∀ ip : Ipv4, Term ("src host ".toList ++ ip.text) (src ip)
  term_gre : Term "ip proto gre".toList gre
  src_ip : ∀ {ip : Ipv4} {c : Capture}, etherType c = 2048 →
    src ip c = decide (ipSrc c = ip)
  gre_ip : ∀ {c : Capture}, gre c = true → etherType c = 2048 ∧ ipProto c = 47

/-! ## Commands -/

inductive Cmd where
  | linkAddGre (k : Nat) (remoteIp localIp : Str)
  | linkSetUp (dev : Str)
  | linkAddBridge (br : Str)
  | brctlAddif (br dev : Str)
deriving DecidableEq, Repr

/-- The string given to the shell. -/
def Cmd.text : Cmd → Str
  | .linkAddGre k remoteIp localIp =>
      "ip link add ".toList ++ greName k ++ " type gretap remote ".toList ++ remoteIp
        ++ " local ".toList ++ localIp
  | .linkSetUp dev => "ip link set ".toList ++ dev ++ " up".toList
  | .linkAddBridge br => "ip link add ".toList ++ br ++ " type bridge".toList
  | .brctlAddif br dev => "brctl addif ".toList ++ br ++ ' ' :: dev

def Cmd.remote? : Cmd → Option Str
  | .linkAddGre _ remoteIp _ => some remoteIp
  | _ => none

/-! ## The daemon -/

/-- The globals of the daemon, the filter program in force, and three
history variables: the commands run so far, the packets that made a tunnel,
and those whose sources the program in force excludes, `none` while it is
the typed one (none of the handler's decisions read them). -/
structure Daemon where
  tunnelCnt : Nat
  updateFilter : Str
  installed : Capture → Bool
  cmds : List Cmd
  made : List Capture
  covered : Option (List Capture)

/-- The remote ends of the gretap links created so far. -/
def Daemon.remotes (d : Daemon) : List Str := d.cmds.filterMap Cmd.remote?

/-- The initial value of `update_filter`. -/
def builtinFilter : Str :=
  "ip proto gre and not src host 140.113.0.1 and not src 140.113.0.2".toList

/-- The commands of one call, with the counter at `k`. -/
def handlerCmds (k : Nat) (sourceIp : Str) : List Cmd :=
  [Cmd.linkAddGre k sourceIp "140.113.0.1".toList, .linkSetUp (greName k)]
    ++ (if k < 1 then
          [Cmd.linkAddBridge "br0".toList, .brctlAddif "br0".toList "BRGr-eth0".toList]
        else [])
    ++ [Cmd.brctlAddif "br0".toList (greName k), .linkSetUp "br0".toList]

/-- `update_filter += " and not src " + sourceIp`. -/
def extendFilter (filter sourceIp : Str) : Str :=
  filter ++ " and not src ".toList ++ sourceIp

variable (P : GrePcap)

/-- Only the "create tunnel" part of the handler changes anything, and it is
for IPv4 packets only. -/
def packetHandler (setfilter : Bool) (d : Daemon) (c : Capture) : Daemon :=
  if etherType c = 2048 then
    let sourceIp := inetNtop c 26
    let cmds := d.cmds ++ handlerCmds d.tunnelCnt sourceIp
    let updateFilter := extendFilter d.updateFilter sourceIp
    let d' : Daemon :=
      { d with tunnelCnt := d.tunnelCnt + 1, updateFilter, cmds, made := d.made ++ [c] }
    match P.compile (cStr updateFilter) with
    -- "Couldn't parse filter": the old program stays in force
    | none => d'
    | some f =>
        -- "Couldn't install filter": likewise
        if setfilter then { d' with installed := f, covered := some d'.made } else d'
  else d

/-- `main` up to `pcap_loop`: the typed filter is compiled and installed, or
the program exits. -/
def start (filter : Str) (setfilter : Bool) : Option Daemon :=
  match P.compile (cStr filter) with
  | none => none
  | some f =>
      if setfilter then
        some { tunnelCnt := 0, updateFilter := builtinFilter, installed := f, cmds := [],
               made := [], covered := none }
      else none

/-- One packet on the interface: the handler runs if the installed filter
accepts it. -/
def offer (d : Daemon) (i : Capture × Bool) : Daemon :=
  if d.installed i.1 then packetHandler P i.2 d i.1 else d

/-- `pcap_loop` over a sequence of packets. -/
def pcapLoop (d : Daemon) (ins : List (Capture × Bool)) : Daemon :=
  ins.foldl (offer P) d

/-- The same as a step function; no packet stops the loop. -/
def step (d : Daemon) (i : Capture × Bool) : Option Daemon := some (offer P d i)

theorem run_step (d : Daemon) (ins : List (Capture × Bool)) :
    run (step P) d ins = some (pcapLoop P d ins) :=
  run_some (offer P) ins d

/-! ## The meaning of the texts -/

/-- The exclusions of `builtinFilter`. -/
def builtinSrcs : List Ipv4 := [⟨140, 113, 0, 1⟩, ⟨140, 113, 0, 2⟩]

/-- The value of `update_filter` after tunnels to the sources `ips`. -/
def updateText (ips : List Ipv4) : Str :=
  ips.foldl (fun e ip => extendFilter e ip.text) builtinFilter

/-- What that text accepts: GRE from any source but the two built in and
the ones in the list. -/
def updateAccepts (ips : List Ipv4) (c : Capture) : Bool :=
  P.gre c && (builtinSrcs ++ ips).all fun ip => !P.src ip c

theorem updateText_snoc (ips : List Ipv4) (ip : Ipv4) :
    updateText (ips ++ [ip]) = extendFilter (updateText ips) ip.text := by
  simp [updateText]

theorem updateAccepts_snoc (ips : List Ipv4) (ip : Ipv4) :
    updateAccepts P (ips ++ [ip]) = fun c => updateAccepts P ips c && !P.src ip c := by
  funext c
  simp only [updateAccepts, ← List.append_assoc, List.all_append, List.all_cons,
    List.all_nil, Bool.and_true, Bool.and_assoc]

theorem expr_builtin : P.Expr builtinFilter (updateAccepts P []) := by
  have h := P.expr_and_not (P.expr_and_not (P.expr_term P.term_gre)
    (P.term_srcHost ⟨140, 113, 0, 1⟩)) (P.term_src ⟨140, 113, 0, 2⟩)
  have htext : builtinFilter = "ip proto gre".toList ++ " and not ".toList
      ++ ("src host ".toList ++ (⟨140, 113, 0, 1⟩ : Ipv4).text) ++ " and not ".toList
      ++ ("src ".toList ++ (⟨140, 113, 0, 2⟩ : Ipv4).text) := by decide +kernel
  rw [htext]
  convert h using 2 with c
  simp [updateAccepts, builtinSrcs, Bool.and_assoc]

theorem expr_extend {e : Str} {f : Capture → Bool} (he : P.Expr e f) (ip : Ipv4) :
    P.Expr (extendFilter e ip.text) fun c => f c && !P.src ip c := by
  have htext : extendFilter e ip.text = e ++ " and not ".toList ++ ("src ".toList ++ ip.text) := by
    simp [extendFilter, List.append_assoc]
  rw [htext]
  exact P.expr_and_not he (P.term_src ip)

/-- Every value of `update_filter` is an expression with the meaning it is
meant to have. -/
theorem expr_updateText (ips : List Ipv4) : P.Expr (updateText ips) (updateAccepts P ips) := by
  induction ips using List.reverseRecOn with
  | nil => exact expr_builtin P
  | append_singleton ips ip ih =>
      rw [updateText_snoc, updateAccepts_snoc]
      exact expr_extend P ih ip

theorem nul_notMem_updateText (ips : List Ipv4) : '\x00' ∉ updateText ips := by
  induction ips using List.reverseRecOn with
  | nil => decide
  | append_singleton ips ip ih =>
      rw [updateText_snoc, extendFilter, List.mem_append, List.mem_append, not_or, not_or]
      exact ⟨⟨ih, by decide⟩, ip.nul_notMem_text⟩

theorem compile_updateText (ips : List Ipv4) :
    P.compile (cStr (updateText ips)) = some (updateAccepts P ips) := by
  rw [cStr_eq_self (nul_notMem_updateText ips)]
  exact P.compile_of_expr (expr_updateText P ips)

/-- The text in force rejects whatever is not IPv4, and every excluded
source. -/
theorem updateAccepts_iff {ips : List Ipv4} {c : Capture} :
    updateAccepts P ips c = true ↔
      P.gre c = true ∧ ipSrc c ∉ builtinSrcs ∧ ipSrc c ∉ ips := by
  rw [updateAccepts, Bool.and_eq_true]
  refine and_congr_right fun hgre => ?_
  have hip := (P.gre_ip hgre).1
  rw [← not_or, ← List.mem_append, List.all_eq_true]
  constructor
  · intro h hmem
    have hc := h _ hmem
    rw [P.src_ip hip] at hc
    simp at hc
  · intro h ip hip'
    rw [P.src_ip hip]
    simp only [Bool.not_eq_true', decide_eq_false_iff_not]
    rintro rfl
    exact h hip'

end Gre

end NetSystem
