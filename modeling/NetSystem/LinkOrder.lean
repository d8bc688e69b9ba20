import NetSystem.BrgrTunnels
import NetSystem.GreTunnels
import NetSystem.LinkTrace

/-!
# Command order of the two tunnel daemons

The commands of either daemon, read as link operations, are the blocks of
`LinkTrace`: numbered from 1 with the bridge `br1` in `ns_project`, from 0
with `br0` in `lab4`. Packets that create nothing issue nothing, so the
blocks of a run stand one behind the other whatever comes between.
-/

namespace NetSystem

/-! ## `ns_project` -/

namespace Brgr

/-- The link operation of a command; FOU ports are no links. -/
def Cmd.op? : Cmd → Option LinkOp
  | .fouAdd _ => none
  | .linkAddGre l => some (.addTunnel l.index)
  | .linkSetUp dev => some (.setUp dev)
  | .linkAddBridge br => some (.addBridge br)
  | .brctlAddif br dev => some (.addIf br dev)

def Daemon.ops (d : Daemon) : List LinkOp := d.cmds.filterMap Cmd.op?

theorem bridge_ne_greName {b : Str} (h : b.head? = some 'b') (k : Nat) : b ≠ greName k := by
  rintro rfl
  exact absurd h (by simp [greName])

/-- `tunnel_cnt == 1`, from 1. -/
def plan : Plan where
  first := 1
  br := "br1".toList
  upEach := false
  br_ne := bridge_ne_greName rfl

theorem handlerCmds_ops (k : Nat) (env : Env) (c : Capture) :
    (handlerCmds k env c).filterMap Cmd.op? = block plan k := by
  unfold handlerCmds block
  by_cases h : k = 1
  · have hk : k = plan.first := h
    rw [if_pos h, if_pos h, if_pos hk, if_pos (Or.inr hk)]
    rfl
  · have hk : ¬ k = plan.first := h
    rw [if_neg h, if_neg h, if_neg hk, if_neg (by simp [plan, h])]
    rfl

/-- The commands so far are the blocks of the tunnels so far. -/
def Traced (d : Daemon) : Prop :=
  d.tunnelCnt = 1 + d.links.length ∧ d.ops = trace plan d.links.length

variable {P : Pcap}

theorem offer_traced {d : Daemon} (hd : Traced d) (i : Capture × Env) :
    Traced (offer P d i) := by
  unfold offer
  split
  · have heff := packetHandler_effect (P := P) i.2 d i.1
    have hlen : (packetHandler P i.2 d i.1).links.length = d.links.length + 1 := by
      rw [packetHandler_links, List.length_append]
      rfl
    obtain ⟨hcnt, hops⟩ := hd
    rw [Daemon.ops] at hops
    refine ⟨by rw [heff.1, hlen, hcnt]; omega, ?_⟩
    rw [hlen, trace_succ, Daemon.ops, heff.2.2, List.filterMap_append, hops, handlerCmds_ops, hcnt]
    rfl
  · exact hd

theorem pcapLoop_traced {base : Str} {b : Bool} {d : Daemon} (hstart : start P base b = some d)
    (ins : List (Capture × Env)) : Traced (pcapLoop P d ins) := by
  obtain ⟨f, -, -, rfl⟩ := start_eq_some hstart
  exact List.foldlRecOn ins (offer P) ⟨rfl, rfl⟩ fun d hd i _ => offer_traced hd i

end Brgr

/-! ## `lab4` -/

namespace Gre

open Brgr (Capture LinkOp Plan block trace trace_succ ethPort)

def Cmd.op : Cmd → LinkOp
  | .linkAddGre k _ _ => .addTunnel k
  | .linkSetUp dev => .setUp dev
  | .linkAddBridge br => .addBridge br
  | .brctlAddif br dev => .addIf br dev

def Daemon.ops (d : Daemon) : List LinkOp := d.cmds.map Cmd.op

/-- `tunnel_cnt < 1`, from 0. -/
def plan : Plan where
  first := 0
  br := "br0".toList
  upEach := true
  br_ne := Brgr.bridge_ne_greName rfl

theorem handlerCmds_ops (k : Nat) (sourceIp : Str) :
    (handlerCmds k sourceIp).map Cmd.op = block plan k := by
  unfold handlerCmds block
  have hup : plan.upEach = true ∨ k = plan.first := Or.inl rfl
  by_cases h : k < 1
  · rw [if_pos h, if_pos (show k = plan.first from Nat.lt_one_iff.mp h), if_pos hup]
    rfl
  · rw [if_neg h, if_neg (fun hk : k = plan.first => h (Nat.lt_one_iff.mpr hk)), if_pos hup]
    rfl

def Traced (d : Daemon) : Prop :=
  d.tunnelCnt = d.remotes.length ∧ d.ops = trace plan d.remotes.length

variable {P : GrePcap} {f : Capture → Bool}

theorem offer_traced {d : Daemon} (hinv : FilterInv P f d) (hd : Traced d) (i : Capture × Bool) :
    Traced (offer P d i) := by
  rcases offer_cases hinv i with ⟨-, -, heq⟩ | ⟨-, heq⟩
  · have hlen : (d.tunnel P i.2 i.1).remotes.length = d.remotes.length + 1 := by
      rw [Daemon.remotes, Daemon.tunnel, List.filterMap_append, handlerCmds_remote,
        List.length_append]
      rfl
    obtain ⟨hcnt, hops⟩ := hd
    rw [Daemon.ops] at hops
    rw [heq]
    refine ⟨by rw [hlen, ← hcnt]; rfl, ?_⟩
    rw [hlen, trace_succ, Daemon.ops, Daemon.tunnel, List.map_append, hops, handlerCmds_ops, hcnt]
    simp [plan]
  · rw [heq]
    exact hd

theorem pcapLoop_traced {filter : Str} {b : Bool} {d : Daemon}
    (hstart : start P filter b = some d) (ins : List (Capture × Bool)) :
    Traced (pcapLoop P d ins) := by
  have hinv := (start_inv hstart).1
  have hd : Traced d := by
    obtain ⟨f, -, -, rfl⟩ := start_eq_some hstart
    exact ⟨rfl, rfl⟩
  have hboth := List.foldlRecOn (motive := fun s => FilterInv P d.installed s ∧ Traced s)
    ins (offer P) ⟨hinv, hd⟩ fun s hs i _ => ⟨offer_inv hs.1 i, offer_traced hs.1 hs.2 i⟩
  exact hboth.2

end Gre

/-! ## Both -/

/-- **Well-formed command sequences**, in every run of either daemon that
creates a tunnel. -/
theorem commands_orderly {P : Brgr.Pcap} {base : Str} {b : Bool} {d : Brgr.Daemon}
    {Q : Gre.GrePcap} {filter : Str} {b' : Bool} {e : Gre.Daemon}
    (ins : List (Brgr.Capture × Brgr.Env)) (ins' : List (Brgr.Capture × Bool))
    (hstart : Brgr.start P base b = some d) (hstart' : Gre.start Q filter b' = some e) :
    ((Brgr.pcapLoop P d ins).links ≠ [] →
      Brgr.Orderly Brgr.plan (Brgr.pcapLoop P d ins).links.length (Brgr.pcapLoop P d ins).ops) ∧
    ((Gre.pcapLoop Q e ins').remotes ≠ [] →
      Brgr.Orderly Gre.plan (Gre.pcapLoop Q e ins').remotes.length
        (Gre.pcapLoop Q e ins').ops) := by
  constructor
  · intro hne
    rw [(Brgr.pcapLoop_traced hstart ins).2]
    exact Brgr.trace_orderly _ (List.length_pos_iff.mpr hne)
  · intro hne
    rw [(Gre.pcapLoop_traced hstart' ins').2]
    exact Brgr.trace_orderly _ (List.length_pos_iff.mpr hne)

/-- BRG1's registration at the one daemon, GRE from 140.114.0.1 at the
other. -/
theorem commands_orderly_both :
    Brgr.Orderly Brgr.plan 1 (Brgr.pcapLoop Brgr.udpPcap Brgr.udpDaemon
        [((Brgr.brg1Frame 33000).capture, Brgr.quietEnv)]).ops ∧
      Brgr.Orderly Gre.plan 1 (Gre.pcapLoop Gre.grePcap Gre.greDaemon
        [(Gre.greFrame ⟨140, 114, 0, 1⟩, true)]).ops := by
  have h := commands_orderly [((Brgr.brg1Frame 33000).capture, Brgr.quietEnv)]
    [(Gre.greFrame ⟨140, 114, 0, 1⟩, true)] Brgr.start_udp Gre.start_builtin
  have hlinks : (Brgr.pcapLoop Brgr.udpPcap Brgr.udpDaemon
      [((Brgr.brg1Frame 33000).capture, Brgr.quietEnv)]).links.length = 1 := by decide +kernel
  have hremotes : (Gre.pcapLoop Gre.grePcap Gre.greDaemon
      [(Gre.greFrame ⟨140, 114, 0, 1⟩, true)]).remotes.length = 1 := by decide +kernel
  rw [hlinks, hremotes] at h
  exact ⟨h.1 (List.length_pos_iff.mp (by omega)), h.2 (List.length_pos_iff.mp (by omega))⟩

end NetSystem
