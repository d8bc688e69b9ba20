import NetSystem.BrgrTunnels
import NetSystem.GreHandler

/-!
# The GRE daemon's filter over whole runs

`FilterInv` ties the globals of the daemon to the packets that made its
tunnels: the text of `update_filter` is the built-in one followed by one
clause for each of them, and the program in force is the typed filter, or
the meaning of that text at the last update that was installed.

- `one_tunnel_per_remote_iff`: no source gets a second tunnel exactly as long
  as every update is installed, whatever filter was typed. The first tunnel
  is made under the typed filter, all others under `update_filter`. When
  `pcap_setfilter` fails, the handler returns with the tunnel made and the
  old filter in force (`remote_repeated`).
- `filter_policy_iff`: the typed filter governs the first phase only and the
  built-in exclusions the second phase only. The theorem says which packets,
  and which typed filters, show the difference.
-/

namespace NetSystem

namespace Gre

open Brgr (Capture etherType ipProto inetNtop Ipv4 greName)

variable {P : GrePcap} {filter : Str} {f : Capture → Bool} {d : Daemon}

/-! ## The invariant -/

/-- The program in force, `none` for the typed filter. -/
def program (P : GrePcap) (f : Capture → Bool) : Option (List Capture) → Capture → Bool
  | none => f
  | some ms => updateAccepts P (ms.map ipSrc)

structure FilterInv (P : GrePcap) (f : Capture → Bool) (d : Daemon) : Prop where
  ip : ∀ c ∈ d.made, etherType c = 2048
  remotes : d.remotes = d.made.map fun c => (ipSrc c).text
  text : d.updateFilter = updateText (d.made.map ipSrc)
  installed : d.installed = program P f d.covered

theorem start_eq_some {b : Bool} (h : start P filter b = some d) :
    ∃ f, P.compile (cStr filter) = some f ∧ b = true ∧
      d = { tunnelCnt := 0, updateFilter := builtinFilter, installed := f, cmds := [],
            made := [], covered := none } := by
  unfold start at h
  split at h
  · cases h
  · next f hf =>
      split at h
      · next hb => exact ⟨f, hf, hb, (Option.some.inj h).symm⟩
      · cases h

theorem start_inv {b : Bool} (h : start P filter b = some d) :
    FilterInv P d.installed d ∧ d.made = [] ∧ d.covered = none := by
  obtain ⟨f, -, -, rfl⟩ := start_eq_some h
  exact ⟨⟨by simp, rfl, rfl, rfl⟩, rfl, rfl⟩

/-- The daemon after a tunnel for the packet `c`. -/
def Daemon.tunnel (P : GrePcap) (b : Bool) (d : Daemon) (c : Capture) : Daemon where
  tunnelCnt := d.tunnelCnt + 1
  updateFilter := updateText ((d.made ++ [c]).map ipSrc)
  installed := if b then updateAccepts P ((d.made ++ [c]).map ipSrc) else d.installed
  cmds := d.cmds ++ handlerCmds d.tunnelCnt (ipSrc c).text
  made := d.made ++ [c]
  covered := if b then some (d.made ++ [c]) else d.covered

theorem tunnel_installed (P : GrePcap) (d : Daemon) (c : Capture) :
    (d.tunnel P false c).installed = d.installed := rfl

/-- The update always compiles, so a call depends on nothing but
`pcap_setfilter`. -/
theorem packetHandler_ip (hd : FilterInv P f d) {c : Capture} (hip : etherType c = 2048)
    (b : Bool) : packetHandler P b d c = d.tunnel P b c := by
  have htext : extendFilter d.updateFilter (inetNtop c 26) =
      updateText ((d.made ++ [c]).map ipSrc) := by
    rw [List.map_append, List.map_singleton, updateText_snoc, hd.text]
    rfl
  unfold packetHandler
  simp only [if_pos hip, htext, compile_updateText]
  cases b <;> rfl

theorem offer_tunnel (hd : FilterInv P f d) {i : Capture × Bool} (hacc : d.installed i.1 = true)
    (hip : etherType i.1 = 2048) : offer P d i = d.tunnel P i.2 i.1 := by
  rw [offer, if_pos hacc, packetHandler_ip hd hip]

/-- What a packet on the interface can do. -/
theorem offer_cases (hd : FilterInv P f d) (i : Capture × Bool) :
    (d.installed i.1 = true ∧ etherType i.1 = 2048 ∧ offer P d i = d.tunnel P i.2 i.1) ∨
    (¬ (d.installed i.1 = true ∧ etherType i.1 = 2048) ∧ offer P d i = d) := by
  by_cases hacc : d.installed i.1 = true
  · by_cases hip : etherType i.1 = 2048
    · exact Or.inl ⟨hacc, hip, offer_tunnel hd hacc hip⟩
    · refine Or.inr ⟨fun h => hip h.2, ?_⟩
      rw [offer, if_pos hacc, packetHandler, if_neg hip]
  · exact Or.inr ⟨fun h => hacc h.1, if_neg hacc⟩

theorem handlerCmds_remote (k : Nat) (sourceIp : Str) :
    (handlerCmds k sourceIp).filterMap Cmd.remote? = [sourceIp] := by
  by_cases h : k < 1 <;> simp [handlerCmds, h, Cmd.remote?, List.filterMap_cons]

theorem tunnel_inv (hd : FilterInv P f d) {c : Capture} (hip : etherType c = 2048) (b : Bool) :
    FilterInv P f (d.tunnel P b c) where
  ip := by
    intro x hx
    rcases List.mem_append.mp hx with hx | hx
    · exact hd.ip x hx
    · rw [List.mem_singleton.mp hx]
      exact hip
  remotes := by
    have hold := hd.remotes
    rw [Daemon.remotes] at hold
    rw [Daemon.remotes, Daemon.tunnel, List.filterMap_append, hold, handlerCmds_remote,
      List.map_append, List.map_singleton]
  text := rfl
  installed := by
    cases b with
    | false => exact hd.installed
    | true => rfl

/-- The invariant is kept by every packet. -/
theorem offer_inv (hd : FilterInv P f d) (i : Capture × Bool) : FilterInv P f (offer P d i) := by
  rcases offer_cases hd i with ⟨-, hip, heq⟩ | ⟨-, heq⟩
  · rw [heq]
    exact tunnel_inv hd hip i.2
  · rw [heq]
    exact hd

theorem step_inv {s s' : Daemon} {i : Capture × Bool} (hs : FilterInv P f s)
    (h : step P s i = some s') : FilterInv P f s' := by
  obtain rfl := Option.some.inj h
  exact offer_inv hs i

/-! ## One tunnel per remote -/

/-- No two tunnels to one address, each to the source of the packet it was
made for, and from the first one on a filter that rejects the sources of all
of them and whatever is not IPv4. -/
structure OneTunnel (d : Daemon) : Prop where
  distinct : d.remotes.Nodup
  sources : d.remotes = d.made.map fun c => inetNtop c 26
  ip : ∀ c ∈ d.made, etherType c = 2048
  rejects : d.remotes ≠ [] → ∀ c, etherType c ≠ 2048 ∨ inetNtop c 26 ∈ d.remotes →
    d.installed c = false

/-- The `pcap_setfilter` call that the packet leads to succeeds. -/
def Installs (s : Daemon) (i : Capture × Bool) : Prop :=
  s.installed i.1 = true → etherType i.1 = 2048 → i.2 = true

theorem mem_remotes (hd : FilterInv P f d) {c : Capture} :
    inetNtop c 26 ∈ d.remotes ↔ ipSrc c ∈ d.made.map ipSrc := by
  rw [hd.remotes, inetNtop_eq, ← List.mem_map_of_injective Ipv4.text_injective, List.map_map]
  rfl

theorem remotes_tunnel (hd : FilterInv P f d) {c : Capture} (hip : etherType c = 2048) (b : Bool) :
    (d.tunnel P b c).remotes = d.remotes ++ [inetNtop c 26] := by
  rw [(tunnel_inv hd hip b).remotes, hd.remotes, Daemon.tunnel, List.map_append,
    List.map_singleton, inetNtop_eq]

/-- A packet that passes the filter is from a source no earlier tunnel has. -/
theorem OneTunnel.fresh (h : OneTunnel d) {c : Capture} (hacc : d.installed c = true) :
    inetNtop c 26 ∉ d.remotes := by
  intro hmem
  have hrej := h.rejects (List.ne_nil_of_mem hmem) c (Or.inr hmem)
  rw [hacc] at hrej
  cases hrej

/-- A tunnel whose update is in force. -/
theorem oneTunnel_tunnel (hd : FilterInv P f d) (h : OneTunnel d) {c : Capture}
    (hacc : d.installed c = true) (hip : etherType c = 2048) :
    OneTunnel (d.tunnel P true c) where
  distinct := by
    rw [remotes_tunnel hd hip]
    exact List.Nodup.append h.distinct (List.nodup_singleton _)
      (List.disjoint_singleton.mpr (h.fresh hacc))
  sources := by
    rw [remotes_tunnel hd hip, h.sources, Daemon.tunnel, List.map_append, List.map_singleton]
  ip := (tunnel_inv hd hip true).ip
  rejects := by
    intro _ x hx
    rw [mem_remotes (tunnel_inv hd hip true)] at hx
    rw [← Bool.not_eq_true]
    intro hinst
    obtain ⟨hgre, -, hsrc⟩ := (updateAccepts_iff P).mp hinst
    rcases hx with hx | hx
    · exact hx (P.gre_ip hgre).1
    · exact hsrc hx

/-- A tunnel whose update is not: the filter that let the packet through
lets its source through again. -/
theorem not_oneTunnel_tunnel (hd : FilterInv P f d) {c : Capture} (hacc : d.installed c = true)
    (hip : etherType c = 2048) : ¬ OneTunnel (d.tunnel P false c) := by
  intro h
  refine h.fresh hacc ?_
  rw [remotes_tunnel hd hip]
  simp

theorem oneTunnel_offer {i : Capture × Bool} (hd : FilterInv P f d) (h : OneTunnel d) :
    OneTunnel (offer P d i) ↔ Installs d i := by
  rcases offer_cases hd i with ⟨hacc, hip, heq⟩ | ⟨hno, heq⟩
  · rw [heq, Installs]
    cases hset : i.2 with
    | true => exact ⟨fun _ _ _ => rfl, fun _ => oneTunnel_tunnel hd h hacc hip⟩
    | false =>
        refine ⟨fun hone => absurd hone (not_oneTunnel_tunnel hd hacc hip), fun hset => ?_⟩
        exact absurd (hset hacc hip) (by decide)
  · rw [heq]
    exact ⟨fun _ hacc hip => absurd ⟨hacc, hip⟩ hno, fun _ => h⟩

/-- **One tunnel per remote, exactly.** All states of a run are as they
should be if and only if every `pcap_setfilter` call of the run succeeds,
whatever filter was typed. -/
theorem one_tunnel_per_remote_iff (ins : List (Capture × Bool))
    (hstart : start P filter true = some d) :
    Always (step P) OneTunnel d ins ↔ EachStep (step P) Installs d ins := by
  obtain ⟨hinv, hmade, -⟩ := start_inv hstart
  have hnone : d.remotes = [] := by rw [hinv.remotes, hmade, List.map_nil]
  refine always_iff_eachStep (I := FilterInv P d.installed) (fun s i s' hs h => step_inv hs h) ?_
    (fun s i h => absurd h (by simp [step])) hinv ?_
  · rintro s i s' hs hone h
    obtain rfl := Option.some.inj h
    exact oneTunnel_offer hs hone
  · exact ⟨by simp [hnone], by simp [hnone, hmade], by simp [hmade], by simp [hnone]⟩

/-! ## The typed filter and the built-in exclusions -/

/-- Tunnels only for packets the typed filter accepts, and none to the
built-in sources. -/
def TunnelsOk (f : Capture → Bool) (d : Daemon) : Prop :=
  ∀ c ∈ d.made, f c = true ∧ ipSrc c ∉ builtinSrcs

/-- The program in force lets through only what the typed filter and the
built-in exclusions let through. -/
def InForceOk (P : GrePcap) (f : Capture → Bool) (d : Daemon) : Prop :=
  ∀ c, d.installed c = true → f c = true ∧ ∀ ip ∈ builtinSrcs, P.src ip c = false

/-- A packet about to get a tunnel is, under the typed filter, not from a
built-in source and, under an update, one the typed filter accepts. -/
def PacketOk (f : Capture → Bool) (s : Daemon) (i : Capture × Bool) : Prop :=
  s.installed i.1 = true → etherType i.1 = 2048 →
    (s.covered = none → ipSrc i.1 ∉ builtinSrcs) ∧ (s.covered ≠ none → f i.1 = true)

/-- If the packet leads to an update, the typed filter accepts all GRE from
the sources that are neither built in nor the remote of a tunnel then. -/
def UpdateOk (P : GrePcap) (f : Capture → Bool) (s : Daemon) (i : Capture × Bool) : Prop :=
  s.installed i.1 = true → etherType i.1 = 2048 → i.2 = true →
    ∀ c, P.gre c = true → ipSrc c ∉ builtinSrcs → ipSrc c ∉ (s.made ++ [i.1]).map ipSrc →
      f c = true

theorem tunnelsOk_offer {i : Capture × Bool} (hd : FilterInv P f d) (hok : TunnelsOk f d) :
    TunnelsOk f (offer P d i) ↔ PacketOk f d i := by
  rcases offer_cases hd i with ⟨hacc, hip, heq⟩ | ⟨hno, heq⟩
  · have hnew : TunnelsOk f (d.tunnel P i.2 i.1) ↔
        f i.1 = true ∧ ipSrc i.1 ∉ builtinSrcs := by
      constructor
      · intro h
        exact h i.1 (by simp [Daemon.tunnel])
      · intro h c hc
        rcases List.mem_append.mp hc with hc | hc
        · exact hok c hc
        · rw [List.mem_singleton.mp hc]
          exact h
    have hinst := hd.installed
    rw [heq, hnew, PacketOk]
    cases hcov : d.covered with
    | none =>
        rw [hcov, program] at hinst
        rw [hinst] at hacc
        simp [hinst, hacc, hip]
    | some ms =>
        rw [hcov, program] at hinst
        have hsrc := hacc
        rw [hinst, updateAccepts_iff] at hsrc
        simp [hacc, hip, hsrc.2.1]
  · rw [heq]
    exact ⟨fun _ hacc hip => absurd ⟨hacc, hip⟩ hno, fun _ => hok⟩

/-- The built-in sources are never let through by an update; what decides is
whether the typed filter covers the rest. -/
theorem inForceOk_updated {ips : List Ipv4} (hinst : d.installed = updateAccepts P ips) :
    InForceOk P f d ↔ ∀ c, P.gre c = true → ipSrc c ∉ builtinSrcs → ipSrc c ∉ ips →
      f c = true := by
  constructor
  · intro h c hgre hb hips
    refine (h c ?_).1
    rw [hinst, updateAccepts_iff]
    exact ⟨hgre, hb, hips⟩
  · intro h c hc
    rw [hinst, updateAccepts_iff] at hc
    obtain ⟨hgre, hb, hips⟩ := hc
    refine ⟨h c hgre hb hips, fun ip hip => ?_⟩
    rw [P.src_ip (P.gre_ip hgre).1, decide_eq_false_iff_not]
    rintro rfl
    exact hb hip

theorem inForceOk_offer {i : Capture × Bool} (hd : FilterInv P f d) (hok : InForceOk P f d) :
    InForceOk P f (offer P d i) ↔ UpdateOk P f d i := by
  rcases offer_cases hd i with ⟨hacc, hip, heq⟩ | ⟨hno, heq⟩
  · rw [heq, UpdateOk]
    cases hset : i.2 with
    | false => exact ⟨fun _ _ _ h => absurd h (by decide), fun _ => hok⟩
    | true =>
        rw [inForceOk_updated rfl]
        exact ⟨fun h _ _ _ => h, fun h => h hacc hip rfl⟩
  · rw [heq]
    exact ⟨fun _ hacc hip => absurd ⟨hacc, hip⟩ hno, fun _ => hok⟩

/-- **The filter policy, exactly.** Tunnels stay within the typed filter and
clear of the built-in sources as long as, at each tunnel, the packet meets
the test its phase does not make. The programs in force do so as long as the
typed filter rejects the built-in sources itself and, at each update,
accepts all the GRE traffic the update lets through. -/
theorem filter_policy_iff (ins : List (Capture × Bool))
    (hstart : start P filter true = some d) :
    (Always (step P) (TunnelsOk d.installed) d ins ↔
      EachStep (step P) (PacketOk d.installed) d ins) ∧
    (Always (step P) (InForceOk P d.installed) d ins ↔
      (∀ c, d.installed c = true → ∀ ip ∈ builtinSrcs, P.src ip c = false) ∧
        EachStep (step P) (UpdateOk P d.installed) d ins) := by
  obtain ⟨hinv, hmade, -⟩ := start_inv hstart
  have hkeep : ∀ s i s', FilterInv P d.installed s → step P s i = some s' →
      FilterInv P d.installed s' := fun s i s' hs h => step_inv hs h
  constructor
  · refine always_iff_eachStep hkeep ?_ (fun s i h => absurd h (by simp [step])) hinv ?_
    · rintro s i s' hs hok h
      obtain rfl := Option.some.inj h
      exact tunnelsOk_offer hs hok
    · simp [TunnelsOk, hmade]
  · have hiff : InForceOk P d.installed d → (Always (step P) (InForceOk P d.installed) d ins ↔
        EachStep (step P) (UpdateOk P d.installed) d ins) := by
      refine always_iff_eachStep hkeep ?_ (fun s i h => absurd h (by simp [step])) hinv
      rintro s i s' hs hok h
      obtain rfl := Option.some.inj h
      exact inForceOk_offer hs hok
    constructor
    · intro h
      have hfirst : InForceOk P d.installed d := h [] d List.nil_prefix rfl
      exact ⟨fun c hc => (hfirst c hc).2, (hiff hfirst).mp h⟩
    · rintro ⟨hfirst, h⟩
      exact (hiff fun c hc => ⟨hc, hfirst c hc⟩).mpr h

/-! ## A small capture library

The one of the other daemon, with `src A`, `src host A` and `ip proto gre`. -/

/-- `src A`, of IPv4 packets. -/
def srcTest (w : Str) (c : Capture) : Bool :=
  decide (etherType c = 2048) && decide (inetNtop c 26 = w)

def greTest (c : Capture) : Bool := decide (etherType c = 2048 ∧ ipProto c = 47)

def grePrims : List Str → Option (Capture → Bool)
  | [v, w] => if v = "src".toList then some (srcTest w) else Brgr.udpPrims [v, w]
  | [u, v, w] =>
      if u = "src".toList ∧ v = "host".toList then some (srcTest w)
      else if [u, v, w] = ["ip".toList, "proto".toList, "gre".toList] then some greTest
      else none
  | ws => Brgr.udpPrims ws

theorem noBlank_text {ip : Ipv4} {ch : Char} (h : ch ∈ ip.text) : isBlank ch = false := by
  rcases Ipv4.mem_text h with hd | rfl
  · exact isBlank_eq_false_of_isDigit hd
  · rfl

theorem text_ne_nil (ip : Ipv4) : ip.text ≠ [] := by
  simp [Ipv4.text]

theorem words_src (v : Str) (ip : Ipv4) :
    words (v ++ ' ' :: ip.text) = words v ++ [ip.text] := by
  rw [words_append_blank rfl, words_of_noBlank (text_ne_nil ip) fun _ => noBlank_text]

theorem connective?_text (ip : Ipv4) : connective? ip.text = none := by
  refine connective?_eq_none ?_ ?_ <;> intro h <;> rcases Ipv4.mem_text h with hd | hd <;>
    exact absurd hd (by decide)

def grePcap : GrePcap where
  toFilterLang := .ofPrims grePrims Brgr.udpPort
    (fun n hn => by simp [grePrims, Brgr.udpPrims, Brgr.readPort_digits hn]) rfl
  src ip := srcTest ip.text
  gre := greTest
  term_src ip := FilterLang.ofPrims_term (words_src "src".toList ip)
    rfl
    (List.forall_mem_append.mpr ⟨by decide, by simp [connective?_text]⟩)
  term_srcHost ip := FilterLang.ofPrims_term (words_src "src host".toList ip)
    rfl
    (List.forall_mem_append.mpr ⟨by decide, by simp [connective?_text]⟩)
  term_gre := ⟨rfl, by decide⟩
  src_ip := by
    intro ip c h
    simp [srcTest, h, inetNtop_eq, Ipv4.text_injective.eq_iff]
  gre_ip := by
    intro c h
    simpa [greTest] using h

/-- A GRE packet with an Ethernet frame in it. -/
def greFrame (src : Ipv4) : Capture where
  len := 52
  caplen := 52
  caplen_le := le_rfl
  packet i :=
    [2, 0, 0, 0, 0, 1, 2, 0, 0, 0, 0, 2, 0x08, 0x00,
     0x45, 0, 0, 38, 0, 1, 0, 0, 62, 47, 0, 0,
     src.a, src.b, src.c, src.d, 140, 113, 0, 1,
     0, 0, 0x65, 0x58,
     2, 0, 0, 0, 0, 3, 2, 0, 0, 0, 0, 4, 0x08, 0x06].getD i 0

/-- The daemon started with the filter `udp`, and with the built-in text. -/
def udpDaemon : Daemon where
  tunnelCnt := 0
  updateFilter := builtinFilter
  installed c := decide (Brgr.IsUdp c)
  cmds := []
  made := []
  covered := none

def greDaemon : Daemon := { udpDaemon with installed := updateAccepts grePcap [] }

theorem start_udp : start grePcap "udp".toList true = some udpDaemon := rfl

theorem start_builtin : start grePcap builtinFilter true = some greDaemon := by
  have h := compile_updateText grePcap []
  rw [start, show builtinFilter = updateText [] from rfl, h]
  rfl

/-- A UDP packet makes the first tunnel, and two sources send GRE, one of
them twice. -/
theorem one_tunnel_per_remote_udp :
    Always (step grePcap) OneTunnel udpDaemon [((Brgr.brg1Frame 33000).capture, true),
      (greFrame ⟨140, 115, 0, 1⟩, true), (greFrame ⟨140, 115, 0, 1⟩, true),
      (greFrame ⟨140, 114, 0, 1⟩, true)] := by
  refine (one_tunnel_per_remote_iff _ start_udp).mpr ?_
  intro js i t hjs _ _ _
  have hmem := hjs.subset (List.mem_append_right js (List.mem_singleton_self i))
  simp only [List.mem_cons, List.not_mem_nil, or_false] at hmem
  rcases hmem with rfl | rfl | rfl | rfl <;> rfl

/-- The update after the first tunnel is not installed, and the same sender
gets a second one. -/
theorem remote_repeated :
    start grePcap "udp".toList true = some udpDaemon ∧
      (pcapLoop grePcap udpDaemon [((Brgr.brg1Frame 33000).capture, false),
        ((Brgr.brg1Frame 33000).capture, true)]).remotes =
        ["140.114.0.1".toList, "140.114.0.1".toList] ∧
      ¬ Always (step grePcap) OneTunnel udpDaemon [((Brgr.brg1Frame 33000).capture, false),
        ((Brgr.brg1Frame 33000).capture, true)] := by
  obtain ⟨hinv, -, -⟩ := start_inv start_udp
  have hacc : udpDaemon.installed (Brgr.brg1Frame 33000).capture = true := by decide +kernel
  have hip : etherType (Brgr.brg1Frame 33000).capture = 2048 := by decide +kernel
  have hfirst := offer_tunnel hinv (i := ((Brgr.brg1Frame 33000).capture, false)) hacc hip
  have hinv' := tunnel_inv hinv hip false
  have hold := tunnel_installed grePcap udpDaemon (Brgr.brg1Frame 33000).capture
  have hsecond := offer_tunnel hinv' (i := ((Brgr.brg1Frame 33000).capture, true))
    (by rw [hold]; exact hacc) hip
  refine ⟨start_udp, ?_, fun h => ?_⟩
  · rw [pcapLoop, List.foldl_cons, List.foldl_cons, hfirst, hsecond, List.foldl_nil,
      remotes_tunnel hinv' hip, remotes_tunnel hinv hip]
    decide +kernel
  · have hone := h [((Brgr.brg1Frame 33000).capture, false)] _ (by simp)
      (run_step grePcap udpDaemon _)
    rw [pcapLoop, List.foldl_cons, hfirst, List.foldl_nil] at hone
    exact not_oneTunnel_tunnel hinv hacc hip hone

theorem greDaemon_accepts {c : Capture} : greDaemon.installed c = true ↔
    greTest c = true ∧ ipSrc c ∉ builtinSrcs ∧ ipSrc c ∉ [] :=
  updateAccepts_iff grePcap

/-- With the built-in text typed as the filter, the policy holds. -/
theorem filter_policy_builtin :
    Always (step grePcap) (TunnelsOk greDaemon.installed) greDaemon
      [(greFrame ⟨140, 114, 0, 1⟩, true), (greFrame ⟨140, 113, 0, 1⟩, true)] ∧
    Always (step grePcap) (InForceOk grePcap greDaemon.installed) greDaemon
      [(greFrame ⟨140, 114, 0, 1⟩, true), (greFrame ⟨140, 113, 0, 1⟩, true)] := by
  have hiff := filter_policy_iff [(greFrame ⟨140, 114, 0, 1⟩, true),
    (greFrame ⟨140, 113, 0, 1⟩, true)] start_builtin
  have hfirst : InForceOk grePcap greDaemon.installed greDaemon := by
    rw [inForceOk_updated rfl]
    exact fun c hgre hb hn => greDaemon_accepts.mpr ⟨hgre, hb, hn⟩
  have hforce : Always (step grePcap) (InForceOk grePcap greDaemon.installed) greDaemon
      [(greFrame ⟨140, 114, 0, 1⟩, true), (greFrame ⟨140, 113, 0, 1⟩, true)] := by
    refine hiff.2.mpr ⟨fun c hc => (hfirst c hc).2, ?_⟩
    intro js i t _ _ _ _ _ c hgre hb _
    exact greDaemon_accepts.mpr ⟨hgre, hb, by simp⟩
  refine ⟨hiff.1.mpr ?_, hforce⟩
  -- a packet that passes a program in force has passed both tests
  intro js i t hjs ht hacc hip
  have hok := hforce js t ((List.prefix_append js [i]).trans hjs) ht i.1 hacc
  exact ⟨fun _ => (greDaemon_accepts.mp hok.1).2.1, fun _ => hok.1⟩

/-- A UDP packet sent by BRGr itself. -/
def ownFrame : Capture := { Brgr.brg1Frame 33000 with srcIp := ⟨140, 113, 0, 1⟩ }.capture

/-- With `udp` typed, a UDP packet from 140.113.0.1 makes the first tunnel
and a GRE packet, which `udp` rejects, the second. -/
theorem policy_broken_in_both_phases :
    start grePcap "udp".toList true = some udpDaemon ∧
      (pcapLoop grePcap udpDaemon [(ownFrame, true), (greFrame ⟨140, 115, 0, 1⟩, true)]).made =
        [ownFrame, greFrame ⟨140, 115, 0, 1⟩] ∧
      ipSrc ownFrame = ⟨140, 113, 0, 1⟩ ∧
      udpDaemon.installed (greFrame ⟨140, 115, 0, 1⟩) = false ∧
      ¬ Always (step grePcap) (TunnelsOk udpDaemon.installed) udpDaemon [(ownFrame, true)] ∧
      ¬ Always (step grePcap) (InForceOk grePcap udpDaemon.installed) udpDaemon [] := by
  obtain ⟨hinv, -, -⟩ := start_inv start_udp
  have hown : udpDaemon.installed ownFrame = true := by decide +kernel
  have hip : etherType ownFrame = 2048 := by decide +kernel
  have hfirst := offer_tunnel hinv (i := (ownFrame, true)) hown hip
  have hsecond := offer_tunnel (tunnel_inv hinv hip true) (i := (greFrame ⟨140, 115, 0, 1⟩, true))
    (by decide +kernel) (by decide +kernel)
  refine ⟨start_udp, ?_, by decide +kernel, by decide +kernel, fun h => ?_, fun h => ?_⟩
  · rw [pcapLoop, List.foldl_cons, List.foldl_cons, hfirst, hsecond]
    rfl
  · have hmade := h _ _ (List.prefix_refl _) (run_step grePcap udpDaemon _)
    rw [pcapLoop, List.foldl_cons, hfirst] at hmade
    exact absurd (hmade ownFrame (by simp [Daemon.tunnel])).2 (by decide +kernel)
  · have hok := h [] udpDaemon List.nil_prefix rfl ownFrame hown
    exact absurd (hok.2 ⟨140, 113, 0, 1⟩ (by decide)) (by decide +kernel)

end Gre

end NetSystem
