import NetSystem.BrgrTunnels
import NetSystem.Run

/-!
# Tunnel agreement between the BRGs and BRGr

The two ends of each tunnel are set up independently: a BRG's end is
written out in its tunnel script, BRGr's end is made by `packetHandler`
when the BRG's registration arrives, with the arrival count as GRE key.

`Net` is the system of the two: registrations in flight, BRGr, and the
order in which it has handled them. Datagrams are sent, delivered in any
order and lost; a delivered one reaches the handler if the installed
filter accepts it. `netStep_inv` says what every run keeps - link number
`i` has key `i + 1` and the mirrored ports of the `i`-th BRG handled -
and `agreement_iff_brg1_first` reads the agreement off it.
-/

namespace NetSystem

namespace Brgr

/-! ## The BRGs -/

/-- The gretap link of a tunnel script. -/
def scriptLink (k sport dport : Nat) (serverIp : Str) : GreLink where
  index := k
  remoteIp := "140.113.0.2".toList
  localIp := serverIp
  key := k
  encapSport := digits sport
  encapDport := digits dport

/-- `tunnel_BRG<k>.sh`; `serverIp` is the address `ifconfig` reports. -/
def tunnelScript (k sport dport : Nat) (serverIp : Str) : List Cmd :=
  [.fouAdd (digits sport),
   .linkAddGre (scriptLink k sport dport serverIp),
   .linkSetUp (greName k),
   .linkAddBridge "br1".toList,
   .brctlAddif "br1".toList ("BRG".toList ++ digits k ++ "-eth0".toList),
   .brctlAddif "br1".toList (greName k),
   .linkSetUp "br1".toList]

def tunnelBRG1 : Str → List Cmd := tunnelScript 1 30000 50000

def tunnelBRG2 : Str → List Cmd := tunnelScript 2 20000 40000

inductive Brg where
  | brg1
  | brg2
deriving DecidableEq, Repr

def Brg.script : Brg → Str → List Cmd
  | .brg1 => tunnelBRG1
  | .brg2 => tunnelBRG2

/-- The ports of the script: the BRG's own FOU port and the one on BRGr. -/
def Brg.sport : Brg → UInt16
  | .brg1 => 30000
  | .brg2 => 20000

def Brg.dport : Brg → UInt16
  | .brg1 => 50000
  | .brg2 => 40000

def Brg.key : Brg → Nat
  | .brg1 => 1
  | .brg2 => 2

/-- `send_udp.sh` with the ports of the script. -/
def Brg.registration (b : Brg) (w : Wire) : UdpFrame :=
  sendUdp w (digits b.sport.toNat) b.dport

/-- The links a script creates. -/
def Brg.links (b : Brg) (serverIp : Str) : List GreLink :=
  (b.script serverIp).filterMap Cmd.greLink?

/-- Two ends that can talk: one key, and the ports crossed over. -/
def Mirrors (l m : GreLink) : Prop :=
  l.key = m.key ∧ l.encapSport = m.encapDport ∧ l.encapDport = m.encapSport

instance (l m : GreLink) : Decidable (Mirrors l m) :=
  inferInstanceAs (Decidable (_ ∧ _ ∧ _))

/-! ## The network -/

structure Net where
  flight : List (Brg × Wire)
  brgr : Daemon
  /-- The BRGs whose registrations the handler has seen, in order. -/
  handled : List Brg

inductive NetIn where
  | send (b : Brg) (w : Wire)
  | deliver (n : Nat) (env : Env)
  | lose (n : Nat)

def netStep (P : Pcap) (s : Net) : NetIn → Option Net
  | .send b w => some { s with flight := s.flight ++ [(b, w)] }
  | .lose n =>
      if n < s.flight.length then some { s with flight := s.flight.eraseIdx n } else none
  | .deliver n env =>
      match s.flight[n]? with
      | none => none
      | some (b, w) =>
          let c := (b.registration w).capture
          let flight := s.flight.eraseIdx n
          if s.brgr.installed c then
            some { flight, brgr := packetHandler P env s.brgr c, handled := s.handled ++ [b] }
          else some { s with flight }

def Net.init (d : Daemon) : Net := { flight := [], brgr := d, handled := [] }

/-- The links BRGr made, each with the BRG it was made for. -/
def Net.made (s : Net) : List (Brg × GreLink) := s.handled.zip s.brgr.links

/-- Every BRG's script link has its mirror image on BRGr. -/
def Agreement (s : Net) : Prop :=
  ∀ b : Brg, ∃ l, (b, l) ∈ s.made ∧ ∀ ip, ∀ m ∈ b.links ip, Mirrors l m

/-! ## What BRGr decodes from a registration -/

theorem byteChar_ofNat {c : Char} (h : c.toNat < 256) :
    byteChar (UInt8.ofNat c.toNat) = c := by
  rw [byteChar, UInt8.toNat_ofNat', Nat.mod_eq_of_lt h, Char.ofNat_toNat]

theorem toNat_lt_of_isDigit {c : Char} (h : c.isDigit = true) : c.toNat < 256 := by
  simp only [Char.isDigit, Bool.and_eq_true, decide_eq_true_eq] at h
  have h9 : c.toNat ≤ 57 := UInt32.le_iff_toNat_le.mp h.2
  omega

theorem Brg.srcPort_registration (b : Brg) (w : Wire) :
    Brgr.srcPort (b.registration w).capture = digits b.sport.toNat := by
  rw [UdpFrame.srcPort_capture]
  have hmap : ∀ s : Str, (∀ c ∈ s, c.isDigit = true) →
      (s.map fun c => UInt8.ofNat c.toNat).map byteChar = s := by
    intro s hs
    rw [List.map_map]
    refine (List.map_congr_left fun c hc => ?_).trans (List.map_id s)
    exact byteChar_ofNat (toNat_lt_of_isDigit (hs c hc))
  simpa [Brg.registration, sendUdp] using
    hmap (digits b.sport.toNat) fun c hc => isDigit_of_mem_digits hc

theorem Brg.dstPort_registration (b : Brg) (w : Wire) :
    Brgr.dstPort (b.registration w).capture = digits b.dport.toNat :=
  UdpFrame.dstPort_capture _

/-! ## Runs -/

/-- What agreement compares of a link. -/
def linkEnds (l : GreLink) : Nat × Str × Str := (l.key, l.encapSport, l.encapDport)

/-- The link made `i`-th, for BRG `b`. -/
def madeEnds (i : Nat) (b : Brg) : Nat × Str × Str :=
  (i + 1, digits b.dport.toNat, digits b.sport.toNat)

structure NetInv (s : Net) : Prop where
  count : s.brgr.tunnelCnt = s.handled.length + 1
  ends : s.brgr.links.map linkEnds = s.handled.mapIdx madeEnds

theorem netStep_inv {P : Pcap} {s s' : Net} {i : NetIn} (h : NetInv s)
    (hstep : netStep P s i = some s') : NetInv s' := by
  cases i with
  | send b w =>
      obtain rfl := Option.some.inj hstep
      exact ⟨h.count, h.ends⟩
  | lose n =>
      rw [netStep] at hstep
      split at hstep
      · obtain rfl := Option.some.inj hstep
        exact ⟨h.count, h.ends⟩
      · cases hstep
  | deliver n env =>
      rw [netStep] at hstep
      split at hstep
      · cases hstep
      · next b w hget =>
          simp only at hstep
          split at hstep
          · obtain rfl := Option.some.inj hstep
            refine ⟨?_, ?_⟩
            · simp [packetHandler_effect, h.count]
            · simp [packetHandler_links, h.ends, linkEnds, handlerLink, madeEnds,
                h.count, b.dstPort_registration, b.srcPort_registration]
          · obtain rfl := Option.some.inj hstep
            exact ⟨h.count, h.ends⟩

theorem net_inv {P : Pcap} {base : Str} {d : Daemon} (hstart : start P base true = some d)
    {ins : List NetIn} {s : Net} (hrun : run (netStep P) (Net.init d) ins = some s) :
    NetInv s := by
  refine run_inv (fun _ _ _ h hstep => netStep_inv h hstep) ?_ hrun
  obtain ⟨f, -, -, rfl⟩ := start_eq_some hstart
  exact ⟨rfl, rfl⟩

theorem mirrors_links_iff (b : Brg) (l : GreLink) :
    (∀ ip, ∀ m ∈ b.links ip, Mirrors l m) ↔
      linkEnds l = (b.key, digits b.dport.toNat, digits b.sport.toNat) := by
  have hlinks : ∀ ip, b.links ip =
      [scriptLink b.key b.sport.toNat b.dport.toNat ip] := by
    intro ip
    cases b <;> rfl
  simp [hlinks, Mirrors, scriptLink, linkEnds, Prod.ext_iff]

theorem mem_made_iff {s : Net} (h : NetInv s) {b : Brg} {e : Nat × Str × Str} :
    (∃ l, (b, l) ∈ s.made ∧ linkEnds l = e) ↔
      ∃ i, s.handled[i]? = some b ∧ madeEnds i b = e := by
  have hends : ∀ i, (s.brgr.links[i]?).map linkEnds = (s.handled[i]?).map (madeEnds i) := by
    intro i
    rw [← List.getElem?_map, h.ends, List.getElem?_mapIdx]
  constructor
  · rintro ⟨l, hmem, rfl⟩
    obtain ⟨i, hi⟩ := List.mem_iff_getElem?.mp hmem
    obtain ⟨hb, hl⟩ := List.getElem?_zip_eq_some.mp hi
    have heq := hends i
    rw [hb, hl] at heq
    exact ⟨i, hb, (Option.some.inj heq).symm⟩
  · rintro ⟨i, hb, rfl⟩
    have heq := hends i
    rw [hb, Option.map_some, Option.map_eq_some_iff] at heq
    obtain ⟨l, hl, hle⟩ := heq
    exact ⟨l, List.mem_iff_getElem?.mpr ⟨i, List.getElem?_zip_eq_some.mpr ⟨hb, hl⟩⟩, hle⟩

/-- Agreement is a matter of the order alone: BRG1 must have been the first
and BRG2 the second. -/
theorem agreement_iff_order {s : Net} (h : NetInv s) :
    Agreement s ↔ s.handled[0]? = some .brg1 ∧ s.handled[1]? = some .brg2 := by
  have hkey : ∀ (i : Nat) (b : Brg), madeEnds i b =
      (b.key, digits b.dport.toNat, digits b.sport.toNat) ↔ i + 1 = b.key := by
    intro i b
    simp [madeEnds]
  have hone : ∀ b : Brg, (∃ l, (b, l) ∈ s.made ∧ ∀ ip, ∀ m ∈ b.links ip, Mirrors l m) ↔
      ∃ i, s.handled[i]? = some b ∧ i + 1 = b.key := by
    intro b
    simp only [mirrors_links_iff, mem_made_iff h, hkey]
  simp only [Agreement, hone]
  constructor
  · intro hall
    obtain ⟨i, hi, hik⟩ := hall .brg1
    obtain ⟨j, hj, hjk⟩ := hall .brg2
    obtain rfl : i = 0 := Nat.succ.inj hik
    obtain rfl : j = 1 := Nat.succ.inj hjk
    exact ⟨hi, hj⟩
  · rintro ⟨h1, h2⟩ b
    cases b with
    | brg1 => exact ⟨0, h1, rfl⟩
    | brg2 => exact ⟨1, h2, rfl⟩

/-- **Tunnel agreement.** In every run in which each BRG's registration has
been handled once, the two ends of both tunnels agree exactly when BRG1's
was handled first. -/
theorem agreement_iff_brg1_first {P : Pcap} {base : Str} {d : Daemon} {ins : List NetIn}
    {s : Net} (hstart : start P base true = some d)
    (hrun : run (netStep P) (Net.init d) ins = some s)
    (honce : s.handled.Perm [.brg1, .brg2]) :
    Agreement s ↔ s.handled.head? = some .brg1 := by
  rw [agreement_iff_order (net_inv hstart hrun)]
  obtain ⟨a, b, hab⟩ := List.length_eq_two.mp honce.length_eq
  rw [hab] at honce ⊢
  cases a <;> cases b
  case brg1.brg2 => simp
  case brg2.brg1 => simp
  all_goals exact absurd honce (by decide)

/-- Both registrations are sent, then delivered in the order given. -/
def twoRegistrations (first second : Nat) : List NetIn :=
  [.send .brg1 (natWire 33000), .send .brg2 (natWire 33001),
   .deliver first quietEnv, .deliver second quietEnv]

theorem agreement_in_order :
    ∃ s, run (netStep udpPcap) (Net.init udpDaemon) (twoRegistrations 0 0) = some s ∧
      s.handled.Perm [.brg1, .brg2] ∧ Agreement s := by
  have hrun : run (netStep udpPcap) (Net.init udpDaemon) (twoRegistrations 0 0) =
    some _ := rfl
  exact ⟨_, hrun, by decide, (agreement_iff_brg1_first start_udp hrun (by decide)).mpr (by decide)⟩

/-- BRG2's registration overtakes BRG1's: its tunnel gets key 1 on BRGr and
has key 2 on BRG2. -/
theorem overtaking_breaks_agreement :
    ∃ s, run (netStep udpPcap) (Net.init udpDaemon) (twoRegistrations 1 0) = some s ∧
      s.handled.Perm [.brg1, .brg2] ∧ ¬ Agreement s := by
  have hrun : run (netStep udpPcap) (Net.init udpDaemon) (twoRegistrations 1 0) =
    some _ := rfl
  refine ⟨_, hrun, by decide, ?_⟩
  rw [agreement_iff_order (net_inv start_udp hrun)]
  decide

end Brgr

end NetSystem
