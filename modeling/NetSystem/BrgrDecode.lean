import NetSystem.BrgrShell
import NetSystem.IpFrames

/-!
# Decoding a registration

`packetHandler` of `ns_project` takes the destination port from bytes 36 and
37 of the frame and the payload from byte 42 on, to the end of the frame.
That is right for an IPv4 header without options and a frame without
padding; `c_str()` then cuts the command at the first NUL, which hides
padding that starts with a zero byte and everything behind a zero byte of
the payload.

The tunnel is made outside the test of the EtherType, so a packet that is
not IPv4 makes one as well.
-/

namespace NetSystem

namespace Brgr

/-! ## Bytes and characters -/

theorem byteChar_injective : Function.Injective byteChar := by
  have hchar : ∀ n < 256, (Char.ofNat n).toNat = n := by decide +kernel
  exact byte_injective hchar

/-- A string of bytes as C sees it. -/
theorem cStr_map_byteChar (l : List UInt8) :
    cStr (l.map byteChar) = (l.takeWhile (· ≠ 0)).map byteChar := by
  have hnul : ∀ b : UInt8, byteChar b = '\x00' ↔ b = 0 := fun b =>
    ⟨fun h => byteChar_injective h, fun h => by rw [h]; rfl⟩
  rw [cStr, List.takeWhile_map]
  congr 2
  funext b
  simp [hnul]

theorem takeWhile_of_zero_notMem {l : List UInt8} (h : 0 ∉ l) : l.takeWhile (· ≠ 0) = l := by
  rw [List.takeWhile_eq_self_iff]
  intro x hx
  simpa using fun heq : x = 0 => h (heq ▸ hx)

/-- What is left of a payload and its padding. -/
theorem takeWhile_append_eq_iff {payload trailer : List UInt8} :
    (payload ++ trailer).takeWhile (· ≠ 0) = payload ↔
      0 ∉ payload ∧ ∀ b, trailer.head? = some b → b = 0 := by
  constructor
  · intro h
    have hzero : 0 ∉ payload := by
      intro hmem
      rw [← h] at hmem
      have hne := List.mem_takeWhile_imp hmem
      simp at hne
    refine ⟨hzero, fun b hb => ?_⟩
    rw [List.takeWhile_append, takeWhile_of_zero_notMem hzero, if_pos rfl] at h
    have hnil : trailer.takeWhile (· ≠ 0) = [] := by simpa using h
    obtain ⟨rest, rfl⟩ := List.head?_eq_some_iff.mp hb
    by_contra hne
    simp [hne] at hnil
  · rintro ⟨hzero, hhead⟩
    rw [List.takeWhile_append, takeWhile_of_zero_notMem hzero, if_pos rfl]
    cases trailer with
    | nil => simp
    | cons b rest => simp [hhead b rfl]

/-! ## The commands of a registration -/

/-- The tunnel the datagram asks for. -/
def UdpDatagram.link (u : UdpDatagram) (k : Nat) : GreLink where
  index := k
  remoteIp := u.srcIp.text
  localIp := "140.113.0.2".toList
  key := k
  encapSport := digits u.dstPort.toNat
  encapDport := u.payload.map byteChar

/-- The first two commands of the call are those the datagram asks for. -/
def Decodes (P : Pcap) (env : Env) (d : Daemon) (u : UdpDatagram) (mem : Nat → UInt8) : Prop :=
  (shellOf P env d (u.capture mem)).take 2 =
    [(Cmd.fouAdd (digits u.dstPort.toNat)).text, (Cmd.linkAddGre (u.link d.tunnelCnt)).text]

/-- The call makes no tunnel and leaves counter and filter alone. -/
def Untouched (P : Pcap) (env : Env) (d : Daemon) (c : Capture) : Prop :=
  (packetHandler P env d c).links = d.links ∧
    (packetHandler P env d c).tunnelCnt = d.tunnelCnt ∧ (packetHandler P env d c).filter = d.filter

theorem fouAdd_text_inj {p q : Str} (h : (Cmd.fouAdd p).text = (Cmd.fouAdd q).text) : p = q := by
  unfold Cmd.text at h
  exact List.append_cancel_left (List.append_cancel_right h)

theorem linkAddGre_text_inj {l : GreLink} {p q : Str}
    (h : (Cmd.linkAddGre { l with encapDport := p }).text =
      (Cmd.linkAddGre { l with encapDport := q }).text) : p = q := by
  unfold Cmd.text at h
  exact List.append_cancel_left h

theorem nul_notMem_localIp : '\x00' ∉ "140.113.0.2".toList := by decide +kernel

section Datagram

variable {P : Pcap} {env : Env} {d : Daemon} {u : UdpDatagram} {mem : Nat → UInt8}

theorem sourceIp_datagram : sourceIp (u.capture mem) env = u.srcIp.text := by
  rw [sourceIp, UdpDatagram.capture, UdpDatagram.bytes, if_pos IpHeader.etherType_whole]
  exact IpHeader.inetNtop_whole

theorem dstPort_datagram : dstPort (u.capture mem) = digits (be16 (u.capture mem) 36) := by
  have hlen : (u.capture mem).len = 42 + u.options.length + u.payload.length + u.trailer.length :=
    u.bytes_length
  rw [dstPort_eq, dstPortNum, if_neg (by omega), if_neg (by omega)]

theorem srcPort_datagram : srcPort (u.capture mem) = (u.bytes.drop 42).map byteChar := by
  have hdrop : (List.range (u.bytes.length - 42)).map (byteChar ∘ fun j =>
      (u.capture mem).packet (42 + j)) = (u.bytes.drop 42).map byteChar := by
    rw [← List.map_map, UdpDatagram.capture, Capture.whole_drop]
  rw [srcPort, scanPorts_snd, ← hdrop]
  rfl

/-- The command for the link, cut where `c_str()` cuts it. -/
theorem cStr_link_datagram (env : Env) (k : Nat) :
    cStr (Cmd.linkAddGre (handlerLink k env (u.capture mem))).text =
      (Cmd.linkAddGre { u.link k with
        encapSport := digits (be16 (u.capture mem) 36)
        encapDport := ((u.bytes.drop 42).takeWhile (· ≠ 0)).map byteChar }).text := by
  have hremote : '\x00' ∉ (handlerLink k env (u.capture mem)).remoteIp := by
    simp only [handlerLink]
    exact nul_notMem_sourceIp (u.capture mem) env
  have hlocal : '\x00' ∉ (handlerLink k env (u.capture mem)).localIp := nul_notMem_localIp
  have hsport : '\x00' ∉ (handlerLink k env (u.capture mem)).encapSport := by
    simp only [handlerLink, dstPort_datagram]
    exact nul_notMem_digits _
  rw [cStr_linkAddGre hremote hlocal hsport]
  simp only [handlerLink, sourceIp_datagram, dstPort_datagram, srcPort_datagram,
    cStr_map_byteChar, UdpDatagram.link]

theorem shellOf_datagram :
    (shellOf P env d (u.capture mem)).take 2 =
      [(Cmd.fouAdd (digits (be16 (u.capture mem) 36))).text,
       (Cmd.linkAddGre { u.link d.tunnelCnt with
        encapSport := digits (be16 (u.capture mem) 36)
        encapDport := ((u.bytes.drop 42).takeWhile (· ≠ 0)).map byteChar }).text] := by
  have hfou : cStr (Cmd.fouAdd (dstPort (u.capture mem))).text =
      (Cmd.fouAdd (digits (be16 (u.capture mem) 36))).text := by
    have hsane : (Cmd.fouAdd (dstPort (u.capture mem))).Sane := isPort_dstPort _
    rw [cStr_eq_self fun hnul => absurd (hsane.plain _ hnul) (by decide), dstPort_datagram]
  rw [shellOf_eq, ← hfou, ← cStr_link_datagram env]
  rfl

/-- Exactly when the fields are where the program looks for them. -/
theorem decodes_iff :
    Decodes P env d u mem ↔ be16 (u.capture mem) 36 = u.dstPort.toNat ∧
      (u.bytes.drop 42).takeWhile (· ≠ 0) = u.payload := by
  rw [Decodes, shellOf_datagram, List.cons.injEq, List.cons.injEq]
  constructor
  · rintro ⟨hfou, hlink, -⟩
    have hport := fouAdd_text_inj hfou
    rw [hport] at hlink
    have hpayload := linkAddGre_text_inj (l := u.link d.tunnelCnt) hlink
    exact ⟨digits_injective hport, (List.map_injective_iff.mpr byteChar_injective) hpayload⟩
  · rintro ⟨hport, hpayload⟩
    rw [hport, hpayload]
    exact ⟨rfl, rfl, rfl⟩

end Datagram

/-- **Registration decoding.** Without IP options a datagram is decoded
right exactly if no zero byte is in the payload and no other byte starts the
padding. With options the program takes the port from the third and fourth
of their bytes and the payload from the ninth byte behind the fixed header
on. No packet leaves the daemon untouched. -/
theorem registration_decoding_iff (P : Pcap) (env : Env) (d : Daemon) :
    (∀ (u : UdpDatagram) (mem : Nat → UInt8), Decodes P env d u mem ↔
      (u.options = [] ∧ 0 ∉ u.payload ∧ ∀ b, u.trailer.head? = some b → b = 0) ∨
      (u.options ≠ [] ∧
        (u.options.getD 2 0).toNat * 256 + (u.options.getD 3 0).toNat = u.dstPort.toNat ∧
        ((u.options ++ (u.udpHeader ++ u.payload ++ u.trailer)).drop 8).takeWhile (· ≠ 0) =
          u.payload)) ∧
    ∀ c, ¬ Untouched P env d c := by
  refine ⟨fun u mem => ?_, fun c h => ?_⟩
  · rw [decodes_iff]
    by_cases hoptions : u.options = []
    · rw [UdpDatagram.be16_of_no_options hoptions, UdpDatagram.drop_of_no_options hoptions,
        takeWhile_append_eq_iff]
      simp [hoptions]
    · rw [UdpDatagram.be16_of_options hoptions, u.drop_bytes]
      simp [hoptions]
  · have hcnt := (packetHandler_effect (P := P) env d c).1
    rw [h.2.1] at hcnt
    omega

/-- A registration with the record-route option, and one padded with spaces;
the payload of both is `30000`. -/
def routedDatagram : UdpDatagram where
  toIpHeader :=
    { natHeader ⟨140, 113, 0, 2⟩ with
      options := [7, 3, 4, 0], options_words := rfl, options_le := by decide }
  srcPort := 33000
  dstPort := 50000
  udpChecksum := 0
  payload := [51, 48, 48, 48, 48]
  trailer := []
  fits := by decide

def paddedDatagram : UdpDatagram where
  toIpHeader := natHeader ⟨140, 113, 0, 2⟩
  srcPort := 33000
  dstPort := 50000
  udpChecksum := 0
  payload := [51, 48, 48, 48, 48]
  trailer := List.replicate 13 32
  fits := by decide

/-- An ARP request. -/
def arpCapture : Capture where
  len := 60
  caplen := 60
  caplen_le := le_rfl
  packet i := if i = 12 then 8 else if i = 13 then 6 else 0

/-- Both are misread, and the ARP request makes a tunnel. -/
theorem registration_misread :
    ¬ Decodes udpPcap quietEnv udpDaemon routedDatagram (fun _ => 0) ∧
    ¬ Decodes udpPcap quietEnv udpDaemon paddedDatagram (fun _ => 0) ∧
    etherType arpCapture ≠ 2048 ∧ ¬ Untouched udpPcap quietEnv openDaemon arpCapture ∧
    openDaemon.installed arpCapture = true := by
  refine ⟨?_, ?_, by decide, fun h => ?_, rfl⟩
  · rw [decodes_iff, UdpDatagram.be16_of_options (by decide)]
    exact fun h => absurd h.1 (by decide)
  · rw [decodes_iff, UdpDatagram.drop_of_no_options rfl, takeWhile_append_eq_iff]
    exact fun h => absurd (h.2.2 32 rfl) (by decide)
  · have hcnt := (packetHandler_effect (P := udpPcap) quietEnv openDaemon arpCapture).1
    rw [h.2.1] at hcnt
    omega

end Brgr

end NetSystem
