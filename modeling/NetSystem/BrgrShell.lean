import NetSystem.BrgrTunnels

/-!
# What the tunnel daemon tells the shell

Every string `packetHandler` passes to `system()` is a fixed text with
operands put in. `Cmd.Sane` says what the operands should be - addresses,
port numbers, device names - and `Harmless` that a string is the text of
such a command, so that the shell sees one command and no syntax.

The ports the daemon decodes itself are always numbers. The remote address
is one for IPv4 packets; otherwise it is whatever the buffer held. The
`encap-dport` operand is the rest of the frame, unchecked. The two are all
there is to go wrong (`shell_harmless_iff`).
-/

namespace NetSystem

namespace Brgr

/-! ## Harmless strings -/

/-- A dotted quad. -/
def IsQuad (s : Str) : Prop := ∃ ip : Ipv4, s = ip.text

/-- A decimal number from 0 to 65535. -/
def IsPort (s : Str) : Prop :=
  s ≠ [] ∧ (∀ ch ∈ s, ch.isDigit = true) ∧ Nat.ofDigitChars 10 s 0 < 65536

instance (s : Str) : Decidable (IsPort s) :=
  letI : Decidable (∀ ch ∈ s, ch.isDigit = true) := List.decidableBAll (·.isDigit = true) s
  inferInstanceAs (Decidable (_ ∧ _ ∧ _))

def IsDevice (s : Str) : Prop :=
  s = "br1".toList ∨ s = "BRGr-eth0".toList ∨ ∃ k, s = greName k

/-- The operands are of the kind the command asks for. -/
def Cmd.Sane : Cmd → Prop
  | .fouAdd port => IsPort port
  | .linkAddGre l =>
      IsQuad l.remoteIp ∧ IsQuad l.localIp ∧ IsPort l.encapSport ∧ IsPort l.encapDport
  | .linkSetUp dev => IsDevice dev
  | .linkAddBridge br => IsDevice br
  | .brctlAddif br dev => IsDevice br ∧ IsDevice dev

/-- A character that is no syntax to the shell, blanks between words apart. -/
def plain (ch : Char) : Bool := ch.isAlphanum || ch == ' ' || ch == '.' || ch == '-'

def Plain (s : Str) : Prop := ∀ ch ∈ s, plain ch = true

instance (s : Str) : Decidable (Plain s) := List.decidableBAll (plain · = true) s

/-- The text of one `ip` or `brctl` command on addresses, numbers and
devices, and nothing in it for the shell to expand or split. -/
def Harmless (s : Str) : Prop := (∃ cmd : Cmd, cmd.Sane ∧ s = cmd.text) ∧ Plain s

/-! ## Operands -/

theorem plain_append {s t : Str} : Plain (s ++ t) ↔ Plain s ∧ Plain t :=
  List.forall_mem_append

theorem plain_cons {ch : Char} {s : Str} : Plain (ch :: s) ↔ plain ch = true ∧ Plain s :=
  List.forall_mem_cons

theorem plain_of_isDigit {ch : Char} (h : ch.isDigit = true) : plain ch = true := by
  simp [plain, Char.isAlphanum, h]

theorem plain_digits (n : Nat) : Plain (digits n) := fun _ h =>
  plain_of_isDigit (isDigit_of_mem_digits h)

theorem plain_greName (k : Nat) : Plain (greName k) :=
  plain_append.mpr ⟨by decide, plain_digits k⟩

theorem IsQuad.plain {s : Str} (h : IsQuad s) : Plain s := by
  obtain ⟨ip, rfl⟩ := h
  intro ch hch
  rcases Ipv4.mem_text hch with hd | rfl
  · exact plain_of_isDigit hd
  · rfl

theorem IsPort.plain {s : Str} (h : IsPort s) : Plain s := fun ch hch =>
  plain_of_isDigit (h.2.1 ch hch)

theorem IsDevice.plain {s : Str} (h : IsDevice s) : Plain s := by
  rcases h with rfl | rfl | ⟨k, rfl⟩
  · decide
  · decide
  · exact plain_greName k

theorem isPort_digits {n : Nat} (h : n < 65536) : IsPort (digits n) := by
  have hval : Nat.ofDigitChars 10 (digits n) 0 = n := Nat.ofDigitChars_ten_toDigits
  exact ⟨digits_ne_nil n, fun _ => isDigit_of_mem_digits, by rwa [hval]⟩

/-- Every sane command is plain text. -/
theorem Cmd.Sane.plain {cmd : Cmd} (h : cmd.Sane) : Plain cmd.text := by
  unfold Cmd.text
  cases cmd with
  | fouAdd port =>
      have hport : Plain port := IsPort.plain h
      simp only [plain_append, hport, and_true]
      decide +kernel
  | linkAddGre l =>
      obtain ⟨hr, hl, hs, hd⟩ := h
      simp only [plain_append, plain_greName, hr.plain, hl.plain, plain_digits, hs.plain,
        hd.plain, and_true]
      decide +kernel
  | linkSetUp dev =>
      have hdev : Plain dev := IsDevice.plain h
      simp only [plain_append, hdev, and_true]
      decide +kernel
  | linkAddBridge br =>
      have hbr : Plain br := IsDevice.plain h
      simp only [plain_append, hbr, and_true]
      decide +kernel
  | brctlAddif br dev =>
      simp only [plain_append, plain_cons, h.1.plain, h.2.plain, and_true]
      decide +kernel

theorem Cmd.Sane.harmless {cmd : Cmd} (h : cmd.Sane) : Harmless cmd.text :=
  ⟨⟨cmd, h, rfl⟩, h.plain⟩

theorem Cmd.Sane.harmless_cStr {cmd : Cmd} (h : cmd.Sane) : Harmless (cStr cmd.text) := by
  rw [cStr_eq_self fun hnul => absurd (h.plain _ hnul) (by decide)]
  exact h.harmless

/-! ## Reading the operands back

A text cut at its blanks gives the words of the command, with those of the
operands in their places. -/

theorem pieces_linkAddGre (l : GreLink) : pieces (Cmd.linkAddGre l).text =
    ["ip".toList, "link".toList, "add".toList] ++ pieces (greName l.index) ++
      ["type".toList, "gretap".toList, "remote".toList] ++ pieces l.remoteIp ++
      ["local".toList] ++ pieces l.localIp ++ ["key".toList] ++ pieces (digits l.key) ++
      ["encap".toList, "fou".toList, "encap-sport".toList] ++ pieces l.encapSport ++
      ["encap-dport".toList] ++ pieces l.encapDport := by
  have htext : (Cmd.linkAddGre l).text = "ip link add".toList ++ ' ' :: (greName l.index ++
      ' ' :: ("type gretap remote".toList ++ ' ' :: (l.remoteIp ++ ' ' :: ("local".toList ++
      ' ' :: (l.localIp ++ ' ' :: ("key".toList ++ ' ' :: (digits l.key ++
      ' ' :: ("encap fou encap-sport".toList ++ ' ' :: (l.encapSport ++
      ' ' :: ("encap-dport".toList ++ ' ' :: l.encapDport)))))))))) := by
    unfold Cmd.text
    simp [List.append_assoc]
  have hfixed : pieces "ip link add".toList = ["ip".toList, "link".toList, "add".toList] ∧
      pieces "type gretap remote".toList =
        ["type".toList, "gretap".toList, "remote".toList] ∧
      pieces "local".toList = ["local".toList] ∧ pieces "key".toList = ["key".toList] ∧
      pieces "encap fou encap-sport".toList =
        ["encap".toList, "fou".toList, "encap-sport".toList] ∧
      pieces "encap-dport".toList = ["encap-dport".toList] := by
    decide +kernel
  obtain ⟨h1, h2, h3, h4, h5, h6⟩ := hfixed
  rw [htext]
  simp only [pieces_append_blank (show isBlank ' ' = true from rfl), h1, h2, h3, h4, h5, h6,
    List.append_assoc]

/-- An operand without blanks is one word. -/
theorem pieces_of_operand {s : Str} (h : ∀ ch ∈ s, ch.isDigit = true ∨ ch = '.') :
    pieces s = [s] := by
  refine pieces_of_noBlank fun ch hch => ?_
  rcases h ch hch with hd | rfl
  · exact isBlank_eq_false_of_isDigit hd
  · rfl

theorem pieces_digits (n : Nat) : pieces (digits n) = [digits n] :=
  pieces_of_operand fun _ h => Or.inl (isDigit_of_mem_digits h)

theorem pieces_greName (k : Nat) : pieces (greName k) = [greName k] := by
  refine pieces_of_noBlank fun ch hch => ?_
  rcases List.mem_append.mp hch with hch | hch
  · have hfixed : ("GRE".toList.all fun x => !isBlank x) = true := rfl
    simpa using List.all_eq_true.mp hfixed ch hch
  · exact isBlank_eq_false_of_isDigit (isDigit_of_mem_digits hch)

theorem IsQuad.pieces {s : Str} (h : IsQuad s) : pieces s = [s] := by
  obtain ⟨ip, rfl⟩ := h
  exact pieces_of_operand fun _ => Ipv4.mem_text

theorem IsPort.pieces {s : Str} (h : IsPort s) : pieces s = [s] :=
  pieces_of_operand fun ch hch => Or.inl (h.2.1 ch hch)

theorem IsDevice.pieces {s : Str} (h : IsDevice s) : pieces s = [s] := by
  rcases h with rfl | rfl | ⟨k, rfl⟩
  · rfl
  · decide +kernel
  · exact pieces_greName k

/-- A word in the middle adds one to the words around it. -/
theorem length_pieces_around {s : Str} (h : pieces s = [s]) (a b : Str) :
    (pieces (a ++ ' ' :: (s ++ ' ' :: b))).length = (pieces a).length + 1 + (pieces b).length := by
  have hblank : isBlank ' ' = true := rfl
  rw [pieces_append_blank hblank, pieces_append_blank hblank, h, List.length_append,
    List.length_append, List.length_singleton, Nat.add_assoc]

/-- The tunnel command is the only long one. -/
theorem length_pieces_of_sane {cmd : Cmd} (h : cmd.Sane) (hne : ∀ l, cmd ≠ .linkAddGre l) :
    (pieces cmd.text).length ≤ 7 := by
  cases cmd with
  | linkAddGre l => exact absurd rfl (hne l)
  | fouAdd port =>
      have htext : (Cmd.fouAdd port).text =
          "ip fou add port".toList ++ ' ' :: (port ++ ' ' :: "ipproto 47".toList) := by
        unfold Cmd.text
        simp
      rw [htext, length_pieces_around (IsPort.pieces h)]
      decide +kernel
  | linkSetUp dev =>
      have htext : (Cmd.linkSetUp dev).text =
          "ip link set".toList ++ ' ' :: (dev ++ ' ' :: "up".toList) := by
        unfold Cmd.text
        simp
      rw [htext, length_pieces_around (IsDevice.pieces h)]
      decide +kernel
  | linkAddBridge br =>
      have htext : (Cmd.linkAddBridge br).text =
          "ip link add".toList ++ ' ' :: (br ++ ' ' :: "type bridge".toList) := by
        unfold Cmd.text
        simp
      rw [htext, length_pieces_around (IsDevice.pieces h)]
      decide +kernel
  | brctlAddif br dev =>
      have htext : (Cmd.brctlAddif br dev).text =
          "brctl addif".toList ++ ' ' :: (br ++ ' ' :: dev) := by
        unfold Cmd.text
        simp
      rw [htext, length_pieces_around h.1.pieces, h.2.pieces, List.length_singleton]
      decide +kernel

/-- Which tunnel commands are texts of sane ones: the operands the handler
does not choose itself are read back from the words. -/
theorem sane_of_text {l : GreLink} {cmd : Cmd} (hlocal : IsQuad l.localIp)
    (hsport : IsPort l.encapSport) (hcmd : cmd.Sane) (h : (Cmd.linkAddGre l).text = cmd.text) :
    (Cmd.linkAddGre l).Sane := by
  have hwords := congrArg pieces h
  have hremote := List.length_pos_iff.mpr (pieces_ne_nil l.remoteIp)
  have hdport := List.length_pos_iff.mpr (pieces_ne_nil l.encapDport)
  rw [pieces_linkAddGre, pieces_greName, hlocal.pieces, pieces_digits, hsport.pieces] at hwords
  have hlen := congrArg List.length hwords
  simp only [List.length_append, List.length_cons, List.length_nil] at hlen
  by_cases hgre : ∃ l', cmd = .linkAddGre l'
  · obtain ⟨l', rfl⟩ := hgre
    obtain ⟨hr, hl, hs, hd⟩ := hcmd
    rw [pieces_linkAddGre, pieces_greName, hr.pieces, hl.pieces, pieces_digits, hs.pieces,
      hd.pieces] at hwords hlen
    simp only [List.length_append, List.length_cons, List.length_nil] at hlen
    obtain ⟨r, hr'⟩ := List.length_eq_one_iff.mp (show (pieces l.remoteIp).length = 1 by omega)
    obtain ⟨d, hd'⟩ := List.length_eq_one_iff.mp (show (pieces l.encapDport).length = 1 by omega)
    rw [hr', hd'] at hwords
    simp only [List.cons_append, List.nil_append, List.cons.injEq, true_and, and_true] at hwords
    obtain ⟨-, hr'', -, -, -, hd''⟩ := hwords
    refine ⟨?_, hlocal, hsport, ?_⟩
    · rw [eq_of_pieces hr', hr'']
      exact hr
    · rw [eq_of_pieces hd', hd'']
      exact hd
  · have hshort := length_pieces_of_sane hcmd fun l' hl' => hgre ⟨l', hl'⟩
    omega

/-! ## The strings of one call -/

/-- What the frame holds from offset 42 on. -/
def restOfFrame (c : Capture) : Str :=
  (List.range (c.len - 42)).map fun j => byteChar (c.packet (42 + j))

theorem nul_notMem_sourceIp (c : Capture) (env : Env) : '\x00' ∉ sourceIp c env := by
  unfold sourceIp
  split
  · exact Ipv4.nul_notMem_text ⟨c.packet 26, c.packet 27, c.packet 28, c.packet 29⟩
  · exact nul_notMem_cStr env.stack

/-- The payload is the last operand, so a NUL in it cuts nothing else. -/
theorem cStr_linkAddGre {l : GreLink} (hr : '\x00' ∉ l.remoteIp) (hl : '\x00' ∉ l.localIp)
    (hs : '\x00' ∉ l.encapSport) : cStr (Cmd.linkAddGre l).text =
      (Cmd.linkAddGre { l with encapDport := cStr l.encapDport }).text := by
  unfold Cmd.text
  refine cStr_append ?_ _
  simp only [List.mem_append, greName, hr, hl, hs, nul_notMem_digits, not_or]
  decide +kernel

/-- A tunnel command is harmless iff the two operands that are not decoded
by the handler are what they should be. -/
theorem harmless_linkAddGre_iff {l : GreLink} (hnul : '\x00' ∉ l.remoteIp)
    (hlocal : IsQuad l.localIp) (hsport : IsPort l.encapSport) :
    Harmless (cStr (Cmd.linkAddGre l).text) ↔
      IsQuad l.remoteIp ∧ IsPort (cStr l.encapDport) := by
  have hplain : ∀ {s : Str}, Plain s → '\x00' ∉ s := fun h hmem =>
    absurd (h _ hmem) (by decide)
  rw [cStr_linkAddGre hnul (hplain hlocal.plain) (hplain hsport.plain)]
  constructor
  · rintro ⟨⟨cmd, hcmd, htext⟩, -⟩
    obtain ⟨hr, -, -, hd⟩ :=
      sane_of_text (l := { l with encapDport := cStr l.encapDport }) hlocal hsport hcmd htext
    exact ⟨hr, hd⟩
  · rintro ⟨hr, hd⟩
    have hsane : (Cmd.linkAddGre { l with encapDport := cStr l.encapDport }).Sane :=
      ⟨hr, hlocal, hsport, hd⟩
    exact hsane.harmless

theorem isQuad_sourceIp_iff (c : Capture) (env : Env) :
    IsQuad (sourceIp c env) ↔ etherType c = 2048 ∨ IsQuad (cStr env.stack) := by
  unfold sourceIp
  split
  · next h => simp only [h, true_or, iff_true]; exact ⟨⟨_, _, _, _⟩, rfl⟩
  · next h => simp [h]

theorem isPort_dstPort (c : Capture) : IsPort (dstPort c) := by
  rw [dstPort_eq]
  exact isPort_digits (dstPortNum_lt c)

/-- The tunnel command of a call. -/
theorem harmless_handlerLink_iff (k : Nat) (env : Env) (c : Capture) :
    Harmless (cStr (Cmd.linkAddGre (handlerLink k env c)).text) ↔
      (etherType c = 2048 ∨ IsQuad (cStr env.stack)) ∧ IsPort (cStr (restOfFrame c)) := by
  have hrest : srcPort c = restOfFrame c := scanPorts_snd c c.len
  rw [← isQuad_sourceIp_iff, ← hrest]
  exact harmless_linkAddGre_iff (l := handlerLink k env c) (nul_notMem_sourceIp c env)
    ⟨⟨140, 113, 0, 2⟩, show "140.113.0.2".toList = _ by decide +kernel⟩ (isPort_dstPort c)

theorem mem_handlerCmds (k : Nat) (env : Env) (c : Capture) :
    .linkAddGre (handlerLink k env c) ∈ handlerCmds k env c := by
  refine List.mem_append_left _ (List.mem_append_left _ (List.mem_append_left _ ?_))
  exact List.mem_cons_of_mem _ (List.mem_cons_self ..)

/-- All commands of a call but the one that adds the tunnel are harmless. -/
theorem handlerCmds_harmless (k : Nat) (env : Env) (c : Capture) {cmd : Cmd}
    (h : cmd ∈ handlerCmds k env c) (hne : cmd ≠ .linkAddGre (handlerLink k env c)) :
    Harmless (cStr cmd.text) := by
  refine Cmd.Sane.harmless_cStr ?_
  have hbr : IsDevice "br1".toList := Or.inl rfl
  have heth : IsDevice "BRGr-eth0".toList := Or.inr (Or.inl rfl)
  have hgre : IsDevice (greName k) := Or.inr (Or.inr ⟨k, rfl⟩)
  rw [handlerCmds, List.mem_append, List.mem_append, List.mem_append] at h
  rcases h with ((h | h) | h) | h
  · rcases List.mem_cons.mp h with rfl | h
    · exact isPort_dstPort c
    rcases List.mem_cons.mp h with rfl | h
    · exact absurd rfl hne
    rw [List.mem_singleton.mp h]
    exact hgre
  · split at h
    · rcases List.mem_cons.mp h with rfl | h
      · exact hbr
      rw [List.mem_singleton.mp h]
      exact ⟨hbr, heth⟩
    · cases h
  · rw [List.mem_singleton.mp h]
    exact ⟨hbr, hgre⟩
  · split at h
    · rw [List.mem_singleton.mp h]
      exact hbr
    · cases h

/-- The strings one call of the handler passes to `system()`. -/
def shellOf (P : Pcap) (env : Env) (d : Daemon) (c : Capture) : List Str :=
  (packetHandler P env d c).shell.drop d.shell.length

theorem shellOf_eq (P : Pcap) (env : Env) (d : Daemon) (c : Capture) :
    shellOf P env d c = (handlerCmds d.tunnelCnt env c).map fun cmd => cStr cmd.text := by
  have hshell : (packetHandler P env d c).shell =
      d.shell ++ (handlerCmds d.tunnelCnt env c).map fun cmd => cStr cmd.text := by
    rw [Daemon.shell, (packetHandler_effect env d c).2.2, List.map_append]
    rfl
  rw [shellOf, hshell, List.drop_left]

/-- **Packet content at the shell.** The strings of a call are harmless
exactly when the packet is IPv4, or the buffer happens to hold an address,
and what stands in the frame from offset 42 to the first NUL is a port
number. -/
theorem shell_harmless_iff (P : Pcap) (env : Env) (d : Daemon) (c : Capture) :
    (∀ s ∈ shellOf P env d c, Harmless s) ↔
      (etherType c = 2048 ∨ IsQuad (cStr env.stack)) ∧ IsPort (cStr (restOfFrame c)) := by
  have hgre := harmless_handlerLink_iff d.tunnelCnt env c
  rw [shellOf_eq, List.forall_mem_map]
  constructor
  · intro h
    exact hgre.mp (h _ (mem_handlerCmds d.tunnelCnt env c))
  · intro h cmd hcmd
    by_cases heq : cmd = .linkAddGre (handlerLink d.tunnelCnt env c)
    · rw [heq]
      exact hgre.mpr h
    · exact handlerCmds_harmless d.tunnelCnt env c hcmd heq

/-- `send_udp.sh "1;reboot" 50000`. -/
def rebootFrame : UdpFrame := sendUdp (natWire 33000) "1;reboot".toList 50000

/-- One datagram makes the daemon run `reboot`. -/
theorem payload_reaches_shell :
    ("ip link add GRE1 type gretap remote 140.114.0.1 local 140.113.0.2 key 1 " ++
        "encap fou encap-sport 50000 encap-dport 1;reboot").toList ∈
      shellOf udpPcap quietEnv udpDaemon rebootFrame.capture ∧
    ¬ ∀ s ∈ shellOf udpPcap quietEnv udpDaemon rebootFrame.capture, Harmless s := by
  have hmem : ("ip link add GRE1 type gretap remote 140.114.0.1 local 140.113.0.2 key 1 " ++
      "encap fou encap-sport 50000 encap-dport 1;reboot").toList ∈
      shellOf udpPcap quietEnv udpDaemon rebootFrame.capture := by
    rw [shellOf_eq, String.toList_append]
    refine List.mem_map.mpr ⟨_, mem_handlerCmds _ _ _, ?_⟩
    rw [handlerLink, UdpFrame.sourceIp_capture, UdpFrame.dstPort_capture, UdpFrame.srcPort_capture]
    decide +kernel
  refine ⟨hmem, fun h => ?_⟩
  have hsemi : ';' ∈ "encap fou encap-sport 50000 encap-dport 1;reboot".toList := by decide +kernel
  rw [String.toList_append] at hmem
  have hplain := (h _ hmem).2 ';' (List.mem_append_right _ hsemi)
  cases hplain

end Brgr

end NetSystem
