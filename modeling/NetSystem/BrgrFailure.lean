import NetSystem.BrgrTunnels

/-!
# Registrations that fail

A call of `packetHandler` in `ns_project` runs `ip link add` and updates the
filter, and both can fail: `ip` rejects an `encap-dport` that is not a port,
`pcap_compile` a text it cannot parse, `pcap_setfilter` may not get its
program into the kernel. The exit statuses of the commands are not looked
at, and the two filter steps are looked at when `tunnel_cnt` and `filter`
have been changed already, so that a failure is never undone.

What `ip` makes of a command comes in as the predicate `fails` on the text
the shell is given.
-/

namespace NetSystem

namespace Brgr

variable {P : Pcap} {base : Str} {f : Capture → Bool} {d : Daemon}

/-- Some step of the registration fails: the link cannot be added, or the
longer filter cannot be compiled or installed. -/
def RegistrationFails (P : Pcap) (fails : Str → Bool) (env : Env) (d : Daemon) (c : Capture) :
    Prop :=
  fails (cStr (Cmd.linkAddGre (handlerLink d.tunnelCnt env c)).text) = true ∨
    P.compile (cStr (extendFilter d.filter (dstPort c))) = none ∨ env.setfilter = false

/-- The counter, the filter text and the program in force are as before. -/
def NoTrace (d d' : Daemon) : Prop :=
  d'.tunnelCnt = d.tunnelCnt ∧ d'.filter = d.filter ∧ d'.installed = d.installed

/-! ## What is left behind -/

theorem extendFilter_ne (filter port : Str) : extendFilter filter port ≠ filter := by
  intro h
  have hlen := congrArg List.length h
  rw [extendFilter, List.length_append, List.length_append] at hlen
  have hclause : " and not port ".toList.length = 14 := by decide
  omega

theorem not_noTrace (env : Env) (d : Daemon) (c : Capture) :
    ¬ NoTrace d (packetHandler P env d c) := by
  rw [NoTrace, (packetHandler_effect env d c).1]
  omega

/-- A failed registration leaves its trace in the counter and the text, and
the next tunnel gets another key than it would have got. -/
theorem failed_registration_leaves_trace :
    ∀ (fails : Str → Bool) (env : Env) (d : Daemon) (c : Capture),
      RegistrationFails P fails env d c →
        ¬ NoTrace d (packetHandler P env d c) ∧
        (packetHandler P env d c).filter ≠ d.filter ∧
        ∀ (env' : Env) (c' : Capture),
          (handlerLink (packetHandler P env d c).tunnelCnt env' c').key ≠
            (handlerLink d.tunnelCnt env' c').key := by
  intro fails env d c _
  obtain ⟨hcnt, hfilter, -⟩ := packetHandler_effect (P := P) env d c
  refine ⟨not_noTrace env d c, ?_, fun env' c' hkey => ?_⟩
  · rw [hfilter]
    exact extendFilter_ne _ _
  · simp only [handlerLink, hcnt] at hkey
    omega

/-! ## Registering again -/

/-- A port the program in force excludes stays excluded: an update that
succeeds excludes all ports with tunnels, one that fails changes nothing. -/
theorem offer_excluded {ns ms : List Nat} (hd : FilterInv P base f d ns ms)
    (i : Capture × Env) {p : Str} (hp : p ∈ d.excluded) : p ∈ (offer P d i).excluded := by
  unfold offer
  split
  · rcases packetHandler_program (P := P) i.2 d i.1 with ⟨-, -, -, -, he⟩ | ⟨-, -, he⟩
    · rw [he]
      split
      · rw [hd.excluded, List.mem_map] at hp
        obtain ⟨n, hn, rfl⟩ := hp
        rw [packetHandler_ports, hd.ports]
        exact List.mem_append_left _ (List.mem_map_of_mem (hd.made.mem hn))
      · exact hp
    · rwa [he]
  · exact hp

theorem pcapLoop_excluded (hf : P.compile (cStr base) = some f) {ns ms : List Nat}
    (hd : FilterInv P base f d ns ms) {p : Str} (hp : p ∈ d.excluded)
    (ins : List (Capture × Env)) : p ∈ (pcapLoop P d ins).excluded := by
  induction ins generalizing d ns ms with
  | nil => exact hp
  | cons i ins ih =>
      obtain ⟨ns', ms', h⟩ := offer_inv hf hd i
      exact ih h (offer_excluded hd i hp)

/-- **No second try.** Over a base that can be extended, a registration
whose filter update goes through shuts its port for good, whether or not
the link was added: no later datagram to that port is delivered. -/
theorem retry_never_delivered {d₀ : Daemon} (hstart : start P base true = some d₀)
    (hb : ¬ Blank base) (hnul : '\x00' ∉ base) (env : Env) (r r' : UdpFrame)
    (ins ins' : List (Capture × Env)) (hset : env.setfilter = true)
    (hport : r'.dstPort = r.dstPort) :
    (pcapLoop P (packetHandler P env (pcapLoop P d₀ ins) r.capture) ins').installed r'.capture =
      false := by
  obtain ⟨hf, hinv⟩ := start_inv hstart
  obtain ⟨ns, ms, h⟩ := pcapLoop_inv hf hinv ins
  obtain ⟨ms', h', hms'⟩ := packetHandler_inv hf h env r.capture
  have hmem : digits r'.dstPort.toNat ∈
      (packetHandler P env (pcapLoop P d₀ ins) r.capture).excluded := by
    rw [h'.excluded, hms' hb hnul hset, hport, ← r.dstPort_capture, dstPort_eq]
    exact List.mem_map_of_mem (List.mem_append_right _ (List.mem_singleton_self _))
  have hlater := pcapLoop_excluded hf h' hmem ins'
  obtain ⟨ns'', ms'', h''⟩ := pcapLoop_inv hf h' ins'
  rw [← Bool.not_eq_true, h''.installed_udp]
  exact fun hacc => hacc.2.2 hlater

/-! ## A payload that is not a port -/

/-- `ip` on a link whose last operand is not a port number. -/
def ipLinkAdd (text : Str) : Bool :=
  match (words text).getLast? with
  | some w => (readPort w).isNone
  | none => true

/-- `send_udp.sh 3000O 50000`, with a letter at the end of the first port. -/
def typoFrame : UdpFrame := sendUdp (natWire 33000) "3000O".toList 50000

theorem typo_fails : RegistrationFails udpPcap ipLinkAdd quietEnv udpDaemon typoFrame.capture :=
  Or.inl (by decide +kernel)

theorem failed_registration_leaves_trace_typo :
    ¬ NoTrace udpDaemon (packetHandler udpPcap quietEnv udpDaemon typoFrame.capture) :=
  (failed_registration_leaves_trace ipLinkAdd quietEnv udpDaemon typoFrame.capture typo_fails).1

/-- The mistyped registration fails and takes key 1, and the corrected one
is dropped. -/
theorem typo_leaves_trace :
    RegistrationFails udpPcap ipLinkAdd quietEnv udpDaemon typoFrame.capture ∧
      ¬ NoTrace udpDaemon (packetHandler udpPcap quietEnv udpDaemon typoFrame.capture) ∧
      (packetHandler udpPcap quietEnv udpDaemon typoFrame.capture).installed
        (brg1Frame 33001).capture = false := by
  have hport : (brg1Frame 33001).dstPort = typoFrame.dstPort := by
    simp only [brg1Frame, typoFrame, sendUdp]
  have hretry := retry_never_delivered start_udp (by decide) (by decide) quietEnv typoFrame
    (brg1Frame 33001) [] [] rfl hport
  exact ⟨typo_fails, not_noTrace _ _ _, hretry⟩

end Brgr

end NetSystem
