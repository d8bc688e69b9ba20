import Mathlib.Algebra.BigOperators.Field
import NetSystem.CsmaAirtime
import NetSystem.CsmaWindow

/-!
# Waiting times and throughput of the CSMA/CA simulator

How long a station with a packet waits, and how much the stations can send
together, in every run.

A slot in which `u` does not send takes one off its backoff if the medium is
idle and leaves it alone if the medium is busy (`slot_waiting`), and the
medium is busy for at most 30 slots on end (`OnAir`). `wait` is the measure
made of the two, and `bounded_wait` the bound.

For the throughput a transmission is charged with the slot it starts in and
the busy slots behind it: at least one, and at least 10 where the airtime is
the right one (`HeadStays`).
-/

namespace NetSystem

namespace Csma

variable {nn : Nat} {rate : Fin nn → Fin 4}

/-! ## A slot in which a station does not send -/

theorem arrive_staPktCnt {inp : SlotIn nn} {s s' : Sim nn} {v : Fin nn}
    (h : arrive inp s v = some s') (u : Fin nn) : s.staPktCnt u ≤ s'.staPktCnt u := by
  unfold arrive at h
  split at h
  · rw [Option.map_eq_some_iff] at h
    obtain ⟨q, -, rfl⟩ := h
    by_cases hu : u = v
    · subst hu
      simp
    · simp [hu]
  · obtain rfl := Option.some.inj h
    exact le_rfl

/-- Arrivals only add to a queue. -/
theorem generatePkt_staPktCnt {inp : SlotIn nn} {s s' : Sim nn}
    (h : generatePkt inp s = some s') (u : Fin nn) : s.staPktCnt u ≤ s'.staPktCnt u := by
  have hstep : ∀ a v b, s.staPktCnt u ≤ a.staPktCnt u → arrive inp a v = some b →
      s.staPktCnt u ≤ b.staPktCnt u :=
    fun a v b ha hb => ha.trans (arrive_staPktCnt hb u)
  exact run_inv (P := fun a => s.staPktCnt u ≤ a.staPktCnt u) hstep le_rfl h

/-- A station that does not send keeps its packets and its backoff. -/
theorem transmit_of_notMem {inp : SlotIn nn} {s s' : Sim nn} {ws : List (Fin nn)}
    (h : transmit rate inp s ws = some s') {u : Fin nn} (hu : u ∉ ws) :
    s'.staPktCnt u = s.staPktCnt u ∧ s'.backoff u = s.backoff u := by
  obtain ⟨b, hb, busy, tx, num, rfl⟩ := transmit_cases h
  obtain ⟨-, -, hback, hcnt⟩ := resolve_frame hb
  simp only [redraw, hu, if_false, hback, hcnt u hu, and_self]

/-- **One slot of waiting.** -/
theorem slot_waiting {s s' : Sim nn} {inp : SlotIn nn} {u : Fin nn} (hu : 0 < s.staPktCnt u)
    (hsend : u ∉ senders s inp) (h : slot rate s inp = some s') :
    0 < s'.staPktCnt u ∧ s'.backoff u = s.backoff u - if s.isBusy then 0 else 1 := by
  obtain ⟨a, ha, hcases⟩ := slot_cases h
  have hsame := generatePkt_sameMedium ha
  have hcnt : 0 < a.staPktCnt u := lt_of_lt_of_le hu (generatePkt_staPktCnt ha u)
  have hback : a.backoff u = s.backoff u := by rw [hsame.backoff]
  have hbusy : a.isBusy = s.isBusy := hsame.isBusy
  have hdown : (countDown a).backoff u = s.backoff u - 1 := by
    simp only [countDown, hcnt, if_true, hback]
  rcases hcases with ⟨hmed, rfl⟩ | ⟨-, hnone, -⟩ | ⟨hmed, -, -, rfl⟩ | ⟨hmed, -, -, htx⟩
  · rw [hbusy] at hmed
    refine ⟨hcnt, ?_⟩
    simp [busySlot, hback, hmed]
  · exact absurd (mem_pending.mpr hcnt) (by simp [hnone])
  · rw [hbusy] at hmed
    refine ⟨hcnt, ?_⟩
    simp [hdown, hmed]
  · rw [senders_eq ha, hmed] at hsend
    rw [hbusy] at hmed
    obtain ⟨hcnt', hback'⟩ := transmit_of_notMem htx (by simpa using hsend)
    rw [hcnt', hback', hdown, hmed]
    exact ⟨hcnt, by simp⟩

/-! ## The medium -/

theorem duration_le (rate : Fin nn → Fin 4) {ws : List (Fin nn)} (hne : ws ≠ []) :
    duration rate ws ≤ 30 := by
  have hmax : ∀ r : Fin 4, airSlots r ≤ 30 := by decide
  obtain ⟨w, -, hw⟩ := List.mem_map.mp (duration_lasts rate hne).2
  have hle := hmax (rate w)
  omega

/-- A busy medium has at most 30 slots left. -/
def OnAir (s : Sim nn) : Prop := s.isBusy = true → ∃ D ≤ 30, Lasts s.txTime D

/-- What a transmission leaves on the medium: the airtime of full packets,
or none at all. -/
theorem senders_onAir {s s' : Sim nn} {inp : SlotIn nn} (h : Inv s) (hne : senders s inp ≠ [])
    (hs' : slot rate s inp = some s') :
    s'.isBusy = true ∧ ∃ D ≤ 30, Lasts s'.txTime D ∧ (HeadStays s inp → 10 ≤ D) := by
  obtain ⟨hbusy, a, q, ha, htx, hheads, hvalues⟩ := slot_medium h hne hs'
  refine ⟨hbusy, ?_⟩
  by_cases hfull : ∀ w ∈ senders s inp, q.cell w 0 = pktLen
  · have hmap : (senders s inp).map (fun w : Fin nn => q.cell w 0) =
        (senders s inp).map fun _ => pktLen := List.map_congr_left hfull
    refine ⟨duration rate (senders s inp), duration_le rate hne, ?_, fun _ => duration_pos rate hne⟩
    rw [htx, hmap]
    exact txTimeOf_lasts rate q hne
  · -- a sender whose head is not a packet is alone, and its head is zero
    push Not at hfull
    obtain ⟨w, hw, hcell⟩ := hfull
    have hhead := hheads w hw
    split at hhead
    · exact absurd hhead hcell
    rename_i hcase
    rw [not_or, not_le] at hcase
    have hzero : q.cell w 0 = 0 := by
      rw [hhead] at hcell ⊢
      exact (hvalues w).resolve_right hcell
    have hlone : senders s inp = [w] := by
      match senders s inp, hcase.1, hw with
      | [v], _, hv => rw [List.mem_singleton.mp hv]
    refine ⟨0, Nat.zero_le _, ?_, fun hstays => ?_⟩
    · rw [htx, hlone, List.map_singleton, hzero, txTimeOf_zero]
      exact ⟨by simp, by simp⟩
    · have hstay := (hstays.resolve_left (not_le.mpr hcase.1) a ha).resolve_left hcase.2 w hw
      exact absurd (hhead.trans hstay) hcell

/-- The slots a busy medium takes to become idle. -/
def airLeft (s : Sim nn) : Nat :=
  if s.isBusy then max 1 (s.txTime.foldr max 0).toNat else 0

theorem foldr_max_of_lasts {tx : List Int} {D : Nat} (h : Lasts tx D) : tx.foldr max 0 = D := by
  have hle : ∀ l : List Int, (∀ x ∈ l, x ≤ (D : Int)) → l.foldr max 0 ≤ D := by
    intro l
    induction l with
    | nil => simp
    | cons x l ih =>
        rw [List.forall_mem_cons, List.foldr_cons]
        exact fun hl => max_le hl.1 (ih hl.2)
  have hge : ∀ l : List Int, (D : Int) ∈ l → D ≤ l.foldr max 0 := by
    intro l
    induction l with
    | nil => simp
    | cons x l ih =>
        rw [List.mem_cons, List.foldr_cons]
        rintro (rfl | hl)
        · exact le_max_left _ _
        · exact (ih hl).trans (le_max_right _ _)
  exact le_antisymm (hle tx h.1) (hge tx h.2)

theorem airLeft_of_lasts {s : Sim nn} {D : Nat} (hbusy : s.isBusy = true)
    (h : Lasts s.txTime D) : airLeft s = max 1 D := by
  rw [airLeft, if_pos hbusy, foldr_max_of_lasts h, Int.toNat_natCast]

/-- A busy slot uses one of them up. -/
theorem busy_airLeft {s s' : Sim nn} {inp : SlotIn nn} {D : Nat} (hbusy : s.isBusy = true)
    (hlasts : Lasts s.txTime D) (h : slot rate s inp = some s') :
    airLeft s' + 1 = airLeft s ∧ (s'.isBusy = true → Lasts s'.txTime (D - 1)) := by
  obtain ⟨htx, hflag, -, -⟩ := busy_slot hbusy h
  rw [airLeft_of_lasts hbusy hlasts]
  cases D with
  | zero =>
      have hdone : elapsed (s.txTime.map (· - 1)) = true := by
        rw [elapsed, Bool.and_eq_true, Bool.not_eq_true', List.isEmpty_eq_false_iff,
          List.all_eq_true]
        refine ⟨List.ne_nil_of_mem (List.mem_map_of_mem hlasts.2), fun x hx => ?_⟩
        obtain ⟨y, hy, rfl⟩ := List.mem_map.mp hx
        have hle := hlasts.1 y hy
        simp only [decide_eq_true_eq]
        omega
      rw [hdone] at hflag
      simp [airLeft, hflag]
  | succ D =>
      have htick := lasts_tick hlasts
      rw [← htx] at htick
      by_cases hD : D = 0
      · have hdone : s'.isBusy = false := by
          rw [hflag, ← htx, (elapsed_iff htick).mpr hD]
          rfl
        simp [airLeft, hdone, hD]
      · have hstill : s'.isBusy = true := by
          have hnot : elapsed s'.txTime = false := by
            rw [Bool.eq_false_iff, ne_eq, elapsed_iff htick]
            exact hD
          rw [hflag, ← htx, hnot]
          rfl
        rw [airLeft_of_lasts hstill htick]
        exact ⟨by omega, fun _ => htick⟩

/-- An idle slot without senders. -/
theorem idle_slot {s s' : Sim nn} {inp : SlotIn nn} (h : Inv s) (hidle : s.isBusy = false)
    (hnone : senders s inp = []) (hs' : slot rate s inp = some s') :
    s'.isBusy = false ∧ s'.numTx = s.numTx := by
  obtain ⟨a, ha, hcases⟩ := slot_cases hs'
  have hsame := generatePkt_sameMedium ha
  have hmed : a.isBusy = false := hsame.isBusy.trans hidle
  rcases hcases with ⟨hbusy, -⟩ | ⟨-, -, rfl⟩ | ⟨-, -, -, rfl⟩ | ⟨-, -, hzero, -⟩
  · rw [hmed] at hbusy
    cases hbusy
  · exact ⟨hmed, hsame.numTx⟩
  · exact ⟨hmed, hsame.numTx⟩
  · have hinv : Inv a := of_exists_some (generatePkt_inv inp h) ha
    rw [senders_eq ha, hmed, if_neg (by simp)] at hnone
    exact absurd hnone ((min_countDown_iff hinv.backoff).mp hzero)

/-- What a slot does to the medium. -/
theorem slot_onAir {s s' : Sim nn} {inp : SlotIn nn} (h : Inv s) (hair : OnAir s)
    (hs' : slot rate s inp = some s') :
    OnAir s' ∧ airLeft s' ≤ 30 ∧ (s.isBusy = true → airLeft s' + 1 = airLeft s) := by
  cases hmed : s.isBusy with
  | true =>
      obtain ⟨D, hD, hlasts⟩ := hair hmed
      obtain ⟨hleft, hnext⟩ := busy_airLeft hmed hlasts hs'
      have htop := airLeft_of_lasts hmed hlasts
      exact ⟨fun hbusy => ⟨D - 1, by omega, hnext hbusy⟩, by omega, fun _ => hleft⟩
  | false =>
      by_cases hne : senders s inp = []
      · have hidle := (idle_slot h hmed hne hs').1
        refine ⟨fun hbusy => ?_, by simp [airLeft, hidle], fun hbusy => by cases hbusy⟩
        rw [hidle] at hbusy
        cases hbusy
      · obtain ⟨hbusy, D, hD, hlasts, -⟩ := senders_onAir h hne hs'
        refine ⟨fun _ => ⟨D, hD, hlasts⟩, ?_, fun hbusy => by cases hbusy⟩
        rw [airLeft_of_lasts hbusy hlasts]
        omega

/-! ## The wait of a station -/

/-- The slots of a run that find the medium idle. -/
def idleSlots (rate : Fin nn → Fin 4) : Sim nn → List (SlotIn nn) → Nat
  | _, [] => 0
  | s, inp :: ins => (if s.isBusy then 0 else 1) +
      match slot rate s inp with
      | some s' => idleSlots rate s' ins
      | none => 0

/-- What the bound is proved under: the books, the medium, and a packet of
the station. -/
structure Waiting (u : Fin nn) (s : Sim nn) : Prop where
  inv : Inv s
  onAir : OnAir s
  packet : 0 < s.staPktCnt u

/-- Slots that may pass before the station sends: the busy ones on the air
now, and for each idle one still to come but the last it and 30 behind. -/
def wait (u : Fin nn) (s : Sim nn) : Nat := 31 * (s.backoff u - 1).toNat + airLeft s

theorem slot_wait {s s' : Sim nn} {inp : SlotIn nn} {u : Fin nn} (h : Waiting u s)
    (hsend : u ∉ senders s inp) (hs' : slot rate s inp = some s') :
    Waiting u s' ∧ wait u s' < wait u s := by
  obtain ⟨hcnt, hback⟩ := slot_waiting h.packet hsend hs'
  obtain ⟨hair, hle, hbusy⟩ := slot_onAir h.inv h.onAir hs'
  have hinv : Inv s' := of_exists_some (slot_inv inp h.inv) hs'
  refine ⟨⟨hinv, hair, hcnt⟩, ?_⟩
  have hone := hinv.backoff u
  cases hmed : s.isBusy with
  | true =>
      have hleft := hbusy hmed
      simp only [hmed, if_true, sub_zero] at hback
      simp only [wait, hback]
      omega
  | false =>
      simp only [hmed, Bool.false_eq_true, if_false] at hback
      simp only [wait]
      omega

/-- As long as the station does not send, its backoff counts the idle
slots. -/
theorem backoff_idleSlots {u : Fin nn} : ∀ {js : List (SlotIn nn)} {s s' : Sim nn},
    Waiting u s → EachStep (slot rate) (fun a inp => u ∉ senders a inp) s js →
    run (slot rate) s js = some s' → Waiting u s' ∧
      (idleSlots rate s js : Int) + s'.backoff u = s.backoff u
  | [], s, s', h, _, hrun => by
      obtain rfl := Option.some.inj hrun
      exact ⟨h, by simp [idleSlots]⟩
  | inp :: js, s, s', h, hnot, hrun => by
      rw [eachStep_cons] at hnot
      rw [run_cons, Option.bind_eq_some_iff] at hrun
      obtain ⟨a, ha, hrun⟩ := hrun
      obtain ⟨hwait, -⟩ := slot_wait h hnot.1 ha
      obtain ⟨hlast, ih⟩ := backoff_idleSlots hwait (hnot.2 a ha) hrun
      refine ⟨hlast, ?_⟩
      have hback := (slot_waiting h.packet hnot.1 ha).2
      simp only [idleSlots, ha]
      cases hmed : s.isBusy <;> simp [hmed] at hback ⊢ <;> omega

theorem onAir_init (arrival : Fin nn → Option ℚ) (draw : Fin nn → Nat) :
    OnAir (Sim.init arrival draw) := fun h => absurd h (by simp [Sim.init])

/-- The books and the medium, in every state of a run. -/
theorem run_onAir {arrival : Fin nn → Option ℚ} {draw : Fin nn → Nat} {ins : List (SlotIn nn)}
    {s : Sim nn} (hs : run (slot rate) (Sim.init arrival draw) ins = some s) :
    Inv s ∧ OnAir s := by
  refine run_inv (P := fun a => Inv a ∧ OnAir a) ?_
    ⟨inv_init arrival draw, onAir_init arrival draw⟩ hs
  rintro a inp b ⟨hinv, hair⟩ hb
  exact ⟨of_exists_some (slot_inv inp hinv) hb, (slot_onAir hinv hair hb).1⟩

/-- A sender is at the end of its backoff. -/
theorem backoff_of_sender {s : Sim nn} {inp : SlotIn nn} {u : Fin nn}
    (hu : u ∈ senders s inp) : s.backoff u = 1 := by
  cases ha : generatePkt inp { s with t := s.t + 1 } with
  | none => simp [senders, ha] at hu
  | some a =>
      rw [senders_eq ha] at hu
      split at hu
      · cases hu
      · obtain ⟨hcnt, hzero⟩ := mem_winners.mp hu
        have hpos : 0 < a.staPktCnt u := hcnt
        have hback : a.backoff u = s.backoff u := by rw [(generatePkt_sameMedium ha).backoff]
        simp only [countDown, hpos, if_true, hback] at hzero
        omega

/-- **No station starves.** Whatever the other stations do: a station with a
packet and backoff `b` sends in the `b`-th of the following slots that find
the medium idle, and that is one of the next `31 * b` slots. As `b` is at
most 1024, no packet at the head of a queue waits for more than 31744 slots
to be sent. -/
theorem bounded_wait (rate : Fin nn → Fin 4) (arrival : Fin nn → Option ℚ)
    (draw : Fin nn → Nat) (ins : List (SlotIn nn)) (s : Sim nn)
    (hs : run (slot rate) (Sim.init arrival draw) ins = some s) (u : Fin nn)
    (hu : 0 < s.staPktCnt u) (js : List (SlotIn nn)) (hjs : 31 * s.backoff u ≤ js.length) :
    s.backoff u ≤ 1024 ∧ ∃ js₁ inp s₁, js₁ ++ [inp] <+: js ∧
      run (slot rate) s js₁ = some s₁ ∧ u ∈ senders s₁ inp ∧
      EachStep (slot rate) (fun a i => u ∉ senders a i) s js₁ ∧
      (idleSlots rate s js₁ : Int) + 1 = s.backoff u := by
  obtain ⟨hinv, hair⟩ := run_onAir hs
  have hwin : Window s :=
    run_inv (P := Window) (fun _ _ _ hw hstep => slot_window hw hstep) (window_init arrival draw) hs
  have htop : s.backoff u ≤ 1024 := by
    have hhigh := hwin.high u
    have hcw : s.cw u ≤ cwMax := (hwin.cw u).trans_le (min_le_right _ _)
    rw [cwMax] at hcw
    omega
  refine ⟨htop, ?_⟩
  obtain ⟨t, ht, -⟩ : ∃ t, run (slot rate) s js = some t ∧ Inv t :=
    run_total (fun _ i ha => slot_inv i ha) js hinv
  have hwait : wait u s < js.length := by
    have hone := hinv.backoff u
    have hleft : airLeft s ≤ 30 := by
      cases hmed : s.isBusy with
      | false => simp [airLeft, hmed]
      | true =>
          obtain ⟨D, hD, hlasts⟩ := hair hmed
          rw [airLeft_of_lasts hmed hlasts]
          omega
    simp only [wait]
    omega
  have hstep : ∀ a inp b, Waiting u a → ¬ u ∈ senders a inp → slot rate a inp = some b →
      Waiting u b ∧ wait u b < wait u a := fun a inp b ha hnot hb => slot_wait ha hnot hb
  obtain ⟨js₁, inp, s₁, hpre, hrun, hsend, hnot, -⟩ :=
    eventually_of_measure (wait u) hstep ⟨hinv, hair, hu⟩ ht hwait
  refine ⟨js₁, inp, s₁, hpre, hrun, hsend, hnot, ?_⟩
  obtain ⟨-, hcount⟩ := backoff_idleSlots ⟨hinv, hair, hu⟩ hnot hrun
  rw [backoff_of_sender hsend] at hcount
  exact hcount

/-- One station, one packet, a first backoff of 2. -/
def lateSlot : SlotIn 1 := ⟨fun _ => none, fun _ => 0⟩

theorem bounded_wait_late : ∃ s,
    run (slot fun _ => 0) (Sim.init (fun _ : Fin 1 => some 1) fun _ => 1) [lateSlot] = some s ∧
      ∃ js₁ inp s₁, js₁ ++ [inp] <+: List.replicate 31 lateSlot ∧
        run (slot fun _ => 0) s js₁ = some s₁ ∧ 0 ∈ senders s₁ inp := by
  obtain ⟨s, hs, -⟩ := sim_total (fun _ => 0) (fun _ : Fin 1 => some 1) (fun _ => 1) [lateSlot]
  have hend : (run (slot fun _ => 0) (Sim.init (fun _ : Fin 1 => some 1) fun _ => 1)
      [lateSlot]).map (fun s => (s.staPktCnt 0, s.backoff 0)) = some (1, 1) := by decide +kernel
  rw [hs, Option.map_some, Option.some.injEq, Prod.mk.injEq] at hend
  obtain ⟨-, js₁, inp, s₁, hpre, hrun, hsend, -⟩ := bounded_wait (fun _ => 0) _ _ _ s hs 0
    (by omega) (List.replicate 31 lateSlot) (by simp [hend.2])
  exact ⟨s, hs, js₁, inp, s₁, hpre, hrun, hsend⟩

/-! ## Throughput -/

/-- `sum(SentBitCnt/(SimuTime*SlotTime)./1e6)` -/
def totalTput (simuTime : Nat) (s : Sim nn) : ℚ :=
  ∑ u, (s.sentBitCnt u : ℚ) / (simuTime * slotTime) / 10 ^ 6

/-- Every transmission is charged with its slot and `k` busy ones, of which
some may be to come. -/
def Charged (k : Nat) (s : Sim nn) : Prop := (k + 1) * s.numTx ≤ s.t + min (airLeft s) k

/-- A slot with senders finds the medium idle and counts one transmission. -/
theorem senders_numTx {s s' : Sim nn} {inp : SlotIn nn} (h : Inv s) (hne : senders s inp ≠ [])
    (hs' : slot rate s inp = some s') : s.isBusy = false ∧ s'.numTx = s.numTx + 1 := by
  obtain ⟨a, ha, -, hwin, htx⟩ := slot_senders h hne hs'
  have hsame := generatePkt_sameMedium ha
  constructor
  · by_contra hbusy
    have hmed : a.isBusy = true := hsame.isBusy.trans (by simpa using hbusy)
    rw [senders_eq ha, hmed] at hne
    exact hne rfl
  · rw [hwin] at hne
    simp only [transmit, Option.bind_eq_bind, Option.bind_eq_some_iff] at htx
    obtain ⟨b, hb, htx⟩ := htx
    rw [if_pos (List.length_pos_of_ne_nil hne)] at htx
    simp only [occupy, Option.bind_eq_bind, Option.bind_eq_some_iff, Option.some.injEq] at htx
    obtain ⟨heads, -, rfl⟩ := htx
    have hnum : b.numTx = s.numTx := (resolve_frame hb).2.1.trans hsame.numTx
    simp only [redraw, hnum]

theorem slot_charged {k : Nat} {s s' : Sim nn} {inp : SlotIn nn} (hinv : Inv s)
    (hair : OnAir s) (h : Charged k s)
    (hk : senders s inp ≠ [] → k ≤ airLeft s') (hs' : slot rate s inp = some s') :
    Charged k s' := by
  have ht := slot_t hs'
  unfold Charged at h ⊢
  by_cases hne : senders s inp = []
  · cases hmed : s.isBusy with
    | true =>
        obtain ⟨-, -, hleft⟩ := slot_onAir hinv hair hs'
        obtain ⟨-, -, -, hnum⟩ := busy_slot hmed hs'
        have hone := hleft hmed
        rw [hnum]
        omega
    | false =>
        obtain ⟨-, hnum⟩ := idle_slot hinv hmed hne hs'
        have hnone : airLeft s = 0 := by simp [airLeft, hmed]
        rw [hnum]
        omega
  · obtain ⟨hmed, hnum⟩ := senders_numTx hinv hne hs'
    have hnone : airLeft s = 0 := by simp [airLeft, hmed]
    have hroom := hk hne
    rw [hnum, Nat.mul_succ]
    omega

/-- Where transmissions are charged with `k` busy slots, `k + 1` times their
number fits into the run. -/
theorem run_charged {k : Nat} {arrival : Fin nn → Option ℚ} {draw : Fin nn → Nat}
    {ins : List (SlotIn nn)} {s : Sim nn} {C : Sim nn → SlotIn nn → Prop}
    (hk : ∀ a inp b, Inv a → C a inp → slot rate a inp = some b → senders a inp ≠ [] →
      k ≤ airLeft b)
    (hC : EachStep (slot rate) C (Sim.init arrival draw) ins)
    (hs : run (slot rate) (Sim.init arrival draw) ins = some s) :
    (k + 1) * s.numTx ≤ ins.length + k := by
  have hstep : ∀ a inp b, (Inv a ∧ OnAir a ∧ Charged k a) → C a inp → slot rate a inp = some b →
      (Inv b ∧ OnAir b ∧ Charged k b) := by
    rintro a inp b ⟨hinv, hair, hch⟩ hc hb
    exact ⟨of_exists_some (slot_inv inp hinv) hb, (slot_onAir hinv hair hb).1,
      slot_charged hinv hair hch (hk a inp b hinv hc hb) hb⟩
  have hstart : Inv (Sim.init arrival draw) ∧ OnAir (Sim.init arrival draw) ∧
      Charged k (Sim.init arrival draw) :=
    ⟨inv_init arrival draw, onAir_init arrival draw, by simp [Charged, Sim.init]⟩
  obtain ⟨-, -, hch⟩ := always_of_eachStep hstep hstart hC ins s (List.prefix_refl _) hs
  have hlen : s.t = ins.length := (run_slot_t hs).trans (Nat.zero_add _)
  unfold Charged at hch
  omega

/-- In slots of a microsecond, bits per slot are megabits per second. -/
theorem totalTput_eq (simuTime : Nat) (s : Sim nn) :
    totalTput simuTime s = (∑ u, s.sentBitCnt u : Nat) / simuTime := by
  simp only [totalTput, slotTime]
  rw [Nat.cast_sum, Finset.sum_div]
  refine Finset.sum_congr rfl fun u _ => ?_
  rw [div_div]
  congr 1
  ring

theorem sentBits_le {s : Sim nn} (h : Inv s) : ∑ u, s.sentBitCnt u ≤ 180 * s.numTx := by
  have hsent : ∑ u, s.sentBitCnt u = 180 * ∑ u, successes s u := by
    rw [Finset.mul_sum]
    exact Finset.sum_congr rfl fun u _ => h.books.sent u
  have htx := h.books.tx
  rw [hsent]
  omega

/-- A sender keeps its airtime, if there is one. -/
def KeepsAirtime (s : Sim nn) (inp : SlotIn nn) : Prop := senders s inp ≠ [] → HeadStays s inp

instance (s : Sim nn) (inp : SlotIn nn) : Decidable (KeepsAirtime s inp) :=
  inferInstanceAs (Decidable (_ → _))

/-- **Throughput.** A run of `T` slots has at most `(T + 1) / 2`
transmissions, so the reported total is at most `90 * (T + 1) / T` Mb/s; the
highest data rate is 18 Mb/s. If every transmission of the run has its
airtime, there are at most `(T + 10) / 11` of them, and in simulations of at
least 100 slots the total is at most 18 Mb/s. -/
theorem throughput_bound (rate : Fin nn → Fin 4) (arrival : Fin nn → Option ℚ)
    (draw : Fin nn → Nat) (ins : List (SlotIn nn)) (s : Sim nn)
    (hs : run (slot rate) (Sim.init arrival draw) ins = some s) :
    2 * s.numTx ≤ ins.length + 1 ∧
      totalTput ins.length s * ins.length ≤ 90 * (ins.length + 1) ∧
      (EachStep (slot rate) KeepsAirtime (Sim.init arrival draw) ins →
        11 * s.numTx ≤ ins.length + 10 ∧
          (100 ≤ ins.length → totalTput ins.length s ≤ 18)) := by
  have hinv : Inv s := of_exists_some (sim_total rate arrival draw ins) hs
  have hbits := sentBits_le hinv
  have htwo : 2 * s.numTx ≤ ins.length + 1 := by
    refine run_charged (k := 1) (C := fun _ _ => True) ?_ (fun _ _ _ _ _ => trivial) hs
    intro a inp b ha _ hb hne
    obtain ⟨hbusy, D, -, hlasts, -⟩ := senders_onAir ha hne hb
    rw [airLeft_of_lasts hbusy hlasts]
    exact le_max_left _ _
  refine ⟨htwo, ?_, fun hkeeps => ?_⟩
  · rw [totalTput_eq]
    have hle : (∑ u, s.sentBitCnt u : Nat) ≤ 90 * (ins.length + 1) := by omega
    rcases Nat.eq_zero_or_pos ins.length with h0 | hpos
    · rw [h0]
      norm_num
    · rw [div_mul_cancel₀ _ (by exact_mod_cast hpos.ne')]
      exact_mod_cast hle
  · have heleven : 11 * s.numTx ≤ ins.length + 10 := by
      refine run_charged (k := 10) ?_ hkeeps hs
      intro a inp b ha hkeep hb hne
      obtain ⟨hbusy, D, -, hlasts, hlong⟩ := senders_onAir ha hne hb
      rw [airLeft_of_lasts hbusy hlasts]
      exact (hlong (hkeep hne)).trans (le_max_right _ _)
    refine ⟨heleven, fun hlong => ?_⟩
    have hle : (∑ u, s.sentBitCnt u : Nat) ≤ 18 * ins.length := by omega
    have hpos : (0 : ℚ) < ins.length := by exact_mod_cast (by omega : 0 < ins.length)
    rw [totalTput_eq, div_le_iff₀ hpos]
    exact_mod_cast hle

/-- One packet is sent in the second slot, with nobody else waiting. -/
theorem throughput_bound_late : ∃ s,
    run (slot fun _ => 0) (Sim.init (fun _ : Fin 1 => some 1) fun _ => 1)
      [lateSlot, lateSlot] = some s ∧ s.numTx = 1 ∧ 2 * s.numTx ≤ 3 ∧ 11 * s.numTx ≤ 12 := by
  obtain ⟨s, hs, -⟩ :=
    sim_total (fun _ => 0) (fun _ : Fin 1 => some 1) (fun _ => 1) [lateSlot, lateSlot]
  have hend : (run (slot fun _ => 0) (Sim.init (fun _ : Fin 1 => some 1) fun _ => 1)
      [lateSlot, lateSlot]).map (fun s => s.numTx) = some 1 := by decide +kernel
  rw [hs, Option.map_some, Option.some.injEq] at hend
  obtain ⟨htwo, -, hkeeps⟩ := throughput_bound (fun _ => 0) _ _ _ s hs
  exact ⟨s, hs, hend, htwo, (hkeeps (by decide +kernel)).1⟩

end Csma

end NetSystem
