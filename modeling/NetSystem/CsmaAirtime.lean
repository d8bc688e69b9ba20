import Mathlib.Tactic.FinCases
import Mathlib.Tactic.NormNum
import NetSystem.CsmaQueue

/-!
# Airtime of the CSMA/CA simulator

A transmission by the stations `W` should keep the medium busy for as many
slots as the slowest of them needs for a packet (`duration`), with backoffs
and transmissions frozen meanwhile (`AirtimeLaw`).

The code computes the time after the packet of a lone sender has been
shifted out of the queue, from the cell that is now at the head of its row.
`airtimeLaw_iff` says when that is still a packet; otherwise the cell is
zero and the medium is released after one slot.

The countdown is about a vector: `Lasts tx D` says that the largest entry
of `tx` is `D`, and `occupied_run` is the run lemma over it.
-/

namespace NetSystem

namespace Csma

variable {nn : Nat} {rate : Fin nn → Fin 4}

/-! ## The law -/

/-- Slots a packet takes at each rate. -/
def airSlots : Fin 4 → Nat := ![30, 20, 15, 10]

theorem airSlots_eq (r : Fin 4) : (airSlots r : ℚ) = pktLen / (dataRate r * slotTime) := by
  fin_cases r <;> norm_num [airSlots, pktLen, dataRate, slotTime]

theorem airSlots_pos (r : Fin 4) : 10 ≤ airSlots r := by
  revert r
  decide

/-- Slots the slowest of the stations takes. -/
def duration (rate : Fin nn → Fin 4) (ws : List (Fin nn)) : Nat :=
  (ws.map fun w => airSlots (rate w)).foldr max 0

/-- The stations whose backoff reaches 0 in the slot. -/
def senders (s : Sim nn) (inp : SlotIn nn) : List (Fin nn) :=
  match generatePkt inp { s with t := s.t + 1 } with
  | some a => if a.isBusy then [] else winners (countDown a)
  | none => []

/-- After the slot that starts the transmission the medium is busy for
exactly `duration` slots, in which no backoff changes and nothing else is
transmitted. -/
def AirtimeLaw (rate : Fin nn → Fin 4) (s : Sim nn) (inp : SlotIn nn) : Prop :=
  ∀ s' js s'', slot rate s inp = some s' → run (slot rate) s' js = some s'' →
    (js.length < duration rate (senders s inp) → s''.isBusy = true) ∧
    (js.length = duration rate (senders s inp) → s''.isBusy = false) ∧
    (js.length ≤ duration rate (senders s inp) →
      s''.backoff = s'.backoff ∧ s''.numTx = s'.numTx)

/-- What the code needs for it: when the transmission starts, there are
several senders, or the queue matrix has a single column, or the sender's
row holds a packet behind the head. -/
def HeadStays (s : Sim nn) (inp : SlotIn nn) : Prop :=
  2 ≤ (senders s inp).length ∨
    ∀ a, generatePkt inp { s with t := s.t + 1 } = some a →
      a.staPktQ.cols = 1 ∨ ∀ w ∈ senders s inp, a.staPktQ.cell w 1 = pktLen

instance (s : Sim nn) (inp : SlotIn nn) : Decidable (HeadStays s inp) :=
  match h : generatePkt inp { s with t := s.t + 1 } with
  | none => isTrue (Or.inr fun a ha => by simp [h] at ha)
  | some a =>
      haveI : Decidable (∀ w ∈ senders s inp, a.staPktQ.cell w 1 = pktLen) :=
        List.decidableBAll _ _
      decidable_of_iff (2 ≤ (senders s inp).length ∨
          (a.staPktQ.cols = 1 ∨ ∀ w ∈ senders s inp, a.staPktQ.cell w 1 = pktLen))
        (by simp [HeadStays, h])

/-! ## The countdown -/

/-- The largest entry of the vector is `D`. -/
def Lasts (tx : List Int) (D : Nat) : Prop := (∀ x ∈ tx, x ≤ D) ∧ (D : Int) ∈ tx

theorem lasts_tick {tx : List Int} {D : Nat} (h : Lasts tx (D + 1)) :
    Lasts (tx.map (· - 1)) D := by
  refine ⟨fun x hx => ?_, List.mem_map.mpr ⟨_, h.2, by push_cast; omega⟩⟩
  obtain ⟨y, hy, rfl⟩ := List.mem_map.mp hx
  have := h.1 y hy
  push_cast at this
  omega

theorem elapsed_iff {tx : List Int} {D : Nat} (h : Lasts tx D) : elapsed tx = true ↔ D = 0 := by
  simp only [elapsed, Bool.and_eq_true, Bool.not_eq_true', List.isEmpty_eq_false_iff,
    List.all_eq_true, decide_eq_true_eq]
  constructor
  · rintro ⟨-, hall⟩
    have := hall _ h.2
    omega
  · rintro rfl
    exact ⟨List.ne_nil_of_mem h.2, h.1⟩

/-- A slot on a busy medium only counts down. -/
theorem busy_slot {s s' : Sim nn} {inp : SlotIn nn} (hbusy : s.isBusy = true)
    (h : slot rate s inp = some s') :
    s'.txTime = s.txTime.map (· - 1) ∧ s'.isBusy = !elapsed (s.txTime.map (· - 1)) ∧
      s'.backoff = s.backoff ∧ s'.numTx = s.numTx := by
  obtain ⟨a, ha, hcases⟩ := slot_cases h
  have hsame := generatePkt_sameMedium ha
  have hbusy' : a.isBusy = true := hsame.isBusy.trans hbusy
  simp only [hbusy', Bool.true_eq_false, true_and, false_and, or_false] at hcases
  subst hcases
  have htx : a.txTime = s.txTime := hsame.txTime
  have hback : a.backoff = s.backoff := hsame.backoff
  have hnum : a.numTx = s.numTx := hsame.numTx
  simp only [busySlot, htx, hback, hnum, and_self]

/-- **The run lemma.** A medium occupied for `D` slots is busy until slot
`D` has passed, and nothing else moves. -/
theorem occupied_run : ∀ {js : List (SlotIn nn)} {s s' : Sim nn} {D : Nat},
    s.isBusy = true → Lasts s.txTime (D + 1) → run (slot rate) s js = some s' →
    (js.length < D + 1 → s'.isBusy = true) ∧ (js.length = D + 1 → s'.isBusy = false) ∧
      (js.length ≤ D + 1 → s'.backoff = s.backoff ∧ s'.numTx = s.numTx)
  | [], s, s', D, hbusy, hlasts, h => by
      obtain rfl := Option.some.inj h
      simp [hbusy]
  | inp :: js, s, s', D, hbusy, hlasts, h => by
      rw [run_cons, Option.bind_eq_some_iff] at h
      obtain ⟨a, ha, h⟩ := h
      obtain ⟨htx, hflag, hback, hnum⟩ := busy_slot hbusy ha
      have htick := lasts_tick hlasts
      cases D with
      | zero =>
          have hidle : a.isBusy = false := by
            rw [hflag, (elapsed_iff htick).mpr rfl]
            rfl
          cases js with
          | nil =>
              obtain rfl := Option.some.inj h
              simp [hidle, hback, hnum]
          | cons j js => simp
      | succ D =>
          have hstill : a.isBusy = true := by
            have hnot : elapsed (s.txTime.map (· - 1)) = false := by
              rw [Bool.eq_false_iff, ne_eq, elapsed_iff htick]
              omega
            rw [hflag, hnot]
            rfl
          rw [← htx] at htick
          obtain ⟨h1, h2, h3⟩ := occupied_run hstill htick h
          rw [hback, hnum] at h3
          simp only [List.length_cons, Nat.add_lt_add_iff_right, Nat.add_right_cancel_iff,
            Nat.add_le_add_iff_right]
          exact ⟨h1, h2, h3⟩

/-! ## The time the code computes -/

theorem vecMax_map_div {ι : Type*} (f : ι → ℚ) (l : List ι) :
    vecMax (l.map f) / slotTime = vecMax (l.map fun x => f x / slotTime) := by
  induction l with
  | nil => simp [vecMax]
  | cons x l ih =>
      simp only [vecMax, List.map_cons, List.foldr_cons] at ih ⊢
      rw [← ih, max_div_div_right (by norm_num [slotTime])]

theorem vecMax_map_cast {ι : Type*} (f : ι → Nat) (l : List ι) :
    vecMax (l.map fun x => (f x : ℚ)) = ((l.map f).foldr max 0 : Nat) := by
  induction l with
  | nil => rfl
  | cons x l ih =>
      simp only [vecMax, List.map_cons, List.foldr_cons, Nat.cast_max] at ih ⊢
      rw [ih]

theorem vecMax_const {ι : Type*} {x : ℚ} (hx : 0 ≤ x) : ∀ {l : List ι}, l ≠ [] →
    vecMax (l.map fun _ => x) = x
  | [], h => absurd rfl h
  | [_], _ => by simp [vecMax, hx]
  | _ :: b :: l, _ => by
      have ih := vecMax_const hx (l := b :: l) (by simp)
      simp only [vecMax, List.map_cons, List.foldr_cons] at ih ⊢
      rw [ih, max_self]

theorem pktLen_div (r : Fin 4) : (pktLen : ℚ) / dataRate r / slotTime = airSlots r := by
  rw [airSlots_eq, div_div]

theorem duration_lasts (rate : Fin nn → Fin 4) : ∀ {ws : List (Fin nn)}, ws ≠ [] →
    Lasts (ws.map fun w => (airSlots (rate w) : Int)) (duration rate ws)
  | [], h => absurd rfl h
  | [w], _ => by simp [Lasts, duration]
  | w :: v :: ws, _ => by
      have htail : v :: ws ≠ [] := by simp
      obtain ⟨hle, hmem⟩ := duration_lasts rate htail
      have hdur : duration rate (w :: v :: ws) =
          max (airSlots (rate w)) (duration rate (v :: ws)) := rfl
      rw [hdur]
      constructor
      · intro x hx
        rcases List.mem_cons.mp hx with rfl | hx
        · exact Int.ofNat_le.mpr (le_max_left _ _)
        · exact (hle x hx).trans (Int.ofNat_le.mpr (le_max_right _ _))
      · rcases max_choice (airSlots (rate w)) (duration rate (v :: ws)) with hmax | hmax
        · rw [hmax]
          exact List.mem_cons_self ..
        · rw [hmax]
          exact List.mem_cons_of_mem _ hmem

/-- With packets at all heads the time is the right one, whatever the shape
of the queue matrix. -/
theorem txTimeOf_lasts (rate : Fin nn → Fin 4) (q : Mat) {ws : List (Fin nn)} (hne : ws ≠ []) :
    Lasts (txTimeOf rate q ws (ws.map fun _ => pktLen)) (duration rate ws) := by
  unfold txTimeOf
  split
  · have hrow : ∀ w, round (vecMax ((ws.map fun _ => pktLen).map fun (b : Nat) =>
        (b : ℚ) / dataRate (rate w)) / slotTime) = (airSlots (rate w) : Int) := by
      intro w
      rw [List.map_map, vecMax_map_div]
      simp only [Function.comp_apply, pktLen_div]
      rw [vecMax_const (by positivity) hne, round_natCast]
    simp only [hrow]
    exact duration_lasts rate hne
  · have hall : vecMax (List.zipWith (fun (b : Nat) w => (b : ℚ) / dataRate (rate w))
        (ws.map fun _ => pktLen) ws) / slotTime = duration rate ws := by
      rw [List.zipWith_map_left, List.zipWith_self, vecMax_map_div]
      simp only [pktLen_div]
      exact vecMax_map_cast (fun w => airSlots (rate w)) ws
    rw [hall, round_natCast]
    exact ⟨by simp, by simp⟩

/-- With nothing at the head of a lone sender the time is 0. -/
theorem txTimeOf_zero (q : Mat) (w : Fin nn) : txTimeOf rate q [w] [0] = [0] := by
  unfold txTimeOf
  split <;> simp [vecMax]

/-- What a transmission does to the medium. The queue the time is computed
from is the one the sender has left. -/
theorem transmit_medium {inp : SlotIn nn} {s s' : Sim nn} (h : Books 0 s) {ws : List (Fin nn)}
    (hne : ws ≠ []) (hws : ∀ w ∈ ws, 0 < s.staPktCnt w) (ht : transmit rate inp s ws = some s') :
    s'.isBusy = true ∧ ∃ q, s'.txTime = txTimeOf rate q ws (ws.map fun w : Fin nn => q.cell w 0) ∧
      ∀ w ∈ ws, q.cell w 0 =
        if 2 ≤ ws.length ∨ s.staPktQ.cols = 1 then pktLen else s.staPktQ.cell w 1 := by
  obtain ⟨a, ha, -, hrows, hcols, -, hheads⟩ := resolve_books h hws
  obtain ⟨w, hw⟩ := List.exists_mem_of_ne_nil ws hne
  have hcol : 0 < a.staPktQ.cols := by
    have hpos := hws w hw
    have hwidth := h.queue.width w
    omega
  have hin : ∀ k ∈ ws.map (·.val), k < a.staPktQ.rows := by
    intro k hk
    obtain ⟨v, hv, rfl⟩ := List.mem_map.mp hk
    rw [hrows]
    exact h.queue.height v (hws v hv)
  have hg := Mat.gather?_of_lt hcol hin
  simp only [transmit, ha, Option.bind_eq_bind, Option.bind_some,
    if_pos (List.length_pos_of_ne_nil hne), occupy, redraw, hg] at ht
  obtain rfl := Option.some.inj ht
  refine ⟨rfl, a.staPktQ, ?_, hheads⟩
  rw [List.map_map]
  rfl

theorem senders_eq {s a : Sim nn} {inp : SlotIn nn}
    (ha : generatePkt inp { s with t := s.t + 1 } = some a) :
    senders s inp = if a.isBusy then [] else winners (countDown a) := by
  rw [senders, ha]

/-- A slot with senders is a transmission by them. -/
theorem slot_senders {s s' : Sim nn} {inp : SlotIn nn} (h : Inv s) (hne : senders s inp ≠ [])
    (hs' : slot rate s inp = some s') :
    ∃ a, generatePkt inp { s with t := s.t + 1 } = some a ∧ Books 0 (countDown a) ∧
      senders s inp = winners (countDown a) ∧
      transmit rate inp (countDown a) (winners (countDown a)) = some s' := by
  obtain ⟨a, ha, hcases⟩ := slot_cases hs'
  have hinv : Inv a := of_exists_some (generatePkt_inv inp h) ha
  have hmin := min_countDown_iff hinv.backoff
  rw [senders_eq ha] at hne ⊢
  rcases hcases with ⟨hbusy, -⟩ | ⟨hidle, hnone, -⟩ | ⟨hidle, -, hsome, -⟩ | ⟨hidle, -, -, ht⟩
  · rw [if_pos hbusy] at hne
    exact absurd rfl hne
  · rw [hidle] at hne
    obtain ⟨w, hw⟩ := List.exists_mem_of_ne_nil _ hne
    have hpend : w ∈ pending a := mem_pending.mpr (mem_winners.mp hw).1
    rw [hnone] at hpend
    cases hpend
  · rw [hidle] at hne
    exact absurd (hmin.mpr hne) hsome
  · refine ⟨a, ha, hinv.books.frame _ _ _ _ _, ?_, ht⟩
    rw [hidle]
    rfl

theorem duration_pos (rate : Fin nn → Fin 4) {ws : List (Fin nn)} (hne : ws ≠ []) :
    10 ≤ duration rate ws := by
  obtain ⟨w, hw⟩ := List.exists_mem_of_ne_nil ws hne
  have hle := (duration_lasts rate hne).1 _ (List.mem_map.mpr ⟨w, hw, rfl⟩)
  exact (airSlots_pos (rate w)).trans (by exact_mod_cast hle)

/-- A medium with the time of full packets on it keeps the law, whatever
comes next. -/
theorem full_airtime {s s' : Sim nn} {ws : List (Fin nn)} {q : Mat} {js : List (SlotIn nn)}
    (hbusy : s.isBusy = true) (hne : ws ≠ [])
    (htx : s.txTime = txTimeOf rate q ws (ws.map fun _ => pktLen))
    (hrun : run (slot rate) s js = some s') :
    (js.length < duration rate ws → s'.isBusy = true) ∧
    (js.length = duration rate ws → s'.isBusy = false) ∧
    (js.length ≤ duration rate ws → s'.backoff = s.backoff ∧ s'.numTx = s.numTx) := by
  have hlasts := txTimeOf_lasts rate q hne
  rw [← htx] at hlasts
  have hlong := duration_pos rate hne
  obtain ⟨D, hD⟩ : ∃ D, duration rate ws = D + 1 := ⟨duration rate ws - 1, by omega⟩
  rw [hD] at hlasts ⊢
  exact occupied_run hbusy hlasts hrun

/-- With no time on it the medium is idle after one slot. -/
theorem no_airtime {s : Sim nn} (h : Inv s) (hbusy : s.isBusy = true) (htx : s.txTime = [0])
    (inp : SlotIn nn) : ∃ s', slot rate s inp = some s' ∧ s'.isBusy = false := by
  have hnext : ∃ s', slot rate s inp = some s' ∧ Inv s' := slot_inv inp h
  obtain ⟨s', hs', -⟩ := hnext
  obtain ⟨-, hflag, -, -⟩ := busy_slot hbusy hs'
  refine ⟨s', hs', ?_⟩
  rw [hflag, htx]
  rfl

/-- What a slot with senders leaves on the medium: the time computed from
the heads `q`, which are packets, or the second cell of a lone sender's row
where the matrix is wider than one column. -/
theorem slot_medium {s s' : Sim nn} {inp : SlotIn nn} (h : Inv s) (hne : senders s inp ≠ [])
    (hs' : slot rate s inp = some s') :
    s'.isBusy = true ∧ ∃ a q, generatePkt inp { s with t := s.t + 1 } = some a ∧
      s'.txTime = txTimeOf rate q (senders s inp)
        ((senders s inp).map fun w : Fin nn => q.cell w 0) ∧
      (∀ w ∈ senders s inp, q.cell w 0 =
        if 2 ≤ (senders s inp).length ∨ a.staPktQ.cols = 1 then pktLen
        else a.staPktQ.cell w 1) ∧
      ∀ w : Fin nn, a.staPktQ.cell w 1 = 0 ∨ a.staPktQ.cell w 1 = pktLen := by
  obtain ⟨a, ha, hbooks, hsend, ht⟩ := slot_senders h hne hs'
  rw [hsend] at hne ⊢
  obtain ⟨hbusy, q, htx, hheads⟩ :=
    transmit_medium hbooks hne (fun w hw => (mem_winners.mp hw).1) ht
  exact ⟨hbusy, a, q, ha, htx, hheads, fun w => hbooks.queue.values w 1⟩

theorem airtimeLaw_of_headStays {s : Sim nn} {inp : SlotIn nn} (h : Inv s)
    (hne : senders s inp ≠ []) (hstays : HeadStays s inp) : AirtimeLaw rate s inp := by
  intro s' js s'' hs' hrun
  obtain ⟨hbusy, a, q, ha, htx, hheads, -⟩ := slot_medium h hne hs'
  have hfull : (senders s inp).map (fun w : Fin nn => q.cell w 0) =
      (senders s inp).map fun _ => pktLen := by
    refine List.map_congr_left fun w hw => ?_
    rw [hheads w hw]
    split
    · rfl
    · rename_i hcase
      rw [not_or] at hcase
      exact (hstays.resolve_left hcase.1 a ha).resolve_left hcase.2 w hw
  rw [hfull] at htx
  exact full_airtime hbusy hne htx hrun

theorem headStays_of_airtimeLaw {s : Sim nn} {inp : SlotIn nn} (h : Inv s)
    (hne : senders s inp ≠ []) (hlaw : AirtimeLaw rate s inp) : HeadStays s inp := by
  have hnext : ∃ s', slot rate s inp = some s' ∧ Inv s' := slot_inv inp h
  obtain ⟨s', hs', hinv'⟩ := hnext
  obtain ⟨hbusy, a, q, ha, htx, hheads, hvalues⟩ := slot_medium h hne hs'
  by_contra hno
  unfold HeadStays at hno
  rw [not_or, not_le] at hno
  obtain ⟨hlt, hcell⟩ := hno
  simp only [ha, Option.some.injEq, forall_eq', not_or] at hcell
  obtain ⟨hcol, hcell⟩ := hcell
  obtain ⟨w, hw⟩ : ∃ w, senders s inp = [w] := by
    match senders s inp, hne, hlt with
    | [w], _, _ => exact ⟨w, rfl⟩
  have hlong := duration_pos rate hne
  unfold AirtimeLaw at hlaw
  rw [hw] at hlaw htx hheads hcell hlong
  -- the only other value of a cell is zero, and then one slot ends it
  have hzero : a.staPktQ.cell w 1 = 0 :=
    (hvalues w).resolve_right fun hfull => hcell (by simpa using hfull)
  have hhead := hheads w (by simp)
  rw [if_neg (by simp [hcol]), hzero] at hhead
  simp only [List.map_cons, List.map_nil, hhead, txTimeOf_zero] at htx
  have hidle : ∃ s'', slot rate s' inp = some s'' ∧ s''.isBusy = false :=
    no_airtime hinv' hbusy htx inp
  obtain ⟨s'', hs'', hidle⟩ := hidle
  have hstill := (hlaw s' [inp] s'' hs' (by rw [run_cons, hs'']; rfl)).1 (by simp; omega)
  rw [hidle] at hstill
  cases hstill

/-- **When a transmission keeps the medium busy for its airtime.** In every
run, for every slot in which a transmission starts: the law holds exactly
if there are several senders, or the queue matrix has one column, or the
sender's row holds a packet behind the one it sends. -/
theorem airtimeLaw_iff (rate : Fin nn → Fin 4) (arrival : Fin nn → Option ℚ)
    (draw : Fin nn → Nat) (ins : List (SlotIn nn)) (s : Sim nn) (inp : SlotIn nn)
    (hs : run (slot rate) (Sim.init arrival draw) ins = some s) (hne : senders s inp ≠ []) :
    AirtimeLaw rate s inp ↔ HeadStays s inp := by
  have hinv : Inv s := of_exists_some (sim_total rate arrival draw ins) hs
  exact ⟨headStays_of_airtimeLaw hinv hne, airtimeLaw_of_headStays hinv hne⟩

/-! ## Two stations -/

/-- Two stations at 6 Mbit/s with a packet each in slot 1; the first gets
another one in slot 2 (`twoFirst`, then `twoSecond` for good). -/
def twoInit (draw : Fin 2 → Nat) : Sim 2 := Sim.init ![some 1, some 1] draw

def twoFirst : SlotIn 2 := ⟨![some 1, some 100], ![5, 5]⟩

def twoSecond : SlotIn 2 := ⟨![some 100, some 100], ![5, 5]⟩

/-- The station with two packets sends first: 30 slots. -/
theorem airtimeLaw_two_queued : ∃ s,
    run (slot fun _ => 0) (twoInit ![1, 9]) [twoFirst] = some s ∧ senders s twoSecond = [0] ∧
      AirtimeLaw (fun _ => 0) s twoSecond := by
  obtain ⟨s, hs, -⟩ := sim_total (fun _ => 0) ![some 1, some 1] ![1, 9] [twoFirst]
  have hsend : (run (slot fun _ => 0) (twoInit ![1, 9]) [twoFirst]).map
      (fun s => senders s twoSecond) = some [0] := by decide +kernel
  have hcell : ((run (slot fun _ => 0) (twoInit ![1, 9]) [twoFirst]).bind fun s =>
      (generatePkt twoSecond { s with t := s.t + 1 }).map fun a => a.staPktQ.cell 0 1) =
        some pktLen := by decide +kernel
  rw [twoInit, hs] at hsend hcell
  have hone : senders s twoSecond = [0] := Option.some.inj hsend
  refine ⟨s, hs, hone, (airtimeLaw_iff _ _ _ _ s twoSecond hs (by simp [hone])).mpr ?_⟩
  refine Or.inr fun a ha => Or.inr fun w hw => ?_
  rw [hone, List.mem_singleton] at hw
  rw [Option.bind_some, ha] at hcell
  rw [hw]
  exact Option.some.inj hcell

/-- The station with one packet sends first, while the other's second packet
has widened the matrix: the medium is idle again after one slot of the 30. -/
theorem short_airtime : ∃ s,
    run (slot fun _ => 0) (twoInit ![9, 1]) [twoFirst] = some s ∧ senders s twoSecond = [1] ∧
      ¬ AirtimeLaw (fun _ => 0) s twoSecond := by
  obtain ⟨s, hs, hinv⟩ := sim_total (fun _ => 0) ![some 1, some 1] ![9, 1] [twoFirst]
  have hsend : (run (slot fun _ => 0) (twoInit ![9, 1]) [twoFirst]).map
      (fun s => senders s twoSecond) = some [1] := by decide +kernel
  have hidle : (run (slot fun _ => 0) (twoInit ![9, 1]) [twoFirst, twoSecond, twoSecond]).map
      (·.isBusy) = some false := by decide +kernel
  rw [twoInit, hs] at hsend
  have hone : senders s twoSecond = [1] := Option.some.inj hsend
  refine ⟨s, hs, hone, fun hlaw => ?_⟩
  have hnext : ∃ s', slot (fun _ => 0) s twoSecond = some s' ∧ Inv s' := slot_inv twoSecond hinv
  obtain ⟨s', hs', hinv'⟩ := hnext
  have hlast : ∃ s'', slot (fun _ => 0) s' twoSecond = some s'' ∧ Inv s'' :=
    slot_inv twoSecond hinv'
  obtain ⟨s'', hs'', -⟩ := hlast
  have hrun : run (slot fun _ => 0) s' [twoSecond] = some s'' := by rw [run_cons, hs'']; rfl
  have hbusy := (hlaw s' [twoSecond] s'' hs' hrun).1 (by rw [hone]; decide)
  have hall : run (slot fun _ => 0) (twoInit ![9, 1]) ([twoFirst] ++ [twoSecond, twoSecond]) =
      some s'' := by
    rw [run_append, twoInit, hs, Option.bind_some, run_cons, hs']
    exact hrun
  rw [List.singleton_append] at hall
  rw [hall, Option.map_some, hbusy] at hidle
  simp at hidle

end Csma

end NetSystem
