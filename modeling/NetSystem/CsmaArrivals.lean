import Mathlib.Algebra.BigOperators.Ring.Finset
import NetSystem.Countdown
import NetSystem.CsmaQueue

/-!
# The arrival process of the CSMA/CA simulator

When packets are generated. `InterPktTime(u)` and the slots in which packets
arrived for `u` make up a `Clock` (`clock`), and a slot of the simulation is
one tick of it (`slot_clock`), whatever the medium and the other stations
do: `generate_pkt` runs first in every slot and comes to every station
once, and nothing after it touches the interarrival times.

The arrivals of a station are then those of the clock, in a simulation of
any length.
-/

namespace NetSystem

namespace Csma

variable {nn : Nat}

/-- The slots in which packets were generated for `u`. -/
def arrivals (s : Sim nn) (u : Fin nn) : List Nat :=
  s.log.filterMap fun e => if e.2 = .arrival u then some e.1 else none

theorem generated_eq (s : Sim nn) (u : Fin nn) : generated s u = (arrivals s u).length := by
  rw [generated, arrivals]
  induction s.log with
  | nil => rfl
  | cons e l ih =>
      rw [List.countP_cons, List.filterMap_cons, ih]
      by_cases h : e.2 = .arrival u <;> simp [h]

/-- The station's part of the state as a clock. -/
def clock (s : Sim nn) (u : Fin nn) : Clock ℚ where
  now := s.t
  counter := s.interPktTime u
  fired := arrivals s u

theorem due_iff (x : Option ℚ) : due x = true ↔ Clock.Zero x := by
  cases x <;> simp [due, Clock.Zero]

/-! ## `generate_pkt` is a tick -/

theorem arrive_cases {inp : SlotIn nn} {s s' : Sim nn} {v : Fin nn}
    (h : arrive inp s v = some s') :
    (due (s.interPktTime v) = true ∧ s'.t = s.t ∧
      s'.interPktTime = Function.update s.interPktTime v (inp.arrival v) ∧
      s'.log = s.log ++ [(s.t, .arrival v)]) ∨
    (due (s.interPktTime v) = false ∧ s' = s) := by
  unfold arrive at h
  split at h
  · next hdue =>
      rw [Option.map_eq_some_iff] at h
      obtain ⟨q, -, rfl⟩ := h
      exact Or.inl ⟨hdue, rfl, rfl, rfl⟩
  · next hdue => exact Or.inr ⟨by simpa using hdue, (Option.some.inj h).symm⟩

/-- Another station's turn. -/
theorem arrive_clock_of_ne {inp : SlotIn nn} {s s' : Sim nn} {u v : Fin nn}
    (h : arrive inp s v = some s') (hne : v ≠ u) : clock s' u = clock s u := by
  rcases arrive_cases h with ⟨-, ht, hinter, hlog⟩ | ⟨-, rfl⟩
  · have hfired : arrivals s' u = arrivals s u := by
      simp [arrivals, hlog, hne]
    rw [clock, ht, hinter, hfired, Function.update_of_ne hne.symm]
    rfl
  · rfl

theorem run_arrive_clock_of_notMem {inp : SlotIn nn} {u : Fin nn} {l : List (Fin nn)}
    (hu : u ∉ l) {s s' : Sim nn} (h : run (arrive inp) s l = some s') :
    clock s' u = clock s u := by
  induction l generalizing s with
  | nil =>
      obtain rfl := Option.some.inj h
      rfl
  | cons v l ih =>
      rw [List.mem_cons, not_or] at hu
      rw [run_cons, Option.bind_eq_some_iff] at h
      obtain ⟨a, ha, h⟩ := h
      rw [ih hu.2 h, arrive_clock_of_ne ha fun heq => hu.1 heq.symm]

/-- The station's own turn, with the counter already counted down. -/
theorem arrive_clock {inp : SlotIn nn} {s s' : Sim nn} {u : Fin nn}
    (h : arrive inp s u = some s') : clock s' u =
      if due (s.interPktTime u) then
        { now := s.t, counter := inp.arrival u, fired := arrivals s u ++ [s.t] }
      else clock s u := by
  rcases arrive_cases h with ⟨hdue, ht, hinter, hlog⟩ | ⟨hdue, rfl⟩
  · rw [if_pos hdue, clock, ht, hinter, Function.update_self]
    simp [arrivals, hlog]
  · simp [hdue]

/-- Every station has its turn once. -/
theorem generatePkt_clock {inp : SlotIn nn} {s s' : Sim nn} (u : Fin nn)
    (h : generatePkt inp s = some s') : clock s' u =
      if due ((s.interPktTime u).map (· - 1)) then
        { now := s.t, counter := inp.arrival u, fired := arrivals s u ++ [s.t] }
      else { now := s.t, counter := (s.interPktTime u).map (· - 1), fired := arrivals s u } := by
  obtain ⟨l, l', hl⟩ := List.append_of_mem (List.mem_finRange u)
  have hnodup := List.nodup_finRange nn
  rw [hl, List.nodup_middle, List.nodup_cons, List.mem_append, not_or] at hnodup
  obtain ⟨⟨hu, hu'⟩, -⟩ := hnodup
  rw [generatePkt, hl, run_append, Option.bind_eq_some_iff] at h
  obtain ⟨a, ha, h⟩ := h
  rw [run_cons, Option.bind_eq_some_iff] at h
  obtain ⟨b, hb, h⟩ := h
  have hclock := run_arrive_clock_of_notMem hu ha
  rw [clock, clock, Clock.mk.injEq] at hclock
  obtain ⟨ht, hinter, hfired⟩ := hclock
  rw [run_arrive_clock_of_notMem hu' h, arrive_clock hb, clock, ht, hinter, hfired]
  rfl

/-! ## Nothing else is -/

theorem deliver_clock {s s' : Sim nn} {w : Fin nn} (u : Fin nn) (h : deliver s w = some s') :
    clock s' u = clock s u := by
  simp only [deliver, Option.bind_eq_bind, Option.bind_eq_some_iff, Option.some.injEq] at h
  obtain ⟨bits, -, q, -, rfl⟩ := h
  simp [clock, arrivals]

theorem transmit_clock {rate : Fin nn → Fin 4} {inp : SlotIn nn} {s s' : Sim nn}
    {ws : List (Fin nn)} (u : Fin nn) (h : transmit rate inp s ws = some s') :
    clock s' u = clock s u := by
  obtain ⟨a, ha, busy, tx, num, rfl⟩ := transmit_cases h
  have hresolve : clock a u = clock s u := by
    unfold resolve at ha
    split at ha
    · exact deliver_clock u ha
    · obtain rfl := Option.some.inj ha
      simp [clock, arrivals, collide]
  exact hresolve

/-- The value a station draws if a packet arrives for it is the next of
`T`. -/
def DrawsNext (T : Nat → Option ℚ) (u : Fin nn) (s : Sim nn) (inp : SlotIn nn) : Prop :=
  due ((s.interPktTime u).map (· - 1)) = true → inp.arrival u = T (generated s u + 1)

/-- **One slot is one tick** of every station's clock. -/
theorem slot_clock {rate : Fin nn → Fin 4} {T : Nat → Option ℚ} {u : Fin nn} {s s' : Sim nn}
    {inp : SlotIn nn} (hdraw : DrawsNext T u s inp) (h : slot rate s inp = some s') :
    Clock.Tick T (clock s u) (clock s' u) := by
  obtain ⟨a, ha, hrest⟩ := slot_cases h
  have hclock : clock s' u = clock a u := by
    rcases hrest with ⟨-, rfl⟩ | ⟨-, -, rfl⟩ | ⟨-, -, -, rfl⟩ | ⟨-, -, -, htx⟩
    · rfl
    · rfl
    · rfl
    · rw [transmit_clock u htx]
      rfl
  rw [hclock, generatePkt_clock u ha]
  by_cases hdue : due ((s.interPktTime u).map (· - 1)) = true
  · rw [if_pos hdue, hdraw hdue, generated_eq]
    exact .fire ((due_iff _).mp hdue)
  · rw [if_neg hdue]
    exact .wait fun hz => hdue ((due_iff _).mpr hz)

/-! ## The arrivals of a station -/

theorem clock_init {arrival : Fin nn → Option ℚ} (draw : Fin nn → Nat) {T : Nat → Option ℚ}
    {u : Fin nn} (h : arrival u = T 0) : clock (Sim.init arrival draw) u = Clock.start T := by
  rw [clock, Clock.start, ← h]
  rfl

/-- Every run is on schedule. -/
theorem run_scheduled {rate : Fin nn → Fin 4} {arrival : Fin nn → Option ℚ}
    {draw : Fin nn → Nat} {ins : List (SlotIn nn)} {s : Sim nn} {u : Fin nn}
    {T : Nat → Option ℚ} (h0 : arrival u = T 0)
    (hdraw : EachStep (slot rate) (DrawsNext T u) (Sim.init arrival draw) ins)
    (h : run (slot rate) (Sim.init arrival draw) ins = some s) :
    Clock.Scheduled T (clock s u) := by
  have hstep : ∀ a inp b, Clock.Scheduled T (clock a u) → DrawsNext T u a inp →
      slot rate a inp = some b → Clock.Scheduled T (clock b u) :=
    fun a inp b ha hinp hb => ha.tick (slot_clock hinp hb)
  have hstart : Clock.Scheduled T (clock (Sim.init arrival draw) u) := by
    rw [clock_init draw h0]
    exact Clock.scheduled_start T
  exact always_of_eachStep hstep hstart hdraw ins s (List.prefix_refl _) h

/-- **The arrival process.** Let the station draw `T 0` at the start and
`T k` when its `k`-th packet is generated. While the values are finite and
at least 1, packet `k + 1` is generated in the slot that is the sum of the
integer parts of `T 0` to `T k`, as soon as the simulation gets there; and
after a value below 1 there are no more packets. -/
theorem arrival_process (rate : Fin nn → Fin 4) (arrival : Fin nn → Option ℚ)
    (draw : Fin nn → Nat) (ins : List (SlotIn nn)) (u : Fin nn) (T : Nat → Option ℚ)
    (h0 : arrival u = T 0)
    (hdraw : EachStep (slot rate) (DrawsNext T u) (Sim.init arrival draw) ins) :
    ∃ s, run (slot rate) (Sim.init arrival draw) ins = some s ∧
      (∀ k, (∀ i ≤ k, ∃ q, T i = some q ∧ 1 ≤ q) → ∀ t, (arrivals s u)[k]? = some t ↔
        (t : Int) = ∑ i ∈ Finset.range (k + 1), ⌊(T i).getD 0⌋ ∧ t ≤ ins.length) ∧
      ∀ k q, T k = some q → q < 1 → (arrivals s u).length ≤ k := by
  obtain ⟨s, hs, -⟩ := sim_total rate arrival draw ins
  have hsched := run_scheduled h0 hdraw hs
  have ht : s.t = ins.length := by
    rw [run_slot_t hs]
    exact Nat.zero_add _
  refine ⟨s, hs, fun k hreg t => ?_, fun k q hq hlt => ?_⟩
  · have hsum : (Clock.schedule T (k + 1) : Int) =
        ∑ i ∈ Finset.range (k + 1), ⌊(T i).getD 0⌋ := by
      rw [Clock.schedule, Nat.cast_sum]
      refine Finset.sum_congr rfl fun i hi => ?_
      obtain ⟨q, hq, h1⟩ := hreg i (Nat.lt_succ_iff.mp (Finset.mem_range.mp hi))
      have hnonneg : 0 ≤ ⌊q⌋ := Int.floor_nonneg.mpr (zero_le_one.trans h1)
      rw [hq, Option.getD_some, ← Int.floor_toNat, Int.toNat_of_nonneg hnonneg]
    rw [← hsum, Int.ofNat_inj, ← ht]
    exact hsched.fired_iff hreg t
  · refine hsched.silent fun hreg => ?_
    obtain ⟨q', hq', h1⟩ := hreg
    rw [hq] at hq'
    obtain rfl := Option.some.inj hq'
    exact absurd hlt (not_lt.mpr h1)

/-- Draws that are the same whenever they are made. -/
theorem drawsNext_const {rate : Fin nn → Fin 4} {s : Sim nn} {u : Fin nn}
    {T : Nat → Option ℚ} {inp : SlotIn nn} (h : ∀ k, T (k + 1) = inp.arrival u) (n : Nat) :
    EachStep (slot rate) (DrawsNext T u) s (List.replicate n inp) := by
  intro js i t hjs _ _
  have hmem : i ∈ List.replicate n inp := hjs.subset (by simp)
  rw [List.eq_of_mem_replicate hmem, h]

/-- One station that draws 5/2 and then 3/2: the second packet comes in slot
3, although the sum of the two is 4. -/
theorem arrival_process_two : ∃ s,
    run (slot fun _ => 0) (Sim.init (fun _ : Fin 1 => some (5 / 2)) fun _ => 0)
      (List.replicate 3 { arrival := fun _ => some (3 / 2), draw := fun _ => 0 }) = some s ∧
      (arrivals s 0)[1]? = some 3 := by
  obtain ⟨s, hs, harr, -⟩ := arrival_process (fun _ => 0) (fun _ : Fin 1 => some (5 / 2))
    (fun _ => 0) (List.replicate 3 { arrival := fun _ => some (3 / 2), draw := fun _ => 0 }) 0
    (fun k => if k = 0 then some (5 / 2) else some (3 / 2)) rfl
    (drawsNext_const (fun k => if_neg (Nat.succ_ne_zero k)) 3)
  refine ⟨s, hs, (harr 1 ?_ 3).mpr ⟨?_, le_rfl⟩⟩
  · intro i _
    by_cases hi : i = 0
    · exact ⟨5 / 2, if_pos hi, by norm_num⟩
    · exact ⟨3 / 2, if_neg hi, by norm_num⟩
  · norm_num [Finset.sum_range_succ]

end Csma

end NetSystem
