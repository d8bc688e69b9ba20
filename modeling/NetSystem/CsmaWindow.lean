import NetSystem.CsmaQueue

/-!
# Contention windows and backoffs of the CSMA/CA simulator

The window of a station doubles with every collision it takes part in, up
to `cwMax`, and is reset by a success; a backoff is drawn from the window
and counts down to 1 without the station sending. `Window` is the
invariant, over the log: `streak` is the number of collisions a station
took part in since its last success.

`backoff_window` is the run theorem. Its last part is what the code relies
on: no backoff passes zero between two slots, so the minimum over the
pending stations is zero whenever one of them has counted down.
-/

namespace NetSystem

namespace Csma

variable {nn : Nat}

/-! ## Collisions in a row -/

def streakStep (u : Fin nn) (k : Nat) : Event nn → Nat
  | .arrival _ => k
  | .success w _ => if w = u then 0 else k
  | .collision ws => if ws.contains u then k + 1 else k

/-- Collisions `u` took part in since its last success, or since the start. -/
def streak (log : List (Nat × Event nn)) (u : Fin nn) : Nat :=
  log.foldl (fun k e => streakStep u k e.2) 0

theorem streak_snoc (log : List (Nat × Event nn)) (t : Nat) (e : Event nn) (u : Fin nn) :
    streak (log ++ [(t, e)]) u = streakStep u (streak log u) e := by
  simp only [streak, List.foldl_append, List.foldl_cons, List.foldl_nil]

/-- The window after `k` collisions in a row. -/
def windowOf (k : Nat) : Nat := min (cwMin * 2 ^ k) cwMax

theorem windowOf_zero : windowOf 0 = cwMin := rfl

/-- Doubling and clamping, as the code does it. -/
theorem windowOf_succ (k : Nat) :
    windowOf (k + 1) = if cwMax ≤ windowOf k * 2 then cwMax else windowOf k * 2 := by
  have hk : windowOf k = min (32 * 2 ^ k) 1024 := rfl
  have hsucc : windowOf (k + 1) = min (32 * (2 ^ k * 2)) 1024 := rfl
  have hmax : cwMax = 1024 := rfl
  split
  · omega
  · omega

theorem one_le_windowOf (k : Nat) : 1 ≤ windowOf k := by
  have hpow : 1 ≤ 2 ^ k := Nat.one_le_two_pow
  simp only [windowOf, cwMin, cwMax]
  omega

/-! ## The invariant -/

/-- Every window is the one its station's collisions lead to. -/
def WindowOk (s : Sim nn) : Prop := ∀ u, s.cw u = windowOf (streak s.log u)

structure Window (s : Sim nn) : Prop where
  cw : WindowOk s
  low : ∀ u, 1 ≤ s.backoff u
  high : ∀ u, s.backoff u ≤ s.cw u

theorem randi_mem {lo hi : Nat} (h : lo ≤ hi) (r : Nat) :
    lo ≤ randi lo hi r ∧ randi lo hi r ≤ hi := by
  unfold randi
  have hmod : r % (hi + 1 - lo) < hi + 1 - lo := Nat.mod_lt _ (by omega)
  omega

theorem window_init (arrival : Fin nn → Option ℚ) (draw : Fin nn → Nat) :
    Window (Sim.init arrival draw) where
  cw _ := rfl
  low _ := one_le_randi _ _
  high u := by
    have hdraw := (randi_mem (show 1 ≤ cwMin by decide) (draw u)).2
    simp only [Sim.init]
    exact_mod_cast hdraw

/-! ### Arrivals -/

theorem arrive_windowOk {inp : SlotIn nn} {s s' : Sim nn} {u : Fin nn} (h : WindowOk s)
    (hs' : arrive inp s u = some s') : WindowOk s' := by
  unfold arrive at hs'
  split at hs'
  · obtain ⟨q, -, rfl⟩ := Option.map_eq_some_iff.mp hs'
    intro v
    rw [streak_snoc]
    exact h v
  · obtain rfl := Option.some.inj hs'
    exact h

theorem generatePkt_window {inp : SlotIn nn} {s a : Sim nn} (h : Window s)
    (ha : generatePkt inp s = some a) : Window a := by
  have hsame := generatePkt_sameMedium ha
  refine ⟨?_, ?_, ?_⟩
  · have hstart : WindowOk
        { s with interPktTime := fun u => (s.interPktTime u).map (· - 1) } := h.cw
    exact run_inv (fun _ _ _ hs hs' => arrive_windowOk hs hs') hstart ha
  · rw [hsame.backoff]
    exact h.low
  · rw [hsame.backoff, hsame.cw]
    exact h.high

/-! ### Transmissions -/

/-- A success resets the window of the sender, a collision doubles those of
all senders; the other windows and all backoffs stay. -/
theorem resolve_window {s b : Sim nn} {ws : List (Fin nn)} (h : WindowOk s)
    (hb : resolve s ws = some b) :
    WindowOk b ∧ b.backoff = s.backoff ∧ ∀ u, u ∉ ws → b.cw u = s.cw u := by
  unfold resolve at hb
  split at hb
  · rename_i w
    simp only [deliver, Option.bind_eq_bind, Option.bind_eq_some_iff] at hb
    obtain ⟨bits, -, q, -, hb⟩ := hb
    obtain rfl := Option.some.inj hb
    refine ⟨fun u => ?_, rfl, fun u hu => ?_⟩
    · rw [streak_snoc, streakStep]
      by_cases hw : w = u
      · subst hw
        simp [windowOf_zero]
      · have hne : u ≠ w := fun heq => hw heq.symm
        simp only [hw, if_false, Function.update_of_ne hne]
        exact h u
    · have hne : u ≠ w := by simpa using hu
      exact Function.update_of_ne hne _ _
  · obtain rfl := Option.some.inj hb
    refine ⟨fun u => ?_, rfl, fun u hu => ?_⟩
    · simp only [collide, streak_snoc, streakStep, List.contains_iff_mem]
      by_cases hu : u ∈ ws
      · rw [if_pos hu, if_pos hu, windowOf_succ, h u]
      · rw [if_neg hu, if_neg hu]
        exact h u
    · simp [collide, hu]

theorem transmit_window {rate : Fin nn → Fin 4} {inp : SlotIn nn} {s s' : Sim nn}
    {ws : List (Fin nn)} (hcw : WindowOk s) (hlow : ∀ u, u ∉ ws → 1 ≤ s.backoff u)
    (hhigh : ∀ u, s.backoff u ≤ s.cw u) (h : transmit rate inp s ws = some s') : Window s' := by
  obtain ⟨b, hb, busy, tx, num, rfl⟩ := transmit_cases h
  obtain ⟨hok, hkeep, hothers⟩ := resolve_window hcw hb
  have hdraw : ∀ u, 1 ≤ randi 1 (b.cw u) (inp.draw u) ∧
      randi 1 (b.cw u) (inp.draw u) ≤ b.cw u := by
    intro u
    refine randi_mem ?_ _
    rw [hok u]
    exact one_le_windowOf _
  refine ⟨?_, fun u => ?_, fun u => ?_⟩
  · exact hok
  · simp only [redraw]
    by_cases hu : u ∈ ws
    · simp only [hu, if_true]
      exact_mod_cast (hdraw u).1
    · simp only [hu, if_false, hkeep]
      exact hlow u hu
  · simp only [redraw]
    by_cases hu : u ∈ ws
    · simp only [hu, if_true]
      exact_mod_cast (hdraw u).2
    · simp only [hu, if_false, hkeep, hothers u hu]
      exact hhigh u

/-! ### Slots -/

theorem countDown_le (s : Sim nn) (u : Fin nn) : (countDown s).backoff u ≤ s.backoff u := by
  simp only [countDown]
  split <;> omega

/-- **The step lemma.** -/
theorem slot_window {rate : Fin nn → Fin 4} {s s' : Sim nn} {inp : SlotIn nn} (h : Window s)
    (hs' : slot rate s inp = some s') : Window s' := by
  obtain ⟨a, ha, hcases⟩ := slot_cases hs'
  have hstart : Window { s with t := s.t + 1 } := ⟨h.cw, h.low, h.high⟩
  have hwin := generatePkt_window hstart ha
  have hhigh : ∀ u, (countDown a).backoff u ≤ (countDown a).cw u :=
    fun u => (countDown_le a u).trans (hwin.high u)
  rcases hcases with ⟨-, rfl⟩ | ⟨-, -, rfl⟩ | ⟨-, -, hzero, rfl⟩ | ⟨-, -, -, ht⟩
  · exact ⟨hwin.cw, hwin.low, hwin.high⟩
  · exact hwin
  · refine ⟨hwin.cw, fun u => countDown_low hwin.low fun hu => ?_, hhigh⟩
    exact hzero ((min_countDown_iff hwin.low).mpr (List.ne_nil_of_mem hu))
  · have hcw : WindowOk (countDown a) := hwin.cw
    exact transmit_window hcw (fun u hu => countDown_low hwin.low hu) hhigh ht

/-- **Contention windows and backoffs.** At the end of every slot the window
of every station is `cwMin` doubled once for every collision since its last
success, but at most `cwMax`, and its backoff is between 1 and the window.
In the slot that follows no backoff falls below zero, and if that of a
station with packets reaches zero the minimum is zero and the station is
among the senders. -/
theorem backoff_window (rate : Fin nn → Fin 4) (arrival : Fin nn → Option ℚ)
    (draw : Fin nn → Nat) (ins : List (SlotIn nn)) :
    ∃ s, run (slot rate) (Sim.init arrival draw) ins = some s ∧
      (∀ u, s.cw u = min (cwMin * 2 ^ streak s.log u) cwMax ∧
        1 ≤ s.backoff u ∧ s.backoff u ≤ s.cw u) ∧
      ∀ inp a, generatePkt inp { s with t := s.t + 1 } = some a → ∀ u,
        0 ≤ (countDown a).backoff u ∧
        (0 < a.staPktCnt u → (countDown a).backoff u = 0 →
          ((pending (countDown a)).map (countDown a).backoff).min? = some 0 ∧
          u ∈ winners (countDown a)) := by
  obtain ⟨s, hs, -⟩ := sim_total rate arrival draw ins
  have hwin : Window s :=
    run_inv (P := Window) (fun _ _ _ hw hstep => slot_window hw hstep) (window_init arrival draw) hs
  refine ⟨s, hs, fun u => ⟨hwin.cw u, hwin.low u, hwin.high u⟩, fun inp a ha u => ?_⟩
  have hstart : Window { s with t := s.t + 1 } := ⟨hwin.cw, hwin.low, hwin.high⟩
  have hlow := (generatePkt_window hstart ha).low
  refine ⟨countDown_backoff hlow u, fun hcnt hzero => ?_⟩
  have hu : u ∈ winners (countDown a) := mem_winners.mpr ⟨hcnt, hzero⟩
  exact ⟨(min_countDown_iff hlow).mpr (List.ne_nil_of_mem hu), hu⟩

end Csma

end NetSystem
