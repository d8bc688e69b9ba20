import NetSystem.CsmaAirtime

/-!
# The cells of the queue matrix

A row of `StaPktQ` should hold one packet for each packet that is queued,
and nothing behind them (`Clean`). An arrival keeps it so: the matrix may
get wider or longer, but new cells are zero. A successful transmission
shifts the sender's row to the left and leaves the last cell of the row as
it was, which is right if that cell was empty and wrong if the row was
filled to the width of the matrix.

`slot_clean_iff` is the step lemma, and `queue_clean_iff` the exact
condition on a run, by the rule of `Run`.
-/

namespace NetSystem

namespace Csma

variable {nn : Nat} {rate : Fin nn → Fin 4}

/-- The first `cnt u` columns of row `u` hold a packet, the others nothing. -/
def CleanQ (q : Mat) (cnt : Fin nn → Int) : Prop :=
  ∀ (u : Fin nn) (j : Nat), q.cell u j = if (j : Int) < cnt u then pktLen else 0

def Clean (s : Sim nn) : Prop := CleanQ s.staPktQ s.staPktCnt

/-! ## Arrivals and departures -/

theorem CleanQ.enqueue {q q' : Mat} {cnt : Fin nn → Int} (h : CleanQ q cnt) {u : Fin nn}
    (hu : 0 ≤ cnt u) (hq' : q.assign? u (cnt u + 1) pktLen = some q') :
    CleanQ q' (Function.update cnt u (cnt u + 1)) := by
  rw [Mat.assign?, if_pos (by omega)] at hq'
  obtain rfl := Option.some.inj hq'
  intro v j
  by_cases hv : v = u
  · subst hv
    have hcell := h v j
    simp only [Function.update_self, true_and]
    by_cases hlast : j + 1 = (cnt v + 1).toNat
    · rw [if_pos hlast, if_pos (by omega)]
    · rw [if_neg hlast, hcell]
      congr 1
      exact propext (by omega)
  · have hne : v.val ≠ u.val := fun heq => hv (Fin.ext heq)
    simp only [Function.update_of_ne hv, hne, false_and, if_false]
    exact h v j

/-- The shift is right exactly if the row does not reach the last column. -/
theorem CleanQ.dequeue_iff {q q' : Mat} {cnt : Fin nn → Int} (h : CleanQ q cnt) {w : Fin nn}
    (hw : 0 < cnt w) (hwidth : cnt w ≤ q.cols) (hq' : q.shiftRow? w = some q') :
    CleanQ q' (Function.update cnt w (cnt w - 1)) ↔ cnt w < q.cols := by
  unfold Mat.shiftRow? at hq'
  split at hq'
  case isFalse => cases hq'
  obtain rfl := Option.some.inj hq'
  constructor
  · intro hclean
    by_contra hfull
    -- the last cell of the row still holds the packet
    have hlast := hclean w (q.cols - 1)
    simp only [Function.update_self, true_and] at hlast
    rw [if_neg (by omega), if_neg (by omega), h w, if_pos (by omega)] at hlast
    cases hlast
  · intro hroom v j
    by_cases hv : v = w
    · subst hv
      simp only [Function.update_self, true_and]
      by_cases hj : j + 1 < q.cols
      · rw [if_pos hj, h v]
        congr 1
        exact propext (by push_cast; omega)
      · rw [if_neg hj, h v, if_neg (by omega), if_neg (by omega)]
    · have hne : v.val ≠ w.val := fun heq => hv (Fin.ext heq)
      simp only [Function.update_of_ne hv, hne, false_and, if_false]
      exact h v j

theorem generatePkt_clean {inp : SlotIn nn} {s s' : Sim nn} (hbooks : Books 0 s)
    (h : Clean s) (hs' : generatePkt inp s = some s') : Clean s' := by
  have hstep : ∀ a u b, Books 0 a ∧ Clean a → arrive inp a u = some b → Books 0 b ∧ Clean b := by
    rintro a u b ⟨habooks, haclean⟩ hb
    refine ⟨of_exists_some (arrive_books habooks u) hb, ?_⟩
    unfold arrive at hb
    split at hb
    · rw [Option.map_eq_some_iff] at hb
      obtain ⟨q, hq, rfl⟩ := hb
      exact haclean.enqueue (habooks.queue.nonneg u) hq
    · obtain rfl := Option.some.inj hb
      exact haclean
  have hstart : Books 0 { s with interPktTime := fun u => (s.interPktTime u).map (· - 1) } :=
    hbooks.frame _ _ _ _ _
  exact (run_inv hstep ⟨hstart, h⟩ hs').2

/-! ## The slot -/

/-- When a lone sender's packet leaves the queue, the matrix is wider than
the sender's row is long. -/
def RoomBehind (s : Sim nn) (inp : SlotIn nn) : Prop :=
  ∀ a w, generatePkt inp { s with t := s.t + 1 } = some a → senders s inp = [w] →
    a.staPktCnt w < a.staPktQ.cols

/-- A transmission touches the queue only if there is one sender. -/
theorem transmit_clean_iff {inp : SlotIn nn} {s s' : Sim nn} (hbooks : Books 0 s)
    (hclean : Clean s) {ws : List (Fin nn)} (hws : ∀ w ∈ ws, 0 < s.staPktCnt w)
    (h : transmit rate inp s ws = some s') :
    Clean s' ↔ ∀ w, ws = [w] → s.staPktCnt w < s.staPktQ.cols := by
  obtain ⟨a, ha, busy, tx, num, rfl⟩ := transmit_cases h
  simp only [Clean, redraw]
  unfold resolve at ha
  split at ha
  · rename_i w
    simp only [deliver, Option.bind_eq_bind, Option.bind_eq_some_iff, Option.some.injEq] at ha
    obtain ⟨bits, -, q, hq, rfl⟩ := ha
    rw [hclean.dequeue_iff (hws w List.mem_cons_self) (hbooks.queue.width w) hq]
    simp
  · rename_i hlone
    obtain rfl := Option.some.inj ha
    exact ⟨fun _ w hw => absurd hw (hlone w), fun _ => hclean⟩

/-- **The step lemma.** -/
theorem slot_clean_iff {s s' : Sim nn} {inp : SlotIn nn} (h : Inv s) (hclean : Clean s)
    (hs' : slot rate s inp = some s') : Clean s' ↔ RoomBehind s inp := by
  obtain ⟨a, ha, hcases⟩ := slot_cases hs'
  have hbooks : Books 0 { s with t := s.t + 1 } := h.books.frame _ _ _ _ _
  have hinv : Inv a := of_exists_some (generatePkt_inv inp h) ha
  have haclean : Clean a := generatePkt_clean hbooks hclean ha
  have hroom : RoomBehind s inp ↔ ∀ w, senders s inp = [w] → a.staPktCnt w < a.staPktQ.cols := by
    refine ⟨fun hr w hw => hr a w ha hw, fun hr b w hb hw => ?_⟩
    obtain rfl := Option.some.inj (ha.symm.trans hb)
    exact hr w hw
  rw [hroom]
  by_cases hne : senders s inp = []
  · -- no sender: the queue is as the arrivals left it
    refine iff_of_true ?_ fun w hw => absurd (hne.symm.trans hw) (by simp)
    rcases hcases with ⟨-, rfl⟩ | ⟨-, -, rfl⟩ | ⟨-, -, -, rfl⟩ | ⟨hidle, -, hzero, -⟩
    · exact haclean
    · exact haclean
    · exact haclean
    · rw [senders_eq ha, hidle, if_neg (by simp)] at hne
      exact absurd hne ((min_countDown_iff hinv.backoff).mp hzero)
  · obtain ⟨b, hb, hbbooks, hwin, htx⟩ := slot_senders h hne hs'
    obtain rfl := Option.some.inj (ha.symm.trans hb)
    rw [hwin]
    exact transmit_clean_iff hbbooks haclean (fun w hw => (mem_winners.mp hw).1) htx

/-- **When the queue matrix is what it should be.** At the end of every slot
of a run each row holds its packets and zeros behind them exactly if no lone
sender of the run has its row filled to the last column of the matrix. -/
theorem queue_clean_iff (rate : Fin nn → Fin 4) (arrival : Fin nn → Option ℚ)
    (draw : Fin nn → Nat) (ins : List (SlotIn nn)) :
    Always (slot rate) Clean (Sim.init arrival draw) ins ↔
      EachStep (slot rate) RoomBehind (Sim.init arrival draw) ins := by
  refine always_iff_eachStep_of_inv (I := Inv) ?_ ?_ ?_ (inv_init arrival draw) fun u j => ?_
  · intro s inp s' hs h
    exact of_exists_some (slot_inv inp hs) h
  · intro s inp s' hs hclean h
    exact slot_clean_iff hs hclean h
  · intro s inp hs h
    have hnext : ∃ s'', slot rate s inp = some s'' ∧ Inv s'' := slot_inv inp hs
    obtain ⟨s'', hs'', -⟩ := hnext
    rw [h] at hs''
    cases hs''
  · exact (if_neg (by simp [Sim.init])).symm

/-- One station, one packet, sent in the slot it arrives in: the only cell
of the matrix still holds it. -/
theorem stale_cell : ¬ Always (slot fun _ => 0) Clean
    (Sim.init (fun _ : Fin 1 => some 1) fun _ => 0) [⟨fun _ => none, fun _ => 0⟩] := by
  obtain ⟨s, hs, -⟩ := sim_total (fun _ => 0) (fun _ : Fin 1 => some 1) (fun _ => 0)
    [⟨fun _ => none, fun _ => 0⟩]
  have hcell : (run (slot fun _ => 0) (Sim.init (fun _ : Fin 1 => some 1) fun _ => 0)
      [⟨fun _ => none, fun _ => 0⟩]).map (fun s => (s.staPktCnt 0, s.staPktQ.cell 0 0)) =
        some (0, 180) := by decide +kernel
  rw [hs, Option.map_some, Option.some.injEq, Prod.mk.injEq] at hcell
  intro hall
  have hclean := hall _ s (List.prefix_refl _) hs 0 0
  rw [hcell.1, if_neg (by simp)] at hclean
  exact absurd (hclean.symm.trans hcell.2) (by decide)

end Csma

end NetSystem
