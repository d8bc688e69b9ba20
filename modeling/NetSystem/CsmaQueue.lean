import Mathlib.Algebra.BigOperators.Group.Finset.Basic
import Mathlib.Algebra.BigOperators.Group.Finset.Piecewise
import Mathlib.Data.Fintype.BigOperators
import NetSystem.CsmaModel

/-!
# Queue and statistics of the CSMA/CA simulator

The invariants of the slot loop and, from them, conservation.

`QueueOk` relates the queue matrix to the packet counters: a station with
packets has a row, the matrix is at least as wide as its count, and that
many cells of the row hold `pktLen`. Nothing is said about the cells
behind them, which is all the shift leaves to say.

`Books k` is the accounting over the log: `k` transmissions are in the
log but not yet in `numTx`. One lemma per function of the model says that
the function does not fail and what it does to the books; `slot_inv`
puts them together and `conservation` is `run_total` over it.
-/

namespace NetSystem

namespace Csma

variable {nn : Nat}

/-! ## The queue matrix -/

structure QueueOk (q : Mat) (cnt : Fin nn → Int) : Prop where
  nonneg : ∀ u, 0 ≤ cnt u
  width : ∀ u, cnt u ≤ q.cols
  height : ∀ u, 0 < cnt u → u.val < q.rows
  full : ∀ (u : Fin nn) (j : Nat), (j : Int) < cnt u → q.cell u j = pktLen
  values : ∀ i j, q.cell i j = 0 ∨ q.cell i j = pktLen

theorem queueOk_empty : QueueOk Mat.empty (fun _ : Fin nn => 0) where
  nonneg _ := le_rfl
  width _ := le_rfl
  height _ h := absurd h (by simp)
  full _ j h := absurd h (by simp)
  values _ _ := Or.inl rfl

theorem QueueOk.enqueue {q : Mat} {cnt : Fin nn → Int} (h : QueueOk q cnt) (u : Fin nn) :
    ∃ q', q.assign? u (cnt u + 1) pktLen = some q' ∧
      QueueOk q' (Function.update cnt u (cnt u + 1)) := by
  have h0 := h.nonneg u
  rw [Mat.assign?, if_pos (by omega)]
  refine ⟨_, rfl, ?_⟩
  constructor
  · intro v
    by_cases hv : v = u
    · subst hv; simp; omega
    · simpa [hv] using h.nonneg v
  · intro v
    have hw := h.width v
    by_cases hv : v = u
    · subst hv; simp
    · simp [hv]; omega
  · intro v hpos
    by_cases hv : v = u
    · subst hv; simp
    · simp only [Function.update_of_ne hv] at hpos
      have := h.height v hpos
      simp only [lt_sup_iff]
      exact Or.inl this
  · intro v j hj
    by_cases hv : v = u
    · subst hv
      simp only [Function.update_self] at hj
      by_cases hlast : j + 1 = (cnt v + 1).toNat
      · simp [hlast]
      · simp only [hlast, and_false, if_false]
        exact h.full v j (by omega)
    · have hne : v.val ≠ u.val := fun heq => hv (Fin.ext heq)
      simp only [Function.update_of_ne hv] at hj
      simp only [hne, false_and, if_false]
      exact h.full v j hj
  · intro i j
    simp only
    split
    · exact Or.inr rfl
    · exact h.values i j

/-- A station with packets finds `pktLen` at the head of its row. -/
theorem QueueOk.head {q : Mat} {cnt : Fin nn → Int} (h : QueueOk q cnt) {w : Fin nn}
    (hw : 0 < cnt w) : q.cell w 0 = pktLen := h.full w 0 hw

theorem Mat.lin?_of_lt {q : Mat} {k : Nat} (hr : k < q.rows) (hc : 0 < q.cols) :
    q.lin? k = some (q.cell k 0) := by
  have hlt : k < q.rows * q.cols := lt_of_lt_of_le hr (Nat.le_mul_of_pos_right _ hc)
  rw [Mat.lin?, if_pos hlt, Nat.mod_eq_of_lt hr, Nat.div_eq_of_lt hr]

theorem Mat.gather?_of_lt {q : Mat} (hc : 0 < q.cols) : ∀ {ks : List Nat},
    (∀ k ∈ ks, k < q.rows) → q.gather? ks = some (ks.map fun k => q.cell k 0)
  | [], _ => rfl
  | k :: ks, h => by
      rw [List.forall_mem_cons] at h
      have ih := Mat.gather?_of_lt hc h.2
      rw [Mat.gather?] at ih ⊢
      rw [List.mapM_cons, Mat.lin?_of_lt h.1 hc, ih]
      rfl

theorem QueueOk.dequeue {q : Mat} {cnt : Fin nn → Int} (h : QueueOk q cnt) {w : Fin nn}
    (hw : 0 < cnt w) :
    ∃ q', q.shiftRow? w = some q' ∧ QueueOk q' (Function.update cnt w (cnt w - 1)) ∧
      q'.rows = q.rows ∧ q'.cols = q.cols ∧
      q'.cell w 0 = if q.cols = 1 then q.cell w 0 else q.cell w 1 := by
  have hrow := h.height w hw
  have hcol := h.width w
  rw [Mat.shiftRow?, dif_pos hrow]
  refine ⟨_, rfl, ?_, rfl, rfl, ?_⟩
  · constructor
    · intro v
      by_cases hv : v = w
      · subst hv; simp; omega
      · simpa [hv] using h.nonneg v
    · intro v
      have hvw := h.width v
      by_cases hv : v = w
      · subst hv; simp; omega
      · simpa [hv] using hvw
    · intro v hpos
      by_cases hv : v = w
      · subst hv; exact hrow
      · rw [Function.update_of_ne hv] at hpos
        exact h.height v hpos
    · intro v j hj
      by_cases hv : v = w
      · subst hv
        rw [Function.update_self] at hj
        -- the cell comes from the right, and is still one of the queued ones
        have hlt : j + 1 < q.cols := by omega
        simp only [hlt, and_self, if_true]
        exact h.full v (j + 1) (by push_cast; omega)
      · have hne : v.val ≠ w.val := fun heq => hv (Fin.ext heq)
        rw [Function.update_of_ne hv] at hj
        simp only [hne, false_and, if_false]
        exact h.full v j hj
    · intro i j
      simp only
      split
      · exact h.values i (j + 1)
      · exact h.values i j
  · have hpos : 0 < q.cols := by omega
    by_cases hone : q.cols = 1
    · simp [hone]
    · have hlt : 0 + 1 < q.cols := by omega
      simp [hone, hlt]

/-! ## The books -/

/-- Accounting over the log, with `k` transmissions that `numTx` does not
count yet. -/
structure Books (k : Nat) (s : Sim nn) : Prop where
  queue : QueueOk s.staPktQ s.staPktCnt
  arrived : ∀ u, (generated s u : Int) = s.staPktCnt u + successes s u
  sent : ∀ u, s.sentBitCnt u = pktLen * successes s u
  tx : s.numTx + k = s.numCollision + ∑ u, successes s u
  heads : ∀ t w bits, (t, Event.success w bits) ∈ s.log → bits = pktLen

theorem books_init (arrival : Fin nn → Option ℚ) (draw : Fin nn → Nat) :
    Books 0 (Sim.init arrival draw) where
  queue := queueOk_empty
  arrived _ := rfl
  sent _ := rfl
  tx := by simp [Sim.init, successes]
  heads _ _ _ h := absurd h (by simp [Sim.init])

/-- The books are about the queue, the counters and the log alone. -/
theorem Books.frame {k : Nat} {s : Sim nn} (h : Books k s) (t : Nat)
    (interPktTime : Fin nn → Option ℚ) (backoff : Fin nn → Int) (isBusy : Bool)
    (txTime : List Int) : Books k { s with t, interPktTime, backoff, isBusy, txTime } :=
  ⟨h.queue, h.arrived, h.sent, h.tx, h.heads⟩

/-! ### `generate_pkt` -/

/-- What `generate_pkt` leaves alone: the medium, the backoffs and the
transmission counters. -/
structure SameMedium (s s' : Sim nn) : Prop where
  isBusy : s'.isBusy = s.isBusy
  txTime : s'.txTime = s.txTime
  backoff : s'.backoff = s.backoff
  numTx : s'.numTx = s.numTx
  cw : s'.cw = s.cw

theorem SameMedium.trans {a b c : Sim nn} (h : SameMedium a b) (h' : SameMedium b c) :
    SameMedium a c :=
  ⟨h'.isBusy.trans h.isBusy, h'.txTime.trans h.txTime, h'.backoff.trans h.backoff,
    h'.numTx.trans h.numTx, h'.cw.trans h.cw⟩

theorem arrive_sameMedium {inp : SlotIn nn} {s s' : Sim nn} {u : Fin nn}
    (h : arrive inp s u = some s') : SameMedium s s' := by
  unfold arrive at h
  split at h
  · rw [Option.map_eq_some_iff] at h
    obtain ⟨q, -, rfl⟩ := h
    exact ⟨rfl, rfl, rfl, rfl, rfl⟩
  · obtain rfl := Option.some.inj h
    exact ⟨rfl, rfl, rfl, rfl, rfl⟩

theorem generatePkt_sameMedium {inp : SlotIn nn} {s s' : Sim nn}
    (h : generatePkt inp s = some s') : SameMedium s s' := by
  have hstep : ∀ a u b, SameMedium s a → arrive inp a u = some b → SameMedium s b :=
    fun a u b ha hb => ha.trans (arrive_sameMedium hb)
  have hstart : SameMedium s { s with interPktTime := fun u => (s.interPktTime u).map (· - 1) } :=
    ⟨rfl, rfl, rfl, rfl, rfl⟩
  exact run_inv hstep hstart h

theorem arrive_books {inp : SlotIn nn} {s : Sim nn} (h : Books 0 s) (u : Fin nn) :
    ∃ s', arrive inp s u = some s' ∧ Books 0 s' := by
  unfold arrive
  split
  · obtain ⟨q, hq, hok⟩ := h.queue.enqueue u
    simp only [hq, Option.map_some]
    refine ⟨_, rfl, hok, ?_, ?_, ?_, ?_⟩
    · intro v
      have hv := h.arrived v
      simp only [generated, successes] at hv ⊢
      by_cases huv : v = u
      · subst huv
        simp
        omega
      · have hne : ¬ u = v := fun heq => huv heq.symm
        simp [huv, hne]
        omega
    · intro v
      simpa [successes] using h.sent v
    · simpa [successes] using h.tx
    · intro t w bits hmem
      exact h.heads t w bits (by simpa using hmem)
  · exact ⟨s, rfl, h⟩

theorem generatePkt_books (inp : SlotIn nn) {s : Sim nn} (h : Books 0 s) :
    ∃ s', generatePkt inp s = some s' ∧ Books 0 s' :=
  run_total (P := Books 0) (fun _ u hs => arrive_books hs u) _ (h.frame _ _ _ _ _)

/-! ### Transmissions -/

theorem mem_pending {s : Sim nn} {u : Fin nn} : u ∈ pending s ↔ 0 < s.staPktCnt u := by
  simp [pending]

theorem mem_winners {s : Sim nn} {u : Fin nn} :
    u ∈ winners s ↔ 0 < s.staPktCnt u ∧ s.backoff u = 0 := by
  simp [winners, mem_pending]

theorem deliver_books {s : Sim nn} (h : Books 0 s) {w : Fin nn} (hw : 0 < s.staPktCnt w) :
    ∃ s', deliver s w = some s' ∧ Books 1 s' ∧ s'.staPktQ.rows = s.staPktQ.rows ∧
      s'.staPktQ.cols = s.staPktQ.cols ∧ s'.backoff = s.backoff ∧
      s'.staPktQ.cell w 0 = if s.staPktQ.cols = 1 then pktLen else s.staPktQ.cell w 1 := by
  obtain ⟨q, hq, hok, hrows, hcols, hnext⟩ := h.queue.dequeue hw
  rw [h.queue.head hw] at hnext
  have hcol : 0 < s.staPktQ.cols := by have := h.queue.width w; omega
  have hlin : s.staPktQ.lin? w = some pktLen := by
    rw [Mat.lin?_of_lt (h.queue.height w hw) hcol, h.queue.head hw]
  simp only [deliver, hlin, hq, Option.bind_eq_bind, Option.bind_some]
  refine ⟨_, rfl, ⟨hok, ?_, ?_, ?_, ?_⟩, hrows, hcols, rfl, hnext⟩
  · intro v
    have hv := h.arrived v
    simp only [generated, successes] at hv ⊢
    by_cases hvw : v = w
    · subst hvw
      simp
      omega
    · have hne : ¬ w = v := fun heq => hvw heq.symm
      simp [hvw, hne]
      omega
  · intro v
    have hv := h.sent v
    simp only [successes] at hv ⊢
    by_cases hvw : v = w
    · subst hvw
      simp [hv]
      ring
    · have hne : ¬ w = v := fun heq => hvw heq.symm
      simp [hvw, hne, hv]
  · have htx := h.tx
    simp only [successes] at htx ⊢
    simp only [List.countP_append, Finset.sum_add_distrib]
    have hone : ∑ u, List.countP (fun e => isSuccessOf u e.2)
      [(s.t, Event.success w pktLen)] = 1 := by
      simp [List.countP_cons]
    omega
  · intro t v bits hmem
    rw [List.mem_append, List.mem_singleton] at hmem
    rcases hmem with hmem | heq
    · exact h.heads t v bits hmem
    · simp only [Prod.mk.injEq, Event.success.injEq] at heq
      exact heq.2.2

theorem collide_books {s : Sim nn} (h : Books 0 s) (ws : List (Fin nn)) :
    Books 1 (collide s ws) where
  queue := h.queue
  arrived u := by simpa [collide, generated, successes] using h.arrived u
  sent u := by simpa [collide, successes] using h.sent u
  tx := by
    have := h.tx
    simp [collide, successes] at this ⊢
    omega
  heads t w bits hmem := h.heads t w bits (by simpa [collide] using hmem)

/-- The queue matrix keeps its shape, and only a lone sender's row moves. -/
theorem resolve_books {s : Sim nn} (h : Books 0 s) {ws : List (Fin nn)}
    (hws : ∀ w ∈ ws, 0 < s.staPktCnt w) :
    ∃ s', resolve s ws = some s' ∧ Books 1 s' ∧ s'.staPktQ.rows = s.staPktQ.rows ∧
      s'.staPktQ.cols = s.staPktQ.cols ∧ s'.backoff = s.backoff ∧
      ∀ w ∈ ws, s'.staPktQ.cell w 0 =
        if 2 ≤ ws.length ∨ s.staPktQ.cols = 1 then pktLen else s.staPktQ.cell w 1 := by
  unfold resolve
  split
  · rename_i w
    obtain ⟨s', hs', hbooks, hrows, hcols, hback, hnext⟩ := deliver_books h (hws w (by simp))
    refine ⟨s', hs', hbooks, hrows, hcols, hback, fun v hv => ?_⟩
    obtain rfl := List.mem_singleton.mp hv
    simpa using hnext
  · rename_i hlone
    refine ⟨_, rfl, collide_books h _, rfl, rfl, rfl, fun v hv => ?_⟩
    have hlen : 2 ≤ ws.length := by
      match ws, hv, hlone with
      | [w], _, hlone => exact absurd rfl (hlone w)
      | _ :: _ :: _, _, _ => simp
    rw [if_pos (Or.inl hlen)]
    exact h.queue.head (hws v hv)

theorem occupy_books (rate : Fin nn → Fin 4) {s : Sim nn} (h : Books 1 s)
    {ws : List (Fin nn)} (hrow : ∀ w ∈ ws, w.val < s.staPktQ.rows) (hcol : 0 < s.staPktQ.cols) :
    ∃ s', occupy rate s ws = some s' ∧ Books 0 s' ∧ s'.backoff = s.backoff := by
  have hin : ∀ k ∈ ws.map (·.val), k < s.staPktQ.rows := by
    intro k hk
    obtain ⟨w, hw, rfl⟩ := List.mem_map.mp hk
    exact hrow w hw
  have hg := Mat.gather?_of_lt hcol hin
  simp only [occupy, hg, Option.bind_eq_bind, Option.bind_some]
  refine ⟨_, rfl, ⟨h.queue, h.arrived, h.sent, ?_, h.heads⟩, rfl⟩
  exact h.tx

/-! ### The slot -/

/-- The invariant of the slot loop. -/
structure Inv (s : Sim nn) : Prop where
  books : Books 0 s
  backoff : ∀ u, 1 ≤ s.backoff u

theorem one_le_randi (hi r : Nat) : (1 : Int) ≤ randi 1 hi r := by
  unfold randi
  push_cast
  omega

theorem transmit_inv {rate : Fin nn → Fin 4} {inp : SlotIn nn} {s : Sim nn} (h : Books 0 s)
    {ws : List (Fin nn)} (hne : ws ≠ []) (hws : ∀ w ∈ ws, 0 < s.staPktCnt w)
    (hback : ∀ u, u ∉ ws → 1 ≤ s.backoff u) :
    ∃ s', transmit rate inp s ws = some s' ∧ Inv s' := by
  obtain ⟨a, ha, hbooks, hrows, hcols, hkeep, -⟩ := resolve_books h hws
  obtain ⟨w, hw⟩ := List.exists_mem_of_ne_nil ws hne
  have hcol : 0 < a.staPktQ.cols := by
    have hpos := hws w hw
    have hwidth := h.queue.width w
    omega
  have hrow : ∀ v ∈ ws, v.val < a.staPktQ.rows := by
    intro v hv
    rw [hrows]
    exact h.queue.height v (hws v hv)
  have hredraw : Books 1 (redraw inp a ws) := hbooks.frame _ _ _ _ _
  obtain ⟨b, hb, hbooks', hback'⟩ := occupy_books rate hredraw hrow hcol
  refine ⟨b, ?_, hbooks', ?_⟩
  · simp only [transmit, ha, Option.bind_eq_bind, Option.bind_some]
    rw [if_pos (List.length_pos_of_ne_nil hne), hb]
  · intro u
    rw [hback']
    by_cases hu : u ∈ ws
    · simp only [redraw, hu, if_true]
      exact one_le_randi _ _
    · simp only [redraw, hu, if_false, hkeep]
      exact hback u hu

/-- The minimum the code takes is zero exactly when someone sends. -/
theorem min_eq_zero_iff {s : Sim nn} (h : ∀ u ∈ pending s, 0 ≤ s.backoff u) :
    ((pending s).map s.backoff).min? = some 0 ↔ winners s ≠ [] := by
  rw [List.min?_eq_some_iff, List.mem_map]
  constructor
  · rintro ⟨⟨u, hu, h0⟩, -⟩
    have hmem : u ∈ winners s := mem_winners.mpr ⟨mem_pending.mp hu, h0⟩
    exact List.ne_nil_of_mem hmem
  · intro hne
    obtain ⟨w, hw⟩ := List.exists_mem_of_ne_nil _ hne
    rw [mem_winners] at hw
    refine ⟨⟨w, mem_pending.mpr hw.1, hw.2⟩, fun b hb => ?_⟩
    obtain ⟨u, hu, rfl⟩ := List.mem_map.mp hb
    exact h u hu

theorem countDown_backoff {s : Sim nn} (h : ∀ u, 1 ≤ s.backoff u) (u : Fin nn) :
    0 ≤ (countDown s).backoff u := by
  have hu := h u
  simp only [countDown]
  split <;> omega

/-- A backoff that does not reach zero stays above it. -/
theorem countDown_low {s : Sim nn} (h : ∀ u, 1 ≤ s.backoff u) {u : Fin nn}
    (hu : u ∉ winners (countDown s)) : 1 ≤ (countDown s).backoff u := by
  have hnonneg := countDown_backoff h u
  have hone := h u
  rw [mem_winners, not_and] at hu
  by_cases hcnt : 0 < s.staPktCnt u
  · have hne := hu hcnt
    omega
  · simp only [countDown, hcnt, if_false]
    exact hone

/-- The test on the minimum misses nobody. -/
theorem min_countDown_iff {s : Sim nn} (h : ∀ u, 1 ≤ s.backoff u) :
    ((pending (countDown s)).map (countDown s).backoff).min? = some 0 ↔
      winners (countDown s) ≠ [] :=
  min_eq_zero_iff fun u _ => countDown_backoff h u

theorem idleSlot_inv {rate : Fin nn → Fin 4} {inp : SlotIn nn} {s : Sim nn} (h : Inv s) :
    ∃ s', idleSlot rate inp s = some s' ∧ Inv s' := by
  have hbooks : Books 0 (countDown s) := h.books.frame _ _ _ _ _
  have hpos : ∀ u, u ∉ winners (countDown s) → 1 ≤ (countDown s).backoff u :=
    fun u hu => countDown_low h.backoff hu
  have hmin := min_countDown_iff h.backoff
  unfold idleSlot
  split
  · exact ⟨s, rfl, h⟩
  · simp only
    split
    case isTrue hz =>
      exact transmit_inv hbooks (hmin.mp hz) (fun w hw => (mem_winners.mp hw).1) hpos
    case isFalse hz =>
      refine ⟨_, rfl, hbooks, fun u => hpos u ?_⟩
      have hnil : winners (countDown s) = [] := by
        by_contra hne
        exact hz (hmin.mpr hne)
      simp [hnil]

/-- What a transmission can do after the senders are resolved: redraw their
backoffs and occupy the medium. -/
theorem transmit_cases {rate : Fin nn → Fin 4} {inp : SlotIn nn} {s s' : Sim nn}
    {ws : List (Fin nn)} (h : transmit rate inp s ws = some s') :
    ∃ b, resolve s ws = some b ∧ ∃ busy tx num,
      s' = { redraw inp b ws with isBusy := busy, txTime := tx, numTx := num } := by
  simp only [transmit, Option.bind_eq_bind, Option.bind_eq_some_iff] at h
  obtain ⟨b, hb, h⟩ := h
  refine ⟨b, hb, ?_⟩
  split at h
  · simp only [occupy, Option.bind_eq_bind, Option.bind_eq_some_iff] at h
    obtain ⟨heads, -, h⟩ := h
    exact ⟨_, _, _, (Option.some.inj h).symm⟩
  · exact ⟨_, _, _, (Option.some.inj h).symm⟩

/-- What a slot can do after the arrivals: count down the medium, nothing,
count down the backoffs, or start a transmission. -/
theorem slot_cases {rate : Fin nn → Fin 4} {s s' : Sim nn} {inp : SlotIn nn}
    (h : slot rate s inp = some s') :
    ∃ a, generatePkt inp { s with t := s.t + 1 } = some a ∧
      ((a.isBusy = true ∧ s' = busySlot a) ∨
       (a.isBusy = false ∧ pending a = [] ∧ s' = a) ∨
       (a.isBusy = false ∧ pending a ≠ [] ∧
         ((pending (countDown a)).map (countDown a).backoff).min? ≠ some 0 ∧
         s' = countDown a) ∨
       (a.isBusy = false ∧ pending a ≠ [] ∧
         ((pending (countDown a)).map (countDown a).backoff).min? = some 0 ∧
         transmit rate inp (countDown a) (winners (countDown a)) = some s')) := by
  simp only [slot, Option.bind_eq_bind, Option.bind_eq_some_iff] at h
  obtain ⟨a, ha, h⟩ := h
  refine ⟨a, ha, ?_⟩
  split at h
  · rename_i hbusy
    exact Or.inl ⟨hbusy, (Option.some.inj h).symm⟩
  · rename_i hidle
    rw [Bool.not_eq_true] at hidle
    unfold idleSlot at h
    split at h
    · rename_i hnone
      exact Or.inr (Or.inl ⟨hidle, hnone, (Option.some.inj h).symm⟩)
    · rename_i hsome
      simp only at h
      split at h
      · rename_i hzero
        exact Or.inr (Or.inr (Or.inr ⟨hidle, hsome, hzero, h⟩))
      · rename_i hzero
        exact Or.inr (Or.inr (Or.inl ⟨hidle, hsome, hzero, (Option.some.inj h).symm⟩))

/-- What a success and a collision leave alone. -/
theorem resolve_frame {s b : Sim nn} {ws : List (Fin nn)} (h : resolve s ws = some b) :
    b.t = s.t ∧ b.numTx = s.numTx ∧ b.backoff = s.backoff ∧
      ∀ u, u ∉ ws → b.staPktCnt u = s.staPktCnt u := by
  unfold resolve at h
  split at h
  · rename_i w
    simp only [deliver, Option.bind_eq_bind, Option.bind_eq_some_iff, Option.some.injEq] at h
    obtain ⟨bits, -, q, -, rfl⟩ := h
    refine ⟨rfl, rfl, rfl, fun u hu => ?_⟩
    have hne : u ≠ w := by simpa using hu
    exact Function.update_of_ne hne _ _
  · obtain rfl := Option.some.inj h
    exact ⟨rfl, rfl, rfl, fun _ _ => rfl⟩

theorem generatePkt_t {inp : SlotIn nn} {s s' : Sim nn} (h : generatePkt inp s = some s') :
    s'.t = s.t := by
  have hstep : ∀ a v b, a.t = s.t → arrive inp a v = some b → b.t = s.t := by
    intro a v b ha hb
    unfold arrive at hb
    split at hb
    · rw [Option.map_eq_some_iff] at hb
      obtain ⟨q, -, rfl⟩ := hb
      exact ha
    · obtain rfl := Option.some.inj hb
      exact ha
  exact run_inv (P := fun a => a.t = s.t) hstep rfl h

theorem slot_t {rate : Fin nn → Fin 4} {s s' : Sim nn} {inp : SlotIn nn}
    (h : slot rate s inp = some s') : s'.t = s.t + 1 := by
  obtain ⟨a, ha, hcases⟩ := slot_cases h
  have ht : a.t = s.t + 1 := generatePkt_t ha
  rcases hcases with ⟨-, rfl⟩ | ⟨-, -, rfl⟩ | ⟨-, -, -, rfl⟩ | ⟨-, -, -, htx⟩
  · exact ht
  · exact ht
  · exact ht
  · obtain ⟨b, hb, busy, tx, num, rfl⟩ := transmit_cases htx
    exact (resolve_frame hb).1.trans ht

/-- The clock counts the slots. -/
theorem run_slot_t {rate : Fin nn → Fin 4} {s s' : Sim nn} {ins : List (SlotIn nn)}
    (h : run (slot rate) s ins = some s') : s'.t = s.t + ins.length := by
  refine run_inv_inputs (P := fun is a => a.t = s.t + is.length) ?_ [] rfl h
  intro is a inp b ha hb
  rw [slot_t hb, ha, List.length_append, List.length_singleton, Nat.add_assoc]

/-- The arrivals of a slot. -/
theorem generatePkt_inv {s : Sim nn} (inp : SlotIn nn) (h : Inv s) :
    ∃ a, generatePkt inp { s with t := s.t + 1 } = some a ∧ Inv a := by
  have hbooks : Books 0 { s with t := s.t + 1 } := h.books.frame _ _ _ _ _
  obtain ⟨a, ha, hbooks'⟩ := generatePkt_books inp hbooks
  refine ⟨a, ha, hbooks', ?_⟩
  rw [(generatePkt_sameMedium ha).backoff]
  exact h.backoff

/-- **The step lemma**: a slot does not fail and keeps the books. -/
theorem slot_inv {rate : Fin nn → Fin 4} {s : Sim nn} (inp : SlotIn nn) (h : Inv s) :
    ∃ s', slot rate s inp = some s' ∧ Inv s' := by
  obtain ⟨a, ha, hinv⟩ := generatePkt_inv inp h
  simp only [slot, ha, Option.bind_eq_bind, Option.bind_some]
  split
  · refine ⟨_, rfl, ?_, hinv.backoff⟩
    exact hinv.books.frame _ _ _ _ _
  · exact idleSlot_inv hinv

theorem inv_init (arrival : Fin nn → Option ℚ) (draw : Fin nn → Nat) :
    Inv (Sim.init arrival draw) :=
  ⟨books_init arrival draw, fun _ => one_le_randi _ _⟩

/-- The simulation never fails, and every state it reaches satisfies the
invariant. -/
theorem sim_total (rate : Fin nn → Fin 4) (arrival : Fin nn → Option ℚ) (draw : Fin nn → Nat)
    (ins : List (SlotIn nn)) :
    ∃ s, run (slot rate) (Sim.init arrival draw) ins = some s ∧ Inv s :=
  run_total (fun _ i hs => slot_inv i hs) ins (inv_init arrival draw)

/-- **Conservation.** At the end of every slot: what was generated for a
station is queued or was sent, every sent packet was counted with its full
length, and every transmission was a collision or a success. -/
theorem conservation (rate : Fin nn → Fin 4) (arrival : Fin nn → Option ℚ)
    (draw : Fin nn → Nat) (ins : List (SlotIn nn)) :
    ∃ s, run (slot rate) (Sim.init arrival draw) ins = some s ∧
      (∀ u, (generated s u : Int) = s.staPktCnt u + successes s u ∧ 0 ≤ s.staPktCnt u ∧
        s.sentBitCnt u = pktLen * successes s u) ∧
      s.numTx = s.numCollision + ∑ u, s.sentBitCnt u / pktLen ∧
      ∀ t w bits, (t, Event.success w bits) ∈ s.log → bits = pktLen := by
  obtain ⟨s, hs, hinv⟩ := sim_total rate arrival draw ins
  have hbooks := hinv.books
  refine ⟨s, hs, fun u => ⟨hbooks.arrived u, hbooks.queue.nonneg u, hbooks.sent u⟩, ?_,
    hbooks.heads⟩
  have hdiv : ∀ u, s.sentBitCnt u / pktLen = successes s u := by
    intro u
    rw [hbooks.sent u, Nat.mul_div_cancel_left _ (by decide)]
  simp only [hdiv]
  exact hbooks.tx

end Csma

end NetSystem
