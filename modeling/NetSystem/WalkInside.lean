import Mathlib.Algebra.Order.Ring.Rat
import Mathlib.Tactic.Linarith
import NetSystem.WalkModel

/-!
# The walk and its boundary

The loop of `Movement` checks the end point of a movement against the two
corners, but its check of `y` from above is `y > bound[0].x`. Nothing is
checked in the ten steps that follow.

The steps are no problem: the rectangle is convex, and the invariant
(`InsideInv`) carries the end point the current movement still has ahead.
The check is: the node stays inside exactly if no movement is started that
ends above `bound[0].y` (`inside_iff`), which a boundary with
`bound[0].x ≤ bound[0].y` rules out (`inside_of_tall`).
-/

namespace NetSystem

namespace Walk

variable {K : Type*} [LinearOrder K]

/-- `bound[0]` is the upper right corner and `bound[1]` the lower left one. -/
def Inside (b : Boundary K) (p : Vec K) : Prop :=
  b.bound1.x ≤ p.x ∧ p.x ≤ b.bound0.x ∧ b.bound1.y ≤ p.y ∧ p.y ≤ b.bound0.y

instance (b : Boundary K) (p : Vec K) : Decidable (Inside b p) := by
  unfold Inside
  infer_instance

theorem inside_iff_of_legal {b : Boundary K} {p : Vec K} (h : illegal b p = false) :
    Inside b p ↔ p.y ≤ b.bound0.y := by
  simp only [illegal, Bool.or_eq_false_iff, decide_eq_false_iff_not, not_lt] at h
  obtain ⟨⟨⟨hx0, hx1⟩, -⟩, hy1⟩ := h
  exact ⟨fun hin => hin.2.2.2, fun hy => ⟨hx1, hx0, hy1, hy⟩⟩

variable [Field K]

/-- The first record left in the file that passes the check of the loop
does not end above the rectangle. -/
def NextBelow (b : Boundary K) (interval : K) (pos : Vec K) : List (Move K) → Prop
  | [] => True
  | m :: file =>
      if illegal b (advance pos m interval) then NextBelow b interval pos file
      else (advance pos m interval).y ≤ b.bound0.y

variable {b : Boundary K} {interval : K}

/-! ## The check -/

theorem search_legal {pos : Vec K} {file : List (Move K)}
    {r : List Out × Move K × List (Move K)} (h : search b interval pos file = some r) :
    illegal b (advance pos r.2.1 interval) = false := by
  induction file generalizing r with
  | nil =>
      rw [search] at h
      split at h
      · cases h
      · rename_i hlegal
        obtain rfl := Option.some.inj h
        exact Bool.eq_false_iff.mpr hlegal
  | cons m file ih =>
      rw [search] at h
      split at h
      · obtain ⟨r', hr', rfl⟩ := Option.map_eq_some_iff.mp h
        have hfound := ih hr'
        exact hfound
      · rename_i hlegal
        obtain rfl := Option.some.inj h
        exact Bool.eq_false_iff.mpr hlegal

/-- `NextBelow` is about the record the search stops at; behind the end of
the file that is the zero movement, which ends where it starts. -/
theorem nextBelow_iff {pos : Vec K} (hy : pos.y ≤ b.bound0.y) {file : List (Move K)}
    {r : List Out × Move K × List (Move K)} (h : search b interval pos file = some r) :
    NextBelow b interval pos file ↔ (advance pos r.2.1 interval).y ≤ b.bound0.y := by
  induction file generalizing r with
  | nil =>
      rw [search] at h
      split at h
      · cases h
      · obtain rfl := Option.some.inj h
        simp [NextBelow, advance, zeroMove, hy]
  | cons m file ih =>
      rw [search] at h
      rw [NextBelow]
      split at h
      · rename_i hill
        obtain ⟨r', hr', rfl⟩ := Option.map_eq_some_iff.mp h
        rw [if_pos hill]
        have hfound := ih hr'
        exact hfound
      · rename_i hlegal
        obtain rfl := Option.some.inj h
        rw [if_neg hlegal]

theorem nextBelow_of_diverges {pos : Vec K} {file : List (Move K)}
    (h : search b interval pos file = none) : NextBelow b interval pos file := by
  induction file with
  | nil => trivial
  | cons m file ih =>
      rw [search] at h
      rw [NextBelow]
      split at h
      · rename_i hill
        rw [if_pos hill]
        exact ih (Option.map_eq_none_iff.mp h)
      · cases h

theorem nextBelow_of_tall (hb : b.bound0.x ≤ b.bound0.y) (pos : Vec K)
    (file : List (Move K)) : NextBelow b interval pos file := by
  induction file with
  | nil => trivial
  | cons m file ih =>
      rw [NextBelow]
      split
      · exact ih
      · rename_i hlegal
        simp only [illegal, Bool.or_eq_true, decide_eq_true_eq, not_or, not_lt] at hlegal
        exact hlegal.1.2.trans hb

/-! ## The steps -/

/-- The invariant: the node is inside, and so is the end of the movement it
is in. -/
structure InsideInv (b : Boundary K) (interval : K) (s : State K) : Prop where
  inside : Inside b s.pos
  cnt : s.cnt < 10
  ahead : 0 < s.cnt → Inside b (advance s.pos s.move ((10 - s.cnt : Nat) * (interval / 10)))

theorem inv_start {pos : Vec K} (hin : Inside b pos) (file : List (Move K)) (M : Move K) :
    InsideInv b interval (start pos file M) :=
  ⟨hin, by simp [start], fun h => absurd h (by simp [start])⟩

variable [IsStrictOrderedRing K]

/-- One step towards a point that `m` steps reach stays on the same side of a
bound that start and end respect. -/
theorem le_step {lo x d : K} {m : Nat} (hm : 1 ≤ m) (hx : lo ≤ x) (hend : lo ≤ x + d * m) :
    lo ≤ x + d := by
  rcases le_total 0 d with hd | hd
  · linarith
  · have hone : (1 : K) ≤ m := by exact_mod_cast hm
    have := mul_le_mul_of_nonpos_left hone hd
    linarith

theorem step_le {hi x d : K} {m : Nat} (hm : 1 ≤ m) (hx : x ≤ hi) (hend : x + d * m ≤ hi) :
    x + d ≤ hi := by
  rcases le_total 0 d with hd | hd
  · have hone : (1 : K) ≤ m := by exact_mod_cast hm
    have := mul_le_mul_of_nonneg_left hone hd
    linarith
  · linarith

theorem inside_step {p : Vec K} {move : Move K} {time : K} {m : Nat} (hm : 1 ≤ m)
    (hp : Inside b p) (hend : Inside b (advance p move (m * time))) :
    Inside b (advance p move time) := by
  have hassoc : ∀ a : K, a * (m * time) = a * time * m := fun a => by ring
  simp only [Inside, advance, hassoc] at hp hend ⊢
  obtain ⟨h1, h2, h3, h4⟩ := hp
  obtain ⟨e1, e2, e3, e4⟩ := hend
  exact ⟨le_step hm h1 e1, step_le hm h2 e2, le_step hm h3 e3, step_le hm h4 e4⟩

/-- A tenth of a movement whose end is inside. -/
theorem glide_inv {s : State K} (hcnt : s.cnt < 10) (hin : Inside b s.pos)
    (hahead : Inside b (advance s.pos s.move ((10 - s.cnt : Nat) * (interval / 10)))) :
    InsideInv b interval (glide interval s) := by
  refine ⟨?_, ?_, ?_⟩
  · rw [glide_pos]
    exact inside_step (by omega) hin hahead
  · rw [glide_cnt]
    split <;> omega
  · rw [glide_cnt, glide_pos, glide_move]
    intro hpos
    split at hpos
    · omega
    · rename_i hlast
      rw [if_neg hlast, advance_advance]
      have hsplit : 10 - s.cnt = 1 + (10 - (s.cnt + 1)) := by omega
      have htime : interval / 10 + ((10 - (s.cnt + 1) : Nat) : K) * (interval / 10) =
          ((10 - s.cnt : Nat) : K) * (interval / 10) := by
        rw [hsplit, Nat.cast_add, Nat.cast_one]
        ring
      rw [htime]
      exact hahead

/-- **The step lemma.** -/
theorem movement_inv {s t : State K} (h : InsideInv b interval s)
    (hnext : s.cnt = 0 → NextBelow b interval s.pos s.file)
    (ht : movement b interval s = some t) : InsideInv b interval t := by
  rcases movement_cases ht with ⟨hcnt, r, hr, rfl⟩ | ⟨hcnt, rfl⟩
  · have hend : Inside b (advance s.pos r.2.1 interval) :=
      (inside_iff_of_legal (search_legal hr)).mpr
        ((nextBelow_iff h.inside.2.2.2 hr).mp (hnext hcnt))
    refine glide_inv h.cnt h.inside ?_
    simp only [hcnt]
    rw [show ((10 - 0 : Nat) : K) * (interval / 10) = interval by push_cast; ring]
    exact hend
  · exact glide_inv h.cnt h.inside (h.ahead (by omega))

/-- **The run lemma.** -/
theorem after_inv {s : State K} (h : InsideInv b interval s)
    (hnext : ∀ n t, after b interval s n = some t → t.cnt = 0 →
      NextBelow b interval t.pos t.file) :
    ∀ {n : Nat} {t : State K}, after b interval s n = some t → InsideInv b interval t
  | 0, t, ht => by
      obtain rfl := Option.some.inj ht
      exact h
  | n + 1, t, ht => by
      rw [after_succ, Option.bind_eq_some_iff] at ht
      obtain ⟨u, hu, ht⟩ := ht
      exact movement_inv (after_inv h hnext hu) (hnext n u hu) ht

/-- **When the walker stays inside.** For every boundary, file and interval
and every start inside: after every event the node is inside if and only if
at every event that starts a movement, the first record that passes the
check does not end above the rectangle. -/
theorem inside_iff (b : Boundary K) (interval : K) (pos : Vec K) (file : List (Move K))
    (M : Move K) (hin : Inside b pos) :
    (∀ n s, after b interval (start pos file M) n = some s → Inside b s.pos) ↔
      ∀ n s, after b interval (start pos file M) n = some s → s.cnt = 0 →
        NextBelow b interval s.pos s.file := by
  constructor
  · intro hall n s hs hcnt
    cases hr : search b interval s.pos s.file with
    | none => exact nextBelow_of_diverges hr
    | some r =>
        rw [nextBelow_iff (hall n s hs).2.2.2 hr]
        -- ten events later the node is at the end point
        have hlast : after b interval (start pos file M) (n + 10) = after b interval s 10 := by
          rw [after_add, hs, Option.bind_some]
        exact (hall (n + 10) _ (hlast.trans (after_ten hcnt hr))).2.2.2
  · intro hnext n s hs
    exact (after_inv (inv_start hin file M) hnext hs).inside

/-- A boundary at least as high as it is far right has no such record. -/
theorem inside_of_tall (hb : b.bound0.x ≤ b.bound0.y) {pos : Vec K} (hin : Inside b pos)
    (file : List (Move K)) (M : Move K) {n : Nat} {s : State K}
    (hs : after b interval (start pos file M) n = some s) : Inside b s.pos :=
  (after_inv (inv_start hin file M) (fun _ t _ _ => nextBelow_of_tall hb t.pos t.file) hs).inside

/-! ## A tall and a wide rectangle -/

def tall : Boundary ℚ := ⟨⟨100, 200⟩, ⟨0, 0⟩⟩

def wide : Boundary ℚ := ⟨⟨200, 100⟩, ⟨0, 0⟩⟩

/-- Up by 40 in one interval of 1 s. -/
def up : Move ℚ := ⟨1, 0, 1, 40⟩

/-- From (65, 80) the tall one is never left. -/
theorem inside_tall : Inside tall ⟨65, 80⟩ ∧
    ∀ n s, after tall 1 (start ⟨65, 80⟩ [up] zeroMove) n = some s → Inside tall s.pos := by
  have hin : Inside tall ⟨65, 80⟩ := by decide +kernel
  have hshape : tall.bound0.x ≤ tall.bound0.y := by decide +kernel
  refine ⟨hin, (inside_iff tall 1 ⟨65, 80⟩ [up] zeroMove hin).mpr fun _ t _ _ => ?_⟩
  exact nextBelow_of_tall hshape t.pos t.file

/-- In the wide one the movement passes the check and ends 20 above. -/
theorem leaves_wide : Inside wide ⟨65, 80⟩ ∧
    ¬ ∀ n s, after wide 1 (start ⟨65, 80⟩ [up] zeroMove) n = some s → Inside wide s.pos := by
  refine ⟨by decide +kernel, fun hall => ?_⟩
  have hten : after wide 1 (start ⟨65, 80⟩ [up] zeroMove) 10 =
      some ⟨⟨65, 120⟩, [], 0, up, [.linkState]⟩ := by decide +kernel
  have hin := hall 10 _ hten
  revert hin
  decide +kernel

end Walk

end NetSystem
