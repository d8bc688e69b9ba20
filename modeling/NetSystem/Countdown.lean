import Mathlib.Algebra.BigOperators.Group.Finset.Basic
import Mathlib.Algebra.Order.Floor.Ring
import Mathlib.Algebra.Order.Floor.Semiring

/-!
# A counter that is reloaded at zero

A clock with a counter from an ordered ring: at every tick the counter goes
down by one, and when its integer part is zero after that, the clock fires
and the counter is loaded with the next of a sequence of values `T`. A value
of `none` is infinite.

With values from 1 on, the k-th firing is at the sum of the integer parts of
the first k values (`Scheduled.fired_iff`): what a value has behind the
point is lost when the next one is loaded. A value below 1 is already
negative at the first tick after it was loaded, and the clock never fires
again (`Scheduled.silent`).
-/

namespace NetSystem

/-- `fired` is the history of the ticks at which the clock fired. -/
structure Clock (α : Type*) where
  now : Nat
  counter : Option α
  fired : List Nat

namespace Clock

variable {α : Type*} [Ring α] [LinearOrder α] [FloorRing α]

/-- The integer part of the counter is zero. -/
def Zero (x : Option α) : Prop := ∃ q, x = some q ∧ ⌊q⌋ = 0

/-- One tick. -/
inductive Tick (T : Nat → Option α) (c : Clock α) : Clock α → Prop
  | fire (h : Zero (c.counter.map (· - 1))) : Tick T c
      { now := c.now + 1, counter := T (c.fired.length + 1), fired := c.fired ++ [c.now + 1] }
  | wait (h : ¬ Zero (c.counter.map (· - 1))) : Tick T c
      { now := c.now + 1, counter := c.counter.map (· - 1), fired := c.fired }

theorem Tick.now {T : Nat → Option α} {c c' : Clock α} (h : Tick T c c') :
    c'.now = c.now + 1 := by
  cases h <;> rfl

def start (T : Nat → Option α) : Clock α := { now := 0, counter := T 0, fired := [] }

/-! ## The schedule -/

/-- The sum of the integer parts of the first `k` values. -/
def schedule (T : Nat → Option α) (k : Nat) : Nat := ∑ i ∈ Finset.range k, ⌊(T i).getD 0⌋₊

/-- A finite value from 1 on. -/
def Regular (x : Option α) : Prop := ∃ q, x = some q ∧ 1 ≤ q

theorem schedule_succ (T : Nat → Option α) (k : Nat) :
    schedule T (k + 1) = schedule T k + ⌊(T k).getD 0⌋₊ := by
  rw [schedule, Finset.sum_range_succ]
  rfl

theorem schedule_mono (T : Nat → Option α) : Monotone (schedule T) :=
  monotone_nat_of_le_succ fun k => by
    rw [schedule_succ]
    exact Nat.le_add_right _ _

/-- The state of the clock, by the number of firings so far. -/
structure Scheduled (T : Nat → Option α) (c : Clock α) : Prop where
  regular : ∀ i < c.fired.length, Regular (T i)
  fired : c.fired = (List.range c.fired.length).map fun i => schedule T (i + 1)
  past : schedule T c.fired.length ≤ c.now
  counter : c.counter =
    (T c.fired.length).map (· - ((c.now - schedule T c.fired.length : Nat) : α))
  waiting : Regular (T c.fired.length) → c.now < schedule T (c.fired.length + 1)

/-- As long as the values are regular, the clock fires on schedule, and at
no other time. -/
theorem Scheduled.fired_iff {T : Nat → Option α} {c : Clock α} (h : Scheduled T c) {k : Nat}
    (hreg : ∀ i ≤ k, Regular (T i)) (t : Nat) :
    c.fired[k]? = some t ↔ t = schedule T (k + 1) ∧ t ≤ c.now := by
  rcases Nat.lt_or_ge k c.fired.length with hk | hk
  · have hle : schedule T (k + 1) ≤ c.now := (schedule_mono T hk).trans h.past
    rw [h.fired, List.getElem?_map, List.getElem?_range hk, Option.map_some, Option.some.injEq]
    constructor
    · rintro rfl
      exact ⟨rfl, hle⟩
    · rintro ⟨rfl, -⟩
      rfl
  · have hlt := (h.waiting (hreg _ hk)).trans_le (schedule_mono T (Nat.succ_le_succ hk))
    rw [List.getElem?_eq_none hk]
    refine iff_of_false (by simp) ?_
    rintro ⟨rfl, hle⟩
    exact absurd hlt (not_lt.mpr hle)

/-- A value that is not regular is the last one. -/
theorem Scheduled.silent {T : Nat → Option α} {c : Clock α} (h : Scheduled T c) {k : Nat}
    (hk : ¬ Regular (T k)) : c.fired.length ≤ k := by
  by_contra hlt
  exact hk (h.regular k (not_le.mp hlt))

/-! ## Every run is on schedule -/

variable [IsStrictOrderedRing α]

theorem schedule_lt_succ {T : Nat → Option α} {k : Nat} (h : Regular (T k)) :
    schedule T k < schedule T (k + 1) := by
  obtain ⟨q, hq, h1⟩ := h
  have hfloor : 1 ≤ ⌊q⌋₊ := (Nat.one_le_floor_iff q).mpr h1
  rw [schedule_succ, hq, Option.getD_some]
  omega

theorem scheduled_start (T : Nat → Option α) : Scheduled T (start T) where
  regular i hi := absurd hi (Nat.not_lt_zero i)
  fired := rfl
  past := le_rfl
  counter := by simp [start, schedule]
  waiting h := schedule_lt_succ h

/-- The counter reaches zero exactly when the next firing is due. -/
theorem Scheduled.zero_iff {T : Nat → Option α} {c : Clock α} (h : Scheduled T c) :
    Zero (c.counter.map (· - 1)) ↔
      Regular (T c.fired.length) ∧ schedule T (c.fired.length + 1) = c.now + 1 := by
  have hpast := h.past
  rw [h.counter, Option.map_map, schedule_succ]
  cases hT : T c.fired.length with
  | none => simp [Zero, Regular]
  | some q =>
      -- with `m` ticks since the value was loaded, the counter is `q - m - 1`
      have hfloor : ⌊q - ((c.now - schedule T c.fired.length : Nat) : α) - 1⌋ =
          ⌊q⌋ - ((c.now - schedule T c.fired.length : Nat) : Int) - 1 := by
        rw [Int.floor_sub_one, Int.floor_sub_natCast]
      have hnat := Int.floor_toNat q
      have hone : 1 ≤ ⌊q⌋ ↔ 1 ≤ q := by rw [Int.le_floor, Int.cast_one]
      simp only [Zero, Regular, Option.map_some, Function.comp_apply, Option.some.injEq,
        exists_eq_left', hfloor, Option.getD_some]
      constructor
      · intro h0
        exact ⟨hone.mp (by omega), by omega⟩
      · rintro ⟨h1, hnow⟩
        have := hone.mpr h1
        omega

/-- **The step lemma.** -/
theorem Scheduled.tick {T : Nat → Option α} {c c' : Clock α} (h : Scheduled T c)
    (ht : Tick T c c') : Scheduled T c' := by
  have hpast := h.past
  cases ht with
  | fire hz =>
      obtain ⟨hreg, hnow⟩ := h.zero_iff.mp hz
      have hlen : (c.fired ++ [c.now + 1]).length = c.fired.length + 1 := by simp
      constructor
      · intro i hi
        rw [hlen] at hi
        rcases Nat.lt_succ_iff_lt_or_eq.mp hi with hi | rfl
        · exact h.regular i hi
        · exact hreg
      · simp only [hlen, List.range_succ, List.map_append, List.map_cons, List.map_nil, hnow]
        rw [← h.fired]
      · simp only [hlen, hnow]
        exact le_rfl
      · simp [hlen, hnow]
      · simp only [hlen]
        intro hreg'
        rw [← hnow]
        exact schedule_lt_succ hreg'
  | wait hz =>
      constructor
      · exact h.regular
      · exact h.fired
      · exact hpast.trans (Nat.le_succ _)
      · have hcast : c.now + 1 - schedule T c.fired.length =
            (c.now - schedule T c.fired.length) + 1 := by omega
        simp only [h.counter, Option.map_map, hcast, Nat.cast_add, Nat.cast_one]
        congr 1
        funext q
        simp [sub_sub]
      · intro hreg
        have hlt := h.waiting hreg
        have hne : schedule T (c.fired.length + 1) ≠ c.now + 1 := fun heq =>
          hz (h.zero_iff.mpr ⟨hreg, heq⟩)
        simp only
        omega

end Clock

end NetSystem
