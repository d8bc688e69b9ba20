import Mathlib.Algebra.Order.Field.Basic
import Mathlib.Tactic.FieldSimp
import Mathlib.Tactic.Ring
import NetSystem.Run

/-!
# The random walk

`random-walk.cc`: `GetSingleMovement`, `Movement` and the events it
schedules, over an arbitrary ordered field. A record's direction is the
vector (cos rad, sin rad), kept as two coordinates. The height `z` never
changes and is left out.

A movement file is the list of its records; after the last one
`fscanf` fails and `GetSingleMovement` returns its zero defaults for ever
(`zeroMove`). The loop that looks for a legal record is `search`: `none`
is the loop that never ends, which happens exactly when even the zero
movement is illegal.
-/

namespace NetSystem

namespace Walk

/-! ## Data -/

structure Vec (K : Type*) where
  x : K
  y : K
deriving DecidableEq, Repr

/-- `std::vector<Vector> boundary`: `bound[0]` and `bound[1]`. -/
structure Boundary (K : Type*) where
  bound0 : Vec K
  bound1 : Vec K
deriving DecidableEq, Repr

/-- `MOVE`, with the direction of `rad`. -/
structure Move (K : Type*) where
  index : Int
  cos : K
  sin : K
  speed : K
deriving DecidableEq, Repr

/-- What an event prints: an illegal record, or the link state. -/
inductive Out where
  | illegal (index : Int)
  | linkState
deriving DecidableEq, Repr

/-- The node's position, the records left in the file and the arguments the
next `Movement` is scheduled with. -/
structure State (K : Type*) where
  pos : Vec K
  file : List (Move K)
  cnt : Nat
  move : Move K
  out : List Out
deriving DecidableEq, Repr

variable {K : Type*} [Field K]

/-! ## `Movement` -/

/-- Position after moving for the given time. -/
def advance (pos : Vec K) (move : Move K) (time : K) : Vec K :=
  ⟨pos.x + move.cos * move.speed * time, pos.y + move.sin * move.speed * time⟩

/-- `GetSingleMovement` at the end of the file. -/
def zeroMove : Move K := ⟨0, 1, 0, 0⟩

/-- The part of `Movement` behind the loop: a tenth of the movement. -/
def glide (interval : K) (s : State K) : State K :=
  let s := { s with pos := advance s.pos s.move (interval / 10), cnt := s.cnt + 1 }
  if s.cnt = 10 then { s with cnt := 0, out := s.out ++ [.linkState] } else s

section Glide

variable {interval : K} {s : State K}

theorem glide_pos : (glide interval s).pos = advance s.pos s.move (interval / 10) := by
  unfold glide
  simp only
  split <;> rfl

theorem glide_move : (glide interval s).move = s.move := by
  unfold glide
  simp only
  split <;> rfl

theorem glide_cnt : (glide interval s).cnt = if s.cnt = 9 then 0 else s.cnt + 1 := by
  unfold glide
  simp only
  by_cases hlast : s.cnt = 9
  · rw [if_pos (by omega), if_pos hlast]
  · rw [if_neg (by omega), if_neg hlast]

theorem advance_advance (p : Vec K) (move : Move K) (t u : K) :
    advance (advance p move t) move u = advance p move (t + u) := by
  simp only [advance, Vec.mk.injEq]
  constructor <;> ring

end Glide

variable [LinearOrder K]

/-- The condition of the `while` loop. -/
def illegal (b : Boundary K) (p : Vec K) : Bool :=
  decide (b.bound0.x < p.x) || decide (p.x < b.bound1.x) || decide (b.bound0.x < p.y) ||
    decide (p.y < b.bound1.y)

/-- Read records until one is legal: the messages printed, the record, and
the rest of the file. -/
def search (b : Boundary K) (interval : K) (pos : Vec K) :
    List (Move K) → Option (List Out × Move K × List (Move K))
  | [] => if illegal b (advance pos zeroMove interval) then none else some ([], zeroMove, [])
  | m :: file =>
      if illegal b (advance pos m interval) then
        (search b interval pos file).map fun r => (.illegal m.index :: r.1, r.2)
      else some ([], m, file)

def movement (b : Boundary K) (interval : K) (s : State K) : Option (State K) :=
  if s.cnt = 0 then
    (search b interval s.pos s.file).map fun r =>
      glide interval { s with move := r.2.1, file := r.2.2, out := s.out ++ r.1 }
  else some (glide interval s)

/-- What `main` schedules: the record `M` is not initialized. -/
def start (pos : Vec K) (file : List (Move K)) (M : Move K) : State K := ⟨pos, file, 0, M, []⟩

/-- The state after `n` events. -/
def after (b : Boundary K) (interval : K) (s : State K) (n : Nat) : Option (State K) :=
  run (fun s (_ : Unit) => movement b interval s) s (List.replicate n ())

/-! ## Events -/

variable {b : Boundary K} {interval : K} {s t : State K}

@[simp] theorem after_zero : after b interval s 0 = some s := rfl

theorem after_succ (n : Nat) :
    after b interval s (n + 1) = (after b interval s n).bind (movement b interval) := by
  rw [after, List.replicate_succ', run_snoc]
  rfl

theorem after_add (m n : Nat) :
    after b interval s (m + n) =
      (after b interval s m).bind fun t => after b interval t n := by
  rw [after, ← List.replicate_append_replicate, run_append]
  rfl

/-- What an event can do: start a movement with the record the search
finds, or carry on. -/
theorem movement_cases (h : movement b interval s = some t) :
    (s.cnt = 0 ∧ ∃ r, search b interval s.pos s.file = some r ∧
      t = glide interval { s with move := r.2.1, file := r.2.2, out := s.out ++ r.1 }) ∨
    (s.cnt ≠ 0 ∧ t = glide interval s) := by
  unfold movement at h
  split at h
  · rename_i hcnt
    obtain ⟨r, hr, rfl⟩ := Option.map_eq_some_iff.mp h
    exact Or.inl ⟨hcnt, r, hr, rfl⟩
  · rename_i hcnt
    exact Or.inr ⟨hcnt, (Option.some.inj h).symm⟩

/-- **The run lemma of a movement**: the record found is applied in each of
the ten events, and the link state is printed in the last. -/
theorem after_within [IsStrictOrderedRing K] {r : List Out × Move K × List (Move K)}
    (hcnt : s.cnt = 0) (hr : search b interval s.pos s.file = some r) :
    ∀ {i : Nat}, 1 ≤ i → i ≤ 10 → after b interval s i = some
      ⟨advance s.pos r.2.1 (i * (interval / 10)), r.2.2, if i = 10 then 0 else i, r.2.1,
        s.out ++ r.1 ++ if i = 10 then [.linkState] else []⟩
  | 0, hpos, _ => by omega
  | 1, _, _ => by
      rw [after_succ, after_zero, Option.bind_some, movement, if_pos hcnt, hr, Option.map_some,
        glide]
      simp [hcnt]
  | i + 2, _, hle => by
      rw [after_succ, after_within hcnt hr (by omega) (by omega), Option.bind_some, movement,
        if_neg (by simp; omega), glide]
      have htime : ((i + 1 : Nat) : K) * (interval / 10) + interval / 10 =
          ((i + 2 : Nat) : K) * (interval / 10) := by push_cast; ring
      simp only [advance_advance, htime, show i + 1 ≠ 10 by omega, if_false, List.append_nil]
      by_cases hlast : i + 2 = 10
      · simp [hlast]
      · rw [if_neg (by omega), if_neg hlast, if_neg hlast]
        simp

/-- Ten events are one whole movement. -/
theorem after_ten [IsStrictOrderedRing K] {r : List Out × Move K × List (Move K)}
    (hcnt : s.cnt = 0) (hr : search b interval s.pos s.file = some r) :
    after b interval s 10 = some
      ⟨advance s.pos r.2.1 interval, r.2.2, 0, r.2.1, s.out ++ r.1 ++ [.linkState]⟩ := by
  have htime : ((10 : Nat) : K) * (interval / 10) = interval := by
    push_cast
    ring
  rw [after_within hcnt hr (by omega) le_rfl, htime, if_pos rfl, if_pos rfl]

end Walk

end NetSystem
