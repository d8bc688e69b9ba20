import NetSystem.WalkInside

/-!
# The loop of `Movement`, and the walk in whole steps

The `while` loop that looks for a legal record, round by round
(`whileLoop`), with the number of records it has read. It computes
`search` (`whileLoop_length`), and where `search` has no answer it has none
after any number of rounds (`whileLoop_diverges`). The loop has no test for
the end of the file: it ends there because the zero movement passes the
check, which inside the rectangle it does unless the check of `y` against
`bound[0].x` says otherwise.

`whole` is the plain walk: find a record, jump. The events of `Movement`
refine it, ten for each jump.
-/

namespace NetSystem

namespace Walk

variable {K : Type*} [Field K]

/-! ## The loop -/

def getSingleMovement : List (Move K) → Move K × List (Move K)
  | [] => (zeroMove, [])
  | m :: file => (m, file)

/-- The variables of the loop, and how often `GetSingleMovement` was called. -/
structure Reading (K : Type*) where
  out : List Out
  move : Move K
  file : List (Move K)
  reads : Nat
deriving DecidableEq, Repr

/-- The variables after a call that follows `reads` others. -/
def readNext (out : List Out) (reads : Nat) (file : List (Move K)) : Reading K :=
  ⟨out, (getSingleMovement file).1, (getSingleMovement file).2, reads + 1⟩

/-- One round: report the record and read the next one. -/
def skip (r : Reading K) : Reading K :=
  readNext (r.out ++ [.illegal r.move.index]) r.reads r.file

variable [LinearOrder K]

/-- The loop, if it ends within `n` rounds. -/
def whileLoop (b : Boundary K) (interval : K) (pos : Vec K) :
    Nat → Reading K → Option (Reading K)
  | 0, r => if illegal b (advance pos r.move interval) then none else some r
  | n + 1, r =>
      if illegal b (advance pos r.move interval) then whileLoop b interval pos n (skip r)
      else some r

/-- The loop ends, and at most one of the calls was behind the end of the
file. -/
def Ends (b : Boundary K) (interval : K) (pos : Vec K) (file : List (Move K)) : Prop :=
  ∃ n r, whileLoop b interval pos n (readNext [] 0 file) = some r ∧ r.reads ≤ file.length + 1

variable {b : Boundary K} {interval : K} {pos : Vec K}

/-- A round for each record is enough: the loop computes `search`. -/
theorem whileLoop_length (out : List Out) (reads : Nat) (file : List (Move K)) :
    whileLoop b interval pos file.length (readNext out reads file) =
      (search b interval pos file).map fun r =>
        ⟨out ++ r.1, r.2.1, r.2.2, reads + r.1.length + 1⟩ := by
  induction file generalizing out reads with
  | nil =>
      simp only [List.length_nil, whileLoop, readNext, getSingleMovement, search]
      split <;> simp
  | cons m file ih =>
      simp only [List.length_cons, whileLoop, search]
      split
      · rename_i hill
        have hnext : skip (readNext out reads (m :: file)) =
            readNext (out ++ [.illegal m.index]) (reads + 1) file := rfl
        rw [if_pos (by exact hill), hnext, ih, Option.map_map]
        congr 1
        funext r
        simp [Nat.add_comm, Nat.add_left_comm]
      · rename_i hlegal
        rw [if_neg (by exact hlegal)]
        simp [readNext, getSingleMovement]

/-- Without an answer, the next record is illegal and there is none behind
it. -/
theorem search_next_none {file : List (Move K)} (h : search b interval pos file = none) :
    illegal b (advance pos (getSingleMovement file).1 interval) = true ∧
      search b interval pos (getSingleMovement file).2 = none := by
  cases file with
  | nil =>
      refine ⟨?_, h⟩
      rw [search] at h
      split at h
      · rename_i hill
        exact hill
      · cases h
  | cons m file =>
      rw [search] at h
      split at h
      · rename_i hill
        exact ⟨hill, Option.map_eq_none_iff.mp h⟩
      · cases h

theorem whileLoop_diverges {file : List (Move K)} (h : search b interval pos file = none)
    (out : List Out) (reads n : Nat) :
    whileLoop b interval pos n (readNext out reads file) = none := by
  induction n generalizing out reads file with
  | zero => exact if_pos (search_next_none h).1
  | succ n ih =>
      obtain ⟨hill, hrest⟩ := search_next_none h
      rw [whileLoop, if_pos (by exact hill)]
      exact ih hrest _ _

/-- The search prints a report for each record it skips, and nothing else. -/
theorem search_skipped {file : List (Move K)} {r : List Out × Move K × List (Move K)}
    (h : search b interval pos file = some r) :
    ∃ skipped : List (Move K), skipped.length ≤ file.length ∧
      r.1 = skipped.map fun m => .illegal m.index := by
  induction file generalizing r with
  | nil =>
      rw [search] at h
      split at h
      · cases h
      · obtain rfl := Option.some.inj h
        exact ⟨[], le_rfl, rfl⟩
  | cons m file ih =>
      rw [search] at h
      split at h
      · obtain ⟨r', hr', rfl⟩ := Option.map_eq_some_iff.mp h
        obtain ⟨skipped, hle, hout⟩ := ih hr'
        exact ⟨m :: skipped, Nat.succ_le_succ hle, congrArg (Out.illegal m.index :: ·) hout⟩
      · obtain rfl := Option.some.inj h
        exact ⟨[], Nat.zero_le _, rfl⟩

theorem ends_iff_search {file : List (Move K)} :
    Ends b interval pos file ↔ (search b interval pos file).isSome = true := by
  constructor
  · rintro ⟨n, r, hr, -⟩
    cases hs : search b interval pos file with
    | none =>
        rw [whileLoop_diverges hs] at hr
        cases hr
    | some r' => rfl
  · intro h
    obtain ⟨r, hr⟩ := Option.isSome_iff_exists.mp h
    have hloop : whileLoop b interval pos file.length (readNext [] 0 file) = _ :=
      whileLoop_length [] 0 file
    rw [hr, Option.map_some] at hloop
    refine ⟨_, _, hloop, ?_⟩
    obtain ⟨skipped, hle, hout⟩ := search_skipped hr
    simp only [hout, List.length_map]
    omega

/-- The search has no answer iff nothing passes the check, the zero movement
included. -/
theorem search_eq_none_iff {file : List (Move K)} :
    search b interval pos file = none ↔
      illegal b (advance pos zeroMove interval) = true ∧
        ∀ m ∈ file, illegal b (advance pos m interval) = true := by
  induction file with
  | nil => simp [search]
  | cons m file ih =>
      rw [search]
      split
      · rename_i hill
        rw [Option.map_eq_none_iff, ih]
        simp [hill]
      · rename_i hlegal
        simp [hlegal]

/-- Inside the rectangle the zero movement fails only the check of `y`
against `bound[0].x`. -/
theorem illegal_zeroMove (hin : Inside b pos) :
    illegal b (advance pos zeroMove interval) = decide (b.bound0.x < pos.y) := by
  obtain ⟨hx1, hx0, hy1, -⟩ := hin
  simp [illegal, advance, zeroMove, not_lt.mpr hx1, not_lt.mpr hx0, not_lt.mpr hy1]

/-- **The search ends**, from inside the rectangle, exactly if the position
is not above `bound[0].x` or a record left in the file passes the check. -/
theorem search_ends_iff (hin : Inside b pos) (interval : K) (file : List (Move K)) :
    Ends b interval pos file ↔
      pos.y ≤ b.bound0.x ∨ ∃ m ∈ file, illegal b (advance pos m interval) = false := by
  rw [ends_iff_search, ← not_iff_not, Bool.not_eq_true, Option.isSome_eq_false_iff,
    Option.isNone_iff_eq_none, search_eq_none_iff, illegal_zeroMove hin, decide_eq_true_iff,
    not_or, not_le, not_exists]
  simp

theorem search_ends_square :
    Inside ⟨⟨(10 : ℚ), 10⟩, ⟨0, 0⟩⟩ ⟨5, 5⟩ ∧ Ends ⟨⟨(10 : ℚ), 10⟩, ⟨0, 0⟩⟩ 1 ⟨5, 5⟩ [] := by
  have hin : Inside ⟨⟨(10 : ℚ), 10⟩, ⟨0, 0⟩⟩ ⟨5, 5⟩ := by
    refine ⟨?_, ?_, ?_, ?_⟩ <;> norm_num
  refine ⟨hin, (search_ends_iff hin 1 []).mpr (Or.inl ?_)⟩
  norm_num

/-- In a rectangle 10 wide and 100 high, halfway up, with nothing left in
the file. -/
theorem search_hangs :
    Inside ⟨⟨(10 : ℚ), 100⟩, ⟨0, 0⟩⟩ ⟨5, 50⟩ ∧
      ∀ n, whileLoop ⟨⟨(10 : ℚ), 100⟩, ⟨0, 0⟩⟩ 1 ⟨5, 50⟩ n (readNext [] 0 []) = none := by
  have hin : Inside ⟨⟨(10 : ℚ), 100⟩, ⟨0, 0⟩⟩ ⟨5, 50⟩ := by
    refine ⟨?_, ?_, ?_, ?_⟩ <;> norm_num
  refine ⟨hin, whileLoop_diverges ?_ [] 0⟩
  rw [search_eq_none_iff, illegal_zeroMove hin]
  norm_num

/-! ## Whole steps -/

/-- The plain walk: the node, the file and what was printed. -/
structure Whole (K : Type*) where
  pos : Vec K
  file : List (Move K)
  out : List Out
deriving DecidableEq, Repr

/-- Read, report and skip records until one passes the check, jump, and
print the link state. -/
def wholeStep (b : Boundary K) (interval : K) (w : Whole K) : Option (Whole K) :=
  (search b interval w.pos w.file).map fun r =>
    ⟨advance w.pos r.2.1 interval, r.2.2, w.out ++ r.1 ++ [.linkState]⟩

def whole (b : Boundary K) (interval : K) (pos : Vec K) (file : List (Move K)) :
    Nat → Option (Whole K)
  | 0 => some ⟨pos, file, []⟩
  | k + 1 => (whole b interval pos file k).bind (wholeStep b interval)

/-- Between two movements the node is where the plain walk is. -/
structure Matches (s : State K) (w : Whole K) : Prop where
  pos : s.pos = w.pos
  file : s.file = w.file
  out : s.out = w.out
  cnt : s.cnt = 0

theorem after_ten_none {s : State K} (hcnt : s.cnt = 0)
    (hr : search b interval s.pos s.file = none) : after b interval s 10 = none := by
  have hfirst : after b interval s 1 = none := by
    rw [after_succ, after_zero, Option.bind_some, movement, if_pos hcnt, hr, Option.map_none]
  rw [show 10 = 1 + 9 by rfl, after_add, hfirst, Option.bind_none]

/-- **The run lemma**: the two walks hang together or stand at the same
place. -/
theorem matches_after [IsStrictOrderedRing K] (b : Boundary K) (interval : K) (pos : Vec K)
    (file : List (Move K)) (M : Move K) : ∀ k,
    (after b interval (start pos file M) (10 * k) = none ∧ whole b interval pos file k = none) ∨
    ∃ s w, after b interval (start pos file M) (10 * k) = some s ∧
      whole b interval pos file k = some w ∧ Matches s w
  | 0 => Or.inr ⟨_, _, rfl, rfl, rfl, rfl, rfl, rfl⟩
  | k + 1 => by
      rw [Nat.mul_succ, after_add, whole]
      rcases matches_after b interval pos file M k with ⟨hs, hw⟩ | ⟨s, w, hs, hw, hmatch⟩
      · rw [hs, hw]
        exact Or.inl ⟨rfl, rfl⟩
      · rw [hs, hw, Option.bind_some, Option.bind_some, wholeStep, ← hmatch.pos, ← hmatch.file]
        cases hr : search b interval s.pos s.file with
        | none => exact Or.inl ⟨after_ten_none hmatch.cnt hr, rfl⟩
        | some r =>
            refine Or.inr ⟨_, _, after_ten hmatch.cnt hr, rfl, rfl, rfl, ?_, rfl⟩
            simp only [hmatch.out]

/-- One link state for each jump. -/
theorem count_linkState_whole {file : List (Move K)} : ∀ {k : Nat} {w : Whole K},
    whole b interval pos file k = some w → w.out.count .linkState = k
  | 0, w, h => by
      obtain rfl := Option.some.inj h
      rfl
  | k + 1, w, h => by
      rw [whole, Option.bind_eq_some_iff] at h
      obtain ⟨w', hw', h⟩ := h
      obtain ⟨r, hr, rfl⟩ := Option.map_eq_some_iff.mp h
      have hprev := count_linkState_whole hw'
      obtain ⟨skipped, -, hout⟩ := search_skipped hr
      have hnone : r.1.count .linkState = 0 := by
        rw [hout, List.count_eq_zero]
        simp
      rw [List.count_append, List.count_append, hprev, hnone]
      rfl

/-- **Smooth motion refines the walk in whole steps.** After `10 * k` events
the two agree on position, file and output; the record found next is applied
in each of the ten events that follow, and they print one link state. -/
theorem smooth_refines_whole [IsStrictOrderedRing K] (b : Boundary K) (interval : K) (pos : Vec K)
    (file : List (Move K)) (M : Move K) (k : Nat) :
    (after b interval (start pos file M) (10 * k)).map (fun s => (s.pos, s.file, s.out)) =
      (whole b interval pos file k).map (fun w => (w.pos, w.file, w.out)) ∧
    ∀ w, whole b interval pos file k = some w → w.out.count .linkState = k ∧
      ∀ r, search b interval w.pos w.file = some r → ∀ i, 1 ≤ i → i ≤ 10 →
        ∃ t, after b interval (start pos file M) (10 * k + i) = some t ∧ t.move = r.2.1 ∧
          t.file = r.2.2 ∧ t.pos = advance w.pos r.2.1 (i * (interval / 10)) ∧
          t.out = w.out ++ r.1 ++ if i = 10 then [.linkState] else [] := by
  rcases matches_after b interval pos file M k with ⟨hs, hw⟩ | ⟨s, w, hs, hw, hmatch⟩
  · rw [hs, hw]
    exact ⟨rfl, fun w h => by cases h⟩
  · rw [hs, hw]
    refine ⟨by simp [hmatch.pos, hmatch.file, hmatch.out], fun w' hw' => ?_⟩
    obtain rfl := Option.some.inj hw'
    refine ⟨count_linkState_whole hw, fun r hr i hpos hle => ?_⟩
    rw [← hmatch.pos, ← hmatch.file] at hr
    have hwithin := after_within hmatch.cnt hr hpos hle
    rw [hmatch.pos, hmatch.out] at hwithin
    have hevents : after b interval (start pos file M) (10 * k + i) = after b interval s i := by
      rw [after_add, hs, Option.bind_some]
    rw [hevents]
    exact ⟨_, hwithin, rfl, rfl, rfl, rfl⟩

/-- One movement upwards in the tall rectangle. -/
theorem smooth_refines_whole_up :
    (after tall 1 (start ⟨50, 50⟩ [up] up) 10).map (fun s => (s.pos, s.file, s.out)) =
      (whole tall 1 ⟨50, 50⟩ [up] 1).map (fun w => (w.pos, w.file, w.out)) :=
  (smooth_refines_whole tall 1 ⟨50, 50⟩ [up] up 1).1

end Walk

end NetSystem
