import Mathlib.Algebra.Order.Round
import Mathlib.Data.Fin.VecNotation
import Mathlib.Data.Rat.Floor
import NetSystem.Run

/-!
# The CSMA/CA simulator

`lab5_0716206.m`: the slot loop of `csmaca` and `generate_pkt`, one slot
as a partial step function. `none` is a MATLAB indexing error; every draw
(`poissrnd`, `randi`) is an input.

The packet queue of all stations is one matrix that grows on assignment
(`Mat`), read with a single index at the head of a row, and shifted in
place. The shapes matter: on a matrix with one column, indexing with the
row vector `winner` gives a column, and dividing it by the row
`StaRate(winner)` a square, so `txTime` is a vector of one entry per
sender instead of a number; `if (txTime <= 0)` then waits for all of them.

Stations count from 0 here and from 1 in the source. Arithmetic is exact.
`log` is a history variable.
-/

namespace NetSystem

namespace Csma

/-! ## Matrices that grow -/

/-- A matrix as MATLAB keeps it: cells outside are zero, which is what a
cell holds when an assignment brings it into existence. -/
structure Mat where
  rows : Nat
  cols : Nat
  cell : Nat → Nat → Nat
  outside : ∀ i j, rows ≤ i ∨ cols ≤ j → cell i j = 0

namespace Mat

/-- `[]` -/
def empty : Mat := ⟨0, 0, fun _ _ => 0, fun _ _ _ => rfl⟩

/-- `M(i, j) = v`, growing the matrix as needed. The column is the
source's, counted from 1. -/
def assign? (m : Mat) (i : Nat) (j : Int) (v : Nat) : Option Mat :=
  if 1 ≤ j then
    some {
      rows := max m.rows (i + 1)
      cols := max m.cols j.toNat
      cell := fun a b => if a = i ∧ b + 1 = j.toNat then v else m.cell a b
      outside := by
        intro a b h
        rw [if_neg (by omega), m.outside a b (by omega)] }
  else none

/-- `M(k)`: one index runs down the columns. -/
def lin? (m : Mat) (k : Nat) : Option Nat :=
  if k < m.rows * m.cols then some (m.cell (k % m.rows) (k / m.rows)) else none

/-- `M(i, 1:end-1) = M(i, 2:end)`. The last cell of the row stays. -/
def shiftRow? (m : Mat) (i : Nat) : Option Mat :=
  if h : i < m.rows then
    some { m with
      cell := fun a b => if a = i ∧ b + 1 < m.cols then m.cell a (b + 1) else m.cell a b
      outside := by
        intro a b hab
        rw [if_neg (by omega), m.outside a b hab] }
  else none

/-- `M(ks)`. -/
def gather? (m : Mat) (ks : List Nat) : Option (List Nat) := ks.mapM m.lin?

end Mat

/-! ## Parameters -/

def slotTime : ℚ := 1 / 10 ^ 6

def pktLen : Nat := 180

/-- `[6 9 12 18].*1e6` -/
def dataRate : Fin 4 → ℚ := ![6 * 10 ^ 6, 9 * 10 ^ 6, 12 * 10 ^ 6, 18 * 10 ^ 6]

def cwMin : Nat := 32

def cwMax : Nat := 1024

/-- `randi([lo,hi],1,1)` from a raw draw. -/
def randi (lo hi r : Nat) : Nat := lo + r % (hi + 1 - lo)

/-! ## State -/

/-- What happened in a slot: a packet arrived, a station sent the given
number of bits, stations collided. -/
inductive Event (nn : Nat) where
  | arrival (u : Fin nn)
  | success (w : Fin nn) (bits : Nat)
  | collision (ws : List (Fin nn))
deriving DecidableEq, Repr

/-- The variables of one iteration of the simulation. An interarrival time
of `none` is `Inf` (`poissrnd` returned 0). -/
structure Sim (nn : Nat) where
  t : Nat
  interPktTime : Fin nn → Option ℚ
  staPktCnt : Fin nn → Int
  staPktQ : Mat
  sentBitCnt : Fin nn → Nat
  cw : Fin nn → Nat
  backoff : Fin nn → Int
  isBusy : Bool
  txTime : List Int
  numTx : Nat
  numCollision : Nat
  log : List (Nat × Event nn)

/-- The draws of one slot: the interarrival time a station draws if a packet
arrives, and the raw value behind `randi` if it redraws its backoff. -/
structure SlotIn (nn : Nat) where
  arrival : Fin nn → Option ℚ
  draw : Fin nn → Nat

def Sim.init {nn : Nat} (arrival : Fin nn → Option ℚ) (draw : Fin nn → Nat) : Sim nn where
  t := 0
  interPktTime := arrival
  staPktCnt := fun _ => 0
  staPktQ := .empty
  sentBitCnt := fun _ => 0
  cw := fun _ => cwMin
  backoff := fun u => randi 1 cwMin (draw u)
  isBusy := false
  txTime := []
  numTx := 0
  numCollision := 0
  log := []

variable {nn : Nat}

/-! ## `generate_pkt` -/

/-- `floor(InterPktTime(u)) == 0` -/
def due : Option ℚ → Bool
  | none => false
  | some q => decide (⌊q⌋ = 0)

/-- The body of the loop over the stations. -/
def arrive (inp : SlotIn nn) (s : Sim nn) (u : Fin nn) : Option (Sim nn) :=
  if due (s.interPktTime u) then
    let cnt := s.staPktCnt u + 1
    (s.staPktQ.assign? u cnt pktLen).map fun q =>
      { s with
        staPktCnt := Function.update s.staPktCnt u cnt
        staPktQ := q
        interPktTime := Function.update s.interPktTime u (inp.arrival u)
        log := s.log ++ [(s.t, .arrival u)] }
  else some s

def generatePkt (inp : SlotIn nn) (s : Sim nn) : Option (Sim nn) :=
  run (arrive inp)
    { s with interPktTime := fun u => (s.interPktTime u).map (· - 1) }
    (List.finRange nn)

/-! ## The slot -/

/-- `find(StaPktCnt > 0)` -/
def pending (s : Sim nn) : List (Fin nn) :=
  (List.finRange nn).filter fun u => decide (0 < s.staPktCnt u)

/-- `backoff(uid) = backoff(uid) - 1` -/
def countDown (s : Sim nn) : Sim nn :=
  { s with backoff := fun u => if 0 < s.staPktCnt u then s.backoff u - 1 else s.backoff u }

/-- `uid(find(backoff(uid)==0))` -/
def winners (s : Sim nn) : List (Fin nn) :=
  (pending s).filter fun u => decide (s.backoff u = 0)

/-- One sender: count its head packet and shift the row. -/
def deliver (s : Sim nn) (w : Fin nn) : Option (Sim nn) := do
  let bits ← s.staPktQ.lin? w
  let q ← s.staPktQ.shiftRow? w
  some { s with
    sentBitCnt := Function.update s.sentBitCnt w (s.sentBitCnt w + bits)
    staPktCnt := Function.update s.staPktCnt w (s.staPktCnt w - 1)
    staPktQ := q
    cw := Function.update s.cw w cwMin
    log := s.log ++ [(s.t, .success w bits)] }

/-- Several senders: count the collision and double their windows. -/
def collide (s : Sim nn) (ws : List (Fin nn)) : Sim nn :=
  { s with
    numCollision := s.numCollision + 1
    cw := fun u =>
      if u ∈ ws then (if cwMax ≤ s.cw u * 2 then cwMax else s.cw u * 2) else s.cw u
    log := s.log ++ [(s.t, .collision ws)] }

def resolve (s : Sim nn) : List (Fin nn) → Option (Sim nn)
  | [w] => deliver s w
  | ws => some (collide s ws)

/-- `backoff(winner(k)) = randi([1,CW(winner(k))],1,1)` -/
def redraw (inp : SlotIn nn) (s : Sim nn) (ws : List (Fin nn)) : Sim nn :=
  { s with backoff := fun u => if u ∈ ws then randi 1 (s.cw u) (inp.draw u) else s.backoff u }

/-- `max` of a vector of nonnegative numbers. -/
def vecMax (l : List ℚ) : ℚ := l.foldr max 0

/-- `round(max((StaPktQ(winner)./StaRate(winner)))./SlotTime)`: a column by
a row is a square and `max` takes each of its columns; a row by a row is a
row and `max` takes all of it. -/
def txTimeOf (rate : Fin nn → Fin 4) (q : Mat) (ws : List (Fin nn)) (heads : List Nat) :
    List Int :=
  if q.cols = 1 then
    ws.map fun w => round (vecMax (heads.map fun (b : Nat) => b / dataRate (rate w)) / slotTime)
  else
    [round (vecMax (List.zipWith (fun (b : Nat) w => b / dataRate (rate w)) heads ws) / slotTime)]

/-- Flag the medium as busy and update the statistics. -/
def occupy (rate : Fin nn → Fin 4) (s : Sim nn) (ws : List (Fin nn)) : Option (Sim nn) := do
  let heads ← s.staPktQ.gather? (ws.map (·.val))
  some { s with
    isBusy := true
    txTime := txTimeOf rate s.staPktQ ws heads
    numTx := s.numTx + 1 }

def transmit (rate : Fin nn → Fin 4) (inp : SlotIn nn) (s : Sim nn) (ws : List (Fin nn)) :
    Option (Sim nn) := do
  let s ← resolve s ws
  let s := redraw inp s ws
  if 0 < ws.length then occupy rate s ws else some s

/-- The medium is idle. -/
def idleSlot (rate : Fin nn → Fin 4) (inp : SlotIn nn) (s : Sim nn) : Option (Sim nn) :=
  if pending s = [] then some s
  else
    let s := countDown s
    if ((pending s).map s.backoff).min? = some 0 then transmit rate inp s (winners s)
    else some s

/-- `if (txTime <= 0)` on a vector: not empty, and true of every entry. -/
def elapsed (tx : List Int) : Bool := !tx.isEmpty && tx.all fun x => decide (x ≤ 0)

/-- The channel is busy. -/
def busySlot (s : Sim nn) : Sim nn :=
  let tx := s.txTime.map (· - 1)
  { s with txTime := tx, isBusy := !elapsed tx }

/-- One slot of the simulation. -/
def slot (rate : Fin nn → Fin 4) (s : Sim nn) (inp : SlotIn nn) : Option (Sim nn) := do
  let s ← generatePkt inp { s with t := s.t + 1 }
  if s.isBusy then some (busySlot s) else idleSlot rate inp s

/-! ## Counting over the log -/

/-- Packets generated for `u` so far. -/
def generated (s : Sim nn) (u : Fin nn) : Nat :=
  s.log.countP fun e => decide (e.2 = .arrival u)

def isSuccessOf (u : Fin nn) : Event nn → Bool
  | .success w _ => decide (w = u)
  | _ => false

@[simp] theorem isSuccessOf_arrival (u v : Fin nn) : isSuccessOf u (.arrival v) = false := rfl

@[simp] theorem isSuccessOf_success (u w : Fin nn) (bits : Nat) :
    isSuccessOf u (.success w bits) = decide (w = u) := rfl

@[simp] theorem isSuccessOf_collision (u : Fin nn) (ws : List (Fin nn)) :
    isSuccessOf u (.collision ws) = false := rfl

/-- Successful transmissions of `u` so far. -/
def successes (s : Sim nn) (u : Fin nn) : Nat := s.log.countP fun e => isSuccessOf u e.2

end Csma

end NetSystem
