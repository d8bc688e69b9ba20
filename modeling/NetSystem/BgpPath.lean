import Mathlib.Algebra.GroupWithZero.Nat
import NetSystem.Criteria

/-!
# The order of BGP paths

`bgp_info_cmp` of quagga's `bgpd/bgp_route.c` with what it reads of a path,
and the functions on AS paths of `bgp_aspath.c` it uses. -1 says that the new
path is preferred, 1 the one that exists, 0 that they are equal for
multipath.

Thirteen steps decide, and most of them compare two numbers. Not all are
symmetric: where both paths are local, or both stale, the new one wins. For
paths that are not (`Apart`), and without multipath, the steps are the
lexicographic order of a list of values (`key`, `bgpInfoCmp_verdict`), with
one exception: whether MEDs count depends on the two AS paths, so that the
list depends on the pair.
-/

namespace NetSystem

namespace Bgp

open Criteria

/-! ## AS paths -/

inductive SegmentType where
  | asSet
  | asSequence
  | asConfedSequence
  | asConfedSet
deriving DecidableEq

/-- `struct assegment`, which holds at least one AS. -/
structure Segment where
  type : SegmentType
  first : Nat
  rest : List Nat
deriving DecidableEq

def Segment.length (s : Segment) : Nat := s.rest.length + 1

abbrev AsPath := List Segment

def Segment.hops (s : Segment) : Nat :=
  match s.type with
  | .asSequence => s.length
  | .asSet => 1
  | _ => 0

def aspathCountHops (p : AsPath) : Nat := (p.map Segment.hops).sum

def Segment.confeds (s : Segment) : Nat :=
  match s.type with
  | .asConfedSequence => s.length
  | .asConfedSet => 1
  | _ => 0

def aspathCountConfeds (p : AsPath) : Nat := (p.map Segment.confeds).sum

def Segment.isConfed (s : Segment) : Bool :=
  s.type = .asConfedSequence || s.type = .asConfedSet

/-- `aspath_cmp_left`: the same neighbouring AS, or both paths empty. -/
def aspathCmpLeft (p q : AsPath) : Bool :=
  if p = [] ∧ q = [] then true
  else
    match p.dropWhile Segment.isConfed, q.dropWhile Segment.isConfed with
    | s :: _, t :: _ => s.type = .asSequence && t.type = .asSequence && s.first = t.first
    | _, _ => false

def aspathCmpLeftConfed : AsPath → AsPath → Bool
  | s :: _, t :: _ =>
      s.type = .asConfedSequence && t.type = .asConfedSequence && s.first = t.first
  | _, _ => false

/-! ## Paths and peers -/

/-- `union sockunion`, with the address as `ntohl` gives it. -/
inductive SockUnion where
  | inet (addr : Nat)
  | inet6 (addr : Fin 16 → Nat)

/-- `in6addr_cmp`, from byte `i` on. -/
def in6addrCmp : List Nat → List Nat → Int
  | x :: xs, y :: ys => if y < x then 1 else if x < y then -1 else in6addrCmp xs ys
  | _, _ => 0

def sockunionCmp : SockUnion → SockUnion → Int
  | .inet x, .inet y => if x = y then 0 else if y < x then 1 else -1
  | .inet6 x, .inet6 y => in6addrCmp (List.ofFn x) (List.ofFn y)
  | .inet6 _, .inet _ => 1
  | .inet _, .inet6 _ => -1

inductive PeerSort where
  | ibgp
  | ebgp
  | internal
  | confed
deriving DecidableEq

structure Peer where
  sort : PeerSort
  as : Nat
  remoteId : Nat
  suRemote : Option SockUnion

abbrev PeerId := Nat

/-- `struct attr` with its `extra`. An option is a flag and a value, and
`other` is what the comparison does not look at: communities, aggregator and
the rest. -/
structure Attr where
  nexthop : Nat
  weight : Nat
  localPref : Option Nat
  aspath : AsPath
  origin : Nat
  med : Option Nat
  originatorId : Option Nat
  cluster : Option Nat
  other : List Nat
deriving DecidableEq

inductive SubType where
  | normal
  | static
  | aggregate
  | redistribute
deriving DecidableEq

/-- `struct bgp_info`, the flags as fields. `DMED_CHECK` and `DMED_SELECTED`
are not among them, see `Marks`. -/
structure Info where
  peer : PeerId
  subType : SubType
  attr : Attr
  igpmetric : Nat
  selected : Bool
  valid : Bool
  attrChanged : Bool
  igpChanged : Bool
  stale : Bool
  removed : Bool
  history : Bool
  damped : Bool

/-- What `bgp_info_cmp` and `bgp_best_selection` read of `struct bgp`. -/
structure Config where
  defaultLocalPref : Nat
  aspathIgnore : Bool
  aspathConfed : Bool
  alwaysCompareMed : Bool
  medConfed : Bool
  medMissingAsWorst : Bool
  compareRouterId : Bool
  deterministicMed : Bool
  multipathRelax : Bool
  mpathIsConfigured : Bool
  peer : PeerId → Peer
  peerSelf : PeerId

/-! ## The comparison -/

section Compare

variable (c : Config)

def bgpMedMax : Nat := 4294967295

def bgpMedValue (a : Attr) : Nat :=
  match a.med with
  | some med => med
  | none => if c.medMissingAsWorst then bgpMedMax else 0

def pref (i : Info) : Nat := i.attr.localPref.getD c.defaultLocalPref

def pathLength (p : AsPath) : Nat :=
  if c.aspathConfed then aspathCountHops p + aspathCountConfeds p else aspathCountHops p

/-- Whether step 6 compares the MEDs. -/
def medCompared (p q : AsPath) : Bool :=
  c.alwaysCompareMed ||
    (c.medConfed && (0 < aspathCountConfeds p && 0 < aspathCountConfeds q &&
      aspathCountHops p = 0 && aspathCountHops q = 0)) ||
    aspathCmpLeft p q || aspathCmpLeftConfed p q ||
    (aspathCountHops p = 0 && aspathCountHops q = 0)

def peerSort (i : Info) : PeerSort := (c.peer i.peer).sort

def routerId (i : Info) : Nat := i.attr.originatorId.getD (c.peer i.peer).remoteId

def clusterLength (i : Info) : Nat := i.attr.cluster.getD 0

/-- Step 13: the addresses of the neighbours. -/
def neighbourCmp (new exist : Info) : Int :=
  if exist.stale then -1
  else if new.stale then 1
  else
    match (c.peer new.peer).suRemote, (c.peer exist.peer).suRemote with
    | none, _ => 1
    | some _, none => -1
    | some x, some y => if sockunionCmp x y = 1 then 1 else -1

/-- Steps 10 to 13. -/
def tieBreak (new exist : Info) : Int :=
  if ¬ c.compareRouterId ∧ peerSort c new = .ebgp ∧ peerSort c exist = .ebgp ∧ new.selected then -1
  else if ¬ c.compareRouterId ∧ peerSort c new = .ebgp ∧ peerSort c exist = .ebgp ∧
    exist.selected then 1
  else
    prefer (routerId c new) (routerId c exist) <|
      prefer (clusterLength new) (clusterLength exist) (neighbourCmp c new exist)

/-- Step 9: paths that multipath takes as equal. -/
def mpathEqual (new exist : Info) : Bool :=
  c.mpathIsConfigured &&
    if c.multipathRelax then true
    else if peerSort c new = .ibgp then new.attr.aspath = exist.attr.aspath
    else (c.peer new.peer).as = (c.peer exist.peer).as

/-- Steps 7 to 13. -/
def peerCmp (new exist : Info) : Int :=
  if peerSort c new = .ebgp ∧ (peerSort c exist = .ibgp ∨ peerSort c exist = .confed) then -1
  else if peerSort c exist = .ebgp ∧ (peerSort c new = .ibgp ∨ peerSort c new = .confed) then 1
  else
    prefer new.igpmetric exist.igpmetric <|
      if mpathEqual c new exist then 0 else tieBreak c new exist

def bgpInfoCmp (new exist : Info) : Int :=
  prefer exist.attr.weight new.attr.weight <|
    prefer (pref c exist) (pref c new) <|
      if new.subType ≠ .normal then -1
      else if exist.subType ≠ .normal then 1
      else
        (if ¬ c.aspathIgnore then
          prefer (pathLength c new.attr.aspath) (pathLength c exist.attr.aspath)
        else id) <|
        prefer new.attr.origin exist.attr.origin <|
          (if medCompared c new.attr.aspath exist.attr.aspath then
            prefer (bgpMedValue c new.attr) (bgpMedValue c exist.attr)
          else id) <| peerCmp c new exist

end Compare

/-! ## As an order of values -/

/-- The address as a list of values. -/
def SockUnion.values : SockUnion → List Int
  | .inet addr => [2, addr]
  | .inet6 addr => 10 :: (List.ofFn addr).map (↑)

theorem in6addrCmp_verdict : ∀ {xs ys : List Nat}, xs.length = ys.length → xs ≠ ys →
    Verdict (if in6addrCmp xs ys = 1 then 1 else -1) (xs.map (↑)) (ys.map (↑))
  | [], [], _, hne => absurd rfl hne
  | x :: xs, y :: ys, hlen, hne => by
      rw [in6addrCmp, List.map_cons, List.map_cons]
      by_cases hgt : y < x
      · rw [if_pos hgt, if_pos rfl]
        exact verdict_of_gt (by omega)
      · rw [if_neg hgt]
        by_cases hlt : x < y
        · rw [if_pos hlt, if_neg (by decide)]
          exact verdict_of_lt (by omega)
        · have heq : x = y := by omega
          subst heq
          rw [if_neg hlt]
          have htail : xs ≠ ys := fun h => hne (by rw [h])
          exact (in6addrCmp_verdict (by simpa using hlen) htail).skip rfl

theorem sockunionCmp_verdict {x y : SockUnion} (hne : x.values ≠ y.values) :
    Verdict (if sockunionCmp x y = 1 then 1 else -1) x.values y.values := by
  cases x with
  | inet a =>
      cases y with
      | inet b =>
          have hab : a ≠ b := fun h => hne (by rw [h])
          rw [sockunionCmp, if_neg hab]
          refine Verdict.skip ?_ rfl
          by_cases hgt : b < a
          · rw [if_pos hgt, if_pos rfl]
            exact verdict_of_gt (by omega)
          · rw [if_neg hgt, if_neg (by decide)]
            exact verdict_of_lt (by omega)
      | inet6 b => exact verdict_of_lt (by decide)
  | inet6 a =>
      cases y with
      | inet b => exact verdict_of_gt (by decide)
      | inet6 b =>
          refine (in6addrCmp_verdict (by simp) fun h => hne ?_).skip rfl
          rw [SockUnion.values, SockUnion.values, h]

section Key

variable (c : Config)

/-- Two paths that the comparison tells apart whichever is new. -/
structure Apart (new exist : Info) : Prop where
  sorts : ∀ i ∈ [new, exist], i.subType = .normal → peerSort c i ≠ .internal
  oneNormal : new.subType = .normal ∨ exist.subType = .normal
  selected : ¬ (new.selected ∧ exist.selected)
  stale : ¬ (new.stale ∧ exist.stale)
  remote : new.subType = .normal → exist.subType = .normal →
    ∃ x y, (c.peer new.peer).suRemote = some x ∧ (c.peer exist.peer).suRemote = some y ∧
      x.values ≠ y.values

/-- The values that steps 10 to 13 compare. -/
def tieKey (i : Info) : List Int :=
  (if ¬ c.compareRouterId ∧ peerSort c i = .ebgp ∧ i.selected then 0 else 1) ::
    (routerId c i : Int) :: (clusterLength i : Int) :: (if i.stale then 1 else 0) ::
      ((c.peer i.peer).suRemote.map SockUnion.values).getD []

/-- The values that the steps compare, with the MED or without. -/
def key (med : Bool) (i : Info) : List Int :=
  -(i.attr.weight : Int) :: -(pref c i : Int) :: (if i.subType = .normal then 1 else 0) ::
    (if ¬ c.aspathIgnore then (pathLength c i.attr.aspath : Int) else 0) :: (i.attr.origin : Int) ::
      (if med then (bgpMedValue c i.attr : Int) else 0) ::
        (if peerSort c i = .ebgp then 0 else 1) :: (i.igpmetric : Int) :: tieKey c i

variable {c} {new exist : Info}

theorem neighbourCmp_verdict (h : Apart c new exist) (hnew : new.subType = .normal)
    (hexist : exist.subType = .normal) :
    Verdict (neighbourCmp c new exist)
      ((if new.stale then 1 else 0) :: ((c.peer new.peer).suRemote.map SockUnion.values).getD [])
      ((if exist.stale then 1 else 0) ::
        ((c.peer exist.peer).suRemote.map SockUnion.values).getD []) := by
  obtain ⟨x, y, hx, hy, hne⟩ := h.remote hnew hexist
  rw [neighbourCmp]
  by_cases hstale : exist.stale = true
  · have hfresh : ¬ new.stale = true := fun hs => h.stale ⟨hs, hstale⟩
    rw [if_pos hstale, if_pos hstale, if_neg hfresh]
    exact verdict_of_lt (by decide)
  · rw [if_neg hstale, if_neg hstale]
    by_cases hstale' : new.stale = true
    · rw [if_pos hstale', if_pos hstale']
      exact verdict_of_gt (by decide)
    · rw [if_neg hstale', if_neg hstale', hx, hy]
      exact (sockunionCmp_verdict hne).skip rfl

theorem tieBreak_verdict (h : Apart c new exist) (hnew : new.subType = .normal)
    (hexist : exist.subType = .normal)
    (hsort : peerSort c new = .ebgp ↔ peerSort c exist = .ebgp) :
    Verdict (tieBreak c new exist) (tieKey c new) (tieKey c exist) := by
  have hleft : (¬ c.compareRouterId ∧ peerSort c new = .ebgp ∧ peerSort c exist = .ebgp ∧
      new.selected) ↔ (¬ c.compareRouterId ∧ peerSort c new = .ebgp ∧ new.selected) := by
    simp only [← hsort, and_self_left]
  have hright : (¬ c.compareRouterId ∧ peerSort c new = .ebgp ∧ peerSort c exist = .ebgp ∧
      exist.selected) ↔ (¬ c.compareRouterId ∧ peerSort c exist = .ebgp ∧ exist.selected) := by
    simp only [hsort, and_self_left]
  rw [tieBreak, if_congr hleft rfl rfl, if_congr hright rfl rfl]
  exact (((neighbourCmp_verdict h hnew hexist).prefer _ _).prefer _ _).flag fun hboth =>
    h.selected ⟨hboth.1.2.2, hboth.2.2.2⟩

theorem peerCmp_verdict (hmpath : c.mpathIsConfigured = false) (h : Apart c new exist)
    (hnew : new.subType = .normal) (hexist : exist.subType = .normal) :
    Verdict (peerCmp c new exist)
      ((if peerSort c new = .ebgp then 0 else 1) :: (new.igpmetric : Int) :: tieKey c new)
      ((if peerSort c exist = .ebgp then 0 else 1) :: (exist.igpmetric : Int) ::
        tieKey c exist) := by
  have hother : ∀ i ∈ [new, exist], i.subType = .normal →
      ((peerSort c i = .ibgp ∨ peerSort c i = .confed) ↔ ¬ peerSort c i = .ebgp) := by
    intro i hi hnormal
    have hsort := h.sorts i hi hnormal
    cases hi' : peerSort c i <;> simp_all
  have hnew' := hother new (by simp) hnew
  have hexist' := hother exist (by simp) hexist
  rw [peerCmp, mpathEqual, hmpath, Bool.false_and]
  by_cases hleft : peerSort c new = .ebgp
  · by_cases hright : peerSort c exist = .ebgp
    · rw [if_neg fun hc => (hexist'.mp hc.2) hright, if_neg fun hc => (hnew'.mp hc.2) hleft,
        if_pos hleft, if_pos hright, if_neg Bool.false_ne_true]
      exact ((tieBreak_verdict h hnew hexist (iff_of_true hleft hright)).prefer _ _).skip rfl
    · rw [if_pos ⟨hleft, hexist'.mpr hright⟩, if_pos hleft, if_neg hright]
      exact verdict_of_lt (by decide)
  · by_cases hright : peerSort c exist = .ebgp
    · rw [if_neg fun hc => hleft hc.1, if_pos ⟨hright, hnew'.mpr hleft⟩, if_neg hleft,
        if_pos hright]
      exact verdict_of_gt (by decide)
    · rw [if_neg fun hc => hleft hc.1, if_neg fun hc => hright hc.1, if_neg hleft, if_neg hright,
        if_neg Bool.false_ne_true]
      exact ((tieBreak_verdict h hnew hexist (iff_of_false hleft hright)).prefer _ _).skip rfl

/-- **`bgp_info_cmp`** is the lexicographic order of the values. -/
theorem bgpInfoCmp_verdict (hmpath : c.mpathIsConfigured = false) (h : Apart c new exist) :
    Verdict (bgpInfoCmp c new exist)
      (key c (medCompared c new.attr.aspath exist.attr.aspath) new)
      (key c (medCompared c new.attr.aspath exist.attr.aspath) exist) := by
  rw [bgpInfoCmp, key, key]
  refine Verdict.preferLarge (Verdict.preferLarge ?_ _ _) _ _
  by_cases hnew : new.subType = .normal
  · by_cases hexist : exist.subType = .normal
    · rw [if_neg (not_not.mpr hnew), if_neg (not_not.mpr hexist), if_pos hnew, if_pos hexist]
      have hpeer := peerCmp_verdict hmpath h hnew hexist
      exact (((hpeer.preferIf _ _ _).prefer _ _).preferIf _ _ _).skip rfl
    · rw [if_neg (not_not.mpr hnew), if_pos hexist, if_pos hnew, if_neg hexist]
      exact verdict_of_gt (by decide)
  · have hexist := h.oneNormal.resolve_left hnew
    rw [if_pos hnew, if_neg hnew, if_pos hexist]
    exact verdict_of_lt (by decide)

theorem key_ne (h : Apart c new exist) (med : Bool) : key c med new ≠ key c med exist := by
  intro heq
  simp only [key, tieKey, List.cons.injEq] at heq
  obtain ⟨-, -, hnormal, -, -, -, -, -, -, -, -, -, hremote⟩ := heq
  have hboth : new.subType = .normal ∧ exist.subType = .normal := by
    rcases h.oneNormal with hnew | hexist
    · exact ⟨hnew, by_contra fun hno => by simp [hnew, hno] at hnormal⟩
    · exact ⟨by_contra fun hno => by simp [hexist, hno] at hnormal, hexist⟩
  obtain ⟨x, y, hx, hy, hne⟩ := h.remote hboth.1 hboth.2
  rw [hx, hy] at hremote
  exact hne hremote

/-- The new path is preferred. -/
def Prefers (c : Config) (new exist : Info) : Prop := bgpInfoCmp c new exist = -1

instance (c : Config) (new exist : Info) : Decidable (Prefers c new exist) :=
  inferInstanceAs (Decidable (_ = _))

theorem prefers_iff (hmpath : c.mpathIsConfigured = false) (h : Apart c new exist) :
    Prefers c new exist ↔ key c (medCompared c new.attr.aspath exist.attr.aspath) new <
      key c (medCompared c new.attr.aspath exist.attr.aspath) exist :=
  (bgpInfoCmp_verdict hmpath h).iff_lt (key_ne h _)

end Key

/-! ## The neighbouring AS -/

/-- The paths that deterministic-med compares first. -/
def sameNeighbour (p q : AsPath) : Bool := aspathCmpLeft p q || aspathCmpLeftConfed p q

def NoConfed (p : AsPath) : Prop := ∀ s ∈ p, s.isConfed = false

instance (p : AsPath) : Decidable (NoConfed p) := inferInstanceAs (Decidable (∀ s ∈ p, _))

/-- The AS that a path starts with. -/
def leftmost : AsPath → Option Nat
  | s :: _ => if s.type = .asSequence then some s.first else none
  | [] => none

theorem NoConfed.dropWhile {p : AsPath} (h : NoConfed p) : p.dropWhile Segment.isConfed = p := by
  cases p with
  | nil => rfl
  | cons s p => rw [List.dropWhile_cons, if_neg (by simp [h s (List.mem_cons_self ..)])]

theorem sameNeighbour_iff {p q : AsPath} (hp : NoConfed p) (hq : NoConfed q) :
    sameNeighbour p q = true ↔
      (p = [] ∧ q = []) ∨ ∃ a, leftmost p = some a ∧ leftmost q = some a := by
  rw [sameNeighbour, aspathCmpLeft, hp.dropWhile, hq.dropWhile]
  cases p with
  | nil =>
      cases q with
      | nil => simp
      | cons t q => simp [aspathCmpLeftConfed, leftmost]
  | cons s p =>
      cases q with
      | nil => simp [aspathCmpLeftConfed, leftmost]
      | cons t q =>
          have hs : ¬ s.type = .asConfedSequence := by
            have := hp s (List.mem_cons_self ..)
            simp only [Segment.isConfed, Bool.or_eq_false_iff, decide_eq_false_iff_not] at this
            exact this.1
          simp only [reduceCtorEq, false_and, if_false, aspathCmpLeftConfed, hs, decide_false,
            Bool.false_and, Bool.or_false, false_or, leftmost, Bool.and_eq_true,
            decide_eq_true_eq]
          by_cases hleft : s.type = .asSequence
          · by_cases hright : t.type = .asSequence
            · simp [hleft, hright, eq_comm]
            · simp [hright]
          · simp [hleft]

theorem sameNeighbour_symm {p q : AsPath} (hp : NoConfed p) (hq : NoConfed q)
    (h : sameNeighbour p q = true) : sameNeighbour q p = true := by
  rw [sameNeighbour_iff hq hp]
  rcases (sameNeighbour_iff hp hq).mp h with ⟨rfl, rfl⟩ | ⟨a, ha, hb⟩
  · exact Or.inl ⟨rfl, rfl⟩
  · exact Or.inr ⟨a, hb, ha⟩

theorem sameNeighbour_trans {p q r : AsPath} (hp : NoConfed p) (hq : NoConfed q) (hr : NoConfed r)
    (h : sameNeighbour p q = true) (h' : sameNeighbour q r = true) : sameNeighbour p r = true := by
  rw [sameNeighbour_iff hp hr]
  rcases (sameNeighbour_iff hp hq).mp h with ⟨rfl, rfl⟩ | ⟨a, ha, hb⟩
  · rcases (sameNeighbour_iff hq hr).mp h' with ⟨-, rfl⟩ | ⟨b, hb, -⟩
    · exact Or.inl ⟨rfl, rfl⟩
    · simp [leftmost] at hb
  · rcases (sameNeighbour_iff hq hr).mp h' with ⟨rfl, rfl⟩ | ⟨b, hb', hc⟩
    · simp [leftmost] at hb
    · rw [hb, Option.some.injEq] at hb'
      exact Or.inr ⟨a, ha, hb' ▸ hc⟩

theorem NoConfed.countConfeds {p : AsPath} (h : NoConfed p) : aspathCountConfeds p = 0 := by
  induction p with
  | nil => rfl
  | cons s p ih =>
      have hconf := h s (List.mem_cons_self ..)
      have hrest := ih fun t ht => h t (List.mem_cons_of_mem s ht)
      rw [aspathCountConfeds] at hrest ⊢
      rw [List.map_cons, List.sum_cons, hrest]
      cases htype : s.type <;> simp_all [Segment.confeds, Segment.isConfed]

theorem NoConfed.countHops {p : AsPath} (h : NoConfed p) (hzero : aspathCountHops p = 0) :
    p = [] := by
  cases p with
  | nil => rfl
  | cons s p =>
      have hconf := h s (List.mem_cons_self ..)
      rw [aspathCountHops, List.map_cons, List.sum_cons] at hzero
      cases htype : s.type <;>
        simp_all [Segment.hops, Segment.isConfed, Segment.length]

/-- Without confederations, MEDs count for paths over the same neighbour. -/
theorem medCompared_eq {c : Config} {p q : AsPath} (hp : NoConfed p) (hq : NoConfed q) :
    medCompared c p q = (c.alwaysCompareMed || sameNeighbour p q) := by
  have hempty : (aspathCountHops p = 0 && aspathCountHops q = 0) = true →
      sameNeighbour p q = true := by
    simp only [Bool.and_eq_true, decide_eq_true_eq]
    rintro ⟨hp0, hq0⟩
    exact (sameNeighbour_iff hp hq).mpr (Or.inl ⟨hp.countHops hp0, hq.countHops hq0⟩)
  simp only [medCompared, hp.countConfeds, Nat.lt_irrefl, decide_false, Bool.false_and,
    Bool.and_false, Bool.or_false]
  rw [Bool.or_assoc _ (aspathCmpLeft p q), ← sameNeighbour, Bool.or_assoc]
  congr 1
  cases hsame : sameNeighbour p q with
  | true => rfl
  | false =>
      rw [hsame] at hempty
      rw [Bool.false_or, Bool.eq_false_iff]
      exact fun h => absurd (hempty h) Bool.false_ne_true

end Bgp

end NetSystem
