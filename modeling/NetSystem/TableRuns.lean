import Mathlib.Data.List.Perm.Subperm
import NetSystem.Run
import NetSystem.TableIter

/-!
# Runs of the routing table

The table of `lib/table.c` with its users and an iterator: nodes are got,
looked up, given back and filled in any order, and between any two of these
the iterator may go on, pause or stop.

The state has, next to the table and the iterator, what the users know: the
references they hold (`held`), what they have stored (`stored`) and what the
iterator has returned since it was set up (`out`). `Holds` says what the
table has to do with it: the nodes' reference counts are the references, and
`info` is what was stored. `Contract` is what the users have to keep to: use
a node only while they hold a reference, and do not give the last one back
while something is stored there.

`table_runs` is the result on the table, `iteration_runs` that on the
iterator.
-/

namespace NetSystem

namespace RouteTable

open Node

variable {V : Type*}

/-! ## The table -/

structure Table (V : Type*) where
  top : Node V
  count : Nat

namespace Table

def init : Table V := ⟨null, 0⟩

def routeNodeGet (p : Prefix) (t : Table V) : Table V :=
  let (top, count) := Node.routeNodeGet p t.top
  ⟨top, t.count + count⟩

/-- `route_lock_node`; `none` if `k` is not a node. -/
def routeLockNode (k : Key) (t : Table V) : Option (Table V) :=
  if k ∈ t.top.keys then some { t with top := t.top.modify (fun lock info => (lock + 1, info)) k }
  else none

def routeUnlockNode (k : Key) (t : Table V) : Option (Table V) :=
  (Node.routeUnlockNode k t.top).map fun r => ⟨r.top, t.count - r.count⟩

/-- `node->info = info` -/
def setInfo (k : Key) (info : Option V) (t : Table V) : Option (Table V) :=
  if k ∈ t.top.keys then some { t with top := t.top.modify (fun lock _ => (lock, info)) k }
  else none

end Table

/-- `node->p` -/
def Node.prefixAt (k : Key) : Node V → Option Prefix
  | null => none
  | node p _ _ link => if p.bits = k then some p else prefixAt k (link (wayTo k p))

/-! ## The iterator -/

/-- `route_table_iter_t`: the state, with `current` or `pause_prefix`. -/
inductive Iter where
  | init
  | iterating (current : Key)
  | paused (pausePrefix : Prefix)
  | done

namespace Iter

/-- `route_table_get_next`, with its assertion. -/
def getNext (p : Prefix) (t : Table V) : Option (Option Key × Table V) :=
  (getNextInternal p t.top []).bind fun
    | none => some (none, t)
    | some k =>
        (t.top.prefixAt k).bind fun q => (iterCmp q p).bind fun cmp =>
          if cmp > 0 then (t.routeLockNode k).map fun t => (some k, t) else none

/-- `route_next`: lock the next node, then unlock this one. -/
def next (current : Key) (t : Table V) : Option (Option Key × Table V) :=
  (nextOf current t.top []).bind fun
    | none => (t.routeUnlockNode current).map fun t => (none, t)
    | some k =>
        (t.routeLockNode k).bind fun t => (t.routeUnlockNode current).map fun t => (some k, t)

/-- `route_top` -/
def top (t : Table V) : Option (Option Key × Table V) :=
  match t.top.key? with
  | none => some (none, t)
  | some k => (t.routeLockNode k).map fun t => (some k, t)

/-- The iterator is at the node that was found, or done. -/
def arrive : Option Key × Table V → Option Key × Table V × Iter
  | (found, t) => (found, t, found.elim .done .iterating)

/-- `route_table_iter_next`: the node, the table and the iterator. -/
def iterNext (t : Table V) : Iter → Option (Option Key × Table V × Iter)
  | .init => (top t).map arrive
  | .iterating current => (next current t).map arrive
  | .paused p => (getNext p t).map arrive
  | .done => some (none, t, .done)

/-- `route_table_iter_pause` -/
def iterPause (t : Table V) : Iter → Option (Table V × Iter)
  | .iterating current =>
      (t.top.prefixAt current).bind fun p =>
        (t.routeUnlockNode current).map fun t => (t, .paused p)
  | iter => some (t, iter)

/-- `route_table_iter_cleanup` -/
def iterCleanup (t : Table V) : Iter → Option (Table V × Iter)
  | .iterating current => (t.routeUnlockNode current).map fun t => (t, .done)
  | _ => some (t, .done)

/-- `route_table_iter_is_done` -/
def isDone : Iter → Bool
  | .done => true
  | _ => false

/-- The iterator holds a reference to the node it is at. -/
def held : Iter → List Key
  | .iterating current => [current]
  | _ => []

/-- How many references to `k`. -/
def refs (k : Key) : Iter → Nat
  | .iterating current => if current = k then 1 else 0
  | _ => 0

end Iter

/-! ## Runs -/

structure State (V : Type*) where
  table : Table V
  iter : Iter
  held : List Key
  stored : Key → Option V
  out : List Key

def State.init : State V := ⟨.init, .init, [], fun _ => none, []⟩

inductive Input (V : Type*) where
  | get (p : Prefix)
  | lookup (p : Prefix)
  | longest (p : Prefix)
  | lock (k : Key)
  | unlock (k : Key)
  | setInfo (k : Key) (info : Option V)
  | iterInit
  | iterNext
  | iterPause
  | iterCleanup

/-- A reference for the node that was found, if any. -/
def State.hold (s : State V) : Option Key → Option (State V)
  | none => some s
  | some k => (s.table.routeLockNode k).map fun t => { s with table := t, held := k :: s.held }

/-- `none` is a failed assertion or the use of a node that was freed. -/
def step (s : State V) : Input V → Option (State V)
  | .get p => some { s with table := s.table.routeNodeGet p, held := p.bits :: s.held }
  | .lookup p => s.hold (s.table.top.routeNodeLookup p)
  | .longest p => s.hold (s.table.top.routeNodeMatch p none)
  | .lock k => s.hold (some k)
  | .unlock k =>
      (s.table.routeUnlockNode k).map fun t => { s with table := t, held := s.held.erase k }
  | .setInfo k info =>
      (s.table.setInfo k info).map fun t =>
        { s with table := t, stored := Function.update s.stored k info }
  | .iterInit => some { s with iter := .init, out := [] }
  | .iterNext =>
      (s.iter.iterNext s.table).map fun (found, t, iter) =>
        { s with table := t, iter := iter, out := s.out ++ found.toList }
  | .iterPause =>
      (s.iter.iterPause s.table).map fun (t, iter) => { s with table := t, iter := iter }
  | .iterCleanup =>
      (s.iter.iterCleanup s.table).map fun (t, iter) => { s with table := t, iter := iter }

/-- What the users keep to. -/
def Contract (s : State V) : Input V → Prop
  | .lock k => k ∈ s.held
  | .unlock k => k ∈ s.held ∧ ((s.stored k).isSome → 2 ≤ s.held.count k)
  | .setInfo k _ => k ∈ s.held
  | .iterInit => s.iter.held = []
  | _ => True

instance (s : State V) : ∀ i, Decidable (Contract s i)
  | .lock k => inferInstanceAs (Decidable (k ∈ s.held))
  | .unlock k =>
      inferInstanceAs (Decidable (k ∈ s.held ∧ ((s.stored k).isSome → 2 ≤ s.held.count k)))
  | .setInfo k _ => inferInstanceAs (Decidable (k ∈ s.held))
  | .iterInit => inferInstanceAs (Decidable (s.iter.held = []))
  | .get _ | .lookup _ | .longest _ | .iterNext | .iterPause | .iterCleanup => isTrue trivial

/-! ## What the table holds -/

/-- The table holds these references and this information. -/
structure Holds (t : Table V) (refs : Key → Nat) (stored : Key → Option V) : Prop where
  sound : Sound [] t.top
  count : t.count = t.top.keys.length
  lockAt : ∀ k, lockAt k t.top = refs k
  infoAt : ∀ k, infoAt k t.top = stored k

theorem mem_keys_of_lockAt {k : Key} {t : Node V} (h : lockAt k t ≠ 0) : k ∈ t.keys := by
  induction t with
  | null => exact absurd rfl h
  | node p lock info link ih =>
      rw [Node.lockAt] at h
      by_cases hself : p.bits = k
      · simp [keys, hself]
      · rw [if_neg hself] at h
        rw [keys, List.mem_cons, List.mem_append]
        by_cases hleft : Node.lockAt k (link false) = 0
        · exact Or.inr (Or.inr (ih true (by omega)))
        · exact Or.inr (Or.inl (ih false hleft))

theorem prefixAt_spec {ctx k : Key} {t : Node V} (h : Sound ctx t) (hk : k ∈ t.keys) :
    ∃ q, t.prefixAt k = some q ∧ q.bits = k := by
  induction t generalizing ctx with
  | null => simp [keys] at hk
  | node p lock info link ih =>
      rw [Node.prefixAt]
      rcases place p k with hself | ⟨b, hbelow⟩ | hother
      · exact ⟨p, if_pos hself, hself⟩
      · rw [if_neg (not_prefix_of_extends hbelow), wayTo_eq hbelow]
        exact ih b (h.2.2 b) ((h.at_child hbelow).2.2.mp hk)
      · exact absurd hk (h.at_other hother).2.2

namespace Holds

variable {t : Table V} {refs : Key → Nat} {stored : Key → Option V} {k : Key}

theorem mem_keys (h : Holds t refs stored) (hk : refs k ≠ 0) : k ∈ t.top.keys :=
  mem_keys_of_lockAt (by rwa [h.lockAt])

theorem get (h : Holds t refs stored) {p : Prefix} {refs' : Key → Nat}
    (hrefs : ∀ k, refs' k = refs k + if p.bits = k then 1 else 0) :
    Holds (t.routeNodeGet p) refs' stored := by
  have hgot := routeNodeGet_spec (p := p) h.sound List.nil_prefix
  refine ⟨hgot.sound, ?_, fun k => ?_, fun k => ?_⟩
  · have hcount := hgot.count
    have hold := h.count
    simp only [Table.routeNodeGet]
    omega
  · exact (hgot.lockAt k).trans (by rw [h.lockAt, hrefs])
  · exact (hgot.infoAt k).trans (h.infoAt k)

theorem lock (h : Holds t refs stored) (refs' : Key → Nat) (hk : k ∈ t.top.keys)
    (hrefs : ∀ k', refs' k' = refs k' + if k = k' then 1 else 0) :
    ∃ t', t.routeLockNode k = some t' ∧ Holds t' refs' stored ∧ t'.top.keys = t.top.keys := by
  have hmod := modify_spec (f := fun lock info => (lock + 1, info)) h.sound hk (by simp)
  refine ⟨_, if_pos hk, ⟨hmod.sound, ?_, fun k' => ?_, fun k' => ?_⟩, hmod.keys⟩
  · rw [h.count, ← hmod.keys]
  · rw [hmod.lockAt, hrefs]
    by_cases heq : k' = k
    · rw [if_pos heq, if_pos heq.symm, heq, h.lockAt]
    · rw [if_neg heq, if_neg (Ne.symm heq), h.lockAt, Nat.add_zero]
  · rw [hmod.infoAt]
    by_cases heq : k' = k
    · rw [if_pos heq, heq, h.infoAt]
    · rw [if_neg heq, h.infoAt]

theorem unlock (h : Holds t refs stored) (refs' : Key → Nat)
    (hrefs : ∀ k', refs' k' + (if k = k' then 1 else 0) = refs k')
    (hlast : refs' k = 0 → stored k = none) :
    ∃ t', t.routeUnlockNode k = some t' ∧ Holds t' refs' stored := by
  have hk := hrefs k
  rw [if_pos rfl] at hk
  obtain ⟨r, hr, hrel⟩ := routeUnlockNode_spec (k := k) h.sound (by rw [h.lockAt]; omega)
    fun hone => by
      rw [h.infoAt]
      rw [h.lockAt] at hone
      exact hlast (by omega)
  refine ⟨⟨r.top, t.count - r.count⟩, by rw [Table.routeUnlockNode, hr, Option.map_some],
    ⟨hrel.sound, ?_, fun k' => ?_, fun k' => ?_⟩⟩
  · have hcount := hrel.count
    have hold := h.count
    dsimp only
    omega
  · have hless := hrel.lockAt k'
    have hold := hrefs k'
    rw [h.lockAt] at hless
    dsimp only
    omega
  · rw [hrel.infoAt, h.infoAt]

theorem setInfo (h : Holds t refs stored) (hk : refs k ≠ 0) (info : Option V) :
    ∃ t', t.setInfo k info = some t' ∧ Holds t' refs (Function.update stored k info) ∧
      t'.top.keys = t.top.keys := by
  have hmem := h.mem_keys hk
  have hmod := modify_spec (f := fun lock _ => (lock, info)) h.sound hmem
    (by rw [h.lockAt]; exact hk)
  refine ⟨_, if_pos hmem, ⟨hmod.sound, ?_, fun k' => ?_, fun k' => ?_⟩, hmod.keys⟩
  · rw [h.count, ← hmod.keys]
  · rw [hmod.lockAt]
    by_cases heq : k' = k
    · rw [if_pos heq, heq, h.lockAt]
    · rw [if_neg heq, h.lockAt]
  · rw [hmod.infoAt]
    by_cases heq : k' = k
    · rw [if_pos heq, heq, Function.update_self]
    · rw [if_neg heq, Function.update_of_ne heq, h.infoAt]

end Holds

/-! ## Steps -/

structure Inv (s : State V) : Prop where
  holds : Holds s.table (fun k => s.held.count k + s.iter.refs k) s.stored
  kept : ∀ k, (s.stored k).isSome → k ∈ s.held

/-- Without a reference nothing is stored. -/
theorem Inv.stored_none {s : State V} (h : Inv s) {k : Key} (hk : s.held.count k = 0) :
    s.stored k = none := by
  by_contra hsome
  have hmem := h.kept k (Option.isSome_iff_ne_none.mpr hsome)
  exact absurd hk (List.count_pos_iff.mpr hmem).ne'

theorem mem_of_firstAbove {k x : Key} {l : List Key} (h : firstAbove k l = some x) :
    x ∈ l ∧ k < x :=
  ⟨List.mem_of_find?_eq_some h, by simpa using List.find?_some h⟩

namespace Iter

/-- The node the iterator is to go to. -/
def expected (l : List Key) : Iter → Option Key
  | .init => l.head?
  | .iterating current => firstAbove current l
  | .paused p => firstAbove p.bits l
  | .done => none

/-- Where it is then. -/
def at? (found : Option Key) : Iter := found.elim .done .iterating

end Iter

section IterNext

variable {s : State V}

/-- Locking the node that was found, for an iterator that is not at one. -/
theorem Inv.arrive (h : Inv s) (hiter : ∀ k, s.iter.refs k = 0) {k : Key}
    (hk : k ∈ s.table.top.keys) : ∃ t', s.table.routeLockNode k = some t' ∧
      Holds t' (fun k' => s.held.count k' + (Iter.at? (some k)).refs k') s.stored := by
  obtain ⟨t', ht', hholds, -⟩ := h.holds.lock
    (fun k' => s.held.count k' + (Iter.at? (some k)).refs k') hk fun k' => by
      simp only [hiter, Nat.add_zero]
      rfl
  exact ⟨t', ht', hholds⟩

theorem Inv.top (h : Inv s) (hiter : s.iter = .init) :
    ∃ t', Iter.top s.table = some (s.table.top.keys.head?, t') ∧
      Holds t' (fun k => s.held.count k + (Iter.at? s.table.top.keys.head?).refs k) s.stored := by
  rw [Iter.top, head?_keys]
  cases hkey : s.table.top.key? with
  | none =>
      refine ⟨s.table, rfl, ?_⟩
      simpa [hiter, Iter.refs, Iter.at?] using h.holds
  | some k =>
      have hmem : k ∈ s.table.top.keys := List.mem_of_head? (by rw [head?_keys, hkey])
      obtain ⟨t', ht', hholds⟩ := h.arrive (by simp [hiter, Iter.refs]) hmem
      exact ⟨t', by simp [ht'], hholds⟩

/-- The iterator gives its node back. -/
theorem Inv.leave (h : Inv s) {current : Key} {t : Table V} (refs : Key → Nat)
    (ht : Holds t (fun k => s.held.count k + refs k + if current = k then 1 else 0) s.stored) :
    ∃ t', t.routeUnlockNode current = some t' ∧
      Holds t' (fun k => s.held.count k + refs k) s.stored := by
  refine ht.unlock _ (fun k' => rfl) fun hzero => h.stored_none ?_
  omega

theorem Inv.next (h : Inv s) {current : Key} (hiter : s.iter = .iterating current) :
    ∃ t', Iter.next current s.table = some (firstAbove current s.table.top.keys, t') ∧
      Holds t' (fun k => s.held.count k +
        (Iter.at? (firstAbove current s.table.top.keys)).refs k) s.stored := by
  have hholds : Holds s.table (fun k => s.held.count k + if current = k then 1 else 0)
      s.stored := by
    simpa [hiter, Iter.refs] using h.holds
  have hmem : current ∈ s.table.top.keys := hholds.mem_keys (by simp)
  have hnext := nextOf_spec [] hholds.sound hmem (by simp [after])
  rw [after, List.flatMap_nil, List.append_nil] at hnext
  rw [Iter.next, hnext, Option.bind_some]
  cases hfound : firstAbove current s.table.top.keys with
  | none =>
      obtain ⟨t', ht', hleft⟩ := h.leave (fun _ => 0) hholds
      exact ⟨t', by simp [ht'], hleft⟩
  | some k =>
      obtain ⟨t₁, ht₁, hholds₁, -⟩ := hholds.lock (fun k' =>
        s.held.count k' + (Iter.at? (some k)).refs k' + if current = k' then 1 else 0)
        (mem_of_firstAbove hfound).1 fun k' => by
          simp only [Iter.at?, Option.elim_some, Iter.refs]
          omega
      obtain ⟨t', ht', hleft⟩ := h.leave _ hholds₁
      exact ⟨t', by simp [ht₁, ht'], hleft⟩

theorem Inv.getNext (h : Inv s) {p : Prefix} (hiter : s.iter = .paused p) :
    ∃ t', Iter.getNext p s.table = some (firstAbove p.bits s.table.top.keys, t') ∧
      Holds t' (fun k => s.held.count k +
        (Iter.at? (firstAbove p.bits s.table.top.keys)).refs k) s.stored := by
  have hnext := getNextInternal_spec (p := p) [] h.holds.sound (by simp [after]) (Or.inr rfl)
  rw [after, List.flatMap_nil, List.append_nil] at hnext
  rw [Iter.getNext, hnext, Option.bind_some]
  cases hfound : firstAbove p.bits s.table.top.keys with
  | none =>
      refine ⟨s.table, rfl, ?_⟩
      simpa [hiter, Iter.refs, Iter.at?] using h.holds
  | some k =>
      obtain ⟨hmem, hlt⟩ := mem_of_firstAbove hfound
      obtain ⟨q, hq, hbits⟩ := prefixAt_spec h.holds.sound hmem
      obtain ⟨t', ht', hholds⟩ := h.arrive (by simp [hiter, Iter.refs]) hmem
      have hcmp : iterCmp q p = some 1 := by
        rw [iterCmp_eq, hbits, if_neg hlt.ne', if_neg hlt.not_gt]
      exact ⟨t', by simp [hq, hcmp, ht'], hholds⟩

/-- **`route_table_iter_next`** -/
theorem Inv.iterNext (h : Inv s) :
    ∃ t', s.iter.iterNext s.table = some (s.iter.expected s.table.top.keys, t',
        Iter.at? (s.iter.expected s.table.top.keys)) ∧
      Holds t' (fun k => s.held.count k +
        (Iter.at? (s.iter.expected s.table.top.keys)).refs k) s.stored := by
  cases hiter : s.iter with
  | init =>
      obtain ⟨t', ht', hholds⟩ := h.top hiter
      exact ⟨t', by rw [Iter.iterNext, ht']; rfl, hholds⟩
  | iterating current =>
      obtain ⟨t', ht', hholds⟩ := h.next hiter
      exact ⟨t', by rw [Iter.iterNext, ht']; rfl, hholds⟩
  | paused p =>
      obtain ⟨t', ht', hholds⟩ := h.getNext hiter
      exact ⟨t', by rw [Iter.iterNext, ht']; rfl, hholds⟩
  | done =>
      refine ⟨s.table, rfl, ?_⟩
      simpa [hiter, Iter.refs, Iter.at?, Iter.expected] using h.holds

end IterNext

/-- A reference for a node that was found. -/
theorem Inv.hold {s : State V} (h : Inv s) (found : Option Key)
    (hfound : ∀ k, found = some k → k ∈ s.table.top.keys) :
    ∃ s', s.hold found = some s' ∧ Inv s' ∧ s'.iter = s.iter ∧ s'.out = s.out := by
  cases found with
  | none => exact ⟨s, rfl, h, rfl, rfl⟩
  | some k =>
      obtain ⟨t', ht', hholds, -⟩ := h.holds.lock
        (fun k' => (k :: s.held).count k' + s.iter.refs k') (hfound k rfl) fun k' => by
          rw [List.count_cons]
          simp only [beq_iff_eq]
          omega
      refine ⟨{ s with table := t', held := k :: s.held }, by rw [State.hold, ht', Option.map_some],
        ⟨hholds, fun k' hk' => List.mem_cons_of_mem k (h.kept k' hk')⟩, rfl, rfl⟩

/-- What has `info` is a node. -/
theorem Inv.mem_keys {s : State V} (h : Inv s) {k : Key} (hk : (infoAt k s.table.top).isSome) :
    k ∈ s.table.top.keys := by
  rw [h.holds.infoAt] at hk
  refine h.holds.mem_keys ?_
  have := List.count_pos_iff.mpr (h.kept k hk)
  omega

theorem Inv.longest_mem {s : State V} (h : Inv s) {p : Prefix} {k : Key}
    (hk : s.table.top.routeNodeMatch p none = some k) : k ∈ s.table.top.keys := by
  rcases routeNodeMatch_spec (p := p) h.holds.sound none with ⟨k', hk', hlong⟩ | ⟨hnone, -⟩
  · rw [hk, Option.some.injEq] at hk'
    exact h.mem_keys (hk' ▸ hlong.hasInfo)
  · rw [hk] at hnone
    cases hnone

theorem Inv.lookup_mem {s : State V} (h : Inv s) {p : Prefix} {k : Key}
    (hk : s.table.top.routeNodeLookup p = some k) : k ∈ s.table.top.keys := by
  rw [routeNodeLookup_eq h.holds.sound] at hk
  split at hk
  · rename_i hinfo
    rw [← Option.some.inj hk]
    exact h.mem_keys hinfo
  · cases hk

/-- The steps that are not the iterator's. -/
def Input.IsUser : Input V → Prop
  | .iterInit | .iterNext | .iterPause | .iterCleanup => False
  | _ => True

theorem step_user {s : State V} {i : Input V} (h : Inv s) (hi : Contract s i) (huser : i.IsUser) :
    ∃ s', step s i = some s' ∧ Inv s' ∧ s'.iter = s.iter ∧ s'.out = s.out := by
  cases i with
  | get p =>
      refine ⟨_, rfl, ⟨h.holds.get fun k => ?_, fun k hk => ?_⟩, rfl, rfl⟩
      · rw [List.count_cons]
        simp only [beq_iff_eq]
        omega
      · exact List.mem_cons_of_mem _ (h.kept k hk)
  | lookup p => exact h.hold _ fun k hk => h.lookup_mem hk
  | longest p => exact h.hold _ fun k hk => h.longest_mem hk
  | lock k =>
      refine h.hold (some k) fun k' hk' => ?_
      rw [← Option.some.inj hk']
      refine h.holds.mem_keys ?_
      have := List.count_pos_iff.mpr hi
      omega
  | unlock k =>
      obtain ⟨hmem, hstored⟩ := hi
      have hpos := List.count_pos_iff.mpr hmem
      have hcount : ∀ k', (s.held.erase k).count k' + (if k = k' then 1 else 0) =
          s.held.count k' := by
        intro k'
        by_cases heq : k = k'
        · subst heq
          rw [if_pos rfl, List.count_erase_self]
          omega
        · rw [if_neg heq, List.count_erase_of_ne (Ne.symm heq), Nat.add_zero]
      obtain ⟨t', ht', hholds⟩ := h.holds.unlock (k := k)
        (fun k' => (s.held.erase k).count k' + s.iter.refs k')
        (fun k' => by have := hcount k'; omega) fun hzero => by
          by_contra hsome
          have htwo := hstored (Option.isSome_iff_ne_none.mpr hsome)
          rw [List.count_erase_self] at hzero
          omega
      refine ⟨{ s with table := t', held := s.held.erase k },
        by rw [step, ht', Option.map_some], ⟨hholds, fun k' hk' => ?_⟩, rfl, rfl⟩
      by_cases heq : k' = k
      · subst heq
        refine List.count_pos_iff.mp ?_
        have htwo := hstored hk'
        rw [List.count_erase_self]
        omega
      · exact (List.mem_erase_of_ne heq).mpr (h.kept k' hk')
  | setInfo k info =>
      have hpos := List.count_pos_iff.mpr hi
      obtain ⟨t', ht', hholds, -⟩ := h.holds.setInfo (k := k) (by omega) info
      refine ⟨{ s with table := t', stored := Function.update s.stored k info },
        by rw [step, ht', Option.map_some], ⟨hholds, fun k' hk' => ?_⟩, rfl, rfl⟩
      by_cases heq : k' = k
      · exact heq ▸ hi
      · dsimp only at hk'
        rw [Function.update_of_ne heq] at hk'
        exact h.kept k' hk'
  | iterInit => cases huser
  | iterNext => cases huser
  | iterPause => cases huser
  | iterCleanup => cases huser

/-! ## Steps of the iterator -/

namespace Iter

/-- The prefixes that the iterator has not come to yet. -/
def Ahead (k : Key) : Iter → Prop
  | .init => True
  | .iterating current => current < k
  | .paused p => p.bits < k
  | .done => False

theorem ahead_of_expected {l : List Key} {iter : Iter} {k : Key} (h : iter.expected l = some k) :
    iter.Ahead k := by
  cases iter with
  | init => trivial
  | iterating current => exact (mem_of_firstAbove h).2
  | paused p => exact (mem_of_firstAbove h).2
  | done => cases h

theorem firstAbove_le {k x : Key} {l : List Key} (hl : l.Pairwise (· < ·)) (hx : x ∈ l)
    (hlt : k < x) : ∃ y, firstAbove k l = some y ∧ y ≤ x := by
  induction l with
  | nil => cases hx
  | cons z l ih =>
      rw [List.pairwise_cons] at hl
      by_cases hz : k < z
      · refine ⟨z, by simp [firstAbove, hz], ?_⟩
        rcases List.mem_cons.mp hx with rfl | hmem
        · exact le_rfl
        · exact (hl.1 x hmem).le
      · rcases List.mem_cons.mp hx with rfl | hmem
        · exact absurd hlt hz
        · obtain ⟨y, hy, hle⟩ := ih hl.2 hmem
          refine ⟨y, ?_, hle⟩
          rw [firstAbove, List.find?_cons_of_neg (by simpa using hz)]
          exact hy

/-- The iterator does not go past a node. -/
theorem expected_le {l : List Key} {iter : Iter} {k : Key} (hl : l.Pairwise (· < ·)) (hk : k ∈ l)
    (hahead : iter.Ahead k) : ∃ f, iter.expected l = some f ∧ f ≤ k := by
  cases iter with
  | init =>
      cases l with
      | nil => cases hk
      | cons z l =>
          refine ⟨z, rfl, ?_⟩
          rcases List.mem_cons.mp hk with rfl | hmem
          · exact le_rfl
          · exact ((List.pairwise_cons.mp hl).1 k hmem).le
  | iterating current => exact firstAbove_le hl hk hahead
  | paused p => exact firstAbove_le hl hk hahead
  | done => cases hahead

end Iter

section IterSteps

variable {s : State V}

theorem Inv.step_iterNext (h : Inv s) : ∃ t', step s .iterNext = some { s with
      table := t'
      iter := Iter.at? (s.iter.expected s.table.top.keys)
      out := s.out ++ (s.iter.expected s.table.top.keys).toList } ∧
    Holds t' (fun k => s.held.count k +
      (Iter.at? (s.iter.expected s.table.top.keys)).refs k) s.stored := by
  obtain ⟨t', ht', hholds⟩ := h.iterNext
  exact ⟨t', by rw [step, ht', Option.map_some], hholds⟩

/-- An iterator that is at no node. -/
theorem Inv.idle (h : Inv s) (hiter : s.iter.held = []) {iter : Iter}
    (hidle : ∀ k, iter.refs k = 0) :
    Holds s.table (fun k => s.held.count k + iter.refs k) s.stored := by
  have hrefs : ∀ k, s.iter.refs k = 0 := by
    intro k
    cases hcase : s.iter with
    | iterating current => simp [hcase, Iter.held] at hiter
    | _ => rfl
  have hholds := h.holds
  simp only [hrefs] at hholds
  simp only [hidle]
  exact hholds

/-- One that is at a node leaves it. -/
theorem Inv.unlock_current (h : Inv s) {current : Key} (hiter : s.iter = .iterating current) :
    ∃ t', s.table.routeUnlockNode current = some t' ∧
      Holds t' (fun k => s.held.count k + 0) s.stored := by
  refine h.leave (fun _ => 0) ?_
  simpa [hiter, Iter.refs] using h.holds

theorem Inv.step_iterPause (h : Inv s) : ∃ s', step s .iterPause = some s' ∧ Inv s' ∧
    s'.out = s.out ∧ ∀ k, s'.iter.Ahead k ↔ s.iter.Ahead k := by
  by_cases hiter : ∃ current, s.iter = .iterating current
  · obtain ⟨current, hiter⟩ := hiter
    have hmem : current ∈ s.table.top.keys := h.holds.mem_keys (by simp [hiter, Iter.refs])
    obtain ⟨q, hq, hbits⟩ := prefixAt_spec h.holds.sound hmem
    obtain ⟨t', ht', hleft⟩ := h.unlock_current hiter
    refine ⟨{ s with table := t', iter := .paused q }, ?_, ⟨hleft, h.kept⟩, rfl, fun k => ?_⟩
    · rw [step, hiter, Iter.iterPause, hq, Option.bind_some, ht']
      rfl
    · rw [hiter, Iter.Ahead, Iter.Ahead, hbits]
  · refine ⟨s, ?_, h, rfl, fun k => Iff.rfl⟩
    obtain ⟨table, iter, held, stored, out⟩ := s
    cases iter with
    | iterating current => exact absurd ⟨current, rfl⟩ hiter
    | _ => rfl

theorem Inv.step_iterCleanup (h : Inv s) : ∃ s', step s .iterCleanup = some s' ∧ Inv s' ∧
    s'.out = s.out ∧ s'.iter = .done := by
  by_cases hiter : ∃ current, s.iter = .iterating current
  · obtain ⟨current, hiter⟩ := hiter
    obtain ⟨t', ht', hleft⟩ := h.unlock_current hiter
    refine ⟨{ s with table := t', iter := .done }, ?_, ⟨hleft, h.kept⟩, rfl, rfl⟩
    rw [step, hiter, Iter.iterCleanup, ht']
    rfl
  · have hidle : s.iter.held = [] := by
      cases hcase : s.iter with
      | iterating current => exact absurd ⟨current, hcase⟩ hiter
      | _ => rfl
    refine ⟨{ s with iter := .done }, ?_, ⟨h.idle hidle fun _ => rfl, h.kept⟩, rfl, rfl⟩
    obtain ⟨table, iter, held, stored, out⟩ := s
    cases iter with
    | iterating current => cases hidle
    | _ => rfl

end IterSteps

/-- **The step lemma.** No assertion fails, and the invariant is kept. -/
theorem step_inv {s : State V} {i : Input V} (h : Inv s) (hi : Contract s i) :
    ∃ s', step s i = some s' ∧ Inv s' := by
  by_cases huser : i.IsUser
  · obtain ⟨s', hs', hinv, -⟩ := step_user h hi huser
    exact ⟨s', hs', hinv⟩
  · cases i with
    | iterInit => exact ⟨_, rfl, ⟨h.idle hi fun _ => rfl, h.kept⟩⟩
    | iterNext =>
        obtain ⟨t', ht', hholds⟩ := h.step_iterNext
        exact ⟨_, ht', ⟨hholds, h.kept⟩⟩
    | iterPause =>
        obtain ⟨s', hs', hinv, -⟩ := h.step_iterPause
        exact ⟨s', hs', hinv⟩
    | iterCleanup =>
        obtain ⟨s', hs', hinv, -⟩ := h.step_iterCleanup
        exact ⟨s', hs', hinv⟩
    | _ => exact absurd trivial huser

theorem inv_init : Inv (State.init : State V) :=
  ⟨⟨trivial, rfl, fun _ => rfl, fun _ => rfl⟩, fun _ hk => by cases hk⟩

/-! ## Size -/

/-- The nodes somebody holds a reference to. -/
def Node.locked : Node V → List Key
  | null => []
  | node p lock _ link =>
      (if lock = 0 then [] else [p.bits]) ++ (locked (link false) ++ locked (link true))

theorem locked_sublist (t : Node V) : t.locked.Sublist t.keys := by
  induction t with
  | null => exact .slnil
  | node p lock info link ih =>
      have hlinks := (ih false).append (ih true)
      rw [Node.locked, keys]
      split
      · exact hlinks.cons p.bits
      · exact hlinks.cons_cons p.bits

theorem lockAt_of_mem_locked {k : Key} {t : Node V} (h : k ∈ t.locked) : lockAt k t ≠ 0 := by
  induction t with
  | null => cases h
  | node p lock info link ih =>
      rw [Node.locked, List.mem_append, List.mem_append] at h
      rw [Node.lockAt]
      rcases h with hself | hleft | hright
      · split at hself
        · cases hself
        · rw [if_pos (List.mem_singleton.mp hself).symm]
          omega
      · have := ih false hleft
        omega
      · have := ih true hright
        omega

/-- There are fewer stubs than nodes with references. -/
theorem Node.Sound.length_keys_le {ctx : Key} {t : Node V} (h : Sound ctx t) :
    t.keys.length ≤ 2 * t.locked.length - 1 ∧ (t.isNull = false → t.locked ≠ []) := by
  induction t generalizing ctx with
  | null => exact ⟨le_rfl, by simp [isNull]⟩
  | node p lock info link ih =>
      obtain ⟨hleft, hleft'⟩ := ih false (h.2.2 false)
      obtain ⟨hright, hright'⟩ := ih true (h.2.2 true)
      simp only [← List.length_pos_iff_ne_nil] at hleft' hright' ⊢
      rw [keys, Node.locked]
      by_cases hlock : lock = 0
      · have hboth := (h.2.1 hlock).2
        have hpos₁ := hleft' (hboth false)
        have hpos₂ := hright' (hboth true)
        simp only [hlock, if_true, List.length_cons, List.length_append, List.length_nil]
        omega
      · simp only [hlock, if_false, List.length_cons, List.length_append, List.length_nil]
        omega

/-! ## The results -/

/-- `k` is the longest prefix of `target` that something is stored for. -/
structure Best (stored : Key → Option V) (target k : Key) : Prop where
  isPrefix : k <+: target
  isStored : (stored k).isSome
  longest : ∀ k', k' <+: target → (stored k').isSome → k' <+: k

/-- What the users can rely on. -/
structure Reliable (s : State V) : Prop where
  lookup : ∀ p, s.table.top.routeNodeLookup p =
    if (s.stored p.bits).isSome then some p.bits else none
  longest : ∀ p, (∃ k, s.table.top.routeNodeMatch p none = some k ∧ Best s.stored p.bits k) ∨
    (s.table.top.routeNodeMatch p none = none ∧ ∀ k, k <+: p.bits → s.stored k = none)
  present : ∀ k ∈ s.held, k ∈ s.table.top.keys
  sorted : s.table.top.keys.Pairwise (· < ·)
  count : s.table.count = s.table.top.keys.length
  size : s.table.count ≤ 2 * (s.held ++ s.iter.held).length - 1

theorem Inv.reliable {s : State V} (h : Inv s) : Reliable s := by
  have hsound := h.holds.sound
  refine ⟨fun p => ?_, fun p => ?_, fun k hk => h.holds.mem_keys ?_, hsound.sorted, h.holds.count,
    ?_⟩
  · rw [routeNodeLookup_eq hsound, h.holds.infoAt]
  · rcases routeNodeMatch_spec (p := p) hsound none with ⟨k, hk, hlong⟩ | ⟨hk, hnone⟩
    · refine Or.inl ⟨k, hk, hlong.isPrefix, ?_, fun k' hk' hsome => hlong.longest k' hk' ?_⟩
      · rw [← h.holds.infoAt]
        exact hlong.hasInfo
      · rw [h.holds.infoAt]
        exact hsome
    · refine Or.inr ⟨hk, fun k hpre => ?_⟩
      rw [← h.holds.infoAt]
      exact hnone k hpre
  · have := List.count_pos_iff.mpr hk
    omega
  · have hsub : s.table.top.locked ⊆ s.held ++ s.iter.held := by
      intro k hk
      have hrefs := lockAt_of_mem_locked hk
      rw [h.holds.lockAt] at hrefs
      rw [List.mem_append]
      by_cases hheld : k ∈ s.held
      · exact Or.inl hheld
      · right
        rw [List.count_eq_zero.mpr hheld] at hrefs
        cases hiter : s.iter with
        | iterating current =>
            rw [hiter, Iter.refs] at hrefs
            by_cases heq : current = k
            · simp [Iter.held, heq]
            · simp [heq] at hrefs
        | _ => simp [hiter, Iter.refs] at hrefs
    have hnodup : s.table.top.locked.Nodup :=
      (hsound.sorted.imp fun hlt => hlt.ne).sublist (locked_sublist _)
    have hlen := (List.subperm_of_subset hnodup hsub).length_le
    have hsize := hsound.length_keys_le.1
    rw [h.holds.count]
    omega

/-- **The routing table.** In every run in which the users keep to the
contract, with the iterator going on at any time: no assertion fails and no
freed node is used; and in every state `route_node_lookup` finds what is
stored for a prefix, `route_node_match` the longest prefix with something
stored, the nodes that users hold are there, no prefix is there twice, and
there are fewer than two nodes a reference. -/
theorem table_runs (is : List (Input V)) (h : EachStep step Contract State.init is) :
    (∃ t, run step State.init is = some t) ∧ Always step Reliable State.init is := by
  obtain ⟨t, ht, -⟩ := run_total_of_eachStep (fun s i => step_inv) inv_init h
  refine ⟨⟨t, ht⟩, ?_⟩
  have hinv : Always step Inv State.init is :=
    always_of_eachStep (fun s i s' hs hi hs' => of_exists_some (step_inv hs hi) hs') inv_init h
  intro js s hjs hs
  exact (hinv js s hjs hs).reliable

/-- The network `a.b.0.0` with a prefix length. -/
def network (a b : Byte) (prefixlen : Nat) : Prefix :=
  ⟨prefixlen, fun i => if i = 0 then a else if i = 1 then b else 0⟩

/-- Two networks, one in the other, and a third that is only there between
two steps of the iterator. -/
def twoNetworks : List (Input Nat) :=
  [.get (network 10 0 8), .setInfo (network 10 0 8).bits (some 1), .get (network 10 64 10),
    .setInfo (network 10 64 10).bits (some 2), .iterNext, .iterPause, .get (network 10 96 11),
    .iterNext, .unlock (network 10 96 11).bits, .longest (network 10 96 32), .iterNext]

theorem table_runs_twoNetworks : (∃ t, run step State.init twoNetworks = some t) ∧
    Always step Reliable State.init twoNetworks := table_runs twoNetworks (by decide +kernel)

/-- What was returned comes before what is ahead. -/
structure Ordered (s : State V) : Prop where
  sorted : s.out.Pairwise (· < ·)
  ahead : ∀ x ∈ s.out, ∀ y, s.iter.Ahead y → x < y

/-- `k` was returned or is ahead. -/
def Seen (k : Key) (s : State V) : Prop := k ∈ s.out ∨ s.iter.Ahead k

theorem Ordered.next {s : State V} (h : Ordered s) (t : Table V) (l : List Key) :
    Ordered { s with
      table := t
      iter := Iter.at? (s.iter.expected l)
      out := s.out ++ (s.iter.expected l).toList } := by
  cases hfound : s.iter.expected l with
  | none =>
      refine ⟨by simpa using h.sorted, fun x _ y hy => ?_⟩
      simp [Iter.at?, Iter.Ahead] at hy
  | some k =>
      have hlt : ∀ x ∈ s.out, x < k := fun x hx => h.ahead x hx k (Iter.ahead_of_expected hfound)
      refine ⟨?_, fun x hx y hy => ?_⟩
      · rw [Option.toList_some, List.pairwise_append]
        refine ⟨h.sorted, List.pairwise_singleton .., fun x hx y hy => ?_⟩
        rw [List.mem_singleton.mp hy]
        exact hlt x hx
      · have hky : k < y := hy
        rcases List.mem_append.mp hx with hx | hx
        · exact (hlt x hx).trans hky
        · rw [List.mem_singleton.mp hx]
          exact hky

theorem Seen.next {s : State V} {k : Key} (h : Seen k s) (t : Table V) {l : List Key}
    (hl : l.Pairwise (· < ·)) (hk : s.iter.isDone = false → k ∈ l) :
    Seen k { s with
      table := t
      iter := Iter.at? (s.iter.expected l)
      out := s.out ++ (s.iter.expected l).toList } := by
  rcases h with hout | hahead
  · exact Or.inl (List.mem_append_left _ hout)
  · have hdone : s.iter.isDone = false := by
      cases hiter : s.iter with
      | done =>
          rw [hiter] at hahead
          cases hahead
      | _ => rfl
    obtain ⟨f, hf, hle⟩ := Iter.expected_le hl (hk hdone) hahead
    rcases hle.eq_or_lt with rfl | hlt
    · exact Or.inl (List.mem_append_right _ (by simp [hf]))
    · right
      dsimp only
      rw [hf]
      exact hlt

/-- The iterator is not stopped early, and `k` is there whenever it is asked
for the next node. -/
def Visible (k : Key) (s : State V) : Input V → Prop
  | .iterCleanup => False
  | .iterNext => s.iter.isDone = false → k ∈ s.table.top.keys
  | _ => True

instance (k : Key) (s : State V) : ∀ i, Decidable (Visible k s i)
  | .iterCleanup => isFalse id
  | .iterNext => inferInstanceAs (Decidable (s.iter.isDone = false → k ∈ s.table.top.keys))
  | .get _ | .lookup _ | .longest _ | .lock _ | .unlock _ | .setInfo _ _ | .iterInit
  | .iterPause => isTrue trivial

theorem step_ordered {s s' : State V} {i : Input V} (hinv : Inv s) (hi : Contract s i)
    (h : Ordered s) (hs' : step s i = some s') :
    Ordered s' ∧ ∀ k, Visible k s i → Seen k s → Seen k s' := by
  by_cases huser : i.IsUser
  · obtain ⟨-, hiter, hout⟩ := of_exists_some (step_user hinv hi huser) hs'
    refine ⟨⟨hout ▸ h.sorted, ?_⟩, fun k _ hk => ?_⟩
    · rw [hout, hiter]
      exact h.ahead
    · rwa [Seen, hout, hiter]
  · cases i with
    | iterInit =>
        obtain rfl := Option.some.inj hs'
        exact ⟨⟨.nil, by simp⟩, fun k _ _ => Or.inr trivial⟩
    | iterNext =>
        obtain ⟨t, ht, -⟩ := hinv.step_iterNext
        obtain rfl := Option.some.inj (ht.symm.trans hs')
        exact ⟨h.next t _, fun k hk hseen =>
          hseen.next t hinv.holds.sound.sorted hk⟩
    | iterPause =>
        obtain ⟨-, hout, hahead⟩ := of_exists_some hinv.step_iterPause hs'
        refine ⟨⟨hout ▸ h.sorted, fun x hx y hy => ?_⟩, fun k _ hk => ?_⟩
        · exact h.ahead x (hout ▸ hx) y ((hahead y).mp hy)
        · rwa [Seen, hout, hahead]
    | iterCleanup =>
        obtain ⟨-, hout, hdone⟩ := of_exists_some hinv.step_iterCleanup hs'
        refine ⟨⟨hout ▸ h.sorted, fun x _ y hy => ?_⟩, fun k hk => absurd hk id⟩
        rw [hdone] at hy
        cases hy
    | _ => exact absurd trivial huser

/-- **Iteration while the table changes.** In every run in which the users
keep to the contract, pauses included: the iterator returns prefixes in
increasing order, so none twice; and if it was not stopped early, then once
it is done it has returned every prefix that was in the table whenever it
was asked for the next one. -/
theorem iteration_runs (is : List (Input V)) (h : EachStep step Contract State.init is) :
    Always step (fun s => s.out.Pairwise (· < ·)) State.init is ∧
      ∀ k, EachStep step (Visible k) State.init is →
        Always step (fun s => s.iter = .done → k ∈ s.out) State.init is := by
  have hordered : Ordered (State.init : State V) := ⟨.nil, by simp [State.init]⟩
  constructor
  · have hall : Always step (fun s => Inv s ∧ Ordered s) State.init is :=
      always_of_eachStep (fun s i s' hs hi hs' => ⟨of_exists_some (step_inv hs.1 hi) hs',
        (step_ordered hs.1 hi hs.2 hs').1⟩) ⟨inv_init, hordered⟩ h
    intro js s hjs hs
    exact (hall js s hjs hs).2.sorted
  · intro k hk
    have hall : Always step (fun s => Inv s ∧ Ordered s ∧ Seen k s) State.init is := by
      refine always_of_eachStep (C := fun s i => Contract s i ∧ Visible k s i)
        (fun s i s' hs hi hs' => ?_) ⟨inv_init, hordered, Or.inr trivial⟩
        fun js i s hjs hs => ⟨h js i s hjs hs, hk js i s hjs hs⟩
      obtain ⟨hord, hseen⟩ := step_ordered hs.1 hi.1 hs.2.1 hs'
      exact ⟨of_exists_some (step_inv hs.1 hi.1) hs', hord, hseen k hi.2 hs.2.2⟩
    intro js s hjs hs hdone
    refine (hall js s hjs hs).2.2.resolve_right ?_
    rw [hdone]
    exact id

theorem iteration_runs_twoNetworks :
    Always step (fun s => s.iter = .done → (network 10 64 10).bits ∈ s.out) State.init
      twoNetworks :=
  (iteration_runs twoNetworks (by decide +kernel)).2 _ (by decide +kernel)

end RouteTable

end NetSystem
