import Mathlib.Logic.Function.Basic
import NetSystem.TablePrefix

/-!
# The routing table

`lib/table.c` of quagga: a binary tree of prefixes with path compression and
reference counts. A node is there because somebody holds a reference to it
(`lock`), or as a stub where two subtrees part; `info` is what the users of
the table keep at a prefix.

A pointer to a node is the bits of the node's prefix, which no other node of
the table has and which never change; following the pointer is descending to
it. The parent pointers are the way back.

`Sound` is the invariant: the nodes below a link extend the prefix of the
node by the bit of the link, and a node without references has no `info` and
both links. What the table means does not show the stubs: `lockAt` and
`infoAt`, references and `info` at a prefix. Each operation has one
specification in these terms.
-/

namespace NetSystem

namespace RouteTable

open BitPrefix

abbrev Key := List Bool

/-- `struct route_node`, or `NULL`. -/
inductive Node (V : Type*) where
  | null
  | node (p : Prefix) (lock : Nat) (info : Option V) (link : Bool → Node V)

variable {V : Type*}

namespace Node

def isNull : Node V → Bool
  | null => true
  | node _ _ _ _ => false

/-! ## Operations -/

/-- `set_link`: the bit of the new node's prefix says which link. -/
def setLink : Node V → Node V → Node V
  | node p lock info link, node q lock' info' link' =>
      node p lock info
        (Function.update link (prefixBit q.u p.prefixlen) (node q lock' info' link'))
  | t, _ => t

def routeLockNode : Node V → Node V
  | null => null
  | node p lock info link => node p (lock + 1) info link

/-- `route_node_get`, with the number of new nodes. The new or found node is
locked. -/
def routeNodeGet (p : Prefix) : Node V → Node V × Nat
  | null => (node p 1 none fun _ => null, 1)
  | node q lock info link =>
      if q.prefixlen ≤ p.prefixlen ∧ prefixMatch q p = true then
        if q.prefixlen = p.prefixlen then (routeLockNode (node q lock info link), 0)
        else
          let (new, count) := routeNodeGet p (link (prefixBit p.u q.prefixlen))
          (setLink (node q lock info link) new, count)
      else
        let common := routeCommon q p
        let new := setLink (node common 0 none fun _ => null) (node q lock info link)
        if common.prefixlen ≠ p.prefixlen then (setLink new (node p 1 none fun _ => null), 2)
        else (routeLockNode new, 1)

/-- The loop of `route_node_lookup`. -/
def routeNodeLookup (p : Prefix) : Node V → Option Key
  | null => none
  | node q _ info link =>
      if q.prefixlen ≤ p.prefixlen ∧ prefixMatch q p = true then
        if q.prefixlen = p.prefixlen then if info.isSome then some q.bits else none
        else routeNodeLookup p (link (prefixBit p.u q.prefixlen))
      else none

/-- The loop of `route_node_match`. -/
def routeNodeMatch (p : Prefix) : Node V → Option Key → Option Key
  | null, matched => matched
  | node q _ info link, matched =>
      if q.prefixlen ≤ p.prefixlen ∧ prefixMatch q p = true then
        let matched := if info.isSome then some q.bits else matched
        if q.prefixlen = p.prefixlen then matched
        else routeNodeMatch p (link (prefixBit p.u q.prefixlen)) matched
      else matched

/-- What is left in the place of a node, whether the node was freed, and how
many nodes were. -/
structure Unlinked (V : Type*) where
  top : Node V
  freed : Bool
  count : Nat

/-- `route_node_delete` without the step to the parent; `none` is a failed
assertion. -/
def routeNodeDelete : Node V → Option (Unlinked V)
  | null => none
  | node p lock info link =>
      if lock ≠ 0 ∨ info.isSome then none
      else if ¬ (link false).isNull ∧ ¬ (link true).isNull then
        some ⟨node p lock info link, false, 0⟩
      else some ⟨if ¬ (link false).isNull then link false else link true, true, 1⟩

/-- The link that leads from a node to the node `k`. -/
def wayTo (k : Key) (p : Prefix) : Bool := k.getD p.prefixlen false

/-- `route_unlock_node` of the node `k`. On the way back, `route_node_delete`
goes on with the parent of a node that was freed, if that is a stub. -/
def routeUnlockNode (k : Key) : Node V → Option (Unlinked V)
  | null => none
  | node p lock info link =>
      if p.bits = k then
        if lock = 0 then none
        else if lock - 1 = 0 then routeNodeDelete (node p (lock - 1) info link)
        else some ⟨node p (lock - 1) info link, false, 0⟩
      else
        (routeUnlockNode k (link (wayTo k p))).bind fun child =>
          let parent := node p lock info (Function.update link (wayTo k p) child.top)
          if child.freed ∧ lock = 0 then
            (routeNodeDelete parent).map fun r => { r with count := child.count + r.count }
          else some ⟨parent, false, child.count⟩

/-- Change the reference count and `info` of the node `k`. -/
def modify (f : Nat → Option V → Nat × Option V) (k : Key) : Node V → Node V
  | null => null
  | node p lock info link =>
      if p.bits = k then node p (f lock info).1 (f lock info).2 link
      else node p lock info
        (Function.update link (wayTo k p) (modify f k (link (wayTo k p))))

/-! ## Meaning -/

/-- The prefixes of the nodes, in the order of iteration. -/
def keys : Node V → List Key
  | null => []
  | node p _ _ link => p.bits :: (keys (link false) ++ keys (link true))

/-- The references to `k`, none if there is no such node. -/
def lockAt (k : Key) : Node V → Nat
  | null => 0
  | node p lock _ link =>
      (if p.bits = k then lock else 0) + (lockAt k (link false) + lockAt k (link true))

def infoAt (k : Key) : Node V → Option V
  | null => none
  | node p _ info link =>
      (if p.bits = k then info else none).or ((infoAt k (link false)).or (infoAt k (link true)))

/-- The prefixes below `ctx` are where they belong, and a node without
references has no `info` and both links. -/
def Sound (ctx : Key) : Node V → Prop
  | null => True
  | node p lock info link =>
      ctx <+: p.bits ∧ (lock = 0 → info = none ∧ ∀ b, (link b).isNull = false) ∧
        ∀ b, Sound (p.bits ++ [b]) (link b)

/-! ## Where a prefix can be -/

section Place

variable {ctx k : Key} {p : Prefix} {lock : Nat} {info : Option V} {link : Bool → Node V} {b : Bool}

theorem not_prefix_of_extends (h : p.bits ++ [b] <+: k) : p.bits ≠ k := by
  rintro rfl
  have hlen := h.length_le
  rw [List.length_append, List.length_singleton] at hlen
  omega

/-- Nothing of a prefix is outside its place. -/
theorem Sound.absent {t : Node V} (h : Sound ctx t) (hk : ¬ ctx <+: k) :
    lockAt k t = 0 ∧ infoAt k t = none ∧ k ∉ keys t := by
  induction t generalizing ctx with
  | null => exact ⟨rfl, rfl, by simp [keys]⟩
  | node p lock info link ih =>
      obtain ⟨hctx, -, hlinks⟩ := h
      have hself : p.bits ≠ k := fun heq => hk (heq ▸ hctx)
      have hchild : ∀ b, lockAt k (link b) = 0 ∧ infoAt k (link b) = none ∧ k ∉ keys (link b) :=
        fun b => ih b (hlinks b) fun hpre => hk (hctx.trans ((List.prefix_append _ _).trans hpre))
      refine ⟨?_, ?_, ?_⟩
      · simp [lockAt, hself, hchild]
      · simp [infoAt, hself, hchild]
      · simp [keys, Ne.symm hself, hchild]

theorem Sound.child_absent (h : Sound ctx (node p lock info link)) (hk : ¬ p.bits ++ [b] <+: k) :
    lockAt k (link b) = 0 ∧ infoAt k (link b) = none ∧ k ∉ keys (link b) := (h.2.2 b).absent hk

theorem Sound.at_self (h : Sound ctx (node p lock info link)) :
    lockAt p.bits (node p lock info link) = lock ∧
      infoAt p.bits (node p lock info link) = info := by
  have hnone : ∀ b, lockAt p.bits (link b) = 0 ∧ infoAt p.bits (link b) = none ∧
      p.bits ∉ keys (link b) := fun b => h.child_absent fun hpre => not_prefix_of_extends hpre rfl
  constructor
  · simp [lockAt, hnone]
  · cases info <;> simp [infoAt, hnone]

theorem Sound.at_child (h : Sound ctx (node p lock info link)) (hk : p.bits ++ [b] <+: k) :
    lockAt k (node p lock info link) = lockAt k (link b) ∧
      infoAt k (node p lock info link) = infoAt k (link b) ∧
      (k ∈ keys (node p lock info link) ↔ k ∈ keys (link b)) := by
  have hself := not_prefix_of_extends hk
  have hother := h.child_absent (b := !b) (not_both hk)
  cases b
  · simp only [Bool.not_false] at hother
    simp [lockAt, infoAt, keys, hself, Ne.symm hself, hother]
  · simp only [Bool.not_true] at hother
    simp [lockAt, infoAt, keys, hself, Ne.symm hself, hother]

/-- Neither here nor below. -/
theorem Sound.at_other (h : Sound ctx (node p lock info link)) (hk : ¬ p.bits <+: k) :
    lockAt k (node p lock info link) = 0 ∧ infoAt k (node p lock info link) = none ∧
      k ∉ keys (node p lock info link) := by
  have hnone : ∀ b, lockAt k (link b) = 0 ∧ infoAt k (link b) = none ∧ k ∉ keys (link b) :=
    fun b => h.child_absent fun hpre => hk ((List.prefix_append _ _).trans hpre)
  have hself : p.bits ≠ k := fun heq => hk (heq ▸ List.prefix_refl _)
  simp [lockAt, infoAt, keys, hself, Ne.symm hself, hnone]

/-- The three places of a prefix, seen from a node. -/
theorem place (p : Prefix) (k : Key) :
    p.bits = k ∨ (∃ b, p.bits ++ [b] <+: k) ∨ ¬ p.bits <+: k := by
  by_cases hpre : p.bits <+: k
  · rcases Nat.eq_or_lt_of_le hpre.length_le with hlen | hlt
    · exact Or.inl (hpre.eq_of_length hlen)
    · exact Or.inr (Or.inl (prefix_snoc hpre hlt))
  · exact Or.inr (Or.inr hpre)

theorem wayTo_eq (h : p.bits ++ [b] <+: k) : wayTo k p = b := by
  have hpre : p.bits <+: k := (List.prefix_append _ _).trans h
  have hlen : p.bits.length < k.length := by
    have := h.length_le
    rw [List.length_append, List.length_singleton] at this
    omega
  have hget := (snoc_prefix_iff hpre hlen).mp h
  rw [p.length_bits] at hget
  simp [wayTo, List.getD_eq_getElem?_getD, hget]

end Place

/-! ## New links -/

section Links

variable {ctx k : Key} {p : Prefix} {lock : Nat} {info : Option V} {link : Bool → Node V} {b : Bool}
  {new : Node V}

theorem lockAt_update (k : Key) (p : Prefix) (lock : Nat) (info : Option V)
    (link : Bool → Node V) (b : Bool) (new : Node V) :
    lockAt k (node p lock info (Function.update link b new)) + lockAt k (link b) =
      lockAt k (node p lock info link) + lockAt k new := by
  cases b
  · simp [lockAt]
    omega
  · simp [lockAt]
    omega

theorem length_keys_update (p : Prefix) (lock : Nat) (info : Option V) (link : Bool → Node V)
    (b : Bool) (new : Node V) :
    (keys (node p lock info (Function.update link b new))).length + (keys (link b)).length =
      (keys (node p lock info link)).length + (keys new).length := by
  cases b
  · simp [keys]
    omega
  · simp [keys]
    omega

theorem Sound.update (h : Sound ctx (node p lock info link)) (hnew : Sound (p.bits ++ [b]) new)
    (hnull : lock = 0 → new.isNull = false) :
    Sound ctx (node p lock info (Function.update link b new)) := by
  refine ⟨h.1, fun hlock => ⟨(h.2.1 hlock).1, fun b' => ?_⟩, fun b' => ?_⟩
  · by_cases hb : b' = b
    · rw [hb, Function.update_self]
      exact hnull hlock
    · rw [Function.update_of_ne hb]
      exact (h.2.1 hlock).2 b'
  · by_cases hb : b' = b
    · rw [hb, Function.update_self]
      exact hnew
    · rw [Function.update_of_ne hb]
      exact h.2.2 b'

/-- What changed below the link is all that changed. Whether the node has
references does not matter here. -/
theorem Sound.infoAt_update (h : Sound ctx (node p lock info link))
    (hnew : Sound (p.bits ++ [b]) new) (hinfo : infoAt k new = infoAt k (link b)) :
    infoAt k (node p lock info (Function.update link b new)) =
      infoAt k (node p lock info link) := by
  have hone : Sound ctx (node p 1 info link) := ⟨h.1, by simp, h.2.2⟩
  have hone' : Sound ctx (node p 1 info (Function.update link b new)) :=
    hone.update hnew (by simp)
  change infoAt k (node p 1 info (Function.update link b new)) = infoAt k (node p 1 info link)
  rcases place p k with rfl | ⟨b', hk⟩ | hk
  · rw [hone'.at_self.2, hone.at_self.2]
  · rw [(hone'.at_child hk).2.1, (hone.at_child hk).2.1]
    by_cases hb : b' = b
    · rw [hb, Function.update_self, hinfo]
    · rw [Function.update_of_ne hb]
  · rw [(hone'.at_other hk).2.1, (hone.at_other hk).2.1]

end Links

/-! ## `route_node_get` -/

/-- What getting `p` does to a subtree: a reference to `p`, nothing else. -/
structure Got (ctx : Key) (p : Prefix) (t : Node V) (r : Node V × Nat) : Prop where
  sound : Sound ctx r.1
  notNull : r.1.isNull = false
  lockAt : ∀ k, lockAt k r.1 = lockAt k t + if p.bits = k then 1 else 0
  infoAt : ∀ k, infoAt k r.1 = infoAt k t
  count : r.1.keys.length = t.keys.length + r.2

/-- A new node. -/
theorem got_null {ctx : Key} {p : Prefix} (h : ctx <+: p.bits) :
    Got ctx p (null : Node V) (node p 1 none fun _ => null, 1) :=
  ⟨⟨h, by simp, fun _ => trivial⟩, rfl, fun k => by simp [Node.lockAt],
    fun k => by simp [Node.infoAt], by simp [keys]⟩

theorem got_lock {ctx : Key} {p q : Prefix} {lock : Nat} {info : Option V}
    {link : Bool → Node V} (h : Sound ctx (node q lock info link)) (hq : q.bits = p.bits) :
    Got ctx p (node q lock info link) (node q (lock + 1) info link, 0) := by
  refine ⟨⟨h.1, by simp, h.2.2⟩, rfl, fun k => ?_, fun k => rfl, rfl⟩
  rw [← hq]
  by_cases hk : q.bits = k
  · simp [Node.lockAt, hk]
    omega
  · simp [Node.lockAt, hk]

/-- A node in the subtree of `q` that `p` belongs to. -/
theorem got_below {ctx : Key} {p q : Prefix} {lock : Nat} {info : Option V}
    {link : Bool → Node V} (h : Sound ctx (node q lock info link)) {r : Node V × Nat} {b : Bool}
    (hr : Got (q.bits ++ [b]) p (link b) r) :
    Got ctx p (node q lock info link) (node q lock info (Function.update link b r.1), r.2) := by
  have hsound := h.update hr.sound fun _ => hr.notNull
  refine ⟨hsound, rfl, fun k => ?_, fun k => h.infoAt_update hr.sound (hr.infoAt k), ?_⟩
  · have hsum := lockAt_update k q lock info link b r.1
    rw [hr.lockAt k] at hsum
    dsimp only
    omega
  · have hsum := length_keys_update q lock info link b r.1
    rw [hr.count] at hsum
    dsimp only
    omega

/-- `set_link` with a node from below the link. -/
theorem setLink_of_sound {p : Prefix} {lock : Nat} {info : Option V} {link : Bool → Node V}
    {b : Bool} {new : Node V} (h : Sound (p.bits ++ [b]) new) (hnull : new.isNull = false) :
    setLink (node p lock info link) new = node p lock info (Function.update link b new) := by
  cases new with
  | null => cases hnull
  | node q lock' info' link' =>
      have hpre : p.bits <+: q.bits := (List.prefix_append _ _).trans h.1
      have hlen : p.prefixlen < q.prefixlen := by
        have := h.1.length_le
        rw [List.length_append, List.length_singleton, p.length_bits, q.length_bits] at this
        omega
      rw [setLink, (bits_snoc_prefix_iff hpre hlen).mp h.1]

section Fork

variable {ctx : Key} {c p q : Prefix} {lock : Nat} {info : Option V} {link : Bool → Node V}
  {b : Bool}

/-- `info` at a prefix, in a node put above `q` that has none itself. -/
theorem Sound.infoAt_above {t : Node V} {link' : Bool → Node V} {lock' : Nat}
    (h : Sound ctx (node c lock' none link')) (ht : Sound (c.bits ++ [b]) t) (hb : link' b = t)
    (hother : ∀ k, infoAt k (link' !b) = none) (k : Key) :
    infoAt k (node c lock' none link') = infoAt k t := by
  rcases place c k with rfl | ⟨b', hk⟩ | hk
  · rw [h.at_self.2, (ht.absent fun hpre => not_prefix_of_extends hpre rfl).2.1]
  · rw [(h.at_child hk).2.1]
    by_cases heq : b' = b
    · rw [heq, hb]
    · have hnot : b' = !b := by cases b <;> cases b' <;> simp_all
      rw [hnot] at hk ⊢
      rw [hother, (ht.absent fun hpre => not_both hpre hk).2.1]
  · rw [(h.at_other hk).2.1, (ht.absent fun hpre => hk ((List.prefix_append _ _).trans hpre)).2.1]

/-- The new node comes between `q` and its parent. -/
theorem got_above (h : Sound ctx (node q lock info link)) (hctx : ctx <+: c.bits)
    (hq : c.bits ++ [b] <+: q.bits) (hc : c.bits = p.bits) :
    Got ctx p (node q lock info link)
      (node c 1 none (Function.update (fun _ => null) b (node q lock info link)), 1) := by
  have hbelow : Sound (c.bits ++ [b]) (node q lock info link) := ⟨hq, h.2⟩
  have hsound : Sound ctx
      (node c 1 none (Function.update (fun _ => null) b (node q lock info link))) :=
    Sound.update ⟨hctx, by simp, fun _ => trivial⟩ hbelow (by simp)
  refine ⟨hsound, rfl, fun k => ?_, fun k => ?_, ?_⟩
  · have hsum := lockAt_update k c 1 none (fun _ => null) b (node q lock info link)
    simp only [Node.lockAt, hc] at hsum ⊢
    omega
  · refine hsound.infoAt_above hbelow (Function.update_self ..) (fun k => ?_) k
    rw [Function.update_of_ne (by simp)]
    rfl
  · have hsum := length_keys_update c 1 none (fun _ => null) b (node q lock info link)
    simp only [keys, List.length_cons, List.length_append, List.length_nil] at hsum ⊢
    omega

/-- The new node goes beside `q`, below a new stub. -/
theorem got_beside (h : Sound ctx (node q lock info link)) (hctx : ctx <+: c.bits)
    (hparts : Parts c.bits b q.bits p.bits) :
    Got ctx p (node q lock info link)
      (node c 0 none (Function.update (Function.update (fun _ => null) b (node q lock info link))
        (!b) (node p 1 none fun _ => null)), 2) := by
  have hbelow : Sound (c.bits ++ [b]) (node q lock info link) := ⟨hparts.left, h.2⟩
  have hnew : Sound (c.bits ++ [!b]) (node p 1 none fun _ => null : Node V) :=
    ⟨hparts.right, by simp, fun _ => trivial⟩
  have hlink : ∀ x, Function.update (Function.update (fun _ => null) b (node q lock info link))
      (!b) (node p 1 none fun _ => null) x =
        if x = b then node q lock info link else node p 1 none fun _ => null := by
    intro x
    by_cases hx : x = b
    · rw [if_pos hx, hx, Function.update_of_ne (by simp), Function.update_self]
    · have hnot : x = !b := by cases b <;> cases x <;> simp_all
      rw [if_neg hx, hnot, Function.update_self]
  have hsound : Sound ctx (node c 0 none (Function.update
      (Function.update (fun _ => null) b (node q lock info link)) (!b)
        (node p 1 none fun _ => null))) := by
    refine ⟨hctx, fun _ => ⟨rfl, fun x => ?_⟩, fun x => ?_⟩
    · rw [hlink]
      split <;> rfl
    · rw [hlink]
      by_cases hx : x = b
      · rw [if_pos hx, hx]
        exact hbelow
      · have hnot : x = !b := by cases b <;> cases x <;> simp_all
        rw [if_neg hx, hnot]
        exact hnew
  refine ⟨hsound, rfl, fun k => ?_, fun k => ?_, ?_⟩
  · have hfirst := lockAt_update k c 0 none (fun _ => null) b (node q lock info link)
    have hsecond := lockAt_update k c 0 none
      (Function.update (fun _ => null) b (node q lock info link)) (!b)
      (node p 1 none fun _ => null)
    rw [Function.update_of_ne (by simp)] at hsecond
    simp only [Node.lockAt, ite_self] at hfirst hsecond ⊢
    omega
  · refine hsound.infoAt_above hbelow ?_ (fun k => ?_) k
    · rw [hlink, if_pos rfl]
    · rw [Function.update_self]
      simp [Node.infoAt]
  · have hfirst := length_keys_update c 0 none (fun _ => null) b (node q lock info link)
    have hsecond := length_keys_update c 0 none
      (Function.update (fun _ => null) b (node q lock info link)) (!b)
      (node p 1 none fun _ => null)
    rw [Function.update_of_ne (by simp)] at hsecond
    simp only [keys, List.length_cons, List.length_append, List.length_nil] at hfirst hsecond ⊢
    omega

/-- The context is a prefix of the common prefix. -/
theorem prefix_of_parts (hparts : Parts c.bits b q.bits p.bits) (hq : ctx <+: q.bits)
    (hp : ctx <+: p.bits) : ctx <+: c.bits := by
  have hc : c.bits <+: q.bits := (List.prefix_append _ _).trans hparts.left
  refine List.prefix_of_prefix_length_le hq hc ?_
  by_contra hlt
  have hlonger : c.bits ++ [b] <+: ctx := by
    refine List.prefix_of_prefix_length_le hparts.left hq ?_
    rw [List.length_append, List.length_singleton]
    omega
  exact not_both (hlonger.trans hp) hparts.right

/-- `q` does not match `p`: the two part, or `q` is below `p`. -/
theorem got_common (h : Sound ctx (node q lock info link)) (hp : ctx <+: p.bits)
    (hno : ¬ (q.prefixlen ≤ p.prefixlen ∧ prefixMatch q p = true)) :
    Got ctx p (node q lock info link) (routeNodeGet p (node q lock info link)) := by
  have hcommon := routeCommon_spec q p
  have hlt := hcommon.lt_left hno
  have hleft : (routeCommon q p).bits ++ [prefixBit q.u (routeCommon q p).prefixlen] <+: q.bits :=
    (bits_snoc_prefix_iff (hcommon.prefix_left hlt.le) hlt).mpr rfl
  rw [routeNodeGet, if_neg hno]
  dsimp only
  split
  · rename_i hne
    have hparts := hcommon.parts_of hlt (lt_of_le_of_ne hcommon.len_le hne)
    have hbit : prefixBit p.u (routeCommon q p).prefixlen =
        !prefixBit q.u (routeCommon q p).prefixlen :=
      (bits_snoc_prefix_iff hcommon.prefix_right (lt_of_le_of_ne hcommon.len_le hne)).mp
        hparts.right
    rw [setLink, setLink, hbit]
    exact got_beside h (prefix_of_parts hparts h.1 hp) hparts
  · rename_i heq
    rw [not_not] at heq
    have hsame : (routeCommon q p).bits = p.bits :=
      hcommon.prefix_right.eq_of_length (by simpa using heq)
    rw [setLink, routeLockNode]
    exact got_above h (hsame ▸ hp) hleft hsame

end Fork

/-- **`route_node_get`** -/
theorem routeNodeGet_spec {ctx : Key} {p : Prefix} {t : Node V} (h : Sound ctx t)
    (hp : ctx <+: p.bits) : Got ctx p t (routeNodeGet p t) := by
  induction t generalizing ctx with
  | null => exact got_null hp
  | node q lock info link ih =>
      by_cases hmatch : q.prefixlen ≤ p.prefixlen ∧ prefixMatch q p = true
      · have hpre := prefixMatch_iff.mp hmatch.2
        rw [routeNodeGet, if_pos hmatch]
        split
        · rename_i hlen
          exact got_lock h (hpre.eq_of_length (by simpa using hlen))
        · rename_i hlen
          have hlt : q.prefixlen < p.prefixlen := lt_of_le_of_ne hmatch.1 hlen
          have hr := ih (prefixBit p.u q.prefixlen) (h.2.2 _)
            ((bits_snoc_prefix_iff hpre hlt).mpr rfl)
          generalize routeNodeGet p (link (prefixBit p.u q.prefixlen)) = r at hr ⊢
          obtain ⟨new, count⟩ := r
          have hlink : setLink (node q lock info link) new =
              node q lock info (Function.update link (prefixBit p.u q.prefixlen) new) :=
            setLink_of_sound hr.sound hr.notNull
          dsimp only
          rw [hlink]
          exact got_below h hr
      · exact got_common h hp hmatch

/-! ## Searches -/

/-- The way down a search takes at a node that matches. -/
theorem Sound.at_bit {ctx : Key} {p q : Prefix} {lock : Nat} {info : Option V}
    {link : Bool → Node V} (h : Sound ctx (node q lock info link))
    (hmatch : q.prefixlen ≤ p.prefixlen ∧ prefixMatch q p = true)
    (hlen : ¬ q.prefixlen = p.prefixlen) :
    q.bits ++ [prefixBit p.u q.prefixlen] <+: p.bits ∧
      Sound (q.bits ++ [prefixBit p.u q.prefixlen]) (link (prefixBit p.u q.prefixlen)) :=
  ⟨(bits_snoc_prefix_iff (prefixMatch_iff.mp hmatch.2) (lt_of_le_of_ne hmatch.1 hlen)).mpr rfl,
    h.2.2 _⟩

theorem not_prefix_of_no_match {p q : Prefix}
    (hno : ¬ (q.prefixlen ≤ p.prefixlen ∧ prefixMatch q p = true)) : ¬ q.bits <+: p.bits :=
  fun hpre => hno ⟨by simpa using hpre.length_le, prefixMatch_iff.mpr hpre⟩

/-- **`route_node_lookup`** finds the prefixes that have `info`. -/
theorem routeNodeLookup_eq {ctx : Key} {p : Prefix} {t : Node V} (h : Sound ctx t) :
    routeNodeLookup p t = if (infoAt p.bits t).isSome then some p.bits else none := by
  induction t generalizing ctx with
  | null => rfl
  | node q lock info link ih =>
      rw [routeNodeLookup]
      by_cases hmatch : q.prefixlen ≤ p.prefixlen ∧ prefixMatch q p = true
      · rw [if_pos hmatch]
        split
        · rename_i hlen
          have hsame : q.bits = p.bits :=
            (prefixMatch_iff.mp hmatch.2).eq_of_length (by simpa using hlen)
          rw [← hsame, h.at_self.2]
        · rename_i hlen
          obtain ⟨hbit, hbelow⟩ := h.at_bit hmatch hlen
          rw [ih _ hbelow, (h.at_child hbit).2.1]
      · rw [if_neg hmatch, (h.at_other (not_prefix_of_no_match hmatch)).2.1]
        rfl

/-- `k` is the longest prefix of `target` that has `info`. -/
structure IsLongest (t : Node V) (target k : Key) : Prop where
  isPrefix : k <+: target
  hasInfo : (infoAt k t).isSome
  longest : ∀ k', k' <+: target → (infoAt k' t).isSome → k' <+: k

/-- The places of the prefixes of a string that goes on after `q` with `b`. -/
theorem place_of_prefix {q : Prefix} {k target : Key} {b : Bool}
    (htarget : q.bits ++ [b] <+: target) (hk : k <+: target) :
    q.bits = k ∨ q.bits ++ [b] <+: k ∨ ¬ q.bits <+: k := by
  rcases place q k with hself | ⟨b', hchild⟩ | hother
  · exact Or.inl hself
  · by_cases hb : b' = b
    · exact Or.inr (Or.inl (hb ▸ hchild))
    · have hnot : b' = !b := by cases b <;> cases b' <;> simp_all
      exact absurd ((hnot ▸ hchild).trans hk) (not_both htarget)
  · exact Or.inr (Or.inr hother)

/-- What a search finds below a node is also the longest from there. -/
theorem IsLongest.of_child {ctx : Key} {q : Prefix} {lock : Nat} {info : Option V}
    {link : Bool → Node V} (h : Sound ctx (node q lock info link)) {target k : Key} {b : Bool}
    (htarget : q.bits ++ [b] <+: target) (hk : IsLongest (link b) target k) :
    IsLongest (node q lock info link) target k := by
  have hbelow : q.bits ++ [b] <+: k := by
    by_contra hno
    have hinfo := hk.hasInfo
    rw [(h.child_absent hno).2.1] at hinfo
    cases hinfo
  refine ⟨hk.isPrefix, ?_, fun k' hk' hinfo => ?_⟩
  · rw [(h.at_child hbelow).2.1]
    exact hk.hasInfo
  · rcases place_of_prefix htarget hk' with rfl | hchild | hother
    · exact (List.prefix_append _ _).trans hbelow
    · rw [(h.at_child hchild).2.1] at hinfo
      exact hk.longest k' hk' hinfo
    · rw [(h.at_other hother).2.1] at hinfo
      cases hinfo

/-- The node itself is the longest if nothing below it is in question. -/
theorem isLongest_self {ctx : Key} {q : Prefix} {lock : Nat} {info : Option V}
    {link : Bool → Node V} (h : Sound ctx (node q lock info link)) {target : Key}
    (htarget : q.bits <+: target)
    (hnone : ∀ b k, q.bits ++ [b] <+: k → k <+: target → infoAt k (link b) = none) :
    (info.isSome → IsLongest (node q lock info link) target q.bits) ∧
      (info = none → ∀ k, k <+: target → infoAt k (node q lock info link) = none) := by
  have hat : ∀ k, k <+: target → q.bits ≠ k → infoAt k (node q lock info link) = none := by
    intro k hk hne
    rcases place q k with hself | ⟨b, hchild⟩ | hother
    · exact absurd hself hne
    · rw [(h.at_child hchild).2.1, hnone b k hchild hk]
    · exact (h.at_other hother).2.1
  constructor
  · intro hinfo
    refine ⟨htarget, by rwa [h.at_self.2], fun k hk hsome => ?_⟩
    by_cases hself : q.bits = k
    · exact hself ▸ List.prefix_refl _
    · rw [hat k hk hself] at hsome
      cases hsome
  · intro hinfo k hk
    by_cases hself : q.bits = k
    · rw [← hself, h.at_self.2, hinfo]
    · exact hat k hk hself

/-- **`route_node_match`** finds the longest prefix that has `info`. -/
theorem routeNodeMatch_spec {ctx : Key} {p : Prefix} {t : Node V} (h : Sound ctx t)
    (matched : Option Key) :
    (∃ k, routeNodeMatch p t matched = some k ∧ IsLongest t p.bits k) ∨
      (routeNodeMatch p t matched = matched ∧ ∀ k, k <+: p.bits → infoAt k t = none) := by
  induction t generalizing ctx matched with
  | null => exact Or.inr ⟨rfl, fun k _ => rfl⟩
  | node q lock info link ih =>
      rw [routeNodeMatch]
      by_cases hmatch : q.prefixlen ≤ p.prefixlen ∧ prefixMatch q p = true
      · rw [if_pos hmatch]
        have hpre := prefixMatch_iff.mp hmatch.2
        -- what the node itself contributes, once nothing below it is left
        have hhere : (∀ b k, q.bits ++ [b] <+: k → k <+: p.bits → infoAt k (link b) = none) →
            (∃ k, (if info.isSome then some q.bits else matched) = some k ∧
              IsLongest (node q lock info link) p.bits k) ∨
            ((if info.isSome then some q.bits else matched) = matched ∧
              ∀ k, k <+: p.bits → infoAt k (node q lock info link) = none) := by
          intro hnone
          obtain ⟨hlong, hall⟩ := isLongest_self h hpre hnone
          cases hinfo : info with
          | none => exact Or.inr ⟨rfl, hinfo ▸ hall hinfo⟩
          | some v => exact Or.inl ⟨q.bits, rfl, hinfo ▸ hlong (by simp [hinfo])⟩
        dsimp only
        split
        · rename_i hlen
          have hsame : q.bits = p.bits := hpre.eq_of_length (by simpa using hlen)
          refine hhere fun b k hbelow hk => absurd rfl (not_prefix_of_extends (p := q) (b := b) ?_)
          exact hbelow.trans (hsame ▸ hk)
        · rename_i hlen
          obtain ⟨hbit, hbelow⟩ := h.at_bit hmatch hlen
          rcases ih _ hbelow (if info.isSome then some q.bits else matched) with
            ⟨k, hk, hlong⟩ | ⟨hsame, hnone⟩
          · exact Or.inl ⟨k, hk, hlong.of_child h hbit⟩
          · rw [hsame]
            refine hhere fun b k hb hk => ?_
            rcases place_of_prefix hbit hk with hself | hchild | hother
            · exact absurd hself (not_prefix_of_extends hb)
            · have hway : b = prefixBit p.u q.prefixlen :=
                (wayTo_eq hb).symm.trans (wayTo_eq hchild)
              rw [hway]
              exact hnone k hk
            · exact absurd ((List.prefix_append _ _).trans hb) hother
      · rw [if_neg hmatch]
        refine Or.inr ⟨rfl, fun k hk => (h.at_other fun hpre => ?_).2.1⟩
        exact not_prefix_of_no_match hmatch (hpre.trans hk)

/-! ## `route_unlock_node` -/

/-- What is left of a subtree in which a node was freed or not. -/
structure Kept (ctx : Key) (t : Node V) (r : Unlinked V) : Prop where
  sound : Sound ctx r.top
  notNull : r.freed = false → r.top.isNull = false
  infoAt : ∀ k, infoAt k r.top = infoAt k t
  count : r.top.keys.length + r.count = t.keys.length

theorem Sound.weaken {ctx ctx' : Key} {t : Node V} (h : Sound ctx t) (hctx : ctx' <+: ctx) :
    Sound ctx' t := by
  cases t with
  | null => trivial
  | node p lock info link => exact ⟨hctx.trans h.1, h.2⟩

theorem isNull_iff {t : Node V} : t.isNull = true ↔ t = null := by
  cases t <;> simp [isNull]

/-- **`route_node_delete`**, for a node that has lost its last reference or
its stub's child. -/
theorem routeNodeDelete_spec {ctx : Key} {p : Prefix} {link : Bool → Node V}
    (hctx : ctx <+: p.bits) (hlinks : ∀ b, Sound (p.bits ++ [b]) (link b)) :
    ∃ r, routeNodeDelete (node p 0 none link) = some r ∧ Kept ctx (node p 0 none link) r ∧
      ∀ k, lockAt k r.top = lockAt k (node p 0 none link) := by
  have hup : ∀ b, ctx <+: p.bits ++ [b] := fun b => hctx.trans (List.prefix_append _ _)
  rw [routeNodeDelete, if_neg (by simp)]
  cases hleft : (link false).isNull with
  | false =>
      cases hright : (link true).isNull with
      | false =>
          refine ⟨_, if_pos (by simp), ⟨⟨hctx, fun _ => ⟨rfl, fun b => ?_⟩, hlinks⟩, fun _ => rfl,
            fun k => rfl, rfl⟩, fun k => rfl⟩
          cases b
          · exact hleft
          · exact hright
      | true =>
          have hnull := isNull_iff.mp hright
          refine ⟨_, if_neg (by simp),
            ⟨(hlinks false).weaken (hup false), by simp, fun k => ?_, ?_⟩, fun k => ?_⟩
          · simp [Node.infoAt, hnull]
          · simp [keys, hnull]
          · simp [Node.lockAt, hnull]
  | true =>
      have hnull := isNull_iff.mp hleft
      refine ⟨_, if_neg (by simp), ⟨(hlinks true).weaken (hup true), by simp, fun k => ?_, ?_⟩,
        fun k => ?_⟩
      · simp [Node.infoAt, hnull]
      · simp [keys, hnull]
      · simp [Node.lockAt, hnull]

/-- The subtree without one reference to `k`. -/
structure Released (ctx k : Key) (t : Node V) (r : Unlinked V) : Prop extends Kept ctx t r where
  lockAt : ∀ k', Node.lockAt k' r.top + (if k = k' then 1 else 0) = Node.lockAt k' t

/-- The last reference, or one of several. -/
theorem routeUnlockNode_self {ctx : Key} {p : Prefix} {lock : Nat} {info : Option V}
    {link : Bool → Node V} (h : Sound ctx (node p lock info link)) (hlock : 0 < lock)
    (hinfo : lock = 1 → info = none) :
    ∃ r, routeUnlockNode p.bits (node p lock info link) = some r ∧
      Released ctx p.bits (node p lock info link) r := by
  have hless : ∀ k', Node.lockAt k' (node p (lock - 1) info link) +
      (if p.bits = k' then 1 else 0) = Node.lockAt k' (node p lock info link) := by
    intro k'
    simp only [Node.lockAt]
    split <;> omega
  rw [routeUnlockNode, if_pos rfl, if_neg (by omega)]
  split
  · rename_i hlast
    rw [hinfo (by omega), hlast] at hless ⊢
    obtain ⟨r, hr, hkept, hsame⟩ := routeNodeDelete_spec h.1 h.2.2
    refine ⟨r, hr, ⟨hkept.sound, hkept.notNull, hkept.infoAt, hkept.count⟩, fun k' => ?_⟩
    rw [hsame, hless]
  · rename_i hmore
    exact ⟨_, rfl, ⟨⟨h.1, fun hzero => absurd hzero hmore, h.2.2⟩, fun _ => rfl, fun _ => rfl,
      rfl⟩, hless⟩

/-- A node below, and the stub above it if that has lost a child. -/
theorem routeUnlockNode_below {ctx k : Key} {p : Prefix} {lock : Nat} {info : Option V}
    {link : Bool → Node V} {b : Bool} (h : Sound ctx (node p lock info link))
    (hk : p.bits ++ [b] <+: k) {child : Unlinked V}
    (hchild : routeUnlockNode k (link b) = some child)
    (hrel : Released (p.bits ++ [b]) k (link b) child) :
    ∃ r, routeUnlockNode k (node p lock info link) = some r ∧
      Released ctx k (node p lock info link) r := by
  have hlinks : ∀ b', Sound (p.bits ++ [b']) (Function.update link b child.top b') := by
    intro b'
    by_cases hb : b' = b
    · rw [hb, Function.update_self]
      exact hrel.sound
    · rw [Function.update_of_ne hb]
      exact h.2.2 b'
  have hless : ∀ k', Node.lockAt k' (node p lock info (Function.update link b child.top)) +
      (if k = k' then 1 else 0) = Node.lockAt k' (node p lock info link) := by
    intro k'
    have hsum := lockAt_update k' p lock info link b child.top
    have hbelow := hrel.lockAt k'
    omega
  have hinfo : ∀ k', Node.infoAt k' (node p lock info (Function.update link b child.top)) =
      Node.infoAt k' (node p lock info link) :=
    fun k' => h.infoAt_update hrel.sound (hrel.infoAt k')
  have hcount : (keys (node p lock info (Function.update link b child.top))).length +
      child.count = (keys (node p lock info link)).length := by
    have hsum := length_keys_update p lock info link b child.top
    have hbelow := hrel.count
    omega
  rw [routeUnlockNode, if_neg (not_prefix_of_extends hk), wayTo_eq hk, hchild, Option.bind_some]
  dsimp only
  split
  · rename_i hstub
    obtain ⟨-, rfl⟩ := hstub
    obtain ⟨rfl, -⟩ := h.2.1 rfl
    obtain ⟨r, hr, hkept, hsame⟩ := routeNodeDelete_spec h.1 hlinks
    refine ⟨{ r with count := child.count + r.count }, by rw [hr, Option.map_some],
      ⟨hkept.sound, hkept.notNull, fun k' => ?_, ?_⟩, fun k' => ?_⟩
    · rw [hkept.infoAt, hinfo]
    · have hfreed := hkept.count
      dsimp only
      omega
    · rw [hsame, hless]
  · rename_i hkeep
    refine ⟨_, rfl, ⟨⟨h.1, fun hzero => ⟨(h.2.1 hzero).1, fun b' => ?_⟩, hlinks⟩,
      fun _ => rfl, hinfo, hcount⟩, hless⟩
    by_cases hb : b' = b
    · rw [hb, Function.update_self]
      exact hrel.notNull (by simpa [hzero] using hkeep)
    · rw [Function.update_of_ne hb]
      exact (h.2.1 hzero).2 b'

/-- **`route_unlock_node`** takes one reference, and no assertion fails if
the last one is given back without `info`. -/
theorem routeUnlockNode_spec {ctx k : Key} {t : Node V} (h : Sound ctx t)
    (hlock : 0 < Node.lockAt k t) (hinfo : Node.lockAt k t = 1 → Node.infoAt k t = none) :
    ∃ r, routeUnlockNode k t = some r ∧ Released ctx k t r := by
  induction t generalizing ctx with
  | null => cases hlock
  | node p lock info link ih =>
      rcases place p k with rfl | ⟨b, hk⟩ | hk
      · rw [h.at_self.1, h.at_self.2] at hinfo
        rw [h.at_self.1] at hlock
        exact routeUnlockNode_self h hlock hinfo
      · rw [(h.at_child hk).1, (h.at_child hk).2.1] at hinfo
        rw [(h.at_child hk).1] at hlock
        obtain ⟨child, hchild, hrel⟩ := ih b (h.2.2 b) hlock hinfo
        exact routeUnlockNode_below h hk hchild hrel
      · rw [(h.at_other hk).1] at hlock
        cases hlock

/-! ## Changes at a node -/

/-- The node `k` with other references and `info`. -/
structure Modified (ctx k : Key) (f : Nat → Option V → Nat × Option V) (t t' : Node V) : Prop where
  sound : Sound ctx t'
  notNull : t'.isNull = t.isNull
  keys : t'.keys = t.keys
  lockAt : ∀ k', Node.lockAt k' t' =
    if k' = k then (f (Node.lockAt k t) (Node.infoAt k t)).1 else Node.lockAt k' t
  infoAt : ∀ k', Node.infoAt k' t' =
    if k' = k then (f (Node.lockAt k t) (Node.infoAt k t)).2 else Node.infoAt k' t

theorem modify_spec {f : Nat → Option V → Nat × Option V} {ctx k : Key} {t : Node V}
    (h : Sound ctx t) (hk : k ∈ t.keys)
    (hf : (f (Node.lockAt k t) (Node.infoAt k t)).1 ≠ 0) :
    Modified ctx k f t (modify f k t) := by
  induction t generalizing ctx with
  | null => simp [Node.keys] at hk
  | node p lock info link ih =>
      rcases place p k with rfl | ⟨b, hbelow⟩ | hother
      · rw [h.at_self.1, h.at_self.2] at hf
        rw [modify, if_pos rfl]
        have hsound : Sound ctx (node p (f lock info).1 (f lock info).2 link) :=
          ⟨h.1, fun hzero => absurd hzero hf, h.2.2⟩
        refine ⟨hsound, rfl, rfl, fun k' => ?_, fun k' => ?_⟩
        · by_cases hk' : k' = p.bits
          · rw [if_pos hk', hk', hsound.at_self.1, h.at_self.1, h.at_self.2]
          · simp [Node.lockAt, hk', Ne.symm hk']
        · by_cases hk' : k' = p.bits
          · rw [if_pos hk', hk', hsound.at_self.2, h.at_self.1, h.at_self.2]
          · simp [Node.infoAt, hk', Ne.symm hk']
      · have hat := h.at_child hbelow
        rw [hat.1, hat.2.1] at hf
        have hmod := ih b (h.2.2 b) (hat.2.2.mp hk) hf
        rw [modify, if_neg (not_prefix_of_extends hbelow), wayTo_eq hbelow]
        have hsound := h.update hmod.sound fun hzero => by
          rw [hmod.notNull]
          exact (h.2.1 hzero).2 b
        have hat' := hsound.at_child hbelow
        rw [Function.update_self] at hat'
        refine ⟨hsound, rfl, ?_, fun k' => ?_, fun k' => ?_⟩
        · cases b <;> simp [Node.keys, hmod.keys]
        · by_cases hk' : k' = k
          · rw [if_pos hk', hk', hat'.1, hmod.lockAt, if_pos rfl, hat.1, hat.2.1]
          · have hsum := lockAt_update k' p lock info link b (modify f k (link b))
            rw [hmod.lockAt, if_neg hk'] at hsum
            rw [if_neg hk']
            omega
        · by_cases hk' : k' = k
          · rw [if_pos hk', hk', hat'.2.1, hmod.infoAt, if_pos rfl, hat.1, hat.2.1]
          · rw [if_neg hk']
            refine h.infoAt_update hmod.sound ?_
            rw [hmod.infoAt, if_neg hk']
      · exact absurd hk (h.at_other hother).2.2

end Node

end RouteTable

end NetSystem
