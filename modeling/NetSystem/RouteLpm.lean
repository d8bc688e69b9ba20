import Mathlib.Algebra.Order.Ring.Nat
import Mathlib.Data.List.MinMax
import Mathlib.Data.List.Nodup

/-!
# Longest-prefix routing

Hop-by-hop forwarding over static tables, for any set of routers and any
address width.

- `Prefix`, `lookup`: an entry applies to the addresses that agree with its
  prefix in the leading bits, and the longest applicable entry wins. A table
  sees of an address only which of its prefixes cover it (`lookup_congr`).
- `Walk`: the routers a packet visits, up to one that does not forward it.
  If every hop decreases a rank, every packet's walk ends
  (`exists_walk_of_rank`) and visits no router twice (`Walk.nodup`).
-/

namespace NetSystem

namespace Routing

/-! ## Prefixes and tables -/

structure Prefix (w : Nat) where
  addr : BitVec w
  len : Nat
  len_le : len ≤ w
deriving DecidableEq, Repr

/-- The address agrees with the prefix in its leading `len` bits. -/
def Prefix.covers {w : Nat} (p : Prefix w) (a : BitVec w) : Bool :=
  decide (a.toNat / 2 ^ (w - p.len) = p.addr.toNat / 2 ^ (w - p.len))

/-- A table entry: a destination and a gateway, `none` for a network the
router is connected to. -/
structure Entry (w : Nat) where
  dest : Prefix w
  via : Option (BitVec w)
deriving DecidableEq, Repr

variable {w : Nat}

/-- The longest entry that covers the address. -/
def lookup (table : List (Entry w)) (a : BitVec w) : Option (Entry w) :=
  (table.filter fun e => e.dest.covers a).argmax fun e => e.dest.len

theorem lookup_congr {table : List (Entry w)} {a b : BitVec w}
    (h : ∀ e ∈ table, e.dest.covers a = e.dest.covers b) : lookup table a = lookup table b := by
  rw [lookup, lookup, List.filter_congr h]

/-! ## Walks -/

/-- What a router does with a packet. -/
inductive Hop (R : Type*) where
  | deliver
  | drop
  | forward (r : R)
deriving DecidableEq, Repr

variable {R : Type*} {next : R → Hop R}

/-- From `r` over the routers of the list to `e`, which does not forward. -/
inductive Walk (next : R → Hop R) : R → List R → R → Prop
  | stop {r : R} (h : ∀ r', next r ≠ .forward r') : Walk next r [r] r
  | hop {r r' e : R} {l : List R} (h : next r = .forward r') (hl : Walk next r' l e) :
      Walk next r (r :: l) e

theorem Walk.not_forward {r e : R} {l : List R} (h : Walk next r l e) (r' : R) :
    next e ≠ .forward r' := by
  induction h with
  | stop h => exact h r'
  | hop _ _ ih => exact ih

/-- Where every hop decreases a rank, every walk ends. -/
theorem exists_walk_of_rank {rank : R → Nat}
    (hrank : ∀ r r', next r = .forward r' → rank r' < rank r) (r : R) :
    ∃ l e, Walk next r l e := by
  induction hn : rank r using Nat.strong_induction_on generalizing r with
  | _ n ih =>
      cases hnext : next r with
      | deliver => exact ⟨[r], r, .stop fun r' => by simp [hnext]⟩
      | drop => exact ⟨[r], r, .stop fun r' => by simp [hnext]⟩
      | forward r' =>
          obtain ⟨l, e, hl⟩ := ih (rank r') (hn ▸ hrank r r' hnext) r' rfl
          exact ⟨r :: l, e, .hop hnext hl⟩

theorem Walk.rank_le {rank : R → Nat} (hrank : ∀ r r', next r = .forward r' → rank r' < rank r)
    {r e : R} {l : List R} (h : Walk next r l e) : ∀ x ∈ l, rank x ≤ rank r := by
  induction h with
  | stop _ => simp
  | hop h _ ih =>
      intro x hx
      rcases List.mem_cons.mp hx with rfl | hx
      · exact le_rfl
      · exact (ih x hx).trans (hrank _ _ h).le

/-- And no walk comes back. -/
theorem Walk.nodup {rank : R → Nat} (hrank : ∀ r r', next r = .forward r' → rank r' < rank r)
    {r e : R} {l : List R} (h : Walk next r l e) : l.Nodup := by
  induction h with
  | stop _ => exact List.nodup_singleton _
  | hop h hl ih =>
      refine List.nodup_cons.mpr ⟨fun hmem => ?_, ih⟩
      exact absurd (hl.rank_le hrank _ hmem) (hrank _ _ h).not_ge

end Routing

end NetSystem
