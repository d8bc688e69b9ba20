import NetSystem.TableTree

/-!
# Iteration over the routing table

`route_next` and `route_table_get_next` of `lib/table.c`: the node that comes
after a node, found from its links and parents, and the node that comes
after a prefix, found from the top whether the prefix is in the table or not.

Both are the first of the nodes that are greater in the lexicographic order
of the bits (`nextOf_spec`, `getNextInternal_spec`): the nodes, each before
its subtrees and the left subtree first, are in this order (`Sound.sorted`).
-/

namespace NetSystem

namespace RouteTable

open BitPrefix

namespace Node

variable {V : Type*}

/-! ## Next nodes -/

/-- What is looked at of a parent on the way up. -/
structure Frame (V : Type*) where
  isLeft : Bool
  right : Node V

/-- A pointer to the node. -/
def key? : Node V → Option Key
  | null => none
  | node p _ _ _ => some p.bits

def routeGetSubtreeNext : List (Frame V) → Option Key
  | [] => none
  | parent :: parents =>
      if parent.isLeft ∧ ¬ parent.right.isNull then parent.right.key?
      else routeGetSubtreeNext parents

/-- `route_next`, without the locks. -/
def routeNext : Node V → List (Frame V) → Option Key
  | null, _ => none
  | node _ _ _ link, parents =>
      if ¬ (link false).isNull then (link false).key?
      else if ¬ (link true).isNull then (link true).key?
      else routeGetSubtreeNext parents

/-- `route_next` of the node `k`; `none` if there is no such node. -/
def nextOf (k : Key) : Node V → List (Frame V) → Option (Option Key)
  | null, _ => none
  | node p lock info link, parents =>
      if p.bits = k then some (routeNext (node p lock info link) parents)
      else nextOf k (link (wayTo k p)) (⟨!wayTo k p, link true⟩ :: parents)

/-- `route_table_get_next_internal`; `none` is a failed assertion. -/
def getNextInternal (p : Prefix) : Node V → List (Frame V) → Option (Option Key)
  | null, _ => some none
  | node q lock info link, parents =>
      if (if q.prefixlen < p.prefixlen then prefixMatch q p else prefixMatch p q) = true then
        if q.prefixlen = p.prefixlen then some (routeNext (node q lock info link) parents)
        else if q.prefixlen > p.prefixlen then some (some q.bits)
        else if ¬ (link (prefixBit p.u q.prefixlen)).isNull then
          getNextInternal p (link (prefixBit p.u q.prefixlen))
            (⟨!prefixBit p.u q.prefixlen, link true⟩ :: parents)
        else if ¬ (link true).isNull then some (link true).key?
        else some (routeGetSubtreeNext parents)
      else
        (iterCmp q p).bind fun cmp =>
          if cmp > 0 then some (some q.bits)
          else if cmp < 0 then some (routeGetSubtreeNext parents)
          else none

/-! ## Order -/

/-- The nodes that come after a subtree. -/
def after (parents : List (Frame V)) : List Key :=
  parents.flatMap fun parent => if parent.isLeft then parent.right.keys else []

theorem head?_keys (t : Node V) : t.keys.head? = t.key? := by
  cases t <;> rfl

theorem keys_eq_nil {t : Node V} : t.keys = [] ↔ t.isNull = true := by
  cases t <;> simp [keys, isNull]

theorem Sound.prefix_of_mem {ctx k : Key} {t : Node V} (h : Sound ctx t) (hk : k ∈ t.keys) :
    ctx <+: k := by
  by_contra hno
  exact (h.absent hno).2.2 hk

/-- The nodes are in lexicographic order. -/
theorem Sound.sorted {ctx : Key} {t : Node V} (h : Sound ctx t) : t.keys.Pairwise (· < ·) := by
  induction t generalizing ctx with
  | null => exact .nil
  | node p lock info link ih =>
      have hmem : ∀ b, ∀ k ∈ keys (link b), p.bits ++ [b] <+: k :=
        fun b k hk => (h.2.2 b).prefix_of_mem hk
      rw [keys, List.pairwise_cons, List.pairwise_append]
      refine ⟨fun k hk => ?_, ih false (h.2.2 false), ih true (h.2.2 true), fun k hk k' hk' => ?_⟩
      · rcases List.mem_append.mp hk with hk | hk
        · exact prefix_snoc_lt (hmem false k hk)
        · exact prefix_snoc_lt (hmem true k hk)
      · exact lt_of_branch (hmem false k hk) (hmem true k' hk')

theorem routeGetSubtreeNext_eq (parents : List (Frame V)) :
    routeGetSubtreeNext parents = (after parents).head? := by
  induction parents with
  | nil => rfl
  | cons parent parents ih =>
      rw [routeGetSubtreeNext, after, List.flatMap_cons, ← after]
      cases hleft : parent.isLeft with
      | false => simpa using ih
      | true =>
          cases hnull : parent.right.isNull with
          | true => simpa [keys_eq_nil.mpr hnull] using ih
          | false =>
              rw [if_pos (by simp), if_pos rfl, List.head?_append, head?_keys]
              cases hright : parent.right with
              | null => simp [hright, isNull] at hnull
              | node p lock info link => rfl

theorem routeNext_eq (p : Prefix) (lock : Nat) (info : Option V) (link : Bool → Node V)
    (parents : List (Frame V)) :
    routeNext (node p lock info link) parents =
      (keys (link false) ++ keys (link true) ++ after parents).head? := by
  rw [routeNext]
  cases hleft : link false with
  | node q lock' info' link' => rfl
  | null =>
      cases hright : link true with
      | node q lock' info' link' => rfl
      | null => exact routeGetSubtreeNext_eq parents

/-! ## The least greater node -/

/-- The first greater key of a list. -/
def firstAbove (k : Key) (l : List Key) : Option Key := l.find? fun x => decide (k < x)

theorem firstAbove_append {k : Key} {l l' : List Key} (h : ∀ x ∈ l, x ≤ k) :
    firstAbove k (l ++ l') = firstAbove k l' := by
  have hnone : l.find? (fun x => decide (k < x)) = none := by
    rw [List.find?_eq_none]
    intro x hx
    simpa using h x hx
  rw [firstAbove, List.find?_append, hnone]
  rfl

theorem firstAbove_eq_head? {k : Key} {l : List Key} (h : ∀ x ∈ l, k < x) :
    firstAbove k l = l.head? := by
  cases l with
  | nil => rfl
  | cons x l => simp [firstAbove, h x (List.mem_cons_self ..)]

section Frames

variable {ctx k : Key} {p : Prefix} {lock : Nat} {info : Option V} {link : Bool → Node V}
  {b : Bool} {parents : List (Frame V)}

theorem after_cons : after (⟨!b, link true⟩ :: parents) =
    (if b then [] else keys (link true)) ++ after parents := by
  cases b <;> simp [after]

/-- What comes before the subtree of link `b` is not greater than what
belongs there. -/
theorem Sound.firstAbove_below (h : Sound ctx (node p lock info link))
    (hk : p.bits ++ [b] <+: k) :
    firstAbove k (keys (node p lock info link) ++ after parents) =
      firstAbove k (keys (link b) ++ after (⟨!b, link true⟩ :: parents)) := by
  have hself : ∀ x ∈ [p.bits], x ≤ k := by
    intro x hx
    rw [List.mem_singleton.mp hx]
    exact (prefix_snoc_lt hk).le
  rw [after_cons, keys, ← List.singleton_append, List.append_assoc, firstAbove_append hself]
  cases b with
  | false => simp
  | true =>
      have hleft : ∀ x ∈ keys (link false), x ≤ k := fun x hx =>
        (lt_of_branch ((h.2.2 false).prefix_of_mem hx) hk).le
      rw [List.append_assoc, firstAbove_append hleft]
      simp

/-- What comes after the subtree of link `b` is greater than what belongs
there. -/
theorem Sound.after_below (h : Sound ctx (node p lock info link)) (hk : p.bits ++ [b] <+: k)
    (hafter : ∀ x ∈ after parents, k < x) :
    ∀ x ∈ after (⟨!b, link true⟩ :: parents), k < x := by
  intro x hx
  rw [after_cons] at hx
  rcases List.mem_append.mp hx with hx | hx
  · cases b with
    | false => exact lt_of_branch hk ((h.2.2 true).prefix_of_mem (by simpa using hx))
    | true => simp at hx
  · exact hafter x hx

/-- Where the way to a prefix ends at the missing link `b`. -/
theorem getNext_missing (hlink : (link b).isNull = true) :
    (if ¬ (link true).isNull then (link true).key? else routeGetSubtreeNext parents) =
      (after (⟨!b, link true⟩ :: parents)).head? := by
  rw [after_cons]
  cases hright : link true with
  | null =>
      rw [if_neg (by simp [isNull]), routeGetSubtreeNext_eq]
      simp [keys]
  | node q lock' info' link' =>
      have hb : b = false := by
        cases b with
        | false => rfl
        | true =>
            rw [hright] at hlink
            cases hlink
      rw [if_pos (by simp [isNull]), hb]
      rfl

/-- Everything behind a node is greater. -/
theorem Sound.firstAbove_self (h : Sound ctx (node p lock info link))
    (hafter : ∀ x ∈ after parents, p.bits < x) :
    firstAbove p.bits (keys (node p lock info link) ++ after parents) =
      routeNext (node p lock info link) parents := by
  have hself : ∀ x ∈ [p.bits], x ≤ p.bits := by simp
  rw [routeNext_eq, keys, ← List.singleton_append, List.append_assoc, firstAbove_append hself]
  refine firstAbove_eq_head? fun x hx => ?_
  rcases List.mem_append.mp hx with hx | hx
  · rcases List.mem_append.mp hx with hx | hx
    · exact prefix_snoc_lt ((h.2.2 false).prefix_of_mem hx)
    · exact prefix_snoc_lt ((h.2.2 true).prefix_of_mem hx)
  · exact hafter x hx

end Frames

/-- **`route_next`** -/
theorem nextOf_spec {ctx k : Key} {t : Node V} (parents : List (Frame V)) (h : Sound ctx t)
    (hk : k ∈ t.keys) (hafter : ∀ x ∈ after parents, k < x) :
    nextOf k t parents = some (firstAbove k (t.keys ++ after parents)) := by
  induction t generalizing ctx parents with
  | null => simp [keys] at hk
  | node p lock info link ih =>
      rw [nextOf]
      rcases place p k with rfl | ⟨b, hbelow⟩ | hother
      · rw [if_pos rfl, h.firstAbove_self hafter]
      · rw [if_neg (not_prefix_of_extends hbelow), wayTo_eq hbelow, h.firstAbove_below hbelow]
        exact ih b _ (h.2.2 b) ((h.at_child hbelow).2.2.mp hk) (h.after_below hbelow hafter)
      · exact absurd hk (h.at_other hother).2.2

/-- A subtree that comes before `k` and does not contain it does so as a
whole. -/
theorem Sound.le_of_lt {ctx k : Key} {p : Prefix} {lock : Nat} {info : Option V}
    {link : Bool → Node V} (h : Sound ctx (node p lock info link)) (hlt : p.bits < k)
    (hno : ¬ p.bits <+: k) {x : Key} (hx : x ∈ keys (node p lock info link)) : x ≤ k := by
  have hbelow : p.bits <+: x := by
    by_contra hnot
    exact (h.at_other hnot).2.2 hx
  rcases prefix_or_parts p.bits k with hpre | hpre | ⟨u, b, hparts⟩
  · exact absurd hpre hno
  · exact absurd (prefix_le hpre) hlt.not_ge
  · have hb := hparts.lt_iff.mp hlt
    rw [hb] at hparts
    exact (lt_of_branch (hparts.left.trans hbelow) hparts.right).le

/-- The two prefixes are related, or `iter_cmp` decides. -/
theorem getNext_match {p q : Prefix} :
    (if q.prefixlen < p.prefixlen then prefixMatch q p else prefixMatch p q) = true ↔
      q.bits <+: p.bits ∨ p.bits <+: q.bits := by
  split
  · rename_i hlt
    rw [prefixMatch_iff, or_iff_left]
    intro hpre
    have := hpre.length_le
    rw [p.length_bits, q.length_bits] at this
    omega
  · rename_i hge
    rw [prefixMatch_iff]
    refine ⟨Or.inr, fun h => h.elim (fun hpre => ?_) id⟩
    have hlen := hpre.length_le
    rw [p.length_bits, q.length_bits] at hlen
    have heq : q.bits = p.bits := hpre.eq_of_length (by simp; omega)
    exact heq ▸ List.prefix_refl _

/-- **`route_table_get_next`**, for any prefix, and no assertion fails. -/
theorem getNextInternal_spec {ctx : Key} {p : Prefix} {t : Node V} (parents : List (Frame V))
    (h : Sound ctx t) (hafter : ∀ x ∈ after parents, p.bits < x)
    (hnull : t.isNull = false ∨ parents = []) :
    getNextInternal p t parents = some (firstAbove p.bits (t.keys ++ after parents)) := by
  induction t generalizing ctx parents with
  | null =>
      rcases hnull with hnull | rfl
      · cases hnull
      · rfl
  | node q lock info link ih =>
      have hfirst : p.bits < q.bits →
          firstAbove p.bits (keys (node q lock info link) ++ after parents) = some q.bits := by
        intro hlt
        simp [firstAbove, keys, hlt]
      rw [getNextInternal]
      by_cases hmatch : q.bits <+: p.bits ∨ p.bits <+: q.bits
      · rw [if_pos (getNext_match.mpr hmatch)]
        split
        · rename_i hlen
          have hsame : q.bits = p.bits := by
            rcases hmatch with hpre | hpre
            · exact hpre.eq_of_length (by simpa using hlen)
            · exact (hpre.eq_of_length (by simpa using hlen.symm)).symm
          rw [← hsame, h.firstAbove_self (hsame ▸ hafter)]
        · rename_i hne
          split
          · rename_i hgt
            have hpre : p.bits <+: q.bits := hmatch.resolve_left fun hpre => by
              have := hpre.length_le
              rw [p.length_bits, q.length_bits] at this
              omega
            rw [hfirst (prefix_lt hpre fun heq => hne ?_)]
            simpa using (congrArg List.length heq).symm
          · rename_i hle
            have hpre : q.bits <+: p.bits := hmatch.elim id fun hpre => by
              have := hpre.length_le
              rw [p.length_bits, q.length_bits] at this
              omega
            have hbit := (bits_snoc_prefix_iff hpre (by omega)).mpr
              (rfl : prefixBit p.u q.prefixlen = prefixBit p.u q.prefixlen)
            generalize prefixBit p.u q.prefixlen = b at hbit ⊢
            have hafter' := h.after_below hbit hafter
            rw [h.firstAbove_below hbit]
            cases hlink : (link b).isNull with
            | false =>
                rw [if_pos (by simp)]
                exact ih b _ (h.2.2 b) hafter' (Or.inl hlink)
            | true =>
                rw [if_neg (by simp), ← apply_ite some, getNext_missing hlink,
                  keys_eq_nil.mpr hlink, List.nil_append, firstAbove_eq_head? hafter']
      · rw [if_neg fun hc => hmatch (getNext_match.mp hc), iterCmp_eq, Option.bind_some]
        rw [not_or] at hmatch
        have hne : q.bits ≠ p.bits := fun heq => hmatch.1 (heq ▸ List.prefix_refl _)
        rw [if_neg hne]
        by_cases hlt : q.bits < p.bits
        · rw [if_pos hlt, if_neg (by decide), if_pos (by decide), routeGetSubtreeNext_eq,
            firstAbove_append fun x hx => h.le_of_lt hlt hmatch.1 hx, firstAbove_eq_head? hafter]
        · rw [if_neg hlt, if_pos (by decide), hfirst (lt_of_le_of_ne (not_lt.mp hlt) (Ne.symm hne))]

end Node

end RouteTable

end NetSystem
