import Mathlib.Data.List.Basic
import NetSystem.BrgrHandler

/-!
# Link commands of a tunnel daemon

What the two tunnel daemons have in common: one block of link commands per
tunnel, numbered from the first value of the counter, with the bridge made
and its physical port enslaved in the first block only (`block`). `Orderly`
says what such a sequence is asked for, and `trace_orderly` that blocks one
after the other satisfy it.

`Precedes a b l` is about lists in general: every `b` in `l` stands behind
some `a`.
-/

namespace NetSystem

/-! ## Precedence in a list -/

section Precedes

variable {α : Type*}

/-- Every `b` of the list stands behind an `a`. -/
def Precedes (a b : α) (l : List α) : Prop := ∀ pre post, l = pre ++ b :: post → a ∈ pre

@[simp] theorem precedes_nil (a b : α) : Precedes a b [] := by
  intro pre post h
  simp at h

@[simp] theorem precedes_cons {a b x : α} {l : List α} :
    Precedes a b (x :: l) ↔ x ≠ b ∧ (x = a ∨ Precedes a b l) := by
  constructor
  · intro h
    refine ⟨fun hx => ?_, ?_⟩
    · subst hx
      exact absurd (h [] l rfl) (by simp)
    · by_cases hx : x = a
      · exact Or.inl hx
      · refine Or.inr fun pre post hl => ?_
        have hmem := h (x :: pre) post (by rw [hl, List.cons_append])
        rcases List.mem_cons.mp hmem with rfl | hmem
        · exact absurd rfl hx
        · exact hmem
  · rintro ⟨hne, h⟩ pre post hl
    cases pre with
    | nil => exact absurd (List.cons.inj hl).1 hne
    | cons y pre =>
        rw [List.cons_append, List.cons.injEq] at hl
        obtain ⟨rfl, hl⟩ := hl
        rcases h with rfl | h
        · exact List.mem_cons_self ..
        · exact List.mem_cons_of_mem _ (h pre post hl)

/-- Behind a list that has an `a`, anything goes. -/
theorem Precedes.append {a b : α} : ∀ {l m : List α}, Precedes a b l → (a ∈ l ∨ Precedes a b m) →
    Precedes a b (l ++ m)
  | [], m, _, hm => by simpa using hm
  | x :: l, m, hl, hm => by
      rw [precedes_cons] at hl
      rw [List.cons_append, precedes_cons]
      refine ⟨hl.1, ?_⟩
      rcases hl.2 with hx | hl
      · exact Or.inl hx
      · by_cases hx : x = a
        · exact Or.inl hx
        · refine Or.inr (hl.append (hm.imp_left fun hmem => ?_))
          exact (List.mem_cons.mp hmem).resolve_left fun heq => hx heq.symm

end Precedes

/-! ## Blocks of commands -/

namespace Brgr

/-- A command that makes or changes a link; the operands that no other
command refers to are left out. -/
inductive LinkOp where
  | addTunnel (k : Nat)
  | addBridge (br : Str)
  | setUp (dev : Str)
  | addIf (br dev : Str)
deriving DecidableEq, Repr

/-- How a daemon numbers its tunnels, what it calls the bridge, and whether
it sets the bridge up with every tunnel or with the first one only. -/
structure Plan where
  first : Nat
  br : Str
  upEach : Bool
  br_ne : ∀ k, br ≠ greName k

variable (p : Plan)

def ethPort : Str := "BRGr-eth0".toList

def block (k : Nat) : List LinkOp :=
  [LinkOp.addTunnel k, .setUp (greName k)]
    ++ (if k = p.first then [LinkOp.addBridge p.br, .addIf p.br ethPort] else [])
    ++ [LinkOp.addIf p.br (greName k)]
    ++ (if p.upEach = true ∨ k = p.first then [LinkOp.setUp p.br] else [])

/-- The blocks of `n` tunnels. -/
def trace (n : Nat) : List LinkOp := (List.range' p.first n).flatMap (block p)

theorem trace_succ (n : Nat) : trace p (n + 1) = trace p n ++ block p (p.first + n) := by
  simp [trace, List.range'_concat]

/-- What the command sequence of `n` tunnels is asked for: the tunnels are
created, set up and enslaved once each, in this order, under consecutive
numbers; the bridge is made once, before anything is enslaved to it, and set
up, behind the first tunnel; the physical port is enslaved once, and nothing
is enslaved to another bridge. -/
structure Orderly (n : Nat) (ops : List LinkOp) : Prop where
  numbers : ops.filterMap (fun op => match op with | .addTunnel k => some k | _ => none) =
    List.range' p.first n
  created : ∀ k, ops.count (.addTunnel k) = if p.first ≤ k ∧ k < p.first + n then 1 else 0
  setUp : ∀ k, ops.count (.setUp (greName k)) = if p.first ≤ k ∧ k < p.first + n then 1 else 0
  enslaved : ∀ k, ops.count (.addIf p.br (greName k)) =
    if p.first ≤ k ∧ k < p.first + n then 1 else 0
  bridge : ops.count (.addBridge p.br) = 1
  port : ops.count (.addIf p.br ethPort) = 1
  onto : ∀ br dev, .addIf br dev ∈ ops → br = p.br
  bridgeUp : .setUp p.br ∈ ops
  createdFirst : ∀ k, Precedes (.addTunnel k) (.setUp (greName k)) ops ∧
    Precedes (.addTunnel k) (.addIf p.br (greName k)) ops
  bridgeFirst : ∀ dev, Precedes (.addBridge p.br) (.addIf p.br dev) ops
  bridgeLast : Precedes (.addIf p.br (greName p.first)) (.setUp p.br) ops

/-! ## The blocks are orderly -/

theorem greName_injective : Function.Injective greName := by
  intro j k h
  exact digits_injective (List.append_cancel_left h)

@[simp] theorem greName_inj {j k : Nat} : greName j = greName k ↔ j = k :=
  greName_injective.eq_iff

@[simp] theorem greName_ne_ethPort (k : Nat) : greName k ≠ ethPort := by
  intro h
  exact absurd (List.cons.inj h).1 (by decide)

@[simp] theorem ethPort_ne_greName (k : Nat) : ethPort ≠ greName k := (greName_ne_ethPort k).symm

@[simp] theorem Plan.br_ne_greName (k : Nat) : p.br ≠ greName k := p.br_ne k

@[simp] theorem Plan.greName_ne_br (k : Nat) : greName k ≠ p.br := (p.br_ne k).symm

theorem count_block_addTunnel (j k : Nat) :
    (block p j).count (.addTunnel k) = if j = k then 1 else 0 := by
  unfold block
  split <;> split <;> simp [List.count_cons]

theorem count_block_setUp (j k : Nat) :
    (block p j).count (.setUp (greName k)) = if j = k then 1 else 0 := by
  unfold block
  split <;> split <;> simp [List.count_cons]

theorem count_block_addIf (j k : Nat) :
    (block p j).count (.addIf p.br (greName k)) = if j = k then 1 else 0 := by
  unfold block
  split <;> split <;> simp [List.count_cons]

theorem count_block_addBridge (j : Nat) :
    (block p j).count (.addBridge p.br) = if j = p.first then 1 else 0 := by
  unfold block
  split <;> split <;> simp

theorem count_block_ethPort (j : Nat) :
    (block p j).count (.addIf p.br ethPort) = if j = p.first then 1 else 0 := by
  unfold block
  split <;> split <;> simp

theorem precedes_block_setUp (j k : Nat) :
    Precedes (.addTunnel k) (.setUp (greName k)) (block p j) := by
  unfold block
  by_cases h : j = k
  · simp [h]
  · split <;> split <;> simp [h]

theorem precedes_block_addIf (j k : Nat) :
    Precedes (.addTunnel k) (.addIf p.br (greName k)) (block p j) := by
  unfold block
  by_cases h : j = k
  · simp [h]
  · split <;> split <;> simp [h]

/-- A command that stands in block `k` only, once, stands once in the
blocks of `n` tunnels if `k` is among them. -/
theorem count_trace {op : LinkOp} {k : Nat}
    (h : ∀ j, (block p j).count op = if j = k then 1 else 0) :
    ∀ n, (trace p n).count op = if p.first ≤ k ∧ k < p.first + n then 1 else 0
  | 0 => by
      rw [if_neg (by omega)]
      rfl
  | n + 1 => by
      rw [trace_succ, List.count_append, count_trace h n, h]
      rcases Nat.lt_trichotomy k (p.first + n) with hk | rfl | hk
      · rw [if_neg (show ¬ p.first + n = k by omega), Nat.add_zero]
        congr 1
        simp only [eq_iff_iff]
        omega
      · simp
      · rw [if_neg (by omega), if_neg (by omega), if_neg (by omega)]

/-- What each block puts in order is in order in all of them. -/
theorem precedes_trace {a b : LinkOp} (h : ∀ j, Precedes a b (block p j)) :
    ∀ n, Precedes a b (trace p n)
  | 0 => precedes_nil a b
  | n + 1 => by
      rw [trace_succ]
      exact (precedes_trace h n).append (Or.inr (h _))

/-- What the first block starts is behind it in all later ones. -/
theorem precedes_trace_of_first {a b : LinkOp} (h : Precedes a b (block p p.first))
    (ha : a ∈ block p p.first) : ∀ n, Precedes a b (trace p n)
  | 0 => precedes_nil a b
  | n + 1 => by
      rw [trace, List.range'_succ, List.flatMap_cons]
      exact h.append (Or.inl ha)

theorem trace_numbers (n : Nat) :
    (trace p n).filterMap (fun op => match op with | .addTunnel k => some k | _ => none) =
      List.range' p.first n := by
  induction n with
  | zero => rfl
  | succ n ih =>
      rw [trace_succ, List.filterMap_append, ih, List.range'_concat]
      congr 1
      unfold block
      split <;> split <;> simp

theorem mem_trace_of_first {op : LinkOp} (h : op ∈ block p p.first) {n : Nat} (hn : 0 < n) :
    op ∈ trace p n := by
  obtain ⟨m, rfl⟩ := Nat.exists_eq_succ_of_ne_zero hn.ne'
  rw [trace, List.range'_succ, List.flatMap_cons]
  exact List.mem_append_left _ h

/-- Blocks one after the other are an orderly sequence. -/
theorem trace_orderly {n : Nat} (hn : 0 < n) : Orderly p n (trace p n) where
  numbers := trace_numbers p n
  created k := count_trace p (fun j => count_block_addTunnel p j k) n
  setUp k := count_trace p (fun j => count_block_setUp p j k) n
  enslaved k := count_trace p (fun j => count_block_addIf p j k) n
  bridge := by
    rw [count_trace p (count_block_addBridge p) n, if_pos (by omega)]
  port := by
    rw [count_trace p (count_block_ethPort p) n, if_pos (by omega)]
  onto br dev h := by
    obtain ⟨j, -, hj⟩ := List.mem_flatMap.mp h
    unfold block at hj
    split at hj <;> split at hj <;> simp at hj <;> tauto
  bridgeUp := mem_trace_of_first p (by simp [block]) hn
  createdFirst k := ⟨precedes_trace p (fun j => precedes_block_setUp p j k) n,
    precedes_trace p (fun j => precedes_block_addIf p j k) n⟩
  bridgeFirst dev := precedes_trace_of_first p (by simp [block]) (by simp [block]) n
  bridgeLast := precedes_trace_of_first p (by simp [block]) (by simp [block]) n

end Brgr

end NetSystem
