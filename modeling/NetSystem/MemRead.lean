import Mathlib.Data.List.Basic

/-!
# Programs that read a memory

A `Reads β α` is a computation of an `α` that looks at a memory of `β`s
one cell at a time and may choose the next offset by what it has seen. It
runs on a memory in two ways: `eval` is the value it computes, `offsets`
the list of cells it looks at.

`Within mem n p` says that all those cells are below `n`. Its rules follow
the program text (`within_bind`, `within_ite`, `within_foldlM`), each of
them an equivalence, so that for a concrete program the least bound comes
out by rewriting. `eval_congr` says what the bound is good for: a program
that stays below `n` cannot tell two memories apart that agree there.
-/

namespace NetSystem

/-- A program over a memory of `β`s. -/
inductive Reads (β α : Type) where
  | done (a : α)
  | look (i : Nat) (k : β → Reads β α)

namespace Reads

variable {β α γ : Type}

protected def bind : Reads β α → (α → Reads β γ) → Reads β γ
  | .done a, f => f a
  | .look i k, f => .look i fun b => (k b).bind f

instance : Monad (Reads β) where
  pure := .done
  bind := Reads.bind

/-- `packet[i]`, for an array that is the memory. -/
def load (i : Nat) : Reads β β := .look i .done

def eval (mem : Nat → β) : Reads β α → α
  | .done a => a
  | .look i k => (k (mem i)).eval mem

def offsets (mem : Nat → β) : Reads β α → List Nat
  | .done _ => []
  | .look i k => i :: (k (mem i)).offsets mem

/-- Every cell the program looks at is below `n`. -/
def Within (mem : Nat → β) (n : Nat) (p : Reads β α) : Prop := ∀ i ∈ p.offsets mem, i < n

variable {mem : Nat → β} {n : Nat}

/-! ## Values -/

@[simp] theorem eval_pure (a : α) : (pure a : Reads β α).eval mem = a := rfl

@[simp] theorem eval_load (i : Nat) : (load i).eval mem = mem i := rfl

@[simp] theorem eval_bind (f : α → Reads β γ) : ∀ p : Reads β α,
    (p >>= f).eval mem = (f (p.eval mem)).eval mem
  | .done _ => rfl
  | .look i k => eval_bind f (k (mem i))

@[simp] theorem eval_ite {c : Prop} [Decidable c] (p q : Reads β α) :
    (if c then p else q).eval mem = if c then p.eval mem else q.eval mem :=
  apply_ite (eval mem) c p q

theorem eval_foldlM {ι : Type} (f : α → ι → Reads β α) : ∀ (l : List ι) (a : α),
    (l.foldlM f a).eval mem = l.foldl (fun a x => (f a x).eval mem) a
  | [], a => rfl
  | x :: l, a => by
      rw [List.foldlM_cons, eval_bind, List.foldl_cons]
      exact eval_foldlM f l _

/-! ## Cells -/

theorem offsets_bind (f : α → Reads β γ) : ∀ p : Reads β α,
    (p >>= f).offsets mem = p.offsets mem ++ (f (p.eval mem)).offsets mem
  | .done _ => rfl
  | .look i k => congrArg (i :: ·) (offsets_bind f (k (mem i)))

@[simp] theorem within_pure (a : α) : Within mem n (pure a) :=
  fun _ hi => absurd hi List.not_mem_nil

@[simp] theorem within_load (i : Nat) : Within mem n (load i) ↔ i < n := by
  simp [Within, load, offsets]

@[simp] theorem within_bind {p : Reads β α} {f : α → Reads β γ} :
    Within mem n (p >>= f) ↔ Within mem n p ∧ Within mem n (f (p.eval mem)) := by
  rw [Within, offsets_bind]
  exact List.forall_mem_append

@[simp] theorem within_ite {c : Prop} [Decidable c] {p q : Reads β α} :
    Within mem n (if c then p else q) ↔
      (c → Within mem n p) ∧ (¬ c → Within mem n q) := by
  split_ifs with hc <;> simp [hc]

/-- A loop whose body needs a condition that does not depend on the
accumulator needs it in every round. -/
theorem within_foldlM {ι : Type} {f : α → ι → Reads β α} {C : ι → Prop}
    (h : ∀ a x, Within mem n (f a x) ↔ C x) : ∀ {l : List ι} {a : α},
    Within mem n (l.foldlM f a) ↔ ∀ x ∈ l, C x
  | [], a => by simp
  | x :: l, a => by
      rw [List.foldlM_cons, within_bind, h, within_foldlM h, List.forall_mem_cons]

/-- The value depends on no other cells. -/
theorem eval_congr {mem' : Nat → β} (hmem : ∀ i < n, mem i = mem' i) : ∀ {p : Reads β α},
    Within mem n p → p.eval mem = p.eval mem'
  | .done a, _ => rfl
  | .look i k, h => by
      have hi : i < n := h i List.mem_cons_self
      have hk : Within mem n (k (mem i)) := fun j hj => h j (List.mem_cons_of_mem i hj)
      rw [eval, eval, ← hmem i hi]
      exact eval_congr hmem hk

end Reads

end NetSystem
