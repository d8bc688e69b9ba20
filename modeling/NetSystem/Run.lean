import Mathlib.Data.List.Infix

/-!
# Runs of a partial step function

The transition-system layer, independent of any particular program: a
component is a step function `σ → ι → Option σ`, an input that is not
enabled in a state has no step (`none`), and a run is the fold of a list
of inputs (`run`).

`Always` says that a predicate holds in every state a run passes through,
`EachStep` that a condition on (state, input) holds at every step it
takes; both quantify over the prefixes of the input list, so that
"in every reachable state" is literally what they say. The rules the
components use are

- `run_inv`: what every step preserves holds at the end of every run, and
  `run_inv_inputs`: the same with the inputs so far;
- `always_of_eachStep`: the same for steps that meet a condition, and
  `run_total_of_eachStep`: such a run gets through, also with an invariant
  on what its inputs add up to (`run_total_of_eachStep_fold`);
- `always_iff_eachStep`: if, under an invariant, a step out of a good
  state leads to a good state exactly when the condition holds of it,
  then a run is good throughout exactly when all its steps meet the
  condition;
- `eventually_of_measure`: a measure that goes down until an awaited step
  is taken bounds how long that takes;
- `stepsWhere_le`: steps of one kind that are paid for by a potential, and
  by what the others put into it, are bounded by what there was and what
  came in.
-/

namespace NetSystem

variable {σ ι : Type*} {step : σ → ι → Option σ}

/-- Feed the inputs to the step function, left to right. -/
def run (step : σ → ι → Option σ) : σ → List ι → Option σ
  | s, [] => some s
  | s, i :: is => (step s i).bind fun s' => run step s' is

@[simp] theorem run_nil (s : σ) : run step s [] = some s := rfl

theorem run_cons (s : σ) (i : ι) (is : List ι) :
    run step s (i :: is) = (step s i).bind fun s' => run step s' is := rfl

theorem run_append : ∀ (s : σ) (is js : List ι),
    run step s (is ++ js) = (run step s is).bind fun s' => run step s' js
  | s, [], js => rfl
  | s, i :: is, js => by
      rw [List.cons_append, run_cons, run_cons, Option.bind_assoc]
      congr 1
      funext s'
      exact run_append s' is js

theorem run_snoc (s : σ) (is : List ι) (i : ι) :
    run step s (is ++ [i]) = (run step s is).bind fun s' => step s' i := by
  rw [run_append]
  congr 1
  funext s'
  rw [run_cons]
  cases step s' i <;> rfl

/-- What is known of some value of an option holds of the one it has. -/
theorem of_exists_some {α : Type*} {P : α → Prop} {x : Option α} {a : α}
    (h : ∃ b, x = some b ∧ P b) (ha : x = some a) : P a := by
  obtain ⟨b, hb, hP⟩ := h
  obtain rfl := Option.some.inj (hb.symm.trans ha)
  exact hP

/-- What every step preserves holds at the end of every run. -/
theorem run_inv {P : σ → Prop}
    (hstep : ∀ s i s', P s → step s i = some s' → P s') :
    ∀ {is : List ι} {s t : σ}, P s → run step s is = some t → P t
  | [], s, t, hs, h => by
      obtain rfl := Option.some.inj h
      exact hs
  | i :: is, s, t, hs, h => by
      rw [run_cons, Option.bind_eq_some_iff] at h
      obtain ⟨s', hi, h⟩ := h
      exact run_inv hstep (hstep s i s' hs hi) h

/-- The same for an invariant that also speaks of the inputs so far, `pre`
being those before the run. -/
theorem run_inv_inputs {P : List ι → σ → Prop}
    (hstep : ∀ is s i s', P is s → step s i = some s' → P (is ++ [i]) s') :
    ∀ {is : List ι} {s t : σ} (pre : List ι), P pre s → run step s is = some t → P (pre ++ is) t
  | [], s, t, pre, hs, h => by
      obtain rfl := Option.some.inj h
      rw [List.append_nil]
      exact hs
  | i :: is, s, t, pre, hs, h => by
      rw [run_cons, Option.bind_eq_some_iff] at h
      obtain ⟨s', hi, h⟩ := h
      have hrest := run_inv_inputs hstep (pre ++ [i]) (hstep pre s i s' hs hi) h
      rw [List.append_assoc] at hrest
      exact hrest

/-- A step that an invariant always enables makes every run total. -/
theorem run_total {P : σ → Prop}
    (hstep : ∀ s i, P s → ∃ s', step s i = some s' ∧ P s') :
    ∀ (is : List ι) {s : σ}, P s → ∃ t, run step s is = some t ∧ P t
  | [], s, hs => ⟨s, rfl, hs⟩
  | i :: is, s, hs => by
      obtain ⟨s', hi, hs'⟩ := hstep s i hs
      obtain ⟨t, ht, hP⟩ := run_total hstep is hs'
      exact ⟨t, by rw [run_cons, hi]; exact ht, hP⟩

/-- A step function that never fails is folded over the inputs. -/
theorem run_some (f : σ → ι → σ) : ∀ (is : List ι) (s : σ),
    run (fun s i => some (f s i)) s is = some (is.foldl f s)
  | [], s => rfl
  | i :: is, s => by
      rw [run_cons, Option.bind_some, List.foldl_cons]
      exact run_some f is (f s i)

/-- Inputs that are decoded one at a time, as they come, might as well be
decoded first. -/
theorem run_decode {κ : Type*} (decode : κ → Option ι) : ∀ (ks : List κ) (s : σ),
    run (fun s k => (decode k).bind (step s)) s ks = (ks.mapM decode).bind (run step s)
  | [], s => rfl
  | k :: ks, s => by
      rw [run_cons, List.mapM_cons]
      cases hk : decode k with
      | none => rfl
      | some i =>
          cases hi : step s i with
          | none => cases hks : ks.mapM decode <;> simp [run_cons, hi]
          | some s' =>
              have ih := run_decode decode ks s'
              cases hks : ks.mapM decode <;> simp [hks, run_cons, hi, ih]

/-! ## Every state of a run, every step of a run -/

/-- `P` holds in every state the run passes through, first and last
included. -/
def Always (step : σ → ι → Option σ) (P : σ → Prop) (s : σ) (is : List ι) :
    Prop :=
  ∀ js t, js <+: is → run step s js = some t → P t

/-- `C` holds of every step the run takes: of the state before it and its
input. -/
def EachStep (step : σ → ι → Option σ) (C : σ → ι → Prop) (s : σ)
    (is : List ι) : Prop :=
  ∀ js i t, js ++ [i] <+: is → run step s js = some t → C t i

theorem always_nil {P : σ → Prop} {s : σ} : Always step P s [] ↔ P s := by
  constructor
  · intro h
    exact h [] s (List.prefix_refl _) rfl
  · intro hs js t hjs ht
    obtain rfl := List.prefix_nil.mp hjs
    obtain rfl := Option.some.inj ht
    exact hs

theorem always_cons {P : σ → Prop} {s : σ} {i : ι} {is : List ι} :
    Always step P s (i :: is) ↔
      P s ∧ ∀ s', step s i = some s' → Always step P s' is := by
  constructor
  · intro h
    refine ⟨h [] s List.nil_prefix rfl, fun s' hs' js t hjs ht => ?_⟩
    refine h (i :: js) t (List.cons_prefix_cons.mpr ⟨rfl, hjs⟩) ?_
    rw [run_cons, hs']
    exact ht
  · rintro ⟨hs, h⟩ js t hjs ht
    cases js with
    | nil =>
        obtain rfl := Option.some.inj ht
        exact hs
    | cons j js =>
        obtain ⟨rfl, htl⟩ := List.cons_prefix_cons.mp hjs
        rw [run_cons, Option.bind_eq_some_iff] at ht
        obtain ⟨s', hs', ht⟩ := ht
        exact h s' hs' js t htl ht

theorem eachStep_nil {C : σ → ι → Prop} {s : σ} : EachStep step C s [] := by
  intro js i t hjs
  exact absurd (List.prefix_nil.mp hjs) (by simp)

theorem eachStep_cons {C : σ → ι → Prop} {s : σ} {i : ι} {is : List ι} :
    EachStep step C s (i :: is) ↔
      C s i ∧ ∀ s', step s i = some s' → EachStep step C s' is := by
  constructor
  · intro h
    refine ⟨h [] i s (by simp) rfl, fun s' hs' js j t hjs ht => ?_⟩
    refine h (i :: js) j t ?_ ?_
    · rw [List.cons_append, List.cons_prefix_cons]
      exact ⟨rfl, hjs⟩
    · rw [run_cons, hs']
      exact ht
  · rintro ⟨hs, h⟩ js j t hjs ht
    cases js with
    | nil =>
        obtain ⟨rfl, -⟩ := List.cons_prefix_cons.mp hjs
        obtain rfl := Option.some.inj ht
        exact hs
    | cons k js =>
        rw [List.cons_append, List.cons_prefix_cons] at hjs
        obtain ⟨rfl, hjs⟩ := hjs
        rw [run_cons, Option.bind_eq_some_iff] at ht
        obtain ⟨s', hs', ht⟩ := ht
        exact h s' hs' js j t hjs ht

/-- A run can be checked by running it. -/
instance decidableEachStep {C : σ → ι → Prop} [∀ s i, Decidable (C s i)] :
    ∀ (s : σ) (is : List ι), Decidable (EachStep step C s is)
  | _, [] => isTrue eachStep_nil
  | s, i :: is =>
      match h : step s i with
      | none => decidable_of_iff (C s i) (by simp [eachStep_cons, h])
      | some s' =>
          have := decidableEachStep (C := C) s' is
          decidable_of_iff (C s i ∧ EachStep step C s' is) (by simp [eachStep_cons, h])

/-- What every step that meets a condition preserves holds throughout every
run whose steps all meet it. -/
theorem always_of_eachStep {P : σ → Prop} {C : σ → ι → Prop}
    (hstep : ∀ s i s', P s → C s i → step s i = some s' → P s') :
    ∀ {is : List ι} {s : σ}, P s → EachStep step C s is → Always step P s is
  | [], s, hs, _ => always_nil.mpr hs
  | i :: is, s, hs, h => by
      rw [eachStep_cons] at h
      rw [always_cons]
      refine ⟨hs, fun s' hs' => ?_⟩
      exact always_of_eachStep hstep (hstep s i s' hs h.1 hs') (h.2 s' hs')

/-- A step that is enabled where a condition holds makes every run total
whose steps all meet it. -/
theorem run_total_of_eachStep {P : σ → Prop} {C : σ → ι → Prop}
    (hstep : ∀ s i, P s → C s i → ∃ s', step s i = some s' ∧ P s') :
    ∀ {is : List ι} {s : σ}, P s → EachStep step C s is → ∃ t, run step s is = some t ∧ P t
  | [], s, hs, _ => ⟨s, rfl, hs⟩
  | i :: is, s, hs, h => by
      rw [eachStep_cons] at h
      obtain ⟨s', hi, hs'⟩ := hstep s i hs h.1
      obtain ⟨t, ht, hP⟩ := run_total_of_eachStep hstep hs' (h.2 s' hi)
      exact ⟨t, by rw [run_cons, hi]; exact ht, hP⟩

/-- The same for an invariant that also speaks of what the inputs so far add
up to. -/
theorem run_total_of_eachStep_fold {γ : Type*} {P : σ → γ → Prop} {C : σ → ι → Prop}
    (f : γ → ι → γ) (hstep : ∀ s g i, P s g → C s i → ∃ s', step s i = some s' ∧ P s' (f g i)) :
    ∀ {is : List ι} {s : σ} {g : γ}, P s g → EachStep step C s is →
      ∃ t, run step s is = some t ∧ P t (is.foldl f g)
  | [], s, g, hs, _ => ⟨s, rfl, hs⟩
  | i :: is, s, g, hs, h => by
      rw [eachStep_cons] at h
      obtain ⟨s', hi, hs'⟩ := hstep s g i hs h.1
      obtain ⟨t, ht, hP⟩ := run_total_of_eachStep_fold f hstep hs' (h.2 s' hi)
      exact ⟨t, by rw [run_cons, hi]; exact ht, hP⟩

/-- A run in two parts. -/
theorem eachStep_append {C : σ → ι → Prop} {s t : σ} {is js : List ι}
    (h : EachStep step C s (is ++ js)) (ht : run step s is = some t) :
    EachStep step C s is ∧ EachStep step C t js := by
  constructor
  · intro ks i u hks
    exact h ks i u (hks.trans (List.prefix_append is js))
  · intro ks i u hks hu
    refine h (is ++ ks) i u ?_ ?_
    · rw [List.append_assoc]
      exact (List.prefix_append_right_inj is).mpr hks
    · rw [run_append, ht]
      exact hu

/-- **The exact-condition rule.** Under an invariant `I`, if an enabled step
out of a good state is good exactly when `C` holds of it, and `C` says
nothing about inputs that are not enabled, then a run is good throughout
exactly when `C` holds of each of its steps. -/
theorem always_iff_eachStep_of_inv {I P : σ → Prop} {C : σ → ι → Prop}
    (hI : ∀ s i s', I s → step s i = some s' → I s')
    (hstep : ∀ s i s', I s → P s → step s i = some s' → (P s' ↔ C s i))
    (hdead : ∀ s i, I s → step s i = none → C s i) :
    ∀ {is : List ι} {s : σ}, I s → P s →
      (Always step P s is ↔ EachStep step C s is)
  | [], s, _, hP => by
      rw [always_nil]
      exact ⟨fun _ => eachStep_nil, fun _ => hP⟩
  | i :: is, s, hIs, hP => by
      rw [always_cons, eachStep_cons]
      cases hi : step s i with
      | none => simp [hP, hdead s i hIs hi]
      | some s' =>
          have hiff := hstep s i s' hIs hP hi
          have hI' := hI s i s' hIs hi
          constructor
          · rintro ⟨-, h⟩
            have hgood := h s' rfl
            have hP' : P s' := hgood [] s' List.nil_prefix rfl
            refine ⟨hiff.mp hP', fun t ht => ?_⟩
            obtain rfl := Option.some.inj ht
            exact (always_iff_eachStep_of_inv hI hstep hdead hI' hP').mp hgood
          · rintro ⟨hC, h⟩
            refine ⟨hP, fun t ht => ?_⟩
            obtain rfl := Option.some.inj ht
            exact (always_iff_eachStep_of_inv hI hstep hdead hI' (hiff.mpr hC)).mpr
              (h s' rfl)

/-- The same where the condition holds of every input that is not enabled,
in whatever state. -/
theorem always_iff_eachStep {I P : σ → Prop} {C : σ → ι → Prop}
    (hI : ∀ s i s', I s → step s i = some s' → I s')
    (hstep : ∀ s i s', I s → P s → step s i = some s' → (P s' ↔ C s i))
    (hdead : ∀ s i, step s i = none → C s i) {is : List ι} {s : σ} (hs : I s) (hP : P s) :
    Always step P s is ↔ EachStep step C s is :=
  always_iff_eachStep_of_inv hI hstep (fun s i _ => hdead s i) hs hP

/-- **The progress rule.** A measure that every step out of the invariant
lowers, unless it is one of the awaited ones, bounds the wait: a run that is
longer than the measure takes an awaited step, after at most so many others. -/
theorem eventually_of_measure {I : σ → Prop} {E : σ → ι → Prop} (m : σ → Nat)
    (hstep : ∀ s i s', I s → ¬ E s i → step s i = some s' → I s' ∧ m s' < m s) :
    ∀ {js : List ι} {s t : σ}, I s → run step s js = some t → m s < js.length →
      ∃ js₁ i s₁, js₁ ++ [i] <+: js ∧ run step s js₁ = some s₁ ∧ E s₁ i ∧
        EachStep step (fun s i => ¬ E s i) s js₁ ∧ js₁.length ≤ m s
  | [], s, t, _, _, hlen => absurd hlen (Nat.not_lt_zero _)
  | i :: js, s, t, hs, h, hlen => by
      by_cases hE : E s i
      · exact ⟨[], i, s, by simp, rfl, hE, eachStep_nil, Nat.zero_le _⟩
      · rw [run_cons, Option.bind_eq_some_iff] at h
        obtain ⟨s', hi, h⟩ := h
        obtain ⟨hs', hm⟩ := hstep s i s' hs hE hi
        rw [List.length_cons] at hlen
        obtain ⟨js₁, j, s₁, hpre, hrun, hj, hnot, hle⟩ :=
          eventually_of_measure m hstep hs' h (by omega)
        refine ⟨i :: js₁, j, s₁, ?_, ?_, hj, ?_, ?_⟩
        · rw [List.cons_append, List.cons_prefix_cons]
          exact ⟨rfl, hpre⟩
        · rw [run_cons, hi]
          exact hrun
        · rw [eachStep_cons]
          refine ⟨hE, fun t ht => ?_⟩
          obtain rfl := Option.some.inj (hi.symm.trans ht)
          exact hnot
        · rw [List.length_cons]
          omega

/-- The number of steps of a run of which `C` holds. -/
def stepsWhere (step : σ → ι → Option σ) (C : σ → ι → Bool) : σ → List ι → Nat
  | _, [] => 0
  | s, i :: is => (C s i).toNat + (step s i).elim 0 fun s' => stepsWhere step C s' is

/-- **The potential rule.** If, under an invariant, a step of which `C` holds
costs one and every step can be paid for from the potential `Φ` and from what
it adds to `gain`, then a run has no more such steps than its first potential
and its total gain. -/
theorem stepsWhere_le {I : σ → Prop} {C : σ → ι → Bool} (Φ gain : σ → Nat)
    (hstep : ∀ s i s', I s → step s i = some s' →
      I s' ∧ (C s i).toNat + Φ s' + gain s ≤ Φ s + gain s') :
    ∀ {is : List ι} {s t : σ}, I s → run step s is = some t →
      stepsWhere step C s is + Φ t + gain s ≤ Φ s + gain t
  | [], s, t, _, h => by
      obtain rfl := Option.some.inj h
      rw [stepsWhere, Nat.zero_add]
  | i :: is, s, t, hs, h => by
      rw [run_cons, Option.bind_eq_some_iff] at h
      obtain ⟨s', hi, h⟩ := h
      obtain ⟨hs', hpay⟩ := hstep s i s' hs hi
      have hrest := stepsWhere_le Φ gain hstep hs' h
      rw [stepsWhere, hi, Option.elim_some]
      omega

end NetSystem
