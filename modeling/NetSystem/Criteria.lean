import Mathlib.Data.List.Lex
import Mathlib.Data.List.Nodup
import Mathlib.Order.Lattice

/-!
# Choosing by a list of criteria

Two parts that belong together where a program picks the best of some
candidates. A comparison goes through criteria, and the first that tells the
two apart decides (`prefer`); it is the lexicographic order of the values of
the criteria (`Verdict`). And a loop goes through the candidates and keeps
the better one (`scanBest`); if the comparison is a strict order on them, it
ends with the one that beats all others, in whatever order they come
(`scanBest_eq_some_iff`).
-/

namespace NetSystem

namespace Criteria

/-! ## Criteria -/

/-- The smaller value wins, which is -1 for the first and 1 for the second;
equal values leave it to the criteria behind. -/
def prefer (x y : Nat) (behind : Int) : Int := if x < y then -1 else if y < x then 1 else behind

/-- `n` is the outcome for two lists of values. -/
structure Verdict (n : Int) (as bs : List Int) : Prop where
  first : as < bs → n = -1
  second : bs < as → n = 1

variable {n : Int} {as bs : List Int}

theorem Verdict.skip (h : Verdict n as bs) {a b : Int} (heq : a = b) :
    Verdict n (a :: as) (b :: bs) := by
  subst heq
  exact ⟨fun hlt => h.first (by simpa using hlt), fun hlt => h.second (by simpa using hlt)⟩

theorem verdict_of_lt {a b : Int} (hlt : a < b) : Verdict (-1) (a :: as) (b :: bs) := by
  refine ⟨fun _ => rfl, fun h => ?_⟩
  rcases List.cons_lt_cons_iff.mp h with h | ⟨h, -⟩
  · omega
  · omega

theorem verdict_of_gt {a b : Int} (hlt : b < a) : Verdict 1 (a :: as) (b :: bs) := by
  refine ⟨fun h => ?_, fun _ => rfl⟩
  rcases List.cons_lt_cons_iff.mp h with h | ⟨h, -⟩
  · omega
  · omega

/-- Criteria in two parts. -/
theorem append_lt_append_iff {cs ds : List Int} : ∀ {as bs : List Int}, as.length = bs.length →
    (as ++ cs < bs ++ ds ↔ as < bs ∨ (as = bs ∧ cs < ds))
  | [], [], _ => by simp
  | a :: as, b :: bs, hlen => by
      rw [List.cons_append, List.cons_append, List.cons_lt_cons_iff, List.cons_lt_cons_iff,
        append_lt_append_iff (by simpa using hlen), List.cons.injEq]
      constructor
      · rintro (hlt | ⟨rfl, hlt | ⟨rfl, hlt⟩⟩)
        · exact Or.inl (Or.inl hlt)
        · exact Or.inl (Or.inr ⟨rfl, hlt⟩)
        · exact Or.inr ⟨⟨rfl, rfl⟩, hlt⟩
      · rintro ((hlt | ⟨rfl, hlt⟩) | ⟨⟨rfl, rfl⟩, hlt⟩)
        · exact Or.inl hlt
        · exact Or.inr ⟨rfl, Or.inl hlt⟩
        · exact Or.inr ⟨rfl, Or.inr ⟨rfl, hlt⟩⟩

/-- A criterion where small values are good. -/
theorem Verdict.prefer (h : Verdict n as bs) (x y : Nat) :
    Verdict (prefer x y n) ((x : Int) :: as) ((y : Int) :: bs) := by
  rw [Criteria.prefer]
  split
  · exact verdict_of_lt (by omega)
  · split
    · exact verdict_of_gt (by omega)
    · exact h.skip (by omega)

/-- A criterion that is only there under a condition. -/
theorem Verdict.preferIf (h : Verdict n as bs) (p : Prop) [Decidable p] (x y : Nat) :
    Verdict ((if p then Criteria.prefer x y else id) n) ((if p then (x : Int) else 0) :: as)
      ((if p then (y : Int) else 0) :: bs) := by
  split
  · exact h.prefer x y
  · exact h.skip rfl

/-- A criterion where large values are good. -/
theorem Verdict.preferLarge (h : Verdict n as bs) (x y : Nat) :
    Verdict (Criteria.prefer y x n) (-(x : Int) :: as) (-(y : Int) :: bs) := by
  rw [Criteria.prefer]
  split
  · exact verdict_of_lt (by omega)
  · split
    · exact verdict_of_gt (by omega)
    · exact h.skip (by omega)

/-- A criterion that one of the two meets, or both, or none. -/
theorem Verdict.flag (h : Verdict n as bs) {p q : Prop} [Decidable p] [Decidable q]
    (hone : ¬ (p ∧ q)) :
    Verdict (if p then -1 else if q then 1 else n) ((if p then 0 else 1) :: as)
      ((if q then 0 else 1) :: bs) := by
  by_cases hp : p
  · have hq : ¬ q := fun hq => hone ⟨hp, hq⟩
    rw [if_pos hp, if_pos hp, if_neg hq]
    exact verdict_of_lt (by omega)
  · rw [if_neg hp, if_neg hp]
    by_cases hq : q
    · rw [if_pos hq, if_pos hq]
      exact verdict_of_gt (by omega)
    · rw [if_neg hq, if_neg hq]
      exact h.skip rfl

/-- Lists that differ decide. -/
theorem Verdict.iff_lt (h : Verdict n as bs) (hne : as ≠ bs) : n = -1 ↔ as < bs := by
  refine ⟨fun hn => ?_, h.first⟩
  rcases lt_trichotomy as bs with hlt | heq | hgt
  · exact hlt
  · exact absurd heq hne
  · rw [h.second hgt] at hn
    exact absurd hn (by decide)

/-! ## The loop -/

variable {α : Type*}

/-- The loop that keeps the better of what it has and what it sees. -/
def scanBest (better : α → α → Prop) [DecidableRel better] : List α → Option α → Option α
  | [], best => best
  | x :: xs, none => scanBest better xs (some x)
  | x :: xs, some b => scanBest better xs (some (if better x b then x else b))

/-- The comparison is a strict order of the candidates. -/
structure StrictOn (better : α → α → Prop) (P : α → Prop) : Prop where
  total : ∀ x y, P x → P y → x ≠ y → better x y ∨ better y x
  asymm : ∀ x y, P x → P y → x ≠ y → better x y → ¬ better y x
  trans : ∀ x y z, P x → P y → P z → better x y → better y z → x ≠ z → better x z

/-- `b` is a candidate and beats the others. -/
structure Leads (better : α → α → Prop) (P : α → Prop) (b : α) : Prop where
  mem : P b
  beats : ∀ x, P x → x ≠ b → better b x

variable {better : α → α → Prop} {P Q : α → Prop}

theorem StrictOn.mono (h : StrictOn better P) (hQ : ∀ x, Q x → P x) : StrictOn better Q :=
  ⟨fun x y hx hy => h.total x y (hQ x hx) (hQ y hy),
    fun x y hx hy => h.asymm x y (hQ x hx) (hQ y hy),
    fun x y z hx hy hz => h.trans x y z (hQ x hx) (hQ y hy) (hQ z hz)⟩

/-- Ranks that differ give a strict order. -/
theorem strictOn_of_rank {κ : Type*} [LinearOrder κ] (rank : α → κ)
    (hinj : ∀ x y, P x → P y → rank x = rank y → x = y)
    (hrank : ∀ x y, P x → P y → x ≠ y → (better x y ↔ rank x < rank y)) : StrictOn better P where
  total x y hx hy hne := by
    rw [hrank x y hx hy hne, hrank y x hy hx hne.symm]
    exact lt_or_gt_of_ne fun heq => hne (hinj x y hx hy heq)
  asymm x y hx hy hne := by
    rw [hrank x y hx hy hne, hrank y x hy hx hne.symm]
    exact lt_asymm
  trans x y z hx hy hz hxy hyz hne := by
    rw [hrank x z hx hz hne]
    by_cases hxy' : x = y
    · subst hxy'
      exact (hrank x z hx hz hne).mp hyz
    by_cases hyz' : y = z
    · subst hyz'
      exact (hrank x y hx hy hxy').mp hxy
    exact ((hrank x y hx hy hxy').mp hxy).trans ((hrank y z hy hz hyz').mp hyz)

theorem Leads.unique (hs : StrictOn better P) {b b' : α} (h : Leads better P b)
    (h' : Leads better P b') : b = b' := by
  by_contra hne
  exact hs.asymm b b' h.mem h'.mem hne (h.beats b' h'.mem (Ne.symm hne)) (h'.beats b h.mem hne)

variable [DecidableRel better]

theorem scanBest_mem {b w : α} : ∀ {l : List α}, scanBest better l (some b) = some w → w ∈ b :: l
  | [], hw => by
      rw [← Option.some.inj hw]
      exact List.mem_singleton_self b
  | x :: l, hw => by
      rw [scanBest] at hw
      rcases List.mem_cons.mp (scanBest_mem hw) with rfl | hmem
      · split
        · simp
        · simp
      · exact List.mem_cons_of_mem b (List.mem_cons_of_mem x hmem)

/-- The loop from a candidate. -/
theorem scanBest_some {b : α} {l : List α} (hs : StrictOn better fun x => x ∈ b :: l)
    (hnd : (b :: l).Nodup) :
    ∃ m, scanBest better l (some b) = some m ∧ Leads better (fun x => x ∈ b :: l) m := by
  induction l generalizing b with
  | nil =>
      refine ⟨b, rfl, List.mem_singleton_self b, fun x hx hne => ?_⟩
      exact absurd (List.mem_singleton.mp hx) hne
  | cons x l ih =>
      have hbx : b ≠ x := fun heq => by simp [heq] at hnd
      have hb : b ∈ b :: x :: l := List.mem_cons_self ..
      have hx : x ∈ b :: x :: l := List.mem_cons_of_mem _ (List.mem_cons_self ..)
      rw [scanBest]
      -- the loser of the two is beaten by whatever the rest leads to
      by_cases hbetter : better x b
      · rw [if_pos hbetter]
        obtain ⟨m, hm, hlead⟩ := ih (hs.mono fun y hy => List.mem_cons_of_mem b hy)
          (List.nodup_cons.mp hnd).2
        refine ⟨m, hm, List.mem_cons_of_mem b hlead.mem, fun y hy hne => ?_⟩
        rcases List.mem_cons.mp hy with rfl | hy
        · by_cases hmx : x = m
          · exact hmx ▸ hbetter
          · exact hs.trans m x y (List.mem_cons_of_mem y hlead.mem) hx hb
              (hlead.beats x (List.mem_cons_self ..) hmx) hbetter (Ne.symm hne)
        · exact hlead.beats y hy hne
      · rw [if_neg hbetter]
        have hnot : better b x := (hs.total b x hb hx hbx).resolve_right hbetter
        have hsub : ∀ y ∈ b :: l, y ∈ b :: x :: l := by
          intro y hy
          rcases List.mem_cons.mp hy with rfl | hy
          · exact hb
          · exact List.mem_cons_of_mem _ (List.mem_cons_of_mem _ hy)
        have hnd' : (b :: l).Nodup := hnd.sublist ((List.sublist_cons_self x l).cons_cons b)
        obtain ⟨m, hm, hlead⟩ := ih (hs.mono hsub) hnd'
        refine ⟨m, hm, hsub m hlead.mem, fun y hy hne => ?_⟩
        by_cases hyx : y = x
        · subst hyx
          by_cases hmb : b = m
          · exact hmb ▸ hnot
          · exact hs.trans m b y (hsub m hlead.mem) hb hx
              (hlead.beats b (List.mem_cons_self ..) hmb) hnot (Ne.symm hne)
        · refine hlead.beats y ?_ hne
          rcases List.mem_cons.mp hy with rfl | hy
          · exact List.mem_cons_self ..
          · exact List.mem_cons_of_mem b ((List.mem_cons.mp hy).resolve_left hyx)

/-- **The loop** finds the leader, and nothing only in an empty list. -/
theorem scanBest_eq_some_iff {l : List α} (hs : StrictOn better fun x => x ∈ l) (hnd : l.Nodup)
    {m : α} : scanBest better l none = some m ↔ Leads better (fun x => x ∈ l) m := by
  cases l with
  | nil => exact iff_of_false (by simp [scanBest]) fun h => by simpa using h.mem
  | cons b l =>
      obtain ⟨m', hm', hlead⟩ := scanBest_some hs hnd
      rw [scanBest, hm']
      refine ⟨fun h => ?_, fun h => ?_⟩
      · obtain rfl := Option.some.inj h
        exact hlead
      · rw [hlead.unique hs h]

theorem scanBest_eq_none_iff {l : List α} (hs : StrictOn better fun x => x ∈ l) (hnd : l.Nodup) :
    scanBest better l none = none ↔ l = [] := by
  cases l with
  | nil => exact iff_of_true rfl rfl
  | cons b l =>
      obtain ⟨m, hm, -⟩ := scanBest_some hs hnd
      refine iff_of_false ?_ (List.cons_ne_nil b l)
      rw [scanBest, hm]
      simp

end Criteria

end NetSystem
