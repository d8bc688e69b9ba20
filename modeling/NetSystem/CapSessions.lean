import Mathlib.Algebra.Order.Ring.Rat
import Mathlib.Data.List.Chain
import Mathlib.Tactic.Ring

/-!
# Connection times in the capture parser

`parser.py`, the second half of `MyParser`: from the log `ts` of
association and disassociation events to the connection times `dur1` and
`dur2`. Three passes: close an open last session at second 60, insert the
missing disassociations, add up the entries in pairs.

The log's meaning is `spent`: every association lasts until the next event
of the log. `session_durations` says that the three passes compute it, for
every log that starts with an association and has no two disassociations
in a row. For other logs `spans` says what is counted, without the inserted
entries (`pairTime_completed`).
-/

namespace NetSystem

namespace Cap

inductive Kind where
  | ass
  | dis
deriving DecidableEq, Repr

/-- An entry of `ts`. The address is a formatted MAC address, or the number
0 of the entry the parser appends itself (`none`). -/
structure Entry (Addr : Type*) where
  addr : Option Addr
  kind : Kind
  time : ℚ
deriving DecidableEq, Repr

variable {Addr : Type*}

/-! ## The three passes -/

/-- `if ts[-1][1] == 'ass': ts.append((0,'dis',60))`; `none` is the
`IndexError` on an empty log. -/
def closeLast (ts : List (Entry Addr)) : Option (List (Entry Addr)) :=
  ts.getLast?.map fun e => if e.kind = .ass then ts ++ [⟨none, .dis, 60⟩] else ts

/-- The loop that builds `ts_new`. -/
def insertDis : List (Entry Addr) → List (Entry Addr)
  | [] => []
  | [e] => [e]
  | e :: f :: ts =>
      if f.kind = .ass ∧ e.kind = .ass then
        e :: ⟨e.addr, .dis, f.time⟩ :: insertDis (f :: ts)
      else e :: insertDis (f :: ts)

/-- The loop over `range(len(ts_new)-1)` at even `t`: the entries in pairs.
An odd last entry is not visited. -/
def addUp [DecidableEq Addr] (AP1 : Addr) : ℚ × ℚ → List (Entry Addr) → ℚ × ℚ
  | (dur1, dur2), e :: f :: ts =>
      let dur := f.time - e.time
      if e.addr = some AP1 then addUp AP1 (dur1 + dur, dur2) ts
      else addUp AP1 (dur1, dur2 + dur) ts
  | dur, _ => dur

/-- `ts_new`. -/
def tsNew (ts : List (Entry Addr)) : Option (List (Entry Addr)) := (closeLast ts).map insertDis

/-- `dur1` and `dur2`. -/
def durations [DecidableEq Addr] (AP1 : Addr) (ts : List (Entry Addr)) : Option (ℚ × ℚ) :=
  (tsNew ts).map (addUp AP1 (0, 0))

/-! ## What a log means -/

/-- Time of the next event, or 60 if there is none. -/
def nextTime : List (Entry Addr) → ℚ
  | [] => 60
  | f :: _ => f.time

/-- Over the association events of the log that satisfy `p`: the time from
the event to the next one. -/
def spent (p : Entry Addr → Bool) : List (Entry Addr) → ℚ
  | [] => 0
  | e :: ts => (if e.kind = .ass ∧ p e then nextTime ts - e.time else 0) + spent p ts

/-- The entries are 'ass' at even and 'dis' at odd positions. -/
def Alternates (ts : List (Entry Addr)) : Prop :=
  ∀ i (h : i < ts.length), ts[i].kind = if i % 2 = 0 then .ass else .dis

/-- The log starts with an association and has no two adjacent
disassociations. -/
structure WellFormed (ts : List (Entry Addr)) : Prop where
  head : ∃ e, ts.head? = some e ∧ e.kind = .ass
  noTwoDis : ts.IsChain fun e f => ¬ (e.kind = .dis ∧ f.kind = .dis)

/-! ## Closed logs -/

/-- A log whose sessions are all closed: what the passes make of it. -/
inductive Sessions : List (Entry Addr) → Prop where
  | nil : Sessions []
  | cons {e f : Entry Addr} {ts : List (Entry Addr)} (he : e.kind = .ass) (hf : f.kind = .dis)
      (h : Sessions ts) : Sessions (e :: f :: ts)

theorem Sessions.even {ts : List (Entry Addr)} (h : Sessions ts) : ts.length % 2 = 0 := by
  induction h with
  | nil => rfl
  | cons he hf h ih => simp only [List.length_cons]; omega

theorem Sessions.alternates {ts : List (Entry Addr)} (h : Sessions ts) : Alternates ts := by
  induction h with
  | nil => intro i hi; simp at hi
  | cons he hf h ih =>
      intro i hi
      match i, hi with
      | 0, _ => simpa using he
      | 1, _ => simpa using hf
      | i + 2, hi =>
          have := ih i (by simpa using hi)
          simpa using this

/-- The time from the first to the second entry of each pair whose first
entry satisfies `p`. -/
def pairTime (p : Entry Addr → Bool) : List (Entry Addr) → ℚ
  | e :: f :: ts => (if p e then f.time - e.time else 0) + pairTime p ts
  | _ => 0

/-- The last pass splits the pairs' time between the two counters. -/
theorem addUp_eq [DecidableEq Addr] (AP1 : Addr) : ∀ (d : ℚ × ℚ) (ts : List (Entry Addr)),
    addUp AP1 d ts = (d.1 + pairTime (fun e => decide (e.addr = some AP1)) ts,
      d.2 + pairTime (fun e => !decide (e.addr = some AP1)) ts)
  | d, [] => by simp [addUp, pairTime]
  | d, [e] => by simp [addUp, pairTime]
  | (d1, d2), e :: f :: ts => by
      rw [addUp]
      by_cases hap : e.addr = some AP1
      · simp only [hap, if_true, addUp_eq AP1 _ ts, pairTime]
        simp [add_assoc]
      · simp only [hap, if_false, addUp_eq AP1 _ ts, pairTime]
        simp [add_assoc]

/-- The log with its last session closed and the missing disassociations
inserted; empty if there is no log. -/
def completed (ts : List (Entry Addr)) : List (Entry Addr) := (tsNew ts).getD []

theorem durations_completed [DecidableEq Addr] (AP1 : Addr) {ts : List (Entry Addr)}
    (h : ts ≠ []) : durations AP1 ts = some (addUp AP1 (0, 0) (completed ts)) := by
  have hnew : tsNew ts = some (completed ts) := by
    rw [completed, tsNew, closeLast, List.getLast?_eq_getLast_of_ne_nil h]
    rfl
  rw [durations, hnew, Option.map_some]

/-- In a list of sessions the pairs are the sessions. -/
theorem pairTime_sessions (p : Entry Addr → Bool) {ts : List (Entry Addr)} (h : Sessions ts) :
    pairTime p ts = spent p ts := by
  induction h with
  | nil => rfl
  | @cons e f ts he hf h ih => simp [pairTime, spent, nextTime, he, hf, ih]

/-! ## The insertion pass -/

/-- On a log that ends closed, the pass makes sessions of it and leaves the
time spent as it was. -/
theorem insertDis_sessions : ∀ {e : Entry Addr} {ts : List (Entry Addr)}, e.kind = .ass →
    (e :: ts).IsChain (fun e f => ¬ (e.kind = .dis ∧ f.kind = .dis)) →
    (∀ l, (e :: ts).getLast? = some l → l.kind = .dis) →
    Sessions (insertDis (e :: ts)) ∧ ∀ p, spent p (insertDis (e :: ts)) = spent p (e :: ts)
  | e, [], he, _, hlast => by
      have hdis := hlast e rfl
      rw [he] at hdis
      cases hdis
  | e, f :: ts, he, hchain, hlast => by
      rw [List.isChain_cons_cons] at hchain
      simp only [List.getLast?_cons_cons] at hlast
      cases hf : f.kind with
      | ass =>
          obtain ⟨hses, hspent⟩ := insertDis_sessions hf hchain.2 hlast
          rw [insertDis, if_pos ⟨hf, he⟩]
          refine ⟨.cons he rfl hses, fun p => ?_⟩
          simp [spent, nextTime, hspent]
      | dis =>
          rw [insertDis, if_neg (by simp [hf])]
          cases ts with
          | nil => exact ⟨.cons he hf .nil, fun p => rfl⟩
          | cons g ts =>
              rw [List.isChain_cons_cons] at hchain
              simp only [List.getLast?_cons_cons] at hlast
              have hg : g.kind = .ass := by
                cases hg : g.kind with
                | ass => rfl
                | dis => exact absurd ⟨hf, hg⟩ hchain.2.1
              obtain ⟨hses, hspent⟩ := insertDis_sessions hg hchain.2.2 hlast
              rw [insertDis, if_neg (by simp [hf])]
              refine ⟨.cons he hf hses, fun p => ?_⟩
              simp [spent, nextTime, hf, hspent]

/-! ## The first pass -/

theorem spent_append_close (p : Entry Addr → Bool) : ∀ ts : List (Entry Addr),
    spent p (ts ++ [⟨none, .dis, 60⟩]) = spent p ts
  | [] => by simp [spent]
  | [e] => by simp [spent, nextTime]
  | e :: f :: ts => by
      have ih := spent_append_close p (f :: ts)
      rw [List.cons_append, spent, ih]
      rfl

/-- Closing the last session keeps the log well formed and its meaning. -/
theorem closeLast_spec {ts : List (Entry Addr)} (h : WellFormed ts) :
    ∃ e ts', closeLast ts = some (e :: ts') ∧ e.kind = .ass ∧
      (e :: ts').IsChain (fun e f => ¬ (e.kind = .dis ∧ f.kind = .dis)) ∧
      (∀ l, (e :: ts').getLast? = some l → l.kind = .dis) ∧
      ∀ p, spent p (e :: ts') = spent p ts := by
  obtain ⟨⟨e, hhead, he⟩, hchain⟩ := h
  obtain ⟨ts, rfl⟩ := List.head?_eq_some_iff.mp hhead
  obtain ⟨l, hl⟩ : ∃ l, (e :: ts).getLast? = some l :=
    ⟨_, List.getLast?_eq_getLast_of_ne_nil (by simp)⟩
  cases hlk : l.kind with
  | ass =>
      refine ⟨e, ts ++ [⟨none, .dis, 60⟩], ?_, he, ?_, ?_, ?_⟩
      · simp [closeLast, hl, hlk]
      · rw [← List.cons_append, List.isChain_append]
        refine ⟨hchain, List.isChain_singleton _, fun x hx y hy => ?_⟩
        obtain rfl := Option.some.inj (hl.symm.trans hx)
        simp [hlk]
      · intro l' hl'
        rw [← List.cons_append, List.getLast?_concat] at hl'
        obtain rfl := Option.some.inj hl'
        rfl
      · intro p
        rw [← List.cons_append, spent_append_close]
  | dis =>
      refine ⟨e, ts, ?_, he, hchain, ?_, fun p => rfl⟩
      · simp [closeLast, hl, hlk]
      · intro l' hl'
        obtain rfl := Option.some.inj (hl.symm.trans hl')
        exact hlk

/-! ## The pairs of the last pass -/

section Pairs

variable {p X : List (Entry Addr)} {a c : Entry Addr}

/-- The entry the parser appends. -/
def closing : Entry Addr := ⟨none, .dis, 60⟩

/-- What the first pass makes of a log with the last entry `a`, from `a`
on. -/
def closedFrom (a : Entry Addr) : List (Entry Addr) → List (Entry Addr)
  | [] => if a.kind = .ass then [closing] else []
  | x :: X => (closeLast (x :: X)).getD []

theorem closeLast_append : closeLast (p ++ a :: X) = some (p ++ a :: closedFrom a X) := by
  cases X with
  | nil =>
      simp only [closeLast, List.getLast?_concat, Option.map_some, closedFrom]
      split
      · simp [closing]
      · rfl
  | cons x X =>
      have hlast : (p ++ a :: x :: X).getLast? = (x :: X).getLast? := by
        rw [List.getLast?_append, List.getLast?_cons_cons,
          List.getLast?_eq_getLast_of_ne_nil (List.cons_ne_nil x X)]
        rfl
      rw [closeLast, hlast, closedFrom, closeLast,
        List.getLast?_eq_getLast_of_ne_nil (List.cons_ne_nil x X)]
      simp only [Option.map_some, Option.getD_some]
      split <;> simp

theorem completed_append : completed (p ++ a :: X) = insertDis (p ++ a :: closedFrom a X) := by
  rw [completed, tsNew, closeLast_append]
  rfl

theorem closedFrom_cons : closedFrom a (c :: X) = c :: closedFrom c X := by
  have h := closeLast_append (p := []) (a := c) (X := X)
  rw [List.nil_append] at h
  rw [closedFrom, h]
  rfl

/-- The sessions the last pass counts, read off the log as it was captured:
the event that opens one, and when it ends. `opens` says whether the event in
front opens one. Events open and close in turn, but of two associations in a
row the second does what the first did. -/
def spansFrom : Bool → Entry Addr → List (Entry Addr) → List (Entry Addr × ℚ)
  | opens, e, [] => if opens ∧ e.kind = .ass then [(e, 60)] else []
  | opens, e, f :: ts =>
      (if opens then [(e, f.time)] else []) ++
        spansFrom (opens == decide (e.kind = .ass ∧ f.kind = .ass)) f ts

def spans : List (Entry Addr) → List (Entry Addr × ℚ)
  | [] => []
  | e :: ts => spansFrom true e ts

/-- The time of the sessions whose opening event satisfies `q`. -/
def spanTime (q : Entry Addr → Bool) : List (Entry Addr × ℚ) → ℚ
  | [] => 0
  | sp :: l => (if q sp.1 then sp.2 - sp.1.time else 0) + spanTime q l

/-- From an event on that starts a pair, and from one that completes the pair
of `z`. -/
theorem pairTime_insertDis (q : Entry Addr → Bool) : ∀ (ts : List (Entry Addr)) (e : Entry Addr),
    pairTime q (insertDis (e :: closedFrom e ts)) = spanTime q (spansFrom true e ts) ∧
      ∀ z, pairTime q (z :: insertDis (e :: closedFrom e ts)) =
        (if q z then e.time - z.time else 0) + spanTime q (spansFrom false e ts)
  | [], e => by
      cases he : e.kind with
      | ass => simp [closedFrom, insertDis, pairTime, spansFrom, spanTime, closing, he]
      | dis => simp [closedFrom, insertDis, pairTime, spansFrom, spanTime, he]
  | f :: ts, e => by
      obtain ⟨heven, hodd⟩ := pairTime_insertDis q ts f
      by_cases hboth : f.kind = .ass ∧ e.kind = .ass
      · rw [closedFrom_cons, insertDis, if_pos hboth]
        -- the inserted entry completes the pair of `e`, or makes one of no length with `f`
        constructor
        · simp [pairTime, spansFrom, spanTime, hboth, heven]
        · intro z
          rw [pairTime, hodd]
          simp [spansFrom, hboth]
      · have hflip : ¬ (e.kind = .ass ∧ f.kind = .ass) := fun h => hboth h.symm
        rw [closedFrom_cons, insertDis, if_neg hboth]
        constructor
        · rw [hodd]
          simp [spansFrom, spanTime, hflip]
        · intro z
          rw [pairTime, heven]
          simp [spansFrom, hflip]

theorem pairTime_completed (q : Entry Addr → Bool) :
    ∀ ts : List (Entry Addr), pairTime q (completed ts) = spanTime q (spans ts)
  | [] => rfl
  | e :: ts => by
      have h := completed_append (p := []) (a := e) (X := ts)
      rw [List.nil_append] at h
      rw [h]
      exact (pairTime_insertDis q ts e).1

theorem spanTime_eq_zero {q : Entry Addr → Bool} : ∀ {l : List (Entry Addr × ℚ)},
    (∀ sp ∈ l, q sp.1 = true → sp.2 = sp.1.time) → spanTime q l = 0
  | [], _ => rfl
  | sp :: l, h => by
      rw [List.forall_mem_cons] at h
      rw [spanTime, spanTime_eq_zero h.2, add_zero]
      split
      · rename_i hq
        rw [h.1 hq, sub_self]
      · rfl

/-- Where no session runs backwards, nothing cancels. -/
theorem eq_of_spanTime_eq_zero {q : Entry Addr → Bool} : ∀ {l : List (Entry Addr × ℚ)},
    (∀ sp ∈ l, sp.1.time ≤ sp.2) → 0 ≤ spanTime q l ∧
      (spanTime q l = 0 → ∀ sp ∈ l, q sp.1 = true → sp.2 = sp.1.time)
  | [], _ => ⟨le_rfl, fun _ _ h => absurd h List.not_mem_nil⟩
  | sp :: l, hle => by
      rw [List.forall_mem_cons] at hle
      obtain ⟨hnonneg, hzero⟩ := eq_of_spanTime_eq_zero (q := q) hle.2
      have hsp : 0 ≤ if q sp.1 then sp.2 - sp.1.time else 0 := by
        split
        · exact sub_nonneg.mpr hle.1
        · exact le_rfl
      rw [spanTime]
      refine ⟨add_nonneg hsp hnonneg, fun hsum => ?_⟩
      rw [add_eq_zero_iff_of_nonneg hsp hnonneg] at hsum
      rw [List.forall_mem_cons]
      refine ⟨fun hq => ?_, hzero hsum.2⟩
      rw [if_pos hq] at hsum
      exact sub_eq_zero.mp hsum.1

/-- In a log in the order of time no session ends before it starts. -/
theorem spansFrom_le : ∀ {opens : Bool} {e : Entry Addr} {ts : List (Entry Addr)},
    (e :: ts).Pairwise (fun e f => e.time ≤ f.time) → (∀ x ∈ e :: ts, x.time ≤ 60) →
      ∀ sp ∈ spansFrom opens e ts, sp.1.time ≤ sp.2
  | opens, e, [], _, h60, sp, hsp => by
      rw [spansFrom] at hsp
      split at hsp
      · rw [List.mem_singleton.mp hsp]
        exact h60 e List.mem_cons_self
      · cases hsp
  | opens, e, f :: ts, hord, h60, sp, hsp => by
      rw [List.pairwise_cons] at hord
      rw [List.forall_mem_cons] at h60
      rw [spansFrom, List.mem_append] at hsp
      rcases hsp with hsp | hsp
      · split at hsp
        · rw [List.mem_singleton.mp hsp]
          exact hord.1 f List.mem_cons_self
        · cases hsp
      · exact spansFrom_le hord.2 h60.2 sp hsp

/-- In a log without two disassociations in a row, sessions are opened by
associations. -/
theorem mem_spansFrom : ∀ {e : Entry Addr} {ts : List (Entry Addr)},
    (e :: ts).IsChain (fun e f => ¬ (e.kind = .dis ∧ f.kind = .dis)) →
      ∀ sp ∈ spansFrom (decide (e.kind = .ass)) e ts, sp.1 ∈ e :: ts ∧ sp.1.kind = .ass
  | e, [], _, sp, hsp => by
      rw [spansFrom] at hsp
      split at hsp
      · rename_i hass
        rw [List.mem_singleton.mp hsp]
        exact ⟨List.mem_cons_self, hass.2⟩
      · cases hsp
  | e, f :: ts, hchain, sp, hsp => by
      rw [List.isChain_cons_cons] at hchain
      have hnext : (decide (e.kind = .ass) == decide (e.kind = .ass ∧ f.kind = .ass)) =
          decide (f.kind = .ass) := by
        have hno := hchain.1
        cases he : e.kind <;> cases hf : f.kind <;> simp [he, hf] at hno ⊢
      rw [spansFrom, hnext, List.mem_append] at hsp
      rcases hsp with hsp | hsp
      · split at hsp
        · rename_i hass
          rw [List.mem_singleton.mp hsp]
          exact ⟨List.mem_cons_self, of_decide_eq_true hass⟩
        · cases hsp
      · obtain ⟨hmem, hass⟩ := mem_spansFrom hchain.2 sp hsp
        exact ⟨List.mem_cons_of_mem _ hmem, hass⟩

end Pairs

/-! ## The durations -/

/-- The three passes on a well-formed log. -/
theorem passes_spec [DecidableEq Addr] (AP1 : Addr) {ts : List (Entry Addr)}
    (h : WellFormed ts) :
    ∃ new, tsNew ts = some new ∧ Sessions new ∧
      durations AP1 ts = some
        (spent (fun e => decide (e.addr = some AP1)) ts,
          spent (fun e => !decide (e.addr = some AP1)) ts) := by
  obtain ⟨e, ts', hclose, he, hchain, hlast, hspent⟩ := closeLast_spec h
  obtain ⟨hses, hins⟩ := insertDis_sessions he hchain hlast
  have hnew : tsNew ts = some (insertDis (e :: ts')) := by rw [tsNew, hclose, Option.map_some]
  refine ⟨_, hnew, hses, ?_⟩
  rw [durations, hnew, Option.map_some, addUp_eq]
  simp only [pairTime_sessions _ hses, hins, hspent, zero_add]

/-- **The durations.** For every log that starts with an association and has
no two disassociations in a row, `ts_new` alternates and has even length,
`dur1` is the time spent in the associations of `AP1` and `dur2` the time
spent in all others. -/
theorem session_durations [DecidableEq Addr] (AP1 : Addr) (ts : List (Entry Addr))
    (h : WellFormed ts) :
    ∃ new, tsNew ts = some new ∧ Alternates new ∧ new.length % 2 = 0 ∧
      durations AP1 ts = some
        (spent (fun e => decide (e.addr = some AP1)) ts,
          spent (fun e => !decide (e.addr = some AP1)) ts) := by
  obtain ⟨new, hnew, hses, hdur⟩ := passes_spec AP1 h
  exact ⟨new, hnew, hses.alternates, hses.even, hdur⟩

/-- Two back-to-back associations, a disassociation and an open end. -/
def handoffLog : List (Entry Nat) :=
  [⟨some 1, .ass, 2⟩, ⟨some 2, .ass, 10⟩, ⟨some 2, .dis, 30⟩, ⟨some 1, .ass, 31⟩]

theorem session_durations_handoff :
    WellFormed handoffLog ∧ durations 1 handoffLog = some (8 + 29, 20) := by
  have hwf : WellFormed handoffLog := ⟨⟨_, rfl, rfl⟩, by simp [handoffLog]⟩
  obtain ⟨new, -, -, -, hdur⟩ := session_durations 1 _ hwf
  refine ⟨hwf, hdur.trans ?_⟩
  decide +kernel

end Cap

end NetSystem
