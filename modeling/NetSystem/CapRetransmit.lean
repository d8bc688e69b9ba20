import Mathlib.Tactic.Linarith
import NetSystem.CapFrames

/-!
# Retransmitted frames in the capture

A retransmission puts a second copy of an association response or a
disassociation into the capture, before the next such event. Associations
are taken care of: the insertion pass closes the first copy where the
second starts (`addUp_repeatAss`). Of a disassociation the log then has two
in a row, and the last pass, which goes by position, pairs every later
event with the wrong neighbour (`addUp_repeatDis`).

`retransmission_invariant_iff` says when a frame can be repeated without
changing the statistics.
-/

namespace NetSystem

namespace Cap

open Brgr (Mac)

/-! ## A repeated entry in a log -/

section Log

variable {Addr : Type*} {p X L : List (Entry Addr)} {a c : Entry Addr}

/-- What the insertion pass does up to an entry does not depend on what
comes after it. -/
theorem insertDis_split (a : Entry Addr) : ∀ p : List (Entry Addr),
    ∃ P, ∀ L, insertDis (p ++ a :: L) = P ++ insertDis (a :: L)
  | [] => ⟨[], fun _ => rfl⟩
  | [b] => by
      by_cases h : a.kind = .ass ∧ b.kind = .ass
      · exact ⟨[b, ⟨b.addr, .dis, a.time⟩], fun L => by simp [insertDis, h]⟩
      · exact ⟨[b], fun L => by simp [insertDis, h]⟩
  | b :: b' :: p => by
      obtain ⟨P, hP⟩ := insertDis_split a (b' :: p)
      by_cases h : b'.kind = .ass ∧ b.kind = .ass
      · refine ⟨b :: ⟨b.addr, .dis, b'.time⟩ :: P, fun L => ?_⟩
        have hL := hP L
        rw [List.cons_append] at hL
        rw [List.cons_append, List.cons_append, insertDis, if_pos h, hL]
        rfl
      · refine ⟨b :: P, fun L => ?_⟩
        have hL := hP L
        rw [List.cons_append] at hL
        rw [List.cons_append, List.cons_append, insertDis, if_neg h, hL]
        rfl

theorem insertDis_dis (ha : a.kind = .dis) : insertDis (a :: L) = a :: insertDis L := by
  cases L with
  | nil => rfl
  | cons x L => rw [insertDis, if_neg (by simp [ha])]

/-- Of the entry in front the pass reads only the address and the kind. -/
theorem insertDis_front (haddr : a.addr = c.addr) (hkind : a.kind = c.kind) :
    ∃ R, insertDis (a :: L) = a :: R ∧ insertDis (c :: L) = c :: R ∧ (L ≠ [] → R ≠ []) := by
  cases L with
  | nil => exact ⟨[], rfl, rfl, fun h => absurd rfl h⟩
  | cons x L =>
      rw [insertDis, insertDis, haddr, hkind]
      split
      · exact ⟨_, rfl, rfl, by simp⟩
      · refine ⟨_, rfl, rfl, fun _ => ?_⟩
        cases L with
        | nil => simp [insertDis]
        | cons y L =>
            rw [insertDis]
            split <;> simp

theorem pairTime_append (q : Entry Addr → Bool) (m : List (Entry Addr)) :
    ∀ {l : List (Entry Addr)}, l.length % 2 = 0 →
      pairTime q (l ++ m) = pairTime q l + pairTime q m
  | [], _ => by simp [pairTime]
  | [e], h => by simp at h
  | e :: f :: l, h => by
      have hl : l.length % 2 = 0 := by
        rw [List.length_cons, List.length_cons] at h
        omega
      rw [List.cons_append, List.cons_append, pairTime, pairTime, pairTime_append q m hl, add_assoc]

/-- A list of odd length, up to its last entry. -/
theorem exists_concat_of_odd {l : List (Entry Addr)} (h : l.length % 2 = 1) :
    ∃ l' z, l = l' ++ [z] ∧ l'.length % 2 = 0 := by
  have hne : l ≠ [] := by
    rintro rfl
    simp at h
  refine ⟨l.dropLast, l.getLast hne, (List.dropLast_append_getLast hne).symm, ?_⟩
  rw [List.length_dropLast]
  omega

variable {q : Entry Addr → Bool}

/-- Two associations with the same AP in a row, the second instead of none. -/
theorem pairTime_repeatAss (hq : ∀ e f : Entry Addr, e.addr = f.addr → q e = q f)
    (ha : a.kind = .ass) (hc : c.kind = .ass) (haddr : a.addr = c.addr) (hL : L ≠ []) :
    pairTime q (insertDis (p ++ a :: c :: L)) = pairTime q (insertDis (p ++ a :: L)) := by
  obtain ⟨P, hP⟩ := insertDis_split a p
  obtain ⟨R, hRa, hRc, hR⟩ := insertDis_front (L := L) haddr (ha.trans hc.symm)
  obtain ⟨r, R, rfl⟩ := List.exists_cons_of_ne_nil (hR hL)
  have hac := hq a c haddr
  rw [hP, hP, insertDis, if_pos ⟨hc, ha⟩, hRa, hRc]
  rcases Nat.mod_two_eq_zero_or_one P.length with hpar | hpar
  · rw [pairTime_append q _ hpar, pairTime_append q _ hpar]
    simp only [pairTime, hac]
    split <;> ring
  · obtain ⟨P', z, rfl, hpar'⟩ := exists_concat_of_odd hpar
    rw [List.append_assoc, List.append_assoc, pairTime_append q _ hpar',
      pairTime_append q _ hpar']
    simp [pairTime]

/-- Two disassociations in a row: what comes after them is paired as if the
second were its first entry. -/
theorem pairTime_repeatDis (hq : ∀ e f : Entry Addr, e.addr = f.addr → q e = q f)
    (ha : a.kind = .dis) (hc : c.kind = .dis) (haddr : a.addr = c.addr) (hL : L ≠ []) :
    pairTime q (insertDis (p ++ a :: c :: L)) = pairTime q (insertDis (p ++ a :: L)) ↔
      pairTime q (c :: insertDis L) = pairTime q (insertDis L) := by
  obtain ⟨P, hP⟩ := insertDis_split a p
  have hac := hq a c haddr
  rw [hP, hP, insertDis_dis ha, insertDis_dis ha, insertDis_dis hc]
  obtain ⟨y, Y, hY⟩ : ∃ y Y, insertDis L = y :: Y := by
    obtain ⟨x, L, rfl⟩ := List.exists_cons_of_ne_nil hL
    obtain ⟨R, hR, -⟩ := insertDis_front (L := L) (a := x) (c := x) rfl rfl
    exact ⟨x, R, hR⟩
  rw [hY]
  rcases Nat.mod_two_eq_zero_or_one P.length with hpar | hpar
  · rw [pairTime_append q _ hpar, pairTime_append q _ hpar]
    simp only [pairTime, hac, add_right_inj]
    split
    · constructor <;> intro h <;> linarith
    · constructor <;> intro h <;> linarith
  · obtain ⟨P', z, rfl, hpar'⟩ := exists_concat_of_odd hpar
    rw [List.append_assoc, List.append_assoc, pairTime_append q _ hpar',
      pairTime_append q _ hpar']
    simp [pairTime]

/-- At the end of the log it starts a pair or completes one. -/
theorem pairTime_repeatLastDis (ha : a.kind = .dis) (hc : c.kind = .dis) :
    pairTime q (insertDis (p ++ [a, c])) = pairTime q (insertDis (p ++ [a])) +
      if (insertDis (p ++ [a])).length % 2 = 0 ∨ q a = false then 0 else c.time - a.time := by
  obtain ⟨P, hP⟩ := insertDis_split a p
  have hold : insertDis (p ++ [a]) = P ++ [a] := by rw [hP, insertDis_dis ha]; rfl
  have hnew : insertDis (p ++ [a, c]) = P ++ [a, c] := by
    rw [hP, insertDis_dis ha, insertDis_dis hc]
    rfl
  have hlen : (P ++ [a]).length = P.length + 1 := List.length_append
  rw [hold, hnew]
  rcases Nat.mod_two_eq_zero_or_one P.length with hpar | hpar
  · have hodd : ¬ (P ++ [a]).length % 2 = 0 := by omega
    rw [pairTime_append q _ hpar, pairTime_append q _ hpar]
    simp only [hodd, false_or]
    cases hqa : q a <;> simp [pairTime, hqa]
  · have heven : (P ++ [a]).length % 2 = 0 := by omega
    rw [if_pos (Or.inl heven)]
    obtain ⟨P', z, rfl, hpar'⟩ := exists_concat_of_odd hpar
    rw [List.append_assoc, List.append_assoc, pairTime_append q _ hpar',
      pairTime_append q _ hpar']
    simp [pairTime]

theorem closedFrom_congr (h : a.kind = c.kind) : closedFrom a X = closedFrom c X := by
  cases X with
  | nil => rw [closedFrom, closedFrom, h]
  | cons x X => rfl

theorem closedFrom_ne_nil (h : a.kind = .ass ∨ X ≠ []) : closedFrom a X ≠ [] := by
  cases X with
  | nil =>
      have ha := h.resolve_right fun hne => hne rfl
      simp [closedFrom, ha]
  | cons x X =>
      rw [closedFrom_cons]
      exact List.cons_ne_nil _ _

theorem completed_eq (hX : X ≠ []) : completed X = insertDis (closedFrom a X) := by
  obtain ⟨x, X, rfl⟩ := List.exists_cons_of_ne_nil hX
  rw [closedFrom_cons]
  exact completed_append (p := [])

variable [DecidableEq Addr] {AP1 : Addr}

theorem addUp_eq_iff {l m : List (Entry Addr)} : addUp AP1 (0, 0) l = addUp AP1 (0, 0) m ↔
    pairTime (fun e => decide (e.addr = some AP1)) l =
      pairTime (fun e => decide (e.addr = some AP1)) m ∧
    pairTime (fun e => !decide (e.addr = some AP1)) l =
      pairTime (fun e => !decide (e.addr = some AP1)) m := by
  simp [addUp_eq]

theorem addUp_repeatAss (ha : a.kind = .ass) (hc : c.kind = .ass) (haddr : a.addr = c.addr) :
    addUp AP1 (0, 0) (completed (p ++ a :: c :: X)) =
      addUp AP1 (0, 0) (completed (p ++ a :: X)) := by
  have hne : closedFrom a X ≠ [] := closedFrom_ne_nil (Or.inl ha)
  rw [completed_append, completed_append, closedFrom_cons, closedFrom_congr (hc.trans ha.symm),
    addUp_eq_iff]
  constructor
  · exact pairTime_repeatAss (fun e f h => by simp [h]) ha hc haddr hne
  · exact pairTime_repeatAss (fun e f h => by simp [h]) ha hc haddr hne

theorem addUp_repeatDis (ha : a.kind = .dis) (hc : c.kind = .dis) (haddr : a.addr = c.addr)
    (hX : X ≠ []) : addUp AP1 (0, 0) (completed (p ++ a :: c :: X)) =
      addUp AP1 (0, 0) (completed (p ++ a :: X)) ↔
        addUp AP1 (0, 0) (c :: completed X) = addUp AP1 (0, 0) (completed X) := by
  have hne : closedFrom a X ≠ [] := closedFrom_ne_nil (Or.inr hX)
  rw [completed_append, completed_append, closedFrom_cons, closedFrom_congr (hc.trans ha.symm),
    completed_eq (a := a) hX, addUp_eq_iff, addUp_eq_iff]
  refine and_congr ?_ ?_
  · exact pairTime_repeatDis (fun e f h => by simp [h]) ha hc haddr hne
  · exact pairTime_repeatDis (fun e f h => by simp [h]) ha hc haddr hne

theorem addUp_repeatLastDis (ha : a.kind = .dis) (hc : c.kind = .dis) :
    addUp AP1 (0, 0) (completed (p ++ [a, c])) = addUp AP1 (0, 0) (completed (p ++ [a])) ↔
      (insertDis (p ++ [a])).length % 2 = 0 ∨ c.time = a.time := by
  have hcl : closedFrom a (c :: []) = [c] := by rw [closedFrom_cons]; simp [closedFrom, hc]
  have hal : closedFrom a [] = [] := by simp [closedFrom, ha]
  rw [completed_append, completed_append, hcl, hal, addUp_eq_iff,
    pairTime_repeatLastDis ha hc, pairTime_repeatLastDis ha hc]
  by_cases hpar : (insertDis (p ++ [a])).length % 2 = 0
  · simp [hpar]
  · by_cases hap : a.addr = some AP1 <;> simp [hpar, hap, sub_eq_zero]

/-- The sums tell when the entry in front was made. -/
theorem addUp_front_inj {y : Entry Addr} {Y : List (Entry Addr)} (haddr : a.addr = c.addr)
    (h : addUp AP1 (0, 0) (a :: y :: Y) = addUp AP1 (0, 0) (c :: y :: Y)) : a.time = c.time := by
  rw [addUp_eq_iff] at h
  simp only [pairTime, haddr] at h
  by_cases hap : c.addr = some AP1
  · have h1 := h.1
    simp only [hap] at h1
    simpa using h1
  · have h2 := h.2
    simp only [hap] at h2
    simpa using h2

end Log

/-! ## A repeated frame in a capture -/

/-- `copy` is a retransmission of `o`, captured after the frames `mid` that
follow `o` and before the next event. -/
structure Retransmission (o : Frame) (mid post : List Frame) (copy : Frame) : Prop where
  quiet : ∀ f ∈ mid, f.event? = none
  same : copy.body = o.body
  notBefore : o.timestamp ≤ copy.timestamp
  notAfter : ∀ x, (events post).head? = some x → copy.timestamp ≤ x.time

/-- The event of a frame with another timestamp. -/
theorem event?_of_body {o copy : Frame} {e : Entry Str} (h : copy.body = o.body)
    (he : o.event? = some e) : copy.event? = some { e with time := copy.timestamp } := by
  unfold Frame.event? at he ⊢
  rw [h]
  split at he
  · obtain rfl := Option.some.inj he
    rfl
  · obtain rfl := Option.some.inj he
    rfl
  · cases he

/-- Events are no probe responses, and the loop gets through them. -/
theorem ok_of_event? {o : Frame} {e : Entry Str} (he : o.event? = some e) :
    o.Ok ∧ o.probeSrc? = none := by
  unfold Frame.event? at he
  split at he
  · next hb => exact ⟨by simp [Frame.Ok, hb], by simp [Frame.probeSrc?, hb]⟩
  · next hb => exact ⟨by simp [Frame.Ok, hb], by simp [Frame.probeSrc?, hb]⟩
  · cases he

theorem handoffs_repeat (x : Mac) (l : List Mac) : ∀ k : List Mac,
    handoffs (k ++ x :: x :: l) = handoffs (k ++ x :: l)
  | [] => by simp [handoffs]
  | [y] => by simp [handoffs]
  | y :: z :: k => by
      have ih := handoffs_repeat x l (z :: k)
      simp only [List.cons_append] at ih
      simp only [List.cons_append, handoffs, ih]

theorem events_quiet {mid : List Frame} (h : ∀ f ∈ mid, f.event? = none) :
    events mid = [] ∧ assocs mid = [] := by
  refine ⟨List.filterMap_eq_nil_iff.mpr h, List.filterMap_eq_nil_iff.mpr fun f hf => ?_⟩
  cases hsrc : f.assocSrc? with
  | none => rfl
  | some src =>
      have := h f hf
      rw [Frame.event?_of_assocSrc? hsrc] at this
      cases this

theorem forall_ok_insert {pre rest : List Frame} {o : Frame} (ho : o.Ok) :
    (∀ f ∈ pre ++ o :: rest, f.Ok) ↔ ∀ f ∈ pre ++ rest, f.Ok := by
  simp only [List.forall_mem_append, List.forall_mem_cons, ho, true_and]

theorem forall_ok_repeat {pre mid post : List Frame} {o copy : Frame} (ho : o.Ok)
    (hc : copy.Ok) : (∀ f ∈ pre ++ o :: (mid ++ copy :: post), f.Ok) ↔
      ∀ f ∈ pre ++ (mid ++ post), f.Ok := by
  simp only [List.forall_mem_append, List.forall_mem_cons, ho, hc, true_and]

/-- With and without the copy the statistics differ by one log entry. -/
theorem statistics_repeat {pre mid post : List Frame} {o copy : Frame} {e : Entry Str}
    (he : o.event? = some e) (hr : Retransmission o mid post copy)
    (hok : ∀ f ∈ pre ++ (mid ++ post), f.Ok) :
    statistics (pre ++ o :: (mid ++ copy :: post)) = statistics (pre ++ o :: (mid ++ post)) ↔
      addUp (formatted (probes (pre ++ (mid ++ post)))[0]?) (0, 0)
          (completed (events pre ++ e :: { e with time := copy.timestamp } :: events post)) =
        addUp (formatted (probes (pre ++ (mid ++ post)))[0]?) (0, 0)
          (completed (events pre ++ e :: events post)) := by
  have hcopy := event?_of_body hr.same he
  obtain ⟨hoOk, hoProbe⟩ := ok_of_event? he
  obtain ⟨hcOk, hcProbe⟩ := ok_of_event? hcopy
  obtain ⟨hmidE, hmidA⟩ := events_quiet hr.quiet
  have hcSrc : copy.assocSrc? = o.assocSrc? := by rw [Frame.assocSrc?, hr.same, Frame.assocSrc?]
  rw [events] at hmidE
  rw [assocs] at hmidA
  have hnew : events (pre ++ o :: (mid ++ copy :: post)) =
      events pre ++ e :: { e with time := copy.timestamp } :: events post := by
    simp [events, he, hcopy, hmidE]
  have hold : events (pre ++ o :: (mid ++ post)) = events pre ++ e :: events post := by
    simp [events, he, hmidE]
  have hprobes : probes (pre ++ o :: (mid ++ copy :: post)) = probes (pre ++ (mid ++ post)) ∧
      probes (pre ++ o :: (mid ++ post)) = probes (pre ++ (mid ++ post)) := by
    simp [probes, hoProbe, hcProbe]
  have hhandoffs : handoffs (assocs (pre ++ o :: (mid ++ copy :: post))) =
      handoffs (assocs (pre ++ o :: (mid ++ post))) := by
    cases hsrc : o.assocSrc? with
    | none => simp [assocs, hsrc, hcSrc]
    | some src =>
        simp only [assocs, List.filterMap_append, List.filterMap_cons, hsrc, hcSrc, hmidA,
          List.nil_append]
        exact handoffs_repeat src _ _
  rw [statistics_eq ((forall_ok_repeat hoOk hcOk).mpr hok),
    statistics_eq ((forall_ok_insert hoOk).mpr hok), hnew, hold, hprobes.1, hprobes.2, hhandoffs,
    durations_completed _ (by simp), durations_completed _ (by simp)]
  simp

/-- When a disassociation `e` can be repeated, with the log `p` before it and
the given one after it: at the end of a log that falls into pairs; when the
next event is out of order, so that no copy fits; or when the next event is
simultaneous and the later entries add up alike from either parity. -/
def DisSafe (AP1 : Str) (p : List (Entry Str)) (e : Entry Str) : List (Entry Str) → Prop
  | [] => (insertDis (p ++ [e])).length % 2 = 0
  | x :: X => x.time < e.time ∨ (x.time = e.time ∧
      addUp AP1 (0, 0) (e :: completed (x :: X)) = addUp AP1 (0, 0) (completed (x :: X)))

/-- The unchanged frame is a retransmission, and so is one at any time
before the next event. -/
theorem retransmission_at {o : Frame} {rest : List Frame} {t : ℚ} (h : o.timestamp ≤ t)
    (hnext : ∀ x, (events rest).head? = some x → t ≤ x.time) :
    Retransmission o [] rest { o with timestamp := t } where
  quiet := by simp
  same := rfl
  notBefore := h
  notAfter := hnext

section Exact

variable {pre rest : List Frame} {o : Frame} {e : Entry Str}

theorem disSafe_of_invariant (he : o.event? = some e) (hdis : e.kind = .dis)
    (hok : ∀ f ∈ pre ++ rest, f.Ok)
    (h : ∀ mid post copy, rest = mid ++ post → Retransmission o mid post copy →
      statistics (pre ++ o :: (mid ++ copy :: post)) = statistics (pre ++ o :: rest)) :
    DisSafe (formatted (probes (pre ++ rest))[0]?) (events pre) e (events rest) := by
  have htime := Frame.time_of_event? he
  -- a copy right behind the frame, at any time that fits
  have hat : ∀ t, e.time ≤ t → (∀ x, (events rest).head? = some x → t ≤ x.time) →
      addUp (formatted (probes (pre ++ rest))[0]?) (0, 0)
          (completed (events pre ++ e :: { e with time := t } :: events rest)) =
        addUp (formatted (probes (pre ++ rest))[0]?) (0, 0)
          (completed (events pre ++ e :: events rest)) := by
    intro t ht hnext
    have hr := retransmission_at (o := o) (htime ▸ ht) hnext
    exact (statistics_repeat he hr hok).mp (h [] rest _ rfl hr)
  cases hX : events rest with
  | nil =>
      have hone := hat (e.time + 1) (by linarith) (by simp [hX])
      rw [hX] at hone
      have hpar := (addUp_repeatLastDis (c := { e with time := e.time + 1 }) hdis hdis).mp hone
      exact hpar.resolve_right (by simp)
  | cons x X =>
      rw [hX] at hat
      have hshift : ∀ t, e.time ≤ t → t ≤ x.time →
          addUp (formatted (probes (pre ++ rest))[0]?) (0, 0)
              ({ e with time := t } :: completed (x :: X)) =
            addUp (formatted (probes (pre ++ rest))[0]?) (0, 0) (completed (x :: X)) := by
        intro t ht hxt
        exact (addUp_repeatDis (c := { e with time := t }) hdis hdis rfl
          (List.cons_ne_nil x X)).mp (hat t ht (by simp [hxt]))
      rcases lt_trichotomy x.time e.time with hlt | heq | hgt
      · exact Or.inl hlt
      · exact Or.inr ⟨heq, hshift e.time le_rfl heq.ge⟩
      · -- the first and the last copy that fit contribute differently
        obtain ⟨R, hR⟩ : ∃ R, completed (x :: X) = x :: R := by
          have hcomp := completed_append (p := []) (a := x) (X := X)
          obtain ⟨R, hR, -⟩ := insertDis_front (L := closedFrom x X) (a := x) (c := x) rfl rfl
          exact ⟨R, hcomp.trans hR⟩
        have hfirst := hshift e.time le_rfl hgt.le
        have hlast := hshift x.time hgt.le le_rfl
        rw [hR] at hfirst hlast
        have htimes := addUp_front_inj (a := { e with time := e.time })
          (c := { e with time := x.time }) rfl (hfirst.trans hlast.symm)
        exact absurd htimes hgt.ne

theorem invariant_of_disSafe (he : o.event? = some e) (hok : ∀ f ∈ pre ++ rest, f.Ok)
    (hsafe : e.kind = .ass ∨
      DisSafe (formatted (probes (pre ++ rest))[0]?) (events pre) e (events rest))
    {mid post : List Frame} {copy : Frame} (hrest : rest = mid ++ post)
    (hr : Retransmission o mid post copy) :
    statistics (pre ++ o :: (mid ++ copy :: post)) = statistics (pre ++ o :: rest) := by
  subst hrest
  have hevents : events (mid ++ post) = events post := by
    rw [events, List.filterMap_append, ← events, (events_quiet hr.quiet).1]
    rfl
  rw [statistics_repeat he hr hok]
  have hkinds : e.kind = .ass ∨ e.kind = .dis := by cases e.kind <;> simp
  rcases hkinds with hkind | hkind
  · exact addUp_repeatAss (c := { e with time := copy.timestamp }) hkind hkind rfl
  · have htime := Frame.time_of_event? he
    have hge := hr.notBefore
    replace hsafe := hsafe.resolve_left (by simp [hkind])
    rw [hevents] at hsafe
    cases hX : events post with
    | nil =>
        rw [hX] at hsafe
        exact (addUp_repeatLastDis (c := { e with time := copy.timestamp }) hkind hkind).mpr
          (Or.inl hsafe)
    | cons x X =>
        have hle := hr.notAfter x (by rw [hX]; rfl)
        rw [hX] at hsafe
        refine (addUp_repeatDis (c := { e with time := copy.timestamp }) hkind hkind rfl
          (List.cons_ne_nil x X)).mpr ?_
        rcases hsafe with hlt | ⟨heq, hsum⟩
        · linarith
        · have hcopy : copy.timestamp = e.time := by linarith
          rw [hcopy]
          exact hsum

/-- **Retransmission invariance, exactly.** A repeated event leaves the
statistics alone if the program does not get through the capture, if it is
an association response, or if it is a disassociation nothing depends on. -/
theorem retransmission_invariant_iff (pre rest : List Frame) (he : o.event? = some e) :
    (∀ mid post copy, rest = mid ++ post → Retransmission o mid post copy →
      statistics (pre ++ o :: (mid ++ copy :: post)) = statistics (pre ++ o :: rest)) ↔
    (∃ f ∈ pre ++ rest, ¬ f.Ok) ∨ e.kind = .ass ∨
      DisSafe (formatted (probes (pre ++ rest))[0]?) (events pre) e (events rest) := by
  by_cases hok : ∀ f ∈ pre ++ rest, f.Ok
  · constructor
    · intro h
      cases hkind : e.kind with
      | ass => exact Or.inr (Or.inl rfl)
      | dis => exact Or.inr (Or.inr (disSafe_of_invariant he hkind hok h))
    · rintro (⟨f, hf, hbad⟩ | hsafe) mid post copy hrest hr
      · exact absurd (hok f hf) hbad
      · exact invariant_of_disSafe he hok hsafe hrest hr
  · have hbad : ∃ f ∈ pre ++ rest, ¬ f.Ok := by
      simpa only [not_forall, exists_prop] using hok
    refine ⟨fun _ => Or.inl hbad, fun _ mid post copy hrest hr => ?_⟩
    subst hrest
    have hoOk := (ok_of_event? he).1
    have hcOk := (ok_of_event? (event?_of_body hr.same he)).1
    rw [statistics_of_not_ok (mt (forall_ok_repeat hoOk hcOk).mp hok),
      statistics_of_not_ok (mt (forall_ok_insert hoOk).mp hok)]

end Exact

/-! ## A session of ten seconds -/

/-- AP1 answers a probe request. -/
def probed : Frame := ⟨0, some 30, .mgmt 5 ⟨0, 0, 0, 0, 0, 1⟩ ⟨0, 0, 0, 0, 0, 9⟩⟩

/-- AP1 accepts the station. -/
def assAt (t : ℚ) : Frame := ⟨t, some 30, .mgmt 1 ⟨0, 0, 0, 0, 0, 1⟩ ⟨0, 0, 0, 0, 0, 9⟩⟩

/-- The station leaves AP1. -/
def disAt (t : ℚ) : Frame := ⟨t, none, .mgmt 10 ⟨0, 0, 0, 0, 0, 9⟩ ⟨0, 0, 0, 0, 0, 1⟩⟩

theorem retransmission_invariant_assAt :
    statistics [probed, assAt 1, assAt 2, disAt 10] = statistics [probed, assAt 1, disAt 10] := by
  have hr : Retransmission (assAt 1) [] [disAt 10] (assAt 2) :=
    retransmission_at (o := assAt 1) (t := 2) (by decide +kernel) (by decide +kernel)
  exact (retransmission_invariant_iff [probed] [disAt 10] (o := assAt 1) rfl).mpr
    (Or.inr (Or.inl rfl)) [] [disAt 10] (assAt 2) rfl hr

/-- The disassociation at second 10 is captured again at second 11: of the
49 seconds at AP1 the statistics show 18. -/
theorem repeated_disassociation :
    Retransmission (disAt 10) [] [assAt 20] (disAt 11) ∧
    statistics ([probed, assAt 1] ++ disAt 10 :: ([] ++ [assAt 20])) = some (0, 49, 0) ∧
    statistics ([probed, assAt 1] ++ disAt 10 :: ([] ++ disAt 11 :: [assAt 20])) =
      some (0, 18, 0) := by
  refine ⟨?_, by decide +kernel, by decide +kernel⟩
  exact retransmission_at (o := disAt 10) (t := 11) (by decide +kernel) (by decide +kernel)

end Cap

end NetSystem
