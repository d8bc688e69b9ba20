import NetSystem.CapFrames

/-!
# What the report attributes to each AP

The two AP addresses are filled in by the first two probe responses, and
the byte counters compare the AP joined last with these two slots, `''`
included. `bytes_attributed_iff` says when the result is the attribution
the slots' names promise: the second probe response must come from the
second AP, and the frames counted before any association must make up for
the frames missed before the probe responses.

The second AP is printed only if there was a handoff. `report_covers` says
which captures lose nothing by this: those in which two different APs are
joined, and those in which nothing is counted for the second one.
-/

namespace NetSystem

namespace Cap

open Brgr (Mac)

/-! ## Sums over the frames of a capture -/

/-- Two pairs of conditions that hold equally often of every beginning of a
capture select the same bytes. -/
theorem bytesFrom_add {p q r u : List Frame → Bool} : ∀ (fs pre : List Frame),
    (∀ l, l <+: fs → (p (pre ++ l)).toNat + (q (pre ++ l)).toNat =
      (r (pre ++ l)).toNat + (u (pre ++ l)).toNat) →
    bytesFrom p pre fs + bytesFrom q pre fs = bytesFrom r pre fs + bytesFrom u pre fs
  | [], pre, _ => rfl
  | f :: fs, pre, h => by
      have hrest := bytesFrom_add fs (pre ++ [f]) fun l hl => by
        have := h (f :: l) (List.cons_prefix_cons.mpr ⟨rfl, hl⟩)
        simpa using this
      have hhead := h [] List.nil_prefix
      rw [List.append_nil] at hhead
      simp only [bytesFrom]
      have hnow : (if p pre then f.ipBytes else 0) + (if q pre then f.ipBytes else 0) =
          (if r pre then f.ipBytes else 0) + if u pre then f.ipBytes else 0 := by
        cases hp : p pre <;> cases hq : q pre <;> cases hr : r pre <;> cases hu : u pre <;>
          simp [hp, hq, hr, hu] at hhead ⊢
      omega

theorem bytesWhen_add {p q r u : List Frame → Bool} {fs : List Frame}
    (h : ∀ l, l <+: fs → (p l).toNat + (q l).toNat = (r l).toNat + (u l).toNat) :
    bytesWhen p fs + bytesWhen q fs = bytesWhen r fs + bytesWhen u fs :=
  bytesFrom_add fs [] h

/-! ## Byte attribution -/

/-- The first probe response's source, and the first one after it that is
from another AP. -/
def firstProbe (fs : List Frame) : Option Mac := (probes fs)[0]?

def secondProbe (fs : List Frame) : Option Mac :=
  (probes fs).find? fun m => decide (firstProbe fs ≠ some m)

/-- The most recent association response came from the given AP. -/
def joined (ap : Option Mac) (pre : List Frame) : Bool :=
  decide (ap ≠ none ∧ lastAssoc pre = ap)

/-- Before any association, with a given number of probe responses seen. -/
def early (n : Nat) (pre : List Frame) : Bool :=
  decide (lastAssoc pre = none ∧ (probes pre).length = n)

/-- Joined to the AP, with no more than the given number of probe responses
seen. -/
def missed (ap : Option Mac) (n : Nat) (pre : List Frame) : Bool :=
  joined ap pre && decide ((probes pre).length ≤ n)

/-- What the slots and the byte counters should hold after a capture. -/
structure Attributed (fs : List Frame) (s : Parser) : Prop where
  AP1 : s.AP1 = formatted (firstProbe fs)
  AP2 : s.AP2 = formatted (secondProbe fs)
  totalTrans1 : s.totalTrans1 = bytesWhen (joined (firstProbe fs)) fs
  totalTrans2 : s.totalTrans2 = bytesWhen (joined (secondProbe fs)) fs

theorem probes_mono {l fs : List Frame} (h : l <+: fs) : probes l <+: probes fs :=
  h.filterMap _

/-- The first slot counts the frames joined to the first AP, less those seen
before its probe response, and those before any association instead. -/
theorem bytesWhen_atSlot1 (fs : List Frame) :
    bytesWhen atSlot1 fs + bytesWhen (missed (firstProbe fs) 0) fs =
      bytesWhen (joined (firstProbe fs)) fs + bytesWhen (early 0) fs := by
  refine bytesWhen_add fun l hl => ?_
  obtain ⟨t, ht⟩ := probes_mono hl
  cases hps : probes l with
  | nil => simp [atSlot1, missed, early, hps, Nat.add_comm]
  | cons a ps =>
      have hfirst : firstProbe fs = some a := by rw [firstProbe, ← ht, hps]; rfl
      simp [atSlot1, missed, joined, early, hps, hfirst]

theorem secondProbe_ne_firstProbe {fs : List Frame} {b : Mac} (h : secondProbe fs = some b) :
    firstProbe fs ≠ some b := by
  simpa using List.find?_some h

/-- The second slot, if the second probe response is from the second AP. -/
theorem bytesWhen_atSlot2 {fs : List Frame} (h : (probes fs)[1]? = secondProbe fs) :
    bytesWhen atSlot2 fs + bytesWhen (missed (secondProbe fs) 1) fs =
      bytesWhen (joined (secondProbe fs)) fs + bytesWhen (early 1) fs := by
  refine bytesWhen_add fun l hl => ?_
  obtain ⟨t, ht⟩ := probes_mono hl
  rcases hps : probes l with _ | ⟨a, _ | ⟨b, ps⟩⟩
  · simp [atSlot1, atSlot2, missed, early, hps]
  · cases hlast : lastAssoc l with
    | none => simp [atSlot1, atSlot2, missed, early, hps, hlast, Nat.add_comm]
    | some x => simp [atSlot1, atSlot2, missed, early, hps, hlast]
  · have hfirst : firstProbe fs = some a := by rw [firstProbe, ← ht, hps]; rfl
    have hsecond : secondProbe fs = some b := by rw [← h, ← ht, hps]; rfl
    have hne := secondProbe_ne_firstProbe hsecond
    rw [hfirst] at hne
    by_cases hlast : lastAssoc l = some b
    · simp [atSlot1, atSlot2, missed, joined, early, hps, hsecond, hlast, hne.symm]
    · simp [atSlot1, atSlot2, missed, joined, early, hps, hsecond, hlast]

/-- **Byte attribution.** -/
theorem bytes_attributed_iff (fs : List Frame) :
    (∃ s, frameLoop 127 fs = some s ∧ Attributed fs s) ↔
      (∀ f ∈ fs, f.Ok) ∧ (probes fs)[1]? = secondProbe fs ∧
        bytesWhen (early 0) fs = bytesWhen (missed (firstProbe fs) 0) fs ∧
        bytesWhen (early 1) fs = bytesWhen (missed (secondProbe fs) 1) fs := by
  rw [frameLoop, if_pos rfl, ← run_isSome_iff (s := .init)]
  have h1 := bytesWhen_atSlot1 fs
  constructor
  · rintro ⟨s, hs, hatt⟩
    have hafter := run_after hs
    have hslot : (probes fs)[1]? = secondProbe fs :=
      formatted_injective (hafter.AP2.symm.trans hatt.AP2)
    have h2 := bytesWhen_atSlot2 hslot
    have ht1 := hafter.totalTrans1.symm.trans hatt.totalTrans1
    have ht2 := hafter.totalTrans2.symm.trans hatt.totalTrans2
    exact ⟨⟨s, hs⟩, hslot, by omega, by omega⟩
  · rintro ⟨⟨s, hs⟩, hslot, he1, he2⟩
    have hafter := run_after hs
    have h2 := bytesWhen_atSlot2 hslot
    refine ⟨s, hs, hafter.AP1, ?_, ?_, ?_⟩
    · rw [hafter.AP2, hslot]
    · rw [hafter.totalTrans1]
      omega
    · rw [hafter.totalTrans2]
      omega

def mac (n : UInt8) : Mac := ⟨0, 0, 0, 0, 0, n⟩

/-- AP1 answers two probe requests before AP2 answers one, and the station
joins AP2. -/
def repeatedProbe : List Frame :=
  [⟨1, some 30, .mgmt 5 (mac 1) (mac 9)⟩, ⟨2, some 30, .mgmt 5 (mac 1) (mac 9)⟩,
   ⟨3, some 30, .mgmt 5 (mac 2) (mac 9)⟩, ⟨4, some 30, .mgmt 1 (mac 2) (mac 9)⟩,
   ⟨5, some 30, .data (.ip 120)⟩]

/-- AP1 is in both slots, and AP2's 100 bytes are in neither counter. -/
theorem second_slot_repeats_first :
    (frameLoop 127 repeatedProbe).map (fun s => (s.AP1, s.AP2, s.totalTrans1, s.totalTrans2)) =
      some (formatted (some (mac 1)), formatted (some (mac 1)), 0, 0) ∧
    firstProbe repeatedProbe = some (mac 1) ∧ secondProbe repeatedProbe = some (mac 2) ∧
    bytesWhen (joined (some (mac 2))) repeatedProbe = 100 ∧
    ¬ ∃ s, frameLoop 127 repeatedProbe = some s ∧ Attributed repeatedProbe s := by
  have hloop : (frameLoop 127 repeatedProbe).map
      (fun s => (s.AP1, s.AP2, s.totalTrans1, s.totalTrans2)) =
      some (formatted (some (mac 1)), formatted (some (mac 1)), 0, 0) := by decide +kernel
  refine ⟨hloop, by decide +kernel, by decide +kernel, by decide +kernel, ?_⟩
  rintro ⟨s, hs, hatt⟩
  rw [hs, Option.map_some, Option.some.injEq, Prod.mk.injEq, Prod.mk.injEq] at hloop
  have hAP2 := hloop.2.1.symm.trans hatt.AP2
  exact absurd (formatted_injective hAP2) (by decide +kernel)

/-! ## The report -/

/-- Each AP with time or bytes has a block of the report, and the blocks add
up to what was counted. -/
structure Covers (s : Parser) (dur : ℚ × ℚ) (r : Report) : Prop where
  ap1 : dur.1 ≠ 0 ∨ s.totalTrans1 ≠ 0 → ⟨s.AP1, dur.1, s.totalTrans1⟩ ∈ r.sections
  ap2 : dur.2 ≠ 0 ∨ s.totalTrans2 ≠ 0 → ⟨s.AP2, dur.2, s.totalTrans2⟩ ∈ r.sections
  durations : (r.sections.map Section.duration).sum = dur.1 + dur.2
  bytes : (r.sections.map Section.bytes).sum = s.totalTrans1 + s.totalTrans2

theorem covers_report_iff (s : Parser) (dur : ℚ × ℚ) :
    Covers s dur (report s dur.1 dur.2) ↔
      s.handoff ≠ 0 ∨ (dur.2 = 0 ∧ s.totalTrans2 = 0) := by
  by_cases hh : s.handoff = 0
  · simp only [report, hh, ne_eq, not_true_eq_false, false_or]
    constructor
    · intro h
      have hd := h.durations
      have hb := h.bytes
      simp at hd hb
      exact ⟨hd, hb⟩
    · rintro ⟨hd, hb⟩
      constructor <;> simp [hd, hb]
  · simp only [report, if_neg hh]
    refine ⟨fun _ => Or.inl hh, fun _ => ?_⟩
    constructor <;> simp

theorem handoffs_eq_zero_iff : ∀ l : List Mac, handoffs l = 0 ↔ ∀ a ∈ l, ∀ b ∈ l, a = b
  | [] => by simp [handoffs]
  | [a] => by simp [handoffs]
  | a :: b :: l => by
      have ih := handoffs_eq_zero_iff (b :: l)
      rw [handoffs]
      by_cases hab : a = b
      · subst hab
        have hmem : ∀ x, x ∈ a :: a :: l ↔ x ∈ a :: l := by simp
        rw [if_pos rfl, Nat.zero_add, ih]
        simp only [hmem]
      · rw [if_neg hab]
        constructor
        · intro h
          omega
        · intro h
          exact absurd (h a (by simp) b (by simp)) hab

theorem events_ne_nil {fs : List Frame} (h : assocs fs ≠ []) : events fs ≠ [] := by
  obtain ⟨a, ha⟩ := List.exists_mem_of_ne_nil _ h
  obtain ⟨f, hf, hsrc⟩ := List.mem_filterMap.mp ha
  exact List.ne_nil_of_mem (List.mem_filterMap.mpr ⟨f, hf, Frame.event?_of_assocSrc? hsrc⟩)

/-- Every connection is in the report. -/
def Covered (fs : List Frame) : Prop :=
  ∃ s dur r, frameLoop 127 fs = some s ∧ durations s.AP1 s.ts = some dur ∧
    myParser 127 fs = some r ∧ Covers s dur r

/-- An event of another AP than that of the first probe response. -/
def away (fs : List Frame) (e : Entry Str) : Bool :=
  !decide (e.addr = some (formatted (firstProbe fs)))

/-- What has to be zero if the second block is left out. -/
theorem covered_iff {fs : List Frame} (hassoc : assocs fs ≠ []) :
    Covered fs ↔ (∀ f ∈ fs, f.Ok) ∧ (handoffs (assocs fs) ≠ 0 ∨
      (spanTime (away fs) (spans (events fs)) = 0 ∧ bytesWhen atSlot2 fs = 0)) := by
  have hloop : frameLoop 127 fs = run step .init fs := if_pos rfl
  have hparser : ∀ {s}, frameLoop 127 fs = some s → After fs s ∧ ∃ dur1,
      durations s.AP1 s.ts = some (dur1, spanTime (away fs) (spans (events fs))) := by
    intro s hs
    have hafter := run_after (hloop ▸ hs)
    have hdur := durations_completed s.AP1 (events_ne_nil hassoc)
    have haway : (fun e : Entry Str => !decide (e.addr = some s.AP1)) = away fs := by
      funext e
      rw [away, hafter.AP1, firstProbe]
    rw [addUp_eq, haway, pairTime_completed, pairTime_completed, zero_add, zero_add] at hdur
    rw [hafter.ts]
    exact ⟨hafter, _, hdur⟩
  rw [← run_isSome_iff (s := .init), ← hloop]
  constructor
  · rintro ⟨s, dur, r, hs, hdur, hr, hcov⟩
    obtain ⟨hafter, dur1, hdur'⟩ := hparser hs
    obtain rfl := Option.some.inj (hdur.symm.trans hdur')
    rw [myParser, hs, Option.bind_some, hdur, Option.map_some, Option.some.injEq] at hr
    subst hr
    have hiff := (covers_report_iff s _).mp hcov
    rw [hafter.handoff, hafter.totalTrans2] at hiff
    exact ⟨⟨s, hs⟩, hiff⟩
  · rintro ⟨⟨s, hs⟩, h⟩
    obtain ⟨hafter, dur1, hdur⟩ := hparser hs
    refine ⟨s, _, _, hs, hdur, ?_, (covers_report_iff s _).mpr ?_⟩
    · rw [myParser, hs, Option.bind_some, hdur, Option.map_some]
    · rw [hafter.handoff, hafter.totalTrans2]
      exact h

/-! ## Sums and their terms -/

theorem bytesWhen_eq_zero {p : List Frame → Bool} {fs : List Frame}
    (h : ∀ i (hi : i < fs.length), p (fs.take i) = true → fs[i].ipBytes = 0) :
    bytesWhen p fs = 0 := by
  induction fs using List.reverseRecOn with
  | nil => rfl
  | append_singleton fs f ih =>
      have hlast := h fs.length (by simp)
      rw [List.take_left, List.getElem_concat_length rfl] at hlast
      have hadd : (if p fs then f.ipBytes else 0) = 0 := by
        split
        · rename_i hp
          exact hlast hp
        · rfl
      rw [bytesWhen_snoc, hadd, add_zero]
      refine ih fun i hi hp => ?_
      have hf := h i (by rw [List.length_append]; omega)
      rw [List.take_append_of_le_length hi.le, List.getElem_append_left hi] at hf
      exact hf hp

/-- Where no IP packet is shorter than its header, nothing cancels. -/
theorem eq_zero_of_bytesWhen_eq_zero {p : List Frame → Bool} {fs : List Frame}
    (hwhole : ∀ f ∈ fs, 0 ≤ f.ipBytes) : 0 ≤ bytesWhen p fs ∧ (bytesWhen p fs = 0 →
      ∀ i (hi : i < fs.length), p (fs.take i) = true → fs[i].ipBytes = 0) := by
  induction fs using List.reverseRecOn with
  | nil => exact ⟨le_rfl, fun _ i hi => absurd hi (Nat.not_lt_zero i)⟩
  | append_singleton fs f ih =>
      obtain ⟨hnonneg, hzero⟩ := ih fun g hg => hwhole g (List.mem_append_left _ hg)
      have hf : 0 ≤ if p fs then f.ipBytes else 0 := by
        split
        · exact hwhole f (by simp)
        · exact le_rfl
      rw [bytesWhen_snoc]
      refine ⟨add_nonneg hnonneg hf, fun hsum i hi => ?_⟩
      rw [List.length_append, List.length_singleton, Nat.lt_succ_iff_lt_or_eq] at hi
      rcases hi with hi | rfl
      · rw [List.take_append_of_le_length hi.le, List.getElem_append_left hi]
        exact hzero (by omega) i hi
      · rw [List.take_left, List.getElem_concat_length rfl]
        intro hp
        rw [if_pos hp] at hsum hf
        omega

/-! ## What is left out -/

/-- Nothing is counted for the second AP: the sessions opened by an event of
another AP than that of the first probe response have no length, and the IP
packets that come while the AP joined last is the one in the second slot have
no payload. -/
structure SecondIdle (fs : List Frame) : Prop where
  time : ∀ sp ∈ spans (events fs), sp.1.addr ≠ some (formatted (firstProbe fs)) →
    sp.2 = sp.1.time
  bytes : ∀ i (hi : i < fs.length), atSlot2 (fs.take i) = true → fs[i].ipBytes = 0

/-- The frames are in the order of time and end by second 60, and no IP packet
is shorter than its header. -/
structure Regular (fs : List Frame) : Prop where
  ordered : fs.Pairwise fun f g => f.timestamp ≤ g.timestamp
  ended : ∀ f ∈ fs, f.timestamp ≤ 60
  whole : ∀ f ∈ fs, 0 ≤ f.ipBytes

theorem Regular.spans_le {fs : List Frame} (h : Regular fs) :
    ∀ sp ∈ spans (events fs), sp.1.time ≤ sp.2 := by
  have hord : (events fs).Pairwise fun e f => e.time ≤ f.time := by
    rw [events, List.pairwise_filterMap]
    refine h.ordered.imp fun {f g} hfg e he e' he' => ?_
    rw [Frame.time_of_event? he, Frame.time_of_event? he']
    exact hfg
  have h60 : ∀ e ∈ events fs, e.time ≤ 60 := by
    intro e he
    obtain ⟨f, hf, hev⟩ := List.mem_filterMap.mp he
    rw [Frame.time_of_event? hev]
    exact h.ended f hf
  cases hev : events fs with
  | nil =>
      intro sp hsp
      cases hsp
  | cons e ts =>
      rw [hev] at hord h60
      exact spansFrom_le hord h60

/-- The common case: the AP of the first probe response is the only one that
the station joins, its log pairs up, and no datagram comes between that
response and the next or the association. -/
theorem secondIdle_of_first {fs : List Frame}
    (hfirst : ∀ a ∈ assocs fs, firstProbe fs = some a) (hlog : WellFormed (events fs))
    (hearly : ∀ i (hi : i < fs.length), early 1 (fs.take i) = true → fs[i].ipBytes = 0) :
    SecondIdle fs where
  time := by
    obtain ⟨⟨e, hhead, he⟩, hchain⟩ := hlog
    obtain ⟨ts, hev⟩ := List.head?_eq_some_iff.mp hhead
    rw [hev] at hchain
    intro sp hsp haddr
    rw [hev, spans, ← decide_eq_true he] at hsp
    obtain ⟨hmem, hass⟩ := mem_spansFrom hchain sp hsp
    -- the opening event is an association response, of the first AP
    obtain ⟨f, hf, hsp⟩ := List.mem_filterMap.mp (show sp.1 ∈ events fs from hev ▸ hmem)
    obtain ⟨src, hsrc, heq⟩ := Frame.assocSrc?_of_event? hsp hass
    rw [heq, hfirst src (List.mem_filterMap.mpr ⟨f, hf, hsrc⟩)] at haddr
    exact absurd rfl haddr
  bytes := by
    intro i hi hslot
    refine hearly i hi ?_
    have hpre := List.take_prefix i fs
    generalize fs.take i = pre at hslot hpre ⊢
    obtain ⟨t, ht⟩ := probes_mono hpre
    have hjoined : lastAssoc pre = none ∨ lastAssoc pre = firstProbe fs := by
      cases hlast : lastAssoc pre with
      | none => exact Or.inl rfl
      | some a =>
          have hmem : a ∈ assocs pre := List.mem_of_getLast? hlast
          exact Or.inr (hfirst a ((hpre.filterMap _).subset hmem)).symm
    rcases hps : probes pre with _ | ⟨a, _ | ⟨b, ps⟩⟩
    · simp [atSlot1, atSlot2, hps] at hslot
    · simp only [atSlot2, hps, Bool.and_eq_true, decide_eq_true_eq] at hslot
      simp [early, hps, hslot.2]
    · have hfp : firstProbe fs = some a := by rw [firstProbe, ← ht, hps]; rfl
      rcases hjoined with hlast | hlast
      · simp [atSlot1, atSlot2, hps, hlast] at hslot
      · simp [atSlot1, atSlot2, hps, hlast, hfp] at hslot

/-- The program gets through the capture, and two different APs are joined or
nothing is counted for the second one. -/
def NothingLeftOut (fs : List Frame) : Prop :=
  (∀ f ∈ fs, f.Ok) ∧ ((∃ a ∈ assocs fs, ∃ b ∈ assocs fs, a ≠ b) ∨ SecondIdle fs)

/-- **What the report leaves out.** For a capture with an association, the
report covers all connections if the station joins two different APs or
nothing is counted for the second one; in a regular capture, in which nothing
cancels, only if. -/
theorem report_covers {fs : List Frame} (hassoc : assocs fs ≠ []) :
    (NothingLeftOut fs → Covered fs) ∧ (Regular fs → Covered fs → NothingLeftOut fs) := by
  have hdiff : (∃ a ∈ assocs fs, ∃ b ∈ assocs fs, a ≠ b) ↔ handoffs (assocs fs) ≠ 0 := by
    rw [ne_eq, handoffs_eq_zero_iff]
    simp only [not_forall, exists_prop, ne_eq]
  have haway : ∀ e : Entry Str, away fs e = true ↔
      e.addr ≠ some (formatted (firstProbe fs)) := fun e => by simp [away]
  rw [covered_iff hassoc, NothingLeftOut, hdiff]
  constructor
  · rintro ⟨hok, hhand | hidle⟩
    · exact ⟨hok, Or.inl hhand⟩
    · refine ⟨hok, Or.inr ⟨spanTime_eq_zero fun sp hsp hq => ?_, bytesWhen_eq_zero hidle.bytes⟩⟩
      exact hidle.time sp hsp ((haway sp.1).mp hq)
  · rintro hreg ⟨hok, hhand | ⟨htime, hbytes⟩⟩
    · exact ⟨hok, Or.inl hhand⟩
    · refine ⟨hok, Or.inr ⟨fun sp hsp hne => ?_, ?_⟩⟩
      · exact (eq_of_spanTime_eq_zero hreg.spans_le).2 htime sp hsp ((haway sp.1).mpr hne)
      · exact (eq_zero_of_bytesWhen_eq_zero hreg.whole).2 hbytes

/-- The station joins AP1, gets a datagram and moves to AP2. -/
def plainHandoff : List Frame :=
  [⟨1, some 30, .mgmt 5 (mac 1) (mac 9)⟩, ⟨2, some 30, .mgmt 5 (mac 2) (mac 9)⟩,
   ⟨3, some 30, .mgmt 1 (mac 1) (mac 9)⟩, ⟨4, some 30, .data (.ip 120)⟩,
   ⟨20, some 30, .mgmt 1 (mac 2) (mac 9)⟩, ⟨21, none, .data (.ip 220)⟩]

/-- The station joins AP1, gets a datagram and leaves. -/
def onlyFirst : List Frame :=
  [⟨1, some 30, .mgmt 5 (mac 1) (mac 9)⟩, ⟨2, some 30, .mgmt 5 (mac 2) (mac 9)⟩,
   ⟨3, some 30, .mgmt 1 (mac 1) (mac 9)⟩, ⟨4, some 30, .data (.ip 120)⟩,
   ⟨9, none, .mgmt 10 (mac 9) (mac 1)⟩]

/-- AP1 answers first, the station joins AP2 and stays there. -/
def onlySecond : List Frame :=
  [⟨1, some 30, .mgmt 5 (mac 1) (mac 9)⟩, ⟨2, some 30, .mgmt 5 (mac 2) (mac 9)⟩,
   ⟨3, some 30, .mgmt 1 (mac 2) (mac 9)⟩, ⟨4, some 30, .data (.ip 120)⟩]

theorem onlyFirst_idle : SecondIdle onlyFirst := by
  have hlog : events onlyFirst = [⟨some (getFormattedMacAddr (mac 1)), .ass, 3⟩,
      ⟨some (getFormattedMacAddr (mac 1)), .dis, 9⟩] := by decide +kernel
  refine secondIdle_of_first (by decide +kernel) ?_ (by decide +kernel)
  rw [hlog]
  exact ⟨⟨_, rfl, rfl⟩, by simp⟩

theorem report_covers_three :
    Covered plainHandoff ∧ Covered onlyFirst ∧ ¬ Covered onlySecond := by
  refine ⟨(report_covers (by decide +kernel)).1 ⟨?_, Or.inl ?_⟩,
    (report_covers (by decide +kernel)).1 ⟨?_, Or.inr onlyFirst_idle⟩, fun hcov => ?_⟩
  · simp [plainHandoff, Frame.Ok]
  · exact ⟨mac 1, by decide +kernel, mac 2, by decide +kernel, by decide⟩
  · simp [onlyFirst, Frame.Ok]
  · have hreg : Regular onlySecond :=
      ⟨by decide +kernel, by decide +kernel, by decide +kernel⟩
    obtain ⟨-, ⟨a, ha, b, hb, hne⟩ | hidle⟩ := (report_covers (by decide +kernel)).2 hreg hcov
    · have hone : assocs onlySecond = [mac 2] := by decide +kernel
      rw [hone, List.mem_singleton] at ha hb
      exact hne (ha.trans hb.symm)
    · exact absurd (hidle.bytes 3 (by decide)) (by decide +kernel)

/-- The report is about AP1 only, without time or bytes; the 57 seconds and
100 bytes at AP2 are not in it. -/
theorem connection_not_reported :
    assocs onlySecond ≠ [] ∧
    myParser 127 onlySecond = some ⟨[⟨formatted (some (mac 1)), 0, 0⟩], 0⟩ ∧
    ¬ Covered onlySecond := by
  have hreport : myParser 127 onlySecond = some ⟨[⟨formatted (some (mac 1)), 0, 0⟩], 0⟩ := by
    decide +kernel
  have htotal : (frameLoop 127 onlySecond).map Parser.totalTrans2 = some 100 := by
    decide +kernel
  refine ⟨by decide +kernel, hreport, ?_⟩
  rintro ⟨s, dur, r, hs, -, hr, hcov⟩
  obtain rfl := Option.some.inj (hreport.symm.trans hr)
  rw [hs, Option.map_some, Option.some.injEq] at htotal
  have hmem := hcov.ap2 (Or.inr (by omega))
  rw [htotal] at hmem
  simp at hmem

end Cap

end NetSystem
