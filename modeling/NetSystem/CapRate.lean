import Mathlib.Tactic.Linarith
import NetSystem.CapFrames

/-!
# The theoretical sum-rate of the capture parser

`parser.py` adds to `sum_rate` a term for each beacon of the AP the station
is connected to, weighted with a beacon interval of 0.1024 s. Whether the
station is connected is kept in `AP` and `connect`; the connection times of
the report come from the log `ts` instead, in three passes after the loop.

`Rated` is what the loop makes of the beacons, in terms of the log: a beacon
counts if the last event before it is an association with its source.
`sum_rate_time` compares the two books: the beacon intervals that are
counted fit into the connection times, but for one interval a session.
-/

namespace NetSystem

namespace Cap

open Brgr (Mac)

/-! ## Which beacons count -/

namespace Frame

/-- Source and SNR of a beacon. -/
def beacon? (f : Frame) : Option (Mac × Int) :=
  match f.body with
  | .mgmt 8 src _ => f.snr.map fun snr => (src, snr)
  | _ => none

/-- The SNR of an IP data frame that has one. -/
def ipSnr? (f : Frame) : Option Int :=
  match f.body with
  | .data (.ip _) => f.snr
  | _ => none

end Frame

/-- The AP of the session that is open after the events of a log. -/
def openAp (ts : List (Entry Str)) : Option Str :=
  match ts.getLast? with
  | some ⟨addr, .ass, _⟩ => addr
  | _ => none

/-- What a beacon adds to `sum_rate`, after the frames `pre`. -/
def counted? (pre : List Frame) (f : Frame) : Option Int :=
  f.beacon?.bind fun b =>
    if openAp (events pre) = some (getFormattedMacAddr b.1) then some b.2 else none

/-- What `g` finds in the frames, given the frames before each. -/
def gatherFrom (g : List Frame → Frame → Option Int) : List Frame → List Frame → List Int
  | _, [] => []
  | pre, f :: fs => (g pre f).toList ++ gatherFrom g (pre ++ [f]) fs

/-- The SNRs of the beacons that count. -/
def rated (fs : List Frame) : List Int := gatherFrom counted? [] fs

/-- The SNRs of the IP data frames. -/
def ipSnrs (fs : List Frame) : List Int := fs.filterMap Frame.ipSnr?

@[simp] theorem ipSnrs_snoc (fs : List Frame) (f : Frame) :
    ipSnrs (fs ++ [f]) = ipSnrs fs ++ f.ipSnr?.toList := by
  rw [ipSnrs, List.filterMap_append, ipSnrs]
  cases h : f.ipSnr? <;> simp [h]

theorem gatherFrom_snoc (g : List Frame → Frame → Option Int) (f : Frame) :
    ∀ (fs pre : List Frame),
      gatherFrom g pre (fs ++ [f]) = gatherFrom g pre fs ++ (g (pre ++ fs) f).toList
  | [], pre => by simp [gatherFrom]
  | x :: fs, pre => by
      have ih := gatherFrom_snoc g f fs (pre ++ [x])
      rw [List.cons_append, gatherFrom, gatherFrom, ih, List.append_assoc, List.append_assoc,
        List.singleton_append]

@[simp] theorem rated_snoc (fs : List Frame) (f : Frame) :
    rated (fs ++ [f]) = rated fs ++ (counted? fs f).toList := gatherFrom_snoc counted? f fs []

theorem openAp_snoc (ts : List (Entry Str)) (e : Entry Str) :
    openAp (ts ++ [e]) = if e.kind = .ass then e.addr else none := by
  obtain ⟨addr, kind, time⟩ := e
  cases kind <;> simp [openAp]

/-! ## The loop -/

/-- The variables of the rate after the frames `fs`, besides those of
`After`. `AP` is kept when a session ends, `connect` is not. -/
structure Rated (fs : List Frame) (s : Parser) : Prop where
  openAp : openAp (events fs) = if s.connect then some s.AP else none
  sumRate : s.sumRate = rated fs
  snrTxt : s.snrTxt = ipSnrs fs

theorem rated_init : Rated [] .init := ⟨rfl, rfl, rfl⟩

/-- A frame that is none of those the rate is about. -/
theorem Rated.other {fs : List Frame} {s : Parser} (h : Rated fs s) {f : Frame} {s' : Parser}
    (he : f.event? = none) (hb : f.beacon? = none) (hi : f.ipSnr? = none)
    (hconnect : s'.connect = s.connect) (hAP : s'.AP = s.AP) (hrate : s'.sumRate = s.sumRate)
    (htxt : s'.snrTxt = s.snrTxt) : Rated (fs ++ [f]) s' := by
  refine ⟨?_, ?_, ?_⟩
  · simpa [he, hconnect, hAP] using h.openAp
  · simpa [counted?, hb, hrate] using h.sumRate
  · simpa [hi, htxt] using h.snrTxt

@[simp] theorem associate_AP (s : Parser) (apNow : Str) (t : ℚ) :
    (associate s apNow t).AP = apNow := by
  unfold associate
  split_ifs with hnil hne
  · rfl
  · rfl
  · exact not_not.mp hne

@[simp] theorem associate_sumRate (s : Parser) (apNow : Str) (t : ℚ) :
    (associate s apNow t).sumRate = s.sumRate := by
  unfold associate
  split_ifs <;> rfl

@[simp] theorem associate_snrTxt (s : Parser) (apNow : Str) (t : ℚ) :
    (associate s apNow t).snrTxt = s.snrTxt := by
  unfold associate
  split_ifs <;> rfl

/-- A beacon counts if it comes from `AP` while connected. -/
theorem rated_beacon {fs : List Frame} {s s' : Parser} (h : Rated fs s) {t : ℚ}
    {snr : Option Int} {src dst : Mac} (hs' : step s ⟨t, snr, .mgmt 8 src dst⟩ = some s') :
    Rated (fs ++ [⟨t, snr, .mgmt 8 src dst⟩]) s' := by
  rw [step_beacon, Option.map_eq_some_iff] at hs'
  obtain ⟨x, rfl, rfl⟩ := hs'
  have hopen : openAp (events fs) = some (getFormattedMacAddr src) ↔
      getFormattedMacAddr src = s.AP ∧ s.connect = true := by
    rw [h.openAp]
    cases s.connect <;> simp [eq_comm]
  have hcounted : (counted? fs ⟨t, some x, .mgmt 8 src dst⟩) =
      if getFormattedMacAddr src = s.AP ∧ s.connect = true then some x else none := by
    simp [counted?, Frame.beacon?, hopen]
  refine ⟨?_, ?_, ?_⟩
  · rw [events_snoc]
    split <;> simpa [Frame.event?] using h.openAp
  · rw [rated_snoc, hcounted, ← h.sumRate]
    split <;> simp
  · rw [ipSnrs_snoc, ← h.snrTxt]
    split <;> simp [Frame.ipSnr?]

theorem countBytes_rated {fs : List Frame} {s : Parser} (h : Rated fs s) {f : Frame} (len : Nat)
    (he : f.event? = none) (hb : f.beacon? = none) :
    Rated (fs ++ [f]) (countBytes { s with snrTxt := s.snrTxt ++ f.ipSnr?.toList } len) := by
  have hbase : Rated (fs ++ [f]) { s with snrTxt := s.snrTxt ++ f.ipSnr?.toList } := by
    refine ⟨?_, ?_, ?_⟩
    · simpa [he] using h.openAp
    · simpa [counted?, hb] using h.sumRate
    · rw [ipSnrs_snoc, ← h.snrTxt]
  unfold countBytes
  split
  · exact ⟨hbase.openAp, hbase.sumRate, hbase.snrTxt⟩
  · split
    · exact ⟨hbase.openAp, hbase.sumRate, hbase.snrTxt⟩
    · exact hbase

/-- **The step lemma**, by the kind of frame. -/
theorem step_rated {fs : List Frame} {s s' : Parser} {f : Frame} (h : Rated fs s)
    (hs' : step s f = some s') : Rated (fs ++ [f]) s' := by
  obtain ⟨t, snr, body⟩ := f
  cases body with
  | ctl =>
      obtain rfl := Option.some.inj hs'
      exact h.other rfl rfl rfl rfl rfl rfl rfl
  | data llc =>
      cases llc with
      | ip len =>
          cases snr with
          | none =>
              obtain rfl := Option.some.inj hs'
              simpa [Frame.ipSnr?] using
                countBytes_rated h (f := ⟨t, none, .data (.ip len)⟩) len rfl rfl
          | some x =>
              obtain rfl := Option.some.inj hs'
              exact countBytes_rated h (f := ⟨t, some x, .data (.ip len)⟩) len rfl rfl
      | other =>
          obtain rfl := Option.some.inj hs'
          exact h.other rfl rfl rfl rfl rfl rfl rfl
      | notSnap => cases hs'
  | mgmt subtype src dst =>
      rcases mgmt_kinds subtype with rfl | rfl | rfl | rfl | ⟨h5, h1, h10, h8⟩
      · rw [step_probe] at hs'
        obtain rfl := Option.some.inj hs'
        refine h.other rfl rfl rfl ?_ ?_ ?_ ?_ <;> split_ifs <;> rfl
      · rw [step_assoc] at hs'
        obtain rfl := Option.some.inj hs'
        refine ⟨?_, ?_, ?_⟩
        · have hconnect : (associate s (getFormattedMacAddr src) t).connect = true := rfl
          simp [Frame.event?, openAp_snoc, hconnect]
        · simpa [counted?, Frame.beacon?] using h.sumRate
        · simpa [Frame.ipSnr?] using h.snrTxt
      · rw [step_disassoc] at hs'
        obtain rfl := Option.some.inj hs'
        refine ⟨?_, ?_, ?_⟩
        · simp [Frame.event?, openAp_snoc, disassociate]
        · simpa [counted?, Frame.beacon?, disassociate] using h.sumRate
        · simpa [Frame.ipSnr?, disassociate] using h.snrTxt
      · exact rated_beacon h hs'
      · rw [step_otherMgmt s t snr src dst h5 h1 h10 h8] at hs'
        obtain rfl := Option.some.inj hs'
        refine h.other ?_ ?_ rfl rfl rfl rfl rfl
        · simp [Frame.event?, h1, h10]
        · simp [Frame.beacon?, h8]

theorem run_rated {fs : List Frame} {s : Parser} (h : run step .init fs = some s) :
    Rated fs s :=
  run_inv_inputs (P := Rated) (fun _ _ _ _ hs hstep => step_rated hs hstep) [] rated_init h

/-! ## Connection time up to an instant -/

/-- The time from each association to the next event, up to `now` for the
last. -/
def spentUntil (now : ℚ) : List (Entry Str) → ℚ
  | [] => 0
  | [e] => if e.kind = .ass then now - e.time else 0
  | e :: f :: ts => (if e.kind = .ass then f.time - e.time else 0) + spentUntil now (f :: ts)

def sessions (ts : List (Entry Str)) : Nat := ts.countP fun e => decide (e.kind = .ass)

theorem spentUntil_snoc (now : ℚ) (x : Entry Str) : ∀ ts : List (Entry Str),
    spentUntil now (ts ++ [x]) =
      spentUntil x.time ts + if x.kind = .ass then now - x.time else 0
  | [] => by simp [spentUntil]
  | [e] => by simp [spentUntil]
  | e :: f :: ts => by
      have ih := spentUntil_snoc now x (f :: ts)
      rw [List.cons_append] at ih
      rw [List.cons_append, List.cons_append, spentUntil, spentUntil, ih, add_assoc]

theorem sessions_snoc (ts : List (Entry Str)) (e : Entry Str) :
    sessions (ts ++ [e]) = sessions ts + if e.kind = .ass then 1 else 0 := by
  simp [sessions, List.countP_append, List.countP_cons]

/-- Up to second 60 it is the time the report splits between the APs. -/
theorem spentUntil_sixty (p : Entry Str → Bool) : ∀ ts : List (Entry Str),
    spentUntil 60 ts = spent p ts + spent (fun e => !p e) ts
  | [] => by simp [spentUntil, spent]
  | [e] => by
      cases hp : p e <;> by_cases he : e.kind = .ass <;>
        simp [spentUntil, spent, nextTime, hp, he]
  | e :: f :: ts => by
      have hcons : ∀ q : Entry Str → Bool, spent q (e :: f :: ts) =
          (if e.kind = .ass ∧ q e then f.time - e.time else 0) + spent q (f :: ts) := fun _ => rfl
      rw [spentUntil, spentUntil_sixty p (f :: ts), hcons, hcons]
      cases hp : p e <;> by_cases he : e.kind = .ass
      · simp only [he, true_and, Bool.false_eq_true, if_false, if_true, Bool.not_false]
        ring
      · simp [he]
      · simp only [he, true_and, Bool.false_eq_true, if_false, if_true, Bool.not_true]
        ring
      · simp [he]

theorem durations_total (AP1 : Str) {ts : List (Entry Str)} (h : WellFormed ts) :
    ∃ dur, durations AP1 ts = some dur ∧ dur.1 + dur.2 = spentUntil 60 ts := by
  obtain ⟨-, -, -, hdur⟩ := passes_spec AP1 h
  exact ⟨_, hdur, (spentUntil_sixty (fun e => decide (e.addr = some AP1)) ts).symm⟩

/-- An open session goes on. -/
theorem spentUntil_of_ass {ts : List (Entry Str)} {e : Entry Str} (hlast : ts.getLast? = some e)
    (he : e.kind = .ass) (now now' : ℚ) :
    spentUntil now' ts = spentUntil now ts + (now' - now) := by
  obtain ⟨ts, rfl⟩ := List.getLast?_eq_some_iff.mp hlast
  rw [spentUntil_snoc, spentUntil_snoc, if_pos he, if_pos he]
  ring

/-! ## The two books -/

/-- The beacon interval, `0.1024` seconds. -/
def interval : ℚ := 1024 / 10000

/-- Where the beacon intervals counted so far are paid from: an open session
has room for one more, or the time from its last beacon on is still left. -/
inductive Budget (fs : List Frame) : Prop where
  | closed (h : ∀ now, interval * (rated fs).length ≤
      spentUntil now (events fs) + interval * sessions (events fs))
      (hopen : openAp (events fs) = none) : Budget fs
  | fresh {e : Entry Str} (hlast : (events fs).getLast? = some e) (he : e.kind = .ass)
      (h : interval * (rated fs).length + interval ≤
        spentUntil e.time (events fs) + interval * sessions (events fs)) : Budget fs
  | going {e : Entry Str} {f : Frame} {b : Mac × Int} (hlast : (events fs).getLast? = some e)
      (he : e.kind = .ass) (hf : f ∈ fs) (hb : f.beacon? = some b)
      (haddr : e.addr = some (getFormattedMacAddr b.1))
      (h : interval * (rated fs).length ≤
        spentUntil f.timestamp (events fs) + interval * sessions (events fs)) : Budget fs

theorem time_le_of_mem_events {fs : List Frame} {e : Entry Str} {now : ℚ} (h : e ∈ events fs)
    (hnow : ∀ f ∈ fs, f.timestamp ≤ now) : e.time ≤ now := by
  obtain ⟨f, hf, he⟩ := List.mem_filterMap.mp h
  rw [Frame.time_of_event? he]
  exact hnow f hf

/-- At any later instant the time is enough. -/
theorem Budget.bound {fs : List Frame} (h : Budget fs) {now : ℚ}
    (hnow : ∀ f ∈ fs, f.timestamp ≤ now) :
    interval * (rated fs).length ≤
      spentUntil now (events fs) + interval * sessions (events fs) := by
  have hpos : (0 : ℚ) < interval := by norm_num [interval]
  cases h with
  | closed h hopen => exact h now
  | @fresh e hlast he h =>
      have hle := time_le_of_mem_events (List.mem_of_getLast? hlast) hnow
      rw [spentUntil_of_ass hlast he e.time now]
      linarith
  | @going e f b hlast he hf hb haddr h =>
      have hle := hnow f hf
      rw [spentUntil_of_ass hlast he f.timestamp now]
      linarith

/-- No event, no beacon that counts. -/
theorem Budget.other {fs : List Frame} (h : Budget fs) {f : Frame} (he : f.event? = none)
    (hc : counted? fs f = none) : Budget (fs ++ [f]) := by
  have hevents : events (fs ++ [f]) = events fs := by simp [he]
  have hrated : rated (fs ++ [f]) = rated fs := by simp [hc]
  cases h with
  | closed h hopen =>
      exact .closed (by rw [hevents, hrated]; exact h) (by rw [hevents]; exact hopen)
  | fresh hlast he h =>
      exact .fresh (hevents ▸ hlast) he (by rw [hevents, hrated]; exact h)
  | going hlast he hf hb haddr h =>
      exact .going (hevents ▸ hlast) he (List.mem_append_left _ hf) hb haddr
        (by rw [hevents, hrated]; exact h)

/-- An association opens a session with a budget of its own, a
disassociation leaves what the session had. -/
theorem Budget.event {fs : List Frame} (h : Budget fs) {f : Frame} {e : Entry Str}
    (he : f.event? = some e) (hc : counted? fs f = none)
    (hnow : ∀ g ∈ fs, g.timestamp ≤ f.timestamp) : Budget (fs ++ [f]) := by
  have hbound := h.bound hnow
  have hevents : events (fs ++ [f]) = events fs ++ [e] := by simp [he]
  have hrated : rated (fs ++ [f]) = rated fs := by simp [hc]
  rw [← Frame.time_of_event? he] at hbound
  cases hkind : e.kind with
  | ass =>
      refine .fresh (e := e) (by simp [hevents]) hkind ?_
      rw [hevents, hrated, spentUntil_snoc, sessions_snoc, if_pos hkind, if_pos hkind]
      push_cast
      linarith
  | dis =>
      refine .closed (fun now => ?_) ?_
      · rw [hevents, hrated, spentUntil_snoc, sessions_snoc, if_neg (by simp [hkind]),
          if_neg (by simp [hkind]), add_zero, add_zero]
        exact hbound
      · rw [hevents, openAp_snoc, if_neg (by simp [hkind])]

theorem addr_of_openAp {ts : List (Entry Str)} {e : Entry Str} {ap : Str}
    (hlast : ts.getLast? = some e) (h : openAp ts = some ap) : e.addr = some ap := by
  obtain ⟨ts, rfl⟩ := List.getLast?_eq_some_iff.mp hlast
  rw [openAp_snoc] at h
  split at h
  · exact h
  · cases h

theorem event_of_beacon {f : Frame} {b : Mac × Int} (h : f.beacon? = some b) :
    f.event? = none := by
  unfold Frame.beacon? at h
  split at h
  · next src dst hbody => simp [Frame.event?, hbody]
  · cases h

/-- A beacon that counts uses up the interval since the one before it. -/
theorem Budget.beacon {fs : List Frame} (h : Budget fs) {f : Frame} {b : Mac × Int}
    (hb : f.beacon? = some b) (hopen : openAp (events fs) = some (getFormattedMacAddr b.1))
    (hnow : ∀ g ∈ fs, g.timestamp ≤ f.timestamp)
    (hspace : ∀ g ∈ fs, ∀ b', g.beacon? = some b' → b'.1 = b.1 →
      g.timestamp + interval ≤ f.timestamp) : Budget (fs ++ [f]) := by
  have hevents : events (fs ++ [f]) = events fs := by simp [event_of_beacon hb]
  have hlen : ((rated (fs ++ [f])).length : ℚ) = (rated fs).length + 1 := by
    simp [counted?, hb, hopen]
  cases h with
  | closed h hclosed =>
      rw [hclosed] at hopen
      cases hopen
  | @fresh e hlast he h =>
      have hle := time_le_of_mem_events (List.mem_of_getLast? hlast) hnow
      refine .going (hevents ▸ hlast) he (by simp) hb (addr_of_openAp hlast hopen) ?_
      rw [hevents, hlen, spentUntil_of_ass hlast he e.time]
      linarith
  | @going e g b' hlast he hg hb' haddr h =>
      have haddr' := addr_of_openAp hlast hopen
      have hsrc : b'.1 = b.1 := by
        rw [haddr, Option.some.injEq] at haddr'
        exact getFormattedMacAddr_injective haddr'
      have hle := hspace g hg b' hb' hsrc
      refine .going (hevents ▸ hlast) he (by simp) hb haddr' ?_
      rw [hevents, hlen, spentUntil_of_ass hlast he g.timestamp]
      linarith

/-- What the capture is like: frames in the order of time, beacons of one AP
at least an interval apart. -/
structure Spaced (fs : List Frame) : Prop where
  ordered : fs.Pairwise fun f g => f.timestamp ≤ g.timestamp
  spaced : fs.Pairwise fun f g => ∀ b b', f.beacon? = some b → g.beacon? = some b' → b.1 = b'.1 →
    f.timestamp + interval ≤ g.timestamp

theorem Spaced.snoc {fs : List Frame} {f : Frame} (h : Spaced (fs ++ [f])) :
    Spaced fs ∧ (∀ g ∈ fs, g.timestamp ≤ f.timestamp) ∧
      ∀ g ∈ fs, ∀ b b', g.beacon? = some b → f.beacon? = some b' → b.1 = b'.1 →
        g.timestamp + interval ≤ f.timestamp := by
  obtain ⟨hord, hspace⟩ := h
  rw [List.pairwise_append] at hord hspace
  exact ⟨⟨hord.1, hspace.1⟩, fun g hg => hord.2.2 g hg f (by simp),
    fun g hg => hspace.2.2 g hg f (by simp)⟩

theorem budget_of_spaced {fs : List Frame} (h : Spaced fs) : Budget fs := by
  induction fs using List.reverseRecOn with
  | nil => exact .closed (fun now => by simp [rated, gatherFrom, events, spentUntil, sessions]) rfl
  | append_singleton fs f ih =>
      obtain ⟨hfs, hnow, hspace⟩ := h.snoc
      have hbudget := ih hfs
      cases hb : f.beacon? with
      | none =>
          have hc : counted? fs f = none := by simp [counted?, hb]
          cases he : f.event? with
          | none => exact hbudget.other he hc
          | some e => exact hbudget.event he hc hnow
      | some b =>
          by_cases hopen : openAp (events fs) = some (getFormattedMacAddr b.1)
          · exact hbudget.beacon hb hopen hnow fun g hg b' hb' hsrc => hspace g hg b' b hb' hb hsrc
          · exact hbudget.other (event_of_beacon hb) (by simp [counted?, hb, hopen])

/-- **The sum-rate and the connection times.** For every capture that the
loop gets through: `sum_rate` has a term for exactly the beacons whose
source is the AP of the last event before them, an association, and
`SNR.txt` has the SNRs of the IP frames. If the capture is in order, ends by
second 60, keeps the beacon interval and has a log the report can pair up,
then the beacon intervals that are counted fit into the connection times of
the two APs, but for one interval a session. -/
theorem sum_rate_time (fs : List Frame) (hok : ∀ f ∈ fs, f.Ok) :
    ∃ s, frameLoop 127 fs = some s ∧ s.sumRate = rated fs ∧ s.snrTxt = ipSnrs fs ∧
      (Spaced fs → (∀ f ∈ fs, f.timestamp ≤ 60) → WellFormed (events fs) →
        ∃ dur, durations s.AP1 s.ts = some dur ∧
          interval * s.sumRate.length ≤ dur.1 + dur.2 + interval * sessions s.ts) := by
  obtain ⟨s, hs⟩ := run_isSome_iff.mpr hok
  have hafter := run_after hs
  have hrated := run_rated hs
  refine ⟨s, by rw [frameLoop, if_pos rfl, hs], hrated.sumRate, hrated.snrTxt, ?_⟩
  intro hspaced hend hwf
  obtain ⟨dur, hdur, htotal⟩ := durations_total s.AP1 hwf
  rw [hafter.ts, hrated.sumRate]
  refine ⟨dur, hdur, ?_⟩
  rw [htotal]
  exact (budget_of_spaced hspaced).bound hend

/-- Probe, join at second 1, three beacons of which the last comes from
another AP, leave at second 2. -/
def shortSession : List Frame :=
  [⟨0, some 30, .mgmt 5 ⟨0, 0, 0, 0, 0, 1⟩ ⟨0, 0, 0, 0, 0, 9⟩⟩,
    ⟨1, none, .mgmt 1 ⟨0, 0, 0, 0, 0, 1⟩ ⟨0, 0, 0, 0, 0, 9⟩⟩,
    ⟨3 / 2, some 31, .mgmt 8 ⟨0, 0, 0, 0, 0, 1⟩ ⟨0, 0, 0, 0, 0, 255⟩⟩,
    ⟨7 / 4, some 32, .mgmt 8 ⟨0, 0, 0, 0, 0, 1⟩ ⟨0, 0, 0, 0, 0, 255⟩⟩,
    ⟨7 / 4, some 20, .mgmt 8 ⟨0, 0, 0, 0, 0, 2⟩ ⟨0, 0, 0, 0, 0, 255⟩⟩,
    ⟨2, none, .mgmt 10 ⟨0, 0, 0, 0, 0, 9⟩ ⟨0, 0, 0, 0, 0, 1⟩⟩]

theorem sum_rate_time_shortSession : ∃ s, frameLoop 127 shortSession = some s ∧
    s.sumRate = [31, 32] ∧ ∃ dur, durations s.AP1 s.ts = some dur ∧
      interval * s.sumRate.length ≤ dur.1 + dur.2 + interval * sessions s.ts := by
  obtain ⟨s, hs, hrate, -, htime⟩ := sum_rate_time shortSession (by simp [shortSession, Frame.Ok])
  refine ⟨s, hs, hrate.trans (by decide +kernel), htime ⟨?_, ?_⟩ ?_ ⟨?_, ?_⟩⟩
  · norm_num [shortSession]
  · norm_num [shortSession, Frame.beacon?, interval]
    rintro _ _ _ _ rfl - rfl -
    decide
  · norm_num [shortSession]
  · exact ⟨_, rfl, rfl⟩
  · simp [shortSession, events, Frame.event?]

end Cap

end NetSystem
