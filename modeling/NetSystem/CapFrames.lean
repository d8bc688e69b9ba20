import Mathlib.Data.List.Induction
import NetSystem.BrgrFrame
import NetSystem.CapSessions
import NetSystem.Run

/-!
# The frame loop of the capture parser

`parser.py`, `MyParser` as a whole: the loop over the captured frames, the
session durations of `CapSessions` on the log it leaves, and the report.

A `Frame` is what `dpkt` makes of one record of the capture; `snr` is
`tap.ant_sig.db - tap.ant_noise.db`, `none` if the radiotap header lacks
one of the two fields. The first half of the loop body stands in a `try`
whose `except` is for frames without a management header, so it is the
management branch here. Two accesses outside of it can raise and end the
program (`none`): the SNR of a beacon and the type of a data frame's
payload.

`After` is the loop's meaning: every variable as a function of the frames
seen so far.
-/

namespace NetSystem

namespace Cap

open Brgr (Mac)

/-! ## Formatted addresses -/

/-- `'%02x' % b`. -/
def hex2 (b : UInt8) : Str := [Nat.digitChar (b.toNat / 16), Nat.digitChar (b.toNat % 16)]

def getFormattedMacAddr (m : Mac) : Str :=
  hex2 m.a ++ ':' :: hex2 m.b ++ ':' :: hex2 m.c ++ ':' :: hex2 m.d ++ ':' :: hex2 m.e ++
    ':' :: hex2 m.f

theorem hex2_injective : Function.Injective hex2 := by
  have hdigit : ∀ m < 16, ∀ n < 16, Nat.digitChar m = Nat.digitChar n → m = n := by decide
  intro b c h
  have hb := b.toNat_lt
  have hc := c.toNat_lt
  rw [hex2, hex2, List.cons.injEq, List.cons.injEq] at h
  have hhi := hdigit _ (by omega) _ (by omega) h.1
  have hlo := hdigit _ (by omega) _ (by omega) h.2.1
  exact UInt8.toNat_inj.mp (by omega)

theorem getFormattedMacAddr_injective : Function.Injective getFormattedMacAddr := by
  rintro ⟨a, b, c, d, e, f⟩ ⟨a', b', c', d', e', f'⟩ h
  have hbyte : ∀ {x y : UInt8} {l l' : Str}, hex2 x ++ l = hex2 y ++ l' → x = y ∧ l = l' :=
    fun hxy => (List.append_inj hxy rfl).imp_left fun hx => hex2_injective hx
  simp only [getFormattedMacAddr, List.append_assoc, List.cons_append] at h
  obtain ⟨ha, h⟩ := hbyte h
  obtain ⟨hb, h⟩ := hbyte (List.cons.inj h).2
  obtain ⟨hc, h⟩ := hbyte (List.cons.inj h).2
  obtain ⟨hd, h⟩ := hbyte (List.cons.inj h).2
  obtain ⟨he, h⟩ := hbyte (List.cons.inj h).2
  rw [ha, hb, hc, hd, he, hex2_injective (List.cons.inj h).2]

/-- A variable that holds a formatted address, or `''`. -/
def formatted : Option Mac → Str
  | none => []
  | some m => getFormattedMacAddr m

@[simp] theorem getFormattedMacAddr_ne_nil (m : Mac) : getFormattedMacAddr m ≠ [] := by
  simp [getFormattedMacAddr]

theorem formatted_eq_nil {o : Option Mac} : formatted o = [] ↔ o = none := by
  cases o <;> simp [formatted]

theorem formatted_injective : Function.Injective formatted := by
  intro o o' h
  cases o with
  | none => exact (formatted_eq_nil.mp h.symm).symm
  | some m =>
      cases o' with
      | none => exact formatted_eq_nil.mp h
      | some m' => rw [getFormattedMacAddr_injective h]

/-! ## Frames -/

/-- The payload of a data frame: an IP packet with its length, another SNAP
type, or something without a type field. -/
inductive Llc where
  | ip (len : Nat)
  | other
  | notSnap
deriving DecidableEq, Repr

inductive Body where
  | mgmt (subtype : Nat) (src dst : Mac)
  | data (llc : Llc)
  | ctl
deriving DecidableEq, Repr

structure Frame where
  timestamp : ℚ
  snr : Option Int
  body : Body
deriving DecidableEq, Repr

/-! ## The loop -/

/-- The local variables of `MyParser`. `sum_rate` adds a term for each beacon
SNR; the terms' arguments are kept instead of the floating-point sum.
`snrTxt` are the lines of `SNR.txt`. -/
structure Parser where
  totalTrans1 : Int
  totalTrans2 : Int
  AP : Str
  AP1 : Str
  AP2 : Str
  handoff : Nat
  sumRate : List Int
  connect : Bool
  ts : List (Entry Str)
  snrTxt : List Int
deriving DecidableEq, Repr

def Parser.init : Parser where
  totalTrans1 := 0
  totalTrans2 := 0
  AP := []
  AP1 := []
  AP2 := []
  handoff := 0
  sumRate := []
  connect := false
  ts := []
  snrTxt := []

/-- Association Response. -/
def associate (s : Parser) (apNow : Str) (timestamp : ℚ) : Parser :=
  let s := if s.AP = [] then { s with AP := apNow }
    else if s.AP ≠ apNow then { s with handoff := s.handoff + 1, AP := apNow }
    else s
  { s with ts := s.ts ++ [⟨some apNow, .ass, timestamp⟩], connect := true }

/-- Disassociate. -/
def disassociate (s : Parser) (apDst : Str) (timestamp : ℚ) : Parser :=
  { s with ts := s.ts ++ [⟨some apDst, .dis, timestamp⟩], connect := false }

/-- An IP packet of the given length. -/
def countBytes (s : Parser) (len : Nat) : Parser :=
  if s.AP = s.AP1 then { s with totalTrans1 := s.totalTrans1 + ((len : Int) - 20) }
  else if s.AP = s.AP2 then { s with totalTrans2 := s.totalTrans2 + ((len : Int) - 20) }
  else s

/-- One round of the loop; `none` if it raises. -/
def step (s : Parser) (f : Frame) : Option Parser :=
  match f.body with
  | .mgmt subtype src dst =>
      let apNow := getFormattedMacAddr src
      if s.AP1 = [] ∧ subtype = 5 then some { s with AP1 := apNow }
      else if s.AP2 = [] ∧ subtype = 5 then some { s with AP2 := apNow }
      else
        let s := if subtype = 1 then associate s apNow f.timestamp
          else if subtype = 10 then disassociate s (getFormattedMacAddr dst) f.timestamp
          else s
        if subtype = 8 then
          match f.snr with
          -- `tap` has no such attribute
          | none => none
          | some snr =>
              if apNow = s.AP ∧ s.connect then some { s with sumRate := s.sumRate ++ [snr] }
              else some s
        else some s
  | .data .notSnap => none
  | .data .other => some s
  | .data (.ip len) =>
      match f.snr with
      | none => some (countBytes s len)
      | some snr => some (countBytes { s with snrTxt := s.snrTxt ++ [snr] } len)
  | .ctl => some s

/-- A block of the report for one AP. -/
structure Section where
  mac : Str
  duration : ℚ
  bytes : Int
deriving DecidableEq, Repr

structure Report where
  sections : List Section
  handoff : Nat
deriving DecidableEq, Repr

/-- The two branches of the printing code. -/
def report (s : Parser) (dur1 dur2 : ℚ) : Report :=
  if s.handoff = 0 then ⟨[⟨s.AP1, dur1, s.totalTrans1⟩], s.handoff⟩
  else ⟨[⟨s.AP1, dur1, s.totalTrans1⟩, ⟨s.AP2, dur2, s.totalTrans2⟩], s.handoff⟩

/-- Captures without radiotap headers are not looked at. -/
def frameLoop (datalink : Nat) (fs : List Frame) : Option Parser :=
  if datalink = 127 then run step .init fs else some .init

def myParser (datalink : Nat) (fs : List Frame) : Option Report :=
  (frameLoop datalink fs).bind fun s =>
    (durations s.AP1 s.ts).map fun dur => report s dur.1 dur.2

/-! ## What the frames say -/

namespace Frame

/-- The source of a probe response. -/
def probeSrc? (f : Frame) : Option Mac :=
  match f.body with
  | .mgmt 5 src _ => some src
  | _ => none

/-- The source of an association response. -/
def assocSrc? (f : Frame) : Option Mac :=
  match f.body with
  | .mgmt 1 src _ => some src
  | _ => none

/-- The log entry of an association or disassociation. -/
def event? (f : Frame) : Option (Entry Str) :=
  match f.body with
  | .mgmt 1 src _ => some ⟨some (getFormattedMacAddr src), .ass, f.timestamp⟩
  | .mgmt 10 _ dst => some ⟨some (getFormattedMacAddr dst), .dis, f.timestamp⟩
  | _ => none

/-- IP packet length - 20, of an IP data frame. -/
def ipBytes (f : Frame) : Int :=
  match f.body with
  | .data (.ip len) => (len : Int) - 20
  | _ => 0

/-- No access of the loop body raises. -/
def Ok (f : Frame) : Prop :=
  match f.body with
  | .mgmt 8 _ _ => f.snr ≠ none
  | .data .notSnap => False
  | _ => True

theorem event?_of_assocSrc? {f : Frame} {src : Mac} (h : f.assocSrc? = some src) :
    f.event? = some ⟨some (getFormattedMacAddr src), .ass, f.timestamp⟩ := by
  unfold assocSrc? at h
  split at h
  · next src' _ hbody =>
      obtain rfl := Option.some.inj h
      simp [event?, hbody]
  · cases h

/-- An association in the log is an association response. -/
theorem assocSrc?_of_event? {f : Frame} {e : Entry Str} (h : f.event? = some e)
    (hass : e.kind = .ass) : ∃ src, f.assocSrc? = some src ∧
      e.addr = some (getFormattedMacAddr src) := by
  unfold event? at h
  split at h
  · next src _ hbody =>
      obtain rfl := Option.some.inj h
      exact ⟨src, by simp [assocSrc?, hbody], rfl⟩
  · obtain rfl := Option.some.inj h
    cases hass
  · cases h

theorem time_of_event? {f : Frame} {e : Entry Str} (h : f.event? = some e) :
    e.time = f.timestamp := by
  unfold event? at h
  split at h
  · rw [← Option.some.inj h]
  · rw [← Option.some.inj h]
  · cases h

end Frame

/-- The probe responses' sources, in order. -/
def probes (fs : List Frame) : List Mac := fs.filterMap Frame.probeSrc?

/-- The association responses' sources, in order. -/
def assocs (fs : List Frame) : List Mac := fs.filterMap Frame.assocSrc?

def lastAssoc (fs : List Frame) : Option Mac := (assocs fs).getLast?

def events (fs : List Frame) : List (Entry Str) := fs.filterMap Frame.event?

/-- Number of changes in a sequence of addresses. -/
def handoffs : List Mac → Nat
  | a :: b :: l => (if a = b then 0 else 1) + handoffs (b :: l)
  | _ => 0

/-- IP bytes of the frames for which `p` holds of the frames before them. -/
def bytesFrom (p : List Frame → Bool) : List Frame → List Frame → Int
  | _, [] => 0
  | pre, f :: fs => (if p pre then f.ipBytes else 0) + bytesFrom p (pre ++ [f]) fs

def bytesWhen (p : List Frame → Bool) (fs : List Frame) : Int := bytesFrom p [] fs

theorem handoffs_snoc (x : Mac) : ∀ l : List Mac, handoffs (l ++ [x]) =
    handoffs l + match l.getLast? with
      | none => 0
      | some y => if y = x then 0 else 1
  | [] => rfl
  | [y] => by simp [handoffs]
  | a :: b :: l => by
      have ih := handoffs_snoc x (b :: l)
      rw [List.cons_append] at ih
      rw [List.cons_append, List.cons_append, handoffs, handoffs, ih, List.getLast?_cons_cons]
      omega

theorem bytesFrom_snoc (p : List Frame → Bool) (f : Frame) : ∀ (fs pre : List Frame),
    bytesFrom p pre (fs ++ [f]) = bytesFrom p pre fs + if p (pre ++ fs) then f.ipBytes else 0
  | [], pre => by simp [bytesFrom]
  | g :: fs, pre => by
      have ih := bytesFrom_snoc p f fs (pre ++ [g])
      rw [List.cons_append, bytesFrom, bytesFrom, ih, List.append_assoc, List.singleton_append,
        Int.add_assoc]

@[simp] theorem bytesWhen_snoc (p : List Frame → Bool) (fs : List Frame) (f : Frame) :
    bytesWhen p (fs ++ [f]) = bytesWhen p fs + if p fs then f.ipBytes else 0 :=
  bytesFrom_snoc p f fs []

/-! ## What one frame does -/

section Step

variable (s : Parser) (t : ℚ) (snr : Option Int) (src dst : Mac)

theorem step_probe : step s ⟨t, snr, .mgmt 5 src dst⟩ = some
    (if s.AP1 = [] then { s with AP1 := getFormattedMacAddr src }
      else if s.AP2 = [] then { s with AP2 := getFormattedMacAddr src }
      else s) := by
  simp only [step, and_true]
  split
  · rfl
  · split <;> rfl

theorem step_assoc : step s ⟨t, snr, .mgmt 1 src dst⟩ =
    some (associate s (getFormattedMacAddr src) t) := by
  simp [step]

theorem step_disassoc : step s ⟨t, snr, .mgmt 10 src dst⟩ =
    some (disassociate s (getFormattedMacAddr dst) t) := by
  simp [step]

theorem step_beacon : step s ⟨t, snr, .mgmt 8 src dst⟩ = snr.map fun x =>
    if getFormattedMacAddr src = s.AP ∧ s.connect then { s with sumRate := s.sumRate ++ [x] }
    else s := by
  cases snr with
  | none => simp [step]
  | some x =>
      simp only [step, Nat.reduceEqDiff, and_false, if_false, if_true, Option.map_some]
      split <;> rfl

theorem step_otherMgmt {subtype : Nat} (h5 : subtype ≠ 5) (h1 : subtype ≠ 1)
    (h10 : subtype ≠ 10) (h8 : subtype ≠ 8) :
    step s ⟨t, snr, .mgmt subtype src dst⟩ = some s := by
  simp [step, h5, h1, h10, h8]

end Step

theorem mgmt_kinds (subtype : Nat) : subtype = 5 ∨ subtype = 1 ∨ subtype = 10 ∨ subtype = 8 ∨
    (subtype ≠ 5 ∧ subtype ≠ 1 ∧ subtype ≠ 10 ∧ subtype ≠ 8) := by
  omega

/-- The loop body, by the kind of frame it is given. -/
theorem step_cases {s s' : Parser} {f : Frame} (h : step s f = some s') :
    (∃ src dst, f.body = .mgmt 5 src dst ∧ s' =
      if s.AP1 = [] then { s with AP1 := getFormattedMacAddr src }
      else if s.AP2 = [] then { s with AP2 := getFormattedMacAddr src }
      else s) ∨
    (∃ src dst, f.body = .mgmt 1 src dst ∧
      s' = associate s (getFormattedMacAddr src) f.timestamp) ∨
    (∃ src dst, f.body = .mgmt 10 src dst ∧
      s' = disassociate s (getFormattedMacAddr dst) f.timestamp) ∨
    (∃ len l, f.body = .data (.ip len) ∧ s' = countBytes { s with snrTxt := l } len) ∨
    (f.probeSrc? = none ∧ f.assocSrc? = none ∧ f.event? = none ∧ f.ipBytes = 0 ∧
      ∃ l, s' = { s with sumRate := l }) := by
  obtain ⟨t, snr, body⟩ := f
  cases body with
  | ctl =>
      refine Or.inr (Or.inr (Or.inr (Or.inr ⟨rfl, rfl, rfl, rfl, s.sumRate, ?_⟩)))
      exact (Option.some.inj h).symm
  | data llc =>
      cases llc with
      | ip len =>
          refine Or.inr (Or.inr (Or.inr (Or.inl ⟨len, ?_⟩)))
          cases snr with
          | none => exact ⟨s.snrTxt, rfl, (Option.some.inj h).symm⟩
          | some x => exact ⟨_, rfl, (Option.some.inj h).symm⟩
      | other =>
          refine Or.inr (Or.inr (Or.inr (Or.inr ⟨rfl, rfl, rfl, rfl, s.sumRate, ?_⟩)))
          exact (Option.some.inj h).symm
      | notSnap => cases h
  | mgmt subtype src dst =>
      rcases mgmt_kinds subtype with rfl | rfl | rfl | rfl | ⟨h5, h1, h10, h8⟩
      · rw [step_probe] at h
        exact Or.inl ⟨src, dst, rfl, (Option.some.inj h).symm⟩
      · rw [step_assoc] at h
        exact Or.inr (Or.inl ⟨src, dst, rfl, (Option.some.inj h).symm⟩)
      · rw [step_disassoc] at h
        exact Or.inr (Or.inr (Or.inl ⟨src, dst, rfl, (Option.some.inj h).symm⟩))
      · rw [step_beacon, Option.map_eq_some_iff] at h
        obtain ⟨x, -, rfl⟩ := h
        refine Or.inr (Or.inr (Or.inr (Or.inr ⟨rfl, rfl, rfl, rfl, ?_⟩)))
        split
        · exact ⟨_, rfl⟩
        · exact ⟨s.sumRate, rfl⟩
      · rw [step_otherMgmt s t snr src dst h5 h1 h10 h8] at h
        refine Or.inr (Or.inr (Or.inr (Or.inr ⟨?_, ?_, ?_, rfl, s.sumRate, ?_⟩)))
        · simp [Frame.probeSrc?, h5]
        · simp [Frame.assocSrc?, h1]
        · simp [Frame.event?, h1, h10]
        · exact (Option.some.inj h).symm

/-- Whether a round raises depends on the frame alone. -/
theorem step_eq_none_iff {s : Parser} {f : Frame} : step s f = none ↔ ¬ f.Ok := by
  obtain ⟨t, snr, body⟩ := f
  cases body with
  | ctl => simp [step, Frame.Ok]
  | data llc =>
      cases llc with
      | ip len => cases snr <;> simp [step, Frame.Ok]
      | other => simp [step, Frame.Ok]
      | notSnap => simp [step, Frame.Ok]
  | mgmt subtype src dst =>
      rcases mgmt_kinds subtype with rfl | rfl | rfl | rfl | ⟨h5, h1, h10, h8⟩
      · simp [step_probe, Frame.Ok]
      · simp [step_assoc, Frame.Ok]
      · simp [step_disassoc, Frame.Ok]
      · simp [step_beacon, Frame.Ok]
      · simp [step_otherMgmt s t snr src dst h5 h1 h10 h8, Frame.Ok, h8]

/-! ## What the loop computes -/

/-- The frame comes while the AP joined last is the one in the first slot;
before any association, while the slot is empty. -/
def atSlot1 (pre : List Frame) : Bool := decide (lastAssoc pre = (probes pre)[0]?)

/-- Likewise for the second slot, if the first does not apply. -/
def atSlot2 (pre : List Frame) : Bool :=
  !atSlot1 pre && decide (lastAssoc pre = (probes pre)[1]?)

/-- The variables after the frames `fs`. -/
structure After (fs : List Frame) (s : Parser) : Prop where
  AP : s.AP = formatted (lastAssoc fs)
  AP1 : s.AP1 = formatted (probes fs)[0]?
  AP2 : s.AP2 = formatted (probes fs)[1]?
  handoff : s.handoff = handoffs (assocs fs)
  ts : s.ts = events fs
  totalTrans1 : s.totalTrans1 = bytesWhen atSlot1 fs
  totalTrans2 : s.totalTrans2 = bytesWhen atSlot2 fs

theorem after_init : After [] .init := ⟨rfl, rfl, rfl, rfl, rfl, rfl, rfl⟩

section Snoc

variable (fs : List Frame) (f : Frame)

@[simp] theorem probes_snoc : probes (fs ++ [f]) = probes fs ++ f.probeSrc?.toList := by
  rw [probes, List.filterMap_append, probes]
  cases h : f.probeSrc? <;> simp [h]

@[simp] theorem assocs_snoc : assocs (fs ++ [f]) = assocs fs ++ f.assocSrc?.toList := by
  rw [assocs, List.filterMap_append, assocs]
  cases h : f.assocSrc? <;> simp [h]

@[simp] theorem events_snoc : events (fs ++ [f]) = events fs ++ f.event?.toList := by
  rw [events, List.filterMap_append, events]
  cases h : f.event? <;> simp [h]

@[simp] theorem lastAssoc_snoc : lastAssoc (fs ++ [f]) = f.assocSrc?.or (lastAssoc fs) := by
  rw [lastAssoc, assocs_snoc, List.getLast?_append]
  cases f.assocSrc? <;> rfl

end Snoc

/-- The slots after one more probe response. -/
theorem slots_snoc (ps : List Mac) (src : Mac) (s : Parser) (h1 : s.AP1 = formatted ps[0]?)
    (h2 : s.AP2 = formatted ps[1]?) :
    (if s.AP1 = [] then { s with AP1 := getFormattedMacAddr src }
      else if s.AP2 = [] then { s with AP2 := getFormattedMacAddr src }
      else s) =
      { s with AP1 := formatted (ps ++ [src])[0]?, AP2 := formatted (ps ++ [src])[1]? } := by
  obtain ⟨_, _, _, AP1, AP2, _, _, _, _, _⟩ := s
  simp only at h1 h2
  subst h1 h2
  rcases ps with _ | ⟨a, _ | ⟨b, ps⟩⟩ <;> simp [formatted]

theorem associate_eq {fs : List Frame} {s : Parser} (hs : After fs s) (src : Mac) (t : ℚ) :
    associate s (getFormattedMacAddr src) t =
      { s with
        AP := getFormattedMacAddr src
        handoff := handoffs (assocs fs ++ [src])
        ts := s.ts ++ [⟨some (getFormattedMacAddr src), .ass, t⟩]
        connect := true } := by
  have hAP := hs.AP
  rw [associate, handoffs_snoc, ← hs.handoff, hAP]
  unfold lastAssoc
  cases hlast : (assocs fs).getLast? with
  | none => simp [formatted]
  | some ap =>
      have hiff : getFormattedMacAddr ap = getFormattedMacAddr src ↔ ap = src :=
        getFormattedMacAddr_injective.eq_iff
      by_cases heq : ap = src
      · simp [formatted, heq, hAP, lastAssoc, hlast]
      · simp [formatted, heq, hiff]

theorem countBytes_eq {fs : List Frame} {s : Parser} (hs : After fs s) (l : List Int)
    (len : Nat) : countBytes { s with snrTxt := l } len =
      { s with
        totalTrans1 := s.totalTrans1 + if atSlot1 fs then (len : Int) - 20 else 0
        totalTrans2 := s.totalTrans2 + if atSlot2 fs then (len : Int) - 20 else 0
        snrTxt := l } := by
  have h1 : s.AP = s.AP1 ↔ atSlot1 fs = true := by
    rw [hs.AP, hs.AP1, formatted_injective.eq_iff, atSlot1, decide_eq_true_iff]
  have h2 : s.AP = s.AP2 ↔ lastAssoc fs = (probes fs)[1]? := by
    rw [hs.AP, hs.AP2, formatted_injective.eq_iff]
  simp only [countBytes, h1, h2, atSlot2]
  by_cases hslot : atSlot1 fs = true
  · simp [hslot]
  · by_cases hslot2 : lastAssoc fs = (probes fs)[1]?
    · simp [hslot, hslot2]
    · simp [hslot, hslot2]

/-- Each variable takes its next value. -/
theorem step_after {fs : List Frame} {s s' : Parser} {f : Frame} (hs : After fs s)
    (h : step s f = some s') : After (fs ++ [f]) s' := by
  obtain ⟨hAP, hAP1, hAP2, hhandoff, hts, ht1, ht2⟩ := id hs
  obtain ⟨src, dst, hf, rfl⟩ | ⟨src, dst, hf, rfl⟩ | ⟨src, dst, hf, rfl⟩ | ⟨len, l, hf, rfl⟩ |
    ⟨hp, ha, he, hb, l, rfl⟩ := step_cases h
  · rw [slots_snoc (probes fs) src s hAP1 hAP2]
    constructor <;>
      simp [Frame.probeSrc?, Frame.assocSrc?, Frame.event?, Frame.ipBytes, hf, hAP, hhandoff,
        hts, ht1, ht2]
  · rw [associate_eq hs]
    constructor <;>
      simp [Frame.probeSrc?, Frame.assocSrc?, Frame.event?, Frame.ipBytes, hf, hAP1, hAP2, hts,
        ht1, ht2, formatted]
  · constructor <;>
      simp [disassociate, Frame.probeSrc?, Frame.assocSrc?, Frame.event?, Frame.ipBytes, hf, hAP,
        hAP1, hAP2, hhandoff, hts, ht1, ht2]
  · rw [countBytes_eq hs]
    constructor <;>
      simp [Frame.probeSrc?, Frame.assocSrc?, Frame.event?, Frame.ipBytes, hf, hAP, hAP1, hAP2,
        hhandoff, hts, ht1, ht2]
  · constructor <;> simp [hp, ha, he, hb, hAP, hAP1, hAP2, hhandoff, hts, ht1, ht2]

theorem run_after {fs : List Frame} {s : Parser} (h : run step .init fs = some s) :
    After fs s :=
  run_inv_inputs (P := After) (fun _ _ _ _ hs hstep => step_after hs hstep) [] after_init h

/-- The loop gets through a capture iff it gets through each frame. -/
theorem run_isSome_iff {s : Parser} {fs : List Frame} :
    (∃ t, run step s fs = some t) ↔ ∀ f ∈ fs, f.Ok := by
  induction fs generalizing s with
  | nil => simp
  | cons f fs ih =>
      have hnone := step_eq_none_iff (s := s) (f := f)
      rw [run_cons, List.forall_mem_cons]
      cases hstep : step s f with
      | none => simp [hnone.mp hstep]
      | some s' =>
          have hok : f.Ok := by
            by_contra hno
            rw [hnone.mpr hno] at hstep
            cases hstep
          rw [Option.bind_some, ih]
          exact ⟨fun h => ⟨hok, h⟩, And.right⟩

/-! ## The statistics -/

/-- `handoff`, `dur1` and `dur2`, if the program gets that far. -/
def statistics (fs : List Frame) : Option (Nat × ℚ × ℚ) :=
  (frameLoop 127 fs).bind fun s => (durations s.AP1 s.ts).map fun dur => (s.handoff, dur)

/-- They are functions of the events and the first probe response. -/
theorem statistics_eq {fs : List Frame} (hok : ∀ f ∈ fs, f.Ok) : statistics fs =
    (durations (formatted (probes fs)[0]?) (events fs)).map fun dur =>
      (handoffs (assocs fs), dur) := by
  obtain ⟨s, hs⟩ := run_isSome_iff.mpr hok
  have hafter := run_after hs
  rw [statistics, frameLoop, if_pos rfl, hs, Option.bind_some, hafter.AP1, hafter.ts,
    hafter.handoff]

theorem statistics_of_not_ok {fs : List Frame} (hok : ¬ ∀ f ∈ fs, f.Ok) :
    statistics fs = none := by
  rw [statistics, frameLoop, if_pos rfl]
  cases h : run step .init fs with
  | none => rfl
  | some s => exact absurd (run_isSome_iff.mp ⟨s, h⟩) hok

end Cap

end NetSystem
