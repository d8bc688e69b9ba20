import NetSystem.CapRadiotap

/-!
# Captures `MyParser` gets through

`MyParser` from the records of the capture on. What it uses of `dpkt` is a
parameter: the radiotap decoder, which finds the header length for itself,
and the IEEE 802.11 decoder, which the program points at the byte `t_len`.

Of the places that can raise, the loop's `try` covers the access to the
management header and another one the SNR of a data frame. Left open are
the reading of `t_len`, the SNR of a beacon, the type of a data frame's
payload, and behind the loop `ts[-1]` on a log without entries.
-/

namespace NetSystem

namespace Cap

open Brgr (Mac)

/-! ## Records -/

/-- What the program uses of `dpkt`; `none` where the library raises. -/
structure Dpkt where
  /-- `Radiotap(buf)`: the SNR, or that one of its two fields is missing. -/
  radiotap : List UInt8 → Option (Option Int)
  /-- `IEEE80211(buf)`, with `LLC` of its payload for a data frame. -/
  ieee80211 : List UInt8 → Option Body

structure Record where
  timestamp : ℚ
  rawdata : List UInt8
deriving DecidableEq, Repr

/-- `l[n:]`; a negative `n` counts from the end. -/
def sliceFrom (n : Int) (l : List UInt8) : List UInt8 :=
  if 0 ≤ n then l.drop n.toNat else l.drop (l.length - n.natAbs)

variable (D : Dpkt)

/-- The first lines of the loop body. -/
def Record.frame? (r : Record) : Option Frame := do
  let snr ← D.radiotap r.rawdata
  let n ← tLen r.rawdata
  let body ← D.ieee80211 (sliceFrom n r.rawdata)
  return { timestamp := r.timestamp, snr, body }

def recordLoop (datalink : Nat) (rs : List Record) : Option Parser :=
  if datalink = 127 then run (fun s r => (r.frame? D).bind (step s)) .init rs else some .init

/-- `MyParser`; `none` if it raises. -/
def myParserRecords (datalink : Nat) (rs : List Record) : Option Report :=
  (recordLoop D datalink rs).bind fun s =>
    (durations s.AP1 s.ts).map fun dur => report s dur.1 dur.2

/-- `dpkt` decodes the record, the IEEE 802.11 frame behind the radiotap
header included. -/
def Record.Decoded (r : Record) (f : Frame) : Prop :=
  f.timestamp = r.timestamp ∧ D.radiotap r.rawdata = some f.snr ∧
    D.ieee80211 (r.rawdata.drop (radiotapLen r.rawdata)) = some f.body

/-! ## When it gets through -/

theorem durations_isSome_iff (AP1 : Str) (ts : List (Entry Str)) :
    (durations AP1 ts).isSome ↔ ts ≠ [] := by
  constructor
  · rintro h rfl
    cases h
  · intro h
    rw [durations_completed AP1 h]
    rfl

/-- On decoded frames: no frame the loop trips over, and an entry in the
log. -/
theorem myParser_isSome_iff (fs : List Frame) :
    (myParser 127 fs).isSome ↔ (∀ f ∈ fs, f.Ok) ∧ events fs ≠ [] := by
  rw [myParser, frameLoop, if_pos rfl, ← run_isSome_iff (s := .init)]
  cases hrun : run step .init fs with
  | none => simp
  | some s =>
      rw [Option.bind_some, Option.isSome_map, durations_isSome_iff, (run_after hrun).ts]
      simp

theorem myParserRecords_eq (rs : List Record) :
    myParserRecords D 127 rs = (rs.mapM (Record.frame? D)).bind (myParser 127) := by
  rw [myParserRecords, recordLoop, if_pos rfl, run_decode, Option.bind_assoc]
  rfl

/-- Other captures are not looked at, and leave the log empty. -/
theorem myParserRecords_eq_none {datalink : Nat} (h : datalink ≠ 127) (rs : List Record) :
    myParserRecords D datalink rs = none := by
  rw [myParserRecords, recordLoop, if_neg h]
  rfl

/-- A list is decoded if each of its elements is. -/
theorem mapM_eq_filterMap {α β : Type*} {g : α → Option β} : ∀ {l : List α},
    (∀ a ∈ l, (g a).isSome) → l.mapM g = some (l.filterMap g)
  | [], _ => rfl
  | a :: l, h => by
      obtain ⟨b, hb⟩ := Option.isSome_iff_exists.mp (h a List.mem_cons_self)
      have ih := mapM_eq_filterMap fun a' ha' => h a' (List.mem_cons_of_mem a ha')
      rw [List.mapM_cons, hb, ih, List.filterMap_cons_some hb]
      rfl

theorem isSome_of_mapM {α β : Type*} {g : α → Option β} : ∀ {l : List α} {l' : List β},
    l.mapM g = some l' → ∀ a ∈ l, (g a).isSome
  | [], _, _ => fun a ha => absurd ha List.not_mem_nil
  | a :: l, l', h => by
      simp only [List.mapM_cons, Option.bind_eq_bind, Option.bind_eq_some_iff] at h
      obtain ⟨b, hb, bs, hbs, -⟩ := h
      rw [List.forall_mem_cons]
      exact ⟨by rw [hb]; rfl, isSome_of_mapM hbs⟩

/-- The frames of a capture that is decoded throughout. -/
theorem forall_frames_iff {rs : List Record} (hall : ∀ r ∈ rs, (r.frame? D).isSome) :
    (∀ f ∈ rs.filterMap (Record.frame? D), f.Ok) ↔
      ∀ r ∈ rs, ∃ f, r.frame? D = some f ∧ f.Ok := by
  simp only [List.mem_filterMap]
  constructor
  · intro h r hr
    obtain ⟨f, hf⟩ := Option.isSome_iff_exists.mp (hall r hr)
    exact ⟨f, hf, h f ⟨r, hr, hf⟩⟩
  · rintro h f ⟨r, hr, hf⟩
    obtain ⟨f', hf', hok⟩ := h r hr
    rw [hf] at hf'
    obtain rfl := Option.some.inj hf'
    exact hok

theorem events_frames_iff (rs : List Record) :
    events (rs.filterMap (Record.frame? D)) ≠ [] ↔
      ∃ r ∈ rs, ∃ f, r.frame? D = some f ∧ f.event? ≠ none := by
  rw [events, ne_eq, List.filterMap_eq_nil_iff]
  push Not
  simp only [List.mem_filterMap]
  constructor
  · rintro ⟨f, ⟨r, hr, hf⟩, he⟩
    exact ⟨r, hr, f, hf, he⟩
  · rintro ⟨r, hr, f, hf, he⟩
    exact ⟨f, ⟨r, hr, hf⟩, he⟩

/-- Records are decoded before anything else is done with them. -/
theorem decoded_of_myParserRecords {rs : List Record}
    (h : (myParserRecords D 127 rs).isSome) : ∀ r ∈ rs, (r.frame? D).isSome := by
  rw [myParserRecords_eq] at h
  obtain ⟨fs, hfs⟩ := Option.isSome_iff_exists.mp (Option.isSome_of_isSome_bind h)
  exact isSome_of_mapM hfs

theorem myParserRecords_isSome_iff (rs : List Record) : (myParserRecords D 127 rs).isSome ↔
    (∀ r ∈ rs, ∃ f, r.frame? D = some f ∧ f.Ok) ∧
      ∃ r ∈ rs, ∃ f, r.frame? D = some f ∧ f.event? ≠ none := by
  by_cases hall : ∀ r ∈ rs, (r.frame? D).isSome
  · rw [myParserRecords_eq, mapM_eq_filterMap hall, Option.bind_some, myParser_isSome_iff,
      forall_frames_iff D hall, events_frames_iff]
  · refine iff_of_false (fun h => hall (decoded_of_myParserRecords D h)) fun h => ?_
    refine hall fun r hr => ?_
    obtain ⟨f, hf, -⟩ := h.1 r hr
    exact Option.isSome_iff_exists.mpr ⟨f, hf⟩

/-- `MyParser` completes exactly on radiotap captures of which every record
is decoded at `t_len`, every beacon has its two SNR fields, every data frame
a SNAP payload, and some frame is an association response or a
disassociation. -/
theorem myParser_completes_iff (datalink : Nat) (rs : List Record) :
    (myParserRecords D datalink rs).isSome ↔ datalink = 127 ∧
      (∀ r ∈ rs, ∃ f, r.frame? D = some f ∧ f.Ok) ∧
      ∃ r ∈ rs, ∃ f, r.frame? D = some f ∧ f.event? ≠ none := by
  rcases eq_or_ne datalink 127 with rfl | hlink
  · rw [myParserRecords_isSome_iff, eq_self_iff_true, true_and]
  · rw [myParserRecords_eq_none D hlink]
    exact iff_of_false (by simp) fun h => hlink h.1

/-- Where the length of the header is read right, the program works on what
`dpkt` decodes. -/
theorem frame?_of_decoded {r : Record} {f : Frame} (hlen : 4 ≤ r.rawdata.length)
    (h3 : r.rawdata.getD 3 0 = 0) (h2 : HexEscaped (r.rawdata.getD 2 0)) (h : r.Decoded D f) :
    r.frame? D = some f := by
  obtain ⟨htime, htap, hbody⟩ := h
  have hslice : sliceFrom (radiotapLen r.rawdata : Int) r.rawdata =
      r.rawdata.drop (radiotapLen r.rawdata) := by
    rw [sliceFrom, if_pos (Int.natCast_nonneg _), Int.toNat_natCast]
  simp only [Record.frame?, htap, tLen_of_escaped hlen h3 h2, Option.bind_eq_bind,
    Option.bind_some, hslice, hbody, Option.pure_def, ← htime]

/-- The header length is below 256 and its byte printed in hexadecimal. -/
def Record.Readable (r : Record) : Prop :=
  4 ≤ r.rawdata.length ∧ r.rawdata.getD 3 0 = 0 ∧ HexEscaped (r.rawdata.getD 2 0)

instance (r : Record) : Decidable r.Readable := inferInstanceAs (Decidable (_ ∧ _ ∧ _))

/-- With readable headers the condition is one on the frames `dpkt`
decodes. -/
theorem myParser_completes_decoded {rs : List Record} {fs : List Frame}
    (hread : ∀ r ∈ rs, r.Readable) (hdec : List.Forall₂ (Record.Decoded D) rs fs) :
    (myParserRecords D 127 rs).isSome ↔ (∀ f ∈ fs, f.Ok) ∧ events fs ≠ [] := by
  have hframes : rs.mapM (Record.frame? D) = some fs := by
    induction hdec with
    | nil => rfl
    | @cons r f rs fs hr _ ih =>
        rw [List.forall_mem_cons] at hread
        obtain ⟨⟨hlen, h3, h2⟩, hrest⟩ := hread
        rw [List.mapM_cons, frame?_of_decoded D hlen h3 h2 hr, ih hrest]
        rfl
  rw [myParserRecords_eq, hframes, Option.bind_some, myParser_isSome_iff]

/-! ## Two captures that end in an exception -/

def int8 (b : UInt8) : Int := if b < 128 then b.toNat else (b.toNat : Int) - 256

/-- Bytes of the fixed fields behind the header of a management frame. -/
def fixedLen : Nat → Nat
  | 5 | 8 => 12
  | 2 => 10
  | 1 | 3 | 11 => 6
  | 0 => 4
  | 10 | 12 => 2
  | _ => 0

/-- The part of `dpkt` the two captures need: radiotap headers with antenna
signal and noise, or with no field, and management frames with their fixed
fields. -/
def smallDpkt : Dpkt where
  radiotap buf :=
    if radiotapLen buf ≤ buf.length ∧ 10 ≤ radiotapLen buf then
      some (if buf.getD 4 0 = 0x60 then some (int8 (buf.getD 8 0) - int8 (buf.getD 9 0)) else none)
    else none
  ieee80211 buf :=
    let mac i : Mac := ⟨buf.getD i 0, buf.getD (i + 1) 0, buf.getD (i + 2) 0, buf.getD (i + 3) 0,
      buf.getD (i + 4) 0, buf.getD (i + 5) 0⟩
    let control := (buf.getD 0 0).toNat
    if control % 16 = 0 ∧ 24 + fixedLen (control / 16) ≤ buf.length then
      some (.mgmt (control / 16) (mac 10) (mac 4))
    else none

/-- A management frame of the given subtype and with the given fixed fields
behind a radiotap header of 24 bytes, with or without the two fields. -/
def mgmtRecord (subtype present : UInt8) (fixed : List UInt8) : Record where
  timestamp := 1
  rawdata := [0, 0, 24, 0, present, 0, 0, 0, 0xc4, 0xa1] ++ List.replicate 14 0 ++
    [subtype * 16, 0, 0, 0, 2, 0, 0, 0, 0, 9, 2, 0, 0, 0, 0, 1, 2, 0, 0, 0, 0, 1, 0, 0] ++ fixed

/-- Capability, status and association id. -/
def assocRecord : Record := mgmtRecord 1 0x60 [1, 0, 0, 0, 1, 0xc0]

/-- Timestamp, beacon interval and capability. -/
def beaconRecord (present : UInt8) : Record :=
  mgmtRecord 8 present [0, 0, 0, 0, 0, 0, 0, 0, 100, 0, 1, 0]

/-- An association response and a beacon recorded by the AP itself; a beacon
alone. Both are decoded, and on both the program raises. -/
theorem myParser_raises :
    (∃ fs, List.Forall₂ (Record.Decoded smallDpkt) [assocRecord, beaconRecord 0] fs) ∧
      myParserRecords smallDpkt 127 [assocRecord, beaconRecord 0] = none ∧
      (∃ fs, List.Forall₂ (Record.Decoded smallDpkt) [beaconRecord 0x60] fs) ∧
      myParserRecords smallDpkt 127 [beaconRecord 0x60] = none := by
  refine ⟨⟨[⟨1, some 35, .mgmt 1 ⟨2, 0, 0, 0, 0, 1⟩ ⟨2, 0, 0, 0, 0, 9⟩⟩,
    ⟨1, none, .mgmt 8 ⟨2, 0, 0, 0, 0, 1⟩ ⟨2, 0, 0, 0, 0, 9⟩⟩], ?_⟩, by decide +kernel,
    ⟨[⟨1, some 35, .mgmt 8 ⟨2, 0, 0, 0, 0, 1⟩ ⟨2, 0, 0, 0, 0, 9⟩⟩], ?_⟩, by decide +kernel⟩
  · exact .cons ⟨rfl, rfl, rfl⟩ (.cons ⟨rfl, rfl, rfl⟩ .nil)
  · exact .cons ⟨rfl, rfl, rfl⟩ .nil

end Cap

end NetSystem
