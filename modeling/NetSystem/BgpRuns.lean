import NetSystem.BgpInv

/-!
# The selection, and every run

`bgpProcessMain_spec` says what `bgp_process_main` does to a node for which
the invariant holds, whether it finds something to do or not. With that and
the lemmas on edits and sessions every input keeps the invariant
(`step_inv`), and none runs into the assertion in `bgp_process`.
-/

namespace NetSystem

namespace Bgp

open Criteria

section Process

variable {c : Router} {r : Rib} {a : Heard}

theorem PathOk.peer_mem {i : Info} (h : PathOk c i) (hnormal : i.subType = .normal) :
    i.peer ∈ c.peers := by
  rcases h.origin with ⟨-, hp⟩ | ⟨hstatic, -⟩
  · exact hp
  · exact absurd (hnormal.symm.trans hstatic) nofun

theorem PathOk.peer_self {i : Info} (h : PathOk c i) (hown : i.subType ≠ .normal) :
    i.peer = c.peerSelf := by
  rcases h.origin with ⟨hnormal, -⟩ | ⟨-, hp⟩
  · exact absurd hnormal hown
  · exact hp

/-- The selection finds what it needs. -/
theorem Paths.tidy (hc : Sound c) (h : Paths c r) :
    Tidy c.toConfig r.status r.info r.list where
  nodup := h.nodup
  mpath := hc.mpath
  apart x y hx hy hne := by
    have hpeer : (r.info x).peer ≠ (r.info y).peer := fun heq =>
      hne (h.onePath x hx.1 y hy.1 heq)
    refine ⟨?_, ?_, fun hsel => hne (h.oneSelected x hx.1 y hy.1 hsel.1 hsel.2), fun hstale => ?_,
      fun hnx hny => hc.remote _ ((h.ok x hx.1).peer_mem hnx) _ ((h.ok y hy.1).peer_mem hny) hpeer⟩
    · intro i hi hnormal
      simp only [List.mem_cons, List.not_mem_nil, or_false] at hi
      rcases hi with rfl | rfl
      · exact hc.sorts _ ((h.ok x hx.1).peer_mem hnormal)
      · exact hc.sorts _ ((h.ok y hy.1).peer_mem hnormal)
    · by_contra hno
      rw [not_or] at hno
      exact hpeer (((h.ok x hx.1).peer_self hno.1).trans ((h.ok y hy.1).peer_self hno.2).symm)
    · exact Bool.false_ne_true ((h.ok x hx.1).stale.symm.trans hstale.1)
  noRestart x hx := rfl
  noConfed hdet x hx := (h.ok x hx.1).plain hdet
  med := hc.med

/-- What the selection does to a path. -/
def moved (old new : Option Ptr) (x : Ptr) (i : Info) : Info :=
  if new = some x then { i with selected := true, attrChanged := false }
  else if old = some x then { i with selected := false }
  else i

theorem moved_bare (old new : Option Ptr) (x : Ptr) (i : Info) :
    (moved old new x i).bare = i.bare := by
  rw [moved]
  split
  · rfl
  · split
    · rfl
    · rfl

theorem Rib.set_info (r : Rib) (x : Ptr) (f : Info → Info) (y : Ptr) :
    (r.set x f).info y = if x = y then f (r.info y) else r.info y := by
  by_cases hxy : x = y
  · rw [if_pos hxy, ← hxy]
    exact Function.update_self ..
  · rw [if_neg hxy]
    exact Function.update_of_ne (Ne.symm hxy) ..

theorem moveSelected_eq (r : Rib) (old new : Option Ptr) :
    r.moveSelected old new = { r with info := fun x => moved old new x (r.info x) } := by
  have hinfo : (r.moveSelected old new).info = fun x => moved old new x (r.info x) := by
    funext x
    cases old with
    | none =>
        cases new with
        | none => rfl
        | some n => simp [Rib.moveSelected, moved, Rib.set_info]
    | some o =>
        cases new with
        | none => simp [Rib.moveSelected, moved, Rib.set_info]
        | some n =>
            simp only [Rib.moveSelected, Option.elim_some, moved, Rib.set_info, Option.some.injEq]
            by_cases hx : n = x
            · by_cases ho : o = x
              · simp [hx, ho]
              · simp [hx, ho]
            · rw [if_neg hx, if_neg hx]
  rw [← hinfo]
  cases old <;> cases new <;> rfl

/-- The node after the selection. -/
structure Processed (c : Router) (r r' : Rib) (new : Option Ptr) : Prop where
  nodup : r'.list.Nodup
  mem : ∀ x, x ∈ r'.list ↔ x ∈ r.list ∧ (r.info x).removed = false
  next : r'.next = r.next
  marks : r'.marks = Marks.empty
  scheduled : r'.scheduled = false
  established : r'.established = r.established
  clearing : r'.clearing = r.clearing
  bare : ∀ x, (r'.info x).bare = (r.info x).bare
  selected : ∀ x ∈ r.list, (r'.info x).selected = decide (new = some x)
  told : ∀ x, new = some x → (r'.info x).attrChanged = false
  best : ∀ b, new = some b ↔ IsBest c.toConfig r.status r.info r.list b
  none : new = none ↔ ∀ x, ¬ Usable c.toConfig r.status r.info r.list x
  up : ∀ p, r.established p = true →
    r'.adjOut p = new.bind fun x => Rib.announceCheck c p (r.info x)
  down : ∀ p, r.established p = false → r'.adjOut p = r.adjOut p
  fib : c.noFib = false → r'.fib = new.bind fun x => fibEntry (r.info x)

theorem Usable.not_removed {c : Config} {st : Status} {h : Heap} {list : List Ptr} {x : Ptr}
    (hx : Usable c st h list x) : (h x).removed = false := by
  have husable := hx.2
  simp only [usable, holddown, Bool.and_eq_true, Bool.not_eq_true', Bool.or_eq_false_iff] at husable
  exact husable.1.2

/-- A function of a path that does not read the flags of the selection. -/
theorem moved_congr {β : Sort*} (f : Info → β) (hf : ∀ i : Info, f i.bare = f i)
    (old new : Option Ptr) (x : Ptr) (i : Info) : f (moved old new x i) = f i := by
  rw [← hf (moved old new x i), moved_bare, hf i]

section Branches

variable {s : Selection}

theorem Chosen.mem_list (hs : Chosen c.toConfig r.status r.info r.list s) {x : Ptr} :
    x ∈ s.list ↔ x ∈ r.list ∧ ((r.info x).removed = false ∨ s.old = some x) := by
  rw [hs.list, List.mem_filter, stays, hs.old, Bool.or_eq_true, Bool.not_eq_true']
  exact and_congr_right fun hx => or_congr_right (and_iff_right hx).symm

theorem Chosen.selected_eq (hs : Chosen c.toConfig r.status r.info r.list s) {x : Ptr}
    (hx : x ∈ r.list) : (r.info x).selected = decide (s.old = some x) := by
  rw [Bool.eq_iff_iff, decide_eq_true_iff, hs.old, and_iff_right hx]

/-- The selected path stays, and so do its attributes. -/
theorem processed_unchanged (h : Inv c r a) (hs : Chosen c.toConfig r.status r.info r.list s)
    {o : Ptr} (hold : s.old = some o) (hnew : s.new = some o)
    (hattr : (r.info o).attrChanged = false) :
    Processed c r
      { r with
        list := s.list
        marks := s.marks
        fib := match s.old.filter fun x => (r.info x).igpChanged with
          | some x => some (r.info x).attr
          | none => r.fib
        scheduled := false } s.new := by
  obtain ⟨homem, hosel⟩ := (hs.old o).mp hold
  have hremoved : (r.info o).removed = false := ((hs.new o).mp hnew).mem.1.not_removed
  refine ⟨?_, fun x => ?_, rfl, hs.marks, rfl, rfl, rfl, fun _ => rfl, fun x hx => ?_,
    fun x hx => ?_, hs.new, hs.none, fun p hp => ?_, fun _ _ => rfl, fun hfib => ?_⟩
  · rw [hs.list]
    exact h.paths.nodup.filter _
  · rw [hs.mem_list]
    refine and_congr_right fun _ => or_iff_left_of_imp fun hx => ?_
    obtain rfl := Option.some.inj (hold.symm.trans hx)
    exact hremoved
  · rw [hs.selected_eq hx, hold, hnew]
  · obtain rfl := Option.some.inj (hnew.symm.trans hx)
    exact hattr
  · rw [hnew, Option.bind_some]
    exact (h.outputs.up p hp).selected o homem hosel hattr
  · have hfib' : r.fib = fibEntry (r.info o) := (h.outputs.fib hfib).selected o homem hosel hattr
    rw [hnew, hold, Option.bind_some]
    cases higp : (r.info o).igpChanged with
    | false => simp only [Option.filter, higp, Bool.false_eq_true, if_false, hfib']
    | true =>
        have hnormal := (h.paths.ok o homem).igpChanged higp
        simp only [Option.filter, higp, if_true, fibEntry, hnormal]

theorem fibUpdate_eq (h : Inv c r a) (hs : Chosen c.toConfig r.status r.info r.list s)
    (hfib : c.noFib = false) :
    Rib.fibUpdate c (r.moveSelected s.old s.new) s.old s.new =
      s.new.bind fun x => fibEntry (r.info x) := by
  have hsub : ∀ x, ((r.moveSelected s.old s.new).info x).subType = (r.info x).subType := by
    intro x
    rw [moveSelected_eq]
    exact moved_congr Info.subType (fun _ => rfl) ..
  have hattr : ∀ x, ((r.moveSelected s.old s.new).info x).attr = (r.info x).attr := by
    intro x
    rw [moveSelected_eq]
    exact moved_congr Info.attr (fun _ => rfl) ..
  have hsame : (r.moveSelected s.old s.new).fib = r.fib := by rw [moveSelected_eq]
  -- a path of its own was never told to the kernel
  have hquiet : (∀ o, s.old = some o → (r.info o).subType ≠ .normal) → r.fib = none := by
    intro hold
    by_cases hsel : ∃ o, s.old = some o
    · obtain ⟨o, ho⟩ := hsel
      obtain ⟨homem, hosel⟩ := (hs.old o).mp ho
      exact h.outputs.own hfib o homem hosel (hold o ho)
    · refine (h.outputs.fib hfib).none fun x hx => ?_
      rw [hs.selected_eq hx, decide_eq_false fun heq => hsel ⟨x, heq⟩]
  have hnone : (match s.old.filter fun x => (r.info x).subType = .normal with
      | some _ => none
      | none => r.fib) = none := by
    cases hold : s.old.filter fun x => (r.info x).subType = .normal with
    | some o => rfl
    | none =>
        refine hquiet fun o ho hnormal => ?_
        rw [ho, Option.filter, if_pos (by simpa using hnormal)] at hold
        cases hold
  rw [Rib.fibUpdate, hfib, if_neg Bool.false_ne_true]
  simp only [hsub, hattr, hsame]
  cases hnew : s.new with
  | none => exact hnone
  | some n =>
      by_cases hnormal : (r.info n).subType = .normal
      · simp [Option.filter, hnormal, fibEntry]
      · simp only [Option.filter, hnormal, decide_false, Bool.false_eq_true, if_false,
          Option.bind_some, fibEntry]
        exact hnone

/-- The node tells what is selected now. -/
theorem processed_changed (h : Inv c r a) (hs : Chosen c.toConfig r.status r.info r.list s) :
    Processed c r
      { r.moveSelected s.old s.new with
        marks := s.marks
        userClear := false
        adjOut := (r.moveSelected s.old s.new).announceSelected c s.new
        fib := (r.moveSelected s.old s.new).fibUpdate c s.old s.new
        list := match s.old.filter fun x => (r.info x).removed with
          | some x => s.list.erase x
          | none => s.list
        scheduled := false } s.new := by
  have hnodup : s.list.Nodup := by
    rw [hs.list]
    exact h.paths.nodup.filter _
  refine ⟨?_, fun x => ?_, ?_, hs.marks, rfl, ?_, ?_, fun x => ?_, fun x hx => ?_, fun x hx => ?_,
    hs.new, hs.none, fun p hp => ?_, fun p hp => ?_, fun hfib => fibUpdate_eq h hs hfib⟩
  · dsimp only
    split
    · exact hnodup.erase _
    · exact hnodup
  · dsimp only
    cases hold : s.old.filter fun x => (r.info x).removed with
    | some o =>
        obtain ⟨ho, hrem⟩ := Option.filter_eq_some_iff.mp hold
        rw [hnodup.mem_erase_iff, hs.mem_list, ho]
        constructor
        · rintro ⟨hne, hmem, hrem' | heq⟩
          · exact ⟨hmem, hrem'⟩
          · exact absurd (Option.some.inj heq).symm hne
        · rintro ⟨hmem, hrem'⟩
          refine ⟨?_, hmem, Or.inl hrem'⟩
          rintro rfl
          exact Bool.false_ne_true (hrem'.symm.trans hrem)
    | none =>
        rw [hs.mem_list]
        refine and_congr_right fun _ => or_iff_left_of_imp fun hx => ?_
        rw [hx, Option.filter] at hold
        cases hrem : (r.info x).removed with
        | false => rfl
        | true =>
            rw [if_pos hrem] at hold
            cases hold
  · rw [moveSelected_eq]
  · rw [moveSelected_eq]
  · rw [moveSelected_eq]
  · rw [moveSelected_eq]
    exact moved_bare ..
  · have hsel := hs.selected_eq hx
    rw [moveSelected_eq]
    dsimp only
    rw [moved]
    by_cases hnew : s.new = some x
    · rw [if_pos hnew, decide_eq_true hnew]
    · rw [if_neg hnew, decide_eq_false hnew]
      by_cases hold : s.old = some x
      · rw [if_pos hold]
      · rw [if_neg hold, hsel, decide_eq_false hold]
  · rw [moveSelected_eq]
    dsimp only
    rw [moved, if_pos hx]
  · have hup : (r.moveSelected s.old s.new).established p = true := by rwa [moveSelected_eq]
    dsimp only
    rw [Rib.announceSelected, if_pos ⟨h.sessions.established p hp, hup⟩, moveSelected_eq]
    dsimp only
    congr 1
    funext x
    exact moved_congr (Rib.announceCheck c p) (fun _ => rfl) ..
  · have hup : (r.moveSelected s.old s.new).established p = false := by rwa [moveSelected_eq]
    dsimp only
    rw [Rib.announceSelected, hup, if_neg fun hno => Bool.false_ne_true hno.2, moveSelected_eq]

end Branches

/-- **`bgp_process_main`** -/
theorem bgpProcessMain_spec (hc : Sound c) (h : Inv c r a) :
    ∃ new, Processed c r (r.bgpProcessMain c) new := by
  have hs := bgpBestSelection_spec (h.paths.tidy hc) h.paths.oneSelected
  rw [← h.settles.marks] at hs
  rw [Rib.bgpProcessMain]
  generalize bgpBestSelection c.toConfig r.status r.info r.list r.marks = s at hs
  refine ⟨s.new, ?_⟩
  dsimp only
  split
  · rename_i hun
    simp only [Rib.unchanged, Bool.and_eq_true, decide_eq_true_eq] at hun
    obtain ⟨⟨⟨hsome, hsame⟩, -⟩, hattr⟩ := hun
    obtain ⟨o, hold⟩ := Option.isSome_iff_exists.mp hsome
    rw [hold, Option.all_some, Bool.not_eq_true'] at hattr
    exact processed_unchanged h hs hold (hsame.symm.trans hold) hattr
  · have hremoved : ∀ x, (moved s.old s.new x (r.info x)).removed = (r.info x).removed := fun x =>
      moved_congr Info.removed (fun _ => rfl) ..
    have hchanged := processed_changed h hs
    simp only [moveSelected_eq] at hchanged ⊢
    simp only [hremoved]
    exact hchanged

section After

variable {r' : Rib} {new : Option Ptr}

theorem Processed.congr (hpr : Processed c r r' new) {β : Sort*} (f : Info → β)
    (hf : ∀ i : Info, f i.bare = f i) (x : Ptr) : f (r'.info x) = f (r.info x) := by
  rw [← hf (r'.info x), hpr.bare x, hf (r.info x)]

theorem Processed.usable_iff (hpr : Processed c r r' new) (x : Ptr) :
    Usable c.toConfig r'.status r'.info r'.list x ↔ Usable c.toConfig r.status r.info r.list x := by
  have husable : usable c.toConfig r'.status (r'.info x) =
      usable c.toConfig r.status (r.info x) := by
    rw [Rib.status, hpr.established]
    exact hpr.congr (usable c.toConfig r.status) (fun _ => rfl) x
  rw [Usable, hpr.mem, husable, and_assoc]
  refine and_congr_right fun hx => and_iff_right_of_imp fun hu => ?_
  have hux : Usable c.toConfig r.status r.info r.list x := ⟨hx, hu⟩
  exact hux.not_removed

/-- What was selected is the best path, also with the new flags. -/
theorem Processed.isBest_iff (hc : Sound c) (h : Inv c r a) (hpr : Processed c r r' new) {b : Ptr} :
    IsBest c.toConfig r'.status r'.info r'.list b ↔ new = some b := by
  have hstatus : r'.status = r.status := by rw [Rib.status, Rib.status, hpr.established]
  have hlist : IsBest c.toConfig r'.status r'.info r'.list b ↔
      IsBest c.toConfig r.status r'.info r.list b := by
    refine isBest_congr fun x => ?_
    rw [hpr.usable_iff, Usable, Usable, hpr.congr (usable c.toConfig r.status) (fun _ => rfl) x]
  rw [hlist]
  cases hnew : new with
  | none =>
      refine iff_of_false (fun hb => ?_) (Option.some_ne_none b).symm
      have hu : Usable c.toConfig r.status r'.info r.list b := hb.mem.1
      rw [Usable, hpr.congr (usable c.toConfig r.status) (fun _ => rfl) b] at hu
      exact hpr.none.mp hnew b hu
  | some n =>
      have hre : Reselected r.info r'.info r.list n := by
        refine ⟨fun x _ => hpr.bare x, fun x hx => ?_⟩
        rw [hpr.selected x hx, hnew, decide_eq_decide, Option.some.injEq, eq_comm]
      have htidy := h.paths.tidy hc
      have hbest := IsBest.again htidy h.paths.oneSelected hre ((hpr.best n).mp hnew)
      rw [Option.some.injEq]
      constructor
      · exact fun hb => hbest.unique (hre.tidy htidy).strictOn_race hb
      · rintro rfl
        exact hbest

theorem Processed.paths (h : Inv c r a) (hpr : Processed c r r' new) : Paths c r' where
  nodup := hpr.nodup
  fresh x hx := by
    rw [hpr.next]
    exact h.paths.fresh x ((hpr.mem x).mp hx).1
  ok x hx := by
    have hok := h.paths.ok x ((hpr.mem x).mp hx).1
    exact (hpr.congr (PathOk c) (fun i => propext
      ⟨fun hi => ⟨hi.stale, hi.history, hi.damped, hi.plain, hi.origin, hi.igpChanged, hi.own⟩,
        fun hi => ⟨hi.stale, hi.history, hi.damped, hi.plain, hi.origin, hi.igpChanged, hi.own⟩⟩)
      x).mpr hok
  onePath x hx y hy := by
    rw [hpr.congr Info.peer (fun _ => rfl), hpr.congr Info.peer (fun _ => rfl)]
    exact h.paths.onePath x ((hpr.mem x).mp hx).1 y ((hpr.mem y).mp hy).1
  oneSelected x hx y hy := by
    rw [hpr.selected x ((hpr.mem x).mp hx).1, hpr.selected y ((hpr.mem y).mp hy).1,
      decide_eq_true_iff, decide_eq_true_iff]
    exact fun hxs hys => Option.some.inj (hxs.symm.trans hys)

/-- What is told is what is selected. -/
theorem Processed.follows (hpr : Processed c r r' new) {f : Info → Option Attr}
    (hf : ∀ i : Info, f i.bare = f i) {told : Option Attr}
    (htold : told = new.bind fun x => f (r.info x)) : Follows r' f told where
  selected x hx hsel _ := by
    rw [hpr.selected x ((hpr.mem x).mp hx).1, decide_eq_true_iff] at hsel
    rw [htold, hsel, Option.bind_some, hpr.congr f hf]
  none hno := by
    cases hnew : new with
    | none => rw [htold, hnew, Option.bind_none]
    | some n =>
        -- it is usable, so it is still in the list
        have hu := ((hpr.best n).mp hnew).mem.1
        have hsel := hno n ((hpr.mem n).mpr ⟨hu.1, hu.not_removed⟩)
        rw [hpr.selected n hu.1, hnew, decide_eq_true rfl] at hsel
        cases hsel

theorem Inv.processed (hc : Sound c) (h : Inv c r a) (hpr : Processed c r r' new) :
    Inv c r' a := by
  have hpeer : ∀ x, (r'.info x).peer = (r.info x).peer := hpr.congr Info.peer fun _ => rfl
  have hspeaks : ∀ p, r'.Speaks c p ↔ r.Speaks c p := fun p => by
    rw [Rib.Speaks, Rib.Speaks, hpr.established]
  refine ⟨hpr.paths h, ⟨?_, ?_, fun x hx => ?_⟩, ⟨fun p hp => ?_, fun p hp => ?_, fun hfib => ?_,
    fun hfib x hx hsel hown => ?_⟩, ⟨fun x hx => ?_, fun p hp => ?_, fun p hp => ?_⟩,
    ⟨hpr.marks, fun _ x hx => ?_, fun _ x hx hsel => ?_, fun _ _ x hx => ?_⟩⟩
  · rw [hpr.established]
    exact h.sessions.established
  · rw [hpr.established, hpr.clearing]
    exact h.sessions.clearing
  · rw [hpr.established, hpr.clearing, hpeer, hpr.congr Info.removed (fun _ => rfl)]
    exact h.sessions.cleared x ((hpr.mem x).mp hx).1
  · rw [hpr.established] at hp
    exact hpr.follows (fun _ => rfl) (hpr.up p hp)
  · rw [hpr.established] at hp
    rw [hpr.down p hp]
    exact h.outputs.down p hp
  · exact hpr.follows (fun _ => rfl) (hpr.fib hfib)
  · rw [hpr.selected x ((hpr.mem x).mp hx).1, decide_eq_true_iff] at hsel
    rw [hpr.congr Info.subType (fun _ => rfl)] at hown
    rw [hpr.fib hfib, hsel, Option.bind_some, fibEntry, if_neg hown]
  · rw [hpeer, hspeaks, hpr.congr Info.view (fun _ => rfl)]
    exact h.hears.path x ((hpr.mem x).mp hx).1
  · by_cases hgone : ∃ x ∈ r.list, (r.info x).peer = p
    · -- the path was removed, so nothing has been heard of it
      obtain ⟨x, hx, rfl⟩ := hgone
      have hremoved : (r.info x).removed = true := by
        by_contra hno
        rw [Bool.not_eq_true] at hno
        exact hp x ((hpr.mem x).mpr ⟨hx, hno⟩) (hpeer x)
      by_cases hs : r.Speaks c (r.info x).peer
      · rw [h.hears.path x hx hs, Info.view, if_pos hremoved]
      · exact h.hears.down _ hs
    · exact h.hears.missing p fun x hx heq => hgone ⟨x, hx, heq⟩
  · exact h.hears.down p fun hs => hp ((hspeaks p).mpr hs)
  · rw [hpr.congr Info.removed (fun _ => rfl)]
    exact ((hpr.mem x).mp hx).2
  · rw [hpr.selected x ((hpr.mem x).mp hx).1, decide_eq_true_iff] at hsel
    exact hpr.told x hsel
  · rw [hpr.selected x ((hpr.mem x).mp hx).1, decide_eq_true_iff, hpr.isBest_iff hc h]

end After

end Process

/-! ## Every input -/

section Step

variable {c : Router} {r : Rib} {a : Heard} {p : PeerId} {x : Ptr}

theorem Inv.heard_none (h : Inv c r a) (hnone : ∀ x ∈ r.list, (r.info x).peer ≠ p) :
    Inv c r (Function.update a p none) := by
  rw [← h.hears.missing p hnone, Function.update_eq_self]
  exact h

theorem Paths.find_some {t : SubType} (hfind : r.find p t = some x) :
    x ∈ r.list ∧ (r.info x).peer = p ∧ (r.info x).subType = t := by
  have hx := List.find?_some hfind
  rw [Bool.and_eq_true, decide_eq_true_iff, decide_eq_true_iff] at hx
  exact ⟨List.mem_of_find?_eq_some hfind, hx⟩

theorem Paths.find_none_normal (hc : Sound c) (h : Paths c r) (hp : p ∈ c.peers)
    (hfind : r.find p .normal = none) : ∀ x ∈ r.list, (r.info x).peer ≠ p := by
  rintro x hx rfl
  have hno := List.find?_eq_none.mp hfind x hx
  rcases (h.ok x hx).origin with ⟨hnormal, -⟩ | ⟨-, hself⟩
  · simp [hnormal] at hno
  · exact hc.self (hself ▸ hp)

theorem Paths.find_none_static (hc : Sound c) (h : Paths c r)
    (hfind : r.find c.peerSelf .static = none) : ∀ x ∈ r.list, (r.info x).peer ≠ c.peerSelf := by
  intro x hx hself
  have hno := List.find?_eq_none.mp hfind x hx
  rcases (h.ok x hx).origin with ⟨-, hp⟩ | ⟨hstatic, -⟩
  · exact hc.self (hself ▸ hp)
  · simp [hstatic, hself] at hno

theorem PathOk.delete {i : Info} (h : PathOk c i) : Edit c i i.delete :=
  ⟨⟨h.stale, h.history, h.damped, h.plain, h.origin, h.igpChanged,
    fun hcheck hstatic => ⟨(h.own hcheck hstatic).1, nofun⟩⟩, rfl, rfl, rfl, fun ha => ⟨ha, rfl⟩⟩

theorem Inv.delete (hc : Sound c) (h : Inv c r a) (hx : x ∈ r.list) (hp : (r.info x).peer = p) :
    Inv c (r.edit x (r.info x).delete) (Function.update a p none) :=
  h.edit hc hx hp (h.paths.ok x hx).delete (fun _ _ => rfl) (fun _ => rfl) fun _ => rfl

theorem bgpRibRemove_eq (hx : x ∈ r.list) (hhistory : (r.info x).history = false) :
    r.bgpRibRemove x = some (r.edit x (r.info x).delete) := by
  rw [Rib.bgpRibRemove, Rib.bgpProcess_set hx, hhistory, if_neg Bool.false_ne_true]

theorem restored_eq (i : Info) : (if i.removed then i.restore else i) =
    { i with removed := false, valid := i.removed || i.valid } := by
  obtain ⟨_, _, _, _, _, _, _, _, _, removed, _, _⟩ := i
  cases removed with
  | false => rfl
  | true => rfl

/-- What is heard when a path gets attributes that it did not have. -/
theorem renew_view {i : Info} {e : Entry} (hdup : ¬ (¬ i.removed = true ∧ i.attr = e.attr)) :
    renew i.view e = some e := by
  rw [renew, if_neg]
  intro heq
  refine hdup ⟨fun hrem => ?_, ?_⟩
  · rw [Info.view, if_pos hrem] at heq
    cases heq
  · cases hrem : i.removed with
    | true => simp [Info.view, hrem] at heq
    | false => simpa [Info.view, hrem, Info.entry] using heq

theorem renew_view_self {i : Info} {e : Entry} (hdup : ¬ i.removed = true ∧ i.attr = e.attr) :
    renew i.view e = i.view := by
  rw [renew, if_pos]
  rw [Info.view, if_neg hdup.1, Option.map_some, Info.entry, hdup.2]

theorem bgpUpdateMain_inv (hc : Sound c) (h : Inv c r a) (hup : r.established p = true)
    {attr : Attr} {n : Nexthop} (hplain : ∀ new ∈ c.inputPolicy p attr, Plain c new) :
    ∃ r', r.bgpUpdateMain c p attr n = some r' ∧ Inv c r' (hear c a (.update p attr n)) := by
  have hp := h.sessions.established p hup
  rw [Rib.bgpUpdateMain, hear]
  cases hin : c.inputPolicy p attr with
  | none =>
      cases hfind : r.find p .normal with
      | none => exact ⟨r, rfl, h.heard_none (h.paths.find_none_normal hc hp hfind)⟩
      | some ri =>
          obtain ⟨hri, hpeer, -⟩ := Paths.find_some hfind
          exact ⟨_, bgpRibRemove_eq hri (h.paths.ok ri hri).history, h.delete hc hri hpeer⟩
  | some new =>
      have hplain := hplain new hin
      rw [Option.bind_some]
      cases hfind : r.find p .normal with
      | none =>
          have hmissing := h.paths.find_none_normal hc hp hfind
          refine ⟨_, Rib.bgpProcess_add .., h.insert hc ?_ rfl rfl hmissing (Or.inr hup) ?_⟩
          · exact ⟨rfl, rfl, rfl, hplain, Or.inl ⟨rfl, hp⟩, nofun, nofun⟩
          · rw [h.hears.missing p hmissing]
            rfl
      | some ri =>
          obtain ⟨hri, hpeer, hnormal⟩ := Paths.find_some hfind
          have hok := h.paths.ok ri hri
          have hheard : a p = (r.info ri).view := by
            rw [← hpeer]
            exact h.hears.path ri hri (Or.inr (hpeer ▸ hup))
          dsimp only
          rw [hheard]
          by_cases hdup : ¬ (r.info ri).removed = true ∧ (r.info ri).attr = new
          · rw [if_pos hdup, hok.stale, if_neg Bool.false_ne_true, renew_view_self hdup, ← hheard,
              Function.update_eq_self]
            exact ⟨r, rfl, h⟩
          · rw [if_neg hdup, renew_view hdup, Rib.bgpProcess_set hri, restored_eq]
            refine ⟨_, rfl, h.edit hc hri hpeer ⟨?_, rfl, rfl, rfl, nofun⟩ ?_ (fun _ => rfl) ?_⟩
            · exact ⟨rfl, hok.history, hok.damped, hplain, hok.origin, hok.igpChanged,
                fun _ hstatic => absurd (hnormal.symm.trans hstatic) nofun⟩
            · exact fun _ hno => absurd (Or.inr hup) hno
            · exact fun hno => absurd (Or.inr hup) hno

theorem bgpWithdraw_inv (hc : Sound c) (h : Inv c r a) (hup : r.established p = true) :
    ∃ r', r.bgpWithdraw p = some r' ∧ Inv c r' (hear c a (.withdraw p)) := by
  have hp := h.sessions.established p hup
  rw [Rib.bgpWithdraw, hear]
  cases hfind : r.find p .normal with
  | none => exact ⟨r, rfl, h.heard_none (h.paths.find_none_normal hc hp hfind)⟩
  | some ri =>
      obtain ⟨hri, hpeer, -⟩ := Paths.find_some hfind
      dsimp only
      have hhistory := (h.paths.ok ri hri).history
      rw [hhistory, if_neg Bool.false_ne_true]
      exact ⟨_, bgpRibRemove_eq hri hhistory, h.delete hc hri hpeer⟩

theorem evaluatePath_inv (hc : Sound c) (h : Inv c r a) (hp : p ∈ c.peers) {n : Nexthop}
    {changed : Bool} :
    ∃ r', r.evaluatePath p n changed = some r' ∧ Inv c r' (hear c a (.evaluate p n changed)) := by
  rw [Rib.evaluatePath, hear]
  cases hfind : r.find p .normal with
  | none =>
      have hmissing := h.paths.find_none_normal hc hp hfind
      rw [h.hears.missing p hmissing]
      exact ⟨r, rfl, h.heard_none hmissing⟩
  | some ri =>
      obtain ⟨hri, hpeer, hnormal⟩ := Paths.find_some hfind
      have hok := h.paths.ok ri hri
      dsimp only
      rw [Rib.bgpProcess_set hri]
      refine ⟨_, rfl, h.edit hc hri hpeer ⟨?_, rfl, rfl, rfl, fun ha => ⟨ha, rfl⟩⟩
        (fun hrem _ => hrem) (fun hspeaks => ?_) fun hsilent => ?_⟩
      · exact ⟨hok.stale, hok.history, hok.damped, hok.plain, hok.origin, fun _ => hnormal,
          fun _ hstatic => absurd (hnormal.symm.trans hstatic) nofun⟩
      · rw [← hpeer] at hspeaks ⊢
        rw [h.hears.path ri hri hspeaks, Info.view, Info.view]
        cases hrem : (r.info ri).removed with
        | true => rfl
        | false => rfl
      · rw [h.hears.down p hsilent, Option.map_none]

theorem bgpStaticUpdateMain_inv (hc : Sound c) (h : Inv c r a) {attr : Attr} {n : Nexthop}
    (hplain : Plain c attr) :
    ∃ r', r.bgpStaticUpdateMain c attr n = some r' ∧ Inv c r' (hear c a (.originate attr n)) := by
  have hself : r.Speaks c c.peerSelf := Or.inl rfl
  rw [Rib.bgpStaticUpdateMain, hear]
  cases hfind : r.find c.peerSelf .static with
  | none =>
      have hmissing := h.paths.find_none_static hc hfind
      rw [h.hears.missing _ hmissing]
      dsimp only
      rw [Rib.bgpProcess_add]
      refine ⟨_, rfl, ?_⟩
      cases hcheck : c.importCheck with
      | true =>
          rw [Rib.checkStatic, hcheck, if_pos rfl]
          exact h.insert hc ⟨rfl, rfl, rfl, hplain, Or.inr ⟨rfl, rfl⟩, nofun,
            fun hno => absurd (hcheck.symm.trans hno) nofun⟩ rfl rfl hmissing hself rfl
      | false =>
          rw [Rib.checkStatic, hcheck, if_neg Bool.false_ne_true]
          exact h.insert hc ⟨rfl, rfl, rfl, hplain, Or.inr ⟨rfl, rfl⟩, nofun,
            fun _ _ => ⟨rfl, fun _ => rfl⟩⟩ rfl rfl hmissing hself rfl
  | some ri =>
      obtain ⟨hri, hpeer, hstatic⟩ := Paths.find_some hfind
      have hok := h.paths.ok ri hri
      have hheard : a c.peerSelf = (r.info ri).view := by
        rw [← hpeer]
        exact h.hears.path ri hri (hpeer ▸ hself)
      have hattr : (if c.importCheck then (⟨attr, n.ensure, n.igpmetric⟩ : Entry)
          else ⟨attr, true, 0⟩).attr = attr := by
        split
        · rfl
        · rfl
      dsimp only
      rw [hheard]
      by_cases hdup : (r.info ri).attr = attr ∧ ¬ (r.info ri).removed = true
      · rw [if_pos hdup, renew_view_self ⟨hdup.2, hdup.1.trans hattr.symm⟩, ← hheard,
          Function.update_eq_self]
        exact ⟨r, rfl, h⟩
      · rw [if_neg hdup, renew_view fun hno => hdup ⟨hno.2.trans hattr, hno.1⟩,
          Rib.bgpProcess_set hri, restored_eq]
        refine ⟨_, rfl, ?_⟩
        cases hcheck : c.importCheck with
        | true =>
            rw [Rib.checkStatic, hcheck, if_pos rfl, if_pos rfl]
            refine h.edit hc hri hpeer ⟨?_, rfl, rfl, rfl, nofun⟩
              (fun _ hno => absurd hself hno) (fun _ => rfl) fun hno => absurd hself hno
            exact ⟨hok.stale, hok.history, hok.damped, hplain, hok.origin, hok.igpChanged,
              fun hno => absurd (hcheck.symm.trans hno) nofun⟩
        | false =>
            have hown := hok.own hcheck hstatic
            have hvalid : ((r.info ri).removed || (r.info ri).valid) = true := by
              cases hrem : (r.info ri).removed with
              | true => rfl
              | false => exact hown.2 hrem
            rw [Rib.checkStatic, hcheck, if_neg Bool.false_ne_true, if_neg Bool.false_ne_true]
            refine h.edit hc hri hpeer ⟨?_, rfl, rfl, rfl, nofun⟩
              (fun _ hno => absurd hself hno) (fun _ => ?_) fun hno => absurd hself hno
            · exact ⟨hok.stale, hok.history, hok.damped, hplain, hok.origin, hok.igpChanged,
                fun _ _ => ⟨hown.1, fun _ => hvalid⟩⟩
            · rw [Info.view, if_neg Bool.false_ne_true, Info.entry, hvalid, hown.1]

theorem bgpStaticWithdraw_inv (hc : Sound c) (h : Inv c r a) :
    ∃ r', r.bgpStaticWithdraw c = some r' ∧ Inv c r' (hear c a .unoriginate) := by
  rw [Rib.bgpStaticWithdraw, hear]
  cases hfind : r.find c.peerSelf .static with
  | none => exact ⟨r, rfl, h.heard_none (h.paths.find_none_static hc hfind)⟩
  | some ri =>
      obtain ⟨hri, hpeer, -⟩ := Paths.find_some hfind
      exact ⟨_, Rib.bgpProcess_set hri _, h.delete hc hri hpeer⟩

theorem bgpClearRouteNode_inv (hc : Sound c) (h : Inv c r a) (hclr : r.clearing p = true) :
    ∃ r', r.bgpClearRouteNode p = some r' ∧ Inv c r' a := by
  obtain ⟨hp, hdown⟩ := h.sessions.clearing p hclr
  have hsilent : ¬ r.Speaks c p := by
    rintro (hself | hup)
    · exact Sessions.ne_self hc hp hself
    · exact Bool.false_ne_true (hdown.symm.trans hup)
  rw [Rib.bgpClearRouteNode]
  dsimp only
  cases hfind : r.list.find? fun x => (r.info x).peer = p with
  | none =>
      refine ⟨_, rfl, h.cleared fun x hx hpeer => ?_⟩
      have hno := List.find?_eq_none.mp hfind x hx
      exact absurd (decide_eq_true hpeer) hno
  | some ri =>
      have hri := List.mem_of_find?_eq_some hfind
      have hpeer := List.find?_some hfind
      rw [decide_eq_true_iff] at hpeer
      have hdel := h.delete hc hri hpeer
      rw [← h.hears.down p hsilent, Function.update_eq_self] at hdel
      have hclear := hdel.cleared (p := p) fun x hx hxp => by
        rw [Rib.edit_congr Info.peer (h.paths.ok ri hri).delete.peer] at hxp
        rw [h.paths.onePath x hx ri hri (hxp.trans hpeer.symm), Rib.edit_info_self]
        rfl
      exact ⟨_, bgpRibRemove_eq hri (h.paths.ok ri hri).history, hclear⟩

/-- Every input that can come leads on, and keeps the invariant. -/
theorem step_inv (hc : Sound c) (h : Inv c r a) {i : Input} (hi : Allowed c r i) :
    ∃ r', step c r i = some r' ∧ Inv c r' (hear c a i) := by
  cases i with
  | update p attr n => exact bgpUpdateMain_inv hc h hi.1 hi.2
  | withdraw p => exact bgpWithdraw_inv hc h hi
  | evaluate p n changed => exact evaluatePath_inv hc h hi
  | originate attr n => exact bgpStaticUpdateMain_inv hc h hi
  | unoriginate => exact bgpStaticWithdraw_inv hc h
  | down p => exact ⟨_, rfl, h.down hc hi⟩
  | clear p => exact bgpClearRouteNode_inv hc h hi
  | up p => exact ⟨_, rfl, h.up hc hi.1 hi.2.1 hi.2.2⟩
  | userClear => exact ⟨_, Rib.bgpProcess_eq hi, h.userClear⟩
  | process =>
      obtain ⟨new, hpr⟩ := bgpProcessMain_spec hc h
      exact ⟨_, rfl, h.processed hc hpr⟩

theorem init_inv : Inv c (Rib.init c) fun _ => none :=
  ⟨⟨List.nodup_nil, nofun, nofun, nofun, nofun⟩, ⟨nofun, nofun, nofun⟩,
    ⟨nofun, fun _ _ => rfl, fun _ => ⟨nofun, fun _ => rfl⟩, nofun⟩,
    ⟨nofun, fun _ _ => rfl, fun _ _ => rfl⟩, ⟨rfl, nofun, nofun, nofun⟩⟩

/-- **Every run** gets through, and keeps the invariant. -/
theorem runs_inv (hc : Sound c) {ins : List Input} (hins : Legal c ins) :
    ∃ r, run (step c) (Rib.init c) ins = some r ∧ Inv c r (heard c ins) :=
  run_total_of_eachStep_fold (P := Inv c) (hear c) (fun _ _ _ h hi => step_inv hc h hi) init_inv
    hins

theorem inv_of_run (hc : Sound c) {ins : List Input} (hins : Legal c ins)
    (hrun : run (step c) (Rib.init c) ins = some r) : Inv c r (heard c ins) :=
  of_exists_some (P := fun r => Inv c r (heard c ins)) (runs_inv hc hins) hrun

end Step

end Bgp

end NetSystem
