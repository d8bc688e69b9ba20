import Mathlib.Data.Finset.Card
import NetSystem.BgpRuns

/-!
# What a node settles on

Every run leads on (`step_inv`), and once the queues are empty the node shows
what it has been told: its paths are the last announcements of its peers, the
best of them is selected, and the peers and the kernel know that one
(`Settled`). The queues do become empty, in whatever order they are worked
off (`Rib.pending`).

With compare-router-id the comparison does not look at what is selected
already. Then what a node settles on depends only on the last announcements,
not on how it came to them (`Alike`).
-/

namespace NetSystem

namespace Bgp

open Criteria

/-- The selected path. -/
def Rib.chosen (r : Rib) : Option Ptr := r.list.find? fun x => (r.info x).selected

/-- Nothing is on a queue. -/
structure Quiet (r : Rib) : Prop where
  scheduled : r.scheduled = false
  clearing : ∀ p, r.clearing p = false

/-- The node shows what has been heard. -/
structure Settled (c : Router) (r : Rib) (a : Heard) : Prop where
  onePath : ∀ x ∈ r.list, ∀ y ∈ r.list, (r.info x).peer = (r.info y).peer → x = y
  heard : ∀ p e, a p = some e ↔
    ∃ x ∈ r.list, (r.info x).peer = p ∧ (r.info x).removed = false ∧ (r.info x).entry = e
  speaks : ∀ x ∈ r.list, r.Speaks c (r.info x).peer ∧ (r.info x).removed = false
  best : ∀ x, r.chosen = some x ↔ IsBest c.toConfig r.status r.info r.list x
  nothing : r.chosen = none ↔ ∀ x, ¬ Usable c.toConfig r.status r.info r.list x
  up : ∀ p, r.established p = true →
    r.adjOut p = r.chosen.bind fun x => Rib.announceCheck c p (r.info x)
  down : ∀ p, r.established p = false → r.adjOut p = none
  fib : c.noFib = false → r.fib = r.chosen.bind fun x => fibEntry (r.info x)

section Outcome

variable {c : Router} {r : Rib} {a : Heard}

theorem chosen_eq_some (hone : OneSelected r.info r.list) {x : Ptr} :
    r.chosen = some x ↔ x ∈ r.list ∧ (r.info x).selected = true := by
  constructor
  · intro hx
    exact ⟨List.mem_of_find?_eq_some hx, by simpa using List.find?_some hx⟩
  · rintro ⟨hx, hsel⟩
    cases hfind : r.chosen with
    | none => exact absurd hsel (List.find?_eq_none.mp hfind x hx)
    | some y =>
        have hy : (r.info y).selected = true := by simpa using List.find?_some hfind
        rw [hone y (List.mem_of_find?_eq_some hfind) x hx hy hsel]

theorem Follows.eq_bind (hone : OneSelected r.info r.list) {f : Info → Option Attr}
    {told : Option Attr} (h : Follows r f told)
    (hattr : ∀ x ∈ r.list, (r.info x).selected = true → (r.info x).attrChanged = false) :
    told = r.chosen.bind fun x => f (r.info x) := by
  cases hch : r.chosen with
  | none =>
      refine h.none fun x hx => ?_
      rw [← Bool.not_eq_true]
      exact List.find?_eq_none.mp hch x hx
  | some x =>
      obtain ⟨hx, hsel⟩ := (chosen_eq_some hone).mp hch
      exact h.selected x hx hsel (hattr x hx hsel)

theorem Inv.speaks (h : Inv c r a) (hq : Quiet r) {x : Ptr} (hx : x ∈ r.list) :
    r.Speaks c (r.info x).peer := by
  rcases (h.paths.ok x hx).origin with ⟨-, hp⟩ | ⟨-, hself⟩
  · right
    by_contra hno
    rw [Bool.not_eq_true] at hno
    have hrem := h.sessions.cleared x hx hp hno (hq.clearing _)
    exact Bool.false_ne_true ((h.settles.reaped hq.scheduled x hx).symm.trans hrem)
  · exact Or.inl hself

theorem Inv.settled (hc : Sound c) (h : Inv c r a) (hq : Quiet r) : Settled c r a := by
  have hone := h.paths.oneSelected
  have hremoved := h.settles.reaped hq.scheduled
  have htold := h.settles.told hq.scheduled
  have hbest : ∀ x, r.chosen = some x ↔ IsBest c.toConfig r.status r.info r.list x := by
    intro x
    rw [chosen_eq_some hone]
    constructor
    · rintro ⟨hx, hsel⟩
      exact (h.settles.best hq.scheduled (fun y _ => hq.clearing _) x hx).mp hsel
    · intro hb
      have hx := hb.mem.1.1
      exact ⟨hx, (h.settles.best hq.scheduled (fun y _ => hq.clearing _) x hx).mpr hb⟩
  refine ⟨h.paths.onePath, fun p e => ⟨fun he => ?_, ?_⟩,
    fun x hx => ⟨h.speaks hq hx, hremoved x hx⟩, hbest, ?_,
    fun p hp => (h.outputs.up p hp).eq_bind hone htold, h.outputs.down,
    fun hfib => (h.outputs.fib hfib).eq_bind hone htold⟩
  · by_contra hno
    have hmissing : ∀ x ∈ r.list, (r.info x).peer ≠ p := by
      rintro x hx rfl
      rw [h.hears.path x hx (h.speaks hq hx), Info.view, hremoved x hx,
        if_neg Bool.false_ne_true, Option.some.injEq] at he
      exact hno ⟨x, hx, rfl, hremoved x hx, he⟩
    rw [h.hears.missing p hmissing] at he
    cases he
  · rintro ⟨x, hx, rfl, hrem, rfl⟩
    rw [h.hears.path x hx (h.speaks hq hx), Info.view, hrem, if_neg Bool.false_ne_true]
  · -- the selection would find a best path if there was a usable one
    have hchosen := bgpBestSelection_spec (h.paths.tidy hc) hone
    rw [← hchosen.none]
    constructor
    · intro hch
      cases hnew : (bgpBestSelection c.toConfig r.status r.info r.list Marks.empty).new with
      | none => rfl
      | some b =>
          rw [(hbest b).mpr ((hchosen.new b).mp hnew)] at hch
          cases hch
    · intro hnew
      cases hch : r.chosen with
      | none => rfl
      | some b =>
          rw [(hchosen.new b).mpr ((hbest b).mp hch)] at hnew
          cases hnew

/-- The peers of `r2` in `lab3/lab3_0716206/bgp_r2.conf`: `r1` with 10.0.1.2
and `r3` with 10.0.0.2. -/
def labPeer (p : PeerId) : Peer :=
  if p = 1 then ⟨.ebgp, 65001, 167772418, some (.inet 167772418)⟩
  else if p = 2 then ⟨.ebgp, 65003, 167772162, some (.inet 167772162)⟩
  else ⟨.internal, 65002, 167772161, none⟩

/-- `r2`, with deterministic-med and compare-router-id. Its policy is the
loop check on the way in, and its own address as nexthop on the way out. -/
def labRouter : Router where
  defaultLocalPref := 100
  aspathIgnore := false
  aspathConfed := false
  alwaysCompareMed := false
  medConfed := false
  medMissingAsWorst := false
  compareRouterId := true
  deterministicMed := true
  multipathRelax := false
  mpathIsConfigured := false
  peer := labPeer
  peerSelf := 0
  peers := [1, 2]
  importCheck := false
  noFib := false
  inputPolicy := fun _ a =>
    if a.aspath.any fun s => s.first = 65002 || s.rest.contains 65002 then none else some a
  outputPolicy := fun p _ a =>
    some { a with nexthop := if p = 1 then 167772417 else 167772161, med := none }

theorem lab_sound : Sound labRouter where
  mpath := rfl
  med := nofun
  self := by decide
  sorts := by decide
  remote := by
    intro p hp q hq hne
    simp only [labRouter, List.mem_cons, List.not_mem_nil, or_false] at hp hq
    rcases hp with rfl | rfl
    · rcases hq with rfl | rfl
      · exact absurd rfl hne
      · exact ⟨_, _, rfl, rfl, by decide⟩
    · rcases hq with rfl | rfl
      · exact ⟨_, _, rfl, rfl, by decide⟩
      · exact absurd rfl hne

/-- A route of a neighbour. -/
def labRoute (nexthop as : Nat) : Attr :=
  ⟨nexthop, 0, none, [⟨.asSequence, as, []⟩], 0, none, none, none, []⟩

def labNexthop : Nexthop := ⟨true, 0, true⟩

end Outcome

/-! ## The queues become empty -/

section Drain

variable {c : Router} {r r' : Rib} {a : Heard}

/-- What comes from the queues and not from outside. -/
def Input.Internal : Input → Prop
  | .clear _ => True
  | .process => True
  | _ => False

/-- How much is on the queues. -/
def Rib.pending (c : Router) (r : Rib) : Nat :=
  2 * (c.peers.toFinset.filter fun p => r.clearing p = true).card + if r.scheduled then 1 else 0

theorem pending_le (c : Router) (r : Rib) : r.pending c ≤ 2 * c.peers.length + 1 := by
  have hcard : (c.peers.toFinset.filter fun p => r.clearing p = true).card ≤ c.peers.length :=
    (Finset.card_filter_le _ _).trans c.peers.toFinset_card_le
  rw [Rib.pending]
  split
  · omega
  · omega

theorem bgpProcess_clearing (h : r.bgpProcess = some r') : r'.clearing = r.clearing := by
  rw [Rib.bgpProcess] at h
  split at h
  · rw [← Option.some.inj h]
  · split at h
    · cases h
    · rw [← Option.some.inj h]

theorem bgpClearRouteNode_clearing {p : PeerId} (h : r.bgpClearRouteNode p = some r') :
    r'.clearing = Function.update r.clearing p false := by
  rw [Rib.bgpClearRouteNode] at h
  dsimp only at h
  split at h
  · rw [← Option.some.inj h]
  · exact bgpProcess_clearing h

/-- Each piece of work makes the queues shorter: clearing a session may
schedule the node, but counts twice. -/
theorem step_pending (hc : Sound c) (h : Inv c r a) {i : Input} (hi : i.Internal)
    (hallowed : Allowed c r i) (hstep : step c r i = some r') : r'.pending c < r.pending c := by
  cases i with
  | clear p =>
      have hclr := bgpClearRouteNode_clearing hstep
      have hp : p ∈ c.peers.toFinset := List.mem_toFinset.mpr (h.sessions.clearing p hallowed).1
      have hlt : (c.peers.toFinset.filter fun q => r'.clearing q = true).card <
          (c.peers.toFinset.filter fun q => r.clearing q = true).card := by
        refine Finset.card_lt_card (Finset.ssubset_iff_of_subset ?_ |>.mpr ⟨p, ?_, ?_⟩)
        · intro q hq
          rw [Finset.mem_filter] at hq ⊢
          refine ⟨hq.1, ?_⟩
          rw [hclr] at hq
          by_cases hqp : q = p
          · rw [hqp, Function.update_self] at hq
            exact absurd hq.2 Bool.false_ne_true
          · rw [Function.update_of_ne hqp] at hq
            exact hq.2
        · exact Finset.mem_filter.mpr ⟨hp, hallowed⟩
        · rw [Finset.mem_filter, hclr, Function.update_self]
          exact fun hno => Bool.false_ne_true hno.2
      rw [Rib.pending, Rib.pending]
      split
      · omega
      · omega
  | process =>
      obtain ⟨new, hpr⟩ := bgpProcessMain_spec hc h
      obtain rfl := Option.some.inj hstep
      rw [Rib.pending, Rib.pending, hpr.clearing, hpr.scheduled,
        show r.scheduled = true from hallowed, if_neg Bool.false_ne_true, if_pos rfl]
      exact Nat.lt_succ_self _
  | _ => exact absurd hi id

theorem hear_internal {i : Input} (hi : i.Internal) : hear c a i = a := by
  cases i with
  | clear p => rfl
  | process => rfl
  | _ => exact absurd hi id

theorem heard_internal {ins more : List Input} (hint : ∀ i ∈ more, i.Internal) :
    heard c (ins ++ more) = heard c ins := by
  have hsame : ∀ (a : Heard), more.foldl (hear c) a = a := by
    intro a
    induction more with
    | nil => rfl
    | cons i more ih =>
        rw [List.foldl_cons, hear_internal (hint i (List.mem_cons_self ..))]
        exact ih fun j hj => hint j (List.mem_cons_of_mem i hj)
  rw [heard, List.foldl_append, hsame, heard]

/-- There is no more work than what is on the queues. -/
theorem length_le_pending (hc : Sound c) (h : Inv c r a) {more : List Input}
    (hmore : EachStep (step c) (Allowed c) r more) (hint : ∀ i ∈ more, i.Internal)
    (hrun : run (step c) r more = some r') : more.length ≤ r.pending c := by
  have hdown : ∀ s i s', (∃ a, Inv c s a) → ¬ ¬ (i.Internal ∧ Allowed c s i) →
      step c s i = some s' → (∃ a, Inv c s' a) ∧ s'.pending c < s.pending c := by
    rintro s i s' ⟨a, hs⟩ hi hstep
    obtain ⟨hi, hallowed⟩ := not_not.mp hi
    obtain ⟨t, ht, hinv⟩ := step_inv hc hs hallowed
    obtain rfl := Option.some.inj (hstep.symm.trans ht)
    exact ⟨⟨_, hinv⟩, step_pending hc hs hi hallowed hstep⟩
  by_contra hlong
  -- a longer run would have to take an input from outside
  obtain ⟨js, i, s, hpre, hjs, houtside, -⟩ :=
    eventually_of_measure (Rib.pending c) hdown ⟨a, h⟩ hrun (by omega)
  refine houtside ⟨hint i ?_, hmore js i s hpre hjs⟩
  exact hpre.subset (List.mem_append_right js (List.mem_singleton_self i))

/-- **The queues become empty**, in whatever order they are worked off, and
leave the node settled. -/
theorem queues_drain (hc : Sound c) {ins more : List Input} (hins : Legal c (ins ++ more))
    (hint : ∀ i ∈ more, i.Internal) :
    more.length ≤ 2 * c.peers.length + 1 ∧
      ∃ r, run (step c) (Rib.init c) (ins ++ more) = some r ∧
        ((∀ i, Input.Internal i → ¬ Allowed c r i) → Settled c r (heard c ins)) := by
  obtain ⟨r', hrun', hinv'⟩ := runs_inv hc hins
  refine ⟨?_, r', hrun', fun hstop => ?_⟩
  · rw [run_append, Option.bind_eq_some_iff] at hrun'
    obtain ⟨r, hrun, hmore⟩ := hrun'
    obtain ⟨hfirst, hsecond⟩ := eachStep_append hins hrun
    have hle := length_le_pending hc (inv_of_run hc hfirst hrun) hsecond hint hmore
    exact hle.trans (pending_le c r)
  · have hquiet : Quiet r' := by
      refine ⟨?_, fun p => ?_⟩
      · rw [← Bool.not_eq_true]
        exact hstop .process trivial
      · rw [← Bool.not_eq_true]
        exact hstop (.clear p) trivial
    rw [← heard_internal hint]
    exact hinv'.settled hc hquiet

/-- The session to `r1` goes down, and its route with it. -/
theorem queues_drain_lab : ∃ r, run (step labRouter) (Rib.init labRouter)
      ([.up 1, .up 2, .update 1 (labRoute 167772418 65001) labNexthop, .process, .down 1] ++
        [.clear 1, .process]) = some r ∧
    Settled labRouter r (heard labRouter
      [.up 1, .up 2, .update 1 (labRoute 167772418 65001) labNexthop, .process, .down 1]) ∧
    r.fib = none ∧ r.adjOut 2 = none := by
  have hins : Legal labRouter
      ([.up 1, .up 2, .update 1 (labRoute 167772418 65001) labNexthop, .process, .down 1] ++
        [.clear 1, .process]) := by decide
  obtain ⟨-, r, hrun, hsettled⟩ := queues_drain lab_sound hins (by simp [Input.Internal])
  refine ⟨r, hrun, ?_⟩
  obtain rfl := Option.some.inj hrun
  refine ⟨hsettled fun i hi hallowed => ?_, rfl, rfl⟩
  cases i with
  | process => exact Bool.false_ne_true hallowed
  | clear p =>
      have hnone : Function.update (Function.update (fun _ => false) 1 true) 1 false p =
          false := by
        by_cases hp : p = 1
        · simp [hp]
        · simp [hp]
      exact Bool.false_ne_true (hnone.symm.trans hallowed)
  | _ => exact hi

end Drain

/-! ## Independence of the order -/

section Order

/-- A path without the flags that depend on what was selected or
announced before. -/
def Info.core (i : Info) : Info :=
  { i with selected := false, attrChanged := false, igpChanged := false }

theorem bgpInfoCmp_core {c : Config} (hcmp : c.compareRouterId = true) (i j : Info) :
    bgpInfoCmp c i j = bgpInfoCmp c i.core j.core := by
  have htie : tieBreak c i j = tieBreak c i.core j.core := by
    simp only [tieBreak, hcmp, not_true_eq_false, false_and, if_false]
    rfl
  have hpeer : peerCmp c i j = peerCmp c i.core j.core := by
    rw [peerCmp, htie]
    rfl
  rw [bgpInfoCmp, hpeer]
  rfl

variable {c : Router} {r r' : Rib} {a : Heard}

/-- Two paths of one peer. -/
structure Alike (r r' : Rib) (x x' : Ptr) : Prop where
  left : x ∈ r.list
  right : x' ∈ r'.list
  peer : (r.info x).peer = (r'.info x').peer

/-- Two nodes that have heard the same. -/
structure Twins (c : Router) (r r' : Rib) (a : Heard) : Prop where
  left : Inv c r a
  right : Inv c r' a
  leftQuiet : Quiet r
  rightQuiet : Quiet r'

theorem Twins.symm (h : Twins c r r' a) : Twins c r' r a :=
  ⟨h.right, h.left, h.rightQuiet, h.leftQuiet⟩

theorem Alike.symm {x x' : Ptr} (h : Alike r r' x x') : Alike r' r x' x :=
  ⟨h.right, h.left, h.peer.symm⟩

theorem Twins.exists_alike (hc : Sound c) (h : Twins c r r' a) {x : Ptr} (hx : x ∈ r.list) :
    ∃ x', Alike r r' x x' := by
  have hleft := h.left.settled hc h.leftQuiet
  have hheard := (hleft.heard (r.info x).peer _).mpr ⟨x, hx, rfl, (hleft.speaks x hx).2, rfl⟩
  obtain ⟨x', hx', hpeer, -⟩ := ((h.right.settled hc h.rightQuiet).heard _ _).mp hheard
  exact ⟨x', hx, hx', hpeer.symm⟩

/-- What has been heard is all there is to a path. -/
theorem Twins.core_eq (hc : Sound c) (h : Twins c r r' a) {x x' : Ptr} (hx : Alike r r' x x') :
    (r.info x).core = (r'.info x').core := by
  have hleft := h.left.settled hc h.leftQuiet
  have hright := h.right.settled hc h.rightQuiet
  have hrem := (hleft.speaks x hx.left).2
  have hrem' := (hright.speaks x' hx.right).2
  have hentry : (r.info x).entry = (r'.info x').entry := by
    have hheard := (hleft.heard (r.info x).peer _).mpr ⟨x, hx.left, rfl, hrem, rfl⟩
    have hheard' := (hright.heard (r'.info x').peer _).mpr ⟨x', hx.right, rfl, hrem', rfl⟩
    rw [hx.peer] at hheard
    exact Option.some.inj (hheard.symm.trans hheard')
  have hok := h.left.paths.ok x hx.left
  have hok' := h.right.paths.ok x' hx.right
  have hsub : (r.info x).subType = (r'.info x').subType := by
    rcases hok.origin with ⟨hn, hp⟩ | ⟨hs, hp⟩
    · rcases hok'.origin with ⟨hn', -⟩ | ⟨-, hp'⟩
      · exact hn.trans hn'.symm
      · exact absurd (hp' ▸ hx.peer ▸ hp) hc.self
    · rcases hok'.origin with ⟨-, hp'⟩ | ⟨hs', -⟩
      · exact absurd (hp ▸ hx.peer.symm ▸ hp') hc.self
      · exact hs.trans hs'.symm
  obtain ⟨hattr, hvalid, hmetric⟩ := Entry.mk.inj hentry
  simp only [Info.core, hx.peer, hsub, hattr, hvalid, hmetric, hok.stale, hok'.stale, hok.history,
    hok'.history, hok.damped, hok'.damped, hrem, hrem']

theorem Twins.congr (hc : Sound c) (h : Twins c r r' a) {x x' : Ptr} (hx : Alike r r' x x')
    {β : Sort*} (f : Info → β) (hf : ∀ i : Info, f i.core = f i) :
    f (r.info x) = f (r'.info x') := by
  rw [← hf (r.info x), h.core_eq hc hx, hf]

theorem Twins.usable_iff (hc : Sound c) (h : Twins c r r' a) {x x' : Ptr} (hx : Alike r r' x x') :
    Usable c.toConfig r.status r.info r.list x ↔
      Usable c.toConfig r'.status r'.info r'.list x' := by
  have hspeaks : ∀ {r : Rib} {i : Info}, r.Speaks c i.peer →
      usable c.toConfig r.status i = !holddown i := by
    intro r i hs
    have hs' : (decide (i.peer = c.peerSelf) || false || r.established i.peer) = true := by
      simpa [Rib.Speaks] using hs
    rw [usable, Rib.status, hs', Bool.and_true]
  have hhold : holddown (r.info x) = holddown (r'.info x') := h.congr hc hx holddown fun _ => rfl
  rw [Usable, Usable, hspeaks (h.left.speaks h.leftQuiet hx.left),
    hspeaks (h.right.speaks h.rightQuiet hx.right), hhold, and_iff_right hx.left,
    and_iff_right hx.right]

theorem Twins.beats_iff (hc : Sound c) (hcmp : c.compareRouterId = true) (h : Twins c r r' a)
    {x x' y y' : Ptr} (hx : Alike r r' x x') (hy : Alike r r' y y') :
    Beats c.toConfig r.info x y ↔ Beats c.toConfig r'.info x' y' := by
  rw [Beats, Beats, Prefers, Prefers, bgpInfoCmp_core hcmp, h.core_eq hc hx, h.core_eq hc hy,
    ← bgpInfoCmp_core hcmp]

theorem Twins.same_iff (hc : Sound c) (h : Twins c r r' a) {x x' y y' : Ptr}
    (hx : Alike r r' x x') (hy : Alike r r' y y') : Same r.info x y ↔ Same r'.info x' y' := by
  rw [Same, Same, h.congr hc hx Info.attr fun _ => rfl, h.congr hc hy Info.attr fun _ => rfl]

theorem Twins.ne (h : Twins c r r' a) {x x' y y' : Ptr} (hx : Alike r r' x x')
    (hy : Alike r r' y y') (hne : x' ≠ y') : x ≠ y := by
  rintro rfl
  exact hne (h.right.paths.onePath x' hx.right y' hy.right (hx.peer.symm.trans hy.peer))

theorem Twins.inRace (hc : Sound c) (hcmp : c.compareRouterId = true) (h : Twins c r r' a)
    {x x' : Ptr} (hx : Alike r r' x x') (hrace : InRace c.toConfig r.status r.info r.list x) :
    InRace c.toConfig r'.status r'.info r'.list x' := by
  refine ⟨(h.usable_iff hc hx).mp hrace.1, fun hdet y' hy' hne hsame => ?_⟩
  obtain ⟨y, hyx⟩ := h.symm.exists_alike hc hy'.1
  have hy := hyx.symm
  exact (h.beats_iff hc hcmp hx hy).mp (hrace.2 hdet y ((h.usable_iff hc hy).mpr hy')
    (h.ne hy hx hne) ((h.same_iff hc hx hy).mpr hsame))

theorem Twins.isBest (hc : Sound c) (hcmp : c.compareRouterId = true) (h : Twins c r r' a)
    {x x' : Ptr} (hx : Alike r r' x x') (hbest : IsBest c.toConfig r.status r.info r.list x) :
    IsBest c.toConfig r'.status r'.info r'.list x' := by
  refine ⟨h.inRace hc hcmp hx hbest.mem, fun y' hy' hne => ?_⟩
  obtain ⟨y, hyx⟩ := h.symm.exists_alike hc hy'.1.1
  have hy := hyx.symm
  exact (h.beats_iff hc hcmp hx hy).mp
    (hbest.beats y (h.symm.inRace hc hcmp hyx hy') (h.ne hy hx hne))

/-- Both select the path of the same peer, or none. -/
theorem Twins.chosen (hc : Sound c) (hcmp : c.compareRouterId = true) (h : Twins c r r' a) :
    (r.chosen = none ∧ r'.chosen = none) ∨
      ∃ x x', r.chosen = some x ∧ r'.chosen = some x' ∧ Alike r r' x x' := by
  have hleft := h.left.settled hc h.leftQuiet
  have hright := h.right.settled hc h.rightQuiet
  cases hch : r.chosen with
  | none =>
      refine Or.inl ⟨rfl, hright.nothing.mpr fun x' hx' => ?_⟩
      obtain ⟨x, hxx⟩ := h.symm.exists_alike hc hx'.1
      exact hleft.nothing.mp hch x ((h.usable_iff hc hxx.symm).mpr hx')
  | some x =>
      have hbest := (hleft.best x).mp hch
      obtain ⟨x', hx⟩ := h.exists_alike hc hbest.mem.1.1
      exact Or.inr ⟨x, x', rfl, (hright.best x').mpr (h.isBest hc hcmp hx hbest), hx⟩

end Order

end Bgp

end NetSystem
