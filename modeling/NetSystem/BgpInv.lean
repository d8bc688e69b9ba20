import NetSystem.BgpRib

/-!
# What holds in every run

The invariant `Inv` of the node of a prefix, and that every input keeps it.
There are few ways in which an input changes the node: it edits a path, adds
one, changes a session, or is the selection. Each has its lemma, and
`step_inv` puts them together.

When the node is not on the queue, the selected path is the best one, unless
a path belongs to a session that is being cleared (`Settles`). What peers and
kernel were told is what is selected, unless its attributes have changed
since (`Outputs`).
-/

namespace NetSystem

namespace Bgp

open Criteria

/-- A configuration in which every two paths can be told apart. -/
structure Sound (c : Router) : Prop where
  mpath : c.mpathIsConfigured = false
  med : c.deterministicMed = false → c.alwaysCompareMed = true
  self : c.peerSelf ∉ c.peers
  sorts : ∀ p ∈ c.peers, (c.peer p).sort ≠ .internal
  remote : ∀ p ∈ c.peers, ∀ q ∈ c.peers, p ≠ q →
    ∃ x y, (c.peer p).suRemote = some x ∧ (c.peer q).suRemote = some y ∧ x.values ≠ y.values

/-! ## The invariant -/

def Info.entry (i : Info) : Entry := ⟨i.attr, i.valid, i.igpmetric⟩

def Info.view (i : Info) : Option Entry := if i.removed then none else some i.entry

/-- What holds of a path. -/
structure PathOk (c : Router) (i : Info) : Prop where
  stale : i.stale = false
  history : i.history = false
  damped : i.damped = false
  plain : Plain c i.attr
  origin : (i.subType = .normal ∧ i.peer ∈ c.peers) ∨ (i.subType = .static ∧ i.peer = c.peerSelf)
  igpChanged : i.igpChanged = true → i.subType = .normal
  own : c.importCheck = false → i.subType = .static →
    i.igpmetric = 0 ∧ (i.removed = false → i.valid = true)

structure Paths (c : Router) (r : Rib) : Prop where
  nodup : r.list.Nodup
  fresh : ∀ x ∈ r.list, x < r.next
  ok : ∀ x ∈ r.list, PathOk c (r.info x)
  onePath : ∀ x ∈ r.list, ∀ y ∈ r.list, (r.info x).peer = (r.info y).peer → x = y
  oneSelected : OneSelected r.info r.list

structure Sessions (c : Router) (r : Rib) : Prop where
  established : ∀ p, r.established p = true → p ∈ c.peers
  clearing : ∀ p, r.clearing p = true → p ∈ c.peers ∧ r.established p = false
  cleared : ∀ x ∈ r.list, (r.info x).peer ∈ c.peers → r.established (r.info x).peer = false →
    r.clearing (r.info x).peer = false → (r.info x).removed = true

/-- `told` is `f` of the selected path. -/
structure Follows (r : Rib) (f : Info → Option Attr) (told : Option Attr) : Prop where
  selected : ∀ x ∈ r.list, (r.info x).selected = true → (r.info x).attrChanged = false →
    told = f (r.info x)
  none : (∀ x ∈ r.list, (r.info x).selected = false) → told = none

/-- What the kernel is told of a path. -/
def fibEntry (i : Info) : Option Attr := if i.subType = .normal then some i.attr else none

structure Outputs (c : Router) (r : Rib) : Prop where
  up : ∀ p, r.established p = true → Follows r (Rib.announceCheck c p) (r.adjOut p)
  down : ∀ p, r.established p = false → r.adjOut p = none
  fib : c.noFib = false → Follows r fibEntry r.fib
  own : c.noFib = false →
    ∀ x ∈ r.list, (r.info x).selected = true → (r.info x).subType ≠ .normal → r.fib = none

/-- The peer has a session, or is the router itself. -/
def Rib.Speaks (c : Router) (r : Rib) (p : PeerId) : Prop :=
  p = c.peerSelf ∨ r.established p = true

/-- The paths of the node are what has been heard. -/
structure Hears (c : Router) (r : Rib) (a : Heard) : Prop where
  path : ∀ x ∈ r.list, r.Speaks c (r.info x).peer → a (r.info x).peer = (r.info x).view
  missing : ∀ p, (∀ x ∈ r.list, (r.info x).peer ≠ p) → a p = none
  down : ∀ p, ¬ r.Speaks c p → a p = none

structure Settles (c : Router) (r : Rib) : Prop where
  marks : r.marks = Marks.empty
  reaped : r.scheduled = false → ∀ x ∈ r.list, (r.info x).removed = false
  told : r.scheduled = false →
    ∀ x ∈ r.list, (r.info x).selected = true → (r.info x).attrChanged = false
  best : r.scheduled = false → (∀ x ∈ r.list, r.clearing (r.info x).peer = false) →
    ∀ x ∈ r.list,
      ((r.info x).selected = true ↔ IsBest c.toConfig r.status r.info r.list x)

structure Inv (c : Router) (r : Rib) (a : Heard) : Prop where
  paths : Paths c r
  sessions : Sessions c r
  outputs : Outputs c r
  hears : Hears c r a
  settles : Settles c r

/-! ## Editing and adding a path -/

namespace Rib

/-- The node with another path at `x`, on the queue. -/
def edit (r : Rib) (x : Ptr) (i : Info) : Rib :=
  { r with info := Function.update r.info x i, scheduled := true }

/-- The node with a path more, on the queue. -/
def insert (r : Rib) (i : Info) : Rib := { r.add i with scheduled := true }

theorem bgpProcess_eq {r : Rib} (hne : r.list ≠ []) :
    r.bgpProcess = some { r with scheduled := true } := by
  rw [bgpProcess, if_neg hne]
  split
  · rename_i hsch
    rw [← hsch]
  · rfl

theorem bgpProcess_set {r : Rib} {x : Ptr} (hx : x ∈ r.list) (f : Info → Info) :
    (r.set x f).bgpProcess = some (r.edit x (f (r.info x))) :=
  bgpProcess_eq (r := r.set x f) (List.ne_nil_of_mem hx)

theorem bgpProcess_add (r : Rib) (i : Info) : (r.add i).bgpProcess = some (r.insert i) :=
  bgpProcess_eq (r := r.add i) (List.cons_ne_nil _ _)

end Rib

/-- What an input may make of a path. -/
structure Edit (c : Router) (i i' : Info) : Prop where
  ok : PathOk c i'
  peer : i'.peer = i.peer
  subType : i'.subType = i.subType
  selected : i'.selected = i.selected
  attr : i'.attrChanged = false → i.attrChanged = false ∧ i'.attr = i.attr

section Edits

variable {c : Router} {r : Rib} {a : Heard} {x : Ptr} {i : Info} {p : PeerId} {v : Option Entry}

theorem Rib.edit_info_self : (r.edit x i).info x = i := Function.update_self ..

theorem Rib.edit_info_ne {y : Ptr} (hne : y ≠ x) : (r.edit x i).info y = r.info y :=
  Function.update_of_ne hne ..

/-- What holds of the new path and of the others holds of all. -/
theorem Rib.edit_forall {P : Info → Prop} (hx : P i)
    (hother : ∀ y ∈ r.list, y ≠ x → P (r.info y)) : ∀ y ∈ r.list, P ((r.edit x i).info y) := by
  intro y hy
  by_cases hyx : y = x
  · rw [hyx, Rib.edit_info_self]
    exact hx
  · rw [Rib.edit_info_ne hyx]
    exact hother y hy hyx

/-- The values that an edit keeps. -/
theorem Rib.edit_congr {β : Sort*} (f : Info → β) (hf : f i = f (r.info x)) (y : Ptr) :
    f ((r.edit x i).info y) = f (r.info y) := by
  by_cases hyx : y = x
  · rw [hyx, Rib.edit_info_self, hf]
  · rw [Rib.edit_info_ne hyx]

theorem Paths.edit (h : Paths c r) (he : Edit c (r.info x) i) : Paths c (r.edit x i) where
  nodup := h.nodup
  fresh := h.fresh
  ok := Rib.edit_forall he.ok fun y hy _ => h.ok y hy
  onePath y hy z hz := by
    rw [Rib.edit_congr Info.peer he.peer, Rib.edit_congr Info.peer he.peer]
    exact h.onePath y hy z hz
  oneSelected y hy z hz := by
    rw [Rib.edit_congr Info.selected he.selected, Rib.edit_congr Info.selected he.selected]
    exact h.oneSelected y hy z hz

theorem Follows.edit {f : Info → Option Attr} {told : Option Attr} (h : Follows r f told)
    (hx : x ∈ r.list) (he : Edit c (r.info x) i)
    (hf : i.attr = (r.info x).attr → f i = f (r.info x)) : Follows (r.edit x i) f told where
  selected := by
    refine Rib.edit_forall (P := fun i => i.selected = true → i.attrChanged = false →
      told = f i) (fun hsel hchanged => ?_) fun y hy _ => h.selected y hy
    obtain ⟨hold, hattr⟩ := he.attr hchanged
    rw [hf hattr]
    exact h.selected x hx (he.selected.symm.trans hsel) hold
  none hno := by
    refine h.none fun y hy => ?_
    rw [← Rib.edit_congr Info.selected he.selected]
    exact hno y hy

/-- An edit of a path, with what is then heard of its peer. -/
theorem Inv.edit (hc : Sound c) (h : Inv c r a) (hx : x ∈ r.list) (hp : (r.info x).peer = p)
    (he : Edit c (r.info x) i)
    (hcleared : (r.info x).removed = true → ¬ r.Speaks c p → i.removed = true)
    (hpath : r.Speaks c p → v = i.view) (hdown : ¬ r.Speaks c p → v = none) :
    Inv c (r.edit x i) (Function.update a p v) where
  paths := h.paths.edit he
  sessions := by
    refine ⟨h.sessions.established, h.sessions.clearing, ?_⟩
    refine Rib.edit_forall (P := fun i => i.peer ∈ c.peers → r.established i.peer = false →
      r.clearing i.peer = false → i.removed = true) (fun hin hest hclr => ?_)
      fun y hy _ => h.sessions.cleared y hy
    rw [he.peer] at hin hest hclr
    refine hcleared (h.sessions.cleared x hx hin hest hclr) ?_
    rw [← hp]
    rintro (hself | hup)
    · exact hc.self (hself ▸ hin)
    · exact Bool.false_ne_true (hest.symm.trans hup)
  outputs := by
    refine ⟨fun p hp => (h.outputs.up p hp).edit hx he ?_, h.outputs.down,
      fun hfib => (h.outputs.fib hfib).edit hx he ?_, fun hfib y hy => ?_⟩
    · intro hattr
      rw [Rib.announceCheck, Rib.announceCheck, he.peer, hattr]
    · intro hattr
      rw [fibEntry, fibEntry, he.subType, hattr]
    · rw [Rib.edit_congr Info.selected he.selected, Rib.edit_congr Info.subType he.subType]
      exact h.outputs.own hfib y hy
  hears := by
    refine ⟨fun y hy => ?_, fun q hq => ?_, fun q hq => ?_⟩
    · by_cases hyx : y = x
      · rw [hyx, Rib.edit_info_self, he.peer, hp, Function.update_self]
        exact hpath
      · have hne : (r.info y).peer ≠ p := fun heq =>
          hyx (h.paths.onePath y hy x hx (heq.trans hp.symm))
        rw [Rib.edit_info_ne hyx, Function.update_of_ne hne]
        exact h.hears.path y hy
    · have hold : ∀ y ∈ r.list, (r.info y).peer ≠ q := by
        intro y hy
        rw [← Rib.edit_congr Info.peer he.peer]
        exact hq y hy
      have hne : q ≠ p := by
        rintro rfl
        exact hold x hx hp
      rw [Function.update_of_ne hne]
      exact h.hears.missing q hold
    · by_cases hqp : q = p
      · subst hqp
        rw [Function.update_self]
        exact hdown hq
      · rw [Function.update_of_ne hqp]
        exact h.hears.down q hq
  settles := ⟨h.settles.marks, nofun, nofun, nofun⟩

theorem Rib.insert_info_next : (r.insert i).info r.next = i := Function.update_self ..

theorem Paths.insert_info (h : Paths c r) {y : Ptr} (hy : y ∈ r.list) :
    (r.insert i).info y = r.info y :=
  Function.update_of_ne (h.fresh y hy).ne ..

theorem Paths.insert_forall (h : Paths c r) {P : Info → Prop} (hi : P i)
    (hold : ∀ y ∈ r.list, P (r.info y)) :
    ∀ y ∈ (r.insert i).list, P ((r.insert i).info y) := by
  intro y hy
  rcases List.mem_cons.mp hy with rfl | hy
  · rw [Rib.insert_info_next]
    exact hi
  · rw [h.insert_info hy]
    exact hold y hy

theorem Paths.insert (h : Paths c r) (hok : PathOk c i) (hsel : i.selected = false)
    (hnew : ∀ y ∈ r.list, (r.info y).peer ≠ i.peer) : Paths c (r.insert i) where
  nodup := List.nodup_cons.mpr ⟨fun hmem => lt_irrefl _ (h.fresh r.next hmem), h.nodup⟩
  fresh := by
    intro y hy
    rcases List.mem_cons.mp hy with rfl | hy
    · exact Nat.lt_succ_self _
    · exact Nat.lt_succ_of_lt (h.fresh y hy)
  ok := h.insert_forall hok h.ok
  onePath := by
    intro y hy z hz heq
    rcases List.mem_cons.mp hy with rfl | hy
    · rcases List.mem_cons.mp hz with rfl | hz
      · rfl
      · rw [Rib.insert_info_next, h.insert_info hz] at heq
        exact absurd heq.symm (hnew z hz)
    · rcases List.mem_cons.mp hz with rfl | hz
      · rw [Rib.insert_info_next, h.insert_info hy] at heq
        exact absurd heq (hnew y hy)
      · rw [h.insert_info hy, h.insert_info hz] at heq
        exact h.onePath y hy z hz heq
  oneSelected := by
    -- the new path is not selected
    have hmem : ∀ y ∈ (r.insert i).list, ((r.insert i).info y).selected = true →
        y ∈ r.list ∧ (r.info y).selected = true := by
      intro y hy hys
      rcases List.mem_cons.mp hy with rfl | hy
      · rw [Rib.insert_info_next] at hys
        exact absurd (hsel.symm.trans hys) Bool.false_ne_true
      · rw [h.insert_info hy] at hys
        exact ⟨hy, hys⟩
    intro y hy z hz hys hzs
    obtain ⟨hy', hys'⟩ := hmem y hy hys
    obtain ⟨hz', hzs'⟩ := hmem z hz hzs
    exact h.oneSelected y hy' z hz' hys' hzs'

theorem Follows.insert {f : Info → Option Attr} {told : Option Attr} (h : Follows r f told)
    (hpaths : Paths c r) (hsel : i.selected = false) : Follows (r.insert i) f told where
  selected := by
    refine hpaths.insert_forall (P := fun i => i.selected = true → i.attrChanged = false →
      told = f i) (fun hi => ?_) h.selected
    exact absurd (hsel.symm.trans hi) Bool.false_ne_true
  none hno := by
    refine h.none fun y hy => ?_
    rw [← hpaths.insert_info hy]
    exact hno y (List.mem_cons_of_mem _ hy)

/-- A new path of a peer that had none. -/
theorem Inv.insert (hc : Sound c) (h : Inv c r a) (hok : PathOk c i) (hsel : i.selected = false)
    (hp : i.peer = p) (hnew : ∀ y ∈ r.list, (r.info y).peer ≠ p) (hspeaks : r.Speaks c p)
    (hpath : v = i.view) : Inv c (r.insert i) (Function.update a p v) where
  paths := h.paths.insert hok hsel (hp ▸ hnew)
  sessions := by
    refine ⟨h.sessions.established, h.sessions.clearing, ?_⟩
    refine h.paths.insert_forall (P := fun i => i.peer ∈ c.peers → r.established i.peer = false →
      r.clearing i.peer = false → i.removed = true) (fun hin hest _ => ?_) h.sessions.cleared
    rw [hp] at hin hest
    rcases hspeaks with hself | hup
    · exact absurd (hself ▸ hin) hc.self
    · exact absurd (hest.symm.trans hup) Bool.false_ne_true
  outputs := by
    refine ⟨fun p hp => (h.outputs.up p hp).insert h.paths hsel, h.outputs.down,
      fun hfib => (h.outputs.fib hfib).insert h.paths hsel, fun hfib => ?_⟩
    refine h.paths.insert_forall (P := fun i => i.selected = true → i.subType ≠ .normal →
      r.fib = none) (fun hi => ?_) (h.outputs.own hfib)
    exact absurd (hsel.symm.trans hi) Bool.false_ne_true
  hears := by
    refine ⟨fun y hy hspeaks' => ?_, fun q hq => ?_, fun q hq => ?_⟩
    · rcases List.mem_cons.mp hy with rfl | hy
      · rw [Rib.insert_info_next, hp, Function.update_self]
        exact hpath
      · rw [h.paths.insert_info hy] at hspeaks' ⊢
        rw [Function.update_of_ne (hnew y hy)]
        exact h.hears.path y hy hspeaks'
    · have hne : q ≠ p := by
        rintro rfl
        exact hq r.next (List.mem_cons_self ..) (by rw [Rib.insert_info_next, hp])
      rw [Function.update_of_ne hne]
      refine h.hears.missing q fun y hy => ?_
      rw [← h.paths.insert_info hy]
      exact hq y (List.mem_cons_of_mem _ hy)
    · have hne : q ≠ p := by
        rintro rfl
        exact hq hspeaks
      rw [Function.update_of_ne hne]
      exact h.hears.down q hq
  settles := ⟨h.settles.marks, nofun, nofun, nofun⟩

end Edits

/-! ## Sessions -/

section Sessions

variable {c : Router} {r r' : Rib} {a : Heard} {p : PeerId}

theorem Paths.congr (h : Paths c r) (hinfo : r'.info = r.info) (hlist : r'.list = r.list)
    (hnext : r'.next = r.next) : Paths c r' := by
  obtain ⟨hnodup, hfresh, hok, hpath, hsel⟩ := h
  constructor
  · rwa [hlist]
  · rwa [hlist, hnext]
  · rwa [hlist, hinfo]
  · rwa [hlist, hinfo]
  · rwa [hlist, hinfo]

theorem Follows.congr {f : Info → Option Attr} {told : Option Attr} (h : Follows r f told)
    (hinfo : r'.info = r.info) (hlist : r'.list = r.list) : Follows r' f told := by
  obtain ⟨hsel, hnone⟩ := h
  constructor
  · rwa [hlist, hinfo]
  · rwa [hlist, hinfo]

/-- A peer without a usable path may come and go. -/
theorem usable_congr_established {x : Ptr} (hinfo : r'.info = r.info) (hlist : r'.list = r.list)
    (hsame : holddown (r.info x) = true ∨
      r'.established (r.info x).peer = r.established (r.info x).peer) :
    Usable c.toConfig r'.status r'.info r'.list x ↔
      Usable c.toConfig r.status r.info r.list x := by
  rw [Usable, Usable, hinfo, hlist, usable, usable, Rib.status, Rib.status]
  rcases hsame with hhold | hsame
  · simp only [hhold, Bool.not_true, Bool.false_and]
  · simp only [hsame]

theorem holddown_of_removed {i : Info} (h : i.removed = true) : holddown i = true := by
  simp [holddown, h]

theorem Sessions.ne_self (hc : Sound c) (hp : p ∈ c.peers) : p ≠ c.peerSelf := by
  rintro rfl
  exact hc.self hp

theorem Inv.down (hc : Sound c) (h : Inv c r a) (hp : r.established p = true) :
    Inv c (r.down p) (Function.update a p none) := by
  have hpeer := h.sessions.established p hp
  have hne_of_up : ∀ q, (r.down p).established q = true → q ≠ p ∧ r.established q = true := by
    intro q hq
    by_cases hqp : q = p
    · subst hqp
      exact absurd ((Function.update_self ..).symm.trans hq) Bool.false_ne_true
    · exact ⟨hqp, (Function.update_of_ne hqp ..).symm.trans hq⟩
  have hne_of_clear : ∀ q, (r.down p).clearing q = false → q ≠ p ∧ r.clearing q = false := by
    intro q hq
    by_cases hqp : q = p
    · subst hqp
      exact absurd (hq.symm.trans (Function.update_self ..)) Bool.false_ne_true
    · exact ⟨hqp, (Function.update_of_ne hqp ..).symm.trans hq⟩
  have hsame : ∀ q, q ≠ p → (r.down p).established q = r.established q := fun q hq =>
    Function.update_of_ne hq ..
  refine ⟨h.paths.congr rfl rfl rfl, ⟨fun q hq => ?_, fun q hq => ?_, fun x hx hin hest hclr => ?_⟩,
    ⟨fun q hq => ?_, fun q hq => ?_, fun hfib => (h.outputs.fib hfib).congr rfl rfl,
      h.outputs.own⟩,
    ⟨fun x hx hspeaks => ?_, fun q hq => ?_, fun q hq => ?_⟩, ⟨h.settles.marks, h.settles.reaped,
      h.settles.told, fun hsch hclr x hx => ?_⟩⟩
  · exact h.sessions.established q (hne_of_up q hq).2
  · by_cases hqp : q = p
    · rw [hqp]
      exact ⟨hpeer, Function.update_self ..⟩
    · rw [hsame q hqp]
      exact h.sessions.clearing q ((Function.update_of_ne hqp ..).symm.trans hq)
  · obtain ⟨hne, hclr⟩ := hne_of_clear _ hclr
    rw [hsame _ hne] at hest
    exact h.sessions.cleared x hx hin hest hclr
  · obtain ⟨hqp, hq⟩ := hne_of_up q hq
    rw [show (r.down p).adjOut q = r.adjOut q from Function.update_of_ne hqp ..]
    exact (h.outputs.up q hq).congr rfl rfl
  · by_cases hqp : q = p
    · rw [hqp]
      exact Function.update_self ..
    · rw [show (r.down p).adjOut q = r.adjOut q from Function.update_of_ne hqp ..]
      exact h.outputs.down q (hsame q hqp ▸ hq)
  · have hne : (r.info x).peer ≠ p := by
      rcases hspeaks with hself | hup
      · rw [show (r.info x).peer = c.peerSelf from hself]
        exact (Sessions.ne_self hc hpeer).symm
      · exact (hne_of_up _ hup).1
    rw [show (r.down p).info = r.info from rfl, Function.update_of_ne hne]
    exact h.hears.path x hx (hspeaks.imp_right fun hup => (hne_of_up _ hup).2)
  · by_cases hqp : q = p
    · rw [hqp, Function.update_self]
    · rw [Function.update_of_ne hqp]
      exact h.hears.missing q hq
  · by_cases hqp : q = p
    · rw [hqp, Function.update_self]
    · rw [Function.update_of_ne hqp]
      refine h.hears.down q fun hspeaks => hq (hspeaks.imp_right fun hup => ?_)
      rw [hsame q hqp, hup]
  · rw [isBest_congr fun y => ?_]
    · exact h.settles.best hsch (fun y hy => (hne_of_clear _ (hclr y hy)).2) x hx
    · by_cases hy : y ∈ r.list
      · exact usable_congr_established rfl rfl (Or.inr (hsame _ (hne_of_clear _ (hclr y hy)).1))
      · exact iff_of_false (fun hu => hy hu.1) fun hu => hy hu.1

/-- The queue of a session has been worked off. -/
theorem Inv.cleared (h : Inv c r a)
    (hall : ∀ x ∈ r.list, (r.info x).peer = p → (r.info x).removed = true) :
    Inv c { r with clearing := Function.update r.clearing p false } a := by
  refine ⟨h.paths.congr rfl rfl rfl, ⟨h.sessions.established, fun q hq => ?_,
    fun x hx hin hest hclr => ?_⟩, ⟨fun q hq => (h.outputs.up q hq).congr rfl rfl, h.outputs.down,
    fun hfib => (h.outputs.fib hfib).congr rfl rfl, h.outputs.own⟩,
    ⟨h.hears.path, h.hears.missing, h.hears.down⟩, ⟨h.settles.marks, h.settles.reaped,
      h.settles.told, fun hsch hclr => h.settles.best hsch fun x hx => ?_⟩⟩
  · by_cases hqp : q = p
    · subst hqp
      exact absurd ((Function.update_self ..).symm.trans hq) Bool.false_ne_true
    · exact h.sessions.clearing q ((Function.update_of_ne hqp ..).symm.trans hq)
  · by_cases hxp : (r.info x).peer = p
    · exact hall x hx hxp
    · exact h.sessions.cleared x hx hin hest ((Function.update_of_ne hxp ..).symm.trans hclr)
  · -- a path of `p` would be gone by now
    have hxp : (r.info x).peer ≠ p := fun heq =>
      Bool.false_ne_true ((h.settles.reaped hsch x hx).symm.trans (hall x hx heq))
    exact (Function.update_of_ne hxp ..).symm.trans (hclr x hx)

/-- A loop that keeps the last value, where there is only one. -/
theorem foldl_only {α β : Type*} {q : α → Prop} [DecidablePred q] {f : α → β} {x : α} :
    ∀ {l : List α} {out : β}, (∀ y ∈ l, q y → y = x) →
    l.foldl (fun out y => if q y then f y else out) out = if ∃ y ∈ l, q y then f x else out
  | [], out, _ => by simp
  | z :: l, out, hq => by
      rw [List.foldl_cons, foldl_only fun y hy => hq y (List.mem_cons_of_mem z hy)]
      by_cases hz : q z
      · obtain rfl := hq z (List.mem_cons_self ..) hz
        rw [if_pos hz, ite_self, if_pos ⟨z, List.mem_cons_self .., hz⟩]
      · rw [if_neg hz]
        simp [hz]

/-- The new session is told what is selected. -/
theorem bgpAnnounceTable_follows (hone : OneSelected r.info r.list) (hout : r.adjOut p = none) :
    Follows r (Rib.announceCheck c p) (r.bgpAnnounceTable c p) where
  selected x hx hsel _ := by
    rw [Rib.bgpAnnounceTable, foldl_only (f := fun y => Rib.announceCheck c p (r.info y))
      fun y hy hq => hone y hy x hx hq.1 hsel, hout]
    by_cases hpeer : (r.info x).peer = p
    · rw [Rib.announceCheck, if_pos hpeer, ite_self]
    · rw [if_pos ⟨x, hx, hsel, hpeer⟩]
  none hno := by
    rw [Rib.bgpAnnounceTable, foldl_only (f := fun y => Rib.announceCheck c p (r.info y)) (x := 0)
      fun y hy hq => absurd ((hno y hy).symm.trans hq.1) Bool.false_ne_true, hout, if_neg]
    rintro ⟨y, hy, hq, -⟩
    exact Bool.false_ne_true ((hno y hy).symm.trans hq)

theorem Inv.up (hc : Sound c) (h : Inv c r a) (hp : p ∈ c.peers) (hest : r.established p = false)
    (hclr : r.clearing p = false) : Inv c (r.up c p) a := by
  have hsame : ∀ q, q ≠ p → (r.up c p).established q = r.established q := fun q hq =>
    Function.update_of_ne hq ..
  have hup : ∀ q, (r.up c p).established q = true → q = p ∨ r.established q = true := by
    intro q hq
    by_cases hqp : q = p
    · exact Or.inl hqp
    · exact Or.inr (hsame q hqp ▸ hq)
  have hremoved : ∀ x ∈ r.list, (r.info x).peer = p → (r.info x).removed = true := by
    rintro x hx rfl
    exact h.sessions.cleared x hx hp hest hclr
  have hsilent : ¬ r.Speaks c p := by
    rintro (hself | hup)
    · exact Sessions.ne_self hc hp hself
    · exact Bool.false_ne_true (hest.symm.trans hup)
  refine ⟨h.paths.congr rfl rfl rfl, ⟨fun q hq => ?_, fun q hq => ?_, fun x hx hin hest' => ?_⟩,
    ⟨fun q hq => ?_, fun q hq => ?_, fun hfib => (h.outputs.fib hfib).congr rfl rfl,
      h.outputs.own⟩,
    ⟨fun x hx hspeaks => ?_, h.hears.missing, fun q hq => h.hears.down q fun hspeaks => ?_⟩,
    ⟨h.settles.marks, h.settles.reaped, h.settles.told, fun hsch hclr x hx => ?_⟩⟩
  · rcases hup q hq with rfl | hq
    · exact hp
    · exact h.sessions.established q hq
  · have hqp : q ≠ p := by
      rintro rfl
      exact Bool.false_ne_true (hclr.symm.trans hq)
    rw [hsame q hqp]
    exact h.sessions.clearing q hq
  · by_cases hxp : (r.info x).peer = p
    · exact fun _ => hremoved x hx hxp
    · exact h.sessions.cleared x hx hin ((hsame _ hxp).symm.trans hest')
  · by_cases hqp : q = p
    · subst hqp
      rw [show (r.up c q).adjOut q = r.bgpAnnounceTable c q from Function.update_self ..]
      exact (bgpAnnounceTable_follows h.paths.oneSelected (h.outputs.down q hest)).congr rfl rfl
    · rw [show (r.up c p).adjOut q = r.adjOut q from Function.update_of_ne hqp ..]
      exact (h.outputs.up q (hsame q hqp ▸ hq)).congr rfl rfl
  · have hqp : q ≠ p := by
      rintro rfl
      exact Bool.false_ne_true (hq.symm.trans (Function.update_self ..))
    rw [show (r.up c p).adjOut q = r.adjOut q from Function.update_of_ne hqp ..]
    exact h.outputs.down q (hsame q hqp ▸ hq)
  · by_cases hxp : (r.info x).peer = p
    · rw [show (r.up c p).info = r.info from rfl, Info.view, if_pos (hremoved x hx hxp), hxp]
      exact h.hears.down p hsilent
    · exact h.hears.path x hx (hspeaks.imp_right fun hq => (hup _ hq).resolve_left hxp)
  · have hqp : q ≠ p := by
      rintro rfl
      exact hsilent hspeaks
    exact hq (hspeaks.imp_right fun hq => (hsame q hqp).trans hq)
  · rw [isBest_congr fun y => ?_]
    · exact h.settles.best hsch hclr x hx
    · by_cases hy : y ∈ r.list
      · refine usable_congr_established rfl rfl ?_
        by_cases hyp : (r.info y).peer = p
        · exact Or.inl (holddown_of_removed (hremoved y hy hyp))
        · exact Or.inr (hsame _ hyp)
      · exact iff_of_false (fun hu => hy hu.1) fun hu => hy hu.1

theorem Inv.userClear (h : Inv c r a) :
    Inv c { r with userClear := true, scheduled := true } a :=
  ⟨h.paths.congr rfl rfl rfl,
    ⟨h.sessions.established, h.sessions.clearing, h.sessions.cleared⟩,
    ⟨fun p hp => (h.outputs.up p hp).congr rfl rfl, h.outputs.down,
      fun hfib => (h.outputs.fib hfib).congr rfl rfl, h.outputs.own⟩,
    ⟨h.hears.path, h.hears.missing, h.hears.down⟩, ⟨h.settles.marks, nofun, nofun, nofun⟩⟩

end Sessions

end Bgp

end NetSystem
