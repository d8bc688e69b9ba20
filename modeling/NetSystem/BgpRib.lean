import NetSystem.Run
import NetSystem.BgpStable

/-!
# The paths to a prefix

The node of a prefix in the routing table of quagga's `bgpd`, with all that
happens to it: announcements and withdrawals of the peers (`bgp_update_main`,
`bgp_withdraw`), a route of its own (`bgp_static_update_main`), nexthops that
become reachable or not (`evaluate_paths`), sessions that go down and come
up. None of these selects a path. They put the node on a queue
(`bgp_process`), and later `bgp_process_main` selects the best path and tells
the peers and the kernel. A session that went down has a queue of its own
(`bgp_clear_route_node`), and meanwhile its paths are still there.

Damping, graceful restart, multipath, aggregates and route server clients are
left out, also the limit on a peer's prefixes (`maximum-prefix`, at which
`bgp_update_main` returns before `bgp_process`), its outbound route filter
(ORF) and address families it has not negotiated. Every established peer is
one that `bgp_process_announce_selected` announces to.
-/

namespace NetSystem

namespace Bgp

open Criteria

/-! ## The node -/

/-- What the functions of this module read of the configuration. The import
and export policy are the filters and route-maps. -/
structure Router extends Config where
  peers : List PeerId
  importCheck : Bool
  noFib : Bool
  inputPolicy : PeerId → Attr → Option Attr
  outputPolicy : PeerId → PeerId → Attr → Option Attr

/-- `struct bgp_node`, with the status of the sessions. `clearing` is the
queue of `bgp_clear_route`, `adjOut` what the peers are told, and `fib` what
the kernel is. -/
structure Rib where
  info : Heap
  list : List Ptr
  next : Ptr
  marks : Marks
  scheduled : Bool
  userClear : Bool
  established : PeerId → Bool
  clearing : PeerId → Bool
  adjOut : PeerId → Option Attr
  fib : Option Attr

/-- What `bgp_ensure_nexthop` and `evaluate_paths` read of the nexthop
cache. -/
structure Nexthop where
  valid : Bool
  metric : Nat
  zebraConnects : Bool

def Nexthop.igpmetric (n : Nexthop) : Nat := if n.valid then n.metric else 0

/-- `bgp_ensure_nexthop` -/
def Nexthop.ensure (n : Nexthop) : Bool := !n.zebraConnects || n.valid

/-- `bgp_info_delete` -/
def Info.delete (i : Info) : Info := { i with removed := true, valid := false }

/-- `bgp_info_restore` -/
def Info.restore (i : Info) : Info := { i with removed := false, valid := true }

/-- `info_make` -/
def infoMake (subType : SubType) (peer : PeerId) (attr : Attr) : Info where
  peer := peer
  subType := subType
  attr := attr
  igpmetric := 0
  selected := false
  valid := false
  attrChanged := false
  igpChanged := false
  stale := false
  removed := false
  history := false
  damped := false

namespace Rib

def status (r : Rib) : Status := ⟨r.established, fun _ => false⟩

def set (r : Rib) (x : Ptr) (f : Info → Info) : Rib :=
  { r with info := Function.update r.info x (f (r.info x)) }

/-- `bgp_info_add` -/
def add (r : Rib) (i : Info) : Rib :=
  { r with info := Function.update r.info r.next i, list := r.next :: r.list, next := r.next + 1 }

/-- The loop that looks for the path of a peer. -/
def find (r : Rib) (p : PeerId) (t : SubType) : Option Ptr :=
  r.list.find? fun x => (r.info x).peer = p && (r.info x).subType = t

/-- `bgp_process`, with `none` for the assertion that there is a path. -/
def bgpProcess (r : Rib) : Option Rib :=
  if r.scheduled then some r
  else if r.list = [] then none
  else some { r with scheduled := true }

def bgpRibRemove (r : Rib) (ri : Ptr) : Option Rib :=
  (r.set ri fun i => if i.history then i else i.delete).bgpProcess

/-! ## Paths of peers -/

variable (c : Router)

/-- The nexthop check at the end of `bgp_update_main`. -/
def checkNexthop (n : Nexthop) (i : Info) : Info :=
  { i with valid := n.ensure, igpmetric := n.igpmetric }

def bgpUpdateMain (r : Rib) (p : PeerId) (attr : Attr) (n : Nexthop) : Option Rib :=
  match c.inputPolicy p attr, r.find p .normal with
  | none, none => some r
  | none, some ri => r.bgpRibRemove ri
  | some attrNew, none => (r.add (checkNexthop n (infoMake .normal p attrNew))).bgpProcess
  | some attrNew, some ri =>
      -- the same attribute comes in
      if ¬ (r.info ri).removed ∧ (r.info ri).attr = attrNew then
        if (r.info ri).stale then (r.set ri fun i => { i with stale := false }).bgpProcess
        else some r
      else
        bgpProcess <| r.set ri fun i =>
          checkNexthop n { (if i.removed then i.restore else i) with
            stale := false, attrChanged := true, attr := attrNew }

def bgpWithdraw (r : Rib) (p : PeerId) : Option Rib :=
  match r.find p .normal with
  | none => some r
  | some ri => if (r.info ri).history then some r else r.bgpRibRemove ri

/-- `evaluate_paths`, for the path of one peer. -/
def evaluatePath (r : Rib) (p : PeerId) (n : Nexthop) (changed : Bool) : Option Rib :=
  match r.find p .normal with
  | none => some r
  | some ri => bgpProcess <| r.set ri fun i =>
      { i with valid := n.valid, igpmetric := n.igpmetric, igpChanged := changed || i.igpChanged }

/-! ## A route of its own -/

def checkStatic (n : Nexthop) (i : Info) : Info :=
  if c.importCheck then checkNexthop n i else i

def bgpStaticUpdateMain (r : Rib) (attr : Attr) (n : Nexthop) : Option Rib :=
  match r.find c.peerSelf .static with
  | none =>
      bgpProcess <| r.add <|
        checkStatic c n { infoMake .static c.peerSelf attr with valid := !c.importCheck }
  | some ri =>
      if (r.info ri).attr = attr ∧ ¬ (r.info ri).removed then some r
      else
        bgpProcess <| r.set ri fun i =>
          checkStatic c n { (if i.removed then i.restore else i) with
            attrChanged := true, attr := attr }

def bgpStaticWithdraw (r : Rib) : Option Rib :=
  match r.find c.peerSelf .static with
  | none => some r
  | some ri => (r.set ri Info.delete).bgpProcess

/-! ## Sessions -/

/-- `bgp_announce_check`: a path does not go back to where it came from. -/
def announceCheck (p : PeerId) (i : Info) : Option Attr :=
  if i.peer = p then none else c.outputPolicy p i.peer i.attr

/-- `bgp_stop`, and `bgp_clear_route` for this node. -/
def down (r : Rib) (p : PeerId) : Rib :=
  { r with
    established := Function.update r.established p false
    clearing := Function.update r.clearing p true
    adjOut := Function.update r.adjOut p none }

def bgpClearRouteNode (r : Rib) (p : PeerId) : Option Rib :=
  let r := { r with clearing := Function.update r.clearing p false }
  match r.list.find? fun x => (r.info x).peer = p with
  | none => some r
  | some ri => r.bgpRibRemove ri

/-- `bgp_announce_table`, for this node. -/
def bgpAnnounceTable (r : Rib) (p : PeerId) : Option Attr :=
  r.list.foldl (fun out x =>
    if (r.info x).selected ∧ (r.info x).peer ≠ p then announceCheck c p (r.info x) else out)
    (r.adjOut p)

/-- `bgp_establish` -/
def up (r : Rib) (p : PeerId) : Rib :=
  { r with
    established := Function.update r.established p true
    adjOut := Function.update r.adjOut p (r.bgpAnnounceTable c p) }

/-! ## The selection -/

/-- The FIB update of `bgp_process_main`. -/
def fibUpdate (r : Rib) (old new : Option Ptr) : Option Attr :=
  if c.noFib then r.fib
  else
    match new.filter fun x => (r.info x).subType = .normal with
    | some x => some (r.info x).attr
    | none =>
        match old.filter fun x => (r.info x).subType = .normal with
        | some _ => none
        | none => r.fib

/-- `bgp_process_announce_selected`, for every peer. -/
def announceSelected (r : Rib) (new : Option Ptr) (p : PeerId) : Option Attr :=
  if p ∈ c.peers ∧ r.established p then new.bind fun x => announceCheck c p (r.info x)
  else r.adjOut p

/-- The selected flag moves from the old to the new path. -/
def moveSelected (r : Rib) (old new : Option Ptr) : Rib :=
  let r := old.elim r fun x => r.set x fun i => { i with selected := false }
  new.elim r fun x => r.set x fun i => { i with selected := true, attrChanged := false }

/-- Nothing to do: the path stays the same, and so do its attributes. -/
def unchanged (r : Rib) (old new : Option Ptr) : Bool :=
  old.isSome && old = new && !r.userClear && old.all fun x => !(r.info x).attrChanged

def bgpProcessMain (r : Rib) : Rib :=
  let s := bgpBestSelection c.toConfig r.status r.info r.list r.marks
  let r := { r with list := s.list, marks := s.marks }
  if r.unchanged s.old s.new then
    { r with
      fib := match s.old.filter fun x => (r.info x).igpChanged with
        | some x => some (r.info x).attr
        | none => r.fib
      scheduled := false }
  else
    let r := r.moveSelected s.old s.new
    { r with
      userClear := false
      adjOut := r.announceSelected c s.new
      fib := r.fibUpdate c s.old s.new
      -- the old path leaves the list if it was removed
      list := match s.old.filter fun x => (r.info x).removed with
        | some x => r.list.erase x
        | none => r.list
      scheduled := false }

end Rib

/-! ## Runs -/

inductive Input where
  | update (p : PeerId) (attr : Attr) (n : Nexthop)
  | withdraw (p : PeerId)
  | evaluate (p : PeerId) (n : Nexthop) (changed : Bool)
  | originate (attr : Attr) (n : Nexthop)
  | unoriginate
  | down (p : PeerId)
  | clear (p : PeerId)
  | up (p : PeerId)
  | userClear
  | process

section Run

variable (c : Router)

def step (r : Rib) : Input → Option Rib
  | .update p attr n => r.bgpUpdateMain c p attr n
  | .withdraw p => r.bgpWithdraw p
  | .evaluate p n changed => r.evaluatePath p n changed
  | .originate attr n => r.bgpStaticUpdateMain c attr n
  | .unoriginate => r.bgpStaticWithdraw c
  | .down p => some (r.down p)
  | .clear p => r.bgpClearRouteNode p
  | .up p => some (r.up c p)
  | .userClear => { r with userClear := true }.bgpProcess
  | .process => some (r.bgpProcessMain c)

/-- An AS path as the selection with deterministic-med needs it. -/
def Plain (attr : Attr) : Prop := c.deterministicMed = true → NoConfed attr.aspath

/-- When an input can come. Only a peer with a session sends; a session comes
up again when it has been cleared; and a node is processed when it is on the
queue. -/
def Allowed (r : Rib) : Input → Prop
  | .update p attr _ => r.established p = true ∧ ∀ a ∈ c.inputPolicy p attr, Plain c a
  | .withdraw p => r.established p = true
  | .evaluate p _ _ => p ∈ c.peers
  | .originate attr _ => Plain c attr
  | .unoriginate => True
  | .down p => r.established p = true
  | .clear p => r.clearing p = true
  | .up p => p ∈ c.peers ∧ r.established p = false ∧ r.clearing p = false
  | .userClear => r.list ≠ []
  | .process => r.scheduled = true

def Rib.init : Rib where
  info := fun _ => infoMake .normal c.peerSelf ⟨0, 0, none, [], 0, none, none, none, []⟩
  list := []
  next := 0
  marks := Marks.empty
  scheduled := false
  userClear := false
  established := fun _ => false
  clearing := fun _ => false
  adjOut := fun _ => none
  fib := none

/-- Inputs that can come one after the other. -/
def Legal (ins : List Input) : Prop := EachStep (step c) (Allowed c) (Rib.init c) ins

instance (attr : Attr) : Decidable (Plain c attr) := inferInstanceAs (Decidable (_ → _))

instance (r : Rib) : ∀ i, Decidable (Allowed c r i)
  | .update .. => inferInstanceAs (Decidable (_ ∧ ∀ a ∈ _, Plain c a))
  | .withdraw _ => inferInstanceAs (Decidable (_ = _))
  | .evaluate .. => inferInstanceAs (Decidable (_ ∈ _))
  | .originate .. => inferInstanceAs (Decidable (Plain c _))
  | .unoriginate => inferInstanceAs (Decidable True)
  | .down _ => inferInstanceAs (Decidable (_ = _))
  | .clear _ => inferInstanceAs (Decidable (_ = _))
  | .up _ => inferInstanceAs (Decidable (_ ∈ _ ∧ _ = _ ∧ _ = _))
  | .userClear => inferInstanceAs (Decidable (_ ≠ _))
  | .process => inferInstanceAs (Decidable (_ = _))

instance (ins : List Input) : Decidable (Legal c ins) :=
  inferInstanceAs (Decidable (EachStep _ _ _ _))

/-! ## What has been heard -/

/-- An announcement that was accepted, with its nexthop as it is now. -/
@[ext] structure Entry where
  attr : Attr
  valid : Bool
  igpmetric : Nat

abbrev Heard := PeerId → Option Entry

/-- A repeated announcement changes nothing. -/
def renew (old : Option Entry) (new : Entry) : Option Entry :=
  if old.map Entry.attr = some new.attr then old else some new

def hear (a : Heard) : Input → Heard
  | .update p attr n => Function.update a p <|
      (c.inputPolicy p attr).bind fun new => renew (a p) ⟨new, n.ensure, n.igpmetric⟩
  | .withdraw p => Function.update a p none
  | .evaluate p n _ => Function.update a p <|
      (a p).map fun e => { e with valid := n.valid, igpmetric := n.igpmetric }
  | .originate attr n => Function.update a c.peerSelf <| renew (a c.peerSelf) <|
      if c.importCheck then ⟨attr, n.ensure, n.igpmetric⟩ else ⟨attr, true, 0⟩
  | .unoriginate => Function.update a c.peerSelf none
  | .down p => Function.update a p none
  | _ => a

/-- The last that each peer announced in its session, and the route of its
own, under `peerSelf`. -/
def heard (ins : List Input) : Heard := ins.foldl (hear c) fun _ => none

end Run

end Bgp

end NetSystem
