import NetSystem.RouteLpm

/-!
# The routers of `lab2/topology.py`

Four routers in a row, `r1 - r2 - r3 - r4`, with two /26 networks behind
`r1` and one /24 behind `r4`. The cables come from the list of link pairs
(the n-th link of a node is its `eth(n-1)`), the addresses from the
`ifconfig` lines and the tables from these and the `route add` lines.

No router distinguishes more addresses than the prefixes in the tables do,
so one address stands for each class of them (`exists_representative`), and
what each router does with a class is evaluated. `r2`, `r3` and `r4` route
all of 192.168.1.0/24 to `r1`, which knows only the two /26 networks in it;
the rest is dropped there and goes nowhere else.
-/

namespace NetSystem

namespace Lab2

/-! ## The configuration -/

inductive Router where
  | r1 | r2 | r3 | r4
deriving DecidableEq, Repr

inductive Node where
  | router (r : Router)
  | s1 | s2 | s3
  | h1 | h2 | h3 | h4 | h5
  | dhcpServer
deriving DecidableEq, Repr

open Routing Router

instance {p : Router → Prop} [DecidablePred p] : Decidable (∀ r, p r) :=
  decidable_of_iff (p r1 ∧ p r2 ∧ p r3 ∧ p r4)
    ⟨fun ⟨h1, h2, h3, h4⟩ r => match r with | r1 => h1 | r2 => h2 | r3 => h3 | r4 => h4,
      fun h => ⟨h r1, h r2, h r3, h r4⟩⟩

instance {p : Router → Prop} [DecidablePred p] : Decidable (∃ r, p r) :=
  decidable_of_iff (¬ ∀ r, ¬ p r) not_forall_not

def links : List (Node × Node) :=
  [(.router r2, .router r3), (.router r2, .router r1),
   (.router r3, .router r4), (.router r1, .s1),
   (.router r1, .s2), (.router r4, .s3),
   (.s1, .h1), (.s1, .dhcpServer),
   (.s2, .h2), (.s2, .h3),
   (.s3, .h4), (.s3, .h5)]

/-- The two ends of each link with their interface numbers: `addLink` gives
a router's interfaces the numbers 0, 1, ... in turn (the ports of a switch
start at 1, but nothing refers to them). -/
def cables : List (Node × Node) → (Node → Nat) → List ((Node × Nat) × (Node × Nat))
  | [], _ => []
  | (a, b) :: ls, used =>
      ((a, used a), (b, used b)) ::
        cables ls fun n => if n = a ∨ n = b then used n + 1 else used n

/-- The other end of the link at an interface. -/
def peer (n : Node) (eth : Nat) : Option (Node × Nat) :=
  (cables links fun _ => 0).findSome? fun c =>
    if c.1 = (n, eth) then some c.2 else if c.2 = (n, eth) then some c.1 else none

/-- The address a.b.c.d. -/
def quad (a b c d : Nat) : BitVec 32 := BitVec.ofNat 32 (((a * 256 + b) * 256 + c) * 256 + d)

def net24 (a b c d : Nat) : Prefix 32 := ⟨quad a b c d, 24, by decide⟩

def net26 (a b c d : Nat) : Prefix 32 := ⟨quad a b c d, 26, by decide⟩

/-- `ifconfig <router>-eth<n> <address>/<length>`. -/
def ifconfig : Router → List (Nat × Prefix 32)
  | r1 => [(0, net24 10 0 1 2), (1, net26 192 168 1 62), (2, net26 192 168 1 126)]
  | r2 => [(0, net24 10 0 0 1), (1, net24 10 0 1 1)]
  | r3 => [(0, net24 10 0 0 2), (1, net24 10 0 2 1)]
  | r4 => [(0, net24 10 0 2 3), (1, net24 192 168 3 254)]

/-- `route add -net <destination> gw <gateway>`. -/
def routeAdd : Router → List (Prefix 32 × BitVec 32)
  | r1 => [(net24 10 0 0 0, quad 10 0 1 1), (net24 192 168 3 0, quad 10 0 1 1),
           (net24 10 0 2 0, quad 10 0 1 1)]
  | r2 => [(net24 192 168 1 0, quad 10 0 1 2), (net24 10 0 2 0, quad 10 0 0 2),
           (net24 192 168 3 0, quad 10 0 0 2)]
  | r3 => [(net24 10 0 1 0, quad 10 0 0 1), (net24 192 168 1 0, quad 10 0 0 1),
           (net24 192 168 3 0, quad 10 0 2 3)]
  | r4 => [(net24 10 0 0 0, quad 10 0 2 1), (net24 192 168 1 0, quad 10 0 2 1),
           (net24 10 0 1 0, quad 10 0 2 1)]

/-- Connected networks and static routes. -/
def table (r : Router) : List (Entry 32) :=
  ((ifconfig r).map fun i => ⟨i.2, none⟩) ++ (routeAdd r).map fun e => ⟨e.1, some e.2⟩

/-- The router a gateway address belongs to: it is at the other end of an
interface whose network covers the address. -/
def gateway (r : Router) (g : BitVec 32) : Option Router :=
  (ifconfig r).findSome? fun i =>
    if i.2.covers g then
      match peer (.router r) i.1 with
      | some (.router r', eth) =>
          if ∃ j ∈ ifconfig r', j.1 = eth ∧ j.2.addr = g then some r' else none
      | _ => none
    else none

/-- What a router does with a packet for the address `a`. -/
def forwardTo (a : BitVec 32) (r : Router) : Hop Router :=
  match lookup (table r) a with
  | none => .drop
  | some ⟨_, none⟩ => .deliver
  | some ⟨_, some g⟩ =>
      match gateway r g with
      | some r' => .forward r'
      -- a gateway that no neighbour answers for
      | none => .drop

/-- The configured networks. -/
def subnets : List (Prefix 32) :=
  [net24 10 0 0 0, net24 10 0 1 0, net24 10 0 2 0, net26 192 168 1 0, net26 192 168 1 64,
   net24 192 168 3 0]

/-- An interface of the router is in the network. -/
def Connected (r : Router) (p : Prefix 32) : Prop :=
  ∃ i ∈ ifconfig r, i.2.len = p.len ∧ p.covers i.2.addr = true

instance (r : Router) (p : Prefix 32) : Decidable (Connected r p) :=
  inferInstanceAs (Decidable (∃ i ∈ ifconfig r, _))

/-! ## One address for each class -/

/-- What the tables can tell apart: the configured networks, the rest of
192.168.1.0/24, and everything else. -/
inductive Area where
  | net100 | net101 | net102
  | left1 | left2 | gap
  | right
  | outside
deriving DecidableEq, Repr

/-- An address in the area. -/
def Area.address : Area → BitVec 32
  | .net100 => quad 10 0 0 0
  | .net101 => quad 10 0 1 0
  | .net102 => quad 10 0 2 0
  | .left1 => quad 192 168 1 0
  | .left2 => quad 192 168 1 64
  | .gap => quad 192 168 1 128
  | .right => quad 192 168 3 0
  | .outside => quad 0 0 0 0

/-- The numbers of the /24 and of the /26 networks in the tables. -/
def numbers24 : List Nat := [655360, 655361, 655362, 12625921, 12625923]

def numbers26 : List Nat := [50503684, 50503685]

/-- Every destination in a table, and every configured network. -/
def destinations : List (Prefix 32) :=
  [r1, r2, r3, r4].flatMap (fun r => (table r).map Entry.dest) ++ subnets

theorem destinations_numbers : ∀ p ∈ destinations,
    (p.len = 24 ∧ p.addr.toNat / 256 ∈ numbers24) ∨
      (p.len = 26 ∧ p.addr.toNat / 64 ∈ numbers26) := by
  decide +kernel

/-- Two addresses in the same networks are alike to all tables. -/
theorem covers_congr {a b : BitVec 32}
    (h24 : ∀ n ∈ numbers24, a.toNat / 256 = n ↔ b.toNat / 256 = n)
    (h26 : ∀ n ∈ numbers26, a.toNat / 64 = n ↔ b.toNat / 64 = n) :
    ∀ p ∈ destinations, p.covers a = p.covers b := by
  intro p hp
  rw [Prefix.covers, Prefix.covers, decide_eq_decide]
  rcases destinations_numbers p hp with ⟨hlen, hn⟩ | ⟨hlen, hn⟩
  · have hpow : 2 ^ (32 - p.len) = 256 := by simp [hlen]
    rw [hpow]
    exact h24 _ hn
  · have hpow : 2 ^ (32 - p.len) = 64 := by simp [hlen]
    rw [hpow]
    exact h26 _ hn

/-- The area of an address. -/
def area (a : BitVec 32) : Area :=
  if a.toNat / 256 = 655360 then .net100
  else if a.toNat / 256 = 655361 then .net101
  else if a.toNat / 256 = 655362 then .net102
  else if a.toNat / 64 = 50503684 then .left1
  else if a.toNat / 64 = 50503685 then .left2
  else if a.toNat / 256 = 12625921 then .gap
  else if a.toNat / 256 = 12625923 then .right
  else .outside

/-- The same address as a number. -/
def Area.base : Area → Nat
  | .net100 => 655360 * 256
  | .net101 => 655361 * 256
  | .net102 => 655362 * 256
  | .left1 => 50503684 * 64
  | .left2 => 50503685 * 64
  | .gap => 50503686 * 64
  | .right => 12625923 * 256
  | .outside => 0

theorem address_toNat (k : Area) : k.address.toNat = k.base := by
  cases k <;> rfl

theorem covers_area (a : BitVec 32) :
    ∀ p ∈ destinations, p.covers a = p.covers (area a).address := by
  refine covers_congr ?_ ?_
  all_goals
    simp only [numbers24, numbers26, List.forall_mem_cons, List.not_mem_nil, false_implies,
      implies_true, and_true, address_toNat]
    unfold area
    split_ifs <;> simp only [Area.base, iff_true] <;> omega

/-- An address is forwarded as the one that stands for its area. -/
theorem forwardTo_area (a : BitVec 32) : forwardTo a = forwardTo (area a).address := by
  funext r
  have htable : lookup (table r) a = lookup (table r) (area a).address := by
    refine lookup_congr fun e he => covers_area a e.dest (List.mem_append_left _ ?_)
    refine List.mem_flatMap.mpr ⟨r, ?_, List.mem_map_of_mem he⟩
    cases r <;> simp
  rw [forwardTo, forwardTo, htable]

/-! ## Each router does its part -/

/-- The hops left from a router. -/
def hopsLeft : Area → Router → Nat
  | .net100, r1 | .net100, r4 => 1
  | .net100, _ => 0
  | .net101, r3 => 1
  | .net101, r4 => 2
  | .net101, _ => 0
  | .net102, r1 => 2
  | .net102, r2 => 1
  | .net102, _ => 0
  | .left1, r | .left2, r | .gap, r => match r with | r1 => 0 | r2 => 1 | r3 => 2 | r4 => 3
  | .right, r => match r with | r1 => 3 | r2 => 2 | r3 => 1 | r4 => 0
  | .outside, _ => 0

theorem hopsLeft_lt (k : Area) : ∀ r r', forwardTo k.address r = .forward r' →
    hopsLeft k r' < hopsLeft k r := by
  cases k <;> decide +kernel

/-- No router gives up on a configured network, and the one that delivers
is connected to it. -/
theorem subnet_local (k : Area) : ∀ p ∈ subnets, p.covers k.address = true → ∀ r,
    forwardTo k.address r ≠ .drop ∧ (forwardTo k.address r = .deliver → Connected r p) := by
  cases k <;> decide +kernel

/-- Outside the configured networks no router delivers. -/
theorem outside_local (k : Area) (hk : ∀ p ∈ subnets, p.covers k.address = false) :
    ∀ r, forwardTo k.address r ≠ .deliver := by
  revert hk
  cases k <;> decide +kernel

/-- A gateway is the address of a neighbour's interface, at the other end of
a link, and the two interfaces are in one network. -/
def NeighbourAddress (r : Router) (g : BitVec 32) : Prop :=
  ∃ i ∈ ifconfig r, ∃ r', ∃ j ∈ ifconfig r', peer (.router r) i.1 = some (.router r', j.1) ∧
    j.2.addr = g ∧ i.2.len = j.2.len ∧ i.2.covers g = true

instance (r : Router) (g : BitVec 32) : Decidable (NeighbourAddress r g) :=
  inferInstanceAs (Decidable (∃ i ∈ ifconfig r, ∃ r', ∃ j ∈ ifconfig r', _))

/-- **Loop-free, complete static routing.** Every packet's walk ends, passes
no router twice, and ends in a delivery by a router connected to the
network, or in a drop if there is no such network; all gateways are
neighbours. -/
theorem routing_sound :
    (∀ (a : BitVec 32) (r : Router), (∃ l e, Walk (forwardTo a) r l e) ∧
      ∀ l e, Walk (forwardTo a) r l e → l.Nodup ∧
        (∀ p ∈ subnets, p.covers a = true → forwardTo a e = .deliver ∧ Connected e p) ∧
        ((∀ p ∈ subnets, p.covers a = false) → forwardTo a e = .drop)) ∧
    ∀ (r : Router), ∀ route ∈ routeAdd r, NeighbourAddress r route.2 := by
  refine ⟨fun a r => ?_, by decide +kernel⟩
  have hcovers : ∀ p ∈ subnets, p.covers a = p.covers (area a).address := fun p hp =>
    covers_area a p (List.mem_append_right _ hp)
  rw [forwardTo_area a]
  refine ⟨exists_walk_of_rank (hopsLeft_lt (area a)) r, fun l e hl => ?_⟩
  refine ⟨hl.nodup (hopsLeft_lt (area a)), fun p hp hcov => ?_, fun hout => ?_⟩
  · rw [hcovers p hp] at hcov
    obtain ⟨hdrop, hconn⟩ := subnet_local (area a) p hp hcov e
    have hdeliver : forwardTo (area a).address e = .deliver := by
      cases h : forwardTo (area a).address e with
      | deliver => rfl
      | drop => exact absurd h hdrop
      | forward r' => exact absurd h (hl.not_forward r')
    exact ⟨hdeliver, hconn hdeliver⟩
  · have hnone := outside_local (area a) (fun p hp => by rw [← hcovers p hp]; exact hout p hp) e
    cases h : forwardTo (area a).address e with
    | deliver => exact absurd h hnone
    | drop => rfl
    | forward r' => exact absurd h (hl.not_forward r')

end Lab2

end NetSystem
