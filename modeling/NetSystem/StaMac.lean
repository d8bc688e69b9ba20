import Mathlib.Data.Nat.Log
import Mathlib.Order.Defs.LinearOrder
import NetSystem.Run
import NetSystem.StableSort

/-!
# The handoff station

`sta-wifi-mac.cc`: the station MAC with the SNR threshold, as a step
function over received frames, timer expiries and calls from above.

The state is in two layers. `Core` is what the association logic decides
on: the state, the BSSID, the candidate list, the scan and association
timers, and a trace of what the station did. `Sta` adds the beacon
watchdog, the association id and the other outputs (`side`). The
functions that only touch the core are written over it, under the source's
names.

A timer is pending or not; which of the pending ones expires next is up to
the input, as is the clock that the watchdog reads. What the frames say
about rates, ERP, QoS, HT, VHT, HE and the contention-free period goes to
the station manager, the PHY and the NAV and comes back in no decision of
this class: it is left out, except for the BSS membership selectors. An
assertion that fails is noted in `side` and execution continues, as in an
optimized build.
-/

namespace NetSystem

namespace StaMac

/-! ## Frames -/

/-- A beacon or probe response: the header fields that are read. `rates` are
the BSS membership selectors among the supported rates. -/
structure ApFrame (Ssid : Type*) where
  ssid : Ssid
  rates : List Nat
  beaconIntervalUs : Nat
  isEss : Bool
deriving DecidableEq, Repr

inductive Body (Ssid : Type*) where
  | data (isFromDs isToDs isQosData isQosAmsdu hasData : Bool)
  | probeReq
  | assocReq
  | reassocReq
  | beacon (b : ApFrame Ssid)
  | probeResp (p : ApFrame Ssid)
  | assocResp (isSuccess : Bool) (aid : Nat)
  | reassocResp (isSuccess : Bool) (aid : Nat)
  | other
deriving DecidableEq, Repr

/-- A received frame that is not a control frame, with the SNR tag of its
packet. -/
structure Frame (Addr Ssid Snr : Type*) where
  addr1 : Addr
  addr2 : Addr
  addr3 : Addr
  isCfPoll : Bool
  body : Body Ssid
  snrTag : Option Snr
deriving DecidableEq, Repr

/-! ## State -/

inductive MacState where
  | associated
  | waitProbeResp
  | waitBeacon
  | unassociated
  | waitAssocResp
  | refused
deriving DecidableEq, Repr

/-- `ApInfo`; `frame` is `m_probeResp` or `m_beacon`, as `activeProbing`
says. -/
structure ApInfo (Addr Ssid Snr : Type*) where
  bssid : Addr
  apAddr : Addr
  activeProbing : Bool
  snr : Snr
  frame : ApFrame Ssid
deriving DecidableEq, Repr

/-- What the station does that the association logic is about: management
frames it queues, the `Assoc` and `DeAssoc` traces, the link callbacks.
The last five note a call or a decision: `StartScanning`,
`UpdateCandidateApList`, a comparison with the threshold, an attempt of
`ScanningTimeout` and the address it went to, and the state `REFUSED`. -/
inductive Event (Addr Ssid Snr : Type*) where
  | probeRequest
  | assocRequest (dst : Addr) (isReassoc : Bool)
  | disassociation (dst : Addr)
  | assoc (bssid : Addr)
  | deAssoc (bssid : Addr)
  | linkUp
  | linkDown
  | scan (active : Bool)
  | report (ap : ApInfo Addr Ssid Snr)
  | compared (bssid : Addr) (ok : Bool)
  | attempt (dst : Addr)
  | refused
deriving DecidableEq, Repr

/-- The other outputs. -/
inductive Side (Addr : Type*) where
  | txDrop
  | data (addr1 dst : Addr)
  | rxDrop
  | forwardUp (src dst : Addr)
  | deaggregate
  | cfPollResponse (dst : Addr)
  | parentReceive
  | beaconArrival (now : Nat)
  | assertFailed
deriving DecidableEq, Repr

structure Core (Addr Ssid Snr : Type*) where
  state : MacState
  bssid : Addr
  candidateAps : List (ApInfo Addr Ssid Snr)
  probeRequestEvent : Bool
  waitBeaconEvent : Bool
  assocRequestEvent : Bool
  activeProbing : Bool
  trace : List (Event Addr Ssid Snr)
deriving DecidableEq, Repr

structure Sta (Addr Ssid Snr : Type*) extends Core Addr Ssid Snr where
  aid : Nat
  beaconWatchdog : Bool
  beaconWatchdogEnd : Nat
  side : List (Side Addr)
deriving DecidableEq, Repr

/-- Attributes of the station and what it asks of its surroundings:
`IsGroup`, `IsBroadcast`, the linear to dB conversion, the PHY's BSS
membership selectors, and the value of an `SnrTag` nobody filled in. -/
structure Config (Addr Ssid Snr Db : Type*) where
  address : Addr
  isGroup : Addr → Bool
  ssid : Ssid
  isBroadcast : Ssid → Bool
  snrThreshold : Db
  dB : Snr → Db
  noSnr : Snr
  selectors : List Nat
  maxMissedBeacons : Nat
  pcfSupported : Bool

variable {Addr Ssid Snr Db : Type*}

/-! ## Core -/

namespace Core

def note (s : Core Addr Ssid Snr) (e : Event Addr Ssid Snr) : Core Addr Ssid Snr :=
  { s with trace := s.trace ++ [e] }

/-- What `SetState` logs. -/
def stateEvents (value : MacState) (s : Core Addr Ssid Snr) : List (Event Addr Ssid Snr) :=
  if value = .associated ∧ s.state ≠ .associated then [.assoc s.bssid]
  else if value ≠ .associated ∧ s.state = .associated then [.deAssoc s.bssid]
  else []

def setState (value : MacState) (s : Core Addr Ssid Snr) : Core Addr Ssid Snr :=
  { s with state := value, trace := s.trace ++ s.stateEvents value }

def sendAssociationRequest (isReassoc : Bool) (s : Core Addr Ssid Snr) : Core Addr Ssid Snr :=
  { s.note (.assocRequest s.bssid isReassoc) with assocRequestEvent := true }

/-- The association-request timer is cancelled, or has just expired. -/
def stopAssocRequest (s : Core Addr Ssid Snr) : Core Addr Ssid Snr :=
  { s with assocRequestEvent := false }

def sendDisassociationMsg (s : Core Addr Ssid Snr) : Core Addr Ssid Snr :=
  s.note (.disassociation s.bssid)

def startScanning (s : Core Addr Ssid Snr) : Core Addr Ssid Snr :=
  let s := { s.note (.scan s.activeProbing) with
    candidateAps := [], probeRequestEvent := false, waitBeaconEvent := false }
  if s.activeProbing then
    { (s.setState .waitProbeResp).note .probeRequest with probeRequestEvent := true }
  else { s.setState .waitBeacon with waitBeaconEvent := true }

def tryToEnsureAssociated (s : Core Addr Ssid Snr) : Core Addr Ssid Snr :=
  match s.state with
  | .unassociated => (s.note .linkDown).startScanning
  | .associated | .waitProbeResp | .waitBeacon | .waitAssocResp | .refused => s

def updateApInfoFromBeacon (bssid : Addr) (s : Core Addr Ssid Snr) : Core Addr Ssid Snr :=
  { s with bssid := bssid }

/-- Every membership selector of the PHY has to be among the rates. -/
def updateApInfoFromProbeResp (selectors : List Nat) (p : ApFrame Ssid) (bssid : Addr)
    (s : Core Addr Ssid Snr) : Core Addr Ssid Snr :=
  if selectors.all fun x => decide (x ∈ p.rates) then { s with bssid := bssid } else s

def scanningTimeout (selectors : List Nat) (s : Core Addr Ssid Snr) : Core Addr Ssid Snr :=
  match s.candidateAps with
  | bestAp :: rest =>
      let s := { s with candidateAps := rest }
      let s :=
        if bestAp.activeProbing then
          s.updateApInfoFromProbeResp selectors bestAp.frame bestAp.bssid
        else s.updateApInfoFromBeacon bestAp.bssid
      ((s.setState .waitAssocResp).sendAssociationRequest false).note (.attempt s.bssid)
  | [] => s.startScanning

def assocRequestTimeout (s : Core Addr Ssid Snr) : Core Addr Ssid Snr :=
  (s.setState .waitAssocResp).sendAssociationRequest false

def setActiveProbing (enable : Bool) (s : Core Addr Ssid Snr) : Core Addr Ssid Snr :=
  let s := { s with activeProbing := enable }
  if s.state = .waitProbeResp ∨ s.state = .waitBeacon then s.startScanning else s

def phyCapabilitiesChanged (s : Core Addr Ssid Snr) : Core Addr Ssid Snr :=
  if s.state = .associated then (s.setState .waitAssocResp).sendAssociationRequest true else s

end Core

/-! ## The candidate list -/

section Candidates

variable [LinearOrder Snr] [LinearOrder Db]

/-- `10*log10(snr) < m_snrThreshold` -/
def weak (c : Config Addr Ssid Snr Db) (snr : Snr) : Bool := decide (c.dB snr < c.snrThreshold)

/-- Insert before the entry with lower SNR, or at the back. -/
def insertAp (ap : ApInfo Addr Ssid Snr) (l : List (ApInfo Addr Ssid Snr)) :
    List (ApInfo Addr Ssid Snr) :=
  insertBelow (·.snr) ap l

/-- The list `UpdateCandidateApList` leaves. -/
def updateList [DecidableEq Addr] (c : Config Addr Ssid Snr Db)
    (l : List (ApInfo Addr Ssid Snr)) (ap : ApInfo Addr Ssid Snr) : List (ApInfo Addr Ssid Snr) :=
  let l := l.eraseP fun x => decide (ap.bssid = x.bssid)
  if weak c ap.snr then l else insertAp ap l

def Core.updateCandidateApList [DecidableEq Addr] (c : Config Addr Ssid Snr Db)
    (ap : ApInfo Addr Ssid Snr) (s : Core Addr Ssid Snr) : Core Addr Ssid Snr :=
  { (s.note (.report ap)).note (.compared ap.bssid (!weak c ap.snr)) with
    candidateAps := updateList c s.candidateAps ap }

end Candidates

/-! ## The station -/

namespace Sta

def out (s : Sta Addr Ssid Snr) (o : Side Addr) : Sta Addr Ssid Snr :=
  { s with side := s.side ++ [o] }

/-- `NS_ASSERT` -/
def assert (b : Bool) (s : Sta Addr Ssid Snr) : Sta Addr Ssid Snr :=
  if b then s else s.out .assertFailed

def onCore (f : Core Addr Ssid Snr → Core Addr Ssid Snr) (s : Sta Addr Ssid Snr) :
    Sta Addr Ssid Snr :=
  { s with toCore := f s.toCore }

/-- An expired watchdog has no delay left. -/
def restartBeaconWatchdog (now delay : Nat) (s : Sta Addr Ssid Snr) : Sta Addr Ssid Snr :=
  let s := { s with beaconWatchdogEnd := max (now + delay) s.beaconWatchdogEnd }
  if 0 < delay ∧ s.beaconWatchdog = false then { s with beaconWatchdog := true } else s

def missedBeacons (now : Nat) (s : Sta Addr Ssid Snr) : Sta Addr Ssid Snr :=
  if now < s.beaconWatchdogEnd then { s with beaconWatchdog := true }
  else s.onCore fun k => (k.setState .unassociated).tryToEnsureAssociated

def enqueue (dst : Addr) (s : Sta Addr Ssid Snr) : Sta Addr Ssid Snr :=
  if s.state = .associated then s.out (.data s.bssid dst)
  else (s.out .txDrop).onCore Core.tryToEnsureAssociated

/-- `ScanningTimeout`; the watchdog is restarted for the AP it picks. -/
def scanningTimeout (c : Config Addr Ssid Snr Db) (now : Nat) (s : Sta Addr Ssid Snr) :
    Sta Addr Ssid Snr :=
  let s' := match s.candidateAps with
    | bestAp :: _ =>
        s.restartBeaconWatchdog now (bestAp.frame.beaconIntervalUs * c.maxMissedBeacons)
    | [] => s
  s'.onCore (Core.scanningTimeout c.selectors)

variable [DecidableEq Addr] [DecidableEq Ssid] [LinearOrder Snr] [LinearOrder Db]

def goodBeacon (c : Config Addr Ssid Snr Db) (s : Sta Addr Ssid Snr) (addr3 : Addr)
    (b : ApFrame Ssid) : Bool :=
  let good := c.isBroadcast c.ssid || decide (b.ssid = c.ssid)
  let good :=
    if c.selectors ≠ [] ∧ ¬ c.selectors.any fun x => decide (x ∈ b.rates) then false else good
  if (s.state = .waitAssocResp ∨ s.state = .associated) ∧ addr3 ≠ s.bssid then false else good

/-- A good beacon while associated: compare, and either disconnect or stay.
The tag is gone from the copy afterwards. -/
def associatedBeacon (c : Config Addr Ssid Snr Db) (now : Nat) (f : Frame Addr Ssid Snr)
    (b : ApFrame Ssid) (s : Sta Addr Ssid Snr) : Sta Addr Ssid Snr :=
  let snr := f.snrTag.getD c.noSnr
  let s := s.onCore (·.note (.compared f.addr3 (!weak c snr)))
  if weak c snr then
    s.onCore fun k => (k.sendDisassociationMsg.setState .unassociated).tryToEnsureAssociated
  else
    let s := ((s.assert f.snrTag.isSome).out (.beaconArrival now)).restartBeaconWatchdog now
      (b.beaconIntervalUs * c.maxMissedBeacons)
    s.onCore (Core.updateApInfoFromBeacon f.addr3)

/-- Report an AP to the candidate list, with what is left of the tag. -/
def reportAp (c : Config Addr Ssid Snr Db) (f : Frame Addr Ssid Snr) (activeProbing : Bool)
    (tag : Option Snr) (frame : ApFrame Ssid) (s : Sta Addr Ssid Snr) : Sta Addr Ssid Snr :=
  (s.assert tag.isSome).onCore
    (Core.updateCandidateApList c ⟨f.addr3, f.addr2, activeProbing, tag.getD c.noSnr, frame⟩)

/-- The state is read again after the first block: a passive rescan started
there is waiting for beacons by then. -/
def receiveBeacon (c : Config Addr Ssid Snr Db) (now : Nat) (f : Frame Addr Ssid Snr)
    (b : ApFrame Ssid) (s : Sta Addr Ssid Snr) : Sta Addr Ssid Snr :=
  let s := s.assert b.isEss
  let good := goodBeacon c s f.addr3 b
  let first := good && decide (s.state = .associated)
  let s := if first then s.associatedBeacon c now f b else s
  if good && decide (s.state = .waitBeacon) then
    s.reportAp c f false (if first then none else f.snrTag) b
  else s

def receiveProbeResp (c : Config Addr Ssid Snr Db) (f : Frame Addr Ssid Snr)
    (p : ApFrame Ssid) (s : Sta Addr Ssid Snr) : Sta Addr Ssid Snr :=
  if s.state = .waitProbeResp ∧ p.ssid = c.ssid then s.reportAp c f true f.snrTag p else s

def receiveAssocResp (c : Config Addr Ssid Snr Db) (now : Nat) (isSuccess : Bool) (aid : Nat)
    (s : Sta Addr Ssid Snr) : Sta Addr Ssid Snr :=
  if s.state = .waitAssocResp then
    let s := s.onCore Core.stopAssocRequest
    if isSuccess then
      { s.onCore (fun k => (k.setState .associated).note .linkUp) with aid := aid }
    else if s.candidateAps.isEmpty then
      s.onCore fun k => (k.setState .refused).note .refused
    else s.scanningTimeout c now
  else s

def receiveData (f : Frame Addr Ssid Snr) (isFromDs isToDs isQosData isQosAmsdu hasData : Bool)
    (s : Sta Addr Ssid Snr) : Sta Addr Ssid Snr :=
  if s.state ≠ .associated then s.out .rxDrop
  else if ¬ (isFromDs ∧ ¬ isToDs) then s.out .rxDrop
  else if f.addr2 ≠ s.bssid then s.out .rxDrop
  else if isQosData then
    if isQosAmsdu then (s.assert (decide (f.addr3 = s.bssid))).out .deaggregate
    else s.out (.forwardUp f.addr3 f.addr1)
  else if hasData then s.out (.forwardUp f.addr3 f.addr1)
  else s

def receive (c : Config Addr Ssid Snr Db) (now : Nat) (f : Frame Addr Ssid Snr)
    (s : Sta Addr Ssid Snr) : Sta Addr Ssid Snr :=
  if f.addr3 = c.address then s
  else if f.addr1 ≠ c.address ∧ ¬ c.isGroup f.addr1 then s.out .rxDrop
  else
    let s :=
      if f.addr1 = c.address ∧ f.addr2 = s.bssid ∧ f.isCfPoll then
        (s.assert c.pcfSupported).out (.cfPollResponse s.bssid)
      else s
    match f.body with
    | .data isFromDs isToDs isQosData isQosAmsdu hasData =>
        s.receiveData f isFromDs isToDs isQosData isQosAmsdu hasData
    | .probeReq | .assocReq | .reassocReq => s.out .rxDrop
    | .beacon b => s.receiveBeacon c now f b
    | .probeResp p => s.receiveProbeResp c f p
    | .assocResp isSuccess aid => s.receiveAssocResp c now isSuccess aid
    | .reassocResp isSuccess aid => s.receiveAssocResp c now isSuccess aid
    | .other => s.out .parentReceive

end Sta

/-! ## Runs -/

inductive Input (Addr Ssid Snr : Type*) where
  | receive (now : Nat) (f : Frame Addr Ssid Snr)
  | probeRequestTimer (now : Nat)
  | waitBeaconTimer (now : Nat)
  | assocRequestTimer
  | beaconWatchdog (now : Nat)
  | enqueue (dst : Addr)
  | setActiveProbing (enable : Bool)
  | phyCapabilitiesChanged
deriving DecidableEq, Repr

variable [DecidableEq Addr] [DecidableEq Ssid] [LinearOrder Snr] [LinearOrder Db]

/-- One input. Only a pending timer can expire, and it is not pending any
more while its handler runs. -/
def step (c : Config Addr Ssid Snr Db) (s : Sta Addr Ssid Snr) :
    Input Addr Ssid Snr → Option (Sta Addr Ssid Snr)
  | .receive now f => some (s.receive c now f)
  | .probeRequestTimer now =>
      if s.probeRequestEvent then
        some ((s.onCore fun k => { k with probeRequestEvent := false }).scanningTimeout c now)
      else none
  | .waitBeaconTimer now =>
      if s.waitBeaconEvent then
        some ((s.onCore fun k => { k with waitBeaconEvent := false }).scanningTimeout c now)
      else none
  | .assocRequestTimer =>
      if s.assocRequestEvent then
        some (s.onCore fun k => k.stopAssocRequest.assocRequestTimeout)
      else none
  | .beaconWatchdog now =>
      if s.beaconWatchdog then some (Sta.missedBeacons now { s with beaconWatchdog := false })
      else none
  | .enqueue dst => some (s.enqueue dst)
  | .setActiveProbing enable => some (s.onCore (Core.setActiveProbing enable))
  | .phyCapabilitiesChanged => some (s.onCore Core.phyCapabilitiesChanged)

/-- A new station, after `DoInitialize`. -/
def init (bssid : Addr) (activeProbing : Bool) : Sta Addr Ssid Snr where
  toCore := Core.startScanning ⟨.unassociated, bssid, [], false, false, false, activeProbing, []⟩
  aid := 0
  beaconWatchdog := false
  beaconWatchdogEnd := 0
  side := []

/-! ## A lab station -/

/-- Station 7 with the threshold at 20 dB; the conversion is exact at powers
of ten. -/
def labConfig : Config Nat Nat Nat Nat where
  address := 7
  isGroup := fun a => a = 0
  ssid := 1
  isBroadcast := fun x => x = 0
  snrThreshold := 20
  dB := fun snr => 10 * Nat.log 10 snr
  noSnr := 0
  selectors := []
  maxMissedBeacons := 10
  pcfSupported := false

/-- A probe response of the AP to station 7. -/
def labProbeResp (ap snr : Nat) : Frame Nat Nat Nat :=
  ⟨7, ap, ap, false, .probeResp ⟨1, [], 102400, true⟩, some snr⟩

def labAssocResp (ap : Nat) (isSuccess : Bool) : Frame Nat Nat Nat :=
  ⟨7, ap, ap, false, .assocResp isSuccess 1, none⟩

end StaMac

end NetSystem
