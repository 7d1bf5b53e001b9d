import CourtKernel.Hosted.Registry

/-!
# The hosted Root Court

Reference model of `HostedRoot` of `crates/court-hosted/src/lib.rs`.  Every public method is a
function from the state and the arguments to the result and the next state; a method that fails
returns the state it leaves behind, so that events recorded on error paths are kept.

* `Corridor`, `Namespace` — the two passive tables.
* `permit` — the checks `send` and `recv` share: the court runs, its capability space holds the
  capability, and the registry authorizes the right on a corridor.
* `HostedRoot.call` — the nine public methods as calls of one machine (`HostedRoot.machine`).
-/

namespace CourtKernel

structure Corridor where
  endpoints : CourtId × CourtId
  queue : List Payload
  capacity : Nat
  deriving DecidableEq

namespace Corridor

def new (endpoints : CourtId × CourtId) (capacity : Nat) : Corridor := ⟨endpoints, [], capacity⟩

/-- Some endpoint other than the caller is missing or not running. -/
def hasPeerDown (self : Corridor) (caller : CourtId) (courts : HashMap CourtId Court) : Bool :=
  ([self.endpoints.1, self.endpoints.2].filter fun court => court != caller).any fun court =>
    match courts.lookup court with
    | none => true
    | some court => court.state != .running

end Corridor

structure Namespace where
  entries : HashMap String Descriptor
  deriving DecidableEq

namespace Namespace

def bind (self : Namespace) (path : String) (descriptor : Descriptor) : Namespace :=
  ⟨self.entries.insert path descriptor⟩

def lookup (self : Namespace) (path : String) : Option Descriptor := self.entries.lookup path

end Namespace

structure HostedRoot where
  nextCourt : Nat
  nextObject : Nat
  courts : HashMap CourtId Court
  cspaces : HashMap CourtId (Finset CapId)
  capRegistry : CapRegistry
  nameSpace : Namespace
  corridors : HashMap ObjectId Corridor
  rootCaps : HashMap ObjectId CapId
  trace : List TraceEvent
  deriving DecidableEq

namespace HostedRoot

def new : HostedRoot := ⟨0, 0, ∅, ∅, .new, ⟨∅⟩, ∅, ∅, []⟩

/-- `self.trace.push(event)` -/
def push (self : HostedRoot) (event : TraceEvent) : HostedRoot :=
  { self with trace := self.trace ++ [event] }

def requireRunningCourt (self : HostedRoot) (court : CourtId) : CkResult Unit :=
  match self.courts.lookup court with
  | none => .error .invalidState
  | some court => if court.state != .running then .error .invalidState else .ok ()

def cspaceContains (self : HostedRoot) (court : CourtId) (cap : CapId) : Bool :=
  match self.cspaces.lookup court with
  | none => false
  | some cspace => decide (cap ∈ cspace)

def createCourt (self : HostedRoot) (name : String) : CourtId × HostedRoot :=
  let court : CourtId := ⟨self.nextCourt + 1⟩
  let self := { self with
    nextCourt := self.nextCourt + 1
    courts := self.courts.insert court ⟨court, name, .running⟩
    cspaces := self.cspaces.insert court ∅ }
  (court, self.push (.courtCreated court name))

/-- The rights of the root capability of a corridor. -/
def rootRights : Rights := .SEND ||| .RECV ||| .OBSERVE ||| .DELEGATE ||| .REVOKE

def createCorridor (self : HostedRoot) (path : String) (first second : CourtId)
    (transport : CorridorTransport) (capacity : Nat) : CkResult ObjectId × HostedRoot :=
  match self.requireRunningCourt first with
  | .error e => (.error e, self)
  | .ok () =>
    match self.requireRunningCourt second with
    | .error e => (.error e, self)
    | .ok () =>
      let object : ObjectId := ⟨self.nextObject + 1⟩
      let (rootCap, capRegistry) := self.capRegistry.mintRoot object .corridor rootRights
      let self := { self with
        nextObject := self.nextObject + 1
        corridors := self.corridors.insert object (.new (first, second) capacity)
        capRegistry := capRegistry
        rootCaps := self.rootCaps.insert object rootCap
        nameSpace := self.nameSpace.bind path ⟨path, object, .corridor, transport⟩ }
      (.ok object, self.push (.corridorCreated path object transport))

def lookup (self : HostedRoot) (court : CourtId) (path : String) :
    CkResult Descriptor × HostedRoot :=
  match self.requireRunningCourt court with
  | .error e => (.error e, self)
  | .ok () =>
    let descriptor := self.nameSpace.lookup path
    let self := self.push (.namespaceLookup court path descriptor.isSome)
    match descriptor with
    | none => (.error .notFound, self)
    | some descriptor => (.ok descriptor, self)

def grantCorridorCap (self : HostedRoot) (court : CourtId) (descriptor : Descriptor)
    (rights : Rights) : CkResult CapId × HostedRoot :=
  match self.requireRunningCourt court with
  | .error e => (.error e, self)
  | .ok () =>
    if descriptor.objectType != .corridor then (.error .invalidObject, self) else
    match self.rootCaps.lookup descriptor.object with
    | none => (.error .invalidObject, self)
    | some rootCap =>
      match self.capRegistry.delegate rootCap rights with
      | (.error e, capRegistry) => (.error e, { self with capRegistry := capRegistry })
      | (.ok cap, capRegistry) =>
        -- `self.cspaces.entry(court).or_default().insert(cap)`
        let cspace := insert cap ((self.cspaces.lookup court).getD ∅)
        let self := { self with
          capRegistry := capRegistry
          cspaces := self.cspaces.insert court cspace }
        (.ok cap, self.push (.capGranted court cap descriptor.object rights))

def «open» (self : HostedRoot) (court : CourtId) (descriptor : Descriptor) (cap : Option CapId)
    (requestedRights : Rights) : CkResult CapId × HostedRoot :=
  let denied (reason : CkError) : CkResult CapId × HostedRoot :=
    (.error reason, self.push (.openDenied court descriptor.path reason))
  match self.requireRunningCourt court with
  | .error e => (.error e, self)
  | .ok () =>
    match cap with
    | none => denied .noRight
    | some cap =>
      if !self.cspaceContains court cap then denied .badCap else
      match self.capRegistry.authorize cap descriptor.objectType requestedRights with
      | .ok object =>
        if object == descriptor.object then
          (.ok cap, self.push (.opened court descriptor.path cap requestedRights))
        else denied .invalidObject
      | .error reason => denied reason

/-- The checks at the head of `send` and `recv`. -/
def permit (self : HostedRoot) (court : CourtId) (cap : CapId) (right : Rights) :
    CkResult ObjectId :=
  match self.requireRunningCourt court with
  | .error e => .error e
  | .ok () =>
    if !self.cspaceContains court cap then .error .badCap
    else self.capRegistry.authorize cap .corridor right

def send (self : HostedRoot) (court : CourtId) (cap : CapId) (payload : Payload) :
    CkResult Unit × HostedRoot :=
  match self.permit court cap .SEND with
  | .error e => (.error e, self)
  | .ok object =>
    match self.corridors.lookup object with
    | none => (.error .invalidObject, self)
    | some corridor =>
      if corridor.hasPeerDown court self.courts then
        (.error .peerDown, self.push (.peerDown court object))
      else if corridor.queue.length ≥ corridor.capacity then (.error .queueFull, self)
      else
        let corridor := { corridor with queue := corridor.queue ++ [payload] }
        let self := { self with corridors := self.corridors.insert object corridor }
        (.ok (), self.push (.sent court object payload.length))

def recv (self : HostedRoot) (court : CourtId) (cap : CapId) : CkResult Payload × HostedRoot :=
  match self.permit court cap .RECV with
  | .error e => (.error e, self)
  | .ok object =>
    match self.corridors.lookup object with
    | none => (.error .invalidObject, self)
    | some corridor =>
      match corridor.queue with
      | [] => (.error .queueEmpty, self)
      | payload :: rest =>
        let self := { self with
          corridors := self.corridors.insert object { corridor with queue := rest } }
        (.ok payload, self.push (.received court object payload.length))

def revoke (self : HostedRoot) (cap : CapId) : CkResult Unit × HostedRoot :=
  match self.capRegistry.revoke cap with
  | (.error e, capRegistry) => (.error e, { self with capRegistry := capRegistry })
  | (.ok (), capRegistry) => (.ok (), { self with capRegistry := capRegistry }.push (.capRevoked cap))

def faultCourt (self : HostedRoot) (court : CourtId) : CkResult Unit × HostedRoot :=
  match self.courts.lookup court with
  | none => (.error .invalidState, self)
  | some courtState =>
    let self := { self with
      courts := self.courts.insert court { courtState with state := .faulted } }
    (.ok (), self.push (.courtFaulted court))

def capParent (self : HostedRoot) (cap : CapId) : Option CapId := self.capRegistry.parentOf cap

/-! ## The public methods as calls -/

inductive Call where
  | createCourt (name : String)
  | createCorridor (path : String) (first second : CourtId) (transport : CorridorTransport)
      (capacity : Nat)
  | lookup (court : CourtId) (path : String)
  | grantCorridorCap (court : CourtId) (descriptor : Descriptor) (rights : Rights)
  | «open» (court : CourtId) (descriptor : Descriptor) (cap : Option CapId) (rights : Rights)
  | send (court : CourtId) (cap : CapId) (payload : Payload)
  | recv (court : CourtId) (cap : CapId)
  | revoke (cap : CapId)
  | faultCourt (court : CourtId)
  deriving DecidableEq

/-- What a call returns, by result type. -/
inductive Reply where
  | court (court : CourtId)
  | object (result : CkResult ObjectId)
  | descriptor (result : CkResult Descriptor)
  | cap (result : CkResult CapId)
  | unit (result : CkResult Unit)
  | payload (result : CkResult Payload)
  deriving DecidableEq

def call (self : HostedRoot) : Call → Reply × HostedRoot
  | .createCourt name => let r := self.createCourt name; (.court r.1, r.2)
  | .createCorridor path first second transport capacity =>
    let r := self.createCorridor path first second transport capacity; (.object r.1, r.2)
  | .lookup court path => let r := self.lookup court path; (.descriptor r.1, r.2)
  | .grantCorridorCap court descriptor rights =>
    let r := self.grantCorridorCap court descriptor rights; (.cap r.1, r.2)
  | .open court descriptor cap rights =>
    let r := self.open court descriptor cap rights; (.cap r.1, r.2)
  | .send court cap payload => let r := self.send court cap payload; (.unit r.1, r.2)
  | .recv court cap => let r := self.recv court cap; (.payload r.1, r.2)
  | .revoke cap => let r := self.revoke cap; (.unit r.1, r.2)
  | .faultCourt court => let r := self.faultCourt court; (.unit r.1, r.2)

/-- The hosted Root Court as a machine over its public interface. -/
def machine : Machine HostedRoot Call Reply := ⟨new, call⟩

/-- The state after a sequence of public calls on a fresh root. -/
abbrev after (cs : List Call) : HostedRoot := machine.run new cs

/-- The calls of a run with their results. -/
abbrev history (cs : List Call) : List (Call × Reply) := machine.log new cs

/-! ## The fixture of the source's tests -/

def PACKET_RX : String := "/court/net0/packet/rx"

/-- The descriptor that `lookup` returns for `PACKET_RX` in the fixture. -/
def packetRx : Descriptor := ⟨PACKET_RX, ⟨1⟩, .corridor, .sharedRing⟩

/-- `root_with_app_and_net`: court 1 is `app`, court 2 is `net`, and corridor 1 joins them. -/
def rootWithAppAndNet : List Call :=
  [.createCourt "app", .createCourt "net", .createCorridor PACKET_RX ⟨1⟩ ⟨2⟩ .sharedRing 4,
    .lookup ⟨1⟩ PACKET_RX]

/-- The fixture with both grants of `granted_cap_allows_shared_ring_send_recv`: capability 2 lets
`app` send and capability 3 lets `net` receive. -/
def grantedAppAndNet : List Call :=
  rootWithAppAndNet ++ [.grantCorridorCap ⟨1⟩ packetRx (.SEND ||| .OBSERVE),
    .grantCorridorCap ⟨2⟩ packetRx (.RECV ||| .OBSERVE)]

end HostedRoot

end CourtKernel
