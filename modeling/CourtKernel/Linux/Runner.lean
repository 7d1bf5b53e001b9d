import CourtKernel.Linux.Plan
import CourtKernel.Linux.Ring
import Mathlib.Data.List.DropRight
import Mathlib.Data.Prod.Lex
import Mathlib.Data.String.Basic

/-!
# The root runner

Reference model of `crates/court-hosted-linux/src/root.rs` with its messages: the runner builds the
tables, starts the courts, waits for their connections, answers them, and carries out the policy.

* `Host` — everything the runner meets outside: the lines that the peers write on their connections,
  which operations fail, how processes exit, and the order of the hash tables.  Nothing is assumed
  about it.  In particular the peers may write whatever they like, whenever they like.
* `Runner` — the runner's tables, the ring files, the connections, and a record `wire` of all
  messages.  A message that was sent is recorded with the object model at that moment.
* `runManifestDemo` — the whole run, from the validator to the exit of the courts.  `untilExit` is the
  part of it with all the messages, and `connect`, `carryOutGrants`, `awaitTraces` are parts of that.

An operation outside that fails ends the run with its error text, as `?` does.  A run that waits for
a connection that never comes ends with `WAITING`, which is not a text of the source.  Which program
is started for a court is left out.
-/

namespace CourtKernel

/-! ## Ring files -/

/-- Name of the ring file of a corridor. -/
def ringFileName (path : String) : String :=
  let parts := (path.toList.splitOn '/').filter fun part => !part.isEmpty
  let stem :=
    if h : parts.length ≥ 2 then
      parts[parts.length - 2] ++ '-' :: parts[parts.length - 1]
    else
      -- `trim_matches('/')`, then `replace('/', "-")`
      ((path.toList.dropWhile (· == '/')).rdropWhile (· == '/')).map fun c =>
        if c = '/' then '-' else c
  String.ofList stem ++ ".ring"

/-- `Path::join` of a directory and a file name. -/
def joinPath (dir name : String) : String :=
  if dir.toList.getLast? = none ∨ dir.toList.getLast? = some '/' then dir ++ name
  else dir ++ "/" ++ name

/-- What a court is told about the ring of a corridor. -/
def CorridorManifest.ringInfo (self : CorridorManifest) (runDir : String) : WireRingInfo :=
  ⟨joinPath runDir (ringFileName self.path), self.capacity, self.slotSize⟩

/-! ## The runner and its surroundings -/

structure RootConfig where
  runDir : String
  manifest : ManifestFile
  policy : PolicyFile

/-- A line read from a connection: a message, or why there is none. -/
abbrev Line := Except String WireMessage

/-- A connection, by its number. -/
structure JsonLinePeer where
  id : Nat
  deriving DecidableEq

/-- A process started for a court. -/
structure Child where
  role : String
  court : String
  deriving DecidableEq

/-- How a process ended, with its `Display` text. -/
structure ExitStatus where
  code : Option Int
  text : String

structure Host where
  /-- The lines that the peer writes on each connection. -/
  lines : JsonLinePeer → List Line
  /-- How many connections come in. -/
  arrivals : Nat
  /-- The error of each operation outside, counted from the start, if it fails. -/
  failure : Nat → Option String
  exitStatus : String → ExitStatus
  /-- The `Debug` text of a message. -/
  debug : WireMessage → String
  courtOrder : HashMap.Order String CourtId
  roleOrder : HashMap.Order String CourtRole
  capOrder : HashMap.Order (String × String) (CapId × Rights)
  childOrder : HashMap.Order String Child

/-- A host where nothing fails, tables are walked by their keys, and the connections write these
messages. -/
def Host.scripted (scripts : List (List WireMessage)) (exitStatus : String → ExitStatus) : Host where
  lines peer := (scripts.getD peer.id []).map .ok
  arrivals := scripts.length
  failure _ := none
  exitStatus := exitStatus
  debug := reprStr
  courtOrder := .sorted id Function.injective_id
  roleOrder := .sorted id Function.injective_id
  capOrder := .sorted toLex toLex.injective
  childOrder := .sorted id Function.injective_id

/-- A message on a connection. -/
inductive WireEvent where
  | received (peer : JsonLinePeer) (message : WireMessage)
  /-- `root` is the object model at that moment. -/
  | sent (peer : JsonLinePeer) (message : WireMessage) (root : HostedRoot)

structure Runner where
  state : RootState
  /-- The ring files, by path. -/
  files : HashMap String SharedRing
  peers : HashMap String JsonLinePeer
  /-- The lines that were not read yet. -/
  unread : JsonLinePeer → List Line
  /-- The number of operations outside so far. -/
  clock : Nat
  wire : List WireEvent

/-- The end of a run that waits for a connection. -/
def WAITING : String := "waiting for a connection"

namespace Runner

variable (host : Host)

/-- Before the run. -/
def new (policy : PolicyFile) (files : HashMap String SharedRing) : Runner :=
  ⟨.new policy, files, ∅, host.lines, 0, []⟩

/-! ## Operations outside -/

/-- An operation outside, which may fail. -/
def io : Prog Runner Unit := do
  let runner ← get
  set { runner with clock := runner.clock + 1 }
  match host.failure runner.clock with
  | none => pure ()
  | some e => throw e

/-- A program on the tables. -/
def onState {α : Type} (x : Prog RootState α) : Prog Runner α :=
  zoom Runner.state (fun runner state => { runner with state := state }) x

/-- `TraceSink::record` -/
def record (event : WireTrace) : Prog Runner Unit := do
  onState (modify fun state => { state with trace := state.trace ++ [event] })
  io host

/-- `JsonLinePeer::send`.  A message counts as sent also if the operation fails. -/
def send (peer : JsonLinePeer) (message : WireMessage) : Prog Runner Unit := do
  modify fun runner =>
    { runner with wire := runner.wire ++ [.sent peer message runner.state.root] }
  io host

/-- `JsonLinePeer::recv` -/
def recv (peer : JsonLinePeer) : Prog Runner WireMessage := do
  let runner ← get
  match runner.unread peer with
  | [] => throw "control channel closed"
  | .error e :: _ => throw e
  | .ok message :: rest =>
    modify fun runner => { runner with
      unread := Function.update runner.unread peer rest
      wire := runner.wire ++ [.received peer message] }
    return message

/-- `peers.get_mut(court)` -/
def getPeer (court message : String) : Prog Runner JsonLinePeer := do
  let runner ← get
  expect (runner.peers.lookup court) message

/-- `SharedRing::create`: an existing file is truncated before the new ring is written. -/
def createRing (path : String) (capacity slotSize : UInt32) : Prog Runner Unit := do
  let ring ← ofExcept (SharedRing.create capacity slotSize)
  io host
  modify fun runner => { runner with files := runner.files.erase path }
  io host
  modify fun runner => { runner with files := runner.files.insert path ring }

/-! ## Building -/

/-- One turn of the loop over `manifest.corridors` in `build_state`. -/
def buildCorridor (runDir : String) (corridor : CorridorManifest) : Prog Runner Unit := do
  onState (RootState.createCorridor corridor)
  let info := corridor.ringInfo runDir
  createRing host info.path corridor.capacity corridor.slotSize
  onState (modify fun state =>
    { state with ringInfo := state.ringInfo.insert corridor.path info })

def buildState (config : RootConfig) : Prog Runner Unit := do
  forM config.manifest.courts fun court => onState (RootState.createCourt court)
  forM config.manifest.corridors (buildCorridor host config.runDir)
  let first ← expect config.manifest.corridors.head? "manifest must define at least one corridor"
  onState (modify fun state =>
    { state with demo := ⟨first.path, config.manifest.demo.packetPayload⟩ })
  -- `TraceSink::new`
  io host

/-! ## Courts and connections -/

def courtRole (court : String) : Prog Runner String := do
  let runner ← get
  expect ((runner.state.courtRoles.lookup court).map CourtRole.asProcessRole)
    s!"unknown court {court}"

def spawnCourt (role court : String) : Prog Runner Child := do
  if role = "app" ∨ role = "net" then
    io host
    return ⟨role, court⟩
  else throw s!"unknown court role {role}"

def spawnCourts : Prog Runner (HashMap String Child) := do
  let runner ← get
  (host.courtOrder.entries runner.state.courtIds).foldlM (fun children entry => do
    let role ← courtRole entry.1
    let child ← spawnCourt host role entry.1
    return children.insert entry.1 child) ∅

/-- The hello of a new connection. -/
def acceptPeer (demo : WireDemoConfig) (peer : JsonLinePeer) : Prog Runner Unit := do
  -- `accept` and `JsonLinePeer::new`
  io host
  io host
  match ← recv peer with
  | .hello court =>
    send host peer (.helloAck .ok court demo)
    modify fun runner => { runner with peers := runner.peers.insert court peer }
  | other => throw s!"expected hello, got {host.debug other}"

/-- The loop of `accept_peers`, over the connections that are still to come. -/
def acceptPeers (count : Nat) (demo : WireDemoConfig) : List JsonLinePeer → Prog Runner Unit
  | [] => do
    let runner ← get
    if runner.peers.keys.card < count then throw WAITING else pure ()
  | peer :: rest => do
    let runner ← get
    if runner.peers.keys.card < count then
      acceptPeer host demo peer
      acceptPeers count demo rest
    else pure ()

/-- All connections, in the order in which they come. -/
def connections : List JsonLinePeer := (List.range host.arrivals).map JsonLinePeer.mk

/-! ## Answers -/

/-- `HostedRoot::open`, with its result as a status. -/
def openStatus (courtId : CourtId) (descriptor : Descriptor) (cap : Option CapId)
    (rights : Rights) : Prog RootState WireStatus := do
  let state ← get
  let (result, root) := state.root.open courtId descriptor cap rights
  set { state with root := root }
  match result with
  | .ok _ => return .ok
  | .error error => return .from error

/-- The first match of `handle_app_lookup_and_denied_open`. -/
def handleAppLookup (app : JsonLinePeer) (appName : String) : Prog Runner Unit := do
  let message ← recv app
  let state := (← get).state
  match message with
  | .lookup path =>
    if path = state.demo.path then
      let appId ← expect (state.courtIds.lookup appName) s!"unknown app court {appName}"
      let descriptor ← onState (RootState.callRoot (·.lookup appId path))
      record host ((WireTrace.new "lookup" appName .ok).withPath path)
      send host app (.lookupResult .ok (some (.fromDescriptor descriptor)))
    else throw s!"expected app lookup, got {host.debug message}"
  | other => throw s!"expected app lookup, got {host.debug other}"

/-- The second match of `handle_app_lookup_and_denied_open`. -/
def handleDeniedOpen (app : JsonLinePeer) (appName : String) : Prog Runner Unit := do
  let message ← recv app
  let state := (← get).state
  match message with
  | .open path none rights =>
    if path = state.demo.path ∧ rights.toRights.contains .SEND = true then
      let appId ← expect (state.courtIds.lookup appName) s!"unknown app court {appName}"
      let descriptor ← expect (state.descriptors.lookup path) s!"unknown descriptor {path}"
      let status ← onState (openStatus appId descriptor none .SEND)
      record host ((WireTrace.new "open_denied" appName status).withPath path)
      send host app (.openResult status none none)
    else throw s!"expected app unauthorized open, got {host.debug message}"
  | other => throw s!"expected app unauthorized open, got {host.debug other}"

def handleAppLookupAndDeniedOpen (app : JsonLinePeer) (appName : String) : Prog Runner Unit := do
  handleAppLookup host app appName
  handleDeniedOpen host app appName

def wireCap (cap : CapId) (rights : Rights) : WireCap := ⟨.ofNat cap.raw, .fromRights rights⟩

/-- The answer to an open with a capability that the runner knows. -/
def answerOpen (peer : JsonLinePeer) (court path : String) (courtId : CourtId)
    (descriptor : Descriptor) (requestCap : WireCap) (coreCap : CapId)
    (requestRights : WireRights) : Prog Runner Unit := do
  let status ← onState (openStatus courtId descriptor (some coreCap) requestRights.toRights)
  record host ((WireTrace.new "open" court status).withPath path)
  if status = .ok then
    let runner ← get
    let ring ← expect (runner.state.ringInfo.lookup path) s!"missing ring info for {path}"
    send host peer (.openResult status (some requestCap) (some ring))
  else
    send host peer (.openResult status none none)
    throw s!"{court} open failed: {status.debug}"

/-- The match of `handle_grant_and_open`. -/
def handleOpen (peer : JsonLinePeer) (court path : String) (courtId : CourtId)
    (descriptor : Descriptor) : Prog Runner Unit := do
  let message ← recv peer
  let state := (← get).state
  match message with
  | .open requestPath (some requestCap) requestRights =>
    if requestPath = path then
      match state.capsById.lookup requestCap.id.toNat with
      | some coreCap =>
        answerOpen host peer court path courtId descriptor requestCap coreCap requestRights
      | none =>
        send host peer (.openResult .badCap none none)
        throw "client opened with unknown cap"
    else throw s!"expected {court} open, got {host.debug message}"
  | other => throw s!"expected {court} open, got {host.debug other}"

def handleGrantAndOpen (peer : JsonLinePeer) (court path : String) (rights : Rights) :
    Prog Runner CapId := do
  let (courtId, descriptor, cap) ← onState (RootState.grantCap court path rights)
  record host (((WireTrace.new "grant" "root" .ok).withPath path).withDetail s!"{court}:{cap.raw}")
  send host peer (.grant path (wireCap cap rights))
  handleOpen host peer court path courtId descriptor
  return cap

def recordTraceFrom (peer : JsonLinePeer) (label : String) : Prog Runner Unit := do
  match ← recv peer with
  | .trace event => record host event
  | other => throw s!"expected {label} trace, got {host.debug other}"

/-! ## Carrying out the policy -/

def runRevoke (revoke : RevokePolicy) : Prog Runner Unit := do
  let (cap, rights) ← onState (RootState.revokeCap revoke)
  record host ((WireTrace.new "revoke" "root" .ok).withPath revoke.path)
  let peer ← getPeer revoke.court s!"court {revoke.court} did not connect to root"
  send host peer (.revoke (wireCap cap rights))
  recordTraceFrom host peer "revoke"

def runRevokes : Prog Runner Unit := do
  let runner ← get
  forM runner.state.policy.revokes (runRevoke host)

def expectChildExit (child : Child) (expected : Int) (name : String) : Prog Runner Unit := do
  io host
  let status := host.exitStatus child.court
  if status.code = some expected then pure ()
  else throw s!"{name} exited with {status.text}, expected {expected}"

def expectChildSuccess (child : Child) (name : String) : Prog Runner Unit := do
  io host
  let status := host.exitStatus child.court
  if status.code = some 0 then pure () else throw s!"{name} exited with {status.text}"

def runFault (children : HashMap String Child) (fault : FaultPolicy) : Prog Runner Unit := do
  let peer ← getPeer fault.court s!"court {fault.court} did not connect to root"
  send host peer (.fault fault.reason)
  recordTraceFrom host peer "fault"
  let child ← expect (children.lookup fault.court) s!"missing child for {fault.court}"
  expectChildExit host child 42 fault.court
  modify fun runner => { runner with peers := runner.peers.erase fault.court }
  onState (RootState.faultCourt fault)
  let runner ← get
  record host ((WireTrace.new "court_fault" "root" .fault).withPath runner.state.demo.path)

def runFaults (children : HashMap String Child) : Prog Runner Unit := do
  let runner ← get
  forM runner.state.policy.faults (runFault host children)

def runPeerDownOf (peerDown : PeerDownPolicy) : Prog Runner Unit := do
  let peer ← getPeer peerDown.court s!"court {peerDown.court} did not connect to root"
  send host peer (.peerDown peerDown.path)
  record host ((WireTrace.new "peer_down" "root" .peerDown).withPath peerDown.path)
  recordTraceFrom host peer "peer_down"
  let message ← recv peer
  match message with
  | .demoDone court .ok =>
    if court = peerDown.court then record host (WireTrace.new "demo_done" court .ok)
    else throw s!"expected DemoDone, got {host.debug message}"
  | other => throw s!"expected DemoDone, got {host.debug other}"

def runPeerDown : Prog Runner Unit := do
  let runner ← get
  forM runner.state.policy.peerDown (runPeerDownOf host)

/-! ## The run -/

def findAppCourt : Prog Runner String := do
  let runner ← get
  expect (((host.roleOrder.entries runner.state.courtRoles).find? fun entry =>
    entry.2 == .app).map Prod.fst) "manifest must include one app court for MVP-0C"

def findRecvGrantCourt : Prog Runner String := do
  let runner ← get
  expect (((host.capOrder.entries runner.state.capsByKey).find? fun entry =>
    entry.2.2.contains .RECV).map fun entry => entry.1.1) "policy must grant one recv cap"

/-- Everything after the courts have connected, up to the revocations. -/
def serveGrants : Prog Runner Unit := do
  let appName ← findAppCourt host
  let app ← getPeer appName s!"{appName} court did not connect to root"
  handleAppLookupAndDeniedOpen host app appName
  let runner ← get
  let grants ← ofExcept (statePolicyGrants runner.state.policy)
  forM grants fun grant => do
    let peer ← getPeer grant.court s!"court {grant.court} did not connect to root"
    let _ ← handleGrantAndOpen host peer grant.court grant.path grant.rights
  let app ← getPeer appName s!"{appName} court did not connect to root"
  recordTraceFrom host app "app send"
  let recvCourt ← findRecvGrantCourt host
  let recvPeer ← getPeer recvCourt s!"{recvCourt} court did not connect to root"
  recordTraceFrom host recvPeer "receiver recv"

/-- The end of the run: the courts that are still connected have to exit well. -/
def awaitChildren (children : HashMap String Child) : Prog Runner Unit :=
  forM (host.childOrder.entries children) fun entry => do
    let runner ← get
    if entry.1 ∈ runner.peers then expectChildSuccess host entry.2 entry.1 else pure ()

def runManifestDemo (config : RootConfig) : Prog Runner Unit := do
  ofExcept (validate config.manifest config.policy)
  -- `create_dir_all` and `UnixListener::bind`
  io host
  io host
  buildState host config
  let runner ← get
  record host ((WireTrace.new "lookup" "root" .ok).withPath runner.state.demo.path)
  let children ← spawnCourts host
  acceptPeers host children.keys.card runner.state.demo (connections host)
  serveGrants host
  runRevokes host
  runFaults host children
  runPeerDown host
  awaitChildren host children

/-! ## The run in parts -/

/-- The run until all courts are connected. -/
def connect (config : RootConfig) : Prog Runner (HashMap String Child) := do
  ofExcept (validate config.manifest config.policy)
  io host
  io host
  buildState host config
  let runner ← get
  record host ((WireTrace.new "lookup" "root" .ok).withPath runner.state.demo.path)
  let children ← spawnCourts host
  acceptPeers host children.keys.card runner.state.demo (connections host)
  return children

/-- From there to the last grant; the value is the name of the app. -/
def carryOutGrants : Prog Runner String := do
  let appName ← findAppCourt host
  let app ← getPeer appName s!"{appName} court did not connect to root"
  handleAppLookupAndDeniedOpen host app appName
  let runner ← get
  let grants ← ofExcept (statePolicyGrants runner.state.policy)
  forM grants fun grant => do
    let peer ← getPeer grant.court s!"court {grant.court} did not connect to root"
    let _ ← handleGrantAndOpen host peer grant.court grant.path grant.rights
  return appName

/-- From there to the revocations. -/
def awaitTraces (appName : String) : Prog Runner Unit := do
  let app ← getPeer appName s!"{appName} court did not connect to root"
  recordTraceFrom host app "app send"
  let recvCourt ← findRecvGrantCourt host
  let recvPeer ← getPeer recvCourt s!"{recvCourt} court did not connect to root"
  recordTraceFrom host recvPeer "receiver recv"

/-- The run until only the processes are waited for. -/
def untilExit (config : RootConfig) : Prog Runner (HashMap String Child) := do
  let children ← connect host config
  serveGrants host
  runRevokes host
  runFaults host children
  runPeerDown host
  return children

theorem serveGrants_eq : serveGrants host = carryOutGrants host >>= awaitTraces host := by
  simp only [carryOutGrants, bind_assoc, pure_bind]
  rfl

theorem runManifestDemo_connect (config : RootConfig) :
    runManifestDemo host config = (do
      let children ← connect host config
      serveGrants host
      runRevokes host
      runFaults host children
      runPeerDown host
      awaitChildren host children) := by
  simp only [connect, bind_assoc, pure_bind]
  rfl

theorem runManifestDemo_eq (config : RootConfig) :
    runManifestDemo host config = untilExit host config >>= awaitChildren host := by
  simp only [runManifestDemo_connect, untilExit, bind_assoc, pure_bind]

/-! ## Rules -/

section

variable {host : Host} {r : Runner} {α : Type} {Q : α → Runner → Prop} {E : String → Runner → Prop}

/-- An operation outside either succeeds or ends the run. -/
theorem wp_io {Q : Unit → Runner → Prop} (hq : Q () { r with clock := r.clock + 1 })
    (he : ∀ e, E e { r with clock := r.clock + 1 }) : wp (io host) Q E r := by
  rw [io, wp_bind, wp_get, wp_bind, wp_set]
  split
  · exact (wp_pure _).2 hq
  · exact (wp_throw _).2 (he _)

theorem wp_onState {x : Prog RootState α} :
    wp (onState x) Q E r ↔ wp x (fun a state => Q a { r with state := state })
      (fun e state => E e { r with state := state }) r.state :=
  wp_zoom

variable {P : Runner → Runner → Prop}

/-- Operations outside, for relations that do not look at their number. -/
theorem keeps_io (h : ∀ (r : Runner) n, P r { r with clock := n }) : Keeps P (io host) :=
  fun r => wp_io (h r _) fun _ => h r _

/-- Programs on the tables, for relations that do not look at the tables. -/
theorem keeps_onState (h : ∀ (r : Runner) state, P r { r with state := state })
    (x : Prog RootState α) : Keeps P (onState x) := fun r =>
  wp_onState.2 (wp_mono (wp_true x _) (fun _ state _ => h r state) fun _ state _ => h r state)

end

end Runner

end CourtKernel
