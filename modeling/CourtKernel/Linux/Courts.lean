import CourtKernel.Linux.OpenRing
import CourtKernel.Lib.Wp

/-!
# The app and the net court

Reference model of `crates/court-hosted-linux/src/app.rs` and `net.rs`: what a court process writes
to the root, depending on what it reads from it.

* `CourtHost` — everything else that the process meets: which operations fail, what it finds in the
  ring, and how long it has to wait.  Nothing is assumed about it.
* `App.run`, `Net.run` — the two programs.  The value is the exit code of the process; a program
  that fails exits with another code than these.
* `App.Speaks`, `Net.Speaks` — the trace events that a court has written after some messages, by
  `App.run_spec` and `Net.run_spec`.
* `CourtManifest.written`, `CourtManifest.exitOf` — what a court has written, and how it has ended.
-/

namespace CourtKernel

def WireTrace.withLen (self : WireTrace) (len : Nat) : WireTrace := { self with len := some len }

/-- What a court process meets besides the messages of the root. -/
structure CourtHost where
  /-- The error of each operation outside, counted from the start, if it fails. -/
  failure : Nat → Option String
  /-- The ring file at a path, when it is opened. -/
  file : String → RingFile
  /-- What a mapped ring holds, by the number of operations so far. -/
  view : SharedRing → Nat → SharedRing
  /-- How often a ring is looked at before the deadline. -/
  polls : Nat
  /-- `String::from_utf8_lossy` -/
  lossy : Payload → String
  /-- The `Debug` text of a message. -/
  debug : WireMessage → String

structure CourtProcess where
  /-- The messages of the root that were not read yet. -/
  inbox : List WireMessage
  outbox : List WireMessage
  /-- The number of operations outside so far. -/
  clock : Nat

namespace CourtProcess

variable (env : CourtHost)

/-- Before the run, with the messages that will come. -/
def new (inbox : List WireMessage) : CourtProcess := ⟨inbox, [], 0⟩

/-! ## Operations outside -/

/-- An operation outside, which may fail. -/
def io : Prog CourtProcess Unit := do
  let process ← get
  set { process with clock := process.clock + 1 }
  match env.failure process.clock with
  | none => pure ()
  | some e => throw e

/-- `JsonLinePeer::send` -/
def send (message : WireMessage) : Prog CourtProcess Unit := do
  modify fun process => { process with outbox := process.outbox ++ [message] }
  io env

/-- `JsonLinePeer::recv` -/
def recv : Prog CourtProcess WireMessage := do
  io env
  let process ← get
  match process.inbox with
  | [] => throw "control channel closed"
  | message :: rest =>
    set { process with inbox := rest }
    return message

/-- `SharedRing::open` -/
def openRing (path : String) : Prog CourtProcess SharedRing := do
  io env
  ofExcept (SharedRing.open (env.file path))

/-- What the ring holds now. -/
def look (ring : SharedRing) : Prog CourtProcess SharedRing := do
  let process ← get
  set { process with clock := process.clock + 1 }
  return env.view ring process.clock

/-- `SharedRing::send`; a panic ends the process. -/
def sendRing (ring : SharedRing) (endpoint : EndpointState) (payload : Payload) :
    Prog CourtProcess (Except WireStatus Unit) := do
  match (← look env ring).send endpoint payload with
  | none => throw "panicked"
  | some (result, _) => return result

/-- `SharedRing::recv`; a panic ends the process. -/
def recvRing (ring : SharedRing) (endpoint : EndpointState) :
    Prog CourtProcess (Except WireStatus (Option Payload)) := do
  match (← look env ring).recv endpoint with
  | none => throw "panicked"
  | some (result, _) => return result

/-! ## What both courts do -/

def expectHelloAck (court : String) : Prog CourtProcess WireDemoConfig := do
  let message ← recv env
  match message with
  | .helloAck .ok ack demo =>
    if ack = court then return demo
    else throw s!"unexpected hello ack: {env.debug message}"
  | other => throw s!"unexpected hello ack: {env.debug other}"

/-- The grant for the demo path; `label` is the right in the error text. -/
def expectGrant (path label : String) : Prog CourtProcess WireCap := do
  let message ← recv env
  match message with
  | .grant granted cap =>
    if granted = path then return cap
    else throw s!"expected {label} grant, got {env.debug message}"
  | other => throw s!"expected {label} grant, got {env.debug other}"

def expectOpened : Prog CourtProcess WireRingInfo := do
  match ← recv env with
  | .openResult .ok _ (some ring) => return ring
  | other => throw s!"expected successful open, got {env.debug other}"

/-! ## Rules -/

section

variable {env : CourtHost} {p : CourtProcess} {α : Type} {Q : α → CourtProcess → Prop}
  {E : String → CourtProcess → Prop} {court : String}

theorem wp_io {Q : Unit → CourtProcess → Prop} (hq : ∀ n, Q () { p with clock := n })
    (he : ∀ e n, E e { p with clock := n }) : wp (io env) Q E p := by
  rw [io, wp_bind, wp_get, wp_bind, wp_set]
  split
  · exact (wp_pure _).2 (hq _)
  · exact (wp_throw _).2 (he _ _)

theorem wp_send {Q : Unit → CourtProcess → Prop} {message : WireMessage}
    (hq : ∀ n, Q () { p with outbox := p.outbox ++ [message], clock := n })
    (he : ∀ e n, E e { p with outbox := p.outbox ++ [message], clock := n }) :
    wp (send env message) Q E p := by
  rw [send, wp_bind, wp_modify]
  exact wp_io hq he

theorem wp_recv {Q : WireMessage → CourtProcess → Prop}
    (hq : ∀ message rest n, p.inbox = message :: rest →
      Q message { p with inbox := rest, clock := n })
    (he : ∀ e n, E e { p with clock := n }) : wp (recv env) Q E p := by
  rw [recv, wp_bind]
  refine wp_io (fun n => ?_) he
  rw [wp_bind, wp_get]
  split
  · exact (wp_throw _).2 (he _ _)
  · rename_i message rest hinbox
    rw [wp_bind, wp_set]
    exact (wp_pure _).2 (hq message rest n hinbox)

theorem wp_openRing {Q : SharedRing → CourtProcess → Prop} {path : String}
    (hq : ∀ ring n, Q ring { p with clock := n }) (he : ∀ e n, E e { p with clock := n }) :
    wp (openRing env path) Q E p := by
  rw [openRing, wp_bind]
  exact wp_io (fun n => wp_ofExcept.2 ⟨fun _ _ => hq _ n, fun _ _ => he _ n⟩) he

theorem wp_sendRing {Q : Except WireStatus Unit → CourtProcess → Prop} {ring : SharedRing}
    {endpoint : EndpointState} {payload : Payload} (hq : ∀ result n, Q result { p with clock := n })
    (he : ∀ e n, E e { p with clock := n }) : wp (sendRing env ring endpoint payload) Q E p := by
  rw [sendRing, wp_bind, look, wp_bind, wp_get, wp_bind, wp_set, wp_pure]
  split
  · exact (wp_throw _).2 (he _ _)
  · exact (wp_pure _).2 (hq _ _)

theorem wp_recvRing {Q : Except WireStatus (Option Payload) → CourtProcess → Prop} {ring : SharedRing}
    {endpoint : EndpointState} (hq : ∀ result n, Q result { p with clock := n })
    (he : ∀ e n, E e { p with clock := n }) : wp (recvRing env ring endpoint) Q E p := by
  rw [recvRing, wp_bind, look, wp_bind, wp_get, wp_bind, wp_set, wp_pure]
  split
  · exact (wp_throw _).2 (he _ _)
  · exact (wp_pure _).2 (hq _ _)

theorem wp_expectHelloAck {Q : WireDemoConfig → CourtProcess → Prop}
    (hq : ∀ demo rest n, p.inbox = .helloAck .ok court demo :: rest →
      Q demo { p with inbox := rest, clock := n })
    (he : ∀ e inbox n, E e { p with inbox := inbox, clock := n }) :
    wp (expectHelloAck env court) Q E p := by
  rw [expectHelloAck, wp_bind]
  refine wp_recv (fun message rest n hinbox => ?_) fun e n => he e _ n
  split
  · refine wp_ite.2 ⟨fun hack => (wp_pure _).2 (hq _ rest n (hack ▸ hinbox)), fun _ => ?_⟩
    exact (wp_throw _).2 (he _ rest n)
  · exact (wp_throw _).2 (he _ rest n)

theorem wp_expectGrant {Q : WireCap → CourtProcess → Prop} {path label : String}
    (hq : ∀ cap rest n, p.inbox = .grant path cap :: rest → Q cap { p with inbox := rest, clock := n })
    (he : ∀ e inbox n, E e { p with inbox := inbox, clock := n }) :
    wp (expectGrant env path label) Q E p := by
  rw [expectGrant, wp_bind]
  refine wp_recv (fun message rest n hinbox => ?_) fun e n => he e _ n
  split
  · refine wp_ite.2 ⟨fun hpath => (wp_pure _).2 (hq _ rest n (hpath ▸ hinbox)), fun _ => ?_⟩
    exact (wp_throw _).2 (he _ rest n)
  · exact (wp_throw _).2 (he _ rest n)

theorem wp_expectOpened {Q : WireRingInfo → CourtProcess → Prop}
    (hq : ∀ ring cap rest n, p.inbox = .openResult .ok cap (some ring) :: rest →
      Q ring { p with inbox := rest, clock := n })
    (he : ∀ e inbox n, E e { p with inbox := inbox, clock := n }) :
    wp (expectOpened env) Q E p := by
  rw [expectOpened, wp_bind]
  refine wp_recv (fun message rest n hinbox => ?_) fun e n => he e _ n
  split
  · exact (wp_pure _).2 (hq _ _ rest n hinbox)
  · exact (wp_throw _).2 (he _ rest n)

end

/-! ## What was written -/

/-- The names of the trace events among these messages. -/
def spoken (messages : List WireMessage) : List String :=
  messages.filterMap fun
    | .trace event => some event.event
    | _ => none

/-- A court that began with its name, and wrote these trace events. -/
structure Said (court : String) (names : List String) (outbox : List WireMessage) : Prop where
  hello : outbox.head? = some (.hello court)
  names : spoken outbox = names

theorem Said.send {court : String} {names : List String} {outbox : List WireMessage}
    (h : Said court names outbox) (message : WireMessage) :
    Said court (names ++ spoken [message]) (outbox ++ [message]) := by
  refine ⟨?_, ?_⟩
  · rw [List.head?_append, h.hello]
    rfl
  · rw [spoken, List.filterMap_append, ← h.names]
    rfl

/-- A court that wrote nothing yet, or began with its name and wrote such trace events. -/
def Writes (court : String) (P : List String → Prop) (outbox : List WireMessage) : Prop :=
  outbox = [] ∨ ∃ names, P names ∧ Said court names outbox

end CourtProcess

open CourtProcess

/-! ## The app -/

namespace App

variable (env : CourtHost) (court : String)

def expectDescriptor : Prog CourtProcess WireDescriptor := do
  match ← recv env with
  | .lookupResult .ok (some descriptor) => return descriptor
  | other => throw s!"unexpected lookup response: {env.debug other}"

def expectNoRight : Prog CourtProcess Unit := do
  match ← recv env with
  | .openResult .noRight _ _ => pure ()
  | other => throw s!"expected NO_RIGHT open response, got {env.debug other}"

/-- The loop, for so many turns. -/
def serve (demo : WireDemoConfig) (cap : WireCap) (ring : SharedRing) :
    Nat → EndpointState → Prog CourtProcess Int
  | 0, _ => throw "control channel closed"
  | turns + 1, endpoint => do
    let message ← recv env
    match message with
    | .revoke revoked =>
      if revoked.id = cap.id then
        let endpoint := endpoint.markRevoked
        let status := match ← sendRing env ring endpoint "after-revoke".toUTF8.data.toList with
          | .ok () => .ok
          | .error status => status
        send env (.trace ((WireTrace.new "send_after_revoke" court status).withPath demo.path))
        serve demo cap ring turns endpoint
      else throw s!"unexpected app message: {env.debug message}"
    | .peerDown path =>
      if path = demo.path then
        let endpoint := endpoint.markPeerDown
        send env (.trace ((WireTrace.new "peer_down" court endpoint.status).withPath demo.path))
        send env (.demoDone court .ok)
        return 0
      else throw s!"unexpected app message: {env.debug message}"
    | other => throw s!"unexpected app message: {env.debug other}"

def run : Prog CourtProcess Int := do
  -- `JsonLinePeer::connect_with_retry`
  io env
  send env (.hello court)
  let demo ← expectHelloAck env court
  send env (.lookup demo.path)
  let descriptor ← expectDescriptor env
  send env (.open descriptor.path none (.fromRights .SEND))
  expectNoRight env
  let cap ← expectGrant env demo.path "SEND"
  send env (.open descriptor.path (some cap) (.fromRights .SEND))
  let info ← expectOpened env
  let ring ← openRing env info.path
  let endpoint := EndpointState.new cap
  let payload := demo.packetPayload.toUTF8.data.toList
  match ← sendRing env ring endpoint payload with
  | .error status => throw s!"send failed: {status.debug}"
  | .ok () =>
    send env (.trace (((WireTrace.new "send" court .ok).withPath demo.path).withLen payload.length))
    -- every turn reads a message, so the loop ends with the last one
    serve env court demo cap ring ((← get).inbox.length + 1) endpoint

/-- The trace events of the app after these messages. -/
def Speaks (inbox : List WireMessage) (names : List String) : Prop :=
  names = [] ∨ ∃ k tail, names = "send" :: (List.replicate k "send_after_revoke" ++ tail) ∧
    (0 < k → ∃ cap, .revoke cap ∈ inbox) ∧
    (tail = [] ∨ tail = ["peer_down"] ∧ ∃ path, .peerDown path ∈ inbox)

variable {env : CourtHost} {court : String} {inbox : List WireMessage}

theorem wp_expectDescriptor {p : CourtProcess} {Q : WireDescriptor → CourtProcess → Prop}
    {E : String → CourtProcess → Prop}
    (hq : ∀ d message rest n, p.inbox = message :: rest → Q d { p with inbox := rest, clock := n })
    (he : ∀ e inbox n, E e { p with inbox := inbox, clock := n }) :
    wp (expectDescriptor env) Q E p := by
  rw [expectDescriptor, wp_bind]
  refine wp_recv (fun message rest n hinbox => ?_) fun e n => he e _ n
  split
  · exact (wp_pure _).2 (hq _ _ rest n hinbox)
  · exact (wp_throw _).2 (he _ rest n)

theorem wp_expectNoRight {p : CourtProcess} {Q : Unit → CourtProcess → Prop}
    {E : String → CourtProcess → Prop}
    (hq : ∀ message rest n, p.inbox = message :: rest → Q () { p with inbox := rest, clock := n })
    (he : ∀ e inbox n, E e { p with inbox := inbox, clock := n }) :
    wp (expectNoRight env) Q E p := by
  rw [expectNoRight, wp_bind]
  refine wp_recv (fun message rest n hinbox => ?_) fun e n => he e _ n
  split
  · exact (wp_pure _).2 (hq _ rest n hinbox)
  · exact (wp_throw _).2 (he _ rest n)

/-- The first event is the packet. -/
theorem Speaks.first {names : List String} (h : Speaks inbox names) {x : String}
    (hx : [x] <+: names) : x = "send" := by
  rcases h with rfl | ⟨k, tail, rfl, -, -⟩
  · cases List.prefix_nil.1 hx
  · exact (List.cons_prefix_cons.1 hx).1

/-- Until the peer is down, later events answer revocations. -/
theorem Speaks.later {names : List String} (h : Speaks inbox names) {said : List String} {x : String}
    (hx : said ++ [x] <+: names) (hsaid : said ≠ []) (hup : ∀ path, .peerDown path ∉ inbox) :
    x = "send_after_revoke" ∧ ∃ cap, .revoke cap ∈ inbox := by
  obtain ⟨first, said, rfl⟩ := List.exists_cons_of_ne_nil hsaid
  rcases h with rfl | ⟨k, tail, rfl, hk, htail⟩
  · cases List.prefix_nil.1 hx
  · rcases htail with rfl | ⟨-, path, hpath⟩
    · rw [List.append_nil] at hx
      have hmem : x ∈ List.replicate k "send_after_revoke" :=
        (List.cons_prefix_cons.1 hx).2.subset (List.mem_append_right _ List.mem_cons_self)
      rw [List.mem_replicate] at hmem
      exact ⟨hmem.2, hk (Nat.pos_of_ne_zero hmem.1)⟩
    · exact absurd hpath (hup path)

theorem Speaks.served {k : Nat} (hk : 0 < k → ∃ cap, .revoke cap ∈ inbox) :
    Speaks inbox ("send" :: List.replicate k "send_after_revoke") :=
  Or.inr ⟨k, [], by rw [List.append_nil], hk, Or.inl rfl⟩

/-- The loop answers revocations until the peer is down. -/
theorem serve_spec {demo : WireDemoConfig} {cap : WireCap} {ring : SharedRing} (turns : Nat)
    (endpoint : EndpointState) {p : CourtProcess} {k : Nat} (hin : p.inbox <:+ inbox)
    (hsaid : Said court ("send" :: List.replicate k "send_after_revoke") p.outbox)
    (hk : 0 < k → ∃ cap, .revoke cap ∈ inbox) :
    wp (serve env court demo cap ring turns endpoint)
      (fun code p' => code = 0 ∧ Writes court (Speaks inbox) p'.outbox)
      (fun _ p' => Writes court (Speaks inbox) p'.outbox) p := by
  induction turns generalizing p k endpoint with
  | zero =>
    rw [serve]
    exact (wp_throw _).2 (Or.inr ⟨_, .served hk, hsaid⟩)
  | succ turns ih =>
    have hstop : Writes court (Speaks inbox) p.outbox := Or.inr ⟨_, .served hk, hsaid⟩
    rw [serve, wp_bind]
    refine wp_recv (fun message rest n hinbox => ?_) fun _ _ => hstop
    rw [hinbox] at hin
    have hmem : message ∈ inbox := hin.subset List.mem_cons_self
    have hrest : rest <:+ inbox := (List.suffix_cons message rest).trans hin
    split
    · rename_i revoked
      refine wp_ite.2 ⟨fun _ => ?_, fun _ => (wp_throw _).2 hstop⟩
      rw [wp_bind]
      refine wp_sendRing (fun result n => ?_) fun _ _ => hstop
      have hk' : 0 < k + 1 → ∃ cap, .revoke cap ∈ inbox := fun _ => ⟨revoked, hmem⟩
      have hsaid' := hsaid.send (.trace ((WireTrace.new "send_after_revoke" court
        (match result with | .ok () => .ok | .error status => status)).withPath demo.path))
      have hnames : "send" :: List.replicate k "send_after_revoke" ++ ["send_after_revoke"] =
          "send" :: List.replicate (k + 1) "send_after_revoke" := by
        rw [List.replicate_succ', List.cons_append]
      replace hsaid' : Said court ("send" :: List.replicate (k + 1) "send_after_revoke") _ :=
        hnames ▸ hsaid'
      rw [wp_bind]
      exact wp_send (fun _ => ih _ hrest hsaid' hk') fun _ _ => Or.inr ⟨_, .served hk', hsaid'⟩
    · rename_i path
      refine wp_ite.2 ⟨fun _ => ?_, fun _ => (wp_throw _).2 hstop⟩
      have hspeaks : Speaks inbox ("send" :: List.replicate k "send_after_revoke" ++ ["peer_down"]) :=
        Or.inr ⟨k, ["peer_down"], rfl, hk, Or.inr ⟨rfl, path, hmem⟩⟩
      have hdown := hsaid.send (.trace ((WireTrace.new "peer_down" court
        endpoint.markPeerDown.status).withPath demo.path))
      have hdone := hdown.send (.demoDone court .ok)
      rw [wp_bind]
      refine wp_send (fun n => ?_) fun _ _ => Or.inr ⟨_, hspeaks, hdown⟩
      rw [wp_bind]
      refine wp_send (fun n => (wp_pure _).2 ⟨rfl, Or.inr ⟨_, ?_, hdone⟩⟩) fun _ _ =>
        Or.inr ⟨_, ?_, hdone⟩
      · rw [show spoken [.demoDone court .ok] = [] from rfl, List.append_nil]
        exact hspeaks
      · rw [show spoken [.demoDone court .ok] = [] from rfl, List.append_nil]
        exact hspeaks
    · exact (wp_throw _).2 hstop

/-- What the app writes.  It exits with no other code than 0. -/
theorem run_spec (env : CourtHost) (court : String) (inbox : List WireMessage) :
    wp (run env court) (fun code p' => code = 0 ∧ Writes court (Speaks inbox) p'.outbox)
      (fun _ p' => Writes court (Speaks inbox) p'.outbox) (.new inbox) := by
  -- up to the packet the app says nothing
  have hquiet : ∀ {outbox}, Said court [] outbox → Writes court (Speaks inbox) outbox :=
    fun h => Or.inr ⟨[], Or.inl rfl, h⟩
  have hhello : Said court [] [.hello court] := ⟨rfl, rfl⟩
  rw [run, wp_bind]
  refine wp_io (fun _ => ?_) fun _ _ => Or.inl rfl
  rw [wp_bind]
  refine wp_send (fun _ => ?_) fun _ _ => hquiet hhello
  rw [wp_bind]
  refine wp_expectHelloAck (fun demo rest₁ _ (h₁ : inbox = _) => ?_) fun _ _ _ => hquiet hhello
  have hlookup := hhello.send (.lookup demo.path)
  rw [wp_bind]
  refine wp_send (fun _ => ?_) fun _ _ => hquiet hlookup
  rw [wp_bind]
  refine wp_expectDescriptor (fun d m₂ rest₂ _ (h₂ : rest₁ = _) => ?_) fun _ _ _ => hquiet hlookup
  have hopen := hlookup.send (.open d.path none (.fromRights .SEND))
  rw [wp_bind]
  refine wp_send (fun _ => ?_) fun _ _ => hquiet hopen
  rw [wp_bind]
  refine wp_expectNoRight (fun m₃ rest₃ _ (h₃ : rest₂ = _) => ?_) fun _ _ _ => hquiet hopen
  rw [wp_bind]
  refine wp_expectGrant (fun cap rest₄ _ (h₄ : rest₃ = _) => ?_) fun _ _ _ => hquiet hopen
  have hagain := hopen.send (.open d.path (some cap) (.fromRights .SEND))
  rw [wp_bind]
  refine wp_send (fun _ => ?_) fun _ _ => hquiet hagain
  rw [wp_bind]
  refine wp_expectOpened (fun info cap' rest₅ _ (h₅ : rest₄ = _) => ?_) fun _ _ _ => hquiet hagain
  rw [wp_bind]
  refine wp_openRing (fun ring _ => ?_) fun _ _ => hquiet hagain
  rw [wp_bind]
  refine wp_sendRing (fun result _ => ?_) fun _ _ => hquiet hagain
  split
  · exact (wp_throw _).2 (hquiet hagain)
  · have hsend := hagain.send (.trace (((WireTrace.new "send" court .ok).withPath demo.path).withLen
      demo.packetPayload.toUTF8.data.toList.length))
    have hsuffix : rest₅ <:+ inbox := by
      rw [h₁, h₂, h₃, h₄, h₅]
      exact List.suffix_append [_, _, _, _, _] rest₅
    rw [wp_bind]
    refine wp_send (fun _ => ?_) fun _ _ => Or.inr ⟨_, .served (k := 0) nofun, hsend⟩
    rw [wp_bind, wp_get]
    exact serve_spec (k := 0) _ _ hsuffix hsend nofun

end App

/-! ## The net court -/

namespace Net

variable (env : CourtHost) (court : String)

/-- The loop that waits for a packet, as often as the deadline allows. -/
def poll (ring : SharedRing) (endpoint : EndpointState) : Nat → Prog CourtProcess Payload
  | 0 => throw "timed out waiting for packet"
  | polls + 1 => do
    match ← recvRing env ring endpoint with
    | .ok (some packet) => return packet
    | .ok none => poll ring endpoint polls
    | .error status => throw s!"recv failed: {status.debug}"

def run : Prog CourtProcess Int := do
  -- `JsonLinePeer::connect_with_retry`
  io env
  send env (.hello court)
  let demo ← expectHelloAck env court
  let cap ← expectGrant env demo.path "RECV"
  send env (.open demo.path (some cap) (.fromRights .RECV))
  let info ← expectOpened env
  let ring ← openRing env info.path
  let packet ← poll env ring (.new cap) env.polls
  send env (.trace ((((WireTrace.new "recv" court .ok).withPath demo.path).withLen
    packet.length).withDetail (env.lossy packet)))
  match ← recv env with
  | .fault reason =>
    send env (.trace (((WireTrace.new "fault" court .fault).withPath demo.path).withDetail reason))
    -- `std::process::exit`
    return 42
  | other => throw s!"unexpected net message: {env.debug other}"

/-- The trace events of a net court. -/
def Speaks (names : List String) : Prop := names <+: ["recv", "fault"]

/-- The first event is the packet. -/
theorem Speaks.first {names : List String} (h : Speaks names) {x : String} (hx : [x] <+: names) :
    x = "recv" :=
  (List.cons_prefix_cons.1 (hx.trans h)).1

/-- Any later event is the fault. -/
theorem Speaks.later {names : List String} (h : Speaks names) {said : List String} {x : String}
    (hx : said ++ [x] <+: names) (hsaid : said ≠ []) : x = "fault" := by
  obtain ⟨first, said, rfl⟩ := List.exists_cons_of_ne_nil hsaid
  have hrest := (List.cons_prefix_cons.1 (hx.trans h)).2
  exact List.mem_singleton.1 (hrest.subset (List.mem_append_right _ List.mem_cons_self))

/-- Among these messages there is no revocation before the first fault. -/
def FaultFirst (inbox : List WireMessage) : Prop :=
  ∀ pre cap post, inbox = pre ++ .revoke cap :: post → ∃ reason, .fault reason ∈ pre

variable {env : CourtHost} {court : String}

theorem wp_poll {ring : SharedRing} {endpoint : EndpointState} {p : CourtProcess}
    {Q : Payload → CourtProcess → Prop} {E : String → CourtProcess → Prop} (polls : Nat)
    (hq : ∀ packet n, Q packet { p with clock := n }) (he : ∀ e n, E e { p with clock := n }) :
    wp (poll env ring endpoint polls) Q E p := by
  induction polls generalizing p with
  | zero =>
    rw [poll]
    exact (wp_throw _).2 (he _ p.clock)
  | succ polls ih =>
    rw [poll, wp_bind]
    refine wp_recvRing (fun result n => ?_) he
    split
    · exact (wp_pure _).2 (hq _ n)
    · exact ih hq he
    · exact (wp_throw _).2 (he _ n)

theorem faultFirst_of_fourth {a b c : WireMessage} {reason : String} {rest : List WireMessage}
    (ha : ∀ cap, a ≠ .revoke cap) (hb : ∀ cap, b ≠ .revoke cap) (hc : ∀ cap, c ≠ .revoke cap) :
    FaultFirst (a :: b :: c :: .fault reason :: rest) := by
  intro pre cap post h
  match pre with
  | [] => exact absurd (List.cons.inj h).1 (ha cap)
  | [_] => exact absurd (List.cons.inj (List.cons.inj h).2).1 (hb cap)
  | [_, _] => exact absurd (List.cons.inj (List.cons.inj (List.cons.inj h).2).2).1 (hc cap)
  | [_, _, _] => cases h
  | _ :: _ :: _ :: d :: _ =>
    obtain rfl : .fault reason = d :=
      (List.cons.inj (List.cons.inj (List.cons.inj (List.cons.inj h).2).2).2).1
    exact ⟨reason, by simp⟩

/-- What a net court writes.  It exits with no other code than 42, and then nothing was revoked
before the fault. -/
theorem run_spec (env : CourtHost) (court : String) (inbox : List WireMessage) :
    wp (run env court)
      (fun code p' => (code = 42 ∧ FaultFirst inbox) ∧ Writes court Speaks p'.outbox)
      (fun _ p' => Writes court Speaks p'.outbox) (.new inbox) := by
  have hquiet : ∀ {outbox}, Said court [] outbox → Writes court Speaks outbox :=
    fun h => Or.inr ⟨[], List.nil_prefix, h⟩
  have hhello : Said court [] [.hello court] := ⟨rfl, rfl⟩
  rw [run, wp_bind]
  refine wp_io (fun _ => ?_) fun _ _ => Or.inl rfl
  rw [wp_bind]
  refine wp_send (fun _ => ?_) fun _ _ => hquiet hhello
  rw [wp_bind]
  refine wp_expectHelloAck (fun demo rest₁ _ (h₁ : inbox = _) => ?_) fun _ _ _ => hquiet hhello
  rw [wp_bind]
  refine wp_expectGrant (fun cap rest₂ _ (h₂ : rest₁ = _) => ?_) fun _ _ _ => hquiet hhello
  have hopen := hhello.send (.open demo.path (some cap) (.fromRights .RECV))
  rw [wp_bind]
  refine wp_send (fun _ => ?_) fun _ _ => hquiet hopen
  rw [wp_bind]
  refine wp_expectOpened (fun info cap' rest₃ _ (h₃ : rest₂ = _) => ?_) fun _ _ _ => hquiet hopen
  rw [wp_bind]
  refine wp_openRing (fun ring _ => ?_) fun _ _ => hquiet hopen
  rw [wp_bind]
  refine wp_poll _ (fun packet _ => ?_) fun _ _ => hquiet hopen
  have hrecv := hopen.send (.trace ((((WireTrace.new "recv" court .ok).withPath demo.path).withLen
    packet.length).withDetail (env.lossy packet)))
  have hspoke : Writes court Speaks _ := Or.inr ⟨_, ⟨["fault"], rfl⟩, hrecv⟩
  rw [wp_bind]
  refine wp_send (fun _ => ?_) fun _ _ => hspoke
  rw [wp_bind]
  refine wp_recv (fun message rest₄ _ (h₄ : rest₃ = _) => ?_) fun _ _ => hspoke
  split
  · rename_i reason
    have hfault := hrecv.send (.trace (((WireTrace.new "fault" court .fault).withPath
      demo.path).withDetail reason))
    have hended : Writes court Speaks _ := Or.inr ⟨_, ⟨[], rfl⟩, hfault⟩
    rw [wp_bind]
    refine wp_send (fun _ => (wp_pure _).2 ⟨⟨rfl, ?_⟩, hended⟩) fun _ _ => hended
    rw [h₁, h₂, h₃, h₄]
    exact faultFirst_of_fourth nofun nofun nofun
  · exact (wp_throw _).2 hspoke

end Net

/-! ## A court of the manifest -/

namespace CourtManifest

/-- The program of a court. -/
def program (self : CourtManifest) (env : CourtHost) : Prog CourtProcess Int :=
  match self.role with
  | .app => App.run env self.name
  | .net => Net.run env self.name

/-- What the court has written, once it has read these messages. -/
def written (self : CourtManifest) (env : CourtHost) (inbox : List WireMessage) : List WireMessage :=
  (stateOf (self.program env (.new inbox))).outbox

/-- How it has ended by then. -/
def exitOf (self : CourtManifest) (env : CourtHost) (inbox : List WireMessage) : Except String Int :=
  resultOf (self.program env (.new inbox))

variable {self : CourtManifest} {env : CourtHost} {inbox : List WireMessage} {code : Int}

theorem written_app (h : self.role = .app) :
    Writes self.name (App.Speaks inbox) (self.written env inbox) := by
  rw [written, program, h]
  exact wp_stateOf (J := fun p => Writes self.name (App.Speaks inbox) p.outbox)
    (wp_mono (App.run_spec env self.name inbox) (fun _ _ hp => hp.2) fun _ _ hp => hp)

theorem written_net (h : self.role = .net) :
    Writes self.name Net.Speaks (self.written env inbox) := by
  rw [written, program, h]
  exact wp_stateOf (J := fun p => Writes self.name Net.Speaks p.outbox)
    (wp_mono (Net.run_spec env self.name inbox) (fun _ _ hp => hp.2) fun _ _ hp => hp)

theorem exitOf_app (h : self.role = .app) (hx : self.exitOf env inbox = .ok code) : code = 0 := by
  rw [exitOf, program, h] at hx
  exact (wp_ok (App.run_spec env self.name inbox) (eq_ok_of_resultOf hx)).1

theorem exitOf_net (h : self.role = .net) (hx : self.exitOf env inbox = .ok code) :
    code = 42 ∧ Net.FaultFirst inbox := by
  rw [exitOf, program, h] at hx
  exact (wp_ok (Net.run_spec env self.name inbox) (eq_ok_of_resultOf hx)).1

end CourtManifest

end CourtKernel
