import CourtKernel.Linux.RingFiles
import CourtKernel.Hosted.Consistency

/-!
# Who is told about a ring

The answers of the root runner to `Open` messages, in every run and for every behaviour of the
courts.

* `Entitled` — the court holds the capability that it presented, and the object model lets it use
  the corridor with the rights that it asked for.
* `Answered` — what the messages before an `OpenResult` and the object model at that moment have to
  do with it.
* `Serves` — the invariant of the runner once its tables are built: the tables agree with the object
  model, every peer has said its name, and every `OpenResult` sent so far is `Answered`.
* `ring_disclosure` — a whole run, returned or failed, has sent only such results.

A court is known to the runner by the name in the `Hello` of its connection, and by nothing else.
-/

namespace CourtKernel

/-! ## Tables -/

namespace RootState

/-- The tables while the runner serves. -/
structure Serving (config : RootConfig) (st : RootState) : Prop where
  built : Built config.manifest.courtNames config.manifest.paths st
  ids : ∀ n cap, st.capsById.lookup n = some cap → cap.raw = n
  rings : ∀ path info, st.ringInfo.lookup path = some info →
    ∃ corridor ∈ config.manifest.corridors, corridor.path = path ∧
      corridor.ringInfo config.runDir = info

variable {config : RootConfig} {st : RootState}

theorem Serving.call (h : Serving config st) {c : HostedRoot.Call} (hc : c.creates = false) :
    Serving config { st with root := (st.root.call c).2 } :=
  ⟨h.built.call hc, h.ids, h.rings⟩

/-- A method that creates nothing. -/
theorem callRoot_serving {α : Type} {method : HostedRoot → CkResult α × HostedRoot}
    (c : HostedRoot.Call) (hc : c.creates = false)
    (hm : ∀ root, (method root).2 = (root.call c).2) :
    Keeps (Stays (Serving config)) (callRoot method) := by
  refine keeps_stays.2 fun st h => wp_callRoot.2 ?_
  rw [hm]
  exact ⟨fun _ _ => h.call hc, fun _ _ => h.call hc⟩

theorem grantCap_serving (h : Serving config st) (court path : String) (rights : Rights) :
    wp (grantCap court path rights)
      (fun x st' => Serving config st' ∧ st'.courtIds.lookup court = some x.1 ∧
        st'.descriptors.lookup path = some x.2.1)
      (fun _ st' => Serving config st') st := by
  simp only [grantCap, wp_bind, wp_get, wp_expect, wp_callRoot, wp_modify, wp_pure]
  refine ⟨fun id hid => ⟨fun d hd => ?_, fun _ => h⟩, fun _ => h⟩
  have hcall := h.call (c := .grantCorridorCap id d rights) rfl
  refine ⟨fun cap _ => ⟨⟨hcall.built.congr rfl rfl rfl, fun n cap' hn => ?_, h.rings⟩, hid, hd⟩,
    fun _ _ => hcall⟩
  simp only [HashMap.lookup_insert_ite] at hn
  split at hn
  · rename_i heq
    rw [heq, Option.some.inj hn]
  · exact h.ids n cap' hn

theorem revokeCap_serving (revoke : RevokePolicy) :
    Keeps (Stays (Serving config)) (revokeCap revoke) :=
  .bind .get fun _ => .bind (.expect _ _) fun key =>
    .bind (callRoot_serving (.revoke key.1) rfl fun _ => rfl) fun _ => .pure _

theorem faultCourt_serving (fault : FaultPolicy) :
    Keeps (Stays (Serving config)) (faultCourt fault) :=
  .bind .get fun _ => .bind (.expect _ _) fun id =>
    callRoot_serving (.faultCourt id) rfl fun _ => rfl

end RootState

/-! ## Entitlement -/

/-- The court has the capability that it presented, the capability is not revoked and is for the
corridor, and it was granted every known right among those asked for. -/
def Entitled (root : HostedRoot) (court path : String) (request : WireCap) (rights : WireRights) :
    Prop :=
  ∃ id k, (∀ id', root.NamedBy id' court ↔ id' = id) ∧ root.Holds id ⟨request.id.toNat⟩ ∧
    root.capRegistry.caps.lookup ⟨request.id.toNat⟩ = some k ∧ k.revoked = false ∧
    (∀ o, root.CreatedFor path o ↔ o = k.object) ∧
    ∀ right ∈ WireRights.KNOWN, rights.bits.toBitVec &&& right.raw ≠ 0 →
      k.rights.contains right = true

/-- A successful open shows that the court is entitled. -/
theorem RootState.Built.entitled {names paths : List String} {st : RootState}
    (h : Built names paths st) {court path : String} {id : CourtId} {d : Descriptor}
    (hid : st.courtIds.lookup court = some id) (hd : st.descriptors.lookup path = some d)
    {request : WireCap} {rights : WireRights} {c : CapId}
    (hopen : (st.root.open id d (some ⟨request.id.toNat⟩) rights.toRights).1 = .ok c) :
    Entitled (st.root.open id d (some ⟨request.id.toNat⟩) rights.toRights).2 court path request
      rights := by
  have hb := h.call (c := .open id d (some ⟨request.id.toNat⟩) rights.toRights) rfl
  have he := HostedRoot.open_effect (s := st.root) id d (some ⟨request.id.toNat⟩) rights.toRights
  obtain ⟨hc, -, hh, ha⟩ := HostedRoot.open_ok hopen
  obtain rfl := Option.some.inj hc
  obtain ⟨k, hk, hrev, -, hrights, hobj⟩ := CapRegistry.authorize_ok.1 ha
  rw [hopen] at he
  simp only [HostedRoot.call] at hb
  generalize (st.root.open id d (some ⟨request.id.toNat⟩) rights.toRights).2 = root at he hb ⊢
  cases he with
  | opened _ _ _ =>
    refine ⟨id, k, fun id' => ?_, hh, hk, hrev, fun o => ?_, WireRights.contains_toRights.1 hrights⟩
    · rw [← hb.courts, hid, Option.some.injEq, eq_comm]
    · rw [hobj]
      exact hb.object path d hd o

namespace Runner

variable {host : Host} {config : RootConfig} {r : Runner} {peer : JsonLinePeer}

/-! ## The wire -/

/-- The messages that came over a connection, in order. -/
def receivedFrom (peer : JsonLinePeer) (wire : List WireEvent) : List WireMessage :=
  wire.filterMap fun
    | .received p message => if p = peer then some message else none
    | .sent .. => none

@[simp] theorem receivedFrom_sent (wire : List WireEvent) (p : JsonLinePeer)
    (message : WireMessage) (root : HostedRoot) :
    receivedFrom peer (wire ++ [.sent p message root]) = receivedFrom peer wire := by
  simp [receivedFrom]

theorem receivedFrom_received (wire : List WireEvent) (p : JsonLinePeer) (message : WireMessage) :
    receivedFrom peer (wire ++ [.received p message]) =
      receivedFrom peer wire ++ if p = peer then [message] else [] := by
  by_cases h : p = peer <;> simp [receivedFrom, h]

/-- The event is a message that was sent and passes the test. -/
def sentAs (test : JsonLinePeer → WireMessage → HostedRoot → Bool) : WireEvent → Bool
  | .sent p message root => test p message root
  | .received .. => false

theorem sentAs_eq_true {test : JsonLinePeer → WireMessage → HostedRoot → Bool} {e : WireEvent} :
    sentAs test e = true ↔ ∃ p message root, e = .sent p message root ∧ test p message root = true := by
  cases e with
  | sent p message root => simp [sentAs]
  | received p message => simp [sentAs]

/-- The connection began with the name of the court. -/
def Greeted (peer : JsonLinePeer) (court : String) (wire : List WireEvent) : Prop :=
  (receivedFrom peer wire).head? = some (.hello court)

/-- What was on the wire stays there. -/
def Grows (r r' : Runner) : Prop := r.wire <+: r'.wire

instance Grows.refl : Std.Refl Grows := ⟨fun r => List.prefix_refl r.wire⟩

instance Grows.trans : Trans Grows Grows Grows := ⟨fun h h' => List.IsPrefix.trans h h'⟩

theorem Greeted.mono {court : String} {wire wire' : List WireEvent} (h : Greeted peer court wire)
    (hp : wire <+: wire') : Greeted peer court wire' := by
  obtain ⟨rest, rfl⟩ := hp
  rw [Greeted, receivedFrom, List.filterMap_append, List.head?_append]
  rw [Greeted, receivedFrom] at h
  rw [h]
  rfl

theorem Greeted.concat {court : String} {wire : List WireEvent} (h : Greeted peer court wire)
    (e : WireEvent) : Greeted peer court (wire ++ [e]) :=
  h.mono (List.prefix_append wire [e])

/-- How an `OpenResult` comes about.  It answers the last message of its connection.  If it says
`Ok`, or has a capability or a ring in it, then the court of the connection is entitled, and the
ring is the one of the corridor that was asked for. -/
def Answered (config : RootConfig) (pre : List WireEvent) (peer : JsonLinePeer)
    (status : WireStatus) (cap : Option WireCap) (ring : Option WireRingInfo) (root : HostedRoot) :
    Prop :=
  ∃ court path asked rights, Greeted peer court pre ∧
    (receivedFrom peer pre).getLast? = some (.open path asked rights) ∧
    ((status = .ok ∨ cap ≠ none ∨ ring ≠ none) →
      ∃ request, asked = some request ∧ Entitled root court path request rights) ∧
    ∀ info, ring = some info → ∃ corridor ∈ config.manifest.corridors, corridor.path = path ∧
      corridor.ringInfo config.runDir = info

/-- Every `OpenResult` is answered so; other messages are free. -/
def Answers (config : RootConfig) (pre : List WireEvent) (e : WireEvent) : Prop :=
  ∀ peer status cap ring root, e = .sent peer (.openResult status cap ring) root →
    Answered config pre peer status cap ring root

/-! ## The invariant -/

/-- The runner while it serves. -/
structure Serves (config : RootConfig) (r : Runner) : Prop where
  tables : r.state.Serving config
  greeted : ∀ court peer, r.peers.lookup court = some peer → Greeted peer court r.wire
  answers : Justified (Answers config) r.wire

/-- A trace event is of no interest to `J`. -/
theorem record_stays {J : Runner → Prop} (hJ : ∀ (r : Runner) (trace : List WireTrace) (n : Nat),
    J r → J { r with state := { r.state with trace := trace }, clock := n }) (event : WireTrace) :
    Keeps (Stays J) (record host event) := by
  refine keeps_stays.2 fun r h => ?_
  rw [record, wp_bind, wp_onState, wp_modify]
  exact wp_io (hJ r _ _ h) fun _ => hJ r _ _ h

/-- `J` is kept by a message, sent or not. -/
theorem wp_send {J : Runner → Prop} {message : WireMessage} (h : ∀ n : Nat,
    J { r with wire := r.wire ++ [.sent peer message r.state.root], clock := n }) :
    wp (send host peer message) (fun _ r' => J r') (fun _ r' => J r') r := by
  rw [send, wp_bind, wp_modify]
  exact wp_io (h _) fun _ => h _

theorem io_grows : Keeps Grows (io host) := keeps_io fun _ _ => List.prefix_refl _

theorem onState_grows {α : Type} (x : Prog RootState α) : Keeps Grows (onState x) :=
  keeps_onState (fun _ _ => List.prefix_refl _) x

theorem record_grows (event : WireTrace) : Keeps Grows (record host event) :=
  .bind (onState_grows _) fun _ => io_grows

theorem send_grows (message : WireMessage) : Keeps Grows (send host peer message) :=
  .bind (.modify fun _ => List.prefix_append _ _) fun _ => io_grows

theorem recv_grows : Keeps Grows (recv peer) := by
  refine .bind .get fun _ => ?_
  split
  · exact .throw _
  · exact .throw _
  · exact .bind (.modify fun _ => List.prefix_append _ _) fun _ => .pure _

theorem Serves.onState {α : Type} {x : Prog RootState α}
    (hx : Keeps (Stays (RootState.Serving config)) x) : Keeps (Stays (Serves config)) (onState x) :=
  hx.zoom (fun _ h => h.tables) fun _ _ h hst => ⟨hst, h.greeted, h.answers⟩

theorem io_serves : Keeps (Stays (Serves config)) (io host) :=
  keeps_io fun _ _ h => ⟨h.tables, h.greeted, h.answers⟩

theorem Serves.traced (h : Serves config r) (trace : List WireTrace) (n : Nat) :
    Serves config { r with state := { r.state with trace := trace }, clock := n } :=
  ⟨⟨h.tables.built.congr rfl rfl rfl, h.tables.ids, h.tables.rings⟩, h.greeted, h.answers⟩

theorem record_serves (event : WireTrace) : Keeps (Stays (Serves config)) (record host event) :=
  record_stays (fun _ trace n h => h.traced trace n) event

theorem Serves.sent (h : Serves config r) {message : WireMessage}
    (he : Answers config r.wire (.sent peer message r.state.root)) (n : Nat) :
    Serves config
      { r with wire := r.wire ++ [.sent peer message r.state.root], clock := n } :=
  ⟨h.tables, fun court p hp => (h.greeted court p hp).concat _, h.answers.concat he⟩

/-- Messages that are no `OpenResult` are free. -/
theorem answers_other {wire : List WireEvent} {message : WireMessage} {root : HostedRoot}
    (hm : ∀ status cap ring, message ≠ .openResult status cap ring) :
    Answers config wire (.sent peer message root) := by
  intro p status cap ring root' he
  obtain ⟨-, rfl, -⟩ := WireEvent.sent.inj he
  exact absurd rfl (hm status cap ring)

theorem send_serves {message : WireMessage}
    (hm : ∀ status cap ring, message ≠ .openResult status cap ring) :
    Keeps (Stays (Serves config)) (send host peer message) :=
  keeps_stays.2 fun _ h => wp_send (h.sent (answers_other hm))

/-- A read that fails changes nothing. -/
theorem wp_recv {Q : WireMessage → Runner → Prop} {E : String → Runner → Prop} (hfail : ∀ e, E e r)
    (hread : ∀ message unread, Q message
      { r with unread := unread, wire := r.wire ++ [.received peer message] }) :
    wp (recv peer) Q E r := by
  rw [recv, wp_bind, wp_get]
  split
  · exact (wp_throw _).2 (hfail _)
  · exact (wp_throw _).2 (hfail _)
  · rw [wp_bind, wp_modify, wp_pure]
    exact hread _ _

/-- A message that was read is the last one of its connection. -/
theorem recv_spec (h : Serves config r) :
    wp (recv peer)
      (fun message r' => Serves config r' ∧ r'.state = r.state ∧ r'.peers = r.peers ∧
        r'.wire = r.wire ++ [.received peer message])
      (fun _ r' => Serves config r') r := by
  refine wp_recv (fun _ => h) fun message unread => ⟨⟨h.tables, fun court p hp => ?_,
    h.answers.concat fun _ _ _ _ _ => nofun⟩, rfl, rfl, rfl⟩
  exact (h.greeted court p hp).concat _

theorem recv_serves : Keeps (Stays (Serves config)) (recv peer) :=
  keeps_stays.2 fun _ h => wp_mono (recv_spec h) (fun _ _ h' => h'.1) fun _ _ h' => h'

theorem getPeer_serves {court message : String} :
    Keeps (Stays (Serves config)) (getPeer court message) :=
  .bind .get fun _ => .expect _ _

theorem recordTraceFrom_serves {label : String} :
    Keeps (Stays (Serves config)) (recordTraceFrom host peer label) := by
  refine .bind recv_serves fun message => ?_
  split
  · exact record_serves _
  · exact .throw _

/-! ## Opens -/

/-- The result of an open, and whether it succeeded. -/
theorem openStatus_root (st : RootState) (id : CourtId) (d : Descriptor) (cap : Option CapId)
    (rights : Rights) :
    wp (openStatus id d cap rights)
      (fun status st' => st' = { st with root := (st.root.open id d cap rights).2 } ∧
        (status = .ok → ∃ c, (st.root.open id d cap rights).1 = .ok c))
      (fun _ _ => False) st := by
  rw [openStatus, wp_bind, wp_get]
  generalize st.root.open id d cap rights = x
  obtain ⟨e | c, root⟩ := x
  · rw [wp_bind, wp_set, wp_pure]
    refine ⟨rfl, fun hok => ?_⟩
    cases e <;> cases hok
  · rw [wp_bind, wp_set, wp_pure]
    exact ⟨rfl, fun _ => ⟨c, rfl⟩⟩

theorem openStatus_spec {st : RootState} {id : CourtId} {d : Descriptor} {cap : Option CapId}
    {rights : Rights} (h : st.Serving config) :
    wp (openStatus id d cap rights)
      (fun status st' => st'.Serving config ∧ st'.root = (st.root.open id d cap rights).2 ∧
        (status = .ok → ∃ c, (st.root.open id d cap rights).1 = .ok c))
      (fun _ _ => False) st := by
  refine wp_mono (openStatus_root st id d cap rights) (fun status st' hst => ?_) fun _ _ he => he
  obtain ⟨rfl, hopen⟩ := hst
  exact ⟨h.call (c := .open id d cap rights) rfl, rfl, hopen⟩

/-- The last message of the connection is an open of the court. -/
def Asked (peer : JsonLinePeer) (court path : String) (asked : Option WireCap) (rights : WireRights)
    (wire : List WireEvent) : Prop :=
  Greeted peer court wire ∧ (receivedFrom peer wire).getLast? = some (.open path asked rights)

variable {court path : String} {asked : Option WireCap} {rights : WireRights} {status : WireStatus}

theorem Greeted.asks {wire : List WireEvent} (h : Greeted peer court wire) :
    Asked peer court path asked rights (wire ++ [.received peer (.open path asked rights)]) := by
  refine ⟨h.concat _, ?_⟩
  rw [receivedFrom_received, if_pos rfl, List.getLast?_concat]

/-- The runner has decided on the status of its answer. -/
structure Decided (config : RootConfig) (peer : JsonLinePeer) (court path : String)
    (asked : Option WireCap) (rights : WireRights) (status : WireStatus) (r : Runner) : Prop
    extends Serves config r where
  asks : Asked peer court path asked rights r.wire
  entitled : status = .ok →
    ∃ request, asked = some request ∧ Entitled r.state.root court path request rights

theorem record_decided (event : WireTrace) :
    Keeps (Stays (Decided config peer court path asked rights status)) (record host event) :=
  record_stays (fun _ trace n h => ⟨h.traced trace n, h.asks, h.entitled⟩) event

/-- A refusal says nothing. -/
theorem Decided.refuse (h : Decided config peer court path asked rights status r)
    (hs : status ≠ .ok) :
    Answers config r.wire (.sent peer (.openResult status none none) r.state.root) := by
  intro p status' cap ring root he
  obtain ⟨rfl, hmessage, rfl⟩ := WireEvent.sent.inj he
  obtain ⟨rfl, rfl, rfl⟩ := WireMessage.openResult.inj hmessage
  refine ⟨court, path, asked, rights, h.asks.1, h.asks.2, fun hsome => ?_,
    fun _ hinfo => by cases hinfo⟩
  rcases hsome with hok | hcap | hring
  · exact absurd hok hs
  · exact absurd rfl hcap
  · exact absurd rfl hring

/-- A court that is entitled is told about the ring of the corridor. -/
theorem Decided.disclose (h : Decided config peer court path asked rights status r)
    (hs : status = .ok) {cap : Option WireCap} {info : WireRingInfo}
    (hinfo : r.state.ringInfo.lookup path = some info) :
    Answers config r.wire (.sent peer (.openResult status cap (some info)) r.state.root) := by
  intro p status' cap' ring root he
  obtain ⟨rfl, hmessage, rfl⟩ := WireEvent.sent.inj he
  obtain ⟨rfl, rfl, rfl⟩ := WireMessage.openResult.inj hmessage
  refine ⟨court, path, asked, rights, h.asks.1, h.asks.2, fun _ => h.entitled hs,
    fun info' he => ?_⟩
  obtain rfl := Option.some.inj he
  exact h.tables.rings path info hinfo

theorem handleAppLookup_serves {appName : String} :
    Keeps (Stays (Serves config)) (handleAppLookup host peer appName) := by
  refine .bind recv_serves fun message => .bind .get fun runner => ?_
  dsimp only
  split
  · refine .ite (.bind (.expect _ _) fun id => .bind (Serves.onState ?_) fun d =>
      .bind (record_serves _) fun _ => send_serves fun _ _ _ => nofun) (.throw _)
    exact RootState.callRoot_serving (.lookup id _) rfl fun _ => rfl
  · exact .throw _

/-- The open without a capability is refused. -/
theorem handleDeniedOpen_serves (h : Serves config r) (hello : Greeted peer court r.wire) :
    wp (handleDeniedOpen host peer court) (fun _ r' => Serves config r')
      (fun _ r' => Serves config r') r := by
  rw [handleDeniedOpen, wp_bind]
  refine wp_mono (recv_spec h) (fun message r₁ h₁ => ?_) fun _ _ he => he
  obtain ⟨hserves, -, -, hwire⟩ := h₁
  rw [wp_bind, wp_get]
  dsimp only
  split
  · rename_i path rights
    refine wp_ite.2 ⟨fun _ => ?_, fun _ => (wp_throw _).2 hserves⟩
    simp only [wp_bind, wp_expect]
    refine ⟨fun id hid => ⟨fun d hd => ?_, fun _ => hserves⟩, fun _ => hserves⟩
    rw [wp_onState]
    refine wp_mono (openStatus_spec hserves.tables) (fun status st hst => ?_) fun _ _ he => he.elim
    obtain ⟨htables, hroot, hopen⟩ := hst
    have hs : status ≠ .ok := by
      intro hok
      obtain ⟨c, hc⟩ := hopen hok
      cases (HostedRoot.open_ok hc).1
    have hdecided : Decided config peer court path none rights status { r₁ with state := st } :=
      ⟨⟨htables, hserves.greeted, hserves.answers⟩, hwire ▸ hello.asks, fun hok => absurd hok hs⟩
    refine wp_mono (keeps_stays.1 (record_decided _) _ hdecided) (fun _ r₂ h₂ => ?_)
      fun _ _ he => he.toServes
    exact wp_send (h₂.sent (h₂.refuse hs))
  · exact (wp_throw _).2 hserves

theorem handleAppLookup_grows {appName : String} :
    Keeps Grows (handleAppLookup host peer appName) := by
  refine .bind recv_grows fun message => .bind .get fun runner => ?_
  dsimp only
  split
  · exact .ite (.bind (.expect _ _) fun _ => .bind (onState_grows _) fun _ =>
      .bind (record_grows _) fun _ => send_grows _) (.throw _)
  · exact .throw _

theorem handleAppLookupAndDeniedOpen_serves (h : Serves config r)
    (hello : Greeted peer court r.wire) :
    wp (handleAppLookupAndDeniedOpen host peer court) (fun _ r' => Serves config r')
      (fun _ r' => Serves config r') r := by
  rw [handleAppLookupAndDeniedOpen, wp_bind]
  refine wp_mono (wp_and (keeps_stays.1 handleAppLookup_serves r h) (handleAppLookup_grows r))
    (fun _ r₁ h₁ => ?_) fun _ _ he => he.1
  exact handleDeniedOpen_serves h₁.1 (hello.mono h₁.2)

theorem answerOpen_serves (h : Serves config r) {request : WireCap} {id : CourtId} {d : Descriptor}
    (hask : Asked peer court path (some request) rights r.wire)
    (hid : r.state.courtIds.lookup court = some id)
    (hd : r.state.descriptors.lookup path = some d) :
    wp (answerOpen host peer court path id d request ⟨request.id.toNat⟩ rights)
      (fun _ r' => Serves config r') (fun _ r' => Serves config r') r := by
  rw [answerOpen, wp_bind, wp_onState]
  refine wp_mono (openStatus_spec h.tables) (fun status st hst => ?_) fun _ _ he => he.elim
  obtain ⟨htables, hroot, hopen⟩ := hst
  have hdecided : Decided config peer court path (some request) rights status
      { r with state := st } := by
    refine ⟨⟨htables, h.greeted, h.answers⟩, hask, fun hok => ⟨request, rfl, ?_⟩⟩
    obtain ⟨c, hc⟩ := hopen hok
    show Entitled st.root court path request rights
    rw [hroot]
    exact h.tables.built.entitled hid hd hc
  rw [wp_bind]
  refine wp_mono (keeps_stays.1 (record_decided _) _ hdecided) (fun _ r₂ h₂ => ?_)
    fun _ _ he => he.toServes
  refine wp_ite.2 ⟨fun hok => ?_, fun hno => ?_⟩
  · simp only [wp_bind, wp_get, wp_expect]
    exact ⟨fun info hinfo => wp_send (h₂.sent (h₂.disclose hok hinfo)), fun _ => h₂.toServes⟩
  · rw [wp_bind]
    exact wp_mono (wp_send (h₂.sent (h₂.refuse hno))) (fun _ _ h₃ => (wp_throw _).2 h₃)
      fun _ _ he => he

theorem handleOpen_serves (h : Serves config r) (hello : Greeted peer court r.wire) {id : CourtId}
    {d : Descriptor} (hid : r.state.courtIds.lookup court = some id)
    (hd : r.state.descriptors.lookup path = some d) :
    wp (handleOpen host peer court path id d) (fun _ r' => Serves config r')
      (fun _ r' => Serves config r') r := by
  rw [handleOpen, wp_bind]
  refine wp_mono (recv_spec h) (fun message r₁ h₁ => ?_) fun _ _ he => he
  obtain ⟨hserves, hstate, -, hwire⟩ := h₁
  rw [wp_bind, wp_get]
  dsimp only
  split
  · rename_i requestPath request rights
    refine wp_ite.2 ⟨fun hpath => ?_, fun _ => (wp_throw _).2 hserves⟩
    subst hpath
    have hask : Asked peer court requestPath (some request) rights r₁.wire := hwire ▸ hello.asks
    split
    · rename_i core hcore
      obtain rfl : core = ⟨request.id.toNat⟩ := by
        rw [← hserves.tables.ids _ core hcore]
      exact answerOpen_serves hserves hask (hstate ▸ hid) (hstate ▸ hd)
    · have hdecided : Decided config peer court requestPath (some request) rights .badCap r₁ :=
        ⟨hserves, hask, fun hok => by cases hok⟩
      rw [wp_bind]
      exact wp_mono (wp_send (hserves.sent (hdecided.refuse nofun))) (fun _ _ h₂ => (wp_throw _).2 h₂)
        fun _ _ he => he
  · exact (wp_throw _).2 hserves

/-- What is known about a court and a corridor while the runner talks to the court. -/
structure Meets (config : RootConfig) (peer : JsonLinePeer) (court path : String) (id : CourtId)
    (d : Descriptor) (r : Runner) : Prop extends Serves config r where
  hello : Greeted peer court r.wire
  known : r.state.courtIds.lookup court = some id
  described : r.state.descriptors.lookup path = some d

theorem record_meets {id : CourtId} {d : Descriptor} (event : WireTrace) :
    Keeps (Stays (Meets config peer court path id d)) (record host event) :=
  record_stays (fun _ trace n h => ⟨h.traced trace n, h.hello, h.known, h.described⟩) event

theorem grant_meets {id : CourtId} {d : Descriptor} {cap : WireCap} :
    Keeps (Stays (Meets config peer court path id d)) (send host peer (.grant path cap)) := by
  refine keeps_stays.2 fun r h => wp_send fun n => ?_
  have hfree : Answers config r.wire (.sent peer (.grant path cap) r.state.root) :=
    answers_other fun _ _ _ => nofun
  exact ⟨h.toServes.sent hfree n, h.hello.concat _, h.known, h.described⟩

theorem handleGrantAndOpen_serves (h : Serves config r) (hello : Greeted peer court r.wire)
    (rights : Rights) :
    wp (handleGrantAndOpen host peer court path rights) (fun _ r' => Serves config r')
      (fun _ r' => Serves config r') r := by
  rw [handleGrantAndOpen, wp_bind, wp_onState]
  refine wp_mono (RootState.grantCap_serving h.tables court path rights) (fun x st hst => ?_)
    fun _ st hst => ⟨hst, h.greeted, h.answers⟩
  obtain ⟨id, d, cap⟩ := x
  obtain ⟨htables, hid, hd⟩ := hst
  have hmeets : Meets config peer court path id d { r with state := st } :=
    ⟨⟨htables, h.greeted, h.answers⟩, hello, hid, hd⟩
  rw [wp_bind]
  refine wp_mono (keeps_stays.1 (record_meets _) _ hmeets) (fun _ r₁ h₁ => ?_)
    fun _ _ he => he.toServes
  rw [wp_bind]
  refine wp_mono (keeps_stays.1 grant_meets _ h₁) (fun _ r₂ h₂ => ?_) fun _ _ he => he.toServes
  rw [wp_bind]
  exact wp_mono (handleOpen_serves h₂.toServes h₂.hello h₂.known h₂.described)
    (fun _ _ h₃ => (wp_pure _).2 h₃) fun _ _ he => he

/-! ## The parts of a run -/

theorem courtRole_serves (court : String) : Keeps (Stays (Serves config)) (courtRole court) :=
  .bind .get fun _ => .expect _ _

theorem spawnCourts_serves : Keeps (Stays (Serves config)) (spawnCourts host) := by
  refine .bind .get fun _ => .foldlM (fun children entry => ?_) _ _
  refine .bind (courtRole_serves _) fun role => .bind ?_ fun child => .pure _
  exact .ite (.bind io_serves fun _ => .pure _) (.throw _)

/-- A connection that has not sent anything is greeted by its hello. -/
theorem acceptPeer_serves (h : Serves config r) (hnew : receivedFrom peer r.wire = [])
    (demo : WireDemoConfig) :
    wp (acceptPeer host demo peer)
      (fun _ r' => Serves config r' ∧ ∀ p, p ≠ peer →
        receivedFrom p r'.wire = receivedFrom p r.wire)
      (fun _ r' => Serves config r') r := by
  have hclock : ∀ n, Serves config { r with clock := n } :=
    fun n => ⟨h.tables, h.greeted, h.answers⟩
  rw [acceptPeer, wp_bind]
  refine wp_io ?_ fun _ => hclock _
  rw [wp_bind]
  refine wp_io ?_ fun _ => hclock _
  rw [wp_bind]
  refine wp_mono (recv_spec (hclock _)) (fun message r₁ h₁ => ?_) fun _ _ he => he
  obtain ⟨hserves, -, -, hwire⟩ := h₁
  split
  · rename_i court
    have hgreeted : Greeted peer court r₁.wire := by
      rw [Greeted, hwire, receivedFrom_received, hnew, if_pos rfl]
      rfl
    have hothers : ∀ p, p ≠ peer → receivedFrom p r₁.wire = receivedFrom p r.wire := by
      intro p hp
      rw [hwire, receivedFrom_received, if_neg (Ne.symm hp), List.append_nil]
    rw [wp_bind]
    refine wp_mono (wp_send (J := fun r' => Serves config r' ∧ Greeted peer court r'.wire ∧
      ∀ p, p ≠ peer → receivedFrom p r'.wire = receivedFrom p r.wire) fun n => ?_)
      (fun _ r₂ h₂ => ?_) fun _ _ he => he.1
    · have hfree : Answers config r₁.wire (.sent peer (.helloAck .ok court demo) r₁.state.root) :=
        answers_other fun _ _ _ => nofun
      refine ⟨hserves.sent hfree n, hgreeted.concat _, fun p hp => ?_⟩
      exact (receivedFrom_sent ..).trans (hothers p hp)
    · obtain ⟨hserves₂, hgreeted₂, hothers₂⟩ := h₂
      refine (wp_modify _).2 ⟨⟨hserves₂.tables, fun name p hp => ?_, hserves₂.answers⟩, hothers₂⟩
      simp only [HashMap.lookup_insert_ite] at hp
      split at hp
      · rename_i hname
        rw [hname, ← Option.some.inj hp]
        exact hgreeted₂
      · exact hserves₂.greeted name p hp
  · exact (wp_throw _).2 hserves

/-- Connections that are still to come have not sent anything. -/
theorem acceptPeers_serves (count : Nat) (demo : WireDemoConfig) (pending : List JsonLinePeer)
    (hnodup : pending.Nodup) (h : Serves config r)
    (hnew : ∀ p ∈ pending, receivedFrom p r.wire = []) :
    wp (acceptPeers host count demo pending) (fun _ r' => Serves config r')
      (fun _ r' => Serves config r') r := by
  induction pending generalizing r with
  | nil =>
    rw [acceptPeers, wp_bind, wp_get]
    exact wp_ite.2 ⟨fun _ => (wp_throw _).2 h, fun _ => (wp_pure _).2 h⟩
  | cons peer pending ih =>
    rw [acceptPeers, wp_bind, wp_get]
    refine wp_ite.2 ⟨fun _ => ?_, fun _ => (wp_pure _).2 h⟩
    rw [List.nodup_cons] at hnodup
    rw [List.forall_mem_cons] at hnew
    rw [wp_bind]
    refine wp_mono (acceptPeer_serves h hnew.1 demo) (fun _ r₁ h₁ => ?_) fun _ _ he => he
    refine ih hnodup.2 h₁.1 fun p hp => ?_
    rw [h₁.2 p fun heq => hnodup.1 (heq ▸ hp)]
    exact hnew.2 p hp

/-- A peer from the table has said its name. -/
theorem wp_getPeer {Q : JsonLinePeer → Runner → Prop} {court message : String}
    (h : Serves config r) (hQ : ∀ peer, Greeted peer court r.wire → Q peer r) :
    wp (getPeer court message) Q (fun _ r' => Serves config r') r := by
  rw [getPeer, wp_bind, wp_get, wp_expect]
  exact ⟨fun peer hpeer => hQ peer (h.greeted court peer hpeer), fun _ => h⟩

theorem handleGrants_serves (grants : List ResolvedGrant) :
    Keeps (Stays (Serves config)) (forM grants fun grant => do
      let peer ← getPeer grant.court s!"court {grant.court} did not connect to root"
      let _ ← handleGrantAndOpen host peer grant.court grant.path grant.rights) := by
  refine .forM (fun grant => keeps_stays.2 fun r h => ?_) grants
  rw [wp_bind]
  refine wp_getPeer h fun peer hpeer => ?_
  rw [wp_bind]
  exact wp_mono (handleGrantAndOpen_serves h hpeer grant.rights) (fun _ _ h' => (wp_pure _).2 h')
    fun _ _ he => he

theorem serveGrants_serves : Keeps (Stays (Serves config)) (serveGrants host) := by
  refine .bind (.bind .get fun _ => .expect _ _) fun appName => keeps_stays.2 fun r h => ?_
  rw [wp_bind]
  refine wp_getPeer h fun app happ => ?_
  rw [wp_bind]
  refine wp_mono (handleAppLookupAndDeniedOpen_serves h happ) (fun _ r₁ h₁ => ?_) fun _ _ he => he
  refine keeps_stays.1 (.bind .get fun _ => .bind (.ofExcept _) fun grants =>
    .bind (handleGrants_serves grants) fun _ => ?_) r₁ h₁
  exact .bind getPeer_serves fun _ => .bind recordTraceFrom_serves fun _ =>
    .bind (.bind .get fun _ => .expect _ _) fun _ => .bind getPeer_serves fun _ =>
    recordTraceFrom_serves

theorem runRevokes_serves : Keeps (Stays (Serves config)) (runRevokes host) := by
  refine .bind .get fun _ => .forM (fun revoke => ?_) _
  refine .bind (Serves.onState (RootState.revokeCap_serving revoke)) fun ⟨cap, rights⟩ => ?_
  exact .bind (record_serves _) fun _ => .bind getPeer_serves fun _ =>
    .bind (send_serves fun _ _ _ => nofun) fun _ => recordTraceFrom_serves

theorem runFaults_serves (children : HashMap String Child) :
    Keeps (Stays (Serves config)) (runFaults host children) := by
  refine .bind .get fun _ => .forM (fun fault => ?_) _
  refine .bind getPeer_serves fun _ => .bind (send_serves fun _ _ _ => nofun) fun _ =>
    .bind recordTraceFrom_serves fun _ => .bind (.expect _ _) fun child =>
    .bind (.bind io_serves fun _ => .ite (.pure _) (.throw _)) fun _ => .bind (.modify ?_) fun _ =>
    .bind (Serves.onState (RootState.faultCourt_serving fault)) fun _ => .bind .get fun _ =>
    record_serves _
  intro r h
  exact ⟨h.tables, fun court peer hpeer => h.greeted court peer (HashMap.lookup_of_erase hpeer),
    h.answers⟩

theorem runPeerDown_serves : Keeps (Stays (Serves config)) (runPeerDown host) := by
  refine .bind .get fun _ => .forM (fun peerDown => ?_) _
  refine .bind getPeer_serves fun _ => .bind (send_serves fun _ _ _ => nofun) fun _ =>
    .bind (record_serves _) fun _ => .bind recordTraceFrom_serves fun _ =>
    .bind recv_serves fun message => ?_
  split
  · exact .ite (record_serves _) (.throw _)
  · exact .throw _

theorem awaitChildren_serves (children : HashMap String Child) :
    Keeps (Stays (Serves config)) (awaitChildren host children) :=
  .forM (fun _ => .bind .get fun _ =>
    .ite (.bind io_serves fun _ => .ite (.pure _) (.throw _)) (.pure _)) _

/-! ## Before the first message -/

/-- Nothing was sent or received, and nobody connected. -/
def Silent (r r' : Runner) : Prop := r'.wire = r.wire ∧ r'.peers = r.peers

instance Silent.refl : Std.Refl Silent := ⟨fun _ => ⟨rfl, rfl⟩⟩

instance Silent.trans : Trans Silent Silent Silent :=
  ⟨fun h h' => ⟨h'.1.trans h.1, h'.2.trans h.2⟩⟩

theorem io_silent : Keeps Silent (io host) := keeps_io fun _ _ => ⟨rfl, rfl⟩

theorem onState_silent {α : Type} (x : Prog RootState α) : Keeps Silent (onState x) :=
  keeps_onState (fun _ _ => ⟨rfl, rfl⟩) x

theorem record_silent (event : WireTrace) : Keeps Silent (record host event) :=
  .bind (onState_silent _) fun _ => io_silent

theorem spawnCourts_silent : Keeps Silent (spawnCourts host) :=
  .bind .get fun _ => .foldlM (fun _ _ => .bind (.bind .get fun _ => .expect _ _) fun _ =>
    .bind (.ite (.bind io_silent fun _ => .pure _) (.throw _)) fun _ => .pure _) _ _

theorem createRing_silent {path : String} {capacity slotSize : UInt32} :
    Keeps Silent (createRing host path capacity slotSize) :=
  .bind (.ofExcept _) fun _ => .bind io_silent fun _ => .bind (.modify fun _ => ⟨rfl, rfl⟩) fun _ =>
    .bind io_silent fun _ => .modify fun _ => ⟨rfl, rfl⟩

theorem buildState_silent : Keeps Silent (buildState host config) := by
  refine .bind (.forM (fun _ => onState_silent _) _) fun _ => .bind (.forM (fun corridor => ?_) _)
    fun _ => .bind (.expect _ _) fun _ => .bind (onState_silent _) fun _ => io_silent
  exact .bind (onState_silent _) fun _ => .bind createRing_silent fun _ => onState_silent _

/-- The runner serves once a valid manifest is built. -/
theorem Building.serves (h : Building config config.manifest.corridors r) (hwire : r.wire = [])
    (hpeers : r.peers = ∅) : Serves config r := by
  refine ⟨⟨h.built, fun n cap hn => ?_, fun path info => (h.rings path info).1⟩,
    fun court peer hpeer => ?_, ?_⟩
  · rw [h.caps] at hn
    cases hn
  · rw [hpeers] at hpeer
    cases hpeer
  · rw [hwire]
    exact justified_nil

/-! ## The run -/

theorem connections_nodup : (connections host).Nodup :=
  List.nodup_range.map fun _ _ h => JsonLinePeer.mk.inj h

/-- The runner serves once all courts are connected. -/
theorem connect_serves (files : HashMap String SharedRing) :
    wp (connect host config) (fun _ r' => Serves config r')
      (fun _ r' => Justified (Answers config) r'.wire) (.new host config.policy files) := by
  rw [connect, wp_bind, wp_ofExcept]
  refine ⟨fun _ hv => ?_, fun _ _ => justified_nil⟩
  have hvalid := validate_eq_ok.1 hv
  rw [wp_bind]
  refine wp_io ?_ fun _ => justified_nil
  rw [wp_bind]
  refine wp_io ?_ fun _ => justified_nil
  rw [wp_bind]
  refine wp_mono (wp_and (buildState_spec hvalid rfl) (buildState_silent _)) (fun _ r₁ h₁ => ?_)
    fun _ r₁ h₁ => ?_
  · have hserves := h₁.1.serves h₁.2.1 h₁.2.2
    rw [wp_bind, wp_get, wp_bind]
    refine wp_mono (wp_and (keeps_stays.1 (record_serves _) r₁ hserves) (record_silent _ r₁))
      (fun _ r₂ h₂ => ?_) fun _ _ he => he.1.answers
    rw [wp_bind]
    refine wp_mono (wp_and (keeps_stays.1 spawnCourts_serves r₂ h₂.1) (spawnCourts_silent r₂))
      (fun children r₃ h₃ => ?_) fun _ _ he => he.1.answers
    have hwire : r₃.wire = [] := h₃.2.1.trans (h₂.2.1.trans h₁.2.1)
    rw [wp_bind]
    exact wp_mono (acceptPeers_serves _ _ _ connections_nodup h₃.1 fun p _ => by rw [hwire]; rfl)
      (fun _ r₄ h₄ => (wp_pure _).2 h₄) fun _ _ he => he.answers
  · rw [h₁.2.1]
    exact justified_nil

/-- Every `OpenResult` of a run, returned or failed, is answered. -/
theorem runManifestDemo_answers (files : HashMap String SharedRing) :
    wp (runManifestDemo host config) (fun _ r' => Justified (Answers config) r'.wire)
      (fun _ r' => Justified (Answers config) r'.wire) (.new host config.policy files) := by
  have hrest : ∀ children, Keeps (Stays (Serves config)) (serveGrants host >>= fun _ =>
      runRevokes host >>= fun _ => runFaults host children >>= fun _ =>
      runPeerDown host >>= fun _ => awaitChildren host children) := fun children =>
    .bind serveGrants_serves fun _ => .bind runRevokes_serves fun _ =>
      .bind (runFaults_serves children) fun _ => .bind runPeerDown_serves fun _ =>
      awaitChildren_serves children
  rw [runManifestDemo_connect, wp_bind]
  refine wp_mono (connect_serves files) (fun children r₁ h₁ => ?_) fun _ _ he => he
  exact wp_mono (keeps_stays.1 (hrest children) r₁ h₁) (fun _ _ h₂ => h₂.answers)
    fun _ _ he => he.answers

/-- **Ring disclosure.**  In every run, whatever the courts write on their connections: the root
sends an `OpenResult` only as an answer to an `Open`, it tells about a ring only the one of the
corridor that was asked for, and unless the court is entitled at that moment, the result is not
`Ok` and has neither a capability nor a ring in it. -/
theorem ring_disclosure {files : HashMap String SharedRing} {pre post : List WireEvent}
    {status : WireStatus} {cap : Option WireCap} {ring : Option WireRingInfo} {root : HostedRoot}
    (h : (stateOf (runManifestDemo host config (.new host config.policy files))).wire =
      pre ++ .sent peer (.openResult status cap ring) root :: post) :
    ∃ court path asked rights, (receivedFrom peer pre).head? = some (.hello court) ∧
      (receivedFrom peer pre).getLast? = some (.open path asked rights) ∧
      (∀ info, ring = some info →
        (∃ corridor ∈ config.manifest.corridors, corridor.path = path ∧
          corridor.ringInfo config.runDir = info) ∧
        ∃ request, asked = some request ∧ Entitled root court path request rights) ∧
      ((¬ ∃ request, asked = some request ∧ Entitled root court path request rights) →
        status ≠ .ok ∧ cap = none ∧ ring = none) := by
  have hanswers : Justified (Answers config) (stateOf (runManifestDemo host config _)).wire :=
    wp_stateOf (J := fun r : Runner => Justified (Answers config) r.wire)
      (runManifestDemo_answers files)
  obtain ⟨court, path, asked, rights, hello, hlast, hentitled, hring⟩ :=
    hanswers pre _ post h peer status cap ring root rfl
  refine ⟨court, path, asked, rights, hello, hlast, fun info hinfo => ⟨hring info hinfo, ?_⟩,
    fun hno => ?_⟩
  · exact hentitled (Or.inr (Or.inr (by rw [hinfo]; exact nofun)))
  · refine ⟨fun hok => hno (hentitled (Or.inl hok)), ?_, ?_⟩
    · by_contra hcap
      exact hno (hentitled (Or.inr (Or.inl hcap)))
    · by_contra hsome
      exact hno (hentitled (Or.inr (Or.inr hsome)))

/-- Two courts that follow the demo up to the two opens. -/
def demoScripts : List (List WireMessage) :=
  [[.hello "app", .lookup "/court/net0/packet/rx",
      .open "/court/net0/packet/rx" none (.fromRights .SEND),
      .open "/court/net0/packet/rx" (some ⟨3, .fromRights .SEND⟩) (.fromRights .SEND)],
    [.hello "net0",
      .open "/court/net0/packet/rx" (some ⟨2, .fromRights .RECV⟩) (.fromRights .RECV)]]

/-- A run with these courts. -/
@[irreducible] def demoRun : Runner :=
  stateOf (runManifestDemo (.scripted demoScripts fun _ => ⟨some 0, ""⟩)
    ⟨"run", .builtinPacketRx, .builtinPacketRx⟩
    (.new (.scripted demoScripts fun _ => ⟨some 0, ""⟩) .builtinPacketRx ∅))

/-- The app is told about the ring. -/
theorem ring_disclosure_packet_rx : ∃ pre post root,
    demoRun.wire = pre ++ .sent ⟨0⟩ (.openResult .ok (some ⟨3, ⟨4⟩⟩)
      (some ⟨"run/packet-rx.ring", 64, 2048⟩)) root :: post ∧
    ∃ court path request rights, Entitled root court path request rights := by
  have hany : demoRun.wire.any (sentAs fun p message _ => p = ⟨0⟩ ∧
      message = .openResult .ok (some ⟨3, ⟨4⟩⟩) (some ⟨"run/packet-rx.ring", 64, 2048⟩)) = true := by
    unfold demoRun
    decide +kernel
  obtain ⟨e, hmem, he⟩ := List.any_eq_true.1 hany
  obtain ⟨p, message, root, rfl, htest⟩ := sentAs_eq_true.1 he
  obtain ⟨rfl, rfl⟩ := of_decide_eq_true htest
  obtain ⟨pre, post, hwire⟩ := List.append_of_mem hmem
  refine ⟨pre, post, root, hwire, ?_⟩
  unfold demoRun at hwire
  obtain ⟨court, path, asked, rights, -, -, hring, -⟩ := ring_disclosure hwire
  obtain ⟨-, request, -, hentitled⟩ := hring _ rfl
  exact ⟨court, path, request, rights, hentitled⟩

end Runner

end CourtKernel
