import CourtKernel.Linux.Disclosure

/-!
# What holds throughout a run

Most steps of the root runner call methods of the object model, read messages, record events, and
send messages that hand nobody a capability.  A property of the runner that such steps keep holds
throughout a run, once it is shown for the two functions that do more: `build_state`, which fills
the tables, and `handle_grant_and_open`, which hands out capabilities.

* `Robust J` — what `J` has to keep.
* `ByCalls x` — a program on the tables that changes nothing but the object model, and that by its
  public methods.
* `Robust.acceptPeers`, `Robust.handleDeniedOpen`, … — one lemma for each part of a run.
* `runManifestDemo_keeps` — whole runs, for properties that do not look at the other tables.
-/

namespace CourtKernel

/-- The message hands a capability to a court. -/
def WireMessage.handsCap : WireMessage → Bool
  | .grant .. => true
  | .openResult _ (some _) _ => true
  | _ => false

namespace RootState

/-- The property survives the methods of the object model. -/
def CallsKeep (P : RootState → Prop) : Prop :=
  ∀ st (c : HostedRoot.Call), P st → P { st with root := (st.root.call c).2 }

/-- The program only calls methods of the object model. -/
def ByCalls {α : Type} (x : Prog RootState α) : Prop :=
  ∀ P : RootState → Prop, CallsKeep P → Keeps (Stays P) x

theorem byCalls_callRoot {α : Type} {method : HostedRoot → CkResult α × HostedRoot}
    (c : HostedRoot.Call) (hm : ∀ root, (method root).2 = (root.call c).2) :
    ByCalls (callRoot method) := by
  refine fun P hP => keeps_stays.2 fun st h => wp_callRoot.2 ?_
  rw [hm]
  exact ⟨fun _ _ => hP st c h, fun _ _ => hP st c h⟩

theorem byCalls_revokeCap (revoke : RevokePolicy) : ByCalls (revokeCap revoke) := fun P hP =>
  .bind .get fun _ => .bind (.expect _ _) fun key =>
    .bind (byCalls_callRoot (.revoke key.1) (fun _ => rfl) P hP) fun _ => .pure _

theorem byCalls_faultCourt (fault : FaultPolicy) : ByCalls (faultCourt fault) := fun P hP =>
  .bind .get fun _ => .bind (.expect _ _) fun id =>
    byCalls_callRoot (.faultCourt id) (fun _ => rfl) P hP

end RootState

namespace Runner

open RootState (CallsKeep ByCalls byCalls_callRoot)

/-- The property survives a method of the object model, an event in the trace, a message from a
court, and a message to a court that hands it no capability.  It does not depend on files and
connections. -/
structure Robust (J : Runner → Prop) : Prop where
  aside : ∀ r files peers unread clock, J r →
    J { r with files := files, peers := peers, unread := unread, clock := clock }
  traced : ∀ r trace, J r → J { r with state := { r.state with trace := trace } }
  call : ∀ (r : Runner) (c : HostedRoot.Call), J r →
    J { r with state := { r.state with root := (r.state.root.call c).2 } }
  received : ∀ r peer message, J r → J { r with wire := r.wire ++ [.received peer message] }
  sent : ∀ (r : Runner) peer message, message.handsCap = false → J r →
    J { r with wire := r.wire ++ [.sent peer message r.state.root] }

variable {host : Host} {config : RootConfig} {J : Runner → Prop}

theorem byCalls_openStatus (id : CourtId) (d : Descriptor) (cap : Option CapId) (rights : Rights) :
    ByCalls (openStatus id d cap rights) := by
  refine fun P hP => keeps_stays.2 fun st h => ?_
  refine wp_mono (openStatus_root st id d cap rights) (fun _ st' hst => ?_) fun _ _ he => he.elim
  rw [hst.1]
  exact hP st (.open id d cap rights) h

/-- A program on the tables, for properties that its calls keep. -/
theorem keeps_byCalls (hcall : ∀ (r : Runner) (c : HostedRoot.Call), J r →
    J { r with state := { r.state with root := (r.state.root.call c).2 } })
    {α : Type} {x : Prog RootState α} (hx : ByCalls x) : Keeps (Stays J) (onState x) := by
  refine keeps_stays.2 fun r h => wp_onState.2 ?_
  exact keeps_stays.1 (hx (fun st => J { r with state := st }) fun st c h' => hcall _ c h') r.state h

theorem keeps_getPeer {court message : String} : Keeps (Stays J) (getPeer court message) :=
  .bind .get fun _ => .expect _ _

namespace Robust

variable (hJ : Robust J)

include hJ

theorem io : Keeps (Stays J) (io host) := keeps_io fun r n => hJ.aside r r.files r.peers r.unread n

theorem record (event : WireTrace) : Keeps (Stays J) (record host event) :=
  record_stays (fun _ trace n h => hJ.aside _ _ _ _ n (hJ.traced _ trace h)) event

theorem onState {α : Type} {x : Prog RootState α} (hx : ByCalls x) : Keeps (Stays J) (onState x) :=
  keeps_byCalls hJ.call hx

theorem send {peer : JsonLinePeer} {message : WireMessage} (hm : message.handsCap = false) :
    Keeps (Stays J) (send host peer message) :=
  .bind (.modify fun r h => hJ.sent r peer message hm h) fun _ => hJ.io

theorem recv {peer : JsonLinePeer} : Keeps (Stays J) (recv peer) :=
  keeps_stays.2 fun r h => wp_recv (fun _ => h) fun message unread =>
    hJ.aside _ r.files r.peers unread r.clock (hJ.received r peer message h)

theorem recordTraceFrom {peer : JsonLinePeer} {label : String} :
    Keeps (Stays J) (recordTraceFrom host peer label) := by
  refine .bind hJ.recv fun message => ?_
  split
  · exact hJ.record _
  · exact .throw _

/-! ## The parts of a run -/

theorem createRing {path : String} {capacity slotSize : UInt32} :
    Keeps (Stays J) (createRing host path capacity slotSize) :=
  .bind (.ofExcept _) fun _ => .bind hJ.io fun _ =>
    .bind (.modify fun r h => hJ.aside r _ r.peers r.unread r.clock h) fun _ =>
    .bind hJ.io fun _ => .modify fun r h => hJ.aside r _ r.peers r.unread r.clock h

theorem spawnCourts : Keeps (Stays J) (spawnCourts host) :=
  .bind .get fun _ => .foldlM (fun _ _ => .bind (.bind .get fun _ => .expect _ _) fun _ =>
    .bind (.ite (.bind hJ.io fun _ => .pure _) (.throw _)) fun _ => .pure _) _ _

theorem acceptPeer (demo : WireDemoConfig) (peer : JsonLinePeer) :
    Keeps (Stays J) (acceptPeer host demo peer) := by
  refine .bind hJ.io fun _ => .bind hJ.io fun _ => .bind hJ.recv fun message => ?_
  split
  · exact .bind (hJ.send rfl) fun _ => .modify fun r h => hJ.aside r r.files _ r.unread r.clock h
  · exact .throw _

theorem acceptPeers (count : Nat) (demo : WireDemoConfig) (pending : List JsonLinePeer) :
    Keeps (Stays J) (acceptPeers host count demo pending) := by
  induction pending with
  | nil => exact .bind .get fun _ => .ite (.throw _) (.pure _)
  | cons peer pending ih =>
    exact .bind .get fun _ => .ite (.bind (hJ.acceptPeer demo peer) fun _ => ih) (.pure _)

theorem handleAppLookup {app : JsonLinePeer} {appName : String} :
    Keeps (Stays J) (handleAppLookup host app appName) := by
  refine .bind hJ.recv fun message => .bind .get fun runner => ?_
  dsimp only
  split
  · refine .ite (.bind (.expect _ _) fun id => .bind (hJ.onState ?_) fun d =>
      .bind (hJ.record _) fun _ => hJ.send rfl) (.throw _)
    exact byCalls_callRoot (.lookup id _) fun _ => rfl
  · exact .throw _

theorem handleDeniedOpen {app : JsonLinePeer} {appName : String} :
    Keeps (Stays J) (handleDeniedOpen host app appName) := by
  refine .bind hJ.recv fun message => .bind .get fun runner => ?_
  dsimp only
  split
  · exact .ite (.bind (.expect _ _) fun _ => .bind (.expect _ _) fun _ =>
      .bind (hJ.onState (byCalls_openStatus _ _ _ _)) fun _ => .bind (hJ.record _) fun _ =>
      hJ.send rfl) (.throw _)
  · exact .throw _

theorem runRevoke (revoke : RevokePolicy) : Keeps (Stays J) (runRevoke host revoke) := by
  refine .bind (hJ.onState (RootState.byCalls_revokeCap revoke)) fun ⟨cap, rights⟩ => ?_
  exact .bind (hJ.record _) fun _ => .bind keeps_getPeer fun _ => .bind (hJ.send rfl) fun _ =>
    hJ.recordTraceFrom

theorem runRevokes : Keeps (Stays J) (runRevokes host) :=
  .bind .get fun _ => .forM hJ.runRevoke _

theorem runFault (children : HashMap String Child) (fault : FaultPolicy) :
    Keeps (Stays J) (runFault host children fault) :=
  .bind keeps_getPeer fun _ => .bind (hJ.send rfl) fun _ => .bind hJ.recordTraceFrom fun _ =>
    .bind (.expect _ _) fun _ => .bind (.bind hJ.io fun _ => .ite (.pure _) (.throw _)) fun _ =>
    .bind (.modify fun r h => hJ.aside r r.files _ r.unread r.clock h) fun _ =>
    .bind (hJ.onState (RootState.byCalls_faultCourt fault)) fun _ =>
    .bind .get fun _ => hJ.record _

theorem runFaults (children : HashMap String Child) : Keeps (Stays J) (runFaults host children) :=
  .bind .get fun _ => .forM (hJ.runFault children) _

theorem runPeerDownOf (peerDown : PeerDownPolicy) :
    Keeps (Stays J) (runPeerDownOf host peerDown) := by
  refine .bind keeps_getPeer fun _ => .bind (hJ.send rfl) fun _ => .bind (hJ.record _) fun _ =>
    .bind hJ.recordTraceFrom fun _ => .bind hJ.recv fun message => ?_
  split
  · exact .ite (hJ.record _) (.throw _)
  · exact .throw _

theorem runPeerDown : Keeps (Stays J) (runPeerDown host) :=
  .bind .get fun _ => .forM hJ.runPeerDownOf _

theorem awaitChildren (children : HashMap String Child) :
    Keeps (Stays J) (awaitChildren host children) :=
  .forM (fun _ => .bind .get fun _ =>
    .ite (.bind hJ.io fun _ => .ite (.pure _) (.throw _)) (.pure _)) _

section

variable (hsent : ∀ (r : Runner) peer message, J r →
  J { r with wire := r.wire ++ [.sent peer message r.state.root] })

include hsent

/-- Properties that do not depend on what is sent. -/
theorem handleOpen {peer : JsonLinePeer} {court path : String} {id : CourtId} {d : Descriptor} :
    Keeps (Stays J) (handleOpen host peer court path id d) := by
  have hsend : ∀ message, Keeps (Stays J) (Runner.send host peer message) := fun message =>
    .bind (.modify fun r h => hsent r peer message h) fun _ => hJ.io
  refine .bind hJ.recv fun message => .bind .get fun runner => ?_
  dsimp only
  split
  · refine .ite ?_ (.throw _)
    split
    · exact .bind (hJ.onState (byCalls_openStatus _ _ _ _)) fun _ => .bind (hJ.record _) fun _ =>
        .ite (.bind .get fun _ => .bind (.expect _ _) fun _ => hsend _)
          (.bind (hsend _) fun _ => .throw _)
    · exact .bind (hsend _) fun _ => .throw _
  · exact .throw _

theorem handleGrantAndOpen {peer : JsonLinePeer} {court path : String} {rights : Rights} {r : Runner}
    (hgrant : wp (Runner.onState (RootState.grantCap court path rights)) (fun _ r' => J r')
      (fun _ _ => True) r) :
    wp (handleGrantAndOpen host peer court path rights) (fun _ r' => J r') (fun _ _ => True) r := by
  rw [Runner.handleGrantAndOpen, wp_bind]
  refine wp_mono hgrant (fun found r₁ h₁ => ?_) fun _ _ he => he
  obtain ⟨id, d, cap⟩ := found
  have hrest : Keeps (Stays J) (do
      Runner.record host
        (((WireTrace.new "grant" "root" .ok).withPath path).withDetail s!"{court}:{cap.raw}")
      Runner.send host peer (.grant path (wireCap cap rights))
      Runner.handleOpen host peer court path id d
      return cap) := by
    refine .bind (hJ.record _) fun _ => .bind ?_ fun _ => .bind (hJ.handleOpen hsent) fun _ => .pure _
    exact .bind (.modify fun r h => hsent r peer _ h) fun _ => hJ.io
  exact wp_mono (keeps_stays.1 hrest r₁ h₁) (fun _ _ h₂ => h₂) fun _ _ _ => trivial

end

end Robust

/-! ## Whole runs -/

section

variable (hroot : ∀ r st, st.root = r.state.root → J r → J { r with state := st })

include hroot

/-- A change of the other tables. -/
theorem keeps_tables {f : RootState → RootState} (h : ∀ st, (f st).root = st.root) :
    Keeps (Stays J) (onState (modify f)) :=
  keeps_stays.2 fun r hr => wp_onState.2 ((wp_modify f).2 (hroot r _ (h r.state) hr))

variable (hJ : Robust J)

include hJ

theorem keeps_createCourt (court : CourtManifest) :
    Keeps (Stays J) (onState (RootState.createCourt court)) := by
  refine keeps_stays.2 fun r hr => wp_onState.2 ((wp_modify _).2 ?_)
  exact hroot { r with state := { r.state with root := (r.state.root.createCourt court.name).2 } } _
    rfl (hJ.call r (.createCourt court.name) hr)

theorem keeps_createCorridor (corridor : CorridorManifest) :
    Keeps (Stays J) (onState (RootState.createCorridor corridor)) := by
  refine keeps_stays.2 fun r hr => wp_onState.2 ?_
  have hcalls : CallsKeep fun st => J { r with state := st } := fun st c h => hJ.call _ c h
  have hkeeps : Keeps (Stays fun st => J { r with state := st })
      (RootState.createCorridor corridor) := by
    refine .bind .get fun _ => .bind (.expect _ _) fun first => .bind (.expect _ _) fun second => ?_
    refine .bind (byCalls_callRoot (.createCorridor corridor.path first second .sharedRing
      corridor.capacity.toNat) (fun _ => rfl) _ hcalls) fun _ => ?_
    exact .bind (byCalls_callRoot (.lookup first corridor.path) (fun _ => rfl) _ hcalls) fun _ =>
      .modify fun st h => hroot { r with state := st } _ rfl h
  exact keeps_stays.1 hkeeps r.state hr

theorem keeps_buildState : Keeps (Stays J) (buildState host config) := by
  refine .bind (.forM (keeps_createCourt hroot hJ) _) fun _ => .bind (.forM (fun corridor => ?_) _)
    fun _ => .bind (.expect _ _) fun _ => .bind (keeps_tables hroot fun _ => by rfl) fun _ => hJ.io
  exact .bind (keeps_createCorridor hroot hJ corridor) fun _ => .bind hJ.createRing fun _ =>
    keeps_tables hroot fun _ => by rfl

/-- What the steps of the runner keep, it keeps. -/
theorem runManifestDemo_keeps (hgrant : ∀ peer court path rights,
      Keeps (Stays J) (handleGrantAndOpen host peer court path rights)) :
    Keeps (Stays J) (runManifestDemo host config) := by
  have hserve : Keeps (Stays J) (serveGrants host) := by
    refine .bind (.bind .get fun _ => .expect _ _) fun _ => .bind keeps_getPeer fun _ => ?_
    refine .bind (.bind hJ.handleAppLookup fun _ => hJ.handleDeniedOpen) fun _ => .bind .get fun _ =>
      .bind (.ofExcept _) fun _ => .bind (.forM (fun grant => ?_) _) fun _ => ?_
    · exact .bind keeps_getPeer fun _ => .bind (hgrant _ _ _ _) fun _ => .pure _
    · exact .bind keeps_getPeer fun _ => .bind hJ.recordTraceFrom fun _ =>
        .bind (.bind .get fun _ => .expect _ _) fun _ => .bind keeps_getPeer fun _ =>
        hJ.recordTraceFrom
  refine .bind (.ofExcept _) fun _ => .bind hJ.io fun _ => .bind hJ.io fun _ =>
    .bind (keeps_buildState hroot hJ) fun _ => .bind .get fun _ => .bind (hJ.record _) fun _ =>
    .bind hJ.spawnCourts fun children => ?_
  exact .bind (hJ.acceptPeers _ _ _) fun _ => .bind hserve fun _ => .bind hJ.runRevokes fun _ =>
    .bind (hJ.runFaults children) fun _ => .bind hJ.runPeerDown fun _ => hJ.awaitChildren children

end

end Runner

end CourtKernel
