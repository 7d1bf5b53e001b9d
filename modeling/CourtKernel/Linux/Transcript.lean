import CourtKernel.Linux.Choices

/-!
# The transcript of a run that returns

What is on the wire and in the trace after a run of `run_manifest_demo` that returned `Ok`, whatever
the courts are.  The runner never looks at the `after` fields of the policy; the order of the
transcript is the order of its code.

* `Talks names` — a part of a run in which no court sends a trace event and nothing of the policy is
  carried out; the runner records events of these names.
* `Rounds` — a loop over the policy: the messages and the events of each entry, one after the other.
* `Transcript` — opening, two trace events, revocations, faults, peers down.
* `transcript_of_ok` — every run that returns has one.
-/

namespace CourtKernel

/-- Neither a trace event nor a message that carries out the policy. -/
def WireEvent.plain : WireEvent → Bool
  | .received _ (.trace _) => false
  | .sent _ (.revoke _) _ => false
  | .sent _ (.fault _) _ => false
  | .sent _ (.peerDown _) _ => false
  | _ => true

namespace Runner

variable {host : Host} {config : RootConfig} {done : List ResolvedGrant} {r r' r'' : Runner}
  {peer : JsonLinePeer}
  {es es' : List WireEvent} {ts ts' : List WireTrace} {names : List String} {α β : Type}

/-! ## What a part of a run adds -/

/-- The part adds these messages and these trace events. -/
structure Extends (es : List WireEvent) (ts : List WireTrace) (r r' : Runner) : Prop where
  wire : r'.wire = r.wire ++ es
  trace : r'.state.trace = r.state.trace ++ ts

/-- And nobody connects or leaves. -/
structure Adds (es : List WireEvent) (ts : List WireTrace) (r r' : Runner) : Prop
    extends Extends es ts r r' where
  peers : r'.peers = r.peers

theorem Adds.refl (r : Runner) : Adds [] [] r r :=
  ⟨⟨(List.append_nil _).symm, (List.append_nil _).symm⟩, rfl⟩

theorem Extends.trans (h : Extends es ts r r') (h' : Extends es' ts' r' r'') :
    Extends (es ++ es') (ts ++ ts') r r'' := by
  refine ⟨?_, ?_⟩
  · rw [h'.wire, h.wire, List.append_assoc]
  · rw [h'.trace, h.trace, List.append_assoc]

theorem Adds.trans (h : Adds es ts r r') (h' : Adds es' ts' r' r'') :
    Adds (es ++ es') (ts ++ ts') r r'' :=
  ⟨h.toExtends.trans h'.toExtends, h'.peers.trans h.peers⟩

theorem io_adds : wp (io host) (fun _ r' => Adds [] [] r r') (fun _ _ => True) r :=
  wp_io ⟨⟨(List.append_nil _).symm, (List.append_nil _).symm⟩, rfl⟩ fun _ => trivial

theorem record_adds {event : WireTrace} :
    wp (record host event) (fun _ r' => Adds [] [event] r r') (fun _ _ => True) r := by
  rw [record, wp_bind, wp_onState, wp_modify]
  exact wp_io ⟨⟨(List.append_nil _).symm, rfl⟩, rfl⟩ fun _ => trivial

theorem send_adds {message : WireMessage} :
    wp (send host peer message) (fun _ r' => Adds [.sent peer message r.state.root] [] r r')
      (fun _ _ => True) r := by
  rw [send, wp_bind, wp_modify]
  exact wp_io ⟨⟨rfl, (List.append_nil _).symm⟩, rfl⟩ fun _ => trivial

theorem recv_adds :
    wp (recv peer) (fun message r' => Adds [.received peer message] [] r r') (fun _ _ => True) r :=
  wp_recv (fun _ => trivial) fun _ _ => ⟨⟨rfl, (List.append_nil _).symm⟩, rfl⟩

theorem byCalls_adds {x : Prog RootState α} (hx : RootState.ByCalls x) :
    wp (onState x) (fun _ r' => Adds [] [] r r') (fun _ _ => True) r := by
  have htrace : Keeps (Stays fun st => st.trace = r.state.trace) x := hx _ fun _ _ h => h
  refine wp_onState.2 (wp_mono (keeps_stays.1 htrace r.state rfl) (fun _ st hst => ?_)
    fun _ _ _ => trivial)
  exact ⟨⟨(List.append_nil _).symm, hst.trans (List.append_nil _).symm⟩, rfl⟩

/-- A trace event of a court is recorded as it is. -/
theorem recordTraceFrom_adds {label : String} :
    wp (recordTraceFrom host peer label)
      (fun _ r' => ∃ x, Adds [.received peer (.trace x)] [x] r r') (fun _ _ => True) r := by
  rw [recordTraceFrom, wp_bind]
  refine wp_mono recv_adds (fun message r₁ h₁ => ?_) fun _ _ he => he
  split
  · rename_i event
    exact wp_mono record_adds (fun _ _ h₂ => ⟨event, h₁.trans h₂⟩) fun _ _ he => he
  · exact (wp_throw _).2 trivial

/-! ## Talk -/

/-- Plain messages, and trace events of these names. -/
def Talks (names : List String) (r r' : Runner) : Prop :=
  ∃ es ts, Adds es ts r r' ∧ (∀ e ∈ es, e.plain = true) ∧ ts.map (·.event) = names

/-- Every run of the program that returns is such talk. -/
def Talking (names : List String) (x : Prog Runner α) : Prop :=
  ∀ r, wp x (fun _ r' => Talks names r r') (fun _ _ => True) r

theorem Talks.refl (r : Runner) : Talks [] r r := ⟨[], [], .refl r, by simp, rfl⟩

theorem Talks.trans {names' : List String} (h : Talks names r r') (h' : Talks names' r' r'') :
    Talks (names ++ names') r r'' := by
  obtain ⟨es, ts, hadds, hplain, rfl⟩ := h
  obtain ⟨es', ts', hadds', hplain', rfl⟩ := h'
  refine ⟨es ++ es', ts ++ ts', hadds.trans hadds', ?_, List.map_append⟩
  exact List.forall_mem_append.2 ⟨hplain, hplain'⟩

namespace Talking

variable {names' : List String} {x : Prog Runner α} {f : α → Prog Runner β}

theorem bind (hx : Talking names x) (hf : ∀ a, Talking names' (f a)) :
    Talking (names ++ names') (x >>= f) := by
  intro r
  rw [wp_bind]
  refine wp_mono (hx r) (fun a r₁ h₁ => ?_) fun _ _ he => he
  exact wp_mono (hf a r₁) (fun _ _ h₂ => h₁.trans h₂) fun _ _ he => he

/-- Something that is not recorded, and then the rest. -/
theorem skip (hx : Talking [] x) (hf : ∀ a, Talking names (f a)) : Talking names (x >>= f) :=
  bind hx hf

/-- The last thing that is recorded, and then the rest. -/
theorem last (hx : Talking names x) (hf : ∀ a, Talking [] (f a)) : Talking names (x >>= f) := by
  have h := bind hx hf
  rwa [List.append_nil] at h

theorem pure (a : α) : Talking [] (pure a) := fun r => (wp_pure a).2 (.refl r)

theorem throw (e : String) : Talking names (throw e : Prog Runner α) :=
  fun _ => (wp_throw e).2 trivial

theorem get : Talking [] (get : Prog Runner Runner) := fun r => wp_get.2 (.refl r)

theorem expect (o : Option α) (e : String) : Talking [] (expect o e : Prog Runner α) :=
  fun r => wp_expect.2 ⟨fun _ _ => .refl r, fun _ => trivial⟩

theorem ofExcept (o : Except String α) : Talking [] (ofExcept o : Prog Runner α) :=
  fun r => wp_ofExcept.2 ⟨fun _ _ => .refl r, fun _ _ => trivial⟩

theorem ite {c : Prop} [Decidable c] {x y : Prog Runner α} (hx : Talking names x)
    (hy : Talking names y) : Talking names (if c then x else y) := by
  split
  · exact hx
  · exact hy

theorem onState {x : Prog RootState α} (hx : RootState.ByCalls x) : Talking [] (onState x) :=
  fun _ => wp_mono (byCalls_adds hx) (fun _ _ h => ⟨[], [], h, by simp, rfl⟩) fun _ _ he => he

theorem record (event : WireTrace) : Talking [event.event] (record host event) :=
  fun _ => wp_mono record_adds (fun _ _ h => ⟨[], [event], h, by simp, rfl⟩) fun _ _ he => he

theorem send {message : WireMessage} (h : ∀ root, (WireEvent.sent peer message root).plain = true) :
    Talking [] (send host peer message) := fun r =>
  wp_mono send_adds (fun _ _ hadds => ⟨_, _, hadds, by simp [h], rfl⟩) fun _ _ he => he

/-- A message, where a trace event would be an error. -/
theorem recv {f : WireMessage → Prog Runner β}
    (hf : ∀ message, (WireEvent.received peer message).plain = true → Talking names (f message))
    (htrace : ∀ event r, wp (f (.trace event)) (fun _ _ => False) (fun _ _ => True) r) :
    Talking names (recv peer >>= f) := by
  intro r
  rw [wp_bind]
  refine wp_mono recv_adds (fun message r₁ h₁ => ?_) fun _ _ he => he
  cases hplain : (WireEvent.received peer message).plain with
  | true =>
    have hread : Talks [] r r₁ := ⟨_, _, h₁, by simp [hplain], rfl⟩
    exact wp_mono (hf message hplain r₁) (fun _ _ h₂ => hread.trans h₂) fun _ _ he => he
  | false =>
    cases message with
    | trace event => exact wp_mono (htrace event r₁) (fun _ _ hno => hno.elim) fun _ _ he => he
    | _ => cases hplain

theorem getPeer {court message : String} : Talking [] (getPeer court message) :=
  skip get fun _ => expect _ _

end Talking

/-! ## The grants -/

theorem handleAppLookup_talking {appName : String} :
    Talking ["lookup"] (handleAppLookup host peer appName) := by
  refine .recv (fun message _ => .skip .get fun _ => ?_) fun _ _ =>
    wp_bind.2 (wp_get.2 ((wp_throw _).2 trivial))
  split
  · refine .ite (.skip (.expect _ _) fun id => .skip (.onState ?_) fun _ =>
      .last (.record _) fun _ => .send fun _ => rfl) (.throw _)
    exact RootState.byCalls_callRoot (.lookup id _) fun _ => rfl
  · exact .throw _

theorem handleDeniedOpen_talking {appName : String} :
    Talking ["open_denied"] (handleDeniedOpen host peer appName) := by
  refine .recv (fun message _ => .skip .get fun _ => ?_) fun _ _ =>
    wp_bind.2 (wp_get.2 ((wp_throw _).2 trivial))
  split
  · exact .ite (.skip (.expect _ _) fun _ => .skip (.expect _ _) fun _ =>
      .skip (.onState (byCalls_openStatus _ _ _ _)) fun _ => .last (.record _) fun _ =>
      .send fun _ => rfl) (.throw _)
  · exact .throw _

theorem handleOpen_talking {court path : String} {id : CourtId} {d : Descriptor} :
    Talking ["open"] (handleOpen host peer court path id d) := by
  refine .recv (fun message _ => .skip .get fun _ => ?_) fun _ _ =>
    wp_bind.2 (wp_get.2 ((wp_throw _).2 trivial))
  split
  · refine .ite ?_ (.throw _)
    split
    · exact .skip (.onState (byCalls_openStatus _ _ _ _)) fun _ => .last (.record _) fun _ =>
        .ite (.skip .get fun _ => .skip (.expect _ _) fun _ => .send fun _ => rfl)
          (.skip (.send fun _ => rfl) fun _ => .throw _)
    · exact .skip (.send fun _ => rfl) fun _ => .throw _
  · exact .throw _

theorem grantCap_talking {court path : String} {rights : Rights} :
    Talking [] (onState (RootState.grantCap court path rights)) := by
  intro r
  have htrace : Keeps (Stays fun st : RootState => st.trace = r.state.trace)
      (RootState.grantCap court path rights) := by
    refine .bind .get fun _ => .bind (.expect _ _) fun id => .bind (.expect _ _) fun d =>
      .bind ?_ fun _ => .bind (.modify fun _ h => h) fun _ => .pure _
    exact RootState.byCalls_callRoot (.grantCorridorCap id d rights) (fun _ => rfl) _ fun _ _ h => h
  refine wp_onState.2 (wp_mono (keeps_stays.1 htrace r.state rfl) (fun _ st hst => ?_)
    fun _ _ _ => trivial)
  exact ⟨[], [], ⟨⟨(List.append_nil _).symm, hst.trans (List.append_nil _).symm⟩, rfl⟩, by simp, rfl⟩

theorem handleGrantAndOpen_talking {court path : String} {rights : Rights} :
    Talking ["grant", "open"] (handleGrantAndOpen host peer court path rights) := by
  refine .skip grantCap_talking fun ⟨id, d, cap⟩ => ?_
  show Talking (["grant"] ++ ["open"]) _
  refine .bind (.record _) fun _ => ?_
  exact .skip (.send fun _ => rfl) fun _ => .last handleOpen_talking fun _ => .pure _

/-- The grants, each with its open. -/
theorem handleGrants_talking (grants : List ResolvedGrant) :
    Talking (List.replicate grants.length ["grant", "open"]).flatten (forM grants fun grant => do
      let peer ← getPeer grant.court s!"court {grant.court} did not connect to root"
      let _ ← handleGrantAndOpen host peer grant.court grant.path grant.rights) := by
  induction grants with
  | nil => exact .pure _
  | cons grant grants ih =>
    rw [List.forM_cons, List.length_cons, List.replicate_succ, List.flatten_cons]
    exact .bind (.skip .getPeer fun _ => .last handleGrantAndOpen_talking fun _ => .pure _) fun _ => ih

/-- The names of the events from the lookup of the app to the last grant. -/
def grantNames (n : Nat) : List String :=
  "lookup" :: "open_denied" :: (List.replicate n ["grant", "open"]).flatten

/-- The grants of a valid policy: one round for each. -/
theorem carryOutGrants_talks (hv : Valid config.manifest config.policy) (h : Lists config done r)
    {court : CourtManifest} (hc : court ∈ config.manifest.courts) (hrole : court.role = .app) :
    wp (carryOutGrants host)
      (fun name r' => name = court.name ∧ Talks (grantNames config.policy.grants.length) r r')
      (fun _ _ => True) r := by
  have hopening : ∀ app, Talking (["lookup"] ++ ["open_denied"])
      (handleAppLookupAndDeniedOpen host app court.name) := fun app =>
    .bind handleAppLookup_talking fun _ => handleDeniedOpen_talking
  have hlists : ∀ app, Keeps (Stays (Lists config done))
      (handleAppLookupAndDeniedOpen host app court.name) := fun app =>
    .bind robust_lists.handleAppLookup fun _ => robust_lists.handleDeniedOpen
  rw [carryOutGrants, wp_bind]
  refine wp_mono (Q := fun name r₁ => name = court.name ∧ r₁ = r) (E := fun _ _ => True) ?_
    (fun name r₁ h₁ => ?_) fun _ _ _ => trivial
  · have hfind := wp_self (findAppCourt host) r
    rw [findAppCourt_eq h hv.app hc hrole] at hfind
    refine wp_mono hfind (fun name r₁ heq => ?_) fun _ _ _ => trivial
    obtain ⟨rfl, rfl⟩ := EStateM.Result.ok.inj heq
    exact ⟨rfl, rfl⟩
  · obtain ⟨rfl, rfl⟩ := h₁
    rw [wp_bind, getPeer, wp_bind, wp_get, wp_expect]
    refine ⟨fun app _ => ?_, fun _ => trivial⟩
    rw [wp_bind]
    refine wp_mono (wp_and (hopening app r₁) (keeps_stays.1 (hlists app) r₁ h))
      (fun _ r₂ h₂ => ?_) fun _ _ _ => trivial
    rw [wp_bind, wp_get, wp_bind, wp_ofExcept, h₂.2.plan]
    refine ⟨fun grants hgrants => ?_, fun _ _ => trivial⟩
    have hlength : grants.length = config.policy.grants.length := by
      have hkeys := congrArg List.length (RootState.statePolicyGrants_spec hgrants).1
      rwa [List.length_map, PolicyFile.grantKeys, List.length_map] at hkeys
    rw [wp_bind]
    refine wp_mono (handleGrants_talking grants r₂) (fun _ r₃ h₃ => ?_) fun _ _ he => he
    rw [hlength] at h₃
    exact (wp_pure _).2 ⟨rfl, h₂.1.trans h₃⟩

/-- The two trace events after the grants. -/
theorem awaitTraces_adds {appName : String} :
    wp (awaitTraces host appName)
      (fun _ r' => ∃ app recvCourt recvPeer x y, r.peers.lookup appName = some app ∧
        r.peers.lookup recvCourt = some recvPeer ∧
        Adds [.received app (.trace x), .received recvPeer (.trace y)] [x, y] r r')
      (fun _ _ => True) r := by
  rw [awaitTraces, wp_bind, getPeer, wp_bind, wp_get, wp_expect]
  refine ⟨fun app happ => ?_, fun _ => trivial⟩
  rw [wp_bind]
  refine wp_mono recordTraceFrom_adds (fun _ r₁ h₁ => ?_) fun _ _ he => he
  obtain ⟨x, hx⟩ := h₁
  rw [wp_bind, findRecvGrantCourt, wp_bind, wp_get, wp_expect]
  refine ⟨fun recvCourt _ => ?_, fun _ => trivial⟩
  rw [wp_bind, getPeer, wp_bind, wp_get, wp_expect, hx.peers]
  refine ⟨fun recvPeer hrecv => ?_, fun _ => trivial⟩
  refine wp_mono recordTraceFrom_adds (fun _ r₂ h₂ => ?_) fun _ _ he => he
  obtain ⟨y, hy⟩ := h₂
  exact ⟨app, recvCourt, recvPeer, x, y, happ, hrecv, hx.trans hy⟩

/-! ## Rounds -/

/-- A loop over the policy: what each entry adds, one after the other. -/
inductive Rounds {γ : Type} (Round : γ → List WireEvent → List WireTrace → Prop) :
    List γ → List WireEvent → List WireTrace → Prop
  | nil : Rounds Round [] [] []
  | concat {done : List γ} {entry : γ} {es es' : List WireEvent} {ts ts' : List WireTrace} :
    Rounds Round done es ts → Round entry es' ts' →
      Rounds Round (done ++ [entry]) (es ++ es') (ts ++ ts')

/-- The revocation, and a trace event of the court. -/
def RevokeRound (peers : HashMap String JsonLinePeer) (revoke : RevokePolicy)
    (es : List WireEvent) (ts : List WireTrace) : Prop :=
  ∃ peer cap root x, peers.lookup revoke.court = some peer ∧
    es = [.sent peer (.revoke cap) root, .received peer (.trace x)] ∧
    ts = [(WireTrace.new "revoke" "root" .ok).withPath revoke.path, x]

/-- The fault, a trace event of the court, and the end of its process. -/
def FaultRound (host : Host) (peers : HashMap String JsonLinePeer) (fault : FaultPolicy)
    (es : List WireEvent) (ts : List WireTrace) : Prop :=
  ∃ peer root x path, peers.lookup fault.court = some peer ∧
    es = [.sent peer (.fault fault.reason) root, .received peer (.trace x)] ∧
    ts = [x, (WireTrace.new "court_fault" "root" .fault).withPath path] ∧
    (host.exitStatus fault.court).code = some 42

/-- The news, a trace event of the court, and its last message. -/
def DownRound (down : PeerDownPolicy) (es : List WireEvent) (ts : List WireTrace) : Prop :=
  ∃ peer root x, es = [.sent peer (.peerDown down.path) root, .received peer (.trace x),
      .received peer (.demoDone down.court .ok)] ∧
    ts = [(WireTrace.new "peer_down" "root" .peerDown).withPath down.path, x,
      WireTrace.new "demo_done" down.court .ok]

theorem runRevoke_adds (revoke : RevokePolicy) :
    wp (runRevoke host revoke)
      (fun _ r' => ∃ es ts, RevokeRound r.peers revoke es ts ∧ Adds es ts r r')
      (fun _ _ => True) r := by
  rw [runRevoke, wp_bind]
  refine wp_mono (byCalls_adds (RootState.byCalls_revokeCap revoke)) (fun key r₁ h₁ => ?_)
    fun _ _ he => he
  obtain ⟨cap, rights⟩ := key
  rw [wp_bind]
  refine wp_mono record_adds (fun _ r₂ h₂ => ?_) fun _ _ he => he
  rw [wp_bind, getPeer, wp_bind, wp_get, wp_expect, h₂.peers, h₁.peers]
  refine ⟨fun peer hpeer => ?_, fun _ => trivial⟩
  rw [wp_bind]
  refine wp_mono send_adds (fun _ r₃ h₃ => ?_) fun _ _ he => he
  refine wp_mono recordTraceFrom_adds (fun _ r₄ h₄ => ?_) fun _ _ he => he
  obtain ⟨x, hx⟩ := h₄
  exact ⟨_, _, ⟨peer, wireCap cap rights, r₂.state.root, x, hpeer, rfl, rfl⟩,
    ((h₁.trans h₂).trans h₃).trans hx⟩

theorem runRevokes_adds (h : Lists config done r) :
    wp (runRevokes host)
      (fun _ r' => ∃ es ts, Rounds (RevokeRound r.peers) config.policy.revokes es ts ∧
        Adds es ts r r') (fun _ _ => True) r := by
  rw [runRevokes, wp_bind, wp_get, h.plan]
  refine wp_forM (I := fun done r' => ∃ es ts, Rounds (RevokeRound r.peers) done es ts ∧
    Adds es ts r r') ⟨[], [], .nil, .refl r⟩ fun done revoke rest _ r₁ h₁ => ?_
  obtain ⟨es, ts, hrounds, hadds⟩ := h₁
  refine wp_mono (runRevoke_adds revoke) (fun _ r₂ h₂ => ?_) fun _ _ he => he
  obtain ⟨es', ts', hround, hadds'⟩ := h₂
  rw [hadds.peers] at hround
  exact ⟨es ++ es', ts ++ ts', .concat hrounds hround, hadds.trans hadds'⟩

/-- Each process is that of its court. -/
def Keyed (children : HashMap String Child) : Prop :=
  ∀ court child, children.lookup court = some child → child.court = court

theorem expectChildExit_adds {child : Child} {expected : Int} {name : String} :
    wp (expectChildExit host child expected name)
      (fun _ r' => (host.exitStatus child.court).code = some expected ∧ Adds [] [] r r')
      (fun _ _ => True) r := by
  rw [expectChildExit, wp_bind]
  refine wp_mono io_adds (fun _ r₁ h₁ => ?_) fun _ _ he => he
  exact wp_ite.2 ⟨fun hcode => (wp_pure _).2 ⟨hcode, h₁⟩, fun _ => (wp_throw _).2 trivial⟩

theorem runFault_extends {children : HashMap String Child} (hchildren : Keyed children)
    (fault : FaultPolicy) :
    wp (runFault host children fault)
      (fun _ r' => r'.peers = r.peers.erase fault.court ∧
        ∃ es ts, FaultRound host r.peers fault es ts ∧ Extends es ts r r')
      (fun _ _ => True) r := by
  rw [runFault, wp_bind, getPeer, wp_bind, wp_get, wp_expect]
  refine ⟨fun peer hpeer => ?_, fun _ => trivial⟩
  rw [wp_bind]
  refine wp_mono send_adds (fun _ r₁ h₁ => ?_) fun _ _ he => he
  rw [wp_bind]
  refine wp_mono recordTraceFrom_adds (fun _ r₂ h₂ => ?_) fun _ _ he => he
  obtain ⟨x, hx⟩ := h₂
  rw [wp_bind, wp_expect]
  refine ⟨fun child hchild => ?_, fun _ => trivial⟩
  rw [wp_bind]
  refine wp_mono expectChildExit_adds (fun _ r₃ h₃ => ?_) fun _ _ he => he
  rw [hchildren _ _ hchild] at h₃
  have hbefore := (h₁.trans hx).trans h₃.2
  rw [wp_bind, wp_modify, wp_bind]
  refine wp_mono (byCalls_adds (RootState.byCalls_faultCourt fault)) (fun _ r₄ h₄ => ?_)
    fun _ _ he => he
  rw [wp_bind, wp_get]
  refine wp_mono record_adds (fun _ r₅ h₅ => ?_) fun _ _ he => he
  have hafter := h₄.trans h₅
  refine ⟨?_, _, _, ⟨peer, r.state.root, x, _, hpeer, rfl, rfl, h₃.1⟩,
    hbefore.toExtends.trans ⟨hafter.wire, hafter.trace⟩⟩
  rw [hafter.peers]
  show r₃.peers.erase fault.court = _
  rw [hbefore.peers]

theorem runFaults_extends {children : HashMap String Child} (hchildren : Keyed children)
    (h : Lists config done r) :
    wp (runFaults host children)
      (fun _ r' => (∀ court, court ∈ r.peers → court ∉ config.policy.faults.map (·.court) →
          court ∈ r'.peers) ∧
        ∃ es ts, Rounds (FaultRound host r.peers) config.policy.faults es ts ∧ Extends es ts r r')
      (fun _ _ => True) r := by
  rw [runFaults, wp_bind, wp_get, h.plan]
  -- courts leave, and nobody comes
  refine wp_mono (wp_forM (I := fun (done : List FaultPolicy) r' =>
    (∀ court p, r'.peers.lookup court = some p → r.peers.lookup court = some p) ∧
    (∀ court, court ∈ r.peers → court ∉ done.map (·.court) → court ∈ r'.peers) ∧
    ∃ es ts, Rounds (FaultRound host r.peers) done es ts ∧ Extends es ts r r')
    ⟨fun _ _ hp => hp, fun _ hc _ => hc, [], [], .nil, (Adds.refl r).toExtends⟩
    fun done fault rest _ r₁ h₁ => ?_) (fun _ _ hI => hI.2) fun _ _ he => he
  obtain ⟨hold, hstay, es, ts, hrounds, hext⟩ := h₁
  refine wp_mono (runFault_extends hchildren fault) (fun _ r₂ h₂ => ?_) fun _ _ he => he
  obtain ⟨hpeers, es', ts', ⟨peer, root, x, path, hpeer, hes, hts, hcode⟩, hext'⟩ := h₂
  refine ⟨fun court p hp => ?_, fun court hc hno => ?_, es ++ es', ts ++ ts',
    .concat hrounds ⟨peer, root, x, path, hold _ _ hpeer, hes, hts, hcode⟩, hext.trans hext'⟩
  · rw [hpeers] at hp
    exact hold court p (HashMap.lookup_of_erase hp)
  · rw [List.map_append, List.mem_append, List.map_singleton, List.mem_singleton, not_or] at hno
    rw [hpeers, Finmap.mem_erase]
    exact ⟨hno.2, hstay court hc hno.1⟩

theorem runPeerDownOf_adds (down : PeerDownPolicy) :
    wp (runPeerDownOf host down) (fun _ r' => ∃ es ts, DownRound down es ts ∧ Adds es ts r r')
      (fun _ _ => True) r := by
  rw [runPeerDownOf, wp_bind, getPeer, wp_bind, wp_get, wp_expect]
  refine ⟨fun peer _ => ?_, fun _ => trivial⟩
  rw [wp_bind]
  refine wp_mono send_adds (fun _ r₁ h₁ => ?_) fun _ _ he => he
  rw [wp_bind]
  refine wp_mono record_adds (fun _ r₂ h₂ => ?_) fun _ _ he => he
  rw [wp_bind]
  refine wp_mono recordTraceFrom_adds (fun _ r₃ h₃ => ?_) fun _ _ he => he
  obtain ⟨x, hx⟩ := h₃
  rw [wp_bind]
  refine wp_mono recv_adds (fun message r₄ h₄ => ?_) fun _ _ he => he
  split
  · refine wp_ite.2 ⟨fun hcourt => ?_, fun _ => (wp_throw _).2 trivial⟩
    refine wp_mono record_adds (fun _ r₅ h₅ => ?_) fun _ _ he => he
    rw [hcourt] at h₄ h₅
    exact ⟨_, _, ⟨peer, r.state.root, x, rfl, rfl⟩, (((h₁.trans h₂).trans hx).trans h₄).trans h₅⟩
  · exact (wp_throw _).2 trivial

theorem runPeerDown_adds (h : Lists config done r) :
    wp (runPeerDown host)
      (fun _ r' => ∃ es ts, Rounds DownRound config.policy.peerDown es ts ∧ Adds es ts r r')
      (fun _ _ => True) r := by
  rw [runPeerDown, wp_bind, wp_get, h.plan]
  refine wp_forM (I := fun done r' => ∃ es ts, Rounds DownRound done es ts ∧ Adds es ts r r')
    ⟨[], [], .nil, .refl r⟩ fun done down rest _ r₁ h₁ => ?_
  obtain ⟨es, ts, hrounds, hadds⟩ := h₁
  refine wp_mono (runPeerDownOf_adds down) (fun _ r₂ h₂ => ?_) fun _ _ he => he
  obtain ⟨es', ts', hround, hadds'⟩ := h₂
  exact ⟨es ++ es', ts ++ ts', .concat hrounds hround, hadds.trans hadds'⟩

/-- At the end the courts that are still connected exit well. -/
theorem awaitChildren_adds {children : HashMap String Child} (hchildren : Keyed children) :
    wp (awaitChildren host children)
      (fun _ r' => (∀ court, court ∈ children → court ∈ r.peers →
        (host.exitStatus court).code = some 0) ∧ Adds [] [] r r')
      (fun _ _ => True) r := by
  refine wp_mono (wp_forM (I := fun (done : List (String × Child)) r' =>
    (∀ entry ∈ done, entry.1 ∈ r.peers → (host.exitStatus entry.2.court).code = some 0) ∧
      Adds [] [] r r') ⟨by simp, .refl r⟩ fun done entry rest _ r₁ h₁ => ?_)
    (fun _ r₁ h₁ => ⟨fun court hmem hpeer => ?_, h₁.2⟩) fun _ _ he => he
  · rw [wp_bind, wp_get, h₁.2.peers]
    refine wp_ite.2 ⟨fun _ => ?_, fun hno => (wp_pure _).2 ⟨?_, h₁.2⟩⟩
    · rw [expectChildSuccess, wp_bind]
      refine wp_mono io_adds (fun _ r₂ h₂ => ?_) fun _ _ he => he
      refine wp_ite.2 ⟨fun hcode => (wp_pure _).2 ⟨?_, h₁.2.trans h₂⟩, fun _ => (wp_throw _).2 trivial⟩
      exact List.forall_mem_append.2 ⟨h₁.1, List.forall_mem_singleton.2 fun _ => hcode⟩
    · exact List.forall_mem_append.2 ⟨h₁.1, List.forall_mem_singleton.2 fun hp => absurd hp hno⟩
  · obtain ⟨child, hchild⟩ := Finmap.mem_iff.1 hmem
    have hcode := h₁.1 (court, child) ((host.childOrder.mem _ _ _).2 hchild) hpeer
    rwa [hchildren court child hchild] at hcode

/-! ## Until all courts are connected -/

theorem mem_startedAll {roles : HashMap String CourtRole} (entries : List (String × CourtId))
    (children : HashMap String Child) (court : String) (child : Child) :
    (startedAll roles entries children).lookup court = some child ↔
      court ∈ entries.map Prod.fst ∧ child = started roles court ∨
        court ∉ entries.map Prod.fst ∧ children.lookup court = some child := by
  induction entries generalizing children with
  | nil => simp [startedAll]
  | cons entry entries ih =>
    rw [startedAll, List.foldl_cons, ← startedAll, ih, HashMap.lookup_insert_ite, List.map_cons,
      List.mem_cons]
    by_cases hhere : court = entry.1
    · subst hhere
      by_cases hlater : entry.1 ∈ entries.map Prod.fst
      · simp [hlater]
      · simp [hlater, eq_comm]
    · simp [hhere]

theorem ticks_adds (n : Nat) :
    wp (ticks host n) (fun _ r' => Adds [] [] r r') (fun _ _ => True) r := by
  induction n generalizing r with
  | zero => exact (wp_pure _).2 (.refl r)
  | succ n ih =>
    rw [ticks, wp_bind]
    refine wp_mono io_adds (fun _ r₁ h₁ => ?_) fun _ _ he => he
    exact wp_mono ih (fun _ _ h₂ => h₁.trans h₂) fun _ _ he => he

/-- One process is started for each court. -/
theorem spawnCourts_adds (h : Lists config done r) :
    wp (spawnCourts host)
      (fun children r' => Keyed children ∧
        (∀ court, court ∈ children ↔ court ∈ config.manifest.courtNames) ∧ Adds [] [] r r')
      (fun _ _ => True) r := by
  have hkeys : ∀ court, court ∈ (host.courtOrder.entries r.state.courtIds).map Prod.fst ↔
      court ∈ config.manifest.courtNames := by
    intro court
    refine Iff.trans ⟨fun hc => ?_, fun hc => ?_⟩ (h.ids court)
    · obtain ⟨⟨_, id⟩, hentry, rfl⟩ := List.mem_map.1 hc
      exact Finmap.mem_of_lookup_eq_some ((host.courtOrder.mem _ _ _).1 hentry)
    · obtain ⟨id, hid⟩ := Finmap.mem_iff.1 hc
      exact List.mem_map.2 ⟨(court, id), (host.courtOrder.mem _ _ _).2 hid, rfl⟩
  rw [wp_congr (spawnCourts_eq h), wp_bind]
  refine wp_mono (ticks_adds _) (fun _ r₁ h₁ => (wp_pure _).2 ⟨fun court child hchild => ?_,
    fun court => ?_, h₁⟩) fun _ _ he => he
  · rcases (mem_startedAll _ ∅ court child).1 hchild with ⟨-, rfl⟩ | ⟨-, hnone⟩
    · rfl
    · cases hnone
  · rw [← hkeys, Finmap.mem_iff]
    refine ⟨fun ⟨child, hchild⟩ => ?_, fun hc => ⟨_, (mem_startedAll _ ∅ court _).2 (Or.inl ⟨hc, rfl⟩)⟩⟩
    rcases (mem_startedAll _ ∅ court child).1 hchild with ⟨hc, -⟩ | ⟨-, hnone⟩
    · exact hc
    · cases hnone

theorem acceptPeer_extends (demo : WireDemoConfig) :
    wp (acceptPeer host demo peer)
      (fun _ r' => ∃ es, (∀ e ∈ es, e.plain = true) ∧ Extends es [] r r') (fun _ _ => True) r := by
  rw [acceptPeer, wp_bind]
  refine wp_mono io_adds (fun _ r₁ h₁ => ?_) fun _ _ he => he
  rw [wp_bind]
  refine wp_mono io_adds (fun _ r₂ h₂ => ?_) fun _ _ he => he
  rw [wp_bind]
  refine wp_mono recv_adds (fun message r₃ h₃ => ?_) fun _ _ he => he
  split
  · rename_i court
    rw [wp_bind]
    refine wp_mono send_adds (fun _ r₄ h₄ => (wp_modify _).2 ?_) fun _ _ he => he
    have hall := ((h₁.trans h₂).trans h₃).trans h₄
    refine ⟨[.received peer (.hello court), .sent peer (.helloAck .ok court demo) r₃.state.root],
      ?_, hall.wire, hall.trace⟩
    exact List.forall_mem_cons.2 ⟨rfl, List.forall_mem_singleton.2 rfl⟩
  · exact (wp_throw _).2 trivial

theorem acceptPeers_extends (count : Nat) (demo : WireDemoConfig) (pending : List JsonLinePeer) :
    wp (acceptPeers host count demo pending)
      (fun _ r' => ∃ es, (∀ e ∈ es, e.plain = true) ∧ Extends es [] r r')
      (fun _ _ => True) r := by
  have hstop : ∀ r : Runner, ∃ es, (∀ e ∈ es, e.plain = true) ∧ Extends es [] r r := fun r =>
    ⟨[], by simp, (Adds.refl r).toExtends⟩
  induction pending generalizing r with
  | nil =>
    rw [acceptPeers, wp_bind, wp_get]
    exact wp_ite.2 ⟨fun _ => (wp_throw _).2 trivial, fun _ => (wp_pure _).2 (hstop r)⟩
  | cons peer pending ih =>
    rw [acceptPeers, wp_bind, wp_get]
    refine wp_ite.2 ⟨fun _ => ?_, fun _ => (wp_pure _).2 (hstop r)⟩
    rw [wp_bind]
    refine wp_mono (acceptPeer_extends demo) (fun _ r₁ h₁ => ?_) fun _ _ he => he
    obtain ⟨es, hplain, hext⟩ := h₁
    refine wp_mono ih (fun _ r₂ h₂ => ?_) fun _ _ he => he
    obtain ⟨es', hplain', hext'⟩ := h₂
    exact ⟨es ++ es', List.forall_mem_append.2 ⟨hplain, hplain'⟩, hext.trans hext'⟩

/-- Nothing is recorded while the tables are built. -/
theorem buildState_trace (t : List WireTrace) :
    Keeps (Stays fun r : Runner => r.state.trace = t) (buildState host config) := by
  have hio : Keeps (Stays fun r : Runner => r.state.trace = t) (io host) := keeps_io fun _ _ h => h
  have hstate : ∀ {x : Prog RootState Unit}, Keeps (Stays fun st => st.trace = t) x →
      Keeps (Stays fun r : Runner => r.state.trace = t) (onState x) := fun hx =>
    keeps_stays.2 fun r h => wp_onState.2 (keeps_stays.1 hx r.state h)
  have hcourt : ∀ court, Keeps (Stays fun st : RootState => st.trace = t)
      (RootState.createCourt court) := fun court => .modify fun _ h => h
  refine .bind (.forM (fun court => hstate (hcourt court)) _) fun _ =>
    .bind (.forM (fun corridor => ?_) _) fun _ => .bind (.expect _ _) fun _ =>
    .bind (hstate (.modify fun _ h => h)) fun _ => hio
  refine .bind (hstate ?_) fun _ => .bind ?_ fun _ => hstate (.modify fun _ h => h)
  · refine .bind .get fun _ => .bind (.expect _ _) fun first => .bind (.expect _ _) fun second => ?_
    refine .bind (RootState.byCalls_callRoot (.createCorridor corridor.path first second .sharedRing
      corridor.capacity.toNat) (fun _ => rfl) _ fun _ _ h => h) fun _ => ?_
    exact .bind (RootState.byCalls_callRoot (.lookup first corridor.path) (fun _ => rfl) _
      fun _ _ h => h) fun _ => .modify fun _ h => h
  · exact .bind (.ofExcept _) fun _ => .bind hio fun _ => .bind (.modify fun _ h => h) fun _ =>
      .bind hio fun _ => .modify fun _ h => h

/-- What there is when all courts are connected. -/
structure Opened (config : RootConfig) (children : HashMap String Child) (r : Runner) : Prop where
  keyed : Keyed children
  started : ∀ court, court ∈ children ↔ court ∈ config.manifest.courtNames
  plain : ∀ e ∈ r.wire, e.plain = true
  names : r.state.trace.map (·.event) = ["lookup"]

theorem connect_opened (files : HashMap String SharedRing) :
    wp (connect host config) (fun children r' => Opened config children r') (fun _ _ => True)
      (.new host config.policy files) := by
  rw [connect, wp_bind, wp_ofExcept]
  refine ⟨fun _ hv => ?_, fun _ _ => trivial⟩
  rw [wp_bind]
  refine wp_io ?_ fun _ => trivial
  rw [wp_bind]
  refine wp_io ?_ fun _ => trivial
  rw [wp_bind]
  refine wp_mono (wp_and (buildState_lists (validate_eq_ok.1 hv).courts.2 rfl) (wp_and
    (buildState_silent _) (keeps_stays.1 (buildState_trace []) _ rfl))) (fun _ r₁ h₁ => ?_)
    fun _ _ _ => trivial
  obtain ⟨hlists, ⟨hwire, -⟩, htrace⟩ := h₁
  rw [wp_bind, wp_get, wp_bind]
  refine wp_mono (wp_and record_adds (keeps_stays.1 (robust_lists.record _) r₁ hlists))
    (fun _ r₂ h₂ => ?_) fun _ _ _ => trivial
  rw [wp_bind]
  refine wp_mono (spawnCourts_adds h₂.2) (fun children r₃ h₃ => ?_) fun _ _ he => he
  obtain ⟨hkeyed, hstarted, hadds⟩ := h₃
  rw [wp_bind]
  refine wp_mono (acceptPeers_extends _ _ _) (fun _ r₄ h₄ => (wp_pure _).2 ?_) fun _ _ he => he
  obtain ⟨es, hplain, hext⟩ := h₄
  have hall := (h₂.1.trans hadds).toExtends.trans hext
  refine ⟨hkeyed, hstarted, ?_, ?_⟩
  · rw [hall.wire, hwire]
    exact hplain
  · rw [hall.trace, htrace]
    rfl

/-! ## The transcript -/

/-- The messages and the trace of a run that returned. -/
structure Transcript (host : Host) (config : RootConfig) (wire : List WireEvent)
    (trace : List WireTrace) where
  /-- The courts, once they are all connected. -/
  peers : HashMap String JsonLinePeer
  app : CourtManifest
  appPeer : JsonLinePeer
  recvCourt : String
  recvPeer : JsonLinePeer
  opening : List WireEvent
  openingTrace : List WireTrace
  /-- The trace events that the runner takes for the packet sent and the packet received. -/
  first : WireTrace
  second : WireTrace
  revokeEvents : List WireEvent
  revokeTrace : List WireTrace
  faultEvents : List WireEvent
  faultTrace : List WireTrace
  downEvents : List WireEvent
  downTrace : List WireTrace
  app_mem : app ∈ config.manifest.courts
  app_role : app.role = .app
  app_peer : peers.lookup app.name = some appPeer
  recv_peer : peers.lookup recvCourt = some recvPeer
  plain : ∀ e ∈ opening, e.plain = true
  names : openingTrace.map (·.event) = "lookup" :: grantNames config.policy.grants.length
  revokes : Rounds (RevokeRound peers) config.policy.revokes revokeEvents revokeTrace
  faults : Rounds (FaultRound host peers) config.policy.faults faultEvents faultTrace
  downs : Rounds DownRound config.policy.peerDown downEvents downTrace
  wire_eq : wire = opening ++ ([.received appPeer (.trace first), .received recvPeer (.trace second)] ++
    (revokeEvents ++ (faultEvents ++ downEvents)))
  trace_eq : trace = openingTrace ++ ([first, second] ++ (revokeTrace ++ (faultTrace ++ downTrace)))
  greeted : ∀ court p, peers.lookup court = some p → Greeted p court wire
  exits : ∀ court ∈ config.manifest.courtNames, court ∈ peers →
    court ∉ config.policy.faults.map (·.court) → (host.exitStatus court).code = some 0

/-- Every run that returns has a transcript. -/
theorem transcript_of_ok (files : HashMap String SharedRing) :
    wp (runManifestDemo host config)
      (fun _ r' => Valid config.manifest config.policy ∧
        Nonempty (Transcript host config r'.wire r'.state.trace))
      (fun _ _ => True) (.new host config.policy files) := by
  rw [runManifestDemo_connect, wp_bind]
  refine wp_mono (wp_and (connect_opened files) (wp_and (connect_lists files) (connect_serves files)))
    (fun children r₁ h₁ => ?_) fun _ _ _ => trivial
  obtain ⟨hopened, ⟨hv, hlists₁⟩, hserves⟩ := h₁
  obtain ⟨app, happ, hrole⟩ := exists_app hv
  rw [serveGrants_eq, wp_bind, wp_bind]
  refine wp_mono (wp_and (carryOutGrants_talks hv hlists₁ happ hrole)
    (carryOutGrants_lists hlists₁)) (fun name r₂ h₂ => ?_) fun _ _ _ => trivial
  obtain ⟨⟨rfl, es₂, ts₂, hadds₂, hplain₂, hnames₂⟩, grants, -, hlists₂⟩ := h₂
  have hlists : Keeps (Stays (Lists config grants)) (awaitTraces host app.name) :=
    .bind keeps_getPeer fun _ => .bind robust_lists.recordTraceFrom fun _ =>
      .bind (.bind .get fun _ => .expect _ _) fun _ => .bind keeps_getPeer fun _ =>
      robust_lists.recordTraceFrom
  refine wp_mono (wp_and awaitTraces_adds (keeps_stays.1 hlists r₂ hlists₂)) (fun _ r₃ h₃ => ?_)
    fun _ _ _ => trivial
  obtain ⟨⟨appPeer, recvCourt, recvPeer, x, y, happPeer, hrecvPeer, hadds₃⟩, hlists₃⟩ := h₃
  rw [wp_bind]
  refine wp_mono (wp_and (runRevokes_adds hlists₃) (keeps_stays.1 robust_lists.runRevokes r₃ hlists₃))
    (fun _ r₄ h₄ => ?_) fun _ _ _ => trivial
  obtain ⟨⟨es₄, ts₄, hrounds₄, hadds₄⟩, hlists₄⟩ := h₄
  rw [wp_bind]
  refine wp_mono (wp_and (runFaults_extends hopened.keyed hlists₄)
    (keeps_stays.1 (robust_lists.runFaults children) r₄ hlists₄)) (fun _ r₅ h₅ => ?_)
    fun _ _ _ => trivial
  obtain ⟨⟨hstay, es₅, ts₅, hrounds₅, hext₅⟩, hlists₅⟩ := h₅
  rw [wp_bind]
  refine wp_mono (runPeerDown_adds hlists₅) (fun _ r₆ h₆ => ?_) fun _ _ he => he
  obtain ⟨es₆, ts₆, hrounds₆, hadds₆⟩ := h₆
  refine wp_mono (awaitChildren_adds hopened.keyed) (fun _ r₇ h₇ => ?_) fun _ _ he => he
  obtain ⟨hexits, hadds₇⟩ := h₇
  have hpeers₃ : r₃.peers = r₁.peers := (hadds₂.trans hadds₃).peers
  have hpeers₄ : r₄.peers = r₁.peers := hadds₄.peers.trans hpeers₃
  have hlast : Extends es₆ ts₆ r₅ r₇ := by
    have h := (hadds₆.trans hadds₇).toExtends
    rwa [List.append_nil, List.append_nil] at h
  have hall := hadds₂.toExtends.trans (hadds₃.toExtends.trans (hadds₄.toExtends.trans
    (hext₅.trans hlast)))
  rw [hadds₂.peers] at happPeer hrecvPeer
  rw [hpeers₃] at hrounds₄
  rw [hpeers₄] at hrounds₅ hstay
  refine ⟨hv, ⟨{
    peers := r₁.peers, app := app, appPeer := appPeer, recvCourt := recvCourt, recvPeer := recvPeer
    opening := r₁.wire ++ es₂, openingTrace := r₁.state.trace ++ ts₂, first := x, second := y
    revokeEvents := es₄, revokeTrace := ts₄, faultEvents := es₅, faultTrace := ts₅
    downEvents := es₆, downTrace := ts₆
    app_mem := happ, app_role := hrole, app_peer := happPeer, recv_peer := hrecvPeer
    plain := List.forall_mem_append.2 ⟨hopened.plain, hplain₂⟩
    names := ?_, revokes := hrounds₄, faults := hrounds₅, downs := hrounds₆
    wire_eq := ?_, trace_eq := ?_, greeted := fun court p hp => ?_
    exits := fun court hc hp hno => ?_ }⟩⟩
  · rw [List.map_append, hopened.names, hnames₂]
    rfl
  · rw [hall.wire, List.append_assoc]
  · rw [hall.trace, List.append_assoc]
  · refine (hserves.greeted court p hp).mono ?_
    rw [hall.wire]
    exact List.prefix_append _ _
  · refine hexits court ((hopened.started court).2 hc) ?_
    rw [hadds₆.peers]
    exact hstay court hp hno

end Runner

end CourtKernel
