import CourtKernel.Linux.Throughout

/-!
# The capability in an `OpenResult`

The answer to a successful open holds a capability for the court.  The runner does not make it from
its tables: it sends back the `WireCap` that the court presented, with the rights that the court
wrote into it.

* `Registered` — a `WireCap` as the runner hands it out: identifier and rights of a capability in the
  registry.  Registered capabilities keep their rights.
* `Opening` — the runner has granted a capability and read an open with another or the same one.
* `Echoes` — an `OpenResult` with a capability follows such an open, and the capability is the one that
  the open presented.
* `returned_cap_within_grant` — it names a capability of the court, and it has no right that the court was
  not granted exactly if the court presented none that the registered capability did not have before.
* `returned_cap_inflated` — a court that presents more gets more back.
-/

namespace CourtKernel

namespace HostedRoot

/-- An open writes an event at most. -/
theorem open_capRegistry (s : HostedRoot) (id : CourtId) (d : Descriptor) (cap : Option CapId)
    (rights : Rights) : (s.open id d cap rights).2.capRegistry = s.capRegistry := by
  have he := open_effect (s := s) id d cap rights
  generalize s.open id d cap rights = x at he ⊢
  obtain ⟨result, s'⟩ := x
  cases he with
  | openRefused _ => rfl
  | openDenied _ => rfl
  | opened _ _ _ => rfl

/-- The rights on the wire are among those of the registered capability that they come with. -/
def CoversRights (root : HostedRoot) (w : WireCap) : Prop :=
  ∃ k, root.capRegistry.caps.lookup ⟨w.id.toNat⟩ = some k ∧
    k.rights.contains ⟨w.rights.bits.toBitVec⟩ = true

end HostedRoot

namespace Runner

variable {host : Host} {config : RootConfig} {peer : JsonLinePeer}

/-- A capability of the registry, as it is on the wire. -/
def Registered (root : HostedRoot) (w : WireCap) : Prop :=
  ∃ cap k, root.capRegistry.caps.lookup cap = some k ∧ w = wireCap cap k.rights

/-- Everything granted so far is registered. -/
def GrantsRegistered (root : HostedRoot) (wire : List WireEvent) : Prop :=
  ∀ p path w root', WireEvent.sent p (.grant path w) root' ∈ wire → Registered root w

/-- The last two messages are a grant and the open that presents `w`; in between, the object model is
`root`. -/
def Opening (peer : JsonLinePeer) (w : WireCap) (root : HostedRoot) (wire : List WireEvent) : Prop :=
  ∃ earlier path w₀ rights, wire = earlier ++
    [.sent peer (.grant path w₀) root, .received peer (.open path (some w) rights)]

/-- What an `OpenResult` with a capability has to do with the messages before it. -/
def Echoes (pre : List WireEvent) (e : WireEvent) : Prop :=
  ∀ peer status w ring root, e = .sent peer (.openResult status (some w) ring) root →
    (∃ before, Opening peer w before pre ∧ root.capRegistry = before.capRegistry) ∧
      root.Wf ∧ GrantsRegistered root pre

/-- The object model and the wire at any time. -/
structure Accounted (root : HostedRoot) (wire : List WireEvent) : Prop where
  wf : root.Wf
  grants : GrantsRegistered root wire
  echoes : Justified Echoes wire

/-! ## Steps -/

theorem Registered.call {root : HostedRoot} {w : WireCap} (h : Registered root w) (hwf : root.Wf)
    (c : HostedRoot.Call) : Registered (root.call c).2 w := by
  obtain ⟨cap, k, hk, rfl⟩ := h
  obtain ⟨k', hk', -, -, hrights, -⟩ :=
    ((HostedRoot.step_effect root c).persists hwf).registry.keep cap k hk
  exact ⟨cap, k', hk', by rw [hrights]⟩

/-- A message that is no grant adds none. -/
theorem GrantsRegistered.concat {root : HostedRoot} {wire : List WireEvent}
    (h : GrantsRegistered root wire) {e : WireEvent}
    (he : ∀ p path w root', e ≠ .sent p (.grant path w) root') :
    GrantsRegistered root (wire ++ [e]) := by
  intro p path w root' hmem
  rcases List.mem_append.1 hmem with hmem | hmem
  · exact h p path w root' hmem
  · exact absurd (List.mem_singleton.1 hmem).symm (he p path w root')

/-- A message from a court. -/
theorem Accounted.received {root : HostedRoot} {wire : List WireEvent} (h : Accounted root wire)
    (message : WireMessage) : Accounted root (wire ++ [.received peer message]) :=
  ⟨h.wf, h.grants.concat fun _ _ _ _ => nofun, h.echoes.concat fun _ _ _ _ _ => nofun⟩

/-- A message to a court that hands it no capability. -/
theorem Accounted.sent {root : HostedRoot} {wire : List WireEvent} (h : Accounted root wire)
    {message : WireMessage} (hm : message.handsCap = false) :
    Accounted root (wire ++ [.sent peer message root]) := by
  refine ⟨h.wf, h.grants.concat fun p path w root' he => ?_, h.echoes.concat ?_⟩
  · obtain ⟨-, rfl, -⟩ := WireEvent.sent.inj he
    cases hm
  · intro p status w ring root' he
    obtain ⟨-, rfl, -⟩ := WireEvent.sent.inj he
    cases hm

/-- A method of the object model. -/
theorem Accounted.call {root : HostedRoot} {wire : List WireEvent} (h : Accounted root wire)
    (c : HostedRoot.Call) : Accounted (root.call c).2 wire :=
  ⟨h.wf.step c, fun p path w root' hmem => (h.grants p path w root' hmem).call h.wf c, h.echoes⟩

/-- The runner, with the account kept. -/
def Accounts (r : Runner) : Prop := Accounted r.state.root r.wire

theorem robust_accounts : Robust Accounts where
  aside _ _ _ _ _ h := h
  traced _ _ h := h
  call _ c h := Accounted.call h c
  received _ _ message h := Accounted.received h message
  sent _ _ _ hm h := Accounted.sent h hm

/-- A grant of a registered capability. -/
theorem Accounted.grant {root : HostedRoot} {wire : List WireEvent} (h : Accounted root wire)
    {path : String} {w : WireCap} (hw : Registered root w) :
    Accounted root (wire ++ [.sent peer (.grant path w) root]) := by
  refine ⟨h.wf, fun p path' w' root' hmem => ?_, h.echoes.concat fun _ _ _ _ _ => nofun⟩
  rcases List.mem_append.1 hmem with hmem | hmem
  · exact h.grants p path' w' root' hmem
  · obtain ⟨-, hmessage, -⟩ := WireEvent.sent.inj (List.mem_singleton.1 hmem)
    obtain ⟨-, rfl⟩ := WireMessage.grant.inj hmessage
    exact hw

/-- The capability of the last open, sent back. -/
theorem Accounted.answer {root : HostedRoot} {wire : List WireEvent} (h : Accounted root wire)
    {w : WireCap} {before : HostedRoot} {status : WireStatus} {ring : Option WireRingInfo}
    (hlast : Opening peer w before wire) (hsame : root.capRegistry = before.capRegistry) :
    Accounted root (wire ++ [.sent peer (.openResult status (some w) ring) root]) := by
  refine ⟨h.wf, h.grants.concat fun _ _ _ _ => nofun, h.echoes.concat ?_⟩
  intro p status' w' ring' root' he
  obtain ⟨rfl, hmessage, rfl⟩ := WireEvent.sent.inj he
  obtain ⟨-, hw, -⟩ := WireMessage.openResult.inj hmessage
  obtain rfl := Option.some.inj hw
  exact ⟨⟨before, hlast, hsame⟩, h.wf, h.grants⟩

/-! ## The one function that hands out capabilities -/

/-- A capability just granted is registered with its rights. -/
theorem grantCap_registered {st : RootState} {wire : List WireEvent} (h : Accounted st.root wire)
    (court path : String) (rights : Rights) :
    wp (RootState.grantCap court path rights)
      (fun x st' => Accounted st'.root wire ∧ Registered st'.root (wireCap x.2.2 rights))
      (fun _ st' => Accounted st'.root wire) st := by
  simp only [RootState.grantCap, wp_bind, wp_get, wp_expect, RootState.wp_callRoot, wp_modify, wp_pure]
  refine ⟨fun id _ => ⟨fun d _ => ?_, fun _ => h⟩, fun _ => h⟩
  have hcall : Accounted (st.root.grantCorridorCap id d rights).2 wire :=
    h.call (.grantCorridorCap id d rights)
  refine ⟨fun cap hcap => ⟨hcall, ?_⟩, fun _ _ => hcall⟩
  have he := HostedRoot.grantCorridorCap_effect (s := st.root) id d rights
  rw [hcap] at he
  show Registered (st.root.grantCorridorCap id d rights).2 _
  generalize (st.root.grantCorridorCap id d rights).2 = root at he ⊢
  cases he with
  | granted _ _ _ hd =>
    obtain ⟨kp, -, -, -, -, rfl, rfl⟩ := CapRegistry.delegate_ok hd
    exact ⟨_, _, (CapRegistry.lookup_register _ _).trans (if_pos rfl), rfl⟩

/-- An open has been read; the registry is as the open found it. -/
structure Presented (peer : JsonLinePeer) (w : WireCap) (before : HostedRoot) (r : Runner) : Prop where
  accounts : Accounts r
  opening : Opening peer w before r.wire
  same : r.state.root.capRegistry = before.capRegistry

theorem answerOpen_accounts {court path : String} {id : CourtId} {d : Descriptor} {w : WireCap}
    {core : CapId} {rights : WireRights} {before : HostedRoot} {r : Runner}
    (h : Presented peer w before r) :
    wp (answerOpen host peer court path id d w core rights) (fun _ r' => Accounts r')
      (fun _ r' => Accounts r') r := by
  rw [answerOpen, wp_bind, wp_onState]
  refine wp_mono (openStatus_root r.state id d (some core) rights.toRights) (fun status st hst => ?_)
    fun _ _ he => he.elim
  have h₁ : Presented peer w before { r with state := st } := by
    rw [hst.1]
    exact ⟨h.accounts.call (.open id d (some core) rights.toRights), h.opening,
      (HostedRoot.open_capRegistry ..).trans h.same⟩
  have hrecord : ∀ event, Keeps (Stays (Presented peer w before)) (record host event) :=
    record_stays fun _ _ _ hp => ⟨hp.accounts, hp.opening, hp.same⟩
  rw [wp_bind]
  refine wp_mono (keeps_stays.1 (hrecord _) _ h₁) (fun _ r₂ h₂ => ?_) fun _ _ he => he.accounts
  refine wp_ite.2 ⟨fun _ => ?_, fun _ => ?_⟩
  · simp only [wp_bind, wp_get, wp_expect]
    exact ⟨fun info _ => wp_send fun _ => h₂.accounts.answer h₂.opening h₂.same, fun _ => h₂.accounts⟩
  · rw [wp_bind]
    exact wp_mono (wp_send fun _ => Accounted.sent h₂.accounts rfl) (fun _ _ h₃ => (wp_throw _).2 h₃)
      fun _ _ he => he

/-- A grant has just been sent. -/
theorem handleOpen_accounts {court path : String} {id : CourtId} {d : Descriptor} {r : Runner}
    (h : Accounts r) {earlier : List WireEvent} {w₀ : WireCap}
    (hgrant : r.wire = earlier ++ [.sent peer (.grant path w₀) r.state.root]) :
    wp (handleOpen host peer court path id d) (fun _ r' => Accounts r') (fun _ r' => Accounts r')
      r := by
  rw [handleOpen, wp_bind]
  refine wp_recv (fun _ => h) fun message unread => ?_
  have hread : Accounted r.state.root (r.wire ++ [.received peer message]) :=
    Accounted.received h message
  rw [wp_bind, wp_get]
  split
  · rename_i requestPath w rights
    refine wp_ite.2 ⟨fun hpath => ?_, fun _ => (wp_throw _).2 hread⟩
    split
    · refine answerOpen_accounts ⟨hread, ⟨earlier, path, w₀, rights, ?_⟩, rfl⟩
      show r.wire ++ _ = _
      rw [hgrant, hpath, List.append_assoc]
      rfl
    · rw [wp_bind]
      exact wp_mono (wp_send fun _ => hread.sent rfl) (fun _ _ h' => (wp_throw _).2 h') fun _ _ he => he
  · exact (wp_throw _).2 hread

theorem handleGrantAndOpen_accounts (peer : JsonLinePeer) (court path : String) (rights : Rights) :
    Keeps (Stays Accounts) (handleGrantAndOpen host peer court path rights) := by
  refine keeps_stays.2 fun r h => ?_
  rw [handleGrantAndOpen, wp_bind, wp_onState]
  refine wp_mono (grantCap_registered h court path rights) (fun x st hst => ?_) fun _ _ he => he
  obtain ⟨id, d, cap⟩ := x
  have hrecord : ∀ event, Keeps (Stays fun r' : Runner => Accounts r' ∧
      Registered r'.state.root (wireCap cap rights)) (record host event) :=
    record_stays fun _ _ _ h' => h'
  rw [wp_bind]
  refine wp_mono (keeps_stays.1 (hrecord _) _ hst) (fun _ r₁ h₁ => ?_) fun _ _ he => he.1
  rw [wp_bind]
  refine wp_mono (wp_send (J := fun r' : Runner => Accounts r' ∧
    r'.wire = r₁.wire ++ [.sent peer (.grant path (wireCap cap rights)) r'.state.root])
    fun _ => ⟨h₁.1.grant h₁.2, rfl⟩) (fun _ r₂ h₂ => ?_) fun _ _ he => he.1
  rw [wp_bind]
  exact wp_mono (handleOpen_accounts h₂.1 h₂.2) (fun _ _ h₃ => (wp_pure _).2 h₃) fun _ _ he => he

/-- The account is kept in every run, returned or failed. -/
theorem runManifestDemo_accounts (files : HashMap String SharedRing) :
    Accounts (stateOf (runManifestDemo host config (.new host config.policy files))) := by
  have hroot : ∀ (r : Runner) st, st.root = r.state.root → Accounts r →
      Accounts { r with state := st } := by
    intro r st hst h
    rw [Accounts, hst]
    exact h
  refine wp_stateOf (keeps_stays.1 (runManifestDemo_keeps hroot robust_accounts
    handleGrantAndOpen_accounts) _ ⟨HostedRoot.wf_new, ?_, justified_nil⟩)
  exact fun _ _ _ _ hmem => absurd hmem List.not_mem_nil

/-- A grant for the identifier of a registered capability was a grant of its rights. -/
theorem Registered.rights_eq {root : HostedRoot} {w₀ : WireCap} {k : Capability}
    (h : Registered root w₀) (hwf : root.Wf) (hcount : root.capRegistry.nextCap < 2 ^ 64)
    (hk : root.capRegistry.caps.lookup ⟨w₀.id.toNat⟩ = some k) :
    w₀.rights = .fromRights k.rights := by
  obtain ⟨cap, k₀, hk₀, rfl⟩ := h
  have hle : cap.raw ≤ root.capRegistry.nextCap :=
    ((hwf.registry.ids cap).1 (Finmap.mem_of_lookup_eq_some hk₀)).2
  have hcap : (⟨(UInt64.ofNat cap.raw).toNat⟩ : CapId) = cap := by
    rw [UInt64.toNat_ofNat', Nat.mod_eq_of_lt (by omega)]
  replace hk : root.capRegistry.caps.lookup ⟨(UInt64.ofNat cap.raw).toNat⟩ = some k := hk
  rw [hcap, hk₀] at hk
  rw [← Option.some.inj hk]
  rfl

/-- The capability that a successful open returns, in any run and at any time.  It is the one that
the court presented in its open, and it names a capability of the court.  It has no right beyond
those of that capability exactly if the capability as presented had none beyond those that were
registered before the open; every grant for the identifier was a grant of these rights. -/
theorem returned_cap_within_grant {files : HashMap String SharedRing} {pre post : List WireEvent}
    {w : WireCap} {ring : Option WireRingInfo} {root : HostedRoot}
    (h : (stateOf (runManifestDemo host config (.new host config.policy files))).wire =
      pre ++ .sent peer (.openResult .ok (some w) ring) root :: post) :
    ∃ court id k earlier path w₀ before presented rights,
      pre = earlier ++ [.sent peer (.grant path w₀) before,
        .received peer (.open path (some presented) rights)] ∧
      (receivedFrom peer pre).head? = some (.hello court) ∧ w = presented ∧
      (∀ id', root.NamedBy id' court ↔ id' = id) ∧ root.Holds id ⟨w.id.toNat⟩ ∧
      root.capRegistry.caps.lookup ⟨w.id.toNat⟩ = some k ∧
      (k.rights.contains ⟨w.rights.bits.toBitVec⟩ = true ↔ before.CoversRights presented) ∧
      (root.capRegistry.nextCap < 2 ^ 64 → ∀ p path' granted root',
        .sent p (.grant path' granted) root' ∈ pre → granted.id = w.id →
        granted.rights = .fromRights k.rights) := by
  have hanswers : Justified (Answers config) (stateOf (runManifestDemo host config _)).wire :=
    wp_stateOf (J := fun r : Runner => Justified (Answers config) r.wire)
      (runManifestDemo_answers files)
  obtain ⟨court, path', asked, rights', hello, hlast, hentitled, -⟩ :=
    hanswers pre _ post h peer .ok (some w) ring root rfl
  obtain ⟨⟨before, ⟨earlier, path, w₀, rights, hpre⟩, hsame⟩, hwf, hgrants⟩ :=
    (runManifestDemo_accounts files).echoes pre _ post h peer .ok w ring root rfl
  obtain ⟨request, hasked, id, k, hname, hholds, hk, -⟩ := hentitled (Or.inl rfl)
  have hopen : (receivedFrom peer pre).getLast? = some (.open path (some w) rights) := by
    rw [hpre, List.append_cons, receivedFrom_received, if_pos rfl, List.getLast?_concat]
  obtain rfl : w = request := by
    rw [hlast, hasked] at hopen
    obtain ⟨-, hw, -⟩ := WireMessage.open.inj (Option.some.inj hopen)
    exact (Option.some.inj hw).symm
  refine ⟨court, id, k, earlier, path, w₀, before, w, rights, hpre, hello, rfl, hname, hholds, hk,
    ?_, fun hcount p path' granted root' hmem hid => ?_⟩
  · rw [HostedRoot.CoversRights, ← hsame, hk]
    exact ⟨fun hr => ⟨k, rfl, hr⟩, fun ⟨k', hk', hr⟩ => Option.some.inj hk' ▸ hr⟩
  · exact (hgrants p path' granted root' hmem).rights_eq hwf hcount (by rw [hid]; exact hk)

/-- The app presents its capability with the right to send only, which is granted. -/
theorem returned_cap_within_grant_packet_rx : ∃ root k,
    demoRun.wire[13]? = some (.sent ⟨0⟩ (.openResult .ok (some ⟨3, .fromRights .SEND⟩)
      (some ⟨"run/packet-rx.ring", 64, 2048⟩)) root) ∧
    root.capRegistry.caps.lookup ⟨3⟩ = some k ∧ k.rights.contains .SEND = true := by
  have hat : demoRun.wire[13]?.any (sentAs fun p message _ => p = ⟨0⟩ ∧
      message = .openResult .ok (some ⟨3, .fromRights .SEND⟩)
        (some ⟨"run/packet-rx.ring", 64, 2048⟩)) = true := by
    unfold demoRun
    decide +kernel
  -- the object model at the grant before the open
  have hbefore : demoRun.wire[11]?.any (sentAs fun _ _ root =>
      (root.capRegistry.caps.lookup ⟨3⟩).any fun k => k.rights.contains .SEND) = true := by
    unfold demoRun
    decide +kernel
  obtain ⟨e, he, htest⟩ := (Option.any_eq_true _ _).1 hat
  obtain ⟨p, message, root, rfl, htest⟩ := sentAs_eq_true.1 htest
  obtain ⟨rfl, rfl⟩ := of_decide_eq_true htest
  obtain ⟨hlt, hget⟩ := List.getElem?_eq_some_iff.1 he
  have hwire := (List.take_append_drop 13 demoRun.wire).symm
  rw [List.drop_eq_getElem_cons hlt, hget] at hwire
  have hpre : (demoRun.wire.take 13)[11]? = demoRun.wire[11]? := List.getElem?_take_of_lt (by decide)
  have hlen : (demoRun.wire.take 13).length = 13 := List.length_take_of_le (by omega)
  generalize demoRun.wire.take 13 = pre at hwire hpre hlen
  unfold demoRun at hwire
  obtain ⟨-, -, k, earlier, path, w₀, before, -, rights, hsplit, -, rfl, -, -, hk, hiff, -⟩ :=
    returned_cap_within_grant hwire
  refine ⟨root, k, he, hk, hiff.2 ?_⟩
  have hlast : pre[11]? = some (.sent ⟨0⟩ (.grant path w₀) before) := by
    rw [hsplit, List.length_append] at hlen
    rw [hsplit, List.getElem?_append_right (by simp at hlen; omega)]
    simp at hlen
    simp [hlen]
  rw [← hpre, hlast, Option.any_some] at hbefore
  obtain ⟨_, _, root', heq, hany⟩ := sentAs_eq_true.1 hbefore
  obtain ⟨-, -, rfl⟩ := WireEvent.sent.inj heq
  obtain ⟨k₀, hk₀, hrights⟩ := (Option.any_eq_true _ _).1 hany
  exact ⟨k₀, hk₀, hrights⟩

/-- The app presents its capability with all rights. -/
def inflatedScripts : List (List WireMessage) :=
  [[.hello "app", .lookup "/court/net0/packet/rx",
      .open "/court/net0/packet/rx" none (.fromRights .SEND),
      .open "/court/net0/packet/rx" (some ⟨3, ⟨0xFFFFFFFFFFFFFFFF⟩⟩) (.fromRights .SEND)],
    [.hello "net0",
      .open "/court/net0/packet/rx" (some ⟨2, .fromRights .RECV⟩) (.fromRights .RECV)]]

@[irreducible] def inflatedRun : Runner :=
  stateOf (runManifestDemo (.scripted inflatedScripts fun _ => ⟨some 0, ""⟩)
    ⟨"run", .builtinPacketRx, .builtinPacketRx⟩
    (.new (.scripted inflatedScripts fun _ => ⟨some 0, ""⟩) .builtinPacketRx ∅))

/-- It gets it back with all rights, though it was granted the rights to send and to observe. -/
theorem returned_cap_inflated : ∃ pre post root k,
    inflatedRun.wire = pre ++ .sent ⟨0⟩ (.openResult .ok (some ⟨3, ⟨0xFFFFFFFFFFFFFFFF⟩⟩)
      (some ⟨"run/packet-rx.ring", 64, 2048⟩)) root :: post ∧
    root.capRegistry.caps.lookup ⟨3⟩ = some k ∧ k.rights = .SEND ||| .OBSERVE := by
  have hany : inflatedRun.wire.any (sentAs fun p message root => p = ⟨0⟩ ∧
      message = .openResult .ok (some ⟨3, ⟨0xFFFFFFFFFFFFFFFF⟩⟩)
        (some ⟨"run/packet-rx.ring", 64, 2048⟩) ∧
      (root.capRegistry.caps.lookup ⟨3⟩).map (·.rights) = some (.SEND ||| .OBSERVE)) = true := by
    unfold inflatedRun
    decide +kernel
  obtain ⟨e, hmem, he⟩ := List.any_eq_true.1 hany
  obtain ⟨p, message, root, rfl, htest⟩ := sentAs_eq_true.1 he
  obtain ⟨rfl, rfl, hrights⟩ := of_decide_eq_true htest
  obtain ⟨k, hk, hkr⟩ := Option.map_eq_some_iff.1 hrights
  obtain ⟨pre, post, hwire⟩ := List.append_of_mem hmem
  exact ⟨pre, post, root, k, hwire, hk, hkr⟩

end Runner

end CourtKernel
