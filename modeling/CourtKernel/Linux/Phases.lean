import CourtKernel.Linux.Courts
import CourtKernel.Linux.Transcript

/-!
# The phases of a policy

Every revocation, fault and peer-down entry of a policy names a phase, in its `after` field, that is
to come before it.  The validator compares the name with a fixed list, and the runner does not look
at it again.  So whether the phase has come before depends on what is recorded in a run, and that
depends on the courts.

* `Follows` — the courts on the wire follow `app::run` and `net::run`.
* `Honoured` — the event of an entry is recorded, and never before an event of the name in `after`.
* `Course` — the transcript of a run with such courts; its lemmas say who is behind a connection and
  which trace events are recorded in each part.
* `phases_honoured` — revocations are honoured in every run that returns; faults and peer-down entries
  are, exactly if none of them waits for a revocation while the policy has none.
* `fault_without_revoke` — the validator accepts such a policy, and the fault comes without it.
-/

namespace CourtKernel

open CourtProcess (spoken Writes)

/-- What of the policy a message carries out, in the order of the runner. -/
def WireEvent.phase : WireEvent → Nat
  | .sent _ (.revoke _) _ => 1
  | .sent _ (.fault _) _ => 2
  | .sent _ (.peerDown _) _ => 3
  | _ => 0

theorem WireEvent.phase_of_plain {e : WireEvent} (h : e.plain = true) : e.phase = 0 := by
  unfold WireEvent.phase
  split
  · cases h
  · cases h
  · cases h
  · rfl

namespace Runner

variable {host : Host} {config : RootConfig} {wire pre post : List WireEvent}
  {trace : List WireTrace} {peer : JsonLinePeer} {owner : JsonLinePeer → CourtManifest}
  {env : JsonLinePeer → CourtHost}

/-! ## Courts on the wire -/

/-- The messages that a connection was sent, in order. -/
def sentTo (peer : JsonLinePeer) (wire : List WireEvent) : List WireMessage :=
  wire.filterMap fun
    | .sent p message _ => if p = peer then some message else none
    | .received .. => none

/-- A court wrote the message, given what it was sent before. -/
def Wrote (courts : List CourtManifest) (owner : JsonLinePeer → CourtManifest)
    (env : JsonLinePeer → CourtHost) (pre : List WireEvent) : WireEvent → Prop
  | .received p message => owner p ∈ courts ∧
      receivedFrom p pre ++ [message] <+: (owner p).written (env p) (sentTo p pre)
  | .sent .. => True

/-- The exit codes 0 and 42 of a court are those of its program, given all that it was sent. -/
def Exited (host : Host) (owner : JsonLinePeer → CourtManifest) (env : JsonLinePeer → CourtHost)
    (wire : List WireEvent) : WireEvent → Prop
  | .received p _ => ∀ code ∈ [0, 42], (host.exitStatus (owner p).name).code = some code →
      (owner p).exitOf (env p) (sentTo p wire) = .ok code
  | .sent .. => True

/-- Behind each connection is a court of the manifest, which follows its program. -/
structure Follows (host : Host) (courts : List CourtManifest) (owner : JsonLinePeer → CourtManifest)
    (env : JsonLinePeer → CourtHost) (wire : List WireEvent) : Prop where
  lines : Justified (Wrote courts owner env) wire
  exits : ∀ e ∈ wire, Exited host owner env wire e

instance (courts : List CourtManifest) (owner : JsonLinePeer → CourtManifest)
    (env : JsonLinePeer → CourtHost) (pre : List WireEvent) (e : WireEvent) :
    Decidable (Wrote courts owner env pre e) :=
  match e with
  | .received _ _ => inferInstanceAs (Decidable (_ ∧ _))
  | .sent .. => .isTrue trivial

instance (host : Host) (owner : JsonLinePeer → CourtManifest) (env : JsonLinePeer → CourtHost)
    (wire : List WireEvent) (e : WireEvent) : Decidable (Exited host owner env wire e) :=
  match e with
  | .received _ _ => inferInstanceAs (Decidable (∀ _ ∈ _, _ → _))
  | .sent .. => .isTrue trivial

instance (host : Host) (courts : List CourtManifest) (owner : JsonLinePeer → CourtManifest)
    (env : JsonLinePeer → CourtHost) (wire : List WireEvent) :
    Decidable (Follows host courts owner env wire) :=
  decidable_of_iff (Justified (Wrote courts owner env) wire ∧ ∀ e ∈ wire, Exited host owner env wire e)
    ⟨fun h => ⟨h.1, h.2⟩, fun h => ⟨h.1, h.2⟩⟩

theorem mem_sentTo {message : WireMessage} :
    message ∈ sentTo peer wire ↔ ∃ root, .sent peer message root ∈ wire := by
  rw [sentTo, List.mem_filterMap]
  constructor
  · rintro ⟨e, he, hm⟩
    cases e with
    | received => cases hm
    | sent p m root =>
      obtain ⟨rfl, hsame⟩ := Option.ite_none_right_eq_some.1 hm
      exact ⟨root, Option.some.inj hsame ▸ he⟩
  · rintro ⟨root, he⟩
    exact ⟨_, he, if_pos rfl⟩

theorem sentTo_sent (pre post : List WireEvent) (message : WireMessage) (root : HostedRoot) :
    sentTo peer (pre ++ .sent peer message root :: post) =
      sentTo peer pre ++ message :: sentTo peer post := by
  simp [sentTo]

/-- What belongs to a later phase was not sent yet. -/
theorem not_mem_sentTo {k : Nat} {message : WireMessage} (h : ∀ e ∈ wire, e.phase ≤ k)
    (hm : ∀ root, k < (WireEvent.sent peer message root).phase) : message ∉ sentTo peer wire := by
  intro hmem
  obtain ⟨root, he⟩ := mem_sentTo.1 hmem
  exact absurd (h _ he) (Nat.not_le.2 (hm root))

theorem mem_receivedFrom {message : WireMessage} :
    message ∈ receivedFrom peer wire ↔ .received peer message ∈ wire := by
  rw [receivedFrom, List.mem_filterMap]
  constructor
  · rintro ⟨e, he, hm⟩
    cases e with
    | sent => cases hm
    | received p m =>
      obtain ⟨rfl, hsame⟩ := Option.ite_none_right_eq_some.1 hm
      exact Option.some.inj hsame ▸ he
  · intro he
    exact ⟨_, he, if_pos rfl⟩

theorem mem_spoken {messages : List WireMessage} {name : String} :
    name ∈ spoken messages ↔ ∃ x, .trace x ∈ messages ∧ x.event = name := by
  rw [spoken, List.mem_filterMap]
  constructor
  · rintro ⟨message, hm, hx⟩
    split at hx
    · exact ⟨_, hm, Option.some.inj hx⟩
    · cases hx
  · rintro ⟨x, hm, hx⟩
    exact ⟨_, hm, congrArg some hx⟩

/-- A connection whose trace event is on the wire has spoken. -/
theorem spoken_ne_nil {x : WireTrace} (h : .received peer (.trace x) ∈ wire) :
    spoken (receivedFrom peer wire) ≠ [] :=
  List.ne_nil_of_mem (mem_spoken.2 ⟨x, mem_receivedFrom.2 h, rfl⟩)

theorem spoken_eq_nil (h : ∀ x, .received peer (.trace x) ∉ wire) :
    spoken (receivedFrom peer wire) = [] := by
  rw [List.eq_nil_iff_forall_not_mem]
  intro name hname
  obtain ⟨x, hx, -⟩ := mem_spoken.1 hname
  exact h x (mem_receivedFrom.1 hx)

/-- A trace event continues what the court has said. -/
theorem Follows.says {courts : List CourtManifest} (h : Follows host courts owner env wire)
    {x : WireTrace} (hwire : wire = pre ++ .received peer (.trace x) :: post) :
    spoken (receivedFrom peer pre) ++ [x.event] <+:
      spoken ((owner peer).written (env peer) (sentTo peer pre)) := by
  have hlines := (h.lines pre _ post hwire).2
  have hspoken : spoken (receivedFrom peer pre ++ [.trace x]) =
      spoken (receivedFrom peer pre) ++ [x.event] := by
    rw [spoken, List.filterMap_append]
    rfl
  rw [← hspoken]
  exact hlines.filterMap _

theorem Follows.speaks {courts : List CourtManifest} (h : Follows host courts owner env wire)
    {P : List String → Prop} (hsilent : P [])
    (hwrites : Writes (owner peer).name P ((owner peer).written (env peer) (sentTo peer pre)))
    {x : WireTrace} (hwire : wire = pre ++ .received peer (.trace x) :: post) :
    ∃ names, P names ∧ spoken (receivedFrom peer pre) ++ [x.event] <+: names := by
  have hsays := h.says hwire
  rcases hwrites with hnil | ⟨names, hspeaks, hsaid⟩
  · rw [hnil] at hsays
    exact ⟨[], hsilent, hsays⟩
  · exact ⟨names, hspeaks, hsaid.names ▸ hsays⟩

theorem Follows.app_speaks {courts : List CourtManifest} (h : Follows host courts owner env wire)
    (hrole : (owner peer).role = .app) {x : WireTrace}
    (hwire : wire = pre ++ .received peer (.trace x) :: post) :
    ∃ names, App.Speaks (sentTo peer pre) names ∧
      spoken (receivedFrom peer pre) ++ [x.event] <+: names :=
  h.speaks (Or.inl rfl) (CourtManifest.written_app hrole) hwire

theorem Follows.net_speaks {courts : List CourtManifest} (h : Follows host courts owner env wire)
    (hrole : (owner peer).role = .net) {x : WireTrace}
    (hwire : wire = pre ++ .received peer (.trace x) :: post) :
    ∃ names, Net.Speaks names ∧ spoken (receivedFrom peer pre) ++ [x.event] <+: names :=
  h.speaks (P := Net.Speaks) List.nil_prefix (CourtManifest.written_net hrole) hwire

/-- A court begins with its name. -/
theorem written_head {court : CourtManifest} {env : CourtHost} {inbox messages : List WireMessage}
    (h : messages <+: court.written env inbox) (hne : messages ≠ []) :
    messages.head? = some (.hello court.name) := by
  have hwrites : ∃ P, Writes court.name P (court.written env inbox) := by
    cases hrole : court.role with
    | app => exact ⟨_, CourtManifest.written_app hrole⟩
    | net => exact ⟨_, CourtManifest.written_net hrole⟩
  obtain ⟨first, rest, rfl⟩ := List.exists_cons_of_ne_nil hne
  obtain ⟨P, hnil | ⟨names, -, hsaid⟩⟩ := hwrites
  · rw [hnil] at h
    cases List.prefix_nil.1 h
  · obtain ⟨more, hmore⟩ := h
    rw [← hsaid.hello, ← hmore]
    rfl

/-! ## Rounds -/

section

variable {γ : Type} {Round : γ → List WireEvent → List WireTrace → Prop} {entries : List γ}
  {entry : γ} {es es' : List WireEvent} {ts ts' : List WireTrace}

/-- One round among those of a loop. -/
structure Rounds.Part (Round : γ → List WireEvent → List WireTrace → Prop) (es : List WireEvent)
    (ts : List WireTrace) (entry : γ) (es' : List WireEvent) (ts' : List WireTrace) : Prop where
  round : Round entry es' ts'
  events : ∃ before after, es = before ++ (es' ++ after)
  trace : ts' ⊆ ts

theorem Rounds.Part.append (h : Rounds.Part Round es ts entry es' ts') (more : List WireEvent)
    (moreTrace : List WireTrace) : Rounds.Part Round (es ++ more) (ts ++ moreTrace) entry es' ts' := by
  obtain ⟨before, after, rfl⟩ := h.events
  exact ⟨h.round, ⟨before, after ++ more, by simp only [List.append_assoc]⟩,
    List.subset_append_of_subset_left _ h.trace⟩

theorem Rounds.Part.last (es : List WireEvent) (ts : List WireTrace) (h : Round entry es' ts') :
    Rounds.Part Round (es ++ es') (ts ++ ts') entry es' ts' :=
  ⟨h, ⟨es, [], by rw [List.append_nil]⟩, List.subset_append_right _ _⟩

theorem Rounds.of_entry (h : Rounds Round entries es ts) (he : entry ∈ entries) :
    ∃ es' ts', Rounds.Part Round es ts entry es' ts' := by
  induction h with
  | nil => cases he
  | @concat done last es₁ es₂ ts₁ ts₂ _ hlast ih =>
    rcases List.mem_append.1 he with he | he
    · obtain ⟨es', ts', hpart⟩ := ih he
      exact ⟨es', ts', hpart.append _ _⟩
    · obtain rfl := List.mem_singleton.1 he
      exact ⟨_, _, .last _ _ hlast⟩

theorem Rounds.trace_of_nil (h : Rounds Round entries es ts) (hnil : entries = []) : ts = [] := by
  cases h with
  | nil => rfl
  | concat _ _ => simp at hnil

/-- The trace of a loop begins with that of its first round. -/
theorem Rounds.head (h : Rounds Round entries es ts) (hne : entries ≠ []) :
    ∃ entry es' ts' rest, Round entry es' ts' ∧ ts = ts' ++ rest := by
  induction h with
  | nil => exact absurd rfl hne
  | @concat done last es₁ es₂ ts₁ ts₂ hdone hlast ih =>
    by_cases hnil : done = []
    · obtain rfl := hdone.trace_of_nil hnil
      exact ⟨last, es₂, ts₂, [], hlast, by simp⟩
    · obtain ⟨entry, es', ts', rest, hround, rfl⟩ := ih hnil
      exact ⟨entry, es', ts', rest ++ ts₂, hround, by simp⟩

/-- Every message and every event belongs to a round. -/
theorem Rounds.of_mem (h : Rounds Round entries es ts) :
    (∀ e ∈ es, ∃ entry es' ts', Rounds.Part Round es ts entry es' ts' ∧ e ∈ es') ∧
      ∀ x ∈ ts, ∃ entry es' ts', Rounds.Part Round es ts entry es' ts' ∧ x ∈ ts' := by
  induction h with
  | nil => exact ⟨fun _ he => absurd he List.not_mem_nil, fun _ hx => absurd hx List.not_mem_nil⟩
  | @concat done last es₁ es₂ ts₁ ts₂ _ hlast ih =>
    refine ⟨fun e he => ?_, fun x hx => ?_⟩
    · rcases List.mem_append.1 he with he | he
      · obtain ⟨entry, es', ts', hpart, hmem⟩ := ih.1 e he
        exact ⟨entry, es', ts', hpart.append _ _, hmem⟩
      · exact ⟨last, es₂, ts₂, .last _ _ hlast, he⟩
    · rcases List.mem_append.1 hx with hx | hx
      · obtain ⟨entry, es', ts', hpart, hmem⟩ := ih.2 x hx
        exact ⟨entry, es', ts', hpart.append _ _, hmem⟩
      · exact ⟨last, es₂, ts₂, .last _ _ hlast, hx⟩

end

/-! ## A run with such courts -/

/-- The transcript of a run whose courts follow their programs. -/
structure Course (host : Host) (config : RootConfig) (owner : JsonLinePeer → CourtManifest)
    (env : JsonLinePeer → CourtHost) (wire : List WireEvent) (trace : List WireTrace)
    extends Transcript host config wire trace where
  valid : Valid config.manifest config.policy
  follows : Follows host config.manifest.courts owner env wire

namespace Course

variable (c : Course host config owner env wire trace) {court : String}

include c in
theorem exists_received (hp : c.peers.lookup court = some peer) :
    ∃ message, .received peer message ∈ wire := by
  have hhead := c.greeted court peer hp
  exact ⟨_, mem_receivedFrom.1 (List.mem_of_mem_head? hhead)⟩

/-- Behind a connection is the court that it named. -/
theorem owner_of_peer (hp : c.peers.lookup court = some peer) :
    owner peer ∈ config.manifest.courts ∧ (owner peer).name = court := by
  obtain ⟨message, hmem⟩ := c.exists_received hp
  obtain ⟨pre, post, hwire⟩ := List.append_of_mem hmem
  obtain ⟨howner, hwritten⟩ := c.follows.lines pre _ post hwire
  have hne : receivedFrom peer pre ++ [message] ≠ [] := List.append_ne_nil_of_right_ne_nil _ nofun
  have hgreeted : Greeted peer (owner peer).name (pre ++ [.received peer message]) := by
    rw [Greeted, receivedFrom_received, if_pos rfl]
    exact written_head hwritten hne
  have hfull : Greeted peer (owner peer).name wire := hgreeted.mono ⟨post, by simp [hwire]⟩
  have hsame := hfull.symm.trans (c.greeted court peer hp)
  exact ⟨howner, WireMessage.hello.inj (Option.some.inj hsame)⟩

theorem owner_appPeer : owner c.appPeer = c.app := by
  obtain ⟨howner, hnamed⟩ := c.owner_of_peer c.app_peer
  exact List.inj_on_of_nodup_map c.valid.courts.2 howner c.app_mem hnamed

/-- There is one connection of the app. -/
theorem eq_appPeer (hp : c.peers.lookup court = some peer) (hrole : (owner peer).role = .app) :
    peer = c.appPeer := by
  obtain ⟨howner, hnamed⟩ := c.owner_of_peer hp
  have hsame := app_unique c.valid.app howner c.app_mem hrole c.app_role
  rw [← hnamed, hsame, c.app_peer] at hp
  exact (Option.some.inj hp).symm

theorem exitOf_peer (hp : c.peers.lookup court = some peer) {code : Int} (hcode : code ∈ [0, 42])
    (hexit : (host.exitStatus court).code = some code) :
    (owner peer).exitOf (env peer) (sentTo peer wire) = .ok code := by
  obtain ⟨message, hmem⟩ := c.exists_received hp
  rw [← (c.owner_of_peer hp).2] at hexit
  exact c.follows.exits _ hmem code hcode hexit

/-- The court of a fault is a net court, and was not told of a revocation before it. -/
theorem faultFirst_of_round {fault : FaultPolicy} {es : List WireEvent} {ts : List WireTrace}
    (h : FaultRound host c.peers fault es ts) (hp : c.peers.lookup fault.court = some peer) :
    (owner peer).role = .net ∧ Net.FaultFirst (sentTo peer wire) := by
  obtain ⟨-, -, -, -, -, -, -, hcode⟩ := h
  have hexit := c.exitOf_peer hp (by decide) hcode
  cases hrole : (owner peer).role with
  | app => exact absurd (CourtManifest.exitOf_app hrole hexit) (by decide)
  | net => exact ⟨rfl, (CourtManifest.exitOf_net hrole hexit).2⟩

/-- Every net court is faulted, as it would not exit with the code 0. -/
theorem exists_fault (hp : c.peers.lookup court = some peer) (hrole : (owner peer).role = .net) :
    ∃ fault ∈ config.policy.faults, fault.court = court := by
  by_contra hno
  have hout : court ∉ config.policy.faults.map (·.court) := fun hmem => hno (List.mem_map.1 hmem)
  obtain ⟨howner, hnamed⟩ := c.owner_of_peer hp
  have hname : court ∈ config.manifest.courtNames := hnamed ▸ List.mem_map_of_mem howner
  have hexit := c.exits court hname (Finmap.mem_iff.2 ⟨peer, hp⟩) hout
  have hcode := (CourtManifest.exitOf_net hrole (c.exitOf_peer hp (by decide) hexit)).1
  exact absurd hcode (by decide)

theorem faultFirst (hp : c.peers.lookup court = some peer) (hrole : (owner peer).role = .net) :
    Net.FaultFirst (sentTo peer wire) := by
  obtain ⟨fault, hfault, rfl⟩ := c.exists_fault hp hrole
  obtain ⟨es, ts, hpart⟩ := c.faults.of_entry hfault
  exact (c.faultFirst_of_round hpart.round hp).2

/-! ### What is recorded -/

theorem opening_phase : ∀ e ∈ c.opening, e.phase ≤ 0 := fun e he =>
  Nat.le_of_eq (WireEvent.phase_of_plain (c.plain e he))

theorem opening_quiet (x : WireTrace) : .received peer (.trace x) ∉ c.opening := fun hmem =>
  absurd (c.plain _ hmem) nofun

/-- The app has sent its packet. -/
theorem first_event : c.first.event = "send" := by
  have hrole : (owner c.appPeer).role = .app := by
    rw [c.owner_appPeer]
    exact c.app_role
  obtain ⟨names, hspeaks, hbegins⟩ := c.follows.app_speaks hrole c.wire_eq
  rw [spoken_eq_nil c.opening_quiet] at hbegins
  exact hspeaks.first hbegins

theorem wire_second : wire = (c.opening ++ [.received c.appPeer (.trace c.first)]) ++
    .received c.recvPeer (.trace c.second) :: (c.revokeEvents ++ (c.faultEvents ++ c.downEvents)) := by
  refine c.wire_eq.trans ?_
  simp

/-- The court that is asked for the packet is a net court. -/
theorem owner_recvPeer : (owner c.recvPeer).role = .net := by
  cases hrole : (owner c.recvPeer).role with
  | net => rfl
  | app =>
    -- the app says no more before something is revoked
    have happ := c.eq_appPeer c.recv_peer hrole
    have hphase : ∀ e ∈ c.opening ++ [.received c.appPeer (.trace c.first)], e.phase ≤ 0 :=
      List.forall_mem_append.2 ⟨c.opening_phase, List.forall_mem_singleton.2 (Nat.le_refl 0)⟩
    obtain ⟨names, hspeaks, hbegins⟩ := c.follows.app_speaks hrole c.wire_second
    have hspoke : spoken (receivedFrom c.recvPeer
        (c.opening ++ [.received c.appPeer (.trace c.first)])) ≠ [] := by
      rw [happ]
      exact spoken_ne_nil (List.mem_append_right _ List.mem_cons_self)
    obtain ⟨-, cap, hcap⟩ := hspeaks.later hbegins hspoke fun path =>
      not_mem_sentTo hphase fun _ => by simp [WireEvent.phase]
    exact absurd hcap (not_mem_sentTo hphase fun _ => by simp [WireEvent.phase])

theorem second_event : c.second.event = "recv" := by
  have hother : c.recvPeer ≠ c.appPeer := by
    intro hsame
    have hrole := c.owner_recvPeer
    rw [hsame, c.owner_appPeer, c.app_role] at hrole
    cases hrole
  obtain ⟨names, hspeaks, hbegins⟩ := c.follows.net_speaks c.owner_recvPeer c.wire_second
  rw [spoken_eq_nil] at hbegins
  · exact hspeaks.first hbegins
  · intro x hx
    rcases List.mem_append.1 hx with hx | hx
    · exact c.opening_quiet x hx
    · exact hother (WireEvent.received.inj (List.mem_singleton.1 hx)).1

theorem revokeEvents_phase : ∀ e ∈ c.revokeEvents, e.phase ≤ 1 := by
  intro e he
  obtain ⟨revoke, es, ts, hpart, hmem⟩ := c.revokes.of_mem.1 e he
  obtain ⟨p, cap, root, x, -, rfl, -⟩ := hpart.round
  rcases List.mem_pair.1 hmem with rfl | rfl
  · exact Nat.le_refl 1
  · exact Nat.zero_le 1

/-- A revocation is of a capability of the app, which tries to send once more. -/
theorem revoke_part {revoke : RevokePolicy} {es : List WireEvent} {ts : List WireTrace}
    (h : Rounds.Part (RevokeRound c.peers) c.revokeEvents c.revokeTrace revoke es ts) :
    ∃ e x, ts = [e, x] ∧ e.event = "revoke" ∧ e.court = "root" ∧ x.event = "send_after_revoke" := by
  obtain ⟨p, cap, root, x, hp, rfl, rfl⟩ := h.round
  refine ⟨_, _, rfl, rfl, rfl, ?_⟩
  obtain ⟨before, after, hevents⟩ := h.events
  obtain ⟨pre, hpre⟩ : ∃ pre, pre = c.opening ++ ([.received c.appPeer (.trace c.first),
    .received c.recvPeer (.trace c.second)] ++ before) := ⟨_, rfl⟩
  have hwire : wire = pre ++ .sent p (.revoke cap) root :: .received p (.trace x) ::
      (after ++ (c.faultEvents ++ c.downEvents)) := by
    refine c.wire_eq.trans ?_
    rw [hevents, hpre]
    simp
  have hphase : ∀ e ∈ pre, e.phase ≤ 1 := by
    rw [hpre]
    refine List.forall_mem_append.2 ⟨fun e he => Nat.le_succ_of_le (c.opening_phase e he), ?_⟩
    refine List.forall_mem_append.2 ⟨?_, fun e he => c.revokeEvents_phase e ?_⟩
    · rintro e he
      rcases List.mem_pair.1 he with rfl | rfl <;> exact Nat.zero_le 1
    · rw [hevents]
      exact List.mem_append_left _ he
  cases hrole : (owner p).role with
  | net =>
    -- a net court that is told so before its fault does not exit with the code 42
    have hsent := (congrArg (sentTo p) hwire).trans (sentTo_sent _ _ _ _)
    obtain ⟨reason, hreason⟩ := c.faultFirst hp hrole _ _ _ hsent
    exact absurd hreason (not_mem_sentTo hphase fun _ => by simp [WireEvent.phase])
  | app =>
    obtain rfl := c.eq_appPeer hp hrole
    have hat : wire = (pre ++ [.sent c.appPeer (.revoke cap) root]) ++
        .received c.appPeer (.trace x) :: (after ++ (c.faultEvents ++ c.downEvents)) := by
      refine hwire.trans ?_
      rw [List.append_assoc]
      rfl
    have hspoke : spoken (receivedFrom c.appPeer (pre ++ [.sent c.appPeer (.revoke cap) root])) ≠ [] := by
      refine spoken_ne_nil (x := c.first) (List.mem_append_left _ ?_)
      rw [hpre]
      exact List.mem_append_right _ List.mem_cons_self
    obtain ⟨names, hspeaks, hbegins⟩ := c.follows.app_speaks hrole hat
    refine (hspeaks.later hbegins hspoke fun path => not_mem_sentTo (k := 1) ?_ fun _ => by simp [WireEvent.phase]).1
    exact List.forall_mem_append.2 ⟨hphase, List.forall_mem_singleton.2 (Nat.le_refl 1)⟩

/-- A fault is that of a net court, which reports it if it has reported its packet. -/
theorem fault_part {fault : FaultPolicy} {es : List WireEvent} {ts : List WireTrace}
    (h : Rounds.Part (FaultRound host c.peers) c.faultEvents c.faultTrace fault es ts) :
    ∃ x e, ts = [x, e] ∧ e.event = "court_fault" ∧ e.court = "root" ∧
      (x.event = "fault" ∨ x.event = "recv" ∧ fault.court ≠ c.recvCourt) := by
  have hround := h.round
  obtain ⟨p, root, x, path, hp, rfl, rfl, -⟩ := hround
  refine ⟨_, _, rfl, rfl, rfl, ?_⟩
  have hrole := (c.faultFirst_of_round h.round hp).1
  obtain ⟨before, after, hevents⟩ := h.events
  obtain ⟨pre, hpre⟩ : ∃ pre, pre = c.opening ++ ([.received c.appPeer (.trace c.first),
    .received c.recvPeer (.trace c.second)] ++ (c.revokeEvents ++ (before ++
      [.sent p (.fault fault.reason) root]))) := ⟨_, rfl⟩
  have hwire : wire = pre ++ .received p (.trace x) :: (after ++ c.downEvents) := by
    refine c.wire_eq.trans ?_
    rw [hevents, hpre]
    simp
  obtain ⟨names, hspeaks, hbegins⟩ := c.follows.net_speaks hrole hwire
  by_cases hspoke : spoken (receivedFrom p pre) = []
  · rw [hspoke] at hbegins
    refine Or.inr ⟨hspeaks.first hbegins, fun hsame => ?_⟩
    rw [hsame, c.recv_peer] at hp
    obtain rfl := Option.some.inj hp
    refine spoken_ne_nil (x := c.second) ?_ hspoke
    rw [hpre]
    exact List.mem_append_right _ (List.mem_append_left _ (by simp))
  · exact Or.inl (hspeaks.later hbegins hspoke)

/-! ### Which phases have come -/

/-- The events up to the packet, up to the last revocation, and up to the last fault. -/
def openingNames : List String := (c.openingTrace ++ [c.first, c.second]).map (·.event)

def revokeNames : List String := c.revokeTrace.map (·.event)

def faultNames : List String := c.faultTrace.map (·.event)

theorem mem_openingNames {name : String} :
    name ∈ c.openingNames ↔ name ∈ ["lookup", "open_denied", "grant", "open", "send", "recv"] := by
  have hgrants : config.policy.grants.length ≠ 0 := fun h =>
    c.valid.grants.1 (List.eq_nil_of_length_eq_zero h)
  have hround : name ∈ (List.replicate config.policy.grants.length ["grant", "open"]).flatten ↔
      name ∈ ["grant", "open"] := by
    rw [List.mem_flatten]
    constructor
    · rintro ⟨round, hmem, hname⟩
      rwa [List.eq_of_mem_replicate hmem] at hname
    · intro hname
      exact ⟨_, List.mem_replicate.2 ⟨hgrants, rfl⟩, hname⟩
  rw [openingNames, List.map_append, c.names, List.map_cons, List.map_singleton, c.first_event,
    c.second_event, grantNames, List.mem_append, List.mem_cons, List.mem_cons, List.mem_cons, hround]
  simp [or_assoc]

theorem mem_revokeNames_of {name : String} (h : name ∈ c.revokeNames) :
    name = "revoke" ∨ name = "send_after_revoke" := by
  obtain ⟨e, he, rfl⟩ := List.mem_map.1 h
  obtain ⟨revoke, es, ts, hpart, hmem⟩ := c.revokes.of_mem.2 e he
  obtain ⟨e', x, rfl, he', -, hx⟩ := c.revoke_part hpart
  rcases List.mem_pair.1 hmem with rfl | rfl
  · exact Or.inl he'
  · exact Or.inr hx

theorem revokeNames_eq_nil (h : config.policy.revokes = []) : c.revokeNames = [] := by
  rw [revokeNames, c.revokes.trace_of_nil h, List.map_nil]

theorem mem_revokeNames (h : config.policy.revokes ≠ []) :
    "revoke" ∈ c.revokeNames ∧ "send_after_revoke" ∈ c.revokeNames := by
  obtain ⟨revoke, hrevoke⟩ := List.exists_mem_of_ne_nil _ h
  obtain ⟨es, ts, hpart⟩ := c.revokes.of_entry hrevoke
  obtain ⟨e, x, rfl, he, -, hx⟩ := c.revoke_part hpart
  exact ⟨List.mem_map.2 ⟨e, hpart.trace List.mem_cons_self, he⟩,
    List.mem_map.2 ⟨x, hpart.trace (List.mem_cons_of_mem _ List.mem_cons_self), hx⟩⟩

theorem mem_faultNames_of {name : String} (h : name ∈ c.faultNames) :
    name = "recv" ∨ name = "fault" ∨ name = "court_fault" := by
  obtain ⟨e, he, rfl⟩ := List.mem_map.1 h
  obtain ⟨fault, es, ts, hpart, hmem⟩ := c.faults.of_mem.2 e he
  obtain ⟨x, e', rfl, he', -, hx⟩ := c.fault_part hpart
  rcases List.mem_pair.1 hmem with rfl | rfl
  · rcases hx with hx | ⟨hx, -⟩
    · exact Or.inr (Or.inl hx)
    · exact Or.inl hx
  · exact Or.inr (Or.inr he')

/-- The net court that was asked for the packet is faulted. -/
theorem mem_faultNames : "fault" ∈ c.faultNames ∧ "court_fault" ∈ c.faultNames := by
  obtain ⟨fault, hfault, hcourt⟩ := c.exists_fault c.recv_peer c.owner_recvPeer
  obtain ⟨es, ts, hpart⟩ := c.faults.of_entry hfault
  obtain ⟨x, e, rfl, he, -, hx⟩ := c.fault_part hpart
  refine ⟨List.mem_map.2 ⟨x, hpart.trace List.mem_cons_self, ?_⟩,
    List.mem_map.2 ⟨e, hpart.trace (List.mem_cons_of_mem _ List.mem_cons_self), he⟩⟩
  rcases hx with hx | ⟨-, hother⟩
  · exact hx
  · exact absurd hcourt hother

end Course

/-! ## The phases -/

/-- The root has recorded the event, and never before one of the name `after`. -/
structure Honoured (event after : String) (trace : List WireTrace) : Prop where
  recorded : ∃ e ∈ trace, e.event = event ∧ e.court = "root"
  before : Justified (fun pre e => e.event = event → after ∈ pre.map (·.event)) trace

/-- An event that is not in the first part comes after everything there. -/
theorem honoured_append {event after : String} {first second : List WireTrace}
    (hrecorded : ∃ e ∈ second, e.event = event ∧ e.court = "root")
    (hno : event ∉ first.map (·.event)) (hafter : after ∈ first.map (·.event)) :
    Honoured event after (first ++ second) := by
  refine ⟨?_, fun pre e post h he => ?_⟩
  · obtain ⟨e, he, hroot⟩ := hrecorded
    exact ⟨e, List.mem_append_right _ he, hroot⟩
  · rcases List.append_eq_append_iff.1 h with ⟨rest, hpre, -⟩ | ⟨rest, hfirst, hsecond⟩
    · rw [hpre, List.map_append]
      exact List.mem_append_left _ hafter
    · cases rest with
      | nil =>
        rw [List.append_nil] at hfirst
        rwa [hfirst] at hafter
      | cons d rest =>
        obtain rfl := (List.cons.inj hsecond).1
        refine absurd (List.mem_map.2 ⟨e, ?_, he⟩) hno
        rw [hfirst]
        exact List.mem_append_right _ List.mem_cons_self

end Runner

/-- Only the first names of the list come before a phase. -/
theorem PhaseBefore.mem_take {after action : String} {j : Nat} (h : PhaseBefore after action)
    (hj : phaseIndex action = some j) : after ∈ PHASE_ORDER.take j := by
  obtain ⟨i, j', hi, hj', hlt⟩ := h
  obtain rfl := Option.some.inj (hj.symm.trans hj')
  obtain ⟨hlen, heq, -⟩ := List.findIdx?_eq_some_iff_getElem.1 hi
  rw [← beq_iff_eq.1 heq]
  exact List.mem_take_iff_getElem.2 ⟨i, by omega, rfl⟩

/-- No fault or peer-down entry waits for a revocation if there is none. -/
def PolicyFile.AwaitsNoMissingRevoke (policy : PolicyFile) : Prop :=
  policy.revokes = [] →
    (∀ fault ∈ policy.faults, fault.after ∉ ["revoke", "send_after_revoke"]) ∧
      ∀ down ∈ policy.peerDown, down.after ∉ ["revoke", "send_after_revoke"]

namespace Runner

variable {host : Host} {config : RootConfig} {owner : JsonLinePeer → CourtManifest}
  {env : JsonLinePeer → CourtHost} {wire : List WireEvent} {trace : List WireTrace}

namespace Course

variable (c : Course host config owner env wire trace)

theorem mem_of_take_eight {after : String} (h : after ∈ PHASE_ORDER.take 8)
    (hawaits : config.policy.revokes = [] → after ∉ ["revoke", "send_after_revoke"]) :
    after ∈ c.openingNames ++ c.revokeNames := by
  have hsplit : PHASE_ORDER.take 8 = PHASE_ORDER.take 6 ++ ["revoke", "send_after_revoke"] := rfl
  rw [hsplit] at h
  rcases List.mem_append.1 h with hopening | hrevoke
  · exact List.mem_append_left _ (c.mem_openingNames.2 hopening)
  · obtain ⟨h₁, h₂⟩ := c.mem_revokeNames fun hnil => hawaits hnil hrevoke
    rcases List.mem_pair.1 hrevoke with rfl | rfl
    · exact List.mem_append_right _ h₁
    · exact List.mem_append_right _ h₂

theorem mem_of_take_ten {after : String} (h : after ∈ PHASE_ORDER.take 10)
    (hawaits : config.policy.revokes = [] → after ∉ ["revoke", "send_after_revoke"]) :
    after ∈ c.openingNames ++ c.revokeNames ++ c.faultNames := by
  have hsplit : PHASE_ORDER.take 10 = PHASE_ORDER.take 8 ++ ["fault", "court_fault"] := rfl
  rw [hsplit] at h
  rcases List.mem_append.1 h with hbefore | hfault
  · exact List.mem_append_left _ (c.mem_of_take_eight hbefore hawaits)
  · obtain ⟨h₁, h₂⟩ := c.mem_faultNames
    rcases List.mem_pair.1 hfault with rfl | rfl
    · exact List.mem_append_right _ h₁
    · exact List.mem_append_right _ h₂

include c in
theorem revoke_honoured {revoke : RevokePolicy} (h : revoke ∈ config.policy.revokes) :
    Honoured "revoke" revoke.after trace := by
  have htrace : trace = (c.openingTrace ++ [c.first, c.second]) ++
      (c.revokeTrace ++ (c.faultTrace ++ c.downTrace)) := by
    refine c.trace_eq.trans ?_
    simp
  have hbefore := (c.valid.revokes revoke h).2.2.2.mem_take (j := 6) (by decide)
  obtain ⟨es, ts, hpart⟩ := c.revokes.of_entry h
  obtain ⟨e, x, rfl, he, hroot, -⟩ := c.revoke_part hpart
  refine htrace ▸ honoured_append ⟨e, List.mem_append_left _ (hpart.trace List.mem_cons_self), he, hroot⟩
    (fun hmem => ?_) (c.mem_openingNames.2 hbefore)
  exact absurd (c.mem_openingNames.1 hmem) (by decide)

include c in
theorem fault_honoured {fault : FaultPolicy} (h : fault ∈ config.policy.faults)
    (hawaits : config.policy.revokes = [] → fault.after ∉ ["revoke", "send_after_revoke"]) :
    Honoured "court_fault" fault.after trace := by
  have htrace : trace = (c.openingTrace ++ [c.first, c.second] ++ c.revokeTrace) ++
      (c.faultTrace ++ c.downTrace) := by
    refine c.trace_eq.trans ?_
    simp
  have hnames : (c.openingTrace ++ [c.first, c.second] ++ c.revokeTrace).map (·.event) =
      c.openingNames ++ c.revokeNames := List.map_append
  have hbefore := (c.valid.faults fault h).2.2.mem_take (j := 8) (by decide)
  obtain ⟨es, ts, hpart⟩ := c.faults.of_entry h
  obtain ⟨x, e, rfl, he, hroot, -⟩ := c.fault_part hpart
  refine htrace ▸ honoured_append ⟨e, List.mem_append_left _ (hpart.trace (by simp)), he, hroot⟩
    (fun hmem => ?_) (hnames ▸ c.mem_of_take_eight hbefore hawaits)
  rw [hnames] at hmem
  rcases List.mem_append.1 hmem with hmem | hmem
  · exact absurd (c.mem_openingNames.1 hmem) (by decide)
  · exact absurd (c.mem_revokeNames_of hmem) (by decide)

include c in
theorem peerDown_honoured {down : PeerDownPolicy} (h : down ∈ config.policy.peerDown)
    (hawaits : config.policy.revokes = [] → down.after ∉ ["revoke", "send_after_revoke"]) :
    Honoured "peer_down" down.after trace := by
  have htrace : trace = (c.openingTrace ++ [c.first, c.second] ++ c.revokeTrace ++ c.faultTrace) ++
      c.downTrace := by
    refine c.trace_eq.trans ?_
    simp
  have hnames : (c.openingTrace ++ [c.first, c.second] ++ c.revokeTrace ++ c.faultTrace).map
      (·.event) = c.openingNames ++ c.revokeNames ++ c.faultNames := by
    rw [List.map_append, List.map_append]
    rfl
  have hbefore := (c.valid.peerDown down h).2.2.mem_take (j := 10) (by decide)
  obtain ⟨es, ts, hpart⟩ := c.downs.of_entry h
  obtain ⟨p, root, x, -, rfl⟩ := hpart.round
  refine htrace ▸ honoured_append ⟨_, hpart.trace List.mem_cons_self, rfl, rfl⟩
    (fun hmem => ?_) (hnames ▸ c.mem_of_take_ten hbefore hawaits)
  rw [hnames] at hmem
  rcases List.mem_append.1 hmem with hmem | hmem
  · rcases List.mem_append.1 hmem with hmem | hmem
    · exact absurd (c.mem_openingNames.1 hmem) (by decide)
    · exact absurd (c.mem_revokeNames_of hmem) (by decide)
  · exact absurd (c.mem_faultNames_of hmem) (by decide)

/-- Without a revocation nothing up to the last fault has the name of one. -/
theorem not_mem_of_no_revokes {after : String} (hnil : config.policy.revokes = [])
    (h : after ∈ c.openingNames ++ c.revokeNames ++ c.faultNames) :
    after ∉ ["revoke", "send_after_revoke"] := by
  rw [c.revokeNames_eq_nil hnil, List.append_nil] at h
  rcases List.mem_append.1 h with h | h
  · have hopening := c.mem_openingNames.1 h
    revert hopening
    simp only [List.mem_cons, List.not_mem_nil, or_false]
    rintro (rfl | rfl | rfl | rfl | rfl | rfl) <;> decide
  · rcases c.mem_faultNames_of h with rfl | rfl | rfl <;> decide

include c in
theorem fault_awaits {fault : FaultPolicy} (h : fault ∈ config.policy.faults)
    (hnil : config.policy.revokes = []) (hon : Honoured "court_fault" fault.after trace) :
    fault.after ∉ ["revoke", "send_after_revoke"] := by
  obtain ⟨es, ts, hpart⟩ := c.faults.of_entry h
  obtain ⟨x, e, rfl, he, -, -⟩ := c.fault_part hpart
  obtain ⟨before, later, hsplit⟩ := List.append_of_mem (hpart.trace (show e ∈ [x, e] by simp))
  have htrace : trace = (c.openingTrace ++ [c.first, c.second] ++ c.revokeTrace ++ before) ++
      e :: (later ++ c.downTrace) := by
    refine c.trace_eq.trans ?_
    rw [hsplit]
    simp
  have hmem := hon.before _ _ _ htrace he
  rw [List.map_append, List.map_append] at hmem
  apply c.not_mem_of_no_revokes hnil
  rcases List.mem_append.1 hmem with hmem | hmem
  · exact List.mem_append_left _ hmem
  · apply List.mem_append_right
    rw [faultNames, hsplit, List.map_append]
    exact List.mem_append_left _ hmem

include c in
theorem peerDown_awaits {down : PeerDownPolicy} (h : down ∈ config.policy.peerDown)
    (hnil : config.policy.revokes = []) (hon : Honoured "peer_down" down.after trace) :
    down.after ∉ ["revoke", "send_after_revoke"] := by
  -- the first of these events comes right after the faults
  obtain ⟨first, es, ts, rest, ⟨p, root, x, -, rfl⟩, hdown⟩ := c.downs.head (List.ne_nil_of_mem h)
  have htrace : trace = (c.openingTrace ++ [c.first, c.second] ++ c.revokeTrace ++ c.faultTrace) ++
      (WireTrace.new "peer_down" "root" .peerDown).withPath first.path ::
        ([x, WireTrace.new "demo_done" first.court .ok] ++ rest) := by
    refine c.trace_eq.trans ?_
    rw [hdown]
    simp
  have hmem := hon.before _ _ _ htrace rfl
  rw [List.map_append, List.map_append] at hmem
  exact c.not_mem_of_no_revokes hnil hmem

end Course

variable {files : HashMap String SharedRing} {r : Runner}

/-- **The phases of a policy**, in every run that returns, with courts that follow their programs: a
revocation is honoured, and faults and peer-down entries are, exactly if none of them waits for a
revocation that the policy does not have. -/
theorem phases_honoured
    (hok : runManifestDemo host config (.new host config.policy files) = .ok () r)
    (hfollows : Follows host config.manifest.courts owner env r.wire) :
    (∀ revoke ∈ config.policy.revokes, Honoured "revoke" revoke.after r.state.trace) ∧
      ((∀ fault ∈ config.policy.faults, Honoured "court_fault" fault.after r.state.trace) ∧
        (∀ down ∈ config.policy.peerDown, Honoured "peer_down" down.after r.state.trace) ↔
          config.policy.AwaitsNoMissingRevoke) := by
  obtain ⟨hv, ⟨t⟩⟩ := wp_ok (transcript_of_ok files) hok
  have c : Course host config owner env r.wire r.state.trace := ⟨t, hv, hfollows⟩
  refine ⟨fun revoke h => c.revoke_honoured h, ?_⟩
  refine ⟨fun ⟨hfaults, hdowns⟩ hnil => ⟨?_, ?_⟩, fun hawaits => ⟨?_, ?_⟩⟩
  · exact fun fault h => c.fault_awaits h hnil (hfaults fault h)
  · exact fun down h => c.peerDown_awaits h hnil (hdowns down h)
  · exact fun fault h => c.fault_honoured h fun hnil => (hawaits hnil).1 fault h
  · exact fun down h => c.peerDown_honoured h fun hnil => (hawaits hnil).2 down h

/-! ## The demo, with and without its revocation -/

/-- The ring that the app finds. -/
def freshRing : SharedRing :=
  ⟨⟨RING_MAGIC, RING_VERSION, 0, 64, 2048, 0, 0⟩, fun _ => 0, 131360⟩

/-- The ring that the net court finds. -/
def filledRing : SharedRing :=
  match freshRing.send (.new ⟨3, .fromRights .SEND⟩) "mvp0c-packet".toUTF8.data.toList with
  | some (_, ring) => ring
  | none => freshRing

def courtHost (ring : SharedRing) : CourtHost where
  failure _ := none
  file _ := ring.file
  view _ _ := ring
  polls := 1
  lossy payload := String.ofList (payload.map fun b => Char.ofNat b.toNat)
  debug := reprStr

def demoOwner (peer : JsonLinePeer) : CourtManifest :=
  if peer.id = 0 then ⟨"app", .app⟩ else ⟨"net0", .net⟩

def demoEnv (peer : JsonLinePeer) : CourtHost :=
  if peer.id = 0 then courtHost freshRing else courtHost filledRing

/-- The whole conversation; `revoked` is what the app says about its revocation. -/
def wholeHost (revoked : List WireMessage) : Host :=
  .scripted
    [[.hello "app", .lookup "/court/net0/packet/rx",
        .open "/court/net0/packet/rx" none (.fromRights .SEND),
        .open "/court/net0/packet/rx" (some ⟨3, .fromRights (.SEND ||| .OBSERVE)⟩)
          (.fromRights .SEND),
        .trace (((WireTrace.new "send" "app" .ok).withPath "/court/net0/packet/rx").withLen 12)] ++
        revoked ++
        [.trace ((WireTrace.new "peer_down" "app" .peerDown).withPath "/court/net0/packet/rx"),
          .demoDone "app" .ok],
      [.hello "net0",
        .open "/court/net0/packet/rx" (some ⟨2, .fromRights (.RECV ||| .OBSERVE)⟩)
          (.fromRights .RECV),
        .trace ((((WireTrace.new "recv" "net0" .ok).withPath "/court/net0/packet/rx").withLen
          12).withDetail "mvp0c-packet"),
        .trace (((WireTrace.new "fault" "net0" .fault).withPath "/court/net0/packet/rx").withDetail
          "mvp0c simulated net court crash")]]
    fun court => if court = "net0" then ⟨some 42, ""⟩ else ⟨some 0, ""⟩

/-- The run of the demo. -/
def wholeRun (revoked : List WireMessage) (policy : PolicyFile) : EStateM.Result String Runner Unit :=
  runManifestDemo (wholeHost revoked) ⟨"run", .builtinPacketRx, policy⟩
    (.new (wholeHost revoked) policy ∅)

/-- The app tries to send once more, and cannot. -/
def revokedLine : WireMessage :=
  .trace ((WireTrace.new "send_after_revoke" "app" .revoked).withPath "/court/net0/packet/rx")

theorem phases_honoured_packet_rx :
    ∃ r, wholeRun [revokedLine] .builtinPacketRx = .ok () r ∧
      Honoured "revoke" "recv" r.state.trace ∧ Honoured "court_fault" "revoke" r.state.trace ∧
      Honoured "peer_down" "fault" r.state.trace := by
  have hrun := eq_ok_of_resultOf (a := ()) (r := wholeRun [revokedLine] .builtinPacketRx)
    (by decide +kernel)
  have hfollows : Follows (wholeHost [revokedLine]) ManifestFile.builtinPacketRx.courts demoOwner
      demoEnv (stateOf (wholeRun [revokedLine] .builtinPacketRx)).wire := by
    decide +kernel
  obtain ⟨hrevoke, hrest⟩ := phases_honoured hrun hfollows
  obtain ⟨hfault, hdown⟩ := hrest.2 nofun
  exact ⟨_, hrun, hrevoke _ List.mem_cons_self, hfault _ List.mem_cons_self,
    hdown _ List.mem_cons_self⟩

/-- The policy of the demo without its revocation. -/
def unrevokedPolicy : PolicyFile := { PolicyFile.builtinPacketRx with revokes := [] }

/-- The validator accepts it, and the run returns.  The fault is to come after the revocation, and
comes though nothing was revoked. -/
theorem fault_without_revoke :
    validate .builtinPacketRx unrevokedPolicy = .ok () ∧
      ∃ r, wholeRun [] unrevokedPolicy = .ok () r ∧
        Follows (wholeHost []) ManifestFile.builtinPacketRx.courts demoOwner demoEnv r.wire ∧
        ∃ fault ∈ unrevokedPolicy.faults, fault.after = "revoke" ∧
          "court_fault" ∈ r.state.trace.map (·.event) ∧ "revoke" ∉ r.state.trace.map (·.event) ∧
          ¬ Honoured "court_fault" fault.after r.state.trace := by
  have hrun := eq_ok_of_resultOf (a := ()) (r := wholeRun [] unrevokedPolicy) (by decide +kernel)
  have hmissing : "revoke" ∉ (stateOf (wholeRun [] unrevokedPolicy)).state.trace.map (·.event) := by
    decide +kernel
  refine ⟨by decide, _, hrun, by decide +kernel, _, List.mem_cons_self, rfl, by decide +kernel,
    hmissing, fun h => ?_⟩
  obtain ⟨e, he, hevent, -⟩ := h.recorded
  obtain ⟨pre, post, htrace⟩ := List.append_of_mem he
  have hbefore := h.before pre e post htrace hevent
  refine hmissing ?_
  rw [htrace, List.map_append]
  exact List.mem_append_left _ hbefore

end Runner

end CourtKernel
