import CourtKernel.Hosted.Authority

/-!
# Agreement of two Root Courts

When do two Root Courts answer alike?  `Agree P G s t` says that `s` and `t` are equal except for
the states of the courts in `P`, the entries of the corridors in `G`, and the trace.

* `Clear P G s c` — the call `c` looks at nothing in which the two may differ.
* `Agree.call` — a clear call gets the same reply from both, records the same events, and leaves
  them in agreement.
* `Effect.stutter` — a call that at most moves payloads of corridors in `G` stays in agreement with
  the state before it.

The two-run results about isolation and about faults use this relation at different `P` and `G`.
-/

namespace CourtKernel

/-- The entry of a court with its state set to faulted. -/
def Court.fault (self : Court) : Court := { self with state := .faulted }

namespace HostedRoot

variable {P : CourtId → Prop} {G : ObjectId → Prop} {s t : HostedRoot}

/-- Equal but for the states of courts in `P`, the corridors in `G`, and the trace. -/
structure Agree (P : CourtId → Prop) (G : ObjectId → Prop) (s t : HostedRoot) : Prop where
  nextCourt : s.nextCourt = t.nextCourt
  nextObject : s.nextObject = t.nextObject
  cspaces : s.cspaces = t.cspaces
  capRegistry : s.capRegistry = t.capRegistry
  nameSpace : s.nameSpace = t.nameSpace
  rootCaps : s.rootCaps = t.rootCaps
  courts : ∀ c, ¬ P c → s.courts.lookup c = t.courts.lookup c
  names : ∀ c, (s.courts.lookup c).map Court.fault = (t.courts.lookup c).map Court.fault
  corridors : ∀ o, ¬ G o → s.corridors.lookup o = t.corridors.lookup o

namespace Agree

theorem refl (s : HostedRoot) : Agree P G s s :=
  ⟨rfl, rfl, rfl, rfl, rfl, rfl, fun _ _ => rfl, fun _ => rfl, fun _ _ => rfl⟩

theorem symm (h : Agree P G s t) : Agree P G t s :=
  ⟨h.nextCourt.symm, h.nextObject.symm, h.cspaces.symm, h.capRegistry.symm, h.nameSpace.symm,
    h.rootCaps.symm, fun c hc => (h.courts c hc).symm, fun c => (h.names c).symm,
    fun o ho => (h.corridors o ho).symm⟩

theorem trans {u : HostedRoot} (h : Agree P G s t) (h' : Agree P G t u) : Agree P G s u :=
  ⟨h.nextCourt.trans h'.nextCourt, h.nextObject.trans h'.nextObject, h.cspaces.trans h'.cspaces,
    h.capRegistry.trans h'.capRegistry, h.nameSpace.trans h'.nameSpace,
    h.rootCaps.trans h'.rootCaps, fun c hc => (h.courts c hc).trans (h'.courts c hc),
    fun c => (h.names c).trans (h'.names c), fun o ho => (h.corridors o ho).trans (h'.corridors o ho)⟩

theorem push (h : Agree P G s t) (e e' : TraceEvent) : Agree P G (s.push e) (t.push e') :=
  ⟨h.nextCourt, h.nextObject, h.cspaces, h.capRegistry, h.nameSpace, h.rootCaps, h.courts, h.names,
    h.corridors⟩

/-! ## Checks -/

theorem requireRunningCourt (h : Agree P G s t) {court : CourtId} (hc : ¬ P court) :
    s.requireRunningCourt court = t.requireRunningCourt court := by
  simp only [HostedRoot.requireRunningCourt, h.courts court hc]

theorem cspaceContains (h : Agree P G s t) (court : CourtId) (cap : CapId) :
    s.cspaceContains court cap = t.cspaceContains court cap := by
  simp only [HostedRoot.cspaceContains, h.cspaces]

theorem permit (h : Agree P G s t) {court : CourtId} (hc : ¬ P court) (cap : CapId) (right : Rights) :
    s.permit court cap right = t.permit court cap right := by
  simp only [HostedRoot.permit, h.requireRunningCourt hc, h.cspaceContains, h.capRegistry]

theorem hasPeerDown (h : Agree P G s t) {k : Corridor} (caller : CourtId)
    (h₁ : ¬ P k.endpoints.1) (h₂ : ¬ P k.endpoints.2) :
    k.hasPeerDown caller s.courts = k.hasPeerDown caller t.courts := by
  simp only [Corridor.hasPeerDown, List.filter_cons, List.filter_nil]
  split <;> split <;> simp [h.courts _ h₁, h.courts _ h₂]

/-! ## States after a call -/

theorem courtAdded (h : Agree P G s t) (name : String) :
    Agree P G (s.courtAdded name) (t.courtAdded name) := by
  refine ⟨?_, h.nextObject, ?_, h.capRegistry, h.nameSpace, h.rootCaps, ?_, ?_, h.corridors⟩
  · simp only [HostedRoot.courtAdded, h.nextCourt]
  · simp only [HostedRoot.courtAdded, h.nextCourt, h.cspaces]
  · intro c hc
    simp only [HostedRoot.courtAdded, h.nextCourt, HashMap.lookup_insert_ite, h.courts c hc]
  · intro c
    simp only [HostedRoot.courtAdded, h.nextCourt, HashMap.lookup_insert_ite]
    split
    · rfl
    · exact h.names c

theorem corridorAdded (h : Agree P G s t) (path : String) (first second : CourtId)
    (transport : CorridorTransport) (capacity : Nat) :
    Agree P G (s.corridorAdded path first second transport capacity)
      (t.corridorAdded path first second transport capacity) := by
  refine ⟨h.nextCourt, ?_, h.cspaces, ?_, ?_, ?_, h.courts, h.names, fun o ho => ?_⟩ <;>
    simp only [HostedRoot.corridorAdded, h.nextObject, h.capRegistry, h.nameSpace, h.rootCaps]
  simp only [HashMap.lookup_insert_ite, h.corridors o ho]

theorem capAdded (h : Agree P G s t) (court : CourtId) (cap : CapId) (g : CapRegistry) :
    Agree P G (s.capAdded court cap g) (t.capAdded court cap g) := by
  refine ⟨h.nextCourt, h.nextObject, ?_, rfl, h.nameSpace, h.rootCaps, h.courts, h.names,
    h.corridors⟩
  simp only [HostedRoot.capAdded, h.cspaces]

theorem requeued (h : Agree P G s t) (o : ObjectId) (k : Corridor) (q : List Payload) :
    Agree P G (s.requeued o k q) (t.requeued o k q) := by
  refine ⟨h.nextCourt, h.nextObject, h.cspaces, h.capRegistry, h.nameSpace, h.rootCaps, h.courts,
    h.names, fun o' ho' => ?_⟩
  simp only [HostedRoot.requeued, HashMap.lookup_insert_ite, h.corridors o' ho']

theorem subtreeRevoked (h : Agree P G s t) (cap : CapId) :
    Agree P G (s.subtreeRevoked cap) (t.subtreeRevoked cap) := by
  refine ⟨h.nextCourt, h.nextObject, h.cspaces, ?_, h.nameSpace, h.rootCaps, h.courts, h.names,
    h.corridors⟩
  rw [subtreeRevoked_capRegistry, subtreeRevoked_capRegistry, h.capRegistry]

/-- Faulting overwrites the state of the court, so the two entries become equal. -/
theorem courtDown (h : Agree P G s t) {court : CourtId} {entry entry' : Court}
    (he : entry.fault = entry'.fault) :
    Agree P G (s.courtDown court entry) (t.courtDown court entry') := by
  have hl : ∀ (u : HostedRoot) (e : Court) (c : CourtId), (u.courtDown court e).courts.lookup c =
      if c = court then some e.fault else u.courts.lookup c :=
    fun u e c => HashMap.lookup_insert_ite _ _ _ _
  refine ⟨h.nextCourt, h.nextObject, h.cspaces, h.capRegistry, h.nameSpace, h.rootCaps,
    fun c hc => ?_, fun c => ?_, h.corridors⟩
  · rw [hl, hl, he, h.courts c hc]
  · rw [hl, hl, he]
    split
    · rfl
    · exact h.names c

end Agree

/-! ## Calls that cannot tell the two apart -/

/-- The call looks at no court in `P` and at no corridor in `G`. -/
def Clear (P : CourtId → Prop) (G : ObjectId → Prop) (s : HostedRoot) : Call → Prop
  | .createCorridor _ first second _ _ => ¬ P first ∧ ¬ P second
  | .lookup court _ => ¬ P court
  | .grantCorridorCap court _ _ => ¬ P court
  | .open court _ _ _ => ¬ P court
  | .send court cap _ => ¬ P court ∧ ∀ k, s.capRegistry.caps.lookup cap = some k →
      ¬ G k.object ∧ ∀ corridor, s.corridors.lookup k.object = some corridor →
        ¬ P corridor.endpoints.1 ∧ ¬ P corridor.endpoints.2
  | .recv court cap => ¬ P court ∧ ∀ k, s.capRegistry.caps.lookup cap = some k → ¬ G k.object
  | _ => True

/-- Two outcomes agree: the same reply, states in agreement, and the same events recorded. -/
structure SameOutcome {ρ : Type} (P : CourtId → Prop) (G : ObjectId → Prop) (s t : HostedRoot)
    (a b : ρ × HostedRoot) : Prop where
  reply : a.1 = b.1
  agree : Agree P G a.2 b.2
  events : ∃ es, a.2.trace = s.trace ++ es ∧ b.2.trace = t.trace ++ es

section Outcomes

variable {ρ : Type} {r : ρ}

theorem Agree.still (h : Agree P G s t) : SameOutcome P G s t (r, s) (r, t) :=
  ⟨rfl, h, [], by simp, by simp⟩

theorem Agree.event {s' t' : HostedRoot} (h : Agree P G s' t') (hs : s'.trace = s.trace)
    (ht : t'.trace = t.trace) (e : TraceEvent) :
    SameOutcome P G s t (r, s'.push e) (r, t'.push e) :=
  ⟨rfl, h.push e e, [e], by simp [hs], by simp [ht]⟩

end Outcomes

theorem Agree.createCorridor (h : Agree P G s t) {first second : CourtId} (h₁ : ¬ P first)
    (h₂ : ¬ P second) (path : String) (transport : CorridorTransport) (capacity : Nat) :
    SameOutcome P G s t (s.createCorridor path first second transport capacity)
      (t.createCorridor path first second transport capacity) := by
  unfold HostedRoot.createCorridor
  rw [h.requireRunningCourt h₁, h.requireRunningCourt h₂]
  cases t.requireRunningCourt first with
  | error e => exact h.still
  | ok u =>
    cases t.requireRunningCourt second with
    | error e => exact h.still
    | ok u =>
      have hadd := h.corridorAdded path first second transport capacity
      exact ⟨congrArg (fun n => Except.ok (ObjectId.mk (n + 1))) h.nextObject, hadd.push _ _,
        [.corridorCreated path ⟨s.nextObject + 1⟩ transport], rfl, by rw [h.nextObject]; rfl⟩

theorem Agree.lookup (h : Agree P G s t) {court : CourtId} (hc : ¬ P court) (path : String) :
    SameOutcome P G s t (s.lookup court path) (t.lookup court path) := by
  unfold HostedRoot.lookup
  rw [h.requireRunningCourt hc, h.nameSpace]
  cases t.requireRunningCourt court with
  | error e => exact h.still
  | ok u =>
    cases t.nameSpace.lookup path with
    | none => exact h.event rfl rfl _
    | some d => exact h.event rfl rfl _

theorem Agree.grantCorridorCap (h : Agree P G s t) {court : CourtId} (hc : ¬ P court)
    (d : Descriptor) (rights : Rights) :
    SameOutcome P G s t (s.grantCorridorCap court d rights) (t.grantCorridorCap court d rights) := by
  unfold HostedRoot.grantCorridorCap
  rw [h.requireRunningCourt hc]
  cases t.requireRunningCourt court with
  | error e => exact h.still
  | ok u =>
    by_cases ht : (d.objectType != .corridor) = true
    · simp only [ht, if_true]
      exact h.still
    · simp only [ht, Bool.false_eq_true, if_false]
      cases hroot : s.rootCaps.lookup d.object with
      | none =>
        have hroot' : t.rootCaps.lookup d.object = none := h.rootCaps ▸ hroot
        simp only [hroot']
        exact h.still
      | some root =>
        have hroot' : t.rootCaps.lookup d.object = some root := h.rootCaps ▸ hroot
        rcases hd : s.capRegistry.delegate root rights with ⟨e | cap, g⟩
        · have hd' : t.capRegistry.delegate root rights = (.error e, g) := h.capRegistry ▸ hd
          simp only [hroot', hd, hd']
          obtain rfl := CapRegistry.delegate_error hd
          exact ⟨rfl, ⟨h.nextCourt, h.nextObject, h.cspaces, rfl, h.nameSpace, h.rootCaps, h.courts,
            h.names, h.corridors⟩, [], by simp, by simp⟩
        · have hd' : t.capRegistry.delegate root rights = (.ok cap, g) := h.capRegistry ▸ hd
          simp only [hroot', hd, hd']
          exact (h.capAdded court cap g).event (s := s) (t := t) rfl rfl _

theorem Agree.open (h : Agree P G s t) {court : CourtId} (hc : ¬ P court) (d : Descriptor)
    (cap : Option CapId) (rights : Rights) :
    SameOutcome P G s t (s.open court d cap rights) (t.open court d cap rights) := by
  unfold HostedRoot.open
  simp only [h.requireRunningCourt hc, h.cspaceContains, h.capRegistry]
  cases t.requireRunningCourt court with
  | error e => exact h.still
  | ok u =>
    cases cap with
    | none => exact h.event rfl rfl _
    | some cap =>
      by_cases hh : t.cspaceContains court cap = true
      · simp only [hh, Bool.not_true, Bool.false_eq_true, if_false]
        cases t.capRegistry.authorize cap d.objectType rights with
        | error e => exact h.event rfl rfl _
        | ok o =>
          by_cases ho : (o == d.object) = true
          · simp only [ho, if_true]
            exact h.event rfl rfl _
          · simp only [ho, Bool.false_eq_true, if_false]
            exact h.event rfl rfl _
      · simp only [hh, Bool.not_false, if_true]
        exact h.event rfl rfl _

/-- An permitted capability is registered for the object it is permitted to. -/
theorem registered_of_permit {court : CourtId} {cap : CapId} {right : Rights} {o : ObjectId}
    (ha : s.permit court cap right = .ok o) :
    ∃ k, s.capRegistry.caps.lookup cap = some k ∧ k.object = o := by
  obtain ⟨k, hk, -, -, -, ho⟩ := CapRegistry.authorize_ok.1 (permit_ok.1 ha).2.2
  exact ⟨k, hk, ho⟩

theorem Agree.send (h : Agree P G s t) {court : CourtId} {cap : CapId} {payload : Payload}
    (hc : Clear P G s (.send court cap payload)) :
    SameOutcome P G s t (s.send court cap payload) (t.send court cap payload) := by
  obtain ⟨hc, hcap⟩ := hc
  unfold HostedRoot.send
  rw [← h.permit hc]
  cases ha : s.permit court cap .SEND with
  | error e => exact h.still
  | ok o =>
    obtain ⟨k, hk, rfl⟩ := registered_of_permit ha
    obtain ⟨hG, hends⟩ := hcap k hk
    simp only [← h.corridors _ hG]
    cases hl : s.corridors.lookup k.object with
    | none => exact h.still
    | some corridor =>
      obtain ⟨h₁, h₂⟩ := hends corridor hl
      simp only [← h.hasPeerDown court h₁ h₂]
      by_cases hp : corridor.hasPeerDown court s.courts = true
      · simp only [hp, if_true]
        exact h.event rfl rfl _
      · by_cases hq : corridor.queue.length ≥ corridor.capacity
        · simp only [hp, hq, if_true]
          exact h.still
        · simp only [hp, hq, if_false]
          exact (h.requeued k.object corridor (corridor.queue ++ [payload])).event (s := s) (t := t) rfl
            rfl _

theorem Agree.recv (h : Agree P G s t) {court : CourtId} {cap : CapId}
    (hc : Clear P G s (.recv court cap)) :
    SameOutcome P G s t (s.recv court cap) (t.recv court cap) := by
  obtain ⟨hc, hcap⟩ := hc
  unfold HostedRoot.recv
  rw [← h.permit hc]
  cases ha : s.permit court cap .RECV with
  | error e => exact h.still
  | ok o =>
    obtain ⟨k, hk, rfl⟩ := registered_of_permit ha
    simp only [← h.corridors _ (hcap k hk)]
    cases hl : s.corridors.lookup k.object with
    | none => exact h.still
    | some corridor =>
      simp only
      cases corridor.queue with
      | nil => exact h.still
      | cons payload rest =>
        exact (h.requeued k.object corridor rest).event (s := s) (t := t) rfl rfl _

theorem Agree.revoke (h : Agree P G s t) (cap : CapId) :
    SameOutcome P G s t (s.revoke cap) (t.revoke cap) := by
  have hr := h.subtreeRevoked cap
  unfold HostedRoot.subtreeRevoked at hr
  unfold HostedRoot.revoke
  rw [h.capRegistry] at hr ⊢
  rcases ht : t.capRegistry.revoke cap with ⟨e | ⟨⟨⟩⟩, g⟩
  · rw [ht] at hr
    exact ⟨rfl, hr, [], by simp, by simp⟩
  · rw [ht] at hr
    exact hr.event (s := s) (t := t) rfl rfl _

theorem Agree.faultCourt (h : Agree P G s t) (court : CourtId) :
    SameOutcome P G s t (s.faultCourt court) (t.faultCourt court) := by
  have hn := h.names court
  unfold HostedRoot.faultCourt
  cases hs : s.courts.lookup court with
  | none =>
    cases ht : t.courts.lookup court with
    | none => exact h.still
    | some entry => rw [hs, ht] at hn; cases hn
  | some entry =>
    cases ht : t.courts.lookup court with
    | none => rw [hs, ht] at hn; cases hn
    | some entry' =>
      rw [hs, ht] at hn
      exact (h.courtDown (Option.some.inj hn)).event (s := s) (t := t) rfl rfl _

/-- **A clear call cannot tell agreeing Root Courts apart.** -/
theorem Agree.call (h : Agree P G s t) {c : Call} (hc : Clear P G s c) :
    SameOutcome P G s t (s.call c) (t.call c) := by
  have lift : ∀ {ρ : Type} {a b : ρ × HostedRoot} (f : ρ → Reply), SameOutcome P G s t a b →
      SameOutcome P G s t (f a.1, a.2) (f b.1, b.2) :=
    fun f ho => ⟨congrArg f ho.reply, ho.agree, ho.events⟩
  cases c with
  | createCourt name =>
    exact lift .court ⟨congrArg (fun n => CourtId.mk (n + 1)) h.nextCourt, (h.courtAdded name).push _ _,
      [.courtCreated ⟨s.nextCourt + 1⟩ name], rfl, by rw [h.nextCourt]; rfl⟩
  | createCorridor path first second transport capacity =>
    exact lift .object (h.createCorridor hc.1 hc.2 path transport capacity)
  | lookup court path => exact lift .descriptor (h.lookup hc path)
  | grantCorridorCap court d rights => exact lift .cap (h.grantCorridorCap hc d rights)
  | «open» court d cap rights => exact lift .cap (h.open hc d cap rights)
  | send court cap payload => exact lift .unit (h.send hc)
  | recv court cap => exact lift .payload (h.recv hc)
  | revoke cap => exact lift .unit (h.revoke cap)
  | faultCourt court => exact lift .unit (h.faultCourt court)

/-! ## Calls that stay within `G` -/

/-- The call is a lookup, an open, or a transfer that is permitted only to corridors in `G`. -/
def Within (G : ObjectId → Prop) (s : HostedRoot) : Call → Prop
  | .lookup _ _ => True
  | .open _ _ _ _ => True
  | .send court cap _ => ∀ o, s.permit court cap .SEND = .ok o → G o
  | .recv court cap => ∀ o, s.permit court cap .RECV = .ok o → G o
  | _ => False

theorem agree_requeued {o : ObjectId} (ho : G o) (k : Corridor) (q : List Payload) (e : TraceEvent) :
    Agree P G ((s.requeued o k q).push e) s := by
  refine ⟨rfl, rfl, rfl, rfl, rfl, rfl, fun _ _ => rfl, fun _ => rfl, fun o' ho' => ?_⟩
  have hne : o' ≠ o := fun he => ho' (he ▸ ho)
  simp only [push_corridors, requeued, HashMap.lookup_insert_ite, if_neg hne]

/-- A call within `G` changes nothing that the relation looks at. -/
theorem Effect.stutter {s' : HostedRoot} {c : Call} {r : Reply} (he : Effect s c r s')
    (hc : Within G s c) : Agree P G s' s := by
  have quiet : ∀ e, Agree P G (s.push e) s := fun e =>
    ⟨rfl, rfl, rfl, rfl, rfl, rfl, fun _ _ => rfl, fun _ => rfl, fun _ _ => rfl⟩
  cases he with
  | sent ha _ _ _ => exact agree_requeued (hc _ ha) _ _ _
  | received ha _ _ => exact agree_requeued (hc _ ha) _ _ _
  | found | notFound | opened | openDenied | peerDown => exact quiet _
  | lookupRefused | openRefused | sendRefused | recvRefused => exact .refl s
  | courtCreated | corridorCreated | corridorRefused | granted | grantRefused | revoked
  | revokeRefused | faulted | faultRefused => exact hc.elim

end HostedRoot

end CourtKernel
