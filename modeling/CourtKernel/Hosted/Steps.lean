import CourtKernel.Hosted.Root
import CourtKernel.Hosted.Derivation

/-!
# What a public call can do

`Effect s c r s'` lists, once and for all, every outcome of a public call `c` in state `s`: the
reply `r`, the next state `s'` and the checks that were passed on the way.  `call_effect` shows
that the executable `HostedRoot.call` always produces one of these outcomes, so an invariant of
the Root Court is a case analysis over `Effect` and never unfolds a method again.

The states after a successful call are named (`courtAdded`, `corridorAdded`, `capAdded`,
`requeued`, `subtreeRevoked`, `courtDown`); their fields are simp lemmas.
-/

namespace CourtKernel

namespace HostedRoot

variable {s : HostedRoot}

/-! ## Checks -/

/-- The court exists and is running. -/
def Running (s : HostedRoot) (court : CourtId) : Prop :=
  ∃ entry, s.courts.lookup court = some entry ∧ entry.state = .running

/-- The capability space of the court holds the capability. -/
def Holds (s : HostedRoot) (court : CourtId) (cap : CapId) : Prop :=
  ∃ cspace, s.cspaces.lookup court = some cspace ∧ cap ∈ cspace

theorem requireRunningCourt_ok {court : CourtId} :
    s.requireRunningCourt court = .ok () ↔ s.Running court := by
  unfold requireRunningCourt Running
  split
  · rename_i h; simp [h]
  · rename_i entry h; simp [h]

theorem requireRunningCourt_error {court : CourtId} {e : CkError}
    (h : s.requireRunningCourt court = .error e) : e = .invalidState ∧ ¬ s.Running court := by
  refine ⟨?_, fun hr => ?_⟩
  · unfold requireRunningCourt at h
    split at h
    · exact (Except.error.inj h).symm
    · split at h
      · exact (Except.error.inj h).symm
      · cases h
  · rw [requireRunningCourt_ok.2 hr] at h; cases h

theorem requireRunningCourt_of_not {court : CourtId} (h : ¬ s.Running court) :
    s.requireRunningCourt court = .error .invalidState := by
  cases hr : s.requireRunningCourt court with
  | error e => rw [(requireRunningCourt_error hr).1]
  | ok u => exact absurd (requireRunningCourt_ok.1 hr) h

theorem cspaceContains_iff {court : CourtId} {cap : CapId} :
    s.cspaceContains court cap = true ↔ s.Holds court cap := by
  unfold cspaceContains Holds
  split
  · rename_i h; simp [h]
  · rename_i cspace h; simp [h]

end HostedRoot

/-- Authorization succeeds exactly on a registered, unrevoked capability of the right type whose
rights cover the request, and answers with its object. -/
theorem CapRegistry.authorize_ok {g : CapRegistry} {cap : CapId} {t : ObjectType} {r : Rights}
    {o : ObjectId} :
    g.authorize cap t r = .ok o ↔ ∃ k, g.caps.lookup cap = some k ∧ k.revoked = false ∧
      k.objectType = t ∧ k.rights.contains r = true ∧ k.object = o := by
  unfold CapRegistry.authorize
  split
  · rename_i h; simp [h]
  · rename_i k h
    simp only [h, Option.some.injEq, exists_eq_left']
    by_cases h1 : k.revoked = true
    · simp [h1]
    · by_cases h2 : k.rights.contains r = true <;> simp [h1, h2]

theorem CapRegistry.authorize_revoked {g : CapRegistry} {cap : CapId} (h : g.Revoked cap)
    (t : ObjectType) (r : Rights) : g.authorize cap t r = .error .revoked := by
  obtain ⟨k, hk, hr⟩ := h
  simp [CapRegistry.authorize, hk, hr]

theorem CapRegistry.delegate_revoked {g : CapRegistry} {cap : CapId} (h : g.Revoked cap)
    (r : Rights) : g.delegate cap r = (.error .revoked, g) := by
  obtain ⟨k, hk, hr⟩ := h
  simp [CapRegistry.delegate, hk, hr]

namespace HostedRoot

variable {s : HostedRoot}

theorem permit_ok {court : CourtId} {cap : CapId} {right : Rights} {o : ObjectId} :
    s.permit court cap right = .ok o ↔
      s.Running court ∧ s.Holds court cap ∧ s.capRegistry.authorize cap .corridor right = .ok o := by
  unfold permit
  cases hr : s.requireRunningCourt court with
  | error e => simp [(requireRunningCourt_error hr).2]
  | ok u =>
    by_cases hc : s.cspaceContains court cap = true
    · simp [hc, requireRunningCourt_ok.1 hr, cspaceContains_iff.1 hc]
    · have hn : ¬ s.Holds court cap := fun h => hc (cspaceContains_iff.2 h)
      simp [hc, hn]

/-! ## States after a call -/

@[simp] theorem push_courts (e : TraceEvent) : (s.push e).courts = s.courts := rfl
@[simp] theorem push_cspaces (e : TraceEvent) : (s.push e).cspaces = s.cspaces := rfl
@[simp] theorem push_capRegistry (e : TraceEvent) : (s.push e).capRegistry = s.capRegistry := rfl
@[simp] theorem push_nameSpace (e : TraceEvent) : (s.push e).nameSpace = s.nameSpace := rfl
@[simp] theorem push_corridors (e : TraceEvent) : (s.push e).corridors = s.corridors := rfl
@[simp] theorem push_rootCaps (e : TraceEvent) : (s.push e).rootCaps = s.rootCaps := rfl
@[simp] theorem push_nextCourt (e : TraceEvent) : (s.push e).nextCourt = s.nextCourt := rfl
@[simp] theorem push_nextObject (e : TraceEvent) : (s.push e).nextObject = s.nextObject := rfl
@[simp] theorem push_trace (e : TraceEvent) : (s.push e).trace = s.trace ++ [e] := rfl

/-- After `create_court`, before the event is recorded. -/
def courtAdded (s : HostedRoot) (name : String) : HostedRoot :=
  { s with
    nextCourt := s.nextCourt + 1
    courts := s.courts.insert ⟨s.nextCourt + 1⟩ ⟨⟨s.nextCourt + 1⟩, name, .running⟩
    cspaces := s.cspaces.insert ⟨s.nextCourt + 1⟩ ∅ }

/-- After `create_corridor`, before the event is recorded. -/
def corridorAdded (s : HostedRoot) (path : String) (first second : CourtId)
    (transport : CorridorTransport) (capacity : Nat) : HostedRoot :=
  { s with
    nextObject := s.nextObject + 1
    corridors := s.corridors.insert ⟨s.nextObject + 1⟩ (.new (first, second) capacity)
    capRegistry := (s.capRegistry.mintRoot ⟨s.nextObject + 1⟩ .corridor rootRights).2
    rootCaps := s.rootCaps.insert ⟨s.nextObject + 1⟩ ⟨s.capRegistry.nextCap + 1⟩
    nameSpace := s.nameSpace.bind path ⟨path, ⟨s.nextObject + 1⟩, .corridor, transport⟩ }

/-- After a grant: the delegated capability is in the court's capability space. -/
def capAdded (s : HostedRoot) (court : CourtId) (cap : CapId) (capRegistry : CapRegistry) :
    HostedRoot :=
  { s with
    capRegistry := capRegistry
    cspaces := s.cspaces.insert court (insert cap ((s.cspaces.lookup court).getD ∅)) }

/-- After a change to the queue of one corridor. -/
def requeued (s : HostedRoot) (object : ObjectId) (corridor : Corridor) (queue : List Payload) :
    HostedRoot :=
  { s with corridors := s.corridors.insert object { corridor with queue := queue } }

/-- After a successful revocation. -/
def subtreeRevoked (s : HostedRoot) (cap : CapId) : HostedRoot :=
  { s with capRegistry := (s.capRegistry.revoke cap).2 }

/-- After a court was marked as faulted. -/
def courtDown (s : HostedRoot) (court : CourtId) (entry : Court) : HostedRoot :=
  { s with courts := s.courts.insert court { entry with state := .faulted } }

/-- The root capability minted for a new corridor. -/
def rootCapability (object : ObjectId) : Capability :=
  ⟨object, .corridor, rootRights, none, false, true⟩

@[simp] theorem corridorAdded_capRegistry (path : String) (first second : CourtId)
    (transport : CorridorTransport) (capacity : Nat) :
    (s.corridorAdded path first second transport capacity).capRegistry =
      s.capRegistry.register (rootCapability ⟨s.nextObject + 1⟩) := rfl

@[simp] theorem capAdded_capRegistry (court : CourtId) (cap : CapId) (g : CapRegistry) :
    (s.capAdded court cap g).capRegistry = g := rfl

@[simp] theorem subtreeRevoked_capRegistry (cap : CapId) :
    (s.subtreeRevoked cap).capRegistry = (s.capRegistry.revoke cap).2 := rfl

/-! ## Outcomes -/

/-- Every outcome of a public call. -/
inductive Effect (s : HostedRoot) : Call → Reply → HostedRoot → Prop where
  | courtCreated (name : String) :
      Effect s (.createCourt name) (.court ⟨s.nextCourt + 1⟩)
        ((s.courtAdded name).push (.courtCreated ⟨s.nextCourt + 1⟩ name))
  | corridorCreated {path : String} {first second : CourtId} {transport : CorridorTransport}
      {capacity : Nat} (hfirst : s.Running first) (hsecond : s.Running second) :
      Effect s (.createCorridor path first second transport capacity)
        (.object (.ok ⟨s.nextObject + 1⟩))
        ((s.corridorAdded path first second transport capacity).push
          (.corridorCreated path ⟨s.nextObject + 1⟩ transport))
  | corridorRefused {path : String} {first second : CourtId} {transport : CorridorTransport}
      {capacity : Nat} (h : ¬ s.Running first ∨ ¬ s.Running second) :
      Effect s (.createCorridor path first second transport capacity)
        (.object (.error .invalidState)) s
  | found {court : CourtId} {path : String} {d : Descriptor} (hr : s.Running court)
      (hd : s.nameSpace.lookup path = some d) :
      Effect s (.lookup court path) (.descriptor (.ok d))
        (s.push (.namespaceLookup court path true))
  | notFound {court : CourtId} {path : String} (hr : s.Running court)
      (hd : s.nameSpace.lookup path = none) :
      Effect s (.lookup court path) (.descriptor (.error .notFound))
        (s.push (.namespaceLookup court path false))
  | lookupRefused {court : CourtId} {path : String} (hr : ¬ s.Running court) :
      Effect s (.lookup court path) (.descriptor (.error .invalidState)) s
  | granted {court : CourtId} {d : Descriptor} {rights : Rights} {root cap : CapId}
      {registry : CapRegistry} (hr : s.Running court) (ht : d.objectType = .corridor)
      (hroot : s.rootCaps.lookup d.object = some root)
      (hd : s.capRegistry.delegate root rights = (.ok cap, registry)) :
      Effect s (.grantCorridorCap court d rights) (.cap (.ok cap))
        ((s.capAdded court cap registry).push (.capGranted court cap d.object rights))
  | grantRefused {court : CourtId} {d : Descriptor} {rights : Rights} {e : CkError}
      (h : s.Running court ∨ e = .invalidState) :
      Effect s (.grantCorridorCap court d rights) (.cap (.error e)) s
  | opened {court : CourtId} {d : Descriptor} {cap : CapId} {rights : Rights}
      (hr : s.Running court) (hh : s.Holds court cap)
      (ha : s.capRegistry.authorize cap d.objectType rights = .ok d.object) :
      Effect s (.open court d (some cap) rights) (.cap (.ok cap))
        (s.push (.opened court d.path cap rights))
  | openDenied {court : CourtId} {d : Descriptor} {cap : Option CapId} {rights : Rights}
      {e : CkError} (hr : s.Running court) :
      Effect s (.open court d cap rights) (.cap (.error e)) (s.push (.openDenied court d.path e))
  | openRefused {court : CourtId} {d : Descriptor} {cap : Option CapId} {rights : Rights}
      (hr : ¬ s.Running court) :
      Effect s (.open court d cap rights) (.cap (.error .invalidState)) s
  | sent {court : CourtId} {cap : CapId} {payload : Payload} {o : ObjectId} {k : Corridor}
      (ha : s.permit court cap .SEND = .ok o) (hk : s.corridors.lookup o = some k)
      (hp : k.hasPeerDown court s.courts = false) (hl : k.queue.length < k.capacity) :
      Effect s (.send court cap payload) (.unit (.ok ()))
        ((s.requeued o k (k.queue ++ [payload])).push (.sent court o payload.length))
  | peerDown {court : CourtId} {cap : CapId} {payload : Payload} {o : ObjectId} {k : Corridor}
      (ha : s.permit court cap .SEND = .ok o) (hk : s.corridors.lookup o = some k)
      (hp : k.hasPeerDown court s.courts = true) :
      Effect s (.send court cap payload) (.unit (.error .peerDown)) (s.push (.peerDown court o))
  | sendRefused {court : CourtId} {cap : CapId} {payload : Payload} {e : CkError}
      (he : e ≠ .peerDown) (h : s.Running court ∨ e = .invalidState) :
      Effect s (.send court cap payload) (.unit (.error e)) s
  | received {court : CourtId} {cap : CapId} {o : ObjectId} {k : Corridor} {payload : Payload}
      {rest : List Payload} (ha : s.permit court cap .RECV = .ok o)
      (hk : s.corridors.lookup o = some k) (hq : k.queue = payload :: rest) :
      Effect s (.recv court cap) (.payload (.ok payload))
        ((s.requeued o k rest).push (.received court o payload.length))
  | recvRefused {court : CourtId} {cap : CapId} {e : CkError}
      (h : s.Running court ∨ e = .invalidState) :
      Effect s (.recv court cap) (.payload (.error e)) s
  | revoked {cap : CapId} (h : cap ∈ s.capRegistry.caps) :
      Effect s (.revoke cap) (.unit (.ok ())) ((s.subtreeRevoked cap).push (.capRevoked cap))
  | revokeRefused {cap : CapId} (h : cap ∉ s.capRegistry.caps) :
      Effect s (.revoke cap) (.unit (.error .badCap)) s
  | faulted {court : CourtId} {entry : Court} (h : s.courts.lookup court = some entry) :
      Effect s (.faultCourt court) (.unit (.ok ()))
        ((s.courtDown court entry).push (.courtFaulted court))
  | faultRefused {court : CourtId} (h : s.courts.lookup court = none) :
      Effect s (.faultCourt court) (.unit (.error .invalidState)) s

/-! ## Every call has one of these outcomes -/

theorem createCorridor_effect (path : String) (first second : CourtId)
    (transport : CorridorTransport) (capacity : Nat) :
    Effect s (.createCorridor path first second transport capacity)
      (.object (s.createCorridor path first second transport capacity).1)
      (s.createCorridor path first second transport capacity).2 := by
  unfold createCorridor
  cases h1 : s.requireRunningCourt first with
  | error e =>
    obtain ⟨rfl, hn⟩ := requireRunningCourt_error h1
    exact .corridorRefused (Or.inl hn)
  | ok u =>
    cases h2 : s.requireRunningCourt second with
    | error e =>
      obtain ⟨rfl, hn⟩ := requireRunningCourt_error h2
      exact .corridorRefused (Or.inr hn)
    | ok v => exact .corridorCreated (requireRunningCourt_ok.1 h1) (requireRunningCourt_ok.1 h2)

theorem lookup_effect (court : CourtId) (path : String) :
    Effect s (.lookup court path) (.descriptor (s.lookup court path).1) (s.lookup court path).2 := by
  unfold lookup
  cases hr : s.requireRunningCourt court with
  | error e =>
    obtain ⟨rfl, hn⟩ := requireRunningCourt_error hr
    exact .lookupRefused hn
  | ok u =>
    have hrun := requireRunningCourt_ok.1 hr
    cases hd : s.nameSpace.lookup path with
    | none => exact .notFound hrun hd
    | some d => exact .found hrun hd

theorem grantCorridorCap_effect (court : CourtId) (d : Descriptor) (rights : Rights) :
    Effect s (.grantCorridorCap court d rights) (.cap (s.grantCorridorCap court d rights).1)
      (s.grantCorridorCap court d rights).2 := by
  unfold grantCorridorCap
  cases hr : s.requireRunningCourt court with
  | error e =>
    obtain ⟨rfl, hn⟩ := requireRunningCourt_error hr
    exact .grantRefused (Or.inr rfl)
  | ok u =>
    have hrun := requireRunningCourt_ok.1 hr
    by_cases ht : d.objectType = .corridor
    · simp only [ht, bne_self_eq_false, Bool.false_eq_true, if_false]
      cases hroot : s.rootCaps.lookup d.object with
      | none => exact .grantRefused (Or.inl hrun)
      | some root =>
        rcases hd : s.capRegistry.delegate root rights with ⟨e | cap, registry⟩
        · obtain rfl := CapRegistry.delegate_error hd
          simp only [hd]
          exact .grantRefused (Or.inl hrun)
        · simp only [hd]
          exact .granted hrun ht hroot hd
    · have hne : (d.objectType != .corridor) = true := bne_iff_ne.2 ht
      simp only [hne, if_true]
      exact .grantRefused (Or.inl hrun)

theorem open_effect (court : CourtId) (d : Descriptor) (cap : Option CapId) (rights : Rights) :
    Effect s (.open court d cap rights) (.cap (s.open court d cap rights).1)
      (s.open court d cap rights).2 := by
  unfold HostedRoot.open
  cases hr : s.requireRunningCourt court with
  | error e =>
    obtain ⟨rfl, hn⟩ := requireRunningCourt_error hr
    exact .openRefused hn
  | ok u =>
    have hrun := requireRunningCourt_ok.1 hr
    cases cap with
    | none => exact .openDenied hrun
    | some cap =>
      by_cases hc : s.cspaceContains court cap = true
      · simp only [hc, Bool.not_true, Bool.false_eq_true, if_false]
        cases ha : s.capRegistry.authorize cap d.objectType rights with
        | error e => exact .openDenied hrun
        | ok o =>
          by_cases ho : o = d.object
          · subst ho
            simp only [beq_self_eq_true, if_true]
            exact .opened hrun (cspaceContains_iff.1 hc) ha
          · simp only [beq_iff_eq, ho, if_false]
            exact .openDenied hrun
      · simp only [hc, Bool.not_false, if_true]
        exact .openDenied hrun

/-- What an open that succeeds went through. -/
theorem open_ok {court : CourtId} {d : Descriptor} {cap : Option CapId} {rights : Rights} {c : CapId}
    (h : (s.open court d cap rights).1 = .ok c) :
    cap = some c ∧ s.Running court ∧ s.Holds court c ∧
      s.capRegistry.authorize c d.objectType rights = .ok d.object := by
  have he := open_effect (s := s) court d cap rights
  rw [h] at he
  generalize (s.open court d cap rights).2 = t at he
  cases he with
  | opened hr hh ha => exact ⟨rfl, hr, hh, ha⟩

/-- The errors of the checks.  All capabilities are of the one object type there is. -/
theorem permit_error_mem {court : CourtId} {cap : CapId} {right : Rights} {e : CkError}
    (h : s.permit court cap right = .error e) :
    e ∈ [CkError.invalidState, .badCap, .revoked, .noRight] := by
  unfold permit at h
  cases hr : s.requireRunningCourt court with
  | error e' =>
    rw [hr] at h
    obtain ⟨rfl, -⟩ := requireRunningCourt_error hr
    obtain rfl := Except.error.inj h
    decide
  | ok u =>
    simp only [hr, CapRegistry.authorize] at h
    split at h
    · obtain rfl := Except.error.inj h
      decide
    split at h
    · obtain rfl := Except.error.inj h
      decide
    rename_i k _
    have htype : (k.objectType != ObjectType.corridor) = false := by cases k.objectType; rfl
    rw [htype] at h
    split at h
    · obtain rfl := Except.error.inj h
      decide
    rw [if_neg (by decide)] at h
    split at h
    · obtain rfl := Except.error.inj h
      decide
    · cases h

/-- A refused permission is an authorization error of a running court, or `InvalidState`. -/
theorem permit_error {court : CourtId} {cap : CapId} {right : Rights} {e : CkError}
    (h : s.permit court cap right = .error e) :
    e ≠ .peerDown ∧ (s.Running court ∨ e = .invalidState) := by
  refine ⟨fun hdown => ?_, ?_⟩
  · rw [hdown] at h
    exact absurd (permit_error_mem h) (by decide)
  · cases hr : s.requireRunningCourt court with
    | ok u => exact Or.inl (requireRunningCourt_ok.1 hr)
    | error e' =>
      unfold permit at h
      rw [hr] at h
      obtain ⟨rfl, -⟩ := requireRunningCourt_error hr
      exact Or.inr (Except.error.inj h).symm

theorem send_effect (court : CourtId) (cap : CapId) (payload : Payload) :
    Effect s (.send court cap payload) (.unit (s.send court cap payload).1)
      (s.send court cap payload).2 := by
  unfold send
  cases ha : s.permit court cap .SEND with
  | error e => exact .sendRefused (permit_error ha).1 (permit_error ha).2
  | ok o =>
    have hrun := (permit_ok.1 ha).1
    cases hk : s.corridors.lookup o with
    | none =>
      simp only [hk]
      exact .sendRefused (by decide) (Or.inl hrun)
    | some k =>
      simp only [hk]
      by_cases hp : k.hasPeerDown court s.courts = true
      · simp only [hp, if_true]
        exact .peerDown ha hk hp
      · by_cases hl : k.queue.length ≥ k.capacity
        · simp only [hp, hl, if_true]
          exact .sendRefused (by decide) (Or.inl hrun)
        · simp only [hp, hl, if_false]
          exact .sent ha hk (by simpa using hp) (by omega)

theorem recv_effect (court : CourtId) (cap : CapId) :
    Effect s (.recv court cap) (.payload (s.recv court cap).1) (s.recv court cap).2 := by
  unfold recv
  cases ha : s.permit court cap .RECV with
  | error e => exact .recvRefused (permit_error ha).2
  | ok o =>
    have hrun := (permit_ok.1 ha).1
    cases hk : s.corridors.lookup o with
    | none =>
      simp only [hk]
      exact .recvRefused (Or.inl hrun)
    | some k =>
      simp only [hk]
      cases hq : k.queue with
      | nil => exact .recvRefused (Or.inl hrun)
      | cons payload rest => exact .received ha hk hq

/-- Revoking a registered capability. -/
theorem revoke_eq {cap : CapId} (h : cap ∈ s.capRegistry.caps) :
    s.revoke cap = (.ok (), (s.subtreeRevoked cap).push (.capRevoked cap)) := by
  have he : s.capRegistry.revoke cap = (.ok (), (s.capRegistry.revoke cap).2) := by
    simp [CapRegistry.revoke, h]
  unfold revoke
  rw [he]
  rfl

theorem revoke_effect (cap : CapId) :
    Effect s (.revoke cap) (.unit (s.revoke cap).1) (s.revoke cap).2 := by
  by_cases h : cap ∈ s.capRegistry.caps
  · rw [revoke_eq h]
    exact .revoked h
  · unfold revoke
    have he : s.capRegistry.revoke cap = (.error .badCap, s.capRegistry) := by
      simp [CapRegistry.revoke, h]
    rw [he]
    exact .revokeRefused h

theorem faultCourt_effect (court : CourtId) :
    Effect s (.faultCourt court) (.unit (s.faultCourt court).1) (s.faultCourt court).2 := by
  unfold faultCourt
  cases h : s.courts.lookup court with
  | none => exact .faultRefused h
  | some entry => exact .faulted h

/-- **Every public call has one of the listed outcomes.** -/
theorem call_effect (s : HostedRoot) (c : Call) : Effect s c (s.call c).1 (s.call c).2 := by
  cases c with
  | createCourt name => exact .courtCreated name
  | createCorridor path first second transport capacity => exact createCorridor_effect ..
  | lookup court path => exact lookup_effect ..
  | grantCorridorCap court d rights => exact grantCorridorCap_effect ..
  | «open» court d cap rights => exact open_effect ..
  | send court cap payload => exact send_effect ..
  | recv court cap => exact recv_effect ..
  | revoke cap => exact revoke_effect ..
  | faultCourt court => exact faultCourt_effect ..

/-- Case analysis of a machine step. -/
theorem step_effect (s : HostedRoot) (c : Call) :
    Effect s c (machine.step s c).1 (machine.step s c).2 := call_effect s c

end HostedRoot

end CourtKernel
