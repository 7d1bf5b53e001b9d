import CourtKernel.Hosted.Steps

/-!
# The trace is a complete audit log

The events of the Root Court determine its state up to corridor endpoints, capacities and payload
bytes, although no event carries the whole of what it changes: capability ids of corridor roots
are never recorded, and a revocation records only the top of the subtree it takes down.

* `View` — what the trace determines: every table but the corridors, and of each corridor the
  lengths of its queued payloads.
* `View.replay` — the effect of one event on a view.
* `Effect.replay` — every call records exactly the events that replay its effect on the view.
* `audit_complete` — runs with equal traces end in equal views, and in nothing more.
-/

namespace CourtKernel

/-- The part of the Root Court that its trace determines. -/
structure View where
  nextCourt : Nat
  nextObject : Nat
  courts : HashMap CourtId Court
  cspaces : HashMap CourtId (Finset CapId)
  capRegistry : CapRegistry
  nameSpace : Namespace
  rootCaps : HashMap ObjectId CapId
  lengths : ObjectId → Option (List Nat)

/-- The lengths of the payloads queued in a corridor. -/
def Corridor.lengths (self : Corridor) : List Nat := self.queue.map List.length

def HostedRoot.view (s : HostedRoot) : View :=
  ⟨s.nextCourt, s.nextObject, s.courts, s.cspaces, s.capRegistry, s.nameSpace, s.rootCaps,
    fun o => (s.corridors.lookup o).map Corridor.lengths⟩

/-- Replay of one event. -/
def View.replay (v : View) : TraceEvent → View
  | .courtCreated court name => { v with
      nextCourt := v.nextCourt + 1
      courts := v.courts.insert court ⟨court, name, .running⟩
      cspaces := v.cspaces.insert court ∅ }
  | .corridorCreated path object transport =>
    let (rootCap, capRegistry) := v.capRegistry.mintRoot object .corridor HostedRoot.rootRights
    { v with
      nextObject := v.nextObject + 1
      capRegistry := capRegistry
      nameSpace := v.nameSpace.bind path ⟨path, object, .corridor, transport⟩
      rootCaps := v.rootCaps.insert object rootCap
      lengths := fun o => if o = object then some [] else v.lengths o }
  | .capGranted court cap object rights =>
    match v.rootCaps.lookup object with
    | none => v
    | some rootCap => { v with
        capRegistry := (v.capRegistry.delegate rootCap rights).2
        cspaces := v.cspaces.insert court (insert cap ((v.cspaces.lookup court).getD ∅)) }
  | .sent _ object len => { v with
      lengths := fun o => if o = object then (v.lengths o).map (· ++ [len]) else v.lengths o }
  | .received _ object _ => { v with
      lengths := fun o => if o = object then (v.lengths o).map List.tail else v.lengths o }
  | .capRevoked cap => { v with capRegistry := (v.capRegistry.revoke cap).2 }
  | .courtFaulted court =>
    match v.courts.lookup court with
    | none => v
    | some entry => { v with courts := v.courts.insert court { entry with state := .faulted } }
  | .namespaceLookup .. | .openDenied .. | .opened .. | .peerDown .. => v

namespace HostedRoot

variable {s s' : HostedRoot}

theorem lengths_requeued {o : ObjectId} {k : Corridor} {q : List Payload} {f : List Nat → List Nat}
    (hk : s.corridors.lookup o = some k) (hq : q.map List.length = f k.lengths) (o' : ObjectId) :
    ((s.requeued o k q).corridors.lookup o').map Corridor.lengths =
      if o' = o then ((s.corridors.lookup o').map Corridor.lengths).map f
      else (s.corridors.lookup o').map Corridor.lengths := by
  simp only [requeued, HashMap.lookup_insert_ite]
  split
  · rename_i he
    subst he
    rw [hk]
    exact congrArg some hq
  · rfl

/-- **Every call records what it changes.** -/
theorem Effect.replay {c : Call} {r : Reply} (he : Effect s c r s') :
    ∃ es, s'.trace = s.trace ++ es ∧ s'.view = es.foldl View.replay s.view := by
  cases he with
  | courtCreated name => exact ⟨[_], rfl, rfl⟩
  | corridorCreated _ _ =>
    refine ⟨[_], rfl, ?_⟩
    simp only [view, List.foldl_cons, List.foldl_nil, View.replay, push_corridors, corridorAdded,
      HashMap.lookup_insert_ite]
    congr 1
    funext o
    split <;> rfl
  | granted _ _ hroot hd =>
    refine ⟨[_], rfl, ?_⟩
    simp only [view, List.foldl_cons, List.foldl_nil, View.replay, hroot, hd]
    rfl
  | @sent _ _ payload o k _ hk _ _ =>
    refine ⟨[_], rfl, ?_⟩
    simp only [view, List.foldl_cons, List.foldl_nil, View.replay, push_corridors]
    congr 1
    funext o'
    exact lengths_requeued (f := (· ++ [payload.length])) hk (by simp [Corridor.lengths]) o'
  | @received _ _ o k payload rest _ hk hq =>
    refine ⟨[_], rfl, ?_⟩
    simp only [view, List.foldl_cons, List.foldl_nil, View.replay, push_corridors]
    congr 1
    funext o'
    exact lengths_requeued (f := List.tail) hk (by simp [Corridor.lengths, hq]) o'
  | revoked _ => exact ⟨[_], rfl, rfl⟩
  | faulted h =>
    refine ⟨[_], rfl, ?_⟩
    simp only [view, List.foldl_cons, List.foldl_nil, View.replay, h]
    rfl
  | found | notFound | opened | openDenied | peerDown => exact ⟨[_], rfl, rfl⟩
  | corridorRefused | lookupRefused | grantRefused | openRefused | sendRefused | recvRefused
  | revokeRefused | faultRefused => exact ⟨[], (List.append_nil _).symm, rfl⟩

/-- The view after any run is the replay of its trace. -/
theorem view_eq_replay (cs : List Call) :
    (after cs).view = (after cs).trace.foldl View.replay new.view := by
  obtain ⟨es, ht, hv⟩ := machine.run_replay trace view
    (fun s c => (step_effect s c).replay) new cs
  rw [hv, ht]
  rfl

/-- **The trace is a complete audit log.**  Two runs with equal traces end with the same courts,
capability spaces, capability registry, namespace, root capabilities and counters, and with the
same lengths of queued payloads in every corridor.  Endpoints, capacities and payload bytes are
not determined. -/
theorem audit_complete :
    (∀ cs ds : List Call, (after cs).trace = (after ds).trace →
      (after cs).courts = (after ds).courts ∧
      (after cs).cspaces = (after ds).cspaces ∧
      (after cs).capRegistry = (after ds).capRegistry ∧
      (after cs).nameSpace = (after ds).nameSpace ∧
      (after cs).rootCaps = (after ds).rootCaps ∧
      (after cs).nextCourt = (after ds).nextCourt ∧
      (after cs).nextObject = (after ds).nextObject ∧
      ∀ o, ((after cs).corridors.lookup o).map Corridor.lengths =
        ((after ds).corridors.lookup o).map Corridor.lengths) ∧
    ∃ cs ds o k k', (after cs).trace = (after ds).trace ∧
      (after cs).corridors.lookup o = some k ∧ (after ds).corridors.lookup o = some k' ∧
      k.endpoints ≠ k'.endpoints ∧ k.capacity ≠ k'.capacity ∧ k.queue ≠ k'.queue := by
  constructor
  · intro cs ds htrace
    have hview : (after cs).view = (after ds).view := by
      rw [view_eq_replay, view_eq_replay, htrace]
    obtain ⟨h1, h2, h3, h4, h5, h6, h7, h8⟩ := View.mk.inj hview
    exact ⟨h3, h4, h5, h6, h7, h1, h2, fun o => congrFun h8 o⟩
  · let run (second : CourtId) (capacity : Nat) (byte : UInt8) : List Call :=
      [.createCourt "app", .createCourt "net",
        .createCorridor PACKET_RX ⟨1⟩ second .sharedRing capacity,
        .grantCorridorCap ⟨1⟩ packetRx .SEND, .send ⟨1⟩ ⟨2⟩ [byte]]
    exact ⟨run ⟨2⟩ 4 1, run ⟨1⟩ 5 2, ⟨1⟩, ⟨(⟨1⟩, ⟨2⟩), [[1]], 4⟩, ⟨(⟨1⟩, ⟨1⟩), [[2]], 5⟩,
      by decide, by decide, by decide, by decide, by decide, by decide⟩

/-- The fixture and the fixture with a refused call have the same trace, hence the same tables. -/
theorem audit_complete_fixture :
    (after grantedAppAndNet).trace = (after (grantedAppAndNet ++ [.recv ⟨2⟩ ⟨3⟩])).trace ∧
      (after grantedAppAndNet).capRegistry =
        (after (grantedAppAndNet ++ [.recv ⟨2⟩ ⟨3⟩])).capRegistry := by
  have htrace : (after grantedAppAndNet).trace =
      (after (grantedAppAndNet ++ [.recv ⟨2⟩ ⟨3⟩])).trace := by decide
  exact ⟨htrace, (audit_complete.1 _ _ htrace).2.2.1⟩

end HostedRoot

end CourtKernel
