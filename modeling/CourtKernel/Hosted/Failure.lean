import CourtKernel.Hosted.Steps

/-!
# Failed calls

A call that returns an error leaves every table, queue and counter of the Root Court as it was.  At
most it records one event.

* `failureEvent` — the event that a failed call records, if any.
* `Effect.failed` — one outcome; `failed_call_intact` — every call in every state.
-/

namespace CourtKernel

namespace HostedRoot

variable {s s' : HostedRoot}

/-- The error of a reply. -/
def Reply.error? : Reply → Option CkError
  | .object (.error e) | .descriptor (.error e) | .cap (.error e) | .unit (.error e)
  | .payload (.error e) => some e
  | _ => none

/-- The event that a call records when it fails with the error `e`. -/
def failureEvent (s : HostedRoot) (c : Call) (e : CkError) : Option TraceEvent :=
  match c with
  | .open court d _ _ =>
    match s.requireRunningCourt court with
    | .ok () => some (.openDenied court d.path e)
    | .error _ => none
  | .send court cap _ =>
    match s.permit court cap .SEND with
    | .ok object => if e = .peerDown then some (.peerDown court object) else none
    | .error _ => none
  | .lookup court path =>
    if e = .notFound then some (.namespaceLookup court path false) else none
  | _ => none

/-- A failed call changes the trace at most. -/
theorem Effect.failed {c : Call} {r : Reply} {e : CkError} (he : Effect s c r s')
    (h : r.error? = some e) :
    s' = { s with trace := s.trace ++ (failureEvent s c e).toList } := by
  have hsame : s = { s with trace := s.trace ++ [] } := by rw [List.append_nil]
  cases he with
  | courtCreated | corridorCreated | found | granted | opened | sent | received | revoked
  | faulted => cases h
  | notFound hr hd =>
    obtain rfl := Option.some.inj h
    rfl
  | openDenied hr =>
    obtain rfl := Option.some.inj h
    simp only [failureEvent, requireRunningCourt_ok.2 hr]
    rfl
  | openRefused hr =>
    obtain rfl := Option.some.inj h
    simp only [failureEvent, requireRunningCourt_of_not hr]
    exact hsame
  | peerDown ha hk hp =>
    obtain rfl := Option.some.inj h
    simp only [failureEvent, ha]
    rfl
  | @sendRefused court cap payload e' hne _ =>
    obtain rfl := Option.some.inj h
    cases hp : s.permit court cap .SEND with
    | error e'' =>
      simp only [failureEvent, hp]
      exact hsame
    | ok object =>
      simp only [failureEvent, hp, if_neg hne]
      exact hsame
  | lookupRefused hr =>
    obtain rfl := Option.some.inj h
    exact hsame
  | corridorRefused | grantRefused | recvRefused | revokeRefused | faultRefused => exact hsame

/-- When a failed call records an event. -/
theorem Effect.failureEvent_isSome {c : Call} {r : Reply} {e : CkError} (he : Effect s c r s')
    (h : r.error? = some e) : (failureEvent s c e).isSome ↔
      (∃ court d cap rights, c = .open court d cap rights ∧ s.Running court) ∨
      (∃ court cap payload, c = .send court cap payload ∧ e = .peerDown) ∨
      (∃ court path, c = .lookup court path ∧ s.Running court ∧ e = .notFound) := by
  cases he with
  | courtCreated | corridorCreated | found | granted | opened | sent | received | revoked
  | faulted => cases h
  | notFound hr hd =>
    obtain rfl := Option.some.inj h
    simp [failureEvent, hr]
  | openDenied hr =>
    obtain rfl := Option.some.inj h
    simp [failureEvent, hr, requireRunningCourt_ok.2 hr]
  | openRefused hr =>
    obtain rfl := Option.some.inj h
    simp [failureEvent, hr, requireRunningCourt_of_not hr]
  | peerDown ha hk hp =>
    obtain rfl := Option.some.inj h
    simp [failureEvent, ha]
  | @sendRefused court cap payload e' hne _ =>
    obtain rfl := Option.some.inj h
    cases hp : s.permit court cap .SEND <;> simp [failureEvent, hp, hne]
  | lookupRefused hr =>
    obtain rfl := Option.some.inj h
    simp [failureEvent]
  | corridorRefused | grantRefused | recvRefused | revokeRefused | faultRefused =>
    simp [failureEvent]

/-- **A failed call leaves the object model intact.** -/
theorem failed_call_intact {c : Call} {e : CkError} (h : (s.call c).1.error? = some e) :
    (s.call c).2 = { s with trace := s.trace ++ (failureEvent s c e).toList } ∧
      ((failureEvent s c e).isSome ↔
        (∃ court d cap rights, c = .open court d cap rights ∧ s.Running court) ∨
        (∃ court cap payload, c = .send court cap payload ∧ e = .peerDown) ∨
        (∃ court path, c = .lookup court path ∧ s.Running court ∧ e = .notFound)) :=
  ⟨(call_effect s c).failed h, (call_effect s c).failureEvent_isSome h⟩

theorem failed_call_intact_send :
    ((after (grantedAppAndNet ++ [.faultCourt ⟨2⟩])).call (.send ⟨1⟩ ⟨2⟩ [7])).2 =
      (after (grantedAppAndNet ++ [.faultCourt ⟨2⟩])).push (.peerDown ⟨1⟩ ⟨1⟩) := by
  have h := (failed_call_intact (s := after (grantedAppAndNet ++ [.faultCourt ⟨2⟩]))
    (c := .send ⟨1⟩ ⟨2⟩ [7]) (e := .peerDown) (by decide)).1
  rw [h]
  decide

end HostedRoot

end CourtKernel
