import CourtKernel.Hosted.Authority

/-!
# Corridors are bounded first-in first-out queues

The queue of a corridor over whole runs, with all courts, capabilities and corridors interleaved.

* `accepted o`, `delivered o` — what one call handed over to, or got from, the corridor `o`, read off the
  call, its answer and the object its capability designates.
* `Effect.fifo` — one call turns the old queue followed by what it put in into what it took out
  followed by the new queue; `Machine.collect_conserved` carries this to runs.
* `Effect.queue_frame` — a call that moves no payload leaves every queue alone.
* `corridor_fifo` — the law for every run, with the capacity bound.
-/

namespace CourtKernel

namespace HostedRoot

variable {s s' : HostedRoot}

/-- The payloads queued in a corridor; an object that is not a corridor has none. -/
def queue (s : HostedRoot) (o : ObjectId) : List Payload :=
  match s.corridors.lookup o with
  | none => []
  | some k => k.queue

/-- The object that a capability designates. -/
def designated (s : HostedRoot) (cap : CapId) : Option ObjectId :=
  (s.capRegistry.caps.lookup cap).map Capability.object

/-- The payload that a call handed over to the corridor `o`: that of a `send` that succeeded with a
capability for `o`. -/
def accepted (o : ObjectId) (s : HostedRoot) : Call → Reply → HostedRoot → List Payload
  | .send _ cap payload, .unit (.ok ()), _ => if s.designated cap = some o then [payload] else []
  | _, _, _ => []

/-- The payload that a call got from the corridor `o`: that returned by a `recv` that succeeded with a
capability for `o`. -/
def delivered (o : ObjectId) (s : HostedRoot) : Call → Reply → HostedRoot → List Payload
  | .recv _ cap, .payload (.ok payload), _ => if s.designated cap = some o then [payload] else []
  | _, _, _ => []

/-- The call moved a payload: it is a `send` or a `recv` that succeeded. -/
def Transfer : Call → Reply → Prop
  | .send _ _ _, .unit (.ok ()) => True
  | .recv _ _, .payload (.ok _) => True
  | _, _ => False

/-! ## One call -/

theorem queue_of_lookup {o : ObjectId} {k : Corridor} (hk : s.corridors.lookup o = some k) :
    s.queue o = k.queue := by
  simp [queue, hk]

/-- A call that is permitted acts on the object its capability designates. -/
theorem designated_of_permit {court : CourtId} {cap : CapId} {right : Rights} {o : ObjectId}
    (ha : s.permit court cap right = .ok o) : s.designated cap = some o := by
  obtain ⟨k, hk, -, -, -, rfl⟩ := CapRegistry.authorize_ok.1 (permit_ok.1 ha).2.2
  rw [designated, hk, Option.map_some]

@[simp] theorem queue_push (e : TraceEvent) (o : ObjectId) : (s.push e).queue o = s.queue o := rfl

theorem queue_requeued {o o' : ObjectId} {k : Corridor} {q : List Payload} :
    (s.requeued o k q).queue o' = if o' = o then q else s.queue o' := by
  unfold queue requeued
  simp only [HashMap.lookup_insert_ite]
  by_cases he : o' = o
  · simp only [if_pos he]
  · simp only [if_neg he]

/-- A new corridor is empty, and its object had no queue before. -/
theorem Wf.queue_corridorAdded (h : s.Wf) (path : String) (first second : CourtId)
    (transport : CorridorTransport) (capacity : Nat) (o : ObjectId) :
    (s.corridorAdded path first second transport capacity).queue o = s.queue o := by
  unfold queue HostedRoot.corridorAdded
  simp only [HashMap.lookup_insert_ite]
  by_cases he : o = ⟨s.nextObject + 1⟩
  · subst he
    rw [Finmap.lookup_eq_none.2 h.object_fresh, if_pos rfl]
    rfl
  · rw [if_neg he]

/-- A call that moves no payload leaves every queue alone. -/
theorem Effect.queue_frame {c : Call} {r : Reply} (he : Effect s c r s') (h : s.Wf)
    (ht : ¬ Transfer c r) (o : ObjectId) : s'.queue o = s.queue o := by
  cases he with
  | corridorCreated _ _ => rw [queue_push, h.queue_corridorAdded]
  | sent | received => exact absurd trivial ht
  | _ => rfl

theorem Effect.fifo {c : Call} {r : Reply} (he : Effect s c r s') (h : s.Wf) (o : ObjectId) :
    s.queue o ++ accepted o s c r s' = delivered o s c r s' ++ s'.queue o := by
  cases he with
  | corridorCreated _ _ =>
    rw [queue_push, h.queue_corridorAdded]
    exact List.append_nil _
  | @sent _ cap payload o' k ha hk _ _ =>
    simp only [accepted, delivered, designated_of_permit ha, Option.some.injEq, queue_push, queue_requeued,
      List.nil_append]
    by_cases ho : o = o'
    · subst ho
      rw [if_pos rfl, if_pos rfl, queue_of_lookup hk]
    · rw [if_neg (Ne.symm ho), if_neg ho, List.append_nil]
  | @received _ cap o' k payload rest ha hk hq =>
    simp only [accepted, delivered, designated_of_permit ha, Option.some.injEq, queue_push, queue_requeued,
      List.append_nil]
    by_cases ho : o = o'
    · subst ho
      rw [if_pos rfl, if_pos rfl, queue_of_lookup hk, hq]
      rfl
    · rw [if_neg (Ne.symm ho), if_neg ho, List.nil_append]
  | _ => exact List.append_nil _

/-- Every queue is within its corridor's capacity. -/
def Bounded (s : HostedRoot) : Prop :=
  ∀ o k, s.corridors.lookup o = some k → k.queue.length ≤ k.capacity

theorem Bounded.requeued (h : s.Bounded) {o : ObjectId} {k : Corridor} {q : List Payload}
    (hq : q.length ≤ k.capacity) : (s.requeued o k q).Bounded := by
  intro o' k' hk'
  simp only [HostedRoot.requeued, HashMap.lookup_insert_ite] at hk'
  split at hk'
  · obtain rfl := Option.some.inj hk'
    exact hq
  · exact h o' k' hk'

theorem Effect.bounded {c : Call} {r : Reply} (he : Effect s c r s') (h : s.Bounded) :
    s'.Bounded := by
  cases he with
  | corridorCreated _ _ =>
    intro o k hk
    simp only [push_corridors, corridorAdded, HashMap.lookup_insert_ite] at hk
    split at hk
    · obtain rfl := Option.some.inj hk
      exact Nat.zero_le _
    · exact h o k hk
  | sent _ _ _ hl => exact h.requeued (by simp only [List.length_append, List.length_singleton]; omega)
  | received _ hk hq =>
    refine h.requeued ?_
    have := h _ _ hk
    rw [hq, List.length_cons] at this
    omega
  | _ => exact h

theorem after_bounded (cs : List Call) : (after cs).Bounded :=
  machine.run_invariant (I := Bounded) (fun s c h => (step_effect s c).bounded h)
    (fun o k hk => by cases hk) cs

/-! ## Every run -/

/-- **Corridors are FIFO over whole runs.**  After any public calls `cs`, the payloads of the successful
sends with capabilities for the corridor `o` are those that successful receives with capabilities for it
returned, followed by those in its queue; the queue is within the capacity the corridor was created with;
and a next call that is not a successful `send` or `recv` leaves the queue alone. -/
theorem corridor_fifo (cs : List Call) (o : ObjectId) :
    machine.collect (accepted o) new cs =
      machine.collect (delivered o) new cs ++ (after cs).queue o ∧
    (∀ path first second transport capacity,
      (.createCorridor path first second transport capacity, .object (.ok o)) ∈ history cs →
      ((after cs).queue o).length ≤ capacity) ∧
    ∀ c, ¬ Transfer c (machine.step (after cs) c).1 →
      (after (cs ++ [c])).queue o = (after cs).queue o := by
  refine ⟨?_, ?_, ?_⟩
  · exact machine.collect_conserved (I := Wf) (q := fun s => s.queue o) (fun s c h => h.step c)
      (fun s c h => (step_effect s c).fifo h o) wf_new cs
  · intro path first second transport capacity hc
    obtain ⟨k, hk, -, rfl⟩ := (after_logged cs).corridor _ _ _ _ _ o hc
    rw [queue_of_lookup hk]
    exact after_bounded cs o k hk
  · intro c ht
    rw [after, Machine.run_concat]
    exact (step_effect _ c).queue_frame (after_wf cs) ht o

/-- In the fixture, two payloads go in and one comes out; the revocation that follows is not a
transfer and keeps the other. -/
theorem corridor_fifo_fixture :
    let cs := grantedAppAndNet ++ [.send ⟨1⟩ ⟨2⟩ [1], .send ⟨1⟩ ⟨2⟩ [2, 3], .recv ⟨2⟩ ⟨3⟩]
    machine.collect (accepted ⟨1⟩) new cs = [[1], [2, 3]] ∧
      machine.collect (delivered ⟨1⟩) new cs = [[1]] ∧ (after cs).queue ⟨1⟩ = [[2, 3]] ∧
      ((after cs).queue ⟨1⟩).length ≤ 4 ∧
      (after (cs ++ [.revoke ⟨2⟩])).queue ⟨1⟩ = (after cs).queue ⟨1⟩ := by
  refine ⟨by decide, by decide, by decide, ?_, ?_⟩
  · exact (corridor_fifo _ ⟨1⟩).2.1 PACKET_RX ⟨1⟩ ⟨2⟩ .sharedRing 4 (by decide)
  · exact (corridor_fifo _ ⟨1⟩).2.2 (.revoke ⟨2⟩) (by simp [Transfer])

end HostedRoot

end CourtKernel
