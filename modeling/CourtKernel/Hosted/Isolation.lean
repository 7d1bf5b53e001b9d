import CourtKernel.Hosted.Agreement
import CourtKernel.Hosted.Fifo

/-!
# Isolation of courts

Two results that compare runs of the Root Court, both by the relation `Agree`.

* `noninterference` — what a court looks up, opens, sends and receives is invisible outside the
  corridors it was granted: the run without those calls has the same queues and the same replies.
* `fault_containment` — a faulted court stays down and can do nothing, and the fault is invisible
  to every call that does not involve it.

The relation is used with the corridors granted to the court (`noninterference`) and with the
faulted court itself (`fault_containment`).
-/

namespace CourtKernel

namespace HostedRoot

/-! ## Noninterference -/

/-- The call is a lookup, an open, a send or a receive issued by `x`. -/
def IssuedBy (x : CourtId) : Call → Prop
  | .lookup court _ => court = x
  | .open court _ _ _ => court = x
  | .send court _ _ => court = x
  | .recv court _ => court = x
  | _ => False

instance (x : CourtId) : DecidablePred (IssuedBy x)
  | .lookup court _ => inferInstanceAs (Decidable (court = x))
  | .open court _ _ _ => inferInstanceAs (Decidable (court = x))
  | .send court _ _ => inferInstanceAs (Decidable (court = x))
  | .recv court _ => inferInstanceAs (Decidable (court = x))
  | .createCourt _ => instDecidableFalse
  | .createCorridor _ _ _ _ _ => instDecidableFalse
  | .grantCorridorCap _ _ _ => instDecidableFalse
  | .revoke _ => instDecidableFalse
  | .faultCourt _ => instDecidableFalse

/-- The calls of a run that `x` did not issue. -/
def without (x : CourtId) (cs : List Call) : List Call := cs.filter fun c => ¬ IssuedBy x c

/-- The object on which an entry of a log granted `x` a capability. -/
def grantedTo (x : CourtId) : Call × Reply → Option ObjectId
  | (.grantCorridorCap court d _, .cap (.ok _)) => if court = x then some d.object else none
  | _ => none

/-- Some grant in the log gave `x` a capability on `o`. -/
def GrantedOn (log : List (Call × Reply)) (x : CourtId) (o : ObjectId) : Prop :=
  ∃ e ∈ log, grantedTo x e = some o

instance (log : List (Call × Reply)) (x : CourtId) : DecidablePred (GrantedOn log x) := fun o =>
  inferInstanceAs (Decidable (∃ e ∈ log, grantedTo x e = some o))

/-- The call is a send or a receive through a capability on an object in `G`. -/
def Through (G : ObjectId → Prop) (s : HostedRoot) : Call → Prop
  | .send _ cap _ => ∃ k, s.capRegistry.caps.lookup cap = some k ∧ G k.object
  | .recv _ cap => ∃ k, s.capRegistry.caps.lookup cap = some k ∧ G k.object
  | _ => False

theorem Through.within {G : ObjectId → Prop} {s : HostedRoot} {c : Call} (h : Through G s c) :
    Within G s c := by
  have key : ∀ court cap right o, (∃ k, s.capRegistry.caps.lookup cap = some k ∧ G k.object) →
      s.permit court cap right = .ok o → G o := by
    rintro court cap right o ⟨k, hk, hG⟩ ha
    obtain ⟨k', hk', rfl⟩ := registered_of_permit ha
    rw [hk] at hk'
    obtain rfl := Option.some.inj hk'
    exact hG
  cases c with
  | send court cap payload => exact fun o => key court cap _ o h
  | recv court cap => exact fun o => key court cap _ o h
  | _ => exact h.elim

theorem clear_of_not_through {G : ObjectId → Prop} {s : HostedRoot} {c : Call}
    (h : ¬ Through G s c) : Clear (fun _ => False) G s c := by
  cases c with
  | send court cap payload =>
    exact ⟨id, fun k hk => ⟨fun hG => h ⟨k, hk, hG⟩, fun _ _ => ⟨id, id⟩⟩⟩
  | recv court cap => exact ⟨id, fun k hk hG => h ⟨k, hk, hG⟩⟩
  | createCorridor => exact ⟨id, id⟩
  | lookup | grantCorridorCap | «open» => exact id
  | createCourt | revoke | faultCourt => trivial

/-- A court reaches only corridors it was granted. -/
theorem within_of_issuedBy {cs : List Call} {x : CourtId} {c : Call} (h : IssuedBy x c) :
    Within (GrantedOn (history cs) x) (after cs) c := by
  have key : ∀ cap right o, (after cs).permit x cap right = .ok o → GrantedOn (history cs) x o := by
    intro cap right o ha
    obtain ⟨d, rights, ho, -, hmem, -⟩ := (authorized_of_permit ha).granted
    exact ⟨_, hmem, by simp [grantedTo, ho]⟩
  cases c with
  | send court cap payload => obtain rfl := h; exact fun o => key cap _ o
  | recv court cap => obtain rfl := h; exact fun o => key cap _ o
  | lookup | «open» => trivial
  | _ => exact h.elim

theorem Within.mono {G G' : ObjectId → Prop} (hG : ∀ o, G o → G' o) {s : HostedRoot} {c : Call}
    (h : Within G s c) : Within G' s c := by
  cases c with
  | send court cap payload => exact fun o ho => hG o (h o ho)
  | recv court cap => exact fun o ho => hG o (h o ho)
  | lookup | «open» => trivial
  | _ => exact h.elim

/-- Along the run, the state agrees with that of the run without the calls of `x`, except on the
corridors granted to `x`. -/
theorem agree_without {cs : List Call} (x : CourtId) :
    ∀ {pre : List Call}, pre <+: cs →
      Agree (fun _ => False) (GrantedOn (history cs) x) (after pre) (after (without x pre)) := by
  intro pre
  induction pre using List.reverseRecOn with
  | nil => exact fun _ => .refl _
  | append_singleton pre c ih =>
    intro hpre
    have hpre' : pre <+: cs := (List.prefix_append pre [c]).trans hpre
    have hagree := ih hpre'
    rw [after, Machine.run_concat]
    by_cases hc : IssuedBy x c
    · -- a deleted call: only the first run moves
      have hskip : without x (pre ++ [c]) = without x pre := by simp [without, hc]
      have hwithin : Within (GrantedOn (history cs) x) (after pre) c := by
        refine (within_of_issuedBy hc).mono ?_
        rintro o ⟨e, hmem, he⟩
        exact ⟨e, machine.log_mono hpre' hmem, he⟩
      rw [hskip]
      exact ((step_effect _ c).stutter hwithin).trans hagree
    · have hkeep : without x (pre ++ [c]) = without x pre ++ [c] := by simp [without, hc]
      rw [hkeep, after, Machine.run_concat]
      by_cases ht : Through (GrantedOn (history cs) x) (after pre) c
      · -- both runs move, but only within the corridors of `x`
        have ht' : Through (GrantedOn (history cs) x) (after (without x pre)) c := by
          cases c <;> simp only [Through, ← hagree.capRegistry] at ht ⊢ <;> exact ht
        exact (((step_effect _ c).stutter ht.within).trans hagree).trans
          ((step_effect _ c).stutter ht'.within).symm
      · exact (hagree.call (clear_of_not_through ht)).agree

/-- **Noninterference.**  Let `cs` be any public calls and `x` a court, and delete from `cs` every
lookup, open, send and receive of `x`.  After every prefix, the queue of a corridor that no call of
`cs` granted to `x` is the same in both runs, and every call that is not deleted gets the same reply
in both runs unless it is a send or receive through a capability on an object granted to `x`. -/
theorem noninterference (cs : List Call) (x : CourtId) :
    (∀ pre, pre <+: cs → ∀ o, ¬ GrantedOn (history cs) x o →
      (after pre).queue o = (after (without x pre)).queue o) ∧
    ∀ pre c, pre ++ [c] <+: cs → ¬ IssuedBy x c →
      ¬ Through (GrantedOn (history cs) x) (after pre) c →
      (machine.step (after pre) c).1 = (machine.step (after (without x pre)) c).1 := by
  constructor
  · intro pre hpre o ho
    simp only [queue, (agree_without x hpre).corridors o ho]
  · intro pre c hpre _ ht
    have hagree := agree_without x ((List.prefix_append pre [c]).trans hpre)
    exact (hagree.call (clear_of_not_through ht)).reply

/-- The fixture with a second corridor, on which only `app` has a capability.  What `net` receives
from the first corridor changes neither the queue of the second nor the next send there. -/
theorem noninterference_fixture :
    let second : Descriptor := ⟨"/court/net0/packet/tx", ⟨2⟩, .corridor, .sharedRing⟩
    let cs : List Call := grantedAppAndNet ++ [.send ⟨1⟩ ⟨2⟩ [1],
      .createCorridor "/court/net0/packet/tx" ⟨1⟩ ⟨2⟩ .sharedRing 4,
      .grantCorridorCap ⟨1⟩ second .SEND, .send ⟨1⟩ ⟨5⟩ [2], .recv ⟨2⟩ ⟨3⟩]
    (after cs).queue ⟨2⟩ = (after (without ⟨2⟩ cs)).queue ⟨2⟩ ∧
      ((after cs).send ⟨1⟩ ⟨5⟩ [3]).1 = ((after (without ⟨2⟩ cs)).send ⟨1⟩ ⟨5⟩ [3]).1 := by
  intro second cs
  constructor
  · exact (noninterference cs ⟨2⟩).1 cs List.prefix_rfl ⟨2⟩ (by decide)
  · have hthrough : ¬ Through (GrantedOn (history (cs ++ [.send ⟨1⟩ ⟨5⟩ [3]])) ⟨2⟩) (after cs)
        (.send ⟨1⟩ ⟨5⟩ [3]) := by
      rintro ⟨k, hk, hG⟩
      have hobj : ((after cs).capRegistry.caps.lookup ⟨5⟩).map Capability.object = some ⟨2⟩ := by
        decide
      rw [hk] at hobj
      rw [Option.some.inj hobj] at hG
      exact absurd hG (by decide)
    have hreply := (noninterference (cs ++ [.send ⟨1⟩ ⟨5⟩ [3]]) ⟨2⟩).2 cs (.send ⟨1⟩ ⟨5⟩ [3])
      List.prefix_rfl (by decide) hthrough
    exact Reply.unit.inj hreply

/-! ## Faults -/

/-- The call does not involve the court `x`: it is not issued by it, grants nothing to it, creates no
corridor for it, and does not send through a capability on one of its corridors. -/
def Avoids (x : CourtId) (s : HostedRoot) : Call → Prop
  | .createCorridor _ first second _ _ => first ≠ x ∧ second ≠ x
  | .lookup court _ => court ≠ x
  | .grantCorridorCap court _ _ => court ≠ x
  | .open court _ _ _ => court ≠ x
  | .send court cap _ => court ≠ x ∧ ∀ k corridor, s.capRegistry.caps.lookup cap = some k →
      s.corridors.lookup k.object = some corridor →
      corridor.endpoints.1 ≠ x ∧ corridor.endpoints.2 ≠ x
  | .recv court _ => court ≠ x
  | _ => True

theorem Avoids.clear {x : CourtId} {s : HostedRoot} {c : Call} (h : Avoids x s c) :
    Clear (fun court => court = x) (fun _ => False) s c := by
  cases c with
  | send court cap payload => exact ⟨h.1, fun k hk => ⟨id, fun corridor hl => h.2 k corridor hk hl⟩⟩
  | recv court cap => exact ⟨h, fun _ _ => id⟩
  | createCourt | revoke | faultCourt => trivial
  | createCorridor | lookup | grantCorridorCap | «open» => exact h

/-- Everything a faulted court asks for is refused, and the state stays as it is. -/
structure Silenced (x : CourtId) (s : HostedRoot) : Prop where
  lookup : ∀ path, s.lookup x path = (.error .invalidState, s)
  grant : ∀ d rights, s.grantCorridorCap x d rights = (.error .invalidState, s)
  «open» : ∀ d cap rights, s.open x d cap rights = (.error .invalidState, s)
  send : ∀ cap payload, s.send x cap payload = (.error .invalidState, s)
  recv : ∀ cap, s.recv x cap = (.error .invalidState, s)
  first : ∀ path y transport capacity,
    s.createCorridor path x y transport capacity = (.error .invalidState, s)
  second : ∀ path y transport capacity,
    s.createCorridor path y x transport capacity = (.error .invalidState, s)

theorem silenced_of_not_running {x : CourtId} {s : HostedRoot} (h : ¬ s.Running x) :
    Silenced x s := by
  have hreq := requireRunningCourt_of_not h
  refine ⟨?_, ?_, ?_, ?_, ?_, ?_, ?_⟩
  · intro path; simp [HostedRoot.lookup, hreq]
  · intro d rights; simp [grantCorridorCap, hreq]
  · intro d cap rights; simp [HostedRoot.open, hreq]
  · intro cap payload; simp [HostedRoot.send, permit, hreq]
  · intro cap; simp [HostedRoot.recv, permit, hreq]
  · intro path y transport capacity; simp [createCorridor, hreq]
  · intro path y transport capacity
    cases hy : s.requireRunningCourt y with
    | error e =>
      obtain ⟨rfl, -⟩ := requireRunningCourt_error hy
      simp [createCorridor, hy]
    | ok u => simp [createCorridor, hy, hreq]

/-- No other court sends on a corridor one of whose endpoints is down. -/
theorem send_to_faulted {x court : CourtId} {s : HostedRoot} (h : ¬ s.Running x) (hne : court ≠ x)
    {cap : CapId} {k : Capability} {corridor : Corridor}
    (hk : s.capRegistry.caps.lookup cap = some k)
    (hl : s.corridors.lookup k.object = some corridor)
    (hx : x = corridor.endpoints.1 ∨ x = corridor.endpoints.2) (payload : Payload) :
    (s.send court cap payload).1 ≠ .ok () := by
  intro hok
  have he := send_effect (s := s) court cap payload
  rw [hok] at he
  generalize (s.send court cap payload).2 = s' at he
  cases he with
  | sent ha hl' hp _ =>
    obtain ⟨k', hk', rfl⟩ := registered_of_permit ha
    rw [hk] at hk'
    obtain rfl := Option.some.inj hk'
    rw [hl] at hl'
    obtain rfl := Option.some.inj hl'
    exact h (hasPeerDown_false.1 hp x hx (Ne.symm hne))

/-- The fault itself changes the state of `x` and the trace only. -/
theorem agree_faultCourt {x : CourtId} {s : HostedRoot} (h : (s.faultCourt x).1 = .ok ()) :
    Agree (fun court => court = x) (fun _ => False) (s.faultCourt x).2 s ∧
      (s.faultCourt x).2.trace = s.trace ++ [.courtFaulted x] := by
  have he := faultCourt_effect (s := s) x
  rw [h] at he
  generalize (s.faultCourt x).2 = s' at he ⊢
  cases he with
  | @faulted _ entry hl =>
    have hcourts : ∀ c, (s.courtDown x entry).courts.lookup c =
        if c = x then some entry.fault else s.courts.lookup c :=
      fun c => HashMap.lookup_insert_ite _ _ _ _
    refine ⟨⟨rfl, rfl, rfl, rfl, rfl, rfl, fun c hc => ?_, fun c => ?_, fun _ _ => rfl⟩, rfl⟩
    · rw [push_courts, hcourts, if_neg hc]
    · rw [push_courts, hcourts]
      split
      · rename_i hc; rw [hc, hl]; rfl
      · rfl

/-- Two Root Courts that differ in the state of `x` only, and in one event recorded before. -/
structure SameBut (x : CourtId) (past : List TraceEvent) (s t : HostedRoot) : Prop where
  rest : s = { t with courts := s.courts, trace := s.trace }
  courts : ∀ c, c ≠ x → s.courts.lookup c = t.courts.lookup c
  names : (s.courts.lookup x).map Court.fault = (t.courts.lookup x).map Court.fault
  trace : ∃ es, s.trace = past ++ .courtFaulted x :: es ∧ t.trace = past ++ es

theorem Agree.sameBut {x : CourtId} {past : List TraceEvent} {s t : HostedRoot}
    (h : Agree (fun court => court = x) (fun _ => False) s t)
    (ht : ∃ es, s.trace = past ++ .courtFaulted x :: es ∧ t.trace = past ++ es) :
    SameBut x past s t := by
  refine ⟨?_, h.courts, h.names x, ht⟩
  have hcorr : s.corridors = t.corridors := Finmap.ext_lookup fun o => h.corridors o id
  obtain ⟨h1, h2, h3, h4, h5, h6, -, -, -⟩ := h
  cases s
  simp only at h1 h2 h3 h4 h5 h6 hcorr ⊢
  rw [h1, h2, h3, h4, h5, h6, hcorr]

/-- **Fault containment.**  Suppose `fault_court(x)` succeeds after any public calls `cs`, and let
`ds` be any later calls.

First, after `ds` the court `x` is faulted, all its calls and all corridors for it are refused with
`InvalidState` and no change of state, and no other court sends on a corridor with endpoint `x`.

Second, if no call of `ds` involves `x`, then all of them get the reply they get without the fault,
and the final states are the same but for the state of `x` and the event of the fault. -/
theorem fault_containment (cs ds : List Call) (x : CourtId)
    (hok : ((after cs).faultCourt x).1 = .ok ()) :
    let s := ((after cs).faultCourt x).2
    ((machine.run s ds).Faulted x ∧ Silenced x (machine.run s ds) ∧
      ∀ court cap payload k corridor, court ≠ x →
        (machine.run s ds).capRegistry.caps.lookup cap = some k →
        (machine.run s ds).corridors.lookup k.object = some corridor →
        x = corridor.endpoints.1 ∨ x = corridor.endpoints.2 →
        ((machine.run s ds).send court cap payload).1 ≠ .ok ()) ∧
    (machine.Along (Avoids x) s ds →
      machine.log s ds = machine.log (after cs) ds ∧
      SameBut x (after cs).trace (machine.run s ds) (machine.run (after cs) ds)) := by
  intro s
  constructor
  · have hwf : s.Wf := (after_wf cs).step (.faultCourt x)
    have hdown : s.Faulted x := by
      have he := faultCourt_effect (s := after cs) x
      rw [hok] at he
      exact he.faulted_of_ok
    have hlater := (hwf.persists_run ds).faulted hdown
    refine ⟨hlater, silenced_of_not_running hlater.not_running, ?_⟩
    intro court cap payload k corridor hne hk hl hx
    exact send_to_faulted hlater.not_running hne hk hl hx payload
  · intro hds
    obtain ⟨hagree, htrace⟩ := agree_faultCourt hok
    -- the relation carried along: agreement, and the same events after the fault
    let R : HostedRoot → HostedRoot → Prop := fun u v =>
      Agree (fun court => court = x) (fun _ => False) u v ∧
      ∃ es, u.trace = (after cs).trace ++ .courtFaulted x :: es ∧ v.trace = (after cs).trace ++ es
    have hR : R s (after cs) := ⟨hagree, [], htrace, (List.append_nil _).symm⟩
    have hstep : ∀ u v c, R u v → Avoids x u c →
        (machine.step u c).1 = (machine.step v c).1 ∧ R (machine.step u c).2 (machine.step v c).2 := by
      rintro u v c ⟨ha, es, hu, hv⟩ hc
      obtain ⟨hr, ha', es', hu', hv'⟩ := ha.call hc.clear
      refine ⟨hr, ha', es ++ es', hu'.trans ?_, hv'.trans ?_⟩
      · rw [hu]; simp
      · rw [hv]; simp
    obtain ⟨hlog, ha, ht⟩ := machine.lockstep hstep hR hds
    exact ⟨hlog, ha.sameBut ht⟩

/-- In the fixture `app` sends and crashes; `net` still drains what was queued. -/
theorem fault_containment_fixture :
    let cs := grantedAppAndNet ++ [.send ⟨1⟩ ⟨2⟩ [1]]
    let s := ((after cs).faultCourt ⟨1⟩).2
    ((after cs).faultCourt ⟨1⟩).1 = .ok () ∧ s.Faulted ⟨1⟩ ∧
      machine.log s [.recv ⟨2⟩ ⟨3⟩] = machine.log (after cs) [.recv ⟨2⟩ ⟨3⟩] := by
  intro cs s
  have hok : ((after cs).faultCourt ⟨1⟩).1 = .ok () := by decide
  have havoid : machine.Along (Avoids ⟨1⟩) s [.recv ⟨2⟩ ⟨3⟩] :=
    ⟨show (⟨2⟩ : CourtId) ≠ ⟨1⟩ by decide, trivial⟩
  have hdown := (fault_containment cs [] ⟨1⟩ hok).1.1
  rw [Machine.run_nil] at hdown
  exact ⟨hok, hdown, ((fault_containment cs [.recv ⟨2⟩ ⟨3⟩] ⟨1⟩ hok).2 havoid).1⟩

end HostedRoot

end CourtKernel
