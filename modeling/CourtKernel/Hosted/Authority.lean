import CourtKernel.Hosted.Invariant

/-!
# Authority over whole runs

Links the state of the Root Court to the calls that led to it.  A capability lies in a capability
space only because a grant put it there, a successful revocation leaves its capability revoked for
good, a successful fault leaves its court down for good, and a corridor keeps the endpoints and the
capacity it was created with.

* `Effect.holds` — a step puts a capability into a capability space only by granting it.
* `Logged` — the invariant that ties the log of a run to the state it reached; `after_logged`.
* `Authorized` — what must have happened before a court may use a capability on an object.
* `authority_safety` — every successful `send` and `recv` is authorized in this sense.
-/

namespace CourtKernel

namespace HostedRoot

variable {s s' : HostedRoot}

/-! ## One step -/

/-- Events are only ever appended. -/
theorem Effect.trace {c : Call} {r : Reply} (he : Effect s c r s') : s.trace <+: s'.trace := by
  cases he with
  | corridorRefused | lookupRefused | grantRefused | openRefused | sendRefused | recvRefused
  | revokeRefused | faultRefused => exact List.prefix_rfl
  | _ => exact List.prefix_append _ _

/-- A capability enters a capability space only by a grant of exactly that capability. -/
theorem Effect.holds {c : Call} {r : Reply} {court : CourtId} {cap : CapId}
    (he : Effect s c r s') (h : s.Wf) (hh : s'.Holds court cap) :
    s.Holds court cap ∨ ∃ d rights k,
      c = .grantCorridorCap court d rights ∧ r = .cap (.ok cap) ∧
      .capGranted court cap d.object rights ∈ s'.trace ∧
      s'.capRegistry.caps.lookup cap = some k ∧ k.object = d.object ∧ k.rights = rights := by
  cases he with
  | courtCreated name => exact Or.inl ((holds_courtAdded h name).1 hh)
  | @granted court' d rights root cap' g _ _ hroot hd =>
    rcases (holds_capAdded (g := g)).1 hh with ⟨rfl, rfl⟩ | hh
    · obtain ⟨kp, hkp, -, -, -, rfl, rfl⟩ := CapRegistry.delegate_ok hd
      obtain ⟨k, hk, ho, -⟩ := h.root d.object root hroot
      rw [hkp] at hk
      obtain rfl := Option.some.inj hk
      refine Or.inr ⟨d, rights, CapRegistry.derived root kp rights, rfl, rfl, ?_, ?_, ho, rfl⟩
      · exact List.mem_append_right _ (List.mem_singleton.2 rfl)
      · rw [push_capRegistry, capAdded_capRegistry, CapRegistry.lookup_register, if_pos rfl]
    · exact Or.inl hh
  | _ => exact Or.inl hh

theorem Effect.revoked_of_ok {c : CapId} (he : Effect s (.revoke c) (.unit (.ok ())) s') (h : s.Wf) :
    s'.capRegistry.Revoked c := by
  cases he with
  | revoked hc =>
    exact ((CapRegistry.revoke_spec h.registry hc).2.revoked_iff c).2 (Or.inr ⟨hc, .refl⟩)

/-- The court exists and was marked as faulted. -/
def Faulted (s : HostedRoot) (court : CourtId) : Prop :=
  ∃ entry, s.courts.lookup court = some entry ∧ entry.state = .faulted

theorem Faulted.not_running {court : CourtId} (h : s.Faulted court) : ¬ s.Running court := by
  rintro ⟨entry, he, hr⟩
  obtain ⟨entry', he', hf⟩ := h
  rw [he] at he'
  obtain rfl := Option.some.inj he'
  rw [hr] at hf
  cases hf

theorem Persists.faulted {court : CourtId} (hp : Persists s s') (h : s.Faulted court) :
    s'.Faulted court := by
  obtain ⟨entry, he, hf⟩ := h
  obtain ⟨entry', he', hf'⟩ := hp.faults court entry he
  exact ⟨entry', he', hf' hf⟩

theorem Effect.faulted_of_ok {c : CourtId} (he : Effect s (.faultCourt c) (.unit (.ok ())) s') :
    s'.Faulted c := by
  cases he with
  | faulted _ => exact ⟨_, Finmap.lookup_insert _, rfl⟩

theorem Effect.corridor_of_ok {path : String} {first second : CourtId}
    {transport : CorridorTransport} {capacity : Nat} {o : ObjectId}
    (he : Effect s (.createCorridor path first second transport capacity) (.object (.ok o)) s') :
    ∃ k, s'.corridors.lookup o = some k ∧ k.endpoints = (first, second) ∧
      k.capacity = capacity := by
  cases he with
  | corridorCreated _ _ => exact ⟨_, Finmap.lookup_insert _, rfl, rfl⟩

/-! ## The log of a run -/

/-- What the log of a run says about the state it reached. -/
structure Logged (log : List (Call × Reply)) (s : HostedRoot) : Prop where
  grant : ∀ court cap, s.Holds court cap → ∃ d rights k,
    (.grantCorridorCap court d rights, .cap (.ok cap)) ∈ log ∧
    .capGranted court cap d.object rights ∈ s.trace ∧
    s.capRegistry.caps.lookup cap = some k ∧ k.object = d.object ∧ k.rights = rights
  revoke : ∀ c, (.revoke c, .unit (.ok ())) ∈ log → s.capRegistry.Revoked c
  fault : ∀ c, (.faultCourt c, .unit (.ok ())) ∈ log → s.Faulted c
  corridor : ∀ path first second transport capacity o,
    (.createCorridor path first second transport capacity, .object (.ok o)) ∈ log →
    ∃ k, s.corridors.lookup o = some k ∧ k.endpoints = (first, second) ∧ k.capacity = capacity

theorem logged_new : Logged [] new := by
  refine ⟨?_, ?_, ?_, ?_⟩
  · rintro court cap ⟨cspace, h, -⟩; cases h
  · intro c h; cases h
  · intro c h; cases h
  · intro path first second transport capacity o h; cases h

theorem Logged.step {log : List (Call × Reply)} {c : Call} {r : Reply} (hl : Logged log s)
    (h : s.Wf) (he : Effect s c r s') : Logged (log ++ [(c, r)]) s' := by
  have hp := he.persists h
  refine ⟨?_, ?_, ?_, ?_⟩
  · intro court cap hh
    rcases he.holds h hh with hh | ⟨d, rights, k, rfl, rfl, htrace, hk, ho, hr⟩
    · obtain ⟨d, rights, k, hmem, htrace, hk, ho, hr⟩ := hl.grant court cap hh
      obtain ⟨k', hk', ho', -, hr', -⟩ := hp.registry.keep cap k hk
      exact ⟨d, rights, k', List.mem_append_left _ hmem, he.trace.subset htrace, hk',
        ho'.trans ho, hr'.trans hr⟩
    · exact ⟨d, rights, k, List.mem_append_right _ (List.mem_singleton.2 rfl), htrace, hk, ho, hr⟩
  · intro c' hc'
    rcases List.mem_append.1 hc' with hc' | hc'
    · exact hp.registry.revoked (hl.revoke c' hc')
    · obtain ⟨rfl, rfl⟩ := Prod.mk.inj (List.mem_singleton.1 hc')
      exact he.revoked_of_ok h
  · intro c' hc'
    rcases List.mem_append.1 hc' with hc' | hc'
    · exact hp.faulted (hl.fault c' hc')
    · obtain ⟨rfl, rfl⟩ := Prod.mk.inj (List.mem_singleton.1 hc')
      exact he.faulted_of_ok
  · intro path first second transport capacity o hc
    rcases List.mem_append.1 hc with hc | hc
    · obtain ⟨k, hk, hends, hcap⟩ := hl.corridor path first second transport capacity o hc
      obtain ⟨k', hk', hends', hcap'⟩ := hp.corridors o k hk
      exact ⟨k', hk', hends'.trans hends, hcap'.trans hcap⟩
    · obtain ⟨rfl, rfl⟩ := Prod.mk.inj (List.mem_singleton.1 hc)
      exact he.corridor_of_ok

/-- **The log explains the state after every run.** -/
theorem after_logged (cs : List Call) : Logged (history cs) (after cs) := by
  have := machine.run_induction (I := fun log s => s.Wf ∧ Logged log s) ⟨wf_new, logged_new⟩
    (fun log s c hi => ⟨hi.1.step c, hi.2.step hi.1 (step_effect s c)⟩) cs
  exact this.2

/-! ## Using a capability -/

/-- The step from `s` to `s'` acts on the corridor `o`: it changes what is stored for it. -/
def ActsOn (s s' : HostedRoot) (o : ObjectId) : Prop := s'.corridors.lookup o ≠ s.corridors.lookup o

theorem actsOn_requeued {o o' : ObjectId} {k : Corridor} {queue : List Payload} {e : TraceEvent}
    (hk : s.corridors.lookup o = some k) (hq : queue ≠ k.queue) :
    ActsOn s ((s.requeued o k queue).push e) o' ↔ o' = o := by
  unfold ActsOn
  rw [push_corridors]
  simp only [requeued, HashMap.lookup_insert_ite]
  split
  · rename_i he
    subst he
    rw [hk]
    refine iff_of_true (fun h => hq ?_) rfl
    exact congrArg Corridor.queue (Option.some.inj h)
  · rename_i he
    simp [he]

/-- No endpoint other than the caller is down exactly when all of them run. -/
theorem hasPeerDown_false {k : Corridor} {caller : CourtId} :
    k.hasPeerDown caller s.courts = false ↔
      ∀ e, e = k.endpoints.1 ∨ e = k.endpoints.2 → e ≠ caller → s.Running e := by
  simp only [Corridor.hasPeerDown, List.any_eq_false, List.mem_filter, List.mem_cons,
    List.not_mem_nil, or_false, bne_iff_ne, and_imp, Bool.not_eq_true]
  refine forall₃_congr fun e _ _ => ?_
  unfold Running
  cases h : s.courts.lookup e <;> simp

/-- What happened before a court may use `cap` with `right` on `o`: exactly this capability was
granted to exactly this court on this object with rights that cover `right`, nothing on its parent
chain was successfully revoked, and the court was never successfully faulted. -/
structure Authorized (cs : List Call) (court : CourtId) (cap : CapId) (right : Rights)
    (o : ObjectId) : Prop where
  granted : ∃ d rights, d.object = o ∧ rights.contains right = true ∧
    (.grantCorridorCap court d rights, .cap (.ok cap)) ∈ history cs ∧
    .capGranted court cap o rights ∈ (after cs).trace
  unrevoked : ∀ a, (after cs).capRegistry.ChainThrough a cap →
    (.revoke a, .unit (.ok ())) ∉ history cs
  unfaulted : (.faultCourt court, .unit (.ok ())) ∉ history cs

theorem not_faulted_of_running {cs : List Call} {court : CourtId} (h : (after cs).Running court) :
    (.faultCourt court, .unit (.ok ())) ∉ history cs := fun hf =>
  ((after_logged cs).fault court hf).not_running h

theorem authorized_of_permit {cs : List Call} {court : CourtId} {cap : CapId} {right : Rights}
    {o : ObjectId} (ha : (after cs).permit court cap right = .ok o) :
    Authorized cs court cap right o := by
  obtain ⟨hrun, hh, hauth⟩ := permit_ok.1 ha
  obtain ⟨k, hk, hlive, -, hr, rfl⟩ := CapRegistry.authorize_ok.1 hauth
  have hl := after_logged cs
  refine ⟨?_, fun a ha hrev => ?_, not_faulted_of_running hrun⟩
  · obtain ⟨d, rights, k', hmem, htrace, hk', ho, rfl⟩ := hl.grant court cap hh
    rw [hk] at hk'
    obtain rfl := Option.some.inj hk'
    exact ⟨d, k.rights, ho.symm, hr, hmem, ho ▸ htrace⟩
  · -- a revoked ancestor would have taken the capability down with it
    obtain ⟨k', hk', hdead⟩ := (after_wf cs).registry.revoked_below (hl.revoke a hrev) ha
    rw [hk] at hk'
    obtain rfl := Option.some.inj hk'
    rw [hlive] at hdead
    cases hdead

/-- **Authority safety.**  After any public calls `cs`, a `send` or `recv` that succeeds acts on
exactly one corridor, and its use of the capability there is authorized by what happened before.
For a `send`, neither endpoint of that corridor was ever faulted. -/
theorem authority_safety (cs : List Call) (court : CourtId) (cap : CapId) :
    (∀ payload, ((after cs).send court cap payload).1 = .ok () → ∃ o k,
      (∀ o', ActsOn (after cs) ((after cs).send court cap payload).2 o' ↔ o' = o) ∧
      Authorized cs court cap .SEND o ∧
      (after cs).corridors.lookup o = some k ∧
      (.faultCourt k.endpoints.1, .unit (.ok ())) ∉ history cs ∧
      (.faultCourt k.endpoints.2, .unit (.ok ())) ∉ history cs) ∧
    (∀ payload, ((after cs).recv court cap).1 = .ok payload → ∃ o,
      (∀ o', ActsOn (after cs) ((after cs).recv court cap).2 o' ↔ o' = o) ∧
      Authorized cs court cap .RECV o) := by
  constructor
  · intro payload hok
    have he := send_effect (s := after cs) court cap payload
    rw [hok] at he
    generalize ((after cs).send court cap payload).2 = s' at he ⊢
    cases he with
    | @sent _ _ _ o k ha hk hp _ =>
      have hrun := (permit_ok.1 ha).1
      have hend : ∀ e, e = k.endpoints.1 ∨ e = k.endpoints.2 → (after cs).Running e := by
        intro e he
        by_cases hc : e = court
        · exact hc ▸ hrun
        · exact hasPeerDown_false.1 hp e he hc
      refine ⟨o, k, fun o' => ?_, authorized_of_permit ha, hk, ?_, ?_⟩
      · exact actsOn_requeued hk (by simp)
      · exact not_faulted_of_running (hend _ (Or.inl rfl))
      · exact not_faulted_of_running (hend _ (Or.inr rfl))
  · intro payload hok
    have he := recv_effect (s := after cs) court cap
    rw [hok] at he
    generalize ((after cs).recv court cap).2 = s' at he ⊢
    cases he with
    | @received _ _ o k _ rest ha hk hq =>
      refine ⟨o, fun o' => ?_, authorized_of_permit ha⟩
      exact actsOn_requeued hk (by rw [hq]; simp)

/-- In the fixture `app` sends with its granted capability, and `net` then receives with its own. -/
theorem authority_safety_fixture :
    (((after grantedAppAndNet).send ⟨1⟩ ⟨2⟩ [1, 2, 3]).1 = .ok () ∧
      ∃ o, Authorized grantedAppAndNet ⟨1⟩ ⟨2⟩ .SEND o) ∧
    (((after (grantedAppAndNet ++ [.send ⟨1⟩ ⟨2⟩ [1, 2, 3]])).recv ⟨2⟩ ⟨3⟩).1 = .ok [1, 2, 3] ∧
      ∃ o, Authorized (grantedAppAndNet ++ [.send ⟨1⟩ ⟨2⟩ [1, 2, 3]]) ⟨2⟩ ⟨3⟩ .RECV o) := by
  have hsend : ((after grantedAppAndNet).send ⟨1⟩ ⟨2⟩ [1, 2, 3]).1 = .ok () := by decide
  have hrecv : ((after (grantedAppAndNet ++ [.send ⟨1⟩ ⟨2⟩ [1, 2, 3]])).recv ⟨2⟩ ⟨3⟩).1 =
      .ok [1, 2, 3] := by decide
  obtain ⟨o, -, -, ha, -⟩ := (authority_safety grantedAppAndNet ⟨1⟩ ⟨2⟩).1 _ hsend
  obtain ⟨o', -, ha'⟩ := (authority_safety (grantedAppAndNet ++ [_]) ⟨2⟩ ⟨3⟩).2 _ hrecv
  exact ⟨⟨hsend, o, ha⟩, hrecv, o', ha'⟩

end HostedRoot

end CourtKernel
