import CourtKernel.Hosted.Invariant

/-!
# Consequences of the representation invariant

The tables of the Root Court fit together (`HostedRoot.Wf`), so the checks of `open`, `send` and
`recv` agree.

* `Wf.corridor_of_permit` — whoever passes the checks of `send` or `recv` finds a corridor.
* `badCap_of_not_holds`, `holds_of_granted` — a capability of one court is no capability of another.
* `representation_invariant` — the invariant with these two consequences, after every run.
* `open_iff_permit` — `open` succeeds for exactly the descriptors of the object that `send` and
  `recv` would act on.
* `open_agrees_with_use` — so opening and using a capability agree, after every run.
-/

namespace CourtKernel

namespace HostedRoot

variable {s : HostedRoot}

/-! ## Checks -/

/-- A capability that passes the checks names an existing corridor. -/
theorem Wf.corridor_of_permit (h : s.Wf) {court : CourtId} {cap : CapId} {right : Rights}
    {o : ObjectId} (hp : s.permit court cap right = .ok o) :
    ∃ corridor, s.corridors.lookup o = some corridor := by
  obtain ⟨-, -, ha⟩ := permit_ok.1 hp
  obtain ⟨k, hk, -, -, -, rfl⟩ := CapRegistry.authorize_ok.1 ha
  have hroot : k.object ∈ s.rootCaps := by
    rcases h.origin cap k hk with hr | ⟨r, -, -, hr, -⟩ <;> exact Finmap.mem_of_lookup_eq_some hr
  rw [h.roots, ← h.corridors] at hroot
  exact Finmap.mem_iff.1 hroot

/-- `send` with the corridor it finds. -/
theorem Wf.send_cases (h : s.Wf) (court : CourtId) (cap : CapId) (payload : Payload) :
    (∃ e, s.permit court cap .SEND = .error e ∧ s.send court cap payload = (.error e, s)) ∨
      ∃ o k, s.permit court cap .SEND = .ok o ∧ s.corridors.lookup o = some k ∧
        ((k.hasPeerDown court s.courts = true ∧
            s.send court cap payload = (.error .peerDown, s.push (.peerDown court o))) ∨
          (k.queue.length ≥ k.capacity ∧ s.send court cap payload = (.error .queueFull, s)) ∨
          (k.queue.length < k.capacity ∧ s.send court cap payload =
            (.ok (), (s.requeued o k (k.queue ++ [payload])).push (.sent court o payload.length)))) := by
  unfold send
  cases hp : s.permit court cap .SEND with
  | error e => exact Or.inl ⟨e, rfl, rfl⟩
  | ok o =>
    obtain ⟨k, hk⟩ := h.corridor_of_permit hp
    refine Or.inr ⟨o, k, rfl, hk, ?_⟩
    simp only [hk]
    by_cases hd : k.hasPeerDown court s.courts = true
    · exact Or.inl ⟨hd, if_pos hd⟩
    · rw [if_neg hd]
      by_cases hl : k.queue.length ≥ k.capacity
      · exact Or.inr (Or.inl ⟨hl, if_pos hl⟩)
      · exact Or.inr (Or.inr ⟨by omega, if_neg hl⟩)

/-- `recv` with the corridor it finds. -/
theorem Wf.recv_cases (h : s.Wf) (court : CourtId) (cap : CapId) :
    (∃ e, s.permit court cap .RECV = .error e ∧ s.recv court cap = (.error e, s)) ∨
      ∃ o k, s.permit court cap .RECV = .ok o ∧ s.corridors.lookup o = some k ∧
        ((∃ payload rest, k.queue = payload :: rest ∧ s.recv court cap =
            (.ok payload, (s.requeued o k rest).push (.received court o payload.length))) ∨
          (k.queue = [] ∧ s.recv court cap = (.error .queueEmpty, s))) := by
  unfold recv
  cases hp : s.permit court cap .RECV with
  | error e => exact Or.inl ⟨e, rfl, rfl⟩
  | ok o =>
    obtain ⟨k, hk⟩ := h.corridor_of_permit hp
    refine Or.inr ⟨o, k, rfl, hk, ?_⟩
    simp only [hk]
    cases hq : k.queue with
    | nil => exact Or.inr ⟨rfl, rfl⟩
    | cons payload rest => exact Or.inl ⟨payload, rest, rfl, rfl⟩

/-- A running court that does not hold a capability cannot use it. -/
theorem badCap_of_not_holds {court : CourtId} {cap : CapId} (hr : s.Running court)
    (hh : ¬ s.Holds court cap) (d : Descriptor) (rights : Rights) (payload : Payload) :
    (s.open court d (some cap) rights).1 = .error .badCap ∧
      (s.send court cap payload).1 = .error .badCap ∧ (s.recv court cap).1 = .error .badCap := by
  have hc : s.cspaceContains court cap = false := by
    rw [Bool.eq_false_iff, Ne, cspaceContains_iff]
    exact hh
  have hp : ∀ right, s.permit court cap right = .error .badCap := fun right => by
    simp [permit, requireRunningCourt_ok.2 hr, hc]
  refine ⟨?_, ?_, ?_⟩
  · simp [HostedRoot.open, requireRunningCourt_ok.2 hr, hc]
  · simp [send, hp]
  · simp [recv, hp]

/-- A court that does not run cannot use anything. -/
theorem invalidState_of_not_running {court : CourtId} (hr : ¬ s.Running court) (cap : CapId)
    (d : Descriptor) (rights : Rights) (payload : Payload) :
    (s.open court d (some cap) rights).1 = .error .invalidState ∧
      (s.send court cap payload).1 = .error .invalidState ∧
      (s.recv court cap).1 = .error .invalidState := by
  have hrun := requireRunningCourt_of_not hr
  refine ⟨?_, ?_, ?_⟩
  · simp [HostedRoot.open, hrun]
  · simp [send, permit, hrun]
  · simp [recv, permit, hrun]

/-- What a grant leaves behind for good. -/
theorem holds_of_granted {cs : List Call} {court : CourtId} {d : Descriptor} {rights : Rights}
    {cap : CapId} (h : (.grantCorridorCap court d rights, .cap (.ok cap)) ∈ history cs) :
    (after cs).Holds court cap := by
  obtain ⟨pre, post, rfl, hreply⟩ := machine.mem_log h
  have heffect := step_effect (after pre) (.grantCorridorCap court d rights)
  have hwf := (after_wf pre).step (.grantCorridorCap court d rights)
  show (machine.run new (pre ++ _ :: post)).Holds court cap
  rw [machine.run_append, Machine.run_cons]
  refine (hwf.persists_run post).holds court cap ?_
  rw [hreply] at heffect
  generalize (machine.step (after pre) (.grantCorridorCap court d rights)).2 = s' at heffect
  cases heffect with
  | @granted _ _ _ _ _ g => exact (holds_capAdded (g := g)).2 (Or.inl ⟨rfl, rfl⟩)

/-! ## The invariant -/

/-- **The representation invariant**, after every sequence of public calls, with its consequences
for `open`, `send` and `recv`. -/
theorem representation_invariant (cs : List Call) :
    let s := after cs
    (∀ c, c ∈ s.cspaces ↔ c ∈ s.courts) ∧
    (∀ o, o ∈ s.corridors ↔ 1 ≤ o.raw ∧ o.raw ≤ s.nextObject) ∧
    (∀ o, o ∈ s.rootCaps ↔ 1 ≤ o.raw ∧ o.raw ≤ s.nextObject) ∧
    (∀ o o' c, s.rootCaps.lookup o = some c → s.rootCaps.lookup o' = some c → o = o') ∧
    (∀ o c, s.rootCaps.lookup o = some c →
      (∃ k, s.capRegistry.caps.lookup c = some k ∧ k.object = o ∧ k.parent = none ∧
        k.rights = .SEND ||| .RECV ||| .OBSERVE ||| .DELEGATE ||| .REVOKE) ∧
      ∀ court, ¬ s.Holds court c) ∧
    (∀ c k, s.capRegistry.caps.lookup c = some k → (∀ o, s.rootCaps.lookup o ≠ some c) →
      (∃ r, k.parent = some r ∧ s.rootCaps.lookup k.object = some r) ∧ ∃! court, s.Holds court c) ∧
    (∀ p d, s.nameSpace.lookup p = some d → d.path = p ∧ d.object ∈ s.corridors) ∧
    (∀ court cap right o, s.permit court cap right = .ok o → o ∈ s.corridors) ∧
    (∀ court cap payload, (s.send court cap payload).1 ≠ .error .invalidObject ∧
      (s.recv court cap).1 ≠ .error .invalidObject) ∧
    ∀ court d rights cap, (.grantCorridorCap court d rights, .cap (.ok cap)) ∈ history cs →
      ∀ other, other ≠ court → ∀ d' rights' payload,
        (s.Running other → (s.open other d' (some cap) rights').1 = .error .badCap ∧
          (s.send other cap payload).1 = .error .badCap ∧
          (s.recv other cap).1 = .error .badCap) ∧
        (¬ s.Running other → (s.open other d' (some cap) rights').1 = .error .invalidState ∧
          (s.send other cap payload).1 = .error .invalidState ∧
          (s.recv other cap).1 = .error .invalidState) := by
  intro s
  have h : s.Wf := after_wf cs
  refine ⟨h.cspaces, h.corridors, h.roots, fun o o' c ho ho' => ?_, fun o c ho => ?_,
    fun c k hk hroot => ?_, fun p d hd => ?_, fun court cap right o hp => ?_,
    fun court cap payload => ⟨fun he => ?_, fun he => ?_⟩,
    fun court d rights cap hg other hne d' rights' payload => ⟨fun hrun => ?_, fun hrun => ?_⟩⟩
  · obtain ⟨k, hk, rfl, -⟩ := h.root o c ho
    obtain ⟨k', hk', rfl, -⟩ := h.root o' c ho'
    rw [hk] at hk'
    rw [Option.some.inj hk']
  · obtain ⟨k, hk, hobj, -, hrights, hparent⟩ := h.root o c ho
    exact ⟨⟨k, hk, hobj, hparent, hrights⟩, h.unheld o c ho⟩
  · rcases h.origin c k hk with hr | ⟨r, court, hparent, hr, hh⟩
    · exact absurd hr (hroot k.object)
    · exact ⟨⟨r, hparent, hr⟩, court, hh, fun court' hh' => h.unique c court' court hh' hh⟩
  · obtain ⟨hpath, -, hobj⟩ := h.names p d hd
    exact ⟨hpath, hobj⟩
  · exact Finmap.mem_iff.2 (h.corridor_of_permit hp)
  · rcases h.send_cases court cap payload with ⟨e, hp, hs⟩ | ⟨o, k, -, -, hs⟩
    · rw [hs] at he
      obtain rfl := Except.error.inj he
      exact absurd (permit_error_mem hp) (by decide)
    · rcases hs with ⟨-, hs⟩ | ⟨-, hs⟩ | ⟨-, hs⟩ <;> rw [hs] at he <;> cases he
  · rcases h.recv_cases court cap with ⟨e, hp, hs⟩ | ⟨o, k, -, -, hs⟩
    · rw [hs] at he
      obtain rfl := Except.error.inj he
      exact absurd (permit_error_mem hp) (by decide)
    · rcases hs with ⟨_, _, -, hs⟩ | ⟨-, hs⟩ <;> rw [hs] at he <;> cases he
  · have hh : ¬ s.Holds other cap := fun hh => hne (h.unique cap other court hh (holds_of_granted hg))
    exact badCap_of_not_holds hrun hh d' rights' payload
  · exact invalidState_of_not_running hrun cap d' rights' payload

/-- A court that was marked as faulted is turned away before its capability is looked at. -/
theorem foreign_cap_of_faulted_court :
    (.grantCorridorCap ⟨1⟩ packetRx (.SEND ||| .OBSERVE), .cap (.ok ⟨2⟩)) ∈
        history (grantedAppAndNet ++ [.faultCourt ⟨2⟩]) ∧
      ((after (grantedAppAndNet ++ [.faultCourt ⟨2⟩])).open ⟨2⟩ packetRx (some ⟨2⟩) .SEND).1 =
        .error .invalidState ∧
      ((after (grantedAppAndNet ++ [.faultCourt ⟨2⟩])).send ⟨2⟩ ⟨2⟩ []).1 = .error .invalidState ∧
      ((after (grantedAppAndNet ++ [.faultCourt ⟨2⟩])).recv ⟨2⟩ ⟨2⟩).1 = .error .invalidState := by
  refine ⟨by decide, by decide, by decide, by decide⟩

/-! ## Opening and using -/

/-- `open` asks for what `send` and `recv` ask for, and for the object of the descriptor. -/
theorem open_iff_permit {court : CourtId} {d : Descriptor} {cap : CapId} {right : Rights} :
    (s.open court d (some cap) right).1 = .ok cap ↔ s.permit court cap right = .ok d.object := by
  rw [permit_ok]
  constructor
  · intro h
    obtain ⟨-, hr, hh, ha⟩ := open_ok h
    exact ⟨hr, hh, by cases ht : d.objectType; rw [← ht]; exact ha⟩
  · rintro ⟨hr, hh, ha⟩
    have ht : d.objectType = .corridor := by cases d.objectType; rfl
    simp [HostedRoot.open, requireRunningCourt_ok.2 hr, cspaceContains_iff.2 hh, ht, ha]

/-- The object a capability is for. -/
def Names (s : HostedRoot) (cap : CapId) (o : ObjectId) : Prop :=
  ∃ k, s.capRegistry.caps.lookup cap = some k ∧ k.object = o

theorem names_of_permit {court : CourtId} {cap : CapId} {right : Rights} {o o' : ObjectId}
    (hp : s.permit court cap right = .ok o) : s.Names cap o' ↔ o' = o := by
  obtain ⟨-, -, ha⟩ := permit_ok.1 hp
  obtain ⟨k, hk, -, -, -, rfl⟩ := CapRegistry.authorize_ok.1 ha
  unfold Names
  simp only [hk, Option.some.injEq, exists_eq_left']
  exact eq_comm

/-- `send` passes authorization and acts on the corridor `o`. -/
def SendsOn (s : HostedRoot) (court : CourtId) (cap : CapId) (payload : Payload) (o : ObjectId) :
    Prop :=
  s.Names cap o ∧ ∃ k, s.corridors.lookup o = some k ∧
    (s.send court cap payload =
        (.ok (), (s.requeued o k (k.queue ++ [payload])).push (.sent court o payload.length)) ∨
      s.send court cap payload = (.error .peerDown, s.push (.peerDown court o)) ∨
      s.send court cap payload = (.error .queueFull, s))

/-- `recv` passes authorization and acts on the corridor `o`. -/
def ReceivesOn (s : HostedRoot) (court : CourtId) (cap : CapId) (o : ObjectId) : Prop :=
  s.Names cap o ∧ ∃ k, s.corridors.lookup o = some k ∧
    ((∃ payload rest, k.queue = payload :: rest ∧ s.recv court cap =
        (.ok payload, (s.requeued o k rest).push (.received court o payload.length))) ∨
      s.recv court cap = (.error .queueEmpty, s))

theorem Wf.sendsOn_iff (h : s.Wf) {court : CourtId} {cap : CapId} {payload : Payload} {o : ObjectId} :
    s.SendsOn court cap payload o ↔ s.permit court cap .SEND = .ok o := by
  unfold SendsOn
  rcases h.send_cases court cap payload with ⟨e, hp, hs⟩ | ⟨o', k, hp, hk, hs⟩
  · rw [hp]
    refine ⟨?_, fun he => by cases he⟩
    rintro ⟨-, k, -, hsend⟩
    have hmem := permit_error_mem hp
    rcases hsend with hsend | hsend | hsend <;> rw [hs] at hsend
    · cases (Prod.mk.inj hsend).1
    · obtain rfl := Except.error.inj (Prod.mk.inj hsend).1
      exact absurd hmem (by decide)
    · obtain rfl := Except.error.inj (Prod.mk.inj hsend).1
      exact absurd hmem (by decide)
  · rw [hp, names_of_permit hp, Except.ok.injEq]
    refine ⟨fun hsend => hsend.1.symm, ?_⟩
    rintro rfl
    refine ⟨rfl, k, hk, ?_⟩
    rcases hs with ⟨-, hs⟩ | ⟨-, hs⟩ | ⟨-, hs⟩
    · exact Or.inr (Or.inl hs)
    · exact Or.inr (Or.inr hs)
    · exact Or.inl hs

theorem Wf.receivesOn_iff (h : s.Wf) {court : CourtId} {cap : CapId} {o : ObjectId} :
    s.ReceivesOn court cap o ↔ s.permit court cap .RECV = .ok o := by
  unfold ReceivesOn
  rcases h.recv_cases court cap with ⟨e, hp, hs⟩ | ⟨o', k, hp, hk, hs⟩
  · rw [hp]
    refine ⟨?_, fun he => by cases he⟩
    rintro ⟨-, k, -, hrecv⟩
    have hmem := permit_error_mem hp
    rcases hrecv with ⟨_, _, -, hrecv⟩ | hrecv <;> rw [hs] at hrecv
    · cases (Prod.mk.inj hrecv).1
    · obtain rfl := Except.error.inj (Prod.mk.inj hrecv).1
      exact absurd hmem (by decide)
  · rw [hp, names_of_permit hp, Except.ok.injEq]
    refine ⟨fun hrecv => hrecv.1.symm, ?_⟩
    rintro rfl
    refine ⟨rfl, k, hk, ?_⟩
    rcases hs with hs | ⟨-, hs⟩
    · exact Or.inl hs
    · exact Or.inr hs

/-- `open` looks at the object of a descriptor only. -/
theorem permit_iff_forall_open {court : CourtId} {cap : CapId} {right : Rights} {o : ObjectId} :
    s.permit court cap right = .ok o ↔
      ∀ d : Descriptor, d.object = o → (s.open court d (some cap) right).1 = .ok cap := by
  constructor
  · rintro hp d rfl
    exact open_iff_permit.2 hp
  · intro h
    exact open_iff_permit.1 (h ⟨"", o, .corridor, .controlChannel⟩ rfl)

/-- **Opening and using agree**, after every sequence of public calls.  A descriptor of another
object never opens. -/
theorem open_agrees_with_use (cs : List Call) (court : CourtId) (cap : CapId) (o : ObjectId) :
    let s := after cs
    (∀ payload, s.SendsOn court cap payload o ↔
      ∀ d : Descriptor, d.object = o → (s.open court d (some cap) .SEND).1 = .ok cap) ∧
    (s.ReceivesOn court cap o ↔
      ∀ d : Descriptor, d.object = o → (s.open court d (some cap) .RECV).1 = .ok cap) ∧
    ∀ (d : Descriptor) rights, s.Names cap o → d.object ≠ o →
      (s.open court d (some cap) rights).1 ≠ .ok cap := by
  intro s
  have h : s.Wf := after_wf cs
  refine ⟨fun payload => ?_, ?_, fun d rights hn hne hopen => ?_⟩
  · rw [h.sendsOn_iff, permit_iff_forall_open]
  · rw [h.receivesOn_iff, permit_iff_forall_open]
  · exact hne ((names_of_permit (open_iff_permit.1 hopen)).1 hn).symm

end HostedRoot

end CourtKernel
