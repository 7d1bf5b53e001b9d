import CourtKernel.Hosted.Invariant
import CourtKernel.Linux.Window

/-!
# A link, and its two implementations

What a corridor between one sender and one receiver is for, without courts, capabilities or shared
memory: a bounded queue, and for each side whether its capability was revoked and whether it is
down.  A send or a receive first passes a *gate*, then looks at the queue.

The hosted model and the shared-memory ring both implement links.  They differ in the gate only:

* `modelGate` — a revoked capability is noticed first, and only a sender looks at its peer;
* `ringGate` — both sides look at their peer first, and at their own capability next.

## Results

* `Models u root l` — corridor, courts and capabilities of the hosted root are the link `l`;
  `Models.send`, `Models.recv`, `Models.revoke`, `Models.crash`.
* `Carries ring endpoint l P C` — a ring with its two endpoint states is the link `l`;
  `Carries.send`, `Carries.recv`, `Carries.revoke`, `Carries.crash`.
-/

namespace CourtKernel

/-- The two users of a link. -/
inductive Side where
  | producer
  | consumer
  deriving DecidableEq, Repr

def Side.peer : Side → Side
  | .producer => .consumer
  | .consumer => .producer

/-- Why a gate is closed. -/
inductive Refusal where
  | revoked
  | peerDown
  deriving DecidableEq, Repr

/-- What a send or a receive comes to. -/
inductive Verdict (α : Type) where
  | done (result : α)
  /-- the queue is full, or empty -/
  | unready
  | refused (reason : Refusal)
  deriving DecidableEq, Repr

structure Link where
  capacity : Nat
  queue : List Payload
  revoked : Side → Bool
  down : Side → Bool

namespace Link

def send (gate : Link → Side → Option Refusal) (l : Link) (payload : Payload) :
    Verdict Unit × Link :=
  match gate l .producer with
  | some reason => (.refused reason, l)
  | none =>
    if l.queue.length ≥ l.capacity then (.unready, l)
    else (.done (), { l with queue := l.queue ++ [payload] })

def recv (gate : Link → Side → Option Refusal) (l : Link) : Verdict Payload × Link :=
  match gate l .consumer with
  | some reason => (.refused reason, l)
  | none =>
    match l.queue with
    | [] => (.unready, l)
    | payload :: rest => (.done payload, { l with queue := rest })

def revoke (l : Link) (side : Side) : Link :=
  { l with revoked := fun x => if x = side then true else l.revoked x }

def crash (l : Link) (side : Side) : Link :=
  { l with down := fun x => if x = side then true else l.down x }

/-- The order of checks of `HostedRoot::send` and `HostedRoot::recv`. -/
def modelGate (l : Link) : Side → Option Refusal
  | .producer =>
    if l.revoked .producer then some .revoked
    else if l.down .consumer then some .peerDown
    else none
  | .consumer => if l.revoked .consumer then some .revoked else none

/-- The order of checks of `EndpointState::status`. -/
def ringGate (l : Link) (side : Side) : Option Refusal :=
  if l.down side.peer then some .peerDown
  else if l.revoked side then some .revoked
  else none

end Link

/-! ## Verdicts in the words of the two implementations -/

def Verdict.modelSend : Verdict Unit → CkResult Unit
  | .done () => .ok ()
  | .unready => .error .queueFull
  | .refused .revoked => .error .revoked
  | .refused .peerDown => .error .peerDown

def Verdict.modelRecv : Verdict Payload → CkResult Payload
  | .done payload => .ok payload
  | .unready => .error .queueEmpty
  | .refused .revoked => .error .revoked
  | .refused .peerDown => .error .peerDown

def Verdict.ringSend : Verdict Unit → Except WireStatus Unit
  | .done () => .ok ()
  | .unready => .error .queueFull
  | .refused .revoked => .error .revoked
  | .refused .peerDown => .error .peerDown

def Verdict.ringRecv : Verdict Payload → Except WireStatus (Option Payload)
  | .done payload => .ok (some payload)
  | .unready => .ok none
  | .refused .revoked => .error .revoked
  | .refused .peerDown => .error .peerDown

/-! ## The corridor as a link -/

/-- Who uses a corridor: the court of each side and the capability it holds. -/
structure Users where
  object : ObjectId
  court : Side → CourtId
  cap : Side → CapId

/-- The right a side needs. -/
def Side.right : Side → Rights
  | .producer => .SEND
  | .consumer => .RECV

/-- The corridor `u.object` of the hosted root, used by `u`, is the link `l`. -/
structure Models (u : Users) (root : HostedRoot) (l : Link) : Prop where
  wf : root.Wf
  distinct : u.court .producer ≠ u.court .consumer
  court : ∀ side, ∃ entry, root.courts.lookup (u.court side) = some entry ∧
    (entry.state != .running) = l.down side
  holds : ∀ side, root.Holds (u.court side) (u.cap side)
  cap : ∀ side, ∃ k, root.capRegistry.caps.lookup (u.cap side) = some k ∧ k.object = u.object ∧
    k.objectType = .corridor ∧ k.rights.contains side.right = true ∧ k.revoked = l.revoked side
  corridor : ∃ endpoints, root.corridors.lookup u.object = some ⟨endpoints, l.queue, l.capacity⟩ ∧
    (endpoints = (u.court .producer, u.court .consumer) ∨
      endpoints = (u.court .consumer, u.court .producer))

namespace Models

variable {u : Users} {root : HostedRoot} {l : Link}

theorem running (h : Models u root l) {side : Side} :
    root.Running (u.court side) ↔ l.down side = false := by
  obtain ⟨entry, hentry, hdown⟩ := h.court side
  rw [← hdown, bne_eq_false_iff_eq]
  constructor
  · rintro ⟨entry', hentry', hrun⟩
    rw [hentry] at hentry'
    obtain rfl := Option.some.inj hentry'
    exact hrun
  · intro hrun
    exact ⟨entry, hentry, hrun⟩

/-- The checks before the corridor is looked up. -/
theorem permit (h : Models u root l) (side : Side) (hup : l.down side = false) :
    root.permit (u.court side) (u.cap side) side.right =
      if l.revoked side then .error .revoked else .ok u.object := by
  obtain ⟨k, hk, hobj, htype, hright, hrev⟩ := h.cap side
  have hrun := HostedRoot.requireRunningCourt_ok.2 (h.running.2 hup)
  have hheld := HostedRoot.cspaceContains_iff.2 (h.holds side)
  simp only [HostedRoot.permit, hrun, hheld, Bool.not_true, Bool.false_eq_true, if_false]
  split
  · rename_i hr
    exact CapRegistry.authorize_revoked ⟨k, hk, hrev.trans hr⟩ _ _
  · rename_i hr
    rw [CapRegistry.authorize_ok]
    exact ⟨k, hk, hrev.trans (by simpa using hr), htype, hright, hobj⟩

/-- `has_peer_down` looks at the other side. -/
theorem hasPeerDown (h : Models u root l) (side : Side) {k : Corridor}
    (hk : k.endpoints = (u.court .producer, u.court .consumer) ∨
      k.endpoints = (u.court .consumer, u.court .producer)) :
    k.hasPeerDown (u.court side) root.courts = l.down side.peer := by
  obtain ⟨entry, hentry, hdown⟩ := h.court side.peer
  have hne := h.distinct
  have hothers : [k.endpoints.1, k.endpoints.2].filter (fun court => court != u.court side) =
      [u.court side.peer] := by
    rcases hk with hk | hk <;> cases side <;> simp [hk, Side.peer, hne, hne.symm]
  rw [Corridor.hasPeerDown, hothers, List.any_cons, List.any_nil, Bool.or_false, hentry]
  exact hdown

theorem push (h : Models u root l) (e : TraceEvent) : Models u (root.push e) l :=
  ⟨h.wf.push e, h.distinct, h.court, h.holds, h.cap, h.corridor⟩

theorem requeued (h : Models u root l) {k : Corridor} (hk : root.corridors.lookup u.object = some k)
    (queue : List Payload) : Models u (root.requeued u.object k queue) { l with queue := queue } := by
  obtain ⟨endpoints, hlookup, hends⟩ := h.corridor
  rw [hk] at hlookup
  obtain rfl := Option.some.inj hlookup
  refine ⟨h.wf.requeued hk queue, h.distinct, h.court, h.holds, h.cap, endpoints, ?_, hends⟩
  exact Finmap.lookup_insert _

/-- **`HostedRoot::send` is a send on the link, behind the model's gate.** -/
theorem send (h : Models u root l) (hup : l.down .producer = false) (payload : Payload) :
    let r := root.send (u.court .producer) (u.cap .producer) payload
    let v := l.send Link.modelGate payload
    r.1 = v.1.modelSend ∧ Models u r.2 v.2 := by
  obtain ⟨endpoints, hlookup, hends⟩ := h.corridor
  have hpermit : root.permit (u.court .producer) (u.cap .producer) .SEND =
      if l.revoked .producer then .error .revoked else .ok u.object := h.permit .producer hup
  have hpeer : Corridor.hasPeerDown ⟨endpoints, l.queue, l.capacity⟩ (u.court .producer)
      root.courts = l.down .consumer := h.hasPeerDown .producer hends
  unfold HostedRoot.send Link.send Link.modelGate
  rw [hpermit]
  by_cases hrev : l.revoked .producer = true
  · simp only [hrev, if_true]
    exact ⟨rfl, h⟩
  simp only [hrev, Bool.false_eq_true, if_false, hlookup, hpeer]
  by_cases hdown : l.down .consumer = true
  · simp only [hdown, if_true]
    exact ⟨rfl, h.push _⟩
  simp only [hdown, Bool.false_eq_true, if_false]
  by_cases hfull : l.queue.length ≥ l.capacity
  · simp only [if_pos hfull]
    exact ⟨rfl, h⟩
  · simp only [if_neg hfull]
    exact ⟨rfl, (h.requeued hlookup _).push _⟩

/-- **`HostedRoot::recv` is a receive on the link, behind the model's gate.** -/
theorem recv (h : Models u root l) (hup : l.down .consumer = false) :
    let r := root.recv (u.court .consumer) (u.cap .consumer)
    let v := l.recv Link.modelGate
    r.1 = v.1.modelRecv ∧ Models u r.2 v.2 := by
  obtain ⟨endpoints, hlookup, hends⟩ := h.corridor
  have hpermit : root.permit (u.court .consumer) (u.cap .consumer) .RECV =
      if l.revoked .consumer then .error .revoked else .ok u.object := h.permit .consumer hup
  unfold HostedRoot.recv Link.recv Link.modelGate
  rw [hpermit]
  by_cases hrev : l.revoked .consumer = true
  · simp only [hrev, if_true]
    exact ⟨rfl, h⟩
  simp only [hrev, Bool.false_eq_true, if_false, hlookup]
  cases hq : l.queue with
  | nil => exact ⟨rfl, h⟩
  | cons payload rest => exact ⟨rfl, (h.requeued hlookup rest).push _⟩

theorem court_ne (h : Models u root l) {side side' : Side} (hne : side' ≠ side) :
    u.court side' ≠ u.court side := by
  have hdistinct := h.distinct
  cases side <;> cases side' <;> simp_all [eq_comm]

/-- Capabilities in two capability spaces are on different branches of the derivation tree: the
parent of each is a root capability, which no court holds. -/
theorem not_chain (h : Models u root l) {side side' : Side} (hne : side' ≠ side) :
    ¬ root.capRegistry.ChainThrough (u.cap side) (u.cap side') := by
  intro hchain
  generalize hd : u.cap side' = d at hchain
  cases hchain with
  | refl => exact h.court_ne hne (h.wf.unique _ _ _ (hd ▸ h.holds side') (h.holds side))
  | @up _ p hp hrest =>
    subst hd
    obtain ⟨k, hk, hparent⟩ := CapRegistry.parentOf_eq_some.1 hp
    have hroot : root.rootCaps.lookup k.object = some p := by
      rcases h.wf.origin _ k hk with hr | ⟨r, -, hr, hroot, -⟩
      · exact absurd (h.holds side') (h.wf.unheld _ _ hr _)
      · rw [hparent] at hr
        obtain rfl := Option.some.inj hr
        exact hroot
    cases hrest with
    | refl => exact h.wf.unheld _ _ hroot _ (h.holds side)
    | up hpp _ =>
      obtain ⟨k', hk', hparent'⟩ := CapRegistry.parentOf_eq_some.1 hpp
      obtain ⟨k₀, hk₀, -, -, -, hnone⟩ := h.wf.root _ _ hroot
      rw [hk'] at hk₀
      obtain rfl := Option.some.inj hk₀
      rw [hnone] at hparent'
      cases hparent'

theorem revoke (h : Models u root l) (side : Side) :
    Models u (root.revoke (u.cap side)).2 (l.revoke side) := by
  obtain ⟨k, hk, -⟩ := h.cap side
  have hreg := Finmap.mem_of_lookup_eq_some hk
  obtain ⟨-, hm⟩ := CapRegistry.revoke_spec h.wf.registry hreg
  rw [HostedRoot.revoke_eq hreg]
  suffices hm : Models u (root.subtreeRevoked (u.cap side)) (l.revoke side) from hm.push _
  refine ⟨h.wf.subtreeRevoked hreg, h.distinct, h.court, h.holds, fun side' => ?_, h.corridor⟩
  obtain ⟨k', hk', hobj, htype, hright, hrev⟩ := h.cap side'
  by_cases hs : side' = side
  · subst hs
    refine ⟨{ k' with revoked := true }, ?_, hobj, htype, hright, ?_⟩
    · rw [HostedRoot.subtreeRevoked_capRegistry, hm.below _ .refl, hk']
      rfl
    · exact (if_pos rfl).symm
  · refine ⟨k', ?_, hobj, htype, hright, ?_⟩
    · rw [HostedRoot.subtreeRevoked_capRegistry, hm.other _ (h.not_chain hs), hk']
    · exact hrev.trans (if_neg hs).symm

theorem crash (h : Models u root l) (side : Side) :
    Models u (root.faultCourt (u.court side)).2 (l.crash side) := by
  obtain ⟨entry, hentry, -⟩ := h.court side
  have hstate : (root.faultCourt (u.court side)).2 =
      (root.courtDown (u.court side) entry).push (.courtFaulted (u.court side)) := by
    simp only [HostedRoot.faultCourt, hentry]
    rfl
  rw [hstate]
  suffices hm : Models u (root.courtDown (u.court side) entry) (l.crash side) from hm.push _
  refine ⟨h.wf.courtDown hentry, h.distinct, fun side' => ?_, h.holds, h.cap, h.corridor⟩
  by_cases hs : side' = side
  · subst hs
    exact ⟨{ entry with state := .faulted }, Finmap.lookup_insert _, (if_pos rfl).symm⟩
  · obtain ⟨entry', hentry', hdown⟩ := h.court side'
    refine ⟨entry', ?_, hdown.trans (if_neg hs).symm⟩
    exact (Finmap.lookup_insert_of_ne _ (h.court_ne hs)).trans hentry'

end Models

/-! ## The ring as a link -/

/-- A ring with `P` messages published and `C` consumed, and the endpoint states of its two users,
is the link `l`. -/
structure Carries (ring : SharedRing) (endpoint : Side → EndpointState) (l : Link) (P C : Nat) :
    Prop where
  window : ring.Window P C
  contents : ring.contents P C = l.queue
  capacity : ring.header.capacity.toNat = l.capacity
  positive : 0 < l.capacity
  revoked : ∀ side, (endpoint side).revoked = l.revoked side
  peerDown : ∀ side, (endpoint side).peerDown = l.down side.peer

namespace Carries

variable {ring : SharedRing} {endpoint : Side → EndpointState} {l : Link} {P C : Nat}

theorem status (h : Carries ring endpoint l P C) (side : Side) :
    (endpoint side).status = match l.ringGate side with
      | none => .ok
      | some .revoked => .revoked
      | some .peerDown => .peerDown := by
  rw [EndpointState.status, h.revoked, h.peerDown, Link.ringGate]
  cases l.down side.peer <;> cases l.revoked side <;> rfl

theorem capacity_ne_zero (h : Carries ring endpoint l P C) :
    ring.header.capacity.toUInt64 ≠ 0 := by
  refine SharedRing.divisor_ne_zero ?_
  rw [h.capacity]
  exact Nat.ne_of_gt h.positive

theorem length_queue (h : Carries ring endpoint l P C) : l.queue.length = P - C := by
  rw [← h.contents, SharedRing.length_contents]

/-- **`SharedRing::send` is a send on the link, behind the ring's gate.** -/
theorem send (h : Carries ring endpoint l P C) (hs : Steady ring.header.capacity.toNat (P + 1))
    {payload : Payload} (hlen : payload.length ≤ ring.header.slotSize.toNat) :
    let v := l.send Link.ringGate payload
    ∃ ring' P', ring.send (endpoint .producer) payload = some (v.1.ringSend, ring') ∧
      Carries ring' endpoint v.2 P' C ∧ P' ≤ P + 1 ∧
      ring'.header.slotSize = ring.header.slotSize := by
  dsimp only
  unfold SharedRing.send Link.send
  rw [h.status .producer]
  cases hgate : l.ringGate .producer with
  | some reason => cases reason <;> exact ⟨ring, P, rfl, h, Nat.le_succ P, rfl⟩
  | none =>
    have hslot := ring.header.slotSize.toNat_lt
    have hcap := h.capacity
    have hqueue := h.length_queue
    have hle := h.window.le
    have hroom := h.window.room
    have hfull := SharedRing.full_iff h.window.producer h.window.consumer hle hroom
    have hrem : SharedRing.rem ring.header.producer ring.header.capacity.toUInt64 = some _ :=
      SharedRing.rem_eq_some.2 ⟨h.capacity_ne_zero, rfl⟩
    simp only [ne_eq, not_true_eq_false, if_false, if_neg (Nat.not_lt.2 hlen), hrem]
    by_cases hq : l.queue.length ≥ l.capacity
    · rw [if_pos (hfull.2 (by omega)), if_pos hq]
      exact ⟨ring, P, rfl, h, Nat.le_succ P, rfl⟩
    · rw [if_neg (fun hge => hq (by have := hfull.1 hge; omega)), if_neg hq, if_neg (by omega)]
      obtain ⟨hw, hc⟩ := h.window.append hs (by omega) hlen
      rw [h.contents] at hc
      refine ⟨_, P + 1, ?_, ⟨hw, hc, h.capacity, h.positive, h.revoked, h.peerDown⟩,
        Nat.le_refl _, rfl⟩
      rw [SharedRing.slotPtr_eq_slotOf h.window.producer]
      rw [write_len_payload]
      rfl

/-- **`SharedRing::recv` is a receive on the link, behind the ring's gate.** -/
theorem recv (h : Carries ring endpoint l P C) :
    let v := l.recv Link.ringGate
    ∃ ring' C', ring.recv (endpoint .consumer) = some (v.1.ringRecv, ring') ∧
      Carries ring' endpoint v.2 P C' ∧ ring'.header.slotSize = ring.header.slotSize := by
  dsimp only
  unfold SharedRing.recv Link.recv
  rw [h.status .consumer]
  cases hgate : l.ringGate .consumer with
  | some reason => cases reason <;> exact ⟨ring, C, rfl, h, rfl⟩
  | none =>
    have hqueue := h.length_queue
    have hle := h.window.le
    have hempty := ring.empty_iff h.window.consumer h.window.producer hle h.window.room
    have hrem : SharedRing.rem ring.header.consumer ring.header.capacity.toUInt64 = some _ :=
      SharedRing.rem_eq_some.2 ⟨h.capacity_ne_zero, rfl⟩
    simp only [ne_eq, not_true_eq_false, if_false, hrem]
    cases hq : l.queue with
    | nil =>
      rw [hq, List.length_nil] at hqueue
      rw [if_pos (hempty.2 (by omega))]
      exact ⟨ring, C, rfl, h, rfl⟩
    | cons payload rest =>
      rw [hq, List.length_cons] at hqueue
      have hlt : C < P := by omega
      rw [if_neg (fun he => by have := hempty.1 he; omega),
        SharedRing.slotPtr_eq_slotOf h.window.consumer]
      have hlens : leVal (ring.bytes.read (ring.slotOf C) LEN_SIZE) ≤ ring.header.slotSize.toNat :=
        h.window.lens C (Nat.le_refl C) hlt
      rw [if_neg (Nat.not_lt.2 hlens)]
      obtain ⟨hw, hc⟩ := h.window.consume hlt
      rw [h.contents, hq] at hc
      obtain ⟨hpay, hrest⟩ := List.cons.inj hc
      refine ⟨_, C + 1, ?_, ⟨hw, hrest.symm, h.capacity, h.positive, h.revoked, h.peerDown⟩, rfl⟩
      rw [hpay]
      rfl

theorem revoke (h : Carries ring endpoint l P C) (side : Side) :
    Carries ring (fun x => if x = side then (endpoint x).markRevoked else endpoint x)
      (l.revoke side) P C := by
  refine ⟨h.window, h.contents, h.capacity, h.positive, fun x => ?_, fun x => ?_⟩
  · dsimp only [Link.revoke]
    split
    · rfl
    · exact h.revoked x
  · split
    · exact h.peerDown x
    · exact h.peerDown x

theorem crash (h : Carries ring endpoint l P C) (side : Side) :
    Carries ring (fun x => if x = side.peer then (endpoint x).markPeerDown else endpoint x)
      (l.crash side) P C := by
  refine ⟨h.window, h.contents, h.capacity, h.positive, fun x => ?_, fun x => ?_⟩
  · split
    · exact h.revoked x
    · exact h.revoked x
  · have hpeer : x = side.peer ↔ x.peer = side := by cases x <;> cases side <;> simp [Side.peer]
    dsimp only [Link.crash]
    by_cases hx : x = side.peer
    · rw [if_pos hx, if_pos (hpeer.1 hx)]
      rfl
    · rw [if_neg hx, if_neg (fun he => hx (hpeer.2 he))]
      exact h.peerDown x

end Carries

end CourtKernel
