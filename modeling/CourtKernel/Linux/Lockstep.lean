import CourtKernel.Hosted.Fifo
import CourtKernel.Linux.Link

/-!
# The hosted model and the ring in lockstep

The same steps run on a corridor of the hosted model and on a shared-memory ring: sends, receives,
revocations (`HostedRoot::revoke` with `mark_revoked` of that endpoint) and crashes
(`HostedRoot::fault_court` with `mark_peer_down` of the surviving endpoint).

Both are links (`CourtKernel.Linux.Link`) with the same flags, and with the same queue as long as
the producer is up, so results differ only where the two gates do:

* `lockstep_agrees` — results correspond at every step except in exactly two situations: a send
  with a revoked capability to a crashed consumer, and a receive from a crashed producer.
* `lockstep_diverges` — both situations occur.
-/

namespace CourtKernel

namespace Lockstep

inductive Step where
  | send (payload : Payload)
  | recv
  | revoke (side : Side)
  | crash (side : Side)
  deriving DecidableEq

/-- The hosted root, the ring, and the endpoint state of each side. -/
structure State where
  root : HostedRoot
  ring : SharedRing
  endpoint : Side → EndpointState

/-- Results of a step: the model's, and the ring's, where `none` is a panic. -/
inductive Outcome where
  | send (model : CkResult Unit) (ring : Option (Except WireStatus Unit))
  | recv (model : CkResult Payload) (ring : Option (Except WireStatus (Option Payload)))
  | quiet
  deriving DecidableEq

def step (u : Users) (s : State) : Step → Outcome × State
  | .send payload =>
    let model := s.root.send (u.court .producer) (u.cap .producer) payload
    let ring := s.ring.send (s.endpoint .producer) payload
    (.send model.1 (ring.map Prod.fst),
      { s with root := model.2, ring := (ring.map Prod.snd).getD s.ring })
  | .recv =>
    let model := s.root.recv (u.court .consumer) (u.cap .consumer)
    let ring := s.ring.recv (s.endpoint .consumer)
    (.recv model.1 (ring.map Prod.fst),
      { s with root := model.2, ring := (ring.map Prod.snd).getD s.ring })
  | .revoke side => (.quiet, { s with
      root := (s.root.revoke (u.cap side)).2
      endpoint := fun x => if x = side then (s.endpoint x).markRevoked else s.endpoint x })
  | .crash side => (.quiet, { s with
      root := (s.root.faultCourt (u.court side)).2
      endpoint := fun x => if x = side.peer then (s.endpoint x).markPeerDown else s.endpoint x })

/-- Model and ring in lockstep. -/
def machine (u : Users) (s : State) : Machine State Step Outcome := ⟨s, step u⟩

/-- Only running courts call, and payloads fit a slot. -/
def Allowed (u : Users) (s : State) : Step → Prop
  | .send payload => s.root.requireRunningCourt (u.court .producer) = .ok () ∧
      payload.length ≤ s.ring.header.slotSize.toNat
  | .recv => s.root.requireRunningCourt (u.court .consumer) = .ok ()
  | _ => True

instance Allowed.decidable {u : Users} : ∀ (s : State) (a : Step), Decidable (Allowed u s a)
  | s, .send payload => inferInstanceAs (Decidable
      (s.root.requireRunningCourt (u.court .producer) = .ok () ∧
        payload.length ≤ s.ring.header.slotSize.toNat))
  | s, .recv => inferInstanceAs (Decidable
      (s.root.requireRunningCourt (u.court .consumer) = .ok ()))
  | _, .revoke _ => instDecidableTrue
  | _, .crash _ => instDecidableTrue

/-- Corresponding results. -/
def Outcome.corresponds : Outcome → Bool
  | .send (.ok ()) (some (.ok ())) => true
  | .send (.error .queueFull) (some (.error .queueFull)) => true
  | .send (.error .revoked) (some (.error .revoked)) => true
  | .send (.error .peerDown) (some (.error .peerDown)) => true
  | .recv (.ok payload) (some (.ok (some payload'))) => payload == payload'
  | .recv (.error .queueEmpty) (some (.ok none)) => true
  | .recv (.error .revoked) (some (.error .revoked)) => true
  | .recv (.error .peerDown) (some (.error .peerDown)) => true
  | .quiet => true
  | _ => false

/-- What the model answers to a receive after the steps `pre`, whether or not the producer is up: the
consumer's revocation, or what its corridor's queue holds. -/
def modelReceives (u : Users) (pre : List Step) (s : State) : CkResult Payload :=
  if Step.revoke .consumer ∈ pre then .error .revoked
  else match s.root.queue u.object with
    | [] => .error .queueEmpty
    | payload :: _ => .ok payload

/-- What the two sides answer where they do not correspond: the ring reports the crash; the model
reports the revocation to a sender and goes on to serve a receiver. -/
def Outcome.Diverges (u : Users) (pre : List Step) (s : State) : Outcome → Prop
  | .send model ring => model = .error .revoked ∧ ring = some (.error .peerDown)
  | .recv model ring => model = modelReceives u pre s ∧ ring = some (.error .peerDown)
  | .quiet => False

/-- The two situations in which the gates differ, by the steps taken before. -/
def Excepted (pre : List Step) : Step → Prop
  | .send _ => .revoke .producer ∈ pre ∧ .crash .consumer ∈ pre
  | .recv => .crash .producer ∈ pre
  | _ => False

def Step.isSend : Step → Bool
  | .send _ => true
  | _ => false

variable {u : Users} {s : State} {pre : List Step} {l : Link} {queue : List Payload} {cap P C : Nat}

theorem corresponds_send (v : Verdict Unit) :
    (Outcome.send v.modelSend (some v.ringSend)).corresponds = true := by
  rcases v with _ | _ | (_ | _) <;> rfl

theorem corresponds_recv (v : Verdict Payload) :
    (Outcome.recv v.modelRecv (some v.ringRecv)).corresponds = true := by
  rcases v with payload | _ | (_ | _)
  · exact beq_self_eq_true payload
  · rfl
  · rfl
  · rfl

theorem modelReceives_ne : modelReceives u pre s ≠ .error .peerDown := by
  unfold modelReceives
  split
  · simp
  · cases s.root.queue u.object <;> simp

theorem Outcome.Diverges.not_corresponds {o : Outcome} (h : o.Diverges u pre s) :
    o.corresponds = false := by
  cases o with
  | send model ring =>
    obtain ⟨rfl, rfl⟩ := h
    rfl
  | recv model ring =>
    obtain ⟨hmodel, rfl⟩ := h
    have hne : model ≠ .error .peerDown := hmodel ▸ modelReceives_ne
    unfold Outcome.corresponds
    split <;> simp_all
  | quiet => exact h.elim

/-! ## The invariant -/

/-- Model and ring after the steps `pre`: two links with the same flags, set by `pre`, and with the
same queue unless the producer crashed. -/
structure Paired (u : Users) (cap : Nat) (pre : List Step) (s : State) (l : Link)
    (queue : List Payload) (P C : Nat) : Prop where
  model : Models u s.root l
  ring : Carries s.ring s.endpoint { l with queue := queue } P C
  capacity : l.capacity = cap
  published : P ≤ pre.countP Step.isSend
  revoked : ∀ side, l.revoked side = decide (Step.revoke side ∈ pre)
  down : ∀ side, l.down side = decide (Step.crash side ∈ pre)
  queue : Step.crash .producer ∉ pre → queue = l.queue

/-- A step `a` in the state `s` after `pre`: its outcome is as announced, and the invariant holds
again. -/
def Stays (u : Users) (cap : Nat) (pre : List Step) (s : State) (a : Step) : Prop :=
  (¬ Excepted pre a → (step u s a).1.corresponds = true) ∧
  (Excepted pre a → (step u s a).1.Diverges u pre s) ∧
  ∃ l queue P C, Paired u cap (pre ++ [a]) (step u s a).2 l queue P C

/-- A send or a receive changes no flag. -/
theorem Paired.extend (h : Paired u cap pre s l queue P C) {a : Step} {s' : State} {l' : Link}
    {queue' : List Payload} {P' C' : Nat} (hcalls : (∃ payload, a = .send payload) ∨ a = .recv)
    (hmodel : Models u s'.root l') (hring : Carries s'.ring s'.endpoint { l' with queue := queue' } P' C')
    (hflags : l'.capacity = l.capacity ∧ l'.revoked = l.revoked ∧ l'.down = l.down)
    (hP : P' ≤ (pre ++ [a]).countP Step.isSend)
    (hqueue : Step.crash .producer ∉ pre → queue' = l'.queue) :
    Paired u cap (pre ++ [a]) s' l' queue' P' C' := by
  obtain ⟨hcap, hrev, hdown⟩ := hflags
  have hmem : ∀ b : Step, ((∃ side, b = .revoke side) ∨ ∃ side, b = .crash side) →
      (b ∈ pre ++ [a] ↔ b ∈ pre) := by
    rintro b hb
    rw [List.mem_append, List.mem_singleton, or_iff_left]
    rintro rfl
    rcases hcalls with ⟨payload, rfl⟩ | rfl <;> simp at hb
  refine ⟨hmodel, hring, hcap.trans h.capacity, hP, fun side => ?_, fun side => ?_, fun hn => ?_⟩
  · rw [hrev, h.revoked, decide_eq_decide, hmem _ (Or.inl ⟨side, rfl⟩)]
  · rw [hdown, h.down, decide_eq_decide, hmem _ (Or.inr ⟨side, rfl⟩)]
  · exact hqueue ((hmem _ (Or.inr ⟨_, rfl⟩)).not.1 hn)

theorem flags_send (gate : Link → Side → Option Refusal) (payload : Payload) :
    (l.send gate payload).2.capacity = l.capacity ∧ (l.send gate payload).2.revoked = l.revoked ∧
      (l.send gate payload).2.down = l.down := by
  unfold Link.send
  split
  · exact ⟨rfl, rfl, rfl⟩
  · split <;> exact ⟨rfl, rfl, rfl⟩

theorem flags_recv (gate : Link → Side → Option Refusal) :
    (l.recv gate).2.capacity = l.capacity ∧ (l.recv gate).2.revoked = l.revoked ∧
      (l.recv gate).2.down = l.down := by
  unfold Link.recv
  split
  · exact ⟨rfl, rfl, rfl⟩
  · split <;> exact ⟨rfl, rfl, rfl⟩

/-! ## One step -/

theorem Paired.send (h : Paired u cap pre s l queue P C) {payload : Payload}
    (hok : Allowed u s (.send payload)) (hs : Steady cap (pre.countP Step.isSend + 1)) :
    Stays u cap pre s (.send payload) := by
  obtain ⟨hrun, hlen⟩ := hok
  have hup : l.down .producer = false :=
    h.model.running.1 (HostedRoot.requireRunningCourt_ok.1 hrun)
  obtain rfl : queue = l.queue := h.queue (by
    have := h.down .producer
    rw [hup] at this
    exact of_decide_eq_false this.symm)
  have hsteady : Steady s.ring.header.capacity.toNat (P + 1) := by
    rw [h.ring.capacity]
    exact (h.capacity ▸ hs).mono (Nat.succ_le_succ h.published)
  obtain ⟨hresult, hmodel⟩ := h.model.send hup payload
  obtain ⟨ring', P', hring, hcarries, hP', -⟩ := h.ring.send hsteady hlen
  have hcount : P' ≤ (pre ++ [Step.send payload]).countP Step.isSend := by
    rw [List.countP_append]
    have := h.published
    exact Nat.le_trans hP' (Nat.succ_le_succ this)
  have hstep : step u s (.send payload) =
      (.send (l.send Link.modelGate payload).1.modelSend
        (some (l.send Link.ringGate payload).1.ringSend),
        ⟨(s.root.send (u.court .producer) (u.cap .producer) payload).2, ring', s.endpoint⟩) := by
    simp only [step, hresult, hring, Option.map_some, Option.getD_some]
  have hexc : Excepted pre (.send payload) ↔ l.revoked .producer = true ∧ l.down .consumer = true := by
    rw [h.revoked, h.down, decide_eq_true_iff, decide_eq_true_iff]
    rfl
  unfold Stays
  rw [hstep, hexc]
  by_cases hx : l.revoked .producer = true ∧ l.down .consumer = true
  · -- the model sees the revocation, the ring sees the crash
    have hmodelGate : l.send Link.modelGate payload = (.refused .revoked, l) := by
      simp [Link.send, Link.modelGate, hx.1]
    have hringGate : l.send Link.ringGate payload = (.refused .peerDown, l) := by
      simp [Link.send, Link.ringGate, Side.peer, hx.2]
    have hcarries' : Carries ring' s.endpoint (l.send Link.ringGate payload).2 P' C := hcarries
    rw [hringGate] at hcarries'
    rw [hmodelGate] at hmodel ⊢
    rw [hringGate]
    exact ⟨fun hn => absurd hx hn, fun _ => ⟨rfl, rfl⟩, l, l.queue, P', C,
      h.extend (Or.inl ⟨payload, rfl⟩) hmodel hcarries' ⟨rfl, rfl, rfl⟩ hcount fun _ => rfl⟩
  · have hgate : l.modelGate .producer = l.ringGate .producer := by
      unfold Link.modelGate Link.ringGate Side.peer
      cases hr : l.revoked .producer <;> cases hd : l.down .consumer <;> simp_all
    have hsame : l.send Link.modelGate payload = l.send Link.ringGate payload := by
      unfold Link.send
      rw [hgate]
    rw [hsame] at hmodel ⊢
    exact ⟨fun _ => corresponds_send _, fun hx' => absurd hx' hx, _, _, P', C,
      h.extend (Or.inl ⟨payload, rfl⟩) hmodel hcarries (flags_send _ _) hcount fun _ => rfl⟩

/-- The model's gate for a receiver is open or shut by its own capability alone. -/
theorem Paired.modelReceives (h : Paired u cap pre s l queue P C) :
    (l.recv Link.modelGate).1.modelRecv = modelReceives u pre s := by
  obtain ⟨endpoints, hcorridor, -⟩ := h.model.corridor
  have hqueue : s.root.queue u.object = l.queue := HostedRoot.queue_of_lookup hcorridor
  have hflag := h.revoked .consumer
  unfold Lockstep.modelReceives Link.recv Link.modelGate
  rw [hqueue]
  by_cases hrev : Step.revoke .consumer ∈ pre
  · rw [decide_eq_true hrev] at hflag
    simp only [hflag, if_true, if_pos hrev]
    rfl
  · rw [decide_eq_false hrev] at hflag
    simp only [hflag, Bool.false_eq_true, if_false, if_neg hrev]
    cases l.queue <;> rfl

theorem Paired.recv (h : Paired u cap pre s l queue P C) (hok : Allowed u s .recv) :
    Stays u cap pre s .recv := by
  have hup : l.down .consumer = false :=
    h.model.running.1 (HostedRoot.requireRunningCourt_ok.1 hok)
  obtain ⟨hresult, hmodel⟩ := h.model.recv hup
  obtain ⟨ring', C', hring, hcarries, -⟩ := h.ring.recv
  have hcount : P ≤ (pre ++ [Step.recv]).countP Step.isSend := by
    rw [List.countP_append]
    exact Nat.le_trans h.published (Nat.le_add_right _ _)
  have hstep : step u s .recv =
      (.recv (l.recv Link.modelGate).1.modelRecv
        (some (Link.recv Link.ringGate { l with queue := queue }).1.ringRecv),
        ⟨(s.root.recv (u.court .consumer) (u.cap .consumer)).2, ring', s.endpoint⟩) := by
    simp only [step, hresult, hring, Option.map_some, Option.getD_some]
  have hexc : Excepted pre .recv ↔ l.down .producer = true := by
    rw [h.down, decide_eq_true_iff]
    rfl
  unfold Stays
  rw [hstep, hexc]
  by_cases hx : l.down .producer = true
  · -- the ring sees the crash; the model has no such check
    have hringGate : Link.recv Link.ringGate { l with queue := queue } =
        (.refused .peerDown, { l with queue := queue }) := by
      simp [Link.recv, Link.ringGate, Side.peer, hx]
    obtain ⟨hcap, hrev, hdown⟩ := flags_recv (l := l) Link.modelGate
    rw [hringGate] at hcarries
    have hcarries' : Carries ring' s.endpoint { (l.recv Link.modelGate).2 with queue := queue }
        P C' := by
      show Carries ring' s.endpoint ⟨_, queue, (l.recv Link.modelGate).2.revoked, _⟩ P C'
      rw [hcap, hrev, hdown]
      exact hcarries
    refine ⟨fun hn => absurd hx hn, fun _ => ⟨h.modelReceives, by rw [hringGate]; rfl⟩, _, queue, P, C',
      h.extend (Or.inr rfl) hmodel hcarries' ⟨hcap, hrev, hdown⟩ hcount fun hn => ?_⟩
    rw [h.down, decide_eq_true_iff] at hx
    exact absurd hx hn
  · obtain rfl : queue = l.queue := h.queue (by
      rw [h.down, decide_eq_true_iff] at hx
      exact hx)
    have hgate : l.modelGate .consumer = l.ringGate .consumer := by
      unfold Link.modelGate Link.ringGate Side.peer
      simp only [hx, Bool.false_eq_true, if_false]
    have hsame : l.recv Link.modelGate = l.recv Link.ringGate := by
      unfold Link.recv
      rw [hgate]
    rw [hsame] at hmodel ⊢
    exact ⟨fun _ => corresponds_recv _, fun hx' => absurd hx' hx, _, _, P, C',
      h.extend (Or.inr rfl) hmodel hcarries (flags_recv _) hcount fun _ => rfl⟩

theorem Paired.revoke (h : Paired u cap pre s l queue P C) (side : Side) :
    Stays u cap pre s (.revoke side) := by
  refine ⟨fun _ => rfl, fun hx => hx.elim, l.revoke side, queue, P, C, h.model.revoke side,
    h.ring.revoke side, h.capacity, ?_, fun x => ?_, fun x => ?_, fun hn => ?_⟩
  · rw [List.countP_append]
    exact Nat.le_trans h.published (Nat.le_add_right _ _)
  · show (if x = side then true else l.revoked x) = _
    rw [h.revoked]
    by_cases hx : x = side <;> simp [hx]
  · show l.down x = _
    rw [h.down]
    simp
  · exact h.queue fun hm => hn (List.mem_append_left _ hm)

theorem Paired.crash (h : Paired u cap pre s l queue P C) (side : Side) :
    Stays u cap pre s (.crash side) := by
  refine ⟨fun _ => rfl, fun hx => hx.elim, l.crash side, queue, P, C, h.model.crash side,
    h.ring.crash side, h.capacity, ?_, fun x => ?_, fun x => ?_, fun hn => ?_⟩
  · rw [List.countP_append]
    exact Nat.le_trans h.published (Nat.le_add_right _ _)
  · show l.revoked x = _
    rw [h.revoked]
    simp
  · show (if x = side then true else l.down x) = _
    rw [h.down]
    by_cases hx : x = side <;> simp [hx]
  · exact h.queue fun hm => hn (List.mem_append_left _ hm)

theorem Paired.step (h : Paired u cap pre s l queue P C) {a : Step} (hok : Allowed u s a)
    (hs : Steady cap ((pre ++ [a]).countP Step.isSend)) : Stays u cap pre s a := by
  cases a with
  | send payload =>
    rw [List.countP_append] at hs
    exact h.send hok hs
  | recv => exact h.recv hok
  | revoke side => exact h.revoke side
  | crash side => exact h.crash side

/-! ## Every run -/

theorem Paired.run {start : State} (h : Paired u cap pre s l queue P C) :
    ∀ (steps : List Step), (machine u start).Along (Allowed u) s steps →
      Steady cap ((pre ++ steps).countP Step.isSend) →
      (∃ l queue P C, Paired u cap (pre ++ steps) ((machine u start).run s steps) l queue P C) ∧
      ∀ before a after, steps = before ++ a :: after →
        Stays u cap (pre ++ before) ((machine u start).run s before) a := by
  intro steps
  induction steps generalizing pre s l queue P C with
  | nil =>
    intro _ _
    refine ⟨⟨l, queue, P, C, by rw [List.append_nil]; exact h⟩, fun before a after he => ?_⟩
    cases before <;> cases he
  | cons b steps ih =>
    intro hok hs
    have hsplit : pre ++ b :: steps = pre ++ [b] ++ steps := by simp
    have hcount : (pre ++ [b]).countP Step.isSend ≤ (pre ++ b :: steps).countP Step.isSend := by
      rw [hsplit]
      exact (List.sublist_append_left (pre ++ [b]) steps).countP_le
    have hstep := h.step hok.1 (hs.mono hcount)
    obtain ⟨l', queue', P', C', hnext⟩ := hstep.2.2
    rw [hsplit] at hs
    obtain ⟨hend, hall⟩ := ih hnext hok.2 hs
    refine ⟨by rw [hsplit]; exact hend, fun before a after he => ?_⟩
    cases before with
    | nil =>
      obtain ⟨rfl, rfl⟩ := List.cons.inj he
      rw [List.append_nil]
      exact hstep
    | cons c before =>
      obtain ⟨rfl, rfl⟩ := List.cons.inj he
      have := hall before a after rfl
      rw [List.append_assoc] at this
      exact this

/-- A corridor and a fresh ring, before the first step. -/
structure Ready (u : Users) (capacity slotSize : UInt32) (s : State) : Prop where
  reachable : ∃ cs, s.root = HostedRoot.after cs
  distinct : u.court .producer ≠ u.court .consumer
  permits : ∀ side, s.root.permit (u.court side) (u.cap side) side.right = .ok u.object
  corridor : ∃ endpoints, s.root.corridors.lookup u.object = some ⟨endpoints, [], capacity.toNat⟩ ∧
    (endpoints = (u.court .producer, u.court .consumer) ∨
      endpoints = (u.court .consumer, u.court .producer))
  positive : 1 ≤ capacity.toNat
  ring : SharedRing.create capacity slotSize = .ok s.ring
  endpoints : ∀ side, ∃ cap, s.endpoint side = .new cap

theorem Ready.paired {capacity slotSize : UInt32} (h : Ready u capacity slotSize s) :
    Paired u capacity.toNat [] s ⟨capacity.toNat, [], fun _ => false, fun _ => false⟩ [] 0 0 := by
  obtain ⟨cs, hcs⟩ := h.reachable
  obtain ⟨hfresh, hcap, hsize⟩ := SharedRing.fresh_create h.ring h.positive
  have hside : ∀ side, s.root.Running (u.court side) ∧ s.root.Holds (u.court side) (u.cap side) ∧
      s.root.capRegistry.authorize (u.cap side) .corridor side.right = .ok u.object := fun side =>
    HostedRoot.permit_ok.1 (h.permits side)
  refine ⟨⟨?_, h.distinct, fun side => ?_, fun side => (hside side).2.1, fun side => ?_, h.corridor⟩,
    ⟨hfresh.window, rfl, congrArg UInt32.toNat hcap, h.positive, fun side => ?_, fun side => ?_⟩,
    rfl, Nat.le_refl 0, fun _ => rfl, fun _ => rfl, fun _ => rfl⟩
  · rw [hcs]
    exact HostedRoot.after_wf cs
  · obtain ⟨entry, hentry, hrun⟩ := (hside side).1
    exact ⟨entry, hentry, by rw [hrun]; rfl⟩
  · obtain ⟨k, hk, hrev, htype, hright, hobj⟩ := CapRegistry.authorize_ok.1 (hside side).2.2
    exact ⟨k, hk, hobj, htype, hright, hrev⟩
  · obtain ⟨wire, he⟩ := h.endpoints side
    rw [he]
    rfl
  · obtain ⟨wire, he⟩ := h.endpoints side
    rw [he]
    rfl

/-- **The model and the ring agree, with two exceptions.**  From a corridor and a fresh ring of the
same capacity, after any steps `before` of a run in which only running courts call, payloads fit
and the counters stay steady, the next step `a` gives corresponding results, unless it is

* a send, the producer's capability was revoked and the consumer crashed: the model answers
  `Revoked` and the ring `PeerDown`; or
* a receive, and the producer crashed: the ring answers `PeerDown`, the model `Revoked` if the consumer's
  capability was revoked, and otherwise the oldest payload of the queue or `QueueEmpty`. -/
theorem lockstep_agrees {capacity slotSize : UInt32} (h : Ready u capacity slotSize s)
    {steps : List Step} (hok : (machine u s).Along (Allowed u) s steps)
    (hs : Steady capacity.toNat (steps.countP Step.isSend)) :
    ∀ before a after, steps = before ++ a :: after →
      let outcome := (step u ((machine u s).run s before) a).1
      (¬ Excepted before a → outcome.corresponds = true) ∧
      (Excepted before a → outcome.corresponds = false ∧
        outcome.Diverges u before ((machine u s).run s before)) := by
  intro before a after he outcome
  obtain ⟨hsame, hdiff, -⟩ := (h.paired.run steps hok hs).2 before a after he
  exact ⟨hsame, fun hx => ⟨(hdiff hx).not_corresponds, hdiff hx⟩⟩

/-! ## The fixture of the source's tests, with a ring -/

/-- `app` sends and `net` receives. -/
def appToNet : Users where
  object := ⟨1⟩
  court
    | .producer => ⟨1⟩
    | .consumer => ⟨2⟩
  cap
    | .producer => ⟨2⟩
    | .consumer => ⟨3⟩

/-- The granted fixture and a fresh ring of four slots of eight bytes. -/
def appAndNet : State where
  root := HostedRoot.after HostedRoot.grantedAppAndNet
  ring := ⟨⟨RING_MAGIC, RING_VERSION, 0, 4, 8, 0, 0⟩, fun _ => 0, 80⟩
  endpoint _ := .new ⟨1, ⟨0⟩⟩

theorem appAndNet_ready : Ready appToNet 4 8 appAndNet := by
  refine ⟨⟨_, rfl⟩, by decide, fun side => ?_, ⟨(⟨1⟩, ⟨2⟩), by decide, Or.inl rfl⟩, by decide, rfl,
    fun _ => ⟨_, rfl⟩⟩
  cases side
  · decide
  · decide

/-- The message sent before the crash of the producer is received in the model and not from the
ring.  And a sender whose capability is revoked and whose peer crashed is told one reason by the
model and the other by the ring. -/
theorem lockstep_diverges :
    let run := (machine appToNet appAndNet).run appAndNet
    Ready appToNet 4 8 appAndNet ∧
    ((machine appToNet appAndNet).Along (Allowed appToNet) appAndNet
        [.send [7], .crash .producer, .recv] ∧
      (step appToNet (run [.send [7], .crash .producer]) .recv).1 =
        .recv (.ok [7]) (some (.error .peerDown)) ∧
      (step appToNet (run [.send [7], .crash .producer]) .recv).1.corresponds = false) ∧
    ((machine appToNet appAndNet).Along (Allowed appToNet) appAndNet
        [.revoke .producer, .crash .consumer, .send [7]] ∧
      (step appToNet (run [.revoke .producer, .crash .consumer]) (.send [7])).1 =
        .send (.error .revoked) (some (.error .peerDown)) ∧
      (step appToNet (run [.revoke .producer, .crash .consumer]) (.send [7])).1.corresponds =
        false) :=
  ⟨appAndNet_ready, ⟨by decide, by decide, by decide⟩, by decide, by decide, by decide⟩

/-- A message, a full ring, a revocation and a crash, all reported alike. -/
theorem lockstep_agrees_fixture :
    let run := (machine appToNet appAndNet).run appAndNet
    let steps : List Step := [.send [7], .recv, .recv, .send [1], .send [2], .send [3], .send [4],
      .send [5], .revoke .consumer, .recv, .crash .consumer, .send [6]]
    ((machine appToNet appAndNet).Along (Allowed appToNet) appAndNet steps ∧
      (step appToNet (run (steps.take 11)) (.send [6])).1.corresponds = true) ∧
    (step appToNet (run (steps.take 11)) (.send [6])).1 =
      .send (.error .peerDown) (some (.error .peerDown)) := by
  intro run steps
  have hok : (machine appToNet appAndNet).Along (Allowed appToNet) appAndNet steps := by decide
  refine ⟨⟨hok, ?_⟩, by decide⟩
  exact (lockstep_agrees appAndNet_ready hok (Or.inl (by decide)) (steps.take 11) (.send [6]) []
    rfl).1 (by rintro ⟨hrev, -⟩; simp [steps] at hrev)

end Lockstep

end CourtKernel
