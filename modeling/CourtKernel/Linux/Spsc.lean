import CourtKernel.Linux.Interleaving

/-!
# Runs of producer and consumer

Whole runs of the two processes of a ring under any scheduler.

* `run_refines` — every run is a run of the bounded queue.
* `full_origin`, `empty_origin` — where the values compared by a pending test were loaded.
* `spsc_refines_fifo` — the guarantees of the ring over every interleaving.
-/

namespace CourtKernel

namespace Spsc

variable {s : State} {P C : Nat}

/-! ## Runs -/

/-- Payloads of the sends that returned `Ok`, that is, were published, in order. -/
def published (log : List (Act × Option Return)) : List Payload :=
  log.filterMap fun
    | (_, some (.send payload (.ok ()))) => some payload
    | _ => none

theorem published_append (log log' : List (Act × Option Return)) :
    published (log ++ log') = published log ++ published log' :=
  List.filterMap_append

/-- Payloads returned by the receives, in order. -/
def received (log : List (Act × Option Return)) : List Payload :=
  log.filterMap fun
    | (_, some (.recv (.ok (some payload)))) => some payload
    | _ => none

/-- What the calls of a log did to the queue. -/
def events (log : List (Act × Option Return)) : List (FifoEvent Payload) :=
  log.map fun entry => event entry.2

theorem putsOf_events (log : List (Act × Option Return)) : putsOf (events log) = published log := by
  rw [putsOf, events, List.filterMap_map]
  refine List.filterMap_congr fun entry _ => ?_
  obtain ⟨a, _ | ⟨payload, e | ⟨⟨⟩⟩⟩ | ⟨e | _ | payload⟩⟩ := entry <;> rfl

theorem takesOf_events (log : List (Act × Option Return)) :
    takesOf (events log) = received log := by
  rw [takesOf, events, List.filterMap_map]
  refine List.filterMap_congr fun entry _ => ?_
  obtain ⟨a, _ | ⟨payload, e | ⟨⟨⟩⟩⟩ | ⟨e | _ | payload⟩⟩ := entry <;> rfl

variable {ring : SharedRing}

/-- The state after the scheduler's choices `acts`. -/
abbrev after (ring : SharedRing) (acts : List Act) : State := (machine ring).run (start ring) acts

/-- The calls that returned on the way. -/
abbrev history (ring : SharedRing) (acts : List Act) : List (Act × Option Return) :=
  (machine ring).log (start ring) acts

/-- The run so far is a run of the bounded queue, and the invariant holds with the numbers of
published and received messages. -/
structure Refines (ring : SharedRing) (log : List (Act × Option Return)) (s : State) : Prop where
  fixed : s.ring.header.capacity = ring.header.capacity ∧
    s.ring.header.slotSize = ring.header.slotSize
  inv : Inv (published log).length (received log).length s
  queue : FifoRun ring.header.capacity.toNat [] (events log)
    (s.ring.contents (published log).length (received log).length)

theorem Refines.start (hf : ring.Fresh) : Refines ring [] (start ring) :=
  ⟨⟨rfl, rfl⟩, ⟨hf.capacity, hf.window, trivial, trivial⟩, .nil⟩

theorem Refines.step {log : List (Act × Option Return)} (h : Refines ring log s) (a : Act)
    (hs : Steady ring.header.capacity.toNat ((published log).length + 1)) :
    Refines ring (log ++ [(a, (Spsc.step s a).1)]) (Spsc.step s a).2 := by
  have hcap : s.ring.header.capacity.toNat = ring.header.capacity.toNat := by rw [h.fixed.1]
  obtain ⟨P', C', hinv, hfixed, hqueue, hputs, htakes⟩ := h.inv.step (hcap ▸ hs) a
  have hevents : events (log ++ [(a, (Spsc.step s a).1)]) =
      events log ++ [event (Spsc.step s a).1] := by simp [events]
  have hP : (published (log ++ [(a, (Spsc.step s a).1)])).length = P' := by
    rw [← putsOf_events, hevents, hputs, ← putsOf_events]
    simp [putsOf]
  have hC : (received (log ++ [(a, (Spsc.step s a).1)])).length = C' := by
    rw [← takesOf_events, hevents, htakes, ← takesOf_events]
    simp [takesOf]
  refine ⟨⟨hfixed.1.trans h.fixed.1, hfixed.2.trans h.fixed.2⟩, ?_, ?_⟩
  · rw [hP, hC]; exact hinv
  · rw [hP, hC, hevents]
    exact h.queue.concat (hcap ▸ hqueue)

/-- **Every run is a run of the bounded queue**, as long as no counter wraps or a wrap does not
matter. -/
theorem run_refines (hf : ring.Fresh) (acts : List Act)
    (hs : Steady ring.header.capacity.toNat ((published (history ring acts)).length + 1)) :
    Refines ring (history ring acts) (after ring acts) := by
  induction acts using List.reverseRecOn with
  | nil => exact .start hf
  | append_singleton acts a ih =>
    rw [history, Machine.log_concat] at hs ⊢
    rw [after, Machine.run_concat]
    have hs' : Steady ring.header.capacity.toNat ((published (history ring acts)).length + 1) := by
      refine hs.mono (Nat.succ_le_succ ?_)
      rw [published_append, List.length_append]
      exact Nat.le_add_right _ _
    exact (ih hs').step a hs'

/-! ## Where the values of a test come from -/

theorem producerStep_test {payload : Payload} {own peer : UInt64}
    (h : (producerStep s).2.producer = .test payload own peer) :
    s.producer = .loadPeer payload own ∧ peer = s.ring.header.consumer := by
  unfold producerStep at h
  split at h
  · rename_i hpc; rw [hpc] at h; cases h
  · cases h
  · rename_i payload' own' hpc
    obtain ⟨rfl, rfl, rfl⟩ := ProducerPc.test.inj h
    exact ⟨hpc, rfl⟩
  · split at h
    · cases h
    · split at h <;> cases h
  · split at h <;> cases h

theorem consumerStep_test {own peer : UInt64} (h : (consumerStep s).2.consumer = .test own peer) :
    s.consumer = .loadPeer own ∧ peer = s.ring.header.producer := by
  unfold consumerStep at h
  split at h
  · rename_i hpc; rw [hpc] at h; cases h
  · cases h
  · rename_i own' hpc
    obtain ⟨rfl, rfl⟩ := ConsumerPc.test.inj h
    exact ⟨hpc, rfl⟩
  · split at h
    · cases h
    · split at h <;> cases h
  · dsimp only at h
    split at h
    · cases h
    · split at h <;> cases h
  · dsimp only at h
    split at h <;> cases h
  · rename_i hpc; rw [hpc] at h; cases h

theorem producer_of_other {a : Act} (ha : a ≠ .producer) {payload : Payload} {own peer : UInt64}
    (h : (step s a).2.producer = .test payload own peer) :
    s.producer = .test payload own peer := by
  cases a with
  | producer => exact absurd rfl ha
  | consumer =>
    have hsame : (consumerStep s).2.producer = s.producer := by
      unfold consumerStep
      split <;> (try split) <;> (try split) <;> rfl
    exact hsame ▸ h
  | recv endpoint =>
    have hsame : (startRecv s endpoint).2.producer = s.producer := by
      unfold startRecv
      split <;> (try split) <;> rfl
    exact hsame ▸ h
  | send endpoint payload' =>
    simp only [step, startSend] at h
    split at h
    · split at h
      · exact h
      · split at h
        · exact h
        · cases h
    · exact h

theorem consumer_of_other {a : Act} (ha : a ≠ .consumer) {own peer : UInt64}
    (h : (step s a).2.consumer = .test own peer) : s.consumer = .test own peer := by
  cases a with
  | consumer => exact absurd rfl ha
  | producer =>
    have hsame : (producerStep s).2.consumer = s.consumer := by
      unfold producerStep
      split <;> (try split) <;> (try split) <;> rfl
    exact hsame ▸ h
  | send endpoint payload =>
    have hsame : (startSend s endpoint payload).2.consumer = s.consumer := by
      unfold startSend
      split <;> (try split) <;> (try split) <;> rfl
    exact hsame ▸ h
  | recv endpoint =>
    simp only [step, startRecv] at h
    split at h
    · split at h
      · exact h
      · cases h
    · exact h

/-- A producer about to test took its last step by loading the consumer counter. -/
theorem full_origin {payload : Payload} {own peer : UInt64} :
    ∀ {acts : List Act}, (after ring acts).producer = .test payload own peer →
      ∃ pre post, acts = pre ++ .producer :: post ∧ .producer ∉ post ∧
        (after ring pre).producer = .loadPeer payload own ∧
        peer = (after ring pre).ring.header.consumer := by
  intro acts h
  refine (machine ring).last_step (a := .producer)
    (P := fun s => s.producer = .test payload own peer)
    (Q := fun s => s.producer = .loadPeer payload own ∧ peer = s.ring.header.consumer) ?_
    (fun _ ht => producerStep_test ht) (fun _ _ ha ht => producer_of_other ha ht) h
  intro hidle
  cases hidle

/-- A consumer about to test took its last step by loading the producer counter. -/
theorem empty_origin {own peer : UInt64} :
    ∀ {acts : List Act}, (after ring acts).consumer = .test own peer →
      ∃ pre post, acts = pre ++ .consumer :: post ∧ .consumer ∉ post ∧
        (after ring pre).consumer = .loadPeer own ∧
        peer = (after ring pre).ring.header.producer := by
  intro acts h
  refine (machine ring).last_step (a := .consumer)
    (P := fun s => s.consumer = .test own peer)
    (Q := fun s => s.consumer = .loadPeer own ∧ peer = s.ring.header.producer) ?_
    (fun _ ht => consumerStep_test ht) (fun _ _ ha ht => consumer_of_other ha ht) h
  intro hidle
  cases hidle

/-! ## Results of calls -/

/-- Where each result of a call is returned. -/
inductive Returned (s : State) : Act → Return → Prop where
  | refusedSend {endpoint : EndpointState} {payload : Payload} (h : endpoint.status ≠ .ok) :
      Returned s (.send endpoint payload) (.send payload (.error endpoint.status))
  | tooLong {endpoint : EndpointState} {payload : Payload}
      (h : payload.length > s.ring.header.slotSize.toNat) :
      Returned s (.send endpoint payload) (.send payload (.error .invalidObject))
  | refusedRecv {endpoint : EndpointState} (h : endpoint.status ≠ .ok) :
      Returned s (.recv endpoint) (.recv (.error endpoint.status))
  | full {payload : Payload} {own peer : UInt64} (hpc : s.producer = .test payload own peer)
      (h : own - peer ≥ s.ring.header.capacity.toUInt64) :
      Returned s .producer (.send payload (.error .queueFull))
  | noLength {payload : Payload} {own peer : UInt64} (hpc : s.producer = .test payload own peer)
      (h : payload.length ≥ 2 ^ 32) :
      Returned s .producer (.send payload (.error .invalidObject))
  | sent (payload : Payload) : Returned s .producer (.send payload (.ok ()))
  | empty {own peer : UInt64} (hpc : s.consumer = .test own peer) (h : own = peer) :
      Returned s .consumer (.recv (.ok none))
  | badLength {own : UInt64} {got : List UInt8} (hpc : s.consumer = .readLen own got)
      (hall : ¬ got.length < LEN_SIZE) (h : leVal got > s.ring.header.slotSize.toNat) :
      Returned s .consumer (.recv (.error .invalidObject))
  | received (payload : Payload) : Returned s .consumer (.recv (.ok (some payload)))

theorem producerStep_returned {r : Return} (h : (producerStep s).1 = some r) :
    Returned s .producer r := by
  unfold producerStep at h
  split at h
  · cases h
  · cases h
  · cases h
  · rename_i payload own peer hpc
    split at h
    · rename_i hfull
      obtain rfl := Option.some.inj h
      exact .full hpc hfull
    · split at h
      · rename_i hlong
        obtain rfl := Option.some.inj h
        exact .noLength hpc hlong
      · cases h
  · split at h
    · cases h
    · obtain rfl := Option.some.inj h
      exact .sent _

theorem consumerStep_returned {r : Return} (h : (consumerStep s).1 = some r) :
    Returned s .consumer r := by
  unfold consumerStep at h
  split at h
  · cases h
  · cases h
  · cases h
  · rename_i own peer hpc
    split at h
    · rename_i heq
      obtain rfl := Option.some.inj h
      exact .empty hpc heq
    · split at h <;> cases h
  · rename_i own got hpc
    dsimp only at h
    split at h
    · cases h
    · rename_i hall
      split at h
      · rename_i hbad
        obtain rfl := Option.some.inj h
        exact .badLength hpc hall hbad
      · cases h
  · dsimp only at h
    split at h
    · cases h
    · obtain rfl := Option.some.inj h
      exact .received _
  · cases h

theorem step_returned {a : Act} {r : Return} (h : (step s a).1 = some r) : Returned s a r := by
  cases a with
  | send endpoint payload =>
    simp only [step, startSend] at h
    split at h
    · split at h
      · rename_i hst
        obtain rfl := Option.some.inj h
        exact .refusedSend hst
      · split at h
        · rename_i hlong
          obtain rfl := Option.some.inj h
          exact .tooLong hlong
        · cases h
    · cases h
  | recv endpoint =>
    simp only [step, startRecv] at h
    split at h
    · split at h
      · rename_i hst
        obtain rfl := Option.some.inj h
        exact .refusedRecv hst
      · cases h
    · cases h
  | producer => exact producerStep_returned h
  | consumer => exact consumerStep_returned h

/-- The status of an endpoint is none of the results of the ring itself. -/
theorem status_ne (endpoint : EndpointState) :
    endpoint.status ≠ .queueFull ∧ endpoint.status ≠ .invalidObject := by
  unfold EndpointState.status
  split
  · decide
  · split <;> decide

/-- A slot within the window never makes a receive fail. -/
theorem Inv.recv_ne_invalidObject (h : Inv P C s) {a : Act} :
    (Spsc.step s a).1 ≠ some (.recv (.error .invalidObject)) := by
  intro hr
  generalize hres : Return.recv (.error .invalidObject) = r at hr
  cases step_returned hr with
  | refusedRecv hst =>
    have := Return.recv.inj hres
    exact (status_ne _).2 (Except.error.inj this).symm
  | @badLength own got hpc hall hbad =>
    have hc := h.consumer
    rw [hpc] at hc
    obtain ⟨-, hlt, hl, hgot⟩ := hc
    rw [show got.length = LEN_SIZE by omega] at hgot
    have hbound := h.window.lens C (Nat.le_refl C) hlt
    rw [lenAt, ← hgot] at hbound
    omega
  | _ => cases hres

/-- A send fails with `InvalidObject` only if the payload does not fit a slot. -/
theorem Inv.send_invalidObject (h : Inv P C s) {a : Act} {payload : Payload}
    (hr : (Spsc.step s a).1 = some (.send payload (.error .invalidObject))) :
    payload.length > s.ring.header.slotSize.toNat := by
  generalize hres : Return.send payload (.error .invalidObject) = r at hr
  cases step_returned hr with
  | refusedSend hst =>
    have := (Return.send.inj hres).2
    exact absurd (Except.error.inj this).symm (status_ne _).2
  | tooLong hlong => exact (Return.send.inj hres).1 ▸ hlong
  | noLength hpc hlong =>
    have hp := h.producer
    rw [hpc] at hp
    have hslot := s.ring.header.slotSize.toNat_lt
    have := hp.1
    omega
  | _ => cases hres

/-- `QueueFull` means that the counters compared were one capacity apart. -/
theorem queueFull_of_returned {a : Act} {payload : Payload}
    (hr : (step s a).1 = some (.send payload (.error .queueFull))) :
    ∃ own peer, s.producer = .test payload own peer ∧
      own - peer ≥ s.ring.header.capacity.toUInt64 := by
  generalize hres : Return.send payload (.error .queueFull) = r at hr
  cases step_returned hr with
  | refusedSend hst =>
    have := (Return.send.inj hres).2
    exact absurd (Except.error.inj this).symm (status_ne _).1
  | @full payload' own peer hpc hfull => exact ⟨own, peer, (Return.send.inj hres).1 ▸ hpc, hfull⟩
  | _ => cases hres

/-- An empty receive means that the counters compared were equal. -/
theorem empty_of_returned {a : Act} (hr : (step s a).1 = some (.recv (.ok none))) :
    ∃ own peer, s.consumer = .test own peer ∧ own = peer := by
  generalize hres : Return.recv (.ok none) = r at hr
  cases step_returned hr with
  | @empty own peer hpc heq => exact ⟨own, peer, hpc, heq⟩
  | _ => cases hres

/-! ## The guarantees of the ring -/

/-- The slot number a process works on. -/
def slotNumber (ring : SharedRing) (own : UInt64) : Nat := own.toNat % ring.header.capacity.toNat

/-- Below `2^64` messages the header counters are the numbers of messages. -/
theorem run_counters (hf : ring.Fresh) {acts : List Act}
    (hsends : (published (history ring acts)).length < 2 ^ 64) :
    Refines ring (history ring acts) (after ring acts) ∧
      (after ring acts).ring.header.producer.toNat = (published (history ring acts)).length ∧
      (after ring acts).ring.header.consumer.toNat = (received (history ring acts)).length := by
  have h := run_refines hf acts (Or.inl (by omega))
  have hle := h.inv.window.le
  refine ⟨h, ?_, ?_⟩
  · rw [h.inv.window.producer, Nat.mod_eq_of_lt hsends]
  · rw [h.inv.window.consumer, Nat.mod_eq_of_lt (by omega)]

theorem published_before {pre post : List Act}
    (h : (published (history ring (pre ++ post))).length < 2 ^ 64) :
    (published (history ring pre)).length < 2 ^ 64 := by
  rw [history, Machine.log_append, published_append, List.length_append] at h
  exact Nat.lt_of_le_of_lt (Nat.le_add_right _ _) h

/-- A send that finds the ring full loaded the consumer counter when it was full. -/
theorem full_outstanding (hf : ring.Fresh) {acts : List Act}
    (hsends : (published (history ring acts)).length < 2 ^ 64) {a : Act} {payload : Payload}
    (hr : (step (after ring acts) a).1 = some (.send payload (.error .queueFull))) :
    ∃ pre post own, acts = pre ++ .producer :: post ∧ .producer ∉ post ∧
      (after ring pre).producer = .loadPeer payload own ∧
      (published (history ring pre)).length =
        (received (history ring pre)).length + ring.header.capacity.toNat := by
  obtain ⟨own, peer, hpc, hfull⟩ := queueFull_of_returned hr
  have hcap := (run_counters hf hsends).1.fixed.1
  obtain ⟨pre, post, rfl, hpost, hload, rfl⟩ := full_origin hpc
  refine ⟨pre, post, own, rfl, hpost, hload, ?_⟩
  obtain ⟨hpre, -, -⟩ := run_counters hf (published_before hsends)
  have hown := hpre.inv.producer
  rw [hload] at hown
  have hw := hpre.inv.window
  have hroom := hw.room
  rw [hpre.fixed.1] at hroom
  rw [hcap] at hfull
  exact (SharedRing.full_iff hown.2 hw.consumer hw.le hroom).1 hfull

/-- A receive that finds the ring empty loaded the producer counter when it was empty. -/
theorem empty_outstanding (hf : ring.Fresh) {acts : List Act}
    (hsends : (published (history ring acts)).length < 2 ^ 64) {a : Act}
    (hr : (step (after ring acts) a).1 = some (.recv (.ok none))) :
    ∃ pre post own, acts = pre ++ .consumer :: post ∧ .consumer ∉ post ∧
      (after ring pre).consumer = .loadPeer own ∧
      published (history ring pre) = received (history ring pre) := by
  obtain ⟨own, peer, hpc, heq⟩ := empty_of_returned hr
  obtain ⟨pre, post, rfl, hpost, hload, rfl⟩ := empty_origin hpc
  refine ⟨pre, post, own, rfl, hpost, hload, ?_⟩
  obtain ⟨hpre, -, -⟩ := run_counters hf (published_before hsends)
  have hown := hpre.inv.consumer
  rw [hload] at hown
  have hw := hpre.inv.window
  have hlen := (SharedRing.empty_iff hown hw.producer hw.le hw.room).1 heq
  -- as many received as published, and the received ones are a prefix
  have hcons := hpre.queue.conserved
  rw [putsOf_events, takesOf_events, List.nil_append, hlen] at hcons
  rw [hcons, SharedRing.contents, Nat.sub_self, List.range_zero, List.map_nil, List.append_nil]

/-- The slot being written is not the slot of an unread message. -/
theorem write_exclusive (hf : ring.Fresh) {acts : List Act}
    (hsends : (published (history ring acts)).length < 2 ^ 64) {payload : Payload} {own : UInt64}
    {done : Nat} (hpc : (after ring acts).producer = .write payload own done) {k : Nat}
    (h1 : (received (history ring acts)).length ≤ k)
    (h2 : k < (published (history ring acts)).length) :
    slotNumber ring own ≠ k % ring.header.capacity.toNat := by
  obtain ⟨h, -, -⟩ := run_counters hf hsends
  have hp := h.inv.producer
  rw [hpc] at hp
  obtain ⟨-, ho, hroom, -⟩ := hp
  rw [h.fixed.1] at hroom
  have hne := @slot_ne ring.header.capacity.toNat _ _ (Or.inl (by omega)) h2 (by omega)
  rw [Nat.mod_eq_of_lt (show k < 2 ^ 64 by omega), ← ho] at hne
  exact hne.symm

/-- **The ring refines a bounded queue under every interleaving.**  Take a fresh ring of capacity at
least one, one producer and one consumer with arbitrary calls, and any schedule `acts` of their
steps in which fewer than `2^64` messages are published.  Then, with `s` the state reached:

* the calls that returned are a run of the bounded queue, from the empty queue to the contents of
  the ring, and the payloads received are a prefix of those published;
* the counters are ordered and at most one capacity apart;
* the slot being written is not one that is being read or has still to be read;
* a next step that returns `QueueFull` compares counters loaded when one capacity of messages was
  outstanding, and one that returns `Ok(None)` compares counters loaded when none was;
* no receive fails with `InvalidObject` or panics, and a send fails with it only if its payload does
  not fit a slot. -/
theorem spsc_refines_fifo {capacity slotSize : UInt32}
    (hring : SharedRing.create capacity slotSize = .ok ring) (hcap : 1 ≤ capacity.toNat)
    (acts : List Act) (hsends : (published (history ring acts)).length < 2 ^ 64) :
    let s := after ring acts
    let producer := s.ring.header.producer.toNat
    let consumer := s.ring.header.consumer.toNat
    FifoRun capacity.toNat [] (events (history ring acts)) (s.ring.contents producer consumer) ∧
    received (history ring acts) <+: published (history ring acts) ∧
    published (history ring acts) =
      received (history ring acts) ++ s.ring.contents producer consumer ∧
    consumer ≤ producer ∧ producer - consumer ≤ capacity.toNat ∧
    (∀ payload own done, s.producer = .write payload own done →
      (∀ own' got, s.consumer = .readLen own' got → slotNumber ring own ≠ slotNumber ring own') ∧
      (∀ own' len got, s.consumer = .readBytes own' len got →
        slotNumber ring own ≠ slotNumber ring own') ∧
      ∀ k, consumer ≤ k → k < producer → slotNumber ring own ≠ k % capacity.toNat) ∧
    (∀ a payload, (step s a).1 = some (.send payload (.error .queueFull)) →
      ∃ pre post own, acts = pre ++ .producer :: post ∧ .producer ∉ post ∧
        (after ring pre).producer = .loadPeer payload own ∧
        (published (history ring pre)).length =
          (received (history ring pre)).length + capacity.toNat) ∧
    (∀ a, (step s a).1 = some (.recv (.ok none)) →
      ∃ pre post own, acts = pre ++ .consumer :: post ∧ .consumer ∉ post ∧
        (after ring pre).consumer = .loadPeer own ∧
        published (history ring pre) = received (history ring pre)) ∧
    (∀ a, (step s a).1 ≠ some (.recv (.error .invalidObject))) ∧ s.consumer ≠ .panicked ∧
    ∀ a payload, (step s a).1 = some (.send payload (.error .invalidObject)) →
      payload.length > slotSize.toNat := by
  intro s producer consumer
  obtain ⟨hf, rfl, rfl⟩ := SharedRing.fresh_create hring hcap
  obtain ⟨h, hP, hC⟩ := run_counters hf hsends
  replace hP : producer = (published (history ring acts)).length := hP
  replace hC : consumer = (received (history ring acts)).length := hC
  have hcons := h.queue.conserved
  have hfirst := h.queue.takes_first
  rw [putsOf_events, takesOf_events] at hcons hfirst
  have hle := h.inv.window.le
  have hroom := h.inv.window.room
  rw [h.fixed.1] at hroom
  have hreading : ∀ own' : UInt64, own'.toNat = (received (history ring acts)).length % 2 ^ 64 →
      slotNumber ring own' = (received (history ring acts)).length % ring.header.capacity.toNat := by
    intro own' ho
    rw [slotNumber, ho, Nat.mod_eq_of_lt (show (received (history ring acts)).length < 2 ^ 64 by omega)]
  refine ⟨?_, hfirst, ?_, ?_, ?_, ?_, ?_, ?_, ?_, ?_, ?_⟩
  · rw [hP, hC]; exact h.queue
  · rw [hP, hC]; exact hcons
  · omega
  · omega
  · intro payload own done hpc
    have hc := h.inv.consumer
    refine ⟨fun own' got hread => ?_, fun own' len got hread => ?_, fun k h1 h2 => ?_⟩
    · rw [hread] at hc
      rw [hreading own' hc.1]
      exact write_exclusive hf hsends hpc (Nat.le_refl _) hc.2.1
    · rw [hread] at hc
      rw [hreading own' hc.1]
      exact write_exclusive hf hsends hpc (Nat.le_refl _) hc.2.1
    · exact write_exclusive hf hsends hpc (hC ▸ h1) (hP ▸ h2)
  · intro a payload hr
    exact full_outstanding hf hsends hr
  · intro a hr
    exact empty_outstanding hf hsends hr
  · intro a
    exact h.inv.recv_ne_invalidObject
  · intro hpanic
    have hc := h.inv.consumer
    rw [show (after ring acts).consumer = .panicked from hpanic] at hc
    exact hc
  · intro a payload hr
    have hlong := h.inv.send_invalidObject hr
    rw [h.fixed.2] at hlong
    exact hlong

/-- One slot of two bytes: the producer publishes `[7]` while the consumer is in the middle of a
receive that started before, and the consumer gets it. -/
theorem spsc_refines_fifo_handover :
    let endpoint := EndpointState.new ⟨1, ⟨0⟩⟩
    let ring : SharedRing := ⟨⟨RING_MAGIC, RING_VERSION, 0, 1, 2, 0, 0⟩, fun _ => 0, 38⟩
    let acts : List Act := [.recv endpoint, .send endpoint [7], .consumer] ++
      List.replicate 9 .producer ++ List.replicate 9 .consumer
    SharedRing.create 1 2 = .ok ring ∧ published (history ring acts) = [[7]] ∧
      received (history ring acts) = [[7]] ∧
      received (history ring acts) <+: published (history ring acts) := by
  intro endpoint ring acts
  have hring : SharedRing.create 1 2 = .ok ring := rfl
  have hpub : published (history ring acts) = [[7]] := by decide
  refine ⟨hring, hpub, by decide, ?_⟩
  exact (spsc_refines_fifo hring (by decide) acts (by rw [hpub]; decide)).2.1

end Spsc

end CourtKernel
