import CourtKernel.Linux.Window
import CourtKernel.Lib.Fifo
import CourtKernel.Lib.Machine

/-!
# The ring under every interleaving

One producer process and one consumer process share a ring.  `Spsc.machine` runs their calls step
by step, in any order a scheduler picks: every load and store of a counter, every test, and every
single byte of a slot is a step of its own.  Atomic operations are sequentially consistent steps.

* `Pc` types — where each process is inside `send` or `recv`, with the values it has loaded.
* `Inv P C s` — the invariant with `P` messages published and `C` consumed: the window of the ring,
  and for each process what it knows about the counters and the slot it works on.
* `Inv.step` — every step keeps the invariant and is a step of the bounded queue on the contents.
-/

namespace CourtKernel

namespace Spsc

/-- Where the producer is in a call of `send`. -/
inductive ProducerPc where
  | idle
  | loadOwn (payload : Payload)
  | loadPeer (payload : Payload) (own : UInt64)
  | test (payload : Payload) (own peer : UInt64)
  /-- `done` bytes of the record are in the slot -/
  | write (payload : Payload) (own : UInt64) (done : Nat)
  deriving DecidableEq

/-- Where the consumer is in a call of `recv`. -/
inductive ConsumerPc where
  | idle
  | loadOwn
  | loadPeer (own : UInt64)
  | test (own peer : UInt64)
  | readLen (own : UInt64) (got : List UInt8)
  | readBytes (own : UInt64) (len : Nat) (got : List UInt8)
  /-- stopped by a remainder by zero -/
  | panicked
  deriving DecidableEq

structure State where
  ring : SharedRing
  producer : ProducerPc
  consumer : ConsumerPc

/-- What the scheduler can do: let an idle process start a call, or let a process take a step. -/
inductive Act where
  | send (endpoint : EndpointState) (payload : Payload)
  | recv (endpoint : EndpointState)
  | producer
  | consumer
  deriving DecidableEq

/-- A call that returned in a step, with its result. -/
inductive Return where
  | send (payload : Payload) (result : Except WireStatus Unit)
  | recv (result : Except WireStatus (Option Payload))
  deriving DecidableEq

variable {s : State} {P C : Nat}

/-- The producer starts a call, up to the length check. -/
def startSend (s : State) (endpoint : EndpointState) (payload : Payload) : Option Return × State :=
  match s.producer with
  | .idle =>
    if endpoint.status ≠ .ok then (some (.send payload (.error endpoint.status)), s)
    else if payload.length > s.ring.header.slotSize.toNat then
      (some (.send payload (.error .invalidObject)), s)
    else (none, { s with producer := .loadOwn payload })
  | _ => (none, s)

/-- The consumer starts a call. -/
def startRecv (s : State) (endpoint : EndpointState) : Option Return × State :=
  match s.consumer with
  | .idle =>
    if endpoint.status ≠ .ok then (some (.recv (.error endpoint.status)), s)
    else (none, { s with consumer := .loadOwn })
  | _ => (none, s)

/-- One step of the producer. -/
def producerStep (s : State) : Option Return × State :=
  match s.producer with
  | .idle => (none, s)
  | .loadOwn payload => (none, { s with producer := .loadPeer payload s.ring.header.producer })
  | .loadPeer payload own => (none, { s with producer := .test payload own s.ring.header.consumer })
  | .test payload own peer =>
    if own - peer ≥ s.ring.header.capacity.toUInt64 then
      (some (.send payload (.error .queueFull)), { s with producer := .idle })
    else if payload.length ≥ 2 ^ 32 then
      (some (.send payload (.error .invalidObject)), { s with producer := .idle })
    else (none, { s with producer := .write payload own 0 })
  | .write payload own done =>
    match (record payload)[done]? with
    | some byte =>
      let off := s.ring.slotPtr (own % s.ring.header.capacity.toUInt64) + done
      (none, { s with
        ring := { s.ring with bytes := s.ring.bytes.write off [byte] }
        producer := .write payload own (done + 1) })
    | none =>
      (some (.send payload (.ok ())), { s with
        ring := { s.ring with header := { s.ring.header with producer := own + 1 } }
        producer := .idle })

/-- One step of the consumer. -/
def consumerStep (s : State) : Option Return × State :=
  match s.consumer with
  | .idle => (none, s)
  | .loadOwn => (none, { s with consumer := .loadPeer s.ring.header.consumer })
  | .loadPeer own => (none, { s with consumer := .test own s.ring.header.producer })
  | .test own peer =>
    if own = peer then (some (.recv (.ok none)), { s with consumer := .idle })
    else if s.ring.header.capacity.toUInt64 = 0 then (none, { s with consumer := .panicked })
    else (none, { s with consumer := .readLen own [] })
  | .readLen own got =>
    let off := s.ring.slotPtr (own % s.ring.header.capacity.toUInt64)
    if got.length < LEN_SIZE then
      (none, { s with consumer := .readLen own (got ++ [s.ring.bytes (off + got.length)]) })
    else if leVal got > s.ring.header.slotSize.toNat then
      (some (.recv (.error .invalidObject)), { s with consumer := .idle })
    else (none, { s with consumer := .readBytes own (leVal got) [] })
  | .readBytes own len got =>
    let off := s.ring.slotPtr (own % s.ring.header.capacity.toUInt64) + LEN_SIZE
    if got.length < len then
      (none, { s with consumer := .readBytes own len (got ++ [s.ring.bytes (off + got.length)]) })
    else
      (some (.recv (.ok (some got))), { s with
        ring := { s.ring with header := { s.ring.header with consumer := own + 1 } }
        consumer := .idle })
  | .panicked => (none, s)

def step (s : State) : Act → Option Return × State
  | .send endpoint payload => startSend s endpoint payload
  | .recv endpoint => startRecv s endpoint
  | .producer => producerStep s
  | .consumer => consumerStep s

/-- Both processes idle at a ring. -/
def start (ring : SharedRing) : State := ⟨ring, .idle, .idle⟩

/-- Producer and consumer of a ring, under any scheduler. -/
def machine (ring : SharedRing) : Machine State Act (Option Return) := ⟨start ring, step⟩

/-! ## The invariant -/

/-- What the producer knows at each point of a call. -/
def ProducerOk (ring : SharedRing) (P C : Nat) : ProducerPc → Prop
  | .idle => True
  | .loadOwn payload => payload.length ≤ ring.header.slotSize.toNat
  | .loadPeer payload own => payload.length ≤ ring.header.slotSize.toNat ∧ own.toNat = P % 2 ^ 64
  | .test payload own peer => payload.length ≤ ring.header.slotSize.toNat ∧ own.toNat = P % 2 ^ 64 ∧
      ∃ C', C' ≤ C ∧ P ≤ C' + ring.header.capacity.toNat ∧ peer.toNat = C' % 2 ^ 64
  | .write payload own done => payload.length ≤ ring.header.slotSize.toNat ∧
      own.toNat = P % 2 ^ 64 ∧ P < C + ring.header.capacity.toNat ∧
      done ≤ (record payload).length ∧
      ring.bytes.read (ring.slotOf P) done = (record payload).take done

/-- What the consumer knows at each point of a call. -/
def ConsumerOk (ring : SharedRing) (P C : Nat) : ConsumerPc → Prop
  | .idle => True
  | .loadOwn => True
  | .loadPeer own => own.toNat = C % 2 ^ 64
  | .test own peer => own.toNat = C % 2 ^ 64 ∧ ∃ P', C ≤ P' ∧ P' ≤ P ∧ peer.toNat = P' % 2 ^ 64
  | .readLen own got => own.toNat = C % 2 ^ 64 ∧ C < P ∧ got.length ≤ LEN_SIZE ∧
      got = ring.bytes.read (ring.slotOf C) got.length
  | .readBytes own len got => own.toNat = C % 2 ^ 64 ∧ C < P ∧
      len = lenAt ring.bytes (ring.slotOf C) ∧ got.length ≤ len ∧
      got = ring.bytes.read (ring.slotOf C + LEN_SIZE) got.length
  | .panicked => False

/-- The state with `P` messages published and `C` consumed. -/
structure Inv (P C : Nat) (s : State) : Prop where
  capacity : 0 < s.ring.header.capacity.toNat
  window : s.ring.Window P C
  producer : ProducerOk s.ring P C s.producer
  consumer : ConsumerOk s.ring P C s.consumer

/-- What the return of a call did to the queue. -/
def event : Option Return → FifoEvent Payload
  | some (.send payload (.ok ())) => .put payload
  | some (.recv (.ok (some payload))) => .take payload
  | _ => .none

/-- A step from `P, C` to `P', C'` that is a step of the bounded queue with that event. -/
structure Simulates (P C : Nat) (s : State) (r : Option Return) (s' : State) (P' C' : Nat) :
    Prop where
  inv : Inv P' C' s'
  fixed : s'.ring.header.capacity = s.ring.header.capacity ∧
    s'.ring.header.slotSize = s.ring.header.slotSize
  queue : FifoStep s.ring.header.capacity.toNat (s.ring.contents P C) (event r)
    (s'.ring.contents P' C')
  puts : P' = P + (putsOf [event r]).length
  takes : C' = C + (takesOf [event r]).length

/-- A step that only moves a process and returns nothing to the queue. -/
theorem Inv.quiet {r : Option Return} {s' : State} (hr : event r = .none)
    (hring : s'.ring = s.ring) (h : Inv P C s) (hp : ProducerOk s.ring P C s'.producer)
    (hc : ConsumerOk s.ring P C s'.consumer) : Simulates P C s r s' P C := by
  refine ⟨⟨?_, ?_, ?_, ?_⟩, ?_, ?_, ?_, ?_⟩
  · rw [hring]; exact h.capacity
  · rw [hring]; exact h.window
  · rw [hring]; exact hp
  · rw [hring]; exact hc
  · rw [hring]; exact ⟨rfl, rfl⟩
  · rw [hr, hring]; exact .none _
  · rw [hr]; rfl
  · rw [hr]; rfl

theorem Inv.startSend (h : Inv P C s) (endpoint : EndpointState) (payload : Payload) :
    Simulates P C s (startSend s endpoint payload).1 (startSend s endpoint payload).2 P C := by
  unfold Spsc.startSend
  split
  · split
    · exact h.quiet rfl rfl h.producer h.consumer
    · split
      · exact h.quiet rfl rfl h.producer h.consumer
      · rename_i hlen
        exact h.quiet rfl rfl (Nat.not_lt.1 hlen) h.consumer
  · exact h.quiet rfl rfl h.producer h.consumer

theorem Inv.startRecv (h : Inv P C s) (endpoint : EndpointState) :
    Simulates P C s (startRecv s endpoint).1 (startRecv s endpoint).2 P C := by
  unfold Spsc.startRecv
  split
  · split
    · exact h.quiet rfl rfl h.producer h.consumer
    · exact h.quiet rfl rfl h.producer trivial
  · exact h.quiet rfl rfl h.producer h.consumer

/-! ## Steps of the producer -/

/-- The consumer does not see what is written into the slot of the next message. -/
theorem ConsumerOk.scribble {ring : SharedRing} {pc : ConsumerPc} (h : ConsumerOk ring P C pc)
    (w : ring.Window P C) (hs : Steady ring.header.capacity.toNat (P + 1))
    (hroom : P < C + ring.header.capacity.toNat) {m : Memory}
    (hm : ∀ i, (∀ b, b < slotStride ring.header.slotSize → i ≠ ring.slotOf P + b) →
      m i = ring.bytes i) : ConsumerOk { ring with bytes := m } P C pc := by
  have hread : C < P → ∀ a n, a + n ≤ slotStride ring.header.slotSize →
      m.read (ring.slotOf C + a) n = ring.bytes.read (ring.slotOf C + a) n := by
    intro hlt a n hn
    refine Memory.read_congr fun i hi => hm _ fun b hb => ?_
    rw [Nat.add_assoc]
    exact SharedRing.apart hs hroom (Nat.le_refl C) hlt (by omega) hb
  cases pc with
  | readLen own got =>
    obtain ⟨ho, hlt, hl, hg⟩ := h
    refine ⟨ho, hlt, hl, hg.trans ?_⟩
    exact (hread hlt 0 _ (by unfold slotStride; omega)).symm
  | readBytes own len got =>
    obtain ⟨ho, hlt, hlen, hl, hg⟩ := h
    have hbound := w.lens C (Nat.le_refl C) hlt
    have hsame : lenAt m (ring.slotOf C) = lenAt ring.bytes (ring.slotOf C) :=
      congrArg leVal (hread hlt 0 LEN_SIZE (by unfold slotStride; omega))
    refine ⟨ho, hlt, hlen.trans hsame.symm, hl, hg.trans ?_⟩
    exact (hread hlt LEN_SIZE _ (by unfold slotStride; omega)).symm
  | _ => exact h

theorem ConsumerOk.publish {ring : SharedRing} {pc : ConsumerPc} (h : ConsumerOk ring P C pc)
    (own : UInt64) :
    ConsumerOk { ring with header := { ring.header with producer := own } } (P + 1) C pc := by
  cases pc with
  | test own peer =>
    obtain ⟨ho, P', h1, h2, hp⟩ := h
    exact ⟨ho, P', h1, by omega, hp⟩
  | readLen own got => exact ⟨h.1, by have := h.2.1; omega, h.2.2⟩
  | readBytes own len got => exact ⟨h.1, by have := h.2.1; omega, h.2.2⟩
  | _ => exact h

/-- One more byte of the record. -/
theorem Inv.writeByte (h : Inv P C s) (hs : Steady s.ring.header.capacity.toNat (P + 1))
    {payload : Payload} {own : UInt64} {done : Nat} {byte : UInt8}
    (hpc : s.producer = .write payload own done) (hb : (record payload)[done]? = some byte) :
    let off := s.ring.slotPtr (own % s.ring.header.capacity.toUInt64) + done
    Simulates P C s none { s with
      ring := { s.ring with bytes := s.ring.bytes.write off [byte] }
      producer := .write payload own (done + 1) } P C := by
  intro off
  have hp := h.producer
  rw [hpc] at hp
  obtain ⟨hlen, ho, hroom, hdone, hrec⟩ := hp
  obtain ⟨hlt, hbyte⟩ := List.getElem?_eq_some_iff.1 hb
  have hoff : off = s.ring.slotOf P + done := by
    show s.ring.slotPtr _ + done = _
    rw [SharedRing.slotPtr_eq_slotOf ho]
  have hin : done < slotStride s.ring.header.slotSize := by
    rw [length_record] at hlt
    unfold slotStride
    omega
  have hm : ∀ i, (∀ b, b < slotStride s.ring.header.slotSize → i ≠ s.ring.slotOf P + b) →
      s.ring.bytes.write off [byte] i = s.ring.bytes i := by
    intro i hi
    have hne := hi done hin
    rcases Nat.lt_or_ge i off with hlt' | hge
    · exact Memory.write_of_lt hlt'
    · exact Memory.write_of_ge (by simp only [List.length_singleton]; omega)
  obtain ⟨hw, hcont⟩ := h.window.scribble hs hroom hm
  refine ⟨⟨h.capacity, hw, ⟨hlen, ho, hroom, hlt, ?_⟩, h.consumer.scribble h.window hs hroom hm⟩,
    ⟨rfl, rfl⟩, ?_, rfl, rfl⟩
  · -- the bytes written before are below `off`, the new one is at `off`
    show (s.ring.bytes.write off [byte]).read (s.ring.slotOf P) (done + 1) = _
    rw [Memory.read_add, Memory.read_write_of_disjoint (Or.inl (by omega)), hrec, ← hoff,
      show (s.ring.bytes.write off [byte]).read off 1 = [byte] from Memory.read_write_self,
      List.take_add_one, hb]
    rfl
  · rw [hcont]
    exact .none _

/-- The record is complete: the counter is stored and the message is published. -/
theorem Inv.store (h : Inv P C s) {payload : Payload} {own : UInt64} {done : Nat}
    (hpc : s.producer = .write payload own done) (hb : (record payload)[done]? = none) :
    Simulates P C s (some (.send payload (.ok ()))) { s with
      ring := { s.ring with header := { s.ring.header with producer := own + 1 } }
      producer := .idle } (P + 1) C := by
  have hp := h.producer
  rw [hpc] at hp
  obtain ⟨hlen, ho, hroom, hdone, hrec⟩ := hp
  have hall : done = (record payload).length := by
    have := List.getElem?_eq_none_iff.1 hb
    omega
  rw [hall, List.take_length] at hrec
  have hown : own = s.ring.header.producer := by
    rw [← UInt64.toNat_inj, ho, h.window.producer]
  subst hown
  obtain ⟨hw, hcont⟩ := h.window.publish hroom hlen hrec
  refine ⟨⟨h.capacity, hw, trivial, h.consumer.publish _⟩, ⟨rfl, rfl⟩, ?_, rfl, rfl⟩
  show FifoStep _ _ (.put payload) _
  rw [hcont]
  exact .put payload (by rw [SharedRing.length_contents]; have := h.window.le; omega)

theorem Inv.producerStep (h : Inv P C s) (hs : Steady s.ring.header.capacity.toNat (P + 1)) :
    ∃ P', Simulates P C s (producerStep s).1 (producerStep s).2 P' C := by
  have hp := h.producer
  unfold Spsc.producerStep
  cases hpc : s.producer with
  | idle => exact ⟨P, h.quiet rfl rfl h.producer h.consumer⟩
  | loadOwn payload =>
    rw [hpc] at hp
    exact ⟨P, h.quiet rfl rfl ⟨hp, h.window.producer⟩ h.consumer⟩
  | loadPeer payload own =>
    rw [hpc] at hp
    exact ⟨P, h.quiet rfl rfl
      ⟨hp.1, hp.2, C, Nat.le_refl C, h.window.room, h.window.consumer⟩ h.consumer⟩
  | test payload own peer =>
    rw [hpc] at hp
    obtain ⟨hlen, ho, C', hC', hroom, hpeer⟩ := hp
    have hfull := SharedRing.full_iff ho hpeer (Nat.le_trans hC' h.window.le) hroom
    have hslot := s.ring.header.slotSize.toNat_lt
    simp only
    split
    · exact ⟨P, h.quiet rfl rfl trivial h.consumer⟩
    · rename_i hnot
      rw [if_neg (by omega)]
      have hlt : P < C + s.ring.header.capacity.toNat := by
        have := mt hfull.2 hnot
        omega
      exact ⟨P, h.quiet rfl rfl ⟨hlen, ho, hlt, Nat.zero_le _, rfl⟩ h.consumer⟩
  | write payload own done =>
    simp only
    cases hb : (record payload)[done]? with
    | some byte => exact ⟨P, h.writeByte hs hpc hb⟩
    | none => exact ⟨P + 1, h.store hpc hb⟩

/-! ## Steps of the consumer -/

theorem ProducerOk.consume {ring : SharedRing} {pc : ProducerPc} (h : ProducerOk ring P C pc)
    (own : UInt64) :
    ProducerOk { ring with header := { ring.header with consumer := own } } P (C + 1) pc := by
  cases pc with
  | test payload own peer =>
    obtain ⟨hlen, ho, C', hC', hrest⟩ := h
    exact ⟨hlen, ho, C', by omega, hrest⟩
  | write payload own done =>
    obtain ⟨hlen, ho, hroom, hrest⟩ := h
    exact ⟨hlen, ho, show P < C + 1 + ring.header.capacity.toNat by omega, hrest⟩
  | _ => exact h

/-- One more byte read is one byte more of the read. -/
theorem read_more {m : Memory} {off : Nat} {got : List UInt8} (h : got = m.read off got.length) :
    got ++ [m (off + got.length)] = m.read off (got ++ [m (off + got.length)]).length := by
  rw [List.length_append, List.length_singleton, Memory.read_add, ← h]
  simp [Memory.read]

/-- The payload is complete: the counter is stored and the message is consumed. -/
theorem Inv.take (h : Inv P C s) {own : UInt64} {len : Nat} {got : List UInt8}
    (hpc : s.consumer = .readBytes own len got) (hall : ¬ got.length < len) :
    Simulates P C s (some (.recv (.ok (some got)))) { s with
      ring := { s.ring with header := { s.ring.header with consumer := own + 1 } }
      consumer := .idle } P (C + 1) := by
  have hc := h.consumer
  rw [hpc] at hc
  obtain ⟨ho, hlt, hlen, hle, hgot⟩ := hc
  have hown : own = s.ring.header.consumer := by
    rw [← UInt64.toNat_inj, ho, h.window.consumer]
  subst hown
  have hpay : got = payloadAt s.ring.bytes (s.ring.slotOf C) := by
    rw [show got.length = lenAt s.ring.bytes (s.ring.slotOf C) by omega] at hgot
    exact hgot
  obtain ⟨hw, hcont⟩ := h.window.consume hlt
  refine ⟨⟨h.capacity, hw, h.producer.consume _, trivial⟩, ⟨rfl, rfl⟩, ?_, rfl, rfl⟩
  show FifoStep _ _ (.take got) _
  rw [hcont, ← hpay]
  exact .take got _

theorem Inv.consumerStep (h : Inv P C s) :
    ∃ C', Simulates P C s (consumerStep s).1 (consumerStep s).2 P C' := by
  have hc := h.consumer
  unfold Spsc.consumerStep
  cases hpc : s.consumer with
  | idle => exact ⟨C, h.quiet rfl rfl h.producer h.consumer⟩
  | loadOwn => exact ⟨C, h.quiet rfl rfl h.producer h.window.consumer⟩
  | loadPeer own =>
    rw [hpc] at hc
    exact ⟨C, h.quiet rfl rfl h.producer ⟨hc, P, h.window.le, Nat.le_refl P, h.window.producer⟩⟩
  | test own peer =>
    rw [hpc] at hc
    obtain ⟨ho, P', h1, h2, hpeer⟩ := hc
    have hroom := h.window.room
    have hempty : own = peer ↔ C = P' := s.ring.empty_iff ho hpeer h1 (by omega)
    have hcap : s.ring.header.capacity.toUInt64 ≠ 0 :=
      SharedRing.divisor_ne_zero (Nat.ne_of_gt h.capacity)
    simp only [if_neg hcap]
    split
    · exact ⟨C, h.quiet rfl rfl h.producer trivial⟩
    · rename_i hne
      have hlt : C < P := by
        have := mt hempty.2 hne
        omega
      exact ⟨C, h.quiet rfl rfl h.producer ⟨ho, hlt, Nat.zero_le _, rfl⟩⟩
  | readLen own got =>
    rw [hpc] at hc
    obtain ⟨ho, hlt, hl, hgot⟩ := hc
    simp only [SharedRing.slotPtr_eq_slotOf ho]
    split
    · rename_i hmore
      refine ⟨C, h.quiet rfl rfl h.producer ⟨ho, hlt, ?_, read_more hgot⟩⟩
      rw [List.length_append, List.length_singleton]
      exact hmore
    · rename_i hdone
      have hval : leVal got = lenAt s.ring.bytes (s.ring.slotOf C) := by
        rw [show got.length = LEN_SIZE by omega] at hgot
        exact congrArg leVal hgot
      have hbound := h.window.lens C (Nat.le_refl C) hlt
      rw [if_neg (by omega)]
      exact ⟨C, h.quiet rfl rfl h.producer ⟨ho, hlt, hval, Nat.zero_le _, rfl⟩⟩
  | readBytes own len got =>
    simp only
    split
    · rename_i hmore
      rw [hpc] at hc
      obtain ⟨ho, hlt, hlen, hl, hgot⟩ := hc
      simp only [SharedRing.slotPtr_eq_slotOf ho]
      refine ⟨C, h.quiet rfl rfl h.producer ⟨ho, hlt, hlen, ?_, read_more hgot⟩⟩
      rw [List.length_append, List.length_singleton]
      exact hmore
    · rename_i hall
      exact ⟨C + 1, h.take hpc hall⟩
  | panicked => rw [hpc] at hc; exact hc.elim

/-- **Every step is a step of the bounded queue.** -/
theorem Inv.step (h : Inv P C s) (hs : Steady s.ring.header.capacity.toNat (P + 1)) (a : Act) :
    ∃ P' C', Simulates P C s (step s a).1 (step s a).2 P' C' := by
  cases a with
  | send endpoint payload => exact ⟨P, C, h.startSend endpoint payload⟩
  | recv endpoint => exact ⟨P, C, h.startRecv endpoint⟩
  | producer => obtain ⟨P', hP'⟩ := h.producerStep hs; exact ⟨P', C, hP'⟩
  | consumer => obtain ⟨C', hC'⟩ := h.consumerStep; exact ⟨P, C', hC'⟩

end Spsc

end CourtKernel
