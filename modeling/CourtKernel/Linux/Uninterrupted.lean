import CourtKernel.Linux.Interleaving

/-!
# Calls without interruption

The steps of a process, taken one after the other without a step of the other process in between,
are the calls `SharedRing.send` and `SharedRing.recv`: the same result, the same bytes, the same
counters.  So the interleaved machine and the plain functions are models of the same code.

* `write_all`, `read_all` — the byte loops, by induction on the bytes left.
* `send_uninterrupted`, `recv_uninterrupted` — the whole calls.
-/

namespace CourtKernel

namespace Spsc

variable {ring : SharedRing} {s : State}

/-- The steps `acts` take `s` to `s'`, and the calls that return on the way return `rs`. -/
def Runs (ring : SharedRing) (s : State) (acts : List Act) (s' : State) (rs : List Return) : Prop :=
  (machine ring).run s acts = s' ∧ ((machine ring).log s acts).filterMap Prod.snd = rs

theorem Runs.nil : Runs ring s [] s [] := ⟨rfl, rfl⟩

theorem Runs.append {s₁ s₂ : State} {acts acts' : List Act} {rs rs' : List Return}
    (h : Runs ring s acts s₁ rs) (h' : Runs ring s₁ acts' s₂ rs') :
    Runs ring s (acts ++ acts') s₂ (rs ++ rs') := by
  obtain ⟨rfl, rfl⟩ := h
  obtain ⟨rfl, rfl⟩ := h'
  refine ⟨Machine.run_append .., ?_⟩
  rw [Machine.log_append, List.filterMap_append]

theorem Runs.one {a : Act} {s' : State} {r : Option Return} (h : step s a = (r, s')) :
    Runs ring s [a] s' r.toList := by
  refine ⟨congrArg Prod.snd h, ?_⟩
  have hstep : (machine ring).step s a = (r, s') := h
  rw [Machine.log_cons, Machine.log_nil, hstep]
  cases r <;> rfl

/-- Several steps of the producer write the rest of the record. -/
theorem write_all {payload : Payload} {own : UInt64} {off : Nat} :
    ∀ (rest written : List UInt8) (s : State), record payload = written ++ rest →
      s.producer = .write payload own written.length →
      off = s.ring.slotPtr (own % s.ring.header.capacity.toUInt64) →
      Runs ring s (List.replicate rest.length .producer) { s with
        ring := { s.ring with bytes := s.ring.bytes.write (off + written.length) rest }
        producer := .write payload own (record payload).length } [] := by
  intro rest
  induction rest with
  | nil =>
    intro written s hrec hpc _
    obtain ⟨⟨header, bytes, len⟩, producer, consumer⟩ := s
    obtain rfl := hpc
    rw [Memory.write_nil, hrec, List.append_nil]
    exact .nil
  | cons byte rest ih =>
    intro written s hrec hpc hoff
    have hbyte : (record payload)[written.length]? = some byte := by simp [hrec]
    have hstep : step s .producer = (none, { s with
        ring := { s.ring with bytes := s.ring.bytes.write (off + written.length) [byte] }
        producer := .write payload own (written.length + 1) }) := by
      simp only [step, producerStep, hpc, hbyte, hoff]
    have hrest := ih (written ++ [byte]) (step s .producer).2 (by simp [hrec])
      (by rw [hstep]; simp) (by rw [hstep]; exact hoff)
    rw [hstep] at hrest
    have hwrite := @Memory.write_append s.ring.bytes (off + written.length) [byte] rest
    simp only [List.length_append, List.length_singleton, ← Nat.add_assoc] at hrest hwrite
    rw [hwrite] at hrest
    exact (Runs.one hstep).append hrest

/-- Several steps of the consumer read the rest of `n` bytes from `off` on, when `reading` is the
place in the call where it does so. -/
theorem read_all (shared : SharedRing) (off : Nat) {reading : List UInt8 → ConsumerPc} {n : Nat}
    (hread : ∀ (s : State) (got : List UInt8), s.ring = shared → s.consumer = reading got →
      got.length < n → step s .consumer =
        (none, { s with consumer := reading (got ++ [shared.bytes (off + got.length)]) })) :
    ∀ (k : Nat) (got : List UInt8) (s : State), s.ring = shared → got.length + k = n →
      s.consumer = reading got →
      Runs ring s (List.replicate k .consumer)
        { s with consumer := reading (got ++ shared.bytes.read (off + got.length) k) } [] := by
  intro k
  induction k with
  | zero =>
    intro got s _ _ hpc
    obtain ⟨ring', producer, consumer⟩ := s
    obtain rfl := hpc
    rw [Memory.read_zero, List.append_nil]
    exact .nil
  | succ k ih =>
    intro got s hring hk hpc
    have hstep := hread s got hring hpc (by omega)
    have hrest := ih (got ++ [shared.bytes (off + got.length)]) (step s .consumer).2
      (by rw [hstep]; exact hring)
      (by simp only [List.length_append, List.length_singleton]; omega) (by rw [hstep])
    rw [hstep] at hrest
    rw [Memory.read_succ]
    simp only [List.length_append, List.length_singleton, List.append_assoc, List.singleton_append,
      ← Nat.add_assoc] at hrest
    exact (Runs.one hstep).append hrest

/-- **A send without interruption is `SharedRing.send`.** -/
theorem send_uninterrupted {shared shared' : SharedRing} {consumer : ConsumerPc}
    {endpoint : EndpointState} {payload : Payload} {r : Except WireStatus Unit}
    (h : shared.send endpoint payload = some (r, shared')) :
    ∃ n, Runs ring ⟨shared, .idle, consumer⟩ (.send endpoint payload :: List.replicate n .producer)
      ⟨shared', .idle, consumer⟩ [.send payload r] := by
  unfold SharedRing.send at h
  split at h
  · -- the endpoint refuses
    rename_i hst
    obtain ⟨rfl, rfl⟩ := Prod.mk.inj (Option.some.inj h)
    have hstep : step ⟨shared, .idle, consumer⟩ (.send endpoint payload) =
        (some (.send payload (.error endpoint.status)), ⟨shared, .idle, consumer⟩) := by
      simp only [step, startSend, if_pos hst]
    exact ⟨0, Runs.one hstep⟩
  rename_i hst
  split at h
  · -- the payload does not fit
    rename_i hlong
    obtain ⟨rfl, rfl⟩ := Prod.mk.inj (Option.some.inj h)
    have hstep : step ⟨shared, .idle, consumer⟩ (.send endpoint payload) =
        (some (.send payload (.error .invalidObject)), ⟨shared, .idle, consumer⟩) := by
      simp only [step, startSend, if_neg hst, if_pos hlong]
    exact ⟨0, Runs.one hstep⟩
  rename_i hlong
  have hstart : step ⟨shared, .idle, consumer⟩ (.send endpoint payload) =
      (none, ⟨shared, .loadOwn payload, consumer⟩) := by
    simp only [step, startSend, if_neg hst, if_neg hlong]
  have hload : Runs ring ⟨shared, .idle, consumer⟩ (.send endpoint payload :: List.replicate 2 .producer)
      ⟨shared, .test payload shared.header.producer shared.header.consumer, consumer⟩ [] :=
    (Runs.one hstart).append ((Runs.one rfl).append (Runs.one rfl))
  dsimp only at h
  split at h
  · -- the ring is full
    rename_i hfull
    obtain ⟨rfl, rfl⟩ := Prod.mk.inj (Option.some.inj h)
    have hstep : step ⟨shared, .test payload shared.header.producer shared.header.consumer, consumer⟩
        .producer = (some (.send payload (.error .queueFull)), ⟨shared, .idle, consumer⟩) := by
      simp only [step, producerStep, if_pos hfull]
    exact ⟨3, hload.append (Runs.one hstep)⟩
  rename_i hfull
  split at h
  · cases h
  rename_i slot hrem
  obtain ⟨-, rfl⟩ := SharedRing.rem_eq_some.1 hrem
  split at h
  · -- the length does not fit a `u32`
    rename_i hlen
    obtain ⟨rfl, rfl⟩ := Prod.mk.inj (Option.some.inj h)
    have hstep : step ⟨shared, .test payload shared.header.producer shared.header.consumer, consumer⟩
        .producer = (some (.send payload (.error .invalidObject)), ⟨shared, .idle, consumer⟩) := by
      simp only [step, producerStep, if_neg hfull, if_pos hlen]
    exact ⟨3, hload.append (Runs.one hstep)⟩
  -- the message is written and published
  rename_i hlen
  obtain ⟨rfl, rfl⟩ := Prod.mk.inj (Option.some.inj h)
  have htest : step ⟨shared, .test payload shared.header.producer shared.header.consumer, consumer⟩
      .producer = (none, ⟨shared, .write payload shared.header.producer 0, consumer⟩) := by
    simp only [step, producerStep, if_neg hfull, if_neg hlen]
  have hwrite : Runs ring _ _ _ [] := write_all (record payload) []
    ⟨shared, .write payload shared.header.producer 0, consumer⟩ rfl rfl rfl
  have hdone : (record payload)[(record payload).length]? = none :=
    List.getElem?_eq_none (Nat.le_refl _)
  have hstore : ∀ bytes, step ⟨{ shared with bytes := bytes },
      .write payload shared.header.producer (record payload).length, consumer⟩ .producer =
      (some (.send payload (.ok ())), ⟨{ shared with
        bytes := bytes
        header := { shared.header with producer := shared.header.producer + 1 } }, .idle,
        consumer⟩) := by
    intro bytes
    simp only [step, producerStep, hdone]
  rw [write_len_payload]
  have hall := hload.append ((Runs.one htest).append (hwrite.append (Runs.one (hstore _))))
  refine ⟨2 + (1 + ((record payload).length + 1)), ?_⟩
  rw [List.replicate_add, List.replicate_add, List.replicate_add]
  exact hall

/-- **A receive without interruption is `SharedRing.recv`.** -/
theorem recv_uninterrupted {shared shared' : SharedRing} {producer : ProducerPc}
    {endpoint : EndpointState} {r : Except WireStatus (Option Payload)}
    (h : shared.recv endpoint = some (r, shared')) :
    ∃ n, Runs ring ⟨shared, producer, .idle⟩ (.recv endpoint :: List.replicate n .consumer)
      ⟨shared', producer, .idle⟩ [.recv r] := by
  unfold SharedRing.recv at h
  split at h
  · -- the endpoint refuses
    rename_i hst
    obtain ⟨rfl, rfl⟩ := Prod.mk.inj (Option.some.inj h)
    have hstep : step ⟨shared, producer, .idle⟩ (.recv endpoint) =
        (some (.recv (.error endpoint.status)), ⟨shared, producer, .idle⟩) := by
      simp only [step, startRecv, if_pos hst]
    exact ⟨0, Runs.one hstep⟩
  rename_i hst
  have hstart : step ⟨shared, producer, .idle⟩ (.recv endpoint) =
      (none, ⟨shared, producer, .loadOwn⟩) := by
    simp only [step, startRecv, if_neg hst]
  have hload : Runs ring ⟨shared, producer, .idle⟩ (.recv endpoint :: List.replicate 2 .consumer)
      ⟨shared, producer, .test shared.header.consumer shared.header.producer⟩ [] :=
    (Runs.one hstart).append ((Runs.one rfl).append (Runs.one rfl))
  dsimp only at h
  split at h
  · -- the ring is empty
    rename_i hempty
    obtain ⟨rfl, rfl⟩ := Prod.mk.inj (Option.some.inj h)
    have hstep : step ⟨shared, producer, .test shared.header.consumer shared.header.producer⟩
        .consumer = (some (.recv (.ok none)), ⟨shared, producer, .idle⟩) := by
      simp only [step, consumerStep, if_pos hempty]
    exact ⟨3, hload.append (Runs.one hstep)⟩
  rename_i hempty
  split at h
  · cases h
  rename_i slot hrem
  obtain ⟨hcap, rfl⟩ := SharedRing.rem_eq_some.1 hrem
  have htest : step ⟨shared, producer, .test shared.header.consumer shared.header.producer⟩
      .consumer = (none, ⟨shared, producer, .readLen shared.header.consumer []⟩) := by
    simp only [step, consumerStep, if_neg hempty, if_neg hcap]
  have hreadLen : Runs ring _ _ _ [] := read_all shared
    (shared.slotPtr (shared.header.consumer % shared.header.capacity.toUInt64))
    (fun s got hring hpc hlt => by simp only [step, consumerStep, hpc, hring, if_pos hlt])
    LEN_SIZE [] ⟨shared, producer, .readLen shared.header.consumer []⟩ rfl (Nat.zero_add _) rfl
  have hlen := hload.append ((Runs.one htest).append hreadLen)
  rw [List.nil_append, List.length_nil, Nat.add_zero] at hlen
  generalize hslot : shared.slotPtr (shared.header.consumer % shared.header.capacity.toUInt64) = off
    at h hlen
  have hdone : ¬ (shared.bytes.read off LEN_SIZE).length < LEN_SIZE := by
    rw [Memory.length_read]
    exact Nat.lt_irrefl _
  split at h
  · -- the length in the slot is too large
    rename_i hlong
    obtain ⟨rfl, rfl⟩ := Prod.mk.inj (Option.some.inj h)
    have hstep : step ⟨shared, producer,
        .readLen shared.header.consumer (shared.bytes.read off LEN_SIZE)⟩ .consumer =
        (some (.recv (.error .invalidObject)), ⟨shared, producer, .idle⟩) := by
      simp only [step, consumerStep, if_neg hdone, if_pos hlong]
    refine ⟨2 + (1 + (LEN_SIZE + 1)), ?_⟩
    rw [List.replicate_add, List.replicate_add, List.replicate_add]
    exact hlen.append (Runs.one hstep)
  -- the payload is read and the slot released
  rename_i hlong
  obtain ⟨rfl, rfl⟩ := Prod.mk.inj (Option.some.inj h)
  generalize hn : leVal (shared.bytes.read off LEN_SIZE) = len at hlong
  have hcheck : step ⟨shared, producer,
      .readLen shared.header.consumer (shared.bytes.read off LEN_SIZE)⟩ .consumer =
      (none, ⟨shared, producer, .readBytes shared.header.consumer len []⟩) := by
    simp only [step, consumerStep, if_neg hdone, hn, if_neg hlong]
  have hreadBytes : Runs ring _ _ _ [] := read_all shared (off + LEN_SIZE)
    (fun s got hring hpc hlt => by simp only [step, consumerStep, hpc, hring, hslot, if_pos hlt])
    len [] ⟨shared, producer, .readBytes shared.header.consumer len []⟩ rfl (Nat.zero_add _) rfl
  rw [List.nil_append, List.length_nil, Nat.add_zero] at hreadBytes
  have hall : ¬ (shared.bytes.read (off + LEN_SIZE) len).length < len := by
    rw [Memory.length_read]
    exact Nat.lt_irrefl _
  have hstore : step ⟨shared, producer, .readBytes shared.header.consumer len
      (shared.bytes.read (off + LEN_SIZE) len)⟩ .consumer =
      (some (.recv (.ok (some (shared.bytes.read (off + LEN_SIZE) len)))), ⟨{ shared with
        header := { shared.header with consumer := shared.header.consumer + 1 } }, producer,
        .idle⟩) := by
    simp only [step, consumerStep, if_neg hall]
  refine ⟨2 + (1 + (LEN_SIZE + (1 + (len + 1)))), ?_⟩
  rw [List.replicate_add, List.replicate_add, List.replicate_add, List.replicate_add,
    List.replicate_add]
  exact hlen.append ((Runs.one hcheck).append (hreadBytes.append (Runs.one hstore)))

end Spsc

end CourtKernel
