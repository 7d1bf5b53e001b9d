import CourtKernel.Linux.Window
import CourtKernel.Lib.Machine

/-!
# Counters that wrap

Calls on a `SharedRing` one after the other, from any counters and any bytes in its slots: a ring file
is opened as its last users left it.

* `Mailbox` — what the ring is for: a bounded first-in first-out queue.  An entry `none` is a slot
  whose length `recv` refuses; it stays at the front.
* `Spread cap C n` — the `n` messages from counter `C` on have different slots (`slots_ne_iff`): the
  capacity divides `2^64`, or no message is past the wrap, or they are few.
* `unread`, `unreadSlot` — the messages between the counters and their slots, in the wrapping
  arithmetic of the source; `messages` is what `recv` makes of them.
* `Ordered ring` — the unread messages fit the ring and are spread.
* `Ordered.send`, `Ordered.recv` — a call on the ring is the call on its mailbox, if that stays spread;
  `Ordered.spares_iff` — otherwise a send hits the slot of an unread message.
* `ring_survives_wrap` — whole runs; `wrap_loses_message` — a wrap at a capacity of three.
-/

namespace CourtKernel

/-- Calls on a ring, with the state of the endpoint that makes them. -/
inductive RingCall where
  | send (endpoint : EndpointState) (payload : Payload)
  | recv (endpoint : EndpointState)

inductive RingReply where
  | sent (result : Except WireStatus Unit)
  | received (result : Except WireStatus (Option Payload))
  | panicked
  deriving DecidableEq

/-! ## The queue -/

/-- A bounded queue of messages.  The counter of its oldest message has no part in the answers. -/
structure Mailbox where
  capacity : Nat
  slotSize : Nat
  queue : List (Option Payload)
  consumer : Nat

namespace Mailbox

def step (self : Mailbox) : RingCall → RingReply × Mailbox
  | .send endpoint payload =>
    if endpoint.status ≠ .ok then (.sent (.error endpoint.status), self)
    else if payload.length > self.slotSize then (.sent (.error .invalidObject), self)
    else if self.queue.length ≥ self.capacity then (.sent (.error .queueFull), self)
    else (.sent (.ok ()), { self with queue := self.queue ++ [some payload] })
  | .recv endpoint =>
    if endpoint.status ≠ .ok then (.received (.error endpoint.status), self)
    else
      match self.queue with
      | [] => (.received (.ok none), self)
      | none :: _ => (.received (.error .invalidObject), self)
      | some payload :: queue =>
        (.received (.ok (some payload)),
          { self with queue := queue, consumer := (self.consumer + 1) % 2 ^ 64 })

def machine (self : Mailbox) : Machine Mailbox RingCall RingReply := ⟨self, step⟩

end Mailbox

/-! ## Slots of consecutive messages -/

/-- When the `n` messages from counter `C` on lie in different slots. -/
def Spread (cap C n : Nat) : Prop := cap ∣ 2 ^ 64 ∨ C + n ≤ 2 ^ 64 ∨ n ≤ 2 ^ 64 % cap

instance (cap C n : Nat) : Decidable (Spread cap C n) := inferInstanceAs (Decidable (_ ∨ _))

/-- The slot of the message that is `d` before the wrap. -/
theorem slot_before_wrap {cap d : Nat} (hd : d ≤ 2 ^ 64 % cap) :
    (2 ^ 64 - d) % cap = 2 ^ 64 % cap - d := by
  rcases Nat.eq_zero_or_pos cap with rfl | hpos
  · rw [Nat.mod_zero, Nat.mod_zero]
  have hdiv := Nat.div_add_mod (2 ^ 64) cap
  have hlt := Nat.mod_lt (2 ^ 64) hpos
  have hsplit : 2 ^ 64 - d = 2 ^ 64 % cap - d + cap * (2 ^ 64 / cap) := by omega
  rw [hsplit, Nat.add_mul_mod_self_left, Nat.mod_eq_of_lt (by omega)]

namespace Spread

variable {cap C n : Nat}

theorem slot_ne (h : Spread cap C n) (hC : C < 2 ^ 64) (hn : n ≤ cap) {i j : Nat} (hij : i < j)
    (hj : j < n) : (C + i) % 2 ^ 64 % cap ≠ (C + j) % 2 ^ 64 % cap := by
  rcases h with hdvd | hbelow | hfew
  · exact CourtKernel.slot_ne (Or.inr hdvd) (by omega) (by omega)
  · exact CourtKernel.slot_ne (Or.inl (by omega)) (by omega) (by omega)
  -- the messages are fewer than the slots left over by the last full round of counters
  by_cases hlow : C + j < 2 ^ 64
  · exact CourtKernel.slot_ne (Or.inl (by omega)) (by omega) (by omega)
  have hr := Nat.mod_lt (2 ^ 64) (show 0 < cap by omega)
  have hle := Nat.mod_le (2 ^ 64) cap
  have hj' : (C + j) % 2 ^ 64 = C + j - 2 ^ 64 := by omega
  by_cases hhigh : 2 ^ 64 ≤ C + i
  · have hi' : (C + i) % 2 ^ 64 = C + i - 2 ^ 64 := by omega
    rw [hi', hj', Nat.mod_eq_of_lt (show C + i - 2 ^ 64 < cap by omega),
      Nat.mod_eq_of_lt (show C + j - 2 ^ 64 < cap by omega)]
    omega
  · have hi' : (C + i) % 2 ^ 64 = 2 ^ 64 - (2 ^ 64 - (C + i)) := by omega
    rw [hi', slot_before_wrap (by omega), hj',
      Nat.mod_eq_of_lt (show C + j - 2 ^ 64 < cap by omega)]
    omega

/-- Taking the oldest message leaves the others spread. -/
theorem tail (h : Spread cap C n) (hC : C < 2 ^ 64) : Spread cap ((C + 1) % 2 ^ 64) (n - 1) := by
  rcases h with hdvd | hbelow | hfew
  · exact Or.inl hdvd
  · exact Or.inr (Or.inl (by omega))
  · exact Or.inr (Or.inr (by omega))

end Spread

/-- **Slots of consecutive messages.**  Beyond these cases two of them collide: the first message and
the one that comes `2^64 % cap` later, or else the first after the wrap and one before it. -/
theorem slots_ne_iff {cap C n : Nat} (hC : C < 2 ^ 64) (hn : n ≤ cap) :
    (∀ i j, i < j → j < n → (C + i) % 2 ^ 64 % cap ≠ (C + j) % 2 ^ 64 % cap) ↔ Spread cap C n := by
  refine ⟨fun hne => ?_, fun h i j => h.slot_ne hC hn⟩
  by_contra hspread
  rw [Spread, not_or, not_or] at hspread
  obtain ⟨hdvd, hpast, hmany⟩ := hspread
  have hpos : 0 < 2 ^ 64 % cap := Nat.pos_of_ne_zero fun h => hdvd (Nat.dvd_of_mod_eq_zero h)
  have hr := Nat.mod_lt (2 ^ 64) (show 0 < cap by omega)
  have hle := Nat.mod_le (2 ^ 64) cap
  generalize hrem : 2 ^ 64 % cap = r at hpos hr hle hmany
  by_cases hfar : 2 ^ 64 - C ≤ r
  · refine hne 0 r hpos (by omega) ?_
    have hfirst : (C + 0) % 2 ^ 64 = 2 ^ 64 - (2 ^ 64 - C) := by omega
    have hlast : (C + r) % 2 ^ 64 = r - (2 ^ 64 - C) := by omega
    rw [hfirst, slot_before_wrap (hrem ▸ hfar), hlast, hrem, Nat.mod_eq_of_lt (by omega)]
  · refine hne (2 ^ 64 - C - r) (2 ^ 64 - C) (by omega) (by omega) ?_
    have hfirst : (C + (2 ^ 64 - C - r)) % 2 ^ 64 = 2 ^ 64 - r := by omega
    have hlast : (C + (2 ^ 64 - C)) % 2 ^ 64 = 0 := by omega
    rw [hfirst, slot_before_wrap (Nat.le_of_eq hrem.symm), hlast, hrem, Nat.sub_self, Nat.zero_mod]

/-- The messages of the queue lie in different slots. -/
def Mailbox.Spread (self : Mailbox) : Prop :=
  CourtKernel.Spread self.capacity self.consumer self.queue.length

instance (self : Mailbox) : Decidable self.Spread := inferInstanceAs (Decidable (Spread _ _ _))

/-- What `recv` makes of a slot: its payload, unless the length is too large. -/
def messageAt (slotSize : UInt32) (m : Memory) (off : Nat) : Option Payload :=
  if lenAt m off ≤ slotSize.toNat then some (payloadAt m off) else none

theorem messageAt_congr {slotSize : UInt32} {m m' : Memory} {off : Nat}
    (h : ∀ i, i < slotStride slotSize → m (off + i) = m' (off + i)) :
    messageAt slotSize m off = messageAt slotSize m' off := by
  have hlen : lenAt m off = lenAt m' off :=
    congrArg leVal (Memory.read_congr fun i hi => h i (by unfold slotStride; omega))
  unfold messageAt
  by_cases hl : lenAt m off ≤ slotSize.toNat
  · rw [if_pos hl, if_pos (hlen ▸ hl), (payloadAt_congr h hl).2]
  · rw [if_neg hl, if_neg (hlen ▸ hl)]

theorem messageAt_record {slotSize : UInt32} {m : Memory} {off : Nat} {payload : Payload}
    (hlen : payload.length ≤ slotSize.toNat) :
    messageAt slotSize (m.write off (record payload)) off = some payload := by
  have hslot := slotSize.toNat_lt
  have hread : (m.write off (record payload)).read off (record payload).length = record payload :=
    Memory.read_write_self
  obtain ⟨hl, hp⟩ := payloadAt_record hread (by omega)
  rw [messageAt, if_pos (hl ▸ hlen), hp]

namespace SharedRing

variable {ring : SharedRing}

/-- `none` of the source's functions is a panic. -/
def step (self : SharedRing) : RingCall → RingReply × SharedRing
  | .send endpoint payload =>
    match self.send endpoint payload with
    | none => (.panicked, self)
    | some (result, next) => (.sent result, next)
  | .recv endpoint =>
    match self.recv endpoint with
    | none => (.panicked, self)
    | some (result, next) => (.received result, next)

def machine (self : SharedRing) : Machine SharedRing RingCall RingReply := ⟨self, step⟩

/-! ## Unread messages -/

/-- `producer.wrapping_sub(consumer)` -/
def unread (ring : SharedRing) : Nat := (ring.header.producer - ring.header.consumer).toNat

/-- The slot of the unread message `i`. -/
def unreadSlot (ring : SharedRing) (i : Nat) : UInt64 :=
  (ring.header.consumer + UInt64.ofNat i) % ring.header.capacity.toUInt64

/-- The unread messages, oldest first. -/
def messages (ring : SharedRing) : List (Option Payload) :=
  (List.range ring.unread).map fun i =>
    messageAt ring.header.slotSize ring.bytes (ring.slotPtr (ring.unreadSlot i))

/-- The ring as a queue. -/
def mailbox (ring : SharedRing) : Mailbox :=
  ⟨ring.header.capacity.toNat, ring.header.slotSize.toNat, ring.messages, ring.header.consumer.toNat⟩

@[simp] theorem length_messages : ring.messages.length = ring.unread := by
  simp [messages]

theorem toNat_producer :
    ring.header.producer.toNat = (ring.header.consumer.toNat + ring.unread) % 2 ^ 64 := by
  have hp := ring.header.producer.toNat_lt
  have hc := ring.header.consumer.toNat_lt
  rw [unread, UInt64.toNat_sub]
  omega

theorem toNat_unreadSlot (ring : SharedRing) (i : Nat) :
    (ring.unreadSlot i).toNat =
      (ring.header.consumer.toNat + i) % 2 ^ 64 % ring.header.capacity.toNat := by
  rw [unreadSlot, UInt64.toNat_mod, UInt64.toNat_add, UInt64.toNat_ofNat', Nat.add_mod_mod,
    UInt32.toNat_toUInt64]

/-- The slot of the next message. -/
theorem producer_slot (ring : SharedRing) :
    ring.header.producer % ring.header.capacity.toUInt64 = ring.unreadSlot ring.unread := by
  rw [← UInt64.toNat_inj, toNat_unreadSlot, UInt64.toNat_mod, toNat_producer, UInt32.toNat_toUInt64]

theorem slotPtr_unreadSlot (ring : SharedRing) (i : Nat) :
    ring.slotPtr (ring.unreadSlot i) = ring.slotOf (ring.header.consumer.toNat + i) := by
  rw [slotPtr, slotOf, toNat_unreadSlot]

theorem spread_mailbox : ring.mailbox.Spread ↔
    Spread ring.header.capacity.toNat ring.header.consumer.toNat ring.unread := by
  rw [Mailbox.Spread, mailbox, length_messages]

/-- **Unread messages lie in different slots** exactly if they are spread. -/
theorem unreadSlot_ne_iff {n : Nat} (hn : n ≤ ring.header.capacity.toNat) :
    (∀ i j, i < j → j < n → ring.unreadSlot i ≠ ring.unreadSlot j) ↔
      Spread ring.header.capacity.toNat ring.header.consumer.toNat n := by
  rw [← slots_ne_iff ring.header.consumer.toNat_lt hn]
  simp only [ne_eq, ← UInt64.toNat_inj, toNat_unreadSlot]

/-- The unread messages fit the ring and lie in different slots. -/
structure Ordered (ring : SharedRing) : Prop where
  capacity : ring.header.capacity ≠ 0
  room : ring.unread ≤ ring.header.capacity.toNat
  spread : ring.mailbox.Spread

/-- The ring after an accepted send. -/
def pushed (ring : SharedRing) (payload : Payload) : SharedRing :=
  { ring with
    bytes := ring.bytes.write (ring.slotPtr (ring.unreadSlot ring.unread)) (record payload)
    header := { ring.header with producer := ring.header.producer + 1 } }

/-- The ring after a message was taken. -/
def popped (ring : SharedRing) : SharedRing :=
  { ring with header := { ring.header with consumer := ring.header.consumer + 1 } }

namespace Ordered

/-- With room for one more, the next message is spread too exactly if its slot is not taken. -/
theorem next_iff (h : ring.Ordered) (hroom : ring.unread < ring.header.capacity.toNat) :
    (∀ i, i < ring.unread → ring.unreadSlot i ≠ ring.unreadSlot ring.unread) ↔
      Spread ring.header.capacity.toNat ring.header.consumer.toNat (ring.unread + 1) := by
  have hold := (unreadSlot_ne_iff h.room).2 (spread_mailbox.1 h.spread)
  rw [← unreadSlot_ne_iff hroom]
  refine ⟨fun hnew i j hij hj => ?_, fun hall i hi => hall i _ hi (Nat.lt_succ_self _)⟩
  rcases Nat.lt_succ_iff_lt_or_eq.1 hj with hj | rfl
  · exact hold i j hij hj
  · exact hnew i hij

/-- Storing a record in the next slot and publishing it appends a message. -/
theorem pushed (h : ring.Ordered) (hroom : ring.unread < ring.header.capacity.toNat)
    (hnext : Spread ring.header.capacity.toNat ring.header.consumer.toNat (ring.unread + 1))
    {payload : Payload} (hlen : payload.length ≤ ring.header.slotSize.toNat) :
    (ring.pushed payload).Ordered ∧
      (ring.pushed payload).messages = ring.messages ++ [some payload] ∧
      ∀ i, i < ring.unread → ∀ b, b < slotStride ring.header.slotSize →
        (ring.pushed payload).bytes (ring.slotPtr (ring.unreadSlot i) + b) =
          ring.bytes (ring.slotPtr (ring.unreadSlot i) + b) := by
  have hcap := ring.header.capacity.toNat_lt
  have hunread : (ring.pushed payload).unread = ring.unread + 1 := by
    have hnext := toNat_add_one ring.toNat_producer
    have hc := ring.header.consumer.toNat_lt
    show (ring.header.producer + 1 - ring.header.consumer).toNat = _
    rw [UInt64.toNat_sub, hnext]
    omega
  have hkeep : ∀ i, i < ring.unread → ∀ b, b < slotStride ring.header.slotSize →
      (ring.pushed payload).bytes (ring.slotPtr (ring.unreadSlot i) + b) =
        ring.bytes (ring.slotPtr (ring.unreadSlot i) + b) :=
    fun i hi b hb => write_record_apart hlen fun b' hb' => by
      have hslot := (h.next_iff hroom).2 hnext i hi
      rw [ne_eq, ← UInt64.toNat_inj, toNat_unreadSlot, toNat_unreadSlot] at hslot
      rw [slotPtr_unreadSlot, slotPtr_unreadSlot]
      exact slot_disjoint hslot hb hb'
  refine ⟨⟨h.capacity, ?_, ?_⟩, ?_, hkeep⟩
  · rw [hunread]
    exact hroom
  · rw [spread_mailbox, hunread]
    exact hnext
  · rw [messages, hunread, List.range_succ, List.map_append, List.map_singleton]
    refine congrArg₂ (· ++ ·) (List.map_congr_left fun i hi => ?_) ?_
    · exact messageAt_congr fun b hb => hkeep i (List.mem_range.1 hi) b hb
    · exact congrArg (fun m => [m]) (messageAt_record hlen)

/-- Advancing the consumer takes the oldest message. -/
theorem popped (h : ring.Ordered) (hne : 0 < ring.unread) :
    ring.popped.Ordered ∧
      ring.popped.header.consumer.toNat = (ring.header.consumer.toNat + 1) % 2 ^ 64 ∧
      ring.messages = messageAt ring.header.slotSize ring.bytes (ring.slotPtr (ring.unreadSlot 0)) ::
        ring.popped.messages := by
  have hcons : ring.popped.header.consumer.toNat = (ring.header.consumer.toNat + 1) % 2 ^ 64 := by
    show (ring.header.consumer + 1).toNat = _
    rw [UInt64.toNat_add]
    rfl
  have hlt := ring.header.consumer.toNat_lt
  have hunread : ring.unread = ring.popped.unread + 1 := by
    have hlt' : ring.unread < 2 ^ 64 := UInt64.toNat_lt _
    have hp : ring.popped.header.producer.toNat = _ := ring.toNat_producer
    rw [SharedRing.unread.eq_def ring.popped, UInt64.toNat_sub, hcons, hp]
    omega
  refine ⟨⟨h.capacity, ?_, ?_⟩, hcons, ?_⟩
  · show ring.popped.unread ≤ ring.header.capacity.toNat
    have := h.room
    omega
  · have htail := (spread_mailbox.1 h.spread).tail hlt
    rw [spread_mailbox, hcons]
    rwa [hunread, Nat.add_sub_cancel] at htail
  · rw [messages, hunread, List.range_succ_eq_map, List.map_cons, List.map_map]
    refine congrArg (List.cons _) (List.map_congr_left fun i _ => ?_)
    have hslot : ring.popped.unreadSlot i = ring.unreadSlot (i + 1) := by
      rw [← UInt64.toNat_inj, toNat_unreadSlot, toNat_unreadSlot, hcons, Nat.mod_add_mod,
        Nat.add_right_comm, Nat.add_assoc]
      rfl
    show messageAt _ ring.bytes (ring.slotPtr (ring.unreadSlot (i + 1))) =
      messageAt ring.header.slotSize ring.bytes (ring.slotPtr (ring.popped.unreadSlot i))
    rw [hslot]

end Ordered

/-! ## Calls -/

/-- The branches of `send`, on a ring with slots. -/
theorem send_eq (hcap : ring.header.capacity ≠ 0) (endpoint : EndpointState) (payload : Payload) :
    ring.send endpoint payload = some
      (if endpoint.status ≠ .ok then (.error endpoint.status, ring)
      else if payload.length > ring.header.slotSize.toNat then (.error .invalidObject, ring)
      else if ring.unread ≥ ring.header.capacity.toNat then (.error .queueFull, ring)
      else (.ok (), ring.pushed payload)) := by
  have hslot := ring.header.slotSize.toNat_lt
  have hrem : rem ring.header.producer ring.header.capacity.toUInt64 =
      some (ring.unreadSlot ring.unread) :=
    rem_eq_some.2 ⟨divisor_ne_zero fun h0 => hcap (UInt32.toNat_inj.1 h0), ring.producer_slot.symm⟩
  have hfull : ring.header.producer - ring.header.consumer ≥ ring.header.capacity.toUInt64 ↔
      ring.unread ≥ ring.header.capacity.toNat := by
    rw [ge_iff_le, UInt64.le_iff_toNat_le, UInt32.toNat_toUInt64]
    rfl
  unfold SharedRing.send
  by_cases hstatus : endpoint.status ≠ .ok
  · rw [if_pos hstatus, if_pos hstatus]
  rw [if_neg hstatus, if_neg hstatus]
  by_cases hlen : payload.length > ring.header.slotSize.toNat
  · rw [if_pos hlen, if_pos hlen]
  rw [if_neg hlen, if_neg hlen]
  by_cases hq : ring.unread ≥ ring.header.capacity.toNat
  · rw [if_pos hq]
    exact if_pos (hfull.2 hq)
  · have hfits : ¬ payload.length ≥ 2 ^ 32 := by omega
    simp only [if_neg hq, if_neg (mt hfull.1 hq), hrem, write_len_payload, if_neg hfits]
    rfl

/-- The branches of `recv`, on a ring with slots. -/
theorem recv_eq (hcap : ring.header.capacity ≠ 0) (endpoint : EndpointState) :
    ring.recv endpoint = some
      (if endpoint.status ≠ .ok then (.error endpoint.status, ring)
      else if ring.unread = 0 then (.ok none, ring)
      else
        match messageAt ring.header.slotSize ring.bytes (ring.slotPtr (ring.unreadSlot 0)) with
        | none => (.error .invalidObject, ring)
        | some payload => (.ok (some payload), ring.popped)) := by
  have hrem : rem ring.header.consumer ring.header.capacity.toUInt64 = some (ring.unreadSlot 0) := by
    refine rem_eq_some.2 ⟨divisor_ne_zero fun h0 => hcap (UInt32.toNat_inj.1 h0), ?_⟩
    rw [← UInt64.toNat_inj, toNat_unreadSlot, UInt64.toNat_mod, UInt32.toNat_toUInt64,
      Nat.add_zero, Nat.mod_eq_of_lt ring.header.consumer.toNat_lt]
  have hempty : ring.header.consumer = ring.header.producer ↔ ring.unread = 0 := by
    have hp := ring.toNat_producer
    have hlt := ring.header.consumer.toNat_lt
    have hlt' : ring.unread < 2 ^ 64 := UInt64.toNat_lt _
    rw [← UInt64.toNat_inj]
    omega
  unfold SharedRing.recv
  by_cases hstatus : endpoint.status ≠ .ok
  · rw [if_pos hstatus, if_pos hstatus]
  rw [if_neg hstatus, if_neg hstatus]
  by_cases hzero : ring.unread = 0
  · rw [if_pos hzero]
    exact if_pos (hempty.2 hzero)
  simp only [if_neg hzero, if_neg (mt hempty.1 hzero), hrem]
  by_cases hlen : lenAt ring.bytes (ring.slotPtr (ring.unreadSlot 0)) ≤ ring.header.slotSize.toNat
  · rw [messageAt, if_pos hlen]
    exact if_neg (Nat.not_lt.2 hlen)
  · rw [messageAt, if_neg hlen]
    exact if_pos (Nat.lt_of_not_le hlen)

theorem step_send {endpoint : EndpointState} {payload : Payload} {r : Except WireStatus Unit × SharedRing}
    (h : ring.send endpoint payload = some r) :
    ring.step (.send endpoint payload) = (.sent r.1, r.2) := by
  simp only [step, h]

theorem step_recv {endpoint : EndpointState} {r : Except WireStatus (Option Payload) × SharedRing}
    (h : ring.recv endpoint = some r) : ring.step (.recv endpoint) = (.received r.1, r.2) := by
  simp only [step, h]

/-- An accepted send writes to the slot of no unread message. -/
def SparesUnread (ring : SharedRing) (call : RingCall) : Prop :=
  ∀ endpoint payload, call = .send endpoint payload → (ring.step call).1 = .sent (.ok ()) →
    ∀ i, i < ring.unread →
      ring.unreadSlot i ≠ ring.header.producer % ring.header.capacity.toUInt64

namespace Ordered

/-- What `send` does to the mailbox. -/
theorem mailbox_send (ring : SharedRing) (endpoint : EndpointState) (payload : Payload) :
    ring.mailbox.step (.send endpoint payload) =
      if endpoint.status ≠ .ok then (.sent (.error endpoint.status), ring.mailbox)
      else if payload.length > ring.header.slotSize.toNat then
        (.sent (.error .invalidObject), ring.mailbox)
      else if ring.unread ≥ ring.header.capacity.toNat then
        (.sent (.error .queueFull), ring.mailbox)
      else (.sent (.ok ()), { ring.mailbox with queue := ring.messages ++ [some payload] }) := by
  rw [← ring.length_messages]
  rfl

/-- **A send on the ring is a send to its mailbox**, if the queue stays spread, and it changes no
unread message. -/
theorem send (h : ring.Ordered) (endpoint : EndpointState) (payload : Payload)
    (hnext : (ring.mailbox.step (.send endpoint payload)).2.Spread) :
    let v := ring.mailbox.step (.send endpoint payload)
    let r := ring.step (.send endpoint payload)
    r.1 = v.1 ∧ r.2.Ordered ∧ v.2 = r.2.mailbox ∧
      ∀ i, i < ring.unread → ∀ b, b < slotStride ring.header.slotSize →
        r.2.bytes (ring.slotPtr (ring.unreadSlot i) + b) =
          ring.bytes (ring.slotPtr (ring.unreadSlot i) + b) := by
  have hr := step_send (send_eq h.capacity endpoint payload)
  have hv := mailbox_send ring endpoint payload
  dsimp only
  by_cases hstatus : endpoint.status ≠ .ok
  · rw [hr, hv, if_pos hstatus, if_pos hstatus]
    exact ⟨rfl, h, rfl, fun _ _ _ _ => rfl⟩
  rw [if_neg hstatus] at hr hv
  by_cases hlen : payload.length > ring.header.slotSize.toNat
  · rw [hr, hv, if_pos hlen, if_pos hlen]
    exact ⟨rfl, h, rfl, fun _ _ _ _ => rfl⟩
  rw [if_neg hlen] at hr hv
  by_cases hq : ring.unread ≥ ring.header.capacity.toNat
  · rw [hr, hv, if_pos hq, if_pos hq]
    exact ⟨rfl, h, rfl, fun _ _ _ _ => rfl⟩
  · rw [if_neg hq] at hr hv
    have hspread : Spread ring.header.capacity.toNat ring.header.consumer.toNat (ring.unread + 1) := by
      rw [hv, Mailbox.Spread, List.length_append, length_messages] at hnext
      exact hnext
    obtain ⟨hord, hmsgs, hkeep⟩ :=
      h.pushed (Nat.lt_of_not_le hq) hspread (Nat.le_of_not_lt hlen)
    rw [hr, hv]
    refine ⟨rfl, hord, ?_, hkeep⟩
    rw [← hmsgs]
    rfl

/-- **A receive on the ring is a receive from its mailbox.** -/
theorem recv (h : ring.Ordered) (endpoint : EndpointState) :
    let v := ring.mailbox.step (.recv endpoint)
    let r := ring.step (.recv endpoint)
    r.1 = v.1 ∧ r.2.Ordered ∧ v.2 = r.2.mailbox := by
  have hr := step_recv (recv_eq h.capacity endpoint)
  have hv : ring.mailbox.step (.recv endpoint) =
      if endpoint.status ≠ .ok then (.received (.error endpoint.status), ring.mailbox)
      else
        match ring.messages with
        | [] => (.received (.ok none), ring.mailbox)
        | none :: _ => (.received (.error .invalidObject), ring.mailbox)
        | some payload :: queue =>
          (.received (.ok (some payload)), { ring.mailbox with
            queue := queue, consumer := (ring.header.consumer.toNat + 1) % 2 ^ 64 }) := rfl
  dsimp only
  by_cases hstatus : endpoint.status ≠ .ok
  · rw [hr, hv, if_pos hstatus, if_pos hstatus]
    exact ⟨rfl, h, rfl⟩
  rw [if_neg hstatus] at hr hv
  by_cases hzero : ring.unread = 0
  · have hnil : ring.messages = [] := List.length_eq_zero_iff.1 (length_messages.trans hzero)
    rw [hnil] at hv
    rw [hr, hv, if_pos hzero]
    exact ⟨rfl, h, rfl⟩
  · obtain ⟨hord, hcons, hmsgs⟩ := h.popped (Nat.pos_of_ne_zero hzero)
    rw [if_neg hzero] at hr
    rw [hmsgs] at hv
    cases hmsg : messageAt ring.header.slotSize ring.bytes (ring.slotPtr (ring.unreadSlot 0)) with
    | none =>
      rw [hmsg] at hr hv
      rw [hr, hv]
      exact ⟨rfl, h, rfl⟩
    | some payload =>
      rw [hmsg] at hr hv
      rw [hr, hv, ← hcons]
      exact ⟨rfl, hord, rfl⟩

theorem step (h : ring.Ordered) (call : RingCall) (hnext : (ring.mailbox.step call).2.Spread) :
    (ring.step call).1 = (ring.mailbox.step call).1 ∧ (ring.step call).2.Ordered ∧
      (ring.mailbox.step call).2 = (ring.step call).2.mailbox := by
  cases call with
  | send endpoint payload =>
    obtain ⟨hreply, hord, hbox, -⟩ := h.send endpoint payload hnext
    exact ⟨hreply, hord, hbox⟩
  | recv endpoint => exact h.recv endpoint

/-- **A call that leaves the queue spread** is one that writes to the slot of no unread message. -/
theorem spares_iff (h : ring.Ordered) (call : RingCall) :
    ring.SparesUnread call ↔ (ring.mailbox.step call).2.Spread := by
  cases call with
  | recv endpoint =>
    obtain ⟨-, hord, hbox⟩ := h.recv endpoint
    rw [hbox]
    exact ⟨fun _ => hord.spread, fun _ _ _ hcall => nomatch hcall⟩
  | send endpoint payload =>
    have hr := step_send (send_eq h.capacity endpoint payload)
    have hv := mailbox_send ring endpoint payload
    -- a refused send writes nothing and leaves the queue as it is
    have hrefused : ∀ e, ring.step (.send endpoint payload) = (.sent (.error e), ring) →
        ring.mailbox.step (.send endpoint payload) = (.sent (.error e), ring.mailbox) →
        (ring.SparesUnread (.send endpoint payload) ↔
          (ring.mailbox.step (.send endpoint payload)).2.Spread) := by
      intro e hr hv
      rw [hv]
      refine ⟨fun _ => h.spread, fun _ endpoint' payload' _ hok => ?_⟩
      rw [hr] at hok
      cases hok
    by_cases hstatus : endpoint.status ≠ .ok
    · rw [if_pos hstatus] at hr hv
      exact hrefused _ hr hv
    rw [if_neg hstatus] at hr hv
    by_cases hlen : payload.length > ring.header.slotSize.toNat
    · rw [if_pos hlen] at hr hv
      exact hrefused _ hr hv
    rw [if_neg hlen] at hr hv
    by_cases hq : ring.unread ≥ ring.header.capacity.toNat
    · rw [if_pos hq] at hr hv
      exact hrefused _ hr hv
    rw [if_neg hq] at hr hv
    rw [hv, Mailbox.Spread, List.length_append, length_messages]
    refine Iff.trans ?_ (h.next_iff (Nat.lt_of_not_le hq))
    rw [← producer_slot]
    refine ⟨fun hspares => hspares endpoint payload rfl (by rw [hr]), fun hne _ _ _ _ => hne⟩

end Ordered

/-- The queue stays spread through every call of a run. -/
def StaysSpread (ring : SharedRing) (calls : List RingCall) : Prop :=
  ring.mailbox.machine.Along (fun box call => (box.step call).2.Spread) ring.mailbox calls

instance (ring : SharedRing) (calls : List RingCall) : Decidable (ring.StaysSpread calls) :=
  inferInstanceAs (Decidable (Machine.Along _ _ _ _))

/-- **The ring across the wrap of its counters.**  The unread messages lie in different slots exactly
if they are spread.  From such a state, no send of a run writes to the slot of an unread message
exactly if the queue of the unread messages stays spread through the run; then no send changes an
unread message, and every call is answered as the queue answers it. -/
theorem ring_survives_wrap (ring : SharedRing) (hcap : ring.header.capacity ≠ 0)
    (hroom : ring.unread ≤ ring.header.capacity.toNat) :
    ((∀ i j, i < j → j < ring.unread → ring.unreadSlot i ≠ ring.unreadSlot j) ↔
      Spread ring.header.capacity.toNat ring.header.consumer.toNat ring.unread) ∧
    (Spread ring.header.capacity.toNat ring.header.consumer.toNat ring.unread → ∀ calls,
      (ring.machine.Along SparesUnread ring calls ↔ ring.StaysSpread calls) ∧
      (ring.StaysSpread calls →
        (∀ pre endpoint payload post, calls = pre ++ .send endpoint payload :: post →
          let mid := ring.machine.run ring pre
          ∀ i, i < mid.unread → ∀ b, b < slotStride mid.header.slotSize →
            (mid.step (.send endpoint payload)).2.bytes (mid.slotPtr (mid.unreadSlot i) + b) =
              mid.bytes (mid.slotPtr (mid.unreadSlot i) + b)) ∧
        ring.machine.log ring calls = ring.mailbox.machine.log ring.mailbox calls ∧
        (ring.machine.run ring calls).mailbox = ring.mailbox.machine.run ring.mailbox calls)) := by
  refine ⟨unreadSlot_ne_iff hroom, fun hspread calls => ?_⟩
  have h : ring.Ordered := ⟨hcap, hroom, spread_mailbox.2 hspread⟩
  refine ⟨?_, fun hstays => ?_⟩
  · refine ring.machine.along_iff (R := fun r v => r.Ordered ∧ v = r.mailbox) ?_ ⟨h, rfl⟩ calls
    rintro r v c ⟨hr, rfl⟩
    exact ⟨hr.spares_iff c, fun hnext => (hr.step c hnext).2⟩
  -- the mailbox is that of the ring, as long as the calls still to come keep it spread
  have hruns := fun cs rest => ring.machine.simulates (N := ring.mailbox.machine)
    (R := fun cs r v => r.Ordered ∧ v = r.mailbox ∧
      ring.mailbox.machine.Along (fun box call => (box.step call).2.Spread) v cs)
    (by
      rintro c cs r v ⟨hr, rfl, hc, hcs⟩
      obtain ⟨hreply, hord, hbox⟩ := hr.step c hc
      exact ⟨hreply, hord, hbox, hcs⟩) cs rest (s := ring) (t := ring.mailbox)
  refine ⟨?_, ?_⟩
  · rintro pre endpoint payload post rfl
    obtain ⟨-, hmid, hbox, hnext⟩ := hruns pre _ ⟨h, rfl, hstays⟩
    rw [hbox] at hnext
    exact (hmid.send endpoint payload hnext.1).2.2.2
  · obtain ⟨hlog, -, hbox, -⟩ := hruns calls [] ⟨h, rfl, by rwa [List.append_nil]⟩
    exact ⟨hlog, hbox.symm⟩

/-- An empty ring of one-byte slots whose counters are about to wrap. -/
def straddling (capacity : UInt32) : SharedRing where
  header := ⟨RING_MAGIC, RING_VERSION, 0, capacity, 1, 0xffffffffffffffff, 0xffffffffffffffff⟩
  bytes := fun _ => 0
  len := HEADER_LEN + capacity.toNat * 5

/-- Two sends and two receives. -/
def twoEach : List RingCall :=
  [.send (.new ⟨2, ⟨0⟩⟩) [1], .send (.new ⟨2, ⟨0⟩⟩) [2], .recv (.new ⟨3, ⟨0⟩⟩), .recv (.new ⟨3, ⟨0⟩⟩)]

theorem ring_survives_wrap_four :
    (straddling 4).header.capacity ≠ 0 ∧ (straddling 4).unread ≤ (straddling 4).header.capacity.toNat ∧
      (straddling 4).machine.log (straddling 4) twoEach =
        (straddling 4).mailbox.machine.log (straddling 4).mailbox twoEach := by
  have hcap : (straddling 4).header.capacity ≠ 0 := by decide
  have hroom : (straddling 4).unread ≤ (straddling 4).header.capacity.toNat := by decide
  have hspread : (straddling 4).StaysSpread twoEach := by decide +kernel
  obtain ⟨-, hruns⟩ := ring_survives_wrap _ hcap hroom
  exact ⟨hcap, hroom, ((hruns (by decide) twoEach).2 hspread).2.1⟩

/-- Three slots: the messages numbered `2^64 - 1` and `2^64` share a slot.  The second send overwrites
the first message, and the second message is received twice. -/
theorem wrap_loses_message :
    (straddling 3).header.capacity ≠ 0 ∧ (straddling 3).unread ≤ (straddling 3).header.capacity.toNat ∧
    ((straddling 3).machine.run (straddling 3) (twoEach.take 2)).unread = 2 ∧
    ((straddling 3).machine.run (straddling 3) (twoEach.take 2)).unreadSlot 0 =
      ((straddling 3).machine.run (straddling 3) (twoEach.take 2)).unreadSlot 1 ∧
    ((straddling 3).machine.log (straddling 3) twoEach).map Prod.snd =
      [.sent (.ok ()), .sent (.ok ()), .received (.ok (some [2])), .received (.ok (some [2]))] := by
  refine ⟨by decide, by decide, by decide +kernel, by decide +kernel, ?_⟩
  decide +kernel

end SharedRing

end CourtKernel
