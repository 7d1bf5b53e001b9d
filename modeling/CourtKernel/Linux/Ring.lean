import CourtKernel.Linux.Protocol
import CourtKernel.Lib.Bytes

/-!
# The shared-memory ring

Reference model of `SharedRing` of `crates/court-hosted-linux/src/shm_ring.rs`.

* The mapped file is a header of 32 bytes (`#[repr(C)] RingHeader`) and `capacity` slots of
  `4 + slot_size` bytes each.  The header is kept decoded; the slots are bytes at their offsets in
  the file.  A slot holds the length of its payload as a little-endian `u32`, then the payload.
* Counters are `u64` and wrap.
* Opening and mapping the file cannot fail here; `create` is what a fresh ring looks like: a
  truncated file is filled with zeros, and `init` writes the header.

`send` and `recv` are the source's, run without interruption.
-/

namespace CourtKernel

def RING_MAGIC : UInt32 := 0x434b5247
def RING_VERSION : UInt16 := 1

/-- `size_of::<u32>()` -/
def LEN_SIZE : Nat := 4

/-- `size_of::<RingHeader>()` -/
def HEADER_LEN : Nat := 32

structure RingHeader where
  magic : UInt32
  version : UInt16
  reserved : UInt16
  capacity : UInt32
  slotSize : UInt32
  producer : UInt64
  consumer : UInt64
  deriving DecidableEq

/-- The ring as both processes see it: the header, and the bytes of the file by offset. -/
structure SharedRing where
  header : RingHeader
  bytes : Memory
  len : Nat

def slotStride (slotSize : UInt32) : Nat := LEN_SIZE + slotSize.toNat

/-- Length of the file, in checked `usize` arithmetic. -/
def totalLen (capacity slotSize : UInt32) : Except String Nat :=
  let slots := capacity.toNat
  let stride := slotStride slotSize
  if slots * stride < 2 ^ 64 then
    if HEADER_LEN + slots * stride < 2 ^ 64 then .ok (HEADER_LEN + slots * stride)
    else .error "shared ring size overflow"
  else .error "shared ring size overflow"

namespace SharedRing

/-- `create`, with the file operations taken as successful. -/
def create (capacity slotSize : UInt32) : Except String SharedRing :=
  match totalLen capacity slotSize with
  | .error e => .error e
  | .ok len => .ok
    { header := ⟨RING_MAGIC, RING_VERSION, 0, capacity, slotSize, 0, 0⟩
      bytes := fun _ => 0
      len := len }

/-- Offset of a slot in the file. -/
def slotPtr (self : SharedRing) (slot : UInt64) : Nat :=
  HEADER_LEN + slot.toNat * slotStride self.header.slotSize

/-- The source's `%` on `u64`, which panics on a zero divisor. -/
def rem (a b : UInt64) : Option UInt64 := if b = 0 then none else some (a % b)

theorem rem_eq_some {a b r : UInt64} : rem a b = some r ↔ b ≠ 0 ∧ r = a % b := by
  unfold rem
  split
  · rename_i h; simp [h]
  · rename_i h; simp [h, eq_comm]

theorem divisor_ne_zero {capacity : UInt32} (h : capacity.toNat ≠ 0) : capacity.toUInt64 ≠ 0 := by
  rw [Ne, ← UInt64.toNat_inj, UInt32.toNat_toUInt64]
  exact h

/-- `send` without interruption; `none` is a panic. -/
def send (self : SharedRing) (endpoint : EndpointState) (payload : Payload) :
    Option (Except WireStatus Unit × SharedRing) :=
  if endpoint.status ≠ .ok then some (.error endpoint.status, self)
  else if payload.length > self.header.slotSize.toNat then some (.error .invalidObject, self)
  else
    let producer := self.header.producer
    let consumer := self.header.consumer
    if producer - consumer ≥ self.header.capacity.toUInt64 then some (.error .queueFull, self)
    else
      match rem producer self.header.capacity.toUInt64 with
      | none => none
      | some slot =>
        -- `u32::try_from(payload.len())`
        if payload.length ≥ 2 ^ 32 then some (.error .invalidObject, self)
        else
          let slotPtr := self.slotPtr slot
          let bytes := self.bytes.write slotPtr (leBytes LEN_SIZE payload.length)
          let bytes := bytes.write (slotPtr + LEN_SIZE) payload
          some (.ok (), { self with
            bytes := bytes
            header := { self.header with producer := producer + 1 } })

/-- `recv` without interruption; `none` is a panic. -/
def recv (self : SharedRing) (endpoint : EndpointState) :
    Option (Except WireStatus (Option Payload) × SharedRing) :=
  if endpoint.status ≠ .ok then some (.error endpoint.status, self)
  else
    let consumer := self.header.consumer
    let producer := self.header.producer
    if consumer = producer then some (.ok none, self)
    else
      match rem consumer self.header.capacity.toUInt64 with
      | none => none
      | some slot =>
        let slotPtr := self.slotPtr slot
        let len := leVal (self.bytes.read slotPtr LEN_SIZE)
        if len > self.header.slotSize.toNat then some (.error .invalidObject, self)
        else
          let payload := self.bytes.read (slotPtr + LEN_SIZE) len
          some (.ok (some payload),
            { self with header := { self.header with consumer := consumer + 1 } })

end SharedRing

/-! ## Slots -/

/-- What `send` stores in a slot. -/
def record (payload : Payload) : List UInt8 := leBytes LEN_SIZE payload.length ++ payload

@[simp] theorem length_record (payload : Payload) :
    (record payload).length = LEN_SIZE + payload.length := by
  simp [record]

/-- The two writes of `send` store the record. -/
theorem write_len_payload (m : Memory) (off : Nat) (payload : Payload) :
    (m.write off (leBytes LEN_SIZE payload.length)).write (off + LEN_SIZE) payload =
      m.write off (record payload) := by
  have happend := @Memory.write_append m off (leBytes LEN_SIZE payload.length) payload
  rwa [length_leBytes] at happend

/-- The payload stored at an offset. -/
def payloadAt (m : Memory) (off : Nat) : Payload :=
  m.read (off + LEN_SIZE) (leVal (m.read off LEN_SIZE))

/-- The length stored at an offset. -/
def lenAt (m : Memory) (off : Nat) : Nat := leVal (m.read off LEN_SIZE)

/-- A slot that holds a record reads back as its payload. -/
theorem payloadAt_record {m : Memory} {off : Nat} {payload : Payload}
    (h : m.read off (record payload).length = record payload) (hl : payload.length < 2 ^ 32) :
    lenAt m off = payload.length ∧ payloadAt m off = payload := by
  rw [length_record, Memory.read_add, record] at h
  obtain ⟨hlen, hpay⟩ := List.append_inj h (by simp)
  have hval : lenAt m off = payload.length := by
    rw [lenAt, hlen, leVal_leBytes, LEN_SIZE]
    exact Nat.mod_eq_of_lt hl
  refine ⟨hval, ?_⟩
  unfold lenAt at hval
  rw [payloadAt, hval, hpay]

/-- A slot reads the same from memories that agree on its bytes. -/
theorem payloadAt_congr {m m' : Memory} {off size : Nat}
    (h : ∀ i, i < LEN_SIZE + size → m (off + i) = m' (off + i)) (hl : lenAt m off ≤ size) :
    lenAt m off = lenAt m' off ∧ payloadAt m off = payloadAt m' off := by
  have hlen : m.read off LEN_SIZE = m'.read off LEN_SIZE :=
    Memory.read_congr fun i hi => h i (by omega)
  refine ⟨congrArg leVal hlen, ?_⟩
  unfold payloadAt lenAt at *
  rw [← hlen]
  refine Memory.read_congr fun i hi => ?_
  rw [Nat.add_assoc]
  exact h _ (by omega)

end CourtKernel
