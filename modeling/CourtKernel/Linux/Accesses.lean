import CourtKernel.Linux.OpenRing
import CourtKernel.Lib.Wp

/-!
# Accesses of a ring under a hostile peer

`SharedRing::send` and `recv` of `crates/court-hosted-linux/src/shm_ring.rs` once more, access by
access.  Before every access of the mapping the peer may have changed both counters and all slots.
Offsets are computed in checked `usize` arithmetic, as a debug build does: an overflow panics, and so
does a remainder by zero.  A panic is an error of the program.

* `Peer` — another user of the mapping.  It leaves the rest of the header and the file's length alone.
* `Watched.send`, `Watched.recv` — the calls; the state keeps a log of all accesses.
* `SendLog`, `RecvLog` — the logs that a call can leave; `Watched.send_spec`, `Watched.recv_spec`.
* `Watched.send_idle`, `Watched.recv_idle` — without a peer the calls are `SharedRing.send` and `recv`.
* `accesses_in_slot` — a call stays in one slot of the mapping, whatever the peer writes.
* `calls_return` — `send` on an opened ring does not panic, and `recv` panics exactly if the ring has no
  slots and unequal counters and the endpoint may receive; `empty_ring_panics` is such a file.
-/

namespace CourtKernel

/-- Another user of a mapping, who moves between accesses. -/
structure Peer where
  move : Nat → SharedRing → SharedRing
  alike : ∀ k ring, Alike ring (move k ring)

/-- The peer that does nothing. -/
def Peer.idle : Peer := ⟨fun _ ring => ring, fun _ ring => .refl ring⟩

/-- One access of the mapping, with the value that was loaded or stored. -/
inductive Access where
  | loadProducer (value : UInt64)
  | loadConsumer (value : UInt64)
  | storeProducer (value : UInt64)
  | storeConsumer (value : UInt64)
  | load (off : Nat) (byte : UInt8)
  | store (off : Nat) (byte : UInt8)
  deriving DecidableEq

/-- The offset of an access through `slot_ptr`. -/
def Access.offset : Access → Option Nat
  | .load off _ => some off
  | .store off _ => some off
  | _ => none

/-- Accesses of the bytes `bs` from an offset on. -/
def along (mk : Nat → UInt8 → Access) (off : Nat) (bs : List UInt8) : List Access :=
  bs.mapIdx fun i b => mk (off + i) b

/-- The ring, the number of accesses so far, and the accesses. -/
structure Watch where
  ring : SharedRing
  clock : Nat
  log : List Access

namespace Watched

section

variable {α : Type} (peer : Peer)

/-- The peer moves, then the access is made. -/
def access (f : SharedRing → α × Access × SharedRing) : Prog Watch α := fun w =>
  let r := f (peer.move w.clock w.ring)
  .ok r.1 ⟨r.2.2, w.clock + 1, w.log ++ [r.2.1]⟩

def loadProducer : Prog Watch UInt64 :=
  access peer fun ring => (ring.header.producer, .loadProducer ring.header.producer, ring)

def loadConsumer : Prog Watch UInt64 :=
  access peer fun ring => (ring.header.consumer, .loadConsumer ring.header.consumer, ring)

def storeProducer (value : UInt64) : Prog Watch Unit :=
  access peer fun ring => ((), .storeProducer value,
    { ring with header := { ring.header with producer := value } })

def storeConsumer (value : UInt64) : Prog Watch Unit :=
  access peer fun ring => ((), .storeConsumer value,
    { ring with header := { ring.header with consumer := value } })

def load (off : Nat) : Prog Watch UInt8 :=
  access peer fun ring => (ring.bytes off, .load off (ring.bytes off), ring)

def store (off : Nat) (byte : UInt8) : Prog Watch Unit :=
  access peer fun ring => ((), .store off byte, { ring with bytes := ring.bytes.write off [byte] })

/-- A read of `n` bytes, from the first to the last. -/
def loadBytes (off : Nat) : Nat → Prog Watch (List UInt8)
  | 0 => pure []
  | n + 1 => do
    let bs ← loadBytes off n
    let b ← load peer (off + n)
    pure (bs ++ [b])

/-- A copy of bytes into the mapping, from the first to the last. -/
def storeBytes : Nat → List UInt8 → Prog Watch Unit
  | _, [] => pure ()
  | off, b :: bs => do
    store peer off b
    storeBytes (off + 1) bs

end

/-- `+` on `usize` -/
def add (a b : Nat) : Prog Watch Nat :=
  if a + b < 2 ^ 64 then pure (a + b) else throw "attempt to add with overflow"

/-- `*` on `usize` -/
def mul (a b : Nat) : Prog Watch Nat :=
  if a * b < 2 ^ 64 then pure (a * b) else throw "attempt to multiply with overflow"

/-- The message of a remainder by zero. -/
def REM_BY_ZERO : String := "attempt to calculate the remainder with a divisor of zero"

/-- `%` on `u64` -/
def rem (a b : UInt64) : Prog Watch UInt64 := if b = 0 then throw REM_BY_ZERO else pure (a % b)

def slotPtr (slot : UInt64) : Prog Watch Nat := do
  let stride ← add LEN_SIZE (← get).ring.header.slotSize.toNat
  add HEADER_LEN (← mul slot.toNat stride)

def send (peer : Peer) (endpoint : EndpointState) (payload : Payload) :
    Prog Watch (Except WireStatus Unit) := do
  if endpoint.status ≠ .ok then return .error endpoint.status
  if payload.length > (← get).ring.header.slotSize.toNat then return .error .invalidObject
  let producer ← loadProducer peer
  let consumer ← loadConsumer peer
  if producer - consumer ≥ (← get).ring.header.capacity.toUInt64 then return .error .queueFull
  let slot ← rem producer (← get).ring.header.capacity.toUInt64
  if payload.length ≥ 2 ^ 32 then return .error .invalidObject
  let ptr ← slotPtr slot
  storeBytes peer ptr (leBytes LEN_SIZE payload.length)
  storeBytes peer (← add ptr LEN_SIZE) payload
  storeProducer peer (producer + 1)
  return .ok ()

def recv (peer : Peer) (endpoint : EndpointState) :
    Prog Watch (Except WireStatus (Option Payload)) := do
  if endpoint.status ≠ .ok then return .error endpoint.status
  let consumer ← loadConsumer peer
  let producer ← loadProducer peer
  if consumer = producer then return .ok none
  let slot ← rem consumer (← get).ring.header.capacity.toUInt64
  let ptr ← slotPtr slot
  let len := leVal (← loadBytes peer ptr LEN_SIZE)
  if len > (← get).ring.header.slotSize.toNat then return .error .invalidObject
  let payload ← loadBytes peer (← add ptr LEN_SIZE) len
  storeConsumer peer (consumer + 1)
  return .ok (some payload)

end Watched

/-! ## Where the slots are -/

namespace SharedRing

variable {ring : SharedRing}

namespace Sound

/-- The length of a sound ring. -/
theorem len_eq (h : ring.Sound) :
    ring.len = HEADER_LEN + ring.header.capacity.toNat * slotStride ring.header.slotSize ∧
      ring.len < 2 ^ 64 := by
  have hlen := h.len
  unfold totalLen at hlen
  dsimp only at hlen
  split at hlen
  · split at hlen
    · rename_i hlt
      obtain heq := Except.ok.inj hlen
      exact ⟨heq.symm, heq ▸ hlt⟩
    · cases hlen
  · cases hlen

/-- A slot ends inside the mapping. -/
theorem slot_end (h : ring.Sound) {slot : UInt64} (hs : slot.toNat < ring.header.capacity.toNat) :
    ring.slotPtr slot + slotStride ring.header.slotSize ≤ ring.len := by
  have hmul := Nat.mul_le_mul_right (slotStride ring.header.slotSize) (Nat.succ_le_of_lt hs)
  rw [Nat.succ_mul] at hmul
  rw [h.len_eq.1, slotPtr]
  omega

end Sound

/-- A slot begins where the one before it ends, or later. -/
theorem slotPtr_le {slot slot' : UInt64} (h : slot < slot') :
    ring.slotPtr slot + slotStride ring.header.slotSize ≤ ring.slotPtr slot' := by
  have hlt := UInt64.lt_iff_toNat_lt.1 h
  have hmul := Nat.mul_le_mul_right (slotStride ring.header.slotSize) (Nat.succ_le_of_lt hlt)
  rw [Nat.succ_mul] at hmul
  unfold slotPtr
  omega

/-- The slot of a counter is one of the ring's. -/
theorem slot_lt (hcap : ring.header.capacity.toUInt64 ≠ 0) (counter : UInt64) :
    (counter % ring.header.capacity.toUInt64).toNat < ring.header.capacity.toNat := by
  have hpos : ring.header.capacity.toUInt64.toNat ≠ 0 := fun h0 => hcap (UInt64.toNat_inj.1 h0)
  rw [UInt64.toNat_mod, ← UInt32.toNat_toUInt64]
  exact Nat.mod_lt _ (Nat.pos_of_ne_zero hpos)

end SharedRing

/-! ## Logs -/

theorem along_append (mk : Nat → UInt8 → Access) (off : Nat) (bs cs : List UInt8) :
    along mk off (bs ++ cs) = along mk off bs ++ along mk (off + bs.length) cs := by
  have hoff : ∀ i, off + (i + bs.length) = off + bs.length + i := fun i => by omega
  simp only [along, List.mapIdx_append, hoff]

@[simp] theorem length_along (mk : Nat → UInt8 → Access) (off : Nat) (bs : List UInt8) :
    (along mk off bs).length = bs.length := by
  simp [along]

/-- The bytes that were loaded are in the log. -/
theorem along_load_inj {off : Nat} {bs cs : List UInt8}
    (h : along .load off bs = along .load off cs) : bs = cs := by
  have hlen : bs.length = cs.length := by simpa using congrArg List.length h
  refine List.ext_getElem hlen fun i hi hi' => ?_
  have hat : (along .load off bs)[i]? = (along .load off cs)[i]? := by rw [h]
  simpa [along, hi, hi'] using hat

/-- What `send` of a payload can return, and the accesses it then has made. -/
inductive SendLog (ring : SharedRing) (payload : Payload) :
    Except WireStatus Unit → List Access → Prop
  | refused (e : WireStatus) : SendLog ring payload (.error e) []
  | full (p c : UInt64) :
    SendLog ring payload (.error .queueFull) [.loadProducer p, .loadConsumer c]
  | stored (p c : UInt64) (hcap : ring.header.capacity.toUInt64 ≠ 0)
    (hlen : payload.length ≤ ring.header.slotSize.toNat) :
    SendLog ring payload (.ok ()) ([.loadProducer p, .loadConsumer c] ++
      along .store (ring.slotPtr (p % ring.header.capacity.toUInt64)) (record payload) ++
      [.storeProducer (p + 1)])

/-- What `recv` can return, and the accesses it then has made. -/
inductive RecvLog (ring : SharedRing) : Except WireStatus (Option Payload) → List Access → Prop
  | refused (e : WireStatus) : RecvLog ring (.error e) []
  | empty (c : UInt64) : RecvLog ring (.ok none) [.loadConsumer c, .loadProducer c]
  | oversized (c p : UInt64) (len : List UInt8) (hcap : ring.header.capacity.toUInt64 ≠ 0)
    (hlen : len.length = LEN_SIZE) (hover : leVal len > ring.header.slotSize.toNat) :
    RecvLog ring (.error .invalidObject) ([.loadConsumer c, .loadProducer p] ++
      along .load (ring.slotPtr (c % ring.header.capacity.toUInt64)) len)
  | taken (c p : UInt64) (len payload : List UInt8) (hcap : ring.header.capacity.toUInt64 ≠ 0)
    (hlen : len.length = LEN_SIZE) (hfits : leVal len ≤ ring.header.slotSize.toNat)
    (hpay : payload.length = leVal len) :
    RecvLog ring (.ok (some payload)) ([.loadConsumer c, .loadProducer p] ++
      along .load (ring.slotPtr (c % ring.header.capacity.toUInt64)) (len ++ payload) ++
      [.storeConsumer (c + 1)])

namespace Watched

section

variable {α : Type} {peer : Peer} {E : String → Watch → Prop} {w : Watch}

theorem wp_access {f : SharedRing → α × Access × SharedRing} {Q : α → Watch → Prop} :
    wp (access peer f) Q E w ↔
      Q (f (peer.move w.clock w.ring)).1 ⟨(f (peer.move w.clock w.ring)).2.2, w.clock + 1,
        w.log ++ [(f (peer.move w.clock w.ring)).2.1]⟩ := by
  unfold wp
  rfl

/-- The state after some accesses: the log is longer, and the ring is as its users may leave it. -/
structure After (w : Watch) (log : List Access) (w' : Watch) : Prop where
  alike : Alike w.ring w'.ring
  log : w'.log = w.log ++ log

theorem After.trans {w₁ w₂ : Watch} {log log' : List Access} (h : After w log w₁)
    (h' : After w₁ log' w₂) : After w (log ++ log') w₂ :=
  ⟨h.alike.trans h'.alike, by rw [h'.log, h.log, List.append_assoc]⟩

theorem After.refl (w : Watch) : After w [] w := ⟨.refl _, (List.append_nil _).symm⟩

theorem loadProducer_spec :
    wp (loadProducer peer) (fun p w' => After w [.loadProducer p] w') (fun _ _ => False) w := by
  rw [loadProducer, wp_access]
  exact ⟨peer.alike _ _, rfl⟩

theorem loadConsumer_spec :
    wp (loadConsumer peer) (fun c w' => After w [.loadConsumer c] w') (fun _ _ => False) w := by
  rw [loadConsumer, wp_access]
  exact ⟨peer.alike _ _, rfl⟩

theorem storeProducer_spec (value : UInt64) :
    wp (storeProducer peer value) (fun _ w' => After w [.storeProducer value] w')
      (fun _ _ => False) w := by
  rw [storeProducer, wp_access]
  exact ⟨(peer.alike _ _).trans ⟨rfl, _, _, rfl⟩, rfl⟩

theorem storeConsumer_spec (value : UInt64) :
    wp (storeConsumer peer value) (fun _ w' => After w [.storeConsumer value] w')
      (fun _ _ => False) w := by
  rw [storeConsumer, wp_access]
  exact ⟨(peer.alike _ _).trans ⟨rfl, _, _, rfl⟩, rfl⟩

theorem load_spec (off : Nat) :
    wp (load peer off) (fun b w' => After w [.load off b] w') (fun _ _ => False) w := by
  rw [load, wp_access]
  exact ⟨peer.alike _ _, rfl⟩

theorem store_spec (off : Nat) (byte : UInt8) :
    wp (store peer off byte) (fun _ w' => After w [.store off byte] w') (fun _ _ => False) w := by
  rw [store, wp_access]
  exact ⟨(peer.alike _ _).trans ⟨rfl, _, _, rfl⟩, rfl⟩

theorem loadBytes_spec (off n : Nat) :
    wp (loadBytes peer off n) (fun bs w' => bs.length = n ∧ After w (along .load off bs) w')
      (fun _ _ => False) w := by
  induction n with
  | zero =>
    rw [loadBytes, wp_pure]
    exact ⟨rfl, .refl w⟩
  | succ n ih =>
    rw [loadBytes, wp_bind]
    refine wp_mono ih ?_ fun _ _ he => he
    rintro bs w₁ ⟨hlen, hbs⟩
    rw [wp_bind]
    refine wp_mono (load_spec (off + n)) (fun b w₂ hb => ?_) fun _ _ he => he
    rw [wp_pure, along_append, List.length_append, hlen]
    exact ⟨rfl, hbs.trans hb⟩

theorem storeBytes_spec (off : Nat) (bs : List UInt8) :
    wp (storeBytes peer off bs) (fun _ w' => After w (along .store off bs) w')
      (fun _ _ => False) w := by
  induction bs generalizing off w with
  | nil =>
    rw [storeBytes, wp_pure]
    exact .refl w
  | cons b bs ih =>
    rw [storeBytes, wp_bind]
    refine wp_mono (store_spec off b) (fun _ w₁ hb => ?_) fun _ _ he => he
    refine wp_mono (ih (off + 1)) (fun _ w₂ hbs => ?_) fun _ _ he => he
    rw [← List.singleton_append, along_append]
    exact hb.trans hbs

theorem add_spec {a b : Nat} (h : a + b < 2 ^ 64) :
    wp (add a b) (fun r w' => r = a + b ∧ w' = w) (fun _ _ => False) w := by
  rw [add, if_pos h, wp_pure]
  exact ⟨rfl, rfl⟩

theorem mul_spec {a b : Nat} (h : a * b < 2 ^ 64) :
    wp (mul a b) (fun r w' => r = a * b ∧ w' = w) (fun _ _ => False) w := by
  rw [mul, if_pos h, wp_pure]
  exact ⟨rfl, rfl⟩

theorem rem_spec {a b : UInt64} (h : b ≠ 0) :
    wp (rem a b) (fun r w' => r = a % b ∧ w' = w) (fun _ _ => False) w := by
  rw [rem, if_neg h, wp_pure]
  exact ⟨rfl, rfl⟩

/-- No offset in the slot of a counter overflows, in a ring whose users left it sound. -/
theorem slotPtr_spec {ring : SharedRing} (h : ring.Sound) (ha : Alike ring w.ring)
    (hcap : ring.header.capacity.toUInt64 ≠ 0) (counter : UInt64) :
    wp (slotPtr (counter % ring.header.capacity.toUInt64))
      (fun ptr w' => ptr = ring.slotPtr (counter % ring.header.capacity.toUInt64) ∧
        ptr + LEN_SIZE < 2 ^ 64 ∧ w' = w) (fun _ _ => False) w := by
  have hend := h.slot_end (SharedRing.slot_lt hcap counter)
  have hlen := h.len_eq.2
  have hsize := ring.header.slotSize.toNat_lt
  generalize counter % ring.header.capacity.toUInt64 = slot at hend
  unfold SharedRing.slotPtr slotStride at hend ⊢
  rw [slotPtr, wp_bind, wp_get, ha.slotSize, wp_bind]
  refine wp_mono (add_spec (by unfold LEN_SIZE; omega)) ?_ fun _ _ he => he
  rintro stride _ ⟨rfl, rfl⟩
  rw [wp_bind]
  refine wp_mono (mul_spec (by omega)) ?_ fun _ _ he => he
  rintro offset _ ⟨rfl, rfl⟩
  refine wp_mono (add_spec (by omega)) ?_ fun _ _ he => he
  rintro ptr _ ⟨rfl, rfl⟩
  exact ⟨rfl, by omega, rfl⟩

/-! ## Calls -/

/-- **What `send` does to the mapping**, from any counters and slots, under any peer.  It never
panics: a ring without slots is full. -/
theorem send_spec (h : w.ring.Sound) (endpoint : EndpointState) (payload : Payload) :
    wp (send peer endpoint payload)
      (fun r w' => ∃ log, After w log w' ∧ SendLog w.ring payload r log) (fun _ _ => False) w := by
  have hslot := w.ring.header.slotSize.toNat_lt
  rw [send, wp_ite]
  refine ⟨fun _ => ?_, fun _ => ?_⟩
  · rw [wp_pure]
    exact ⟨[], .refl w, .refused _⟩
  rw [wp_bind, wp_get, wp_ite]
  refine ⟨fun _ => ?_, fun hlen => ?_⟩
  · rw [wp_pure]
    exact ⟨[], .refl w, .refused _⟩
  rw [wp_bind]
  refine wp_mono loadProducer_spec (fun p w₁ hp => ?_) fun _ _ he => he
  rw [wp_bind]
  refine wp_mono loadConsumer_spec (fun c w₂ hc => ?_) fun _ _ he => he
  have hpc := hp.trans hc
  rw [wp_bind, wp_get, hpc.alike.capacity, wp_ite]
  refine ⟨fun _ => ?_, fun hroom => ?_⟩
  · rw [wp_pure]
    exact ⟨_, hpc, .full p c⟩
  -- nothing is at least zero: the ring has slots
  have hcap : w.ring.header.capacity.toUInt64 ≠ 0 := by
    intro h0
    rw [h0] at hroom
    exact hroom UInt64.zero_le
  rw [wp_bind, wp_get, hpc.alike.capacity, wp_bind]
  refine wp_mono (rem_spec hcap) ?_ fun _ _ he => he
  rintro slot _ ⟨rfl, rfl⟩
  rw [wp_ite]
  refine ⟨fun hbig => by omega, fun _ => ?_⟩
  rw [wp_bind]
  refine wp_mono (slotPtr_spec h hpc.alike hcap p) ?_ fun _ _ he => he
  rintro ptr _ ⟨rfl, hbody, rfl⟩
  rw [wp_bind]
  refine wp_mono (storeBytes_spec _ _) (fun _ w₃ hlen' => ?_) fun _ _ he => he
  rw [wp_bind]
  refine wp_mono (add_spec hbody) ?_ fun _ _ he => he
  rintro body _ ⟨rfl, rfl⟩
  rw [wp_bind]
  refine wp_mono (storeBytes_spec _ _) (fun _ w₄ hpay => ?_) fun _ _ he => he
  rw [wp_bind]
  refine wp_mono (storeProducer_spec _) (fun _ w₅ hstore => ?_) fun _ _ he => he
  rw [wp_pure]
  refine ⟨_, ?_, .stored p c hcap (Nat.le_of_not_lt hlen)⟩
  rw [record, along_append, length_leBytes, ← List.append_assoc]
  exact ((hpc.trans hlen').trans hpay).trans hstore

/-- **What `recv` does to the mapping**, from any counters and slots, under any peer.  It panics on a
ring without slots whose counters it finds unequal. -/
theorem recv_spec (h : w.ring.Sound) (endpoint : EndpointState) :
    wp (recv peer endpoint) (fun r w' => ∃ log, After w log w' ∧ RecvLog w.ring r log)
      (fun e w' => e = REM_BY_ZERO ∧ w.ring.header.capacity = 0 ∧
        ∃ c p, c ≠ p ∧ After w [.loadConsumer c, .loadProducer p] w') w := by
  rw [recv, wp_ite]
  refine ⟨fun _ => ?_, fun _ => ?_⟩
  · rw [wp_pure]
    exact ⟨[], .refl w, .refused _⟩
  rw [wp_bind]
  refine wp_mono loadConsumer_spec (fun c w₁ hc => ?_) fun _ _ he => he.elim
  rw [wp_bind]
  refine wp_mono loadProducer_spec (fun p w₂ hp => ?_) fun _ _ he => he.elim
  have hcp := hc.trans hp
  rw [wp_ite]
  refine ⟨?_, fun hne => ?_⟩
  · rintro rfl
    rw [wp_pure]
    exact ⟨_, hcp, .empty c⟩
  rw [wp_bind, wp_get, hcp.alike.capacity, wp_bind]
  by_cases hcap : w.ring.header.capacity.toUInt64 = 0
  · rw [rem, if_pos hcap, wp_throw]
    refine ⟨rfl, UInt32.toNat_inj.1 ?_, c, p, hne, hcp⟩
    rw [← UInt32.toNat_toUInt64, hcap]
    rfl
  refine wp_mono (rem_spec hcap) ?_ fun _ _ he => he.elim
  rintro slot _ ⟨rfl, rfl⟩
  rw [wp_bind]
  refine wp_mono (slotPtr_spec h hcp.alike hcap c) ?_ fun _ _ he => he.elim
  rintro ptr _ ⟨rfl, hbody, rfl⟩
  rw [wp_bind]
  refine wp_mono (loadBytes_spec _ _) ?_ fun _ _ he => he.elim
  rintro len w₃ ⟨hlen, hbegins⟩
  have hread := hcp.trans hbegins
  dsimp only
  rw [wp_bind, wp_get, hread.alike.slotSize, wp_ite]
  refine ⟨fun hover => ?_, fun hfits => ?_⟩
  · rw [wp_pure]
    exact ⟨_, hread, .oversized c p len hcap hlen hover⟩
  rw [wp_bind]
  refine wp_mono (add_spec hbody) ?_ fun _ _ he => he.elim
  rintro body _ ⟨rfl, rfl⟩
  rw [wp_bind]
  refine wp_mono (loadBytes_spec _ _) ?_ fun _ _ he => he.elim
  rintro payload w₄ ⟨hlen', hpay⟩
  rw [wp_bind]
  refine wp_mono (storeConsumer_spec _) (fun _ w₅ hstore => ?_) fun _ _ he => he.elim
  rw [wp_pure]
  refine ⟨_, ?_, .taken c p len payload hcap hlen (Nat.le_of_not_lt hfits) hlen'⟩
  rw [along_append, hlen, ← List.append_assoc]
  exact (hread.trans hpay).trans hstore

/-! ## Calls that nobody disturbs -/

theorem loadProducer_idle :
    wp (loadProducer .idle) (fun p w' => p = w.ring.header.producer ∧ w'.ring = w.ring)
      (fun _ _ => False) w := by
  rw [loadProducer, wp_access]
  exact ⟨rfl, rfl⟩

theorem loadConsumer_idle :
    wp (loadConsumer .idle) (fun c w' => c = w.ring.header.consumer ∧ w'.ring = w.ring)
      (fun _ _ => False) w := by
  rw [loadConsumer, wp_access]
  exact ⟨rfl, rfl⟩

theorem loadBytes_idle (off n : Nat) :
    wp (loadBytes .idle off n) (fun bs w' => bs = w.ring.bytes.read off n ∧ w'.ring = w.ring)
      (fun _ _ => False) w := by
  induction n with
  | zero =>
    rw [loadBytes, wp_pure]
    exact ⟨rfl, rfl⟩
  | succ n ih =>
    rw [loadBytes, wp_bind]
    refine wp_mono ih ?_ fun _ _ he => he
    rintro _ w₁ ⟨rfl, hring⟩
    rw [wp_bind, load, wp_access, wp_pure, Memory.read_add, ← hring]
    exact ⟨rfl, rfl⟩

theorem storeBytes_idle (off : Nat) (bs : List UInt8) :
    wp (storeBytes .idle off bs)
      (fun _ w' => w'.ring = { w.ring with bytes := w.ring.bytes.write off bs })
      (fun _ _ => False) w := by
  induction bs generalizing off w with
  | nil =>
    rw [storeBytes, wp_pure, Memory.write_nil]
  | cons b bs ih =>
    rw [storeBytes, wp_bind, store, wp_access]
    have hcons : w.ring.bytes.write off (b :: bs) =
        (w.ring.bytes.write off [b]).write (off + 1) bs := (@Memory.write_append _ off [b] bs).symm
    refine wp_mono (ih (off + 1)) (fun _ w' hring => ?_) fun _ _ he => he
    rw [hring, hcons]
    rfl

/-- **Without a peer, `Watched.send` is `SharedRing.send`.** -/
theorem send_idle (h : w.ring.Sound) (endpoint : EndpointState) (payload : Payload) :
    wp (send .idle endpoint payload)
      (fun r w' => w.ring.send endpoint payload = some (r, w'.ring)) (fun _ _ => False) w := by
  rw [send, SharedRing.send, wp_ite]
  refine ⟨fun hstatus => ?_, fun hstatus => ?_⟩
  · rw [wp_pure, if_pos hstatus]
  rw [if_neg hstatus, wp_bind, wp_get, wp_ite]
  refine ⟨fun hlen => ?_, fun hlen => ?_⟩
  · rw [wp_pure, if_pos hlen]
  rw [if_neg hlen, wp_bind]
  refine wp_mono loadProducer_idle ?_ fun _ _ he => he
  rintro _ w₁ ⟨rfl, h₁⟩
  rw [wp_bind]
  refine wp_mono loadConsumer_idle ?_ fun _ _ he => he
  rintro _ w₂ ⟨rfl, h₂⟩
  rw [h₁] at h₂ ⊢
  rw [wp_bind, wp_get, h₂, wp_ite]
  refine ⟨fun hfull => ?_, fun hroom => ?_⟩
  · rw [wp_pure, h₂]
    exact if_pos hfull
  have hcap : w.ring.header.capacity.toUInt64 ≠ 0 := by
    intro h0
    rw [h0] at hroom
    exact hroom UInt64.zero_le
  have hrem : SharedRing.rem w.ring.header.producer w.ring.header.capacity.toUInt64 = some _ :=
    SharedRing.rem_eq_some.2 ⟨hcap, rfl⟩
  have hfits : ¬ payload.length ≥ 2 ^ 32 := by
    have := w.ring.header.slotSize.toNat_lt
    omega
  simp only [if_neg hroom, hrem, if_neg hfits]
  rw [wp_bind, wp_get, h₂, wp_bind]
  refine wp_mono (rem_spec hcap) ?_ fun _ _ he => he
  rintro slot _ ⟨rfl, rfl⟩
  rw [wp_bind]
  refine wp_mono (slotPtr_spec h (h₂ ▸ .refl _) hcap _) ?_ fun _ _ he => he
  rintro ptr _ ⟨rfl, hbody, rfl⟩
  rw [wp_bind]
  refine wp_mono (storeBytes_idle _ _) (fun _ w₃ h₃ => ?_) fun _ _ he => he
  rw [wp_bind]
  refine wp_mono (add_spec hbody) ?_ fun _ _ he => he
  rintro body _ ⟨rfl, rfl⟩
  rw [wp_bind]
  refine wp_mono (storeBytes_idle _ _) (fun _ w₄ h₄ => ?_) fun _ _ he => he
  rw [wp_bind, storeProducer, wp_access, wp_pure]
  dsimp only [Peer.idle]
  rw [h₄, h₃, h₂]

/-- **Without a peer, `Watched.recv` is `SharedRing.recv`.** -/
theorem recv_idle (h : w.ring.Sound) (endpoint : EndpointState) :
    wp (recv .idle endpoint) (fun r w' => w.ring.recv endpoint = some (r, w'.ring))
      (fun _ _ => w.ring.recv endpoint = none) w := by
  rw [recv, SharedRing.recv, wp_ite]
  refine ⟨fun hstatus => ?_, fun hstatus => ?_⟩
  · rw [wp_pure, if_pos hstatus]
  rw [if_neg hstatus, wp_bind]
  refine wp_mono loadConsumer_idle ?_ fun _ _ he => he.elim
  rintro _ w₁ ⟨rfl, h₁⟩
  rw [wp_bind]
  refine wp_mono loadProducer_idle ?_ fun _ _ he => he.elim
  rintro _ w₂ ⟨rfl, h₂⟩
  rw [h₁] at h₂ ⊢
  rw [wp_ite]
  refine ⟨fun hempty => ?_, fun hne => ?_⟩
  · rw [wp_pure, h₂]
    exact if_pos hempty
  rw [wp_bind, wp_get, h₂, wp_bind]
  by_cases hcap : w.ring.header.capacity.toUInt64 = 0
  · rw [rem, if_pos hcap, wp_throw]
    simp only [if_neg hne, SharedRing.rem, if_pos hcap]
  have hrem : SharedRing.rem w.ring.header.consumer w.ring.header.capacity.toUInt64 = some _ :=
    SharedRing.rem_eq_some.2 ⟨hcap, rfl⟩
  simp only [if_neg hne, hrem]
  refine wp_mono (rem_spec hcap) ?_ fun _ _ he => he.elim
  rintro slot _ ⟨rfl, rfl⟩
  rw [wp_bind]
  refine wp_mono (slotPtr_spec h (h₂ ▸ .refl _) hcap _) ?_ fun _ _ he => he.elim
  rintro ptr _ ⟨rfl, hbody, rfl⟩
  rw [wp_bind]
  refine wp_mono (loadBytes_idle _ _) ?_ fun _ _ he => he.elim
  rintro len w₃ ⟨rfl, h₃⟩
  rw [h₂] at h₃ ⊢
  rw [wp_bind, wp_get, h₃, wp_ite]
  refine ⟨fun hover => ?_, fun hlen => ?_⟩
  · rw [wp_pure, h₃]
    exact if_pos hover
  rw [if_neg hlen, wp_bind]
  refine wp_mono (add_spec hbody) ?_ fun _ _ he => he.elim
  rintro body _ ⟨rfl, rfl⟩
  rw [wp_bind]
  refine wp_mono (loadBytes_idle _ _) ?_ fun _ _ he => he.elim
  rintro payload w₄ ⟨rfl, h₄⟩
  rw [wp_bind, storeConsumer, wp_access, wp_pure]
  dsimp only [Peer.idle]
  rw [h₄, h₃]

end

end Watched

/-! ## Slots and panics -/

/-- All accesses through `slot_ptr` are of one slot of the ring. -/
def StaysIn (ring : SharedRing) (log : List Access) : Prop :=
  ∃ slot : UInt64, ∀ a ∈ log, ∀ off, a.offset = some off →
    slot.toNat < ring.header.capacity.toNat ∧ ring.slotPtr slot ≤ off ∧
      off < ring.slotPtr slot + slotStride ring.header.slotSize

variable {ring : SharedRing}

theorem staysIn_of_none {log : List Access} (h : ∀ a ∈ log, a.offset = none) : StaysIn ring log := by
  refine ⟨0, fun a ha off hoff => ?_⟩
  rw [h a ha] at hoff
  cases hoff

/-- Accesses of a slot from its start on, between accesses of the counters. -/
theorem staysIn_along {mk : Nat → UInt8 → Access} (hmk : ∀ off b, (mk off b).offset = some off)
    (hcap : ring.header.capacity.toUInt64 ≠ 0) {counter : UInt64} {bs : List UInt8}
    (hlen : bs.length ≤ slotStride ring.header.slotSize) {before after : List Access}
    (hbefore : ∀ a ∈ before, a.offset = none) (hafter : ∀ a ∈ after, a.offset = none) :
    StaysIn ring (before ++
      along mk (ring.slotPtr (counter % ring.header.capacity.toUInt64)) bs ++ after) := by
  refine ⟨counter % ring.header.capacity.toUInt64, fun a ha off hoff => ?_⟩
  rw [List.mem_append, List.mem_append] at ha
  rcases ha with (ha | ha) | ha
  · rw [hbefore a ha] at hoff
    cases hoff
  · obtain ⟨i, hi, rfl⟩ := List.mem_mapIdx.1 ha
    rw [hmk] at hoff
    obtain rfl := Option.some.inj hoff
    exact ⟨SharedRing.slot_lt hcap counter, by omega, by omega⟩
  · rw [hafter a ha] at hoff
    cases hoff

theorem SendLog.staysIn {payload : Payload} {r : Except WireStatus Unit} {log : List Access}
    (h : SendLog ring payload r log) : StaysIn ring log := by
  cases h with
  | refused e => exact staysIn_of_none (by simp)
  | full p c => exact staysIn_of_none (by simp [Access.offset])
  | stored p c hcap hlen =>
    refine staysIn_along (fun _ _ => rfl) hcap ?_ (by simp [Access.offset]) (by simp [Access.offset])
    rw [length_record]
    exact Nat.add_le_add_left hlen _

theorem RecvLog.staysIn {r : Except WireStatus (Option Payload)} {log : List Access}
    (h : RecvLog ring r log) : StaysIn ring log := by
  cases h with
  | refused e => exact staysIn_of_none (by simp)
  | empty c => exact staysIn_of_none (by simp [Access.offset])
  | oversized c p len hcap hlen hover =>
    rw [← List.append_nil (_ ++ _)]
    refine staysIn_along (fun _ _ => rfl) hcap ?_ (by simp [Access.offset]) (by simp)
    rw [hlen]
    exact Nat.le_add_right _ _
  | taken c p len payload hcap hlen hfits hpay =>
    refine staysIn_along (fun _ _ => rfl) hcap ?_ (by simp [Access.offset]) (by simp [Access.offset])
    rw [List.length_append, hlen, hpay]
    exact Nat.add_le_add_left hfits _

/-- A length prefix that is too large ends a receive: nothing is accessed after it. -/
theorem RecvLog.oversized_last {r : Except WireStatus (Option Payload)} {c p : UInt64}
    {len : List UInt8} {rest : List Access}
    (h : RecvLog ring r ([.loadConsumer c, .loadProducer p] ++
      along .load (ring.slotPtr (c % ring.header.capacity.toUInt64)) len ++ rest))
    (hlen : len.length = LEN_SIZE) (hover : leVal len > ring.header.slotSize.toNat) :
    r = .error .invalidObject ∧ rest = [] := by
  generalize hlog : [Access.loadConsumer c, .loadProducer p] ++
    along .load (ring.slotPtr (c % ring.header.capacity.toUInt64)) len ++ rest = log at h
  cases h with
  | refused e => simp at hlog
  | empty c' =>
    have hcount := congrArg List.length hlog
    simp [hlen, LEN_SIZE] at hcount
  | oversized c' p' len' hcap hlen' hover' =>
    have hcount := congrArg List.length hlog
    simp [hlen, hlen'] at hcount
    exact ⟨rfl, hcount⟩
  | taken c' p' len' payload hcap hlen' hfits hpay =>
    -- the prefix is what was loaded first, and that fits
    rw [along_append, List.append_assoc, List.append_assoc, List.append_assoc] at hlog
    obtain ⟨hcounters, hslot⟩ := List.append_inj hlog rfl
    obtain ⟨hc, -⟩ := List.cons.inj hcounters
    obtain rfl := Access.loadConsumer.inj hc
    obtain ⟨hbegins, -⟩ := List.append_inj hslot (by simp [hlen, hlen'])
    rw [along_load_inj hbegins] at hover
    omega

/-- A receive that finds such a prefix fails and leaves the ring as it is. -/
theorem SharedRing.recv_oversized {endpoint : EndpointState} (hstatus : endpoint.status = .ok)
    (hne : ring.header.consumer ≠ ring.header.producer)
    (hcap : ring.header.capacity.toUInt64 ≠ 0)
    (hover : lenAt ring.bytes (ring.slotPtr
      (ring.header.consumer % ring.header.capacity.toUInt64)) > ring.header.slotSize.toNat) :
    ring.recv endpoint = some (.error .invalidObject, ring) := by
  have hrem : rem ring.header.consumer ring.header.capacity.toUInt64 = some _ :=
    rem_eq_some.2 ⟨hcap, rfl⟩
  rw [SharedRing.recv, if_neg (not_not.2 hstatus)]
  simp only [if_neg hne, hrem]
  exact if_pos hover

/-- **A call stays in one slot of the mapping**, whatever the counters and the slots hold when the call
begins and whatever its peer makes of them meanwhile.  The slots are disjoint, behind the header and
inside the mapping.  No offset overflows: the only panic is the remainder by a capacity of zero, before
any slot is touched.  A length prefix that is too large is the last thing a receive looks at. -/
theorem accesses_in_slot
    (hring : (∃ file, SharedRing.open file = .ok ring) ∨
      ∃ capacity slotSize, SharedRing.create capacity slotSize = .ok ring) :
    (∀ slot : UInt64, slot.toNat < ring.header.capacity.toNat →
      HEADER_LEN ≤ ring.slotPtr slot ∧
        ring.slotPtr slot + slotStride ring.header.slotSize ≤ ring.len) ∧
    (∀ slot slot' : UInt64, slot < slot' →
      ring.slotPtr slot + slotStride ring.header.slotSize ≤ ring.slotPtr slot') ∧
    ∀ (peer : Peer) (endpoint : EndpointState),
      (∀ payload, wp (Watched.send peer endpoint payload) (fun _ w => StaysIn ring w.log)
        (fun _ _ => False) ⟨ring, 0, []⟩) ∧
      wp (Watched.recv peer endpoint)
        (fun r w => StaysIn ring w.log ∧ ∀ c p len rest,
          w.log = [.loadConsumer c, .loadProducer p] ++
            along .load (ring.slotPtr (c % ring.header.capacity.toUInt64)) len ++ rest →
          len.length = LEN_SIZE → leVal len > ring.header.slotSize.toNat →
          r = .error .invalidObject ∧ rest = [])
        (fun e w => e = Watched.REM_BY_ZERO ∧ ring.header.capacity = 0 ∧
          ∀ a ∈ w.log, a.offset = none) ⟨ring, 0, []⟩ ∧
      ∀ ring', Alike ring ring' → endpoint.status = .ok →
        ring'.header.consumer ≠ ring'.header.producer → ring.header.capacity.toUInt64 ≠ 0 →
        lenAt ring'.bytes (ring.slotPtr (ring'.header.consumer % ring.header.capacity.toUInt64)) >
          ring.header.slotSize.toNat →
        ring'.recv endpoint = some (.error .invalidObject, ring') := by
  have h : ring.Sound := by
    rcases hring with ⟨file, hopen⟩ | ⟨capacity, slotSize, hcreate⟩
    · exact SharedRing.sound_open hopen
    · exact SharedRing.sound_create hcreate
  refine ⟨fun slot hs => ⟨Nat.le_add_right _ _, h.slot_end hs⟩, fun _ _ => SharedRing.slotPtr_le,
    fun peer endpoint => ⟨fun payload => ?_, ?_, ?_⟩⟩
  · refine wp_mono (Watched.send_spec h endpoint payload) ?_ fun _ _ he => he
    rintro r w ⟨log, hafter, hlog⟩
    rw [hafter.log]
    exact hlog.staysIn
  · refine wp_mono (Watched.recv_spec h endpoint) ?_ ?_
    · rintro r w ⟨log, hafter, hlog⟩
      have heq : w.log = log := hafter.log
      rw [heq]
      refine ⟨hlog.staysIn, ?_⟩
      rintro c p len rest rfl hlen hover
      exact hlog.oversized_last hlen hover
    · rintro e w ⟨rfl, hcap, c, p, -, hafter⟩
      refine ⟨rfl, hcap, ?_⟩
      rw [hafter.log]
      simp [Access.offset]
  · intro ring' halike hstatus hne hcap hover
    rw [SharedRing.slotPtr, ← halike.capacity, ← halike.slotSize] at hover
    rw [← halike.capacity] at hcap
    exact SharedRing.recv_oversized hstatus hne hcap hover

theorem accesses_in_slot_create :
    ∃ ring, SharedRing.create 64 2048 = .ok ring ∧
      ring.slotPtr 63 + slotStride ring.header.slotSize ≤ ring.len := by
  obtain ⟨hslots, -, -⟩ := accesses_in_slot (.inr ⟨64, 2048, rfl⟩)
  exact ⟨_, rfl, (hslots 63 (by decide)).2⟩

/-- A receive panics at its remainder, which it reaches if it is permitted and the counters differ. -/
theorem SharedRing.recv_eq_none {endpoint : EndpointState} :
    ring.recv endpoint = none ↔ endpoint.status = .ok ∧ ring.header.capacity = 0 ∧
      ring.header.producer ≠ ring.header.consumer := by
  have hzero : ring.header.capacity.toUInt64 = 0 ↔ ring.header.capacity = 0 := by
    rw [← UInt64.toNat_inj, UInt32.toNat_toUInt64, ← UInt32.toNat_inj]
    rfl
  by_cases hstatus : endpoint.status = .ok
  · by_cases hempty : ring.header.consumer = ring.header.producer
    · simp [recv, hstatus, hempty]
    · by_cases hcap : ring.header.capacity.toUInt64 = 0
      · simp [recv, hstatus, hempty, rem, hzero.1 hcap, Ne.symm hempty]
      · simp only [recv, hstatus, hempty, rem, hcap, hzero.not.1 hcap, ne_eq, not_true_eq_false, if_false,
          false_and, and_false, iff_false]
        split
        · exact Option.some_ne_none _
        · exact Option.some_ne_none _
  · simp [recv, hstatus]

/-- **Calls on an opened ring return**: `send` always gives a result, and `recv` does exactly if the
endpoint is closed or the ring has slots or its counters are equal.  No check of a debug build panics on
the way to a result. -/
theorem calls_return {file : RingFile} (hopen : SharedRing.open file = .ok ring)
    (endpoint : EndpointState) (payload : Payload) :
    (∃ r w, ring.send endpoint payload = some (r, w.ring) ∧
      Watched.send .idle endpoint payload ⟨ring, 0, []⟩ = .ok r w) ∧
    ((∃ r w, ring.recv endpoint = some (r, w.ring) ∧
      Watched.recv .idle endpoint ⟨ring, 0, []⟩ = .ok r w) ↔
      endpoint.status ≠ .ok ∨ ring.header.capacity ≠ 0 ∨
        ring.header.producer = ring.header.consumer) := by
  have h := SharedRing.sound_open hopen
  have hsend := Watched.send_idle (w := ⟨ring, 0, []⟩) h endpoint payload
  have hrecv := Watched.recv_idle (w := ⟨ring, 0, []⟩) h endpoint
  refine ⟨?_, ?_⟩
  · cases hx : Watched.send .idle endpoint payload ⟨ring, 0, []⟩ with
    | ok r w =>
      have hresult := wp_ok hsend hx
      exact ⟨r, w, hresult, rfl⟩
    | error e w => exact (wp_error hsend hx).elim
  · have hpanics : ¬ ring.recv endpoint = none ↔ endpoint.status ≠ .ok ∨ ring.header.capacity ≠ 0 ∨
        ring.header.producer = ring.header.consumer := by
      rw [SharedRing.recv_eq_none, not_and_or, not_and_or, not_not]
    rw [← hpanics]
    cases hx : Watched.recv .idle endpoint ⟨ring, 0, []⟩ with
    | ok r w =>
      have hresult := wp_ok hrecv hx
      replace hresult : ring.recv endpoint = some (r, w.ring) := hresult
      exact ⟨fun _ => by simp [hresult], fun _ => ⟨r, w, hresult, rfl⟩⟩
    | error e w =>
      have hnone := wp_error hrecv hx
      replace hnone : ring.recv endpoint = none := hnone
      simp [hnone]

/-- A ring with the given number of one-byte slots and one message sent. -/
def oneSent (capacity : UInt32) : SharedRing where
  header := ⟨RING_MAGIC, RING_VERSION, 0, capacity, 1, 1, 0⟩
  bytes := fun _ => 0
  len := HEADER_LEN + capacity.toNat * 5

theorem calls_return_one :
    ∃ ring, SharedRing.open (oneSent 1).file = .ok ring ∧ ring.header.capacity ≠ 0 ∧
      ∃ r w, ring.recv (.new ⟨3, ⟨0⟩⟩) = some (r, w) := by
  have hsound : (oneSent 1).Sound := ⟨rfl, rfl, rfl⟩
  have hopen := hsound.open_file
  have hcap : (oneSent 1).header.capacity ≠ 0 := by decide
  obtain ⟨r, w, hrecv, -⟩ := (calls_return hopen (.new ⟨3, ⟨0⟩⟩) []).2.2 (.inr (.inl hcap))
  exact ⟨_, hopen, hcap, r, _, hrecv⟩

/-- A file of 32 bytes whose header says that there are no slots and that a message was sent is
accepted.  A receive then divides by zero. -/
theorem empty_ring_panics :
    ∃ ring, SharedRing.open (oneSent 0).file = .ok ring ∧ ring.recv (.new ⟨3, ⟨0⟩⟩) = none := by
  have hsound : (oneSent 0).Sound := ⟨rfl, rfl, rfl⟩
  have hopen := hsound.open_file
  exact ⟨_, hopen, by decide⟩

end CourtKernel
