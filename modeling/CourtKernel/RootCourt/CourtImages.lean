import CourtKernel.RootCourt.Courtlet
import CourtKernel.Linux.Window

/-!
# The court images and their ring

Reference model of the two `_start` functions of `crates/court-images/src/bin/app.rs` and `net.rs`,
with the ring layout and the status words of `crates/court-abi/src/lib.rs`.

* An entry is a call that runs to its end on one processor, so it is a function of the boot block and
  the ring page.  The images are built in release mode: counters are `u64` and wrap.
* `RingPage.view` — the page as a ring of the hosted runner.  The slots have the same form, a length
  and the bytes, at another distance from the header, so the window of unread messages is the same.
* `App.start_spec`, `Net.start_spec` — an entry that is not denied appends to the window and takes
  the oldest message off it.
* `net_status_decoded` — when the status word of the net image tells `run_demo` what happened;
  `empty_status_received` — and where it misleads it.
-/

namespace CourtKernel

namespace RootCourt

def RING_MAGIC : UInt64 := 0x434B52494E473031

def SLOT : Nat := 64
def CAPACITY : UInt32 := 4
def RING_DATA : Nat := 128

def RIGHT_SEND : UInt64 := (1 : UInt64) <<< 0
def RIGHT_RECV : UInt64 := (1 : UInt64) <<< 1

def ST_SENT : UInt64 := 0x0001
def ST_RECV : UInt64 := 0x0002
def ST_DENIED : UInt64 := 0xE001
def ST_EMPTY : UInt64 := 0xE002
def ST_BAD_MAGIC : UInt64 := 0xBAD0

structure Ring where
  magic : UInt64
  capacity : UInt32
  slotSize : UInt32
  producer : UInt64
  consumer : UInt64
  revoked : UInt64
  deriving DecidableEq

/-- The page at `RING_VA`: its header, and its bytes by offset. -/
structure RingPage where
  ring : Ring
  bytes : Memory

/-- `slot_ptr`, as an offset from `RING_VA`. -/
def slotPtr (index : UInt64) : Nat := RING_DATA + index.toNat * SLOT

/-- `b"pkt"` -/
def pkt : Payload := [0x70, 0x6b, 0x74]

/-- `_start` of the app image. -/
def App.start (boot : BootInfo) (page : RingPage) : UInt64 × RingPage :=
  let ring := page.ring
  if boot.magic ≠ BOOT_MAGIC then (ST_BAD_MAGIC, page)
  else if ring.magic ≠ RING_MAGIC then (ST_BAD_MAGIC, page)
  else if boot.rights &&& RIGHT_SEND = 0 ∨ ring.revoked ≠ 0 then (ST_DENIED, page)
  else
    let prod := ring.producer
    let cons := ring.consumer
    if prod - cons ≥ CAPACITY.toUInt64 then (ST_DENIED, page)
    else
      let idx := prod % CAPACITY.toUInt64
      let payload := pkt
      let bytes := page.bytes.write (slotPtr idx) (leBytes 4 payload.length)
      let bytes := bytes.write (slotPtr idx + 4) payload
      (ST_SENT, { ring := { ring with producer := prod + 1 }, bytes := bytes })

/-- `_start` of the net image. -/
def Net.start (boot : BootInfo) (page : RingPage) : UInt64 × RingPage :=
  let ring := page.ring
  if boot.magic ≠ BOOT_MAGIC then (ST_BAD_MAGIC, page)
  else if ring.magic ≠ RING_MAGIC then (ST_BAD_MAGIC, page)
  else if boot.rights &&& RIGHT_RECV = 0 ∨ ring.revoked ≠ 0 then (ST_DENIED, page)
  else
    let prod := ring.producer
    let cons := ring.consumer
    if cons = prod then (ST_EMPTY, page)
    else
      let idx := cons % CAPACITY.toUInt64
      let len := UInt64.ofNat (leVal (page.bytes.read (slotPtr idx) 4))
      (ST_RECV ||| len <<< 8, { page with ring := { ring with consumer := cons + 1 } })

/-- The status of an entry of the net image that took a packet. -/
def recvStatus (payload : Payload) : UInt64 := ST_RECV ||| UInt64.ofNat payload.length <<< 8

/-! ## The page as a ring of the hosted runner -/

namespace RingPage

variable {page : RingPage} {P C : Nat}

/-- Slots of `4 + 60` bytes, 96 bytes further back than behind a header of 32. -/
def view (page : RingPage) : SharedRing where
  header := ⟨CourtKernel.RING_MAGIC, RING_VERSION, 0, CAPACITY, 60, page.ring.producer,
    page.ring.consumer⟩
  bytes := fun i => page.bytes (96 + i)
  len := 288

/-- No count of messages is too large: the capacity divides `2^64`. -/
theorem steady (n : Nat) : Steady CAPACITY.toNat n := Or.inr (by decide)

theorem slotPtr_view {c : UInt64} {k : Nat} (hc : c.toNat = k % 2 ^ 64) :
    slotPtr (c % CAPACITY.toUInt64) = 96 + page.view.slotOf k := by
  have hidx : (c % CAPACITY.toUInt64).toNat = k % 2 ^ 64 % 4 := by
    rw [UInt64.toNat_mod, hc]
    rfl
  have hslot : page.view.slotOf k = 32 + k % 2 ^ 64 % 4 * 64 := rfl
  rw [slotPtr, hidx, hslot, RING_DATA, SLOT]
  omega

theorem view_write {a : Nat} {bs : List UInt8} :
    (fun i => page.bytes.write (96 + a) bs (96 + i)) = page.view.bytes.write a bs := by
  funext i
  show page.bytes.write (96 + a) bs (96 + i) = _
  unfold Memory.write
  simp only [Nat.add_le_add_iff_left, Nat.add_sub_add_left, view]

/-- The two stores of the app image are one record. -/
theorem write_record {k : Nat} {payload : Payload} (hk : page.view.header.producer.toNat = k % 2 ^ 64) :
    (page.bytes.write (slotPtr (page.ring.producer % CAPACITY.toUInt64))
        (leBytes 4 payload.length)).write
        (slotPtr (page.ring.producer % CAPACITY.toUInt64) + 4) payload =
      page.bytes.write (96 + page.view.slotOf k) (record payload) := by
  have hptr : slotPtr (page.ring.producer % CAPACITY.toUInt64) = 96 + page.view.slotOf k :=
    slotPtr_view hk
  rw [hptr]
  exact Memory.write_append

/-- Publishing a record, seen in the ring of the hosted runner. -/
theorem view_push {a : Nat} {bs : List UInt8} :
    view { ring := { page.ring with producer := page.ring.producer + 1 },
           bytes := page.bytes.write (96 + a) bs } =
      { page.view with
        bytes := page.view.bytes.write a bs
        header := { page.view.header with producer := page.view.header.producer + 1 } } := by
  rw [← view_write]
  rfl

theorem read_view {a n : Nat} : page.bytes.read (96 + a) n = page.view.bytes.read a n :=
  Memory.read_congr fun i _ => congrArg page.bytes (Nat.add_assoc 96 a i)

end RingPage

/-! ## Entries -/

section

variable {boot : BootInfo} {page : RingPage} {P C : Nat}

/-- Both magic words are in place. -/
structure Marked (boot : BootInfo) (page : RingPage) : Prop where
  boot : boot.magic = BOOT_MAGIC
  ring : page.ring.magic = RING_MAGIC

/-- Without the right to send, or on a revoked ring, the app image changes nothing. -/
theorem App.start_denied (h : Marked boot page)
    (hno : boot.rights &&& RIGHT_SEND = 0 ∨ page.ring.revoked ≠ 0) :
    App.start boot page = (ST_DENIED, page) := by
  unfold App.start
  rw [if_neg (not_not.2 h.boot), if_neg (not_not.2 h.ring), if_pos hno]

/-- Without the right to receive, or on a revoked ring, the net image changes nothing. -/
theorem Net.start_denied (h : Marked boot page)
    (hno : boot.rights &&& RIGHT_RECV = 0 ∨ page.ring.revoked ≠ 0) :
    Net.start boot page = (ST_DENIED, page) := by
  unfold Net.start
  rw [if_neg (not_not.2 h.boot), if_neg (not_not.2 h.ring), if_pos hno]

/-- An entry of the app image leaves the magic and the revoked word alone. -/
theorem App.start_frame (boot : BootInfo) (page : RingPage) :
    (App.start boot page).2.ring.magic = page.ring.magic ∧
      (App.start boot page).2.ring.revoked = page.ring.revoked := by
  fun_cases App.start boot page <;> exact ⟨rfl, rfl⟩

/-- An entry of the net image leaves the magic and the revoked word alone. -/
theorem Net.start_frame (boot : BootInfo) (page : RingPage) :
    (Net.start boot page).2.ring.magic = page.ring.magic ∧
      (Net.start boot page).2.ring.revoked = page.ring.revoked := by
  fun_cases Net.start boot page <;> exact ⟨rfl, rfl⟩

/-- An entry of the app image that may send: denied on a full ring, else one more packet. -/
theorem App.start_spec (h : Marked boot page) (hright : boot.rights &&& RIGHT_SEND ≠ 0)
    (hlive : page.ring.revoked = 0) (hw : page.view.Window P C) :
    (P = C + 4 ∧ App.start boot page = (ST_DENIED, page)) ∨
    (P < C + 4 ∧ ∃ page', App.start boot page = (ST_SENT, page') ∧
      page'.ring = { page.ring with producer := page.ring.producer + 1 } ∧
      page'.view.Window (P + 1) C ∧ page'.view.contents (P + 1) C = page.view.contents P C ++ [pkt]) := by
  have hroom : P ≤ C + 4 := hw.room
  have hfull := SharedRing.full_iff hw.producer hw.consumer hw.le hw.room
  unfold App.start
  rw [if_neg (not_not.2 h.boot), if_neg (not_not.2 h.ring),
    if_neg (not_or.2 ⟨hright, not_not.2 hlive⟩)]
  by_cases hP : P = C + 4
  · exact Or.inl ⟨hP, if_pos (hfull.2 hP)⟩
  · refine Or.inr ⟨by omega, _, if_neg fun hge => hP (hfull.1 hge), rfl, ?_⟩
    have happ := hw.append (RingPage.steady (P + 1)) (show P < C + 4 by omega)
      (show pkt.length ≤ 60 by decide)
    rw [RingPage.write_record hw.producer, RingPage.view_push]
    exact happ

/-- An entry of the net image that may receive: nothing on an empty ring, else the oldest packet. -/
theorem Net.start_spec (h : Marked boot page) (hright : boot.rights &&& RIGHT_RECV ≠ 0)
    (hlive : page.ring.revoked = 0) (hw : page.view.Window P C) :
    (C = P ∧ Net.start boot page = (ST_EMPTY, page)) ∨
    (C < P ∧ ∃ payload page', Net.start boot page = (recvStatus payload, page') ∧
      page' = { page with ring := { page.ring with consumer := page.ring.consumer + 1 } } ∧
      page'.view.Window P (C + 1) ∧
      page.view.contents P C = payload :: page'.view.contents P (C + 1)) := by
  have hle : C ≤ P := hw.le
  have hempty := SharedRing.empty_iff hw.consumer hw.producer hw.le hw.room
  unfold Net.start
  rw [if_neg (not_not.2 h.boot), if_neg (not_not.2 h.ring),
    if_neg (not_or.2 ⟨hright, not_not.2 hlive⟩)]
  by_cases hP : C = P
  · exact Or.inl ⟨hP, if_pos (hempty.2 hP)⟩
  · obtain ⟨hw', hcont⟩ := hw.consume (by omega)
    have hptr : slotPtr (page.ring.consumer % CAPACITY.toUInt64) = 96 + page.view.slotOf C :=
      RingPage.slotPtr_view hw.consumer
    have hlen : leVal (page.bytes.read (slotPtr (page.ring.consumer % CAPACITY.toUInt64)) 4) =
        (payloadAt page.view.bytes (page.view.slotOf C)).length := by
      rw [hptr, RingPage.read_view, payloadAt, Memory.length_read]
      rfl
    refine Or.inr ⟨by omega, payloadAt page.view.bytes (page.view.slotOf C), _, ?_, rfl, hw', hcont⟩
    rw [recvStatus, ← hlen]
    exact if_neg fun heq => hP (hempty.1 heq)

end

/-! ## The status word -/

/-- The test of `run_demo` on what the net image returned. -/
def Received (status : UInt64) : Prop := status &&& 0xFF = ST_RECV

instance (status : UInt64) : Decidable (Received status) := inferInstanceAs (Decidable (_ = _))

/-- The length in the slot that the net image reads. -/
def RingPage.slotLen (page : RingPage) : Nat :=
  leVal (page.bytes.read (slotPtr (page.ring.consumer % CAPACITY.toUInt64)) 4)

theorem RingPage.slotLen_lt (page : RingPage) : page.slotLen < 2 ^ 32 := by
  have hlt := leVal_lt (page.bytes.read (slotPtr (page.ring.consumer % CAPACITY.toUInt64)) 4)
  rwa [Memory.length_read] at hlt

/-- A status and a length share a word: the status is the low byte. -/
theorem toNat_packed {len : Nat} (h : len < 2 ^ 32) :
    (ST_RECV ||| UInt64.ofNat len <<< 8).toNat = len * 256 + 2 := by
  have hshift : (UInt64.ofNat len <<< 8).toNat = len * 256 := by
    rw [UInt64.toNat_shiftLeft, UInt64.toNat_ofNat', Nat.shiftLeft_eq]
    show len % 2 ^ 64 * 2 ^ 8 % 2 ^ 64 = _
    omega
  rw [UInt64.or_comm, toNat_or_low 8 (by rw [hshift]; omega) (by decide), hshift]
  rfl

theorem packed_decoded {len : Nat} (h : len < 2 ^ 32) :
    Received (ST_RECV ||| UInt64.ofNat len <<< 8) ∧
      ((ST_RECV ||| UInt64.ofNat len <<< 8) >>> 8).toNat = len := by
  have hword := toNat_packed h
  refine ⟨?_, ?_⟩
  · have hmask : (0xFF : UInt64).toNat = 2 ^ 8 - 1 := rfl
    have hrecv : ST_RECV.toNat = 2 := rfl
    rw [Received, ← UInt64.toNat_inj, UInt64.toNat_and, hword, hmask,
      Nat.and_two_pow_sub_one_eq_mod, hrecv]
    omega
  · rw [UInt64.toNat_shiftRight, hword, Nat.shiftRight_eq_div_pow]
    show (len * 256 + 2) / 2 ^ 8 = len
    omega

/-- The word is `ST_EMPTY` for one length. -/
theorem packed_eq_empty {len : Nat} (h : len < 2 ^ 32) :
    ST_RECV ||| UInt64.ofNat len <<< 8 = ST_EMPTY ↔ len = 224 := by
  have hempty : ST_EMPTY.toNat = 224 * 256 + 2 := rfl
  rw [← UInt64.toNat_inj, toNat_packed h, hempty]
  omega

/-- The status tells whether an entry of the net image took a packet, and how long it was. -/
structure StatusDecoded (boot : BootInfo) (page : RingPage) : Prop where
  taken : Received (Net.start boot page).1 ↔
    (Net.start boot page).2.ring.consumer ≠ page.ring.consumer
  packet : (Net.start boot page).2.ring.consumer ≠ page.ring.consumer →
    (Net.start boot page).2.ring.consumer = page.ring.consumer + 1 ∧
      ((Net.start boot page).1 >>> 8).toNat = page.slotLen ∧
      (Net.start boot page).1 ≠ ST_EMPTY ∧ (Net.start boot page).1 ≠ ST_DENIED ∧
      (Net.start boot page).1 ≠ ST_BAD_MAGIC

/-- The net image gets as far as the counters of the ring. -/
def Admitted (boot : BootInfo) (page : RingPage) : Prop :=
  boot.magic = BOOT_MAGIC ∧ page.ring.magic = RING_MAGIC ∧ boot.rights &&& RIGHT_RECV ≠ 0 ∧
    page.ring.revoked = 0

/-- An entry that takes nothing, with a status that is not that of a packet. -/
theorem StatusDecoded.of_refused {boot : BootInfo} {page : RingPage} {status : UInt64}
    (h : Net.start boot page = (status, page)) (hstatus : ¬ Received status) :
    StatusDecoded boot page := by
  constructor
  · rw [h]
    exact ⟨fun hrecv => absurd hrecv hstatus, fun hne => absurd rfl hne⟩
  · rw [h]
    exact fun hne => absurd rfl hne

/-- An image that does not get as far as the counters takes nothing, and says so. -/
theorem StatusDecoded.of_not_admitted {boot : BootInfo} {page : RingPage}
    (h : ¬ Admitted boot page) : StatusDecoded boot page := by
  by_cases hboot : boot.magic = BOOT_MAGIC
  · by_cases hring : page.ring.magic = RING_MAGIC
    · have hno : boot.rights &&& RIGHT_RECV = 0 ∨ page.ring.revoked ≠ 0 := by
        by_contra hno
        rw [not_or, not_not] at hno
        exact h ⟨hboot, hring, hno⟩
      exact .of_refused (Net.start_denied ⟨hboot, hring⟩ hno) (by decide)
    · refine StatusDecoded.of_refused (h := ?_) (show ¬ Received ST_BAD_MAGIC by decide)
      rw [Net.start, if_neg (not_not.2 hboot), if_pos hring]
  · refine StatusDecoded.of_refused (h := ?_) (show ¬ Received ST_BAD_MAGIC by decide)
    rw [Net.start, if_pos hboot]

theorem Net.start_admitted {boot : BootInfo} {page : RingPage} (h : Admitted boot page) :
    Net.start boot page = if page.ring.consumer = page.ring.producer then
      (ST_EMPTY, page) else (ST_RECV ||| UInt64.ofNat page.slotLen <<< 8,
        { page with ring := { page.ring with consumer := page.ring.consumer + 1 } }) := by
  obtain ⟨hboot, hring, hright, hlive⟩ := h
  unfold Net.start
  rw [if_neg (not_not.2 hboot), if_neg (not_not.2 hring), if_neg (not_or.2 ⟨hright, not_not.2 hlive⟩)]
  rfl

/-- **The status of the net image tells whether it took a packet** exactly if the image does not get as
far as the counters, or the ring is not empty and the packet is not of 224 bytes.  The low byte of
`ST_EMPTY` is that of a received packet, and the whole word is the status of a packet of 224 bytes. -/
theorem net_status_decoded (boot : BootInfo) (page : RingPage) :
    StatusDecoded boot page ↔
      (Admitted boot page → page.ring.consumer ≠ page.ring.producer ∧ page.slotLen ≠ 224) := by
  by_cases hadmitted : Admitted boot page
  · have hstart := Net.start_admitted hadmitted
    rw [forall_prop_of_true hadmitted]
    by_cases hempty : page.ring.consumer = page.ring.producer
    · rw [if_pos hempty] at hstart
      refine iff_of_false (fun h => ?_) fun h => h.1 hempty
      have htaken := h.taken
      rw [hstart] at htaken
      exact htaken.1 (show Received ST_EMPTY by decide) rfl
    · rw [if_neg hempty] at hstart
      obtain ⟨hrecv, hlen⟩ := packed_decoded page.slotLen_lt
      have hmoved : page.ring.consumer + 1 ≠ page.ring.consumer := by simp
      rw [and_iff_right hempty, ne_eq, ← packed_eq_empty page.slotLen_lt]
      constructor
      · intro h
        have hpacket := h.packet
        rw [hstart] at hpacket
        exact (hpacket hmoved).2.2.1
      · intro hne
        constructor
        · rw [hstart]
          exact ⟨fun _ => hmoved, fun _ => hrecv⟩
        · rw [hstart]
          refine fun _ => ⟨rfl, hlen, hne, fun heq => ?_, fun heq => ?_⟩
          · exact absurd (heq ▸ hrecv) (show ¬ Received ST_DENIED by decide)
          · exact absurd (heq ▸ hrecv) (show ¬ Received ST_BAD_MAGIC by decide)
  · exact iff_of_true (.of_not_admitted hadmitted) fun h => absurd h hadmitted

/-- A page with a ring that holds so many packets of one length. -/
def packets (count : UInt64) (len : UInt8) : RingPage :=
  ⟨⟨RING_MAGIC, CAPACITY, 64, count, 0, 0⟩, fun i => if i = RING_DATA then len else 0⟩

def receiverBoot : BootInfo := ⟨BOOT_MAGIC, 1, RIGHT_RECV, 0, 1⟩

theorem net_status_decoded_pkt :
    Received (Net.start receiverBoot (packets 1 3)).1 ∧
      ((Net.start receiverBoot (packets 1 3)).1 >>> 8).toNat = 3 := by
  have h := (net_status_decoded receiverBoot (packets 1 3)).2 fun _ => by decide
  have hlen : (packets 1 3).slotLen = 3 := by decide
  exact ⟨h.taken.2 (by decide), hlen ▸ (h.packet (by decide)).2.1⟩

/-- On an empty ring the net image takes nothing, and `run_demo` takes its status for a packet.  A
packet of 224 bytes is taken, and its status is that of an empty ring. -/
theorem empty_status_received :
    (Net.start receiverBoot (packets 0 3)).1 = ST_EMPTY ∧
      Received (Net.start receiverBoot (packets 0 3)).1 ∧
      (Net.start receiverBoot (packets 0 3)).2.ring.consumer = (packets 0 3).ring.consumer ∧
      (Net.start receiverBoot (packets 1 224)).1 = ST_EMPTY ∧
      (Net.start receiverBoot (packets 1 224)).2.ring.consumer =
        (packets 1 224).ring.consumer + 1 := by
  decide

end RootCourt

end CourtKernel
