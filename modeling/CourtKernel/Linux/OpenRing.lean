import CourtKernel.Linux.Link
import CourtKernel.Linux.Manifest

/-!
# Opening a ring file, and the demo payload

Reference model of `SharedRing::open` of `crates/court-hosted-linux/src/shm_ring.rs`: a file is
mapped, its first 32 bytes are read as a header, and the header is checked against the length of the
file.  The operating system's own calls have succeeded.

* `RingFile` — the bytes of a file; `SharedRing.file` is the file that a mapping writes to.
* `map_file` — a header is read back as it was written, so both ends of a ring see one state.
* `sound_create`, `Sound.open_file` — a file that `create` made and its users wrote to is accepted.
* `demo_payload_fits` — a validated demo payload goes through the fresh ring of the first corridor exactly
  if it is no longer than a slot.
* `demo_payload_refused` — validation does not compare the two.
-/

namespace CourtKernel

/-- The contents of a file. -/
structure RingFile where
  bytes : Memory
  len : Nat

namespace RingHeader

/-- The `repr(C)` layout. -/
def bytes (h : RingHeader) : List UInt8 :=
  leBytes 4 h.magic.toNat ++ leBytes 2 h.version.toNat ++ leBytes 2 h.reserved.toNat ++
    leBytes 4 h.capacity.toNat ++ leBytes 4 h.slotSize.toNat ++ leBytes 8 h.producer.toNat ++
    leBytes 8 h.consumer.toNat

/-- The header at the start of a mapping. -/
def ofBytes (m : Memory) : RingHeader where
  magic := .ofNat (leVal (m.read 0 4))
  version := .ofNat (leVal (m.read 4 2))
  reserved := .ofNat (leVal (m.read 6 2))
  capacity := .ofNat (leVal (m.read 8 4))
  slotSize := .ofNat (leVal (m.read 12 4))
  producer := .ofNat (leVal (m.read 16 8))
  consumer := .ofNat (leVal (m.read 24 8))

@[simp] theorem length_bytes (h : RingHeader) : h.bytes.length = HEADER_LEN := by
  simp [bytes, HEADER_LEN]

/-- The parts of a read of seven fields. -/
theorem read_fields {m : Memory} {h : RingHeader} (hm : m.read 0 32 = h.bytes) :
    m.read 0 4 = leBytes 4 h.magic.toNat ∧ m.read 4 2 = leBytes 2 h.version.toNat ∧
      m.read 6 2 = leBytes 2 h.reserved.toNat ∧ m.read 8 4 = leBytes 4 h.capacity.toNat ∧
      m.read 12 4 = leBytes 4 h.slotSize.toNat ∧ m.read 16 8 = leBytes 8 h.producer.toNat ∧
      m.read 24 8 = leBytes 8 h.consumer.toNat := by
  have hsplit : m.read 0 32 = m.read 0 4 ++ m.read 4 2 ++ m.read 6 2 ++ m.read 8 4 ++ m.read 12 4 ++
      m.read 16 8 ++ m.read 24 8 := by
    rw [← Memory.read_add (a := 0) (n := 4) 2, ← Memory.read_add (a := 0) (n := 6) 2,
      ← Memory.read_add (a := 0) (n := 8) 4, ← Memory.read_add (a := 0) (n := 12) 4,
      ← Memory.read_add (a := 0) (n := 16) 8, ← Memory.read_add (a := 0) (n := 24) 8]
  rw [hsplit, bytes] at hm
  obtain ⟨hm, h7⟩ := List.append_inj' hm (by simp)
  obtain ⟨hm, h6⟩ := List.append_inj' hm (by simp)
  obtain ⟨hm, h5⟩ := List.append_inj' hm (by simp)
  obtain ⟨hm, h4⟩ := List.append_inj' hm (by simp)
  obtain ⟨hm, h3⟩ := List.append_inj' hm (by simp)
  obtain ⟨h1, h2⟩ := List.append_inj' hm (by simp)
  exact ⟨h1, h2, h3, h4, h5, h6, h7⟩

theorem ofNat_leVal_u16 (n : UInt16) : UInt16.ofNat (leVal (leBytes 2 n.toNat)) = n := by
  have hn := n.toNat_lt
  rw [leVal_leBytes, Nat.mod_eq_of_lt (by omega), UInt16.ofNat_toNat]

theorem ofNat_leVal_u32 (n : UInt32) : UInt32.ofNat (leVal (leBytes 4 n.toNat)) = n := by
  have hn := n.toNat_lt
  rw [leVal_leBytes, Nat.mod_eq_of_lt (by omega), UInt32.ofNat_toNat]

theorem ofNat_leVal_u64 (n : UInt64) : UInt64.ofNat (leVal (leBytes 8 n.toNat)) = n := by
  have hn := n.toNat_lt
  rw [leVal_leBytes, Nat.mod_eq_of_lt (by omega), UInt64.ofNat_toNat]

/-- A header is read as it was written. -/
theorem ofBytes_write (m : Memory) (h : RingHeader) : ofBytes (m.write 0 h.bytes) = h := by
  have hread : (m.write 0 h.bytes).read 0 32 = h.bytes := by
    have hself : (m.write 0 h.bytes).read 0 h.bytes.length = h.bytes := Memory.read_write_self
    rwa [length_bytes] at hself
  obtain ⟨h1, h2, h3, h4, h5, h6, h7⟩ := read_fields hread
  simp only [ofBytes, h1, h2, h3, h4, h5, h6, h7, ofNat_leVal_u16, ofNat_leVal_u32, ofNat_leVal_u64]

end RingHeader

/-- What the users of a ring may change: counters and slots. -/
structure Alike (ring ring' : SharedRing) : Prop where
  len : ring'.len = ring.len
  header : ∃ producer consumer,
    ring'.header = { ring.header with producer := producer, consumer := consumer }

namespace Alike

variable {r r' r'' : SharedRing}

theorem refl (r : SharedRing) : Alike r r := ⟨rfl, _, _, rfl⟩

theorem trans (h : Alike r r') (h' : Alike r' r'') : Alike r r'' := by
  obtain ⟨p, c, hh⟩ := h.header
  obtain ⟨p', c', hh'⟩ := h'.header
  refine ⟨h'.len.trans h.len, p', c', ?_⟩
  rw [hh', hh]

theorem capacity (h : Alike r r') : r'.header.capacity = r.header.capacity := by
  obtain ⟨p, c, hh⟩ := h.header
  rw [hh]

theorem slotSize (h : Alike r r') : r'.header.slotSize = r.header.slotSize := by
  obtain ⟨p, c, hh⟩ := h.header
  rw [hh]

end Alike

namespace SharedRing

variable {ring : SharedRing}

/-- The file behind a mapping. -/
def file (self : SharedRing) : RingFile := ⟨self.bytes.write 0 self.header.bytes, self.len⟩

def map (file : RingFile) : Except String SharedRing :=
  if file.len < HEADER_LEN then .error "shared ring file is too small"
  else .ok ⟨.ofBytes file.bytes, file.bytes, file.len⟩

def validate (self : SharedRing) : Except String Unit := do
  let header := self.header
  refuseIf (header.magic ≠ RING_MAGIC) "bad shared ring magic"
  refuseIf (header.version ≠ RING_VERSION) "unsupported shared ring version"
  let expected ← totalLen header.capacity header.slotSize
  refuseIf (expected ≠ self.len) "shared ring file length does not match header"

def «open» (file : RingFile) : Except String SharedRing := do
  let ring ← map file
  validate ring
  pure ring

/-- A mapping of the file behind another one has its header and its slots. -/
theorem map_file (hlen : HEADER_LEN ≤ ring.len) :
    map ring.file = .ok { ring with bytes := ring.bytes.write 0 ring.header.bytes } := by
  have hheader : RingHeader.ofBytes ring.file.bytes = ring.header := RingHeader.ofBytes_write _ _
  unfold map
  rw [hheader]
  exact if_neg (Nat.not_lt.2 hlen)

/-- What `create` writes into the header, and what its users never change. -/
structure Sound (ring : SharedRing) : Prop where
  magic : ring.header.magic = RING_MAGIC
  version : ring.header.version = RING_VERSION
  len : totalLen ring.header.capacity ring.header.slotSize = .ok ring.len

theorem totalLen_ge {capacity slotSize : UInt32} {len : Nat} (h : totalLen capacity slotSize = .ok len) :
    HEADER_LEN ≤ len := by
  unfold totalLen at h
  dsimp only at h
  split at h
  · split at h
    · obtain rfl := Except.ok.inj h
      exact Nat.le_add_right _ _
    · cases h
  · cases h

theorem sound_create {capacity slotSize : UInt32} (h : create capacity slotSize = .ok ring) :
    ring.Sound := by
  unfold create at h
  split at h
  · cases h
  · rename_i len hlen
    obtain rfl := Except.ok.inj h
    exact ⟨rfl, rfl, hlen⟩

theorem validate_eq_ok : ring.validate = .ok () ↔ ring.Sound := by
  simp only [validate, bind_eq_ok, refuseIf_eq_ok, not_not, exists_const]
  refine ⟨fun ⟨hmagic, hversion, len, hlen, heq⟩ => ⟨hmagic, hversion, heq ▸ hlen⟩, fun h => ?_⟩
  exact ⟨h.magic, h.version, ring.len, h.len, rfl⟩

theorem sound_open {file : RingFile} (h : «open» file = .ok ring) : ring.Sound := by
  obtain ⟨mapped, -, hrest⟩ := bind_eq_ok.1 h
  obtain ⟨_, hvalid, hring⟩ := bind_eq_ok.1 hrest
  obtain rfl := Except.ok.inj hring
  exact validate_eq_ok.1 hvalid

/-- A send changes the producer counter and slots. -/
theorem send_alike {ring' : SharedRing} {endpoint : EndpointState} {payload : Payload}
    {r : Except WireStatus Unit} (h : ring.send endpoint payload = some (r, ring')) :
    Alike ring ring' := by
  revert h
  fun_cases SharedRing.send ring endpoint payload
  case case4 => intro h; cases h
  all_goals
    intro h
    obtain ⟨-, rfl⟩ := Prod.mk.inj (Option.some.inj h)
    exact ⟨rfl, _, _, rfl⟩

theorem Sound.alike (h : ring.Sound) {ring' : SharedRing} (ha : Alike ring ring') : ring'.Sound := by
  obtain ⟨producer, consumer, hheader⟩ := ha.header
  refine ⟨?_, ?_, ?_⟩
  · rw [hheader]
    exact h.magic
  · rw [hheader]
    exact h.version
  · rw [hheader, ha.len]
    exact h.len

/-- A sound ring file is accepted, and the new mapping is of the same ring. -/
theorem Sound.open_file (h : ring.Sound) :
    «open» ring.file = .ok { ring with bytes := ring.bytes.write 0 ring.header.bytes } := by
  have hsound : Sound { ring with bytes := ring.bytes.write 0 ring.header.bytes } :=
    ⟨h.magic, h.version, h.len⟩
  unfold «open»
  rw [map_file (totalLen_ge h.len)]
  show (validate _ >>= fun _ => pure _) = _
  rw [validate_eq_ok.2 hsound]
  rfl

end SharedRing

/-- The slots lie behind the header, so a link that a ring carries is carried by a new mapping. -/
theorem Carries.reopen {ring : SharedRing} {endpoint : Side → EndpointState} {l : Link} {P C : Nat}
    (h : Carries ring endpoint l P C) :
    Carries { ring with bytes := ring.bytes.write 0 ring.header.bytes } endpoint l P C := by
  obtain ⟨hw, hc⟩ := h.window.agree (m := ring.bytes.write 0 ring.header.bytes) fun j _ _ i _ => by
    refine (Memory.write_of_ge ?_).symm
    rw [RingHeader.length_bytes, SharedRing.slotOf]
    omega
  exact ⟨hw, hc.trans h.contents, h.capacity, h.positive, h.revoked, h.peerDown⟩

/-- The capabilities of the two sides. -/
def capOf (sender receiver : WireCap) : Side → WireCap
  | .producer => sender
  | .consumer => receiver

/-- The ring that a payload is sent on is fresh, and so are both endpoint states. -/
theorem carries_fresh {ring : SharedRing} (h : ring.Fresh) (cap : Side → WireCap) :
    Carries ring (fun side => .new (cap side))
      ⟨ring.header.capacity.toNat, [], fun _ => false, fun _ => false⟩ 0 0 :=
  ⟨h.window, rfl, rfl, h.capacity, fun _ => rfl, fun _ => rfl⟩

/-- A payload that fits a slot goes through a ring that `create` made. -/
theorem SharedRing.round_trip {capacity slotSize : UInt32} {ring : SharedRing} {payload : Payload}
    (hring : create capacity slotSize = .ok ring) (hcap : capacity ≠ 0)
    (hfit : payload.length ≤ slotSize.toNat) (sender receiver : WireCap) :
    ∃ sent, ring.send (.new sender) payload = some (.ok (), sent) ∧
      ∃ opened, «open» sent.file = .ok opened ∧
        ∃ drained, opened.recv (.new receiver) = some (.ok (some payload), drained) := by
  have hpos : 1 ≤ capacity.toNat := by
    rw [Nat.one_le_iff_ne_zero]
    exact fun hzero => hcap (UInt32.toNat_inj.1 hzero)
  obtain ⟨hfresh, hcap', hslot⟩ := fresh_create hring hpos
  have hcarries := carries_fresh hfresh (capOf sender receiver)
  have hsteady : Steady ring.header.capacity.toNat 1 := Or.inl (by decide)
  have hlink : Link.send Link.ringGate
      ⟨ring.header.capacity.toNat, [], fun _ => false, fun _ => false⟩ payload =
      (.done (), ⟨ring.header.capacity.toNat, [payload], fun _ => false, fun _ => false⟩) :=
    if_neg (Nat.not_le.2 hfresh.capacity)
  obtain ⟨sent, P', hsend, hsent, -, -⟩ := hcarries.send hsteady (by rw [hslot]; exact hfit)
  rw [hlink] at hsend hsent
  obtain ⟨drained, C', hrecv, -, -⟩ := hsent.reopen.recv
  exact ⟨sent, hsend, _, ((sound_create hring).alike (send_alike hsend)).open_file, drained, hrecv⟩

/-! ## The demo payload -/

/-- `demo.packet_payload.as_bytes()` -/
def DemoManifest.payload (demo : DemoManifest) : Payload := demo.packetPayload.toUTF8.data.toList

/-- **A demo payload that fits its ring.**  For a validated manifest, a payload is accepted by the
fresh ring of the first corridor, and received unchanged by a mapping of the same file, exactly if it
has at most `slot_size` bytes; a longer one is refused and leaves the ring as it is. -/
theorem demo_payload_fits {manifest : ManifestFile} {policy : PolicyFile}
    {corridor : CorridorManifest} {ring : SharedRing} (hv : validate manifest policy = .ok ())
    (hfirst : manifest.corridors.head? = some corridor)
    (hring : SharedRing.create corridor.capacity corridor.slotSize = .ok ring)
    (sender receiver : WireCap) :
    ((∃ sent, ring.send (.new sender) manifest.demo.payload = some (.ok (), sent) ∧
        ∃ opened, SharedRing.open sent.file = .ok opened ∧ ∃ drained,
          opened.recv (.new receiver) = some (.ok (some manifest.demo.payload), drained)) ↔
      manifest.demo.payload.length ≤ corridor.slotSize.toNat) ∧
    (corridor.slotSize.toNat < manifest.demo.payload.length →
      ring.send (.new sender) manifest.demo.payload = some (.error .invalidObject, ring)) := by
  have hmem : corridor ∈ manifest.corridors := List.mem_of_mem_head? hfirst
  have hvalid := (validate_eq_ok.1 hv).corridors corridor hmem
  have hlong : corridor.slotSize.toNat < manifest.demo.payload.length →
      ring.send (.new sender) manifest.demo.payload = some (.error .invalidObject, ring) := by
    intro hlt
    have hpos : 1 ≤ corridor.capacity.toNat :=
      Nat.one_le_iff_ne_zero.2 fun hzero => hvalid.capacity (UInt32.toNat_inj.1 hzero)
    rw [← (SharedRing.fresh_create hring hpos).2.2] at hlt
    have hopen : (EndpointState.new sender).status = .ok := rfl
    rw [SharedRing.send, if_neg (not_not.2 hopen), if_pos hlt]
  refine ⟨⟨?_, fun hfit => SharedRing.round_trip hring hvalid.capacity hfit sender receiver⟩, hlong⟩
  rintro ⟨sent, hsent, -⟩
  by_contra hlt
  rw [hlong (Nat.lt_of_not_le hlt)] at hsent
  cases hsent

theorem demo_payload_fits_builtin :
    ∃ ring, SharedRing.create 64 2048 = .ok ring ∧
      ∃ sent, ring.send (.new ⟨2, ⟨0⟩⟩) ManifestFile.builtinPacketRx.demo.payload =
          some (.ok (), sent) ∧
        ∃ opened, SharedRing.open sent.file = .ok opened ∧
          ∃ drained, opened.recv (.new ⟨3, ⟨0⟩⟩) =
            some (.ok (some ManifestFile.builtinPacketRx.demo.payload), drained) := by
  have hv : validate .builtinPacketRx .builtinPacketRx = .ok () := by decide +kernel
  exact ⟨_, rfl, (demo_payload_fits hv rfl rfl _ _).1.2 (by decide +kernel)⟩

/-- The compiled-in manifest with slots of eight bytes. -/
def smallSlots : ManifestFile :=
  { ManifestFile.builtinPacketRx with
    corridors := [⟨"/court/net0/packet/rx", .sharedRing, "app", "net0", 64, 8⟩] }

/-- The payload of twelve bytes passes validation and does not fit a slot of eight. -/
theorem demo_payload_refused :
    validate smallSlots .builtinPacketRx = .ok () ∧
      ∃ ring, SharedRing.create 64 8 = .ok ring ∧
        ring.send (.new ⟨2, ⟨0⟩⟩) smallSlots.demo.payload = some (.error .invalidObject, ring) := by
  refine ⟨by decide +kernel, _, rfl, ?_⟩
  unfold SharedRing.send
  rw [if_neg (by decide), if_pos (by decide +kernel)]

end CourtKernel
