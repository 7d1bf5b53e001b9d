import CourtKernel.RootCourt.Enter
import CourtKernel.RootCourt.Sharing

/-!
# The demo over memory is the demo

`CourtKernel.RootCourt.Demo` runs the two images on boot blocks and a ring page that nobody else can
touch.  `CourtKernel.RootCourt.Enter` runs them in memory, each behind its own tables, on a stack of
arbitrary contents, with the kernel storing through the direct map in between.  Both give the same
replies.

* `Home` — what a court finds behind its tables: a boot page, the ring page and a stack, none of them
  a table.
* `Holds` — a page of memory holds a ring page, up to the bytes between header and slots.
* `App.startIn_spec`, `Net.startIn_spec` — an image in memory does what it does on a ring page, and
  changes no byte outside it.
-/

namespace CourtKernel

namespace RootCourt

open Translation (Maps)

/-! ## Boot blocks and rings in memory -/

/-- The boot block at an address. -/
def BootInfo.at (m : Memory) (p : Nat) : BootInfo :=
  ⟨m.readU64 p, m.readU64 (p + 8), m.readU64 (p + 16), m.readU64 (p + 24), m.readU64 (p + 32)⟩

/-- The header of a ring at an address. -/
def Ring.at (m : Memory) (p : Nat) : Ring where
  magic := m.readU64 p
  capacity := UInt32.ofNat (leVal (m.read (p + 8) 4))
  slotSize := UInt32.ofNat (leVal (m.read (p + 12) 4))
  producer := m.readU64 (p + 16)
  consumer := m.readU64 (p + 24)
  revoked := m.readU64 (p + 32)

/-- The page at `p` holds a ring page: its header, and the bytes of its slots. -/
structure Holds (m : Memory) (p : Nat) (page : RingPage) : Prop where
  ring : Ring.at m p = page.ring
  slots : ∀ i, RING_DATA ≤ i → i < 4096 → m (p + i) = page.bytes i

section

variable {m m' : Memory} {p : Nat} {page : RingPage}

theorem BootInfo.at_congr (h : ∀ i < 4096, m' (p + i) = m (p + i)) : BootInfo.at m' p = BootInfo.at m p := by
  have hword : ∀ off, off + 8 ≤ 4096 → m'.readU64 (p + off) = m.readU64 (p + off) := by
    intro off hoff
    apply Memory.readU64_congr
    intro i h1 h2
    have hbyte := h (i - p) (by omega)
    rwa [Nat.add_sub_cancel' (by omega)] at hbyte
  have hfirst := hword 0 (by omega)
  rw [Nat.add_zero] at hfirst
  simp only [BootInfo.at, hfirst, hword 8 (by omega), hword 16 (by omega), hword 24 (by omega),
    hword 32 (by omega)]

/-- The store of the revoke step. -/
theorem BootInfo.at_write_rights (v : UInt64) :
    BootInfo.at (m.writeU64 (p + 16) v) p = { BootInfo.at m p with rights := v } := by
  simp (disch := omega) only [BootInfo.at, Memory.readU64_writeU64_self,
    Memory.readU64_writeU64_of_disjoint]

theorem Ring.at_congr (h : ∀ i < 40, m' (p + i) = m (p + i)) : Ring.at m' p = Ring.at m p := by
  have hword : ∀ off, off + 8 ≤ 40 → m'.readU64 (p + off) = m.readU64 (p + off) := by
    intro off hoff
    apply Memory.readU64_congr
    intro i h1 h2
    have hbyte := h (i - p) (by omega)
    rwa [Nat.add_sub_cancel' (by omega)] at hbyte
  have hhalf : ∀ off, off + 4 ≤ 40 → m'.read (p + off) 4 = m.read (p + off) 4 := by
    intro off hoff
    apply Memory.read_congr
    intro i hi
    rw [Nat.add_assoc]
    exact h (off + i) (by omega)
  have hfirst := hword 0 (by omega)
  rw [Nat.add_zero] at hfirst
  simp only [Ring.at, hfirst, hhalf 8 (by omega), hhalf 12 (by omega), hword 16 (by omega),
    hword 24 (by omega), hword 32 (by omega)]

/-- A store to a later word of the header leaves the first ones alone. -/
theorem Ring.read_half {off v : Nat} {w : UInt64} (h : off + 4 ≤ v) :
    (m.writeU64 (p + v) w).read (p + off) 4 = m.read (p + off) 4 :=
  Memory.read_write_of_disjoint (Or.inl (by omega))

theorem Ring.at_write_producer (v : UInt64) :
    Ring.at (m.writeU64 (p + 16) v) p = { Ring.at m p with producer := v } := by
  simp (disch := omega) only [Ring.at, Memory.readU64_writeU64_self,
    Memory.readU64_writeU64_of_disjoint, Ring.read_half]

theorem Ring.at_write_consumer (v : UInt64) :
    Ring.at (m.writeU64 (p + 24) v) p = { Ring.at m p with consumer := v } := by
  simp (disch := omega) only [Ring.at, Memory.readU64_writeU64_self,
    Memory.readU64_writeU64_of_disjoint, Ring.read_half]

theorem Ring.at_write_revoked (v : UInt64) :
    Ring.at (m.writeU64 (p + 32) v) p = { Ring.at m p with revoked := v } := by
  simp (disch := omega) only [Ring.at, Memory.readU64_writeU64_self,
    Memory.readU64_writeU64_of_disjoint, Ring.read_half]

namespace Holds

theorem producer (h : Holds m p page) : m.readU64 (p + 16) = page.ring.producer := by
  simp only [← h.ring, Ring.at]

theorem consumer (h : Holds m p page) : m.readU64 (p + 24) = page.ring.consumer := by
  simp only [← h.ring, Ring.at]

theorem congr (h : Holds m p page) (hm : ∀ i < 4096, m' (p + i) = m (p + i)) : Holds m' p page :=
  ⟨(Ring.at_congr fun i hi => hm i (by omega)).trans h.ring,
    fun i h1 h2 => (hm i h2).trans (h.slots i h1 h2)⟩

/-- A store to a word of the header. -/
theorem header (h : Holds m p page) {off : Nat} {v : UInt64} {ring : Ring} (hoff : off + 8 ≤ RING_DATA)
    (hring : Ring.at (m.writeU64 (p + off) v) p = ring) :
    Holds (m.writeU64 (p + off) v) p { page with ring := ring } := by
  refine ⟨hring, fun i h1 h2 => ?_⟩
  rw [Memory.writeU64_of_disjoint (by omega)]
  exact h.slots i h1 h2

/-- A store to the slots. -/
theorem write (h : Holds m p page) {off : Nat} (bs : List UInt8) (hoff : RING_DATA ≤ off) :
    Holds (m.write (p + off) bs) p { page with bytes := page.bytes.write off bs } := by
  have hdata : RING_DATA = 128 := rfl
  refine ⟨(Ring.at_congr fun i hi => Memory.write_of_lt (by omega)).trans h.ring, fun i h1 h2 => ?_⟩
  simp only [Memory.write, Nat.add_le_add_iff_left, Nat.add_sub_add_left, h.slots i h1 h2]

end Holds

end

/-! ## Behind the tables of a court -/

/-- What a court finds behind its tables, in the memory `m` with table bytes `T`. -/
structure Home (tr : Translation) (T : Nat → Prop) (m : Memory) (boot ring stack : Nat) : Prop where
  stable : tr.Stable m T
  bootMap : Maps (tr m) BOOT_VA boot 4096
  ringMap : Maps (tr m) RING_VA ring 4096
  stackMap : Maps (tr m) STACK_VA stack STACK_SIZE.toNat
  ringOut : ∀ i < 4096, ¬ T (ring + i)
  stackOut : ∀ i < STACK_SIZE.toNat, ¬ T (stack + i)

namespace Court

variable {tr : Translation} {T : Nat → Prop} {m : Memory} {va : UInt64} {p n : Nat} {bs : List UInt8}
  {E : String → Memory → Prop}

theorem wp_load {Q : List UInt8 → Memory → Prop} (h : Maps (tr m) va p n) (hQ : Q (m.read p n) m) :
    wp (load tr va n) Q E m := by
  rw [load, wp_bind, wp_get, wp_expect, Translation.load_eq h]
  exact ⟨fun bytes hbytes => Option.some.inj hbytes ▸ hQ, fun hnone => absurd hnone (Option.some_ne_none _)⟩

theorem wp_loadU64 {Q : UInt64 → Memory → Prop} (h : Maps (tr m) va p 8) (hQ : Q (m.readU64 p) m) :
    wp (loadU64 tr va) Q E m := by
  rw [loadU64, wp_bind]
  apply wp_load h
  rw [wp_pure]
  exact hQ

theorem wp_store {Q : Unit → Memory → Prop} (hs : tr.Stable m T) (h : Maps (tr m) va p bs.length)
    (hout : ∀ i < bs.length, ¬ T (p + i)) (hQ : Q () (m.write p bs)) : wp (store tr va bs) Q E m := by
  rw [store, wp_bind, wp_get, wp_bind, wp_expect, Translation.store_eq hs h hout]
  refine ⟨fun m' hm' => ?_, fun hnone => absurd hnone (Option.some_ne_none _)⟩
  rw [wp_set, ← Option.some.inj hm']
  exact hQ

end Court

namespace Home

variable {tr : Translation} {T : Nat → Prop} {m m' : Memory} {boot ring stack : Nat}
  {E : String → Memory → Prop}

/-- Other bytes than those of the tables may change. -/
theorem remem (h : Home tr T m boot ring stack) (hm : ∀ a, T a → m' a = m a) :
    Home tr T m' boot ring stack := by
  have hsame : tr m' = tr m := h.stable m' hm
  refine ⟨h.stable.agree hm, ?_, ?_, ?_, h.ringOut, h.stackOut⟩
  · rw [hsame]
    exact h.bootMap
  · rw [hsame]
    exact h.ringMap
  · rw [hsame]
    exact h.stackMap

/-- Bytes written where no table is leave a home as it is. -/
theorem write (h : Home tr T m boot ring stack) {p : Nat} {bs : List UInt8}
    (hout : ∀ i < bs.length, ¬ T (p + i)) : Home tr T (m.write p bs) boot ring stack := by
  apply h.remem
  intro a ha
  rcases Nat.lt_or_ge a p with hlt | hge
  · exact Memory.write_of_lt hlt
  · apply Memory.write_of_ge
    by_contra hin
    apply hout (a - p) (by omega)
    rwa [Nat.add_sub_cancel' hge]

theorem wp_loadBoot (h : Home tr T m boot ring stack) (off : Nat) (hoff : off + 8 ≤ 4096)
    {Q : UInt64 → Memory → Prop} (hQ : Q (m.readU64 (boot + off)) m) :
    wp (Court.loadU64 tr (BOOT_VA + UInt64.ofNat off)) Q E m :=
  Court.wp_loadU64 (h.bootMap.part off 8 hoff) hQ

theorem wp_loadRing (h : Home tr T m boot ring stack) (off : Nat) (hoff : off + 8 ≤ 4096)
    {Q : UInt64 → Memory → Prop} (hQ : Q (m.readU64 (ring + off)) m) :
    wp (Court.loadU64 tr (RING_VA + UInt64.ofNat off)) Q E m :=
  Court.wp_loadU64 (h.ringMap.part off 8 hoff) hQ

/-- A store to the ring page. -/
theorem wp_storeRing (h : Home tr T m boot ring stack) (off : Nat) {bs : List UInt8}
    (hoff : off + bs.length ≤ 4096) {Q : Unit → Memory → Prop}
    (hQ : Home tr T (m.write (ring + off) bs) boot ring stack → Q () (m.write (ring + off) bs)) :
    wp (Court.store tr (RING_VA + UInt64.ofNat off) bs) Q E m := by
  have hout : ∀ i < bs.length, ¬ T (ring + off + i) := by
    intro i hi
    rw [Nat.add_assoc]
    exact h.ringOut (off + i) (by omega)
  exact Court.wp_store h.stable (h.ringMap.part off _ hoff) hout (hQ (h.write hout))

end Home

/-! ## The images in memory -/

/-- `slot_ptr` names the slot's place in the ring page. -/
theorem slotVa_eq (idx : UInt64) : slotVa idx = RING_VA + UInt64.ofNat (slotPtr idx) := by
  rw [slotVa, slotPtr, UInt64.ofNat_add, UInt64.ofNat_mul, UInt64.ofNat_toNat, UInt64.add_assoc]

theorem slotPtr_bounds (c : UInt64) :
    RING_DATA ≤ slotPtr (c % CAPACITY.toUInt64) ∧ slotPtr (c % CAPACITY.toUInt64) + 64 ≤ 4096 := by
  have hidx : (c % CAPACITY.toUInt64).toNat = c.toNat % 4 := by
    rw [UInt64.toNat_mod]
    rfl
  simp only [slotPtr, hidx, RING_DATA, SLOT]
  omega

/-- The bytes outside the ring page are as before. -/
def Outside (ring : Nat) (m m' : Memory) : Prop := ∀ a, a < ring ∨ ring + 4096 ≤ a → m' a = m a

/-- What an image does in memory: the same as on a ring page, and nothing outside it. -/
def Agrees (ring : Nat) (m : Memory) (result : UInt64 × RingPage) (status : UInt64) (m' : Memory) : Prop :=
  status = result.1 ∧ Holds m' ring result.2 ∧ Outside ring m m'

section

variable {tr : Translation} {T : Nat → Prop} {m : Memory} {boot ring stack : Nat} {page : RingPage}
  {E : String → Memory → Prop}

theorem Outside.write {m' : Memory} (h : Outside ring m m') (off : Nat) (bs : List UInt8)
    (hoff : off + bs.length ≤ 4096) : Outside ring m (m'.write (ring + off) bs) := by
  intro a ha
  rw [← h a ha]
  rcases ha with hlt | hge
  · exact Memory.write_of_lt (by omega)
  · exact Memory.write_of_ge (by omega)

/-- The checks at the start of both images. -/
theorem wp_checkedStart (h : Home tr T m boot ring stack) (hpage : Holds m ring page) {right : UInt64}
    {rest : Prog Memory UInt64} {Q : UInt64 → Memory → Prop}
    (hboot : (BootInfo.at m boot).magic ≠ BOOT_MAGIC → Q ST_BAD_MAGIC m)
    (hring : (BootInfo.at m boot).magic = BOOT_MAGIC → page.ring.magic ≠ RING_MAGIC → Q ST_BAD_MAGIC m)
    (hdenied : Marked (BootInfo.at m boot) page →
      (BootInfo.at m boot).rights &&& right = 0 ∨ page.ring.revoked ≠ 0 → Q ST_DENIED m)
    (hrest : Marked (BootInfo.at m boot) page →
      ¬ ((BootInfo.at m boot).rights &&& right = 0 ∨ page.ring.revoked ≠ 0) → wp rest Q E m) :
    wp (checkedStart tr right rest) Q E m := by
  rw [← hpage.ring] at hring hdenied hrest
  unfold checkedStart
  rw [wp_bind]
  apply Court.wp_loadU64 (h.bootMap.part 0 8 (by omega))
  rw [Nat.add_zero, wp_ite]
  refine ⟨fun hbad => (wp_pure _).2 (hboot hbad), fun hmagic => ?_⟩
  have hmagic := not_not.1 hmagic
  rw [wp_bind]
  apply Court.wp_loadU64 (h.ringMap.part 0 8 (by omega))
  rw [Nat.add_zero, wp_ite]
  refine ⟨fun hbad => (wp_pure _).2 (hring hmagic hbad), fun hringMagic => ?_⟩
  have hmarked : Marked (BootInfo.at m boot) page :=
    ⟨hmagic, by rw [← hpage.ring]; exact not_not.1 hringMagic⟩
  rw [wp_bind]
  apply h.wp_loadBoot 16 (by omega)
  rw [wp_ite]
  refine ⟨fun hno => (wp_pure _).2 (hdenied hmarked (Or.inl hno)), fun hright => ?_⟩
  rw [wp_bind]
  apply h.wp_loadRing 32 (by omega)
  rw [wp_ite]
  refine ⟨fun hrev => (wp_pure _).2 (hdenied hmarked (Or.inr hrev)), fun hlive => ?_⟩
  exact hrest hmarked (not_or.2 ⟨hright, hlive⟩)

/-- The app image past its checks. -/
def App.pushed (page : RingPage) : UInt64 × RingPage :=
  if page.ring.producer - page.ring.consumer ≥ CAPACITY.toUInt64 then (ST_DENIED, page)
  else (ST_SENT,
    { ring := { page.ring with producer := page.ring.producer + 1 }
      bytes := (page.bytes.write (slotPtr (page.ring.producer % CAPACITY.toUInt64))
        (leBytes 4 pkt.length)).write (slotPtr (page.ring.producer % CAPACITY.toUInt64) + 4) pkt })

theorem App.start_eq {info : BootInfo} (h : Marked info page)
    (hyes : ¬ (info.rights &&& RIGHT_SEND = 0 ∨ page.ring.revoked ≠ 0)) :
    App.start info page = App.pushed page := by
  rw [App.start, if_neg (not_not.2 h.boot), if_neg (not_not.2 h.ring), if_neg hyes]
  rfl

/-- The net image past its checks. -/
def Net.popped (page : RingPage) : UInt64 × RingPage :=
  if page.ring.consumer = page.ring.producer then (ST_EMPTY, page)
  else (ST_RECV ||| UInt64.ofNat page.slotLen <<< 8,
    { page with ring := { page.ring with consumer := page.ring.consumer + 1 } })

theorem Net.start_eq {info : BootInfo} (h : Marked info page)
    (hyes : ¬ (info.rights &&& RIGHT_RECV = 0 ∨ page.ring.revoked ≠ 0)) :
    Net.start info page = Net.popped page := by
  rw [Net.start, if_neg (not_not.2 h.boot), if_neg (not_not.2 h.ring), if_neg hyes]
  rfl

theorem App.send_spec (h : Home tr T m boot ring stack) (hpage : Holds m ring page) :
    wp (App.send tr) (Agrees ring m (App.pushed page)) (fun _ _ => False) m := by
  have hsame : Outside ring m m := fun _ _ => rfl
  obtain ⟨hlow, hhigh⟩ := slotPtr_bounds page.ring.producer
  have hlen : (leBytes 4 pkt.length).length = 4 := length_leBytes 4 _
  have hpkt : pkt.length = 3 := rfl
  unfold App.send App.pushed
  rw [wp_bind]
  apply h.wp_loadRing 16 (by omega)
  rw [wp_bind]
  apply h.wp_loadRing 24 (by omega)
  rw [hpage.producer, hpage.consumer, wp_ite]
  refine ⟨fun hfull => ?_, fun hroom => ?_⟩
  · rw [wp_pure, if_pos hfull]
    exact ⟨rfl, hpage, hsame⟩
  · rw [if_neg hroom]
    -- the length, the bytes of the packet, then the counter
    simp only [slotVa_eq]
    generalize slotPtr (page.ring.producer % CAPACITY.toUInt64) = slot at hlow hhigh ⊢
    rw [wp_bind]
    apply h.wp_storeRing slot (by omega)
    intro h₁
    have hpage₁ := hpage.write (leBytes 4 pkt.length) hlow
    have hout₁ : Outside ring m (m.write (ring + slot) (leBytes 4 pkt.length)) := hsame.write slot _ (by omega)
    rw [wp_bind, show (4 : UInt64) = UInt64.ofNat 4 from rfl, UInt64.add_assoc, ← UInt64.ofNat_add]
    apply h₁.wp_storeRing (slot + 4) (by omega)
    intro h₂
    have hpage₂ := hpage₁.write pkt (show RING_DATA ≤ slot + 4 by omega)
    have hout₂ := hout₁.write (slot + 4) pkt (by omega)
    rw [wp_bind]
    apply h₂.wp_storeRing 16 (by rw [length_leBytes]; omega)
    intro _
    have hcount := hpage₂.header (by decide) (Ring.at_write_producer (page.ring.producer + 1))
    rw [hpage₂.ring] at hcount
    rw [wp_pure]
    exact ⟨rfl, hcount, hout₂.write 16 _ (by rw [length_leBytes]; omega)⟩

theorem Net.recv_spec (h : Home tr T m boot ring stack) (hpage : Holds m ring page) :
    wp (Net.recv tr) (Agrees ring m (Net.popped page)) (fun _ _ => False) m := by
  have hsame : Outside ring m m := fun _ _ => rfl
  obtain ⟨hlow, hhigh⟩ := slotPtr_bounds page.ring.consumer
  unfold Net.recv Net.popped
  rw [wp_bind]
  apply h.wp_loadRing 16 (by omega)
  rw [wp_bind]
  apply h.wp_loadRing 24 (by omega)
  rw [hpage.producer, hpage.consumer, wp_ite]
  refine ⟨fun hempty => ?_, fun hsome => ?_⟩
  · rw [wp_pure, if_pos hempty]
    exact ⟨rfl, hpage, hsame⟩
  · rw [if_neg hsome]
    rw [wp_bind, slotVa_eq]
    apply Court.wp_load (h.ringMap.part _ 4 (by omega))
    have hread : m.read (ring + slotPtr (page.ring.consumer % CAPACITY.toUInt64)) 4 =
        page.bytes.read (slotPtr (page.ring.consumer % CAPACITY.toUInt64)) 4 := by
      apply Memory.read_congr
      intro i hi
      rw [Nat.add_assoc]
      exact hpage.slots _ (by omega) (by omega)
    rw [wp_bind, hread]
    apply h.wp_storeRing 24 (by rw [length_leBytes]; omega)
    intro _
    have hcount := hpage.header (by decide) (Ring.at_write_consumer (page.ring.consumer + 1))
    rw [hpage.ring] at hcount
    rw [wp_pure]
    exact ⟨rfl, hcount, hsame.write 24 _ (by rw [length_leBytes]; omega)⟩

/-- **The app image in memory.** -/
theorem App.startIn_spec (h : Home tr T m boot ring stack) (hpage : Holds m ring page) :
    wp (App.startIn tr) (Agrees ring m (App.start (BootInfo.at m boot) page)) (fun _ _ => False) m := by
  have hsame : Outside ring m m := fun _ _ => rfl
  apply wp_checkedStart h hpage
  · intro hbad
    rw [App.start, if_pos hbad]
    exact ⟨rfl, hpage, hsame⟩
  · intro hmagic hbad
    rw [App.start, if_neg (not_not.2 hmagic), if_pos hbad]
    exact ⟨rfl, hpage, hsame⟩
  · intro hmarked hno
    rw [App.start_denied hmarked hno]
    exact ⟨rfl, hpage, hsame⟩
  · intro hmarked hyes
    rw [App.start_eq hmarked hyes]
    exact App.send_spec h hpage

/-- **The net image in memory.** -/
theorem Net.startIn_spec (h : Home tr T m boot ring stack) (hpage : Holds m ring page) :
    wp (Net.startIn tr) (Agrees ring m (Net.start (BootInfo.at m boot) page)) (fun _ _ => False) m := by
  have hsame : Outside ring m m := fun _ _ => rfl
  apply wp_checkedStart h hpage
  · intro hbad
    rw [Net.start, if_pos hbad]
    exact ⟨rfl, hpage, hsame⟩
  · intro hmagic hbad
    rw [Net.start, if_neg (not_not.2 hmagic), if_pos hbad]
    exact ⟨rfl, hpage, hsame⟩
  · intro hmarked hno
    rw [Net.start_denied hmarked hno]
    exact ⟨rfl, hpage, hsame⟩
  · intro hmarked hyes
    rw [Net.start_eq hmarked hyes]
    exact Net.recv_spec h hpage

end

/-! ## One entry -/

section

variable {b : BumpAllocator} {space : AddressSpace} {place : Nat → Option Place} {s : Early}
  {cr3 : UInt64} {boot ring stack : Nat} {page : RingPage}

/-- What one entry may change: the ring page, and the stack of the court. -/
def Touches (ring stack : Nat) (m m' : Memory) : Prop :=
  ∀ a, a < ring ∨ ring + 4096 ≤ a → a < stack ∨ stack + STACK_SIZE.toNat ≤ a → m' a = m a

/-- An entry leaves every table alone. -/
theorem Touches.tables {T : Nat → Prop} {tr : Translation} {m m' : Memory} (h : Touches ring stack m m')
    (hhome : Home tr T m boot ring stack) : ∀ a, T a → m' a = m a := by
  intro a ha
  apply h a
  · by_contra hin
    apply hhome.ringOut (a - ring) (by omega)
    rwa [Nat.add_sub_cancel' (by omega)]
  · by_contra hin
    apply hhome.stackOut (a - stack) (by omega)
    rwa [Nat.add_sub_cancel' (by omega)]

/-- **An entry**: the image runs as on a ring page, and the kernel gets its tables back. -/
theorem enter_spec (h : s.Held b space place) (h57 : s.kernel.la57 = false)
    (hroot : place cr3.toNat = some (.pml4 cr3.toNat))
    (hhome : Home (paging false cr3) (TableByte place) s.kernel.mem boot ring stack)
    (hpage : Holds s.kernel.mem ring page)
    (hring : stack + STACK_SIZE.toNat ≤ ring ∨ ring + 4096 ≤ stack)
    (hboot : stack + STACK_SIZE.toNat ≤ boot ∨ boot + 4096 ≤ stack)
    {start : Translation → Prog Memory UInt64} {run : BootInfo → RingPage → UInt64 × RingPage}
    (hstart : ∀ m, Home (paging false cr3) (TableByte place) m boot ring stack → Holds m ring page →
      wp (start (paging false cr3)) (Agrees ring m (run (BootInfo.at m boot) page)) (fun _ _ => False) m)
    {spill : List UInt8} (hspill : spill.length ≤ STACK_SIZE.toNat) :
    wp (enter cr3 (STACK_VA + STACK_SIZE) start spill)
      (fun status s' => status = (run (BootInfo.at s.kernel.mem boot) page).1 ∧
        ∃ m', s' = { s with kernel := { s.kernel with mem := m' } } ∧
          Holds m' ring (run (BootInfo.at s.kernel.mem boot) page).2 ∧ Touches ring stack s.kernel.mem m')
      (fun _ _ => False) s := by
  have hsize : STACK_SIZE.toNat = 32768 := by decide
  have hseat : Seated s.kernel.la57 place ⟨cr3, cr3⟩ := by
    refine ⟨hroot, fun htrue => ?_, fun _ => rfl⟩
    rw [h57] at htrue
    cases htrue
  have hmine : cr3 &&& 0x000ffffffffff000 = cr3 := (cr3_masked h.system.tables hseat).1
  have hkernel : s.cr3.map (· &&& 0x000ffffffffff000) = s.cr3 := by
    rw [h.cr3, Option.map_some, (cr3_masked h.system.tables h.seated).1]
  -- the stack grows down from its end
  have htop : STACK_VA + STACK_SIZE - UInt64.ofNat spill.length =
      STACK_VA + UInt64.ofNat (STACK_SIZE.toNat - spill.length) := by
    rw [UInt64.ofNat_sub hspill, UInt64.ofNat_toNat, UInt64.sub_eq_add_neg, UInt64.sub_eq_add_neg,
      UInt64.add_assoc]
  have hbelow : ∀ i < spill.length, ¬ TableByte place (stack + (STACK_SIZE.toNat - spill.length) + i) := by
    intro i hi
    rw [Nat.add_assoc]
    exact hhome.stackOut _ (by omega)
  unfold enter
  rw [wp_bind, wp_get, wp_bind, wp_set, wp_bind, wp_zoom, wp_bind]
  simp only [hmine, h57, htop, hkernel]
  apply Court.wp_store hhome.stable (hhome.stackMap.part _ _ (by omega)) hbelow
  generalize hm₁ : s.kernel.mem.write (stack + (STACK_SIZE.toNat - spill.length)) spill = m₁
  have hout : ∀ a, a < stack ∨ stack + STACK_SIZE.toNat ≤ a → m₁ a = s.kernel.mem a := by
    intro a ha
    rw [← hm₁]
    rcases ha with hlt | hge
    · exact Memory.write_of_lt (by omega)
    · exact Memory.write_of_ge (by omega)
  have hinfo : BootInfo.at m₁ boot = BootInfo.at s.kernel.mem boot :=
    BootInfo.at_congr fun i hi => hout _ (by omega)
  have hhome₁ : Home (paging false cr3) (TableByte place) m₁ boot ring stack := hm₁ ▸ hhome.write hbelow
  have hpage₁ : Holds m₁ ring page := hpage.congr fun i hi => hout _ (by omega)
  have hrun := hstart m₁ hhome₁ hpage₁
  rw [hinfo] at hrun
  refine wp_mono hrun ?_ fun _ _ hfalse => hfalse
  rintro status m' ⟨hstatus, hpage', houtside⟩
  rw [wp_bind, wp_modify, wp_pure]
  refine ⟨hstatus, m', rfl, hpage', fun a h1 h2 => ?_⟩
  rw [houtside a h1, hout a h2]

end

/-! ## The demo in memory -/

/-- Where the set-up has put what the demo uses. -/
structure Pages where
  ring : UInt64
  appBoot : UInt64
  netBoot : UInt64
  appStack : Nat
  netStack : Nat

/-- A page of the region that is no table. -/
structure Spare (b : BumpAllocator) (place : Nat → Option Place) (page : UInt64) : Prop where
  aligned : page.toNat % 4096 = 0
  start : b.start.toNat ≤ page.toNat
  limit : page.toNat + 4096 ≤ b.end.toNat
  free : ∀ i < 4096, ¬ TableByte place (page.toNat + i)

/-- A store to a spare page changes no table. -/
theorem Spare.write_table {b : BumpAllocator} {place : Nat → Option Place} {page : UInt64}
    (h : Spare b place page) {m : Memory} {off : Nat} {bs : List UInt8} (hoff : off + bs.length ≤ 4096)
    {a : Nat} (ha : TableByte place a) : m.write (page.toNat + off) bs a = m a := by
  have hout : ¬ (page.toNat ≤ a ∧ a < page.toNat + 4096) := by
    rintro ⟨hle, hlt⟩
    apply h.free (a - page.toNat) (by omega)
    rwa [Nat.add_sub_cancel' hle]
  rcases Nat.lt_or_ge a page.toNat with hlt | hge
  · exact Memory.write_of_lt (by omega)
  · exact Memory.write_of_ge (by omega)

/-- The pages of a demo: none overlaps another one, but for the two stacks, of which nothing is
asked. -/
structure Pages.Sound (b : BumpAllocator) (place : Nat → Option Place) (c : Courts) (pages : Pages) :
    Prop where
  app : place c.app.cr3.toNat = some (.pml4 c.app.cr3.toNat)
  net : place c.net.cr3.toNat = some (.pml4 c.net.cr3.toNat)
  appTop : c.app.stackTop = STACK_VA + STACK_SIZE
  netTop : c.net.stackTop = STACK_VA + STACK_SIZE
  ring : c.ring = b.virt pages.ring
  boot : c.app.boot = b.virt pages.appBoot
  ringPage : Spare b place pages.ring
  bootPage : Spare b place pages.appBoot
  single : [pages.ring.toNat, pages.appBoot.toNat, pages.netBoot.toNat].Pairwise
    fun p q => p + 4096 ≤ q ∨ q + 4096 ≤ p
  stackApart : ∀ p ∈ [pages.ring.toNat, pages.appBoot.toNat, pages.netBoot.toNat],
    ∀ stack ∈ [pages.appStack, pages.netStack], stack + STACK_SIZE.toNat ≤ p ∨ p + 4096 ≤ stack

/-- Memory and tables hold the demo `d`. -/
structure Rep (b : BumpAllocator) (space : AddressSpace) (place : Nat → Option Place) (c : Courts)
    (pages : Pages) (d : Demo) (s : Stage) : Prop where
  held : s.early.Held b space place
  four : s.early.kernel.la57 = false
  root : s.root = d.root
  cap : c.appCap = d.appCap
  app : Home (paging false c.app.cr3) (TableByte place) s.early.kernel.mem pages.appBoot.toNat
    pages.ring.toNat pages.appStack
  net : Home (paging false c.net.cr3) (TableByte place) s.early.kernel.mem pages.netBoot.toNat
    pages.ring.toNat pages.netStack
  appBoot : BootInfo.at s.early.kernel.mem pages.appBoot.toNat = d.appBoot
  netBoot : BootInfo.at s.early.kernel.mem pages.netBoot.toNat = d.netBoot
  page : Holds s.early.kernel.mem pages.ring.toNat d.page

namespace Rep

variable {b : BumpAllocator} {space : AddressSpace} {place : Nat → Option Place} {c : Courts}
  {pages : Pages} {d : Demo} {s : Stage} {m : Memory}

/-- Memory changes outside the tables, and with it what it holds. -/
theorem remem (h : Rep b space place c pages d s)
    (hm : ∀ a, TableByte place a → m a = s.early.kernel.mem a) {appBoot netBoot : BootInfo}
    {page : RingPage} (happ : BootInfo.at m pages.appBoot.toNat = appBoot)
    (hnet : BootInfo.at m pages.netBoot.toNat = netBoot) (hpage : Holds m pages.ring.toNat page) :
    Rep b space place c pages { d with appBoot := appBoot, netBoot := netBoot, page := page }
      { s with early := { s.early with kernel := { s.early.kernel with mem := m } } } :=
  ⟨h.held.remem hm, h.four, h.root, h.cap, h.app.remem hm, h.net.remem hm, happ, hnet, hpage⟩

/-- After an entry only the ring page has changed, as far as the demo goes. -/
theorem entered (h : Rep b space place c pages d s) (hs : pages.Sound b place c) {stack : Nat}
    (hstack : stack ∈ [pages.appStack, pages.netStack]) {page : RingPage}
    (hm : ∀ a, TableByte place a → m a = s.early.kernel.mem a)
    (htouch : Touches pages.ring.toNat stack s.early.kernel.mem m) (hpage : Holds m pages.ring.toNat page) :
    Rep b space place c pages { d with page := page }
      { s with early := { s.early with kernel := { s.early.kernel with mem := m } } } := by
  have hsingle := hs.single
  have hstacks := hs.stackApart
  simp only [List.pairwise_cons, List.mem_cons, List.not_mem_nil, or_false, forall_eq_or_imp, forall_eq,
    List.Pairwise.nil, and_true, false_imp_iff, implies_true] at hsingle hstacks
  have hsize : STACK_SIZE.toNat = 32768 := by decide
  have hboot : ∀ p, p ∈ [pages.appBoot.toNat, pages.netBoot.toNat] →
      BootInfo.at m p = BootInfo.at s.early.kernel.mem p := by
    intro p hp
    apply BootInfo.at_congr
    intro i hi
    simp only [List.mem_cons, List.not_mem_nil, or_false] at hp hstack
    apply htouch
    · rcases hp with rfl | rfl <;> omega
    · rcases hp with rfl | rfl <;> rcases hstack with rfl | rfl <;> omega
  exact h.remem hm ((hboot _ (by simp)).trans h.appBoot) ((hboot _ (by simp)).trans h.netBoot) hpage

theorem wp_enterApp (h : Rep b space place c pages d s) (hs : pages.Sound b place c) {spill : List UInt8}
    (hspill : spill.length ≤ STACK_SIZE.toNat) :
    wp (Stage.enterApp c spill) (fun status s' => status = (App.start d.appBoot d.page).1 ∧
        Rep b space place c pages { d with page := (App.start d.appBoot d.page).2 } s')
      (fun _ _ => False) s := by
  have hring := hs.stackApart pages.ring.toNat (by simp) pages.appStack (by simp)
  have hboot := hs.stackApart pages.appBoot.toNat (by simp) pages.appStack (by simp)
  rw [Stage.enterApp, Stage.onEarly, wp_zoom, hs.appTop]
  refine wp_mono (enter_spec h.held h.four hs.app h.app h.page hring hboot
    (fun m hhome hpage => App.startIn_spec hhome hpage) hspill) ?_ fun _ _ hfalse => hfalse
  rintro status e ⟨hstatus, m', rfl, hpage, htouch⟩
  rw [h.appBoot] at hstatus hpage
  exact ⟨hstatus, h.entered hs (by simp) (htouch.tables h.app) htouch hpage⟩

theorem wp_enterNet (h : Rep b space place c pages d s) (hs : pages.Sound b place c) {spill : List UInt8}
    (hspill : spill.length ≤ STACK_SIZE.toNat) :
    wp (Stage.enterNet c spill) (fun status s' => status = (Net.start d.netBoot d.page).1 ∧
        Rep b space place c pages { d with page := (Net.start d.netBoot d.page).2 } s')
      (fun _ _ => False) s := by
  have hring := hs.stackApart pages.ring.toNat (by simp) pages.netStack (by simp)
  have hboot := hs.stackApart pages.netBoot.toNat (by simp) pages.netStack (by simp)
  rw [Stage.enterNet, Stage.onEarly, wp_zoom, hs.netTop]
  refine wp_mono (enter_spec h.held h.four hs.net h.net h.page hring hboot
    (fun m hhome hpage => Net.startIn_spec hhome hpage) hspill) ?_ fun _ _ hfalse => hfalse
  rintro status e ⟨hstatus, m', rfl, hpage, htouch⟩
  rw [h.netBoot] at hstatus hpage
  exact ⟨hstatus, h.entered hs (by simp) (htouch.tables h.net) htouch hpage⟩

/-- What the stores of the revoke step make of memory. -/
theorem revoked (h : Rep b space place c pages d s) (hs : pages.Sound b place c) (root : Object.RootCourt) :
    Rep b space place c pages { d with
        root := root
        appBoot := { d.appBoot with rights := 0 }
        page := { d.page with ring := { d.page.ring with revoked := 1 } } }
      ⟨{ s.early with kernel := { s.early.kernel with
          mem := (s.early.kernel.mem.writeU64 (pages.appBoot.toNat + 16) 0).writeU64
            (pages.ring.toNat + 32) 1 } }, root⟩ := by
  have hsingle := hs.single
  simp only [List.pairwise_cons, List.mem_cons, List.not_mem_nil, or_false, forall_eq_or_imp, forall_eq,
    List.Pairwise.nil, and_true, false_imp_iff, implies_true] at hsingle
  generalize hm₁ : s.early.kernel.mem.writeU64 (pages.appBoot.toNat + 16) 0 = m₁
  have hout : ∀ a, a < pages.appBoot.toNat ∨ pages.appBoot.toNat + 4096 ≤ a →
      m₁ a = s.early.kernel.mem a := by
    intro a ha
    rw [← hm₁]
    exact Memory.writeU64_of_disjoint (by omega)
  have hpage₁ : Holds m₁ pages.ring.toNat d.page := h.page.congr fun i hi => hout _ (by omega)
  have hpage₂ := hpage₁.header (by decide) (Ring.at_write_revoked 1)
  rw [hpage₁.ring] at hpage₂
  have hring : ∀ a, a < pages.ring.toNat ∨ pages.ring.toNat + 4096 ≤ a →
      m₁.writeU64 (pages.ring.toNat + 32) 1 a = m₁ a :=
    fun a ha => Memory.writeU64_of_disjoint (by omega)
  have happ : BootInfo.at (m₁.writeU64 (pages.ring.toNat + 32) 1) pages.appBoot.toNat =
      { d.appBoot with rights := 0 } := by
    rw [BootInfo.at_congr fun i hi => hring _ (by omega), ← hm₁, BootInfo.at_write_rights, h.appBoot]
  have hnet : BootInfo.at (m₁.writeU64 (pages.ring.toNat + 32) 1) pages.netBoot.toNat = d.netBoot := by
    rw [BootInfo.at_congr fun i hi => hring _ (by omega), BootInfo.at_congr fun i hi => hout _ (by omega),
      h.netBoot]
  have htables : ∀ a, TableByte place a →
      m₁.writeU64 (pages.ring.toNat + 32) 1 a = s.early.kernel.mem a := by
    intro a ha
    rw [← hm₁]
    exact (hs.ringPage.write_table (by simp) ha).trans (hs.bootPage.write_table (by simp) ha)
  have hrep := h.remem htables happ hnet hpage₂
  exact ⟨hrep.held, hrep.four, rfl, hrep.cap, hrep.app, hrep.net, hrep.appBoot, hrep.netBoot, hrep.page⟩

/-- The two stores of the revoke step, through the direct map. -/
theorem wp_revoke {gone : Prop} (h : Rep b space place c pages d s) (hs : pages.Sound b place c)
    (hstand : d.Standing gone) :
    wp (Stage.revoke c) (fun _ s' => Rep b space place c pages d.revoke.2 s') (fun _ _ => False) s := by
  have hok := hstand.revoke.1
  rw [Stage.revoke, wp_bind, Stage.onRoot, wp_zoom, h.cap, h.root]
  refine wp_mono (wp_self _ _) ?_ ?_
  · rintro ⟨⟩ root hrun
    have hrevoke : d.revoke.2 = { d with
        root := root
        appBoot := { d.appBoot with rights := 0 }
        page := { d.page with ring := { d.page.ring with revoked := 1 } } } := by
      simp only [Demo.revoke, hrun]
    rw [hrevoke, wp_bind, Stage.onEarly, wp_zoom, hs.boot]
    -- the rights in the boot block
    refine h.held.wp_writeAt (n := 4096) 16 hs.bootPage.aligned (by decide) hs.bootPage.start
      hs.bootPage.limit (by simp) hs.bootPage.free ?_
    rintro e₁ rfl hheld₁
    rw [Stage.onEarly, wp_zoom, hs.ring]
    -- the revoked word of the ring
    refine hheld₁.wp_writeAt (n := 4096) 32 hs.ringPage.aligned (by decide) hs.ringPage.start
      hs.ringPage.limit (by simp) hs.ringPage.free ?_
    rintro e₂ rfl -
    exact h.revoked hs root
  · intro e root hrun
    simp only [Demo.revoke, hrun] at hok
    cases hok

/-- **One action** in memory and in the demo. -/
theorem wp_act {gone : Prop} (h : Rep b space place c pages d s) (hs : pages.Sound b place c)
    (hstand : d.Standing gone) {move : Stage.Move} (hspill : move.spill.length ≤ STACK_SIZE.toNat) :
    wp (Stage.act c move) (fun reply s' => reply = (d.step move.action).1 ∧
        Rep b space place c pages (d.step move.action).2 s') (fun _ _ => False) s := by
  obtain ⟨action, spill⟩ := move
  cases action with
  | app =>
    rw [Stage.act, wp_bind]
    refine wp_mono (h.wp_enterApp hs hspill) ?_ fun _ _ hfalse => hfalse
    rintro status s' ⟨rfl, hrep⟩
    exact (wp_pure _).2 ⟨rfl, hrep⟩
  | net =>
    rw [Stage.act, wp_bind]
    refine wp_mono (h.wp_enterNet hs hspill) ?_ fun _ _ hfalse => hfalse
    rintro status s' ⟨rfl, hrep⟩
    exact (wp_pure _).2 ⟨rfl, hrep⟩
  | revoke =>
    have hok := hstand.revoke.1
    rw [Stage.act, wp_bind]
    refine wp_mono (h.wp_revoke hs hstand) ?_ fun _ _ hfalse => hfalse
    intro _ s' hrep
    rw [wp_pure]
    refine ⟨?_, hrep⟩
    show Demo.Reply.revoked (.ok ()) = .revoked d.revoke.1
    rw [hok]

/-- **Runs.**  Any actions in any order get the replies of the demo, and none of them faults. -/
theorem run {gone : Prop} (h : Rep b space place c pages d s) (hs : pages.Sound b place c)
    (hstand : d.Standing gone) (moves : List Stage.Move)
    (hspill : ∀ move ∈ moves, move.spill.length ≤ STACK_SIZE.toNat) (s₀ : Stage) (d₀ : Demo) :
    ((Stage.machine c s₀).log s moves).map Prod.snd =
        (d₀.machine.log d (moves.map Stage.Move.action)).map (fun e => .ok e.2) ∧
      Rep b space place c pages (d₀.machine.run d (moves.map Stage.Move.action))
        ((Stage.machine c s₀).run s moves) := by
  induction moves generalizing gone s d with
  | nil => exact ⟨rfl, h⟩
  | cons move moves ih =>
    obtain ⟨reply, s', hrun, hreply, hrep⟩ :=
      exists_ok_of_wp (h.wp_act hs hstand (hspill move List.mem_cons_self))
    have hstep : (Stage.machine c s₀).step s move = (.ok reply, s') := by
      show (resultOf (Stage.act c move s), stateOf (Stage.act c move s)) = _
      rw [hrun]
      rfl
    obtain ⟨hlog, hend⟩ := ih hrep (hstand.step move.action)
      fun other hother => hspill other (List.mem_cons_of_mem _ hother)
    simp only [Machine.log_cons, Machine.run_cons, List.map_cons, hstep]
    exact ⟨congrArg₂ List.cons (congrArg Except.ok hreply) hlog, hend⟩

end Rep

end RootCourt

end CourtKernel
