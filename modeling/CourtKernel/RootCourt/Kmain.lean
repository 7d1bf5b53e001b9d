import CourtKernel.RootCourt.Access
import CourtKernel.RootCourt.Interrupts

/-!
# From the boot loader to stacks of the kernel's own

Reference model of `kmain` of `crates/root-court/src/main.rs` up to its switch of stacks, with
`alloc_all` of `crates/root-court/src/stack.rs` and `activate` of `crates/root-court/src/paging.rs`.
What it prints is left out, except for the line it stops with.

From `activate` on every access goes through the tables that `build` has just made, and while
`alloc_all` clears the stacks the tables lie in the same memory.

* `Early.Held`, `Early.Live` — the tables are in force, and the allocator's region is mapped.
* `Stack.allocAll_spec` — the stacks are the next pages, one after another, cleared and mapped.
* `kmain_stops` — `kmain` stops for one of the reasons of `Refusal` only: its own checks of the page
  it wrote, of `CR3` and of the slot never fail, and no access faults.
* `kmain_stacks` — what every processor finds after it.
-/

namespace CourtKernel

namespace RootCourt

open Idt (hex)

def FIRMWARE_UEFI64 : UInt64 := 2

/-- The boot loader's answer about processors, as far as it is read: of each one its number. -/
structure MpResponse where
  bspLapicId : UInt32
  cpus : List UInt32
  deriving DecidableEq, Repr

def cpuSlot (mp : MpResponse) (lapicId : UInt32) : Nat := (mp.cpus.idxOf? lapicId).getD 0

/-- What `kmain` finds: the answers of the boot loader, as far as they are read, three addresses of the
linker and the answer of `CPUID`. -/
structure Platform where
  firmware : Option UInt64
  hhdm : Option UInt64
  memmap : Option (List MemmapEntry)
  /-- The physical and the virtual base. -/
  executable : Option (UInt64 × UInt64)
  mp : Option MpResponse
  kstart : UInt64
  kend : UInt64
  isrStubTable : UInt64
  hasX2apic : Bool

def Platform.ncpu (p : Platform) : Nat := (p.mp.map fun mp => mp.cpus.length).getD 1

def Platform.bspSlot (p : Platform) : Nat :=
  (p.mp.map fun mp => cpuSlot mp mp.bspLapicId).getD 0

/-- The first processor during `kmain`.  Without a value of its own, `CR3` is the boot loader's, whose
tables have the direct map as well. -/
structure Early where
  kernel : Kernel
  cr3 : Option UInt64
  rootCr3 : UInt64
  tops : Nat → UInt64

namespace Early

/-- The translation in force. -/
def tr (s : Early) : Translation :=
  match s.cr3 with
  | none => fun _ va => some (va - s.kernel.bump.hhdm).toNat
  | some cr3 => paging s.kernel.la57 cr3

def pageFault : String := "exception vec=14"

def onKernel {α : Type} (x : Prog Kernel α) : Prog Early α :=
  zoom Early.kernel (fun s kernel => { s with kernel := kernel }) x

/-- `virt.read()` -/
def readByte (va : UInt64) : Prog Early UInt8 := do
  let s ← get
  let a ← expect (s.tr s.kernel.mem va) pageFault
  pure (s.kernel.mem a)

/-- `virt.write(byte)` and `virt.write_bytes(byte, count)` -/
def writeBytes (va : UInt64) (bytes : List UInt8) : Prog Early Unit := do
  let s ← get
  let mem ← expect (s.tr.store va bytes s.kernel.mem) pageFault
  set { s with kernel := { s.kernel with mem := mem } }

def activate (pml4Phys : UInt64) : Prog Early Unit :=
  modify fun s => { s with rootCr3 := pml4Phys, cr3 := some pml4Phys }

end Early

open Early

/-! ## The stacks -/

namespace Stack

def STACK_PAGES : UInt64 := 16
def STACK_SIZE : UInt64 := STACK_PAGES * 0x1000

/-- One turn of the loop of `alloc_all`. -/
def alloc (cpu : Nat) : Prog Early Unit := do
  let phys ← onKernel (Kernel.allocPages STACK_PAGES "kernel stack alloc failed")
  let s ← get
  let virt := s.kernel.bump.virt phys
  writeBytes virt (List.replicate STACK_SIZE.toNat 0)
  let top := saturatingAdd virt STACK_SIZE &&& ~~~0xF
  modify fun s => { s with tops := Function.update s.tops cpu top }

/-- `n` turns from `cpu` on. -/
def allocFrom (cpu : Nat) : Nat → Prog Early Unit
  | 0 => pure ()
  | n + 1 => do
    alloc cpu
    allocFrom (cpu + 1) n

def allocAll (ncpu : Nat) : Prog Early Unit :=
  if ncpu = 0 ∨ ncpu > MAX_CPUS then throw "cpu count for kernel stacks" else allocFrom 0 ncpu

def top (s : Early) (cpu : Nat) : UInt64 := if cpu ≥ MAX_CPUS then 0 else s.tops cpu

end Stack

/-! ## `kmain` -/

/-- The sum that `kmain` prints. -/
def usableBytes (entries : List MemmapEntry) : UInt64 :=
  entries.foldl (fun usable entry =>
    if entry.kind = MEMMAP_USABLE then saturatingAdd usable entry.length else usable) 0

/-- The allocator and a first page from it, written and read back; its physical address. -/
def scratchPage (bump : BumpAllocator) : Prog Early UInt64 := do
  modify fun s => { s with kernel := { s.kernel with bump := bump } }
  let phys ← onKernel (Kernel.allocPages 1 "error: bump alloc failed")
  writeBytes (bump.virt phys) [0x5A]
  let byte ← readByte (bump.virt phys)
  ensure (byte = 0x5A) ("error: bump page not writable at " ++ hex phys)
  pure phys

/-- The switch to the new tables, and the checks after it. -/
def takeOver (pml4Phys scratchVirt : UInt64) : Prog Early Unit := do
  activate pml4Phys
  let s ← get
  let cr3 := s.cr3.getD 0
  ensure (cr3 &&& 0x000ffffffffff000 = pml4Phys)
    ("error: CR3 is " ++ hex cr3 ++ ", expected " ++ hex pml4Phys)
  let byte ← readByte scratchVirt
  ensure (byte = 0x5A) "error: HHDM lost 0x5A after CR3"
  writeBytes scratchVirt [0xA5]
  let byte ← readByte scratchVirt
  ensure (byte = 0xA5) "error: HHDM not writable after CR3"

def kmain (p : Platform) : Prog Early PageMap := do
  let firmware ← expect p.firmware "error: no firmware type response"
  ensure (firmware = FIRMWARE_UEFI64) "error: expected UEFI64 firmware path"
  let hhdm ← expect p.hhdm "error: no HHDM response"
  let entries ← expect p.memmap "error: no memory map"
  ensure (usableBytes entries ≠ 0) "error: no usable memory"
  let bump ← expect (BumpAllocator.fromMemmap hhdm entries)
    "error: no usable region for bump allocator"
  let scratch ← scratchPage bump
  let exec ← expect p.executable "error: no executable address response"
  let pages ← mapError ("error: page tables: " ++ ·)
    (onKernel (build p.kstart p.kend hhdm exec.1 exec.2 entries))
  ensure (¬ (p.mp.isSome ∧ p.ncpu > MAX_CPUS))
    ("error: " ++ toString p.ncpu ++ " cpus exceed MAX_CPUS=" ++ toString MAX_CPUS)
  ensure (p.bspSlot < MAX_CPUS) "error: gdt load: cpu id exceeds per-CPU GDT slots"
  ensure (Idt.stub p.isrStubTable 1 - Idt.stub p.isrStubTable 0 = Idt.STUB_STRIDE)
    "error: idt init: ISR stub stride is not 16 bytes"
  ensure (p.hasX2apic = true) "error: CPUID reports no x2APIC"
  takeOver pages.pml4Phys (bump.virt scratch)
  mapError ("error: kernel stacks: " ++ ·) (Stack.allocAll p.ncpu)
  pure pages

/-! ## The tables in force -/

section

variable {b : BumpAllocator} {space : AddressSpace} {place : Nat → Option Place} {s : Early}

/-- The tables are in force, and the pages of the region `b` are mapped. -/
structure Early.Held (b : BumpAllocator) (space : AddressSpace) (place : Nat → Option Place)
    (s : Early) : Prop where
  cr3 : s.cr3 = some space.cr3
  system : System s.kernel place
  seated : Seated s.kernel.la57 place space
  direct : Direct b (paging s.kernel.la57 space.cr3 s.kernel.mem)

/-- The kernel's own tables are in force, and its allocator still grants from the region. -/
structure Early.Live (b : BumpAllocator) (space : AddressSpace) (place : Nat → Option Place)
    (s : Early) : Prop extends Early.Held b space place s where
  rootCr3 : s.rootCr3 = space.cr3
  pml4 : s.kernel.kernelPml4 = space.pml4Phys
  wf : b.Wf
  allocs : b.Allocs s.kernel.bump

namespace Early.Held

theorem tr_eq (h : Held b space place s) : s.tr = paging s.kernel.la57 space.cr3 := by
  rw [Early.tr, h.cr3]

/-- Other bytes than those of the tables may change. -/
theorem remem (h : Held b space place s) {m : Memory}
    (hm : ∀ a, TableByte place a → m a = s.kernel.mem a) :
    Held b space place { s with kernel := { s.kernel with mem := m } } := by
  have hstable := h.system.tables.stable h.seated
  refine ⟨h.cr3, h.system.remem hm, h.seated, ?_⟩
  show Direct b (paging s.kernel.la57 space.cr3 m)
  rw [hstable m hm]
  exact h.direct

/-- Writing within pages of the region that are no tables, from the offset `off` on. -/
theorem wp_writeAt (h : Held b space place s) {phys : UInt64} {n : Nat} (off : Nat) {bytes : List UInt8}
    (haligned : phys.toNat % 4096 = 0) (hn : n % 4096 = 0) (hstart : b.start.toNat ≤ phys.toNat)
    (hend : phys.toNat + n ≤ b.end.toNat) (hlen : off + bytes.length ≤ n)
    (hout : ∀ i < n, ¬ TableByte place (phys.toNat + i)) {Q : Unit → Early → Prop}
    {E : String → Early → Prop}
    (hQ : ∀ s', s' = { s with
        kernel := { s.kernel with mem := s.kernel.mem.write (phys.toNat + off) bytes } } →
      Held b space place s' → Q () s') :
    wp (writeBytes (b.virt phys + UInt64.ofNat off) bytes) Q E s := by
  have hmaps := (h.direct.maps haligned hn hstart hend).part off bytes.length hlen
  have hstore := Translation.store_eq (h.system.tables.stable h.seated) hmaps fun i hi => by
    rw [Nat.add_assoc]
    exact hout (off + i) (by omega)
  rw [show (s.kernel.world place).mem = s.kernel.mem from rfl] at hstore
  rw [writeBytes, wp_bind, wp_get, wp_bind, wp_expect, h.tr_eq, hstore]
  refine ⟨fun m hm => ?_, nofun⟩
  obtain rfl := Option.some.inj hm
  rw [wp_set]
  apply hQ _ rfl
  apply h.remem
  intro a ha
  by_cases hin : phys.toNat ≤ a ∧ a < phys.toNat + n
  · exact absurd (show TableByte place (phys.toNat + (a - phys.toNat)) by
      rwa [Nat.add_sub_cancel' hin.1]) (hout _ (by omega))
  · rcases Nat.lt_or_ge a phys.toNat with hlt | hge
    · exact Memory.write_of_lt (by omega)
    · exact Memory.write_of_ge (by omega)

end Early.Held

namespace Early.Live

/-- Reading a byte of the allocator's region. -/
theorem wp_readByte (h : Live b space place s) {phys : UInt64} (hstart : b.start ≤ phys)
    (hend : phys.toNat / 4096 * 4096 + 4096 ≤ b.end.toNat) {Q : UInt8 → Early → Prop}
    {E : String → Early → Prop} (hQ : Q (s.kernel.mem phys.toNat) s) :
    wp (readByte (b.virt phys)) Q E s := by
  rw [readByte, wp_bind, wp_get, wp_bind, wp_expect, h.tr_eq, h.direct.reach phys hstart hend]
  refine ⟨fun a ha => ?_, nofun⟩
  rw [wp_pure, ← Option.some.inj ha]
  exact hQ

/-- Writing to pages of the allocator's region that are no tables. -/
theorem wp_writeBytes (h : Live b space place s) {phys : UInt64} {n : Nat} {bytes : List UInt8}
    (haligned : phys.toNat % 4096 = 0) (hn : n % 4096 = 0) (hstart : b.start.toNat ≤ phys.toNat)
    (hend : phys.toNat + n ≤ b.end.toNat) (hlen : bytes.length ≤ n)
    (hout : ∀ i < n, ¬ TableByte place (phys.toNat + i)) {Q : Unit → Early → Prop}
    {E : String → Early → Prop}
    (hQ : ∀ s', s' = { s with kernel := { s.kernel with mem := s.kernel.mem.write phys.toNat bytes } } →
      Live b space place s' → Q () s') :
    wp (writeBytes (b.virt phys) bytes) Q E s := by
  have hwrite := h.toHeld.wp_writeAt (Q := Q) (E := E) 0 haligned hn hstart hend (by omega) hout
    fun s' hs' hheld => hQ s' hs' ?_
  · rwa [show b.virt phys + UInt64.ofNat 0 = b.virt phys by simp] at hwrite
  · subst hs'
    exact ⟨hheld, h.rootCr3, h.pml4, h.wf, h.allocs⟩

/-- Taking pages: the next ones, which are no tables. -/
theorem wp_allocPages (h : Live b space place s) (pages : UInt64) (message : String)
    {Q : UInt64 → Early → Prop} {E : String → Early → Prop}
    (hQ : ∀ phys s', phys = s.kernel.bump.cursor → s' = { s with kernel := { s.kernel with
        bump := { s.kernel.bump with cursor := s'.kernel.bump.cursor } } } →
      s'.kernel.bump.cursor.toNat = phys.toNat + pages.toNat * 4096 →
      s'.kernel.bump.cursor.toNat ≤ b.end.toNat → Live b space place s' → Q phys s')
    (hE : (s.kernel.bump.end.toNat - s.kernel.bump.cursor.toNat) / 4096 < pages.toNat → E message s) :
    wp (onKernel (Kernel.allocPages pages message)) Q E s := by
  have hwf : s.kernel.bump.Wf := h.system.tables.bump
  rw [onKernel, wp_zoom, Kernel.allocPages, wp_bind, wp_get]
  cases halloc : s.kernel.bump.allocPages pages with
  | none => exact (wp_throw _).2 (hE (BumpAllocator.allocPages_none hwf halloc))
  | some grant =>
    obtain ⟨phys, bump⟩ := grant
    obtain ⟨hphys, hbump, hwf', hcursor⟩ := BumpAllocator.allocPages_spec hwf halloc
    rw [wp_bind, wp_modify, wp_pure]
    have hle : s.kernel.bump.cursor.toNat ≤ bump.cursor.toNat := by
      rw [hcursor, hphys]
      omega
    have hmoves : s.kernel.Moves place (s.kernel.kernelPml4.toNat + 1) (fun _ => False)
        { s.kernel with bump := bump } place :=
      ⟨Moved.grant h.system.tables hwf' hbump hle fun _ _ => rfl, rfl, rfl⟩
    refine hQ phys _ hphys (by rw [← hbump]) hcursor ?_
      ⟨⟨h.cr3, h.system.moves hmoves (by omega), h.seated, h.direct⟩, h.rootCr3, h.pml4, h.wf,
        .step h.allocs halloc⟩
    have hend : bump.end = b.end := by
      rw [hbump, (h.allocs.spec h.wf).2.1]
    rw [← hend]
    exact hwf'.limit

end Early.Live

end

/-! ## Laying out the stacks -/

namespace Stack

section

variable {b : BumpAllocator} {space : AddressSpace} {place : Nat → Option Place} {k₀ : Kernel} {s : Early}
  {base n : Nat}

/-- The stacks of the first `n` processors are the pages from `base` on; below them the kernel is still
`k₀`. -/
structure Laid (b : BumpAllocator) (place : Nat → Option Place) (k₀ : Kernel) (base n : Nat) (s : Early) :
    Prop where
  cursor : s.kernel.bump.cursor.toNat = base + n * 65536
  tables : ∀ a, TableByte place a → a < base
  zero : ∀ a, base ≤ a → a < base + n * 65536 → s.kernel.mem a = 0
  tops : ∀ cpu < n, (s.tops cpu).toNat = min (b.hhdm.toNat + base + (cpu + 1) * 65536) (2 ^ 64 - 16)
  rest : ∀ cpu, n ≤ cpu → s.tops cpu = 0
  below : ∀ a < base, s.kernel.mem a = k₀.mem a
  la57 : s.kernel.la57 = k₀.la57

/-- A stack may end with the address space; its top is then the last multiple of 16. -/
theorem toNat_top {virt : UInt64} (haligned : virt.toNat % 4096 = 0)
    (hend : virt.toNat + 65536 ≤ 2 ^ 64) :
    (saturatingAdd virt STACK_SIZE &&& ~~~0xF).toNat = min (virt.toNat + 65536) (2 ^ 64 - 16) := by
  have hsize : STACK_SIZE.toNat = 65536 := by decide
  rw [toNat_and_field 4 60 (by decide), toNat_saturatingAdd, hsize]
  omega

theorem alloc_spec (h : s.Live b space place) (hl : Laid b place k₀ base n s) :
    wp (alloc n) (fun _ s' => s'.Live b space place ∧ Laid b place k₀ base (n + 1) s')
      (fun e _ => e = "kernel stack alloc failed" ∧ b.end.toNat < base + (n + 1) * 65536) s := by
  have hpages : STACK_PAGES.toNat = 16 := by decide
  have hsize : STACK_SIZE.toNat = 65536 := by decide
  have hwf : s.kernel.bump.Wf := h.system.tables.bump
  obtain ⟨-, hbump, hle⟩ := h.allocs.spec h.wf
  have haligned := hwf.aligned
  have hstart := h.wf.cursor
  have hcursor := hl.cursor
  rw [alloc, wp_bind]
  refine h.wp_allocPages _ _ (fun phys s₁ hphys hs₁ hcursor₁ hend h₁ => ?_) fun hfew => ⟨rfl, ?_⟩
  · rw [hpages, hphys] at hcursor₁
    have hvirt : s₁.kernel.bump.virt phys = b.virt phys := by
      rw [hs₁, hbump]
      rfl
    have hmem₁ : s₁.kernel.mem = s.kernel.mem := congrArg (fun s => s.kernel.mem) hs₁
    have htops₁ : s₁.tops = s.tops := congrArg (fun s => s.tops) hs₁
    rw [wp_bind, wp_get, hvirt, wp_bind]
    refine h₁.wp_writeBytes (n := 65536) (by rw [hphys]; exact haligned) (by decide)
      (by rw [hphys]; omega) (by rw [hphys]; omega) (by rw [List.length_replicate, hsize]) ?_ ?_
    · intro i _ hbyte
      have hbelow := hl.tables _ hbyte
      rw [hphys] at hbelow
      omega
    · rintro s₂ rfl h₂
      rw [wp_modify]
      refine ⟨⟨⟨h₂.cr3, h₂.system, h₂.seated, h₂.direct⟩, h₂.rootCr3, h₂.pml4, h₂.wf, h₂.allocs⟩, ?_,
        hl.tables, fun a ha hlt => ?_, fun cpu hcpu => ?_, fun cpu hcpu => ?_, fun a ha => ?_, ?_⟩
      · show s₁.kernel.bump.cursor.toNat = _
        omega
      · show s₁.kernel.mem.write phys.toNat (List.replicate STACK_SIZE.toNat 0) a = 0
        rw [hmem₁, hphys, hcursor]
        by_cases hold : a < base + n * 65536
        · rw [Memory.write_of_lt hold]
          exact hl.zero a ha hold
        · obtain ⟨i, rfl⟩ : ∃ i, a = base + n * 65536 + i := ⟨a - (base + n * 65536), by omega⟩
          rw [Memory.write_of_mem (by rw [List.length_replicate, hsize]; omega), List.getElem_replicate]
      · show (Function.update s₁.tops n _ cpu).toNat = _
        by_cases hnew : cpu = n
        · -- the last byte of the stack is in the direct map, so the stack does not wrap
          have hphysNat : phys.toNat = s.kernel.bump.cursor.toNat := by rw [hphys]
          have hlast : (phys + 65535).toNat = phys.toNat + 65535 := by
            have hlt := b.end.toNat_lt
            rw [UInt64.toNat_add, show (65535 : UInt64).toNat = 65535 from rfl]
            omega
          have hbase := h.direct.virt phys (by rw [UInt64.le_iff_toNat_le]; omega) (by omega)
          have hbound := h.direct.virt (phys + 65535) (by rw [UInt64.le_iff_toNat_le]; omega) (by omega)
          have hlt := (b.virt (phys + 65535)).toNat_lt
          have hhhdm := h.direct.aligned
          have hsum : (b.virt phys).toNat + 65536 = b.hhdm.toNat + base + (n + 1) * 65536 := by omega
          rw [hnew, Function.update_self, toNat_top (by omega) (by omega), hsum]
        · rw [Function.update_of_ne hnew, htops₁]
          exact hl.tops cpu (by omega)
      · show Function.update s₁.tops n _ cpu = 0
        rw [Function.update_of_ne (by omega), htops₁]
        exact hl.rest cpu (by omega)
      · show s₁.kernel.mem.write phys.toNat (List.replicate STACK_SIZE.toNat 0) a = k₀.mem a
        rw [hmem₁, hphys, Memory.write_of_lt (by omega)]
        exact hl.below a ha
      · show s₁.kernel.la57 = k₀.la57
        rw [← hl.la57]
        exact congrArg (fun s => s.kernel.la57) hs₁
  · have hendeq : s.kernel.bump.end = b.end := by rw [hbump]
    rw [hpages, hendeq] at hfew
    omega

/-- The loop of `alloc_all`. -/
theorem allocFrom_spec (h : s.Live b space place) (hl : Laid b place k₀ base n s) (more : Nat) :
    wp (allocFrom n more) (fun _ s' => s'.Live b space place ∧ Laid b place k₀ base (n + more) s')
      (fun e _ => e = "kernel stack alloc failed" ∧ b.end.toNat < base + (n + more) * 65536) s := by
  induction more generalizing n s with
  | zero => exact (wp_pure _).2 ⟨h, hl⟩
  | succ more ih =>
    rw [allocFrom, wp_bind]
    refine wp_mono (alloc_spec h hl) (fun _ s₁ h₁ => ?_) fun e _ he => ⟨he.1, by omega⟩
    have hrest := ih h₁.1 h₁.2
    rw [show n + 1 + more = n + (more + 1) by omega] at hrest
    exact hrest

theorem allocAll_spec {ncpu : Nat} (h : s.Live b space place) (hl : Laid b place k₀ base 0 s) :
    wp (allocAll ncpu) (fun _ s' => s'.Live b space place ∧ Laid b place k₀ base ncpu s' ∧ 0 < ncpu)
      (fun e _ => (e = "cpu count for kernel stacks" ∧ (ncpu = 0 ∨ ncpu > MAX_CPUS)) ∨
        e = "kernel stack alloc failed" ∧ b.end.toNat < base + ncpu * 65536) s := by
  rw [allocAll, wp_ite]
  refine ⟨fun hcount => (wp_throw _).2 (Or.inl ⟨rfl, hcount⟩), fun hcount => ?_⟩
  have hloop := allocFrom_spec h hl ncpu
  rw [Nat.zero_add] at hloop
  exact wp_mono hloop (fun _ _ h' => ⟨h'.1, h'.2, by omega⟩) fun _ _ he => Or.inr he

end

end Stack

/-! ## The runs of `kmain` -/

section

variable {p : Platform} {b : BumpAllocator} {space : AddressSpace} {place : Nat → Option Place}
  {s : Early} {hhdm : UInt64} {entries : List MemmapEntry}

/-- The memory map ends below `2^52`, and everything that `build` maps is in the higher half. -/
structure Platform.Sane (p : Platform) : Prop where
  width : ∀ entries, p.memmap = some entries → ∀ entry ∈ entries,
    entry.base.toNat + entry.length.toNat ≤ 2 ^ 52
  high : ∀ hhdm entries exec, p.hhdm = some hhdm → p.memmap = some entries → p.executable = some exec →
    ∀ t ∈ buildRanges p.kstart p.kend hhdm exec.1 exec.2 entries, t.High

/-- The first page is there, and holds what was written, in the boot loader's direct map. -/
theorem scratchPage_spec (hmem : BumpAllocator.fromMemmap hhdm entries = some b) (hcr3 : s.cr3 = none) :
    wp (scratchPage b) (fun phys s' => phys = b.cursor ∧ b.allocPages 1 = some (phys, s'.kernel.bump) ∧
        s'.kernel.mem phys.toNat = 0x5A ∧ s'.tops = s.tops) (fun _ _ => False) s := by
  have hwf := BumpAllocator.fromMemmap_wf hmem
  obtain ⟨-, -, -, hfirst, -, -, hroom⟩ := BumpAllocator.fromMemmap_longest hmem
  rw [scratchPage, wp_bind, wp_modify, wp_bind, onKernel, wp_zoom, Kernel.allocPages, wp_bind, wp_get]
  cases halloc : b.allocPages 1 with
  | none => exact absurd halloc (BumpAllocator.allocPages_one_ne_none hwf (by rw [hfirst]; omega))
  | some grant =>
    obtain ⟨phys, bump⟩ := grant
    obtain ⟨hphys, hbump, -⟩ := BumpAllocator.allocPages_spec hwf halloc
    have hhhdm : bump.hhdm = b.hhdm := by rw [hbump]
    have hvirt : b.virt phys - bump.hhdm = phys := by
      rw [BumpAllocator.virt, hhhdm, UInt64.add_comm, UInt64.add_sub_cancel]
    dsimp only
    rw [wp_bind, wp_modify, wp_pure, wp_bind, writeBytes, wp_bind, wp_get, wp_bind, wp_expect]
    simp only [Early.tr, hcr3, Translation.store, hvirt]
    refine ⟨fun m hm => ?_, fun hnone => absurd hnone (Option.some_ne_none _)⟩
    obtain rfl := Option.some.inj hm
    have hbyte : s.kernel.mem.write phys.toNat [0x5A] phys.toNat = 0x5A :=
      Memory.write_of_mem (m := s.kernel.mem) (i := 0) (by decide)
    rw [wp_set, wp_bind, readByte, wp_bind, wp_get, wp_bind, wp_expect]
    simp only [Early.tr, hvirt]
    refine ⟨fun a ha => ?_, fun hnone => absurd hnone (Option.some_ne_none _)⟩
    obtain rfl := Option.some.inj ha
    rw [wp_pure, wp_bind, wp_ensure]
    refine ⟨fun _ => ?_, fun hne => absurd hbyte hne⟩
    rw [wp_pure]
    exact ⟨hphys, rfl, hbyte, rfl⟩

/-- `CR3` holds a whole page number. -/
theorem cr3_masked (h : Tables (s.kernel.world place)) (hseat : Seated s.kernel.la57 place space) :
    space.cr3 &&& 0x000ffffffffff000 = space.cr3 ∧ space.cr3 ≠ 0 := by
  obtain ⟨p, hp⟩ : ∃ p, place space.cr3.toNat = some p := by
    cases hla : s.kernel.la57 with
    | true => exact ⟨_, hseat.pml5 hla⟩
    | false =>
      rw [hseat.cr3 hla]
      exact ⟨_, hseat.pml4⟩
  obtain ⟨haligned, hstart, hend⟩ := h.page _ p hp
  have hlimit := h.bump.limit
  have hwidth := h.width
  have hlow := h.bump.start
  refine ⟨?_, fun hzero => ?_⟩
  · rw [← UInt64.toNat_inj, show (0x000ffffffffff000 : UInt64) = PHYS_MASK from rfl,
      toNat_and_PHYS_MASK]
    omega
  · rw [hzero, UInt64.toNat_zero] at hstart
    omega

/-- After the switch the page is still there, and can be written. -/
theorem takeOver_spec {phys : UInt64}
    (h : Early.Live b space place { s with rootCr3 := space.cr3, cr3 := some space.cr3 })
    (haligned : phys.toNat % 4096 = 0) (hstart : b.start ≤ phys) (hend : phys.toNat + 4096 ≤ b.end.toNat)
    (hbyte : s.kernel.mem phys.toNat = 0x5A) (hout : ∀ i < 4096, ¬ TableByte place (phys.toNat + i)) :
    wp (takeOver space.cr3 (b.virt phys)) (fun _ s' => s'.Live b space place ∧
        s'.kernel = { s.kernel with mem := s.kernel.mem.write phys.toNat [0xA5] } ∧ s'.tops = s.tops)
      (fun _ _ => False) s := by
  have hstartNat := UInt64.le_iff_toNat_le.1 hstart
  have hcr3 : Option.getD (some space.cr3) 0 &&& 0x000ffffffffff000 = space.cr3 :=
    (cr3_masked h.system.tables h.seated).1
  rw [takeOver, wp_bind, activate, wp_modify, wp_bind, wp_get, wp_bind, wp_ensure]
  refine ⟨fun _ => ?_, fun hne => absurd hcr3 hne⟩
  rw [wp_bind]
  refine h.wp_readByte hstart (by omega) ?_
  rw [wp_bind, wp_ensure]
  refine ⟨fun _ => ?_, fun hne => absurd hbyte hne⟩
  rw [wp_bind]
  refine h.wp_writeBytes (n := 4096) haligned (by decide) hstartNat hend (by decide) hout ?_
  rintro s₁ rfl h₁
  rw [wp_bind]
  refine h₁.wp_readByte hstart (by omega) ?_
  rw [wp_ensure]
  refine ⟨fun _ => ⟨h₁, rfl, rfl⟩, fun hne => absurd ?_ hne⟩
  exact Memory.write_of_mem (m := s.kernel.mem) (i := 0) (by decide)

/-- How the call of `build` in `kmain` ends, from `s` on. -/
def Platform.Builds (p : Platform) (s : Early) (result : EStateM.Result String Kernel PageMap) : Prop :=
  ∃ hhdm entries b exec phys s₁, p.hhdm = some hhdm ∧ p.memmap = some entries ∧
    BumpAllocator.fromMemmap hhdm entries = some b ∧ p.executable = some exec ∧
    scratchPage b s = .ok phys s₁ ∧
    build p.kstart p.kend hhdm exec.1 exec.2 entries s₁.kernel = result

/-- The reasons for which `kmain` stops, with the line it prints. -/
inductive Refusal (p : Platform) (s : Early) : String → Prop where
  | noFirmware : p.firmware = none → Refusal p s "error: no firmware type response"
  | firmware {kind : UInt64} : p.firmware = some kind → kind ≠ FIRMWARE_UEFI64 →
      Refusal p s "error: expected UEFI64 firmware path"
  | hhdm : p.hhdm = none → Refusal p s "error: no HHDM response"
  | memmap : p.memmap = none → Refusal p s "error: no memory map"
  | usable {entries : List MemmapEntry} : p.memmap = some entries → usableBytes entries = 0 →
      Refusal p s "error: no usable memory"
  | region {hhdm : UInt64} {entries : List MemmapEntry} : p.hhdm = some hhdm →
      p.memmap = some entries → BumpAllocator.fromMemmap hhdm entries = none →
      Refusal p s "error: no usable region for bump allocator"
  | executable : p.executable = none → Refusal p s "error: no executable address response"
  | tables {e : String} {k : Kernel} : p.Builds s (.error e k) → Refusal p s ("error: page tables: " ++ e)
  | cpus : p.ncpu > MAX_CPUS →
      Refusal p s ("error: " ++ toString p.ncpu ++ " cpus exceed MAX_CPUS=" ++ toString MAX_CPUS)
  | x2apic : p.hasX2apic = false → Refusal p s "error: CPUID reports no x2APIC"
  | noCpus : p.ncpu = 0 → Refusal p s ("error: kernel stacks: " ++ "cpu count for kernel stacks")
  | room {pages : PageMap} {k : Kernel} : p.Builds s (.ok pages k) →
      (k.bump.end.toNat - k.bump.cursor.toNat) / 4096 < 16 * p.ncpu →
      Refusal p s ("error: kernel stacks: " ++ "kernel stack alloc failed")

/-- What `kmain` leaves behind, started in `s₀`: the tables that `build` has made in `k`, the byte written
to the first page, and the stacks. -/
structure Booted (p : Platform) (s₀ : Early) (b : BumpAllocator) (place : Nat → Option Place) (k : Kernel)
    (pages : PageMap) (s : Early) : Prop where
  builds : p.Builds s₀ (.ok pages k)
  pml4 : s.kernel.kernelPml4 = k.kernelPml4
  region : ∃ hhdm entries, p.hhdm = some hhdm ∧ p.memmap = some entries ∧
    BumpAllocator.fromMemmap hhdm entries = some b
  live : s.Live b ⟨pages.pml4Phys, s.kernel.kernelPml4⟩ place
  laid : Stack.Laid b place { k with mem := k.mem.write b.start.toNat [0xA5] } k.bump.cursor.toNat
    p.ncpu s
  scratch : b.start.toNat + 4096 ≤ k.bump.cursor.toNat
  ncpu : 0 < p.ncpu ∧ p.ncpu ≤ MAX_CPUS
  x2apic : p.hasX2apic = true

/-- The first processor's slot is one of those in use, or the first. -/
theorem Platform.bspSlot_lt (p : Platform) : p.bspSlot = 0 ∨ p.bspSlot < p.ncpu := by
  unfold bspSlot ncpu
  cases hmp : p.mp with
  | none => simp
  | some mp =>
    simp only [Option.map_some, Option.getD_some]
    unfold cpuSlot
    cases hfind : mp.cpus.idxOf? mp.bspLapicId with
    | none => exact Or.inl rfl
    | some i => exact Or.inr (List.idxOf?_eq_some_iff.1 hfind).1

/-- A count that `kmain` lets pass. -/
theorem Platform.ncpu_le {p : Platform} (h : ¬ (p.mp.isSome ∧ p.ncpu > MAX_CPUS)) :
    p.ncpu ≤ MAX_CPUS := by
  cases hmp : p.mp with
  | none =>
    rw [ncpu, hmp]
    decide
  | some mp =>
    rw [hmp] at h
    exact Nat.le_of_not_lt fun hlt => h ⟨rfl, hlt⟩

/-- A run that goes through has a processor to start, and not too many. -/
theorem kmain_ncpu {pages : PageMap} {s' : Early} (hrun : kmain p s = .ok pages s') :
    0 < p.ncpu ∧ p.ncpu ≤ MAX_CPUS := by
  refine wp_ok (Q := fun _ _ => 0 < p.ncpu ∧ p.ncpu ≤ MAX_CPUS) (E := fun _ _ => True) ?_ hrun
  unfold kmain
  -- up to the tables nothing depends on the processors
  iterate 9 (apply wp_skip; intro _ _)
  rw [wp_bind, wp_ensure]
  refine ⟨fun hfew => ?_, fun _ => trivial⟩
  iterate 4 (apply wp_skip; intro _ _)
  rw [wp_bind, wp_mapError, Stack.allocAll, wp_ite]
  refine ⟨fun _ => (wp_throw _).2 trivial, fun hcount => ?_⟩
  refine wp_mono (wp_self _ _) (fun _ _ _ => ?_) fun _ _ _ => trivial
  have := Platform.ncpu_le hfew
  rw [wp_pure]
  omega

/-- **The runs of `kmain`.** -/
theorem kmain_spec (hsane : p.Sane) (hcr3 : s.cr3 = none) (htops : s.tops = fun _ => 0) :
    wp (kmain p) (fun pages s' => ∃ b place k, Booted p s b place k pages s')
      (fun e _ => Refusal p s e) s := by
  rw [kmain, wp_bind, wp_expect]
  refine ⟨fun kind hkind => ?_, fun hnone => .noFirmware hnone⟩
  rw [wp_bind, wp_ensure]
  refine ⟨fun _ => ?_, fun hne => .firmware hkind hne⟩
  rw [wp_bind, wp_expect]
  refine ⟨fun hhdm hhhdm => ?_, fun hnone => .hhdm hnone⟩
  rw [wp_bind, wp_expect]
  refine ⟨fun entries hentries => ?_, fun hnone => .memmap hnone⟩
  rw [wp_bind, wp_ensure]
  refine ⟨fun _ => ?_, fun hzero => .usable hentries (not_not.1 hzero)⟩
  rw [wp_bind, wp_expect]
  refine ⟨fun b hmem => ?_, fun hnone => .region hhhdm hentries hnone⟩
  have hwf := BumpAllocator.fromMemmap_wf hmem
  obtain ⟨-, -, -, hfirst, -, -, hroom⟩ := BumpAllocator.fromMemmap_longest hmem
  rw [wp_bind]
  refine wp_mono (wp_and (scratchPage_spec hmem hcr3) (wp_self _ _)) ?_ fun _ _ he => he.1.elim
  rintro phys s₁ ⟨⟨hphys, halloc, hbyte, htops₁⟩, hscratch⟩
  obtain ⟨-, -, -, hcursor₁⟩ := BumpAllocator.allocPages_spec hwf halloc
  have hfirstNat : phys.toNat = b.start.toNat := by rw [hphys, hfirst]
  rw [show (1 : UInt64).toNat = 1 from rfl] at hcursor₁
  rw [wp_bind, wp_expect]
  refine ⟨fun exec hexec => ?_, fun hnone => .executable hnone⟩
  rw [wp_bind, wp_mapError, onKernel, wp_zoom]
  refine wp_mono (wp_self _ _) (fun pages k₂ hbuild => ?_) fun e k₂ hbuild =>
    .tables ⟨hhdm, entries, b, exec, phys, s₁, hhhdm, hentries, hmem, hexec, hscratch, hbuild⟩
  have hallocs₁ : b.Allocs s₁.kernel.bump := .step (.refl _) halloc
  obtain ⟨place, hsys, h57, hseat, hcursor₂, hallocs₂, hstep, hdirect⟩ :=
    build_direct hmem hallocs₁ (hsane.width entries hentries)
      (hsane.high hhdm entries exec hhhdm hentries hexec) hbuild
  -- the tables are later pages than the first one
  have habove : ∀ a, TableByte place a → s₁.kernel.bump.cursor.toNat ≤ a := by
    rintro a ⟨n, q, hn, hle, -⟩
    rcases hstep.fresh n q hn with hold | hnew
    · cases hold
    · exact Nat.le_trans hnew hle
  rw [wp_bind, wp_ensure]
  refine ⟨fun hfew => ?_, fun hmany => .cpus (not_not.1 hmany).2⟩
  have hncpu := Platform.ncpu_le hfew
  have hmax : 0 < MAX_CPUS := by decide
  rw [wp_bind, wp_ensure]
  refine ⟨fun _ => ?_, fun hslot => ?_⟩
  rotate_left
  · rcases p.bspSlot_lt with hzero | hlt <;> omega
  rw [wp_bind, wp_ensure]
  refine ⟨fun _ => ?_, fun hstride => absurd (Idt.stub_stride _) hstride⟩
  rw [wp_bind, wp_ensure]
  refine ⟨fun hx2 => ?_, fun hno => .x2apic (Bool.eq_false_of_not_eq_true hno)⟩
  -- the switch
  have hlive : Early.Live b ⟨pages.pml4Phys, k₂.kernelPml4⟩ place
      { s₁ with kernel := k₂, rootCr3 := pages.pml4Phys, cr3 := some pages.pml4Phys } :=
    ⟨⟨rfl, hsys, by rw [h57]; exact hseat, by rw [h57]; exact hdirect⟩, rfl, rfl, hwf,
      hallocs₁.trans hallocs₂⟩
  have haligned := hwf.aligned
  rw [wp_bind]
  refine wp_mono (takeOver_spec (s := { s₁ with kernel := k₂ }) hlive ?_ ?_ ?_ ?_ ?_) ?_
    fun _ _ he => he.elim
  · rw [hphys]
    exact haligned
  · rw [hphys, hfirst]
    exact UInt64.le_refl _
  · rw [hphys, hfirst]
    omega
  · -- the page was granted before the tables, so `build` has left it alone
    have hkept := hstep.data phys.toNat (show phys.toNat < s₁.kernel.bump.cursor.toNat by omega) nofun
    exact hkept.trans hbyte
  · intro i hi hin
    have := habove _ hin
    omega
  rintro ⟨⟩ s₃ ⟨hlive₃, hkernel₃, htops₃⟩
  have hbump₃ : s₃.kernel.bump = k₂.bump := by rw [hkernel₃]
  have hmem₃ : s₃.kernel.mem = k₂.mem.write b.start.toNat [0xA5] := by rw [hkernel₃, hfirstNat]
  have hla₃ : s₃.kernel.la57 = k₂.la57 := by rw [hkernel₃]
  -- the stacks
  have hbelow : ∀ a, TableByte place a → a < k₂.bump.cursor.toNat := by
    rintro a ⟨n, q, hn, -, hlt⟩
    have hpage : n + 4096 ≤ k₂.bump.cursor.toNat := (hsys.tables.page n q hn).2.2
    omega
  have hlaid : Stack.Laid b place { k₂ with mem := k₂.mem.write b.start.toNat [0xA5] }
      k₂.bump.cursor.toNat 0 s₃ :=
    ⟨by rw [hbump₃, Nat.zero_mul, Nat.add_zero], hbelow, fun a h1 h2 => absurd h2 (by omega), nofun,
      fun cpu _ => by rw [htops₃, htops₁, htops], fun a _ => by rw [hmem₃], hla₃⟩
  rw [wp_bind, wp_mapError]
  refine wp_mono (Stack.allocAll_spec hlive₃ hlaid) ?_ ?_
  · rintro ⟨⟩ s₄ ⟨hlive₄, hlaid₄, hpos⟩
    rw [wp_pure]
    have hpml4 : s₄.kernel.kernelPml4 = k₂.kernelPml4 := hlive₄.pml4
    refine ⟨b, place, k₂, ⟨hhdm, entries, b, exec, phys, s₁, hhhdm, hentries, hmem, hexec, hscratch, hbuild⟩,
      hpml4, ⟨hhdm, entries, hhhdm, hentries, hmem⟩, ?_, hlaid₄, by omega, ⟨hpos, hncpu⟩, hx2⟩
    rw [hpml4]
    exact hlive₄
  · rintro e s₄ (⟨rfl, hcount⟩ | ⟨rfl, hfull⟩)
    · exact .noCpus (by omega)
    · refine .room ⟨hhdm, entries, b, exec, phys, s₁, hhhdm, hentries, hmem, hexec, hscratch, hbuild⟩ ?_
      obtain ⟨hwf₂, hbump₂, -⟩ := (hallocs₁.trans hallocs₂).spec hwf
      have hend : k₂.bump.end = b.end := by rw [hbump₂]
      have hlimit := hwf₂.limit
      rw [hend] at hlimit ⊢
      omega

/-- The tables that the other processors are to load are there. -/
theorem Booted.rootCr3_ne {s₀ : Early} {k : Kernel} {pages : PageMap} (h : Booted p s₀ b place k pages s) :
    s.rootCr3 ≠ 0 := by
  rw [h.live.rootCr3]
  exact (cr3_masked h.live.system.tables h.live.seated).2

/-- `kmain` stops for a reason: none of its own checks of what it has just done can fail, and none of
its accesses faults. -/
theorem kmain_stops (hsane : p.Sane) (hcr3 : s.cr3 = none) (htops : s.tops = fun _ => 0) {e : String}
    {s' : Early} (hrun : kmain p s = .error e s') : Refusal p s e :=
  wp_error (kmain_spec hsane hcr3 htops) hrun

/-- After `kmain` every processor has a stack: 64 KiB that the tables map, that are cleared, and that
are in no table and in no other stack; a stack that would end with the address space is 16 bytes
shorter.  Nothing that is granted later meets them. -/
theorem kmain_stacks (hsane : p.Sane) (hcr3 : s.cr3 = none) (htops : s.tops = fun _ => 0)
    {pages : PageMap} {s' : Early} (hrun : kmain p s = .ok pages s') :
    ∃ b base, (∃ hhdm entries, p.hhdm = some hhdm ∧ p.memmap = some entries ∧
        BumpAllocator.fromMemmap hhdm entries = some b) ∧ b.Allocs s'.kernel.bump ∧
      s'.kernel.bump.cursor.toNat = base + p.ncpu * 65536 ∧ ∀ cpu < p.ncpu,
        ((Stack.top s' cpu).toNat % 16 = 0 ∧ (Stack.top s' cpu).toNat =
          min (b.hhdm.toNat + base + (cpu + 1) * 65536) (2 ^ 64 - 16)) ∧
        ∀ a : UInt64, base + cpu * 65536 ≤ a.toNat → a.toNat < base + (cpu + 1) * 65536 →
          (b.virt a).toNat = b.hhdm.toNat + a.toNat ∧ s'.kernel.mem a.toNat = 0 ∧
          translateCr3 s'.kernel.la57 s'.kernel.mem pages.pml4Phys (b.virt a) = some a.toNat ∧
          a.toNat / 4096 * 4096 ∉ tablePages s'.kernel.mem s'.kernel.kernelPml4 := by
  obtain ⟨b, place, k, hbooted⟩ := wp_ok (kmain_spec hsane hcr3 htops) hrun
  have hlive := hbooted.live
  have hlaid := hbooted.laid
  have hcursor := hlaid.cursor
  obtain ⟨hwf, hbump, -⟩ := hlive.allocs.spec hlive.wf
  have hlimit := hwf.limit
  have haligned := hwf.aligned
  have hend : s'.kernel.bump.end = b.end := by rw [hbump]
  have hscratch := hbooted.scratch
  generalize k.bump.cursor.toNat = base at *
  refine ⟨b, base, hbooted.region, hlive.allocs, hcursor, fun cpu hcpu => ⟨?_, fun a hle hlt => ?_⟩⟩
  · have htop : Stack.top s' cpu = s'.tops cpu := if_neg (by have := hbooted.ncpu.2; omega)
    have hhhdm := hlive.direct.aligned
    rw [htop, hlaid.tops cpu hcpu]
    refine ⟨?_, rfl⟩
    omega
  · rw [hend] at hlimit
    have hmul : (cpu + 1) * 65536 ≤ p.ncpu * 65536 := Nat.mul_le_mul_right _ hcpu
    have hstart : b.start ≤ a := by
      rw [UInt64.le_iff_toNat_le]
      omega
    refine ⟨hlive.direct.virt a hstart (by omega), hlaid.zero a.toNat (by omega)
      (Nat.lt_of_lt_of_le hlt (Nat.add_le_add_left hmul base)), hlive.direct.reach a hstart (by omega), ?_⟩
    rintro ⟨va, hva⟩
    obtain ⟨q, hq⟩ := Radix.placed_of_mem_visits hlive.system.tables.placed _ _ _ hlive.system.kernel rfl hva
    have htable := hlaid.tables _ ⟨_, q, hq, Nat.le_refl _, by omega⟩
    omega

end

/-! ## A small machine -/

/-- The small machine of `smallBuild`, with what the boot loader says about processors. -/
def smallMachine (mp : Option MpResponse) : Platform where
  firmware := some FIRMWARE_UEFI64
  hhdm := some 0xffff800000000000
  memmap := some smallMap
  executable := some (0x600000, 0xffffffff80000000)
  mp := mp
  kstart := 0xffffffff80000000
  kend := 0xffffffff80001000
  isrStubTable := 0x100000
  hasX2apic := true

/-- The small machine with one processor. -/
def smallPlatform : Platform := smallMachine none

def smallEarly : Early := ⟨⟨fun _ => 0, smallBump, 0, false⟩, none, 0, fun _ => 0⟩

theorem smallMachine_sane (mp : Option MpResponse) : (smallMachine mp).Sane := by
  refine ⟨fun entries hentries => ?_, fun hhdm entries exec hhhdm hentries hexec => ?_⟩
  · obtain rfl := Option.some.inj hentries
    decide
  · obtain rfl := Option.some.inj hhhdm
    obtain rfl := Option.some.inj hentries
    obtain rfl := Option.some.inj hexec
    exact small_high

/-- `build` after the first page is taken. -/
theorem smallMachine_builds {mp : Option MpResponse} {result : EStateM.Result String Kernel PageMap}
    (h : (smallMachine mp).Builds smallEarly result) :
    ∃ pages k, result = .ok pages k ∧ 16 * 8 ≤ (k.bump.end.toNat - k.bump.cursor.toNat) / 4096 := by
  obtain ⟨hhdm, entries, b, exec, phys, s₁, hhhdm, hentries, hb, hexec, hscratch, hbuild⟩ := h
  obtain rfl := Option.some.inj hhhdm
  obtain rfl := Option.some.inj hentries
  obtain rfl := Option.some.inj hexec
  obtain rfl : b = smallBump := Option.some.inj (hb.symm.trans (by decide))
  have hs₁ : s₁ = stateOf (scratchPage smallBump smallEarly) := by rw [hscratch]; rfl
  have hroom : (resultOf (smallBuild (stateOf (scratchPage smallBump smallEarly)).kernel)).isOk = true ∧
      16 * 8 ≤ ((stateOf (smallBuild (stateOf (scratchPage smallBump smallEarly)).kernel)).bump.end.toNat -
        (stateOf (smallBuild (stateOf (scratchPage smallBump smallEarly)).kernel)).bump.cursor.toNat) / 4096 := by
    decide +kernel
  rw [← hs₁] at hroom
  have hsame : smallBuild s₁.kernel = result := hbuild
  rw [hsame] at hroom
  cases result with
  | ok pages k => exact ⟨pages, k, rfl, hroom.2⟩
  | error e k => cases hroom.1

/-- The small machine has stacks for eight processors: only their number can stop `kmain`. -/
theorem smallMachine_refusal {mp : Option MpResponse} {e : String} (h : Refusal (smallMachine mp) smallEarly e) :
    (smallMachine mp).ncpu > 8 ∨
      (smallMachine mp).ncpu = 0 ∧ e = "error: kernel stacks: " ++ "cpu count for kernel stacks" := by
  cases h with
  | noFirmware h => cases h
  | firmware h hne => exact absurd (Option.some.inj h).symm hne
  | hhdm h => cases h
  | memmap h => cases h
  | usable h hzero =>
    obtain rfl := Option.some.inj h
    exact absurd hzero (by decide)
  | region hhhdm hentries hnone =>
    obtain rfl := Option.some.inj hhhdm
    obtain rfl := Option.some.inj hentries
    exact absurd hnone (by decide)
  | executable h => cases h
  | tables h =>
    obtain ⟨pages, k, hok, -⟩ := smallMachine_builds h
    cases hok
  | cpus h =>
    unfold MAX_CPUS at h
    omega
  | x2apic h => cases h
  | noCpus h => exact .inr ⟨h, rfl⟩
  | room h hfew =>
    obtain ⟨pages, k, hok, henough⟩ := smallMachine_builds h
    cases hok
    omega

theorem smallMachine_boots (mp : Option MpResponse)
    (hcpus : 0 < (smallMachine mp).ncpu ∧ (smallMachine mp).ncpu ≤ 8) :
    ∃ pages s, kmain (smallMachine mp) smallEarly = .ok pages s := by
  cases hrun : kmain (smallMachine mp) smallEarly with
  | ok pages s => exact ⟨pages, s, rfl⟩
  | error e s =>
    have hrefusal := wp_error (kmain_spec (smallMachine_sane mp) rfl rfl) hrun
    rcases smallMachine_refusal hrefusal with hmany | ⟨hnone, -⟩ <;> omega

/-- An empty list of processors: `kmain` gets as far as the stacks. -/
theorem kmain_stops_no_cpus : ∃ e s, kmain (smallMachine (some ⟨0, []⟩)) smallEarly = .error e s ∧
    Refusal (smallMachine (some ⟨0, []⟩)) smallEarly e ∧
    e = "error: kernel stacks: " ++ "cpu count for kernel stacks" := by
  cases hrun : kmain (smallMachine (some ⟨0, []⟩)) smallEarly with
  | ok pages s => exact absurd (kmain_ncpu hrun).1 (by decide)
  | error e s =>
    have hrefusal := @kmain_stops (smallMachine (some ⟨0, []⟩)) smallEarly (smallMachine_sane _) rfl
      rfl e s hrun
    rcases smallMachine_refusal hrefusal with hmany | ⟨-, htext⟩
    · exact absurd hmany (by decide)
    · exact ⟨e, s, rfl, hrefusal, htext⟩

theorem kmain_stacks_small : ∃ pages s, ∃ (b : BumpAllocator) (base : Nat),
    kmain smallPlatform smallEarly = .ok pages s ∧
    (Stack.top s 0).toNat = min (b.hhdm.toNat + base + (0 + 1) * 65536) (2 ^ 64 - 16) := by
  obtain ⟨pages, s, hrun⟩ : ∃ pages s, kmain smallPlatform smallEarly = .ok pages s :=
    smallMachine_boots none (by decide)
  obtain ⟨b, base, -, -, -, hall⟩ :=
    @kmain_stacks smallPlatform smallEarly (smallMachine_sane none) rfl rfl _ _ hrun
  exact ⟨pages, s, b, base, hrun, (hall 0 (by decide)).1.2⟩

end RootCourt

end CourtKernel
