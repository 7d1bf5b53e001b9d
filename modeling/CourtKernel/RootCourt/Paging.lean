import CourtKernel.Lib.Wp
import CourtKernel.RootCourt.Mm

/-!
# Page tables

Reference model of `crates/root-court/src/paging.rs`.  Programs keep the state they have reached
when they fail: tables that were allocated stay allocated, entries that were written stay written.

* `Mapper` — physical memory, the allocator, the PML4 to work on, and the count of table pages.
* `Kernel` — physical memory, the allocator, `KERNEL_PML4_PHYS`, and whether `CR4.LA57` is set.
* `build`, `AddressSpace.cloneKernel`, `AddressSpace.map`.

The linker symbols `__kernel_start` and `__kernel_end` are arguments of `build`.  Loading `CR3` and
the published root `CR3` are left out: they do not touch memory.
-/

namespace CourtKernel

namespace RootCourt

def HUGE_2M : UInt64 := 0x200000
def PRESENT : UInt64 := (1 : UInt64) <<< 0
def WRITE : UInt64 := (1 : UInt64) <<< 1
def HUGE : UInt64 := (1 : UInt64) <<< 7
def PHYS_MASK : UInt64 := 0x000ffffffffff000
def TABLE_FLAGS : UInt64 := PRESENT ||| WRITE
def PAGE_FLAGS : UInt64 := PRESENT ||| WRITE

/-- Start of the higher half, as a 48-bit index. -/
def LOWER_HALF_END : UInt64 := 0x0000800000000000

def pml4Index (va : UInt64) : Nat := ((va >>> 39) &&& 0x1ff).toNat
def pdptIndex (va : UInt64) : Nat := ((va >>> 30) &&& 0x1ff).toNat
def pdIndex (va : UInt64) : Nat := ((va >>> 21) &&& 0x1ff).toNat
def ptIndex (va : UInt64) : Nat := ((va >>> 12) &&& 0x1ff).toNat

def alignUp (value align : UInt64) : UInt64 := saturatingAdd value (align - 1) &&& ~~~(align - 1)
def alignDown (value align : UInt64) : UInt64 := value &&& ~~~(align - 1)

/-- Address of an entry of a table. -/
def slotAddr (tablePhys : UInt64) (index : Nat) : Nat := tablePhys.toNat + 8 * index

structure Mapper where
  mem : Memory
  bump : BumpAllocator
  pml4Phys : UInt64
  tablePages : UInt64

namespace Mapper

def allocTable : Prog Mapper UInt64 := do
  let self ← get
  match self.bump.allocPages 1 with
  | none => throw "out of page-table pages"
  | some (phys, bump) =>
    modify fun self => { self with
      mem := self.mem.fill phys.toNat PAGE.toNat 0
      bump := bump
      tablePages := self.tablePages + 1 }
    pure phys

/-- `self.entry(table_phys, index).read()` -/
def readEntry (tablePhys : UInt64) (index : Nat) : Prog Mapper UInt64 := do
  let self ← get
  pure (self.mem.readU64 (slotAddr tablePhys index))

/-- `self.entry(table_phys, index).write(value)` -/
def writeEntry (tablePhys : UInt64) (index : Nat) (value : UInt64) : Prog Mapper Unit :=
  modify fun self => { self with mem := self.mem.writeU64 (slotAddr tablePhys index) value }

def ensureTable (tablePhys : UInt64) (index : Nat) : Prog Mapper UInt64 := do
  let current ← readEntry tablePhys index
  if current &&& PRESENT ≠ 0 then
    if current &&& HUGE ≠ 0 then throw "huge/4k page collision"
    else pure (current &&& PHYS_MASK)
  else do
    let next ← allocTable
    writeEntry tablePhys index (next ||| TABLE_FLAGS)
    pure next

def map4k (virt phys : UInt64) : Prog Mapper Unit := do
  let self ← get
  let pdpt ← ensureTable self.pml4Phys (pml4Index virt)
  let pd ← ensureTable pdpt (pdptIndex virt)
  let pt ← ensureTable pd (pdIndex virt)
  let current ← readEntry pt (ptIndex virt)
  let want := (phys &&& PHYS_MASK) ||| PAGE_FLAGS
  if current &&& PRESENT ≠ 0 then
    if current &&& PHYS_MASK ≠ phys &&& PHYS_MASK then throw "4k map conflict"
    else pure ()
  else writeEntry pt (ptIndex virt) want

def map2m (virt phys : UInt64) : Prog Mapper Unit := do
  let self ← get
  let pdpt ← ensureTable self.pml4Phys (pml4Index virt)
  let pd ← ensureTable pdpt (pdptIndex virt)
  let current ← readEntry pd (pdIndex virt)
  let want := (phys &&& PHYS_MASK) ||| PAGE_FLAGS ||| HUGE
  if current &&& PRESENT ≠ 0 then
    if current &&& HUGE = 0 then throw "huge/4k page collision"
    else if current &&& PHYS_MASK ≠ phys &&& PHYS_MASK then throw "2m map conflict"
    else pure ()
  else writeEntry pd (pdIndex virt) want

/-- `fuel` turns of `while len >= PAGE`; each turn takes at least a page off `len`. -/
def mapRangeLoop : Nat → UInt64 → UInt64 → UInt64 → Prog Mapper Unit
  | 0, _, _, _ => pure ()
  | fuel + 1, virt, phys, len =>
    if len ≥ PAGE then
      if len ≥ HUGE_2M ∧ (virt ||| phys) &&& (HUGE_2M - 1) = 0 then do
        map2m virt phys
        mapRangeLoop fuel (virt + HUGE_2M) (phys + HUGE_2M) (len - HUGE_2M)
      else do
        map4k virt phys
        mapRangeLoop fuel (virt + PAGE) (phys + PAGE) (len - PAGE)
    else pure ()

def mapRange (virt phys len : UInt64) : Prog Mapper Unit :=
  if virt &&& (PAGE - 1) ≠ 0 ∨ phys &&& (PAGE - 1) ≠ 0 then throw "map_range not 4k aligned"
  else
    let len := len &&& ~~~(PAGE - 1)
    mapRangeLoop (len.toNat / 4096) virt phys len

/-- 5-level paging: `CR3` is a PML5 whose last entry is the PML4. -/
def wrapLa57 (pml4Phys : UInt64) : Prog Mapper UInt64 := do
  let pml5Phys ← allocTable
  writeEntry pml5Phys 511 (pml4Phys ||| TABLE_FLAGS)
  pure pml5Phys

end Mapper

structure Kernel where
  mem : Memory
  bump : BumpAllocator
  kernelPml4 : UInt64
  la57 : Bool

/-- Run a program of a fresh `Mapper { bump, pml4_phys, table_pages }`. -/
def withMapper {α : Type} (pml4Phys tablePages : UInt64) (x : Prog Mapper α) : Prog Kernel α :=
  fun self =>
    match x ⟨self.mem, self.bump, pml4Phys, tablePages⟩ with
    | .ok a mapper => .ok a { self with mem := mapper.mem, bump := mapper.bump }
    | .error e mapper => .error e { self with mem := mapper.mem, bump := mapper.bump }

structure PageMap where
  pml4Phys : UInt64
  kernelVirt : UInt64
  kernelPhys : UInt64
  kernelLen : UInt64
  hhdmBytes : UInt64
  hhdmSpans : UInt64
  tablePages : UInt64
  deriving DecidableEq

/-- The loop of `build` over the memory map; the accumulators are `hhdm_bytes` and `hhdm_spans`. -/
def buildEntries (hhdm kernelPhysBase kernelVirtBase : UInt64) :
    List MemmapEntry → UInt64 → UInt64 → Prog Mapper (UInt64 × UInt64)
  | [], hhdmBytes, hhdmSpans => pure (hhdmBytes, hhdmSpans)
  | entry :: entries, hhdmBytes, hhdmSpans =>
    let start := alignUp entry.base PAGE
    let «end» := alignDown (saturatingAdd entry.base entry.length) PAGE
    if entry.length = 0 ∨ «end» ≤ start then
      buildEntries hhdm kernelPhysBase kernelVirtBase entries hhdmBytes hhdmSpans
    else do
      let len := «end» - start
      if entry.kind = MEMMAP_EXECUTABLE_AND_MODULES ∧ start ≥ kernelPhysBase then
        Mapper.mapRange (kernelVirtBase + (start - kernelPhysBase)) start len
      else pure ()
      if hhdmMappedRev3 entry.kind then do
        Mapper.mapRange (hhdm + start) start len
        buildEntries hhdm kernelPhysBase kernelVirtBase entries (saturatingAdd hhdmBytes len)
          (hhdmSpans + 1)
      else buildEntries hhdm kernelPhysBase kernelVirtBase entries hhdmBytes hhdmSpans

/-- `build` after the PML4 is published: map the kernel and the memory map, and wrap the PML4. -/
def buildTables (la57 : Bool) (pml4Phys hhdm kernelPhysBase kernelVirtBase kstart kernelPhys
    kernelLen : UInt64) (entries : List MemmapEntry) : Prog Mapper PageMap := do
  Mapper.mapRange kstart kernelPhys kernelLen
  let (hhdmBytes, hhdmSpans) ← buildEntries hhdm kernelPhysBase kernelVirtBase entries 0 0
  let cr3Phys ← if la57 then Mapper.wrapLa57 pml4Phys else pure pml4Phys
  let mapper ← get
  pure ⟨cr3Phys, kstart, kernelPhys, kernelLen, hhdmBytes, hhdmSpans, mapper.tablePages⟩

def build (kstart kend hhdm kernelPhysBase kernelVirtBase : UInt64) (entries : List MemmapEntry) :
    Prog Kernel PageMap := do
  if kend ≤ kstart then throw "kernel image has zero size"
  else if kstart < kernelVirtBase then throw "kernel start is below executable virtual_base"
  else do
    let kernelPhys := kernelPhysBase + (kstart - kernelVirtBase)
    let kernelLen := alignUp (kend - kstart) PAGE
    let pml4Phys ← withMapper 0 0 Mapper.allocTable
    modify fun self => { self with kernelPml4 := pml4Phys }
    let self ← get
    withMapper pml4Phys 1 (buildTables self.la57 pml4Phys hhdm kernelPhysBase kernelVirtBase kstart
      kernelPhys kernelLen entries)

/-- Isolated lower-half address space that clones the kernel's PML4 entries. -/
structure AddressSpace where
  cr3 : UInt64
  pml4Phys : UInt64
  deriving DecidableEq

namespace AddressSpace

/-- `for index in 0..512 { dst.write(src.read()) }` -/
def copyEntries (src dst : UInt64) (mem : Memory) : Memory :=
  (List.range 512).foldl (fun mem index =>
    mem.writeU64 (slotAddr dst index) (mem.readU64 (slotAddr src index))) mem

def cloneMapper (la57 : Bool) (kernelPml4 : UInt64) : Prog Mapper AddressSpace := do
  let newPml4 ← Mapper.allocTable
  modify fun mapper => { mapper with
    pml4Phys := newPml4
    mem := copyEntries kernelPml4 newPml4 mapper.mem }
  let cr3 ← if la57 then Mapper.wrapLa57 newPml4 else pure newPml4
  pure ⟨cr3, newPml4⟩

def cloneKernel : Prog Kernel AddressSpace := do
  let self ← get
  if self.kernelPml4 = 0 then throw "kernel PML4 not published"
  else withMapper 0 0 (cloneMapper self.la57 self.kernelPml4)

def map (self : AddressSpace) (virt phys len : UInt64) : Prog Kernel Unit :=
  if virt ≥ LOWER_HALF_END then throw "courtlet map must be lower-half"
  else withMapper self.pml4Phys 0 (Mapper.mapRange virt phys len)

end AddressSpace

end RootCourt

end CourtKernel
