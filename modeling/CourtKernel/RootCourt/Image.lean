import CourtKernel.RootCourt.Paging

/-!
# Court images

Reference model of `crates/root-court/src/image.rs`, the loader of ELF64 images.  An image is any
list of bytes; sizes and offsets are `usize` values of a 64-bit target.

* `header` — everything `load` checks before it looks at program headers.
* `segmentAt` — the head of the loop: the program header at an offset, if it asks for memory.
* `loadSegment`, `loadSegments`, `load` — the rest of the loop, the loop, and the loader.
* `segments` — the program headers that ask for memory, in the order of the loop.

The kernel's direct uses of the allocator and of memory are `allocPages`, `writeBytes`, `copy`.
-/

namespace CourtKernel

namespace RootCourt

/-! ## Direct uses of the allocator and of memory -/

namespace Kernel

/-- `bump.alloc_pages(pages).ok_or(message)?`, with the physical address of the grant. -/
def allocPages (pages : UInt64) (message : String) : Prog Kernel UInt64 := do
  let self ← get
  match self.bump.allocPages pages with
  | none => throw message
  | some (phys, bump) =>
    modify fun self => { self with bump := bump }
    pure phys

/-- `virt.write_bytes(value, count)` -/
def writeBytes (phys : UInt64) (value : UInt8) (count : UInt64) : Prog Kernel Unit :=
  modify fun self => { self with mem := self.mem.fill phys.toNat count.toNat value }

/-- `virt.copy_from_nonoverlapping(bytes.as_ptr(), bytes.len())` -/
def copy (phys : Nat) (bytes : List UInt8) : Prog Kernel Unit :=
  modify fun self => { self with mem := self.mem.write phys bytes }

end Kernel

namespace Image

def MAX_PHDRS : Nat := 8
def MAX_SEGMENT : UInt64 := 128 * 1024
def ELF_MAGIC : List UInt8 := [0x7f, 0x45, 0x4c, 0x46]
def ELFCLASS64 : UInt8 := 2
def ELFDATA2LSB : UInt8 := 1
def ELFOSABI_NONE : UInt8 := 0
def ET_EXEC : UInt16 := 2
def EM_X86_64 : UInt16 := 62
def PT_LOAD : UInt32 := 1
def EHSIZE : Nat := 64
def PHDR_SIZE : Nat := 56

/-- `buf.get(off..off + n).ok_or("court image oob")` -/
def slice (buf : List UInt8) (off n : Nat) : Except String (List UInt8) :=
  if off + n ≤ buf.length then .ok ((buf.drop off).take n) else .error "court image oob"

def readU16 (buf : List UInt8) (off : Nat) : Except String UInt16 :=
  (slice buf off 2).map fun bytes => UInt16.ofNat (leVal bytes)

def readU32 (buf : List UInt8) (off : Nat) : Except String UInt32 :=
  (slice buf off 4).map fun bytes => UInt32.ofNat (leVal bytes)

def readU64 (buf : List UInt8) (off : Nat) : Except String UInt64 :=
  (slice buf off 8).map fun bytes => UInt64.ofNat (leVal bytes)

/-- What the loop over the program headers needs of the ELF header. -/
structure Header where
  entry : UInt64
  phoff : Nat
  phnum : Nat
  deriving DecidableEq

/-- `image[i]`, where `i` is in range. -/
def byteAt (image : List UInt8) (i : Nat) : UInt8 := image.getD i 0

def header (image : List UInt8) : Except String Header := do
  if image.length < EHSIZE then throw "court image truncated"
  else if image.take 4 ≠ ELF_MAGIC then throw "court image is not ELF"
  else if byteAt image 4 ≠ ELFCLASS64 ∨ byteAt image 5 ≠ ELFDATA2LSB then
    throw "court image is not ELF64 LE"
  else if byteAt image 7 ≠ ELFOSABI_NONE ∧ byteAt image 7 ≠ 3 then throw "court image ABI"
  else do
    let eType ← readU16 image 16
    if eType ≠ ET_EXEC ∧ eType ≠ 3 then throw "court image is not ET_EXEC/ET_DYN"
    else do
      let eMachine ← readU16 image 18
      if eMachine ≠ EM_X86_64 then throw "court image is not x86_64"
      else do
        let entry ← readU64 image 24
        let phoff ← readU64 image 32
        let phentsize ← readU16 image 54
        let phnum ← readU16 image 56
        if phentsize.toNat ≠ PHDR_SIZE then throw "court image phentsize"
        else if phnum.toNat = 0 ∨ phnum.toNat > MAX_PHDRS then throw "court image phnum"
        else if phnum.toNat * phentsize.toNat ≥ 2 ^ 64 then throw "court image phdr overflow"
        else if phoff.toNat + phnum.toNat * phentsize.toNat ≥ 2 ^ 64 then
          throw "court image phdr overflow"
        else if phoff.toNat + phnum.toNat * phentsize.toNat > image.length then
          throw "court image phdrs truncated"
        else pure ⟨entry, phoff.toNat, phnum.toNat⟩

/-- The fields of a program header that the loader uses. -/
structure Segment where
  offset : UInt64
  vaddr : UInt64
  filesz : UInt64
  memsz : UInt64
  deriving DecidableEq

/-- The program header at an offset; `none` where the loop goes on to the next header. -/
def segmentAt (image : List UInt8) (off : Nat) : Except String (Option Segment) := do
  let pType ← readU32 image off
  if pType ≠ PT_LOAD then pure none
  else do
    let pOffset ← readU64 image (off + 8)
    let pVaddr ← readU64 image (off + 16)
    let pFilesz ← readU64 image (off + 32)
    let pMemsz ← readU64 image (off + 40)
    if pMemsz = 0 then pure none else pure (some ⟨pOffset, pVaddr, pFilesz, pMemsz⟩)

namespace Segment

def pageOff (seg : Segment) : UInt64 := seg.vaddr &&& (PAGE - 1)

def mapVa (seg : Segment) : UInt64 := seg.vaddr - seg.pageOff

end Segment

/-- Copy the file part of a segment to its pages. -/
def copyFile (image : List UInt8) (seg : Segment) (phys : UInt64) : Prog Kernel Unit :=
  if seg.filesz > 0 then
    let fileEnd := seg.offset.toNat + seg.filesz.toNat
    if fileEnd ≥ 2 ^ 64 then throw "court image file overflow"
    else if fileEnd > image.length then throw "court image file truncated"
    else
      Kernel.copy (phys.toNat + seg.pageOff.toNat)
        ((image.drop seg.offset.toNat).take seg.filesz.toNat)
  else pure ()

def loadSegment (space : AddressSpace) (image : List UInt8) (seg : Segment) : Prog Kernel Unit :=
  if seg.vaddr ≥ LOWER_HALF_END then throw "court image PT_LOAD is not lower-half"
  else if seg.memsz > MAX_SEGMENT then throw "court image segment too large"
  else if seg.filesz > seg.memsz then throw "court image filesz > memsz"
  else
    match checkedAdd seg.pageOff seg.memsz with
    | none => throw "court image segment overflow"
    | some mapLen => do
      let pages := divCeil mapLen PAGE
      let phys ← Kernel.allocPages pages "court image pages"
      Kernel.writeBytes phys 0 (pages * PAGE)
      copyFile image seg phys
      space.map seg.mapVa phys (pages * PAGE)

/-- The loop over the offsets of the program headers; the accumulator is `mapped_entry`. -/
def loadSegments (space : AddressSpace) (image : List UInt8) (entry : UInt64) :
    List Nat → Bool → Prog Kernel Bool
  | [], mappedEntry => pure mappedEntry
  | off :: offs, mappedEntry =>
    match segmentAt image off with
    | .error e => throw e
    | .ok none => loadSegments space image entry offs mappedEntry
    | .ok (some seg) => do
      loadSegment space image seg
      loadSegments space image entry offs
        (mappedEntry || (seg.vaddr ≤ entry && entry < seg.vaddr + seg.memsz))

/-- `phoff + index * phentsize` for all indices of the loop. -/
def Header.offsets (h : Header) : List Nat :=
  (List.range h.phnum).map fun index => h.phoff + index * PHDR_SIZE

def load (space : AddressSpace) (image : List UInt8) : Prog Kernel UInt64 :=
  match header image with
  | .error e => throw e
  | .ok h => do
    let mappedEntry ← loadSegments space image h.entry h.offsets false
    if mappedEntry then pure h.entry else throw "court image entry is not in a PT_LOAD"

/-- The program headers at a list of offsets that ask for memory. -/
def segmentsAt (image : List UInt8) (offs : List Nat) : List Segment :=
  offs.filterMap fun off =>
    match segmentAt image off with
    | .ok (some seg) => some seg
    | _ => none

/-- The program headers that ask for memory, in the order of the loop. -/
def segments (image : List UInt8) : List Segment :=
  match header image with
  | .error _ => []
  | .ok h => segmentsAt image h.offsets

end Image

end RootCourt

end CourtKernel
