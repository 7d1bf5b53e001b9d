import CourtKernel.Lib.Panic
import CourtKernel.RootCourt.Contents

/-!
# The loader, watched

`load` once more, as the source has it, with everything that could go wrong at run time made visible:
an index or a slice out of range, arithmetic that overflows, and a conversion that fails are panics.
The state also records the bytes of the image that are read, the pages that are granted, and the bytes
that are written.

* `Touched` — the kernel, with these records.
* `add`, `index`, `sliceOf`, `getBytes`, … — the operations of the source that may panic.
* `Careful.header`, `Careful.segmentAt`, `Careful.loadSegment`, `Careful.load` — the loader.
* `Confined image t` — what was read lies in the image, pages are granted for segments, and what was
  written lies in the pages granted for it.
* `Tied w place kernel writes` — outside of the tables, memory has changed since `w` only where a write
  is recorded.
* `load_agrees` — the watched loader never panics, does what `Image.load` does, and keeps both.
* `load_total_and_confined` — the same for a run, and that program headers can always be read once the
  table of program headers is known to lie in the image.
-/

namespace CourtKernel

namespace RootCourt

namespace Image

/-- Pages that the allocator has granted for a segment. -/
structure Grant where
  seg : Segment
  phys : UInt64
  pages : UInt64

/-- Bytes written to the pages of a grant. -/
structure Write where
  grant : Grant
  start : Nat
  count : Nat

/-- The kernel, and what the loader has touched so far; a read is an offset and a number of bytes. -/
structure Touched where
  kernel : Kernel
  reads : List (Nat × Nat)
  grants : List Grant
  writes : List Write

namespace Careful

open Strict (panic fail require)

/-! ## Operations that may panic -/

/-- A program of the kernel. -/
def onKernel {α : Type} (x : Prog Kernel α) : Strict Touched α :=
  .lift (zoom Touched.kernel (fun t kernel => { t with kernel := kernel }) x)

def recordRead (off n : Nat) : Strict Touched Unit :=
  .lift (modify fun t => { t with reads := t.reads ++ [(off, n)] })

def recordGrant (grant : Grant) : Strict Touched Unit :=
  .lift (modify fun t => { t with grants := t.grants ++ [grant] })

def recordWrite (write : Write) : Strict Touched Unit :=
  .lift (modify fun t => { t with writes := t.writes ++ [write] })

/-- `a + b` of `usize` -/
def add (a b : Nat) : Strict Touched Nat := do
  require (a + b < 2 ^ 64)
  pure (a + b)

/-- `a * b` of `usize` -/
def mul (a b : Nat) : Strict Touched Nat := do
  require (a * b < 2 ^ 64)
  pure (a * b)

/-- `a + b` of `u64` -/
def addU64 (a b : UInt64) : Strict Touched UInt64 := do
  require (a.toNat + b.toNat < 2 ^ 64)
  pure (a + b)

/-- `a - b` of `u64` -/
def subU64 (a b : UInt64) : Strict Touched UInt64 := do
  require (b ≤ a)
  pure (a - b)

/-- `a * b` of `u64` -/
def mulU64 (a b : UInt64) : Strict Touched UInt64 := do
  require (a.toNat * b.toNat < 2 ^ 64)
  pure (a * b)

/-- `image[i]` -/
def index (image : List UInt8) (i : Nat) : Strict Touched UInt8 := do
  require (i < image.length)
  recordRead i 1
  pure (byteAt image i)

/-- `image[start..end]` -/
def sliceOf (image : List UInt8) (start «end» : Nat) : Strict Touched (List UInt8) := do
  require (start ≤ «end» ∧ «end» ≤ image.length)
  recordRead start («end» - start)
  pure ((image.drop start).take («end» - start))

/-- `buf.get(off..off + n).ok_or("court image oob")?.try_into().unwrap()` -/
def getBytes (n : Nat) (buf : List UInt8) (off : Nat) : Strict Touched (List UInt8) := do
  let «end» ← add off n
  if off ≤ «end» ∧ «end» ≤ buf.length then do
    recordRead off («end» - off)
    let bytes := (buf.drop off).take («end» - off)
    require (bytes.length = n)
    pure bytes
  else fail "court image oob"

def readU16 (buf : List UInt8) (off : Nat) : Strict Touched UInt16 := do
  let bytes ← getBytes 2 buf off
  pure (UInt16.ofNat (leVal bytes))

def readU32 (buf : List UInt8) (off : Nat) : Strict Touched UInt32 := do
  let bytes ← getBytes 4 buf off
  pure (UInt32.ofNat (leVal bytes))

def readU64 (buf : List UInt8) (off : Nat) : Strict Touched UInt64 := do
  let bytes ← getBytes 8 buf off
  pure (UInt64.ofNat (leVal bytes))

/-! ## The loader -/

/-- `image[4] != ELFCLASS64 || image[5] != ELFDATA2LSB` -/
def notElf64Le (image : List UInt8) : Strict Touched Bool := do
  let «class» ← index image 4
  if «class» ≠ ELFCLASS64 then pure true
  else do
    let data ← index image 5
    pure (decide (data ≠ ELFDATA2LSB))

/-- `image[7] != ELFOSABI_NONE && image[7] != 3` -/
def badAbi (image : List UInt8) : Strict Touched Bool := do
  let abi ← index image 7
  if abi ≠ ELFOSABI_NONE then do
    let abi ← index image 7
    pure (decide (abi ≠ 3))
  else pure false

/-- `load` from the reading of `e_type` on to the table of program headers. -/
def headerFields (image : List UInt8) : Strict Touched Header := do
  let eType ← readU16 image 16
  if eType ≠ ET_EXEC ∧ eType ≠ 3 then fail "court image is not ET_EXEC/ET_DYN"
  else do
    let eMachine ← readU16 image 18
    if eMachine ≠ EM_X86_64 then fail "court image is not x86_64"
    else do
      let entry ← readU64 image 24
      let phoff ← readU64 image 32
      let phentsize ← readU16 image 54
      let phnum ← readU16 image 56
      if phentsize.toNat ≠ PHDR_SIZE then fail "court image phentsize"
      else if phnum.toNat = 0 ∨ phnum.toNat > MAX_PHDRS then fail "court image phnum"
      else if phnum.toNat * phentsize.toNat ≥ 2 ^ 64 then fail "court image phdr overflow"
      else if phoff.toNat + phnum.toNat * phentsize.toNat ≥ 2 ^ 64 then
        fail "court image phdr overflow"
      else if phoff.toNat + phnum.toNat * phentsize.toNat > image.length then
        fail "court image phdrs truncated"
      else pure ⟨entry, phoff.toNat, phnum.toNat⟩

def header (image : List UInt8) : Strict Touched Header :=
  if image.length < EHSIZE then fail "court image truncated"
  else do
    let magic ← sliceOf image 0 4
    if magic ≠ ELF_MAGIC then fail "court image is not ELF"
    else do
      let wrongClass ← notElf64Le image
      if wrongClass then fail "court image is not ELF64 LE"
      else do
        let wrongAbi ← badAbi image
        if wrongAbi then fail "court image ABI" else headerFields image

def segmentAt (image : List UInt8) (off : Nat) : Strict Touched (Option Segment) := do
  let pType ← readU32 image off
  if pType ≠ PT_LOAD then pure none
  else do
    let pOffset ← readU64 image (← add off 8)
    let pVaddr ← readU64 image (← add off 16)
    let pFilesz ← readU64 image (← add off 32)
    let pMemsz ← readU64 image (← add off 40)
    if pMemsz = 0 then pure none else pure (some ⟨pOffset, pVaddr, pFilesz, pMemsz⟩)

/-- `bump.alloc_pages(pages).ok_or("court image pages")?` -/
def allocPages (seg : Segment) (pages : UInt64) : Strict Touched Grant := do
  let phys ← onKernel (Kernel.allocPages pages "court image pages")
  recordGrant ⟨seg, phys, pages⟩
  pure ⟨seg, phys, pages⟩

/-- `virt.write_bytes(value, count)` -/
def writeBytes (grant : Grant) (value : UInt8) (count : UInt64) : Strict Touched Unit := do
  recordWrite ⟨grant, grant.phys.toNat, count.toNat⟩
  onKernel (Kernel.writeBytes grant.phys value count)

/-- `virt.add(offset).copy_from_nonoverlapping(bytes.as_ptr(), count)` -/
def copyTo (grant : Grant) (offset : Nat) (bytes : List UInt8) (count : Nat) :
    Strict Touched Unit := do
  require (bytes.length = count)
  recordWrite ⟨grant, grant.phys.toNat + offset, count⟩
  onKernel (Kernel.copy (grant.phys.toNat + offset) bytes)

def copyFile (image : List UInt8) (seg : Segment) (grant : Grant) : Strict Touched Unit :=
  if seg.filesz > 0 then
    let fileEnd := seg.offset.toNat + seg.filesz.toNat
    if fileEnd ≥ 2 ^ 64 then fail "court image file overflow"
    else if fileEnd > image.length then fail "court image file truncated"
    else do
      let bytes ← sliceOf image seg.offset.toNat fileEnd
      copyTo grant seg.pageOff.toNat bytes seg.filesz.toNat
  else pure ()

/-- The additions and subtractions in `fuel` turns of the loop of `map_range` stay in range. -/
def advances : Nat → UInt64 → UInt64 → UInt64 → Bool
  | 0, _, _, _ => true
  | fuel + 1, virt, phys, len =>
    if len ≥ PAGE then
      let step := if len ≥ HUGE_2M ∧ (virt ||| phys) &&& (HUGE_2M - 1) = 0 then HUGE_2M else PAGE
      decide (virt.toNat + step.toNat < 2 ^ 64 ∧ phys.toNat + step.toNat < 2 ^ 64 ∧ step ≤ len) &&
        advances fuel (virt + step) (phys + step) (len - step)
    else true

/-- `space.map(bump, virt, phys, len)?` -/
def map (space : AddressSpace) (virt phys len : UInt64) : Strict Touched Unit := do
  let whole := len &&& ~~~(PAGE - 1)
  require (advances (whole.toNat / 4096) virt phys whole = true)
  onKernel (space.map virt phys len)

def loadSegment (space : AddressSpace) (image : List UInt8) (seg : Segment) :
    Strict Touched Unit :=
  if seg.vaddr ≥ LOWER_HALF_END then fail "court image PT_LOAD is not lower-half"
  else if seg.memsz > MAX_SEGMENT then fail "court image segment too large"
  else if seg.filesz > seg.memsz then fail "court image filesz > memsz"
  else do
    let mapVa ← subU64 seg.vaddr seg.pageOff
    match checkedAdd seg.pageOff seg.memsz with
    | none => fail "court image segment overflow"
    | some mapLen => do
      let pages := divCeil mapLen PAGE
      let grant ← allocPages seg pages
      let size ← mulU64 pages PAGE
      writeBytes grant 0 size
      copyFile image seg grant
      let size ← mulU64 pages PAGE
      map space mapVa grant.phys size

/-- `entry >= p_vaddr && entry < p_vaddr + p_memsz` -/
def entryIn (entry : UInt64) (seg : Segment) : Strict Touched Bool :=
  if entry ≥ seg.vaddr then do
    let «end» ← addU64 seg.vaddr seg.memsz
    pure (decide (entry < «end»))
  else pure false

def loadSegments (space : AddressSpace) (image : List UInt8) (entry : UInt64) (phoff : Nat) :
    List Nat → Bool → Strict Touched Bool
  | [], mappedEntry => pure mappedEntry
  | index :: indices, mappedEntry => do
    let off ← add phoff (← mul index PHDR_SIZE)
    match ← segmentAt image off with
    | none => loadSegments space image entry phoff indices mappedEntry
    | some seg => do
      loadSegment space image seg
      let inside ← entryIn entry seg
      loadSegments space image entry phoff indices (mappedEntry || inside)

def load (space : AddressSpace) (image : List UInt8) : Strict Touched UInt64 := do
  let h ← header image
  let mappedEntry ← loadSegments space image h.entry h.phoff (List.range h.phnum) false
  if mappedEntry then pure h.entry else fail "court image entry is not in a PT_LOAD"

/-! ## Agreement -/

/-- What was read lies in the image, pages are granted for segments, and what was written lies in the
pages granted for it. -/
structure Confined (image : List UInt8) (t : Touched) : Prop where
  reads : ∀ read ∈ t.reads, read.1 + read.2 ≤ image.length
  grants : ∀ grant ∈ t.grants, grant.seg ∈ segments image ∧ grant.pages.toNat = grant.seg.count
  writes : ∀ w ∈ t.writes, w.grant ∈ t.grants ∧ w.grant.phys.toNat ≤ w.start ∧
    w.start + w.count ≤ w.grant.phys.toNat + w.grant.pages.toNat * 4096

/-- Since `w` the tables have been kept in order, and outside of them memory has changed only where a
write is recorded. -/
structure Tied (w : World) (place : Nat → Option Place) (kernel : Kernel)
    (writes : List Write) : Prop where
  step : Step w (kernel.world place)
  frame : ∀ a, (∀ write ∈ writes, a < write.start ∨ write.start + write.count ≤ a) →
    (kernel.world place).Outside a → kernel.mem a = w.mem a

/-- The tables of `w` are in order, and `r` is a PML4. -/
def Sound (w : World) (r : Nat) : Prop := Tables w ∧ w.place r = some (.pml4 r)

/-- What the loader keeps: it is confined, and tied to the world it started in. -/
structure Watched (image : List UInt8) (w : World) (r : Nat) (t : Touched) : Prop where
  confined : Confined image t
  tied : Sound w r → ∃ place, Tied w place t.kernel t.writes

/-- What it keeps while it works on the pages of a grant. -/
structure Holding (image : List UInt8) (w : World) (r : Nat) (grant : Grant) (t : Touched) : Prop where
  confined : Confined image t
  recorded : grant ∈ t.grants
  tied : Sound w r → ∃ place, Tied w place t.kernel t.writes ∧ w.bump.cursor.toNat ≤ grant.phys.toNat ∧
    Data (t.kernel.world place) ⟨grant.seg.first, grant.phys.toNat, grant.pages.toNat⟩

variable {image : List UInt8} {I : Touched → Prop} {α β : Type} {w : World} {r : Nat} {grant : Grant}
  {t : Touched}

theorem Holding.watched (h : Holding image w r grant t) : Watched image w r t := by
  refine ⟨h.confined, fun hw => ?_⟩
  obtain ⟨place, htied, -⟩ := h.tied hw
  exact ⟨place, htied⟩

/-- Invariants that allow reads of the image. -/
def Records (image : List UInt8) (I : Touched → Prop) : Prop :=
  ∀ t off n, off + n ≤ image.length → I t → I { t with reads := t.reads ++ [(off, n)] }

theorem Confined.records : Records image (Confined image) := by
  refine fun t off n hoff h => ⟨fun read hread => ?_, h.grants, h.writes⟩
  rcases List.mem_append.1 hread with hold | hnew
  · exact h.reads read hold
  · obtain rfl := List.mem_singleton.1 hnew
    exact hoff

theorem Watched.records : Records image (Watched image w r) :=
  fun t off n hoff h => ⟨Confined.records t off n hoff h.confined, h.tied⟩

theorem Holding.records : Records image (Holding image w r grant) :=
  fun t off n hoff h => ⟨Confined.records t off n hoff h.confined, h.recorded, h.tied⟩

/-- Recording a read is a silent step. -/
theorem recordRead_silent (hI : Records image I) {off n : Nat} (h : off + n ≤ image.length)
    {f : Unit → Strict Touched β} {y : Prog Kernel β} (hf : Agrees Touched.kernel I (f ()) y) :
    Agrees Touched.kernel I (recordRead off n >>= f) y := by
  refine .silent (a := ()) (fun t ht => ?_) hf
  unfold recordRead
  rw [safe_lift, wp_modify]
  exact ⟨rfl, hI t off n h ht, rfl⟩

theorem index_silent (hI : Records image I) {i : Nat} (h : i < image.length)
    {f : UInt8 → Strict Touched β} {y : Prog Kernel β}
    (hf : Agrees Touched.kernel I (f (byteAt image i)) y) :
    Agrees Touched.kernel I (index image i >>= f) y := by
  unfold index
  rw [bind_assoc]
  refine .require h ?_
  rw [bind_assoc]
  refine recordRead_silent hI h ?_
  rw [pure_bind]
  exact hf

theorem sliceOf_silent (hI : Records image I) {start stop : Nat} (h : start ≤ stop)
    (hstop : stop ≤ image.length) {f : List UInt8 → Strict Touched β} {y : Prog Kernel β}
    (hf : Agrees Touched.kernel I (f ((image.drop start).take (stop - start))) y) :
    Agrees Touched.kernel I (sliceOf image start stop >>= f) y := by
  unfold sliceOf
  rw [bind_assoc]
  refine .require ⟨h, hstop⟩ ?_
  rw [bind_assoc]
  refine recordRead_silent hI (by omega) ?_
  rw [pure_bind]
  exact hf

theorem getBytes_agrees (hI : Records image I) {n off : Nat} (h : off + n < 2 ^ 64) :
    Agrees Touched.kernel I (getBytes n image off) (ofExcept (slice image off n)) := by
  unfold getBytes slice
  refine .checked h ?_
  by_cases hfits : off + n ≤ image.length
  · have hlen : ((image.drop off).take (off + n - off)).length = n := by
      rw [List.length_take, List.length_drop]
      omega
    rw [if_pos ⟨Nat.le_add_right off n, hfits⟩, if_pos hfits]
    refine recordRead_silent hI (by omega) (.require hlen ?_)
    rw [Nat.add_sub_cancel_left]
    exact .pure _
  · rw [if_neg fun hc => hfits hc.2, if_neg hfits]
    exact .fail _

/-- A number read from the image. -/
theorem read_agrees (hI : Records image I) {n off : Nat} (h : off + n < 2 ^ 64)
    (f : List UInt8 → α) :
    Agrees Touched.kernel I (getBytes n image off >>= fun bytes => pure (f bytes))
      (ofExcept ((slice image off n).map f)) := by
  have hmap : (ofExcept ((slice image off n).map f) : Prog Kernel α) =
      ofExcept (slice image off n) >>= fun bytes => pure (f bytes) := by
    cases slice image off n <;> rfl
  rw [hmap]
  exact .seq (getBytes_agrees hI h) fun _ => .pure _

theorem read_bind (hI : Records image I) {n off : Nat} (h : off + n < 2 ^ 64)
    {r : List UInt8 → α} {f : α → Strict Touched β} {g : α → Prog Kernel β}
    (hf : ∀ a, Agrees Touched.kernel I (f a) (g a)) :
    Agrees Touched.kernel I ((getBytes n image off >>= fun bytes => pure (r bytes)) >>= f)
      (ofExcept ((slice image off n).map r) >>= g) :=
  .seq (read_agrees hI h r) hf

theorem headerFields_agrees (hI : Records image I) :
    Agrees Touched.kernel I (headerFields image) (ofExcept (do
      let eType ← Image.readU16 image 16
      if eType ≠ ET_EXEC ∧ eType ≠ 3 then throw "court image is not ET_EXEC/ET_DYN"
      else do
        let eMachine ← Image.readU16 image 18
        if eMachine ≠ EM_X86_64 then throw "court image is not x86_64"
        else do
          let entry ← Image.readU64 image 24
          let phoff ← Image.readU64 image 32
          let phentsize ← Image.readU16 image 54
          let phnum ← Image.readU16 image 56
          if phentsize.toNat ≠ PHDR_SIZE then throw "court image phentsize"
          else if phnum.toNat = 0 ∨ phnum.toNat > MAX_PHDRS then throw "court image phnum"
          else if phnum.toNat * phentsize.toNat ≥ 2 ^ 64 then throw "court image phdr overflow"
          else if phoff.toNat + phnum.toNat * phentsize.toNat ≥ 2 ^ 64 then
            throw "court image phdr overflow"
          else if phoff.toNat + phnum.toNat * phentsize.toNat > image.length then
            throw "court image phdrs truncated"
          else pure ⟨entry, phoff.toNat, phnum.toNat⟩)) := by
  unfold headerFields
  simp only [ofExcept_bind, ofExcept_ite, ofExcept_throw, ofExcept_pure]
  refine read_bind hI (by decide) fun eType => .ite (fun _ => .fail _) fun _ => ?_
  refine read_bind hI (by decide) fun eMachine => .ite (fun _ => .fail _) fun _ => ?_
  refine read_bind hI (by decide) fun entry => read_bind hI (by decide) fun phoff => ?_
  refine read_bind hI (by decide) fun phentsize => read_bind hI (by decide) fun phnum => ?_
  refine .ite (fun _ => .fail _) fun _ => .ite (fun _ => .fail _) fun _ => ?_
  refine .ite (fun _ => .fail _) fun _ => .ite (fun _ => .fail _) fun _ => ?_
  exact .ite (fun _ => .fail _) fun _ => .pure _

theorem header_agrees (hI : Records image I) :
    Agrees Touched.kernel I (header image) (ofExcept (Image.header image)) := by
  unfold header Image.header
  rw [ofExcept_ite, ofExcept_throw]
  refine .ite (fun _ => .fail _) fun hlen => ?_
  unfold EHSIZE at hlen
  refine sliceOf_silent hI (by decide) (by omega) ?_
  rw [List.drop_zero, ofExcept_ite, ofExcept_throw]
  refine .ite (fun _ => .fail _) fun _ => ?_
  rw [ofExcept_ite, ofExcept_throw, ofExcept_ite, ofExcept_throw]
  -- the two tests that look at single bytes
  have hclass : ∀ {f : Bool → Strict Touched Header} {y : Prog Kernel Header},
      Agrees Touched.kernel I (f (decide (byteAt image 4 ≠ ELFCLASS64 ∨
        byteAt image 5 ≠ ELFDATA2LSB))) y →
      Agrees Touched.kernel I (notElf64Le image >>= f) y := by
    intro f y hf
    unfold notElf64Le
    rw [bind_assoc]
    refine index_silent hI (by omega) ?_
    by_cases h4 : byteAt image 4 ≠ ELFCLASS64
    · rw [decide_eq_true (Or.inl h4)] at hf
      rw [if_pos h4, pure_bind]
      exact hf
    · rw [if_neg h4, bind_assoc]
      refine index_silent hI (by omega) ?_
      rw [pure_bind]
      simp only [h4, false_or] at hf
      exact hf
  have habi : ∀ {f : Bool → Strict Touched Header} {y : Prog Kernel Header},
      Agrees Touched.kernel I (f (decide (byteAt image 7 ≠ ELFOSABI_NONE ∧ byteAt image 7 ≠ 3))) y →
      Agrees Touched.kernel I (badAbi image >>= f) y := by
    intro f y hf
    unfold badAbi
    rw [bind_assoc]
    refine index_silent hI (by omega) ?_
    by_cases h7 : byteAt image 7 ≠ ELFOSABI_NONE
    · rw [if_pos h7, bind_assoc]
      refine index_silent hI (by omega) ?_
      rw [pure_bind]
      rw [decide_eq_decide.2 (and_iff_right h7)] at hf
      exact hf
    · rw [decide_eq_false fun hc => h7 hc.1] at hf
      rw [if_neg h7, pure_bind]
      exact hf
  refine hclass ?_
  simp only [decide_eq_true_eq]
  refine .ite (fun _ => .fail _) fun _ => habi ?_
  simp only [decide_eq_true_eq]
  exact .ite (fun _ => .fail _) fun _ => headerFields_agrees hI

/-! ## Segments -/

theorem segmentAt_agrees (hI : Records image I) {off : Nat} (h : off + PHDR_SIZE < 2 ^ 64) :
    Agrees Touched.kernel I (segmentAt image off) (ofExcept (Image.segmentAt image off)) := by
  unfold PHDR_SIZE at h
  unfold segmentAt Image.segmentAt
  simp only [ofExcept_bind, ofExcept_ite, ofExcept_pure]
  refine read_bind hI (by omega) fun pType => .ite (fun _ => .pure _) fun _ => ?_
  refine .checked (by omega) (read_bind hI (by omega) fun pOffset => ?_)
  refine .checked (by omega) (read_bind hI (by omega) fun pVaddr => ?_)
  refine .checked (by omega) (read_bind hI (by omega) fun pFilesz => ?_)
  refine .checked (by omega) (read_bind hI (by omega) fun pMemsz => ?_)
  exact .ite (fun _ => .pure _) fun _ => .pure _

/-- The loop of `map_range` stays in range if the ends of its two ranges do. -/
theorem advances_eq_true : ∀ (fuel : Nat) {virt phys len : UInt64},
    virt.toNat + len.toNat < 2 ^ 64 → phys.toNat + len.toNat < 2 ^ 64 →
    advances fuel virt phys len = true := by
  intro fuel
  induction fuel with
  | zero => intros; rfl
  | succ fuel ih =>
    intro virt phys len hvirt hphys
    -- a turn by `step` bytes that takes `len` to `len - step`
    have turn : ∀ step : UInt64, step ≤ len →
        (decide (virt.toNat + step.toNat < 2 ^ 64 ∧ phys.toNat + step.toNat < 2 ^ 64 ∧ step ≤ len) &&
          advances fuel (virt + step) (phys + step) (len - step)) = true := by
      intro step hle
      have hlen := UInt64.toNat_sub_of_le _ _ hle
      have hle' := UInt64.le_iff_toNat_le.1 hle
      rw [Bool.and_eq_true, decide_eq_true_eq]
      refine ⟨⟨by omega, by omega, hle⟩, ih ?_ ?_⟩
      · rw [UInt64.toNat_add, hlen]
        omega
      · rw [UInt64.toNat_add, hlen]
        omega
    rw [advances]
    split
    · rename_i hpage
      dsimp only
      split
      · rename_i hhuge
        exact turn HUGE_2M hhuge.1
      · exact turn PAGE hpage
    · rfl

/-- Mapping changes memory on table pages only. -/
theorem map_tied {place : Nat → Option Place} {k : Kernel} {writes : List Write}
    (h : Tied w place k writes) {space : AddressSpace}
    (hroot : w.place space.pml4Phys.toNat = some (.pml4 space.pml4Phys.toNat))
    (virt phys len : UInt64) {run : Run} (hdata : Data (k.world place) run) :
    wp (space.map virt phys len)
      (fun _ k' => ∃ place', Tied w place' k' writes ∧ Data (k'.world place') run)
      (fun _ k' => ∃ place', Tied w place' k' writes ∧ Data (k'.world place') run) k := by
  have hkeep : ∀ k' place', Step (k.world place) (k'.world place') →
      Quiet (k.world place) (k'.world place') →
      ∃ place', Tied w place' k' writes ∧ Data (k'.world place') run := by
    intro k' place' hstep hquiet
    refine ⟨place', ⟨h.step.trans hstep, fun a ha hout => ?_⟩, hdata.step hstep⟩
    exact (hquiet a hout).trans (h.frame a ha (hstep.outside hout))
  refine wp_mono (AddressSpace.map_spec h.step.tables (h.step.kept _ _ hroot) virt phys len) ?_ ?_
  · rintro ⟨⟩ k' ⟨-, place', hm, hquiet, -⟩
    exact hkeep k' place' hm.moved.step hquiet
  · rintro e k' ⟨place', hm, hquiet⟩
    exact hkeep k' place' hm.moved.step hquiet

theorem map_agrees (space : AddressSpace) {virt phys len : UInt64}
    (hvirt : virt.toNat + len.toNat < 2 ^ 64) (hphys : phys.toNat + len.toNat < 2 ^ 64) :
    Agrees Touched.kernel (Holding image w space.pml4Phys.toNat grant) (map space virt phys len)
      (space.map virt phys len) := by
  have hwhole := BumpAllocator.toNat_and_not_page len
  unfold map
  refine .require (advances_eq_true _ (by omega) (by omega)) fun t ht => ?_
  unfold onKernel
  rw [safe_lift, wp_zoom]
  have htied := wp_imp (x := space.map virt phys len) (s := t.kernel)
    (P := Sound w space.pml4Phys.toNat) fun hw => by
      obtain ⟨place, htied, hnew, hdata⟩ := ht.tied hw
      exact map_tied htied hw.2 virt phys len hdata
  have hholding : ∀ k', (Sound w space.pml4Phys.toNat → ∃ place', Tied w place' k' t.writes ∧
      Data (k'.world place') ⟨grant.seg.first, grant.phys.toNat, grant.pages.toNat⟩) →
      Holding image w space.pml4Phys.toNat grant { t with kernel := k' } := by
    refine fun k' h => ⟨⟨ht.confined.reads, ht.confined.grants, ht.confined.writes⟩, ht.recorded,
      fun hw => ?_⟩
    obtain ⟨-, -, hnew, -⟩ := ht.tied hw
    obtain ⟨place', htied', hdata'⟩ := h hw
    exact ⟨place', htied', hnew, hdata'⟩
  exact wp_mono (wp_and htied (wp_self _ _)) (fun _ k' h => ⟨hholding k' h.1, h.2⟩)
    fun _ k' h => ⟨hholding k' h.1, h.2⟩

/-- A write into the pages of the grant, on record. -/
theorem write_agrees {start count : Nat} (h1 : grant.phys.toNat ≤ start)
    (h2 : start + count ≤ grant.phys.toNat + grant.pages.toNat * 4096) {f : Memory → Memory}
    (hf : ∀ m a, a < start ∨ start + count ≤ a → f m a = m a) :
    Agrees Touched.kernel (Holding image w r grant)
      (recordWrite ⟨grant, start, count⟩ >>= fun _ =>
        onKernel (modify fun k => { k with mem := f k.mem }))
      (modify fun k => { k with mem := f k.mem }) := by
  intro t ht
  refine safe_bind ?_
  unfold recordWrite onKernel
  rw [safe_lift, wp_modify, safe_lift, wp_zoom, wp_modify]
  refine ⟨⟨⟨ht.confined.reads, ht.confined.grants, fun write hwrite => ?_⟩, ht.recorded,
    fun hw => ?_⟩, rfl⟩
  · rcases List.mem_append.1 hwrite with hold | hnew
    · exact ht.confined.writes write hold
    · obtain rfl := List.mem_singleton.1 hnew
      exact ⟨ht.recorded, h1, h2⟩
  · obtain ⟨place, htied, hnew, hdata⟩ := ht.tied hw
    refine ⟨place, ⟨?_, fun a ha hout => ?_⟩, hnew, hdata.aligned, hdata.granted, hdata.free⟩
    · refine hdata.write htied.step hnew fun a ha => hf _ a ?_
      simp only at ha
      omega
    · have hmine := ha _ (List.mem_append_right _ List.mem_cons_self)
      exact (hf _ a hmine).trans
        (htied.frame a (fun write hwrite => ha write (List.mem_append_left _ hwrite)) hout)

theorem writeBytes_agrees (value : UInt8) {count : UInt64}
    (h : count.toNat ≤ grant.pages.toNat * 4096) :
    Agrees Touched.kernel (Holding image w r grant) (writeBytes grant value count)
      (Kernel.writeBytes grant.phys value count) :=
  write_agrees (f := fun m => m.fill grant.phys.toNat count.toNat value) (Nat.le_refl _)
    (Nat.add_le_add_left h _) fun _ _ ha => Memory.fill_of_disjoint ha

theorem copyTo_agrees {offset count : Nat} {bytes : List UInt8} (hlen : bytes.length = count)
    (h : offset + count ≤ grant.pages.toNat * 4096) :
    Agrees Touched.kernel (Holding image w r grant) (copyTo grant offset bytes count)
      (Kernel.copy (grant.phys.toNat + offset) bytes) := by
  unfold copyTo
  refine .require hlen (write_agrees (f := fun m => m.write (grant.phys.toNat + offset) bytes)
    (Nat.le_add_right _ _) (by rw [Nat.add_assoc]; exact Nat.add_le_add_left h _) fun m a ha => ?_)
  rcases ha with ha | ha
  · exact Memory.write_of_lt ha
  · exact Memory.write_of_ge (by omega)

theorem copyFile_agrees {seg : Segment}
    (hfits : seg.pageOff.toNat + seg.filesz.toNat ≤ grant.pages.toNat * 4096) :
    Agrees Touched.kernel (Holding image w r grant) (copyFile image seg grant)
      (Image.copyFile image seg grant.phys) := by
  unfold copyFile Image.copyFile
  refine .ite (fun _ => ?_) fun _ => .pure _
  dsimp only
  refine .ite (fun _ => .fail _) fun _ => .ite (fun _ => .fail _) fun hend => ?_
  refine sliceOf_silent Holding.records (Nat.le_add_right _ _) (Nat.le_of_not_lt hend) ?_
  rw [Nat.add_sub_cancel_left]
  have hlen : ((image.drop seg.offset.toNat).take seg.filesz.toNat).length = seg.filesz.toNat := by
    rw [List.length_take, List.length_drop]
    omega
  exact copyTo_agrees hlen hfits

/-- The allocator grants pages below its end, and leaves memory to its caller. -/
theorem allocPages_bound {pages : UInt64} {message : String} (k : Kernel) :
    wp (Kernel.allocPages pages message)
      (fun phys k' => phys.toNat + pages.toNat * 4096 < 2 ^ 64 ∧ k'.mem = k.mem) (fun _ _ => True)
      k := by
  unfold Kernel.allocPages
  rw [wp_bind, wp_get]
  cases halloc : k.bump.allocPages pages with
  | none => exact (wp_throw _).2 trivial
  | some grant =>
    obtain ⟨phys, bump⟩ := grant
    rw [wp_bind, wp_modify, wp_pure]
    refine ⟨?_, rfl⟩
    unfold BumpAllocator.allocPages at halloc
    split at halloc
    · cases halloc
    · rename_i size hsize
      rw [checkedMul_eq_some, BumpAllocator.toNat_PAGE] at hsize
      dsimp only at halloc
      split at halloc
      · cases halloc
      · rename_i next hnext
        rw [checkedAdd_eq_some] at hnext
        have hlt := next.toNat_lt
        split at halloc
        · cases halloc
        · obtain ⟨rfl, -⟩ := Prod.mk.inj (Option.some.inj halloc)
          omega

/-- Pages for a segment. -/
theorem allocPages_holding (h : Watched image w r t) {seg : Segment} (hseg : seg ∈ segments image)
    {pages : UInt64} (hpages : pages.toNat = seg.count) (message : String) :
    wp (Kernel.allocPages pages message)
      (fun phys k => Holding image w r ⟨seg, phys, pages⟩
        { t with kernel := k, grants := t.grants ++ [⟨seg, phys, pages⟩] })
      (fun _ k => Watched image w r { t with kernel := k }) t.kernel := by
  have hspec := wp_imp (x := Kernel.allocPages pages message) (s := t.kernel) (P := Sound w r)
    (Q := fun phys k => ∃ place, Tied w place k t.writes ∧ w.bump.cursor.toNat ≤ phys.toNat ∧
      Data (k.world place) ⟨seg.first, phys.toNat, pages.toNat⟩)
    (E := fun _ k => ∃ place, Tied w place k t.writes) fun hw => by
      obtain ⟨place, htied⟩ := h.tied hw
      refine wp_mono (wp_and (Kernel.allocPages_spec htied.step.tables pages message)
        (allocPages_bound t.kernel)) ?_ ?_
      · rintro phys k ⟨⟨hphys, hcursor, hgrant⟩, -, hmem⟩
        have hm := hgrant r (fun _ => False) k.mem fun _ _ => rfl
        refine ⟨place, ⟨htied.step.trans hm.moved.step, fun a ha hout => ?_⟩, ?_,
          .ofGrant htied.step.tables hphys hcursor⟩
        · rw [hmem]
          exact htied.frame a ha hout
        · rw [hphys]
          exact htied.step.cursor
      · rintro e k ⟨rfl, -⟩
        exact ⟨place, htied⟩
  refine wp_mono hspec (fun phys k hk => ⟨⟨h.confined.reads, fun grant hgrant => ?_,
    fun write hwrite => ?_⟩, List.mem_append_right _ List.mem_cons_self, hk⟩)
    fun e k hk => ⟨⟨h.confined.reads, h.confined.grants, h.confined.writes⟩, hk⟩
  · rcases List.mem_append.1 hgrant with hold | hnew
    · exact h.confined.grants grant hold
    · obtain rfl := List.mem_singleton.1 hnew
      exact ⟨hseg, hpages⟩
  · obtain ⟨hin, hrange⟩ := h.confined.writes write hwrite
    exact ⟨List.mem_append_left _ hin, hrange⟩

theorem allocPages_bind {seg : Segment} (hseg : seg ∈ segments image) {pages : UInt64}
    (hpages : pages.toNat = seg.count) {f : Grant → Strict Touched β} {g : UInt64 → Prog Kernel β}
    (hf : ∀ phys : UInt64, phys.toNat + pages.toNat * 4096 < 2 ^ 64 →
      Agrees Touched.kernel (Holding image w r ⟨seg, phys, pages⟩) (f ⟨seg, phys, pages⟩) (g phys)) :
    Agrees Touched.kernel (Watched image w r) (allocPages seg pages >>= f)
      (Kernel.allocPages pages "court image pages" >>= g) := by
  intro t ht
  unfold allocPages
  rw [bind_assoc]
  refine safe_bind ?_
  unfold onKernel
  rw [safe_lift, wp_zoom]
  refine wp_mono (wp_and (allocPages_holding ht hseg hpages _)
    (wp_and (allocPages_bound t.kernel) (wp_self _ t.kernel))) ?_ ?_
  · rintro phys k ⟨hholding, ⟨hbound, -⟩, hrun⟩
    rw [bind_assoc]
    refine safe_bind ?_
    unfold recordGrant
    rw [safe_lift, wp_modify, pure_bind]
    refine safe_mono (hf phys hbound _ hholding) (fun b t' h => ?_) fun e t' h => ?_
    · exact ⟨h.1.watched, (bind_eq_of_ok hrun).trans h.2⟩
    · exact ⟨h.1.watched, (bind_eq_of_ok hrun).trans h.2⟩
  · rintro e k ⟨hwatched, -, hrun⟩
    refine ⟨hwatched, ?_⟩
    show EStateM.bind _ g t.kernel = _
    rw [EStateM.bind, hrun]

theorem loadSegment_agrees (space : AddressSpace) {seg : Segment} (hseg : seg ∈ segments image) :
    Agrees Touched.kernel (Watched image w space.pml4Phys.toNat) (loadSegment space image seg)
      (Image.loadSegment space image seg) := by
  unfold loadSegment Image.loadSegment
  refine .ite (fun _ => .fail _) fun hvaddr => .ite (fun _ => .fail _) fun hmemsz => ?_
  refine .ite (fun _ => .fail _) fun hfilesz => ?_
  rw [ge_iff_le, UInt64.le_iff_toNat_le, show LOWER_HALF_END.toNat = 2 ^ 47 from rfl] at hvaddr
  rw [gt_iff_lt, UInt64.lt_iff_toNat_lt, show MAX_SEGMENT.toNat = 2 ^ 17 from rfl] at hmemsz
  rw [gt_iff_lt, UInt64.lt_iff_toNat_lt] at hfilesz
  have hoff := seg.toNat_pageOff
  have hmap := seg.toNat_mapVa
  have hle : seg.pageOff ≤ seg.vaddr := by
    rw [UInt64.le_iff_toNat_le]
    omega
  refine .checked hle ?_
  cases hlen : checkedAdd seg.pageOff seg.memsz with
  | none => exact .fail _
  | some mapLen =>
    obtain ⟨hpages, hsize⟩ := Segment.toNat_pages (by omega) hlen
    have hcount : seg.vaddr.toNat % 4096 + seg.memsz.toNat ≤ seg.count * 4096 ∧ seg.count ≤ 33 := by
      unfold Segment.count
      omega
    dsimp only
    generalize divCeil mapLen PAGE = pages at hpages hsize ⊢
    have hmul : pages.toNat * PAGE.toNat < 2 ^ 64 := by
      rw [hpages, BumpAllocator.toNat_PAGE]
      omega
    have hva : (seg.vaddr - seg.pageOff).toNat + (pages * PAGE).toNat < 2 ^ 64 := by
      rw [show seg.vaddr - seg.pageOff = seg.mapVa from rfl]
      omega
    refine allocPages_bind hseg hpages fun phys hphys => .checked hmul ?_
    refine .seq (writeBytes_agrees 0 (by simp only; omega)) fun _ => ?_
    refine .seq (copyFile_agrees (by simp only; omega)) fun _ => ?_
    exact .checked hmul (map_agrees space hva (by simp only; omega))

theorem entryIn_agrees {entry : UInt64} {seg : Segment}
    (h : seg.vaddr.toNat + seg.memsz.toNat < 2 ^ 64) {f : Bool → Strict Touched β}
    {y : Prog Kernel β} (hf : Agrees Touched.kernel I
      (f (decide (seg.vaddr ≤ entry) && decide (entry < seg.vaddr + seg.memsz))) y) :
    Agrees Touched.kernel I (entryIn entry seg >>= f) y := by
  unfold entryIn
  by_cases hle : entry ≥ seg.vaddr
  · rw [if_pos hle, bind_assoc]
    refine .checked h ?_
    rw [pure_bind]
    rw [decide_eq_true (show seg.vaddr ≤ entry from hle), Bool.true_and] at hf
    exact hf
  · rw [if_neg hle, pure_bind]
    rw [decide_eq_false (show ¬ seg.vaddr ≤ entry from hle), Bool.false_and] at hf
    exact hf

/-- A segment that was loaded ends below `2^64`. -/
theorem loadSegment_bound (space : AddressSpace) (seg : Segment) (k : Kernel) :
    wp (Image.loadSegment space image seg)
      (fun _ _ => seg.vaddr.toNat + seg.memsz.toNat < 2 ^ 64) (fun _ _ => True) k := by
  unfold Image.loadSegment
  rw [wp_ite]
  refine ⟨fun _ => (wp_throw _).2 trivial, fun hvaddr => ?_⟩
  rw [wp_ite]
  refine ⟨fun _ => (wp_throw _).2 trivial, fun hmemsz => ?_⟩
  rw [ge_iff_le, UInt64.le_iff_toNat_le, show LOWER_HALF_END.toNat = 2 ^ 47 from rfl] at hvaddr
  rw [gt_iff_lt, UInt64.lt_iff_toNat_lt, show MAX_SEGMENT.toNat = 2 ^ 17 from rfl] at hmemsz
  exact wp_mono (wp_true _ k) (fun _ _ _ => by omega) fun _ _ _ => trivial

/-- A turn of the loop reads a program header. -/
theorem loadSegments_cons (space : AddressSpace) (entry : UInt64) (off : Nat) (offs : List Nat)
    (mapped : Bool) :
    Image.loadSegments space image entry (off :: offs) mapped =
      (ofExcept (Image.segmentAt image off) >>= fun found =>
        match found with
        | none => Image.loadSegments space image entry offs mapped
        | some seg => Image.loadSegment space image seg >>= fun _ =>
          Image.loadSegments space image entry offs
            (mapped || (seg.vaddr ≤ entry && entry < seg.vaddr + seg.memsz))) := by
  rw [Image.loadSegments]
  cases Image.segmentAt image off with
  | error e => rfl
  | ok found => cases found <;> rfl

theorem loadSegments_agrees (space : AddressSpace) (entry : UInt64) {phoff : Nat} :
    ∀ (indices : List Nat) (mapped : Bool),
      (∀ index ∈ indices, phoff + (index + 1) * PHDR_SIZE < 2 ^ 64) →
      (∀ index ∈ indices, ∀ seg, Image.segmentAt image (phoff + index * PHDR_SIZE) = .ok (some seg) →
        seg ∈ segments image) →
      Agrees Touched.kernel (Watched image w space.pml4Phys.toNat)
        (loadSegments space image entry phoff indices mapped)
        (Image.loadSegments space image entry (indices.map fun index => phoff + index * PHDR_SIZE)
          mapped) := by
  intro indices
  induction indices with
  | nil => exact fun mapped _ _ => .pure mapped
  | cons index indices ih =>
    intro mapped hrange hsegs
    have hindex := hrange index List.mem_cons_self
    rw [Nat.add_mul, Nat.one_mul] at hindex
    have hrest := fun i hi => hrange i (List.mem_cons_of_mem _ hi)
    have hrest' := fun i hi => hsegs i (List.mem_cons_of_mem _ hi)
    rw [List.map_cons, loadSegments_cons]
    unfold loadSegments
    refine .checked (by omega) (.checked (by omega) ?_)
    refine .bind (P := fun found => Image.segmentAt image (phoff + index * PHDR_SIZE) = .ok found)
      (segmentAt_agrees Watched.records (by omega)) (fun k => ?_) fun found hfound => ?_
    · rw [wp_ofExcept]
      exact ⟨fun _ hok => hok, fun _ _ => trivial⟩
    cases found with
    | none => exact ih mapped hrest hrest'
    | some seg =>
      have hseg := hsegs index List.mem_cons_self seg hfound
      refine .bind (loadSegment_agrees space hseg) (loadSegment_bound space seg) fun _ hbound => ?_
      exact entryIn_agrees hbound (ih _ hrest hrest')

/-- **The watched loader** does what the loader does, never panics, and is confined and tied. -/
theorem load_agrees (space : AddressSpace) (image : List UInt8) (w : World) :
    Agrees Touched.kernel (Watched image w space.pml4Phys.toNat) (load space image)
      (Image.load space image) := by
  have hhead : Image.load space image = (ofExcept (Image.header image) >>= fun h =>
      Image.loadSegments space image h.entry h.offsets false >>= fun mappedEntry =>
        if mappedEntry then pure h.entry else throw "court image entry is not in a PT_LOAD") := by
    unfold Image.load
    cases Image.header image <;> rfl
  rw [hhead]
  refine .bind (P := fun h => Image.header image = .ok h) (header_agrees Watched.records)
    (fun k => ?_) fun h hok => ?_
  · rw [wp_ofExcept]
    exact ⟨fun h hok => hok, fun _ _ => trivial⟩
  · have hvalid := header_ok hok
    refine .seq (loadSegments_agrees space h.entry _ false (fun index hindex => ?_)
      fun index hindex seg hseg => ?_) fun mapped => ?_
    · have hmul : (index + 1) * PHDR_SIZE ≤ h.phnum * PHDR_SIZE :=
        Nat.mul_le_mul_right _ (List.mem_range.1 hindex)
      have hrange := hvalid.range
      omega
    · rw [segments, hok]
      refine List.mem_filterMap.2 ⟨_, List.mem_map_of_mem hindex, ?_⟩
      rw [hseg]
    · exact .ite (fun _ => .pure _) fun _ => .fail _

end Careful

/-- **`load` is total and confined**, for every list of bytes: the watched loader, which would panic
where the source would, returns what `load` returns; what it has read lies in the image, pages are
granted for segments, as many as a segment needs, and what it has written lies in the pages granted for
a segment; outside of what was written and of the tables memory is as it was; and once the table of
program headers is known to lie in the image every program header can be read. -/
theorem load_total_and_confined (space : AddressSpace) (image : List UInt8) (k : Kernel) :
    let run := (Careful.load space image).run ⟨k, [], [], []⟩
    resultOf run = (resultOf (Image.load space image k)).map some ∧
    (stateOf run).kernel = stateOf (Image.load space image k) ∧
    (∀ read ∈ (stateOf run).reads, read.1 + read.2 ≤ image.length) ∧
    (∀ grant ∈ (stateOf run).grants,
      grant.seg ∈ segments image ∧ grant.pages.toNat = grant.seg.count) ∧
    (∀ w ∈ (stateOf run).writes, w.grant ∈ (stateOf run).grants ∧ w.grant.phys.toNat ≤ w.start ∧
      w.start + w.count ≤ w.grant.phys.toNat + w.grant.pages.toNat * 4096) ∧
    (∀ place, Tables (k.world place) →
      place space.pml4Phys.toNat = some (.pml4 space.pml4Phys.toNat) →
      ∃ place', Step (k.world place) ((stateOf run).kernel.world place') ∧
        ∀ a, (∀ w ∈ (stateOf run).writes, a < w.start ∨ w.start + w.count ≤ a) →
          ((stateOf run).kernel.world place').Outside a → (stateOf run).kernel.mem a = k.mem a) ∧
    ∀ h, Image.header image = .ok h → ∀ off ∈ h.offsets,
      ∃ found, Image.segmentAt image off = .ok found := by
  intro run
  have hend : ∀ place, resultOf run = (resultOf (Image.load space image k)).map some ∧
      (stateOf run).kernel = stateOf (Image.load space image k) ∧
      Careful.Watched image (k.world place) space.pml4Phys.toNat (stateOf run) := by
    intro place
    have hsafe := Careful.load_agrees space image (k.world place) ⟨k, [], [], []⟩
      ⟨⟨nofun, nofun, nofun⟩, fun hw => ⟨place, .refl hw.1, fun _ _ _ => rfl⟩⟩
    cases hrun : (Careful.load space image).run ⟨k, [], [], []⟩ with
    | ok found t =>
      obtain ⟨entry, rfl, hwatched, hload⟩ := wp_ok hsafe hrun
      rw [show run = _ from hrun, hload]
      exact ⟨rfl, rfl, hwatched⟩
    | error e t =>
      obtain ⟨hwatched, hload⟩ := wp_error hsafe hrun
      rw [show run = _ from hrun, hload]
      exact ⟨rfl, rfl, hwatched⟩
  obtain ⟨hresult, hkernel, ⟨hreads, hgrants, hwrites⟩, -⟩ := hend fun _ => none
  refine ⟨hresult, hkernel, hreads, hgrants, hwrites, fun place htables hroot => ?_,
    fun h hok off hoff => ?_⟩
  · obtain ⟨place', htied⟩ := (hend place).2.2.tied ⟨htables, hroot⟩
    exact ⟨place', htied.step, htied.frame⟩
  exact segmentAt_ok (Nat.le_trans (Header.offset_le hoff) (header_ok hok).table)

end Image

end RootCourt

end CourtKernel
