import CourtKernel.Lib.Checks
import CourtKernel.RootCourt.Sharing

/-!
# The memory image of a loaded ELF file

What a courtlet finds in its memory after `load` has returned, for every list of bytes that `load`
accepts.

* `header_ok` — what the checks on the ELF header establish.
* `loadSegments_entry` — the entry point lies in a segment.
* `Segment.Holds.peek` — reading through the tables gives the byte of the segment.
* `Proper` — the states of the kernel that the result is about: well-formed tables, and a space that
  has a PML4 among them.  `clone_proper` — a fresh clone is such, and its lower half is empty.
* `load_memory_image` — **the main result.**
-/

namespace CourtKernel

namespace RootCourt

namespace Image

variable {image : List UInt8}

/-! ## The headers -/

/-- What the checks on the ELF header establish. -/
structure Header.Valid (image : List UInt8) (h : Header) : Prop where
  entry : readU64 image 24 = .ok h.entry
  phnum : h.phnum ≤ MAX_PHDRS
  table : h.phoff + h.phnum * PHDR_SIZE ≤ image.length
  range : h.phoff + h.phnum * PHDR_SIZE < 2 ^ 64

theorem header_ok {h : Header} (hok : header image = .ok h) : h.Valid image := by
  unfold header at hok
  simp only [ite_throw_eq_ok, bind_eq_ok, pure_eq_ok] at hok
  obtain ⟨-, -, -, -, eType, -, -, eMachine, -, -, entry, hentry, phoff, -, phentsize, -, phnum, -,
    hsize, hnum, -, hrange, htable, rfl⟩ := hok
  rw [not_not] at hsize
  rw [hsize] at hrange htable
  exact ⟨hentry, Nat.le_of_not_lt fun hlt => hnum (Or.inr hlt), Nat.le_of_not_lt htable,
    Nat.lt_of_not_le hrange⟩

/-- The bytes of `readU64` and its relatives, where they are in range. -/
theorem slice_eq_ok {off n : Nat} (h : off + n ≤ image.length) :
    slice image off n = .ok ((image.drop off).take n) := if_pos h

/-- Every program header can be read. -/
theorem segmentAt_ok {off : Nat} (h : off + PHDR_SIZE ≤ image.length) :
    ∃ found, segmentAt image off = .ok found := by
  have hread : ∀ d n, d + n ≤ 56 → slice image (off + d) n = .ok ((image.drop (off + d)).take n) :=
    fun d n hd => slice_eq_ok (by unfold PHDR_SIZE at h; omega)
  have h₀ := hread 0 4 (by decide)
  rw [Nat.add_zero] at h₀
  unfold segmentAt readU32 readU64
  rw [h₀, hread 8 8 (by decide), hread 16 8 (by decide), hread 32 8 (by decide),
    hread 40 8 (by decide)]
  simp only [Except.map, bind, Except.bind, pure, Except.pure]
  split
  · exact ⟨_, rfl⟩
  · split
    · exact ⟨_, rfl⟩
    · exact ⟨_, rfl⟩

/-- The offsets of the loop lie in the table of program headers. -/
theorem Header.offset_le {h : Header} {off : Nat} (hoff : off ∈ h.offsets) :
    off + PHDR_SIZE ≤ h.phoff + h.phnum * PHDR_SIZE := by
  obtain ⟨index, hindex, rfl⟩ := List.mem_map.1 hoff
  rw [List.mem_range] at hindex
  have hmul : (index + 1) * PHDR_SIZE ≤ h.phnum * PHDR_SIZE := Nat.mul_le_mul_right _ hindex
  rw [Nat.add_mul, Nat.one_mul] at hmul
  omega

/-! ## The entry point -/

variable {space : AddressSpace} {k : Kernel}

/-- The accumulator of the loop: the entry point lies in one of the segments. -/
theorem loadSegments_entry (entry : UInt64) : ∀ (offs : List Nat) {k : Kernel} (mapped : Bool),
    wp (loadSegments space image entry offs mapped)
      (fun found _ => found = true → mapped = true ∨ ∃ seg ∈ segmentsAt image offs,
        seg.vaddr ≤ entry ∧ entry < seg.vaddr + seg.memsz) (fun _ _ => True) k := by
  intro offs
  induction offs with
  | nil =>
    intro k mapped
    rw [loadSegments, wp_pure]
    exact fun h => Or.inl h
  | cons off offs ih =>
    intro k mapped
    unfold loadSegments segmentsAt
    rw [List.filterMap_cons]
    cases segmentAt image off with
    | error e => exact (wp_throw _).2 trivial
    | ok found =>
      cases found with
      | none => exact ih mapped
      | some seg =>
        dsimp only
        rw [wp_bind]
        refine wp_mono (wp_true _ k) (fun _ k₁ _ => ?_) fun _ _ _ => trivial
        refine wp_mono (ih _) (fun found k₂ h hfound => ?_) fun _ _ _ => trivial
        rcases h hfound with hmapped | ⟨seg', hseg', hin⟩
        · rw [Bool.or_eq_true, Bool.and_eq_true, decide_eq_true_eq, decide_eq_true_eq] at hmapped
          exact hmapped.imp_right fun hin => ⟨seg, List.mem_cons_self, hin⟩
        · exact Or.inr ⟨seg', List.mem_cons_of_mem _ hseg', hin⟩

/-- **What `load` returns** is the entry point of the header, and it lies in a segment. -/
theorem load_entry :
    wp (load space image)
      (fun entry _ => readU64 image 24 = .ok entry ∧ ∃ seg ∈ segments image,
        seg.vaddr ≤ entry ∧ entry < seg.vaddr + seg.memsz) (fun _ _ => True) k := by
  unfold load
  cases hheader : header image with
  | error e => exact (wp_throw _).2 trivial
  | ok h =>
    dsimp only
    rw [wp_bind, segments, hheader]
    refine wp_mono (loadSegments_entry h.entry h.offsets false) ?_ fun _ _ _ => trivial
    intro found k' hfound
    rw [wp_ite]
    refine ⟨fun htrue => (wp_pure _).2 ⟨(header_ok hheader).entry, ?_⟩,
      fun _ => (wp_throw _).2 trivial⟩
    exact (hfound htrue).resolve_left (by decide)

end Image

/-! ## Reading through the tables -/

/-- The byte at a virtual address, as seen through the tables of a PML4. -/
def peek (m : Memory) (pml4Phys va : UInt64) : Option UInt8 := (translate m pml4Phys va).map m

namespace Image

variable {image : List UInt8} {w : World} {frame : Nat} {seg : Segment} {pml4 va : UInt64}

/-- The pages of a segment. -/
def Segment.Has (seg : Segment) (v : Nat) : Prop := seg.first ≤ v ∧ v < seg.first + seg.count

theorem Segment.Valid.bounds (h : seg.Valid image) :
    seg.first < 2 ^ 35 ∧ seg.count ≤ 33 ∧
      seg.vaddr.toNat % 4096 + seg.memsz.toNat ≤ seg.count * 4096 := by
  have hvaddr := h.vaddr
  have hmemsz := h.memsz
  unfold first count
  omega

theorem Segment.Holds.peek (h : seg.Holds w pml4.toNat image frame) (ht : Tables w) {o : Nat}
    (hva : va.toNat = seg.first * 4096 + o) (ho : o < seg.count * 4096) :
    peek w.mem pml4 va = some (seg.byte image o) := by
  obtain ⟨hfirst, hcount, -⟩ := h.valid.bounds
  have haligned := h.data.aligned
  have hgranted := h.data.granted
  have hlimit := ht.bump.limit
  have hwidth := ht.width
  have hpage : pageOf va = (seg.first + o / 4096) % 2 ^ 36 := by
    rw [pageOf, hva]
    omega
  have htranslate : translate w.mem pml4 va = some (frame + o) := by
    rw [translate_eq, hpage, h.shows (o / 4096) (by omega), Option.map_some, Option.some.injEq]
    simp only at haligned hgranted
    omega
  rw [RootCourt.peek, htranslate, Option.map_some, h.bytes o ho]

/-- The bytes of a segment, at their addresses. -/
theorem Segment.Holds.peek_segment (h : seg.Holds w pml4.toNat image frame) (ht : Tables w) {j : Nat}
    (hj : j < seg.memsz.toNat) :
    RootCourt.peek w.mem pml4 (seg.vaddr + UInt64.ofNat j) =
      if j < seg.filesz.toNat then image[seg.offset.toNat + j]? else some 0 := by
  obtain ⟨hfirst, hcount, hfits⟩ := h.valid.bounds
  have hvaddr := h.valid.vaddr
  have hfile := h.valid.file
  have hva : (seg.vaddr + UInt64.ofNat j).toNat =
      seg.first * 4096 + (seg.vaddr.toNat % 4096 + j) := by
    rw [UInt64.toNat_add, UInt64.toNat_ofNat', first]
    omega
  rw [h.peek ht hva (by omega), byte]
  split
  · rename_i hin
    rw [if_pos (by omega), Nat.add_sub_cancel_left, List.getD_eq_getElem _ _ (by omega),
      List.getElem?_eq_getElem (by omega)]
  · rw [if_neg (by omega)]

/-- The rest of the pages of a segment is zero. -/
theorem Segment.Holds.peek_rest (h : seg.Holds w pml4.toNat image frame) (ht : Tables w)
    (hpage : seg.Has (va.toNat / 4096))
    (hout : va.toNat < seg.vaddr.toNat ∨ seg.vaddr.toNat + seg.memsz.toNat ≤ va.toNat) :
    RootCourt.peek w.mem pml4 va = some 0 := by
  obtain ⟨h1, h2⟩ := hpage
  have hfilesz := h.valid.filesz
  have hfirst : seg.first = seg.vaddr.toNat / 4096 := rfl
  have hva : va.toNat = seg.first * 4096 + (va.toNat - seg.first * 4096) := by omega
  rw [h.peek ht hva (by omega), byte, if_neg (by omega)]

/-- Segments that share no page of the lower half share no page at all: both start there, so a page
beyond it that both had would not be the first one. -/
theorem Segment.apart_of_low {a b : Segment} (ha : a.Valid image) (hb : b.Valid image)
    (h : ∀ v < 2 ^ 35, a.Has v → ¬ b.Has v) (v : Nat) (hav : a.Has v) : ¬ b.Has v := by
  intro hbv
  obtain ⟨hfirstA, -⟩ := ha.bounds
  obtain ⟨hfirstB, -⟩ := hb.bounds
  by_cases hv : v < 2 ^ 35
  · exact h v hv hav hbv
  · unfold Has at hav hbv h
    exact h (2 ^ 35 - 1) (by decide) (by omega) (by omega)

/-- Runs for the segments that do not overlap: neither do the segments. -/
theorem Loaded.pairwise {k : Kernel} {segs : List Segment} {runs : List Run} (h : Loaded k segs runs)
    (hpages : runs.Pairwise fun a b => ∀ v < 2 ^ 35, a.Has v → ¬ b.Has v)
    (hvalid : ∀ seg ∈ segs, seg.Valid image) :
    segs.Pairwise fun a b => ∀ v, a.Has v → ¬ b.Has v := by
  -- the condition is about first pages and counts only
  have hkeys : (runs.map fun run => (run.first, run.count)).Pairwise fun a b =>
      ∀ v < 2 ^ 35, a.1 ≤ v ∧ v < a.1 + a.2 → ¬ (b.1 ≤ v ∧ v < b.1 + b.2) :=
    List.pairwise_map.2 hpages
  rw [h.pages, List.pairwise_map] at hkeys
  exact hkeys.imp_of_mem fun ha hb hab => Segment.apart_of_low (hvalid _ ha) (hvalid _ hb) hab

end Image

/-- The tables of the kernel are well formed, and the space has a PML4 among them. -/
def Proper (k : Kernel) (space : AddressSpace) : Prop :=
  ∃ place, Tables (k.world place) ∧
    place space.pml4Phys.toNat = some (.pml4 space.pml4Phys.toNat)

/-- A fresh clone is proper, and its lower half is empty. -/
theorem clone_proper {k k' : Kernel} {space : AddressSpace} {place : Nat → Option Place}
    (h : System k place) (hclone : AddressSpace.cloneKernel k = .ok space k') :
    Proper k' space ∧ ∀ va < LOWER_HALF_END, translate k'.mem space.pml4Phys va = none := by
  obtain ⟨place', hm, hc⟩ := wp_ok (AddressSpace.cloneKernel_spec h 0 fun _ => False) hclone
  refine ⟨⟨place', hm.moved.step.tables, hc.seated.pml4⟩, fun va hva => ?_⟩
  exact (hc.layout h).translate hva

/-- **`load` makes the memory image that the file describes**, in a space with an empty lower half. -/
theorem load_memory_image {k k' : Kernel} {space : AddressSpace} {image : List UInt8}
    {entry : UInt64} (hproper : Proper k space)
    (hempty : ∀ va < LOWER_HALF_END, translate k.mem space.pml4Phys va = none)
    (hload : Image.load space image k = .ok entry k') :
    (Image.readU64 image 24 = .ok entry ∧ ∃ seg ∈ Image.segments image,
      seg.vaddr.toNat ≤ entry.toNat ∧ entry.toNat < seg.vaddr.toNat + seg.memsz.toNat) ∧
    (Image.segments image).Pairwise (fun a b => ∀ v, a.Has v → ¬ b.Has v) ∧
    (∀ seg ∈ Image.segments image,
      (∀ j < seg.memsz.toNat, peek k'.mem space.pml4Phys (seg.vaddr + UInt64.ofNat j) =
        if j < seg.filesz.toNat then image[seg.offset.toNat + j]? else some 0) ∧
      ∀ va : UInt64, seg.Has (va.toNat / 4096) →
        va.toNat < seg.vaddr.toNat ∨ seg.vaddr.toNat + seg.memsz.toNat ≤ va.toNat →
        peek k'.mem space.pml4Phys va = some 0) ∧
    ∀ va < LOWER_HALF_END, (∀ seg ∈ Image.segments image, ¬ seg.Has (va.toNat / 4096)) →
      translate k'.mem space.pml4Phys va = none := by
  obtain ⟨place, htables, hroot⟩ := hproper
  have hlayout : Layout (k.world place) space.pml4Phys.toNat [] := by
    refine ⟨fun v hv => ?_, .nil, .nil, nofun⟩
    -- the page `v` is that of the address `v * 4096`
    have hnat : (UInt64.ofNat (v * 4096)).toNat = v * 4096 := by
      rw [UInt64.toNat_ofNat', Nat.mod_eq_of_lt (by omega)]
    have hva : UInt64.ofNat (v * 4096) < LOWER_HALF_END := by
      rw [UInt64.lt_iff_toNat_lt, hnat, show LOWER_HALF_END.toNat = 2 ^ 47 from rfl]
      omega
    have hnone := hempty _ hva
    rw [translate_eq, Option.map_eq_none_iff, (pageOf_lower hva).1, hnat,
      Nat.mul_div_cancel v (by decide)] at hnone
    exact hnone
  obtain ⟨place', hm, hlayouts, hholds⟩ := wp_ok (Image.load_spec htables hroot) hload
  obtain ⟨hentry, seg, hseg, hlow, hhigh⟩ := wp_ok Image.load_entry hload
  obtain ⟨runs, hloaded, hl⟩ := hlayouts [] hlayout
  rw [List.nil_append] at hl
  have htables' := hm.moved.step.tables
  have hvalid : ∀ seg ∈ Image.segments image, seg.Valid image := fun seg hseg => by
    obtain ⟨frame, hframe⟩ := hholds seg hseg
    exact hframe.valid
  refine ⟨⟨hentry, seg, hseg, UInt64.le_iff_toNat_le.1 hlow, ?_⟩,
    hloaded.pairwise hl.pages hvalid, fun seg hseg => ?_, fun va hva hout => ?_⟩
  · have hvaddr := (hvalid seg hseg).vaddr
    have hmemsz := (hvalid seg hseg).memsz
    rw [UInt64.lt_iff_toNat_lt, UInt64.toNat_add] at hhigh
    omega
  · obtain ⟨frame, hframe⟩ := hholds seg hseg
    exact ⟨fun j hj => hframe.peek_segment htables' hj,
      fun va hpage hrest => hframe.peek_rest htables' hpage hrest⟩
  · have hnone : Run.find 4096 runs (pageOf va) = none := by
      rw [Run.find_eq_none]
      intro run hrun hhas
      obtain ⟨seg, hseg, hpage⟩ := hloaded.page.2 ⟨run, hrun, hhas⟩
      rw [(pageOf_lower hva).1] at hpage
      exact hout seg hseg hpage
    exact (hl.translate hva).trans (by rw [hnone]; rfl)

/-- The image of one byte, loaded into a clone of the small kernel: the byte, and a zero after it. -/
theorem load_memory_image_tiny :
    peek (stateOf (Image.load ⟨0x206000, 0x206000⟩ tinyImage
        (stateOf (AddressSpace.cloneKernel small)))).mem 0x206000 (0x100000 + UInt64.ofNat 0) =
      some 0xf4 ∧
    peek (stateOf (Image.load ⟨0x206000, 0x206000⟩ tinyImage
        (stateOf (AddressSpace.cloneKernel small)))).mem 0x206000 0x100001 = some 0 := by
  obtain ⟨-, place, hinv⟩ := build_inv (b := smallBump) (by decide) (.refl _) (by decide) small_high
    smallBuild_eq
  have hclone : resultOf (AddressSpace.cloneKernel small) = .ok ⟨0x206000, 0x206000⟩ := by
    decide +kernel
  have hload : resultOf (Image.load ⟨0x206000, 0x206000⟩ tinyImage
      (stateOf (AddressSpace.cloneKernel small))) = .ok 0x100000 := by
    decide +kernel
  obtain ⟨hproper, hempty⟩ := clone_proper hinv.system (eq_ok_of_resultOf hclone)
  have hseg : ⟨120, 0x100000, 1, 1⟩ ∈ Image.segments tinyImage := by decide +kernel
  obtain ⟨-, -, hbytes, -⟩ := load_memory_image hproper hempty (eq_ok_of_resultOf hload)
  obtain ⟨hfile, hrest⟩ := hbytes _ hseg
  exact ⟨hfile 0 (by decide), hrest 0x100001 ⟨by decide, by decide⟩ (by decide)⟩

end RootCourt

end CourtKernel
