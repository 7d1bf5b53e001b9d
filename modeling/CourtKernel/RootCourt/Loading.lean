import CourtKernel.RootCourt.Layout

/-!
# Loading an image

What `load` does to the tables of a space, whatever the bytes of the image: it maps pages of the
segments and no others, whether it succeeds or fails, and if it succeeds every segment has its own
run of new frames, which hold the bytes of the segment.

* `Segment.first`, `Segment.count` — the pages of a segment.
* `Segment.Valid` — the checks of a segment; `accepted` are the segments before the first that fails.
* `Segment.Asks` — the pages the loader may map for a segment.
* `Segment.byte`, `Segment.Holds` — what these pages hold.
* `loadSegment_spec`, `load_spec`.
-/

namespace CourtKernel

namespace RootCourt

namespace Image

/-- The first page of a segment. -/
def Segment.first (seg : Segment) : Nat := seg.vaddr.toNat / 4096

/-- The number of pages of a segment. -/
def Segment.count (seg : Segment) : Nat :=
  (seg.vaddr.toNat % 4096 + seg.memsz.toNat + 4095) / 4096

/-- The checks of the loader that a segment has passed. -/
structure Segment.Valid (image : List UInt8) (seg : Segment) : Prop where
  vaddr : seg.vaddr.toNat < 2 ^ 47
  memsz : seg.memsz.toNat ≤ 2 ^ 17
  filesz : seg.filesz.toNat ≤ seg.memsz.toNat
  file : 0 < seg.filesz.toNat → seg.offset.toNat + seg.filesz.toNat ≤ image.length

instance (image : List UInt8) (seg : Segment) : Decidable (seg.Valid image) :=
  decidable_of_iff (seg.vaddr.toNat < 2 ^ 47 ∧ seg.memsz.toNat ≤ 2 ^ 17 ∧
      seg.filesz.toNat ≤ seg.memsz.toNat ∧
      (0 < seg.filesz.toNat → seg.offset.toNat + seg.filesz.toNat ≤ image.length))
    ⟨fun ⟨h1, h2, h3, h4⟩ => ⟨h1, h2, h3, h4⟩, fun ⟨h1, h2, h3, h4⟩ => ⟨h1, h2, h3, h4⟩⟩

/-- The segments that the loop gets to map: it stops at the first one that fails a check. -/
def acceptedOf (image : List UInt8) (segs : List Segment) : List Segment :=
  segs.takeWhile fun seg => decide (seg.Valid image)

theorem acceptedOf_cons {image : List UInt8} {seg : Segment} (h : seg.Valid image)
    (segs : List Segment) : acceptedOf image (seg :: segs) = seg :: acceptedOf image segs :=
  List.takeWhile_cons_of_pos (decide_eq_true h)

/-- The pages that the loader may map for a segment. -/
def Segment.Asks (image : List UInt8) (seg : Segment) (v : Nat) : Prop :=
  seg.Valid image ∧ seg.first ≤ v ∧ v < seg.first + seg.count

theorem Segment.toNat_pageOff (seg : Segment) : seg.pageOff.toNat = seg.vaddr.toNat % 4096 := by
  rw [pageOff, UInt64.toNat_and, show (PAGE - 1).toNat = 2 ^ 12 - 1 from rfl,
    Nat.and_two_pow_sub_one_eq_mod]

theorem Segment.toNat_mapVa (seg : Segment) :
    seg.mapVa.toNat = seg.vaddr.toNat / 4096 * 4096 := by
  have hoff := seg.toNat_pageOff
  have hle : seg.pageOff ≤ seg.vaddr := by
    rw [UInt64.le_iff_toNat_le]
    omega
  rw [mapVa, UInt64.toNat_sub_of_le _ _ hle, hoff]
  omega

theorem toNat_divCeil_page (x : UInt64) : (divCeil x PAGE).toNat = (x.toNat + 4095) / 4096 := by
  have hlt := x.toNat_lt
  have hdiv : (x / PAGE).toNat = x.toNat / 4096 := UInt64.toNat_div ..
  have hmod : (x % PAGE).toNat = x.toNat % 4096 := UInt64.toNat_mod ..
  unfold divCeil
  split
  · rename_i h
    rw [gt_iff_lt, UInt64.lt_iff_toNat_lt, hmod, UInt64.toNat_zero] at h
    rw [UInt64.toNat_add, hdiv, UInt64.toNat_one]
    omega
  · rename_i h
    rw [gt_iff_lt, UInt64.lt_iff_toNat_lt, hmod, UInt64.toNat_zero] at h
    omega

/-- The pages of a segment, as the loader counts them. -/
theorem Segment.toNat_pages {seg : Segment} (hmem : seg.memsz.toNat ≤ 2 ^ 17) {mapLen : UInt64}
    (hlen : checkedAdd seg.pageOff seg.memsz = some mapLen) :
    (divCeil mapLen PAGE).toNat = seg.count ∧
      (divCeil mapLen PAGE * PAGE).toNat = seg.count * 4096 := by
  rw [checkedAdd_eq_some, seg.toNat_pageOff] at hlen
  have hpages : (divCeil mapLen PAGE).toNat = seg.count := by
    rw [toNat_divCeil_page, hlen, count]
  refine ⟨hpages, ?_⟩
  rw [UInt64.toNat_mul, hpages, BumpAllocator.toNat_PAGE, count]
  omega

/-! ## What the pages of a segment hold -/

/-- The byte of the pages of a segment at the offset `o` from the start of the first one: a byte of
the file part, and zero before and after it. -/
def Segment.byte (image : List UInt8) (seg : Segment) (o : Nat) : UInt8 :=
  if seg.vaddr.toNat % 4096 ≤ o ∧ o < seg.vaddr.toNat % 4096 + seg.filesz.toNat then
    image.getD (seg.offset.toNat + (o - seg.vaddr.toNat % 4096)) 0
  else 0

/-- The pages of a segment are there, and hold its bytes. -/
structure Segment.Holds (w : World) (r : Nat) (image : List UInt8) (seg : Segment)
    (frame : Nat) : Prop where
  valid : seg.Valid image
  shows : Shows w.mem r seg.first frame seg.count
  data : Data w ⟨seg.first, frame, seg.count⟩
  bytes : ∀ o < seg.count * 4096, w.mem (frame + o) = seg.byte image o

theorem Segment.Holds.step {w w' : World} {r frame : Nat} {image : List UInt8} {seg : Segment}
    (h : seg.Holds w r image frame) (ht : Tables w) (hr : w.place r = some (.pml4 r))
    (hs : Step w w') : seg.Holds w' r image frame := by
  refine ⟨h.valid, fun j hj => hs.frameAt_some ht hr (h.shows j hj), h.data.step hs, fun o ho => ?_⟩
  have hkept := h.data.mem_eq ht hs ho
  exact hkept.trans (h.bytes o ho)

/-- Zero fill, and the file part written over it. -/
theorem Segment.byte_written {image : List UInt8} {seg : Segment} (h : seg.Valid image) (m : Memory)
    (phys : Nat) {o : Nat} (ho : o < seg.count * 4096) :
    ((m.fill phys (seg.count * 4096) 0).write (phys + seg.vaddr.toNat % 4096)
      ((image.drop seg.offset.toNat).take seg.filesz.toNat)) (phys + o) = seg.byte image o := by
  have hfile := h.file
  have hzero : (m.fill phys (seg.count * 4096) 0) (phys + o) = 0 :=
    Memory.fill_of_mem (by omega) (by omega)
  have hlen : ((image.drop seg.offset.toNat).take seg.filesz.toNat).length = seg.filesz.toNat := by
    rw [List.length_take, List.length_drop]
    omega
  unfold byte
  generalize seg.vaddr.toNat % 4096 = off
  split
  · rename_i hin
    obtain ⟨i, rfl⟩ : ∃ i, o = off + i := ⟨o - off, by omega⟩
    rw [← Nat.add_assoc, Memory.write_of_mem (by omega), List.getElem_take, List.getElem_drop,
      Nat.add_sub_cancel_left, List.getD_eq_getElem _ _ (by omega)]
  · rename_i hout
    by_cases hlow : o < off
    · rw [Memory.write_of_lt (by omega), hzero]
    · rw [Memory.write_of_ge (by omega), hzero]

variable {k : Kernel} {place : Nat → Option Place} {space : AddressSpace} {image : List UInt8}

/-- Copying the file part. -/
theorem copyFile_spec (seg : Segment) (phys : UInt64) :
    wp (copyFile image seg phys)
      (fun _ k' => (0 < seg.filesz.toNat → seg.offset.toNat + seg.filesz.toNat ≤ image.length) ∧
        k' = { k with mem := (k.mem.write (phys.toNat + seg.pageOff.toNat)
          ((image.drop seg.offset.toNat).take seg.filesz.toNat)) })
      (fun _ k' => k' = k) k := by
  unfold copyFile
  rw [wp_ite]
  refine ⟨fun _ => ?_, fun hnone => ?_⟩
  · dsimp only
    rw [wp_ite]
    refine ⟨fun _ => (wp_throw _).2 rfl, fun _ => ?_⟩
    rw [wp_ite]
    refine ⟨fun _ => (wp_throw _).2 rfl, fun hfits => ?_⟩
    rw [Kernel.copy, wp_modify]
    exact ⟨fun _ => Nat.le_of_not_lt hfits, rfl⟩
  · rw [gt_iff_lt, UInt64.lt_iff_toNat_lt, UInt64.toNat_zero] at hnone
    rw [wp_pure, show seg.filesz.toNat = 0 by omega, List.take_zero, Memory.write_nil]
    exact ⟨fun h => absurd h (Nat.lt_irrefl 0), rfl⟩

/-- **One segment.** -/
theorem loadSegment_spec (h : Tables (k.world place))
    (hroot : place space.pml4Phys.toNat = some (.pml4 space.pml4Phys.toNat)) (seg : Segment) :
    wp (loadSegment space image seg)
      (fun _ k' => ∃ place', k.Moves place space.pml4Phys.toNat (seg.Asks image) k' place' ∧
        seg.Holds (k'.world place') space.pml4Phys.toNat image k.bump.cursor.toNat ∧
        ∀ runs, Layout (k.world place) space.pml4Phys.toNat runs →
          Layout (k'.world place') space.pml4Phys.toNat
            (runs ++ [⟨seg.first, k.bump.cursor.toNat, seg.count⟩]))
      (fun _ k' => ∃ place', k.Moves place space.pml4Phys.toNat (seg.Asks image) k' place') k := by
  unfold loadSegment
  rw [wp_ite]
  refine ⟨fun _ => (wp_throw _).2 ⟨place, .refl h⟩, fun hvaddr => ?_⟩
  rw [wp_ite]
  refine ⟨fun _ => (wp_throw _).2 ⟨place, .refl h⟩, fun hmemsz => ?_⟩
  rw [wp_ite]
  refine ⟨fun _ => (wp_throw _).2 ⟨place, .refl h⟩, fun hfilesz => ?_⟩
  rw [ge_iff_le, UInt64.le_iff_toNat_le, show LOWER_HALF_END.toNat = 2 ^ 47 from rfl] at hvaddr
  rw [gt_iff_lt, UInt64.lt_iff_toNat_lt, show MAX_SEGMENT.toNat = 2 ^ 17 from rfl] at hmemsz
  rw [gt_iff_lt, UInt64.lt_iff_toNat_lt] at hfilesz
  cases hlen : checkedAdd seg.pageOff seg.memsz with
  | none => exact (wp_throw _).2 ⟨place, .refl h⟩
  | some mapLen =>
    obtain ⟨hpages, hsize⟩ := Segment.toNat_pages (by omega) hlen
    dsimp only
    generalize divCeil mapLen PAGE = pages at hpages hsize ⊢
    have hfirst : pageOf seg.mapVa = seg.first := by
      rw [pageOf, seg.toNat_mapVa, Segment.first]
      omega
    have hsmall : seg.first < 2 ^ 35 ∧ seg.count ≤ 33 := by
      unfold Segment.first Segment.count
      omega
    have hcount : (pages * PAGE).toNat / 4096 = seg.count := by
      rw [hsize]
      omega
    have hwrap : seg.first + seg.count ≤ 2 ^ 36 := by omega
    rw [wp_bind]
    refine wp_mono (Kernel.allocPages_spec h pages _) ?_ ?_
    · rintro phys k₁ ⟨hphys, hcursor, hgrant⟩
      simp only [wp_bind, Kernel.writeBytes, wp_modify]
      refine wp_mono (copyFile_spec seg phys) ?_ ?_
      · rintro ⟨⟩ k₂ ⟨hfile, rfl⟩
        have hvalid : seg.Valid image := ⟨by omega, by omega, by omega, hfile⟩
        have hasks : ∀ v, Run.Has ⟨seg.first, phys.toNat, seg.count⟩ v → seg.Asks image v :=
          fun v hv => ⟨hvalid, hv⟩
        rw [hsize, seg.toNat_pageOff]
        have hbytes := fun o ho => seg.byte_written hvalid k₁.mem phys.toNat (o := o) ho
        have hmem : ∀ a < phys.toNat, ((k₁.mem.fill phys.toNat (seg.count * 4096) 0).write
            (phys.toNat + seg.vaddr.toNat % 4096)
            ((image.drop seg.offset.toNat).take seg.filesz.toNat)) a = k₁.mem a := fun a ha =>
          (Memory.write_of_lt (by omega)).trans (Memory.fill_of_disjoint (Or.inl ha))
        generalize (k₁.mem.fill phys.toNat (seg.count * 4096) 0).write
          (phys.toNat + seg.vaddr.toNat % 4096)
          ((image.drop seg.offset.toNat).take seg.filesz.toNat) = mem at hbytes hmem ⊢
        have hgrant₂ := fun r S => hgrant r S mem hmem
        have htables := (hgrant₂ 0 fun _ => False).moved.step.tables
        rw [hpages] at hcursor
        have hdata : Data (Kernel.world { k₁ with mem := mem } place)
            ⟨seg.first, phys.toNat, seg.count⟩ := .ofGrant h hphys hcursor
        refine wp_mono (AddressSpace.map_run htables hroot hfirst rfl hcount hwrap hdata) ?_ ?_
        · rintro ⟨⟩ k' ⟨place', hm, hshow, hlayout⟩
          refine ⟨place', (hgrant₂ _ _).trans (hm.mono hasks), ?_, fun runs hl => ?_⟩
          · rw [← hphys]
            refine ⟨hvalid, hshow, hdata.step hm.moved.step, fun o ho => ?_⟩
            have hkept := hdata.mem_eq htables hm.moved.step ho
            exact hkept.trans (hbytes o ho)
          · rw [← hphys]
            refine hlayout runs (hl.keep hroot (hgrant₂ 0 fun _ => False).moved nofun)
              fun old hold => ?_
            have hold' := (hl.data old hold).granted
            exact Or.inl (by rw [hphys]; exact hold')
        · rintro e k' ⟨place', hm⟩
          exact ⟨place', (hgrant₂ _ _).trans (hm.mono hasks)⟩
      · rintro e k₂ rfl
        exact ⟨place, hgrant _ _ _ fun a ha => Memory.fill_of_disjoint (by omega)⟩
    · rintro e k' rfl
      exact ⟨place, .refl h⟩

/-- What loading segments adds to a layout: a run of new frames for each of them, in their order. -/
structure Loaded (k : Kernel) (segs : List Segment) (runs : List Run) : Prop where
  pages : runs.map (fun run => (run.first, run.count)) = segs.map fun seg => (seg.first, seg.count)
  fresh : ∀ run ∈ runs, k.bump.cursor.toNat ≤ run.frame

/-- **The loop.** -/
theorem loadSegments_spec (entry : UInt64) {S : Nat → Prop} :
    ∀ (offs : List Nat) {k : Kernel} {place : Nat → Option Place} (mapped : Bool),
      Tables (k.world place) → place space.pml4Phys.toNat = some (.pml4 space.pml4Phys.toNat) →
      (∀ seg ∈ acceptedOf image (segmentsAt image offs), ∀ v, seg.Asks image v → S v) →
      wp (loadSegments space image entry offs mapped)
        (fun _ k' => ∃ place', k.Moves place space.pml4Phys.toNat S k' place' ∧
          (∀ runs, Layout (k.world place) space.pml4Phys.toNat runs →
            ∃ new, Loaded k (segmentsAt image offs) new ∧
              Layout (k'.world place') space.pml4Phys.toNat (runs ++ new)) ∧
          ∀ seg ∈ segmentsAt image offs, ∃ frame,
            seg.Holds (k'.world place') space.pml4Phys.toNat image frame)
        (fun _ k' => ∃ place', k.Moves place space.pml4Phys.toNat S k' place') k := by
  intro offs
  induction offs with
  | nil =>
    intro k place mapped h hroot _
    rw [loadSegments, wp_pure]
    refine ⟨place, .refl h, fun runs hl => ⟨[], ⟨rfl, nofun⟩, ?_⟩, nofun⟩
    rw [List.append_nil]
    exact hl
  | cons off offs ih =>
    intro k place mapped h hroot hS
    unfold loadSegments
    unfold segmentsAt at hS ⊢
    rw [List.filterMap_cons] at hS ⊢
    cases hseg : segmentAt image off with
    | error e => exact (wp_throw _).2 ⟨place, .refl h⟩
    | ok found =>
      cases found with
      | none =>
        rw [hseg] at hS
        exact ih mapped h hroot hS
      | some seg =>
        rw [hseg] at hS
        dsimp only at hS ⊢
        rw [wp_bind]
        have hsub : ∀ v, seg.Asks image v → S v := fun v hv => by
          rw [acceptedOf_cons hv.1] at hS
          exact hS seg List.mem_cons_self v hv
        refine wp_mono (loadSegment_spec h hroot seg) ?_ ?_
        · rintro ⟨⟩ k₁ ⟨place₁, hm₁, hholds, hl₁⟩
          have hm₁' := hm₁.mono hsub
          rw [acceptedOf_cons hholds.valid] at hS
          have hroot₁ := hm₁.moved.step.kept _ _ hroot
          refine wp_mono (ih _ hm₁.moved.step.tables hroot₁
            fun seg' hseg' => hS seg' (List.mem_cons_of_mem _ hseg')) ?_ ?_
          · rintro _ k₂ ⟨place₂, hm₂, hl₂, hrest⟩
            refine ⟨place₂, hm₁'.trans hm₂, fun runs hl => ?_, fun seg' hseg' => ?_⟩
            · obtain ⟨new, hnew, hlayout⟩ := hl₂ _ (hl₁ runs hl)
              refine ⟨⟨seg.first, k.bump.cursor.toNat, seg.count⟩ :: new, ⟨?_, ?_⟩, ?_⟩
              · rw [List.map_cons, List.map_cons]
                exact congrArg _ hnew.pages
              · intro run hrun
                rcases List.mem_cons.1 hrun with rfl | hrun
                · exact Nat.le_refl _
                · exact Nat.le_trans hm₁.moved.step.cursor (hnew.fresh run hrun)
              · rw [List.append_assoc] at hlayout
                exact hlayout
            · rcases List.mem_cons.1 hseg' with rfl | hseg'
              · exact ⟨_, hholds.step hm₁.moved.step.tables hroot₁ hm₂.moved.step⟩
              · exact hrest seg' hseg'
          · rintro e k₂ ⟨place₂, hm₂⟩
            exact ⟨place₂, hm₁'.trans hm₂⟩
        · rintro e k₁ ⟨place₁, hm₁⟩
          exact ⟨place₁, hm₁.mono hsub⟩

/-- The segments of an image that the loader gets to map. -/
def accepted (image : List UInt8) : List Segment := acceptedOf image (segments image)

/-- The pages that the loader may map for an image. -/
def Asks (image : List UInt8) (v : Nat) : Prop := ∃ seg ∈ accepted image, seg.Asks image v

/-- **The loader.** -/
theorem load_spec (h : Tables (k.world place))
    (hroot : place space.pml4Phys.toNat = some (.pml4 space.pml4Phys.toNat)) :
    wp (load space image)
      (fun _ k' => ∃ place', k.Moves place space.pml4Phys.toNat (Asks image) k' place' ∧
        (∀ runs, Layout (k.world place) space.pml4Phys.toNat runs →
          ∃ new, Loaded k (segments image) new ∧
            Layout (k'.world place') space.pml4Phys.toNat (runs ++ new)) ∧
        ∀ seg ∈ segments image, ∃ frame,
          seg.Holds (k'.world place') space.pml4Phys.toNat image frame)
      (fun _ k' => ∃ place', k.Moves place space.pml4Phys.toNat (Asks image) k' place') k := by
  unfold load
  cases hheader : header image with
  | error e => exact (wp_throw _).2 ⟨place, .refl h⟩
  | ok hd =>
    have hsegs : segments image = segmentsAt image hd.offsets := by
      rw [segments, hheader]
    have haccepted : accepted image = acceptedOf image (segmentsAt image hd.offsets) := by
      rw [accepted, hsegs]
    dsimp only
    rw [wp_bind, hsegs]
    refine wp_mono (loadSegments_spec (S := Asks image) hd.entry hd.offsets false h hroot
      fun seg hseg v hv => ⟨seg, haccepted ▸ hseg, hv⟩) ?_ fun _ _ he => he
    rintro mapped k' hk'
    rw [wp_ite]
    refine ⟨fun _ => (wp_pure _).2 hk', fun _ => (wp_throw _).2 ?_⟩
    obtain ⟨place', hm, -⟩ := hk'
    exact ⟨place', hm⟩

end Image

end RootCourt

end CourtKernel
