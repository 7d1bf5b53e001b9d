import Mathlib.Data.List.Pairwise
import CourtKernel.RootCourt.Pieces
import CourtKernel.RootCourt.Regions

/-!
# Memory maps that `build` can map

`build` maps the kernel image and then the entry of the memory map that the image lies in, at the same
offset.  Both ranges are cut into pages on their own, so the two cuts of a block of 2 MiB may differ.

* `build_takes` — if the cuts of all ranges fit, `build` succeeds and takes exactly the pages that the
  tables need; if a small page is where a large one is to come, it stops there.
* `Target.Sits` — a range of whole pages at canonical addresses; `Target.Sits.fits_of_apart`,
  `Target.Sits.fits_iff` — when the cuts of two ranges fit, in addresses.
* `Consistent` — what a boot loader guarantees of the memory map and of the two windows.
* `WholeBlocks` — a block inside the image's entry is inside the image or does not meet it.
* `build_succeeds` — on a consistent memory map `build` succeeds exactly if the blocks are whole;
  `build_collides` is a map where they are not.
-/

namespace CourtKernel

namespace RootCourt

/-- The pieces of a range. -/
def Target.cuts (t : Target) : List Piece := RootCourt.cuts t.virt t.phys t.len

section

variable {r : Nat} {all : List Piece} {kstart kend hhdm kernelPhysBase kernelVirtBase : UInt64}
  {entries : List MemmapEntry} {s : Mapper} {place : Nat → Option Place}

theorem buildEntries_adds (bytes spans : UInt64)
    (hok : ∀ t ∈ entries.flatMap (entryRanges hhdm kernelPhysBase kernelVirtBase),
      t.virt.toNat % 4096 = 0 ∧ t.phys.toNat % 4096 = 0 ∧ ∀ q ∈ t.cuts, q ∈ all) :
    Mapper.Adds r all
      ((entries.flatMap (entryRanges hhdm kernelPhysBase kernelVirtBase)).flatMap Target.cuts)
      (buildEntries hhdm kernelPhysBase kernelVirtBase entries bytes spans) := by
  refine buildEntries_rule (P := fun ts x => Mapper.Adds r all (ts.flatMap Target.cuts) x)
    (fun a => .pure a) (fun t ts x ht hx => ?_) entries bytes spans hok
  obtain ⟨hvirt, hphys, hall⟩ := ht
  rw [List.flatMap_cons]
  exact .bind (.mapRange hvirt hphys hall) fun _ => hx

/-- The mapper with a fresh PML4. -/
theorem Mapper.holds_fresh {k : Kernel} (hwf : k.bump.Wf) (hwidth : k.bump.end.toNat ≤ 2 ^ 52)
    (hroom : k.bump.cursor.toNat + 4096 * (tables all).card ≤ k.bump.end.toNat) :
    wp Mapper.allocTable (fun pml4 s => pml4 = k.bump.cursor ∧ s.bump.end = k.bump.end ∧
        ∃ place, Mapper.Holds ⟨s.mem, s.bump, pml4, 1⟩ place pml4.toNat all (tables []) [])
      (fun _ _ => False) ⟨k.mem, k.bump, 0, 0⟩ := by
  have hnone : Tables (Mapper.world ⟨k.mem, k.bump, 0, 0⟩ fun _ => none) :=
    ⟨hwf, hwidth, nofun, nofun⟩
  have hroot : ([] : List Nat) ∈ tables all := mem_tables.2 (Or.inl rfl)
  refine wp_mono (Mapper.allocTable_place hnone 0 (fun _ => False) (.pml4 k.bump.cursor.toNat)) ?_ ?_
  · rintro pml4 s ⟨place, hm, hcursor, hplace, -, -, hempty, -, hplaces, hpages⟩
    have hcursor' : k.bump.cursor = pml4 := hcursor.symm
    rw [hcursor'] at hplace hplaces
    have hbump : s.bump = { k.bump with cursor := s.bump.cursor } := hm.1.step.bump
    have hready : Mapper.Ready ⟨s.mem, s.bump, pml4, 1⟩ place pml4.toNat :=
      ⟨hm.1.step.tables, hplace, rfl⟩
    refine ⟨hcursor, by rw [hbump], place, ⟨hready, fun n p hn => ?_, fun path hpath => ?_,
      fun i e he => ?_, fun v _ e is hw => ?_, nofun, ?_, ?_, ?_⟩⟩
    · rcases hplaces n p hn with hnone | ⟨-, rfl⟩
      · cases hnone
      · exact ⟨[], Finset.mem_singleton_self _, rfl⟩
    · obtain rfl := Finset.mem_singleton.1 hpath
      exact ⟨pml4.toNat, .root hplace⟩
    · rw [hempty] at he
      cases he
    · rw [digits, Radix.walk, hempty] at hw
      cases hw
    · exact Finset.singleton_subset_iff.2 hroot
    · exact hpages
    · show pml4.toNat + 4096 * (tables all).card ≤ s.bump.end.toNat
      rw [hbump, ← hcursor']
      exact hroom
  · rintro e s ⟨-, hfull⟩
    have hcard := Finset.card_pos.2 ⟨_, hroot⟩
    exact BumpAllocator.allocPages_one_ne_none hwf (by omega) hfull

/-- The PML5 takes one page more. -/
theorem Mapper.wrapLa57_takes (hwf : s.bump.Wf) (hroom : s.bump.cursor.toNat + 4096 ≤ s.bump.end.toNat)
    (pml4 : UInt64) :
    wp (Mapper.wrapLa57 pml4) (fun _ s' => s'.bump.cursor.toNat = s.bump.cursor.toNat + 4096)
      (fun _ _ => False) s := by
  unfold Mapper.wrapLa57
  rw [wp_bind]
  refine wp_mono (Mapper.allocTable_spec hwf) ?_ fun _ _ he =>
    BumpAllocator.allocPages_one_ne_none hwf hroom he.2
  rintro pml5 s' ⟨rfl, -, -, -, hcursor, -⟩
  simp only [wp_bind, Mapper.writeEntry, wp_modify, wp_pure]
  exact hcursor

end

/-! ## Success of `build` -/

/-- The pieces of all ranges. -/
def buildPieces (kstart kend hhdm kernelPhysBase kernelVirtBase : UInt64)
    (entries : List MemmapEntry) : List Piece :=
  (buildRanges kstart kend hhdm kernelPhysBase kernelVirtBase entries).flatMap Target.cuts

/-- The pages that the tables of `build` take: one for each table on the way to a piece, and one for
the PML5. -/
def tablesNeeded (la57 : Bool) (kstart kend hhdm kernelPhysBase kernelVirtBase : UInt64)
    (entries : List MemmapEntry) : Nat :=
  (tables (buildPieces kstart kend hhdm kernelPhysBase kernelVirtBase entries)).card +
    if la57 then 1 else 0

theorem tables_reverse (ps : List Piece) : tables ps.reverse = tables ps := by
  ext path
  simp only [mem_tables, List.mem_reverse]

section

variable {kstart kend hhdm kernelPhysBase kernelVirtBase : UInt64} {entries : List MemmapEntry}

/-- The ranges are mapped one after the other; the end of the allocator stays. -/
theorem buildRanges_adds {r : Nat} {ts : List Target}
    (hts : ts = buildRanges kstart kend hhdm kernelPhysBase kernelVirtBase entries)
    (haligned : ∀ t ∈ ts, t.virt.toNat % 4096 = 0 ∧ t.phys.toNat % 4096 = 0) :
    Mapper.Adds r (ts.flatMap Target.cuts) (ts.flatMap Target.cuts)
      (Mapper.mapRange kstart (kernelPhysBase + (kstart - kernelVirtBase))
          (alignUp (kend - kstart) PAGE) >>= fun _ =>
        buildEntries hhdm kernelPhysBase kernelVirtBase entries 0 0) := by
  have hok : ∀ t ∈ ts, t.virt.toNat % 4096 = 0 ∧ t.phys.toNat % 4096 = 0 ∧
      ∀ q ∈ t.cuts, q ∈ ts.flatMap Target.cuts := fun t ht =>
    ⟨(haligned t ht).1, (haligned t ht).2, fun q hq => List.mem_flatMap.2 ⟨t, ht, hq⟩⟩
  generalize hall : ts.flatMap Target.cuts = all at hok
  nth_rewrite 2 [← hall]
  rw [hts] at hok ⊢
  obtain ⟨⟨hvirt, hphys, hkernel⟩, hentries⟩ := List.forall_mem_cons.1 hok
  rw [buildRanges, List.flatMap_cons]
  exact .bind (.mapRange hvirt hphys hkernel) fun _ => buildEntries_adds 0 0 hentries

/-- The tables of the mapper, and the PML5. -/
theorem buildTables_takes {s : Mapper} {place : Nat → Option Place} {pml4 : UInt64} {ts : List Target}
    (hts : ts = buildRanges kstart kend hhdm kernelPhysBase kernelVirtBase entries)
    (haligned : ∀ t ∈ ts, t.virt.toNat % 4096 = 0 ∧ t.phys.toNat % 4096 = 0)
    (hmeets : (ts.flatMap Target.cuts).Pairwise Piece.Meets)
    (h : s.Holds place pml4.toNat (ts.flatMap Target.cuts) (tables []) []) {la57 : Bool} {n : Nat}
    (hn : n = (tables (ts.flatMap Target.cuts)).card + if la57 then 1 else 0)
    (hroom : pml4.toNat + 4096 * n ≤ s.bump.end.toNat) :
    wp (buildTables la57 pml4 hhdm kernelPhysBase kernelVirtBase kstart
        (kernelPhysBase + (kstart - kernelVirtBase)) (alignUp (kend - kstart) PAGE) entries)
      (fun _ s' => (ts.flatMap Target.cuts).Pairwise Piece.Fits ∧
        s'.bump.cursor.toNat = pml4.toNat + 4096 * n)
      (fun e _ => e = "huge/4k page collision" ∧ ¬ (ts.flatMap Target.cuts).Pairwise Piece.Fits)
      s := by
  have hmaps := wp_and (buildRanges_adds hts haligned s place [] h (Mapper.joins_nil.2 hmeets))
    (buildRanges_counted s)
  refine wp_buildTables (wp_mono hmaps ?_ fun _ _ he => ⟨he.1.1, fun hf => he.1.2 (Mapper.joins_nil.2 hf)⟩)
  rintro mapped s₂ ⟨⟨hfits, place₂, h₂⟩, hcounted⟩
  rw [Mapper.joins_nil] at hfits
  obtain ⟨hwf₂, hbump, -⟩ := hcounted.allocs.spec h.ready.tables.bump
  have hend : s₂.bump.end = s.bump.end := by rw [hbump]
  rw [← hend] at hroom
  have hpages := h₂.pages
  rw [List.append_nil, tables_reverse] at hpages
  rw [wp_ite]
  refine ⟨fun h57 => ?_, fun h57 => ?_⟩
  · rw [if_pos h57] at hn
    refine wp_mono (Mapper.wrapLa57_takes hwf₂ (by omega) pml4) ?_ fun _ _ he => he.elim
    intro pml5 s₃ hcursor
    exact ⟨hfits, by omega⟩
  · rw [if_neg h57] at hn
    rw [wp_pure]
    exact ⟨hfits, by omega⟩

/-- **`build` succeeds if the cuts of all ranges fit**, with as many pages as its tables need. -/
theorem build_takes {k : Kernel} (hwf : k.bump.Wf) (hwidth : k.bump.end.toNat ≤ 2 ^ 52)
    (hsize : kstart < kend) (hbase : kernelVirtBase ≤ kstart) {ts : List Target}
    (hts : ts = buildRanges kstart kend hhdm kernelPhysBase kernelVirtBase entries)
    (haligned : ∀ t ∈ ts, t.virt.toNat % 4096 = 0 ∧ t.phys.toNat % 4096 = 0)
    (hmeets : (ts.flatMap Target.cuts).Pairwise Piece.Meets) {n : Nat}
    (hn : n = (tables (ts.flatMap Target.cuts)).card + if k.la57 then 1 else 0)
    (hroom : k.bump.cursor.toNat + 4096 * n ≤ k.bump.end.toNat) :
    wp (build kstart kend hhdm kernelPhysBase kernelVirtBase entries)
      (fun _ k' => (ts.flatMap Target.cuts).Pairwise Piece.Fits ∧
        k'.bump.cursor.toNat = k.bump.cursor.toNat + 4096 * n)
      (fun e _ => e = "huge/4k page collision" ∧ ¬ (ts.flatMap Target.cuts).Pairwise Piece.Fits)
      k := by
  have hgood : ¬ (kend ≤ kstart ∨ kstart < kernelVirtBase) :=
    not_or.2 ⟨UInt64.not_le.2 hsize, UInt64.not_lt.2 hbase⟩
  refine wp_build (fun hbad _ => absurd hbad hgood) ?_
  have hfresh : k.bump.cursor.toNat + 4096 * (tables (ts.flatMap Target.cuts)).card ≤
      k.bump.end.toNat := by
    omega
  refine wp_mono (Mapper.holds_fresh hwf hwidth hfresh) ?_ fun _ _ he => he.elim
  rintro pml4 s ⟨rfl, hend, place, h⟩
  exact buildTables_takes hts haligned hmeets h hn (hend ▸ hroom)

end

/-! ## Ranges that fit -/

/-- No address is in both ranges. -/
def Apart (a n a' n' : Nat) : Prop := n = 0 ∨ n' = 0 ∨ a + n ≤ a' ∨ a' + n' ≤ a

instance (a n a' n' : Nat) : Decidable (Apart a n a' n') := inferInstanceAs (Decidable (_ ∨ _))

theorem Apart.symm {a n a' n' : Nat} (h : Apart a n a' n') : Apart a' n' a n := by
  unfold Apart at *
  omega

/-- All addresses of the range are canonical, and it does not wrap around. -/
def CanonicalRange (a n : Nat) : Prop := a + n ≤ 2 ^ 47 ∨ 2 ^ 64 - 2 ^ 47 ≤ a ∧ a + n ≤ 2 ^ 64

instance (a n : Nat) : Decidable (CanonicalRange a n) := inferInstanceAs (Decidable (_ ∨ _))

/-- Whole pages at canonical addresses. -/
structure Target.Sits (t : Target) : Prop where
  virt : t.virt.toNat % 4096 = 0
  phys : t.phys.toNat % 4096 = 0
  len : t.len.toNat % 4096 = 0
  canonical : CanonicalRange t.virt.toNat t.len.toNat

/-- The cuts of the two ranges fit. -/
def Target.Fits (t t' : Target) : Prop := ∀ q ∈ t.cuts, ∀ q' ∈ t'.cuts, q.Fits q'

/-- The cuts of the first range fit those of the second or block them. -/
def Target.Meets (t t' : Target) : Prop := ∀ q ∈ t.cuts, ∀ q' ∈ t'.cuts, q.Meets q'

namespace Target

variable {t t' : Target}

theorem Fits.symm (h : t.Fits t') : t'.Fits t := fun q hq q' hq' => (h q' hq' q hq).symm

namespace Sits

theorem span (h : t.Sits) : pageOf t.virt + t.len.toNat / 4096 ≤ 2 ^ 36 := by
  have hvirt := h.virt
  have hcanonical := h.canonical
  unfold CanonicalRange at hcanonical
  have hlt := t.virt.toNat_lt
  unfold pageOf
  omega

theorem of_mem_cuts {q : Piece} (h : t.Sits) (hq : q ∈ t.cuts) : q.Of t.virt t.phys t.len :=
  RootCourt.of_mem_cuts h.virt h.phys h.span hq

theorem fits_of_apart (h : t.Sits) (h' : t'.Sits)
    (hapart : Apart t.virt.toNat t.len.toNat t'.virt.toNat t'.len.toNat) : t.Fits t' := by
  intro q hq q' hq'
  refine (h.of_mem_cuts hq).fits_of_apart (h'.of_mem_cuts hq') fun v h1 h2 h3 h4 => ?_
  have hvirt := h.virt
  have hvirt' := h'.virt
  have hlen := h.len
  have hlen' := h'.len
  have hlt := t.virt.toNat_lt
  have hlt' := t'.virt.toNat_lt
  have hcanonical := h.canonical
  have hcanonical' := h'.canonical
  unfold CanonicalRange at hcanonical hcanonical'
  unfold Apart at hapart
  unfold pageOf at *
  omega

/-- A range inside another is in the same half, so their pages differ from their addresses by the same
amount. -/
theorem same_half (h' : t'.Sits) (hlower : t'.virt.toNat ≤ t.virt.toNat)
    (hupper : t.virt.toNat + t.len.toNat ≤ t'.virt.toNat + t'.len.toNat)
    (hpos : 0 < t.len.toNat / 4096) : ∃ base, base % 2 ^ 27 = 0 ∧
      t.virt.toNat / 4096 = base + pageOf t.virt ∧ t'.virt.toNat / 4096 = base + pageOf t'.virt := by
  have hlt := t.virt.toNat_lt
  have hlt' := t'.virt.toNat_lt
  have hcanonical' := h'.canonical
  unfold CanonicalRange at hcanonical'
  unfold pageOf
  rcases hcanonical' with hlow | ⟨hhigh, hend⟩
  · exact ⟨0, by omega, by omega, by omega⟩
  · exact ⟨2 ^ 52 - 2 ^ 36, by omega, by omega, by omega⟩

section

variable (h : t.Sits) (h' : t'.Sits) (hlower : t'.virt.toNat ≤ t.virt.toNat)
  (hupper : t.virt.toNat + t.len.toNat ≤ t'.virt.toNat + t'.len.toNat)
  (hoff : t.virt.toNat + t'.phys.toNat = t'.virt.toNat + t.phys.toNat)

include h h' hlower hupper hoff

/-- Two ranges at one offset, the first inside the second. -/
theorem meets_of_offset : t.Meets t' := by
  intro q hq q' hq'
  have hof := h.of_mem_cuts hq
  have hof' := h'.of_mem_cuts hq'
  have hvirt := h.virt
  have hvirt' := h'.virt
  have hlen := h.len
  have hlen' := h'.len
  have hqlower := hof.lower
  have hqupper := hof.upper
  obtain ⟨base, hbase, hpage, hpage'⟩ := h'.same_half hlower hupper (by omega)
  have hstart : pageOf t'.virt ≤ pageOf t.virt := by omega
  have hstop : pageOf t.virt + t.len.toNat / 4096 ≤ pageOf t'.virt + t'.len.toNat / 4096 := by omega
  refine hof.meets_of_offset hof' hvirt hvirt' (by omega) fun hsame h1 h2 => ?_
  rw [← hsame]
  exact ⟨hstart.trans h1, h2.trans hstop⟩

/-- **They fit** exactly if every block of the second that meets the first is inside it. -/
theorem fits_iff : t.Fits t' ↔ (t'.virt.toNat % 2 ^ 21 = t'.phys.toNat % 2 ^ 21 → ∀ b,
      t'.virt.toNat ≤ b * 2 ^ 21 → (b + 1) * 2 ^ 21 ≤ t'.virt.toNat + t'.len.toNat →
      ¬ Apart (b * 2 ^ 21) (2 ^ 21) t.virt.toNat t.len.toNat →
      t.virt.toNat ≤ b * 2 ^ 21 ∧ (b + 1) * 2 ^ 21 ≤ t.virt.toNat + t.len.toNat) := by
  have hvirt := h.virt
  have hvirt' := h'.virt
  have hlen := h.len
  have hlen' := h'.len
  constructor
  · intro hfits hcong b hstart hstop hmeet
    unfold Apart at hmeet
    obtain ⟨base, hbase, hpage, hpage'⟩ := h'.same_half hlower hupper (by omega)
    -- both ranges have a piece in the block, and these are one
    obtain ⟨v, hv, hblock⟩ : ∃ v, (pageOf t.virt ≤ v ∧ v < pageOf t.virt + t.len.toNat / 4096) ∧
        base / 512 + v / 512 = b := by
      by_cases hfirst : b * 512 ≤ t.virt.toNat / 4096
      · exact ⟨pageOf t.virt, by omega, by omega⟩
      · exact ⟨b * 512 - base, by omega, by omega⟩
    obtain ⟨q, hq, hqv⟩ := exists_mem_cuts t.phys h.virt h.span hv.1 hv.2
    obtain ⟨q', hq', hqv'⟩ := exists_mem_cuts t'.phys (v := v) h'.virt h'.span (by omega)
      (by omega)
    have hhuge' : q'.huge = true := (h'.of_mem_cuts hq').huge.2 ⟨hcong, by omega, by omega⟩
    have hone := (hfits q hq q' hq').eq_of_same (by
      rw [if_pos (Or.inr hhuge')]
      omega)
    obtain ⟨-, hin⟩ := (h.of_mem_cuts hq).huge.1 (hone ▸ hhuge')
    exact ⟨by omega, by omega⟩
  · intro hblock q hq q' hq'
    refine (h.meets_of_offset h' hlower hupper hoff q hq q' hq').resolve_right ?_
    rintro ⟨hsmall, hhuge', hsame⟩
    have hof := h.of_mem_cuts hq
    have hqlower := hof.lower
    have hqupper := hof.upper
    obtain ⟨base, hbase, hpage, hpage'⟩ := h'.same_half hlower hupper (by omega)
    obtain ⟨hcong, hstart, hstop⟩ := (h'.of_mem_cuts hq').huge.1 hhuge'
    rw [← hsame] at hstart hstop
    have hin := hblock hcong (base / 512 + q.page / 512) (by omega) (by omega)
      (by unfold Apart; omega)
    have hinside : pageOf t.virt ≤ q.page / 512 * 512 ∧
        q.page / 512 * 512 + 512 ≤ pageOf t.virt + t.len.toNat / 4096 := by
      constructor <;> omega
    rw [hof.huge.2 ⟨by omega, hinside⟩] at hsmall
    cases hsmall

end

theorem fits_self (h : t.Sits) : t.Fits t :=
  (h.fits_iff h (Nat.le_refl _) (Nat.le_refl _) rfl).2 fun _ _ hstart hstop _ => ⟨hstart, hstop⟩

end Sits

end Target

/-! ## Consistent memory maps -/

/-- The range of the kernel image. -/
def imageTarget (kstart kend kernelPhysBase kernelVirtBase : UInt64) : Target :=
  ⟨kstart, kernelPhysBase + (kstart - kernelVirtBase), alignUp (kend - kstart) PAGE⟩

/-- The range of an entry in the kernel window. -/
def kernelTarget (kernelPhysBase kernelVirtBase : UInt64) (entry : MemmapEntry) : Target :=
  ⟨kernelVirtBase + (entry.base - kernelPhysBase), entry.base, entry.length⟩

/-- The range of an entry in the direct map. -/
def directTarget (hhdm : UInt64) (entry : MemmapEntry) : Target :=
  ⟨hhdm + entry.base, entry.base, entry.length⟩

/-- The entry is mapped in the kernel window. -/
def MemmapEntry.InKernel (entry : MemmapEntry) (kernelPhysBase : UInt64) : Prop :=
  entry.kind = MEMMAP_EXECUTABLE_AND_MODULES ∧ kernelPhysBase ≤ entry.base

instance (entry : MemmapEntry) (kernelPhysBase : UInt64) : Decidable (entry.InKernel kernelPhysBase) :=
  inferInstanceAs (Decidable (_ ∧ _))

/-- **What a boot loader guarantees**: the entries of the memory map are whole pages and disjoint, the
kernel image is inside the entry `image`, which begins at `kernel_phys_base`, and the kernel window and
the direct map are canonical and disjoint. -/
structure Consistent (kstart kend hhdm kernelPhysBase kernelVirtBase : UInt64)
    (entries : List MemmapEntry) (image : MemmapEntry) : Prop where
  size : kstart < kend
  base : kernelVirtBase ≤ kstart
  pages : kstart.toNat % 4096 = 0 ∧ kernelVirtBase.toNat % 4096 = 0 ∧ hhdm.toNat % 4096 = 0
  aligned : ∀ e ∈ entries, e.base.toNat % 4096 = 0 ∧ e.length.toNat % 4096 = 0
  ends : ∀ e ∈ entries, e.base.toNat + e.length.toNat < 2 ^ 64
  disjoint : entries.Pairwise fun e e' =>
    Apart e.base.toNat e.length.toNat e'.base.toNat e'.length.toNat
  image_mem : image ∈ entries
  image_kind : image.kind = MEMMAP_EXECUTABLE_AND_MODULES
  image_base : image.base = kernelPhysBase
  image_length : kstart.toNat - kernelVirtBase.toNat + (alignUp (kend - kstart) PAGE).toNat ≤
    image.length.toNat
  kernel : ∀ e ∈ entries, e.InKernel kernelPhysBase →
    CanonicalRange (kernelVirtBase.toNat + (e.base.toNat - kernelPhysBase.toNat)) e.length.toNat
  direct : ∀ e ∈ entries, hhdmMappedRev3 e.kind = true →
    CanonicalRange (hhdm.toNat + e.base.toNat) e.length.toNat
  windows : ∀ e ∈ entries, e.InKernel kernelPhysBase → ∀ e' ∈ entries, hhdmMappedRev3 e'.kind = true →
    Apart (kernelVirtBase.toNat + (e.base.toNat - kernelPhysBase.toNat)) e.length.toNat
      (hhdm.toNat + e'.base.toNat) e'.length.toNat

/-- A block of 2 MiB of the image's entry is inside the kernel image or does not meet it, if the kernel
window and physical memory are aligned alike (with another offset there are no large pages). -/
def WholeBlocks (kstart kend kernelPhysBase kernelVirtBase : UInt64) (image : MemmapEntry) : Prop :=
  kernelVirtBase.toNat % 2 ^ 21 = kernelPhysBase.toNat % 2 ^ 21 → ∀ b,
    kernelVirtBase.toNat ≤ b * 2 ^ 21 →
    (b + 1) * 2 ^ 21 ≤ kernelVirtBase.toNat + image.length.toNat →
    ¬ Apart (b * 2 ^ 21) (2 ^ 21) kstart.toNat (alignUp (kend - kstart) PAGE).toNat →
    kstart.toNat ≤ b * 2 ^ 21 ∧
      (b + 1) * 2 ^ 21 ≤ kstart.toNat + (alignUp (kend - kstart) PAGE).toNat

/-- Rounding changes nothing in an entry of whole pages. -/
theorem mem_entryRanges_of_pages {hhdm kernelPhysBase kernelVirtBase : UInt64} {entry : MemmapEntry}
    {t : Target} (hbase : entry.base.toNat % 4096 = 0) (hlength : entry.length.toNat % 4096 = 0)
    (hend : entry.base.toNat + entry.length.toNat < 2 ^ 64) :
    t ∈ entryRanges hhdm kernelPhysBase kernelVirtBase entry ↔ 0 < entry.length.toNat ∧
      (entry.InKernel kernelPhysBase ∧ t = kernelTarget kernelPhysBase kernelVirtBase entry ∨
        hhdmMappedRev3 entry.kind = true ∧ t = directTarget hhdm entry) := by
  have hlt := entry.base.toNat_lt
  have hup : alignUp entry.base PAGE = entry.base := by
    rw [← UInt64.toNat_inj, alignUp, BumpAllocator.toNat_round_up (by omega)]
    omega
  have hsum : (entry.base + entry.length).toNat = entry.base.toNat + entry.length.toNat := by
    rw [UInt64.toNat_add]
    omega
  have hstop : alignDown (saturatingAdd entry.base entry.length) PAGE =
      entry.base + entry.length := by
    rw [← UInt64.toNat_inj, toNat_alignDown, toNat_saturatingAdd, hsum]
    omega
  have hlen : entry.base + entry.length - entry.base = entry.length := by grind
  have hkeep : ¬ (entry.length = 0 ∨ entry.base + entry.length ≤ entry.base) ↔
      0 < entry.length.toNat := by
    rw [← UInt64.toNat_inj, UInt64.le_iff_toNat_le, hsum]
    show ¬ (entry.length.toNat = 0 ∨ _) ↔ _
    omega
  rw [mem_entryRanges, hup, hstop, hlen, hkeep, MemmapEntry.InKernel, and_assoc]
  rfl

namespace Consistent

variable {kstart kend hhdm kernelPhysBase kernelVirtBase : UInt64} {entries : List MemmapEntry}
  {image e e' : MemmapEntry} {t t' : Target}
  (h : Consistent kstart kend hhdm kernelPhysBase kernelVirtBase entries image)

include h

theorem image_inKernel :
    image.InKernel kernelPhysBase :=
  ⟨h.image_kind, UInt64.le_of_eq h.image_base.symm⟩

theorem apart
    (he : e ∈ entries) (he' : e' ∈ entries) (hne : e ≠ e') :
    Apart e.base.toNat e.length.toNat e'.base.toNat e'.length.toNat := by
  have : Std.Symm fun e e' : MemmapEntry =>
      Apart e.base.toNat e.length.toNat e'.base.toNat e'.length.toNat := ⟨fun _ _ h => h.symm⟩
  exact h.disjoint.forall he he' hne

theorem kernelTarget_virt (he : e ∈ entries)
    (hpos : 0 < e.length.toNat) (hin : e.InKernel kernelPhysBase) :
    (kernelTarget kernelPhysBase kernelVirtBase e).virt.toNat =
      kernelVirtBase.toNat + (e.base.toNat - kernelPhysBase.toNat) := by
  have hcanonical := h.kernel e he hin
  unfold CanonicalRange at hcanonical
  rw [kernelTarget, UInt64.toNat_add, UInt64.toNat_sub_of_le _ _ hin.2]
  omega

theorem directTarget_virt (he : e ∈ entries)
    (hpos : 0 < e.length.toNat) (hkind : hhdmMappedRev3 e.kind = true) :
    (directTarget hhdm e).virt.toNat = hhdm.toNat + e.base.toNat := by
  have hcanonical := h.direct e he hkind
  unfold CanonicalRange at hcanonical
  rw [directTarget, UInt64.toNat_add]
  omega

theorem kernelTarget_sits (he : e ∈ entries)
    (hpos : 0 < e.length.toNat) (hin : e.InKernel kernelPhysBase) :
    (kernelTarget kernelPhysBase kernelVirtBase e).Sits := by
  have hvirt := h.kernelTarget_virt he hpos hin
  obtain ⟨hbase, hlength⟩ := h.aligned e he
  have hphysBase := h.image_base ▸ (h.aligned image h.image_mem).1
  have hpages := h.pages
  refine ⟨by omega, hbase, hlength, ?_⟩
  rw [hvirt]
  exact h.kernel e he hin

theorem directTarget_sits (he : e ∈ entries)
    (hpos : 0 < e.length.toNat) (hkind : hhdmMappedRev3 e.kind = true) :
    (directTarget hhdm e).Sits := by
  have hvirt := h.directTarget_virt he hpos hkind
  obtain ⟨hbase, hlength⟩ := h.aligned e he
  have hpages := h.pages
  refine ⟨by omega, hbase, hlength, ?_⟩
  rw [hvirt]
  exact h.direct e he hkind

theorem imageTarget_phys :
    (imageTarget kstart kend kernelPhysBase kernelVirtBase).phys.toNat =
      kernelPhysBase.toNat + (kstart.toNat - kernelVirtBase.toNat) := by
  have hend := h.image_base ▸ h.ends image h.image_mem
  have hlength := h.image_length
  rw [imageTarget, UInt64.toNat_add, UInt64.toNat_sub_of_le _ _ h.base]
  omega

theorem imageTarget_sits :
    (imageTarget kstart kend kernelPhysBase kernelVirtBase).Sits := by
  have hphys := h.imageTarget_phys
  have hphysBase := h.image_base ▸ (h.aligned image h.image_mem).1
  have hpages := h.pages
  have hbase := UInt64.le_iff_toNat_le.1 h.base
  have hlength := h.image_length
  have hcanonical := h.kernel image h.image_mem h.image_inKernel
  rw [h.image_base] at hcanonical
  refine ⟨hpages.1, by omega, toNat_alignUp_mod _, ?_⟩
  unfold CanonicalRange at *
  unfold imageTarget
  dsimp only
  omega

/-- The ranges of the entries. -/
theorem cases_of_mem (ht : t ∈ entries.flatMap (entryRanges hhdm kernelPhysBase kernelVirtBase)) :
    ∃ e ∈ entries, 0 < e.length.toNat ∧
      (e.InKernel kernelPhysBase ∧ t = kernelTarget kernelPhysBase kernelVirtBase e ∨
        hhdmMappedRev3 e.kind = true ∧ t = directTarget hhdm e) := by
  obtain ⟨e, he, ht⟩ := List.mem_flatMap.1 ht
  obtain ⟨hbase, hlength⟩ := h.aligned e he
  exact ⟨e, he, (mem_entryRanges_of_pages hbase hlength (h.ends e he)).1 ht⟩

theorem sits (ht : t ∈ buildRanges kstart kend hhdm kernelPhysBase kernelVirtBase entries) :
    t.Sits := by
  rcases List.mem_cons.1 ht with rfl | ht
  · exact h.imageTarget_sits
  · obtain ⟨e, he, hpos, ⟨hin, rfl⟩ | ⟨hkind, rfl⟩⟩ := h.cases_of_mem ht
    · exact h.kernelTarget_sits he hpos hin
    · exact h.directTarget_sits he hpos hkind

theorem image_pos : 0 < image.length.toNat := by
  have hsize := UInt64.lt_iff_toNat_lt.1 h.size
  have hlength := h.image_length
  have hround : 0 < (alignUp (kend - kstart) PAGE).toNat := by
    have hlow : (PAGE - 1).toNat = 4095 := by decide
    rw [alignUp, BumpAllocator.toNat_and_not_page, toNat_saturatingAdd, hlow,
      UInt64.toNat_sub_of_le _ _ (UInt64.le_of_lt h.size)]
    omega
  omega

/-- The entry that the image is in, in the kernel window. -/
theorem kernelTarget_image :
    (kernelTarget kernelPhysBase kernelVirtBase image).virt.toNat = kernelVirtBase.toNat ∧
      (kernelTarget kernelPhysBase kernelVirtBase image).phys.toNat = kernelPhysBase.toNat := by
  refine ⟨?_, congrArg UInt64.toNat h.image_base⟩
  rw [h.kernelTarget_virt h.image_mem h.image_pos h.image_inKernel, h.image_base]
  omega

/-- The image is inside its entry, at the same offset. -/
theorem image_inside : kernelVirtBase.toNat ≤ kstart.toNat ∧
    (imageTarget kstart kend kernelPhysBase kernelVirtBase).virt.toNat +
        (imageTarget kstart kend kernelPhysBase kernelVirtBase).len.toNat ≤
      kernelVirtBase.toNat + (kernelTarget kernelPhysBase kernelVirtBase image).len.toNat ∧
    (imageTarget kstart kend kernelPhysBase kernelVirtBase).virt.toNat + kernelPhysBase.toNat =
      kernelVirtBase.toNat + (imageTarget kstart kend kernelPhysBase kernelVirtBase).phys.toNat := by
  have hbase := UInt64.le_iff_toNat_le.1 h.base
  have hlength := h.image_length
  rw [h.imageTarget_phys]
  unfold imageTarget kernelTarget
  dsimp only
  omega

/-- **The image fits its entry** exactly if the blocks are whole. -/
theorem image_fits_iff :
    (imageTarget kstart kend kernelPhysBase kernelVirtBase).Fits
        (kernelTarget kernelPhysBase kernelVirtBase image) ↔
      WholeBlocks kstart kend kernelPhysBase kernelVirtBase image := by
  obtain ⟨hvirt, hphys⟩ := h.kernelTarget_image
  obtain ⟨hlower, hupper, hoff⟩ := h.image_inside
  have hfits := h.imageTarget_sits.fits_iff
    (h.kernelTarget_sits h.image_mem h.image_pos h.image_inKernel) (hvirt ▸ hlower)
    (by rw [hvirt]; exact hupper) (by rw [hvirt, hphys]; exact hoff)
  rw [hvirt, hphys] at hfits
  exact hfits

/-- The image and its entry in the kernel window. -/
theorem image_meets :
    (imageTarget kstart kend kernelPhysBase kernelVirtBase).Meets
      (kernelTarget kernelPhysBase kernelVirtBase image) := by
  obtain ⟨hvirt, hphys⟩ := h.kernelTarget_image
  obtain ⟨hlower, hupper, hoff⟩ := h.image_inside
  exact h.imageTarget_sits.meets_of_offset
    (h.kernelTarget_sits h.image_mem h.image_pos h.image_inKernel) (hvirt ▸ hlower)
    (by rw [hvirt]; exact hupper) (by rw [hvirt, hphys]; exact hoff)

/-- The image and another entry of the kernel window. -/
theorem image_fits_kernel (he : e ∈ entries) (hpos : 0 < e.length.toNat)
    (hin : e.InKernel kernelPhysBase) (hne : image ≠ e) :
    (imageTarget kstart kend kernelPhysBase kernelVirtBase).Fits
      (kernelTarget kernelPhysBase kernelVirtBase e) := by
  have hvirt := h.kernelTarget_virt he hpos hin
  have hbase := UInt64.le_iff_toNat_le.1 h.base
  have hlength := h.image_length
  refine h.imageTarget_sits.fits_of_apart (h.kernelTarget_sits he hpos hin) ?_
  have hapart := h.apart h.image_mem he hne
  have hle := UInt64.le_iff_toNat_le.1 hin.2
  rw [h.image_base] at hapart
  rw [hvirt]
  unfold Apart at *
  unfold imageTarget kernelTarget
  dsimp only
  omega

theorem image_fits_direct (he : e ∈ entries)
    (hpos : 0 < e.length.toNat) (hkind : hhdmMappedRev3 e.kind = true) :
    (imageTarget kstart kend kernelPhysBase kernelVirtBase).Fits (directTarget hhdm e) := by
  refine h.imageTarget_sits.fits_of_apart (h.directTarget_sits he hpos hkind) ?_
  have hapart := h.windows image h.image_mem h.image_inKernel e he hkind
  have hbase := UInt64.le_iff_toNat_le.1 h.base
  have hlength := h.image_length
  rw [h.image_base] at hapart
  rw [h.directTarget_virt he hpos hkind]
  unfold Apart at *
  unfold imageTarget directTarget
  dsimp only
  omega

theorem kernel_fits_kernel (he : e ∈ entries)
    (hpos : 0 < e.length.toNat) (hin : e.InKernel kernelPhysBase) (he' : e' ∈ entries)
    (hpos' : 0 < e'.length.toNat) (hin' : e'.InKernel kernelPhysBase) :
    (kernelTarget kernelPhysBase kernelVirtBase e).Fits
      (kernelTarget kernelPhysBase kernelVirtBase e') := by
  have hsits := h.kernelTarget_sits he hpos hin
  by_cases hsame : e = e'
  · rw [← hsame]
    exact hsits.fits_self
  · refine hsits.fits_of_apart (h.kernelTarget_sits he' hpos' hin') ?_
    have hapart := h.apart he he' hsame
    have hle := UInt64.le_iff_toNat_le.1 hin.2
    have hle' := UInt64.le_iff_toNat_le.1 hin'.2
    rw [h.kernelTarget_virt he hpos hin, h.kernelTarget_virt he' hpos' hin']
    unfold Apart at *
    unfold kernelTarget
    dsimp only
    omega

theorem kernel_fits_direct (he : e ∈ entries)
    (hpos : 0 < e.length.toNat) (hin : e.InKernel kernelPhysBase) (he' : e' ∈ entries)
    (hpos' : 0 < e'.length.toNat) (hkind : hhdmMappedRev3 e'.kind = true) :
    (kernelTarget kernelPhysBase kernelVirtBase e).Fits (directTarget hhdm e') := by
  refine (h.kernelTarget_sits he hpos hin).fits_of_apart (h.directTarget_sits he' hpos' hkind) ?_
  rw [h.kernelTarget_virt he hpos hin, h.directTarget_virt he' hpos' hkind]
  exact h.windows e he hin e' he' hkind

theorem direct_fits_direct (he : e ∈ entries)
    (hpos : 0 < e.length.toNat) (hkind : hhdmMappedRev3 e.kind = true) (he' : e' ∈ entries)
    (hpos' : 0 < e'.length.toNat) (hkind' : hhdmMappedRev3 e'.kind = true) :
    (directTarget hhdm e).Fits (directTarget hhdm e') := by
  have hsits := h.directTarget_sits he hpos hkind
  by_cases hsame : e = e'
  · rw [← hsame]
    exact hsits.fits_self
  · refine hsits.fits_of_apart (h.directTarget_sits he' hpos' hkind') ?_
    have hapart := h.apart he he' hsame
    rw [h.directTarget_virt he hpos hkind, h.directTarget_virt he' hpos' hkind']
    unfold Apart at *
    unfold directTarget
    dsimp only
    omega

/-- The ranges of the entries fit each other. -/
theorem entries_fit (ht : t ∈ entries.flatMap (entryRanges hhdm kernelPhysBase kernelVirtBase))
    (ht' : t' ∈ entries.flatMap (entryRanges hhdm kernelPhysBase kernelVirtBase)) : t.Fits t' := by
  obtain ⟨e, he, hpos, ⟨hin, rfl⟩ | ⟨hkind, rfl⟩⟩ := h.cases_of_mem ht <;>
    obtain ⟨e', he', hpos', ⟨hin', rfl⟩ | ⟨hkind', rfl⟩⟩ := h.cases_of_mem ht'
  · exact h.kernel_fits_kernel he hpos hin he' hpos' hin'
  · exact h.kernel_fits_direct he hpos hin he' hpos' hkind'
  · exact (h.kernel_fits_direct he' hpos' hin' he hpos hkind).symm
  · exact h.direct_fits_direct he hpos hkind he' hpos' hkind'

/-- What is left are the image and the entries. -/
theorem pairwise_iff {R : Piece → Piece → Prop} (hR : ∀ p q : Piece, p.Fits q → R p q) :
    (buildPieces kstart kend hhdm kernelPhysBase kernelVirtBase entries).Pairwise R ↔
      ∀ q ∈ (imageTarget kstart kend kernelPhysBase kernelVirtBase).cuts,
        ∀ q' ∈ (kernelTarget kernelPhysBase kernelVirtBase image).cuts, R q q' := by
  have himage : kernelTarget kernelPhysBase kernelVirtBase image ∈
      entries.flatMap (entryRanges hhdm kernelPhysBase kernelVirtBase) := by
    obtain ⟨hbase, hlength⟩ := h.aligned image h.image_mem
    exact List.mem_flatMap.2 ⟨image, h.image_mem, (mem_entryRanges_of_pages hbase hlength
      (h.ends image h.image_mem)).2 ⟨h.image_pos, Or.inl ⟨h.image_inKernel, rfl⟩⟩⟩
  rw [buildPieces, buildRanges, List.flatMap_cons, List.pairwise_append]
  constructor
  · rintro ⟨-, -, hcross⟩ q hq q' hq'
    exact hcross q hq q' (List.mem_flatMap.2 ⟨_, himage, hq'⟩)
  · intro hcross
    refine ⟨?_, ?_, fun q hq q' hq' => ?_⟩
    · exact List.pairwise_of_forall_mem_list fun q hq q' hq' =>
        hR q q' (h.imageTarget_sits.fits_self q hq q' hq')
    · refine List.pairwise_of_forall_mem_list fun q hq q' hq' => ?_
      obtain ⟨t, ht, hq⟩ := List.mem_flatMap.1 hq
      obtain ⟨t', ht', hq'⟩ := List.mem_flatMap.1 hq'
      exact hR q q' (h.entries_fit ht ht' q hq q' hq')
    · obtain ⟨t, ht, hq'⟩ := List.mem_flatMap.1 hq'
      obtain ⟨e, he, hpos, ⟨hin, rfl⟩ | ⟨hkind, rfl⟩⟩ := h.cases_of_mem ht
      · by_cases hsame : image = e
        · subst hsame
          exact hcross q hq q' hq'
        · exact hR q q' (h.image_fits_kernel he hpos hin hsame q hq q' hq')
      · exact hR q q' (h.image_fits_direct he hpos hkind q hq q' hq')

end Consistent

/-- **On a consistent memory map `build` succeeds**, and takes exactly the pages that its tables need,
exactly if no block of 2 MiB of the image's entry is partly inside the kernel image; otherwise it stops
at such a block. -/
theorem build_succeeds {k : Kernel} {kstart kend hhdm kernelPhysBase kernelVirtBase : UInt64}
    {entries : List MemmapEntry} {image : MemmapEntry}
    (hconsistent : Consistent kstart kend hhdm kernelPhysBase kernelVirtBase entries image)
    (hwf : k.bump.Wf) (hwidth : k.bump.end.toNat ≤ 2 ^ 52)
    (hroom : k.bump.cursor.toNat +
      4096 * tablesNeeded k.la57 kstart kend hhdm kernelPhysBase kernelVirtBase entries ≤
        k.bump.end.toNat) :
    (WholeBlocks kstart kend kernelPhysBase kernelVirtBase image →
      ∃ map k', build kstart kend hhdm kernelPhysBase kernelVirtBase entries k = .ok map k' ∧
        k'.bump.cursor.toNat = k.bump.cursor.toNat +
          4096 * tablesNeeded k.la57 kstart kend hhdm kernelPhysBase kernelVirtBase entries) ∧
    (¬ WholeBlocks kstart kend kernelPhysBase kernelVirtBase image →
      ∃ k', build kstart kend hhdm kernelPhysBase kernelVirtBase entries k =
        .error "huge/4k page collision" k') := by
  have hmeets := (hconsistent.pairwise_iff fun _ _ hfits => Or.inl hfits).2 hconsistent.image_meets
  have hwhole := (hconsistent.pairwise_iff fun _ _ hfits => hfits).trans hconsistent.image_fits_iff
  have hbuild := build_takes hwf hwidth hconsistent.size hconsistent.base rfl
    (fun t ht => ⟨(hconsistent.sits ht).virt, (hconsistent.sits ht).phys⟩) hmeets rfl hroom
  cases hx : build kstart kend hhdm kernelPhysBase kernelVirtBase entries k with
  | ok map k' =>
    obtain ⟨hfits, hcursor⟩ := wp_ok hbuild hx
    exact ⟨fun _ => ⟨map, k', rfl, hcursor⟩, fun hno => absurd (hwhole.1 hfits) hno⟩
  | error e k' =>
    obtain ⟨rfl, hno⟩ := wp_error hbuild hx
    exact ⟨fun hblocks => absurd (hwhole.2 hblocks) hno, fun _ => ⟨k', rfl⟩⟩

/-- A kernel of one page, in an entry of one page. -/
def pageEntry : MemmapEntry := ⟨0x600000, 0x1000, MEMMAP_EXECUTABLE_AND_MODULES⟩

theorem build_succeeds_page : ∃ map k', build 0xffffffff80000000 0xffffffff80001000
      0xffff800000000000 0x600000 0xffffffff80000000 (pageEntry :: smallMap)
      ⟨fun _ => 0, smallBump, 0, true⟩ = .ok map k' ∧
    k'.bump.cursor.toNat = 0x200000 + 4096 * tablesNeeded true 0xffffffff80000000 0xffffffff80001000
      0xffff800000000000 0x600000 0xffffffff80000000 (pageEntry :: smallMap) := by
  have hconsistent : Consistent 0xffffffff80000000 0xffffffff80001000 0xffff800000000000 0x600000
      0xffffffff80000000 (pageEntry :: smallMap) pageEntry := by
    constructor <;> decide
  have hblocks : WholeBlocks 0xffffffff80000000 0xffffffff80001000 0x600000 0xffffffff80000000
      pageEntry := by
    intro _ b hlower hupper
    have hvirt : UInt64.toNat 0xffffffff80000000 = 0xffffffff80000000 := rfl
    have hlength : pageEntry.length.toNat = 0x1000 := rfl
    omega
  have hwf : smallBump.Wf := ⟨by decide, by decide, by decide, by decide⟩
  exact (build_succeeds (k := ⟨fun _ => 0, smallBump, 0, true⟩) hconsistent hwf (by decide)
    (by decide +kernel)).1 hblocks

/-- The same kernel, in an entry of 2 MiB. -/
def blockEntry : MemmapEntry := ⟨0x600000, 0x200000, MEMMAP_EXECUTABLE_AND_MODULES⟩

/-- **The image and its entry may collide**: the image is mapped with small pages, and then the block
that it begins with is to be a large page. -/
theorem build_collides :
    Consistent 0xffffffff80000000 0xffffffff80001000 0xffff800000000000 0x600000 0xffffffff80000000
      (blockEntry :: smallMap) blockEntry ∧
    smallBump.Wf ∧ smallBump.end.toNat ≤ 2 ^ 52 ∧
    smallBump.cursor.toNat + 4096 * tablesNeeded false 0xffffffff80000000 0xffffffff80001000
      0xffff800000000000 0x600000 0xffffffff80000000 (blockEntry :: smallMap) ≤ smallBump.end.toNat ∧
    resultOf (build 0xffffffff80000000 0xffffffff80001000 0xffff800000000000 0x600000
      0xffffffff80000000 (blockEntry :: smallMap) ⟨fun _ => 0, smallBump, 0, false⟩) =
        .error "huge/4k page collision" := by
  refine ⟨?_, ⟨by decide, by decide, by decide, by decide⟩, by decide, by decide +kernel,
    by decide +kernel⟩
  constructor <;> decide

end RootCourt

end CourtKernel
