import CourtKernel.RootCourt.Build

/-!
# The regions of the kernel's tables

`build` maps the kernel image, the loaded executable and the direct map (HHDM) into one tree of
tables, from a memory map that may be unsorted, unaligned and overlapping.

* `Intended` — what the tables are to translate, read off the parameters of `build`.
* `build_maps_exactly` — if `build` succeeds, the tables translate exactly that, and `table_pages`
  counts the pages it took from the allocator.
* `allocator_pages_reachable` — every page that the allocator grants at any time is in the direct
  map.

The first half is about the ranges of `build`, the second about the count: `Counted` holds between
the start and the end of every run of the mapper.
-/

namespace CourtKernel

namespace RootCourt

open Radix (walk visits)

/-! ## Pages taken from the allocator -/

/-- All pages that a mapper takes from the allocator are counted in `table_pages`. -/
structure Mapper.Counted (s s' : Mapper) : Prop where
  allocs : s.bump.Allocs s'.bump
  pages : s.bump.Wf → ∃ n : Nat, s'.bump.cursor.toNat = s.bump.cursor.toNat + n * 4096 ∧
    s'.tablePages = s.tablePages + UInt64.ofNat n

namespace Mapper

instance : Std.Refl Counted := ⟨fun s => ⟨.refl _, fun _ => ⟨0, by simp, by simp⟩⟩⟩

instance : Trans Counted Counted Counted where
  trans {s s₁ s₂} h₁ h₂ := by
    refine ⟨h₁.allocs.trans h₂.allocs, fun hwf => ?_⟩
    obtain ⟨n, hcursor, hpages⟩ := h₁.pages hwf
    obtain ⟨n', hcursor', hpages'⟩ := h₂.pages (h₁.allocs.spec hwf).1
    refine ⟨n + n', by omega, ?_⟩
    rw [hpages', hpages, UInt64.ofNat_add, UInt64.add_assoc]

theorem allocTable_counted : Keeps Counted allocTable := by
  intro s
  unfold allocTable
  rw [wp_bind, wp_get]
  cases halloc : s.bump.allocPages 1 with
  | none => exact (wp_throw _).2 (Std.Refl.refl s)
  | some grant =>
    obtain ⟨phys, bump⟩ := grant
    rw [wp_bind, wp_modify, wp_pure]
    refine ⟨.step (.refl _) halloc, fun hwf => ⟨1, ?_, rfl⟩⟩
    obtain ⟨hphys, -, -, hcursor⟩ := BumpAllocator.allocPages_spec hwf halloc
    rw [← hphys]
    exact hcursor

theorem readEntry_counted {t : UInt64} {i : Nat} : Keeps Counted (readEntry t i) :=
  .bind .get fun _ => .pure _

theorem writeEntry_counted {t : UInt64} {i : Nat} {v : UInt64} : Keeps Counted (writeEntry t i v) := by
  intro s
  rw [writeEntry, wp_modify]
  exact ⟨.refl _, fun _ => ⟨0, by simp, by simp⟩⟩

theorem ensureTable_counted {t : UInt64} {i : Nat} : Keeps Counted (ensureTable t i) :=
  .bind readEntry_counted fun _ => .ite (.ite (.throw _) (.pure _))
    (.bind allocTable_counted fun _ => .bind writeEntry_counted fun _ => .pure _)

theorem map4k_counted {virt phys : UInt64} : Keeps Counted (map4k virt phys) :=
  .bind .get fun _ => .bind ensureTable_counted fun _ => .bind ensureTable_counted fun _ =>
    .bind ensureTable_counted fun _ => .bind readEntry_counted fun _ =>
      .ite (.ite (.throw _) (.pure _)) writeEntry_counted

theorem map2m_counted {virt phys : UInt64} : Keeps Counted (map2m virt phys) :=
  .bind .get fun _ => .bind ensureTable_counted fun _ => .bind ensureTable_counted fun _ =>
    .bind readEntry_counted fun _ =>
      .ite (.ite (.throw _) (.ite (.throw _) (.pure _))) writeEntry_counted

theorem mapRangeLoop_counted (fuel : Nat) :
    ∀ virt phys len, Keeps Counted (mapRangeLoop fuel virt phys len) := by
  induction fuel with
  | zero => exact fun _ _ _ => .pure ()
  | succ fuel ih =>
    exact fun virt phys len =>
      .ite (.ite (.bind map2m_counted fun _ => ih _ _ _)
        (.bind map4k_counted fun _ => ih _ _ _)) (.pure ())

theorem mapRange_counted {virt phys len : UInt64} : Keeps Counted (mapRange virt phys len) :=
  .ite (.throw _) (mapRangeLoop_counted _ _ _ _)

theorem wrapLa57_counted {pml4 : UInt64} : Keeps Counted (wrapLa57 pml4) :=
  .bind allocTable_counted fun _ => .bind writeEntry_counted fun _ => .pure _

end Mapper

theorem buildEntries_counted (hhdm kernelPhysBase kernelVirtBase : UInt64)
    (entries : List MemmapEntry) (bytes spans : UInt64) :
    Keeps Mapper.Counted (buildEntries hhdm kernelPhysBase kernelVirtBase entries bytes spans) :=
  buildEntries_rule (P := fun _ x => Keeps Mapper.Counted x) (A := fun _ => True) (fun a => .pure a)
    (fun _ _ _ _ hx => .bind Mapper.mapRange_counted fun _ => hx) entries bytes spans
    fun _ _ => trivial

theorem buildRanges_counted {hhdm kernelPhysBase kernelVirtBase kstart kernelPhys kernelLen : UInt64}
    {entries : List MemmapEntry} :
    Keeps Mapper.Counted (Mapper.mapRange kstart kernelPhys kernelLen >>= fun _ =>
      buildEntries hhdm kernelPhysBase kernelVirtBase entries 0 0) :=
  .bind Mapper.mapRange_counted fun _ => buildEntries_counted _ _ _ _ _ _

theorem buildTables_counted {la57 : Bool} {pml4Phys hhdm kernelPhysBase kernelVirtBase kstart kernelPhys
    kernelLen : UInt64} {entries : List MemmapEntry} (s : Mapper) :
    wp (buildTables la57 pml4Phys hhdm kernelPhysBase kernelVirtBase kstart kernelPhys kernelLen
        entries)
      (fun map s' => s.Counted s' ∧ map.tablePages = s'.tablePages) (fun _ _ => True) s := by
  refine wp_buildTables (wp_mono (buildRanges_counted s) ?_ fun _ _ _ => trivial)
  intro mapped s₁ h₁
  have hcr3 : Keeps Mapper.Counted (if la57 = true then Mapper.wrapLa57 pml4Phys else pure pml4Phys) :=
    .ite Mapper.wrapLa57_counted (.pure _)
  exact wp_mono (hcr3 s₁) (fun _ _ h₂ => ⟨Trans.trans h₁ h₂, rfl⟩) fun _ _ _ => trivial

/-- **`table_pages` counts the pages that `build` takes.** -/
theorem build_counted {k : Kernel} (hwf : k.bump.Wf)
    {kstart kend hhdm kernelPhysBase kernelVirtBase : UInt64} {entries : List MemmapEntry} :
    wp (build kstart kend hhdm kernelPhysBase kernelVirtBase entries)
      (fun map k' => k.bump.Allocs k'.bump ∧
        k'.bump.cursor.toNat = k.bump.cursor.toNat + map.tablePages.toNat * 4096)
      (fun _ _ => True) k := by
  refine wp_build (fun _ _ => trivial) ?_
  unfold Mapper.allocTable
  rw [wp_bind, wp_get]
  cases halloc : k.bump.allocPages 1 with
  | none => exact (wp_throw _).2 trivial
  | some grant =>
    obtain ⟨pml4, bump⟩ := grant
    obtain ⟨hphys, -, hwf₁, hcursor⟩ := BumpAllocator.allocPages_spec hwf halloc
    dsimp only
    simp only [wp_bind, wp_modify, wp_pure]
    refine wp_mono (buildTables_counted _) ?_ fun _ _ _ => trivial
    rintro map s' ⟨hcounted, hpages⟩
    refine ⟨(BumpAllocator.Allocs.step (.refl _) halloc).trans hcounted.allocs, ?_⟩
    obtain ⟨n, hn, htable⟩ := hcounted.pages hwf₁
    -- the count starts with the PML4
    have hlt := s'.bump.cursor.toNat_lt
    have hone : UInt64.toNat 1 = 1 := rfl
    simp only at hn htable
    rw [hpages, htable, UInt64.toNat_add, UInt64.toNat_ofNat_of_lt' (by unfold UInt64.size; omega)]
    rw [hphys] at hcursor
    omega

/-! ## Ranges of addresses -/

/-- Addresses that the processor accepts with four levels. -/
def Canonical (va : UInt64) : Prop := va.toNat < 2 ^ 47 ∨ 2 ^ 64 - 2 ^ 47 ≤ va.toNat

section

variable {t : Target} {m : Memory} {r va : UInt64}

/-- An address of a range. -/
def Target.Covers (t : Target) (va : UInt64) : Prop :=
  t.virt.toNat ≤ va.toNat ∧ va.toNat < t.virt.toNat + t.len.toNat

theorem Target.Mapped.translate (ht : t.Mapped m r.toNat) (hhigh : t.High)
    (hphys : t.phys.toNat + t.len.toNat ≤ 2 ^ 52) (hlen : t.len.toNat % 4096 = 0)
    (hva : t.Covers va) :
    RootCourt.translate m r va = some (t.phys.toNat + (va.toNat - t.virt.toNat)) := by
  obtain ⟨h1, h2⟩ := hva
  obtain ⟨hlow, hend⟩ := hhigh
  have hvirt := ht.virt
  obtain ⟨off, hoff⟩ : ∃ off, va.toNat = t.virt.toNat + off := ⟨va.toNat - t.virt.toNat, by omega⟩
  have hshow := ht.shows (off / 4096) (by omega)
  have hpage : pageOf va = (pageOf t.virt + off / 4096) % 2 ^ 36 := by
    unfold pageOf
    omega
  rw [translate_eq, hpage, hshow, Option.map_some, Option.some.injEq]
  omega

/-- An address is in a range if its page is. -/
theorem Target.covers_of_pages (hhigh : t.High) (hvirt : t.virt.toNat % 4096 = 0)
    (hva : Canonical va) (h : t.pages (pageOf va)) : t.Covers va := by
  have hpage := hhigh.pages h
  have hlt := va.toNat_lt
  obtain ⟨j, hj, he⟩ := h
  obtain ⟨hlow, hend⟩ := hhigh
  unfold pageOf at *
  unfold Canonical at hva
  unfold Target.Covers
  omega

end

/-! ## What `build` is to map -/

/-- An address of an entry of the memory map, rounded inward to whole pages. -/
def MemmapEntry.Has (entry : MemmapEntry) (p : UInt64) : Prop :=
  alignUp entry.base PAGE ≤ p ∧ p < alignDown (saturatingAdd entry.base entry.length) PAGE

/-- **The translations that `build` is to make**: the kernel image, the entries of the executable,
and the direct map. -/
inductive Intended (kstart kend hhdm kernelPhysBase kernelVirtBase : UInt64)
    (entries : List MemmapEntry) : UInt64 → UInt64 → Prop where
  | kernel {off : UInt64} : off < alignUp (kend - kstart) PAGE →
      Intended kstart kend hhdm kernelPhysBase kernelVirtBase entries (kstart + off)
        (kernelPhysBase + (kstart - kernelVirtBase) + off)
  | executable {entry : MemmapEntry} {p : UInt64} : entry ∈ entries →
      entry.kind = MEMMAP_EXECUTABLE_AND_MODULES → kernelPhysBase ≤ alignUp entry.base PAGE →
      entry.Has p → Intended kstart kend hhdm kernelPhysBase kernelVirtBase entries
        (kernelVirtBase + (p - kernelPhysBase)) p
  | direct {entry : MemmapEntry} {p : UInt64} : entry ∈ entries →
      hhdmMappedRev3 entry.kind = true → entry.Has p →
      Intended kstart kend hhdm kernelPhysBase kernelVirtBase entries (hhdm + p) p

theorem toNat_alignDown (x : UInt64) : (alignDown x PAGE).toNat = x.toNat / 4096 * 4096 :=
  BumpAllocator.toNat_and_not_page x

theorem toNat_alignUp_mod (x : UInt64) : (alignUp x PAGE).toNat % 4096 = 0 :=
  BumpAllocator.toNat_round_up_mod x

/-- Rounding up never ends below a page that begins at or below the address. -/
theorem le_alignUp (x : UInt64) : x.toNat / 4096 * 4096 ≤ (alignUp x PAGE).toNat := by
  have hlow : (PAGE - 1).toNat = 4095 := by decide
  have hlt := x.toNat_lt
  rw [alignUp, BumpAllocator.toNat_and_not_page, toNat_saturatingAdd, hlow]
  omega

theorem MemmapEntry.Has.keep {entry : MemmapEntry} {p : UInt64} (h : entry.Has p) :
    ¬ (entry.length = 0 ∨
      alignDown (saturatingAdd entry.base entry.length) PAGE ≤ alignUp entry.base PAGE) := by
  obtain ⟨h1, h2⟩ := h
  rw [UInt64.le_iff_toNat_le] at h1
  rw [UInt64.lt_iff_toNat_lt] at h2
  rintro (hzero | hle)
  · have hup := le_alignUp entry.base
    rw [toNat_alignDown, toNat_saturatingAdd, hzero, UInt64.toNat_zero] at h2
    omega
  · rw [UInt64.le_iff_toNat_le] at hle
    omega

/-- The addresses of an entry by their offsets. -/
theorem MemmapEntry.has_iff {entry : MemmapEntry} {p : UInt64}
    (hkeep : ¬ alignDown (saturatingAdd entry.base entry.length) PAGE ≤ alignUp entry.base PAGE) :
    entry.Has p ↔ ∃ off < alignDown (saturatingAdd entry.base entry.length) PAGE -
      alignUp entry.base PAGE, p = alignUp entry.base PAGE + off := by
  unfold Has
  generalize alignDown (saturatingAdd entry.base entry.length) PAGE = stop at hkeep ⊢
  generalize alignUp entry.base PAGE = start at hkeep ⊢
  rw [UInt64.not_le] at hkeep
  have hsub := UInt64.toNat_sub_of_le _ _ (UInt64.le_of_lt hkeep)
  constructor
  · rintro ⟨h1, h2⟩
    refine ⟨p - start, ?_, by grind⟩
    rw [UInt64.lt_iff_toNat_lt, hsub, UInt64.toNat_sub_of_le _ _ h1]
    rw [UInt64.le_iff_toNat_le] at h1
    rw [UInt64.lt_iff_toNat_lt] at h2 hkeep
    omega
  · rintro ⟨off, hoff, rfl⟩
    have hlt := stop.toNat_lt
    rw [UInt64.lt_iff_toNat_lt, hsub] at hoff
    rw [UInt64.lt_iff_toNat_lt] at hkeep
    have hadd : (start + off).toNat = start.toNat + off.toNat := by
      rw [UInt64.toNat_add]
      omega
    rw [UInt64.le_iff_toNat_le, UInt64.lt_iff_toNat_lt, hadd]
    omega

/-- An entry rounded inward is whole pages. -/
theorem MemmapEntry.len_mod {entry : MemmapEntry}
    (hkeep : ¬ alignDown (saturatingAdd entry.base entry.length) PAGE ≤ alignUp entry.base PAGE) :
    (alignDown (saturatingAdd entry.base entry.length) PAGE - alignUp entry.base PAGE).toNat % 4096 =
      0 := by
  have hup := toNat_alignUp_mod entry.base
  rw [UInt64.toNat_sub_of_le _ _ (UInt64.le_of_lt (UInt64.not_le.1 hkeep)), toNat_alignDown]
  omega

theorem mem_entryRanges {hhdm kernelPhysBase kernelVirtBase : UInt64} {entry : MemmapEntry}
    {t : Target} : t ∈ entryRanges hhdm kernelPhysBase kernelVirtBase entry ↔
      ¬ (entry.length = 0 ∨
        alignDown (saturatingAdd entry.base entry.length) PAGE ≤ alignUp entry.base PAGE) ∧
      ((entry.kind = MEMMAP_EXECUTABLE_AND_MODULES ∧ kernelPhysBase ≤ alignUp entry.base PAGE ∧
          t = ⟨kernelVirtBase + (alignUp entry.base PAGE - kernelPhysBase), alignUp entry.base PAGE,
            alignDown (saturatingAdd entry.base entry.length) PAGE - alignUp entry.base PAGE⟩) ∨
        hhdmMappedRev3 entry.kind = true ∧
          t = ⟨hhdm + alignUp entry.base PAGE, alignUp entry.base PAGE,
            alignDown (saturatingAdd entry.base entry.length) PAGE - alignUp entry.base PAGE⟩) := by
  unfold entryRanges
  dsimp only
  generalize alignDown (saturatingAdd entry.base entry.length) PAGE = stop
  generalize alignUp entry.base PAGE = start
  split
  · rename_i h
    simp [h]
  · rename_i h
    rw [List.mem_append, and_iff_right h]
    refine or_congr ?_ ?_
    · split <;> simp_all
    · split <;> simp_all

section

variable {kstart kend hhdm kernelPhysBase kernelVirtBase : UInt64} {entries : List MemmapEntry}
  {va p r : UInt64} {t : Target} {m : Memory}

/-- The intended translations are those of the ranges. -/
theorem intended_iff : Intended kstart kend hhdm kernelPhysBase kernelVirtBase entries va p ↔
    ∃ t ∈ buildRanges kstart kend hhdm kernelPhysBase kernelVirtBase entries,
      ∃ off < t.len, va = t.virt + off ∧ p = t.phys + off := by
  unfold buildRanges
  constructor
  · intro h
    cases h with
    | @kernel off hoff => exact ⟨_, List.mem_cons_self, off, hoff, rfl, rfl⟩
    | @executable entry p hmem hkind hbase hp =>
      obtain ⟨off, hoff, rfl⟩ := (MemmapEntry.has_iff fun hle => hp.keep (Or.inr hle)).1 hp
      refine ⟨_, List.mem_cons_of_mem _ (List.mem_flatMap.2 ⟨entry, hmem, mem_entryRanges.2
        ⟨hp.keep, Or.inl ⟨hkind, hbase, rfl⟩⟩⟩), off, hoff, ?_, rfl⟩
      grind
    | @direct entry p hmem hkind hp =>
      obtain ⟨off, hoff, rfl⟩ := (MemmapEntry.has_iff fun hle => hp.keep (Or.inr hle)).1 hp
      refine ⟨_, List.mem_cons_of_mem _ (List.mem_flatMap.2 ⟨entry, hmem, mem_entryRanges.2
        ⟨hp.keep, Or.inr ⟨hkind, rfl⟩⟩⟩), off, hoff, ?_, rfl⟩
      exact (UInt64.add_assoc _ _ _).symm
  · rintro ⟨t, ht, off, hoff, rfl, rfl⟩
    rcases List.mem_cons.1 ht with rfl | ht
    · exact .kernel hoff
    obtain ⟨entry, hmem, ht⟩ := List.mem_flatMap.1 ht
    obtain ⟨hkeep, ht⟩ := mem_entryRanges.1 ht
    have hhas := (MemmapEntry.has_iff (p := alignUp entry.base PAGE + off)
      fun hle => hkeep (Or.inr hle)).2
    rcases ht with ⟨hkind, hbase, rfl⟩ | ⟨hkind, rfl⟩
    · have hva : kernelVirtBase + (alignUp entry.base PAGE - kernelPhysBase) + off =
          kernelVirtBase + (alignUp entry.base PAGE + off - kernelPhysBase) := by grind
      rw [hva]
      exact .executable hmem hkind hbase (hhas ⟨off, hoff, rfl⟩)
    · rw [UInt64.add_assoc]
      exact .direct hmem hkind (hhas ⟨off, hoff, rfl⟩)

/-- The ranges are whole pages. -/
theorem buildRanges_len
    (ht : t ∈ buildRanges kstart kend hhdm kernelPhysBase kernelVirtBase entries) :
    t.len.toNat % 4096 = 0 := by
  rcases List.mem_cons.1 ht with rfl | ht
  · exact toNat_alignUp_mod _
  obtain ⟨entry, -, ht⟩ := List.mem_flatMap.1 ht
  obtain ⟨hkeep, ⟨-, -, rfl⟩ | ⟨-, rfl⟩⟩ := mem_entryRanges.1 ht
  all_goals exact MemmapEntry.len_mod fun hle => hkeep (Or.inr hle)

/-- The addresses of a range by their offsets. -/
theorem Target.High.covers_iff (h : t.High) :
    t.Covers va ↔ ∃ off < t.len, va = t.virt + off := by
  obtain ⟨-, hend⟩ := h
  unfold Target.Covers
  constructor
  · rintro ⟨h1, h2⟩
    have hle : t.virt ≤ va := UInt64.le_iff_toNat_le.2 h1
    refine ⟨va - t.virt, ?_, by grind⟩
    rw [UInt64.lt_iff_toNat_lt, UInt64.toNat_sub_of_le _ _ hle]
    omega
  · rintro ⟨off, hoff, rfl⟩
    rw [UInt64.lt_iff_toNat_lt] at hoff
    rw [UInt64.toNat_add]
    omega

/-- **`build` maps exactly the intended regions**, and counts the pages it takes for tables. -/
theorem build_maps_exactly {k k' : Kernel} {map : PageMap} (hwf : k.bump.Wf)
    (hwidth : k.bump.end.toNat ≤ 2 ^ 52)
    (hphys : ∀ t ∈ buildRanges kstart kend hhdm kernelPhysBase kernelVirtBase entries,
      t.phys.toNat + t.len.toNat ≤ 2 ^ 52)
    (hhigh : ∀ t ∈ buildRanges kstart kend hhdm kernelPhysBase kernelVirtBase entries, t.High)
    (hbuild : build kstart kend hhdm kernelPhysBase kernelVirtBase entries k = .ok map k') :
    (∀ va, Canonical va → ∀ p, translate k'.mem k'.kernelPml4 va = some p ↔
      ∃ phys, Intended kstart kend hhdm kernelPhysBase kernelVirtBase entries va phys ∧
        p = phys.toNat) ∧
      k'.bump.cursor.toNat = k.bump.cursor.toNat + map.tablePages.toNat * 4096 := by
  obtain ⟨place, -, -, -, -, -, hmapped, hnone, -⟩ := wp_ok (build_spec_of_pages hwf hwidth rfl
    (S := fun v => ∃ t ∈ buildRanges kstart kend hhdm kernelPhysBase kernelVirtBase entries, t.pages v)
    fun t ht v hv => ⟨t, ht, hv⟩) hbuild
  refine ⟨fun va hva p => ?_, (wp_ok (build_counted hwf) hbuild).2⟩
  -- what an address of a range translates to
  have hrange : ∀ t ∈ buildRanges kstart kend hhdm kernelPhysBase kernelVirtBase entries,
      ∀ off < t.len, va = t.virt + off →
      translate k'.mem k'.kernelPml4 va = some (t.phys + off).toNat := by
    intro t ht off hoff he
    obtain ⟨-, hend⟩ := hhigh t ht
    have hbound := hphys t ht
    rw [(hmapped t ht).translate (hhigh t ht) hbound (buildRanges_len ht)
      ((hhigh t ht).covers_iff.2 ⟨off, hoff, he⟩), he, UInt64.toNat_add, UInt64.toNat_add]
    rw [UInt64.lt_iff_toNat_lt] at hoff
    rw [Option.some.injEq]
    omega
  constructor
  · intro hp
    by_cases hS : ∃ t ∈ buildRanges kstart kend hhdm kernelPhysBase kernelVirtBase entries,
        t.pages (pageOf va)
    · obtain ⟨t, ht, hpage⟩ := hS
      have hcovers := Target.covers_of_pages (hhigh t ht) (hmapped t ht).virt hva hpage
      obtain ⟨off, hoff, he⟩ := (hhigh t ht).covers_iff.1 hcovers
      refine ⟨t.phys + off, intended_iff.2 ⟨t, ht, off, hoff, he, rfl⟩, ?_⟩
      rw [hrange t ht off hoff he] at hp
      exact (Option.some.inj hp).symm
    · rw [translate_eq, hnone _ (pageOf_lt va) hS] at hp
      cases hp
  · rintro ⟨phys, hi, rfl⟩
    obtain ⟨t, ht, off, hoff, he, rfl⟩ := intended_iff.1 hi
    exact hrange t ht off hoff he

theorem build_maps_exactly_small : translate small.mem small.kernelPml4 0xffff800000234567 =
    some 0x234567 := by
  have hwf : smallBump.Wf := ⟨by decide, by decide, by decide, by decide⟩
  have hphys : ∀ t ∈ buildRanges 0xffffffff80000000 0xffffffff80001000 0xffff800000000000 0x600000
      0xffffffff80000000 smallMap, t.phys.toNat + t.len.toNat ≤ 2 ^ 52 := by
    decide
  have h := build_maps_exactly hwf (by decide) hphys small_high smallBuild_eq
  refine (h.1 _ (Or.inr (by decide)) _).2 ⟨0x234567, ?_, rfl⟩
  exact .direct (p := 0x234567) List.mem_cons_self (by decide) ⟨by decide, by decide⟩

/-! ## The direct map and the allocator -/

/-- Addresses of the higher half translate from `CR3` as from the PML4. -/
theorem Seated.translateCr3 {la57 : Bool} {place : Nat → Option Place} {space : AddressSpace}
    {m : Memory} (h : Seated la57 place space) (hpml5 : la57 = true → Wrapped m space)
    (hva : 2 ^ 64 - 2 ^ 47 ≤ va.toNat) :
    RootCourt.translateCr3 la57 m space.cr3 va = translate m space.pml4Phys va := by
  have hindex : ((va >>> 48) &&& 0x1ff).toNat = 511 := by
    have hlt := va.toNat_lt
    rw [toNat_shift_and va 48 (by decide), show (48 : UInt64).toNat = 48 from rfl]
    omega
  unfold RootCourt.translateCr3
  cases hla : la57 with
  | false => rw [if_neg (by decide), h.cr3 hla]
  | true =>
    rw [if_pos rfl, hindex, indices_eq_digits, (hpml5 hla).walk, if_pos rfl, translate,
      indices_eq_digits]

/-- The bytes of whole pages of the allocator's region are in a usable entry. -/
theorem has_of_byte {b : BumpAllocator} (hmem : BumpAllocator.fromMemmap hhdm entries = some b)
    {p : UInt64} (hstart : b.start ≤ p) (hend : p.toNat / 4096 * 4096 + 4096 ≤ b.end.toNat) :
    ∃ entry ∈ entries, hhdmMappedRev3 entry.kind = true ∧ entry.Has p ∧ b.virt p = hhdm + p := by
  obtain ⟨entry, hentry, hkind, hhhdm, hlimit, hbase⟩ := BumpAllocator.fromMemmap_entry hmem
  refine ⟨entry, hentry, by rw [hkind]; rfl, ⟨?_, ?_⟩, by rw [BumpAllocator.virt, hhhdm]⟩
  · rw [UInt64.le_iff_toNat_le] at *
    exact Nat.le_trans hbase hstart
  · rw [UInt64.lt_iff_toNat_lt, toNat_alignDown, ← hlimit]
    omega

/-- The range of an entry in the direct map, if all its addresses are in the higher half. -/
theorem high_of_has {entry : MemmapEntry}
    (hphys : entry.base.toNat + entry.length.toNat ≤ 2 ^ 52)
    (hhigh : ∀ p, entry.Has p → 2 ^ 64 - 2 ^ 47 ≤ (hhdm + p).toNat)
    (hkeep : ¬ alignDown (saturatingAdd entry.base entry.length) PAGE ≤ alignUp entry.base PAGE) :
    Target.High ⟨hhdm + alignUp entry.base PAGE, alignUp entry.base PAGE,
      alignDown (saturatingAdd entry.base entry.length) PAGE - alignUp entry.base PAGE⟩ := by
  have hstop : (alignDown (saturatingAdd entry.base entry.length) PAGE).toNat ≤ 2 ^ 52 := by
    rw [toNat_alignDown, toNat_saturatingAdd]
    omega
  unfold MemmapEntry.Has at hhigh
  generalize alignDown (saturatingAdd entry.base entry.length) PAGE = stop at hkeep hhigh hstop ⊢
  generalize alignUp entry.base PAGE = start at hkeep hhigh ⊢
  rw [UInt64.not_le] at hkeep
  have hsub := UInt64.toNat_sub_of_le _ _ (UInt64.le_of_lt hkeep)
  have hlt := UInt64.lt_iff_toNat_lt.1 hkeep
  -- the first and the last address
  have hfirst := hhigh start ⟨UInt64.le_refl _, hkeep⟩
  have hone : (stop - 1).toNat = stop.toNat - 1 := by
    rw [UInt64.toNat_sub_of_le _ _ (by rw [UInt64.le_iff_toNat_le, UInt64.toNat_one]; omega),
      UInt64.toNat_one]
  have hlast := hhigh (stop - 1) ⟨by rw [UInt64.le_iff_toNat_le]; omega,
    by rw [UInt64.lt_iff_toNat_lt]; omega⟩
  refine ⟨hfirst, ?_⟩
  show (hhdm + start).toNat + (stop - start).toNat ≤ 2 ^ 64
  rw [UInt64.toNat_add, hone] at hlast
  rw [hsub, UInt64.toNat_add]
  rw [UInt64.toNat_add] at hfirst
  omega

/-- An address of an entry of the direct map translates to itself. -/
theorem Target.Mapped.direct {entry : MemmapEntry}
    (ht : Target.Mapped ⟨hhdm + alignUp entry.base PAGE, alignUp entry.base PAGE,
      alignDown (saturatingAdd entry.base entry.length) PAGE - alignUp entry.base PAGE⟩ m r.toNat)
    (hphys : entry.base.toNat + entry.length.toNat ≤ 2 ^ 52)
    (hhigh : ∀ p, entry.Has p → 2 ^ 64 - 2 ^ 47 ≤ (hhdm + p).toNat) (hp : entry.Has p) :
    RootCourt.translate m r (hhdm + p) = some p.toNat := by
  have hkeep := fun hle => hp.keep (Or.inr hle)
  have htarget := high_of_has hphys hhigh hkeep
  have hlen := MemmapEntry.len_mod hkeep
  obtain ⟨off, hoff, rfl⟩ := (MemmapEntry.has_iff hkeep).1 hp
  have hkeep := UInt64.not_le.1 hkeep
  have hsub := UInt64.toNat_sub_of_le _ _ (UInt64.le_of_lt hkeep)
  have hstop : (alignDown (saturatingAdd entry.base entry.length) PAGE).toNat ≤ 2 ^ 52 := by
    rw [toNat_alignDown, toNat_saturatingAdd]
    omega
  have hlt := UInt64.lt_iff_toNat_lt.1 hkeep
  rw [← UInt64.add_assoc, ht.translate htarget (by dsimp only; omega) hlen
    (htarget.covers_iff.2 ⟨off, hoff, rfl⟩)]
  obtain ⟨-, hend⟩ := htarget
  rw [UInt64.lt_iff_toNat_lt] at hoff
  dsimp only at hend ⊢
  rw [UInt64.toNat_add (hhdm + alignUp entry.base PAGE), UInt64.toNat_add (alignUp entry.base PAGE),
    Option.some.injEq]
  omega

/-- **Every page of the allocator is in the direct map**, in the tables that `build` made with that
allocator: pages granted before, during and after `build`, the tables among them. -/
theorem allocator_pages_reachable {k k₀ : Kernel} {b : BumpAllocator} {map : PageMap}
    (hmem : BumpAllocator.fromMemmap hhdm entries = some b) (hallocs : b.Allocs k.bump)
    (hphys : ∀ entry ∈ entries, entry.base.toNat + entry.length.toNat ≤ 2 ^ 52)
    (hhigh : ∀ entry ∈ entries, hhdmMappedRev3 entry.kind = true → ∀ p, entry.Has p →
      2 ^ 64 - 2 ^ 47 ≤ (hhdm + p).toNat)
    (hbuild : build kstart kend hhdm kernelPhysBase kernelVirtBase entries k = .ok map k₀) :
    k.bump.Allocs k₀.bump ∧
      (∀ mid next pages phys page, b.Allocs mid → mid.allocPages pages = some (phys, next) →
        page.toNat % 4096 = 0 → phys ≤ page → page.toNat < phys.toNat + pages.toNat * 4096 →
        translate k₀.mem k₀.kernelPml4 (mid.virt page) = some page.toNat ∧
          translateCr3 k.la57 k₀.mem map.pml4Phys (mid.virt page) = some page.toNat) ∧
      ∀ page : UInt64, page.toNat ∈ tablePages k₀.mem k₀.kernelPml4 ∨ page = map.pml4Phys →
        translate k₀.mem k₀.kernelPml4 (b.virt page) = some page.toNat ∧
          translateCr3 k.la57 k₀.mem map.pml4Phys (b.virt page) = some page.toNat := by
  have hwf := BumpAllocator.fromMemmap_wf hmem
  obtain ⟨hwfk, hbump, -⟩ := hallocs.spec hwf
  have hwidth : b.end.toNat ≤ 2 ^ 52 := by
    obtain ⟨entry, hentry, -, -, hend, -⟩ := BumpAllocator.fromMemmap_entry hmem
    have hbound := hphys entry hentry
    rw [hend, toNat_saturatingAdd]
    omega
  have hwidthk : k.bump.end.toNat ≤ 2 ^ 52 := by
    rw [hbump]
    exact hwidth
  obtain ⟨place, htables, -, hseat, hpml5, -, hmapped, -⟩ := wp_ok (build_spec_of_pages hwfk hwidthk rfl
    (S := fun _ => True) fun _ _ _ _ => trivial) hbuild
  obtain ⟨hbuilt, -⟩ := wp_ok (build_counted hwfk) hbuild
  have hbump₀ : k₀.bump.start = b.start ∧ k₀.bump.end = b.end := by
    rw [((hallocs.trans hbuilt).spec hwf).2.1]
    exact ⟨rfl, rfl⟩
  -- whole pages of the region
  have hpage : ∀ page : UInt64, page.toNat % 4096 = 0 → b.start.toNat ≤ page.toNat →
      page.toNat + 4096 ≤ b.end.toNat →
      translate k₀.mem k₀.kernelPml4 (b.virt page) = some page.toNat ∧
        translateCr3 k.la57 k₀.mem map.pml4Phys (b.virt page) = some page.toNat := by
    intro page haligned hstart hend
    obtain ⟨entry, hentry, hkind, hhas, hvirt⟩ :=
      has_of_byte hmem (UInt64.le_iff_toNat_le.2 hstart) (by omega)
    have htarget := hmapped _ (List.mem_cons_of_mem _ (List.mem_flatMap.2 ⟨entry, hentry,
      mem_entryRanges.2 ⟨hhas.keep, Or.inr ⟨hkind, rfl⟩⟩⟩))
    have hdirect := htarget.direct (hphys entry hentry) (hhigh entry hentry hkind) hhas
    have hcr3 := hseat.translateCr3 hpml5 (hhigh entry hentry hkind page hhas)
    rw [hvirt]
    exact ⟨hdirect, hcr3.trans hdirect⟩
  refine ⟨hbuilt, fun mid next pages phys page hmid halloc haligned hle hlt => ?_, fun page ht => ?_⟩
  · obtain ⟨hwfm, hbumpm, hcursor⟩ := hmid.spec hwf
    obtain ⟨hphys', hnext, hwfn, hgrant⟩ := BumpAllocator.allocPages_spec hwfm halloc
    have hlimit := hwfn.limit
    have hendn : next.end = b.end := by
      rw [hnext, hbumpm]
    have hvirt : mid.virt page = b.virt page := by
      rw [hbumpm]
      rfl
    have halignedm := hwfm.aligned
    rw [hvirt]
    rw [hendn] at hlimit
    rw [UInt64.le_iff_toNat_le, hphys'] at hle
    rw [hphys'] at hlt hgrant
    have hstart := hwf.cursor
    exact hpage page haligned (by omega) (by omega)
  · have hplaced : ∃ p, place page.toNat = some p := by
      rcases ht with ⟨va, hva⟩ | rfl
      · exact Radix.placed_of_mem_visits htables.placed _ _ _ hseat.pml4 rfl hva
      · cases hla : k.la57 with
        | true => exact ⟨_, hseat.pml5 hla⟩
        | false =>
          have hcr3 : map.pml4Phys = k₀.kernelPml4 := hseat.cr3 hla
          rw [hcr3]
          exact ⟨_, hseat.pml4⟩
    obtain ⟨p, hp⟩ := hplaced
    obtain ⟨haligned, hstart, hend⟩ := htables.page _ p hp
    have hlimit := htables.bump.limit
    rw [show (k₀.world place).bump = k₀.bump from rfl] at hstart hend hlimit
    rw [hbump₀.1] at hstart
    rw [hbump₀.2] at hlimit
    exact hpage page haligned hstart (by omega)

theorem allocator_pages_reachable_small :
    smallBump.allocPages 512 = some (0x200000, ⟨0xffff800000000000, 0x200000, 0x400000, 0x400000⟩) ∧
      translate small.mem small.kernelPml4 (smallBump.virt 0x3ff000) = some 0x3ff000 := by
  have hhigh : ∀ entry ∈ smallMap, hhdmMappedRev3 entry.kind = true → ∀ p, entry.Has p →
      2 ^ 64 - 2 ^ 47 ≤ ((0xffff800000000000 : UInt64) + p).toNat := by
    intro entry hentry _ p hp
    obtain rfl := List.mem_singleton.1 hentry
    have hlast : p.toNat < 0x400000 := UInt64.lt_iff_toNat_lt.1 hp.2
    rw [UInt64.toNat_add, show (0xffff800000000000 : UInt64).toNat = 2 ^ 64 - 2 ^ 47 from rfl]
    omega
  have h := allocator_pages_reachable (b := smallBump) (by decide) (.refl _) (by decide) hhigh
    smallBuild_eq
  have hgrant : smallBump.allocPages 512 =
      some (0x200000, ⟨0xffff800000000000, 0x200000, 0x400000, 0x400000⟩) := by
    decide
  exact ⟨hgrant, (h.2.1 _ _ _ _ 0x3ff000 (.refl _) hgrant (by decide) (by decide) (by decide)).1⟩

end

end RootCourt

end CourtKernel
