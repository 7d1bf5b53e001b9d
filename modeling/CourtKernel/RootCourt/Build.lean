import CourtKernel.RootCourt.Spaces

/-!
# The kernel's own tables

What `build` leaves behind when it succeeds.

* `buildRanges` — the ranges that `build` maps, as data.
* `Target.Mapped`, `Mapper.Builds` — what it means that they are mapped, and the rules for programs
  that map one range after the other.
* `build_spec_of_pages` — the kernel has a PML4, all ranges are mapped there, and nothing else is.
* `build_system` — with all ranges in the higher half, the lower half is empty.
-/

namespace CourtKernel

namespace RootCourt

open Radix (walk)
open Place (shape)

/-- A range that `build` maps. -/
structure Target where
  virt : UInt64
  phys : UInt64
  len : UInt64
  deriving DecidableEq

/-- The pages of a range. -/
def Target.pages (t : Target) : Nat → Prop := Range (pageOf t.virt) (t.len.toNat / 4096)

/-- All pages of a range show their frames. -/
structure Target.Mapped (t : Target) (m : Memory) (r : Nat) : Prop where
  virt : t.virt.toNat % 4096 = 0
  phys : t.phys.toNat % 4096 = 0
  shows : Shows m r (pageOf t.virt) t.phys.toNat (t.len.toNat / 4096)

/-- The ranges of an entry of the memory map. -/
def entryRanges (hhdm kernelPhysBase kernelVirtBase : UInt64) (entry : MemmapEntry) : List Target :=
  let start := alignUp entry.base PAGE
  let «end» := alignDown (saturatingAdd entry.base entry.length) PAGE
  if entry.length = 0 ∨ «end» ≤ start then []
  else
    (if entry.kind = MEMMAP_EXECUTABLE_AND_MODULES ∧ start ≥ kernelPhysBase then
      [⟨kernelVirtBase + (start - kernelPhysBase), start, «end» - start⟩] else []) ++
    (if hhdmMappedRev3 entry.kind then [⟨hhdm + start, start, «end» - start⟩] else [])

/-- The range of the kernel image, and those of the memory map. -/
def buildRanges (kstart kend hhdm kernelPhysBase kernelVirtBase : UInt64)
    (entries : List MemmapEntry) : List Target :=
  ⟨kstart, kernelPhysBase + (kstart - kernelVirtBase), alignUp (kend - kstart) PAGE⟩ ::
    entries.flatMap (entryRanges hhdm kernelPhysBase kernelVirtBase)

/-- A range of canonical addresses of the higher half. -/
def Target.High (t : Target) : Prop :=
  2 ^ 64 - 2 ^ 47 ≤ t.virt.toNat ∧ t.virt.toNat + t.len.toNat ≤ 2 ^ 64

instance (t : Target) : Decidable t.High := inferInstanceAs (Decidable (_ ∧ _))

theorem Target.High.pages {t : Target} (h : t.High) {v : Nat} (hv : t.pages v) : 2 ^ 35 ≤ v := by
  obtain ⟨k, hk, rfl⟩ := hv
  obtain ⟨hlow, hend⟩ := h
  unfold pageOf
  omega

section

variable {kstart kend hhdm kernelPhysBase kernelVirtBase kernelPhys kernelLen pml4Phys : UInt64}
  {entries : List MemmapEntry} {la57 : Bool}

/-- **`build` after the PML4**: the ranges, and the PML5 if there are five levels. -/
theorem wp_buildTables {s : Mapper} {Q : PageMap → Mapper → Prop} {E : String → Mapper → Prop}
    (h : wp (Mapper.mapRange kstart kernelPhys kernelLen >>= fun _ =>
        buildEntries hhdm kernelPhysBase kernelVirtBase entries 0 0)
      (fun mapped s₁ => wp (if la57 then Mapper.wrapLa57 pml4Phys else pure pml4Phys)
        (fun cr3Phys s₂ => Q ⟨cr3Phys, kstart, kernelPhys, kernelLen, mapped.1, mapped.2, s₂.tablePages⟩
          s₂) E s₁) E s) :
    wp (buildTables la57 pml4Phys hhdm kernelPhysBase kernelVirtBase kstart kernelPhys kernelLen
      entries) Q E s := by
  rw [wp_bind] at h
  unfold buildTables
  rw [wp_bind]
  refine wp_mono h ?_ fun _ _ he => he
  intro _ s₁ hentries
  rw [wp_bind]
  refine wp_mono hentries ?_ fun _ _ he => he
  rintro ⟨hhdmBytes, hhdmSpans⟩ s₂ hcr3
  dsimp only
  rw [wp_ite] at hcr3 ⊢
  simp only [wp_bind, wp_get, wp_pure] at hcr3 ⊢
  exact hcr3

/-- **`build`**: it publishes the PML4 and makes the tables, unless the image is refused. -/
theorem wp_build {k : Kernel} {Q : PageMap → Kernel → Prop} {E : String → Kernel → Prop}
    (hbad : kend ≤ kstart ∨ kstart < kernelVirtBase → ∀ e, E e k)
    (h : wp Mapper.allocTable (fun pml4Phys s =>
        wp (buildTables k.la57 pml4Phys hhdm kernelPhysBase kernelVirtBase kstart
            (kernelPhysBase + (kstart - kernelVirtBase)) (alignUp (kend - kstart) PAGE) entries)
          (fun map s' => Q map ⟨s'.mem, s'.bump, pml4Phys, k.la57⟩)
          (fun e s' => E e ⟨s'.mem, s'.bump, pml4Phys, k.la57⟩) ⟨s.mem, s.bump, pml4Phys, 1⟩)
      (fun e s => E e ⟨s.mem, s.bump, k.kernelPml4, k.la57⟩) ⟨k.mem, k.bump, 0, 0⟩) :
    wp (build kstart kend hhdm kernelPhysBase kernelVirtBase entries) Q E k := by
  unfold build
  rw [wp_ite]
  refine ⟨fun hsize => (wp_throw _).2 (hbad (Or.inl hsize) _), fun _ => ?_⟩
  rw [wp_ite]
  refine ⟨fun hbase => (wp_throw _).2 (hbad (Or.inr hbase) _), fun _ => ?_⟩
  simp only [wp_bind, wp_withMapper, wp_modify, wp_get]
  exact h

end

section

variable {s : Mapper} {place : Nat → Option Place} {r : Nat} {S : Nat → Prop} {α β : Type}

/-- A program of a mapper that maps pages of `S`, whether it succeeds or not, and that maps the ranges
`ts` if it succeeds. -/
def Mapper.Builds (s : Mapper) (place : Nat → Option Place) (r : Nat) (S : Nat → Prop)
    (ts : List Target) (x : Prog Mapper α) : Prop :=
  wp x (fun _ s' => ∃ place', s.Moves place r S s' place' ∧ ∀ t ∈ ts, t.Mapped s'.mem r)
    (fun _ s' => ∃ place', s.Moves place r S s' place') s

/-- What is mapped stays mapped. -/
theorem Target.Mapped.moves {t : Target} {s' : Mapper} {place' : Nat → Option Place}
    (ht : t.Mapped s.mem r) (h : s.Ready place r) (hm : s.Moves place r S s' place') :
    t.Mapped s'.mem r :=
  ⟨ht.virt, ht.phys, fun j hj => hm.1.frameAt_some h.tables h.root (ht.shows j hj)⟩

namespace Mapper

theorem Builds.pure (h : s.Ready place r) (a : α) : s.Builds place r S [] (pure a) := by
  unfold Builds
  rw [wp_pure]
  exact ⟨place, .refl h.tables, nofun⟩

theorem Builds.bind {ts ts' : List Target} {x : Prog Mapper α} {f : α → Prog Mapper β}
    (h : s.Ready place r) (hx : s.Builds place r S ts x)
    (hf : ∀ (a : α) (s' : Mapper) place', s'.Ready place' r → s'.Builds place' r S ts' (f a)) :
    s.Builds place r S (ts ++ ts') (x >>= f) := by
  unfold Builds
  rw [wp_bind]
  refine wp_mono hx ?_ fun _ _ he => he
  rintro a s₁ ⟨place₁, hm₁, hts⟩
  have h₁ := h.moves hm₁
  refine wp_mono (hf a s₁ place₁ h₁) ?_ ?_
  · rintro _ s₂ ⟨place₂, hm₂, hts'⟩
    refine ⟨place₂, hm₁.trans hm₂, fun t ht => ?_⟩
    rcases List.mem_append.1 ht with ht | ht
    · exact (hts t ht).moves h₁ hm₂
    · exact hts' t ht
  · rintro _ s₂ ⟨place₂, hm₂⟩
    exact ⟨place₂, hm₁.trans hm₂⟩

/-- A call of `map_range` inside `build`. -/
theorem Builds.target (h : s.Ready place r) {virt phys len : UInt64}
    (hS : ∀ v, Target.pages ⟨virt, phys, len⟩ v → S v) :
    s.Builds place r S [⟨virt, phys, len⟩] (mapRange virt phys len) := by
  by_cases haligned : virt &&& (PAGE - 1) ≠ 0 ∨ phys &&& (PAGE - 1) ≠ 0
  · unfold Builds mapRange
    rw [if_pos haligned, wp_throw]
    exact ⟨place, .refl h.tables⟩
  simp only [not_or, not_not] at haligned
  refine wp_mono (mapRange_spec h virt phys len) ?_ ?_
  · rintro ⟨⟩ s' ⟨place', hm, hshow⟩
    refine ⟨place', hm.mono hS, fun t ht => ?_⟩
    obtain rfl := List.mem_singleton.1 ht
    exact ⟨and_page_eq_zero.1 haligned.1, and_page_eq_zero.1 haligned.2, hshow⟩
  · rintro e s' ⟨place', hm⟩
    exact ⟨place', hm.mono hS⟩

end Mapper

/-- **The shape of the loop of `build`**: it maps the ranges of the entries one after the other, and does
nothing else. -/
theorem buildEntries_rule {hhdm kernelPhysBase kernelVirtBase : UInt64}
    {P : List Target → Prog Mapper (UInt64 × UInt64) → Prop} {A : Target → Prop}
    (done : ∀ a, P [] (pure a))
    (next : ∀ t ts x, A t → P ts x →
      P (t :: ts) (Mapper.mapRange t.virt t.phys t.len >>= fun _ => x)) :
    ∀ (entries : List MemmapEntry) (bytes spans : UInt64),
      (∀ t ∈ entries.flatMap (entryRanges hhdm kernelPhysBase kernelVirtBase), A t) →
      P (entries.flatMap (entryRanges hhdm kernelPhysBase kernelVirtBase))
        (buildEntries hhdm kernelPhysBase kernelVirtBase entries bytes spans) := by
  intro entries
  induction entries with
  | nil => exact fun bytes spans _ => done _
  | cons entry entries ih =>
    intro bytes spans hok
    rw [List.flatMap_cons] at hok ⊢
    have hrest := fun bytes spans => ih bytes spans fun t ht => hok t (List.mem_append_right _ ht)
    have hentry := fun t ht => hok t (List.mem_append_left _ ht)
    unfold buildEntries
    unfold entryRanges at hentry ⊢
    dsimp only at hentry ⊢
    generalize alignUp entry.base PAGE = start at hentry ⊢
    generalize alignDown (saturatingAdd entry.base entry.length) PAGE = stop at hentry ⊢
    split at hentry
    · rename_i hskip
      rw [if_pos hskip, if_pos hskip]
      exact hrest bytes spans
    rename_i hkeep
    rw [if_neg hkeep, if_neg hkeep, List.append_assoc]
    have hdirect : P ((if hhdmMappedRev3 entry.kind then [⟨hhdm + start, start, stop - start⟩] else []) ++
          entries.flatMap (entryRanges hhdm kernelPhysBase kernelVirtBase))
        (if hhdmMappedRev3 entry.kind = true then do
          Mapper.mapRange (hhdm + start) start (stop - start)
          buildEntries hhdm kernelPhysBase kernelVirtBase entries
            (saturatingAdd bytes (stop - start)) (spans + 1)
        else buildEntries hhdm kernelPhysBase kernelVirtBase entries bytes spans) := by
      by_cases hkind : hhdmMappedRev3 entry.kind = true
      · rw [if_pos hkind] at hentry ⊢
        rw [if_pos hkind]
        exact next _ _ _ (hentry _ (List.mem_append_right _ List.mem_cons_self)) (hrest _ _)
      · rw [if_neg hkind, if_neg hkind]
        exact hrest bytes spans
    by_cases hkind : entry.kind = MEMMAP_EXECUTABLE_AND_MODULES ∧ start ≥ kernelPhysBase
    · rw [if_pos hkind] at hentry ⊢
      rw [if_pos hkind]
      exact next _ _ _ (hentry _ (List.mem_append_left _ List.mem_cons_self)) hdirect
    · rw [if_neg hkind, if_neg hkind]
      exact hdirect

theorem buildEntries_spec {hhdm kernelPhysBase kernelVirtBase : UInt64} (entries : List MemmapEntry)
    (bytes spans : UInt64) (h : s.Ready place r)
    (hS : ∀ t ∈ entries.flatMap (entryRanges hhdm kernelPhysBase kernelVirtBase),
      ∀ v, t.pages v → S v) :
    s.Builds place r S (entries.flatMap (entryRanges hhdm kernelPhysBase kernelVirtBase))
      (buildEntries hhdm kernelPhysBase kernelVirtBase entries bytes spans) := by
  refine buildEntries_rule
    (P := fun ts x => ∀ s place, Mapper.Ready s place r → s.Builds place r S ts x)
    (A := fun t => ∀ v, t.pages v → S v) (fun a s place h => .pure h a)
    (fun t ts x ht hx s place h => ?_) entries bytes spans hS s place h
  exact .bind h (.target h ht) fun _ s' place' h' => hx s' place' h'

/-- What `build` does after the PML4 is published. -/
theorem buildTables_spec {pml4Phys hhdm kernelPhysBase kernelVirtBase kstart kernelPhys
    kernelLen : UInt64} {entries : List MemmapEntry} (h : s.Ready place pml4Phys.toNat)
    {ts : List Target} (hts : ts = ⟨kstart, kernelPhys, kernelLen⟩ ::
      entries.flatMap (entryRanges hhdm kernelPhysBase kernelVirtBase))
    (hS : ∀ t ∈ ts, ∀ v, t.pages v → S v) (la57 : Bool) :
    wp (buildTables la57 pml4Phys hhdm kernelPhysBase kernelVirtBase kstart kernelPhys kernelLen
        entries)
      (fun map s' => ∃ place', s.Moves place pml4Phys.toNat S s' place' ∧
        Seated la57 place' ⟨map.pml4Phys, pml4Phys⟩ ∧
        (la57 = true → Wrapped s'.mem ⟨map.pml4Phys, pml4Phys⟩) ∧
        ∀ t ∈ ts, t.Mapped s'.mem pml4Phys.toNat)
      (fun _ _ => True) s := by
  subst hts
  have hbuilds : s.Builds place pml4Phys.toNat S
      ([⟨kstart, kernelPhys, kernelLen⟩] ++
        entries.flatMap (entryRanges hhdm kernelPhysBase kernelVirtBase))
      (Mapper.mapRange kstart kernelPhys kernelLen >>= fun _ =>
        buildEntries hhdm kernelPhysBase kernelVirtBase entries 0 0) :=
    .bind h (.target h (hS _ List.mem_cons_self)) fun _ s' place' h' =>
      buildEntries_spec entries 0 0 h' fun t ht => hS t (List.mem_cons_of_mem _ ht)
  refine wp_buildTables (wp_mono hbuilds ?_ fun _ _ _ => trivial)
  rintro ⟨hhdmBytes, hhdmSpans⟩ s₂ ⟨place₂, hm, hmapped⟩
  have h₂ := h.moves hm
  rw [wp_ite]
  refine ⟨fun h57 => ?_, fun h57 => ?_⟩
  · refine wp_mono (Mapper.wrapLa57_spec h₂.tables h₂.root pml4Phys.toNat S) ?_ fun _ _ _ => trivial
    rintro pml5 s₃ ⟨place₃, hm₃, hpml5, hslots⟩
    refine ⟨place₃, hm.trans hm₃, ⟨hm₃.1.step.kept _ _ h₂.root, fun _ => hpml5, ?_⟩, fun _ => hslots,
      fun t ht => (hmapped t ht).moves h₂ hm₃⟩
    intro hfalse
    rw [h57] at hfalse
    cases hfalse
  · rw [Bool.not_eq_true] at h57
    subst h57
    rw [wp_pure]
    exact ⟨place₂, hm, ⟨h₂.root, fun h57 => absurd h57 Bool.false_ne_true, fun _ => rfl⟩,
      fun h57 => absurd h57 Bool.false_ne_true, hmapped⟩

end

/-- **The tables that `build` makes**, for all the pages `S` that its ranges have: the ranges are
mapped, nothing else is, and entries of the PML4 are in use only where a range needs them. -/
theorem build_spec_of_pages {k : Kernel} (hwf : k.bump.Wf) (hwidth : k.bump.end.toNat ≤ 2 ^ 52)
    {kstart kend hhdm kernelPhysBase kernelVirtBase : UInt64} {entries : List MemmapEntry}
    {ts : List Target} (hts : ts = buildRanges kstart kend hhdm kernelPhysBase kernelVirtBase entries)
    {S : Nat → Prop} (hS : ∀ t ∈ ts, ∀ v, t.pages v → S v) :
    wp (build kstart kend hhdm kernelPhysBase kernelVirtBase entries)
      (fun map k' => ∃ place, Tables (k'.world place) ∧ k'.la57 = k.la57 ∧
        Seated k.la57 place ⟨map.pml4Phys, k'.kernelPml4⟩ ∧
        (k.la57 = true → Wrapped k'.mem ⟨map.pml4Phys, k'.kernelPml4⟩) ∧
        (∀ i, (∀ v, S v → v / 2 ^ 27 % 512 ≠ i) → slots k'.mem 3 k'.kernelPml4.toNat i = .absent) ∧
        (∀ t ∈ ts, t.Mapped k'.mem k'.kernelPml4.toNat) ∧
        (∀ v < 2 ^ 36, ¬ S v → frameAt k'.mem k'.kernelPml4.toNat v = none) ∧
        Step (k.world fun _ => none) (k'.world place))
      (fun _ _ => True) k := by
  refine wp_build (fun _ _ => trivial) ?_
  have hnone : Tables (Mapper.world ⟨k.mem, k.bump, 0, 0⟩ fun _ => none) :=
    ⟨hwf, hwidth, nofun, nofun⟩
  -- the PML4 is the first page of the allocator
  refine wp_mono (Mapper.allocTable_place hnone 0 S (.pml4 k.bump.cursor.toNat)) ?_
    fun _ _ _ => trivial
  rintro pml4 s ⟨place, hm, hcursor, hplace, -, -, hempty, -⟩
  rw [show k.bump.cursor = pml4 from hcursor.symm] at hplace
  have hready : Mapper.Ready ⟨s.mem, s.bump, pml4, 1⟩ place pml4.toNat :=
    ⟨hm.1.step.tables, hplace, rfl⟩
  refine wp_mono (buildTables_spec hready hts hS k.la57) ?_ fun _ _ _ => trivial
  rintro map s' ⟨place', hm', hseated, hpml5, hmapped⟩
  refine ⟨place', hm'.1.step.tables, rfl, hseated, hpml5, fun i hi => ?_, hmapped,
    fun v hv hout => ?_, hm.1.step.trans hm'.1.step⟩
  · exact (hm'.1.others _ _ i hplace fun _ => hi).trans (hempty 3 i)
  · exact (hm'.1.frameAt_eq hplace hv fun hseen => hout hseen.1).trans (frameAt_absent (hempty 3 _))

/-- Entries of the PML4 are in use only where a range needs them. -/
theorem build_spec {k : Kernel} (hwf : k.bump.Wf) (hwidth : k.bump.end.toNat ≤ 2 ^ 52)
    {kstart kend hhdm kernelPhysBase kernelVirtBase : UInt64} {entries : List MemmapEntry}
    {S : Nat → Prop}
    (hS : ∀ t ∈ buildRanges kstart kend hhdm kernelPhysBase kernelVirtBase entries,
      ∀ v, t.pages v → S v) :
    wp (build kstart kend hhdm kernelPhysBase kernelVirtBase entries)
      (fun map k' => ∃ place, Tables (k'.world place) ∧ k'.la57 = k.la57 ∧
        Seated k.la57 place ⟨map.pml4Phys, k'.kernelPml4⟩ ∧
        (k.la57 = true → Wrapped k'.mem ⟨map.pml4Phys, k'.kernelPml4⟩) ∧
        ∀ i, (∀ v, S v → v / 2 ^ 27 % 512 ≠ i) → slots k'.mem 3 k'.kernelPml4.toNat i = .absent)
      (fun _ _ => True) k := by
  refine wp_mono (build_spec_of_pages hwf hwidth rfl hS) ?_ fun _ _ _ => trivial
  rintro map k' ⟨place, htables, h57, hseated, hpml5, hslots, -⟩
  exact ⟨place, htables, h57, hseated, hpml5, hslots⟩

/-- **With all ranges in the higher half, `build` leaves the lower half empty**; the ranges are mapped,
and what was granted before is as it was. -/
theorem build_system {k k' : Kernel} {map : PageMap} (hwf : k.bump.Wf)
    (hwidth : k.bump.end.toNat ≤ 2 ^ 52)
    {kstart kend hhdm kernelPhysBase kernelVirtBase : UInt64} {entries : List MemmapEntry}
    (hhigh : ∀ t ∈ buildRanges kstart kend hhdm kernelPhysBase kernelVirtBase entries, t.High)
    (hbuild : build kstart kend hhdm kernelPhysBase kernelVirtBase entries k = .ok map k') :
    ∃ place, System k' place ∧ k'.la57 = k.la57 ∧
      Seated k.la57 place ⟨map.pml4Phys, k'.kernelPml4⟩ ∧
      (k.la57 = true → Wrapped k'.mem ⟨map.pml4Phys, k'.kernelPml4⟩) ∧
      (∀ t ∈ buildRanges kstart kend hhdm kernelPhysBase kernelVirtBase entries,
        t.Mapped k'.mem k'.kernelPml4.toNat) ∧ Step (k.world fun _ => none) (k'.world place) := by
  have hspec := build_spec_of_pages hwf hwidth rfl (S := fun v => v < 2 ^ 36 ∧ 2 ^ 35 ≤ v)
      fun t ht v hv => by
    refine ⟨?_, (hhigh t ht).pages hv⟩
    obtain ⟨j, -, rfl⟩ := hv
    exact Nat.mod_lt _ (by decide)
  obtain ⟨place, htables, h57, hseated, hpml5, hslots, hmapped, -, hstep⟩ := wp_ok hspec hbuild
  refine ⟨place, ⟨htables, hseated.pml4, fun i hi => hslots i fun v hv => ?_⟩, h57, hseated, hpml5, hmapped,
    hstep⟩
  omega

/-! ## A small machine -/

/-- Two megabytes of memory, which the boot loader maps at the start of the higher half. -/
def smallMap : List MemmapEntry := [⟨0x200000, 0x200000, MEMMAP_USABLE⟩]

def smallBump : BumpAllocator := ⟨0xffff800000000000, 0x200000, 0x200000, 0x400000⟩

/-- `build` for a kernel of one page. -/
abbrev smallBuild : Prog Kernel PageMap :=
  build 0xffffffff80000000 0xffffffff80001000 0xffff800000000000 0x600000 0xffffffff80000000 smallMap

/-- The kernel after `build`: its PML4 is at `0x200000`, and six pages are in use. -/
@[irreducible] def small : Kernel :=
  match smallBuild ⟨fun _ => 0, smallBump, 0, false⟩ with
  | .ok _ k => k
  | .error _ k => k

def smallPageMap : PageMap := ⟨0x200000, 0xffffffff80000000, 0x600000, 0x1000, 0x200000, 1, 6⟩

theorem smallBuild_eq : smallBuild ⟨fun _ => 0, smallBump, 0, false⟩ = .ok smallPageMap small := by
  have hmap : (match smallBuild ⟨fun _ => 0, smallBump, 0, false⟩ with
      | .ok map _ => some map
      | .error _ _ => none) = some smallPageMap := by
    decide +kernel
  unfold small
  cases h : smallBuild ⟨fun _ => 0, smallBump, 0, false⟩ with
  | ok map k =>
    rw [h] at hmap
    rw [Option.some.inj hmap]
  | error e k =>
    rw [h] at hmap
    cases hmap

theorem small_high : ∀ t ∈ buildRanges 0xffffffff80000000 0xffffffff80001000 0xffff800000000000
    0x600000 0xffffffff80000000 smallMap, t.High := by
  decide

end RootCourt

end CourtKernel
