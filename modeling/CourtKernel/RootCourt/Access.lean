import CourtKernel.Lib.Paged
import CourtKernel.RootCourt.Layout
import CourtKernel.RootCourt.Regions

/-!
# Memory as the processor reaches it

The translation of a processor with the kernel's tables in `CR3`, as the `Translation` that loads and
stores go through.

* `Tables.stable` — it depends on the table pages only, so storing elsewhere changes no translation.
* `Direct` — the direct map: every whole page of the allocator's region is reached at its `virt`.
* `build_direct` — so it is after `build`, and `build` changes nothing that was granted before.
-/

namespace CourtKernel

namespace RootCourt

open Place (shape)

/-- The translation of a processor with these tables. -/
def paging (la57 : Bool) (cr3 : UInt64) : Translation := fun m va => translateCr3 la57 m cr3 va

/-- A byte of a table. -/
def TableByte (place : Nat → Option Place) (a : Nat) : Prop :=
  ∃ n p, place n = some p ∧ n ≤ a ∧ a < n + 4096

section

variable {w : World} {a : Nat} {la57 : Bool} {space : AddressSpace} {m : Memory}

theorem Data.not_byte {run : Run} (hd : Data w run) (h : Tables w) {o : Nat} (ho : o < run.count * 4096) :
    ¬ TableByte w.place (run.frame + o) := by
  rintro ⟨n, p, hn, hle, hlt⟩
  have haligned := hd.aligned
  have hpage := (h.page n p hn).1
  have hfree := hd.free (o / 4096) (by omega)
  rw [show run.frame + o / 4096 * 4096 = n by omega, hn] at hfree
  cases hfree

/-- Memories with the same tables have the same walks. -/
theorem Tables.walk_same (h : Tables w) (hm : ∀ a, TableByte w.place a → m a = w.mem a) (is : List Nat)
    {n : Nat} {p : Place} (hn : w.place n = some p) (hlen : is.length = shape.level p + 1) :
    Radix.walk (slots m) n is = Radix.walk (slots w.mem) n is := by
  refine Radix.walk_link h.placed (fun n p i hn => Or.inl ?_) is n p hn hlen
  exact slots_congr fun a h1 h2 => hm a ⟨n, p, hn, h1, h2⟩

theorem Tables.stable (h : Tables w) (hseat : Seated la57 w.place space) :
    (paging la57 space.cr3).Stable w.mem (TableByte w.place) := by
  intro m hm
  funext va
  show translateCr3 la57 m space.cr3 va = translateCr3 la57 w.mem space.cr3 va
  cases hla : la57 with
  | true =>
    rw [translateCr3, translateCr3, if_pos rfl, if_pos rfl,
      h.walk_same hm _ (hseat.pml5 hla) (by rfl)]
  | false =>
    rw [translateCr3, translateCr3, if_neg (by decide), if_neg (by decide), translate, translate,
      hseat.cr3 hla, h.walk_same hm _ hseat.pml4 (by rfl)]

end

/-! ## The direct map -/

/-- The whole pages of the allocator's region are reached at their `virt`. -/
structure Direct (b : BumpAllocator) (f : UInt64 → Option Nat) : Prop where
  aligned : b.hhdm.toNat % 4096 = 0
  virt : ∀ p : UInt64, b.start ≤ p → p.toNat / 4096 * 4096 + 4096 ≤ b.end.toNat →
    (b.virt p).toNat = b.hhdm.toNat + p.toNat
  reach : ∀ p : UInt64, b.start ≤ p → p.toNat / 4096 * 4096 + 4096 ≤ b.end.toNat →
    f (b.virt p) = some p.toNat

section

variable {kstart kend hhdm kernelPhysBase kernelVirtBase : UInt64} {entries : List MemmapEntry}
  {b : BumpAllocator} {k k₀ : Kernel} {map : PageMap} {f : UInt64 → Option Nat}

/-- A range of whole pages in the direct map. -/
theorem Direct.maps (h : Direct b f) {phys : UInt64} {n : Nat} (haligned : phys.toNat % 4096 = 0)
    (hn : n % 4096 = 0) (hstart : b.start.toNat ≤ phys.toNat) (hend : phys.toNat + n ≤ b.end.toNat) :
    Translation.Maps f (b.virt phys) phys.toNat n := by
  intro i hi
  have hlt := b.end.toNat_lt
  have hadd : (phys + UInt64.ofNat i).toNat = phys.toNat + i := by
    rw [UInt64.toNat_add, UInt64.toNat_ofNat_of_lt' (by unfold UInt64.size; omega)]
    omega
  have hbyte := h.reach (phys + UInt64.ofNat i) (by rw [UInt64.le_iff_toNat_le, hadd]; omega)
    (by rw [hadd]; omega)
  rw [BumpAllocator.virt, ← UInt64.add_assoc, hadd] at hbyte
  exact hbyte

/-- The addresses of a range of the direct map are in the higher half. -/
theorem Target.High.of_has {entry : MemmapEntry}
    (h : Target.High ⟨hhdm + alignUp entry.base PAGE, alignUp entry.base PAGE,
      alignDown (saturatingAdd entry.base entry.length) PAGE - alignUp entry.base PAGE⟩)
    (p : UInt64) (hp : entry.Has p) : 2 ^ 64 - 2 ^ 47 ≤ (hhdm + p).toNat := by
  obtain ⟨off, hoff, rfl⟩ := (MemmapEntry.has_iff fun hle => hp.keep (Or.inr hle)).1 hp
  have hcovers := h.covers_iff.2 ⟨off, hoff, rfl⟩
  rw [← UInt64.add_assoc]
  exact Nat.le_trans h.1 hcovers.1

/-- A byte of the allocator's region, if the ranges of `build` are mapped. -/
theorem direct_of_mapped (hmem : BumpAllocator.fromMemmap hhdm entries = some b)
    (hphys : ∀ entry ∈ entries, entry.base.toNat + entry.length.toNat ≤ 2 ^ 52)
    (hhigh : ∀ t ∈ buildRanges kstart kend hhdm kernelPhysBase kernelVirtBase entries, t.High)
    (hmapped : ∀ t ∈ buildRanges kstart kend hhdm kernelPhysBase kernelVirtBase entries,
      t.Mapped k.mem k.kernelPml4.toNat) {p : UInt64} (hstart : b.start ≤ p)
    (hend : p.toNat / 4096 * 4096 + 4096 ≤ b.end.toNat) :
    b.hhdm.toNat % 4096 = 0 ∧ (b.virt p).toNat = b.hhdm.toNat + p.toNat ∧
      2 ^ 64 - 2 ^ 47 ≤ (b.virt p).toNat ∧ translate k.mem k.kernelPml4 (b.virt p) = some p.toNat := by
  obtain ⟨entry, hentry, hkind, hhas, hvirt⟩ := has_of_byte hmem hstart hend
  have hhhdm : b.hhdm = hhdm := by
    obtain ⟨-, -, -, hhhdm, -⟩ := BumpAllocator.fromMemmap_entry hmem
    exact hhhdm
  have hin : ⟨hhdm + alignUp entry.base PAGE, alignUp entry.base PAGE,
      alignDown (saturatingAdd entry.base entry.length) PAGE - alignUp entry.base PAGE⟩ ∈
      buildRanges kstart kend hhdm kernelPhysBase kernelVirtBase entries :=
    List.mem_cons_of_mem _ (List.mem_flatMap.2 ⟨entry, hentry,
      mem_entryRanges.2 ⟨hhas.keep, Or.inr ⟨hkind, rfl⟩⟩⟩)
  have hentryHigh := (hhigh _ hin).of_has
  have hbyte := hentryHigh p hhas
  have hwidth := hphys entry hentry
  have hlt := hhdm.toNat_lt
  have hlow : p.toNat < 2 ^ 52 := by
    have hlt := UInt64.lt_iff_toNat_lt.1 hhas.2
    rw [toNat_alignDown, toNat_saturatingAdd] at hlt
    omega
  have haligned := (hmapped _ hin).virt
  have hmod := toNat_alignUp_mod entry.base
  rw [hvirt, hhhdm]
  refine ⟨?_, ?_, hbyte, (hmapped _ hin).direct hwidth hentryHigh hhas⟩
  · rw [UInt64.toNat_add] at haligned
    omega
  · rw [UInt64.toNat_add] at hbyte ⊢
    omega

/-- **After `build` the direct map is there**, and what was granted before is as it was. -/
theorem build_direct (hmem : BumpAllocator.fromMemmap hhdm entries = some b)
    (hallocs : b.Allocs k.bump) (hphys : ∀ entry ∈ entries, entry.base.toNat + entry.length.toNat ≤ 2 ^ 52)
    (hhigh : ∀ t ∈ buildRanges kstart kend hhdm kernelPhysBase kernelVirtBase entries, t.High)
    (hbuild : build kstart kend hhdm kernelPhysBase kernelVirtBase entries k = .ok map k₀) :
    ∃ place, System k₀ place ∧ k₀.la57 = k.la57 ∧ Seated k.la57 place ⟨map.pml4Phys, k₀.kernelPml4⟩ ∧
      k₀.bump.cursor.toNat = k.bump.cursor.toNat + map.tablePages.toNat * 4096 ∧ k.bump.Allocs k₀.bump ∧
      Step (k.world fun _ => none) (k₀.world place) ∧ Direct b (paging k.la57 map.pml4Phys k₀.mem) := by
  have hwf₀ := BumpAllocator.fromMemmap_wf hmem
  obtain ⟨hwf, hbump, -⟩ := hallocs.spec hwf₀
  have hwidth : k.bump.end.toNat ≤ 2 ^ 52 := by
    obtain ⟨entry, hentry, -, -, hend, -⟩ := BumpAllocator.fromMemmap_entry hmem
    have hbound := hphys entry hentry
    rw [hbump]
    show b.end.toNat ≤ 2 ^ 52
    rw [hend, toNat_saturatingAdd]
    omega
  obtain ⟨place, hsys, h57, hseat, hpml5, hmapped, hstep⟩ := build_system hwf hwidth hhigh hbuild
  obtain ⟨hallocs₀, hcursor⟩ := wp_ok (build_counted hwf) hbuild
  have hbyte := fun {p : UInt64} => @direct_of_mapped _ _ _ _ _ _ _ k₀ hmem hphys hhigh hmapped p
  refine ⟨place, hsys, h57, hseat, hcursor, hallocs₀, hstep, ?_,
    fun p hstart hend => (hbyte hstart hend).2.1, fun p hstart hend => ?_⟩
  · -- the region has a page, its first one
    obtain ⟨-, -, -, hfirst, -, -, hroom⟩ := BumpAllocator.fromMemmap_longest hmem
    have haligned := hwf₀.aligned
    rw [hfirst] at haligned
    exact (hbyte (UInt64.le_refl _) (by omega)).1
  · obtain ⟨-, -, hvirt, htranslate⟩ := hbyte hstart hend
    exact (hseat.translateCr3 hpml5 hvirt).trans htranslate

/-! ## Stores outside the tables -/

theorem Tables.remem {place : Nat → Option Place} {m : Memory} (h : Tables (k.world place))
    (hm : ∀ a, TableByte place a → m a = k.mem a) : Tables (Kernel.world { k with mem := m } place) := by
  refine ⟨h.bump, h.width, h.page, fun n p i next hn hs => h.placed n p i next hn ?_⟩
  rw [← hs]
  exact (slots_congr fun a h1 h2 => hm a ⟨n, p, hn, h1, h2⟩).symm

theorem System.remem {place : Nat → Option Place} {m : Memory} (h : System k place)
    (hm : ∀ a, TableByte place a → m a = k.mem a) : System { k with mem := m } place := by
  refine ⟨h.tables.remem hm, h.kernel, fun i hi => ?_⟩
  rw [← h.low i hi]
  exact slots_congr fun a h1 h2 => hm a ⟨_, _, h.kernel, h1, h2⟩

end

end RootCourt

end CourtKernel
