import CourtKernel.RootCourt.Mapping

/-!
# Calls of `map_range`

A page table that only `map_range` has worked on, from the moment its PML4 was a zeroed page.  Each
call may have had any arguments, and may have stopped midway: on a conflict, on a collision of page
sizes, or for want of table pages.

* `Reachable`, `Reachable.ready` — such tables satisfy the invariant.
* `Shows.translate`, `Mapper.Partly.translate` — from pages and frames to addresses.
* `map_range_only_adds` — a call maps its range, byte by byte, and changes nothing else; whatever
  it returns, it takes no translation back and adds no wrong one.
-/

namespace CourtKernel

namespace RootCourt

/-- The bytes of the whole pages of a length. -/
def wholePages (len : UInt64) : Nat := len.toNat / 4096 * 4096

/-- The address `va` lies in the range, as far as the 48 bits go that a walk looks at. -/
def Covers (virt len va : UInt64) : Prop :=
  virt.toNat % 2 ^ 48 ≤ va.toNat % 2 ^ 48 ∧
    va.toNat % 2 ^ 48 < virt.toNat % 2 ^ 48 + wholePages len

namespace Mapper

/-- Tables made by calls of `map_range` from a zeroed PML4. -/
inductive Reachable : Mapper → Prop where
  | zeroed {s s' : Mapper} {pml4 : UInt64} : s.bump.Wf → s.bump.end.toNat ≤ 2 ^ 52 →
      allocTable s = .ok pml4 s' → Reachable { s' with pml4Phys := pml4 }
  | call {s : Mapper} : Reachable s → ∀ virt phys len : UInt64,
      Reachable (stateOf (mapRange virt phys len s))

variable {s s' : Mapper} {place : Nat → Option Place} {r : Nat}

/-- A fresh PML4 is ready to be worked on. -/
theorem ready_zeroed {pml4 : UInt64} (hwf : s.bump.Wf) (hwidth : s.bump.end.toNat ≤ 2 ^ 52)
    (halloc : allocTable s = .ok pml4 s') :
    ∃ place, Ready { s' with pml4Phys := pml4 } place pml4.toNat := by
  have hnone : Tables (s.world fun _ => none) := ⟨hwf, hwidth, nofun, nofun⟩
  have hspec := allocTable_place hnone 0 (fun _ => False) (.pml4 s.bump.cursor.toNat)
  obtain ⟨place, hm, hpml4, hplace, -⟩ := wp_ok hspec halloc
  rw [← hpml4] at hplace
  exact ⟨place, hm.1.step.tables, hplace, rfl⟩

theorem Ready.call (h : s.Ready place r) (virt phys len : UInt64) :
    ∃ place', Ready (stateOf (mapRange virt phys len s)) place' r := by
  refine wp_stateOf (J := fun s' : Mapper => ∃ place', s'.Ready place' r) ?_
  refine wp_mono (mapRange_spec h virt phys len) ?_ ?_
  · rintro ⟨⟩ s' ⟨place', hm, -⟩
    exact ⟨place', h.moves hm⟩
  · rintro e s' ⟨place', hm⟩
    exact ⟨place', h.moves hm⟩

theorem Reachable.ready (h : s.Reachable) : ∃ place, s.Ready place s.pml4Phys.toNat := by
  suffices hr : ∃ place r, s.Ready place r by
    obtain ⟨place, r, hready⟩ := hr
    exact ⟨place, hready.pml4.symm ▸ hready⟩
  induction h with
  | zeroed hwf hwidth halloc =>
    obtain ⟨place, hready⟩ := ready_zeroed hwf hwidth halloc
    exact ⟨place, _, hready⟩
  | call _ virt phys len ih =>
    obtain ⟨place, r, hready⟩ := ih
    obtain ⟨place', hready'⟩ := hready.call virt phys len
    exact ⟨place', r, hready'⟩

end Mapper

/-! ## From pages to addresses -/

section

variable {m m' : Memory} {pml4 virt phys len va : UInt64}

/-- Pages that show their frames translate, byte by byte. -/
theorem Shows.translate {n : Nat} (h : Shows m pml4.toNat (pageOf virt) phys.toNat n)
    (hvirt : virt.toNat % 4096 = 0) (hphys : phys.toNat % 4096 = 0)
    (hwidth : phys.toNat + n * 4096 ≤ 2 ^ 52) {k : Nat} (hk : k < n * 4096) :
    RootCourt.translate m pml4 (virt + UInt64.ofNat k) = some (phys.toNat + k) := by
  have hadd : (virt + UInt64.ofNat k).toNat = (virt.toNat + k) % 2 ^ 64 := by
    rw [UInt64.toNat_add, UInt64.toNat_ofNat', Nat.mod_eq_of_lt (a := k) (by omega)]
  have hpage : pageOf (virt + UInt64.ofNat k) = (pageOf virt + k / 4096) % 2 ^ 36 := by
    rw [pageOf, hadd, pageOf]
    omega
  rw [translate_eq, hpage, h (k / 4096) (by omega), hadd, Option.map_some]
  congr 1
  omega

/-- A page of the range belongs to an address of the range. -/
theorem covers_of_range (hvirt : virt.toNat % 4096 = 0)
    (hspan : virt.toNat % 2 ^ 48 + wholePages len ≤ 2 ^ 48)
    (h : Range (pageOf virt) (len.toNat / 4096) (pageOf va)) : Covers virt len va := by
  obtain ⟨k, hk, hva⟩ := h
  unfold pageOf at hva
  unfold wholePages at hspan
  unfold Covers wholePages
  omega

/-- What a call that stopped midway has mapped is right. -/
theorem Mapper.Partly.translate {n : Nat}
    (h : Partly m pml4.toNat (pageOf virt) phys.toNat n m')
    (hvirt : virt.toNat % 4096 = 0) (hphys : phys.toNat % 4096 = 0)
    (hspan : virt.toNat % 2 ^ 48 + n * 4096 ≤ 2 ^ 48)
    (hwidth : phys.toNat + n * 4096 ≤ 2 ^ 52) {p : Nat}
    (hbefore : RootCourt.translate m pml4 va = none)
    (hafter : RootCourt.translate m' pml4 va = some p) :
    ∃ k < n * 4096, va.toNat % 2 ^ 48 = virt.toNat % 2 ^ 48 + k ∧ p = phys.toNat + k := by
  obtain ⟨done, hdone, hshow, hsame⟩ := h
  rw [translate_eq] at hbefore hafter
  by_cases hin : Range (pageOf virt) done (pageOf va)
  · obtain ⟨k, hk, hva⟩ := hin
    rw [hva, hshow k hk, Option.map_some, Option.some.injEq] at hafter
    unfold pageOf at hva
    exact ⟨k * 4096 + va.toNat % 4096, by omega, by omega, by omega⟩
  · rw [hsame _ (pageOf_lt va) hin, hbefore] at hafter
    cases hafter

end

/-- **`map_range` is correct and only adds.** -/
theorem map_range_only_adds {s : Mapper} (h : s.Reachable) {virt phys len : UInt64}
    (hvirt : virt.toNat % 4096 = 0) (hphys : phys.toNat % 4096 = 0)
    (hspan : virt.toNat % 2 ^ 48 + wholePages len ≤ 2 ^ 48)
    (hwidth : phys.toNat + wholePages len ≤ 2 ^ 52) :
    let s' := stateOf (Mapper.mapRange virt phys len s)
    (resultOf (Mapper.mapRange virt phys len s) = .ok () →
      (∀ k < wholePages len,
        translate s'.mem s'.pml4Phys (virt + UInt64.ofNat k) = some (phys.toNat + k)) ∧
      ∀ va, ¬ Covers virt len va →
        translate s'.mem s'.pml4Phys va = translate s.mem s.pml4Phys va) ∧
    (∀ va p, translate s.mem s.pml4Phys va = some p → translate s'.mem s'.pml4Phys va = some p) ∧
    ∀ va p, translate s.mem s.pml4Phys va = none → translate s'.mem s'.pml4Phys va = some p →
      ∃ k < wholePages len, va.toNat % 2 ^ 48 = virt.toNat % 2 ^ 48 + k ∧ p = phys.toNat + k := by
  intro s'
  obtain ⟨place, hready⟩ := h.ready
  have hspec := Mapper.mapRange_tries hready virt phys len
  -- in both cases the tables moved, and a part of the range is mapped
  have hmoves : ∃ place', s.Moves place s.pml4Phys.toNat
        (Range (pageOf virt) (len.toNat / 4096)) s' place' ∧
      Mapper.Partly s.mem s.pml4Phys.toNat (pageOf virt) phys.toNat (len.toNat / 4096) s'.mem := by
    refine wp_stateOf (J := fun s' => ∃ place', s.Moves place s.pml4Phys.toNat
      (Range (pageOf virt) (len.toNat / 4096)) s' place' ∧
      Mapper.Partly s.mem s.pml4Phys.toNat (pageOf virt) phys.toNat (len.toNat / 4096) s'.mem) ?_
    refine wp_mono hspec ?_ fun _ _ he => he
    rintro ⟨⟩ s₁ ⟨place', hm, hshow⟩
    exact ⟨place', hm, _, Nat.le_refl _, hshow, fun v hv hout =>
      hm.1.frameAt_eq hready.root hv fun hseen => hout hseen.1⟩
  obtain ⟨place', hm, hpartly⟩ := hmoves
  rw [show s'.pml4Phys = s.pml4Phys from hm.2]
  refine ⟨fun hok => ⟨fun k hk => ?_, fun va hout => ?_⟩, fun va p hva => ?_,
    fun va p hnone hsome => Mapper.Partly.translate hpartly hvirt hphys hspan hwidth hnone hsome⟩
  · obtain ⟨_, -, hshow⟩ := wp_ok hspec (eq_ok_of_resultOf hok)
    exact hshow.translate hvirt hphys hwidth hk
  · have hsame := hm.1.frameAt_eq hready.root (pageOf_lt va) fun hseen =>
      hout (covers_of_range hvirt hspan hseen.1)
    rw [translate_eq, translate_eq]
    exact congrArg _ hsame
  · rw [translate_eq, Option.map_eq_some_iff] at hva ⊢
    obtain ⟨f, hf, hp⟩ := hva
    exact ⟨f, hm.1.frameAt_some hready.tables hready.root hf, hp⟩

/-- Tables with one page mapped: their PML4 is at `0x200000`, and there is room for 63 more. -/
@[irreducible] def onePage : Mapper :=
  stateOf (Mapper.mapRange 0x1000 0x5000 0x1000
    { stateOf (Mapper.allocTable ⟨fun _ => 0, ⟨0, 0x200000, 0x200000, 0x240000⟩, 0, 0⟩) with
      pml4Phys := 0x200000 })

theorem onePage_reachable : onePage.Reachable := by
  have halloc : resultOf (Mapper.allocTable ⟨fun _ => 0, ⟨0, 0x200000, 0x200000, 0x240000⟩, 0, 0⟩) =
      .ok 0x200000 := by
    decide +kernel
  unfold onePage
  refine .call (.zeroed ⟨?_, ?_, ?_, ?_⟩ ?_ (eq_ok_of_resultOf halloc)) _ _ _
  all_goals decide

/-- A large page and a small one, next to the page that is there. -/
theorem map_range_only_adds_onePage :
    translate (stateOf (Mapper.mapRange 0x400000 0x800000 0x201000 onePage)).mem 0x200000
        (0x400000 + UInt64.ofNat 0x200fff) = some 0xa00fff ∧
      translate (stateOf (Mapper.mapRange 0x400000 0x800000 0x201000 onePage)).mem 0x200000
        0x1234 = some 0x5234 := by
  have hok : resultOf (Mapper.mapRange 0x400000 0x800000 0x201000 onePage) = .ok () := by
    decide +kernel
  have hpml4 : (stateOf (Mapper.mapRange 0x400000 0x800000 0x201000 onePage)).pml4Phys =
      0x200000 := by
    decide +kernel
  have hold : translate onePage.mem onePage.pml4Phys 0x1234 = some 0x5234 := by decide +kernel
  have h := @map_range_only_adds onePage onePage_reachable 0x400000 0x800000 0x201000
    (by decide) (by decide) (by decide) (by decide)
  dsimp only at h
  rw [hpml4] at h
  exact ⟨(h.1 hok).1 0x200fff (by decide), h.2.1 0x1234 0x5234 hold⟩

end RootCourt

end CourtKernel
