import CourtKernel.RootCourt.KernelHalf
import CourtKernel.RootCourt.MapRange

/-!
# What a space sees through its `CR3`

The mapper works from the PML4, the processor from `CR3`.  With four levels the two are the same
page.  With five levels `CR3` is a PML5, and `wrap_la57` fills its last entry only, the one that the
higher half goes through.

* `Spaces.step_spaces`, `Spaces.run_spaces` — spaces keep their numbers.
* `Inv.map_ok`, `Inv.run_shows` — what a successful call of `map` has mapped, it has mapped for good.
* `mappings_visible` — every mapping of a run is visible from `CR3` with four levels, and none with
  five; with four or five levels the higher half is the kernel's.
* `mapping_invisible` — a mapping made by a successful call of `map`, which the processor does not see
  with five levels.
-/

namespace CourtKernel

namespace RootCourt

namespace Spaces

/-- Spaces keep their numbers. -/
theorem step_spaces (s : Spaces) (c : Call) : s.spaces <+: (s.step c).2.spaces := by
  cases c with
  | cloneKernel =>
    simp only [step, attempt]
    cases AddressSpace.cloneKernel s.kernel with
    | ok space k => exact List.prefix_append _ _
    | error e k => exact List.prefix_refl _
  | map i virt phys len =>
    simp only [step]
    cases s.spaces[i]? with
    | none => exact List.prefix_refl _
    | some space => rw [attempt_spaces]
  | load i image =>
    simp only [step]
    cases s.spaces[i]? with
    | none => exact List.prefix_refl _
    | some space => rw [attempt_spaces]

theorem run_spaces (kernel : Kernel) {i : Nat} {space : AddressSpace} (cs : List Call) :
    ∀ s : Spaces, s.spaces[i]? = some space →
      ((machine kernel).run s cs).spaces[i]? = some space := by
  induction cs with
  | nil => exact fun s h => h
  | cons c cs ih =>
    intro s h
    refine ih _ ?_
    obtain ⟨hlt, hget⟩ := List.getElem?_eq_some_iff.1 h
    rw [← hget]
    exact List.prefix_iff_getElem?.1 (s.step_spaces c) i hlt

/-- A call of `map` that returned worked on a space. -/
theorem step_map_ok {s : Spaces} {i : Nat} {virt phys len : UInt64}
    (h : (s.step (.map i virt phys len)).1 = .unit (.ok ())) :
    ∃ space, s.spaces[i]? = some space ∧
      space.map virt phys len s.kernel = .ok () (s.step (.map i virt phys len)).2.kernel := by
  cases hi : s.spaces[i]? with
  | none =>
    simp only [step, hi] at h
    cases h
  | some space =>
    refine ⟨space, rfl, ?_⟩
    simp only [step, hi, attempt] at h ⊢
    cases hx : space.map virt phys len s.kernel with
    | ok a k => rfl
    | error e k =>
      rw [hx] at h
      cases h

end Spaces

section

variable {la57 : Bool} {m₀ : Memory} {root space : AddressSpace} {place : Nat → Option Place}
  {s : Spaces}

/-- What a call of `map` that returned has mapped. -/
theorem Inv.map_ok (h : Inv la57 m₀ root s place) {i : Nat} {virt phys len : UInt64}
    (hok : (s.step (.map i virt phys len)).1 = .unit (.ok ())) (hi : s.spaces[i]? = some space) :
    Admits virt phys ∧
      Shows (s.step (.map i virt phys len)).2.kernel.mem space.pml4Phys.toNat (pageOf virt)
        phys.toNat (len.toNat / 4096) := by
  obtain ⟨space', hi', hmap⟩ := Spaces.step_map_ok hok
  obtain rfl : space' = space := Option.some.inj (hi'.symm.trans hi)
  have hseat := h.seated space' (List.mem_cons_of_mem _ (List.mem_of_getElem? hi))
  obtain ⟨hadmits, place', -, -, hshow⟩ :=
    wp_ok (AddressSpace.map_spec h.system.tables hseat.pml4 virt phys len) hmap
  exact ⟨hadmits, hshow⟩

/-- Pages that show their frames go on to show them. -/
theorem Inv.run_shows (h : Inv la57 m₀ root s place) {k : Kernel} {cs : List Call}
    (hcs : ∀ c ∈ cs, c.Below) (hspace : space ∈ s.spaces) {v f n : Nat}
    (hshow : Shows s.kernel.mem space.pml4Phys.toNat v f n) :
    Shows ((Spaces.machine k).run s cs).kernel.mem space.pml4Phys.toNat v f n := by
  obtain ⟨place', -, hstep⟩ := Inv.run (k := k) hcs h
  have hseat := h.seated space (List.mem_cons_of_mem _ hspace)
  exact fun j hj => hstep.frameAt_some h.system.tables hseat.pml4 (hshow j hj)

/-- What a call of `map` in a run has mapped is mapped at the end of the run. -/
theorem Inv.after_map {k : Kernel} (h : Inv la57 m₀ root ⟨k, []⟩ place) {pre post : List Call} {i : Nat}
    {virt phys len : UInt64} (hcs : ∀ c ∈ pre ++ .map i virt phys len :: post, c.Below)
    (hok : ((Spaces.after k pre).step (.map i virt phys len)).1 = .unit (.ok ()))
    (hspace : (Spaces.after k (pre ++ .map i virt phys len :: post)).spaces[i]? = some space) :
    Admits virt phys ∧
      Shows (Spaces.after k (pre ++ .map i virt phys len :: post)).kernel.mem space.pml4Phys.toNat
        (pageOf virt) phys.toNat (len.toNat / 4096) := by
  -- the call met the invariant, and so did the calls after it
  have hpre : ∀ c ∈ pre, c.Below := fun c hc => hcs c (List.mem_append_left _ hc)
  have hcall := hcs (.map i virt phys len) (List.mem_append_right _ List.mem_cons_self)
  have hpost : ∀ c ∈ post, c.Below := fun c hc =>
    hcs c (List.mem_append_right _ (List.mem_cons_of_mem _ hc))
  obtain ⟨place₁, hinv₁, -⟩ := Inv.run (k := k) hpre h
  obtain ⟨place₂, hinv₂, -⟩ := hinv₁.step hcall
  -- and it worked on the space of that number
  unfold Spaces.after at hspace ⊢
  rw [Machine.run_append] at hspace ⊢
  obtain ⟨space', hspace', -⟩ := Spaces.step_map_ok hok
  obtain rfl : space' = space :=
    Option.some.inj ((Spaces.run_spaces k _ _ hspace').symm.trans hspace)
  obtain ⟨hadmits, hshow⟩ := hinv₁.map_ok hok hspace'
  have hmember : space' ∈ (((Spaces.machine k).run ⟨k, []⟩ pre).step
      (.map i virt phys len)).2.spaces :=
    (Spaces.step_spaces _ _).subset (List.mem_of_getElem? hspace')
  exact ⟨hadmits, hinv₂.run_shows hpost hmember hshow⟩

/-- With five levels the processor sees nothing of the lower half. -/
theorem Wrapped.translateCr3_low {m : Memory} (h : Wrapped m space) {va : UInt64}
    (hva : va.toNat < 2 ^ 47) : translateCr3 true m space.cr3 va = none := by
  have hindex : ((va >>> 48) &&& 0x1ff).toNat = 0 := by
    rw [toNat_shift_and va 48 (by decide), show (48 : UInt64).toNat = 48 from rfl]
    omega
  rw [translateCr3, if_pos rfl, indices_eq_digits, h.walk, hindex, if_neg (by decide),
    Option.map_none]

end

/-- **Mappings and `CR3`.**  A mapping that a call of `map` has made in a run is there at its end, as
the processor sees it with four levels, and not at all with five; and with four or five levels every
space sees the higher half as the kernel does. -/
theorem mappings_visible {k k₀ : Kernel} {b : BumpAllocator} {map : PageMap}
    {kstart kend hhdm kernelPhysBase kernelVirtBase : UInt64} {entries : List MemmapEntry}
    (hmem : BumpAllocator.fromMemmap hhdm entries = some b) (hallocs : b.Allocs k.bump)
    (hwidth : b.end.toNat ≤ 2 ^ 52)
    (hhigh : ∀ t ∈ buildRanges kstart kend hhdm kernelPhysBase kernelVirtBase entries, t.High)
    (hbuild : build kstart kend hhdm kernelPhysBase kernelVirtBase entries k = .ok map k₀)
    {cs : List Call} (hcs : ∀ c ∈ cs, c.Below) {i : Nat} {space : AddressSpace}
    (hspace : (Spaces.after k₀ cs).spaces[i]? = some space) :
    (∀ pre virt phys len post, cs = pre ++ .map i virt phys len :: post →
      ((Spaces.after k₀ pre).step (.map i virt phys len)).1 = .unit (.ok ()) →
      phys.toNat + wholePages len ≤ 2 ^ 52 → ∀ j < wholePages len,
        translateCr3 k.la57 (Spaces.after k₀ cs).kernel.mem space.cr3 (virt + UInt64.ofNat j) =
          if k.la57 then none else some (phys.toNat + j)) ∧
    ∀ va : UInt64, 0xffff800000000000 ≤ va →
      translateCr3 k.la57 (Spaces.after k₀ cs).kernel.mem space.cr3 va =
        translateCr3 k.la57 (Spaces.after k₀ cs).kernel.mem map.pml4Phys va := by
  obtain ⟨hwrapped, place₀, hinit⟩ := build_inv hmem hallocs hwidth hhigh hbuild
  obtain ⟨place, hinv, -⟩ := Inv.run (k := k₀) hcs hinit
  have hmember : space ∈ (Spaces.after k₀ cs).spaces := List.mem_of_getElem? hspace
  have hseat := hinv.seated space (List.mem_cons_of_mem _ hmember)
  have hshared := hinv.shared space (List.mem_cons_of_mem _ hmember)
  refine ⟨?_, fun va hva => ?_⟩
  · rintro pre virt phys len post rfl hok hphys j hj
    obtain ⟨hadmits, hshow⟩ := hinit.after_map hcs hok hspace
    cases h57 : k.la57 with
    | false =>
      rw [translateCr3, if_neg (by decide), if_neg (by decide), hseat.cr3 h57]
      exact hshow.translate hadmits.2.1 hadmits.2.2 hphys hj
    | true =>
      have hlow : virt.toNat + wholePages len ≤ 2 ^ 47 :=
        hcs (.map i virt phys len) (List.mem_append_right _ List.mem_cons_self) hadmits
      refine (hshared.wrapped h57).translateCr3_low ?_
      rw [UInt64.toNat_add, UInt64.toNat_ofNat']
      omega
  · have hpage : 2 ^ 35 ≤ pageOf va := by
      have hle := UInt64.le_iff_toNat_le.1 hva
      rw [show (0xffff800000000000 : UInt64).toNat = 0xffff800000000000 from rfl] at hle
      have hlt := va.toNat_lt
      unfold pageOf
      omega
    have hroot := hinv.seated _ List.mem_cons_self
    have h₁ := hshared.translate hseat hroot hwrapped hpage
    have h₂ := (hinv.shared _ List.mem_cons_self).translate hroot hroot hwrapped hpage
    exact h₁.2.trans h₂.2.symm

theorem mappings_visible_small :
    translateCr3 false
        (Spaces.after small [.cloneKernel, .map 0 0x400000 0x300000 0x2000]).kernel.mem 0x206000
        (0x400000 + UInt64.ofNat 0x1234) = some 0x301234 := by
  have hbelow : ∀ c ∈ [Call.cloneKernel, .map 0 0x400000 0x300000 0x2000], c.Below := by decide
  have hspace : (Spaces.after small [.cloneKernel, .map 0 0x400000 0x300000 0x2000]).spaces[0]? =
      some ⟨0x206000, 0x206000⟩ := by
    decide +kernel
  have hok : ((Spaces.after small [.cloneKernel]).step (.map 0 0x400000 0x300000 0x2000)).1 =
      .unit (.ok ()) := by
    decide +kernel
  have h := mappings_visible (b := smallBump) (by decide) (.refl _) (by decide) small_high
    smallBuild_eq hbelow hspace
  exact h.1 [.cloneKernel] 0x400000 0x300000 0x2000 [] rfl hok (by decide) 0x1234 (by decide)

/-- The small machine with `LA57` set: its PML5 is at `0x206000`. -/
@[irreducible] def small57 : Kernel := stateOf (smallBuild ⟨fun _ => 0, smallBump, 0, true⟩)

/-- **A mapping that the processor does not see.**  With `LA57` set, a page mapped by a call of `map`
that returned is in the tables of the space, but not on the way from its `CR3`. -/
theorem mapping_invisible :
    resultOf (smallBuild ⟨fun _ => 0, smallBump, 0, true⟩) =
        .ok ⟨0x206000, 0xffffffff80000000, 0x600000, 0x1000, 0x200000, 1, 7⟩ ∧
      (Spaces.after small57 [.cloneKernel]).spaces = [⟨0x208000, 0x207000⟩] ∧
      ((Spaces.after small57 [.cloneKernel]).step (.map 0 0x400000 0x300000 0x1000)).1 =
        .unit (.ok ()) ∧
      translate (Spaces.after small57 [.cloneKernel, .map 0 0x400000 0x300000 0x1000]).kernel.mem
        0x207000 0x400000 = some 0x300000 ∧
      translateCr3 true
        (Spaces.after small57 [.cloneKernel, .map 0 0x400000 0x300000 0x1000]).kernel.mem
        0x208000 0x400000 = none := by
  refine ⟨?_, ?_, ?_, ?_, ?_⟩
  all_goals decide +kernel

end RootCourt

end CourtKernel
