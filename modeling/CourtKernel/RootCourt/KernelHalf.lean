import CourtKernel.Lib.Machine
import CourtKernel.RootCourt.Build
import CourtKernel.RootCourt.Loading

/-!
# The kernel's half of every space

The tables of the higher half are shared by reference: an entry of a space's PML4 above index 255
names a table of the kernel.  `map` and `load` look only at the first address of a range, and the
loop that maps the range goes on page by page with indices modulo 512.

* `Call`, `machine` — any sequence of `clone_kernel`, `map` and `load`, on any of the spaces.
* `Call.Below` — the ranges that a call goes on to map end in the lower half.
* `kernel_half_untouched` — as long as all calls are `Below`, all spaces and the kernel translate
  every address of the higher half as the tables of `build` did, whatever the calls return.
* `map_across_half` — a call of `map` that crosses the boundary adds a translation to the kernel.
-/

namespace CourtKernel

namespace RootCourt

open Radix (walk)
open Place (shape)

/-- The calls that work on address spaces; spaces are named by the order of their making. -/
inductive Call where
  | cloneKernel
  | map (space : Nat) (virt phys len : UInt64)
  | load (space : Nat) (image : List UInt8)
  deriving DecidableEq

/-- What a call returns, by result type; `none` for a space that does not exist. -/
inductive Reply where
  | space (result : Except String AddressSpace)
  | unit (result : Except String Unit)
  | entry (result : Except String UInt64)
  | none
  deriving DecidableEq

/-- The kernel and the spaces made so far. -/
structure Spaces where
  kernel : Kernel
  spaces : List AddressSpace

namespace Spaces

/-- Run a program of the kernel and keep its state, whether it returned or failed. -/
def attempt {α : Type} (s : Spaces) (x : Prog Kernel α) : Except String α × Spaces :=
  match x s.kernel with
  | .ok a kernel => (.ok a, { s with kernel := kernel })
  | .error e kernel => (.error e, { s with kernel := kernel })

def step (s : Spaces) : Call → Reply × Spaces
  | .cloneKernel =>
    match s.attempt AddressSpace.cloneKernel with
    | (.ok space, s) => (.space (.ok space), { s with spaces := s.spaces ++ [space] })
    | (.error e, s) => (.space (.error e), s)
  | .map i virt phys len =>
    match s.spaces[i]? with
    | none => (.none, s)
    | some space => let r := s.attempt (space.map virt phys len); (.unit r.1, r.2)
  | .load i image =>
    match s.spaces[i]? with
    | none => (.none, s)
    | some space => let r := s.attempt (Image.load space image); (.entry r.1, r.2)

/-- The calls as a machine that starts with the tables of `build`. -/
def machine (kernel : Kernel) : Machine Spaces Call Reply := ⟨⟨kernel, []⟩, step⟩

/-- The state after a sequence of calls. -/
def after (kernel : Kernel) (cs : List Call) : Spaces := (machine kernel).run ⟨kernel, []⟩ cs

theorem attempt_kernel {α : Type} {s : Spaces} {x : Prog Kernel α} {P : Kernel → Prop}
    (h : wp x (fun _ k => P k) (fun _ k => P k) s.kernel) : P (s.attempt x).2.kernel := by
  unfold attempt
  cases hx : x s.kernel with
  | ok a k => exact wp_ok h hx
  | error e k => exact wp_error h hx

theorem attempt_spaces {α : Type} (s : Spaces) (x : Prog Kernel α) :
    (s.attempt x).2.spaces = s.spaces := by
  unfold attempt
  cases x s.kernel <;> rfl

end Spaces

/-! ## Calls that stay below -/

/-- A range that passes the checks of `map`, or a segment that passes those of `load`, ends in the
lower half, where it starts. -/
def Call.Below : Call → Prop
  | .cloneKernel => True
  | .map _ virt phys len => Admits virt phys → virt.toNat + len.toNat / 4096 * 4096 ≤ 2 ^ 47
  | .load _ image => ∀ seg ∈ Image.accepted image, seg.vaddr.toNat + seg.memsz.toNat ≤ 2 ^ 47

instance : DecidablePred Call.Below
  | .cloneKernel => instDecidableTrue
  | .map _ _ _ _ => inferInstanceAs (Decidable (_ → _))
  | .load _ _ => inferInstanceAs (Decidable (∀ _ ∈ _, _))

theorem mapPages_low {virt phys len : UInt64}
    (h : Admits virt phys → virt.toNat + len.toNat / 4096 * 4096 ≤ 2 ^ 47) {v : Nat}
    (hv : mapPages virt phys len v) : v < 2 ^ 35 := by
  obtain ⟨hadmits, j, hj, rfl⟩ := hv
  have hend := h hadmits
  have hvirt := hadmits.1
  unfold pageOf
  omega

theorem asks_low {image : List UInt8}
    (h : ∀ seg ∈ Image.accepted image, seg.vaddr.toNat + seg.memsz.toNat ≤ 2 ^ 47) {v : Nat}
    (hv : Image.Asks image v) : v < 2 ^ 35 := by
  obtain ⟨seg, hseg, hvalid, h1, h2⟩ := hv
  have hend := h seg hseg
  have hvaddr := hvalid.vaddr
  unfold Image.Segment.first Image.Segment.count at *
  omega

/-! ## The higher half -/

section

variable {la57 : Bool} {m₀ : Memory} {root : AddressSpace} {k k' : Kernel}
  {place place' : Nat → Option Place} {space : AddressSpace}

/-- In memory `m` the space translates the higher half as `root` did in memory `m₀`, and with five
levels `CR3` leads to its PML4 from the last entry only. -/
structure Shared (la57 : Bool) (m₀ : Memory) (root : AddressSpace) (m : Memory)
    (space : AddressSpace) : Prop where
  pml4 : ∀ v, 2 ^ 35 ≤ v → v < 2 ^ 36 →
    walk (slots m) space.pml4Phys.toNat (digits v) = walk (slots m₀) root.pml4Phys.toNat (digits v)
  wrapped : la57 = true → Wrapped m space

/-- Code that maps pages of the lower half does not touch the higher half of any space. -/
theorem Shared.moves (h : Shared la57 m₀ root k.mem space) (hseat : Seated la57 place space)
    {r : Nat} {S : Nat → Prop} (hm : k.Moves place r S k' place') (hlow : ∀ v, S v → v < 2 ^ 35) :
    Shared la57 m₀ root k'.mem space := by
  refine ⟨fun v h1 h2 => ?_, fun h57 => (h.wrapped h57).moves (hseat.pml5 h57) hm⟩
  rw [← h.pml4 v h1 h2]
  refine hm.moved.frame _ _ _ _ v hseat.pml4 .pml4 h2 fun hseen => ?_
  have := hlow v hseen.1
  omega

/-- A clone shares the higher half of the kernel. -/
theorem Cloned.shared (hc : Cloned k space k' place') (hsys : System k place)
    (hk : Shared k.la57 m₀ root k.mem ⟨root.cr3, k.kernelPml4⟩) {r : Nat}
    (hm : k.Moves place r (fun _ => False) k' place') : Shared k.la57 m₀ root k'.mem space := by
  -- the PML4 of the clone holds the entries of the kernel's, which are still there
  have hentry : ∀ i, slots k'.mem 3 space.pml4Phys.toNat i = slots k'.mem 3 k.kernelPml4.toNat i :=
    fun i => (hc.entries i).trans (hm.moved.others _ _ i hsys.kernel fun _ v hv => hv.elim).symm
  refine ⟨fun v h1 h2 => ?_, hc.pml5⟩
  have hkernel := hm.moved.frame _ _ _ _ v hsys.kernel .pml4 h2 fun hseen => hseen.1
  rw [← hk.pml4 v h1 h2]
  exact (Radix.walk_of_slot_eq (hentry _)).trans hkernel

/-- What holds after every sequence of calls, relative to the tables of `build`. -/
structure Inv (la57 : Bool) (m₀ : Memory) (root : AddressSpace) (s : Spaces)
    (place : Nat → Option Place) : Prop where
  system : System s.kernel place
  mode : s.kernel.la57 = la57
  kernelPml4 : s.kernel.kernelPml4 = root.pml4Phys
  seated : ∀ space ∈ root :: s.spaces, Seated la57 place space
  shared : ∀ space ∈ root :: s.spaces, Shared la57 m₀ root s.kernel.mem space
  own : ∀ space ∈ s.spaces, s.kernel.kernelPml4.toNat ≠ space.pml4Phys.toNat

/-- A step that maps pages of the lower half of a space other than the kernel's. -/
theorem Inv.moves {s : Spaces} (h : Inv la57 m₀ root s place) {r : Nat} {S : Nat → Prop}
    (hm : s.kernel.Moves place r S k' place') (hlow : ∀ v, S v → v < 2 ^ 35)
    (hr : s.kernel.kernelPml4.toNat ≠ r) : Inv la57 m₀ root { s with kernel := k' } place' := by
  refine ⟨h.system.moves hm hr, hm.la57.trans h.mode, hm.kernelPml4.trans h.kernelPml4,
    fun a ha => (h.seated a ha).moves hm,
    fun a ha => (h.shared a ha).moves (h.seated a ha) hm hlow, fun a ha => ?_⟩
  show k'.kernelPml4.toNat ≠ _
  rw [hm.kernelPml4]
  exact h.own a ha

/-- A call on a space that exists, whether it returns or fails. -/
theorem Inv.attempt {s : Spaces} {α : Type} {x : Prog Kernel α} {r : Nat} {S : Nat → Prop}
    (h : Inv la57 m₀ root s place) (hlow : ∀ v, S v → v < 2 ^ 35) (hr : s.kernel.kernelPml4.toNat ≠ r)
    (hx : wp x (fun _ k' => ∃ place', s.kernel.Moves place r S k' place')
      (fun _ k' => ∃ place', s.kernel.Moves place r S k' place') s.kernel) :
    ∃ place', Inv la57 m₀ root (s.attempt x).2 place' ∧
      Step (s.kernel.world place) ((s.attempt x).2.kernel.world place') := by
  obtain ⟨place', hm⟩ := Spaces.attempt_kernel hx
  have hinv := h.moves hm hlow hr
  rw [← s.attempt_spaces x] at hinv
  exact ⟨place', hinv, hm.moved.step⟩

theorem Inv.clone {s : Spaces} (h : Inv la57 m₀ root s place) {r : Nat}
    (hm : s.kernel.Moves place r (fun _ => False) k' place')
    (hr : s.kernel.kernelPml4.toNat ≠ r) (hc : Cloned s.kernel space k' place') :
    Inv la57 m₀ root ⟨k', s.spaces ++ [space]⟩ place' := by
  have hold := h.moves hm (fun _ hv => hv.elim) hr
  have hseat := hc.seated
  have hnew : Shared la57 m₀ root k'.mem space := by
    have hkernel := h.shared root List.mem_cons_self
    rw [← h.mode] at hkernel ⊢
    refine hc.shared h.system ?_ hm
    rw [h.kernelPml4]
    exact hkernel
  have hfresh : k'.kernelPml4.toNat ≠ space.pml4Phys.toNat := by
    have hpage : s.kernel.kernelPml4.toNat + 4096 ≤ s.kernel.bump.cursor.toNat :=
      (h.system.tables.page _ _ h.system.kernel).2.2
    have hle := hc.fresh
    rw [hm.kernelPml4]
    omega
  rw [h.mode] at hseat
  have hcases : ∀ a ∈ root :: (s.spaces ++ [space]), a ∈ root :: s.spaces ∨ a = space := by
    intro a ha
    rw [← List.cons_append, List.mem_append, List.mem_singleton] at ha
    exact ha
  refine ⟨hold.system, hold.mode, hold.kernelPml4, fun a ha => ?_, fun a ha => ?_, fun a ha => ?_⟩
  · rcases hcases a ha with ha | rfl
    · exact hold.seated a ha
    · exact hseat
  · rcases hcases a ha with ha | rfl
    · exact hold.shared a ha
    · exact hnew
  · rcases List.mem_append.1 ha with ha | ha
    · exact hold.own a ha
    · obtain rfl := List.mem_singleton.1 ha
      exact hfresh

/-- **One call.** -/
theorem Inv.step {s : Spaces} (h : Inv la57 m₀ root s place) {c : Call} (hc : c.Below) :
    ∃ place', Inv la57 m₀ root (s.step c).2 place' ∧
      Step (s.kernel.world place) ((s.step c).2.kernel.world place') := by
  cases c with
  | cloneKernel =>
    have hr : s.kernel.kernelPml4.toNat ≠ s.kernel.kernelPml4.toNat + 1 := by omega
    have hspec := AddressSpace.cloneKernel_spec h.system (s.kernel.kernelPml4.toNat + 1) fun _ => False
    cases hx : AddressSpace.cloneKernel s.kernel with
    | ok space k' =>
      obtain ⟨place', hm, hcloned⟩ := wp_ok hspec hx
      simp only [Spaces.step, Spaces.attempt, hx]
      exact ⟨place', h.clone hm hr hcloned, hm.moved.step⟩
    | error e k' =>
      obtain ⟨place', hm⟩ := wp_error hspec hx
      simp only [Spaces.step, Spaces.attempt, hx]
      exact ⟨place', h.moves hm (fun _ hv => hv.elim) hr, hm.moved.step⟩
  | map i virt phys len =>
    cases hi : s.spaces[i]? with
    | none =>
      simp only [Spaces.step, hi]
      exact ⟨place, h, .refl h.system.tables⟩
    | some space =>
      have hmem : space ∈ s.spaces := List.mem_of_getElem? hi
      have hseat := h.seated space (List.mem_cons_of_mem _ hmem)
      simp only [Spaces.step, hi]
      refine h.attempt (fun v hv => mapPages_low hc hv) (h.own space hmem) ?_
      refine wp_mono (AddressSpace.map_spec h.system.tables hseat.pml4 virt phys len) ?_ ?_
      · rintro ⟨⟩ k' ⟨-, place', hm, -⟩
        exact ⟨place', hm⟩
      · rintro e k' ⟨place', hm, -⟩
        exact ⟨place', hm⟩
  | load i image =>
    cases hi : s.spaces[i]? with
    | none =>
      simp only [Spaces.step, hi]
      exact ⟨place, h, .refl h.system.tables⟩
    | some space =>
      have hmem : space ∈ s.spaces := List.mem_of_getElem? hi
      have hseat := h.seated space (List.mem_cons_of_mem _ hmem)
      simp only [Spaces.step, hi]
      refine h.attempt (fun v hv => asks_low hc hv) (h.own space hmem) ?_
      refine wp_mono (Image.load_spec h.system.tables hseat.pml4) ?_ fun _ _ he => he
      rintro _ k' ⟨place', hm, -⟩
      exact ⟨place', hm⟩

/-- **All calls.** -/
theorem Inv.run {cs : List Call} (hcs : ∀ c ∈ cs, c.Below) :
    ∀ {s : Spaces} {place : Nat → Option Place}, Inv la57 m₀ root s place →
      ∃ place', Inv la57 m₀ root ((Spaces.machine k).run s cs) place' ∧
        Step (s.kernel.world place) (((Spaces.machine k).run s cs).kernel.world place') := by
  induction cs with
  | nil => intro s place h; exact ⟨place, h, .refl h.system.tables⟩
  | cons c cs ih =>
    intro s place h
    obtain ⟨place₁, h₁, hstep₁⟩ := h.step (hcs c List.mem_cons_self)
    obtain ⟨place₂, h₂, hstep₂⟩ := ih (fun c' hc' => hcs c' (List.mem_cons_of_mem _ hc')) h₁
    exact ⟨place₂, h₂, hstep₁.trans hstep₂⟩

/-- Walks of the higher half are all that `translate` and `translateCr3` look at. -/
theorem Shared.translate {m : Memory} (h : Shared la57 m₀ root m space)
    (hseat : Seated la57 place space) (hroot : Seated la57 place root)
    (hwrapped : la57 = true → Wrapped m₀ root) {va : UInt64} (hva : 2 ^ 35 ≤ pageOf va) :
    RootCourt.translate m space.pml4Phys va = RootCourt.translate m₀ root.pml4Phys va ∧
      translateCr3 la57 m space.cr3 va = translateCr3 la57 m₀ root.cr3 va := by
  have hmain : RootCourt.translate m space.pml4Phys va = RootCourt.translate m₀ root.pml4Phys va := by
    rw [RootCourt.translate, RootCourt.translate, indices_eq_digits, h.pml4 _ hva (pageOf_lt va)]
  refine ⟨hmain, ?_⟩
  cases hla : la57 with
  | true =>
    rw [translateCr3, translateCr3, if_pos rfl, if_pos rfl, indices_eq_digits,
      (h.wrapped hla).walk, (hwrapped hla).walk, h.pml4 _ hva (pageOf_lt va)]
  | false =>
    rw [translateCr3, translateCr3, if_neg (by decide), if_neg (by decide), hseat.cr3 hla,
      hroot.cr3 hla]
    exact hmain

end

/-- The tables of `build`, with all ranges in the higher half, satisfy the invariant. -/
theorem build_inv {k k₀ : Kernel} {b : BumpAllocator} {map : PageMap}
    {kstart kend hhdm kernelPhysBase kernelVirtBase : UInt64} {entries : List MemmapEntry}
    (hmem : BumpAllocator.fromMemmap hhdm entries = some b) (hallocs : b.Allocs k.bump)
    (hwidth : b.end.toNat ≤ 2 ^ 52)
    (hhigh : ∀ t ∈ buildRanges kstart kend hhdm kernelPhysBase kernelVirtBase entries, t.High)
    (hbuild : build kstart kend hhdm kernelPhysBase kernelVirtBase entries k = .ok map k₀) :
    (k.la57 = true → Wrapped k₀.mem ⟨map.pml4Phys, k₀.kernelPml4⟩) ∧
      ∃ place, Inv k.la57 k₀.mem ⟨map.pml4Phys, k₀.kernelPml4⟩ ⟨k₀, []⟩ place := by
  obtain ⟨hwf, hbump, -⟩ := hallocs.spec (BumpAllocator.fromMemmap_wf hmem)
  have hend : k.bump.end.toNat ≤ 2 ^ 52 := by
    rw [hbump]
    exact hwidth
  obtain ⟨place, hsys, h57, hseat, hpml5, -⟩ := build_system hwf hend hhigh hbuild
  refine ⟨hpml5, place, hsys, h57, rfl, fun a ha => ?_, fun a ha => ?_, nofun⟩
  all_goals obtain rfl := List.mem_singleton.1 ha
  · exact hseat
  · exact ⟨fun _ _ _ => rfl, hpml5⟩

/-- **The kernel's half of every space is what `build` made it**, after any sequence of calls whose
ranges do not cross the boundary of the halves, whatever the calls return. -/
theorem kernel_half_untouched {k k₀ : Kernel} {b : BumpAllocator} {map : PageMap}
    {kstart kend hhdm kernelPhysBase kernelVirtBase : UInt64} {entries : List MemmapEntry}
    (hmem : BumpAllocator.fromMemmap hhdm entries = some b) (hallocs : b.Allocs k.bump)
    (hwidth : b.end.toNat ≤ 2 ^ 52)
    (hhigh : ∀ t ∈ buildRanges kstart kend hhdm kernelPhysBase kernelVirtBase entries, t.High)
    (hbuild : build kstart kend hhdm kernelPhysBase kernelVirtBase entries k = .ok map k₀)
    {cs : List Call} (hcs : ∀ c ∈ cs, c.Below) {space : AddressSpace}
    (hspace : space ∈ ⟨map.pml4Phys, k₀.kernelPml4⟩ :: (Spaces.after k₀ cs).spaces) {va : UInt64}
    (hva : 2 ^ 35 ≤ pageOf va) :
    translate (Spaces.after k₀ cs).kernel.mem space.pml4Phys va = translate k₀.mem k₀.kernelPml4 va ∧
      translateCr3 k.la57 (Spaces.after k₀ cs).kernel.mem space.cr3 va =
        translateCr3 k.la57 k₀.mem map.pml4Phys va := by
  obtain ⟨hwrapped, place, hinit⟩ := build_inv hmem hallocs hwidth hhigh hbuild
  obtain ⟨place', hinv, -⟩ := Inv.run (k := k₀) hcs hinit
  exact (hinv.shared space hspace).translate (hinv.seated space hspace)
    (hinv.seated _ List.mem_cons_self) hwrapped hva

/-! ## A small machine, and a call that crosses the boundary -/

/-- A clone as one update of memory, for four-level paging. -/
theorem cloneKernel_eq {k : Kernel} {new : UInt64} {bump : BumpAllocator} (hk : k.kernelPml4 ≠ 0)
    (h57 : k.la57 = false) (halloc : k.bump.allocPages 1 = some (new, bump))
    (hbelow : k.kernelPml4.toNat + 4096 ≤ new.toNat) :
    AddressSpace.cloneKernel k = .ok ⟨new, new⟩
      { k with mem := k.mem.copy k.kernelPml4.toNat new.toNat 4096, bump := bump } := by
  -- the page is filled with zeros before it is overwritten
  have hmem : AddressSpace.copyEntries k.kernelPml4 new (k.mem.fill new.toNat PAGE.toNat 0) =
      k.mem.copy k.kernelPml4.toNat new.toNat 4096 := by
    rw [AddressSpace.copyEntries_eq _ hbelow, BumpAllocator.toNat_PAGE]
    funext a
    unfold Memory.copy
    split
    all_goals rw [Memory.fill_of_disjoint (by omega)]
  refine eq_ok_of_wp ?_
  unfold AddressSpace.cloneKernel
  rw [wp_bind, wp_get, if_neg hk, wp_withMapper]
  unfold AddressSpace.cloneMapper Mapper.allocTable
  simp only [wp_bind, wp_get, halloc, wp_modify, wp_pure, h57, Bool.false_eq_true, if_false, hmem,
    and_self]

theorem kernel_half_untouched_small :
    translate (Spaces.after small [.cloneKernel, .map 0 0x400000 0x300000 0x2000]).kernel.mem
        small.kernelPml4 0xffff800000200000 =
      translate small.mem small.kernelPml4 0xffff800000200000 := by
  have hbelow : ∀ c ∈ [Call.cloneKernel, .map 0 0x400000 0x300000 0x2000], c.Below := by decide
  have hva : 2 ^ 35 ≤ pageOf 0xffff800000200000 := by decide
  have h := kernel_half_untouched (b := smallBump) (by decide) (.refl _) (by decide) small_high
    smallBuild_eq hbelow List.mem_cons_self hva
  exact h.1

/-- The state after the first clone. -/
theorem small_clone : Spaces.after small [.cloneKernel] =
    ⟨⟨small.mem.copy 0x200000 0x206000 4096,
        ⟨0xffff800000000000, 0x200000, 0x207000, 0x400000⟩, 0x200000, false⟩,
      [⟨0x206000, 0x206000⟩]⟩ := by
  have hpml4 : small.kernelPml4 = 0x200000 := by decide +kernel
  have h57 : small.la57 = false := by decide +kernel
  have halloc : small.bump.allocPages 1 =
      some (0x206000, ⟨0xffff800000000000, 0x200000, 0x207000, 0x400000⟩) := by
    decide +kernel
  have hclone := cloneKernel_eq (k := small) (by rw [hpml4]; decide) h57 halloc
    (by rw [hpml4]; decide)
  rw [hpml4, h57] at hclone
  show (Spaces.step ⟨small, []⟩ .cloneKernel).2 = _
  simp only [Spaces.step, Spaces.attempt, hclone]
  rfl

/-- **A range that crosses the boundary.**  Two pages mapped in a clone, the second one beyond the
lower half: the call succeeds, and the kernel itself has a new translation. -/
theorem map_across_half :
    smallBuild ⟨fun _ => 0, smallBump, 0, false⟩ = .ok smallPageMap small ∧
      (∀ t ∈ buildRanges 0xffffffff80000000 0xffffffff80001000 0xffff800000000000 0x600000
        0xffffffff80000000 smallMap, t.High) ∧
      (Spaces.step (Spaces.after small [.cloneKernel])
        (.map 0 0x7ffffffff000 0x300000 0x2000)).1 = .unit (.ok ()) ∧
      translate small.mem small.kernelPml4 0xffff800000000000 = none ∧
      translate (Spaces.after small [.cloneKernel, .map 0 0x7ffffffff000 0x300000 0x2000]).kernel.mem
        small.kernelPml4 0xffff800000000000 = some 0x301000 := by
  have hafter : Spaces.after small [.cloneKernel, .map 0 0x7ffffffff000 0x300000 0x2000] =
      (Spaces.step (Spaces.after small [.cloneKernel])
        (.map 0 0x7ffffffff000 0x300000 0x2000)).2 := rfl
  rw [hafter, small_clone]
  exact ⟨smallBuild_eq, small_high, by decide +kernel, by decide +kernel, by decide +kernel⟩

end RootCourt

end CourtKernel
