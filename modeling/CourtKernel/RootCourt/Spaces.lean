import CourtKernel.RootCourt.Image
import CourtKernel.RootCourt.Mapping

/-!
# Address spaces

What `clone_kernel` and `map` do to the tables of the kernel and of the spaces.

* `System` — the tables of the kernel, with an empty lower half.
* `Seated` — a space has a PML4 of its own, and its `CR3` leads there.
* `allocPages_spec`, `map_spec`, `cloneKernel_spec` — one specification for each method.
-/

namespace CourtKernel

namespace RootCourt

open Radix (walk)
open Place (shape)

/-! ## Programs of the kernel -/

theorem wp_withMapper {α : Type} {pml4Phys tablePages : UInt64} {x : Prog Mapper α}
    {Q : α → Kernel → Prop} {E : String → Kernel → Prop} {k : Kernel} :
    wp (withMapper pml4Phys tablePages x) Q E k ↔
      wp x (fun a s => Q a { k with mem := s.mem, bump := s.bump })
        (fun e s => E e { k with mem := s.mem, bump := s.bump })
        ⟨k.mem, k.bump, pml4Phys, tablePages⟩ := by
  unfold wp withMapper
  cases x ⟨k.mem, k.bump, pml4Phys, tablePages⟩ <;> rfl

def Kernel.world (k : Kernel) (place : Nat → Option Place) : World := ⟨place, k.mem, k.bump⟩

/-- What the methods of spaces do to the kernel. -/
structure Kernel.Moves (k : Kernel) (place : Nat → Option Place) (r : Nat) (S : Nat → Prop)
    (k' : Kernel) (place' : Nat → Option Place) : Prop where
  moved : Moved (k.world place) r S (k'.world place')
  kernelPml4 : k'.kernelPml4 = k.kernelPml4
  la57 : k'.la57 = k.la57

namespace Kernel

variable {k k₁ k₂ : Kernel} {place place₁ place₂ : Nat → Option Place} {r : Nat} {S : Nat → Prop}

theorem Moves.refl (h : Tables (k.world place)) : k.Moves place r S k place := ⟨.refl h, rfl, rfl⟩

theorem Moves.trans (h₁ : k.Moves place r S k₁ place₁) (h₂ : k₁.Moves place₁ r S k₂ place₂) :
    k.Moves place r S k₂ place₂ :=
  ⟨h₁.moved.trans h₂.moved, h₂.kernelPml4.trans h₁.kernelPml4, h₂.la57.trans h₁.la57⟩

theorem Moves.mono {S' : Nat → Prop} (h : k.Moves place r S k₁ place₁) (hsub : ∀ v, S v → S' v) :
    k.Moves place r S' k₁ place₁ := ⟨h.moved.mono hsub, h.kernelPml4, h.la57⟩

/-- A program of a mapper, run by the kernel. -/
theorem Moves.ofMapper {s : Mapper} {pml4Phys tablePages : UInt64}
    (h : Mapper.Moves ⟨k.mem, k.bump, pml4Phys, tablePages⟩ place r S s place₁) :
    k.Moves place r S { k with mem := s.mem, bump := s.bump } place₁ := ⟨h.1, rfl, rfl⟩

/-- Taking pages from the allocator.  The grant starts at the cursor, and until the kernel asks for
more it may write there. -/
theorem allocPages_spec (h : Tables (k.world place)) (pages : UInt64) (message : String) :
    wp (allocPages pages message) (fun phys k' => phys = k.bump.cursor ∧
        k'.bump.cursor.toNat = phys.toNat + pages.toNat * 4096 ∧
        ∀ r S mem, (∀ a, a < phys.toNat → mem a = k'.mem a) →
          k.Moves place r S { k' with mem := mem } place)
      (fun _ k' => k' = k) k := by
  unfold allocPages
  rw [wp_bind, wp_get]
  cases halloc : k.bump.allocPages pages with
  | none => rw [wp_throw]
  | some grant =>
    obtain ⟨phys, bump⟩ := grant
    have hwf : k.bump.Wf := h.bump
    obtain ⟨hphys, hbump, hwf', hcursor⟩ := BumpAllocator.allocPages_spec hwf halloc
    rw [wp_bind, wp_modify, wp_pure]
    refine ⟨hphys, hcursor, fun r S mem hmem => ⟨?_, rfl, rfl⟩⟩
    have hle : k.bump.cursor.toNat ≤ bump.cursor.toNat := by
      rw [hcursor, hphys]
      omega
    exact Moved.grant h hwf' hbump hle (hphys ▸ hmem)

end Kernel

/-! ## Mapping in a space -/

/-- The range that a call of `map` goes on with: aligned, and starting in the lower half. -/
def Admits (virt phys : UInt64) : Prop :=
  virt.toNat < 2 ^ 47 ∧ virt.toNat % 4096 = 0 ∧ phys.toNat % 4096 = 0

instance (virt phys : UInt64) : Decidable (Admits virt phys) :=
  inferInstanceAs (Decidable (_ ∧ _ ∧ _))

/-- The pages that a call of `map` may change. -/
def mapPages (virt phys len : UInt64) (v : Nat) : Prop :=
  Admits virt phys ∧ Range (pageOf virt) (len.toNat / 4096) v

section

variable {k : Kernel} {place : Nat → Option Place}

theorem AddressSpace.map_spec (h : Tables (k.world place)) {space : AddressSpace}
    (hroot : place space.pml4Phys.toNat = some (.pml4 space.pml4Phys.toNat))
    (virt phys len : UInt64) :
    wp (space.map virt phys len)
      (fun _ k' => Admits virt phys ∧ ∃ place',
        k.Moves place space.pml4Phys.toNat (mapPages virt phys len) k' place' ∧
        Quiet (k.world place) (k'.world place') ∧
        Shows k'.mem space.pml4Phys.toNat (pageOf virt) phys.toNat (len.toNat / 4096))
      (fun _ k' => ∃ place', k.Moves place space.pml4Phys.toNat (mapPages virt phys len) k' place' ∧
        Quiet (k.world place) (k'.world place')) k := by
  unfold AddressSpace.map
  rw [wp_ite]
  refine ⟨fun _ => (wp_throw _).2 ⟨place, .refl h, fun _ _ => rfl⟩, fun hlow => ?_⟩
  have hvirt : virt.toNat < 2 ^ 47 := by
    rw [ge_iff_le, UInt64.le_iff_toNat_le, show LOWER_HALF_END.toNat = 2 ^ 47 from rfl] at hlow
    omega
  rw [wp_withMapper]
  by_cases haligned : virt &&& (PAGE - 1) ≠ 0 ∨ phys &&& (PAGE - 1) ≠ 0
  · unfold Mapper.mapRange
    rw [if_pos haligned, wp_throw]
    exact ⟨place, .refl h, fun _ _ => rfl⟩
  · simp only [not_or, not_not, Mapper.and_page_eq_zero] at haligned
    have hadmits : Admits virt phys := ⟨hvirt, haligned⟩
    have hready : Mapper.Ready ⟨k.mem, k.bump, space.pml4Phys, 0⟩ place space.pml4Phys.toNat :=
      ⟨h, hroot, rfl⟩
    refine wp_mono (Mapper.mapRange_spec hready virt phys len) ?_ ?_
    · rintro ⟨⟩ s ⟨place', hm, hshow⟩
      exact ⟨hadmits, place', .ofMapper (hm.mono fun v hv => ⟨hadmits, hv⟩), hm.quiet, hshow⟩
    · rintro e s ⟨place', hm⟩
      exact ⟨place', .ofMapper (hm.mono fun v hv => ⟨hadmits, hv⟩), hm.quiet⟩

/-! ## Cloning the kernel -/

/-- The loop of `clone_kernel` copies a page. -/
theorem AddressSpace.copyEntries_eq {src dst : UInt64} (m : Memory)
    (h : src.toNat + 4096 ≤ dst.toNat) :
    copyEntries src dst m = m.copy src.toNat dst.toNat 4096 := by
  have hloop : ∀ n ≤ 512, (List.range n).foldl (fun mem index =>
      mem.writeU64 (slotAddr dst index) (mem.readU64 (slotAddr src index))) m =
      m.copy src.toNat dst.toNat (8 * n) := by
    intro n
    induction n with
    | zero => intro _; funext a; rw [Memory.copy_of_disjoint (by omega)]; rfl
    | succ n ih =>
      intro hn
      rw [List.range_succ, List.foldl_append, ih (by omega)]
      funext a
      show (Memory.writeU64 _ (dst.toNat + 8 * n) (Memory.readU64 _ (src.toNat + 8 * n))) a = _
      by_cases hin : dst.toNat + 8 * n ≤ a ∧ a < dst.toNat + 8 * n + 8
      · obtain ⟨i, rfl⟩ : ∃ i, a = dst.toNat + 8 * n + i := ⟨a - (dst.toNat + 8 * n), by omega⟩
        rw [Memory.writeU64_readU64 (by omega), Memory.copy_of_disjoint (by omega),
          Nat.add_assoc src.toNat, Nat.add_assoc dst.toNat, Memory.copy_of_mem (by omega)]
      · rw [Memory.writeU64_of_disjoint (by omega)]
        unfold Memory.copy
        by_cases hbelow : dst.toNat ≤ a ∧ a < dst.toNat + 8 * n
        · rw [if_pos hbelow, if_pos (by omega)]
        · rw [if_neg hbelow, if_neg (by omega)]
  exact hloop 512 (Nat.le_refl _)

/-- What a page holds goes with the page. -/
theorem slots_copy {m m' : Memory} {n n' : Nat} (h : ∀ d < 4096, m' (n' + d) = m (n + d)) (j i : Nat) :
    slots m' j n' i = slots m j n i := by
  unfold slots
  split
  · have hread : m'.readU64 (n' + 8 * i) = m.readU64 (n + 8 * i) := by
      unfold Memory.readU64
      rw [Memory.read_congr fun d hd => ?_]
      rw [Nat.add_assoc, h _ (by omega), Nat.add_assoc]
    rw [hread]
  · rfl

/-- What `CR3` of a space leads to under LA57: only the last entry of the PML5 is in use. -/
def Wrapped (m : Memory) (space : AddressSpace) : Prop :=
  ∀ i, slots m 4 space.cr3.toNat i = if i = 511 then .table space.pml4Phys.toNat else .absent

/-- A fresh PML5 over a PML4. -/
theorem Mapper.wrapLa57_spec {s : Mapper} (h : Tables (s.world place)) {pml4 : UInt64}
    (hpml4 : place pml4.toNat = some (.pml4 pml4.toNat)) (r : Nat) (S : Nat → Prop) :
    wp (wrapLa57 pml4) (fun pml5 s' => ∃ place', s.Moves place r S s' place' ∧
        place' pml5.toNat = some (.pml5 pml4.toNat) ∧ Wrapped s'.mem ⟨pml5, pml4⟩)
      (fun _ s' => s' = s) s := by
  obtain ⟨hmod, hstart, hbelow⟩ := h.page _ _ hpml4
  have hwidth : pml4.toNat < 2 ^ 52 := by
    have hlimit := h.bump.limit
    have hend := h.width
    omega
  unfold wrapLa57
  rw [wp_bind]
  have hwf : s.bump.Wf := h.bump
  refine wp_mono (allocTable_spec hwf) ?_ fun _ _ he => he.1
  rintro pml5 s' ⟨hpml5, hmem, hwf', hbump, hcursor, hroot⟩
  simp only [wp_bind, writeEntry, wp_modify, wp_pure]
  have haligned : pml5.toNat % 4096 = 0 := hpml5 ▸ hwf.aligned
  have hslots : ∀ i, slots (s'.mem.writeU64 (slotAddr pml5 511) (pml4 ||| TABLE_FLAGS)) 4 pml5.toNat i =
      if i = 511 then .table pml4.toNat else .absent := fun i => by
    split
    · rename_i hi
      subst hi
      rw [slotAddr, slots_write_self (by decide), decode_link (by decide) hmod hwidth]
    · rename_i hi
      rw [slotAddr, slots_write_other haligned haligned (by decide) (Or.inr hi), hmem]
      exact slots_zero fun a h1 h2 => Memory.fill_of_mem h1 h2
  have hmem' : ∀ a, a < pml5.toNat ∨ pml5.toNat + 4096 ≤ a →
      (s'.mem.writeU64 (slotAddr pml5 511) (pml4 ||| TABLE_FLAGS)) a = s.mem a := fun a ha => by
    rw [slotAddr, Memory.writeU64_of_disjoint (by omega), hmem]
    exact Memory.fill_of_disjoint (by omega)
  refine ⟨Function.update place pml5.toNat (some (.pml5 pml4.toNat)), ⟨?_, hroot, fun a ha => ?_⟩,
    Function.update_self _ _ _, hslots⟩
  · refine Moved.table h hpml5 hwf' hbump hcursor (fun a ha => hmem' a (Or.inl ha)) fun i next hs => ?_
    have hs' := (hslots i).symm.trans hs
    split at hs'
    · obtain rfl := Slot.table.inj hs'
      exact ⟨Nat.succ_pos 3, hpml4⟩
    · cases hs'
  · exact hmem' a (ha _ _ (Function.update_self _ _ _))

/-- The tables of the kernel, with nothing in the lower half. -/
structure System (k : Kernel) (place : Nat → Option Place) : Prop where
  tables : Tables (k.world place)
  kernel : place k.kernelPml4.toNat = some (.pml4 k.kernelPml4.toNat)
  low : ∀ i < 256, slots k.mem 3 k.kernelPml4.toNat i = .absent

/-- A space has a PML4 of its own, and `CR3` is that PML4 or a PML5 over it. -/
structure Seated (la57 : Bool) (place : Nat → Option Place) (space : AddressSpace) : Prop where
  pml4 : place space.pml4Phys.toNat = some (.pml4 space.pml4Phys.toNat)
  pml5 : la57 = true → place space.cr3.toNat = some (.pml5 space.pml4Phys.toNat)
  cr3 : la57 = false → space.cr3 = space.pml4Phys

theorem Wrapped.walk {m : Memory} {space : AddressSpace} (h : Wrapped m space) (i v : Nat) :
    walk (slots m) space.cr3.toNat (i :: digits v) =
      if i = 511 then walk (slots m) space.pml4Phys.toNat (digits v) else none := by
  rw [Radix.walk, show (digits v).length = 4 from rfl, h i]
  by_cases hi : i = 511
  · rw [if_pos hi, if_pos hi]
  · rw [if_neg hi, if_neg hi]

/-- The PML4 of the kernel is left alone by code that works on another one. -/
theorem System.moves (h : System k place) {r : Nat} {S : Nat → Prop} {k' : Kernel}
    {place' : Nat → Option Place} (hm : k.Moves place r S k' place')
    (hr : k.kernelPml4.toNat ≠ r) : System k' place' := by
  refine ⟨hm.moved.step.tables, ?_, fun i hi => ?_⟩
  · rw [hm.kernelPml4]
    exact hm.moved.step.kept _ _ h.kernel
  · rw [hm.kernelPml4]
    exact (hm.moved.others _ _ i h.kernel fun he => absurd he hr).trans (h.low i hi)

/-- Nobody writes into a PML5 that is in use. -/
theorem Wrapped.moves {space : AddressSpace} {p r : Nat} {S : Nat → Prop} {k' : Kernel}
    {place' : Nat → Option Place} (h : Wrapped k.mem space)
    (hplace : place space.cr3.toNat = some (.pml5 p)) (hm : k.Moves place r S k' place') :
    Wrapped k'.mem space := fun i => (hm.moved.wraps _ _ i hplace).trans (h i)

theorem Seated.moves {la57 : Bool} {space : AddressSpace} (h : Seated la57 place space) {r : Nat}
    {S : Nat → Prop} {k' : Kernel} {place' : Nat → Option Place}
    (hm : k.Moves place r S k' place') : Seated la57 place' space :=
  ⟨hm.moved.step.kept _ _ h.pml4, fun h57 => hm.moved.step.kept _ _ (h.pml5 h57), h.cr3⟩

/-- What a fresh clone looks like: a page of its own that holds the entries of the kernel's PML4. -/
structure Cloned (k : Kernel) (space : AddressSpace) (k' : Kernel)
    (place' : Nat → Option Place) : Prop where
  seated : Seated k.la57 place' space
  fresh : k.bump.cursor.toNat ≤ space.pml4Phys.toNat
  entries : ∀ i, slots k'.mem 3 space.pml4Phys.toNat i = slots k.mem 3 k.kernelPml4.toNat i
  pml5 : k.la57 = true → Wrapped k'.mem space

/-- A copy of the kernel's PML4 on a new page is a table with the same entries. -/
theorem System.copied (h : System k place) {new : UInt64} {s : Mapper} (hnew : new = k.bump.cursor)
    (hfill : s.mem = k.mem.fill new.toNat 4096 0) (hwf : s.bump.Wf)
    (hbump : s.bump = { k.bump with cursor := s.bump.cursor })
    (hcursor : s.bump.cursor.toNat = new.toNat + 4096) :
    (∀ i, slots (AddressSpace.copyEntries k.kernelPml4 new s.mem) 3 new.toNat i =
      slots k.mem 3 k.kernelPml4.toNat i) ∧
    ∀ r S, Moved (k.world place) r S ⟨Function.update place new.toNat (some (.pml4 new.toNat)),
      AddressSpace.copyEntries k.kernelPml4 new s.mem, s.bump⟩ := by
  have hbelow : k.kernelPml4.toNat + 4096 ≤ k.bump.cursor.toNat := (h.tables.page _ _ h.kernel).2.2
  rw [← hnew] at hbelow
  -- the copied page, and what lies below it
  have hcopy : ∀ d < 4096, AddressSpace.copyEntries k.kernelPml4 new s.mem (new.toNat + d) =
      k.mem (k.kernelPml4.toNat + d) := fun d hd => by
    rw [AddressSpace.copyEntries_eq _ hbelow, Memory.copy_of_mem hd, hfill,
      Memory.fill_of_disjoint (by omega)]
  have hold : ∀ a < new.toNat, AddressSpace.copyEntries k.kernelPml4 new s.mem a = k.mem a :=
    fun a ha => by
      rw [AddressSpace.copyEntries_eq _ hbelow, Memory.copy_of_disjoint (by omega), hfill,
        Memory.fill_of_disjoint (by omega)]
  have hslots := slots_copy hcopy 3
  refine ⟨hslots, fun r S => Moved.table h.tables hnew hwf hbump hcursor hold fun i next hs => ?_⟩
  rw [show shape.level (.pml4 new.toNat) = 3 from rfl, hslots] at hs
  obtain ⟨hpos, hnext⟩ := h.tables.placed _ _ i next h.kernel hs
  -- an entry of the lower half names no table; one of the higher half is shared
  have hi : ¬ i < 256 := fun hi => by
    rw [h.low i hi] at hs
    cases hs
  refine ⟨hpos, hnext.trans ?_⟩
  simp only [shape, Place.down, Place.owner, if_neg hi]

theorem cloneMapper_spec (h : System k place) (r : Nat) (S : Nat → Prop) :
    wp (AddressSpace.cloneMapper k.la57 k.kernelPml4)
      (fun space s => ∃ place',
        k.Moves place r S { k with mem := s.mem, bump := s.bump } place' ∧
        Cloned k space { k with mem := s.mem, bump := s.bump } place')
      (fun _ s => ∃ place', k.Moves place r S { k with mem := s.mem, bump := s.bump } place')
      ⟨k.mem, k.bump, 0, 0⟩ := by
  unfold AddressSpace.cloneMapper
  rw [wp_bind]
  refine wp_mono (Mapper.allocTable_spec h.tables.bump) ?_ ?_
  · rintro new s ⟨hnew, hfill, hwf, hbump, hcursor, -⟩
    obtain ⟨hslots, hmoved⟩ := h.copied hnew hfill hwf hbump hcursor
    replace hmoved := hmoved r
    have hplace : Function.update place new.toNat (some (.pml4 new.toNat)) new.toNat =
        some (.pml4 new.toNat) := Function.update_self _ _ _
    generalize Function.update place new.toNat (some (.pml4 new.toNat)) = place₁ at hmoved hplace
    generalize hm : AddressSpace.copyEntries k.kernelPml4 new s.mem = m at hmoved hslots
    simp only [wp_bind, wp_modify, hm]
    rw [wp_ite]
    refine ⟨fun h57 => ?_, fun h57 => ?_⟩
    · have htables : Tables (Mapper.world ⟨m, s.bump, new, s.tablePages⟩ place₁) :=
        (hmoved fun _ => False).step.tables
      rw [wp_bind]
      refine wp_mono (Mapper.wrapLa57_spec htables hplace r fun _ => False) ?_ ?_
      · rintro pml5 s₂ ⟨place₂, hm₂, hpml5, hslots5⟩
        rw [wp_pure]
        have hnone := (hmoved fun _ => False).trans hm₂.1
        refine ⟨place₂, ⟨hnone.mono (by simp), rfl, rfl⟩, ⟨⟨?_, fun _ => hpml5, ?_⟩, ?_, ?_, ?_⟩⟩
        · exact hm₂.1.step.kept _ _ hplace
        · intro hfalse
          rw [h57] at hfalse
          cases hfalse
        · exact Nat.le_of_eq (by rw [hnew])
        · intro i
          exact (hm₂.1.others _ _ i hplace fun _ v hv => hv.elim).trans (hslots i)
        · exact fun _ => hslots5
      · rintro e s' rfl
        exact ⟨place₁, ⟨hmoved S, rfl, rfl⟩⟩
    · rw [Bool.not_eq_true] at h57
      simp only [wp_bind, wp_pure]
      refine ⟨place₁, ⟨hmoved S, rfl, rfl⟩, ⟨⟨hplace, ?_, fun _ => rfl⟩, ?_, hslots, ?_⟩⟩
      · intro htrue
        rw [h57] at htrue
        cases htrue
      · exact Nat.le_of_eq (by rw [hnew])
      · intro htrue
        rw [h57] at htrue
        cases htrue
  · rintro e s ⟨rfl, -⟩
    exact ⟨place, .refl h.tables⟩

/-- **Cloning the kernel** changes no translation. -/
theorem AddressSpace.cloneKernel_spec (h : System k place) (r : Nat) (S : Nat → Prop) :
    wp cloneKernel
      (fun space k' => ∃ place', k.Moves place r S k' place' ∧ Cloned k space k' place')
      (fun _ k' => ∃ place', k.Moves place r S k' place') k := by
  unfold cloneKernel
  rw [wp_bind, wp_get, wp_ite]
  refine ⟨fun _ => (wp_throw _).2 ⟨place, .refl h.tables⟩, fun _ => ?_⟩
  rw [wp_withMapper]
  exact cloneMapper_spec h r S

end

end RootCourt

end CourtKernel
