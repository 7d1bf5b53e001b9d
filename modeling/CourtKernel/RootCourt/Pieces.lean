import CourtKernel.RootCourt.Mapping
import Mathlib.Data.Finset.Card

/-!
# When mapping succeeds

`map_range` cuts its range into pages of 4 KiB and 2 MiB, by alignment and by what is left of the
range.  Whether a call succeeds depends on the pieces that are in the tables already.

* `Piece`, `pieces` — the cuts of a range, as data; `Piece.tables`, `tables` — the tables they need, by
  the indices that lead there.
* `Piece.Fits` — two pieces do not get in each other's way: they are one piece, or lie apart.
  `Piece.Blocks` — a small page is where a large one is to come.
* `Piece.Of`, `of_mem_cuts`, `exists_mem_cuts` — which pages of a range are large; `fits_of_apart`,
  `meets_of_offset` — when the cuts of two ranges fit.
* `Holds` — the tables are exactly those of the pieces so far, and every leaf is one of the pieces'.
* `ensureTable_holds`, `map4k_holds`, `map2m_holds` — if a piece fits and there is a page for every table
  it needs, the calls succeed; `map2m_blocked` — a large page that is blocked is refused.
* `Adds.mapRange` — a whole range is mapped exactly if none of its pieces is blocked.
-/

namespace CourtKernel

namespace RootCourt

open Radix (walk)
open Place (shape)

/-- One entry that `map_range` writes: its first page, and where that is in physical memory. -/
@[ext] structure Piece where
  huge : Bool
  page : Nat
  phys : UInt64
  deriving DecidableEq

namespace Piece

/-- The tables below the PML4 that the piece needs. -/
def tables (q : Piece) : Finset (List Nat) :=
  let path := [q.page / 2 ^ 27 % 512, q.page / 2 ^ 18 % 512]
  if q.huge then {path.take 1, path} else {path.take 1, path, path ++ [q.page / 2 ^ 9 % 512]}

/-- The two pieces are one, or lie apart.  A large page shares its block of 512 pages with nothing. -/
def Fits (p q : Piece) : Prop :=
  p = q ∨ if p.huge ∨ q.huge then p.page / 512 ≠ q.page / 512 else p.page ≠ q.page

instance (p q : Piece) : Decidable (p.Fits q) := inferInstanceAs (Decidable (_ ∨ _))

/-- Pieces that fit and share a block or a page are one. -/
theorem Fits.eq_of_same {p q : Piece} (h : p.Fits q)
    (hsame : if p.huge ∨ q.huge then p.page / 512 = q.page / 512 else p.page = q.page) : p = q := by
  rcases h with h | h
  · exact h
  · split at h
    · rename_i hhuge
      rw [if_pos hhuge] at hsame
      exact absurd hsame h
    · rename_i hsmall
      rw [if_neg hsmall] at hsame
      exact absurd hsame h

theorem Fits.symm {p q : Piece} (h : p.Fits q) : q.Fits p := by
  rcases h with rfl | h
  · exact Or.inl rfl
  · refine Or.inr ?_
    by_cases hhuge : p.huge = true ∨ q.huge = true
    · rw [if_pos hhuge] at h
      rw [if_pos hhuge.symm]
      exact h.symm
    · rw [if_neg hhuge] at h
      rw [if_neg fun hswap => hhuge hswap.symm]
      exact h.symm

/-- A small page in the block of a large one. -/
def Blocks (p q : Piece) : Prop := p.huge = false ∧ q.huge = true ∧ p.page / 512 = q.page / 512

theorem Blocks.not_fits {p q : Piece} (h : p.Blocks q) : ¬ p.Fits q := by
  obtain ⟨hsmall, hlarge, hblock⟩ := h
  intro hfits
  rw [hfits.eq_of_same (by rw [if_pos (Or.inr hlarge)]; exact hblock), hlarge] at hsmall
  cases hsmall

/-- What can be when `p` is mapped before `q`. -/
def Meets (p q : Piece) : Prop := p.Fits q ∨ p.Blocks q

/-- The leaf that a walk for the page `v` finds, with the indices it spans, is the piece. -/
structure Leaf (p : Piece) (v : Nat) (e : UInt64) (is : List Nat) : Prop where
  frame : e &&& PHYS_MASK = p.phys &&& PHYS_MASK
  place : (p.huge = true ∧ v / 512 = p.page / 512 ∧ is.length = 1) ∨
    (p.huge = false ∧ v = p.page ∧ is = [])

end Piece

/-- The tables that pieces need, with the PML4. -/
def tables : List Piece → Finset (List Nat)
  | [] => {[]}
  | q :: ps => q.tables ∪ tables ps

theorem mem_tables {ps : List Piece} {path : List Nat} :
    path ∈ tables ps ↔ path = [] ∨ ∃ q ∈ ps, path ∈ q.tables := by
  induction ps with
  | nil => simp [tables]
  | cons q ps ih =>
    rw [tables, Finset.mem_union, ih, List.exists_mem_cons_iff]
    exact or_left_comm

/-- A small page needs a table of every level. -/
theorem tables_cons_small (v : Nat) (phys : UInt64) (ps : List Piece) :
    tables (⟨false, v, phys⟩ :: ps) =
      insert ([v / 2 ^ 27 % 512, v / 2 ^ 18 % 512] ++ [v / 2 ^ 9 % 512])
        (insert [v / 2 ^ 27 % 512, v / 2 ^ 18 % 512] (insert [v / 2 ^ 27 % 512] (tables ps))) := by
  ext path
  simp only [tables, Piece.tables, Bool.false_eq_true, if_false, Finset.mem_union,
    Finset.mem_insert, Finset.mem_singleton, List.take_succ_cons, List.take_zero]
  tauto

/-- A large page needs no page table. -/
theorem tables_cons_large (v : Nat) (phys : UInt64) (ps : List Piece) :
    tables (⟨true, v, phys⟩ :: ps) =
      insert [v / 2 ^ 27 % 512, v / 2 ^ 18 % 512] (insert [v / 2 ^ 27 % 512] (tables ps)) := by
  ext path
  simp only [tables, Piece.tables, if_true, Finset.mem_union, Finset.mem_insert,
    Finset.mem_singleton, List.take_succ_cons, List.take_zero]
  tauto

theorem Piece.tables_subset {q : Piece} {ps : List Piece} (hq : q ∈ ps) :
    q.tables ⊆ RootCourt.tables ps := fun _ hpath => mem_tables.2 (Or.inr ⟨q, hq, hpath⟩)

/-- A table of the last level belongs to a small page of its block. -/
theorem mem_tables_small {ps : List Piece} {a b c : Nat} (h : [a, b, c] ∈ tables ps) :
    ∃ q ∈ ps, q.huge = false ∧ q.page / 2 ^ 27 % 512 = a ∧ q.page / 2 ^ 18 % 512 = b ∧
      q.page / 2 ^ 9 % 512 = c := by
  rcases mem_tables.1 h with h | ⟨q, hq, hpath⟩
  · cases h
  refine ⟨q, hq, ?_⟩
  unfold Piece.tables at hpath
  cases hhuge : q.huge with
  | true => simp [hhuge] at hpath
  | false =>
    simp [hhuge] at hpath
    exact ⟨rfl, hpath.1.symm, hpath.2.1.symm, hpath.2.2.symm⟩

/-- The pieces of `fuel` turns of the loop of `map_range`. -/
def pieces : Nat → UInt64 → UInt64 → UInt64 → List Piece
  | 0, _, _, _ => []
  | fuel + 1, virt, phys, len =>
    if len ≥ PAGE then
      if len ≥ HUGE_2M ∧ (virt ||| phys) &&& (HUGE_2M - 1) = 0 then
        ⟨true, pageOf virt, phys⟩ :: pieces fuel (virt + HUGE_2M) (phys + HUGE_2M) (len - HUGE_2M)
      else
        ⟨false, pageOf virt, phys⟩ :: pieces fuel (virt + PAGE) (phys + PAGE) (len - PAGE)
    else []

/-! ## The cuts of a range -/

/-- The piece `q` is a cut of the whole pages of a range: blocks of 512 pages inside the range are large
pages, if addresses and frames are aligned alike; all other pages are small. -/
structure Piece.Of (q : Piece) (virt phys len : UInt64) : Prop where
  lower : pageOf virt ≤ q.page
  upper : q.page < pageOf virt + len.toNat / 4096
  frame : q.phys.toNat = (phys.toNat + (q.page - pageOf virt) * 4096) % 2 ^ 64
  aligned : q.huge = true → q.page % 512 = 0
  huge : q.huge = true ↔ virt.toNat % 2 ^ 21 = phys.toNat % 2 ^ 21 ∧
    pageOf virt ≤ q.page / 512 * 512 ∧
    q.page / 512 * 512 + 512 ≤ pageOf virt + len.toNat / 4096

/-- The first cut of a range. -/
theorem Piece.of_first {huge : Bool} {virt phys len : UInt64} (hn : 0 < len.toNat / 4096)
    (hhuge : huge = true ↔ virt.toNat % 2 ^ 21 = phys.toNat % 2 ^ 21 ∧ pageOf virt % 512 = 0 ∧
      512 ≤ len.toNat / 4096) : Piece.Of ⟨huge, pageOf virt, phys⟩ virt phys len := by
  have hphys := phys.toNat_lt
  refine ⟨Nat.le_refl _, Nat.lt_add_of_pos_right hn, ?_, fun h => (hhuge.1 h).2.1, hhuge.trans ?_⟩
  · show phys.toNat = (phys.toNat + (pageOf virt - pageOf virt) * 4096) % 2 ^ 64
    omega
  · show _ ↔ _ ∧ pageOf virt ≤ pageOf virt / 512 * 512 ∧
      pageOf virt / 512 * 512 + 512 ≤ pageOf virt + len.toNat / 4096
    omega

/-- A cut of the rest of a range, after its first `d` bytes, is a cut of the range if no block reaches
from these bytes into the rest. -/
theorem Piece.Of.rest {q : Piece} {virt phys len d : UInt64} (hvirt : virt.toNat % 4096 = 0)
    (hd : d.toNat % 4096 = 0) (hle : d ≤ len)
    (hspan : pageOf virt + len.toNat / 4096 ≤ 2 ^ 36)
    (hblock : ∀ b, virt.toNat % 2 ^ 21 = phys.toNat % 2 ^ 21 → pageOf virt ≤ b * 512 →
      b * 512 + 512 ≤ pageOf virt + len.toNat / 4096 → b * 512 < pageOf virt + d.toNat / 4096 →
      b * 512 + 512 ≤ pageOf virt + d.toNat / 4096)
    (h : q.Of (virt + d) (phys + d) (len - d)) : q.Of virt phys len := by
  have hlen : (len - d).toNat = len.toNat - d.toNat := UInt64.toNat_sub_of_le _ _ hle
  rw [UInt64.le_iff_toNat_le] at hle
  obtain ⟨hlower, hupper, hphys, haligned, hhuge⟩ := h
  rw [Mapper.pageOf_add virt d hd, hlen] at hupper
  rw [Mapper.pageOf_add virt d hd] at hlower hphys
  rw [Mapper.pageOf_add virt d hd, hlen, UInt64.toNat_add, UInt64.toNat_add] at hhuge
  rw [UInt64.toNat_add] at hphys
  -- something is left, so the rest does not wrap
  have hrest : pageOf virt + d.toNat / 4096 < 2 ^ 36 := by omega
  rw [Nat.mod_eq_of_lt hrest] at hlower hupper hphys hhuge
  refine ⟨by omega, by omega, ?_, haligned, hhuge.trans ?_⟩
  · rw [hphys]
    omega
  · specialize hblock (q.page / 512)
    constructor
    · rintro ⟨hcong, h1, h2⟩
      exact ⟨by omega, by omega, by omega⟩
    · rintro ⟨hcong, h1, h2⟩
      refine ⟨by omega, ?_, by omega⟩
      by_contra hlt
      have := hblock hcong h1 h2 (by omega)
      omega

/-- **`map_range` cuts its range so.** -/
theorem of_mem_pieces (fuel : Nat) : ∀ {virt phys len : UInt64} {q : Piece},
    virt.toNat % 4096 = 0 → phys.toNat % 4096 = 0 → pageOf virt + len.toNat / 4096 ≤ 2 ^ 36 →
    q ∈ pieces fuel virt phys len → q.Of virt phys len := by
  induction fuel with
  | zero => intro virt phys len q _ _ _ hq; cases hq
  | succ fuel ih =>
    intro virt phys len q hvirt hphys hspan hq
    have hv : pageOf virt % 512 * 4096 = virt.toNat % 2 ^ 21 := by
      unfold pageOf
      omega
    have hnext : ∀ {d : UInt64}, d.toNat % 4096 = 0 → d ≤ len →
        q ∈ pieces fuel (virt + d) (phys + d) (len - d) →
        q.Of (virt + d) (phys + d) (len - d) := by
      intro d hd hle hq
      have hlen : (len - d).toNat = len.toNat - d.toNat := UInt64.toNat_sub_of_le _ _ hle
      refine ih ?_ ?_ ?_ hq
      · rw [UInt64.toNat_add]
        omega
      · rw [UInt64.toNat_add]
        omega
      · rw [Mapper.pageOf_add virt d hd, hlen]
        omega
    have hbig : HUGE_2M.toNat = 512 * 4096 := by decide
    rw [pieces] at hq
    split at hq
    · rename_i hpage
      split at hq
      · rename_i hhuge
        obtain ⟨hv21, hp21⟩ := (or_and_low_eq_zero 21 (by decide)).1 hhuge.2
        have hle := UInt64.le_iff_toNat_le.1 hhuge.1
        rcases List.mem_cons.1 hq with rfl | hq
        · exact Piece.of_first (by omega) (iff_of_true rfl ⟨by omega, by omega, by omega⟩)
        · refine Piece.Of.rest hvirt (by decide) hhuge.1 hspan (fun b _ h1 h2 h3 => ?_)
            (hnext (by decide) hhuge.1 hq)
          omega
      · rename_i hhuge
        have hle := UInt64.le_iff_toNat_le.1 hpage
        rw [BumpAllocator.toNat_PAGE] at hle
        -- no block that could be a large page begins here
        have hsmall : virt.toNat % 2 ^ 21 = phys.toNat % 2 ^ 21 → pageOf virt % 512 = 0 →
            ¬ 512 ≤ len.toNat / 4096 := by
          intro hcong hmod hlen
          refine hhuge ⟨?_, (or_and_low_eq_zero 21 (by decide)).2 ⟨by omega, by omega⟩⟩
          rw [ge_iff_le, UInt64.le_iff_toNat_le, hbig]
          omega
        rcases List.mem_cons.1 hq with rfl | hq
        · exact Piece.of_first (by omega)
            (iff_of_false Bool.false_ne_true fun h => hsmall h.1 h.2.1 h.2.2)
        · refine Piece.Of.rest hvirt (by decide) hpage hspan (fun b hcong h1 h2 h3 => ?_)
            (hnext (by decide) hpage hq)
          rw [BumpAllocator.toNat_PAGE] at h3
          exact absurd (by omega : 512 ≤ len.toNat / 4096) (hsmall hcong (by omega))
    · cases hq

/-- Every page of a range is in the block of a piece. -/
theorem exists_mem_pieces (fuel : Nat) : ∀ {virt phys len : UInt64} {v : Nat},
    virt.toNat % 4096 = 0 → pageOf virt + len.toNat / 4096 ≤ 2 ^ 36 → len.toNat / 4096 ≤ fuel →
    pageOf virt ≤ v → v < pageOf virt + len.toNat / 4096 →
    ∃ q ∈ pieces fuel virt phys len, q.page / 512 = v / 512 := by
  induction fuel with
  | zero => intro virt phys len v _ _ hfuel _ _; omega
  | succ fuel ih =>
    intro virt phys len v hvirt hspan hfuel hlower hupper
    have hnext : ∀ {d : UInt64}, d.toNat % 4096 = 0 → 0 < d.toNat → d ≤ len →
        pageOf virt + d.toNat / 4096 ≤ v →
        ∃ q ∈ pieces fuel (virt + d) (phys + d) (len - d), q.page / 512 = v / 512 := by
      intro d hd hpos hle hv
      have hlen : (len - d).toNat = len.toNat - d.toNat := UInt64.toNat_sub_of_le _ _ hle
      have hle' := UInt64.le_iff_toNat_le.1 hle
      have hpage : pageOf (virt + d) = pageOf virt + d.toNat / 4096 := by
        rw [Mapper.pageOf_add virt d hd]
        omega
      refine ih ?_ (by omega) (by omega) (by omega) (by omega)
      rw [UInt64.toNat_add]
      omega
    have hbig : HUGE_2M.toNat = 512 * 4096 := by decide
    have hpage : len ≥ PAGE := by
      rw [ge_iff_le, UInt64.le_iff_toNat_le, BumpAllocator.toNat_PAGE]
      omega
    rw [pieces, if_pos hpage]
    split
    · rename_i hhuge
      have hv21 := ((or_and_low_eq_zero 21 (by decide)).1 hhuge.2).1
      by_cases hfirst : v < pageOf virt + 512
      · refine ⟨_, List.mem_cons_self, ?_⟩
        show pageOf virt / 512 = v / 512
        unfold pageOf at *
        omega
      · obtain ⟨q, hq, hblock⟩ := hnext (by decide) (by decide) hhuge.1 (by omega)
        exact ⟨q, List.mem_cons_of_mem _ hq, hblock⟩
    · by_cases hfirst : v = pageOf virt
      · exact ⟨_, List.mem_cons_self, by rw [hfirst]⟩
      · obtain ⟨q, hq, hblock⟩ := hnext (by decide) (by decide) hpage (by
          rw [BumpAllocator.toNat_PAGE]
          omega)
        exact ⟨q, List.mem_cons_of_mem _ hq, hblock⟩

/-- The pieces of `map_range`. -/
def cuts (virt phys len : UInt64) : List Piece :=
  let len := len &&& ~~~(PAGE - 1)
  pieces (len.toNat / 4096) virt phys len

theorem of_mem_cuts {virt phys len : UInt64} {q : Piece} (hvirt : virt.toNat % 4096 = 0)
    (hphys : phys.toNat % 4096 = 0) (hspan : pageOf virt + len.toNat / 4096 ≤ 2 ^ 36)
    (hq : q ∈ cuts virt phys len) : q.Of virt phys len := by
  have hlen : (len &&& ~~~(PAGE - 1)).toNat / 4096 = len.toNat / 4096 := by
    rw [BumpAllocator.toNat_and_not_page]
    omega
  have hof := of_mem_pieces _ hvirt hphys (by rw [hlen]; exact hspan) hq
  exact ⟨hof.lower, hlen ▸ hof.upper, hof.frame, hof.aligned, hlen ▸ hof.huge⟩

theorem exists_mem_cuts (phys : UInt64) {virt len : UInt64} {v : Nat} (hvirt : virt.toNat % 4096 = 0)
    (hspan : pageOf virt + len.toNat / 4096 ≤ 2 ^ 36) (hlower : pageOf virt ≤ v)
    (hupper : v < pageOf virt + len.toNat / 4096) :
    ∃ q ∈ cuts virt phys len, q.page / 512 = v / 512 := by
  have hlen : (len &&& ~~~(PAGE - 1)).toNat / 4096 = len.toNat / 4096 := by
    rw [BumpAllocator.toNat_and_not_page]
    omega
  rw [← hlen] at hspan hupper
  exact exists_mem_pieces _ hvirt hspan (Nat.le_refl _) hlower hupper

section Fits

variable {q q' : Piece} {virt phys len virt' phys' len' : UInt64}

/-- Cuts of ranges without a common page fit. -/
theorem Piece.Of.fits_of_apart (h : q.Of virt phys len) (h' : q'.Of virt' phys' len')
    (hapart : ∀ v, pageOf virt ≤ v → v < pageOf virt + len.toNat / 4096 → pageOf virt' ≤ v →
      ¬ v < pageOf virt' + len'.toNat / 4096) : q.Fits q' := by
  have hq := hapart q.page h.lower h.upper
  have hq' := fun h1 h2 => hapart q'.page h1 h2 h'.lower
  refine Or.inr ?_
  split
  · rename_i hhuge
    intro hblock
    rcases hhuge with hhuge | hhuge
    · obtain ⟨-, hstart, hstop⟩ := h.huge.1 hhuge
      exact hq' (by omega) (by omega) h'.upper
    · obtain ⟨-, hstart, hstop⟩ := h'.huge.1 hhuge
      exact hq (by omega) (by omega)
  · intro hpage
    rw [hpage] at hq
    exact hq h'.lower h'.upper

/-- Cuts of ranges that lie at the same offset from their frames fit or are blocked, if a block inside
the first range that both meet is inside the second. -/
theorem Piece.Of.meets_of_offset (h : q.Of virt phys len) (h' : q'.Of virt' phys' len')
    (hvirt : virt.toNat % 4096 = 0) (hvirt' : virt'.toNat % 4096 = 0)
    (hoff : (pageOf virt * 4096 + phys'.toNat) % 2 ^ 64 = (pageOf virt' * 4096 + phys.toNat) % 2 ^ 64)
    (hblock : q.page / 512 = q'.page / 512 → pageOf virt ≤ q.page / 512 * 512 →
      q.page / 512 * 512 + 512 ≤ pageOf virt + len.toNat / 4096 →
      pageOf virt' ≤ q'.page / 512 * 512 ∧
        q'.page / 512 * 512 + 512 ≤ pageOf virt' + len'.toNat / 4096) : q.Meets q' := by
  have hfirst : virt.toNat % 2 ^ 21 = pageOf virt % 512 * 4096 := by
    unfold pageOf
    omega
  have hfirst' : virt'.toNat % 2 ^ 21 = pageOf virt' % 512 * 4096 := by
    unfold pageOf
    omega
  have hcong : virt.toNat % 2 ^ 21 = phys.toNat % 2 ^ 21 ↔
      virt'.toNat % 2 ^ 21 = phys'.toNat % 2 ^ 21 := by
    omega
  -- the same page has the same frame
  have hone : q.huge = q'.huge → q.page = q'.page → q = q' := by
    intro hsize hpage
    have hlower := h.lower
    have hlower' := h'.lower
    have hframe : q.phys.toNat = q'.phys.toNat := by
      rw [h.frame, h'.frame]
      omega
    exact Piece.ext hsize hpage (UInt64.toNat_inj.1 hframe)
  by_cases hsame : q.page / 512 = q'.page / 512
  · have hlarge : q.huge = true → q'.huge = true := by
      intro hq
      obtain ⟨hc, hstart, hstop⟩ := h.huge.1 hq
      exact h'.huge.2 ⟨hcong.1 hc, hblock hsame hstart hstop⟩
    cases hq' : q'.huge with
    | true =>
      cases hq : q.huge with
      | true =>
        have haligned := h.aligned hq
        have haligned' := h'.aligned hq'
        exact Or.inl (Or.inl (hone (hq.trans hq'.symm) (by omega)))
      | false => exact Or.inr ⟨hq, hq', hsame⟩
    | false =>
      have hq : q.huge = false := by
        by_contra hq
        rw [hlarge (by simpa using hq)] at hq'
        cases hq'
      by_cases hpage : q.page = q'.page
      · exact Or.inl (Or.inl (hone (hq.trans hq'.symm) hpage))
      · refine Or.inl (Or.inr ?_)
        rw [if_neg (by simp [hq, hq'])]
        exact hpage
  · refine Or.inl (Or.inr ?_)
    split
    · exact hsame
    · exact fun hpage => hsame (by rw [hpage])

end Fits

/-! ## Where tables are -/

theorem spot_inj {r : Nat} {path path' : List Nat} (h : spot r path = spot r path') :
    path = path' := by
  have hroot : spot r [] = .pml4 r := rfl
  cases path with
  | nil => exact (spot_eq_pml4 (h.symm.trans hroot)).1.symm
  | cons i path =>
    cases path' with
    | nil => exact (spot_eq_pml4 (h.trans hroot)).1
    | cons i' path' =>
      rw [spot_cons, spot_cons] at h
      exact (Place.under.inj h).2

theorem Leads.last {w : World} {r n i : Nat} {path : List Nat} (h : Leads w r (path ++ [i]) n) :
    ∃ t, Leads w r path t ∧ slots w.mem (shape.level (spot r path)) t i = .table n := by
  generalize hpath : path ++ [i] = full at h
  cases h with
  | root _ => simp at hpath
  | down hlead _ hslot =>
    obtain ⟨rfl, hi⟩ := List.append_inj' hpath rfl
    obtain rfl := List.cons.inj hi |>.1
    exact ⟨_, hlead, hslot⟩

/-- Indices lead to one table. -/
theorem Leads.unique {w : World} {r n n' : Nat} {path : List Nat} (h : Leads w r path n)
    (h' : Leads w r path n') : n = n' := by
  induction h generalizing n' with
  | root _ =>
    generalize hnil : ([] : List Nat) = path at h'
    cases h' with
    | root _ => rfl
    | down _ _ _ => simp at hnil
  | down _ _ hslot ih =>
    obtain ⟨t', hlead', hslot'⟩ := h'.last
    rw [← ih hlead', hslot] at hslot'
    exact Slot.table.inj hslot'

/-- An entry with the page-size bit, in a table that may have large pages. -/
theorem decode_large {k : Nat} {e : UInt64} (hk : 0 < k) (hk' : k ≤ 2) (hp : e &&& PRESENT ≠ 0)
    (hh : e &&& HUGE ≠ 0) : decode k e = .leaf e := by
  rw [decode, if_neg hp, if_neg (Nat.ne_of_gt hk), if_neg hh, if_pos hk']

namespace Mapper

variable {s s' : Mapper} {place place' : Nat → Option Place} {r : Nat} {all ps : List Piece}
  {T : Finset (List Nat)}

/-- The state of a mapper that has mapped the pieces `ps` of `all`: its tables are those at `T`, one
page each from the PML4 on, and all leaves are pieces.  There is a page for every table that `all`
needs. -/
structure Holds (s : Mapper) (place : Nat → Option Place) (r : Nat) (all : List Piece)
    (T : Finset (List Nat)) (ps : List Piece) : Prop where
  ready : s.Ready place r
  spots : ∀ n p, place n = some p → ∃ path ∈ T, p = spot r path
  leads : ∀ path ∈ T, ∃ n, Leads (s.world place) r path n
  bare : ∀ i e, slots s.mem 1 r i ≠ .leaf e
  leaves : ∀ v < 2 ^ 36, ∀ e is, walk (slots s.mem) r (digits v) = some (e, is) →
    ∃ p ∈ ps, p.Leaf v e is
  bounds : ∀ p ∈ ps, p.page < 2 ^ 36
  needed : T ⊆ tables all
  pages : s.bump.cursor.toNat = r + 4096 * T.card
  room : r + 4096 * (tables all).card ≤ s.bump.end.toNat

namespace Holds

/-- A piece that is there already. -/
theorem cons (h : s.Holds place r all T ps) {q : Piece} (hq : q.page < 2 ^ 36) :
    s.Holds place r all T (q :: ps) := by
  refine ⟨h.ready, h.spots, h.leads, h.bare, fun v hv e is hw => ?_,
    List.forall_mem_cons.2 ⟨hq, h.bounds⟩, h.needed, h.pages, h.room⟩
  obtain ⟨p, hp, hleaf⟩ := h.leaves v hv e is hw
  exact ⟨p, List.mem_cons_of_mem _ hp, hleaf⟩

/-- A slot that names a table names one of the tables at `T`. -/
theorem mem_of_table (h : s.Holds place r all T ps) {path : List Nat} {t i next : Nat}
    (ht : Leads (s.world place) r path t)
    (hslot : slots s.mem (shape.level (spot r path)) t i = .table next) : path ++ [i] ∈ T := by
  obtain ⟨path', hpath', hspot⟩ :=
    h.spots _ _ (h.ready.tables.placed _ _ _ _ ht.place_eq hslot).2
  have heq : spot r (path ++ [i]) = spot r path' := (spot_concat r path i).trans hspot
  exact spot_inj heq ▸ hpath'

/-- An absent slot names none of them. -/
theorem not_mem_of_absent (h : s.Holds place r all T ps) {path : List Nat} {t i : Nat}
    (ht : Leads (s.world place) r path t)
    (hslot : slots s.mem (shape.level (spot r path)) t i = .absent) : path ++ [i] ∉ T := by
  intro hmem
  obtain ⟨n, hn⟩ := h.leads _ hmem
  obtain ⟨t', ht', hslot'⟩ := hn.last
  have hsame : slots s.mem (shape.level (spot r path)) t i = .table n := ht'.unique ht ▸ hslot'
  rw [hslot] at hsame
  cases hsame

/-- No entry has the page-size bit where no piece is a large page. -/
theorem clear (h : s.Holds place r all T ps) {path : List Nat} {t : UInt64} {i v : Nat}
    (ht : Leads (s.world place) r path t.toNat) (hv : v < 2 ^ 36) (rest : List Nat)
    (hdigits : digits v = path ++ i :: rest) (hpath : path ≠ []) (hrest : rest ≠ [])
    (hno : ∀ p ∈ ps, ∀ e, ¬ p.Leaf v e rest) (hi : i < 512)
    (hpresent : s.mem.readU64 (slotAddr t i) &&& PRESENT ≠ 0) :
    s.mem.readU64 (slotAddr t i) &&& HUGE = 0 := by
  by_contra hhuge
  have hlen := congrArg List.length hdigits
  rw [List.length_append, List.length_cons, show (digits v).length = 4 from rfl] at hlen
  have hpath' := List.length_pos_of_ne_nil hpath
  have hrest' := List.length_pos_of_ne_nil hrest
  have hslot : slots s.mem (shape.level (spot r path)) t.toNat i = .leaf _ :=
    (slots_eq s.mem _ t hi).trans
      (decode_large (by rw [level_spot]; omega) (by rw [level_spot]; omega) hpresent hhuge)
  have hwalk := ht.leaf hslot rest (by omega)
  rw [← hdigits] at hwalk
  obtain ⟨p, hp, hleaf⟩ := h.leaves v hv _ _ hwalk
  exact hno p hp _ hleaf

end Holds

/-- **A table is found or made**, if no large page is in the way: there is a page for it. -/
theorem ensureTable_holds (h : s.Holds place r all T ps) {t : UInt64} {i : Nat} {path : List Nat}
    (ht : Leads (s.world place) r path t.toNat) (hl : path.length < 3) (hi : i < 512)
    (hneed : path ++ [i] ∈ tables all)
    (hclear : s.mem.readU64 (slotAddr t i) &&& PRESENT ≠ 0 →
      s.mem.readU64 (slotAddr t i) &&& HUGE = 0) :
    wp (ensureTable t i) (fun next s' => ∃ place',
        s'.Holds place' r all (insert (path ++ [i]) T) ps ∧
        Leads (s'.world place') r (path ++ [i]) next.toNat) (fun _ _ => False) s := by
  have hspec := ensureTable_spec (S := fun _ => True) h.ready.tables ht hl hi
    fun _ => ⟨i * 2 ^ 27, trivial, by omega⟩
  refine wp_mono hspec ?_ ?_
  · rintro next s' ⟨place', hm, hframe, hlead, hung⟩
    have hready := h.ready.moves hm
    refine ⟨place', ⟨hready, fun n p hn => ?_, fun path' hpath' => ?_, fun j e => ?_,
      fun v hv e is hw => ?_, h.bounds, Finset.insert_subset hneed h.needed, ?_, ?_⟩, hlead⟩
    · rcases hung.places n p hn with hold | hnew
      · obtain ⟨path', hpath', hp⟩ := h.spots n p hold
        exact ⟨path', Finset.mem_insert_of_mem hpath', hp⟩
      · exact ⟨_, Finset.mem_insert_self _ _, hnew⟩
    · rcases Finset.mem_insert.1 hpath' with rfl | hpath'
      · exact ⟨_, hlead⟩
      · obtain ⟨n, hn⟩ := h.leads path' hpath'
        exact ⟨n, hn.moved hm.1⟩
    · by_cases hslot : r ≠ t.toNat ∨ j ≠ i
      · rw [hung.others r _ j h.ready.root hslot]
        exact h.bare j e
      · obtain ⟨rfl, rfl⟩ : r = t.toNat ∧ j = i := by omega
        rw [hung.slot 1 Nat.one_pos]
        exact fun he => by cases he
    · have hsame := hframe r _ _ r v h.ready.root .pml4 hv fun hseen => hseen.1
      exact h.leaves v hv e is (hsame ▸ hw)
    · rcases hung.pages with ⟨hslot, hcursor⟩ | ⟨hslot, hcursor⟩
      · rw [Finset.insert_eq_of_mem (h.mem_of_table ht hslot), hcursor]
        exact h.pages
      · rw [Finset.card_insert_of_notMem (h.not_mem_of_absent ht hslot), hcursor, h.pages]
        omega
    · have hbump : s'.bump = { s.bump with cursor := s'.bump.cursor } := hm.1.step.bump
      rw [hbump]
      exact h.room
  · rintro e s' ⟨rfl, ⟨hpresent, hhuge⟩ | ⟨hslot, hnone⟩⟩
    · exact hhuge (hclear hpresent)
    · -- the table is one of those that were counted
      have hcard := Finset.card_le_card (Finset.insert_subset hneed h.needed)
      rw [Finset.card_insert_of_notMem (h.not_mem_of_absent ht hslot)] at hcard
      have hpages := h.pages
      have hroom := h.room
      exact BumpAllocator.allocPages_one_ne_none h.ready.tables.bump
        (show s'.bump.cursor.toNat + 4096 ≤ s'.bump.end.toNat by omega) hnone

/-- Writing a piece into an absent slot. -/
theorem writeEntry_holds (h : s.Holds place r all T ps) {q : Piece} (hq : q.page < 2 ^ 36)
    {t entry : UInt64} {i : Nat} {path : List Nat} (ht : Leads (s.world place) r path t.toNat)
    (hi : i < 512) (habsent : s.mem.readU64 (slotAddr t i) &&& PRESENT = 0)
    (hentry : decode (shape.level (spot r path)) entry = .leaf entry) (hne : path ≠ [])
    (hleaf : ∀ v < 2 ^ 36, ∀ rest, digits v = path ++ i :: rest → q.Leaf v entry rest) :
    wp (writeEntry t i entry) (fun _ s' => s'.Holds place r all T (q :: ps))
      (fun _ _ => False) s := by
  have hslot : slots s.mem (shape.level (spot r path)) t.toNat i = .absent := by
    rw [slots_eq s.mem _ t hi, decode_absent habsent]
  have hmoved : Moved (s.world place) r (fun v => path ++ [i] <+: digits v) _ :=
    Moved.leaf h.ready.tables ht.place_eq hi hslot hentry hne fun _ _ hv => hv
  have hroot : r ≠ t.toNat := by
    intro hr
    have hplace := ht.place_eq
    rw [← hr] at hplace
    exact hne (spot_eq_pml4 (Option.some.inj (hplace.symm.trans h.ready.root))).1
  rw [writeEntry, wp_modify]
  refine ⟨h.ready.moves ⟨hmoved, rfl, .write ht.place_eq hi⟩, h.spots, fun path' hpath' => ?_,
    fun j e => ?_, fun v hv e is hw => ?_, List.forall_mem_cons.2 ⟨hq, h.bounds⟩, h.needed, h.pages, h.room⟩
  · obtain ⟨n, hn⟩ := h.leads path' hpath'
    exact ⟨n, hn.moved hmoved⟩
  · have hsame := h.ready.tables.slots_write (v := entry) ht.place_eq hi h.ready.root
      (Or.inl hroot) (j := j) 1
    exact hsame.symm ▸ h.bare j e
  · by_cases hcovers : path ++ [i] <+: digits v
    · obtain ⟨rest, hrest⟩ := hcovers
      rw [List.append_assoc, List.singleton_append] at hrest
      have hlen := congrArg List.length hrest
      rw [List.length_append, List.length_cons, show (digits v).length = 4 from rfl] at hlen
      have hfound := (ht.moved hmoved).leaf ((slots_write_self hi).trans hentry) rest
        (by omega)
      rw [hrest] at hfound
      obtain ⟨rfl, rfl⟩ := Prod.mk.inj (Option.some.inj (hw.symm.trans hfound))
      exact ⟨q, List.mem_cons_self, hleaf v hv _ hrest.symm⟩
    · have hsame := hmoved.frame r _ _ r v h.ready.root .pml4 hv fun hseen => hcovers hseen.1
      obtain ⟨p, hp, hpleaf⟩ := h.leaves v hv e is (hsame ▸ hw)
      exact ⟨p, List.mem_cons_of_mem _ hp, hpleaf⟩

/-- The two tables that a piece of either size needs. -/
theorem pageDirectory_holds (h : s.Holds place r all T ps) {q : Piece} (hq : q ∈ all)
    (hv : q.page < 2 ^ 36) {Q : UInt64 → Mapper → Prop} {E : String → Mapper → Prop}
    (hQ : ∀ (pd : UInt64) s' place',
      s'.Holds place' r all (insert [q.page / 2 ^ 27 % 512, q.page / 2 ^ 18 % 512]
        (insert [q.page / 2 ^ 27 % 512] T)) ps →
      Leads (s'.world place') r [q.page / 2 ^ 27 % 512, q.page / 2 ^ 18 % 512] pd.toNat → Q pd s') :
    wp (ensureTable s.pml4Phys (q.page / 2 ^ 27 % 512))
      (fun pdpt s' => wp (ensureTable pdpt (q.page / 2 ^ 18 % 512)) Q E s') E s := by
  have hneed : ∀ path ∈ q.tables, path ∈ tables all := fun _ hp => Piece.tables_subset hq hp
  have hroot : Leads (s.world place) r [] s.pml4Phys.toNat :=
    h.ready.pml4 ▸ .root (h.ready.pml4 ▸ h.ready.root)
  refine wp_mono (ensureTable_holds h hroot (by decide) (digit_lt q.page 27)
    (hneed _ (by unfold Piece.tables; split <;> simp)) fun hpresent => ?_) ?_ fun _ _ he => he.elim
  · -- the page-size bit is not set in a PML4
    by_contra hhuge
    have hleaf := (slots_eq s.mem 1 s.pml4Phys (digit_lt q.page 27)).trans
      (decode_large Nat.one_pos (by decide) hpresent hhuge)
    rw [h.ready.pml4] at hleaf
    exact h.bare _ _ hleaf
  rintro pdpt s₁ ⟨place₁, h₁, hlead₁⟩
  refine wp_mono (ensureTable_holds h₁ hlead₁ (Nat.lt_add_one_of_le (by simp)) (digit_lt q.page 18)
    (hneed _ (by unfold Piece.tables; split <;> simp)) fun hpresent => ?_) ?_ fun _ _ he => he.elim
  · refine h₁.clear hlead₁ hv [q.page / 2 ^ 9 % 512, q.page % 512] rfl (by simp) (by simp)
      (fun p _ e hleaf => ?_) (digit_lt q.page 18) hpresent
    rcases hleaf.place with ⟨-, -, hone⟩ | ⟨-, -, hnil⟩
    · simp at hone
    · simp at hnil
  rintro pd s₂ ⟨place₂, h₂, hlead₂⟩
  exact hQ pd s₂ place₂ h₂ hlead₂

/-- **One page** that fits. -/
theorem map4k_holds {virt phys : UInt64} (h : s.Holds place r all (tables ps) ps)
    (hq : ⟨false, pageOf virt, phys⟩ ∈ all)
    (hfits : ∀ p ∈ ps, p.Fits ⟨false, pageOf virt, phys⟩) :
    wp (map4k virt phys) (fun _ s' => ∃ place', s'.Holds place' r all
        (tables (⟨false, pageOf virt, phys⟩ :: ps)) (⟨false, pageOf virt, phys⟩ :: ps))
      (fun _ _ => False) s := by
  have hv := pageOf_lt virt
  unfold map4k readEntry
  simp only [wp_bind, wp_get, wp_pure, toNat_pml4Index, toNat_pdptIndex, toNat_pdIndex,
    toNat_ptIndex]
  generalize pageOf virt = v at hv hq hfits ⊢
  refine pageDirectory_holds h hq hv fun pd s₂ place₂ h₂ hlead₂ => ?_
  refine wp_mono (ensureTable_holds h₂ hlead₂ (Nat.lt_succ_self 2) (digit_lt v 9)
    (Piece.tables_subset hq (by simp [Piece.tables])) fun hpresent => ?_) ?_ fun _ _ he => he
  · -- a large page of this block would not fit
    refine h₂.clear hlead₂ hv [v % 512] rfl (by simp) (by simp) (fun p hp e hleaf => ?_)
      (digit_lt v 9) hpresent
    rcases hleaf.place with ⟨hhuge, hblock, -⟩ | ⟨-, -, hnil⟩
    · rw [(hfits p hp).eq_of_same (by rw [if_pos (Or.inl hhuge)]; exact hblock.symm)] at hhuge
      cases hhuge
    · simp at hnil
  rintro pt s₃ ⟨place₃, h₃, hlead₃⟩
  have hi : v % 512 < 512 := Nat.mod_lt _ (by decide)
  have hT := tables_cons_small v phys ps
  rw [← hT] at h₃
  rw [wp_ite]
  refine ⟨fun hpresent => ?_, fun habsent => ?_⟩
  · -- the page that is there is this one
    have hleaf := (slots_eq s₃.mem 0 pt hi).trans (decode_present hpresent)
    obtain ⟨p, hp, hpleaf⟩ := h₃.leaves v hv _ _ (hlead₃.leaf hleaf [] rfl)
    obtain rfl : p = ⟨false, v, phys⟩ := by
      rcases hpleaf.place with ⟨-, -, hone⟩ | ⟨hsmall, hpage, -⟩
      · cases hone
      · exact (hfits p hp).eq_of_same (by rw [if_neg (by simp [hsmall])]; exact hpage.symm)
    rw [wp_ite]
    refine ⟨fun hne => absurd hpleaf.frame hne, fun _ => ?_⟩
    rw [wp_pure]
    exact ⟨place₃, h₃.cons hv⟩
  · rw [not_not] at habsent
    refine wp_mono (writeEntry_holds (q := ⟨false, v, phys⟩) h₃ hv hlead₃ hi habsent
      (decode_page phys) (by simp) fun v' hv' rest hrest => ?_)
      (fun _ s₄ h₄ => ⟨place₃, h₄⟩) fun _ _ he => he
    have hlen := congrArg List.length hrest
    obtain rfl : rest = [] := by simpa [digits] using hlen
    exact ⟨(masked_or phys (by decide)).2, Or.inr ⟨rfl, digits_inj hv' hv hrest, rfl⟩⟩

/-- **One large page** that fits. -/
theorem map2m_holds {virt phys : UInt64} (h : s.Holds place r all (tables ps) ps)
    (hvirt : virt.toNat % 2 ^ 21 = 0) (hq : ⟨true, pageOf virt, phys⟩ ∈ all)
    (hfits : ∀ p ∈ ps, p.Fits ⟨true, pageOf virt, phys⟩) :
    wp (map2m virt phys) (fun _ s' => ∃ place', s'.Holds place' r all
        (tables (⟨true, pageOf virt, phys⟩ :: ps)) (⟨true, pageOf virt, phys⟩ :: ps))
      (fun _ _ => False) s := by
  have hv := pageOf_lt virt
  have hmod : pageOf virt % 512 = 0 := by
    unfold pageOf
    omega
  unfold map2m readEntry
  simp only [wp_bind, wp_get, wp_pure, toNat_pml4Index, toNat_pdptIndex, toNat_pdIndex]
  generalize pageOf virt = v at hv hmod hq hfits ⊢
  refine pageDirectory_holds h hq hv fun pd s₂ place₂ h₂ hlead₂ => ?_
  have hi := digit_lt v 9
  have hT := tables_cons_large v phys ps
  rw [wp_ite]
  refine ⟨fun hpresent => ?_, fun habsent => ?_⟩
  · have hhuge : s₂.mem.readU64 (slotAddr pd (v / 2 ^ 9 % 512)) &&& HUGE ≠ 0 := by
      -- a table here belongs to a small page of the block, which would not fit
      intro hsmall
      have hmem := h₂.mem_of_table hlead₂
        ((slots_eq s₂.mem 1 pd hi).trans (decode_table Nat.one_pos hpresent hsmall))
      simp only [List.cons_append, List.nil_append, Finset.mem_insert, List.cons.injEq, reduceCtorEq,
        and_false, false_or] at hmem
      obtain ⟨p, hp, hpsmall, h27, h18, h9⟩ := mem_tables_small hmem
      have hpage := h₂.bounds p hp
      have hsame := (hfits p hp).eq_of_same (by
        rw [if_pos (Or.inr rfl)]
        show p.page / 512 = v / 512
        omega)
      rw [hsame] at hpsmall
      cases hpsmall
    have hleaf := (slots_eq s₂.mem 1 pd hi).trans (decode_present_huge hpresent hhuge)
    have hwalk := hlead₂.leaf hleaf [v % 512] rfl
    obtain ⟨p, hp, hpleaf⟩ := h₂.leaves v hv _ _ hwalk
    obtain rfl : p = ⟨true, v, phys⟩ := by
      rcases hpleaf.place with ⟨-, hblock, -⟩ | ⟨-, -, hnil⟩
      · exact (hfits p hp).eq_of_same (by rw [if_pos (Or.inr rfl)]; exact hblock.symm)
      · cases hnil
    rw [wp_ite]
    refine ⟨fun hsmall => absurd hsmall hhuge, fun _ => ?_⟩
    rw [wp_ite]
    refine ⟨fun hne => absurd hpleaf.frame hne, fun _ => ?_⟩
    rw [wp_pure, hT]
    exact ⟨place₂, h₂.cons hv⟩
  · rw [not_not] at habsent
    rw [hT]
    refine wp_mono (writeEntry_holds (q := ⟨true, v, phys⟩) h₂ hv hlead₂ hi habsent
      (decode_huge phys) (by simp) fun v' hv' rest hrest => ?_) (fun _ s₃ h₃ => ⟨place₂, h₃⟩)
      fun _ _ he => he
    simp only [digits, List.cons_append, List.nil_append, List.cons.injEq] at hrest
    obtain ⟨h27, h18, h9, rfl⟩ := hrest
    refine ⟨?_, Or.inl ⟨rfl, ?_, rfl⟩⟩
    · rw [UInt64.or_assoc]
      exact (masked_or phys (by decide)).2
    · show v' / 512 = v / 512
      omega

/-- **One large page** where a small page is. -/
theorem map2m_blocked {virt phys : UInt64} (h : s.Holds place r all (tables ps) ps)
    (hq : ⟨true, pageOf virt, phys⟩ ∈ all) {p : Piece} (hp : p ∈ ps)
    (hblocks : p.Blocks ⟨true, pageOf virt, phys⟩) :
    wp (map2m virt phys) (fun _ _ => False) (fun e _ => e = "huge/4k page collision") s := by
  obtain ⟨hsmall, -, hsame⟩ := hblocks
  unfold map2m readEntry
  simp only [wp_bind, wp_get, wp_pure, toNat_pml4Index, toNat_pdptIndex, toNat_pdIndex]
  have hv := pageOf_lt virt
  generalize pageOf virt = v at hv hq hsame ⊢
  replace hsame : p.page / 512 = v / 512 := hsame
  refine pageDirectory_holds h hq hv fun pd s₂ place₂ h₂ hlead₂ => ?_
  -- the page table of the small page is in the slot
  have hmem : [v / 2 ^ 27 % 512, v / 2 ^ 18 % 512] ++ [v / 2 ^ 9 % 512] ∈ tables ps := by
    refine Piece.tables_subset hp ?_
    have h27 : p.page / 2 ^ 27 % 512 = v / 2 ^ 27 % 512 := by omega
    have h18 : p.page / 2 ^ 18 % 512 = v / 2 ^ 18 % 512 := by omega
    have h9 : p.page / 2 ^ 9 % 512 = v / 2 ^ 9 % 512 := by omega
    rw [Piece.tables, h27, h18, h9, hsmall]
    simp
  obtain ⟨n, hn⟩ := h₂.leads _ (Finset.mem_insert_of_mem (Finset.mem_insert_of_mem hmem))
  obtain ⟨t, ht, hslot⟩ := hn.last
  rw [ht.unique hlead₂] at hslot
  obtain ⟨hpresent, hclear⟩ :=
    decode_eq_table ((slots_eq s₂.mem _ pd (digit_lt v 9)).symm.trans hslot)
  rw [wp_ite]
  refine ⟨fun _ => ?_, fun habsent => absurd hpresent habsent⟩
  rw [wp_ite]
  exact ⟨fun _ => (wp_throw _).2 rfl, fun hhuge => absurd hclear hhuge⟩

/-! ## Programs that map pieces -/

/-- `R` holds between the pieces that are there and those that come, and among these. -/
def Joins (R : Piece → Piece → Prop) (ps qs : List Piece) : Prop :=
  (∀ p ∈ ps, ∀ q ∈ qs, R p q) ∧ qs.Pairwise R

theorem joins_nil {R : Piece → Piece → Prop} {qs : List Piece} : Joins R [] qs ↔ qs.Pairwise R :=
  and_iff_right nofun

theorem joins_append {R : Piece → Piece → Prop} {qs qs' : List Piece} :
    Joins R ps (qs ++ qs') ↔ Joins R ps qs ∧ Joins R (qs.reverse ++ ps) qs' := by
  simp only [Joins, List.pairwise_append, List.mem_append, List.mem_reverse]
  constructor
  · rintro ⟨hcross, hqs, hqs', hmid⟩
    exact ⟨⟨fun p hp q hq => hcross p hp q (Or.inl hq), hqs⟩, fun p hp q hq =>
      hp.elim (fun h => hmid p h q hq) fun h => hcross p h q (Or.inr hq), hqs'⟩
  · rintro ⟨⟨hcross, hqs⟩, hlater, hqs'⟩
    exact ⟨fun p hp q hq => hq.elim (hcross p hp q) (hlater p (Or.inr hp) q), hqs, hqs',
      fun p hp q hq => hlater p (Or.inl hp) q hq⟩

/-- The program maps the pieces `qs`, one after the other, exactly if they fit; it stops at the first
that is blocked. -/
def Adds {α : Type} (r : Nat) (all qs : List Piece) (x : Prog Mapper α) : Prop :=
  ∀ s place ps, s.Holds place r all (tables ps) ps → Joins Piece.Meets ps qs →
    wp x (fun _ s' => Joins Piece.Fits ps qs ∧
        ∃ place', s'.Holds place' r all (tables (qs.reverse ++ ps)) (qs.reverse ++ ps))
      (fun e _ => e = "huge/4k page collision" ∧ ¬ Joins Piece.Fits ps qs) s

namespace Adds

variable {α β : Type} {qs qs' : List Piece}

theorem pure (a : α) : Adds r all [] (pure a) := by
  intro s place ps h _
  rw [wp_pure]
  exact ⟨⟨fun _ _ _ hq => absurd hq List.not_mem_nil, .nil⟩, place, h⟩

theorem bind {x : Prog Mapper α} {f : α → Prog Mapper β} (hx : Adds r all qs x)
    (hf : ∀ a, Adds r all qs' (f a)) : Adds r all (qs ++ qs') (x >>= f) := by
  intro s place ps h hmeets
  obtain ⟨hfirst, hsecond⟩ := joins_append.1 hmeets
  rw [wp_bind, List.reverse_append, List.append_assoc, joins_append]
  refine wp_mono (hx s place ps h hfirst) ?_ fun _ _ he => ⟨he.1, fun hfits => he.2 hfits.1⟩
  rintro a s₁ ⟨hfits, place₁, h₁⟩
  exact wp_mono (hf a s₁ place₁ _ h₁ hsecond) (fun _ _ h₂ => ⟨⟨hfits, h₂.1⟩, h₂.2⟩)
    fun _ _ he => ⟨he.1, fun hfits => he.2 hfits.2⟩

/-- A small page is never blocked. -/
theorem map4k {virt phys : UInt64} (hq : ⟨false, pageOf virt, phys⟩ ∈ all) :
    Adds r all [⟨false, pageOf virt, phys⟩] (map4k virt phys) := by
  intro s place ps h hmeets
  have hfits : ∀ p ∈ ps, p.Fits ⟨false, pageOf virt, phys⟩ := fun p hp =>
    (hmeets.1 p hp _ List.mem_cons_self).resolve_right fun hblocks => by cases hblocks.2.1
  refine wp_mono (map4k_holds h hq hfits) (fun _ s' h' => ⟨⟨?_, List.pairwise_singleton _ _⟩, h'⟩)
    fun _ _ he => he.elim
  exact fun p hp q hmem => List.mem_singleton.1 hmem ▸ hfits p hp

theorem map2m {virt phys : UInt64} (hvirt : virt.toNat % 2 ^ 21 = 0)
    (hq : ⟨true, pageOf virt, phys⟩ ∈ all) :
    Adds r all [⟨true, pageOf virt, phys⟩] (map2m virt phys) := by
  intro s place ps h hmeets
  by_cases hblocked : ∃ p ∈ ps, p.Blocks ⟨true, pageOf virt, phys⟩
  · obtain ⟨p, hp, hblocks⟩ := hblocked
    refine wp_mono (map2m_blocked h hq hp hblocks) (fun _ _ hf => hf.elim) fun _ _ he => ⟨he, ?_⟩
    exact fun hfits => hblocks.not_fits (hfits.1 p hp _ List.mem_cons_self)
  · have hfits : ∀ p ∈ ps, p.Fits ⟨true, pageOf virt, phys⟩ := fun p hp =>
      (hmeets.1 p hp _ List.mem_cons_self).resolve_right fun hblocks => hblocked ⟨p, hp, hblocks⟩
    refine wp_mono (map2m_holds h hvirt hq hfits)
      (fun _ s' h' => ⟨⟨?_, List.pairwise_singleton _ _⟩, h'⟩) fun _ _ he => he.elim
    exact fun p hp q hmem => List.mem_singleton.1 hmem ▸ hfits p hp

/-- **`map_range`** maps its cuts. -/
theorem mapRangeLoop (fuel : Nat) :
    ∀ {virt phys len : UInt64}, (∀ q ∈ pieces fuel virt phys len, q ∈ all) →
      Adds r all (pieces fuel virt phys len) (mapRangeLoop fuel virt phys len) := by
  induction fuel with
  | zero => exact fun _ => .pure ()
  | succ fuel ih =>
    intro virt phys len hall
    rw [Mapper.mapRangeLoop]
    rw [pieces] at hall ⊢
    -- a turn that maps the piece `q`, and the turns after it
    have turn : ∀ {x : Prog Mapper Unit} {q : Piece} {virt phys len : UInt64},
        (∀ q' ∈ q :: pieces fuel virt phys len, q' ∈ all) → (q ∈ all → Adds r all [q] x) →
        Adds r all (q :: pieces fuel virt phys len)
          (do x; Mapper.mapRangeLoop fuel virt phys len) := by
      intro x q virt phys len hall hx
      obtain ⟨hq, hrest⟩ := List.forall_mem_cons.1 hall
      exact .bind (hx hq) fun _ => ih hrest
    split
    · rename_i hpage
      rw [if_pos hpage] at hall
      split
      · rename_i hhuge
        rw [if_pos hhuge] at hall
        have hv := ((or_and_low_eq_zero 21 (by decide)).1 hhuge.2).1
        exact turn hall (.map2m hv)
      · rename_i hhuge
        rw [if_neg hhuge] at hall
        exact turn hall .map4k
    · exact .pure ()

theorem mapRange {virt phys len : UInt64}
    (hvirt : virt.toNat % 4096 = 0) (hphys : phys.toNat % 4096 = 0)
    (hall : ∀ q ∈ cuts virt phys len, q ∈ all) :
    Adds r all (cuts virt phys len) (mapRange virt phys len) := by
  have haligned : ¬ (virt &&& (PAGE - 1) ≠ 0 ∨ phys &&& (PAGE - 1) ≠ 0) := by
    rw [not_or, not_not, not_not]
    exact ⟨and_page_eq_zero.2 hvirt, and_page_eq_zero.2 hphys⟩
  rw [Mapper.mapRange, if_neg haligned]
  exact mapRangeLoop _ hall

end Adds

end Mapper

end RootCourt

end CourtKernel
