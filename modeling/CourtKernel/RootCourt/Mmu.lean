import CourtKernel.Lib.Radix
import CourtKernel.RootCourt.Paging

/-!
# What the processor reads in page tables

The hardware's view of the tables, which the code of the kernel never computes: `translate` walks
four levels from a PML4, `translateCr3` the active number of levels from `CR3`.  A present entry
with the page-size bit is a leaf of 2 MiB or 1 GiB; in a PML4 or PML5 that bit is reserved and
faults.

An address space is then a partial map from virtual pages to physical frames, `frameAt`.

* `translate_eq` — the translation of an address is the frame of its page and the offset.
* `toNat_pml4Index` and its relatives — the index functions of the source are the base-512 digits of
  the page number, `indices_eq_digits`.
* `decode_link`, `decode_page`, `decode_huge` — what the entries written by the kernel mean.
-/

namespace CourtKernel

namespace RootCourt

open Radix (walk)

/-! ## Entries -/

/-- What an entry means, with `k` indices left below it. -/
def decode (k : Nat) (entry : UInt64) : Slot Nat UInt64 :=
  if entry &&& PRESENT = 0 then .absent
  else if k = 0 then .leaf entry
  else if entry &&& HUGE = 0 then .table (entry &&& PHYS_MASK).toNat
  else if k ≤ 2 then .leaf entry
  else .absent

/-- The slots of the tables in memory. -/
def slots (m : Memory) : Radix.Store Nat Nat UInt64 := fun k table i =>
  if i < 512 then decode k (m.readU64 (table + 8 * i)) else .absent

theorem slots_eq (m : Memory) (k : Nat) (t : UInt64) {i : Nat} (hi : i < 512) :
    slots m k t.toNat i = decode k (m.readU64 (slotAddr t i)) := if_pos hi

theorem toNat_and_PRESENT (e : UInt64) : (e &&& PRESENT).toNat = e.toNat % 2 := by
  rw [toNat_and_field 0 1 (by decide)]
  omega

theorem toNat_and_HUGE (e : UInt64) : (e &&& HUGE).toNat = e.toNat / 128 % 2 * 128 := by
  rw [toNat_and_field 7 1 (by decide)]
  omega

theorem toNat_and_PHYS_MASK (e : UInt64) :
    (e &&& PHYS_MASK).toNat = e.toNat / 4096 % 2 ^ 40 * 4096 := by
  rw [toNat_and_field 12 40 (by decide)]
  omega

theorem and_PRESENT_eq_zero {e : UInt64} : e &&& PRESENT = 0 ↔ e.toNat % 2 = 0 := by
  rw [← UInt64.toNat_inj, toNat_and_PRESENT]
  rfl

theorem and_HUGE_eq_zero {e : UInt64} : e &&& HUGE = 0 ↔ e.toNat / 128 % 2 = 0 := by
  rw [← UInt64.toNat_inj, toNat_and_HUGE, UInt64.toNat_zero]
  omega

theorem decode_absent {k : Nat} {e : UInt64} (h : e &&& PRESENT = 0) : decode k e = .absent :=
  if_pos h

theorem decode_zero (k : Nat) : decode k 0 = .absent := decode_absent (by decide)

/-- An entry that names a table, seen the way `ensure_table` looks at it. -/
theorem decode_table {k : Nat} {e : UInt64} (hk : 0 < k) (hp : e &&& PRESENT ≠ 0)
    (hh : e &&& HUGE = 0) : decode k e = .table (e &&& PHYS_MASK).toNat := by
  rw [decode, if_neg hp, if_neg (by omega), if_pos hh]

theorem decode_eq_table {k n : Nat} {e : UInt64} (h : decode k e = .table n) :
    e &&& PRESENT ≠ 0 ∧ e &&& HUGE = 0 := by
  unfold decode at h
  split at h
  · cases h
  · rename_i hp
    split at h
    · cases h
    · split at h
      · rename_i hh
        exact ⟨hp, hh⟩
      · split at h <;> cases h

theorem decode_present {e : UInt64} (hp : e &&& PRESENT ≠ 0) : decode 0 e = .leaf e := by
  rw [decode, if_neg hp, if_pos rfl]

theorem decode_present_huge {e : UInt64} (hp : e &&& PRESENT ≠ 0) (hh : e &&& HUGE ≠ 0) :
    decode 1 e = .leaf e := by
  rw [decode, if_neg hp, if_neg Nat.one_ne_zero, if_neg hh, if_pos (by decide)]

/-- `next | TABLE_FLAGS` -/
theorem decode_link {k : Nat} {next : UInt64} (hk : 0 < k) (h : next.toNat % 4096 = 0)
    (h52 : next.toNat < 2 ^ 52) : decode k (next ||| TABLE_FLAGS) = .table next.toNat := by
  have hflags : TABLE_FLAGS.toNat = 3 := by decide
  have hor : (next ||| TABLE_FLAGS).toNat = next.toNat + 3 := by
    rw [toNat_or_low 12 h (by decide), hflags]
  rw [decode_table hk, toNat_and_PHYS_MASK, hor]
  · congr 1
    omega
  · rw [Ne, and_PRESENT_eq_zero, hor]
    omega
  · rw [and_HUGE_eq_zero, hor]
    omega

/-- `(phys & PHYS_MASK) | flags` for flags below the frame number that have the present bit. -/
theorem masked_or (phys : UInt64) {flags : UInt64} (hf : flags.toNat < 4096) :
    ((phys &&& PHYS_MASK) ||| flags).toNat = (phys &&& PHYS_MASK).toNat + flags.toNat ∧
      ((phys &&& PHYS_MASK) ||| flags) &&& PHYS_MASK = phys &&& PHYS_MASK := by
  have hmask := toNat_and_PHYS_MASK phys
  have hor : ((phys &&& PHYS_MASK) ||| flags).toNat = (phys &&& PHYS_MASK).toNat + flags.toNat :=
    toNat_or_low 12 (by rw [hmask]; omega) hf
  refine ⟨hor, ?_⟩
  rw [← UInt64.toNat_inj, toNat_and_PHYS_MASK (_ ||| _), hor, hmask]
  omega

/-- `(phys & PHYS_MASK) | PAGE_FLAGS` in a page table -/
theorem decode_page (phys : UInt64) :
    decode 0 ((phys &&& PHYS_MASK) ||| PAGE_FLAGS) = .leaf ((phys &&& PHYS_MASK) ||| PAGE_FLAGS) := by
  have hor := (masked_or phys (show PAGE_FLAGS.toNat < 4096 by decide)).1
  have hmask := toNat_and_PHYS_MASK phys
  have hflags : PAGE_FLAGS.toNat = 3 := by decide
  refine decode_present ?_
  rw [Ne, and_PRESENT_eq_zero, hor, hflags]
  omega

/-- `(phys & PHYS_MASK) | PAGE_FLAGS | HUGE` in a page directory -/
theorem decode_huge (phys : UInt64) :
    decode 1 ((phys &&& PHYS_MASK) ||| PAGE_FLAGS ||| HUGE) =
      .leaf ((phys &&& PHYS_MASK) ||| PAGE_FLAGS ||| HUGE) := by
  have hor := (masked_or phys (show (PAGE_FLAGS ||| HUGE).toNat < 4096 by decide)).1
  have hmask := toNat_and_PHYS_MASK phys
  have hflags : (PAGE_FLAGS ||| HUGE).toNat = 131 := by decide
  rw [UInt64.or_assoc]
  refine decode_present_huge ?_ ?_
  · rw [Ne, and_PRESENT_eq_zero, hor, hflags]
    omega
  · rw [Ne, and_HUGE_eq_zero, hor, hflags]
    omega

/-! ## Pages -/

/-- The number of the page of an address, in the 48 bits a walk looks at. -/
def pageOf (va : UInt64) : Nat := va.toNat / 4096 % 2 ^ 36

theorem pageOf_lt (va : UInt64) : pageOf va < 2 ^ 36 := Nat.mod_lt _ (by decide)

/-- The four table indices of a page. -/
def digits (page : Nat) : List Nat :=
  [page / 2 ^ 27 % 512, page / 2 ^ 18 % 512, page / 2 ^ 9 % 512, page % 512]

theorem toNat_shift_and (va n : UInt64) (hn : n.toNat < 64) :
    ((va >>> n) &&& 0x1ff).toNat = va.toNat / 2 ^ n.toNat % 512 := by
  rw [toNat_and_field 0 9 (by decide), UInt64.toNat_shiftRight, Nat.mod_eq_of_lt hn,
    Nat.shiftRight_eq_div_pow]
  omega

theorem toNat_pml4Index (va : UInt64) : pml4Index va = pageOf va / 2 ^ 27 % 512 := by
  have h := toNat_shift_and va 39 (by decide)
  have hlt := va.toNat_lt
  rw [show (39 : UInt64).toNat = 39 from rfl] at h
  rw [pml4Index, h, pageOf]
  omega

theorem toNat_pdptIndex (va : UInt64) : pdptIndex va = pageOf va / 2 ^ 18 % 512 := by
  have h := toNat_shift_and va 30 (by decide)
  rw [show (30 : UInt64).toNat = 30 from rfl] at h
  rw [pdptIndex, h, pageOf]
  omega

theorem toNat_pdIndex (va : UInt64) : pdIndex va = pageOf va / 2 ^ 9 % 512 := by
  have h := toNat_shift_and va 21 (by decide)
  rw [show (21 : UInt64).toNat = 21 from rfl] at h
  rw [pdIndex, h, pageOf]
  omega

theorem toNat_ptIndex (va : UInt64) : ptIndex va = pageOf va % 512 := by
  have h := toNat_shift_and va 12 (by decide)
  rw [show (12 : UInt64).toNat = 12 from rfl] at h
  rw [ptIndex, h, pageOf]
  omega

def indices (va : UInt64) : List Nat := [pml4Index va, pdptIndex va, pdIndex va, ptIndex va]

theorem indices_eq_digits (va : UInt64) : indices va = digits (pageOf va) := by
  rw [indices, digits, toNat_pml4Index, toNat_pdptIndex, toNat_pdIndex, toNat_ptIndex]

/-- Pages below `2^36` are told apart by their digits. -/
theorem digits_inj {v v' : Nat} (hv : v < 2 ^ 36) (hv' : v' < 2 ^ 36) (h : digits v = digits v') :
    v = v' := by
  simp only [digits, List.cons.injEq, and_true] at h
  omega

/-! ## Translation -/

/-- Bytes a leaf covers when the indices `rest` are left over. -/
def span (rest : List Nat) : Nat := 4096 * 512 ^ rest.length

/-- The physical address that a leaf gives to the byte `va` of virtual memory. -/
def physOf (va : Nat) (leaf : UInt64 × List Nat) : Nat :=
  (leaf.1 &&& PHYS_MASK).toNat / span leaf.2 * span leaf.2 + va % span leaf.2

/-- The 4-level walk from a PML4. -/
def translate (m : Memory) (pml4Phys va : UInt64) : Option Nat :=
  (walk (slots m) pml4Phys.toNat (indices va)).map (physOf va.toNat)

/-- The walk from `CR3`, through a PML5 first if `LA57` is set. -/
def translateCr3 (la57 : Bool) (m : Memory) (cr3 va : UInt64) : Option Nat :=
  if la57 then
    (walk (slots m) cr3.toNat (((va >>> 48) &&& 0x1ff).toNat :: indices va)).map (physOf va.toNat)
  else translate m cr3 va

/-- The frame of a page. -/
def frameAt (m : Memory) (pml4 page : Nat) : Option Nat :=
  (walk (slots m) pml4 (digits page)).map (physOf (page * 4096))

/-- The tables that walks from a PML4 pass. -/
def tablePages (m : Memory) (pml4Phys : UInt64) : Set Nat :=
  {t | ∃ va, t ∈ Radix.visits (slots m) pml4Phys.toNat (indices va)}

theorem frameAt_page {m : Memory} {r v : Nat} {e : UInt64}
    (hw : walk (slots m) r (digits v) = some (e, [])) :
    frameAt m r v = some (e &&& PHYS_MASK).toNat := by
  rw [frameAt, hw, Option.map_some, physOf, toNat_and_PHYS_MASK]
  simp only [span, List.length_nil, pow_zero, Nat.mul_one, Option.some.injEq]
  omega

theorem frameAt_huge {m : Memory} {r v : Nat} {e : UInt64}
    (hw : walk (slots m) r (digits v) = some (e, [v % 512])) :
    frameAt m r v = some ((e &&& PHYS_MASK).toNat / 2 ^ 21 * 2 ^ 21 + v % 512 * 4096) := by
  rw [frameAt, hw, Option.map_some, physOf]
  simp only [span, List.length_cons, List.length_nil, Nat.zero_add, pow_one, Option.some.injEq]
  omega

/-- A page whose PML4 entry is not in use has no frame. -/
theorem frameAt_absent {m : Memory} {r v : Nat} (h : slots m 3 r (v / 2 ^ 27 % 512) = .absent) :
    frameAt m r v = none := by
  rw [frameAt, digits, walk, show [_, _, _].length = 3 from rfl, h]
  rfl

theorem walk_rest {S : Radix.Store Nat Nat UInt64} {leaf : UInt64 × List Nat} :
    ∀ (is : List Nat) (n : Nat), walk S n is = some leaf → leaf.2.length < is.length := by
  intro is
  induction is with
  | nil => intro n h; cases h
  | cons i is ih =>
    intro n h
    rw [walk] at h
    split at h
    · cases h
    · exact Nat.lt_succ_of_lt (ih _ h)
    · obtain rfl := Option.some.inj h
      exact Nat.lt_succ_self _

/-- **The translation of an address is the frame of its page, plus the offset in the page.** -/
theorem translate_eq (m : Memory) (pml4Phys va : UInt64) :
    translate m pml4Phys va =
      (frameAt m pml4Phys.toNat (pageOf va)).map (· + va.toNat % 4096) := by
  rw [translate, frameAt, indices_eq_digits, Option.map_map]
  cases hw : walk (slots m) pml4Phys.toNat (digits (pageOf va)) with
  | none => rfl
  | some leaf =>
    have hrest := walk_rest _ _ hw
    simp only [digits, List.length_cons, List.length_nil] at hrest
    simp only [Option.map_some, Option.some.injEq, Function.comp_apply, physOf, span, pageOf]
    rw [Nat.add_assoc]
    congr 1
    -- the four sizes of leaves
    obtain h | h | h | h : leaf.2.length = 0 ∨ leaf.2.length = 1 ∨ leaf.2.length = 2 ∨
        leaf.2.length = 3 := by omega
    all_goals rw [h]; omega

end RootCourt

end CourtKernel
