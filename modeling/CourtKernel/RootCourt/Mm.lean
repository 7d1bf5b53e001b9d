import CourtKernel.Lib.Machine
import CourtKernel.Lib.Words

/-!
# Physical bump allocator

Reference model of `crates/root-court/src/mm.rs` and of the memory map of
`crates/root-court/src/limine_abi.rs`.  The kernel reaches physical memory through a direct map:
`virt phys` is the address of `phys` there.  The models of the kernel index memory by physical
addresses, so a pointer `virt phys` is used as `phys`.

The kernel is built in release mode, so plain arithmetic on `u64` wraps.

* `fromMemmap_wf` — an allocator made from a memory map is well formed.
* `allocPages_spec` — a grant is the next whole pages, inside the region.
* `Allocs.spec` — so is what any number of grants leave behind.
* `allocator_disjoint_usable` — what every run of calls returns: disjoint pages of one usable entry.
-/

namespace CourtKernel

namespace RootCourt

def MEMMAP_USABLE : UInt64 := 0
def MEMMAP_BOOTLOADER_RECLAIMABLE : UInt64 := 5
def MEMMAP_EXECUTABLE_AND_MODULES : UInt64 := 6
def MEMMAP_FRAMEBUFFER : UInt64 := 7

/-- Revision 3 HHDM covers these memmap types only. -/
def hhdmMappedRev3 (kind : UInt64) : Bool :=
  kind == MEMMAP_USABLE || kind == MEMMAP_BOOTLOADER_RECLAIMABLE ||
    kind == MEMMAP_EXECUTABLE_AND_MODULES || kind == MEMMAP_FRAMEBUFFER

structure MemmapEntry where
  base : UInt64
  length : UInt64
  kind : UInt64
  deriving DecidableEq

def PAGE : UInt64 := 0x1000
def MIN_REGION : UInt64 := 64 * 1024

structure BumpAllocator where
  hhdm : UInt64
  start : UInt64
  cursor : UInt64
  «end» : UInt64
  deriving DecidableEq

namespace BumpAllocator

/-- One turn of the loop of `from_memmap`. -/
def better (best : Option MemmapEntry) (entry : MemmapEntry) : Option MemmapEntry :=
  if entry.kind ≠ MEMMAP_USABLE then best
  else
    match best with
    | none => some entry
    | some current => if entry.length > current.length then some entry else best

/-- The longest usable entry, the first one of that length. -/
def longestUsable (entries : List MemmapEntry) : Option MemmapEntry := entries.foldl better none

def fromMemmap (hhdm : UInt64) (entries : List MemmapEntry) : Option BumpAllocator :=
  match longestUsable entries with
  | none => none
  | some entry =>
    let start := saturatingAdd entry.base (PAGE - 1) &&& ~~~(PAGE - 1)
    let start := if start < PAGE then PAGE else start
    let «end» := saturatingAdd entry.base entry.length
    if saturatingSub «end» start < MIN_REGION then none
    else some ⟨hhdm, start, start, «end»⟩

def virt (self : BumpAllocator) (phys : UInt64) : UInt64 := self.hhdm + phys

/-- `alloc_pages`, with the physical address of the grant; the source also returns its `virt`. -/
def allocPages (self : BumpAllocator) (pages : UInt64) : Option (UInt64 × BumpAllocator) :=
  match checkedMul pages PAGE with
  | none => none
  | some size =>
    let cursor := saturatingAdd self.cursor (PAGE - 1) &&& ~~~(PAGE - 1)
    match checkedAdd cursor size with
    | none => none
    | some next => if next > self.end then none else some (cursor, { self with cursor := next })

/-- What an allocator keeps: whole pages, from the second page of memory on. -/
structure Wf (bump : BumpAllocator) : Prop where
  aligned : bump.cursor.toNat % 4096 = 0
  start : 4096 ≤ bump.start.toNat
  cursor : bump.start.toNat ≤ bump.cursor.toNat
  limit : bump.cursor.toNat ≤ bump.end.toNat

theorem toNat_PAGE : PAGE.toNat = 4096 := rfl

/-- Rounding down to whole pages. -/
theorem toNat_and_not_page (x : UInt64) :
    (x &&& ~~~(PAGE - 1)).toNat = x.toNat / 4096 * 4096 := by
  have hmask : (~~~(PAGE - 1)).toNat = (2 ^ 52 - 1) <<< 12 := by decide
  rw [toNat_and_field 12 52 hmask]
  have := x.toNat_lt
  omega

/-- Rounding up to whole pages, as long as that does not leave the address space. -/
theorem toNat_round_up {x : UInt64} (h : x.toNat + 4095 < 2 ^ 64) :
    (saturatingAdd x (PAGE - 1) &&& ~~~(PAGE - 1)).toNat = (x.toNat + 4095) / 4096 * 4096 := by
  have hlow : (PAGE - 1).toNat = 4095 := by decide
  rw [toNat_and_not_page, saturatingAdd, hlow, if_pos h, UInt64.toNat_add, hlow,
    Nat.mod_eq_of_lt h]

theorem toNat_round_up_mod (x : UInt64) :
    (saturatingAdd x (PAGE - 1) &&& ~~~(PAGE - 1)).toNat % 4096 = 0 := by
  rw [toNat_and_not_page]
  omega

/-- The chosen entry is a usable entry of the memory map. -/
theorem mem_of_longestUsable {entries : List MemmapEntry} {entry : MemmapEntry}
    (h : longestUsable entries = some entry) : entry ∈ entries ∧ entry.kind = MEMMAP_USABLE := by
  refine List.foldlRecOn (motive := fun best => ∀ e, best = some e →
    e ∈ entries ∧ e.kind = MEMMAP_USABLE) entries _ (fun e he => ?_) (fun best hbest a ha e he => ?_)
    entry h
  · cases he
  unfold better at he
  split at he
  · exact hbest e he
  rename_i hkind
  split at he
  · obtain rfl := Option.some.inj he
    exact ⟨ha, not_not.1 hkind⟩
  · split at he
    · obtain rfl := Option.some.inj he
      exact ⟨ha, not_not.1 hkind⟩
    · exact hbest e he

/-- No usable entry is longer than the chosen one. -/
theorem le_longestUsable {entries : List MemmapEntry} {entry : MemmapEntry}
    (h : longestUsable entries = some entry) {e : MemmapEntry} (he : e ∈ entries)
    (hkind : e.kind = MEMMAP_USABLE) : e.length.toNat ≤ entry.length.toNat := by
  -- over the entries still to come, with the best one so far
  suffices hall : ∀ (rest : List MemmapEntry) (best : Option MemmapEntry),
      rest.foldl better best = some entry →
      (∀ b, best = some b → b.length.toNat ≤ entry.length.toNat) ∧
        ∀ e ∈ rest, e.kind = MEMMAP_USABLE → e.length.toNat ≤ entry.length.toNat from
    (hall entries none h).2 e he hkind
  intro rest
  induction rest with
  | nil =>
    intro best hbest
    obtain rfl : best = some entry := hbest
    exact ⟨fun b hb => Nat.le_of_eq (by rw [Option.some.inj hb]), nofun⟩
  | cons first rest ih =>
    intro best hbest
    obtain ⟨hstep, hrest⟩ := ih _ hbest
    unfold better at hstep
    by_cases hfirst : first.kind ≠ MEMMAP_USABLE
    · rw [if_pos hfirst] at hstep
      exact ⟨hstep, List.forall_mem_cons.2 ⟨fun hk => absurd hk hfirst, hrest⟩⟩
    · rw [if_neg hfirst] at hstep
      cases best with
      | none => exact ⟨nofun, List.forall_mem_cons.2 ⟨fun _ => hstep first rfl, hrest⟩⟩
      | some current =>
        dsimp only at hstep
        by_cases hlonger : first.length > current.length
        · rw [if_pos hlonger] at hstep
          have hle := hstep first rfl
          refine ⟨fun b hb => ?_, List.forall_mem_cons.2 ⟨fun _ => hle, hrest⟩⟩
          obtain rfl := Option.some.inj hb
          have hlt := UInt64.lt_iff_toNat_lt.1 hlonger
          omega
        · rw [if_neg hlonger] at hstep
          refine ⟨hstep, List.forall_mem_cons.2 ⟨fun _ => ?_, hrest⟩⟩
          have hle := hstep current rfl
          rw [gt_iff_lt, UInt64.lt_iff_toNat_lt] at hlonger
          omega

/-- What the allocator takes from the memory map: the rest of the longest usable entry from a page
boundary on, without rounding its end. -/
theorem fromMemmap_longest {hhdm : UInt64} {entries : List MemmapEntry} {bump : BumpAllocator}
    (h : fromMemmap hhdm entries = some bump) :
    ∃ entry, longestUsable entries = some entry ∧ bump.hhdm = hhdm ∧ bump.cursor = bump.start ∧
      bump.end = saturatingAdd entry.base entry.length ∧
      (saturatingAdd entry.base (PAGE - 1) &&& ~~~(PAGE - 1)).toNat ≤ bump.start.toNat ∧
      bump.start.toNat + 65536 ≤ bump.end.toNat := by
  unfold fromMemmap at h
  split at h
  · cases h
  rename_i entry hentry
  dsimp only at h
  generalize hup : saturatingAdd entry.base (PAGE - 1) &&& ~~~(PAGE - 1) = up at h
  have hle : up.toNat ≤ (if up < PAGE then PAGE else up).toNat := by
    split
    · rename_i hlt
      exact Nat.le_of_lt (UInt64.lt_iff_toNat_lt.1 hlt)
    · exact Nat.le_refl _
  generalize (if up < PAGE then PAGE else up) = start at hle h
  split at h
  · cases h
  rename_i hroom
  obtain rfl := Option.some.inj h
  refine ⟨entry, hentry, rfl, rfl, rfl, hup ▸ hle, ?_⟩
  have hmin : MIN_REGION.toNat = 65536 := rfl
  rw [UInt64.lt_iff_toNat_lt, hmin, saturatingSub] at hroom
  split at hroom
  · rename_i hend
    rw [UInt64.toNat_sub_of_le _ _ hend] at hroom
    have hle := UInt64.le_iff_toNat_le.1 hend
    show start.toNat + 65536 ≤ (saturatingAdd entry.base entry.length).toNat
    omega
  · exact absurd (by decide : (0 : UInt64).toNat < 65536) hroom

theorem fromMemmap_entry {hhdm : UInt64} {entries : List MemmapEntry} {bump : BumpAllocator}
    (h : fromMemmap hhdm entries = some bump) :
    ∃ entry ∈ entries, entry.kind = MEMMAP_USABLE ∧ bump.hhdm = hhdm ∧
      bump.end = saturatingAdd entry.base entry.length ∧
      (saturatingAdd entry.base (PAGE - 1) &&& ~~~(PAGE - 1)).toNat ≤ bump.start.toNat := by
  obtain ⟨entry, hentry, hhhdm, -, hend, hstart, -⟩ := fromMemmap_longest h
  obtain ⟨hmem, hkind⟩ := mem_of_longestUsable hentry
  exact ⟨entry, hmem, hkind, hhhdm, hend, hstart⟩

theorem fromMemmap_wf {hhdm : UInt64} {entries : List MemmapEntry} {bump : BumpAllocator}
    (h : fromMemmap hhdm entries = some bump) : bump.Wf := by
  unfold fromMemmap at h
  split at h
  · cases h
  rename_i entry _
  dsimp only at h
  have hmod := toNat_round_up_mod entry.base
  generalize saturatingAdd entry.base (PAGE - 1) &&& ~~~(PAGE - 1) = up at hmod h
  have hstart : (if up < PAGE then PAGE else up).toNat % 4096 = 0 ∧
      4096 ≤ (if up < PAGE then PAGE else up).toNat := by
    split
    · exact ⟨by decide, by decide⟩
    · rename_i hup
      rw [UInt64.lt_iff_toNat_lt, toNat_PAGE] at hup
      exact ⟨hmod, by omega⟩
  generalize (if up < PAGE then PAGE else up) = start at hstart h
  split at h
  · cases h
  rename_i hroom
  obtain rfl := Option.some.inj h
  refine ⟨hstart.1, hstart.2, Nat.le_refl _, ?_⟩
  -- a region that ends before it starts has no room
  by_contra hle
  refine hroom ?_
  rw [saturatingSub, if_neg (fun h => hle (UInt64.le_iff_toNat_le.1 h))]
  decide

/-- The cursor needs no rounding. -/
theorem Wf.round_cursor {self : BumpAllocator} (h : self.Wf) :
    saturatingAdd self.cursor (PAGE - 1) &&& ~~~(PAGE - 1) = self.cursor := by
  have haligned := h.aligned
  have hlt := self.cursor.toNat_lt
  rw [← UInt64.toNat_inj, toNat_round_up (by omega)]
  omega

/-- **A grant is the next whole pages.** -/
theorem allocPages_spec {self next : BumpAllocator} {pages phys : UInt64} (h : self.Wf)
    (hsome : self.allocPages pages = some (phys, next)) :
    phys = self.cursor ∧ next = { self with cursor := next.cursor } ∧ next.Wf ∧
      next.cursor.toNat = phys.toNat + pages.toNat * 4096 := by
  unfold allocPages at hsome
  rw [h.round_cursor] at hsome
  split at hsome
  · cases hsome
  rename_i size hsize
  rw [checkedMul_eq_some, toNat_PAGE] at hsize
  dsimp only at hsome
  split at hsome
  · cases hsome
  rename_i cursor hcursor
  rw [checkedAdd_eq_some] at hcursor
  split at hsome
  · cases hsome
  rename_i hend
  obtain ⟨rfl, rfl⟩ := Prod.mk.inj (Option.some.inj hsome)
  have hle : cursor.toNat ≤ self.end.toNat := by
    rw [gt_iff_lt, UInt64.lt_iff_toNat_lt] at hend
    omega
  have haligned := h.aligned
  have hstart := h.cursor
  refine ⟨rfl, rfl, ⟨?_, h.start, ?_, hle⟩, ?_⟩
  · show cursor.toNat % 4096 = 0
    omega
  · show self.start.toNat ≤ cursor.toNat
    omega
  · show cursor.toNat = _
    omega

/-- An allocator after some further grants. -/
inductive Allocs : BumpAllocator → BumpAllocator → Prop where
  | refl (bump : BumpAllocator) : Allocs bump bump
  | step {bump mid next : BumpAllocator} {pages phys : UInt64} : Allocs bump mid →
      mid.allocPages pages = some (phys, next) → Allocs bump next

theorem Allocs.trans {bump mid next : BumpAllocator} (h : Allocs bump mid) (h' : Allocs mid next) :
    Allocs bump next := by
  induction h' with
  | refl => exact h
  | step _ halloc ih => exact .step ih halloc

theorem Allocs.spec {bump next : BumpAllocator} (h : Allocs bump next) (hwf : bump.Wf) :
    next.Wf ∧ next = { bump with cursor := next.cursor } ∧
      bump.cursor.toNat ≤ next.cursor.toNat := by
  induction h with
  | refl => exact ⟨hwf, rfl, Nat.le_refl _⟩
  | step _ halloc ih =>
    obtain ⟨hmid, hbump, hle⟩ := ih
    obtain ⟨hphys, hnext, hwf', hcursor⟩ := allocPages_spec hmid halloc
    refine ⟨hwf', by rw [hnext, hbump], ?_⟩
    rw [hphys] at hcursor
    omega

/-! ## Runs -/

/-- One call, with the address it returns.  A call that fails has stored nothing. -/
def step (self : BumpAllocator) (pages : UInt64) : Option UInt64 × BumpAllocator :=
  match self.allocPages pages with
  | some (phys, next) => (some phys, next)
  | none => (none, self)

/-- The allocator and its calls. -/
def machine (bump : BumpAllocator) : Machine BumpAllocator UInt64 (Option UInt64) := ⟨bump, step⟩

/-- The byte lies in the pages that a call returned. -/
def Granted (call : UInt64 × Option UInt64) (a : Nat) : Prop :=
  ∃ phys, call.2 = some phys ∧ phys.toNat ≤ a ∧ a < phys.toNat + call.1.toNat * 4096

/-- A call fails only if the pages are not there. -/
theorem allocPages_none {self : BumpAllocator} {pages : UInt64} (h : self.Wf)
    (hnone : self.allocPages pages = none) :
    (self.end.toNat - self.cursor.toNat) / 4096 < pages.toNat := by
  have hlt := self.end.toNat_lt
  have hlimit := h.limit
  have haligned := h.aligned
  unfold allocPages at hnone
  rw [h.round_cursor] at hnone
  split at hnone
  · rename_i hmul
    rw [checkedMul_eq_none, toNat_PAGE] at hmul
    omega
  rename_i size hsize
  rw [checkedMul_eq_some, toNat_PAGE] at hsize
  dsimp only at hnone
  split at hnone
  · rename_i hadd
    rw [checkedAdd_eq_none] at hadd
    omega
  rename_i next hnext
  rw [checkedAdd_eq_some] at hnext
  split at hnone
  · rename_i hend
    rw [gt_iff_lt, UInt64.lt_iff_toNat_lt] at hend
    omega
  · cases hnone

/-- There is a page if there is room for one. -/
theorem allocPages_one_ne_none {self : BumpAllocator} (h : self.Wf)
    (hroom : self.cursor.toNat + 4096 ≤ self.end.toNat) : self.allocPages 1 ≠ none := by
  intro hnone
  have hfew := allocPages_none h hnone
  have hone : UInt64.toNat 1 = 1 := rfl
  omega

/-- The allocator works on the rest of an entry.  Its end is the end of the entry, or the last
address. -/
structure Serves (entry : MemmapEntry) (bump : BumpAllocator) : Prop extends bump.Wf where
  base : entry.base.toNat ≤ bump.start.toNat
  ends : bump.end.toNat = min (entry.base.toNat + entry.length.toNat) (2 ^ 64 - 1)

/-- So does a new allocator: an entry so close to the last address that rounding up would saturate
has no room. -/
theorem serves_fromMemmap {hhdm : UInt64} {entries : List MemmapEntry} {bump : BumpAllocator}
    (h : fromMemmap hhdm entries = some bump) :
    ∃ entry, longestUsable entries = some entry ∧ bump.Serves entry := by
  obtain ⟨entry, hentry, -, -, hend, hstart, hroom⟩ := fromMemmap_longest h
  refine ⟨entry, hentry, fromMemmap_wf h, ?_, ?_⟩
  · have hlt := bump.end.toNat_lt
    have hlow : (PAGE - 1).toNat = 4095 := by decide
    rw [toNat_and_not_page, toNat_saturatingAdd, hlow] at hstart
    omega
  · rw [hend, toNat_saturatingAdd]

/-- What one call does. -/
theorem Serves.step {entry : MemmapEntry} {self : BumpAllocator} (h : self.Serves entry)
    (pages : UInt64) :
    (self.step pages).2.Serves entry ∧
    ((self.step pages).1 = none ∧ (self.step pages).2 = self ∧
        (self.end.toNat - self.cursor.toNat) / 4096 < pages.toNat ∨
      (self.step pages).1 = some self.cursor ∧
        (self.step pages).2.cursor.toNat = self.cursor.toNat + pages.toNat * 4096) := by
  unfold BumpAllocator.step
  split
  · rename_i phys next halloc
    obtain ⟨rfl, hnext, hwf, hcursor⟩ := allocPages_spec h.toWf halloc
    refine ⟨⟨hwf, ?_, ?_⟩, Or.inr ⟨rfl, hcursor⟩⟩
    · rw [hnext]
      exact h.base
    · rw [hnext]
      exact h.ends
  · rename_i halloc
    exact ⟨h, Or.inl ⟨rfl, rfl, allocPages_none h.toWf halloc⟩⟩

/-- What a run returns lies at or above the cursor. -/
theorem Serves.above {entry : MemmapEntry} {self bump : BumpAllocator} (h : self.Serves entry)
    (calls : List UInt64) {call : UInt64 × Option UInt64} {a : Nat}
    (hcall : call ∈ (machine bump).log self calls) (ha : Granted call a) : self.cursor.toNat ≤ a := by
  induction calls generalizing self with
  | nil => cases hcall
  | cons pages calls ih =>
    obtain ⟨hnext, hstep⟩ := h.step pages
    rcases List.mem_cons.1 hcall with rfl | hcall
    · obtain ⟨phys, hphys, hle, -⟩ := ha
      rcases hstep with ⟨hnone, -, -⟩ | ⟨hsome, -⟩
      · cases hnone.symm.trans hphys
      · obtain rfl := Option.some.inj (hsome.symm.trans hphys)
        exact hle
    · have hle := ih hnext hcall
      rcases hstep with ⟨-, hsame, -⟩ | ⟨-, hcursor⟩
      · exact hsame ▸ hle
      · have hle : (self.step pages).2.cursor.toNat ≤ a := hle
        omega

/-- No two calls of a run return the same byte. -/
theorem Serves.disjoint {entry : MemmapEntry} {self bump : BumpAllocator} (h : self.Serves entry)
    (calls : List UInt64) :
    ((machine bump).log self calls).Pairwise fun c d => ∀ a, Granted c a → ¬ Granted d a := by
  induction calls generalizing self with
  | nil => exact .nil
  | cons pages calls ih =>
    obtain ⟨hnext, hstep⟩ := h.step pages
    refine List.pairwise_cons.2 ⟨fun d hd a ha had => ?_, ih hnext⟩
    have hle : (self.step pages).2.cursor.toNat ≤ a := hnext.above calls hd had
    obtain ⟨phys, hphys, -, hlt⟩ := ha
    rcases hstep with ⟨hnone, -, -⟩ | ⟨hsome, hcursor⟩
    · cases hnone.symm.trans hphys
    · obtain rfl := Option.some.inj (hsome.symm.trans hphys)
      have hlt : a < self.cursor.toNat + pages.toNat * 4096 := hlt
      omega

/-- **The allocator hands out disjoint usable pages.**  A call fails only if there are not so many
pages before the end of the entry, where an entry that reaches the end of the address space ends one
byte before it. -/
theorem allocator_disjoint_usable {hhdm : UInt64} {entries : List MemmapEntry} {bump : BumpAllocator}
    (h : fromMemmap hhdm entries = some bump) :
    ∃ entry ∈ entries, entry.kind = MEMMAP_USABLE ∧
      (∀ e ∈ entries, e.kind = MEMMAP_USABLE → e.length.toNat ≤ entry.length.toNat) ∧
      ∀ calls : List UInt64,
        ((machine bump).log bump calls).Pairwise (fun c d => ∀ a, Granted c a → ¬ Granted d a) ∧
        let self := (machine bump).run bump calls
        ∀ pages : UInt64,
          (∀ phys, (self.step pages).1 = some phys →
            phys.toNat % 4096 = 0 ∧ phys ≠ 0 ∧ entry.base.toNat ≤ phys.toNat ∧
            phys.toNat + pages.toNat * 4096 ≤ entry.base.toNat + entry.length.toNat ∧
            (self.step pages).2.cursor.toNat = phys.toNat + pages.toNat * 4096) ∧
          ((self.step pages).1 = none → (self.step pages).2 = self ∧
            (min (entry.base.toNat + entry.length.toNat) (2 ^ 64 - 1) - self.cursor.toNat) / 4096 <
              pages.toNat) := by
  obtain ⟨entry, hentry, hserves⟩ := serves_fromMemmap h
  obtain ⟨hmem, hkind⟩ := mem_of_longestUsable hentry
  refine ⟨entry, hmem, hkind, fun e he hk => le_longestUsable hentry he hk, fun calls => ?_⟩
  refine ⟨hserves.disjoint calls, ?_⟩
  dsimp only
  intro pages
  have hself : ((machine bump).run bump calls).Serves entry :=
    (machine bump).run_invariant (fun self pages hself => (hself.step pages).1) hserves calls
  generalize (machine bump).run bump calls = self at hself
  obtain ⟨hnext, hstep⟩ := hself.step pages
  rcases hstep with ⟨hnone, hsame, hfew⟩ | ⟨hsome, hcursor⟩
  · refine ⟨fun phys hphys => ?_, fun _ => ⟨hsame, hself.ends ▸ hfew⟩⟩
    cases hnone.symm.trans hphys
  · refine ⟨fun phys hphys => ?_, fun hnone => ?_⟩
    · obtain rfl := Option.some.inj (hsome.symm.trans hphys)
      have hstart := hself.start
      have hle := hself.cursor
      have hbase := hself.base
      have hlimit := hnext.limit
      have hends := hnext.ends
      refine ⟨hself.aligned, fun hzero => ?_, by omega, by omega, hcursor⟩
      rw [hzero] at hle
      have hzero : (0 : UInt64).toNat = 0 := rfl
      omega
    · cases hnone.symm.trans hsome

/-- An unaligned entry at the start of memory: page zero is skipped. -/
def lowEntry : MemmapEntry := ⟨0x10, 0x20000, MEMMAP_USABLE⟩

theorem allocator_disjoint_usable_low :
    ∃ bump, fromMemmap 0 [lowEntry] = some bump ∧
      ((machine bump).log bump [1, 2]).Pairwise (fun c d => ∀ a, Granted c a → ¬ Granted d a) := by
  have h : fromMemmap 0 [lowEntry] = some ⟨0, 0x1000, 0x1000, 0x20010⟩ := by decide
  obtain ⟨entry, -, -, -, hcalls⟩ := allocator_disjoint_usable h
  exact ⟨_, h, (hcalls [1, 2]).1⟩

/-- An entry of 32 pages that ends at `2^64`. -/
def lastEntry : MemmapEntry := ⟨0xfffffffffffe0000, 0x20000, MEMMAP_USABLE⟩

/-- Its last page is never handed out: the call for all its pages fails. -/
theorem last_page_unavailable :
    ∃ bump, fromMemmap 0 [lastEntry] = some bump ∧ bump.cursor = lastEntry.base ∧
      (lastEntry.base.toNat + lastEntry.length.toNat - bump.cursor.toNat) / 4096 = 32 ∧
      (bump.step 32).1 = none := by
  refine ⟨⟨0, 0xfffffffffffe0000, 0xfffffffffffe0000, 0xffffffffffffffff⟩, by decide, rfl, ?_, ?_⟩
  · decide
  · decide

end BumpAllocator

end RootCourt

end CourtKernel
