import CourtKernel.RootCourt.Tables

/-!
# Mapping pages

What the methods of `Mapper` do to the tables, one specification for each: whether they succeed or
fail they move the tables of their PML4, and they change at most the translations of the pages they
are asked to map.

* `ensureTable_spec` — a table is found or made, and no translation changes.
* `map4k_spec`, `map2m_spec` — one leaf.
* `mapRange_tries` — the loop: on success every page of the range has its frame; if it stops midway,
  the first pages of the range have, and no other page changed.  `mapRange_spec` says less.

Pages are counted modulo `2^36` and frames modulo `2^40`, as the hardware looks at them, so that the
specifications need no assumption about ranges that wrap.
-/

namespace CourtKernel

namespace RootCourt

open Radix (walk)
open Place (shape)

/-- The indices `path` lead from the PML4 `r` to the table `t`. -/
inductive Leads (w : World) (r : Nat) : List Nat → Nat → Prop where
  | root : w.place r = some (.pml4 r) → Leads w r [] r
  | down {path : List Nat} {t i next : Nat} : Leads w r path t →
      w.place next = some (spot r (path ++ [i])) →
      slots w.mem (shape.level (spot r path)) t i = .table next →
      Leads w r (path ++ [i]) next

namespace Leads

variable {w w' : World} {r t : Nat} {path : List Nat}

theorem place_eq (h : Leads w r path t) : w.place t = some (spot r path) := by
  cases h with
  | root h => exact h
  | down _ h _ => exact h

theorem moved {r' : Nat} {S : Nat → Prop} (h : Leads w r path t) (hm : Moved w r' S w') :
    Leads w' r path t := by
  induction h with
  | root h => exact .root (hm.step.kept _ _ h)
  | down hlead hnext hslot ih =>
    exact .down ih (hm.step.kept _ _ hnext) (hm.slot hlead.place_eq hslot (by simp))

/-- A walk along the path goes on from the table. -/
theorem walk (h : Leads w r path t) : ∀ is : List Nat, path.length + is.length = 4 →
    Radix.walk (slots w.mem) r (path ++ is) = Radix.walk (slots w.mem) t is := by
  induction h with
  | root _ => intro is _; rfl
  | @down path t i next _ _ hslot ih =>
    intro is hlen
    rw [List.length_append, List.length_singleton] at hlen
    rw [level_spot, show 3 - path.length = is.length by omega] at hslot
    rw [List.append_assoc, List.singleton_append, ih (i :: is) (by rw [List.length_cons]; omega),
      Radix.walk, hslot]

/-- A leaf at the end of the path is found, whatever the indices it spans. -/
theorem leaf (h : Leads w r path t) {i : Nat} {e : UInt64}
    (hs : slots w.mem (shape.level (spot r path)) t i = .leaf e) (is : List Nat)
    (hlen : path.length + is.length = 3) :
    Radix.walk (slots w.mem) r (path ++ i :: is) = some (e, is) := by
  rw [level_spot, show 3 - path.length = is.length by omega] at hs
  rw [h.walk (i :: is) (by rw [List.length_cons]; omega), Radix.walk, hs]

end Leads

/-- The world of a mapper, with the places of the table pages. -/
def Mapper.world (s : Mapper) (place : Nat → Option Place) : World := ⟨place, s.mem, s.bump⟩

/-- The `n` pages from `v` on. -/
def Range (v n v' : Nat) : Prop := ∃ k < n, v' = (v + k) % 2 ^ 36

/-- The `n` pages from `v` on show the frames from `f` on. -/
def Shows (m : Memory) (r v f n : Nat) : Prop :=
  ∀ k < n, frameAt m r ((v + k) % 2 ^ 36) = some ((f + k * 4096) % 2 ^ 52)

/-- What a method of a mapper does to its state. -/
structure Mapper.Moves (s : Mapper) (place : Nat → Option Place) (r : Nat) (S : Nat → Prop)
    (s' : Mapper) (place' : Nat → Option Place) : Prop where
  moved : Moved (s.world place) r S (s'.world place')
  pml4Phys : s'.pml4Phys = s.pml4Phys
  quiet : Quiet (s.world place) (s'.world place')

namespace Mapper

variable {s s₁ s₂ : Mapper} {place place₁ place₂ : Nat → Option Place}
  {r : Nat} {S : Nat → Prop}

theorem Moves.refl (h : Tables (s.world place)) : s.Moves place r S s place :=
  ⟨.refl h, rfl, fun _ _ => rfl⟩

theorem Moves.trans (h₁ : s.Moves place r S s₁ place₁)
    (h₂ : s₁.Moves place₁ r S s₂ place₂) : s.Moves place r S s₂ place₂ :=
  ⟨h₁.1.trans h₂.1, h₂.2.trans h₁.2, h₁.quiet.trans h₂.quiet h₂.1.step⟩

theorem Moves.mono {S' : Nat → Prop} (h : s.Moves place r S s₁ place₁) (hsub : ∀ v, S v → S' v) :
    s.Moves place r S' s₁ place₁ :=
  ⟨h.1.mono hsub, h.2, h.quiet⟩

/-- The mapper works on tables of which its PML4 `r` is one. -/
structure Ready (s : Mapper) (place : Nat → Option Place) (r : Nat) : Prop where
  tables : Tables (s.world place)
  root : place r = some (.pml4 r)
  pml4 : s.pml4Phys.toNat = r

theorem Ready.moves (h : s.Ready place r) (hm : s.Moves place r S s₁ place₁) :
    s₁.Ready place₁ r :=
  ⟨hm.1.step.tables, hm.1.step.kept _ _ h.root, by rw [hm.2, h.pml4]⟩

/-- Mapping `n` pages from `v` on to the frames from `f` on: on success they show these frames, and
in any case nothing else changes. -/
def Maps (s : Mapper) (place : Nat → Option Place) (r v f n : Nat) (x : Prog Mapper Unit) : Prop :=
  wp x (fun _ s' => ∃ place', s.Moves place r (Range v n) s' place' ∧ Shows s'.mem r v f n)
    (fun _ s' => ∃ place', s.Moves place r (Range v n) s' place') s

/-- The first pages of a range show their frames, and no other page changed. -/
def Partly (m : Memory) (r v f n : Nat) (m' : Memory) : Prop :=
  ∃ done ≤ n, Shows m' r v f done ∧
    ∀ v' < 2 ^ 36, ¬ Range v done v' → frameAt m' r v' = frameAt m r v'

/-- Mapping `n` pages from `v` on, one after the other: if that fails, some of them are mapped. -/
def Tries (s : Mapper) (place : Nat → Option Place) (r v f n : Nat) (x : Prog Mapper Unit) : Prop :=
  wp x (fun _ s' => ∃ place', s.Moves place r (Range v n) s' place' ∧ Shows s'.mem r v f n)
    (fun _ s' => ∃ place', s.Moves place r (Range v n) s' place' ∧ Partly s.mem r v f n s'.mem) s

theorem Tries.maps {x : Prog Mapper Unit} {v f n : Nat} (h : Tries s place r v f n x) :
    Maps s place r v f n x := by
  refine wp_mono h (fun _ _ h => h) ?_
  rintro e s' ⟨place', hm, -⟩
  exact ⟨place', hm⟩

/-- Nothing is mapped yet. -/
theorem Partly.of_frame {v f n : Nat} (h : s.Ready place r)
    (hframe : Frame (s.world place) (s₁.world place₁) r fun _ => False) :
    Partly s.mem r v f n s₁.mem :=
  ⟨0, Nat.zero_le n, fun k hk => absurd hk (Nat.not_lt_zero k),
    fun _ hv _ => hframe.frameAt_eq h.root hv fun hseen => hseen.1⟩

theorem allocTable_spec (hwf : s.bump.Wf) :
    wp allocTable (fun phys s' => phys = s.bump.cursor ∧
      s'.mem = s.mem.fill phys.toNat 4096 0 ∧ s'.bump.Wf ∧
      s'.bump = { s.bump with cursor := s'.bump.cursor } ∧
      s'.bump.cursor.toNat = phys.toNat + 4096 ∧ s'.pml4Phys = s.pml4Phys)
      (fun _ s' => s' = s ∧ s.bump.allocPages 1 = none) s := by
  unfold allocTable
  rw [wp_bind, wp_get]
  cases halloc : s.bump.allocPages 1 with
  | none =>
    rw [wp_throw]
    exact ⟨rfl, rfl⟩
  | some grant =>
    obtain ⟨phys, bump⟩ := grant
    obtain ⟨hphys, hbump, hwf', hcursor⟩ := BumpAllocator.allocPages_spec hwf halloc
    rw [wp_bind, wp_modify, wp_pure]
    exact ⟨hphys, rfl, hwf', hbump, hcursor, rfl⟩

/-- A fresh table is empty, and can be given any place. -/
theorem allocTable_place (h : Tables (s.world place)) (r : Nat) (S : Nat → Prop) (p : Place) :
    wp allocTable (fun phys s' => ∃ place', s.Moves place r S s' place' ∧
        phys = s.bump.cursor ∧ place' phys.toNat = some p ∧ phys.toNat % 4096 = 0 ∧
        phys.toNat < 2 ^ 52 ∧
        (∀ k j, slots s'.mem k phys.toNat j = .absent) ∧
        (∀ n p', place n = some p' → n < phys.toNat ∧
          ∀ k j, slots s'.mem k n j = slots s.mem k n j) ∧
        (∀ n p', place' n = some p' → place n = some p' ∨ n = phys.toNat ∧ p' = p) ∧
        s'.bump.cursor.toNat = phys.toNat + 4096)
      (fun _ s' => s' = s ∧ s.bump.allocPages 1 = none) s := by
  refine wp_mono (allocTable_spec h.bump) ?_ fun _ _ he => he
  rintro phys s' ⟨hphys, hmem, hwf, hbump, hcursor, hpml4⟩
  have hempty : ∀ k j, slots s'.mem k phys.toNat j = .absent := fun k j => by
    rw [hmem]
    exact slots_zero fun a h1 h2 => Memory.fill_of_mem h1 h2
  have hbelow : ∀ a, a < phys.toNat → s'.mem a = s.mem a := fun a ha => by
    rw [hmem]
    exact Memory.fill_of_disjoint (by omega)
  have hmoved : Moved (s.world place) r S
      (s'.world (Function.update place phys.toNat (some p))) := by
    refine Moved.table h hphys hwf hbump hcursor hbelow fun i next hs => ?_
    rw [hempty] at hs
    cases hs
  have hquiet : Quiet (s.world place) (s'.world (Function.update place phys.toNat (some p))) := by
    intro a ha
    have hout := ha phys.toNat p (Function.update_self _ _ _)
    show s'.mem a = s.mem a
    rw [hmem]
    exact Memory.fill_of_disjoint (by omega)
  refine ⟨_, ⟨hmoved, hpml4, hquiet⟩, hphys, Function.update_self _ _ _, hphys ▸ h.bump.aligned, ?_, hempty,
    fun n p' hn => ?_, fun n p' hn => ?_, hcursor⟩
  · have hlimit : s'.bump.cursor.toNat ≤ s'.bump.end.toNat := hwf.limit
    have hwidth : s'.bump.end.toNat ≤ 2 ^ 52 := hmoved.step.tables.width
    omega
  · have hpage : n + 4096 ≤ s.bump.cursor.toNat := (h.page n p' hn).2.2
    rw [← hphys] at hpage
    exact ⟨by omega, fun k j => slots_congr fun a h1 h2 => hbelow a (by omega)⟩
  · by_cases hnew : n = phys.toNat
    · rw [hnew, Function.update_self] at hn
      exact Or.inr ⟨hnew, (Option.some.inj hn).symm⟩
    · rw [Function.update_of_ne hnew] at hn
      exact Or.inl hn

/-- What `ensure_table` does to the slot `i` of the table `t`: it names the table `next`, for which a
page was taken if the slot was absent. -/
structure Hung (s : Mapper) (place : Nat → Option Place) (r : Nat) (path : List Nat) (t i : Nat)
    (next : UInt64) (s' : Mapper) (place' : Nat → Option Place) : Prop where
  slot : ∀ k, 0 < k → slots s'.mem k t i = .table next.toNat
  others : ∀ n p j, place n = some p → n ≠ t ∨ j ≠ i →
    ∀ k, slots s'.mem k n j = slots s.mem k n j
  places : ∀ n p, place' n = some p → place n = some p ∨ p = spot r (path ++ [i])
  pages : (slots s.mem (shape.level (spot r path)) t i = .table next.toNat ∧
      s'.bump.cursor = s.bump.cursor) ∨
    (slots s.mem (shape.level (spot r path)) t i = .absent ∧
      s'.bump.cursor.toNat = s.bump.cursor.toNat + 4096)

/-- **A table is found or made, and no translation changes.**  The call fails on a large page, and if
a new table is needed and there is no page left. -/
theorem ensureTable_spec (h : Tables (s.world place)) {t : UInt64} {i : Nat} {path : List Nat}
    (ht : Leads (s.world place) r path t.toNat) (hl : path.length < 3)
    (hi : i < 512) (hopen : path = [] → ∃ v, S v ∧ v / 2 ^ 27 % 512 = i) :
    wp (ensureTable t i) (fun next s' => ∃ place', s.Moves place r S s' place' ∧
        Frame (s.world place) (s'.world place') r (fun _ => False) ∧
        Leads (s'.world place') r (path ++ [i]) next.toNat ∧
        Hung s place r path t.toNat i next s' place')
      (fun _ s' => s' = s ∧ (s.mem.readU64 (slotAddr t i) &&& PRESENT ≠ 0 ∧
          s.mem.readU64 (slotAddr t i) &&& HUGE ≠ 0 ∨
        slots s.mem (shape.level (spot r path)) t.toNat i = .absent ∧
          s.bump.allocPages 1 = none)) s := by
  have hpos : 0 < shape.level (spot r path) := by
    rw [level_spot]
    omega
  have hslots := fun k => slots_eq s.mem k t hi
  unfold ensureTable readEntry
  simp only [wp_bind, wp_get, wp_pure]
  generalize s.mem.readU64 (slotAddr t i) = current at hslots ⊢
  rw [wp_ite]
  refine ⟨fun hpresent => ?_, fun habsent => ?_⟩
  · rw [wp_ite]
    refine ⟨fun hhuge => (wp_throw _).2 ⟨rfl, Or.inl ⟨hpresent, hhuge⟩⟩, fun hhuge => ?_⟩
    rw [not_not] at hhuge
    have hslot := fun k hk => (hslots k).trans (decode_table hk hpresent hhuge)
    have hnext := (h.placed _ _ _ _ ht.place_eq (hslot _ hpos)).2
    rw [wp_pure]
    exact ⟨place, .refl h, .of_same fun _ _ _ _ _ => rfl,
      .down ht (by rw [spot_concat]; exact hnext) (hslot _ hpos), hslot, fun _ _ _ _ _ _ => rfl,
      fun _ _ hn => Or.inl hn, Or.inl ⟨hslot _ hpos, rfl⟩⟩
  · rw [not_not] at habsent
    have hslot := (hslots (shape.level (spot r path))).trans (decode_absent habsent)
    rw [wp_bind]
    refine wp_mono (allocTable_place h r (fun _ => False) (spot r (path ++ [i]))) ?_
      fun _ _ he => ⟨he.1, Or.inr ⟨hslot, he.2⟩⟩
    rintro next s' ⟨place', hmoves, hcursor, hnew, hpage, hwidth, hempty, hold, hplaces, hpages⟩
    simp only [wp_bind, writeEntry, wp_modify, wp_pure]
    have ht' := (ht.moved hmoves.1).place_eq
    obtain ⟨hlt, hsame⟩ := hold _ _ ht.place_eq
    have hslot' := (hsame _ _).trans hslot
    have hlink := fun k (hk : 0 < k) => decode_link hk hpage hwidth
    have hdown : place' next.toNat = some (shape.down (spot r path) i) := by
      rw [spot_concat] at hnew
      exact hnew
    have hne : next.toNat ≠ t.toNat := Nat.ne_of_gt hlt
    have htables := hmoves.1.step.tables
    have hmoves' : s.Moves place r S
        { s' with mem := s'.mem.writeU64 (slotAddr t i) (next ||| TABLE_FLAGS) } place' :=
      (hmoves.mono fun _ hv => hv.elim).trans
        ⟨Moved.link htables ht' hi hslot' (hlink _ hpos) hpos hdown hne hempty hopen, rfl,
          .write ht' hi⟩
    have hframe : Frame (s.world place) (Mapper.world
        { s' with mem := s'.mem.writeU64 (slotAddr t i) (next ||| TABLE_FLAGS) } place') r
        fun _ => False :=
      hmoves.1.frame.trans hmoves.1.step (.link htables ht' hi hslot' (hlink _ hpos) hdown hne hempty)
    refine ⟨_, hmoves', hframe,
      .down (ht.moved hmoves'.1) hnew ((slots_write_self hi).trans (hlink _ hpos)),
      fun k hk => (slots_write_self hi).trans (hlink k hk), fun n p j hn hnj k => ?_,
      fun n p hn => (hplaces n p hn).imp_right fun hp => hp.2, Or.inr ⟨hslot, ?_⟩⟩
    · have hn' := hmoves.1.step.kept n p hn
      exact (htables.slots_write ht' hi hn' hnj k).trans ((hold n p hn).2 k j)
    · rw [← hcursor]
      exact hpages

theorem digit_lt (v n : Nat) : v / 2 ^ n % 512 < 512 := Nat.mod_lt _ (by decide)

/-- The two tables that a page of either size needs. -/
theorem pageDirectory_spec (h : s.Ready place r) {v : Nat} (hv : S v) {Q : UInt64 → Mapper → Prop}
    {E : String → Mapper → Prop}
    (hQ : ∀ (pd : UInt64) s' place', s.Moves place r S s' place' →
      Frame (s.world place) (s'.world place') r (fun _ => False) →
      Leads (s'.world place') r [v / 2 ^ 27 % 512, v / 2 ^ 18 % 512] pd.toNat → Q pd s')
    (hE : ∀ e s' place', s.Moves place r S s' place' →
      Frame (s.world place) (s'.world place') r (fun _ => False) → E e s') :
    wp (ensureTable s.pml4Phys (v / 2 ^ 27 % 512))
      (fun pdpt s' => wp (ensureTable pdpt (v / 2 ^ 18 % 512)) Q E s') E s := by
  have hroot : Leads (s.world place) r [] s.pml4Phys.toNat := h.pml4 ▸ .root (h.pml4 ▸ h.root)
  refine wp_mono (ensureTable_spec h.tables hroot (by decide) (digit_lt v 27)
    fun _ => ⟨v, hv, rfl⟩) ?_ ?_
  · rintro pdpt s₁ ⟨place₁, hm₁, hf₁, hl₁, -⟩
    refine wp_mono (ensureTable_spec (S := S) hm₁.1.step.tables hl₁
      (Nat.lt_add_one_of_le (by simp)) (digit_lt v 18) (by simp)) ?_ ?_
    · rintro pd s₂ ⟨place₂, hm₂, hf₂, hl₂, -⟩
      exact hQ pd s₂ place₂ (hm₁.trans hm₂) (hf₁.trans hm₁.1.step hf₂) hl₂
    · rintro e s' ⟨rfl, -⟩
      exact hE e s' place₁ hm₁ hf₁
  · rintro e s' ⟨rfl, -⟩
    exact hE e s' place (.refl h.tables) (.of_same fun _ _ _ _ _ => rfl)

/-- Writing a leaf into an absent slot. -/
theorem writeEntry_leaf (h : Tables (s.world place)) {t v : UInt64} {i : Nat} {path : List Nat}
    (ht : Leads (s.world place) r path t.toNat) (hi : i < 512)
    (habsent : s.mem.readU64 (slotAddr t i) &&& PRESENT = 0)
    (hv : decode (shape.level (spot r path)) v = .leaf v) (hne : path ≠ [])
    (hcovers : ∀ v', v' < 2 ^ 36 → path ++ [i] <+: digits v' → S v') :
    wp (writeEntry t i v) (fun _ s' => s.Moves place r S s' place ∧
      Leads (s'.world place) r path t.toNat ∧
      slots s'.mem (shape.level (spot r path)) t.toNat i = .leaf v) (fun _ _ => False) s := by
  have hslot : slots s.mem (shape.level (spot r path)) t.toNat i = .absent := by
    rw [slots_eq s.mem _ t hi, decode_absent habsent]
  have hmoved := Moved.leaf h ht.place_eq hi hslot hv hne hcovers
  rw [writeEntry, wp_modify]
  exact ⟨⟨hmoved, rfl, .write ht.place_eq hi⟩, ht.moved hmoved, (slots_write_self hi).trans hv⟩

theorem shows_page {m : Memory} {r v : Nat} {e phys : UInt64} (hv : v < 2 ^ 36)
    (hphys : phys.toNat % 4096 = 0) (hw : walk (slots m) r (digits v) = some (e, []))
    (he : e &&& PHYS_MASK = phys &&& PHYS_MASK) : Shows m r v phys.toNat 1 := by
  intro k hk
  obtain rfl : k = 0 := by omega
  rw [Nat.add_zero, Nat.mod_eq_of_lt hv, frameAt_page hw, he, toNat_and_PHYS_MASK]
  congr 1
  omega

theorem range_of_digits {v v' : Nat} (hv : v < 2 ^ 36) (hv' : v' < 2 ^ 36)
    (h : digits v <+: digits v') : Range v 1 v' := by
  have hdigits : digits v = digits v' := h.eq_of_length rfl
  exact ⟨0, Nat.one_pos, by rw [digits_inj hv hv' hdigits]; omega⟩

theorem range_self {v n : Nat} (hv : v < 2 ^ 36) (hn : 0 < n) : Range v n v :=
  ⟨0, hn, by omega⟩

/-- **One page.** -/
theorem map4k_spec (h : s.Ready place r) {virt phys : UInt64} (hphys : phys.toNat % 4096 = 0) :
    Tries s place r (pageOf virt) phys.toNat 1 (map4k virt phys) := by
  have hv := pageOf_lt virt
  unfold Tries map4k readEntry
  simp only [wp_bind, wp_get, wp_pure, toNat_pml4Index, toNat_pdptIndex, toNat_pdIndex,
    toNat_ptIndex]
  generalize pageOf virt = v at hv ⊢
  refine pageDirectory_spec h (range_self hv Nat.one_pos) ?_
    fun e s' place' hm hf => ⟨place', hm, .of_frame h hf⟩
  intro pd s₂ place₂ hm₂ hf₂ hl₂
  refine wp_mono (ensureTable_spec (S := Range v 1) hm₂.1.step.tables hl₂ (Nat.lt_succ_self 2)
    (digit_lt v 9) (by simp)) ?_ ?_
  · rintro pt s₃ ⟨place₃, hm₃, hf₃, hl₃, -⟩
    have hm := hm₂.trans hm₃
    have hf := hf₂.trans hm₂.1.step hf₃
    have hi : v % 512 < 512 := Nat.mod_lt _ (by decide)
    rw [wp_ite]
    refine ⟨fun hpresent => ?_, fun habsent => ?_⟩
    · rw [wp_ite]
      refine ⟨fun _ => (wp_throw _).2 ⟨place₃, hm, .of_frame h hf⟩, fun hsame => ?_⟩
      rw [not_not] at hsame
      rw [wp_pure]
      have hleaf := (slots_eq s₃.mem 0 pt hi).trans (decode_present hpresent)
      exact ⟨place₃, hm, shows_page hv hphys (hl₃.leaf hleaf _ rfl) hsame⟩
    · rw [not_not] at habsent
      refine wp_mono (writeEntry_leaf hm₃.1.step.tables hl₃ hi habsent (decode_page phys) (by simp)
        fun v' hv' hp => range_of_digits hv hv' hp) ?_ fun _ _ hf => hf.elim
      rintro ⟨⟩ s₄ ⟨hm₄, hl₄, hleaf⟩
      refine ⟨place₃, hm.trans hm₄, ?_⟩
      exact shows_page hv hphys (hl₄.leaf hleaf _ rfl) (masked_or phys (by decide)).2
  · rintro e s' ⟨rfl, -⟩
    exact ⟨place₂, hm₂, .of_frame h hf₂⟩

theorem digits_huge {v k : Nat} (hv : v % 512 = 0) (hk : k < 512) :
    digits (v + k) = [v / 2 ^ 27 % 512, v / 2 ^ 18 % 512, v / 2 ^ 9 % 512] ++ [k] := by
  simp only [digits, List.cons_append, List.nil_append, List.cons.injEq, and_true]
  omega

theorem shows_huge {m : Memory} {r v : Nat} {e phys : UInt64} (hv : v < 2 ^ 36)
    (hvirt : v % 512 = 0) (hphys : phys.toNat % 2 ^ 21 = 0)
    (hw : ∀ k < 512, walk (slots m) r (digits (v + k)) = some (e, [k]))
    (he : e &&& PHYS_MASK = phys &&& PHYS_MASK) : Shows m r v phys.toNat 512 := by
  intro k hk
  have hmod : (v + k) % 512 = k := by omega
  have hwalk := hw k hk
  nth_rewrite 2 [← hmod] at hwalk
  rw [Nat.mod_eq_of_lt (by omega), frameAt_huge hwalk, he, toNat_and_PHYS_MASK]
  congr 1
  omega

theorem range_of_digits_huge {v v' : Nat} (hv : v < 2 ^ 36) (hv' : v' < 2 ^ 36)
    (hvirt : v % 512 = 0)
    (h : [v / 2 ^ 27 % 512, v / 2 ^ 18 % 512, v / 2 ^ 9 % 512] <+: digits v') :
    Range v 512 v' := by
  obtain ⟨rest, hrest⟩ := h
  simp only [digits, List.cons_append, List.nil_append, List.cons.injEq] at hrest
  exact ⟨v' % 512, Nat.mod_lt _ (by decide), by omega⟩

/-- **One large page.** -/
theorem map2m_spec (h : s.Ready place r) {virt phys : UInt64} (hvirt : virt.toNat % 2 ^ 21 = 0)
    (hphys : phys.toNat % 2 ^ 21 = 0) :
    Tries s place r (pageOf virt) phys.toNat 512 (map2m virt phys) := by
  have hv := pageOf_lt virt
  have hmod : pageOf virt % 512 = 0 := by
    unfold pageOf
    omega
  unfold Tries map2m readEntry
  simp only [wp_bind, wp_get, wp_pure, toNat_pml4Index, toNat_pdptIndex, toNat_pdIndex]
  generalize pageOf virt = v at hv hmod ⊢
  refine pageDirectory_spec h (range_self hv (by decide)) ?_
    fun e s' place' hm hf => ⟨place', hm, .of_frame h hf⟩
  intro pd s₂ place₂ hm hf hl₂
  have hi := digit_lt v 9
  rw [wp_ite]
  refine ⟨fun hpresent => ?_, fun habsent => ?_⟩
  · rw [wp_ite]
    refine ⟨fun _ => (wp_throw _).2 ⟨place₂, hm, .of_frame h hf⟩, fun hhuge => ?_⟩
    rw [wp_ite]
    refine ⟨fun _ => (wp_throw _).2 ⟨place₂, hm, .of_frame h hf⟩, fun hsame => ?_⟩
    rw [not_not] at hsame
    rw [wp_pure]
    have hleaf := (slots_eq s₂.mem 1 pd hi).trans (decode_present_huge hpresent hhuge)
    refine ⟨place₂, hm, shows_huge hv hmod hphys (fun k hk => ?_) hsame⟩
    rw [digits_huge hmod hk]
    exact hl₂.leaf hleaf _ rfl
  · rw [not_not] at habsent
    refine wp_mono (writeEntry_leaf hm.1.step.tables hl₂ hi habsent (decode_huge phys) (by simp)
      fun v' hv' hp => range_of_digits_huge hv hv' hmod hp) ?_ fun _ _ hf => hf.elim
    rintro ⟨⟩ s₃ ⟨hm₃, hl₃, hleaf⟩
    have hsame : ((phys &&& PHYS_MASK) ||| PAGE_FLAGS ||| HUGE) &&& PHYS_MASK = phys &&& PHYS_MASK := by
      rw [UInt64.or_assoc]
      exact (masked_or phys (by decide)).2
    refine ⟨place₂, hm.trans hm₃, shows_huge hv hmod hphys (fun k hk => ?_) hsame⟩
    rw [digits_huge hmod hk]
    exact hl₃.leaf hleaf _ rfl

/-! ## The loop -/

theorem Range.append {v a b v' : Nat} (h : Range ((v + a) % 2 ^ 36) b v') :
    Range v (a + b) v' := by
  obtain ⟨k, hk, hv⟩ := h
  exact ⟨a + k, by omega, by omega⟩

theorem Range.left {v a b v' : Nat} (h : Range v a v') : Range v (a + b) v' := by
  obtain ⟨k, hk, hv⟩ := h
  exact ⟨k, by omega, hv⟩

/-- The pages of a longer range show their frames if those of its two parts do. -/
theorem Shows.append {m : Memory} {v f a b : Nat} (h₁ : Shows m r v f a)
    (h₂ : Shows m r ((v + a) % 2 ^ 36) ((f + a * 4096) % 2 ^ 64) b) : Shows m r v f (a + b) := by
  intro k hk
  by_cases hka : k < a
  · exact h₁ k hka
  · obtain ⟨j, rfl⟩ : ∃ j, k = a + j := ⟨k - a, by omega⟩
    have hj := h₂ j (by omega)
    rw [show (v + (a + j)) % 2 ^ 36 = ((v + a) % 2 ^ 36 + j) % 2 ^ 36 by omega, hj]
    congr 1
    omega

theorem Shows.moves {v f n : Nat} (h : s.Ready place r) (hm : s.Moves place r S s₁ place₁)
    (hshow : Shows s.mem r v f n) : Shows s₁.mem r v f n :=
  fun k hk => hm.1.frameAt_some h.tables h.root (hshow k hk)

/-- A turn of the loop, and the turns after it. -/
theorem Tries.seq {x y : Prog Mapper Unit} {v f a b : Nat} (h : s.Ready place r)
    (hx : Tries s place r v f a x)
    (hy : ∀ s' place', s'.Ready place' r →
      Tries s' place' r ((v + a) % 2 ^ 36) ((f + a * 4096) % 2 ^ 64) b y) :
    Tries s place r v f (a + b) (do x; y) := by
  unfold Tries
  rw [wp_bind]
  refine wp_mono hx ?_ ?_
  · rintro ⟨⟩ s₁ ⟨place₁, hm₁, hshow₁⟩
    have h₁ := h.moves hm₁
    refine wp_mono (hy s₁ place₁ h₁) ?_ ?_
    · rintro ⟨⟩ s₂ ⟨place₂, hm₂, hshow₂⟩
      exact ⟨place₂, (hm₁.mono fun _ => Range.left).trans (hm₂.mono fun _ => Range.append),
        Shows.append (Shows.moves h₁ hm₂ hshow₁) hshow₂⟩
    · rintro e s₂ ⟨place₂, hm₂, done, hdone, hshow₂, hsame⟩
      refine ⟨place₂, (hm₁.mono fun _ => Range.left).trans (hm₂.mono fun _ => Range.append),
        a + done, by omega, Shows.append (Shows.moves h₁ hm₂ hshow₁) hshow₂, fun v' hv' hout => ?_⟩
      rw [hsame v' hv' fun hr => hout (Range.append hr)]
      exact hm₁.1.frameAt_eq h.root hv' fun hseen => hout (Range.left hseen.1)
  · rintro e s₁ ⟨place₁, hm₁, done, hdone, hpart⟩
    exact ⟨place₁, hm₁.mono fun _ => Range.left, done, by omega, hpart⟩

theorem Tries.none (h : s.Ready place r) {v f : Nat} : Tries s place r v f 0 (pure ()) := by
  unfold Tries
  rw [wp_pure]
  exact ⟨place, .refl h.tables, fun k hk => absurd hk (Nat.not_lt_zero k)⟩

theorem pageOf_add (virt d : UInt64) (hd : d.toNat % 4096 = 0) :
    pageOf (virt + d) = (pageOf virt + d.toNat / 4096) % 2 ^ 36 := by
  unfold pageOf
  rw [UInt64.toNat_add]
  omega

theorem mapRangeLoop_spec (fuel : Nat) : ∀ {s : Mapper} {place : Nat → Option Place}
    {virt phys len : UInt64}, s.Ready place r → virt.toNat % 4096 = 0 → phys.toNat % 4096 = 0 →
    len.toNat / 4096 ≤ fuel →
    Tries s place r (pageOf virt) phys.toNat (len.toNat / 4096) (mapRangeLoop fuel virt phys len) := by
  induction fuel with
  | zero =>
    intro s place virt phys len h _ _ hfuel
    rw [Nat.le_zero.1 hfuel]
    exact .none h
  | succ fuel ih =>
    intro s place virt phys len h hvirt hphys hfuel
    -- a turn by `d` bytes that takes `len` to `len - d`
    have turn : ∀ (d : UInt64) (x : Prog Mapper Unit), d.toNat % 4096 = 0 → 0 < d.toNat →
        d ≤ len → Tries s place r (pageOf virt) phys.toNat (d.toNat / 4096) x →
        Tries s place r (pageOf virt) phys.toNat (len.toNat / 4096)
          (do x; mapRangeLoop fuel (virt + d) (phys + d) (len - d)) := by
      intro d x hd hpos hle hx
      have hlen : (len - d).toNat = len.toNat - d.toNat := UInt64.toNat_sub_of_le _ _ hle
      rw [UInt64.le_iff_toNat_le] at hle
      have hv : (virt + d).toNat % 4096 = 0 := by
        rw [UInt64.toNat_add]
        omega
      have hp : (phys + d).toNat = (phys.toNat + d.toNat / 4096 * 4096) % 2 ^ 64 := by
        rw [UInt64.toNat_add]
        omega
      rw [show len.toNat / 4096 = d.toNat / 4096 + (len - d).toNat / 4096 by omega]
      refine hx.seq h fun s' place' h' => ?_
      have hrest := ih h' hv (by omega : (phys + d).toNat % 4096 = 0)
        (by omega : (len - d).toNat / 4096 ≤ fuel)
      rw [pageOf_add virt d hd, hp] at hrest
      exact hrest
    rw [mapRangeLoop]
    split
    · rename_i hpage
      split
      · rename_i hhuge
        obtain ⟨hv, hp⟩ := (or_and_low_eq_zero 21 (by decide)).1 hhuge.2
        exact turn HUGE_2M _ (by decide) (by decide) hhuge.1 (map2m_spec h hv hp)
      · exact turn PAGE _ (by decide) (by decide) hpage (map4k_spec h hphys)
    · rename_i hpage
      rw [ge_iff_le, UInt64.le_iff_toNat_le, BumpAllocator.toNat_PAGE] at hpage
      rw [show len.toNat / 4096 = 0 by omega]
      exact .none h

theorem Tries.throw (h : s.Ready place r) {v f n : Nat} (e : String) :
    Tries s place r v f n (throw e) := by
  unfold Tries
  rw [wp_throw]
  exact ⟨place, .refl h.tables, .of_frame h (.of_same fun _ _ _ _ _ => rfl)⟩

/-- The alignment that `map_range` checks. -/
theorem and_page_eq_zero {x : UInt64} : x &&& (PAGE - 1) = 0 ↔ x.toNat % 4096 = 0 := by
  rw [← UInt64.toNat_inj, UInt64.toNat_and, show (PAGE - 1).toNat = 2 ^ 12 - 1 from rfl,
    Nat.and_two_pow_sub_one_eq_mod, UInt64.toNat_zero]

/-- **`map_range` maps the whole pages of its range**, or stops midway. -/
theorem mapRange_tries (h : s.Ready place r) (virt phys len : UInt64) :
    Tries s place r (pageOf virt) phys.toNat (len.toNat / 4096) (mapRange virt phys len) := by
  unfold mapRange
  split
  · exact .throw h _
  · rename_i haligned
    simp only [not_or, not_not] at haligned
    have hlen := BumpAllocator.toNat_and_not_page len
    have hloop := mapRangeLoop_spec _ h (and_page_eq_zero.1 haligned.1) (and_page_eq_zero.1 haligned.2)
      (Nat.le_refl ((len &&& ~~~(PAGE - 1)).toNat / 4096))
    rw [show len.toNat / 4096 = (len &&& ~~~(PAGE - 1)).toNat / 4096 by omega]
    exact hloop

theorem mapRange_spec (h : s.Ready place r) (virt phys len : UInt64) :
    Maps s place r (pageOf virt) phys.toNat (len.toNat / 4096) (mapRange virt phys len) :=
  (mapRange_tries h virt phys len).maps

end Mapper

end RootCourt

end CourtKernel
