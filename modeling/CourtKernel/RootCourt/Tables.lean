import CourtKernel.RootCourt.Mmu

/-!
# The tables of the kernel and of its address spaces

All PML4s of the system share the tables of their higher halves and own those of their lower
halves.  `Place` is the ideal tree of that: a table is the PML5 or the PML4 of a space, or lies
under the lower half of one PML4, or under the shared higher half.

* `World` — physical memory and allocator, with the ghost that places table pages.
* `Tables w` — the invariant: table pages are distinct granted pages, and slots lead where the
  places say.
* `Step w w'` — what every piece of code here does: it keeps the invariant, never takes a slot back,
  and writes to table pages and to newly granted pages only.
* `Quiet w w'` — memory changes on table pages only.
* `Frame w w' r S` — walks that do not see the pages `S` of the PML4 `r` find the same.
* `Moved w r S w'` — a step of code that maps the pages `S` in the PML4 `r`.
* `Moved.grant`, `Moved.table`, `Moved.link`, `Moved.leaf` — the four ways to take a step.
-/

namespace CourtKernel

namespace RootCourt

open Radix (walk trail)

/-- Where a table belongs: the PML5 or the PML4 of a space, or under a PML4 along the indices
`path`, in the lower half that one PML4 owns or in the shared higher half. -/
inductive Place where
  | pml5 (pml4 : Nat)
  | pml4 (pml4 : Nat)
  | under (owner : Option Nat) (path : List Nat)
  deriving DecidableEq

namespace Place

/-- Who owns what lies under the entry `i` of a PML4. -/
def owner (pml4 i : Nat) : Option Nat := if i < 256 then some pml4 else none

def down : Place → Nat → Place
  | pml5 r, _ => pml4 r
  | pml4 r, i => under (owner r i) [i]
  | under o path, i => under o (path ++ [i])

/-- Indices left below a slot of the table. -/
def level : Place → Nat
  | pml5 _ => 4
  | pml4 _ => 3
  | under _ path => 3 - path.length

theorem level_down (p : Place) (i k : Nat) (h : p.level = k + 1) : (p.down i).level = k := by
  cases p with
  | pml5 r => exact Nat.succ.inj h
  | pml4 r => exact Nat.succ.inj h
  | under o path =>
    simp only [level] at h
    simp only [down, level, List.length_append, List.length_singleton]
    omega

def shape : Radix.Shape Nat Place := ⟨down, level, level_down⟩

end Place

open Place (shape)

/-- Physical memory and the allocator, with the places of the table pages. -/
structure World where
  place : Nat → Option Place
  mem : Memory
  bump : BumpAllocator

/-- The invariant of the tables. -/
structure Tables (w : World) : Prop where
  bump : w.bump.Wf
  width : w.bump.end.toNat ≤ 2 ^ 52
  page : ∀ n p, w.place n = some p → n % 4096 = 0 ∧ w.bump.start.toNat ≤ n ∧
    n + 4096 ≤ w.bump.cursor.toNat
  placed : Radix.Placed shape (slots w.mem) w.place

/-- The address is on no table page. -/
def World.Outside (w : World) (a : Nat) : Prop :=
  ∀ n p, w.place n = some p → a < n ∨ n + 4096 ≤ a

/-- Everything the code does to tables and memory. -/
structure Step (w w' : World) : Prop where
  tables : Tables w'
  kept : ∀ n p, w.place n = some p → w'.place n = some p
  fresh : ∀ n p, w'.place n = some p → w.place n = some p ∨ w.bump.cursor.toNat ≤ n
  grows : Radix.Grows shape w.place (slots w.mem) (slots w'.mem)
  bump : w'.bump = { w.bump with cursor := w'.bump.cursor }
  cursor : w.bump.cursor.toNat ≤ w'.bump.cursor.toNat
  data : ∀ a, a < w.bump.cursor.toNat → w.Outside a → w'.mem a = w.mem a

variable {w w₁ w₂ : World}

namespace Step

theorem refl (h : Tables w) : Step w w :=
  ⟨h, fun _ _ h => h, fun _ _ h => Or.inl h, fun _ _ _ _ _ => rfl, rfl, Nat.le_refl _,
    fun _ _ _ => rfl⟩

theorem trans (h₁ : Step w w₁) (h₂ : Step w₁ w₂) : Step w w₂ := by
  refine ⟨h₂.tables, fun n p h => h₂.kept n p (h₁.kept n p h), fun n p h => ?_, fun n p i hn hs => ?_,
    ?_, Nat.le_trans h₁.cursor h₂.cursor, fun a ha hout => ?_⟩
  · have hcursor := h₁.cursor
    rcases h₂.fresh n p h with h | h
    · exact h₁.fresh n p h
    · exact Or.inr (by omega)
  · have hs₁ := h₁.grows n p i hn hs
    rw [h₂.grows n p i (h₁.kept n p hn) (by rw [hs₁]; exact hs), hs₁]
  · rw [h₂.bump, h₁.bump]
  · have hcursor := h₁.cursor
    rw [h₂.data a (by omega) fun n p hn => ?_, h₁.data a ha hout]
    rcases h₁.fresh n p hn with h | h
    · exact hout n p h
    · exact Or.inl (by omega)

/-- Table pages stay table pages. -/
theorem outside (h : Step w w₁) {a : Nat} (ha : w₁.Outside a) : w.Outside a :=
  fun n p hn => ha n p (h.kept n p hn)

end Step

/-- Memory has changed on table pages only. -/
def Quiet (w w' : World) : Prop := ∀ a, w'.Outside a → w'.mem a = w.mem a

theorem Quiet.trans (h₁ : Quiet w w₁) (h₂ : Quiet w₁ w₂) (hs : Step w₁ w₂) : Quiet w w₂ :=
  fun a ha => (h₂ a ha).trans (h₁ a (hs.outside ha))

/-! ## Starts of walks, and what a step leaves alone -/

/-- A walk for the page `v` begins at a PML4, or one level up at its PML5. -/
inductive Begins (r v : Nat) : Place → List Nat → Prop where
  | pml4 : Begins r v (.pml4 r) (digits v)
  | pml5 (i : Nat) : Begins r v (.pml5 r) (i :: digits v)

theorem Begins.length {r v : Nat} {p : Place} {is : List Nat} (h : Begins r v p is) :
    is.length = shape.level p + 1 := by
  cases h <;> rfl

/-- A page that has a frame keeps it. -/
theorem Step.frameAt_some (h : Step w w₁) (ht : Tables w) {r v f : Nat}
    (hr : w.place r = some (.pml4 r)) (hf : frameAt w.mem r v = some f) :
    frameAt w₁.mem r v = some f := by
  obtain ⟨leaf, hw, hleaf⟩ := Option.map_eq_some_iff.1 hf
  rw [frameAt, h.grows.walk ht.placed _ _ _ hr Begins.pml4.length hw, Option.map_some, hleaf]

/-- Where the pages `S` of the PML4 `r` are seen: in the lower half by that PML4 only. -/
def Seen (r : Nat) (S : Nat → Prop) (r' v' : Nat) : Prop := S v' ∧ (v' < 2 ^ 35 → r' = r)

/-- Walks that do not see the pages `S` of the PML4 `r` find the same. -/
def Frame (w w' : World) (r : Nat) (S : Nat → Prop) : Prop :=
  ∀ n p is r' v', w.place n = some p → Begins r' v' p is → v' < 2 ^ 36 → ¬ Seen r S r' v' →
    walk (slots w'.mem) n is = walk (slots w.mem) n is

/-- All walks find the same. -/
theorem Frame.of_same {r : Nat} {S : Nat → Prop}
    (h : ∀ is n p, w.place n = some p → is.length = shape.level p + 1 →
      walk (slots w₁.mem) n is = walk (slots w.mem) n is) : Frame w w₁ r S :=
  fun n p is _ _ hn hb _ _ => h is n p hn hb.length

theorem Frame.trans {r : Nat} {S : Nat → Prop} (h₁ : Frame w w₁ r S) (hs : Step w w₁)
    (h₂ : Frame w₁ w₂ r S) : Frame w w₂ r S := fun n p is r' v' hn hb hv hout =>
  (h₂ n p is r' v' (hs.kept n p hn) hb hv hout).trans (h₁ n p is r' v' hn hb hv hout)

/-- A page that is not seen keeps the frame it has or lacks. -/
theorem Frame.frameAt_eq {r : Nat} {S : Nat → Prop} (h : Frame w w₁ r S) {r' v : Nat}
    (hr : w.place r' = some (.pml4 r')) (hv : v < 2 ^ 36) (hout : ¬ Seen r S r' v) :
    frameAt w₁.mem r' v = frameAt w.mem r' v := by
  rw [frameAt, h r' _ _ r' v hr .pml4 hv hout, frameAt]

/-- The place that the indices `path` lead to from a PML4. -/
def spot (r : Nat) (path : List Nat) : Place := path.foldl Place.down (.pml4 r)

theorem spot_concat (r : Nat) (path : List Nat) (i : Nat) :
    spot r (path ++ [i]) = (spot r path).down i := List.foldl_append

theorem foldl_down_under (o : Option Nat) (path path' : List Nat) :
    path'.foldl Place.down (.under o path) = .under o (path ++ path') := by
  induction path' generalizing path with
  | nil => rw [List.append_nil]; rfl
  | cons i path' ih => rw [List.foldl_cons, Place.down, ih, List.append_assoc]; rfl

theorem spot_cons (r i : Nat) (path : List Nat) :
    spot r (i :: path) = .under (Place.owner r i) (i :: path) := foldl_down_under ..

theorem level_spot (r : Nat) (path : List Nat) : shape.level (spot r path) = 3 - path.length := by
  cases path with
  | nil => rfl
  | cons i path => rw [spot_cons]; rfl

/-- Walks that pass `spot r path` see a page below it. -/
theorem seen_of_mem_trail {r r' v' : Nat} {path : List Nat} {p : Place} {is : List Nat}
    (hb : Begins r' v' p is) (hne : path ≠ []) (h : spot r path ∈ trail shape p is) :
    Seen r (fun v => path <+: digits v) r' v' := by
  obtain ⟨i, path, rfl⟩ := List.exists_cons_of_ne_nil hne
  have hmain : spot r (i :: path) ∈ trail shape (.pml4 r') (digits v') := by
    cases hb with
    | pml4 => exact h
    | pml5 j =>
      rw [trail, List.mem_cons] at h
      exact h.resolve_left fun he => by rw [spot_cons] at he; cases he
  simp only [spot_cons, digits, trail, shape, Place.down, List.mem_cons, List.not_mem_nil, or_false,
    Place.under.injEq, List.cons_append, List.nil_append] at hmain
  have howner : i :: path <+: digits v' ∧ Place.owner r i = Place.owner r' (v' / 2 ^ 27 % 512) ∧
      i = v' / 2 ^ 27 % 512 := by
    rcases hmain with ⟨ho, he⟩ | ⟨ho, he⟩ | ⟨ho, he⟩ | ⟨ho, he⟩
    all_goals exact ⟨by rw [he]; exact ⟨_, rfl⟩, ho, (List.cons.inj he).1⟩
  obtain ⟨hpre, ho, hhead⟩ := howner
  refine ⟨hpre, fun hlow => ?_⟩
  unfold Place.owner at ho
  rw [hhead, if_pos (by omega), if_pos (by omega)] at ho
  exact (Option.some.inj ho).symm

/-! ## Slots in memory -/

section Slots

variable {m m' : Memory} {k n t i j : Nat} {v : UInt64}

theorem slots_congr (h : ∀ a, n ≤ a → a < n + 4096 → m' a = m a) : slots m' k n i = slots m k n i := by
  unfold slots
  split
  · rw [Memory.readU64_congr fun a h1 h2 => h a (by omega) (by omega)]
  · rfl

theorem slots_zero (h : ∀ a, n ≤ a → a < n + 4096 → m a = 0) : slots m k n i = .absent := by
  have hfill : slots m k n i = slots (m.fill n 4096 0) k n i :=
    slots_congr fun a h1 h2 => by rw [h a h1 h2, Memory.fill_of_mem h1 h2]
  rw [hfill]
  unfold slots
  split
  · rw [Memory.readU64_fill_zero (by omega) (by omega), decode_zero]
  · rfl

theorem slots_write_self (hi : i < 512) : slots (m.writeU64 (t + 8 * i) v) k t i = decode k v := by
  rw [slots, if_pos hi, Memory.readU64_writeU64_self]

theorem slots_write_other (ht : t % 4096 = 0) (hn : n % 4096 = 0) (hi : i < 512)
    (hne : n ≠ t ∨ j ≠ i) : slots (m.writeU64 (t + 8 * i) v) k n j = slots m k n j := by
  unfold slots
  split
  · rw [Memory.readU64_writeU64_of_disjoint (by omega)]
  · rfl

end Slots

/-! ## Taking steps -/

theorem spot_eq_pml4 {r r' : Nat} {path : List Nat} (h : spot r path = .pml4 r') :
    path = [] ∧ r' = r := by
  cases path with
  | nil => cases h; exact ⟨rfl, rfl⟩
  | cons i path => rw [spot_cons] at h; cases h

theorem spot_ne_pml5 {r r' : Nat} {path : List Nat} : spot r path ≠ .pml5 r' := by
  intro h
  cases path with
  | nil => cases h
  | cons i path => rw [spot_cons] at h; cases h

/-- A step of code that maps the pages `S` in the PML4 `r`: it changes at most the walks that see
these pages, of the PML4s at most the entries of `r` that lead to them, and no PML5. -/
structure Moved (w : World) (r : Nat) (S : Nat → Prop) (w' : World) : Prop where
  step : Step w w'
  frame : Frame w w' r S
  others : ∀ n r' i, w.place n = some (.pml4 r') → (r' = r → ∀ v, S v → v / 2 ^ 27 % 512 ≠ i) →
    slots w'.mem 3 n i = slots w.mem 3 n i
  wraps : ∀ n r' i, w.place n = some (.pml5 r') → slots w'.mem 4 n i = slots w.mem 4 n i

namespace Moved

variable {r : Nat} {S S' : Nat → Prop}

theorem refl (h : Tables w) : Moved w r S w :=
  ⟨.refl h, .of_same fun _ _ _ _ _ => rfl, fun _ _ _ _ _ => rfl, fun _ _ _ _ => rfl⟩

theorem mono (h : Moved w r S w₁) (hsub : ∀ v, S v → S' v) : Moved w r S' w₁ :=
  ⟨h.step, fun n p is r' v' hn hb hv hout =>
      h.frame n p is r' v' hn hb hv fun hs => hout ⟨hsub v' hs.1, hs.2⟩,
    fun n r' i hn hout => h.others n r' i hn fun hr v hv => hout hr v (hsub v hv), h.wraps⟩

theorem trans (h₁ : Moved w r S w₁) (h₂ : Moved w₁ r S w₂) : Moved w r S w₂ :=
  ⟨h₁.step.trans h₂.step, h₁.frame.trans h₁.step h₂.frame, fun n r' i hn hout =>
      (h₂.others n r' i (h₁.step.kept n _ hn) hout).trans (h₁.others n r' i hn hout),
    fun n r' i hn => (h₂.wraps n r' i (h₁.step.kept n _ hn)).trans (h₁.wraps n r' i hn)⟩

/-- A slot in use stays. -/
theorem slot (h : Moved w r S w₁) {n i : Nat} {p : Place} {x : Slot Nat UInt64}
    (hn : w.place n = some p) (hx : slots w.mem (shape.level p) n i = x) (hne : x ≠ .absent) :
    slots w₁.mem (shape.level p) n i = x := by
  rw [← hx] at hne ⊢
  exact h.step.grows n p i hn hne

theorem frameAt_some (h : Moved w r S w₁) (ht : Tables w) {r' v f : Nat}
    (hr : w.place r' = some (.pml4 r')) (hf : frameAt w.mem r' v = some f) :
    frameAt w₁.mem r' v = some f := h.step.frameAt_some ht hr hf

/-- A page that is not touched keeps the frame it has or lacks. -/
theorem frameAt_eq (h : Moved w r S w₁) {r' v : Nat} (hr : w.place r' = some (.pml4 r'))
    (hv : v < 2 ^ 36) (hout : ¬ Seen r S r' v) : frameAt w₁.mem r' v = frameAt w.mem r' v :=
  h.frame.frameAt_eq hr hv hout

/-- **Granted pages.**  Taking pages from the allocator and writing to nothing else. -/
theorem grant (h : Tables w) {mem : Memory} {bump : BumpAllocator} (hwf : bump.Wf)
    (hbump : bump = { w.bump with cursor := bump.cursor })
    (hcursor : w.bump.cursor.toNat ≤ bump.cursor.toNat)
    (hmem : ∀ a, a < w.bump.cursor.toNat → mem a = w.mem a) :
    Moved w r S ⟨w.place, mem, bump⟩ := by
  have hslots : ∀ n p, w.place n = some p → ∀ k i, slots mem k n i = slots w.mem k n i := by
    intro n p hn k i
    obtain ⟨-, -, hpage⟩ := h.page n p hn
    exact slots_congr fun a h1 h2 => hmem a (by omega)
  have hend : bump.end = w.bump.end := by rw [hbump]
  have hstart : bump.start = w.bump.start := by rw [hbump]
  refine ⟨⟨⟨hwf, ?_, fun n p hn => ?_, fun n p i next hn hs => ?_⟩, fun _ _ hn => hn,
    fun _ _ hn => Or.inl hn, fun n p i hn _ => hslots n p hn _ _, hbump, hcursor,
    fun a ha _ => hmem a ha⟩, ?_, fun n r' i hn _ => hslots n _ hn _ _,
    fun n r' i hn => hslots n _ hn _ _⟩
  · rw [hend]
    exact h.width
  · obtain ⟨h1, h2, h3⟩ := h.page n p hn
    refine ⟨h1, ?_, Nat.le_trans h3 hcursor⟩
    show bump.start.toNat ≤ n
    rw [hstart]
    exact h2
  · rw [hslots n p hn] at hs
    exact h.placed n p i next hn hs
  · refine Frame.of_same fun is n p hn hlen => ?_
    exact Radix.walk_link h.placed (fun n p i hn => Or.inl (hslots n p hn _ _)) is n p hn hlen

/-- **A new table.**  Taking the next page as a table whose slots lead where its place says. -/
theorem table (h : Tables w) {q : UInt64} {p : Place} {mem : Memory} {bump : BumpAllocator}
    (hq : q = w.bump.cursor) (hwf : bump.Wf)
    (hbump : bump = { w.bump with cursor := bump.cursor })
    (hcursor : bump.cursor.toNat = q.toNat + 4096)
    (hmem : ∀ a, a < q.toNat → mem a = w.mem a)
    (hslots : ∀ i next, slots mem (shape.level p) q.toNat i = .table next →
      0 < shape.level p ∧ w.place next = some (shape.down p i)) :
    Moved w r S ⟨Function.update w.place q.toNat (some p), mem, bump⟩ := by
  subst hq
  have hg : Moved w r S ⟨w.place, mem, bump⟩ := grant h hwf hbump (by omega) hmem
  have hold : ∀ n p', w.place n = some p' →
      Function.update w.place w.bump.cursor.toNat (some p) n = some p' := fun n p' hn => by
    have hpage := (h.page n p' hn).2.2
    rw [Function.update_of_ne (by omega), hn]
  have hnew : ∀ n p', Function.update w.place w.bump.cursor.toNat (some p) n = some p' →
      (n = w.bump.cursor.toNat ∧ p' = p) ∨ w.place n = some p' := fun n p' hn => by
    by_cases hnq : n = w.bump.cursor.toNat
    · rw [hnq, Function.update_self] at hn
      exact Or.inl ⟨hnq, (Option.some.inj hn).symm⟩
    · rw [Function.update_of_ne hnq] at hn
      exact Or.inr hn
  refine ⟨⟨⟨hwf, hg.step.tables.width, fun n p' hn => ?_, fun n p' i next hn hs => ?_⟩, hold,
    fun n p' hn => ?_, hg.step.grows, hbump, hg.step.cursor, hg.step.data⟩, hg.frame, hg.others,
    hg.wraps⟩
  · rcases hnew n p' hn with ⟨rfl, -⟩ | hn
    · have hstart : bump.start = w.bump.start := by rw [hbump]
      refine ⟨h.bump.aligned, ?_, by rw [hcursor]⟩
      show bump.start.toNat ≤ _
      rw [hstart]
      exact h.bump.cursor
    · exact hg.step.tables.page n p' hn
  · rcases hnew n p' hn with ⟨rfl, rfl⟩ | hn
    · obtain ⟨hpos, hnext⟩ := hslots i next hs
      exact ⟨hpos, hold _ _ hnext⟩
    · obtain ⟨hpos, hnext⟩ := hg.step.tables.placed n p' i next hn hs
      exact ⟨hpos, hold _ _ hnext⟩
  · rcases hnew n p' hn with ⟨rfl, -⟩ | hn
    · exact Or.inr (Nat.le_refl _)
    · exact Or.inl hn

end Moved

/-! ## Writing into an absent slot -/

section Write

variable {t i r : Nat} {p : Place} {v : UInt64} {path : List Nat} {S : Nat → Prop}

theorem Tables.slots_write (h : Tables w) (ht : w.place t = some p) (hi : i < 512) {n j : Nat}
    {p' : Place} (hn : w.place n = some p') (hne : n ≠ t ∨ j ≠ i) (k : Nat) :
    slots (w.mem.writeU64 (t + 8 * i) v) k n j = slots w.mem k n j :=
  slots_write_other (h.page t p ht).1 (h.page n p' hn).1 hi hne

theorem Quiet.write (ht : w.place t = some p) (hi : i < 512) :
    Quiet w { w with mem := w.mem.writeU64 (t + 8 * i) v } := by
  intro a ha
  have hout := ha t p ht
  exact Memory.writeU64_of_disjoint (by omega)

/-- Writing an entry that leads where the place of its table says. -/
theorem Step.write (h : Tables w) (ht : w.place t = some p) (hi : i < 512)
    (habsent : slots w.mem (shape.level p) t i = .absent)
    (hv : ∀ next, decode (shape.level p) v = .table next →
      0 < shape.level p ∧ w.place next = some (shape.down p i)) :
    Step w { w with mem := w.mem.writeU64 (t + 8 * i) v } := by
  -- either the slot is the one that is written, or it is as it was
  have hcases : ∀ n p' j, w.place n = some p' → (n = t ∧ p' = p ∧ j = i) ∨
      ∀ k, slots (w.mem.writeU64 (t + 8 * i) v) k n j = slots w.mem k n j := fun n p' j hn => by
    by_cases hnt : n = t ∧ j = i
    · obtain ⟨rfl, rfl⟩ := hnt
      exact Or.inl ⟨rfl, Option.some.inj (hn.symm.trans ht), rfl⟩
    · exact Or.inr (h.slots_write ht hi hn (by omega))
  refine ⟨⟨h.bump, h.width, h.page, fun n p' j next hn hs => ?_⟩, fun _ _ hn => hn,
    fun _ _ hn => Or.inl hn, fun n p' j hn hs => ?_, rfl, Nat.le_refl _, fun a ha hout => ?_⟩
  · rcases hcases n p' j hn with ⟨rfl, rfl, rfl⟩ | hsame
    · rw [slots_write_self hi] at hs
      exact hv next hs
    · rw [hsame] at hs
      exact h.placed n p' j next hn hs
  · rcases hcases n p' j hn with ⟨rfl, rfl, rfl⟩ | hsame
    · exact absurd habsent hs
    · exact hsame _
  · have hdisj := hout t p ht
    exact Memory.writeU64_of_disjoint (by omega)

/-- A write below a PML4 leaves all PML4s alone; one into it leaves the other entries alone. -/
theorem Tables.others_write (h : Tables w) (ht : w.place t = some (spot r path)) (hi : i < 512)
    (hopen : path = [] → ∃ v, S v ∧ v / 2 ^ 27 % 512 = i) (n r' j : Nat)
    (hn : w.place n = some (.pml4 r')) (hout : r' = r → ∀ v, S v → v / 2 ^ 27 % 512 ≠ j) :
    slots (w.mem.writeU64 (t + 8 * i) v) 3 n j = slots w.mem 3 n j := by
  refine h.slots_write ht hi hn ?_ 3
  by_contra hnt
  obtain ⟨rfl, rfl⟩ : n = t ∧ j = i := by omega
  obtain ⟨hpath, hr⟩ := spot_eq_pml4 (Option.some.inj (ht.symm.trans hn))
  obtain ⟨v', hv', hi'⟩ := hopen hpath
  exact hout hr v' hv' hi'

theorem Tables.wraps_write (h : Tables w) (ht : w.place t = some (spot r path)) (hi : i < 512)
    (n r' j : Nat) (hn : w.place n = some (.pml5 r')) :
    slots (w.mem.writeU64 (t + 8 * i) v) 4 n j = slots w.mem 4 n j := by
  refine h.slots_write ht hi hn (Or.inl ?_) 4
  rintro rfl
  exact spot_ne_pml5 (Option.some.inj (ht.symm.trans hn))

/-- **A leaf** below a PML4 is seen by the walks for the pages it covers. -/
theorem Moved.leaf (h : Tables w) (ht : w.place t = some (spot r path)) (hi : i < 512)
    (habsent : slots w.mem (shape.level (spot r path)) t i = .absent)
    (hv : decode (shape.level (spot r path)) v = .leaf v) (hne : path ≠ [])
    (hcovers : ∀ v', v' < 2 ^ 36 → path ++ [i] <+: digits v' → S v') :
    Moved w r S { w with mem := w.mem.writeU64 (t + 8 * i) v } := by
  refine ⟨.write h ht hi habsent fun next he => ?_, fun n p is r' v' hn hb hv' hout => ?_,
    h.others_write ht hi fun hnil => absurd hnil hne, h.wraps_write ht hi⟩
  · rw [hv] at he
    cases he
  · have hkey : shape.down (spot r path) i ∉ trail shape p is := fun hmem => by
      have hspot : spot r (path ++ [i]) ∈ trail shape p is := by
        rw [spot_concat]
        exact hmem
      have hseen := seen_of_mem_trail hb (by simp) hspot
      exact hout ⟨hcovers v' hv' hseen.1, hseen.2⟩
    refine Radix.walk_congr h.placed (fun n p' j hn hne => ?_) is n p hn hb.length hkey
    refine h.slots_write ht hi hn ?_ _
    by_contra hnt
    obtain ⟨rfl, rfl⟩ : n = t ∧ j = i := by omega
    obtain rfl := Option.some.inj (ht.symm.trans hn)
    exact hne rfl

/-- Hanging an empty table into an absent slot changes no walk. -/
theorem Frame.link (h : Tables w) {q : Nat} (ht : w.place t = some (spot r path)) (hi : i < 512)
    (habsent : slots w.mem (shape.level (spot r path)) t i = .absent)
    (hv : decode (shape.level (spot r path)) v = .table q)
    (hq : w.place q = some (shape.down (spot r path) i)) (hqt : q ≠ t)
    (hempty : ∀ k j, slots w.mem k q j = .absent) :
    Frame w { w with mem := w.mem.writeU64 (t + 8 * i) v } r S := by
  refine Frame.of_same fun is n p' hn hlen => ?_
  refine Radix.walk_link h.placed (fun n p' j hn => ?_) is n p' hn hlen
  by_cases hnt : n = t ∧ j = i
  · obtain ⟨rfl, rfl⟩ := hnt
    obtain rfl := Option.some.inj (ht.symm.trans hn)
    refine Or.inr ⟨habsent, q, by rw [slots_write_self hi, hv], fun is => ?_⟩
    cases is with
    | nil => rfl
    | cons j is => rw [Radix.walk, h.slots_write ht hi hq (Or.inl hqt), hempty]
  · exact Or.inl (h.slots_write ht hi hn (by omega) _)

/-- **A link** to an empty table is a step. -/
theorem Moved.link (h : Tables w) {q : Nat} (ht : w.place t = some (spot r path)) (hi : i < 512)
    (habsent : slots w.mem (shape.level (spot r path)) t i = .absent)
    (hv : decode (shape.level (spot r path)) v = .table q) (hl : 0 < shape.level (spot r path))
    (hq : w.place q = some (shape.down (spot r path) i)) (hqt : q ≠ t)
    (hempty : ∀ k j, slots w.mem k q j = .absent)
    (hopen : path = [] → ∃ v, S v ∧ v / 2 ^ 27 % 512 = i) :
    Moved w r S { w with mem := w.mem.writeU64 (t + 8 * i) v } := by
  refine ⟨.write h ht hi habsent fun next he => ?_, .link h ht hi habsent hv hq hqt hempty,
    h.others_write ht hi hopen, h.wraps_write ht hi⟩
  rw [hv] at he
  obtain rfl := Slot.table.inj he
  exact ⟨hl, hq⟩

end Write

end RootCourt

end CourtKernel
