import Mathlib.Data.List.Infix

/-!
# Tables with a fixed number of slots

A table of `n` slots, each free or with one entry, as programs without an allocator keep them.  New
entries go to the first free slot, and no slot is ever freed.

* `Slots α n` — the table; its length is part of the type.
* `put` — an entry in the first free slot, if there is one; `mem_put`, `length_put` say what it adds,
  and `put_eq_none` that it fails only on a full table.
* `revise` — a change of the first entry with some property; `find_revise_of_ne` says which searches
  it cannot change.
-/

namespace CourtKernel

/-- `n` slots, each free or with one entry. -/
structure Slots (α : Type) (n : Nat) where
  cells : List (Option α)
  size : cells.length = n
  deriving DecidableEq

namespace Slots

variable {α : Type} {n : Nat}

/-- `[None; n]` -/
def free (α : Type) (n : Nat) : Slots α n := ⟨List.replicate n none, List.length_replicate⟩

/-- `iter().flatten()` -/
def entries (t : Slots α n) : List α := t.cells.filterMap id

/-- `iter().filter(|slot| slot.is_some()).count()` -/
def count (t : Slots α n) : Nat := (t.cells.filter Option.isSome).length

/-- The cells with an entry in the first free one. -/
def putCells (x : α) : List (Option α) → Option (List (Option α))
  | [] => none
  | none :: cells => some (some x :: cells)
  | some y :: cells => (putCells x cells).map (some y :: ·)

/-- The cells with the first entry of a kind changed. -/
def reviseCells (p : α → Bool) (f : α → α) : List (Option α) → Option (List (Option α))
  | [] => none
  | none :: cells => (reviseCells p f cells).map (none :: ·)
  | some y :: cells =>
    if p y then some (some (f y) :: cells) else (reviseCells p f cells).map (some y :: ·)

/-- Where the new entry went. -/
theorem putCells_eq_some {x : α} {cells cells' : List (Option α)} :
    putCells x cells = some cells' →
      ∃ l r, cells = l ++ none :: r ∧ cells' = l ++ some x :: r := by
  induction cells generalizing cells' with
  | nil => intro h; cases h
  | cons c cells ih =>
    intro h
    cases c with
    | none =>
      obtain rfl := Option.some.inj h
      exact ⟨[], cells, rfl, rfl⟩
    | some y =>
      obtain ⟨rest, hrest, rfl⟩ := Option.map_eq_some_iff.1 h
      obtain ⟨l, r, rfl, rfl⟩ := ih hrest
      exact ⟨some y :: l, r, rfl, rfl⟩

/-- There is no free cell only if every cell has an entry. -/
theorem putCells_eq_none {x : α} {cells : List (Option α)} :
    putCells x cells = none → (cells.filter Option.isSome).length = cells.length := by
  induction cells with
  | nil => exact fun _ => rfl
  | cons c cells ih =>
    intro h
    cases c with
    | none => cases h
    | some y => simpa using ih (Option.map_eq_none_iff.1 h)

/-- Which entry was changed: the first of its kind. -/
theorem reviseCells_eq_some {p : α → Bool} {f : α → α} {cells cells' : List (Option α)} :
    reviseCells p f cells = some cells' →
      ∃ l y r, cells = l ++ some y :: r ∧ cells' = l ++ some (f y) :: r ∧ p y = true ∧
        ∀ z, some z ∈ l → p z = false := by
  induction cells generalizing cells' with
  | nil => intro h; cases h
  | cons c cells ih =>
    intro h
    cases c with
    | none =>
      obtain ⟨rest, hrest, rfl⟩ := Option.map_eq_some_iff.1 h
      obtain ⟨l, y, r, rfl, rfl, hy, hl⟩ := ih hrest
      exact ⟨none :: l, y, r, rfl, rfl, hy, fun z hz => hl z (by simpa using hz)⟩
    | some x =>
      unfold reviseCells at h
      split at h
      · rename_i hx
        obtain rfl := Option.some.inj h
        exact ⟨[], x, cells, rfl, rfl, hx, fun z hz => by cases hz⟩
      · rename_i hx
        obtain ⟨rest, hrest, rfl⟩ := Option.map_eq_some_iff.1 h
        obtain ⟨l, y, r, rfl, rfl, hy, hl⟩ := ih hrest
        refine ⟨some x :: l, y, r, rfl, rfl, hy, fun z hz => ?_⟩
        rcases List.mem_cons.1 hz with hz | hz
        · obtain rfl := Option.some.inj hz
          exact Bool.eq_false_iff.2 hx
        · exact hl z hz

/-- No entry is changed only if there is none of the kind. -/
theorem reviseCells_eq_none {p : α → Bool} {f : α → α} {cells : List (Option α)} :
    reviseCells p f cells = none → ∀ z, some z ∈ cells → p z = false := by
  induction cells with
  | nil => intro _ z hz; cases hz
  | cons c cells ih =>
    intro h z hz
    cases c with
    | none => exact ih (Option.map_eq_none_iff.1 h) z (by simpa using hz)
    | some x =>
      unfold reviseCells at h
      split at h
      · cases h
      · rename_i hx
        rcases List.mem_cons.1 hz with hz | hz
        · obtain rfl := Option.some.inj hz
          exact Bool.eq_false_iff.2 hx
        · exact ih (Option.map_eq_none_iff.1 h) z hz

theorem length_putCells {x : α} {cells cells' : List (Option α)} (h : putCells x cells = some cells') :
    cells'.length = cells.length := by
  obtain ⟨l, r, rfl, rfl⟩ := putCells_eq_some h
  simp

theorem length_reviseCells {p : α → Bool} {f : α → α} {cells cells' : List (Option α)}
    (h : reviseCells p f cells = some cells') : cells'.length = cells.length := by
  obtain ⟨l, y, r, rfl, rfl, -, -⟩ := reviseCells_eq_some h
  simp

/-- An entry in the first free slot. -/
def put (t : Slots α n) (x : α) : Option (Slots α n) :=
  match h : putCells x t.cells with
  | none => none
  | some cells => some ⟨cells, (length_putCells h).trans t.size⟩

/-- The first entry with `p` changed by `f`. -/
def revise (t : Slots α n) (p : α → Bool) (f : α → α) : Option (Slots α n) :=
  match h : reviseCells p f t.cells with
  | none => none
  | some cells => some ⟨cells, (length_reviseCells h).trans t.size⟩

variable {t t' : Slots α n} {x : α} {p : α → Bool} {f : α → α}

/-! ## Putting an entry -/

@[simp] theorem entries_free : (free α n).entries = [] := by
  simp [entries, free]

/-- The entries before and after, around the new one. -/
theorem entries_put (h : t.put x = some t') :
    ∃ l r, t.entries = l ++ r ∧ t'.entries = l ++ x :: r := by
  unfold put at h
  split at h
  · cases h
  · rename_i cells hcells
    obtain rfl := Option.some.inj h
    obtain ⟨l, r, hl, hr⟩ := putCells_eq_some hcells
    exact ⟨l.filterMap id, r.filterMap id, by simp [entries, hl], by simp [entries, hr]⟩

theorem mem_put (h : t.put x = some t') {y : α} : y ∈ t'.entries ↔ y = x ∨ y ∈ t.entries := by
  obtain ⟨l, r, hl, hr⟩ := entries_put h
  rw [hl, hr]
  simp only [List.mem_append, List.mem_cons]
  tauto

theorem length_put (h : t.put x = some t') : t'.entries.length = t.entries.length + 1 := by
  obtain ⟨l, r, hl, hr⟩ := entries_put h
  rw [hl, hr]
  simp only [List.length_append, List.length_cons]
  omega

theorem length_filter_isSome (cells : List (Option α)) :
    (cells.filter Option.isSome).length = (cells.filterMap id).length := by
  induction cells with
  | nil => rfl
  | cons c cells ih =>
    cases c with
    | none => simpa using ih
    | some y => simpa using ih

theorem count_eq (t : Slots α n) : t.count = t.entries.length := length_filter_isSome t.cells

/-- An entry finds no slot only if all are taken. -/
theorem put_eq_none (h : t.put x = none) : t.count = n := by
  unfold put at h
  split at h
  · rename_i hcells
    exact (putCells_eq_none hcells).trans t.size
  · cases h

theorem count_put (h : t.put x = some t') : t'.count = t.count + 1 := by
  rw [count_eq, count_eq, length_put h]

/-- There are no more entries than slots. -/
theorem length_entries_le (t : Slots α n) : t.entries.length ≤ n :=
  (List.length_filterMap_le _ _).trans_eq t.size

/-- Searches that do not ask for the new entry go on as before. -/
theorem find_put_of_false (h : t.put x = some t') (hx : p x = false) :
    t'.entries.find? p = t.entries.find? p := by
  obtain ⟨l, r, hl, hr⟩ := entries_put h
  rw [hl, hr, List.find?_append, List.find?_append, List.find?_cons, hx]

/-- A search that only the new entry answers finds it. -/
theorem find_put_self (h : t.put x = some t') (hx : p x = true)
    (hnew : ∀ y ∈ t.entries, p y = false) : t'.entries.find? p = some x := by
  obtain ⟨l, r, hl, hr⟩ := entries_put h
  have hnone : l.find? p = none :=
    List.find?_eq_none.2 fun y hy => by simp [hnew y (by rw [hl]; exact List.mem_append_left _ hy)]
  rw [hr, List.find?_append, hnone, List.find?_cons, hx]
  rfl

/-! ## Changing an entry -/

/-- The entries before and after, around the changed one. -/
theorem entries_revise (h : t.revise p f = some t') :
    ∃ l y r, t.entries = l ++ y :: r ∧ t'.entries = l ++ f y :: r ∧ p y = true ∧
      ∀ z ∈ l, p z = false := by
  unfold revise at h
  split at h
  · cases h
  · rename_i cells hcells
    obtain rfl := Option.some.inj h
    obtain ⟨l, y, r, hl, hr, hy, hfirst⟩ := reviseCells_eq_some hcells
    refine ⟨l.filterMap id, y, r.filterMap id, by simp [entries, hl], by simp [entries, hr], hy, ?_⟩
    intro z hz
    exact hfirst z (by simpa using hz)

theorem revise_eq_none (h : t.revise p f = none) : ∀ z ∈ t.entries, p z = false := by
  unfold revise at h
  split at h
  · rename_i hcells
    intro z hz
    exact reviseCells_eq_none hcells z (by simpa [entries] using hz)
  · cases h

/-- A search for entries of another kind, before or after the change, finds the same. -/
theorem find_revise_of_ne {q : α → Bool} (h : t.revise p f = some t')
    (hq : ∀ y, p y = true → q y = false ∧ q (f y) = false) :
    t'.entries.find? q = t.entries.find? q := by
  obtain ⟨l, y, r, hl, hr, hy, -⟩ := entries_revise h
  rw [hl, hr, List.find?_append, List.find?_append, List.find?_cons, List.find?_cons,
    (hq y hy).1, (hq y hy).2]

/-- The search that the change made finds the changed entry. -/
theorem find_revise_self (h : t.revise p f = some t') (hf : ∀ y, p y = true → p (f y) = true) :
    ∃ y, t.entries.find? p = some y ∧ t'.entries.find? p = some (f y) := by
  obtain ⟨l, y, r, hl, hr, hy, hfirst⟩ := entries_revise h
  have hnone : l.find? p = none := List.find?_eq_none.2 fun z hz => by simp [hfirst z hz]
  refine ⟨y, ?_, ?_⟩
  · rw [hl, List.find?_append, hnone, List.find?_cons, hy]
    rfl
  · rw [hr, List.find?_append, hnone, List.find?_cons, hf y hy]
    rfl

end Slots

end CourtKernel
