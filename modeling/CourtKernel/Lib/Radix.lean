import Mathlib.Logic.Basic

/-!
# Walks through tables of tables

A tree of tables in a heap: a slot of a table is absent, names a further table, or is a leaf.  A
walk follows a list of indices from a table down to a leaf, which it may reach before the list is
used up.

Nothing in the heap itself says that it is a tree.  That is the business of a ghost: `place`
assigns to every table in use its place in an ideal tree, and `Placed` says that slots lead where
the ideal tree says.  A table has one place, so two walks meet in a table only if they are at the
same place, and a change of one slot concerns only the walks through it.

* `walk_congr` — walks that do not pass the changed slot.
* `walk_link` — hanging an empty table into an absent slot changes no walk.
* `placed_of_mem_visits` — walks pass placed tables only.
* `Grows.walk` — if slots are only added, what a walk found it still finds.
-/

namespace CourtKernel

/-- What a slot of a table holds. -/
inductive Slot (ν φ : Type) where
  | absent
  | table (next : ν)
  | leaf (frame : φ)
  deriving DecidableEq

namespace Radix

variable {ν ι φ π : Type}

/-- The slots of all tables, by the number of indices left below the slot, the table, and the
index in it. -/
abbrev Store (ν ι φ : Type) := Nat → ν → ι → Slot ν φ

/-- Follow the indices from a table to a leaf; the rest are the indices the leaf spans. -/
def walk (S : Store ν ι φ) : ν → List ι → Option (φ × List ι)
  | _, [] => none
  | n, i :: is =>
    match S is.length n i with
    | .absent => none
    | .table next => walk S next is
    | .leaf frame => some (frame, is)

/-- Walks from tables with the same first slot find the same. -/
theorem walk_of_slot_eq {S : Store ν ι φ} {n n' : ν} {i : ι} {is : List ι}
    (h : S is.length n i = S is.length n' i) : walk S n (i :: is) = walk S n' (i :: is) := by
  rw [walk, walk, h]

/-- An ideal tree: where the slots of a place lead, and how many indices are left there. -/
structure Shape (ι π : Type) where
  down : π → ι → π
  level : π → Nat
  level_down : ∀ p i k, level p = k + 1 → level (down p i) = k

/-- The places a walk passes after its start. -/
def trail (T : Shape ι π) : π → List ι → List π
  | _, [] => []
  | p, i :: is => T.down p i :: trail T (T.down p i) is

variable {T : Shape ι π} {S S' : Store ν ι φ} {place : ν → Option π}

/-- Slots of placed tables lead to tables placed below. -/
def Placed (T : Shape ι π) (S : Store ν ι φ) (place : ν → Option π) : Prop :=
  ∀ n p i next, place n = some p → S (T.level p) n i = .table next →
    0 < T.level p ∧ place next = some (T.down p i)

/-- The induction step of all statements about walks: below a slot that names a table, the walk
goes on from a placed table with the indices left. -/
theorem Placed.next (h : Placed T S place) {n next : ν} {p : π} {i : ι} {is : List ι}
    (hn : place n = some p) (hlen : (i :: is).length = T.level p + 1)
    (hslot : S is.length n i = .table next) :
    place next = some (T.down p i) ∧ is.length = T.level (T.down p i) + 1 := by
  have hl : is.length = T.level p := by
    rw [List.length_cons] at hlen
    omega
  rw [hl] at hslot
  obtain ⟨hpos, hplace⟩ := h n p i next hn hslot
  obtain ⟨k, hk⟩ : ∃ k, T.level p = k + 1 := ⟨T.level p - 1, by omega⟩
  exact ⟨hplace, by rw [T.level_down p i k hk, hl, hk]⟩

/-- If only slots at the place `key` change, only walks through `key` do. -/
theorem walk_congr (hS : Placed T S place) {key : π}
    (h : ∀ n p i, place n = some p → T.down p i ≠ key →
      S' (T.level p) n i = S (T.level p) n i) :
    ∀ (is : List ι) (n : ν) (p : π), place n = some p → is.length = T.level p + 1 →
      key ∉ trail T p is → walk S' n is = walk S n is := by
  intro is
  induction is with
  | nil => intros; rfl
  | cons i is ih =>
    intro n p hn hlen hkey
    rw [trail, List.mem_cons, not_or] at hkey
    have hl : is.length = T.level p := Nat.succ.inj hlen
    have hslot : S' is.length n i = S is.length n i := by
      rw [hl]
      exact h n p i hn (Ne.symm hkey.1)
    rw [walk, walk, hslot]
    cases hs : S is.length n i with
    | absent => rfl
    | leaf frame => rfl
    | table next =>
      obtain ⟨hnext, hlen'⟩ := hS.next hn hlen hs
      exact ih next _ hnext hlen' hkey.2

/-- If absent slots come to name empty tables and no other slot changes, no walk does. -/
theorem walk_link (hS : Placed T S place)
    (h : ∀ n p i, place n = some p → S' (T.level p) n i = S (T.level p) n i ∨
      (S (T.level p) n i = .absent ∧
        ∃ e, S' (T.level p) n i = .table e ∧ ∀ is, walk S' e is = none)) :
    ∀ (is : List ι) (n : ν) (p : π), place n = some p → is.length = T.level p + 1 →
      walk S' n is = walk S n is := by
  intro is
  induction is with
  | nil => intros; rfl
  | cons i is ih =>
    intro n p hn hlen
    have hl : is.length = T.level p := Nat.succ.inj hlen
    rw [walk, walk]
    rcases h n p i hn with hslot | ⟨habsent, e, htable, hempty⟩
    · rw [← hl] at hslot
      rw [hslot]
      cases hs : S is.length n i with
      | absent => rfl
      | leaf frame => rfl
      | table next =>
        obtain ⟨hnext, hlen'⟩ := hS.next hn hlen hs
        exact ih next _ hnext hlen'
    · rw [hl, habsent, htable]
      exact hempty is

/-- The tables a walk passes, with its start. -/
def visits (S : Store ν ι φ) : ν → List ι → List ν
  | _, [] => []
  | n, i :: is =>
    n :: match S is.length n i with
      | .table next => visits S next is
      | _ => []

/-- Walks pass placed tables only. -/
theorem placed_of_mem_visits (hS : Placed T S place) {t : ν} :
    ∀ (is : List ι) (n : ν) (p : π), place n = some p → is.length = T.level p + 1 →
      t ∈ visits S n is → ∃ q, place t = some q := by
  intro is
  induction is with
  | nil => intro n p _ _ ht; cases ht
  | cons i is ih =>
    intro n p hn hlen ht
    rw [visits, List.mem_cons] at ht
    rcases ht with rfl | ht
    · exact ⟨p, hn⟩
    split at ht
    · rename_i next hs
      obtain ⟨hnext, hlen'⟩ := hS.next hn hlen hs
      exact ih next _ hnext hlen' ht
    · cases ht

/-- Slots in use stay as they are. -/
def Grows (T : Shape ι π) (place : ν → Option π) (S S' : Store ν ι φ) : Prop :=
  ∀ n p i, place n = some p → S (T.level p) n i ≠ .absent →
    S' (T.level p) n i = S (T.level p) n i

/-- What a walk found it still finds. -/
theorem Grows.walk (h : Grows T place S S') (hS : Placed T S place) {x : φ × List ι} :
    ∀ (is : List ι) (n : ν) (p : π), place n = some p → is.length = T.level p + 1 →
      walk S n is = some x → walk S' n is = some x := by
  intro is
  induction is with
  | nil => intro n p _ _ hw; cases hw
  | cons i is ih =>
    intro n p hn hlen hw
    have hl : is.length = T.level p := Nat.succ.inj hlen
    rw [Radix.walk] at hw ⊢
    have hslot : S is.length n i ≠ .absent → S' is.length n i = S is.length n i := by
      rw [hl]
      exact h n p i hn
    cases hs : S is.length n i with
    | absent => rw [hs] at hw; cases hw
    | leaf frame =>
      rw [hslot (by rw [hs]; simp), hs]
      rw [hs] at hw
      exact hw
    | table next =>
      rw [hslot (by rw [hs]; simp), hs]
      rw [hs] at hw
      obtain ⟨hnext, hlen'⟩ := hS.next hn hlen hs
      exact ih next _ hnext hlen' hw

end Radix

end CourtKernel
