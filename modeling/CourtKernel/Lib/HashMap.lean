import Mathlib.Data.Finmap
import Mathlib.Data.List.Sort

/-!
# Hash tables

A hash table is used through its keys only, and two tables with the same entries are the same
table.  Mathlib's `Finmap` is exactly that: finite, unordered, extensional, and executable.
`adjust` is the `get_mut` of a table: it rewrites the value of a key that is present and does
nothing otherwise.

* `lookup_insert_ite`, `lookup_adjust` — what a lookup sees after an update.
* `Order` — an order in which a table can be walked.  A program that walks a table takes one and
  may assume nothing else about it.  `Order.perm` and `Order.find?_map_eq` compare two of them;
  `Order.first` is one that begins at a given key.
-/

namespace CourtKernel

/-- A finite table from keys to values, without an order on its entries. -/
abbrev HashMap (κ ν : Type) := Finmap fun _ : κ => ν

namespace HashMap

variable {κ ν : Type} [DecidableEq κ]

theorem lookup_insert_ite (m : HashMap κ ν) (a k : κ) (v : ν) :
    (m.insert a v).lookup k = if k = a then some v else m.lookup k := by
  split
  · rename_i h; subst h; exact Finmap.lookup_insert m
  · rename_i h; exact Finmap.lookup_insert_of_ne m h

/-- Inserting under a key that is not there keeps every entry. -/
theorem lookup_insert_fresh {m : HashMap κ ν} {a k : κ} {v w : ν} (ha : a ∉ m)
    (hk : m.lookup k = some v) : (m.insert a w).lookup k = some v := by
  rw [lookup_insert_ite, if_neg, hk]
  rintro rfl
  exact ha (Finmap.mem_of_lookup_eq_some hk)

/-- Removing a key adds nothing. -/
theorem lookup_of_erase {m : HashMap κ ν} {a k : κ} {v : ν} (h : (m.erase a).lookup k = some v) :
    m.lookup k = some v := by
  by_cases hk : k = a
  · subst hk
    rw [Finmap.lookup_erase] at h
    cases h
  · rwa [Finmap.lookup_erase_ne hk] at h

/-- Rewrite the value stored under `k`, if there is one. -/
def adjust (m : HashMap κ ν) (k : κ) (f : ν → ν) : HashMap κ ν :=
  match m.lookup k with
  | none => m
  | some v => m.insert k (f v)

theorem lookup_adjust (m : HashMap κ ν) (k a : κ) (f : ν → ν) :
    (m.adjust k f).lookup a = if a = k then (m.lookup a).map f else m.lookup a := by
  unfold adjust
  split
  · rename_i h
    split
    · rename_i e; subst e; rw [h]; rfl
    · rfl
  · rename_i v h
    rw [lookup_insert_ite]
    split
    · rename_i e; subst e; rw [h]; rfl
    · rfl

/-! ## Walking a table -/

/-- A way to walk tables: every entry comes once, in an order that may depend on the table. -/
structure Order (κ ν : Type) [DecidableEq κ] where
  entries : HashMap κ ν → List (κ × ν)
  mem : ∀ m k v, (k, v) ∈ entries m ↔ m.lookup k = some v
  nodup : ∀ m, ((entries m).map Prod.fst).Nodup

namespace Order

variable {γ : Type} (o o' : Order κ ν) (m : HashMap κ ν)

/-- Two walks see the same entries. -/
theorem perm : (o.entries m).Perm (o'.entries m) := by
  refine (List.perm_ext_iff_of_nodup (List.Nodup.of_map _ (o.nodup m))
    (List.Nodup.of_map _ (o'.nodup m))).2 fun ⟨k, v⟩ => ?_
  rw [o.mem, o'.mem]

/-- A search has the same result in every order, if all that it can find are alike. -/
theorem find?_map_eq {p : κ × ν → Bool} {f : κ × ν → γ}
    (h : ∀ x ∈ o.entries m, ∀ y ∈ o.entries m, p x = true → p y = true → f x = f y) :
    ((o.entries m).find? p).map f = ((o'.entries m).find? p).map f := by
  have hmem : ∀ x, x ∈ o'.entries m ↔ x ∈ o.entries m := fun x => ((perm o o' m).mem_iff).symm
  cases hx : (o.entries m).find? p with
  | none =>
    have hnone : (o'.entries m).find? p = none :=
      List.find?_eq_none.2 fun x hx' => List.find?_eq_none.1 hx x ((hmem x).1 hx')
    rw [hnone]
  | some x =>
    have hxm := List.mem_of_find?_eq_some hx
    cases hy : (o'.entries m).find? p with
    | none => exact absurd (List.find?_some hx) (List.find?_eq_none.1 hy x ((hmem x).2 hxm))
    | some y =>
      have hym := (hmem y).1 (List.mem_of_find?_eq_some hy)
      rw [Option.map_some, Option.map_some, h x hxm y hym (List.find?_some hx) (List.find?_some hy)]

/-- The walk that takes one key first. -/
def first (k : κ) : Order κ ν where
  entries m := (o.entries m).filter (fun x => x.1 = k) ++ (o.entries m).filter (fun x => ¬ x.1 = k)
  mem m a v := by
    rw [List.mem_append, List.mem_filter, List.mem_filter, ← and_or_left, o.mem]
    simp [em]
  nodup m := by
    have hperm := List.filter_append_perm (fun x : κ × ν => decide (x.1 = k)) (o.entries m)
    simp only [← decide_not] at hperm
    exact (hperm.map Prod.fst).nodup_iff.2 (o.nodup m)

/-- A search that accepts the entry of the key finds it. -/
theorem find?_first {k : κ} {v : ν} (hk : m.lookup k = some v) {p : κ × ν → Bool}
    (hp : p (k, v) = true) : ((o.first k).entries m).find? p = some (k, v) := by
  have hmem : (k, v) ∈ (o.entries m).filter (fun x => x.1 = k) :=
    List.mem_filter.2 ⟨(o.mem m k v).2 hk, decide_eq_true rfl⟩
  show List.find? p ((o.entries m).filter _ ++ (o.entries m).filter _) = _
  rw [List.find?_append]
  cases hx : ((o.entries m).filter fun x => x.1 = k).find? p with
  | none => exact absurd hp (List.find?_eq_none.1 hx _ hmem)
  | some x =>
    obtain ⟨a, w⟩ := x
    obtain ⟨haw, ha⟩ := List.mem_filter.1 (List.mem_of_find?_eq_some hx)
    obtain rfl : a = k := of_decide_eq_true ha
    rw [o.mem, hk] at haw
    rw [Option.some.inj haw]
    rfl

end Order

section Sorted

variable {ι : Type} [LinearOrder ι] (rank : κ → ι) (hr : Function.Injective rank)

/-- The keys of a table, by their rank. -/
def sortedKeys (m : HashMap κ ν) : List κ :=
  m.liftOn (fun a => a.keys.insertionSort fun x y => rank x ≤ rank y) fun _ _ hab =>
    List.Perm.eq_of_pairwise (fun _ _ _ _ hxy hyx => hr (le_antisymm hxy hyx))
      (List.pairwise_insertionSort ..) (List.pairwise_insertionSort ..)
      ((List.perm_insertionSort ..).trans ((hab.map Sigma.fst).trans
        (List.perm_insertionSort ..).symm))

omit [DecidableEq κ] in
theorem sortedKeys_perm (m : HashMap κ ν) : (sortedKeys rank hr m : Multiset κ) = m.keys.val := by
  induction m using Finmap.induction_on with
  | H a => exact Multiset.coe_eq_coe.2 (List.perm_insertionSort ..)

/-- Tables can be walked by the rank of their keys. -/
def Order.sorted : Order κ ν where
  entries m := (sortedKeys rank hr m).filterMap fun k => (m.lookup k).map (Prod.mk k)
  mem m k v := by
    have hkey : k ∈ sortedKeys rank hr m ↔ k ∈ m := by
      rw [← Multiset.mem_coe, sortedKeys_perm, ← Finmap.mem_keys]
      rfl
    rw [List.mem_filterMap]
    constructor
    · rintro ⟨k', -, hk'⟩
      obtain ⟨v', hv, heq⟩ := Option.map_eq_some_iff.1 hk'
      obtain ⟨rfl, rfl⟩ := Prod.mk.inj heq
      exact hv
    · intro hv
      exact ⟨k, hkey.2 (Finmap.mem_of_lookup_eq_some hv), by rw [hv]; rfl⟩
  nodup m := by
    rw [List.map_filterMap]
    refine List.Nodup.filterMap (fun a a' b ha ha' => ?_) ?_
    · simp only [Option.map_map, Option.mem_def, Option.map_eq_some_iff] at ha ha'
      obtain ⟨_, _, hb⟩ := ha
      obtain ⟨_, _, hb'⟩ := ha'
      exact hb.trans hb'.symm
    · rw [← Multiset.coe_nodup, sortedKeys_perm]
      exact m.keys.nodup

end Sorted

end HashMap

end CourtKernel
