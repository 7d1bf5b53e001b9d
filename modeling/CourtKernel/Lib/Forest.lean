import Mathlib.Data.Finset.Card
import Mathlib.Data.Finset.Dedup

/-!
# Forests given by parent pointers

A forest over keys `κ` is a function `parent : κ → Option κ`.  `OnChain parent a d` says that
`a` lies on the parent chain of `d`, the key `d` itself included.

A second index may list the children of every key.  `Mirrors` says that this index agrees with
the parent pointers and that a rank grows from parent to child, so that there are no cycles.
`traverse` walks down the child index with an explicit stack and without a visited set.

* `OnChain.closed` — a set closed under going to a child contains every chain it meets.
* `OnChain.mono`, `OnChain.restrict` — chains under growth of the forest.
* `traverse_forest` — over a mirroring index inside a finite universe the traversal runs out of
  stack within as many turns as the universe has keys, and it visits exactly the keys whose
  chain passes through its start.
-/

namespace CourtKernel

variable {κ : Type}

/-- `a` lies on the parent chain of the indexed key. -/
inductive OnChain (parent : κ → Option κ) (a : κ) : κ → Prop where
  | refl : OnChain parent a a
  | up {d p : κ} : parent d = some p → OnChain parent a p → OnChain parent a d

namespace OnChain

variable {parent parent' : κ → Option κ} {a b d : κ}

theorem trans (hab : OnChain parent a b) (hbd : OnChain parent b d) : OnChain parent a d := by
  induction hbd with
  | refl => exact hab
  | up hp _ ih => exact .up hp ih

/-- A set that every child of a member joins contains all chains through a member. -/
theorem closed {P : κ → Prop} (child : ∀ d p, parent d = some p → P p → P d) (ha : P a)
    (h : OnChain parent a d) : P d := by
  induction h with
  | refl => exact ha
  | up hp _ ih => exact child _ _ hp ih

/-- Adding parent pointers keeps every chain. -/
theorem mono (ext : ∀ d p, parent d = some p → parent' d = some p) (h : OnChain parent a d) :
    OnChain parent' a d := by
  induction h with
  | refl => exact .refl
  | up hp _ ih => exact .up (ext _ _ hp) ih

/-- A chain below a key of an old part `S` of the forest is a chain of the old forest, when
parents of old keys are old and unchanged. -/
theorem restrict {S : κ → Prop} (old : ∀ d p, S d → parent' d = some p → S p)
    (same : ∀ d, S d → parent' d = parent d) (h : OnChain parent' a d) (hd : S d) :
    OnChain parent a d := by
  induction h with
  | refl => exact .refl
  | up hp _ ih => exact .up (by rw [← same _ hd]; exact hp) (ih (old _ _ hd hp))

theorem rank_le {rank : κ → Nat} (grow : ∀ d p, parent d = some p → rank p < rank d)
    (h : OnChain parent a d) : rank a ≤ rank d := by
  induction h with
  | refl => exact Nat.le_refl _
  | up hp _ ih => exact Nat.le_trans ih (Nat.le_of_lt (grow _ _ hp))

end OnChain

/-! ## Traversal with an explicit stack -/

/-- The child index agrees with the parent pointers, and ranks grow downwards. -/
structure Mirrors (parent : κ → Option κ) (children : κ → List κ) (rank : κ → Nat) : Prop where
  mem : ∀ x y, y ∈ children x ↔ parent y = some x
  nodup : ∀ x, (children x).Nodup
  grow : ∀ y x, parent y = some x → rank x < rank y

/-- `n` turns of the loop "pop a key, push its children": the keys popped, in order, and what is
left on the stack.  The head of the list is the top of the stack. -/
def traverse (children : κ → List κ) : Nat → List κ → List κ × List κ
  | 0, stack => ([], stack)
  | _ + 1, [] => ([], [])
  | n + 1, x :: stack =>
    let r := traverse children n ((children x).reverse ++ stack)
    (x :: r.1, r.2)

/-- Loop invariant of the traversal from `c`: `seen` has been popped, `stack` is pending. -/
structure Visited (parent : κ → Option κ) (children : κ → List κ) (U : Finset κ) (c : κ)
    (seen stack : List κ) : Prop where
  nodup : (seen ++ stack).Nodup
  chain : ∀ x ∈ seen ++ stack, OnChain parent c x
  inside : ∀ x ∈ seen ++ stack, x ∈ U
  root : c ∈ seen ++ stack
  origin : ∀ y ∈ seen ++ stack, y = c ∨ ∃ p ∈ seen, parent y = some p
  pushed : ∀ x ∈ seen, ∀ y ∈ children x, y ∈ seen ++ stack

section Traverse

variable {parent : κ → Option κ} {children : κ → List κ} {rank : κ → Nat} {U : Finset κ} {c : κ}

/-- A child of the key on top of the stack has not been met before: its parent would have been
popped already, and the start of the traversal ranks too low to be a child. -/
theorem Visited.fresh {seen stack : List κ} {x y : κ} (hm : Mirrors parent children rank)
    (h : Visited parent children U c seen (x :: stack)) (hy : y ∈ children x) :
    y ∉ seen ++ x :: stack := by
  intro hmem
  have hpar : parent y = some x := (hm.mem x y).1 hy
  rcases h.origin y hmem with rfl | ⟨p, hp, hpy⟩
  · have hle := (h.chain x (by simp)).rank_le hm.grow
    have hlt := hm.grow y x hpar
    omega
  · rw [hpar] at hpy
    obtain rfl := Option.some.inj hpy
    exact (List.nodup_append.1 h.nodup).2.2 x hp x (by simp) rfl

theorem Visited.turn {seen stack : List κ} {x : κ} (hm : Mirrors parent children rank)
    (hU : ∀ x ∈ U, ∀ y ∈ children x, y ∈ U)
    (h : Visited parent children U c seen (x :: stack)) :
    Visited parent children U c (seen ++ [x]) ((children x).reverse ++ stack) := by
  -- the new lists hold the old keys and the children of `x`
  have hmem : ∀ y, y ∈ (seen ++ [x]) ++ ((children x).reverse ++ stack) ↔
      y ∈ seen ++ x :: stack ∨ y ∈ children x := by
    intro y
    simp only [List.mem_append, List.mem_cons, List.mem_reverse, List.not_mem_nil, or_false]
    tauto
  have hx : x ∈ seen ++ x :: stack := by simp
  refine ⟨?_, ?_, ?_, ?_, ?_, ?_⟩
  · have hold : ((seen ++ [x]) ++ stack).Nodup := by simpa using h.nodup
    refine (List.perm_append_comm_assoc _ _ _).nodup_iff.2 (List.nodup_append.2 ⟨?_, hold, ?_⟩)
    · exact List.nodup_reverse.2 (hm.nodup x)
    · rintro y hy _ hz rfl
      exact h.fresh hm (List.mem_reverse.1 hy) (by simpa using hz)
  · intro y hy
    rcases (hmem y).1 hy with hy | hy
    · exact h.chain y hy
    · exact .up ((hm.mem x y).1 hy) (h.chain x hx)
  · intro y hy
    rcases (hmem y).1 hy with hy | hy
    · exact h.inside y hy
    · exact hU x (h.inside x hx) y hy
  · exact (hmem c).2 (Or.inl h.root)
  · intro y hy
    rcases (hmem y).1 hy with hy | hy
    · rcases h.origin y hy with rfl | ⟨p, hp, hpy⟩
      · exact Or.inl rfl
      · exact Or.inr ⟨p, List.mem_append_left _ hp, hpy⟩
    · exact Or.inr ⟨x, by simp, (hm.mem x y).1 hy⟩
  · intro z hz y hy
    rcases List.mem_append.1 hz with hz | hz
    · exact (hmem y).2 (Or.inl (h.pushed z hz y hy))
    · obtain rfl := List.mem_singleton.1 hz
      exact (hmem y).2 (Or.inr hy)

/-- The keys met so far fit into the universe. -/
theorem Visited.length_le {seen stack : List κ} (h : Visited parent children U c seen stack) :
    seen.length + stack.length ≤ U.card := by
  classical
  have hcard := List.toFinset_card_of_nodup h.nodup
  rw [List.length_append] at hcard
  rw [← hcard]
  exact Finset.card_le_card fun x hx => h.inside x (List.mem_toFinset.1 hx)

/-- Enough turns for the keys not yet popped empty the stack. -/
theorem traverse_visited (hm : Mirrors parent children rank)
    (hU : ∀ x ∈ U, ∀ y ∈ children x, y ∈ U) :
    ∀ (n : Nat) (seen stack : List κ), Visited parent children U c seen stack →
      U.card ≤ n + seen.length →
      ∃ more, traverse children n stack = (more, []) ∧
        Visited parent children U c (seen ++ more) [] := by
  intro n
  induction n with
  | zero =>
    intro seen stack h hn
    have hlen := h.length_le
    have hnil : stack = [] := List.length_eq_zero_iff.1 (by omega)
    subst hnil
    exact ⟨[], rfl, by simpa using h⟩
  | succ n ih =>
    intro seen stack h hn
    cases stack with
    | nil => exact ⟨[], rfl, by simpa using h⟩
    | cons x stack =>
      obtain ⟨more, hrun, hvis⟩ := ih (seen ++ [x]) _ (h.turn hm hU) (by simp; omega)
      refine ⟨x :: more, ?_, by simpa using hvis⟩
      simp only [traverse, hrun]

/-- **Traversal of a subtree.**  Within `U.card` turns the stack is empty, and the keys popped
are exactly those whose parent chain passes through `c`. -/
theorem traverse_forest (hm : Mirrors parent children rank)
    (hU : ∀ x ∈ U, ∀ y ∈ children x, y ∈ U) (hc : c ∈ U) :
    ∃ seen, traverse children U.card [c] = (seen, []) ∧
      ∀ d, d ∈ seen ↔ OnChain parent c d := by
  have hstart : Visited parent children U c [] [c] := by
    refine ⟨by simp, ?_, ?_, by simp, ?_, by simp⟩
    · intro x hx; obtain rfl := List.mem_singleton.1 hx; exact .refl
    · intro x hx; obtain rfl := List.mem_singleton.1 hx; exact hc
    · intro x hx; exact Or.inl (List.mem_singleton.1 hx)
  obtain ⟨seen, hrun, hvis⟩ := traverse_visited hm hU U.card [] [c] hstart (by simp)
  simp only [List.nil_append] at hvis
  refine ⟨seen, hrun, fun d => ⟨fun hd => hvis.chain d (by simpa using hd), fun hd => ?_⟩⟩
  refine hd.closed (P := fun d => d ∈ seen) ?_ (by simpa using hvis.root)
  intro y x hpar hx
  simpa using hvis.pushed x hx y ((hm.mem x y).2 hpar)

end Traverse

end CourtKernel
