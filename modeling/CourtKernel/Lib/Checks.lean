import Mathlib.Data.Finset.Insert

/-!
# Checks

A check returns a value or stops with an error.  A validator is a sequence of checks, and loops of
checks over lists.

* `bind_eq_ok` — a sequence succeeds if both parts do.
* `refuseIf`, `ite_throw_eq_ok` — the early return of a validator.
* `forM_eq_ok`, `foldlM_cons_eq_ok` — loops, without and with an accumulator.
* `exists_mapM_eq_ok`, `forall₂_of_mapM_eq_ok` — a list of results.
* `fresh_cons` — one turn of a loop that collects keys and refuses one that it has seen.
-/

namespace CourtKernel

variable {ε α β : Type}

theorem bind_eq_ok {x : Except ε α} {f : α → Except ε β} {b : β} :
    (x >>= f) = .ok b ↔ ∃ a, x = .ok a ∧ f a = .ok b := by
  cases x with
  | error e =>
    refine ⟨fun h => ?_, ?_⟩
    · cases h
    · rintro ⟨a, h, -⟩
      cases h
  | ok a =>
    refine ⟨fun h => ⟨a, rfl, h⟩, ?_⟩
    rintro ⟨a', h, hf⟩
    cases h
    exact hf

theorem pure_eq_ok {a b : α} : (pure a : Except ε α) = .ok b ↔ b = a :=
  ⟨fun h => (Except.ok.inj h).symm, fun h => congrArg Except.ok h.symm⟩

/-- Stop with an error if something is wrong. -/
def refuseIf (wrong : Prop) [Decidable wrong] (error : ε) : Except ε Unit :=
  if wrong then .error error else .ok ()

@[simp] theorem refuseIf_eq_ok {wrong : Prop} [Decidable wrong] {error : ε} {u : Unit} :
    refuseIf wrong error = .ok u ↔ ¬ wrong := by
  unfold refuseIf
  split
  · rename_i h
    simp [h]
  · rename_i h
    simp [h]

/-- An early return on the way to a result. -/
theorem ite_throw_eq_ok {wrong : Prop} [Decidable wrong] {e : ε} {x : Except ε α} {a : α} :
    (if wrong then throw e else x) = .ok a ↔ ¬ wrong ∧ x = .ok a := by
  split
  · rename_i h
    simp [h, throw, throwThe, MonadExceptOf.throw]
  · rename_i h
    simp [h]

/-- A loop of checks succeeds if each of them does. -/
theorem forM_eq_ok {f : α → Except ε Unit} {l : List α} {u : Unit} :
    forM l f = .ok u ↔ ∀ a ∈ l, f a = .ok () := by
  induction l with
  | nil => simp [pure, Except.pure]
  | cons a l ih =>
    rw [List.forM_cons, bind_eq_ok, List.forall_mem_cons, ← ih]
    exact ⟨fun ⟨_, h, hf⟩ => ⟨h, hf⟩, fun ⟨h, hf⟩ => ⟨(), h, hf⟩⟩

/-- A list of computations succeeds if each of them does. -/
theorem exists_mapM_eq_ok {f : α → Except ε β} {l : List α} (h : ∀ a ∈ l, ∃ b, f a = .ok b) :
    ∃ r, l.mapM f = .ok r := by
  induction l with
  | nil => exact ⟨[], rfl⟩
  | cons a l ih =>
    rw [List.forall_mem_cons] at h
    obtain ⟨b, hb⟩ := h.1
    obtain ⟨r, hr⟩ := ih h.2
    refine ⟨b :: r, ?_⟩
    rw [List.mapM_cons]
    exact bind_eq_ok.2 ⟨b, hb, bind_eq_ok.2 ⟨r, hr, rfl⟩⟩

/-- Each result comes from an entry, in order. -/
theorem forall₂_of_mapM_eq_ok {f : α → Except ε β} {l : List α} {r : List β}
    (h : l.mapM f = .ok r) : List.Forall₂ (fun a b => f a = .ok b) l r := by
  induction l generalizing r with
  | nil =>
    rw [List.mapM_nil, pure_eq_ok] at h
    rw [h]
    exact .nil
  | cons a l ih =>
    rw [List.mapM_cons] at h
    obtain ⟨b, hb, h⟩ := bind_eq_ok.1 h
    obtain ⟨bs, hbs, h⟩ := bind_eq_ok.1 h
    rw [pure_eq_ok.1 h]
    exact .cons hb (ih hbs)

theorem foldlM_nil_eq_ok {f : β → α → Except ε β} {b b' : β} :
    ([] : List α).foldlM f b = .ok b' ↔ b' = b := by
  rw [List.foldlM_nil, pure_eq_ok]

theorem foldlM_cons_eq_ok {f : β → α → Except ε β} {b b' : β} {a : α} {l : List α} :
    (a :: l).foldlM f b = .ok b' ↔ ∃ b₁, f b a = .ok b₁ ∧ l.foldlM f b₁ = .ok b' := by
  rw [List.foldlM_cons, bind_eq_ok]

/-- All keys of a list are new and different if the first is new and the others are after it. -/
theorem fresh_cons {κ : Type} [DecidableEq κ] {key : α → κ} {seen : Finset κ} {a : α} {l : List α} :
    ((∀ x ∈ a :: l, key x ∉ seen) ∧ ((a :: l).map key).Nodup) ↔
      key a ∉ seen ∧ (∀ x ∈ l, key x ∉ insert (key a) seen) ∧ (l.map key).Nodup := by
  rw [List.forall_mem_cons, List.map_cons, List.nodup_cons]
  simp only [Finset.mem_insert, not_or, List.mem_map, not_exists, not_and]
  constructor
  · rintro ⟨⟨ha, hl⟩, hne, hnodup⟩
    exact ⟨ha, fun x hx => ⟨hne x hx, hl x hx⟩, hnodup⟩
  · rintro ⟨ha, hl, hnodup⟩
    exact ⟨⟨ha, fun x hx => (hl x hx).2⟩, fun x hx => (hl x hx).1, hnodup⟩

end CourtKernel
