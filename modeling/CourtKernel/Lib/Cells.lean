import CourtKernel.Lib.Machine
import Mathlib.Logic.Function.Basic

/-!
# Clients at shared cells

Clients work on cells that they share.  Each client has a private state and is attached to one cell,
and a step of a client reads and writes its own state and its cell.  Any number of clients may be
attached to a cell, and a schedule interleaves them as it likes.

* `AgreeAt k` — two states that the clients of cell `k` cannot tell apart.
* `agree_other`, `agree_step` — a client of another cell changes nothing of it, and a client of the
  cell acts alike.
* `log_filter` — the clients of a cell get the answers that they would get without all others.
* `log_sole` — a client that has a cell to itself is a machine of its own.
-/

namespace CourtKernel

/-- Clients `ι` with private states `τ`, attached to cells `κ` with contents `γ`. -/
structure Sharing (ι κ γ τ α ρ : Type) where
  cell : ι → κ
  step : γ → τ → α → ρ × γ × τ

namespace Sharing

variable {ι κ γ τ α ρ : Type} [DecidableEq ι] [DecidableEq κ] (S : Sharing ι κ γ τ α ρ)

/-- The contents of all cells and the private states of all clients. -/
structure State (ι κ γ τ : Type) where
  cells : κ → γ
  locals : ι → τ

/-- One step of one client. -/
def clientStep (s : State ι κ γ τ) (a : ι × α) : ρ × State ι κ γ τ :=
  let (r, g, t) := S.step (s.cells (S.cell a.1)) (s.locals a.1) a.2
  (r, ⟨Function.update s.cells (S.cell a.1) g, Function.update s.locals a.1 t⟩)

/-- All clients, under any schedule. -/
def machine (s : State ι κ γ τ) : Machine (State ι κ γ τ) (ι × α) ρ := ⟨s, S.clientStep⟩

/-- The clients of the cell cannot tell the states apart. -/
structure AgreeAt (k : κ) (s s' : State ι κ γ τ) : Prop where
  cells : s.cells k = s'.cells k
  locals : ∀ i, S.cell i = k → s.locals i = s'.locals i

variable {S} {k : κ} {s s' : State ι κ γ τ} {a : ι × α}

/-- Clients of other cells change nothing. -/
theorem AgreeAt.agree_other (h : S.AgreeAt k s s') (ha : S.cell a.1 ≠ k) :
    S.AgreeAt k (S.clientStep s a).2 s' := by
  refine ⟨?_, fun i hi => ?_⟩
  · exact (Function.update_of_ne ha.symm ..).trans h.cells
  · refine (Function.update_of_ne ?_ ..).trans (h.locals i hi)
    rintro rfl
    exact ha hi

/-- Clients of the cell act alike. -/
theorem AgreeAt.agree_step (h : S.AgreeAt k s s') (ha : S.cell a.1 = k) :
    (S.clientStep s a).1 = (S.clientStep s' a).1 ∧
      S.AgreeAt k (S.clientStep s a).2 (S.clientStep s' a).2 := by
  subst ha
  have hcell := h.cells
  have hlocal := h.locals a.1 rfl
  unfold clientStep
  rw [hcell, hlocal]
  refine ⟨rfl, ?_, fun i hi => ?_⟩
  · simp only [Function.update_self]
  · by_cases hia : i = a.1
    · subst hia
      simp only [Function.update_self]
    · simp only [Function.update_of_ne hia]
      exact h.locals i hi

/-- **Noninterference.**  The clients of a cell get the answers that they would get if the clients of
all other cells did nothing. -/
theorem log_filter (k : κ) (acts : List (ι × α)) : ∀ {s s' : State ι κ γ τ}, S.AgreeAt k s s' →
    ∀ s₀ : State ι κ γ τ, ((S.machine s₀).log s acts).filter (fun e => S.cell e.1.1 = k) =
      (S.machine s₀).log s' (acts.filter fun a => S.cell a.1 = k) := by
  induction acts with
  | nil => intro s s' _ s₀; rfl
  | cons a acts ih =>
    intro s s' h s₀
    rw [Machine.log_cons]
    by_cases ha : S.cell a.1 = k
    · obtain ⟨hr, hs⟩ := h.agree_step ha
      rw [List.filter_cons_of_pos (by simpa using ha), List.filter_cons_of_pos (by simpa using ha),
        Machine.log_cons]
      exact congrArg₂ List.cons (congrArg (Prod.mk a) hr) (ih hs s₀)
    · rw [List.filter_cons_of_neg (by simpa using ha), List.filter_cons_of_neg (by simpa using ha)]
      exact ih (h.agree_other ha) s₀

/-- The calls of one client. -/
def callsOf (i : ι) (acts : List (ι × α)) : List α :=
  acts.filterMap fun a => if a.1 = i then some a.2 else none

/-- The entries of one client in a log. -/
def entriesOf (i : ι) (log : List ((ι × α) × ρ)) : List (α × ρ) :=
  log.filterMap fun e => if e.1.1 = i then some (e.1.2, e.2) else none

/-- A client with its cell. -/
def alone (S : Sharing ι κ γ τ α ρ) (g : γ) (t : τ) : Machine (γ × τ) α ρ :=
  ⟨(g, t), fun s a => S.step s.1 s.2 a⟩

/-- A client that has a cell to itself is a machine of its own. -/
theorem log_sole {i : ι} (hsole : ∀ j, S.cell j = S.cell i → j = i) (s₀ : State ι κ γ τ) (g : γ)
    (t : τ) (acts : List (ι × α)) : ∀ s : State ι κ γ τ,
    entriesOf i ((S.machine s₀).log s acts) =
      (S.alone g t).log (s.cells (S.cell i), s.locals i) (callsOf i acts) := by
  induction acts with
  | nil => intro s; rfl
  | cons a acts ih =>
    intro s
    rw [Machine.log_cons, entriesOf, callsOf, List.filterMap_cons, List.filterMap_cons]
    obtain ⟨j, c⟩ := a
    by_cases hj : j = i
    · subst hj
      rw [if_pos rfl, if_pos rfl, Machine.log_cons]
      refine congrArg (List.cons _) ((ih _).trans ?_)
      show (S.alone g t).log (Function.update s.cells (S.cell j) _ (S.cell j),
        Function.update s.locals j _ j) _ = _
      rw [Function.update_self, Function.update_self]
      rfl
    · have hcell : S.cell i ≠ S.cell j := fun he => hj (hsole j he.symm)
      rw [if_neg hj, if_neg hj]
      refine (ih _).trans ?_
      show (S.alone g t).log (Function.update s.cells (S.cell j) _ (S.cell i),
        Function.update s.locals j _ i) _ = _
      rw [Function.update_of_ne hcell, Function.update_of_ne (Ne.symm hj)]
      rfl

end Sharing

end CourtKernel
