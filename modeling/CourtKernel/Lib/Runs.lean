import Mathlib.Data.List.Pairwise

/-!
# Partial maps made of runs

A finite partial map between numbers, given by runs: a run takes `count` consecutive keys to values
that lie `u` apart.  Where runs overlap the first one counts.

* `find_concat_of_has`, `find_concat_of_not` — adding a run at the end.
* `find_inj` — runs whose values are apart make an injective map.
-/

namespace CourtKernel

/-- `count` keys from `first` on, with values from `frame` on. -/
structure Run where
  first : Nat
  frame : Nat
  count : Nat
  deriving DecidableEq

namespace Run

variable {u v v' f : Nat} {run new : Run} {runs : List Run}

def Has (run : Run) (v : Nat) : Prop := run.first ≤ v ∧ v < run.first + run.count

instance : Decidable (run.Has v) := inferInstanceAs (Decidable (_ ∧ _))

/-- The value of a key of the run. -/
def target (u : Nat) (run : Run) (v : Nat) : Nat := run.frame + (v - run.first) * u

/-- The value of a key. -/
def find (u : Nat) : List Run → Nat → Option Nat
  | [], _ => none
  | run :: runs, v => if run.Has v then some (run.target u v) else find u runs v

/-- No value of one run lies among the values of the other. -/
def Apart (u : Nat) (a b : Run) : Prop :=
  a.frame + a.count * u ≤ b.frame ∨ b.frame + b.count * u ≤ a.frame

theorem Has.target_bounds (h : run.Has v) :
    run.frame ≤ run.target u v ∧ run.target u v + u ≤ run.frame + run.count * u := by
  obtain ⟨h1, h2⟩ := h
  have hmul : (v - run.first + 1) * u ≤ run.count * u := Nat.mul_le_mul_right u (by omega)
  rw [Nat.add_mul, Nat.one_mul] at hmul
  unfold target
  omega

theorem exists_of_find (h : find u runs v = some f) :
    ∃ run ∈ runs, run.Has v ∧ f = run.target u v := by
  induction runs with
  | nil => cases h
  | cons run runs ih =>
    rw [find] at h
    split at h
    · rename_i hv
      exact ⟨run, List.mem_cons_self, hv, (Option.some.inj h).symm⟩
    · obtain ⟨run', hmem, hrun'⟩ := ih h
      exact ⟨run', List.mem_cons_of_mem _ hmem, hrun'⟩

theorem find_eq_none : find u runs v = none ↔ ∀ run ∈ runs, ¬ run.Has v := by
  induction runs with
  | nil => simp [find]
  | cons run runs ih =>
    rw [find]
    split <;> simp_all

theorem find_append (a b : List Run) :
    find u (a ++ b) v = (find u a v).or (find u b v) := by
  induction a with
  | nil => rfl
  | cons run a ih =>
    rw [List.cons_append, find, find, ih]
    split <;> rfl

theorem find_concat_of_not (h : ¬ new.Has v) : find u (runs ++ [new]) v = find u runs v := by
  rw [find_append, find, if_neg h, find, Option.or_none]

theorem find_concat_of_has (hnone : find u runs v = none) (h : new.Has v) :
    find u (runs ++ [new]) v = some (new.target u v) := by
  rw [find_append, hnone, find, if_pos h, Option.none_or]

theorem isSome_find : (find u runs v).isSome ↔ ∃ run ∈ runs, run.Has v := by
  rw [← Option.ne_none_iff_isSome, Ne, find_eq_none]
  simp only [not_forall, not_not, exists_prop]

/-- Where runs do not overlap, the order does not matter. -/
theorem find_of_has (hkeys : runs.Pairwise fun a b => a.Has v → ¬ b.Has v) (hmem : run ∈ runs)
    (h : run.Has v) : find u runs v = some (run.target u v) := by
  induction runs with
  | nil => cases hmem
  | cons a runs ih =>
    rw [List.pairwise_cons] at hkeys
    rw [find]
    rcases List.mem_cons.1 hmem with rfl | hmem
    · rw [if_pos h]
    · rw [if_neg fun ha => hkeys.1 run hmem ha h, ih hkeys.2 hmem]

/-- Two keys with one value are one key. -/
theorem find_inj (hu : 0 < u) (hapart : runs.Pairwise (Apart u)) (h : find u runs v = some f)
    (h' : find u runs v' = some f) : v = v' := by
  obtain ⟨a, ha, hav, hf⟩ := exists_of_find h
  obtain ⟨b, hb, hbv, hf'⟩ := exists_of_find h'
  have hab : a = b := by
    by_contra hne
    have hsymm : Std.Symm (Apart u) := ⟨fun _ _ => Or.symm⟩
    have ha' := hav.target_bounds (u := u)
    have hb' := hbv.target_bounds (u := u)
    rcases hapart.forall ha hb hne with h | h <;> omega
  subst hab
  have hoff : (v - a.first) * u = (v' - a.first) * u := by
    unfold target at hf hf'
    omega
  have := Nat.eq_of_mul_eq_mul_right hu hoff
  obtain ⟨h1, -⟩ := hav
  obtain ⟨h2, -⟩ := hbv
  omega

end Run

end CourtKernel
