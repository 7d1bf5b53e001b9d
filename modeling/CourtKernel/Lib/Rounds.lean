import CourtKernel.Lib.Machine

/-!
# Progress in rounds

Liveness of a machine whose calls come from several parties.  A run is a list of rounds; a round makes
every call that is *due* at least once, in any order, any number of times and among other calls.

`Ranking` is what a system has to supply, one call at a time: a rank that no call raises, and in every
state that is not the goal a due call that lowers it, and that stays the one to wait for as long as the
rank stays.  `Ranking.done_of_rounds` is the rule: the goal is reached within as many rounds as the rank
of the start.

The invariant is given the number of calls still to come, so that it can keep counters below a bound.
-/

namespace CourtKernel

namespace Machine

variable {σ α ρ : Type}

structure Ranking (M : Machine σ α ρ) (call due : α → Prop) (I : Nat → σ → Prop) (done : σ → Prop) where
  rank : σ → Nat
  /-- The call to wait for. -/
  helpful : σ → α
  keeps : ∀ n s c, I (n + 1) s → call c → I n (M.step s c).2
  stays : ∀ n s c, I (n + 1) s → call c → done s → done (M.step s c).2
  falls : ∀ n s c, I (n + 1) s → call c →
    rank (M.step s c).2 < rank s ∨ rank (M.step s c).2 = rank s ∧ helpful (M.step s c).2 = helpful s
  helps : ∀ n s, I (n + 1) s → ¬ done s →
    due (helpful s) ∧ rank (M.step s (helpful s)).2 < rank s

namespace Ranking

variable {M : Machine σ α ρ} {call due : α → Prop} {I : Nat → σ → Prop} {done : σ → Prop}
  (R : M.Ranking call due I done)
include R

theorem run_keeps {n : Nat} {s : σ} {cs : List α} (h : I (n + cs.length) s) (hcall : ∀ c ∈ cs, call c) :
    I n (M.run s cs) := by
  induction cs generalizing s with
  | nil => exact h
  | cons c cs ih =>
    rw [List.length_cons, ← Nat.add_assoc] at h
    exact ih (R.keeps _ s c h (hcall c List.mem_cons_self)) fun d hd => hcall d (List.mem_cons_of_mem c hd)

theorem run_stays {n : Nat} {s : σ} {cs : List α} (h : I (n + cs.length) s) (hcall : ∀ c ∈ cs, call c)
    (hdone : done s) : done (M.run s cs) := by
  induction cs generalizing s with
  | nil => exact hdone
  | cons c cs ih =>
    rw [List.length_cons, ← Nat.add_assoc] at h
    have hc := hcall c List.mem_cons_self
    exact ih (R.keeps _ s c h hc) (fun d hd => hcall d (List.mem_cons_of_mem c hd)) (R.stays _ s c h hc hdone)

theorem run_le {n : Nat} {s : σ} {cs : List α} (h : I (n + cs.length) s) (hcall : ∀ c ∈ cs, call c) :
    R.rank (M.run s cs) ≤ R.rank s := by
  induction cs generalizing s with
  | nil => exact Nat.le_refl _
  | cons c cs ih =>
    rw [List.length_cons, ← Nat.add_assoc] at h
    have hc := hcall c List.mem_cons_self
    have hrest := ih (R.keeps _ s c h hc) fun d hd => hcall d (List.mem_cons_of_mem c hd)
    rw [run_cons]
    rcases R.falls _ s c h hc with hlt | ⟨heq, -⟩ <;> omega

/-- A round that makes the call waited for lowers the rank or reaches the goal. -/
theorem run_lt {n : Nat} {s : σ} {cs : List α} (h : I (n + cs.length) s) (hcall : ∀ c ∈ cs, call c)
    (hmem : R.helpful s ∈ cs) (hdone : ¬ done s) :
    done (M.run s cs) ∨ R.rank (M.run s cs) < R.rank s := by
  induction cs generalizing s with
  | nil => exact absurd hmem List.not_mem_nil
  | cons c cs ih =>
    rw [List.length_cons, ← Nat.add_assoc] at h
    have hc := hcall c List.mem_cons_self
    have hcs : ∀ d ∈ cs, call d := fun d hd => hcall d (List.mem_cons_of_mem c hd)
    have hnext := R.keeps _ s c h hc
    rw [run_cons]
    by_cases hgoal : done (M.step s c).2
    · exact .inl (R.run_stays hnext hcs hgoal)
    · rcases R.falls _ s c h hc with hlt | ⟨hrank, hhelp⟩
      · exact .inr (Nat.lt_of_le_of_lt (R.run_le hnext hcs) hlt)
      · -- the rank stayed, so this was another call and the one waited for is still to come
        rcases List.mem_cons.1 hmem with heq | hlater
        · have hhelps := (R.helps _ s h hdone).2
          rw [heq] at hhelps
          omega
        · rw [← hrank]
          exact ih hnext hcs (hhelp ▸ hlater) hgoal

/-- **Progress.**  The goal is reached within as many rounds as the rank of the start. -/
theorem done_of_rounds {s : σ} {rounds : List (List α)} (h : I (rounds.flatten.length + 1) s)
    (hcall : ∀ c ∈ rounds.flatten, call c) (hdue : ∀ r ∈ rounds, ∀ c, due c → c ∈ r)
    (hmany : R.rank s ≤ rounds.length) : done (M.run s rounds.flatten) := by
  induction rounds generalizing s with
  | nil =>
    by_contra hdone
    have hlt := (R.helps _ s h hdone).2
    rw [List.length_nil] at hmany
    omega
  | cons r rounds ih =>
    simp only [List.flatten_cons, List.length_append, List.mem_append] at h hcall
    have hr : ∀ c ∈ r, call c := fun c hc => hcall c (.inl hc)
    have hrest : ∀ c ∈ rounds.flatten, call c := fun c hc => hcall c (.inr hc)
    have hnow : I (rounds.flatten.length + 1 + r.length) s := by
      rw [Nat.add_comm, ← Nat.add_assoc]
      exact h
    have hkept : I (rounds.flatten.length + 1) (M.run s r) := R.run_keeps hnow hr
    have hround : done (M.run s r) ∨ R.rank (M.run s r) < R.rank s := by
      by_cases hdone : done s
      · exact .inl (R.run_stays hnow hr hdone)
      · exact R.run_lt hnow hr (hdue r List.mem_cons_self _ (R.helps _ s h hdone).1) hdone
    rw [List.flatten_cons, run_append]
    rcases hround with hdone | hlt
    · exact R.run_stays (n := 1) (by rw [Nat.add_comm]; exact hkept) hrest hdone
    · rw [List.length_cons] at hmany
      exact ih hkept hrest (fun r' hr' => hdue r' (List.mem_cons_of_mem r hr')) (by omega)

end Ranking

end Machine

end CourtKernel
