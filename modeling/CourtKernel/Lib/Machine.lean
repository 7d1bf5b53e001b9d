import Mathlib.Data.List.Infix

/-!
# Machines that answer calls

A component with a public interface is a machine: a state, and for every call an answer and a
next state.  A run is a list of calls; its *log* pairs every call with the answer it got.

* `run_append`, `log_append` — runs compose.
* `mem_log` — an entry of the log was answered in the state its prefix reached.
* `run_induction` — an invariant that links the log to the state, shown for one more call,
  holds after every run.  Plain state invariants are the special case `run_invariant`.
* `collect` — what the steps of a run contribute, in order.  `collect_conserved` is the law of a
  queue: if every step adds at the back and takes from the front, so does every run.
* `last_step` — a state that only one kind of call leads to goes back to the last such call.
* `run_replay` — event sourcing: if every step records events that replay its effect on a view of
  the state, the view after a run is the replay of the recorded events.
* `Along` — a condition on every call of a run, taken in the state the call meets; `along_iff` carries it
  to another machine.
* `lockstep` — two runs of the same calls from related states give the same answers, if every
  call that meets the condition does.
* `simulates` — two machines whose steps correspond give the same answers.  The relation may know the
  calls still to come.
* `Justified` — every entry of a log is accounted for by the entries before it.
-/

namespace CourtKernel

/-- A machine that answers calls `α` with replies `ρ`. -/
structure Machine (σ α ρ : Type) where
  init : σ
  step : σ → α → ρ × σ

namespace Machine

variable {σ α ρ : Type} (M : Machine σ α ρ)

/-- The state after a list of calls. -/
def run (s : σ) (cs : List α) : σ := cs.foldl (fun s c => (M.step s c).2) s

/-- Every call of a run with the answer it got. -/
def log : σ → List α → List (α × ρ)
  | _, [] => []
  | s, c :: cs => (c, (M.step s c).1) :: log (M.step s c).2 cs

@[simp] theorem run_nil (s : σ) : M.run s [] = s := rfl

@[simp] theorem run_cons (s : σ) (c : α) (cs : List α) :
    M.run s (c :: cs) = M.run (M.step s c).2 cs := rfl

@[simp] theorem log_nil (s : σ) : M.log s [] = [] := rfl

@[simp] theorem log_cons (s : σ) (c : α) (cs : List α) :
    M.log s (c :: cs) = (c, (M.step s c).1) :: M.log (M.step s c).2 cs := rfl

theorem run_append (s : σ) (cs ds : List α) : M.run s (cs ++ ds) = M.run (M.run s cs) ds :=
  List.foldl_append

theorem run_concat (s : σ) (cs : List α) (c : α) :
    M.run s (cs ++ [c]) = (M.step (M.run s cs) c).2 := by
  rw [run_append]; rfl

theorem log_append (cs ds : List α) :
    ∀ s, M.log s (cs ++ ds) = M.log s cs ++ M.log (M.run s cs) ds := by
  induction cs with
  | nil => intro s; rfl
  | cons c cs ih => intro s; simp only [List.cons_append, log_cons, run_cons, ih]

theorem log_concat (s : σ) (cs : List α) (c : α) :
    M.log s (cs ++ [c]) = M.log s cs ++ [(c, (M.step (M.run s cs) c).1)] := by
  rw [log_append]; rfl

/-- An entry of the log was answered in the state that the calls before it reached. -/
theorem mem_log {c : α} {r : ρ} {cs : List α} :
    ∀ {s : σ}, (c, r) ∈ M.log s cs →
      ∃ pre post, cs = pre ++ c :: post ∧ (M.step (M.run s pre) c).1 = r := by
  induction cs with
  | nil => intro s h; cases h
  | cons d cs ih =>
    intro s h
    rw [log_cons, List.mem_cons] at h
    rcases h with h | h
    · obtain ⟨rfl, rfl⟩ := Prod.mk.inj h
      exact ⟨[], cs, rfl, rfl⟩
    · obtain ⟨pre, post, rfl, hr⟩ := ih h
      exact ⟨d :: pre, post, rfl, hr⟩

/-- The log of a prefix of a run is part of the log of the run. -/
theorem log_mono {s : σ} {pre cs : List α} (h : pre <+: cs) {e : α × ρ} (he : e ∈ M.log s pre) :
    e ∈ M.log s cs := by
  obtain ⟨post, rfl⟩ := h
  rw [log_append]
  exact List.mem_append_left _ he

/-- **Induction over runs.**  A property of log and state that holds at the start and survives
one more call holds after every run. -/
theorem run_induction {I : List (α × ρ) → σ → Prop} (init : I [] M.init)
    (step : ∀ h s c, I h s → I (h ++ [(c, (M.step s c).1)]) (M.step s c).2) (cs : List α) :
    I (M.log M.init cs) (M.run M.init cs) := by
  induction cs using List.reverseRecOn with
  | nil => exact init
  | append_singleton cs c ih =>
    rw [log_concat, run_concat]
    exact step _ _ c ih

/-- A state invariant survives every run that starts in a state satisfying it. -/
theorem run_invariant {I : σ → Prop} (step : ∀ s c, I s → I (M.step s c).2) {s : σ} (h : I s)
    (cs : List α) : I (M.run s cs) := by
  induction cs generalizing s with
  | nil => exact h
  | cons c cs ih => exact ih (step s c h)

/-! ## What the steps of a run contribute -/

variable {β : Type}

/-- The contributions `f s c r s'` of all steps of a run, in order. -/
def collect (f : σ → α → ρ → σ → List β) : σ → List α → List β
  | _, [] => []
  | s, c :: cs =>
    f s c (M.step s c).1 (M.step s c).2 ++ collect f (M.step s c).2 cs

theorem collect_concat (f : σ → α → ρ → σ → List β) (s : σ) (cs : List α) (c : α) :
    M.collect f s (cs ++ [c]) = M.collect f s cs ++
      f (M.run s cs) c (M.step (M.run s cs) c).1 (M.step (M.run s cs) c).2 := by
  induction cs generalizing s with
  | nil => simp [collect]
  | cons d cs ih => rw [List.cons_append, collect, collect, ih, List.append_assoc, run_cons]

/-- **Conservation.**  If each step turns the contents `q s` followed by what it puts in into what
it takes out followed by the new contents, then so does every run. -/
theorem collect_conserved {I : σ → Prop} {q : σ → List β} {put take : σ → α → ρ → σ → List β}
    (inv : ∀ s c, I s → I (M.step s c).2)
    (law : ∀ s c, I s → q s ++ put s c (M.step s c).1 (M.step s c).2 =
      take s c (M.step s c).1 (M.step s c).2 ++ q (M.step s c).2)
    {s : σ} (h : I s) (cs : List α) :
    q s ++ M.collect put s cs = M.collect take s cs ++ q (M.run s cs) := by
  induction cs generalizing s with
  | nil => simp [collect]
  | cons c cs ih =>
    rw [collect, collect, run_cons, ← List.append_assoc, law s c h, List.append_assoc,
      ih (inv s c h), List.append_assoc]

/-- **The last step of a kind.**  A property that only the call `a` can bring about, from states with
`Q`, was brought about by the last such call. -/
theorem last_step {P Q : σ → Prop} {a : α} {s : σ} (start : ¬ P s)
    (own : ∀ t, P (M.step t a).2 → Q t) (other : ∀ t c, c ≠ a → P (M.step t c).2 → P t) :
    ∀ {cs : List α}, P (M.run s cs) →
      ∃ pre post, cs = pre ++ a :: post ∧ a ∉ post ∧ Q (M.run s pre) := by
  intro cs
  induction cs using List.reverseRecOn with
  | nil => exact fun h => absurd h start
  | append_singleton cs c ih =>
    intro h
    rw [run_concat] at h
    by_cases hc : c = a
    · subst hc
      exact ⟨cs, [], rfl, List.not_mem_nil, own _ h⟩
    · obtain ⟨pre, post, rfl, hpost, hq⟩ := ih (other _ c hc h)
      refine ⟨pre, post ++ [c], by simp, ?_, hq⟩
      simp only [List.mem_append, List.mem_singleton, not_or]
      exact ⟨hpost, fun he => hc he.symm⟩

/-! ## Replay -/

/-- **Event sourcing.**  If every step appends to the trace some events whose replay takes the view
of the old state to the view of the new one, then so does every run. -/
theorem run_replay {ε ν : Type} (trace : σ → List ε) (view : σ → ν) {replay : ν → ε → ν}
    (step : ∀ s c, ∃ es, trace (M.step s c).2 = trace s ++ es ∧
      view (M.step s c).2 = es.foldl replay (view s)) (s : σ) (cs : List α) :
    ∃ es, trace (M.run s cs) = trace s ++ es ∧ view (M.run s cs) = es.foldl replay (view s) := by
  induction cs generalizing s with
  | nil => exact ⟨[], by simp, rfl⟩
  | cons c cs ih =>
    obtain ⟨es, ht, hv⟩ := step s c
    obtain ⟨es', ht', hv'⟩ := ih (M.step s c).2
    refine ⟨es ++ es', ?_, ?_⟩
    · rw [run_cons, ht', ht, List.append_assoc]
    · rw [run_cons, hv', hv, List.foldl_append]

/-! ## Two runs of the same calls -/

/-- Every call of the run satisfies `ok` in the state it is made in. -/
def Along (ok : σ → α → Prop) : σ → List α → Prop
  | _, [] => True
  | s, c :: cs => ok s c ∧ Along ok (M.step s c).2 cs

instance Along.decidable {ok : σ → α → Prop} [∀ s c, Decidable (ok s c)] :
    ∀ (s : σ) (cs : List α), Decidable (M.Along ok s cs)
  | _, [] => instDecidableTrue
  | s, c :: cs => @instDecidableAnd _ _ _ (Along.decidable (M.step s c).2 cs)

/-- A condition on a run is one on the run of another machine, if related states agree on it and stay
related as long as it holds. -/
theorem along_iff {τ : Type} {N : Machine τ α ρ} {R : σ → τ → Prop} {ok : σ → α → Prop}
    {ok' : τ → α → Prop}
    (step : ∀ s t c, R s t → (ok s c ↔ ok' t c) ∧ (ok' t c → R (M.step s c).2 (N.step t c).2))
    {s : σ} {t : τ} (h : R s t) (cs : List α) : M.Along ok s cs ↔ N.Along ok' t cs := by
  induction cs generalizing s t with
  | nil => exact Iff.rfl
  | cons c cs ih =>
    obtain ⟨hok, hnext⟩ := step s t c h
    rw [Along, Along, hok]
    exact and_congr_right fun hc => ih (hnext hc)

/-- **Lockstep.**  If related states answer every call that meets `ok` alike and stay related, then
so do whole runs. -/
theorem lockstep {R : σ → σ → Prop} {ok : σ → α → Prop}
    (step : ∀ s t c, R s t → ok s c →
      (M.step s c).1 = (M.step t c).1 ∧ R (M.step s c).2 (M.step t c).2)
    {s t : σ} (h : R s t) {cs : List α} (hok : M.Along ok s cs) :
    M.log s cs = M.log t cs ∧ R (M.run s cs) (M.run t cs) := by
  induction cs generalizing s t with
  | nil => exact ⟨rfl, h⟩
  | cons c cs ih =>
    obtain ⟨hr, hs⟩ := step s t c h hok.1
    obtain ⟨hlog, hrun⟩ := ih hs hok.2
    exact ⟨by rw [log_cons, log_cons, hr, hlog], hrun⟩

/-- **Simulation.**  If related states of two machines answer the next call alike and stay related,
then so do whole runs.  The relation takes the calls still to come, of which it may count some. -/
theorem simulates {τ : Type} {N : Machine τ α ρ} {R : List α → σ → τ → Prop}
    (step : ∀ c cs s t, R (c :: cs) s t →
      (M.step s c).1 = (N.step t c).1 ∧ R cs (M.step s c).2 (N.step t c).2)
    (cs rest : List α) {s : σ} {t : τ} (h : R (cs ++ rest) s t) :
    M.log s cs = N.log t cs ∧ R rest (M.run s cs) (N.run t cs) := by
  induction cs generalizing s t with
  | nil => exact ⟨rfl, h⟩
  | cons c cs ih =>
    obtain ⟨hr, hs⟩ := step c (cs ++ rest) s t h
    obtain ⟨hlog, hrun⟩ := ih hs
    exact ⟨by rw [log_cons, log_cons, hr, hlog], hrun⟩

end Machine

/-! ## Logs whose entries are accounted for -/

section

variable {ε : Type} {ok : List ε → ε → Prop} {log : List ε}

/-- Every entry is as the entries before it demand. -/
def Justified (ok : List ε → ε → Prop) (log : List ε) : Prop :=
  ∀ pre e post, log = pre ++ e :: post → ok pre e

theorem justified_nil : Justified ok [] := fun pre e post h => by simp at h

theorem Justified.concat (h : Justified ok log) {e : ε} (he : ok log e) :
    Justified ok (log ++ [e]) := by
  intro pre d post heq
  rcases List.eq_nil_or_concat post with rfl | ⟨post', last, rfl⟩
  · obtain ⟨rfl, hd⟩ := List.append_inj' heq rfl
    obtain rfl := (List.cons.inj hd).1
    exact he
  · rw [List.concat_eq_append, ← List.cons_append, ← List.append_assoc] at heq
    exact h pre d post' (List.append_inj' heq rfl).1

theorem justified_iff_getElem :
    Justified ok log ↔ ∀ i (h : i < log.length), ok (log.take i) log[i] := by
  constructor
  · intro h i hi
    refine h _ _ (log.drop (i + 1)) ?_
    rw [← List.drop_eq_getElem_cons hi, List.take_append_drop]
  · intro h pre e post hlog
    have hat := h pre.length (by simp [hlog])
    simpa [hlog] using hat

instance [∀ pre e, Decidable (ok pre e)] : Decidable (Justified ok log) :=
  decidable_of_iff _ justified_iff_getElem.symm

end

end CourtKernel
