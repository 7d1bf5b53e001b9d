/-!
# Programs that may fail, and their weakest preconditions

A program of the kind `Prog σ α` works on a state, returns a value or stops with an error message,
and in both cases keeps the state it has reached: an early return undoes nothing.

`wp x Q E s` says of a run of `x` from `s` that it ends well: with a value and a state in `Q`, or
with an error and a state in `E`.  Every program is deterministic and total, so `wp` is at once the
weakest precondition and the statement that the run returns.

* `wp_pure`, `wp_throw`, `wp_bind`, `wp_get`, `wp_set`, `wp_modify`, `wp_ite` — one rule for each way
  to make a program.
* `wp_mono`, `wp_and` — the rules of consequence and conjunction.
* `wp_ok`, `wp_error` — what a specification says about one run; `bind_congr_of_wp` compares two.
* `resultOf`, `stateOf` — the two halves of a run, to be evaluated for a closed program.
* `expect`, `ensure`, `ofExcept`, `zoom`, `mapError` — a missing value is an error, a check, a
  computation without a state, a program on a part of the state, and one whose errors get a heading,
  each with its rule.
* `wp_forM` — loops over a list, with an invariant on the part that is done.
* `Keeps` — a preorder that holds between the start and the end of every run, with its rules.
  `Stays J` is the one of an invariant.
-/

namespace CourtKernel

/-- Programs over a state, with errors that keep the state. -/
abbrev Prog (σ α : Type) := EStateM String σ α

section

variable {σ α β : Type} {Q Q' : α → σ → Prop} {R : β → σ → Prop} {E E' : String → σ → Prop} {s : σ}

/-- A run of `x` from `s` returns in `Q` or fails in `E`. -/
def wp (x : Prog σ α) (Q : α → σ → Prop) (E : String → σ → Prop) (s : σ) : Prop :=
  match x s with
  | .ok a s' => Q a s'
  | .error e s' => E e s'

@[simp] theorem wp_pure (a : α) : wp (pure a : Prog σ α) Q E s ↔ Q a s := Iff.rfl

@[simp] theorem wp_throw (e : String) : wp (throw e : Prog σ α) Q E s ↔ E e s := Iff.rfl

@[simp] theorem wp_get {Q : σ → σ → Prop} : wp (get : Prog σ σ) Q E s ↔ Q s s := Iff.rfl

@[simp] theorem wp_set {Q : PUnit → σ → Prop} (t : σ) :
    wp (set t : Prog σ PUnit) Q E s ↔ Q ⟨⟩ t := Iff.rfl

@[simp] theorem wp_modify {Q : PUnit → σ → Prop} (f : σ → σ) :
    wp (modify f : Prog σ PUnit) Q E s ↔ Q ⟨⟩ (f s) := Iff.rfl

theorem wp_bind {x : Prog σ α} {f : α → Prog σ β} :
    wp (x >>= f) R E s ↔ wp x (fun a s' => wp (f a) R E s') E s := by
  unfold wp
  show (match EStateM.bind x f s with | .ok a s' => R a s' | .error e s' => E e s') ↔ _
  unfold EStateM.bind
  cases x s <;> rfl

theorem wp_ite {c : Prop} [Decidable c] {x y : Prog σ α} :
    wp (if c then x else y) Q E s ↔ (c → wp x Q E s) ∧ (¬ c → wp y Q E s) := by
  by_cases h : c
  · simp [h]
  · simp [h]

/-- Consequence. -/
theorem wp_mono {x : Prog σ α} (h : wp x Q E s) (hQ : ∀ a s', Q a s' → Q' a s')
    (hE : ∀ e s', E e s' → E' e s') : wp x Q' E' s := by
  unfold wp at *
  split at h
  · exact hQ _ _ h
  · exact hE _ _ h

/-- What is proved about a program holds of each run that returned. -/
theorem wp_ok {x : Prog σ α} {a : α} {s' : σ} (h : wp x Q E s) (hx : x s = .ok a s') : Q a s' := by
  unfold wp at h
  rw [hx] at h
  exact h

/-- What is proved about a program holds of each run that failed. -/
theorem wp_error {x : Prog σ α} {e : String} {s' : σ} (h : wp x Q E s) (hx : x s = .error e s') :
    E e s' := by
  unfold wp at h
  rw [hx] at h
  exact h

/-- A program that begins with a run that is known. -/
theorem bind_eq_of_ok {x : Prog σ α} {f : α → Prog σ β} {a : α} {s' : σ} (hx : x s = .ok a s') :
    (x >>= f) s = f a s' := by
  show EStateM.bind x f s = _
  rw [EStateM.bind, hx]

theorem wp_true (x : Prog σ α) (s : σ) : wp x (fun _ _ => True) (fun _ _ => True) s := by
  unfold wp
  cases x s <;> trivial

/-- Only the run counts. -/
theorem wp_congr {x y : Prog σ α} (hx : x s = y s) : wp x Q E s ↔ wp y Q E s := by
  unfold wp
  rw [hx]

/-- Two programs that begin alike and go on alike. -/
theorem bind_congr_of_wp {x y : Prog σ α} {f g : α → Prog σ β} (hx : x s = y s)
    (h : wp x (fun a s' => f a s' = g a s') (fun _ _ => True) s) : (x >>= f) s = (y >>= g) s := by
  show EStateM.bind x f s = EStateM.bind y g s
  unfold EStateM.bind
  rw [← hx]
  cases hrun : x s with
  | ok a s' =>
    have hgo := wp_ok h hrun
    exact hgo
  | error e s' => rfl

theorem bind_congr_left {x y : Prog σ α} {f : α → Prog σ β} (hx : x s = y s) :
    (x >>= f) s = (y >>= f) s :=
  bind_congr_of_wp hx (wp_mono (wp_true x s) (fun _ _ _ => rfl) fun _ _ _ => trivial)

/-- A program that cannot fail succeeds. -/
theorem exists_ok_of_wp {x : Prog σ α} (h : wp x Q (fun _ _ => False) s) :
    ∃ a s', x s = .ok a s' ∧ Q a s' := by
  cases hx : x s with
  | ok a s' => exact ⟨a, s', rfl, wp_ok h hx⟩
  | error e s' => exact (wp_error h hx).elim

/-- A program whose outcome is known. -/
theorem eq_ok_of_wp {x : Prog σ α} {a : α} {s' : σ}
    (h : wp x (fun b t => b = a ∧ t = s') (fun _ _ => False) s) : x s = .ok a s' := by
  obtain ⟨b, t, hx, rfl, rfl⟩ := exists_ok_of_wp h
  exact hx

/-- Both of two specifications hold. -/
theorem wp_and {x : Prog σ α} (h : wp x Q E s) (h' : wp x Q' E' s) :
    wp x (fun a t => Q a t ∧ Q' a t) (fun e t => E e t ∧ E' e t) s := by
  unfold wp at *
  cases hx : x s with
  | ok a t =>
    rw [hx] at h h'
    exact ⟨h, h'⟩
  | error e t =>
    rw [hx] at h h'
    exact ⟨h, h'⟩

/-- A run ends as it ends. -/
theorem wp_self (x : Prog σ α) (s : σ) :
    wp x (fun a s' => x s = .ok a s') (fun e s' => x s = .error e s') s := by
  unfold wp
  cases x s <;> rfl

/-- What is proved under an assumption holds under it. -/
theorem wp_imp {P : Prop} {x : Prog σ α} (h : P → wp x Q E s) :
    wp x (fun a t => P → Q a t) (fun e t => P → E e t) s :=
  wp_mono (wp_self x s) (fun _ _ hx hp => wp_ok (h hp) hx) fun _ _ hx hp => wp_error (h hp) hx

/-- A step of which nothing is needed. -/
theorem wp_skip {β : Type} {x : Prog σ α} {f : α → Prog σ β} {R : β → σ → Prop} {s : σ}
    (h : ∀ a s', wp (f a) R (fun _ _ => True) s') : wp (x >>= f) R (fun _ _ => True) s :=
  wp_bind.2 (wp_mono (wp_self x s) (fun a s' _ => h a s') fun _ _ _ => trivial)

/-- A run that is known. -/
theorem wp_of_ok {x : Prog σ α} {Q : α → σ → Prop} {E : String → σ → Prop} {s s' : σ} {a : α}
    (hx : x s = .ok a s') (hQ : Q a s') : wp x Q E s := by
  refine wp_mono (wp_self x s) (fun a' t hrun => ?_) fun e t hrun => ?_
  · cases hx.symm.trans hrun
    exact hQ
  · cases hx.symm.trans hrun

/-! ## Closed runs -/

/-- What a run ended with. -/
def resultOf (r : EStateM.Result String σ α) : Except String α :=
  match r with
  | .ok a _ => .ok a
  | .error e _ => .error e

/-- The state a run ended in. -/
def stateOf (r : EStateM.Result String σ α) : σ :=
  match r with
  | .ok _ s => s
  | .error _ s => s

theorem eq_ok_of_resultOf {r : EStateM.Result String σ α} {a : α} (h : resultOf r = .ok a) :
    r = .ok a (stateOf r) := by
  cases r with
  | ok b s => rw [Except.ok.inj h]; rfl
  | error e s => cases h

theorem eq_error_of_resultOf {r : EStateM.Result String σ α} {e : String}
    (h : resultOf r = .error e) : r = .error e (stateOf r) := by
  cases r with
  | ok b s => cases h
  | error e s => rw [Except.error.inj h]; rfl

/-- The two ways a run can end. -/
theorem wp_cases {x : Prog σ α} {Q : α → σ → Prop} {E : String → σ → Prop} {s : σ} (h : wp x Q E s) :
    (∃ a, resultOf (x s) = .ok a ∧ Q a (stateOf (x s))) ∨
      ∃ e, resultOf (x s) = .error e ∧ E e (stateOf (x s)) := by
  cases hx : x s with
  | ok a s' => exact Or.inl ⟨a, rfl, wp_ok h hx⟩
  | error e s' => exact Or.inr ⟨e, rfl, wp_error h hx⟩

/-- What holds after a run, returned or failed. -/
theorem wp_stateOf {J : σ → Prop} {x : Prog σ α} {s : σ}
    (h : wp x (fun _ s' => J s') (fun _ s' => J s') s) : J (stateOf (x s)) := by
  cases hx : x s with
  | ok a s' =>
    have hend := wp_ok h hx
    exact hend
  | error e s' =>
    have hend := wp_error h hx
    exact hend

/-! ## Values that may be missing -/

/-- `ok_or_else`: a missing value is an error. -/
def expect (o : Option α) (e : String) : Prog σ α :=
  match o with
  | some a => pure a
  | none => throw e

theorem wp_expect {o : Option α} {e : String} :
    wp (expect o e : Prog σ α) Q E s ↔ (∀ a, o = some a → Q a s) ∧ (o = none → E e s) := by
  cases o with
  | none => simp [expect]
  | some a => simp [expect]

/-- A check: an error if the condition fails. -/
def ensure (c : Prop) [Decidable c] (e : String) : Prog σ Unit := if c then pure () else throw e

theorem wp_ensure {c : Prop} [Decidable c] {e : String} {Q : Unit → σ → Prop} :
    wp (ensure c e : Prog σ Unit) Q E s ↔ (c → Q () s) ∧ (¬ c → E e s) := by
  rw [ensure, wp_ite, wp_pure, wp_throw]

/-- A computation without a state. -/
def ofExcept (x : Except String α) : Prog σ α :=
  match x with
  | .ok a => pure a
  | .error e => throw e

theorem wp_ofExcept {x : Except String α} :
    wp (ofExcept x : Prog σ α) Q E s ↔
      (∀ a, x = .ok a → Q a s) ∧ ∀ e, x = .error e → E e s := by
  cases x with
  | ok a => simp [ofExcept]
  | error e => simp [ofExcept]

theorem ofExcept_bind {x : Except String α} {f : α → Except String β} :
    (ofExcept (x >>= f) : Prog σ β) = ofExcept x >>= fun a => ofExcept (f a) := by
  cases x <;> rfl

theorem ofExcept_ite {c : Prop} [Decidable c] {x y : Except String α} :
    (ofExcept (if c then x else y) : Prog σ α) = if c then ofExcept x else ofExcept y := by
  split <;> rfl

theorem ofExcept_throw (e : String) : (ofExcept (throw e) : Prog σ α) = throw e := rfl

theorem ofExcept_pure (a : α) : (ofExcept (pure a) : Prog σ α) = pure a := rfl

/-! ## A part of the state -/

/-- A program on a part of the state. -/
def zoom {τ : Type} (part : σ → τ) (put : σ → τ → σ) (x : Prog τ α) : Prog σ α := fun s =>
  match x (part s) with
  | .ok a t => .ok a (put s t)
  | .error e t => .error e (put s t)

theorem wp_zoom {τ : Type} {part : σ → τ} {put : σ → τ → σ} {x : Prog τ α} :
    wp (zoom part put x) Q E s ↔
      wp x (fun a t => Q a (put s t)) (fun e t => E e (put s t)) (part s) := by
  unfold wp zoom
  cases x (part s) <;> rfl

/-- A program whose errors are reported under a heading. -/
def mapError (f : String → String) (x : Prog σ α) : Prog σ α := fun s =>
  match x s with
  | .ok a s' => .ok a s'
  | .error e s' => .error (f e) s'

theorem wp_mapError {f : String → String} {x : Prog σ α} :
    wp (mapError f x) Q E s ↔ wp x Q (fun e s' => E (f e) s') s := by
  unfold wp mapError
  cases x s <;> rfl

-- From here on programs are run by the rules above, and never by unfolding.
attribute [irreducible] wp

/-! ## Loops -/

/-- A loop without a value. -/
theorem wp_forM {γ : Type} {f : γ → Prog σ PUnit} {l : List γ} {I : List γ → σ → Prop}
    (h : I [] s) (step : ∀ done x rest, l = done ++ x :: rest → ∀ s, I done s →
      wp (f x) (fun _ s' => I (done ++ [x]) s') E s) :
    wp (forM l f) (fun _ s' => I l s') E s := by
  suffices hrest : ∀ rest done, l = done ++ rest → ∀ s, I done s →
      wp (forM rest f) (fun _ s' => I l s') E s from hrest l [] rfl s h
  intro rest
  induction rest with
  | nil =>
    rintro done rfl s hI
    rw [List.forM_nil, wp_pure, List.append_nil]
    exact hI
  | cons x rest ih =>
    intro done hl s hI
    rw [List.forM_cons, wp_bind]
    refine wp_mono (step done x rest hl s hI) (fun _ s' hI' => ?_) fun _ _ he => he
    exact ih (done ++ [x]) (by rw [hl, List.append_assoc, List.singleton_append]) s' hI'

/-! ## What every run keeps -/

/-- Every run, returned or failed, ends in a state that is related to its start. -/
def Keeps (R : σ → σ → Prop) (x : Prog σ α) : Prop :=
  ∀ s, wp x (fun _ s' => R s s') (fun _ s' => R s s') s

end

namespace Keeps

variable {σ τ α β γ : Type} {P : σ → σ → Prop}

theorem modify {f : σ → σ} (h : ∀ s, P s (f s)) : Keeps P (modify f : Prog σ PUnit) :=
  fun s => (wp_modify f).2 (h s)

theorem ite {c : Prop} [Decidable c] {x y : Prog σ α} (hx : Keeps P x) (hy : Keeps P y) :
    Keeps P (if c then x else y) := by
  split
  · exact hx
  · exact hy

theorem bind [Trans P P P] {x : Prog σ α} {f : α → Prog σ β} (hx : Keeps P x)
    (hf : ∀ a, Keeps P (f a)) : Keeps P (x >>= f) := by
  intro s
  rw [wp_bind]
  refine wp_mono (hx s) (fun a s₁ h₁ => ?_) fun _ _ he => he
  exact wp_mono (hf a s₁) (fun _ _ h₂ => Trans.trans h₁ h₂) fun _ _ h₂ => Trans.trans h₁ h₂

section

variable [Std.Refl P]

theorem pure (a : α) : Keeps P (pure a : Prog σ α) := fun s => (wp_pure a).2 (Std.Refl.refl s)

theorem throw (e : String) : Keeps P (throw e : Prog σ α) :=
  fun s => (wp_throw e).2 (Std.Refl.refl s)

theorem get : Keeps P (get : Prog σ σ) := fun s => wp_get.2 (Std.Refl.refl s)

theorem expect (o : Option α) (e : String) : Keeps P (expect o e : Prog σ α) := by
  cases o with
  | none => exact throw e
  | some a => exact pure a

theorem ofExcept (x : Except String α) : Keeps P (ofExcept x : Prog σ α) := by
  cases x with
  | ok a => exact pure a
  | error e => exact throw e

variable [Trans P P P]

theorem forM {f : γ → Prog σ PUnit} (h : ∀ x, Keeps P (f x)) (l : List γ) :
    Keeps P (forM l f) := by
  induction l with
  | nil => exact pure _
  | cons x l ih =>
    rw [List.forM_cons]
    exact bind (h x) fun _ => ih

theorem foldlM {f : β → γ → Prog σ β} (h : ∀ b x, Keeps P (f b x)) (l : List γ) (b : β) :
    Keeps P (l.foldlM f b) := by
  induction l generalizing b with
  | nil => exact pure b
  | cons x l ih =>
    rw [List.foldlM_cons]
    exact bind (h b x) fun b' => ih b'

end

/-- The state a run ended in is related to its start. -/
theorem at_end {x : Prog σ α} (h : Keeps P x) (s : σ) : P s (stateOf (x s)) := wp_stateOf (h s)

end Keeps

/-! ## Invariants -/

section

variable {σ τ α : Type} {J : σ → Prop}

/-- What holds of the first state holds of the second. -/
def Stays (J : σ → Prop) (s s' : σ) : Prop := J s → J s'

instance Stays.refl : Std.Refl (Stays J) := ⟨fun _ h => h⟩

instance Stays.trans : Trans (Stays J) (Stays J) (Stays J) := ⟨fun h h' hs => h' (h hs)⟩

theorem keeps_stays {x : Prog σ α} :
    Keeps (Stays J) x ↔ ∀ s, J s → wp x (fun _ s' => J s') (fun _ s' => J s') s := by
  refine ⟨fun h s hs => ?_, fun h s => ?_⟩
  · exact wp_mono (h s) (fun _ _ h' => h' hs) fun _ _ h' => h' hs
  · by_cases hs : J s
    · exact wp_mono (h s hs) (fun _ _ h' _ => h') fun _ _ h' _ => h'
    · refine wp_mono (wp_true x s) (fun _ _ _ hs' => absurd hs' hs) fun _ _ _ hs' => absurd hs' hs

/-- An invariant of a part of the state. -/
theorem Keeps.zoom {K : τ → Prop} {part : σ → τ} {put : σ → τ → σ} {x : Prog τ α}
    (hx : Keeps (Stays K) x) (hpart : ∀ s, J s → K (part s))
    (hput : ∀ s t, J s → K t → J (put s t)) : Keeps (Stays J) (zoom part put x) := by
  refine keeps_stays.2 fun s hs => wp_zoom.2 ?_
  exact wp_mono (keeps_stays.1 hx _ (hpart s hs)) (fun _ t ht => hput s t hs ht)
    fun _ t ht => hput s t hs ht

end

end CourtKernel
