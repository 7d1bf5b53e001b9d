import CourtKernel.Lib.Wp

/-!
# Programs that may panic

A program of the kind `Strict σ α` may return or fail with an error, as a `Prog` does, or panic.

`safe x Q E s` says of a run of `x` from `s` that it does not panic, and ends in `Q` or in `E`.

* `safe_pure`, `safe_fail`, `safe_bind`, `safe_lift` — one rule for each way to make such a program;
  no rule proves anything about a panic.
* `Agrees part I x y` — on a part of the state `x` does what the program `y` does that knows of no
  panics, and keeps the invariant `I`.  The rules follow the structure of both programs;
  `Agrees.silent` is the one for steps that only `x` takes, such as checks that panic.
-/

namespace CourtKernel

/-- Programs over a state that may return, fail, or panic. -/
abbrev Strict (σ α : Type) := OptionT (EStateM String σ) α

section

variable {σ τ α β : Type} {Q Q' : α → σ → Prop} {R : β → σ → Prop} {E E' : String → σ → Prop} {s : σ}

namespace Strict

def panic : Strict σ α := OptionT.mk (pure none)

def fail (e : String) : Strict σ α := OptionT.mk (throw e)

/-- A program that does not panic. -/
def lift (x : Prog σ α) : Strict σ α := OptionT.mk (x >>= fun a => pure (some a))

/-- What must hold, or the program panics. -/
def require (c : Prop) [Decidable c] : Strict σ Unit := if c then pure () else panic

end Strict

open Strict

/-- A run of `x` from `s` does not panic; it returns in `Q` or fails in `E`. -/
def safe (x : Strict σ α) (Q : α → σ → Prop) (E : String → σ → Prop) (s : σ) : Prop :=
  wp x.run (fun o s' => ∃ a, o = some a ∧ Q a s') E s

theorem safe_pure (a : α) : safe (pure a : Strict σ α) Q E s ↔ Q a s := by
  show wp (pure (some a)) _ _ _ ↔ _
  rw [wp_pure]
  exact ⟨fun ⟨b, hb, h⟩ => Option.some.inj hb ▸ h, fun h => ⟨a, rfl, h⟩⟩

theorem safe_fail (e : String) : safe (fail e : Strict σ α) Q E s ↔ E e s := by
  show wp (throw e) _ _ _ ↔ _
  rw [wp_throw]

theorem safe_lift {x : Prog σ α} : safe (lift x) Q E s ↔ wp x Q E s := by
  show wp (x >>= fun a => pure (some a)) _ _ _ ↔ _
  rw [wp_bind]
  refine ⟨fun h => wp_mono h (fun a s' ha => ?_) fun _ _ he => he,
    fun h => wp_mono h (fun a s' ha => ?_) fun _ _ he => he⟩
  · rw [wp_pure] at ha
    obtain ⟨b, hb, hQ⟩ := ha
    exact Option.some.inj hb ▸ hQ
  · rw [wp_pure]
    exact ⟨a, rfl, ha⟩

theorem safe_bind {x : Strict σ α} {f : α → Strict σ β}
    (h : safe x (fun a s' => safe (f a) R E s') E s) : safe (x >>= f) R E s := by
  rw [safe, OptionT.run_bind, Option.elimM, wp_bind]
  refine wp_mono h ?_ fun _ _ he => he
  rintro _ s' ⟨a, rfl, ha⟩
  exact ha

theorem safe_require {c : Prop} [Decidable c] {Q : Unit → σ → Prop} (hc : c) (h : Q () s) :
    safe (require c : Strict σ Unit) Q E s := by
  unfold require
  rw [if_pos hc, safe_pure]
  exact h

theorem safe_mono {x : Strict σ α} (h : safe x Q E s) (hQ : ∀ a s', Q a s' → Q' a s')
    (hE : ∀ e s', E e s' → E' e s') : safe x Q' E' s :=
  wp_mono h (fun _ s' ⟨a, ha, h⟩ => ⟨a, ha, hQ a s' h⟩) hE

/-! ## Agreement with a program that knows of no panics -/

/-- `x` does on a part of the state what `y` does, never panics, and keeps `I`. -/
def Agrees (part : σ → τ) (I : σ → Prop) (x : Strict σ α) (y : Prog τ α) : Prop :=
  ∀ s, I s → safe x (fun a s' => I s' ∧ y (part s) = .ok a (part s'))
    (fun e s' => I s' ∧ y (part s) = .error e (part s')) s

namespace Agrees

variable {part : σ → τ} {I : σ → Prop}

theorem pure (a : α) : Agrees part I (pure a) (pure a) :=
  fun _ hs => (safe_pure a).2 ⟨hs, rfl⟩

theorem fail (e : String) : Agrees part I (fail e : Strict σ α) (throw e) :=
  fun _ hs => (safe_fail e).2 ⟨hs, rfl⟩

theorem ite {c : Prop} [Decidable c] {x x' : Strict σ α} {y y' : Prog τ α}
    (h : c → Agrees part I x y) (h' : ¬ c → Agrees part I x' y') :
    Agrees part I (if c then x else x') (if c then y else y') := by
  by_cases hc : c
  · rw [if_pos hc, if_pos hc]
    exact h hc
  · rw [if_neg hc, if_neg hc]
    exact h' hc

/-- A step that both take, after which more is known of the state. -/
theorem bind_with {x : Strict σ α} {y : Prog τ α} {f : α → Strict σ β} {g : α → Prog τ β}
    {J : α → σ → Prop}
    (hx : ∀ s, I s → safe x (fun a s' => J a s' ∧ y (part s) = .ok a (part s'))
      (fun e s' => I s' ∧ y (part s) = .error e (part s')) s)
    (hf : ∀ a, Agrees part (J a) (f a) (g a)) (hJ : ∀ a s, J a s → I s) :
    Agrees part I (x >>= f) (y >>= g) := by
  intro s hs
  refine safe_bind (safe_mono (hx s hs) ?_ ?_)
  · rintro a s₁ ⟨hs₁, hy⟩
    refine safe_mono (hf a s₁ hs₁) ?_ ?_
    · rintro b s₂ ⟨hs₂, hg⟩
      exact ⟨hJ a s₂ hs₂, (bind_eq_of_ok hy).trans hg⟩
    · rintro e s₂ ⟨hs₂, hg⟩
      exact ⟨hJ a s₂ hs₂, (bind_eq_of_ok hy).trans hg⟩
  · rintro e s₁ ⟨hs₁, hy⟩
    refine ⟨hs₁, ?_⟩
    show EStateM.bind y g (part s) = _
    rw [EStateM.bind, hy]

/-- A step that both take, and that returns values of `P`. -/
theorem bind {x : Strict σ α} {y : Prog τ α} {f : α → Strict σ β} {g : α → Prog τ β}
    {P : α → Prop} (hx : Agrees part I x y) (hP : ∀ t, wp y (fun a _ => P a) (fun _ _ => True) t)
    (hf : ∀ a, P a → Agrees part I (f a) (g a)) : Agrees part I (x >>= f) (y >>= g) := by
  refine bind_with (J := fun a s => I s ∧ P a) (fun s hs => ?_) (fun a s hs => ?_) fun _ _ h => h.1
  · refine safe_mono (hx s hs) (fun a s' h => ?_) fun _ _ he => he
    exact ⟨⟨h.1, wp_ok (hP _) h.2⟩, h.2⟩
  · exact safe_mono (hf a hs.2 s hs.1) (fun b s' h => ⟨⟨h.1, hs.2⟩, h.2⟩)
      fun e s' h => ⟨⟨h.1, hs.2⟩, h.2⟩

/-- A step that both take, of whose value nothing is needed. -/
theorem seq {x : Strict σ α} {y : Prog τ α} {f : α → Strict σ β} {g : α → Prog τ β}
    (hx : Agrees part I x y) (hf : ∀ a, Agrees part I (f a) (g a)) :
    Agrees part I (x >>= f) (y >>= g) :=
  bind (P := fun _ => True) hx (fun t => wp_mono (wp_true y t) (fun _ _ h => h) fun _ _ h => h)
    fun a _ => hf a

/-- A step that only `x` takes: it returns `a`, and the part of the state stays as it is. -/
theorem silent {x : Strict σ α} {f : α → Strict σ β} {y : Prog τ β} {a : α}
    (hx : ∀ s, I s → safe x (fun b s' => b = a ∧ I s' ∧ part s' = part s) (fun _ _ => False) s)
    (hf : Agrees part I (f a) y) : Agrees part I (x >>= f) y := by
  intro s hs
  refine safe_bind (safe_mono (hx s hs) ?_ fun _ _ he => he.elim)
  rintro b s₁ ⟨rfl, hs₁, hpart⟩
  have hrest := hf s₁ hs₁
  rw [hpart] at hrest
  exact hrest

/-- A check that passes. -/
theorem require {c : Prop} [Decidable c] {f : Unit → Strict σ β} {y : Prog τ β} (hc : c)
    (hf : Agrees part I (f ()) y) : Agrees part I (require c >>= f) y :=
  silent (fun _ hs => safe_require hc ⟨rfl, hs, rfl⟩) hf

/-- A checked operation that is in range. -/
theorem checked {c : Prop} [Decidable c] {a : α} {f : α → Strict σ β} {y : Prog τ β} (hc : c)
    (hf : Agrees part I (f a) y) :
    Agrees part I ((do Strict.require c; Pure.pure a) >>= f) y := by
  refine silent (a := a) (fun s hs => ?_) hf
  exact safe_bind (safe_require hc ((safe_pure a).2 ⟨rfl, hs, rfl⟩))

end Agrees

end

end CourtKernel
