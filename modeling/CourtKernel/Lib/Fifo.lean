import Mathlib.Data.List.Infix

/-!
# Bounded first-in first-out queues

The abstract queue that a channel implements: a list with at most `cap` elements, to which a step
adds at the back, from which a step takes at the front, or which a step leaves alone.

* `FifoRun cap q es q'` — the events `es` take the queue `q` to `q'`.
* `FifoRun.conserved` — what was in the queue and what was put is what was taken and what is left.
* `FifoRun.takes_first` — from an empty queue, what was taken is a prefix of what was put.
-/

namespace CourtKernel

variable {α : Type}

/-- What a step did to the queue. -/
inductive FifoEvent (α : Type) where
  | none
  | put (x : α)
  | take (x : α)
  deriving DecidableEq

/-- One step of the bounded queue. -/
inductive FifoStep (cap : Nat) : List α → FifoEvent α → List α → Prop where
  | none (q : List α) : FifoStep cap q .none q
  | put {q : List α} (x : α) (room : q.length < cap) : FifoStep cap q (.put x) (q ++ [x])
  | take (x : α) (q : List α) : FifoStep cap (x :: q) (.take x) q

/-- A run of the bounded queue. -/
inductive FifoRun (cap : Nat) (q : List α) : List (FifoEvent α) → List α → Prop where
  | nil : FifoRun cap q [] q
  | concat {es : List (FifoEvent α)} {e : FifoEvent α} {q₁ q₂ : List α} :
      FifoRun cap q es q₁ → FifoStep cap q₁ e q₂ → FifoRun cap q (es ++ [e]) q₂

/-- The elements put by the events, in order. -/
def putsOf (es : List (FifoEvent α)) : List α :=
  es.filterMap fun | .put x => some x | _ => Option.none

/-- The elements taken by the events, in order. -/
def takesOf (es : List (FifoEvent α)) : List α :=
  es.filterMap fun | .take x => some x | _ => Option.none

namespace FifoRun

variable {cap : Nat} {q q' : List α} {es : List (FifoEvent α)}

theorem conserved (h : FifoRun cap q es q') : q ++ putsOf es = takesOf es ++ q' := by
  induction h with
  | nil => simp [putsOf, takesOf]
  | @concat es e q₁ q₂ _ hstep ih =>
    cases hstep with
    | none => simpa [putsOf, takesOf] using ih
    | put x _ => simpa [putsOf, takesOf] using congrArg (· ++ [x]) ih
    | take x => simpa [putsOf, takesOf] using ih

/-- From an empty queue, what was taken is a prefix of what was put. -/
theorem takes_first (h : FifoRun cap [] es q') : takesOf es <+: putsOf es :=
  ⟨q', h.conserved.symm⟩

end FifoRun

end CourtKernel
