import Mathlib.Algebra.GroupWithZero.Nat
import Mathlib.Logic.Function.Basic

/-! Event-driven transition systems and their guarded runs.

A system is a partial step function. A guard restricts which events a run may
fire in which state; unrestricted runs use the trivial guard.
-/

set_option autoImplicit false

namespace LowRisc.Lib

/-- Point update of a register file. Unlike `Function.update` it is not dependent, so
that closed runs evaluate without comparing indices up to conversion. -/
def upd {α : Type} (f : Nat → α) (i : Nat) (v : α) : Nat → α := fun j => if j = i then v else f j

@[simp] theorem upd_same {α : Type} (f : Nat → α) (i : Nat) (v : α) : upd f i v i = v := by
  simp [upd]

@[simp] theorem upd_of_ne {α : Type} {f : Nat → α} {i j : Nat} {v : α} (other : j ≠ i) :
    upd f i v j = f j := by
  simp [upd, other]

variable {σ ε : Type}

/-- Finite runs of `step` in which every fired event meets `ok` in the state before it. -/
inductive Steps (step : σ → ε → Option σ) (ok : σ → ε → Prop) : σ → σ → Prop where
  | refl (s : σ) : Steps step ok s s
  | next {s t u : σ} {e : ε} : Steps step ok s t → ok t e → step t e = some u → Steps step ok s u

/-- The trivial guard. -/
def anyEvent (_ : σ) (_ : ε) : Prop := True

section
variable {step : σ → ε → Option σ} {ok : σ → ε → Prop}

/-- A property that holds at the start and survives every admitted step holds at the end. -/
theorem Steps.invariant {I : σ → Prop} {s t : σ} (run : Steps step ok s t) (start : I s)
    (preserved : ∀ {t u : σ} {e : ε}, I t → ok t e → step t e = some u → I u) : I t := by
  induction run with
  | refl => exact start
  | next _ admitted fired ih => exact preserved ih admitted fired

theorem Steps.mono {ok' : σ → ε → Prop} {s t : σ} (run : Steps step ok s t)
    (weaker : ∀ t e, ok t e → ok' t e) : Steps step ok' s t := by
  induction run with
  | refl => exact .refl _
  | next _ admitted fired ih => exact .next ih (weaker _ _ admitted) fired

theorem Steps.trans {s t u : σ} (first : Steps step ok s t) (second : Steps step ok t u) :
    Steps step ok s u := by
  induction second with
  | refl => exact first
  | next _ admitted fired ih => exact .next ih admitted fired

end

/-- Fire a list of events in order; `none` as soon as one of them is not enabled. -/
def exec (step : σ → ε → Option σ) : σ → List ε → Option σ
  | s, [] => some s
  | s, e :: rest => (step s e).bind fun t => exec step t rest

/-- Fire a list of events, checking a decidable guard before each of them. -/
def execGuarded (step : σ → ε → Option σ) (ok : σ → ε → Bool) : σ → List ε → Option σ
  | s, [] => some s
  | s, e :: rest => if ok s e then (step s e).bind fun t => execGuarded step ok t rest else none

section
variable {step : σ → ε → Option σ}

theorem Steps.head {ok : σ → ε → Prop} {s t u : σ} {e : ε} (admitted : ok s e)
    (fired : step s e = some t) (run : Steps step ok t u) : Steps step ok s u :=
  Steps.trans (.next (.refl s) admitted fired) run

theorem steps_of_execGuarded {ok : σ → ε → Bool} {s t : σ} {events : List ε}
    (ran : execGuarded step ok s events = some t) :
    Steps step (fun s e => ok s e = true) s t := by
  induction events generalizing s with
  | nil =>
    cases Option.some.inj ran
    exact .refl _
  | cons e rest ih =>
    simp only [execGuarded] at ran
    split at ran
    · rename_i admitted
      obtain ⟨middle, fired, remaining⟩ := Option.bind_eq_some_iff.mp ran
      exact Steps.head admitted fired (ih remaining)
    · cases ran

theorem steps_of_exec {s t : σ} {events : List ε} (ran : exec step s events = some t) :
    Steps step anyEvent s t := by
  induction events generalizing s with
  | nil =>
    cases Option.some.inj ran
    exact .refl _
  | cons e rest ih =>
    obtain ⟨middle, fired, remaining⟩ := Option.bind_eq_some_iff.mp ran
    exact Steps.head trivial fired (ih remaining)

end

end LowRisc.Lib
