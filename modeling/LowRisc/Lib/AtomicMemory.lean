import Mathlib.Data.List.Basic

/-! One memory cell, accessed atomically.

An access may read the cell and may change it; a write is any type with an action on the values. A
history is serial where every access reads what the accesses before it have left.
-/

set_option autoImplicit false

namespace LowRisc.Lib

variable {V U : Type}

structure Event (V U : Type) where
  read : Option V
  write : Option U
  deriving DecidableEq, Repr

def Event.silent : Event V U := ⟨none, none⟩

def Event.left (act : U → V → V) (e : Event V U) (v : V) : V :=
  match e.write with
  | some u => act u v
  | none => v

def current (act : U → V → V) (v : V) (history : List (Event V U)) : V := history.foldl (fun v e => e.left act v) v

def Serial (act : U → V → V) : V → List (Event V U) → Prop
  | _, [] => True
  | v, e :: rest => (∀ r ∈ e.read, r = v) ∧ Serial act (e.left act v) rest

instance Serial.decidable [DecidableEq V] (act : U → V → V) :
    (v : V) → (history : List (Event V U)) → Decidable (Serial act v history)
  | _, [] => inferInstanceAs (Decidable True)
  | v, e :: rest =>
    have := Serial.decidable act (e.left act v) rest
    inferInstanceAs (Decidable ((∀ r ∈ e.read, r = v) ∧ Serial act (e.left act v) rest))

variable {act : U → V → V} {v : V} {history : List (Event V U)} {e : Event V U}

@[simp] theorem Event.left_silent : (Event.silent : Event V U).left act v = v := rfl

theorem current_concat : current act v (history ++ [e]) = e.left act (current act v history) := by
  simp [current]

theorem Serial.concat (serial : Serial act v history) (read : ∀ r ∈ e.read, r = current act v history) :
    Serial act v (history ++ [e]) := by
  induction history generalizing v with
  | nil => exact ⟨read, trivial⟩
  | cons first rest ih => exact ⟨serial.1, ih serial.2 read⟩

end LowRisc.Lib
