import Mathlib.Data.List.Nodup
import Mathlib.Algebra.GroupWithZero.Nat

/-! Parities of families of bits. -/

set_option autoImplicit false

namespace LowRisc.Lib

variable {α : Type}

/-- The exclusive or of a family of bits. -/
def parity (l : List α) (f : α → Bool) : Bool := l.foldr (fun a rest => f a ^^ rest) false

@[simp] theorem parity_nil (f : α → Bool) : parity [] f = false := rfl

@[simp] theorem parity_cons (a : α) (l : List α) (f : α → Bool) : parity (a :: l) f = (f a ^^ parity l f) := rfl

theorem parity_congr {l : List α} {f g : α → Bool} (same : ∀ a ∈ l, f a = g a) : parity l f = parity l g := by
  induction l with
  | nil => rfl
  | cons a l ih =>
    simp only [parity_cons, same a List.mem_cons_self, ih fun b inside => same b (List.mem_cons_of_mem a inside)]

theorem parity_xor (l : List α) (f g : α → Bool) : parity l (fun a => f a ^^ g a) = (parity l f ^^ parity l g) := by
  induction l with
  | nil => rfl
  | cons a l ih =>
    simp only [parity_cons, ih]
    cases f a <;> cases g a <;> cases parity l f <;> cases parity l g <;> rfl

theorem parity_append (l r : List α) (f : α → Bool) : parity (l ++ r) f = (parity l f ^^ parity r f) := by
  induction l with
  | nil => simp
  | cons a l ih => simp only [List.cons_append, parity_cons, ih, Bool.xor_assoc]

theorem parity_filter (l : List α) (p f : α → Bool) : parity (l.filter p) f = parity l fun a => p a && f a := by
  induction l with
  | nil => rfl
  | cons a l ih =>
    simp only [List.filter_cons, parity_cons]
    cases p a
    · simpa using ih
    · simpa using ih

variable [DecidableEq α]

theorem parity_pick {l : List α} (nodup : l.Nodup) (b : α) (f : α → Bool) :
    parity l (fun a => decide (a = b) && f a) = (decide (b ∈ l) && f b) := by
  induction l with
  | nil => rfl
  | cons a l ih =>
    obtain ⟨fresh, nodup⟩ := List.nodup_cons.mp nodup
    rw [parity_cons, ih nodup]
    by_cases same : a = b
    · subst same
      simp [fresh]
    · simp [same, Ne.symm same]

theorem parity_split {l : List α} (nodup : l.Nodup) {b : α} (inside : b ∈ l) (f : α → Bool) :
    parity l f = (f b ^^ parity (l.filter fun a => decide (a ≠ b)) f) := by
  have parts : parity l f = parity l fun a => (decide (a = b) && f a) ^^ (decide (a ≠ b) && f a) := by
    apply parity_congr
    intro a _
    by_cases same : a = b <;> simp [same]
  rw [parts, parity_xor, parity_pick nodup, parity_filter]
  simp [inside]

end LowRisc.Lib
