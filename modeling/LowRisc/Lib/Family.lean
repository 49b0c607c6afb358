import Mathlib.Data.Fintype.Card

/-! Finite families with one entry for each member of an index type.

A step that concerns one member changes the family at one point, and a count over the family by at most one.
-/

set_option autoImplicit false

namespace LowRisc.Lib

variable {ι α : Type} {f : ι → α} {i j : ι} {a : α} {p : α → Bool}

/-- How many members of the family meet `p`. -/
def tally [Fintype ι] (p : α → Bool) (f : ι → α) : Nat := (Finset.univ.filter fun i => p (f i) = true).card

theorem tally_eq_zero [Fintype ι] : tally p f = 0 ↔ ∀ i, p (f i) = false := by
  simp [tally, Finset.filter_eq_empty_iff]

variable [DecidableEq ι]

def put (f : ι → α) (i : ι) (a : α) : ι → α := fun j => if j = i then a else f j

@[simp] theorem put_same : put f i a i = a := if_pos rfl

@[simp] theorem put_of_ne (other : j ≠ i) : put f i a j = f j := if_neg other

variable [Fintype ι]

theorem tally_put_same (same : p a = p (f i)) : tally p (put f i a) = tally p f := by
  apply congrArg Finset.card
  ext j
  by_cases here : j = i
  · subst here
    simp [same]
  · simp [here]

theorem tally_put_new (before : p (f i) = false) (after : p a = true) : tally p (put f i a) = tally p f + 1 := by
  have grown : (Finset.univ.filter fun j => p (put f i a j) = true) =
      insert i (Finset.univ.filter fun j => p (f j) = true) := by
    ext j
    by_cases here : j = i
    · subst here
      simp [after]
    · simp [here]
  rw [tally, grown, Finset.card_insert_of_notMem (by simp [before]), tally]

theorem tally_put_gone (before : p (f i) = true) (after : p a = false) : tally p (put f i a) + 1 = tally p f := by
  have restored : put (put f i a) i (f i) = f := by
    funext j
    by_cases here : j = i
    · subst here
      simp
    · simp [here]
  have grown := tally_put_new (f := put f i a) (i := i) (a := f i) (by rw [put_same]; exact after) before
  rw [restored] at grown
  exact grown.symm

end LowRisc.Lib
