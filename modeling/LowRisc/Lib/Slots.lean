import Mathlib.Algebra.GroupWithZero.Nat
import Mathlib.Data.List.Perm.Basic
import Mathlib.Data.List.Range

/-! Tables with a fixed number of slots.

A slot holds one entry or none, and the table stands for the entries it holds.
Where each entry lies is the table's own business: filling or emptying one slot
adds or takes away one entry, up to the order of the list.
-/

set_option autoImplicit false

namespace LowRisc.Lib

variable {α : Type} {n : Nat} {slot slot' : Nat → Option α} {k : Nat} {a : α}

/-- The entries of a table of `n` slots, in slot order. -/
def entries (n : Nat) (slot : Nat → Option α) : List α := (List.range n).filterMap slot

theorem mem_entries : a ∈ entries n slot ↔ ∃ k, k < n ∧ slot k = some a := by
  simp [entries]

theorem length_entries_le : (entries n slot).length ≤ n := by
  have bound := List.length_filterMap_le slot (List.range n)
  rwa [List.length_range] at bound

theorem entries_congr (same : ∀ i < n, slot' i = slot i) : entries n slot' = entries n slot := by
  apply List.filterMap_congr
  intro i inside
  exact same i (List.mem_range.mp inside)

theorem entries_eq_nil (vacant : ∀ i < n, slot i = none) : entries n slot = [] := by
  apply List.filterMap_eq_nil_iff.mpr
  intro i inside
  exact vacant i (List.mem_range.mp inside)

theorem entries_succ : entries (n + 1) slot = entries n slot ++ (slot n).toList := by
  rw [entries, List.range_succ, List.filterMap_append, entries]
  cases held : slot n <;> simp [held]

theorem entries_fill (inside : k < n) (before : slot k = none) (after : slot' k = some a)
    (same : ∀ i < n, i ≠ k → slot' i = slot i) : (entries n slot').Perm (a :: entries n slot) := by
  induction n with
  | zero => omega
  | succ n ih =>
    rw [entries_succ, entries_succ]
    rcases Nat.lt_succ_iff_lt_or_eq.mp inside with lower | rfl
    · have rest := ih lower fun i below => same i (by omega)
      rw [same n (by omega) (by omega)]
      exact rest.append_right _
    · rw [entries_congr fun i below => same i (by omega) (by omega), before, after]
      simp

theorem entries_empty (inside : k < n) (before : slot k = some a) (after : slot' k = none)
    (same : ∀ i < n, i ≠ k → slot' i = slot i) : (entries n slot).Perm (a :: entries n slot') := by
  apply entries_fill inside after before
  intro i below other
  exact (same i below other).symm

end LowRisc.Lib
