import Mathlib.Algebra.GroupWithZero.Nat
import Mathlib.Data.List.Basic

/-! The Chisel library functions that the tag cache and the data cache are written with. -/

set_option autoImplicit false

namespace LowRisc.Chisel

/-- `log2Up`: the width that can hold `n` different values, and at least one bit. -/
def log2Up (n : Nat) : Nat :=
  if n ≤ 2 then 1 else Nat.log2 (n - 1) + 1

theorem le_two_pow_log2Up (n : Nat) : n ≤ 2 ^ log2Up n := by
  rw [log2Up]
  split
  · assumption
  · have below := Nat.lt_log2_self (n := n - 1)
    omega

theorem log2Up_two_pow {k : Nat} (positive : 0 < k) : log2Up (2 ^ k) = k := by
  rw [log2Up]
  split
  · rename_i small
    have : k ≤ 1 := (Nat.pow_le_pow_iff_right (show 1 < 2 by decide)).mp (by simpa using small)
    omega
  · rename_i large
    obtain ⟨k, rfl⟩ : ∃ j, k = j + 1 := ⟨k - 1, by omega⟩
    rw [Nat.pow_succ] at large ⊢
    have half := Nat.two_pow_pos k
    congr 1
    rw [Nat.log2_eq_iff (by omega), Nat.pow_succ]
    omega

def isPow2 (n : Nat) : Prop := ∃ k, n = 2 ^ k

/-- The field `x(hi, lo)`. -/
def bits (x hi lo : Nat) : Nat := x / 2 ^ lo % 2 ^ (hi + 1 - lo)

/-- The next value of `Counter(cond, n)`. -/
def counterNext (cond : Bool) (n value : Nat) : Nat :=
  if cond then if value + 1 = n then 0 else value + 1 else value

/-- The second result of `Counter(cond, n)`: it wraps in this cycle. -/
def counterWrap (cond : Bool) (n value : Nat) : Bool := cond && decide (value + 1 = n)

/-- `OHToUInt` of the set of enabled positions: the positions are combined bit by bit. -/
def ohToUInt (positions : List Nat) : Nat := positions.foldl (· ||| ·) 0

@[simp] theorem ohToUInt_singleton (w : Nat) : ohToUInt [w] = w := by
  simp [ohToUInt]

/-- The input an `RRArbiter` with `n` inputs presents on its output. Inputs above
`last_grant` come first; without a valid input the output shows the last one. -/
def rrChosen (n lastGrant : Nat) (valid : Nat → Bool) : Nat :=
  match (List.range n).find? fun i => valid i && decide (lastGrant < i) with
  | some i => i
  | none => ((List.range n).find? valid).getD (n - 1)

end LowRisc.Chisel
