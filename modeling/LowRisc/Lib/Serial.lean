import Mathlib.Tactic.Ring
import Mathlib.Tactic.Linarith

/-! Serial multiplication and division.

A multiplier takes some bits of one factor at a time and adds the multiple to an accumulator that
moves down past the finished bits of the product. A divider moves the dividend up one place at a time
and takes the divisor from its top where that is possible. Both are described by what one register
holds after some bits.
-/

set_option autoImplicit false

namespace LowRisc.Lib

/-! Multiplication. -/

/-- After `s` bits of the factor `n`: the accumulator and the finished bits of the product with `c`. -/
structure Multiplied (c : Int) (n s : Nat) (acc : Int) (low : Nat) : Prop where
  low_lt : low < 2 ^ s
  sum : c * (n % 2 ^ s : Nat) = acc * 2 ^ s + low

namespace Multiplied

variable {c acc : Int} {n s low : Nat}

theorem start (c : Int) (n : Nat) : Multiplied c n 0 0 0 where
  low_lt := Nat.one_pos
  sum := by simp [Nat.mod_one]

theorem digit (n s u : Nat) : n % 2 ^ (s + u) = n % 2 ^ s + 2 ^ s * (n / 2 ^ s % 2 ^ u) := by
  rw [Nat.pow_add, Nat.mod_mul]

theorem step (before : Multiplied c n s acc low) (u : Nat) :
    let prod := (n / 2 ^ s % 2 ^ u : Nat) * c + acc
    Multiplied c n (s + u) (prod / 2 ^ u) (low + 2 ^ s * (prod % 2 ^ u).toNat) := by
  intro prod
  have positive : (0 : Int) < 2 ^ u := by positivity
  have rest : ((prod % 2 ^ u).toNat : Int) = prod % 2 ^ u := Int.toNat_of_nonneg (Int.emod_nonneg _ positive.ne')
  constructor
  · have small : (prod % 2 ^ u).toNat < 2 ^ u := by
      have bound := Int.emod_lt_of_pos prod positive
      rw [← rest] at bound
      exact_mod_cast bound
    calc low + 2 ^ s * (prod % 2 ^ u).toNat
        < 2 ^ s + 2 ^ s * (prod % 2 ^ u).toNat := Nat.add_lt_add_right before.low_lt _
      _ = 2 ^ s * ((prod % 2 ^ u).toNat + 1) := by ring
      _ ≤ 2 ^ s * 2 ^ u := Nat.mul_le_mul_left _ small
      _ = 2 ^ (s + u) := (Nat.pow_add 2 s u).symm
  · have whole : prod / 2 ^ u * 2 ^ u + prod % 2 ^ u = prod := Int.ediv_mul_add_emod prod _
    rw [digit]
    push_cast
    rw [rest]
    calc c * ((n : Int) % 2 ^ s + 2 ^ s * (n / 2 ^ s % 2 ^ u))
        = c * ((n % 2 ^ s : Nat) : Int) + 2 ^ s * ((n / 2 ^ s % 2 ^ u : Nat) * c) := by
          push_cast
          ring
      _ = 2 ^ s * prod + low := by
          rw [before.sum]
          ring
      _ = 2 ^ s * (prod / 2 ^ u * 2 ^ u + prod % 2 ^ u) + low := by rw [whole]
      _ = prod / 2 ^ u * 2 ^ (s + u) + (low + 2 ^ s * (prod % 2 ^ u)) := by
          rw [pow_add]
          ring

theorem acc_range {w u d : Nat} (digit : d < 2 ^ u) (factor : -2 ^ w ≤ c ∧ c < 2 ^ w) (inside : -2 ^ w ≤ acc ∧ acc < 2 ^ w) :
    -2 ^ w ≤ (d * c + acc) / 2 ^ u ∧ (d * c + acc) / 2 ^ u < (2 ^ w : Int) := by
  have positive : (0 : Int) < 2 ^ u := by positivity
  have top : (d : Int) + 1 ≤ 2 ^ u := by exact_mod_cast digit
  have zero : (0 : Int) ≤ d := Int.natCast_nonneg d
  constructor
  · rw [Int.le_ediv_iff_mul_le positive]
    nlinarith [mul_le_mul_of_nonneg_left factor.1 zero, mul_le_mul_of_nonneg_left top (show (0 : Int) ≤ 2 ^ w by positivity)]
  · rw [Int.ediv_lt_iff_lt_mul positive]
    have less : (d : Int) * c ≤ d * (2 ^ w - 1) := mul_le_mul_of_nonneg_left (by linarith [factor.2]) zero
    have more : ((d : Int) + 1) * 2 ^ w ≤ 2 ^ u * 2 ^ w := mul_le_mul_of_nonneg_right top (by positivity)
    linarith [inside.2]

theorem product (all : Multiplied c n s acc low) (taken : n / 2 ^ s = 0) : c * n = acc * 2 ^ s + low := by
  have small : n < 2 ^ s := by
    rcases Nat.div_eq_zero_iff.mp taken with zero | small
    · exact absurd zero (Nat.two_pow_pos s).ne'
    · exact small
  rw [← all.sum, Nat.mod_eq_of_lt small]

end Multiplied

/-! Division. -/

/-- After `c` places the register is what is left of the dividend, above the bits of the quotient. By
zero every quotient bit is one. -/
def Divided (w d n c r : Nat) : Prop :=
  ∃ q t, r = t + q ∧ n * 2 ^ c = q * (2 ^ (w + 1) * d) + t ∧ q < 2 ^ c ∧ 2 ^ c ∣ t ∧
    (t < 2 ^ (w + 1) * d ∨ d = 0 ∧ q + 1 = 2 ^ c)

namespace Divided

variable {w d n c r : Nat}

/-- Places without a quotient bit can be passed at once. -/
theorem skip (c : Nat) (below : n * 2 ^ c < 2 ^ (w + 1) * d) : Divided w d n c (n * 2 ^ c) :=
  ⟨0, n * 2 ^ c, rfl, by simp, Nat.two_pow_pos c, Dvd.intro_left n rfl, .inl below⟩

theorem start (small : n < 2 ^ w) : Divided w d n 0 n := by
  refine ⟨0, n, rfl, by simp, Nat.one_pos, one_dvd n, ?_⟩
  rcases Nat.eq_zero_or_pos d with zero | positive
  · exact .inr ⟨zero, rfl⟩
  · refine .inl ?_
    calc n < 2 ^ w := small
      _ ≤ 2 ^ (w + 1) := Nat.pow_le_pow_right (by decide) (Nat.le_succ w)
      _ ≤ 2 ^ (w + 1) * d := Nat.le_mul_of_pos_right _ positive

theorem le_of_le_add {m a b q : Nat} (first : m ∣ a) (second : m ∣ b) (small : q < m) (reach : a ≤ b + q) : a ≤ b := by
  obtain ⟨x, rfl⟩ := first
  obtain ⟨y, rfl⟩ := second
  by_contra above
  have more : y + 1 ≤ x := Nat.lt_of_mul_lt_mul_left (Nat.lt_of_not_le above)
  have room := Nat.mul_le_mul_left m more
  rw [Nat.mul_add, Nat.mul_one] at room
  omega

theorem double (before : Divided w d n c r) (less : r / 2 ^ w < d) : Divided w d n (c + 1) (2 * r) := by
  obtain ⟨q, t, rfl, sum, few, whole, -⟩ := before
  have below : t + q < 2 ^ w * d := (Nat.div_lt_iff_lt_mul (Nat.two_pow_pos w)).mp less |>.trans_eq (Nat.mul_comm d _)
  refine ⟨2 * q, 2 * t, by ring, ?_, ?_, ?_, .inl ?_⟩
  · rw [pow_succ, ← mul_assoc, sum]
    ring
  · rw [pow_succ]
    omega
  · rw [pow_succ, mul_comm]
    exact mul_dvd_mul_left 2 whole
  · rw [pow_succ, mul_right_comm]
    omega

theorem subtract (before : Divided w d n c r) (inside : c ≤ w) (fits : d ≤ r / 2 ^ w) :
    2 ^ (w + 1) * d ≤ 2 * r ∧ Divided w d n (c + 1) (2 * r - 2 ^ (w + 1) * d + 1) := by
  obtain ⟨q, t, rfl, sum, few, whole, bound⟩ := before
  have above : 2 ^ w * d ≤ t + q := by
    rw [Nat.mul_comm]
    exact (Nat.le_div_iff_mul_le (Nat.two_pow_pos w)).mp fits
  have place : 2 ^ c ∣ 2 ^ w * d := Dvd.dvd.mul_right (pow_dvd_pow 2 inside) d
  have enough := le_of_le_add place whole few above
  have scaled : 2 ^ (w + 1) * d = 2 * (2 ^ w * d) := by ring
  refine ⟨by omega, 2 * q + 1, 2 * t - 2 ^ (w + 1) * d, by omega, ?_, ?_, ?_, ?_⟩
  · calc n * 2 ^ (c + 1) = 2 * (n * 2 ^ c) := by ring
      _ = 2 * q * (2 ^ (w + 1) * d) + 2 * t := by
        rw [sum]
        ring
      _ = 2 * q * (2 ^ (w + 1) * d) + 2 ^ (w + 1) * d + (2 * t - 2 ^ (w + 1) * d) := by omega
      _ = (2 * q + 1) * (2 ^ (w + 1) * d) + (2 * t - 2 ^ (w + 1) * d) := by ring
  · rw [pow_succ]
    omega
  · apply Nat.dvd_sub
    · rw [pow_succ, mul_comm]
      exact mul_dvd_mul_left 2 whole
    · exact Dvd.dvd.mul_right (pow_dvd_pow 2 (Nat.succ_le_succ inside)) d
  · rcases bound with less | ⟨zero, ones⟩
    · exact .inl (by omega)
    · refine .inr ⟨zero, ?_⟩
      rw [pow_succ]
      omega

theorem lt (before : Divided w d n c r) (small : n < 2 ^ w) (inside : c ≤ w + 1) :
    r < 2 ^ (w + 1) * d ∨ d = 0 ∧ r < 2 ^ (w + c) := by
  obtain ⟨q, t, rfl, sum, few, whole, bound⟩ := before
  rcases bound with less | ⟨zero, ones⟩
  · refine .inl ?_
    by_contra above
    have place : 2 ^ c ∣ 2 ^ (w + 1) * d := Dvd.dvd.mul_right (pow_dvd_pow 2 inside) d
    exact Nat.not_le_of_lt less (le_of_le_add place whole few (Nat.le_of_not_lt above))
  · refine .inr ⟨zero, ?_⟩
    rw [zero, mul_zero, mul_zero, zero_add] at sum
    calc t + q < n * 2 ^ c + 2 ^ c := by omega
      _ = (n + 1) * 2 ^ c := by ring
      _ ≤ 2 ^ w * 2 ^ c := Nat.mul_le_mul_right _ small
      _ = 2 ^ (w + c) := (Nat.pow_add 2 w c).symm

/-- At the end the remainder stands above the quotient. -/
theorem result (all : Divided w d n (w + 1) r) (small : n < 2 ^ w) :
    r / 2 ^ (w + 1) = n % d ∧ r % 2 ^ w = if d = 0 then 2 ^ w - 1 else n / d := by
  obtain ⟨q, t, rfl, sum, few, ⟨x, rfl⟩, bound⟩ := all
  have positive := Nat.two_pow_pos (w + 1)
  have whole : n = q * d + x := by
    apply Nat.eq_of_mul_eq_mul_right positive
    rw [sum]
    ring
  constructor
  · rw [Nat.mul_add_div positive, Nat.div_eq_of_lt few, Nat.add_zero, whole, Nat.mul_comm q d, Nat.mul_add_mod]
    rcases bound with less | ⟨zero, -⟩
    · exact (Nat.mod_eq_of_lt (Nat.lt_of_mul_lt_mul_left less)).symm
    · rw [zero, Nat.mod_zero]
  · have drop : 2 ^ (w + 1) * x + q = 2 ^ w * (2 * x) + q := by ring
    rw [drop, Nat.mul_add_mod]
    rcases bound with less | ⟨zero, ones⟩
    · have left : x < d := Nat.lt_of_mul_lt_mul_left less
      have quotient : n / d = q := by
        rw [whole, Nat.mul_comm q d, Nat.mul_add_div (by omega), Nat.div_eq_of_lt left, Nat.add_zero]
      rw [if_neg (by omega), quotient]
      apply Nat.mod_eq_of_lt
      rw [← quotient]
      exact Nat.lt_of_le_of_lt (Nat.div_le_self n d) small
    · rw [if_pos zero]
      have top : q = 2 ^ w * 1 + (2 ^ w - 1) := by
        rw [pow_succ] at ones
        have half := Nat.two_pow_pos w
        omega
      rw [top, Nat.mul_add_mod]
      exact Nat.mod_eq_of_lt (Nat.sub_lt (Nat.two_pow_pos w) Nat.one_pos)

end Divided

end LowRisc.Lib
