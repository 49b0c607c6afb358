import LowRisc.Rocket.Multiplier

/-! One step of the divider. -/

set_option autoImplicit false

namespace LowRisc.Rocket.MulDiv

open LowRisc.Lib LowRisc.Chisel LowRisc.Rocket.Decode

variable {c : Config} {s : State c.w} {d n : Nat} {sign : Bool}

/-- The unit is in the middle of the division of `n` by `d`; a quotient by zero is not negated. -/
structure Dividing (c : Config) (s : State c.w) (d n : Nat) (sign : Bool) : Prop where
  isMul : s.isMul = false
  negOut : s.negOut = (sign && !(decide (d = 0 ∧ 0 < s.count) && !s.isHi))
  divisor : s.divisor = d
  small : d < 2 ^ c.w
  small' : n < 2 ^ c.w
  count : s.count ≤ c.w
  divided : Divided c.w d n s.count s.remainder

theorem borrow {p d half : Nat} (small : d < half) (below : p < d) : (p + (2 * half - d)) / half = 1 := by
  apply Nat.div_eq_of_lt_le <;> omega

namespace Dividing

theorem lt (busy : Dividing c s d n sign) : s.remainder / 2 ^ c.w < 2 ^ c.w + d ∧ s.remainder / 2 ^ c.w < 2 ^ (c.w + 1) := by
  have half := Nat.two_pow_pos c.w
  have twice : 2 ^ (c.w + 1) = 2 * 2 ^ c.w := by ring
  have small := busy.small
  rcases busy.divided.lt busy.small' (Nat.le_succ_of_le busy.count) with less | ⟨zero, less⟩
  · have top : s.remainder / 2 ^ c.w < 2 * d := by
      rw [Nat.div_lt_iff_lt_mul half]
      calc s.remainder < 2 ^ (c.w + 1) * d := less
        _ = 2 * d * 2 ^ c.w := by ring
    constructor <;> omega
  · have top : s.remainder / 2 ^ c.w < 2 ^ c.w := by
      rw [Nat.div_lt_iff_lt_mul half, ← pow_add]
      exact Nat.lt_of_lt_of_le less (Nat.pow_le_pow_right (by decide) (Nat.add_le_add_left busy.count _))
    constructor <;> omega

theorem subtractor_eq (busy : Dividing c s d n sign) :
    subtractor c s = (s.remainder / 2 ^ c.w + (2 ^ (c.w + 1) - d)) % 2 ^ (c.w + 1) := by
  unfold subtractor
  rw [bits_from (n := c.w + 1) _ (by omega), Nat.mod_eq_of_lt busy.lt.2, busy.divisor]

theorem subtractor_of_le (busy : Dividing c s d n sign) (fits : d ≤ s.remainder / 2 ^ c.w) :
    subtractor c s = s.remainder / 2 ^ c.w - d := by
  have twice : 2 ^ (c.w + 1) = 2 * 2 ^ c.w := by ring
  have small := busy.small
  have bound := busy.lt.2
  have shape : s.remainder / 2 ^ c.w + (2 ^ (c.w + 1) - d) = s.remainder / 2 ^ c.w - d + 2 ^ (c.w + 1) := by omega
  rw [busy.subtractor_eq, shape, Nat.add_mod_right]
  exact Nat.mod_eq_of_lt (by omega)

theorem less_iff (busy : Dividing c s d n sign) : less c s = true ↔ s.remainder / 2 ^ c.w < d := by
  have half := Nat.two_pow_pos c.w
  have twice : 2 ^ (c.w + 1) = 2 * 2 ^ c.w := by ring
  have small := busy.small
  obtain ⟨above, bound⟩ := busy.lt
  unfold less
  rw [Nat.testBit_eq_decide_div_mod_eq, decide_eq_true_eq]
  by_cases fits : d ≤ s.remainder / 2 ^ c.w
  · rw [busy.subtractor_of_le fits, Nat.div_eq_of_lt (by omega)]
    simp [Nat.not_lt.mpr fits]
  · have wrapped : s.remainder / 2 ^ c.w + (2 ^ (c.w + 1) - d) < 2 ^ (c.w + 1) := by omega
    rw [busy.subtractor_eq, Nat.mod_eq_of_lt wrapped, twice, borrow small (Nat.lt_of_not_le fits)]
    simp [Nat.lt_of_not_le fits]

theorem shifted (busy : Dividing c s d n sign) : Divided c.w d n (s.count + 1)
    ((if less c s then bits s.remainder (2 * c.w - 1) c.w else bits (subtractor c s) (c.w - 1) 0) * 2 ^ (c.w + 1)
      + bits s.remainder (c.w - 1) 0 * 2 + (!less c s).toNat) := by
  have small := busy.small
  obtain ⟨above, bound⟩ := busy.lt
  have whole : s.remainder / 2 ^ c.w * 2 ^ c.w + s.remainder % 2 ^ c.w = s.remainder := Nat.div_add_mod' _ _
  rw [bits_low _ (w_pos c), bits_low _ (w_pos c), bits_from (n := c.w) _ (by have := w_pos c; omega)]
  cases test : less c s with
  | true =>
    have below := busy.less_iff.mp test
    rw [if_pos rfl, Nat.mod_eq_of_lt (by omega)]
    have shape : s.remainder / 2 ^ c.w * 2 ^ (c.w + 1) + s.remainder % 2 ^ c.w * 2 + (!true).toNat = 2 * s.remainder := by
      calc s.remainder / 2 ^ c.w * 2 ^ (c.w + 1) + s.remainder % 2 ^ c.w * 2 + (!true).toNat
          = 2 * (s.remainder / 2 ^ c.w * 2 ^ c.w + s.remainder % 2 ^ c.w) := by
            rw [Bool.not_true, Bool.toNat_false]
            ring
        _ = 2 * s.remainder := by rw [whole]
    rw [shape]
    exact busy.divided.double below
  | false =>
    -- the subtraction does not borrow, so the divisor fits
    have fits : d ≤ s.remainder / 2 ^ c.w := by
      by_contra short
      have := busy.less_iff.mpr (Nat.lt_of_not_le short)
      rw [test] at this
      cases this
    obtain ⟨enough, divided⟩ := busy.divided.subtract busy.count fits
    rw [if_neg (by decide), busy.subtractor_of_le fits, Nat.mod_eq_of_lt (by omega)]
    have shape : (s.remainder / 2 ^ c.w - d) * 2 ^ (c.w + 1) + s.remainder % 2 ^ c.w * 2 + (!false).toNat
        = 2 * s.remainder - 2 ^ (c.w + 1) * d + 1 := by
      have part : (s.remainder / 2 ^ c.w - d) * 2 ^ (c.w + 1) + 2 ^ (c.w + 1) * d = s.remainder / 2 ^ c.w * 2 ^ (c.w + 1) := by
        rw [Nat.mul_comm (2 ^ (c.w + 1)) d, ← Nat.add_mul, Nat.sub_add_cancel fits]
      have double : s.remainder / 2 ^ c.w * 2 ^ (c.w + 1) + s.remainder % 2 ^ c.w * 2 = 2 * s.remainder := by
        calc s.remainder / 2 ^ c.w * 2 ^ (c.w + 1) + s.remainder % 2 ^ c.w * 2
            = 2 * (s.remainder / 2 ^ c.w * 2 ^ c.w + s.remainder % 2 ^ c.w) := by ring
          _ = 2 * s.remainder := by rw [whole]
      rw [Bool.not_false, Bool.toNat_true]
      omega
    rw [shape]
    exact divided

theorem first (busy : Dividing c s d n sign) (start : s.count = 0) : s.remainder = n := by
  obtain ⟨q, t, sum, value, few, -, -⟩ := busy.divided
  rw [start] at value few
  obtain rfl : q = 0 := by omega
  rw [sum]
  omega

/-- The places that are passed at once have no quotient bit. -/
theorem early (busy : Dividing c s d n sign) (out : divEOut c s = true) :
    s.count = 0 ∧ 0 < d ∧ 0 < shift c s ∧ shift c s < c.w ∧ n * 2 ^ shift c s < 2 ^ (c.w + 1) * d := by
  unfold divEOut at out
  simp only [Bool.and_eq_true, decide_eq_true_eq, Bool.or_eq_true] at out
  obtain ⟨⟨⟨-, start⟩, less⟩, room⟩ := out
  have below := busy.less_iff.mp less
  have positive : 0 < d := Nat.lt_of_le_of_lt (Nat.zero_le _) below
  have wide : 2 ≤ c.w := Nat.lt_of_le_of_lt c.positive c.several
  have divisor : divisorMSB c s = d.log2 := by
    unfold divisorMSB
    rw [bits_low _ (w_pos c), busy.divisor, Nat.mod_eq_of_lt busy.small]
  have dividend : dividendMSB c s = n.log2 := by
    unfold dividendMSB
    rw [bits_low _ (w_pos c), busy.first start, Nat.mod_eq_of_lt busy.small']
  have top : n < 2 ^ (n.log2 + 1) := Nat.lt_log2_self
  have bottom : 2 ^ d.log2 ≤ d := Nat.log2_self_le positive.ne'
  have twice : 2 ^ (c.w + 1) * d = 2 * (2 ^ c.w * d) := by ring
  unfold eOutZero at room
  rw [dividend, divisor] at room
  -- a dividend shorter than the divisor passes all places but one
  by_cases short : n.log2 < d.log2
  · have place : shift c s = c.w - 1 := by
      unfold shift eOutZero
      rw [dividend, divisor, decide_eq_true short, if_pos rfl]
    have less : n < d := calc
      n < 2 ^ (n.log2 + 1) := top
      _ ≤ 2 ^ d.log2 := Nat.pow_le_pow_right (by decide) short
      _ ≤ d := bottom
    rw [place]
    refine ⟨start, positive, by omega, by omega, ?_⟩
    calc n * 2 ^ (c.w - 1) ≤ n * 2 ^ (c.w + 1) := Nat.mul_le_mul_left n (Nat.pow_le_pow_right (by decide) (by omega))
      _ < d * 2 ^ (c.w + 1) := Nat.mul_lt_mul_of_pos_right less (Nat.two_pow_pos _)
      _ = 2 ^ (c.w + 1) * d := Nat.mul_comm _ _
  · have inside : n.log2 < c.w := by
      by_cases zero : n = 0
      · rw [zero]
        exact w_pos c
      · exact (Nat.log2_lt zero).mpr busy.small'
    -- the position counts modulo a power of two that no operand length reaches
    have fits := le_two_pow_log2Up c.w
    have position : eOutPos c s = c.w - 1 + d.log2 - n.log2 := by
      unfold eOutPos
      have shape : c.w - 1 + d.log2 + (2 ^ log2Up c.w - n.log2) = c.w - 1 + d.log2 - n.log2 + 2 ^ log2Up c.w := by omega
      rw [divisor, dividend, shape, Nat.add_mod_right]
      exact Nat.mod_eq_of_lt (by omega)
    have place : shift c s = c.w - 1 + d.log2 - n.log2 := by
      unfold shift eOutZero
      rw [dividend, divisor, decide_eq_false short, if_neg (by decide), position]
    rw [position] at room
    rw [place]
    refine ⟨start, positive, ?_, by omega, ?_⟩
    · rcases room with some' | zero
      · exact some'
      · exact absurd (of_decide_eq_true zero) short
    · calc n * 2 ^ (c.w - 1 + d.log2 - n.log2)
          < 2 ^ (n.log2 + 1) * 2 ^ (c.w - 1 + d.log2 - n.log2) := Nat.mul_lt_mul_of_pos_right top (Nat.two_pow_pos _)
        _ = 2 ^ c.w * 2 ^ d.log2 := by
          rw [← pow_add, ← pow_add]
          congr 1
          omega
        _ ≤ 2 ^ c.w * d := Nat.mul_le_mul_left _ bottom
        _ ≤ 2 ^ (c.w + 1) * d := by omega

theorem less_first (busy : Dividing c s d n sign) (start : s.count = 0) : less c s = decide (d ≠ 0) := by
  rw [Bool.eq_iff_iff, busy.less_iff, busy.first start, Nat.div_eq_of_lt busy.small', decide_eq_true_eq]
  exact Nat.pos_iff_ne_zero

theorem negOut_step (busy : Dividing c s d n sign) : (divStep c s).negOut = (sign && !(decide (d = 0) && !s.isHi)) := by
  show (s.negOut && !(decide (s.count = 0) && !less c s && !s.isHi)) = _
  rw [busy.negOut]
  by_cases start : s.count = 0
  · rw [busy.less_first start]
    simp [start]
  · have later : 0 < s.count := Nat.pos_of_ne_zero start
    simp [start, later]

/-- A step goes on with the division, or the quotient stands below the remainder. -/
theorem step (busy : Dividing c s d n sign) :
    (divStep c s).isHi = s.isHi ∧ (divStep c s).req = s.req ∧ (divStep c s).isMul = false ∧
    ((divStep c s).state = s.state ∧ s.count < (divStep c s).count ∧ Dividing c (divStep c s) d n sign
      ∨ (divStep c s).state = (if s.isHi then .moveRem else if s.negOut then .negOutput else .done)
        ∧ (divStep c s).negOut = (sign && !(decide (d = 0) && !s.isHi)) ∧ s.negOut = (divStep c s).negOut
        ∧ (divStep c s).remainder / 2 ^ (c.w + 1) = n % d
        ∧ (divStep c s).remainder % 2 ^ c.w = if d = 0 then 2 ^ c.w - 1 else n / d) := by
  refine ⟨rfl, rfl, busy.isMul, ?_⟩
  have negOut := busy.negOut_step
  have fits := le_two_pow_log2Up (c.w + 1)
  cases out : divEOut c s with
  -- the first step passes all leading places at once
  | true =>
    obtain ⟨start, positive, some', inside, below⟩ := busy.early out
    have count : (divStep c s).count = shift c s := by simp [divStep, out]
    have remainder : (divStep c s).remainder = n * 2 ^ shift c s := by
      -- the shifted dividend still fits into the register
      have bound : n * 2 ^ shift c s < 2 ^ (2 * mulw c + 2) := calc
        n * 2 ^ shift c s < 2 ^ (c.w + 1) * d := below
        _ ≤ 2 ^ (c.w + 1) * 2 ^ c.w := Nat.mul_le_mul_left _ busy.small.le
        _ = 2 ^ (c.w + 1 + c.w) := (pow_add 2 _ _).symm
        _ ≤ 2 ^ (2 * mulw c + 2) := Nat.pow_le_pow_right (by decide) (by rw [mulw_eq]; omega)
      simp only [divStep, out, if_true]
      rw [bits_low _ (w_pos c), busy.first start, Nat.mod_eq_of_lt busy.small', Nat.mod_eq_of_lt bound]
    have going : s.count ≠ c.w := by
      rw [start]
      exact (w_pos c).ne
    refine .inl ⟨by simp [divStep, going], by rw [count, start]; exact some', ⟨busy.isMul, ?_, busy.divisor, busy.small, busy.small', ?_, ?_⟩⟩
    · rw [negOut]
      simp [positive.ne']
    · rw [count]
      exact inside.le
    · rw [count, remainder]
      exact .skip _ below
  | false =>
    have remainder : Divided c.w d n (s.count + 1) (divStep c s).remainder := by
      simp only [divStep, out, Bool.false_eq_true, if_false]
      exact busy.shifted
    by_cases last : s.count = c.w
    · rw [last] at remainder
      obtain ⟨high, low⟩ := remainder.result busy.small'
      refine .inr ⟨by simp [divStep, last], negOut, ?_, high, low⟩
      -- the last place is not the first, so the sign is settled
      have later : 0 < s.count := by
        rw [last]
        exact w_pos c
      rw [negOut, busy.negOut]
      simp [later]
    · have inside := Nat.lt_of_le_of_ne busy.count last
      have count : (divStep c s).count = s.count + 1 := by
        simp only [divStep, out, Bool.false_eq_true, if_false]
        exact Nat.mod_eq_of_lt (by omega)
      refine .inl ⟨by simp [divStep, last], by rw [count]; exact Nat.lt_succ_self _,
        ⟨busy.isMul, ?_, busy.divisor, busy.small, busy.small', by rw [count]; exact inside, by rw [count]; exact remainder⟩⟩
      rw [negOut, count]
      simp
      rfl

end Dividing

end LowRisc.Rocket.MulDiv
