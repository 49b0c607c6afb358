import LowRisc.Rocket.Divider
import LowRisc.Rocket.MulDivOperands

/-! The phases of the multiplier and divider.

Each phase keeps enough of the request for its outcome: the registers of a product or of a division in
the middle, a result that is still above its place, or one that is still to be negated.
-/

set_option autoImplicit false

namespace LowRisc.Rocket.MulDiv

open LowRisc.Lib LowRisc.Chisel LowRisc.Rocket.Decode

variable {c : Config} {s : State c.w}

/-! The unit at work. -/

/-- What the registers hold of the request, in each phase. -/
inductive Good (c : Config) (s : State c.w) : Prop where
  | ready (phase : s.state = .ready)
  | negInputs (phase : s.state = .negInputs) (loaded : s = accept c s.req (control s.req.fn))
  | multiplying (phase : s.state = .busy) (cmd : (control s.req.fn).cmdMul = true) (hi : s.isHi = (control s.req.fn).cmdHi)
      (f : Int) (n : Nat) (busy : Multiplying c s f n) (same : f * n = lhs c s.req * rhs c s.req)
  | dividing (phase : s.state = .busy) (cmd : (control s.req.fn).cmdMul = false) (hi : s.isHi = (control s.req.fn).cmdHi)
      (busy : Dividing c s (rhs c s.req).natAbs (lhs c s.req).natAbs
        (if s.isHi then decide (lhs c s.req < 0) else decide (lhs c s.req < 0) != decide (rhs c s.req < 0)))
  | moveRem (phase : s.state = .moveRem) (u : Int) (shows : ShowsHigh c s u) (same : (if s.negOut then -u else u) = outcome c s.req)
  | negOutput (phase : s.state = .negOutput) (u : Int) (shows : Shows c s u) (same : -u = outcome c s.req)
  | done (phase : s.state = .done) (shows : Shows c s (outcome c s.req))

/-- Both operands of a division are signed, or none is. -/
theorem signed_of_div (op : Op) {fn : BitVec SZ_ALU_FN} (code : fn.toNat = op.fn) (cmd : (control fn).cmdMul = false) :
    (control fn).lhsSigned = (control fn).rhsSigned := by
  obtain ⟨isMul, -, signs⟩ := control_eq op code
  rw [isMul] at cmd
  have both : op ≠ .mul ∧ op.lhsSigned = op.rhsSigned := by
    cases op <;> first | exact ⟨by decide, rfl⟩ | cases cmd
  obtain ⟨left, right⟩ := signs both.1
  rw [left, right, both.2]

structure Word (w : Nat) (x : Nat × Bool) : Prop where
  small : x.1 < 2 ^ w
  above : -2 ^ w < number w x
  below : number w x < 2 ^ w
  negative : number w x < 0 ↔ x.2 = true
  natAbs : (number w x).natAbs = if x.2 then 2 ^ w - x.1 else x.1

theorem word_sext (dw : Bool) (x : BitVec c.w) (signed : Bool) : Word c.w (sext c dw x signed) := by
  obtain ⟨small, -, on, off⟩ := sext_spec dw x signed
  have top : (sext c dw x signed).2 = true → (sext c dw x signed).1.testBit (c.w - 1) = true := by
    intro sign
    cases signed with
    | true => exact (on rfl).symm.trans sign
    | false =>
      rw [off rfl] at sign
      cases sign
  obtain ⟨low, high, negative⟩ := number_range small top
  exact ⟨small, low, high, negative, natAbs_number small⟩

theorem Word.natAbs_lt {w : Nat} {x : Nat × Bool} (word : Word w x) : (number w x).natAbs < 2 ^ w := by
  have low := word.above
  have high := word.below
  zify
  rw [abs_lt]
  exact ⟨low, high⟩

theorem Word.sign {w : Nat} {x : Nat × Bool} (word : Word w x) : decide (number w x < 0) = x.2 := by
  rw [Bool.eq_iff_iff, decide_eq_true_eq]
  exact word.negative

theorem Word.divisor {w : Nat} {x : Nat × Bool} (word : Word w x) : x.2.toNat * 2 ^ w + x.1 = (number w x % 2 ^ (w + 1)).toNat := by
  have small := word.small
  have twice : (2 : Int) ^ (w + 1) = 2 * 2 ^ w := by ring
  have natural := Int.natCast_nonneg x.1
  zify at small ⊢
  rw [toNat_emod]
  unfold number
  cases x.2 with
  | false =>
    simp only [Bool.false_eq_true, if_false, sub_zero]
    rw [Int.emod_eq_of_lt natural (by linarith)]
    simp
  | true =>
    simp only [if_true]
    rw [← Int.add_emod_right, Int.emod_eq_of_lt (by linarith) (by linarith), twice]
    simp
    ring

theorem multiplying_start {f : Int} {n : Nat} (isMul : s.isMul = true) (negOut : s.negOut = false) (start : s.count = 0)
    (factor : -2 ^ c.w ≤ f ∧ f < 2 ^ c.w) (small : n < 2 ^ c.w) (divisor : s.divisor = (f % 2 ^ (c.w + 1)).toNat)
    (remainder : s.remainder = n) : Multiplying c s f n := by
  have whole : mulReg c s = n := by
    rw [mulReg_eq, remainder, Nat.div_eq_of_lt (Nat.lt_trans small (Nat.pow_lt_pow_right (by decide) (Nat.lt_succ_self _))),
      Nat.mod_eq_of_lt small]
    simp
  refine ⟨isMul, negOut, factor, small, divisor, ?_, ?_⟩
  · rw [start, Nat.zero_mul]
    exact w_pos c
  · rw [start, Nat.zero_mul, whole]
    exact .start c f n

theorem dividing_start {d n : Nat} {sign : Bool} (isMul : s.isMul = false) (negOut : s.negOut = sign) (start : s.count = 0)
    (small : d < 2 ^ c.w) (small' : n < 2 ^ c.w) (divisor : s.divisor = d) (remainder : s.remainder = n) : Dividing c s d n sign := by
  refine ⟨isMul, ?_, divisor, small, small', ?_, ?_⟩
  · rw [negOut, start]
    simp
  · rw [start]
    exact Nat.zero_le _
  · rw [start, remainder]
    exact .start small'

theorem accept_good (r : MultiplierReq c.w) : Good c (accept c r (control r.fn)) := by
  have left : Word c.w (lhsWord c r) := word_sext _ _ _
  have right : Word c.w (rhsWord c r) := word_sext _ _ _
  cases negative : (lhsWord c r).2 || (rhsWord c r).2 && !(control r.fn).cmdMul with
  | true => exact .negInputs (if_pos negative) rfl
  | false =>
    -- no operand is negative where it matters, so the work begins at once
    have phase : (accept c r (control r.fn)).state = .busy := if_neg (Bool.eq_false_iff.mp negative)
    rw [Bool.or_eq_false_iff] at negative
    have number' : lhs c r = (lhsWord c r).1 := by
      simp [lhs, number, negative.1]
    cases cmd : (control r.fn).cmdMul with
    | true =>
      refine .multiplying phase cmd rfl (rhs c r) (lhsWord c r).1 ?_ ?_
      · apply multiplying_start cmd _ rfl ⟨right.above.le, right.below⟩ left.small right.divisor rfl
        show (!(control r.fn).cmdMul && _) = false
        rw [cmd, Bool.not_true, Bool.false_and]
      · show rhs c r * (lhsWord c r).1 = lhs c r * rhs c r
        rw [number', mul_comm]
    | false =>
      have positive : (rhsWord c r).2 = false := by simpa [cmd] using negative.2
      have up : decide (lhs c r < 0) = false := by
        rw [decide_eq_false_iff_not, lhs, left.negative, negative.1]
        decide
      have up' : decide (rhs c r < 0) = false := by
        rw [decide_eq_false_iff_not, rhs, right.negative, positive]
        decide
      refine .dividing phase cmd rfl (dividing_start cmd ?_ rfl right.natAbs_lt left.natAbs_lt ?_ ?_)
      · show (!(control r.fn).cmdMul && if (control r.fn).cmdHi then (lhsWord c r).2 else (lhsWord c r).2 != (rhsWord c r).2) =
          if (control r.fn).cmdHi then decide (lhs c r < 0) else decide (lhs c r < 0) != decide (rhs c r < 0)
        rw [up, up', negative.1, positive]
        simp
      · show (rhsWord c r).2.toNat * 2 ^ c.w + (rhsWord c r).1 = (number c.w (rhsWord c r)).natAbs
        rw [right.natAbs, positive]
        simp
      · show (lhsWord c r).1 = (number c.w (lhsWord c r)).natAbs
        rw [left.natAbs, negative.1]
        simp

theorem negatedRemainder_eq {n : Nat} (remainder : s.remainder = n) (small : n < 2 ^ c.w) (positive : 0 < n) :
    negatedRemainder c s = 2 ^ c.w - n := by
  unfold negatedRemainder
  rw [bits_low _ (w_pos c), remainder, Nat.mod_eq_of_lt small]
  exact Nat.mod_eq_of_lt (Nat.sub_lt (Nat.two_pow_pos _) positive)

/-- Before the first step the subtractor only negates. -/
theorem subtractor_start (small : s.remainder < 2 ^ c.w) : subtractor c s = (2 ^ (c.w + 1) - s.divisor) % 2 ^ (c.w + 1) := by
  unfold subtractor
  rw [bits_from (n := c.w + 1) _ (by omega), Nat.div_eq_of_lt small, Nat.zero_mod, Nat.zero_add]

theorem emod_neg (z : Int) (n : Nat) : (2 ^ n - (z % 2 ^ n).toNat) % 2 ^ n = (-z % 2 ^ n).toNat := by
  have less := toNat_emod_lt z n
  zify [less.le]
  rw [toNat_emod, toNat_emod]
  have same : (2 : Int) ^ n - z % 2 ^ n ≡ 0 - z [ZMOD 2 ^ n] := by
    apply Int.ModEq.sub
    · exact Int.emod_self.trans (Int.zero_emod _).symm
    · exact Int.mod_modEq z _
  rw [zero_sub] at same
  exact same

theorem Word.positive {w : Nat} {x : Nat × Bool} (word : Word w x) (sign : x.2 = true) : 0 < x.1 := by
  have below := word.above
  unfold number at below
  rw [sign, if_pos rfl] at below
  zify
  linarith

theorem negInputs_signed {r : MultiplierReq c.w} (phase : (accept c r (control r.fn)).state = .negInputs) :
    ((lhsWord c r).2 || (rhsWord c r).2 && !(control r.fn).cmdMul) = true := by
  by_contra none'
  have busy : (accept c r (control r.fn)).state = .busy := if_neg none'
  rw [busy] at phase
  cases phase

theorem subtractor_accept (r : MultiplierReq c.w) :
    subtractor c (accept c r (control r.fn)) = (-rhs c r % 2 ^ (c.w + 1)).toNat := by
  have right : Word c.w (rhsWord c r) := word_sext _ _ _
  rw [subtractor_start (s := accept c r (control r.fn)) (word_sext _ _ _ : Word c.w (lhsWord c r)).small, ← emod_neg, rhs,
    ← right.divisor]
  rfl

/-- Both factors of a product change their sign. -/
theorem negInputs_multiplying {r : MultiplierReq c.w} (phase : (accept c r (control r.fn)).state = .negInputs)
    (cmd : (control r.fn).cmdMul = true) : Good c (negInputs c (accept c r (control r.fn))) := by
  have left : Word c.w (lhsWord c r) := word_sext _ _ _
  have right : Word c.w (rhsWord c r) := word_sext _ _ _
  have some' := negInputs_signed phase
  have subtracted := subtractor_accept r
  have sign : (lhsWord c r).2 = true := by simpa [cmd] using some'
  have isMul : (accept c r (control r.fn)).isMul = true := cmd
  have value : ((2 ^ c.w - (lhsWord c r).1 : Nat) : Int) = -lhs c r := by
    rw [lhs, number, sign, if_pos rfl]
    zify [left.small.le]
    ring
  refine .multiplying rfl cmd rfl (-rhs c r) (2 ^ c.w - (lhsWord c r).1) ?_ ?_
  · apply multiplying_start
    · exact cmd
    · show (!(control r.fn).cmdMul && _) = false
      rw [cmd, Bool.not_true, Bool.false_and]
    · rfl
    · have low := right.above
      have high := right.below
      constructor <;> linarith [show rhs c r = number c.w (rhsWord c r) from rfl]
    · exact Nat.sub_lt (Nat.two_pow_pos _) (left.positive sign)
    · simp only [negInputs, isMul, Bool.or_true, if_true]
      exact subtracted
    · simp only [negInputs, isMul, Bool.or_true, if_true]
      exact negatedRemainder_eq (s := accept c r (control r.fn)) rfl left.small (left.positive sign)
  · rw [value]
    show -rhs c r * -lhs c r = lhs c r * rhs c r
    ring

/-- The operands of a division are negated where their sign bit is up. -/
theorem negInputs_dividing (op : Op) {r : MultiplierReq c.w} (code : r.fn.toNat = op.fn)
    (phase : (accept c r (control r.fn)).state = .negInputs) (cmd : (control r.fn).cmdMul = false) :
    Good c (negInputs c (accept c r (control r.fn))) := by
  have left : Word c.w (lhsWord c r) := word_sext _ _ _
  have right : Word c.w (rhsWord c r) := word_sext _ _ _
  have some' := negInputs_signed phase
  have isMul : (accept c r (control r.fn)).isMul = false := cmd
  obtain ⟨-, -, on, off⟩ := sext_spec r.dw r.in1 (control r.fn).lhsSigned
  obtain ⟨-, -, on', off'⟩ := sext_spec r.dw r.in2 (control r.fn).rhsSigned
  -- only signed operands are negated, and a division has both signed or none
  have kind : (control r.fn).lhsSigned = true ∧ (control r.fn).rhsSigned = true := by
    have both := signed_of_div op code cmd
    cases signed : (control r.fn).lhsSigned with
    | true => exact ⟨rfl, by rw [← both, signed]⟩
    | false =>
      rw [signed] at both
      have one : (lhsWord c r).2 = false := off signed
      have two : (rhsWord c r).2 = false := off' both.symm
      rw [one, two] at some'
      cases some'
  have top : (accept c r (control r.fn)).remainder.testBit (c.w - 1) = (lhsWord c r).2 := (on kind.1).symm
  have top' : (accept c r (control r.fn)).divisor.testBit (c.w - 1) = (rhsWord c r).2 := by
    show ((rhsWord c r).2.toNat * 2 ^ c.w + (rhsWord c r).1).testBit (c.w - 1) = _
    rw [Nat.mul_comm, Nat.testBit_two_pow_mul_add _ right.small, if_pos (Nat.sub_lt (w_pos c) Nat.one_pos)]
    exact (on' kind.2).symm
  refine .dividing rfl cmd rfl (dividing_start cmd ?_ rfl right.natAbs_lt left.natAbs_lt ?_ ?_)
  · show (!(control r.fn).cmdMul && if (control r.fn).cmdHi then (lhsWord c r).2 else (lhsWord c r).2 != (rhsWord c r).2) =
      if (control r.fn).cmdHi then decide (lhs c r < 0) else decide (lhs c r < 0) != decide (rhs c r < 0)
    rw [lhs, rhs, left.sign, right.sign, cmd, Bool.not_false, Bool.true_and]
  · simp only [negInputs, top', isMul, Bool.or_false]
    show _ = (number c.w (rhsWord c r)).natAbs
    rw [right.natAbs]
    cases sign : (rhsWord c r).2 with
    | true =>
      have small := right.small
      have some' := right.positive sign
      -- the sign bit of the divisor stands above the word and makes the subtraction a negation
      have twice : 2 ^ (c.w + 1) = 2 * 2 ^ c.w := by ring
      have loaded : (accept c r (control r.fn)).divisor = 2 ^ c.w + (rhsWord c r).1 := by
        show (rhsWord c r).2.toNat * 2 ^ c.w + (rhsWord c r).1 = _
        rw [sign, Bool.toNat_true, Nat.one_mul]
      rw [if_pos rfl, if_pos rfl, subtractor_start (s := accept c r (control r.fn)) left.small, loaded, twice]
      rw [Nat.mod_eq_of_lt (by omega)]
      omega
    | false =>
      rw [if_neg (by decide), if_neg (by decide)]
      show (rhsWord c r).2.toNat * 2 ^ c.w + (rhsWord c r).1 = _
      rw [sign, Bool.toNat_false, Nat.zero_mul, Nat.zero_add]
  · simp only [negInputs, top, isMul, Bool.or_false]
    show _ = (number c.w (lhsWord c r)).natAbs
    rw [left.natAbs]
    cases sign : (lhsWord c r).2 with
    | true =>
      rw [if_pos rfl, if_pos rfl]
      exact negatedRemainder_eq (s := accept c r (control r.fn)) rfl left.small (left.positive sign)
    | false => rfl

/-- The operands are made positive, or both factors negated. -/
theorem negInputs_good (op : Op) {r : MultiplierReq c.w} (code : r.fn.toNat = op.fn)
    (phase : (accept c r (control r.fn)).state = .negInputs) : Good c (negInputs c (accept c r (control r.fn))) := by
  cases cmd : (control r.fn).cmdMul with
  | true => exact negInputs_multiplying phase cmd
  | false => exact negInputs_dividing op code phase cmd

/-! Negation of what is shown. -/

theorem shows_negated {u : Int} (shows : Shows c s u) {s' : State c.w} (remainder : s'.remainder = negatedRemainder c s) :
    Shows c s' (-u) := by
  have less : s.remainder % 2 ^ c.w < 2 ^ c.w := Nat.mod_lt _ (Nat.two_pow_pos _)
  have negated : ((2 : Int) ^ c.w - s.remainder % 2 ^ c.w) ≡ 0 - u [ZMOD 2 ^ c.w] := by
    apply Int.ModEq.sub
    · exact Int.emod_self.trans (Int.zero_emod _).symm
    · exact (Int.mod_modEq _ _).trans shows
  unfold Shows
  rw [remainder, negatedRemainder, bits_low _ (w_pos c)]
  push_cast [less.le]
  rw [Int.emod_emod_of_dvd _ dvd_rfl, ← zero_sub]
  exact negated

theorem shows_of_mod {x : Nat} (low : s.remainder % 2 ^ c.w = x) : Shows c s x := by
  unfold Shows
  rw [← low]
  push_cast
  exact (Int.emod_emod_of_dvd _ dvd_rfl).symm

theorem multiplying_good {f : Int} {n : Nat} (phase : s.state = .busy) (cmd : (control s.req.fn).cmdMul = true)
    (hi : s.isHi = (control s.req.fn).cmdHi) (busy : Multiplying c s f n) (same : f * n = lhs c s.req * rhs c s.req) :
    Good c (mulStep c s) := by
  obtain ⟨isHi, req, isMul, negOut, ⟨going, -, later⟩ | ⟨done, low, shows⟩ | ⟨up, high, shows⟩⟩ := mulStep_spec busy
  · refine .multiplying (going.trans phase) ?_ ?_ f n later ?_
    · rw [req, cmd]
    · rw [isHi, req, hi]
    · rw [req, same]
  · refine .done done ?_
    rw [same] at shows
    rw [req, outcome, if_pos cmd, ← hi, low]
    exact shows
  · refine .moveRem up _ shows ?_
    rw [negOut, req, outcome, if_pos cmd, ← hi, high, same]
    rfl

theorem dividing_good (phase : s.state = .busy) (cmd : (control s.req.fn).cmdMul = false)
    (hi : s.isHi = (control s.req.fn).cmdHi) (busy : Dividing c s (rhs c s.req).natAbs (lhs c s.req).natAbs
      (if s.isHi then decide (lhs c s.req < 0) else decide (lhs c s.req < 0) != decide (rhs c s.req < 0))) :
    Good c (divStep c s) := by
  obtain ⟨isHi, req, isMul, ⟨going, -, later⟩ | ⟨state, negOut, same, high, low⟩⟩ := busy.step
  · refine .dividing (going.trans phase) ?_ ?_ ?_
    · rw [req, cmd]
    · rw [isHi, req, hi]
    · rw [isHi, req]
      exact later
  · have zero_iff : (rhs c s.req).natAbs = 0 ↔ rhs c s.req = 0 := Int.natAbs_eq_zero
    -- the remainder takes the sign of the dividend
    cases kind : s.isHi with
    | true =>
      rw [kind, if_pos rfl] at state
      rw [kind, if_pos rfl, Bool.not_true, Bool.and_false, Bool.not_false, Bool.and_true] at negOut
      refine .moveRem state ((lhs c s.req).natAbs % (rhs c s.req).natAbs : Nat) ?_ ?_
      · rw [ShowsHigh, high]
      · have value : outcome c s.req = (lhs c s.req).tmod (rhs c s.req) := by
          simp [outcome, cmd, ← hi, kind]
        rw [negOut, req, value, tmod_eq]
        by_cases negative : lhs c s.req < 0 <;> simp [negative]
    | false =>
      rw [kind, if_neg (by decide)] at state
      rw [kind, if_neg (by decide), Bool.not_false, Bool.and_true] at negOut
      have value : outcome c s.req = if rhs c s.req = 0 then -1 else (lhs c s.req).tdiv (rhs c s.req) := by
        rw [outcome, cmd, ← hi, kind, if_neg (by decide), if_neg (by decide)]
      rw [same] at state
      -- the quotient is negated, but not the one of a division by zero
      cases sign : (divStep c s).negOut with
      | true =>
        rw [sign, if_pos rfl] at state
        rw [sign] at negOut
        have both := negOut.symm
        rw [Bool.and_eq_true, Bool.not_eq_true', decide_eq_false_iff_not] at both
        rw [if_neg both.2] at low
        refine .negOutput state _ (shows_of_mod low) ?_
        rw [req, value, if_neg (mt zero_iff.mpr both.2), tdiv_eq, both.1, if_pos rfl]
      | false =>
        rw [sign, if_neg (by decide)] at state
        refine .done state ?_
        rw [req, value]
        by_cases zero : rhs c s.req = 0
        · rw [if_pos (zero_iff.mpr zero)] at low
          rw [if_pos zero]
          -- all ones stand for -1
          have ones := shows_of_mod low
          have positive := Nat.two_pow_pos c.w
          unfold Shows at ones ⊢
          rw [ones]
          push_cast [positive]
          rw [← Int.add_emod_right (-1), add_comm (-1 : Int), ← sub_eq_add_neg]
        · rw [if_neg (mt zero_iff.mp zero)] at low
          have plain : (decide (lhs c s.req < 0) != decide (rhs c s.req < 0)) = false := by
            rw [sign, decide_eq_false (mt zero_iff.mp zero), Bool.not_false, Bool.and_true] at negOut
            exact negOut.symm
          rw [if_neg zero, tdiv_eq, plain, if_neg (by decide)]
          exact shows_of_mod low

theorem work_good (op : Op) (code : s.req.fn.toNat = op.fn) (good : Good c s) : Good c (work c s) := by
  cases good with
  | ready phase =>
    refine .ready ?_
    simp [work, phase]
  | negInputs phase loaded =>
    have here : work c s = negInputs c s := by simp [work, phase]
    rw [here, loaded]
    rw [loaded] at phase
    exact negInputs_good op code phase
  | multiplying phase cmd hi f n busy same =>
    have here : work c s = mulStep c s := by simp [work, phase, busy.isMul]
    rw [here]
    exact multiplying_good phase cmd hi busy same
  | dividing phase cmd hi busy =>
    have here : work c s = divStep c s := by simp [work, phase, busy.isMul]
    rw [here]
    exact dividing_good phase cmd hi busy
  | moveRem phase u shows same =>
    have here : work c s = { s with remainder := bits s.remainder (2 * c.w) (c.w + 1), state := if s.negOut then .negOutput else .done } := by
      simp [work, phase]
    -- the remainder moves down into the word that is shown
    have shows' : Shows c (work c s) u := by
      unfold Shows
      rw [here, bits_from (n := c.w) _ (by omega)]
      push_cast
      rw [Int.emod_emod_of_dvd _ dvd_rfl]
      exact_mod_cast shows
    cases sign : s.negOut with
    | true =>
      rw [sign, if_pos rfl] at same
      refine .negOutput (by simp [here, sign]) u shows' ?_
      rw [same, here]
    | false =>
      rw [sign, if_neg (by decide)] at same
      refine .done (by simp [here, sign]) ?_
      have request : (work c s).req = s.req := by rw [here]
      rw [request, ← same]
      exact shows'
  | negOutput phase u shows same =>
    have here : work c s = { s with remainder := negatedRemainder c s, state := .done } := by simp [work, phase]
    refine .done (by rw [here]) ?_
    have request : (work c s).req = s.req := by rw [here]
    rw [request, ← same]
    exact shows_negated shows (by rw [here])
  | done phase shows =>
    have here : work c s = s := by simp [work, phase]
    rw [here]
    exact .done phase shows

end LowRisc.Rocket.MulDiv
