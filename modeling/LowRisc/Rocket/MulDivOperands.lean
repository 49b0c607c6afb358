import LowRisc.Rocket.Multiplier

/-! Operands of the multiplier and divider: what the decode table says of them, and the numbers that the
loaded words stand for.
-/

set_option autoImplicit false

namespace LowRisc.Rocket.MulDiv

open LowRisc.Lib LowRisc.Chisel LowRisc.Rocket.Decode

/-! The decode table. -/

namespace Op

def isMul : Op → Bool
  | div | rem | divu | remu => false
  | mul | mulh | mulhu | mulhsu => true

def isHi : Op → Bool
  | div | divu | mul => false
  | rem | remu | mulh | mulhu | mulhsu => true

def row : Op → List BitPat
  | div => [N, N, Y, Y]
  | rem => [N, Y, Y, Y]
  | divu => [N, N, N, N]
  | remu => [N, Y, N, N]
  | mul => [Y, N, X, X]
  | mulh => [Y, Y, Y, Y]
  | mulhu => [Y, Y, N, N]
  | mulhsu => [Y, Y, Y, N]

theorem row_mem (op : Op) : (pattern op.fn, op.row) ∈ table := by
  cases op <;> simp [table, fn, row]

theorem holds_fn (op : Op) : (pattern op.fn).holds op.fn := by
  cases op <;> decide

theorem fn_lt (op : Op) : op.fn < 2 ^ 4 := by
  cases op <;> decide

end Op

theorem table_disjoint : table.Pairwise fun m n => ∀ addr, m.1.holds addr → ¬n.1.holds addr := by
  simp only [← DecodeLogic.intersects_eq_false_iff]
  decide

theorem column_addrWidth {i : Nat} (signal : i < 4) : DecodeLogic.addrWidth (DecodeLogic.column table i) = SZ_ALU_FN := by
  match i, signal with
  | 0, _ => decide
  | 1, _ => decide
  | 2, _ => decide
  | 3, _ => decide

theorem column_dataWidth {i : Nat} (signal : i < 4) : DecodeLogic.dataWidth X (DecodeLogic.column table i) = 1 := by
  match i, signal with
  | 0, _ => decide
  | 1, _ => decide
  | 2, _ => decide
  | 3, _ => decide

/-- The generator makes one plane for each signal, with the bits of the rows. -/
theorem table_signals : ∃ signals, DecodeLogic.applySeq [X, X, X, X] table = some signals ∧ signals.length = 4 ∧
    ∀ (s : Nat) planes, signals[s]? = some planes → ∃ p, planes = [p] ∧
      ∀ (op : Op) v, op.row[s]? = some v → ∀ b, v.bit 0 = some b → p.eval op.fn SZ_ALU_FN = b := by
  have widths : ∀ (s : Nat) d, [X, X, X, X][s]? = some d → s < 4 ∧ d = X := by
    intro s d found
    match s, found with
    | 0, rfl => exact ⟨by decide, rfl⟩
    | 1, rfl => exact ⟨by decide, rfl⟩
    | 2, rfl => exact ⟨by decide, rfl⟩
    | 3, rfl => exact ⟨by decide, rfl⟩
  obtain ⟨signals, made, length, serves⟩ := DecodeLogic.signals_are_kept [X, X, X, X] table (by decide) (by decide) table_disjoint
    fun s d found => by
      obtain ⟨signal, rfl⟩ := widths s d found
      rw [column_dataWidth signal]
      decide
  refine ⟨signals, made, length, fun s planes found => ?_⟩
  obtain ⟨d, there, one, right⟩ := serves s planes found
  obtain ⟨signal, rfl⟩ := widths s d there
  rw [column_dataWidth signal] at one
  obtain ⟨p, rfl⟩ := List.length_eq_one_iff.mp one
  refine ⟨p, rfl, fun op v value b bit => ?_⟩
  have serves := right 0 p rfl op.fn (by rw [column_addrWidth signal]; exact op.fn_lt)
  rw [column_addrWidth signal] at serves
  refine serves.row (pattern op.fn, v) ?_ op.holds_fn b bit
  exact List.mem_filterMap.mpr ⟨_, op.row_mem, by rw [value]; rfl⟩

theorem control_eq (op : Op) {fn : BitVec SZ_ALU_FN} (code : fn.toNat = op.fn) :
    (control fn).cmdMul = op.isMul ∧ (control fn).cmdHi = op.isHi ∧
      (op ≠ .mul → (control fn).lhsSigned = op.lhsSigned ∧ (control fn).rhsSigned = op.rhsSigned) := by
  obtain ⟨signals, made, length, right⟩ := table_signals
  match signals, length with
  | [cmdMul, cmdHi, lhsSigned, rhsSigned], _ =>
    obtain ⟨p, rfl, first⟩ := right 0 cmdMul rfl
    obtain ⟨q, rfl, second⟩ := right 1 cmdHi rfl
    obtain ⟨u, rfl, third⟩ := right 2 lhsSigned rfl
    obtain ⟨v, rfl, fourth⟩ := right 3 rhsSigned rfl
    have signals : control fn = ⟨p.eval op.fn SZ_ALU_FN, q.eval op.fn SZ_ALU_FN, u.eval op.fn SZ_ALU_FN, v.eval op.fn SZ_ALU_FN⟩ := by
      simp [control, decode, made, code, toBool]
    rw [signals]
    refine ⟨?_, ?_, fun signed => ⟨?_, ?_⟩⟩
    · cases op <;> exact first _ _ rfl _ rfl
    · cases op <;> exact second _ _ rfl _ rfl
    · cases op <;> first | exact third _ _ rfl _ rfl | exact absurd rfl signed
    · cases op <;> first | exact fourth _ _ rfl _ rfl | exact absurd rfl signed

/-! Operands. -/

variable {c : Config} {s : State c.w}

/-- The number that a word and its sign stand for. -/
def number (w : Nat) (x : Nat × Bool) : Int := x.1 - if x.2 then 2 ^ w else 0

theorem bmod_eq {n : Nat} (positive : 0 < n) (x : Nat) :
    Int.bmod x (2 ^ n) = ((x % 2 ^ n : Nat) : Int) - if x.testBit (n - 1) then 2 ^ n else 0 := by
  have signed := BitVec.toInt_eq_msb_cond (BitVec.ofNat n x)
  rw [BitVec.toInt_eq_toNat_bmod, BitVec.toNat_ofNat, BitVec.msb_eq_getLsbD_last, BitVec.getLsbD_ofNat] at signed
  rw [Int.natCast_mod, Int.emod_bmod] at signed
  have inside : n - 1 < n := Nat.sub_lt positive Nat.one_pos
  rw [signed, decide_eq_true inside, Bool.true_and]
  cases x.testBit (n - 1) <;> simp

theorem half_add_half (c : Config) : c.w / 2 + c.w / 2 = c.w ∧ 0 < c.w / 2 := by
  have even := c.even
  have wide : 2 ≤ c.w := Nat.lt_of_le_of_lt c.positive c.several
  omega

def size (c : Config) (dw : Bool) : Nat := if dw then c.w else c.w / 2

theorem sext_spec (dw : Bool) (x : BitVec c.w) (signed : Bool) :
    (sext c dw x signed).1 < 2 ^ c.w ∧ number c.w (sext c dw x signed) = operand (size c dw) signed x.toNat ∧
      (signed = true → (sext c dw x signed).2 = (sext c dw x signed).1.testBit (c.w - 1)) ∧
      (signed = false → (sext c dw x signed).2 = false) := by
  obtain ⟨halves, half⟩ := half_add_half c
  have square : 2 ^ c.w = 2 ^ (c.w / 2) * 2 ^ (c.w / 2) := by rw [← pow_add, halves]
  have lower : bits x.toNat (c.w / 2 - 1) 0 = x.toNat % 2 ^ (c.w / 2) := bits_low _ half
  have less : x.toNat % 2 ^ (c.w / 2) < 2 ^ (c.w / 2) := Nat.mod_lt _ (Nat.two_pow_pos _)
  cases dw with
  | true =>
    -- both halves are kept, so the word is the operand itself
    have upper : bits x.toNat (c.w - 1) (c.w / 2) = x.toNat / 2 ^ (c.w / 2) := by
      rw [bits_from (n := c.w / 2) _ (by omega)]
      apply Nat.mod_eq_of_lt
      rw [Nat.div_lt_iff_lt_mul (Nat.two_pow_pos _), ← square]
      exact x.isLt
    have whole : (sext c true x signed).1 = x.toNat := by
      simp only [sext, if_true, upper, lower]
      exact Nat.div_add_mod' _ _
    have sign : (sext c true x signed).2 = (signed && x.toNat.testBit (c.w - 1)) := rfl
    rw [whole, sign]
    refine ⟨x.isLt, ?_, fun on => by rw [on, Bool.true_and], fun off => by rw [off, Bool.false_and]⟩
    unfold number operand
    rw [whole, sign]
    cases signed with
    | true =>
      rw [if_pos rfl, size, if_pos rfl, bmod_eq (w_pos c), Nat.mod_eq_of_lt x.isLt, Bool.true_and]
    | false => simp [size, Nat.mod_eq_of_lt x.isLt]
  | false =>
    have sign : (sext c false x signed).2 = (signed && x.toNat.testBit (c.w / 2 - 1)) := rfl
    -- the upper half is filled with the sign
    have whole : (sext c false x signed).1 = (if (sext c false x signed).2 then 2 ^ (c.w / 2) - 1 else 0) * 2 ^ (c.w / 2)
        + x.toNat % 2 ^ (c.w / 2) := by
      rw [sign, ← lower]
      rfl
    have value : operand (size c false) signed x.toNat =
        (x.toNat % 2 ^ (c.w / 2) : Nat) - if (sext c false x signed).2 then 2 ^ (c.w / 2) else 0 := by
      have narrow : size c false = c.w / 2 := rfl
      rw [sign, operand, narrow]
      cases signed with
      | true => rw [if_pos rfl, bmod_eq half, Bool.true_and]
      | false => simp
    have positive := Nat.two_pow_pos (c.w / 2)
    have top : (2 ^ (c.w / 2) - 1) * 2 ^ (c.w / 2) + 2 ^ (c.w / 2) = 2 ^ c.w := by
      rw [square, Nat.sub_mul, Nat.one_mul, Nat.sub_add_cancel (Nat.le_mul_of_pos_left _ positive)]
    refine ⟨?_, ?_, fun on => ?_, fun off => by rw [sign, off, Bool.false_and]⟩
    · rw [whole]
      split <;> omega
    · rw [value, number, whole]
      cases (sext c false x signed).2 with
      | false => simp
      | true =>
        zify [positive] at top
        push_cast [positive]
        simp only [if_true]
        linarith
    -- the sign bit of the word is one of those that were filled in
    · have place : c.w - 1 = c.w / 2 + (c.w / 2 - 1) := by omega
      rw [whole, Nat.mul_comm, Nat.testBit_two_pow_mul_add _ less, place, if_neg (by omega), Nat.add_sub_cancel_left]
      cases (sext c false x signed).2 with
      | false => simp
      | true =>
        rw [if_pos rfl, Nat.testBit_two_pow_sub_one]
        simp [half]

/-! What a request asks for. -/

section
variable (c : Config) (r : MultiplierReq c.w)

def lhsWord : Nat × Bool := sext c r.dw r.in1 (control r.fn).lhsSigned

def rhsWord : Nat × Bool := sext c r.dw r.in2 (control r.fn).rhsSigned

def lhs : Int := number c.w (lhsWord c r)

def rhs : Int := number c.w (rhsWord c r)

def outcome : Int :=
  if (control r.fn).cmdMul then if (control r.fn).cmdHi then lhs c r * rhs c r / 2 ^ c.w else lhs c r * rhs c r
  else if (control r.fn).cmdHi then (lhs c r).tmod (rhs c r)
  else if rhs c r = 0 then -1 else (lhs c r).tdiv (rhs c r)

end

theorem number_range {w : Nat} {x : Nat × Bool} (small : x.1 < 2 ^ w) (sign : x.2 = true → x.1.testBit (w - 1) = true) :
    -2 ^ w < number w x ∧ number w x < 2 ^ w ∧ (number w x < 0 ↔ x.2 = true) := by
  have half := Nat.two_pow_pos (w - 1)
  unfold number
  cases top : x.2 with
  | false =>
    zify at small
    simp only [Bool.false_eq_true, if_false, sub_zero, iff_false, not_lt]
    refine ⟨by linarith [show (0 : Int) < 2 ^ w by positivity], small, Int.natCast_nonneg _⟩
  | true =>
    have set := sign top
    have above : 0 < x.1 := by
      apply Nat.pos_of_ne_zero
      intro zero
      rw [zero, Nat.zero_testBit] at set
      cases set
    zify at small above
    simp only [if_true, iff_true]
    refine ⟨by linarith, by linarith, by linarith⟩

theorem natAbs_number {w : Nat} {x : Nat × Bool} (small : x.1 < 2 ^ w) :
    (number w x).natAbs = if x.2 then 2 ^ w - x.1 else x.1 := by
  unfold number
  cases x.2 with
  | false => simp
  | true =>
    simp only [if_true]
    zify [small.le]
    rw [abs_of_nonpos (by zify at small; linarith)]
    ring

theorem tdiv_eq (a b : Int) : a.tdiv b = if decide (a < 0) != decide (b < 0) then -((a.natAbs / b.natAbs : Nat) : Int) else (a.natAbs / b.natAbs : Nat) := by
  cases a with
  | ofNat m =>
    have up : decide (Int.ofNat m < 0) = false := decide_eq_false (Int.not_lt.mpr (Int.natCast_nonneg m))
    cases b with
    | ofNat n =>
      have up' : decide (Int.ofNat n < 0) = false := decide_eq_false (Int.not_lt.mpr (Int.natCast_nonneg n))
      rw [up, up']
      rfl
    | negSucc n =>
      rw [up, decide_eq_true (Int.negSucc_lt_zero n)]
      rfl
  | negSucc m =>
    cases b with
    | ofNat n =>
      have up : decide (Int.ofNat n < 0) = false := decide_eq_false (Int.not_lt.mpr (Int.natCast_nonneg n))
      rw [up, decide_eq_true (Int.negSucc_lt_zero m)]
      rfl
    | negSucc n =>
      rw [decide_eq_true (Int.negSucc_lt_zero n), decide_eq_true (Int.negSucc_lt_zero m)]
      rfl

theorem tmod_eq (a b : Int) : a.tmod b = if a < 0 then -((a.natAbs % b.natAbs : Nat) : Int) else (a.natAbs % b.natAbs : Nat) := by
  cases a with
  | ofNat m =>
    have up : ¬Int.ofNat m < 0 := Int.not_lt.mpr (Int.natCast_nonneg m)
    rw [if_neg up]
    cases b <;> rfl
  | negSucc m =>
    rw [if_pos (Int.negSucc_lt_zero m)]
    cases b <;> rfl

end LowRisc.Rocket.MulDiv
