import LowRisc.Chisel.Util
import LowRisc.Rocket.DecodeTables

/-! The serial multiplier and divider of the core.

A request is decoded with a decode table, its operands are made positive where the operation is
signed, and one register then serves as product, multiplier, remainder and quotient.
-/

set_option autoImplicit false

namespace LowRisc.Rocket.MulDiv

open LowRisc.Chisel LowRisc.Rocket.Decode

/-! Operations. -/

def FN_DIV := 4
def FN_DIVU := 5
def FN_REM := 6
def FN_REMU := 7
def FN_MUL := 0
def FN_MULH := 1
def FN_MULHSU := 12
def FN_MULHU := 14

def pattern (n : Nat) : BitPat :=
  if n = 0 then .ofDigits [some false] else .ofDigits ((Nat.digits 2 n).reverse.map fun d => some (d == 1))

def X : BitPat := .ofDigits [none]
def N : BitPat := .ofDigits [some false]
def Y : BitPat := .ofDigits [some true]

def table : List (BitPat × List BitPat) :=
  [(pattern FN_DIV, [N, N, Y, Y]), (pattern FN_REM, [N, Y, Y, Y]), (pattern FN_DIVU, [N, N, N, N]),
    (pattern FN_REMU, [N, Y, N, N]), (pattern FN_MUL, [Y, N, X, X]), (pattern FN_MULH, [Y, Y, Y, Y]),
    (pattern FN_MULHU, [Y, Y, N, N]), (pattern FN_MULHSU, [Y, Y, Y, N])]

def SZ_ALU_FN := 4

def toBool (fn : Nat) (planes : List Plane) : Bool := planes.any fun p => p.eval fn SZ_ALU_FN

structure Control where
  cmdMul : Bool
  cmdHi : Bool
  lhsSigned : Bool
  rhsSigned : Bool
  deriving DecidableEq, Repr

def decode (fn : Nat) : Option Control :=
  match DecodeLogic.applySeq [X, X, X, X] table with
  | some [cmdMul, cmdHi, lhsSigned, rhsSigned] =>
    some ⟨toBool fn cmdMul, toBool fn cmdHi, toBool fn lhsSigned, toBool fn rhsSigned⟩
  | _ => none

/-- The generator takes the table, so that there is always a signal. -/
def control (fn : BitVec SZ_ALU_FN) : Control := (decode fn.toNat).getD ⟨false, false, false, false⟩

/-! State. -/

structure Config where
  w : Nat
  unroll : Nat
  earlyOut : Bool
  even : w % 2 = 0
  positive : 0 < unroll
  divides : w % unroll = 0
  /-- `mplier(mulw-1, unroll)` has a bit. -/
  several : unroll < w

namespace Config

theorem rocket_even : 64 % 2 = 0 := rfl

theorem rocket_positive (fast : Bool) : 0 < if fast then 8 else 1 := by
  cases fast <;> decide

theorem rocket_divides (fast : Bool) : 64 % (if fast then 8 else 1) = 0 := by
  cases fast <;> rfl

theorem rocket_several (fast : Bool) : (if fast then 8 else 1) < 64 := by
  cases fast <;> decide

/-- The unit as the core instantiates it, with `FastMulDiv` or without. -/
def rocket (fast : Bool) : Config where
  w := 64
  unroll := if fast then 8 else 1
  earlyOut := fast
  even := rocket_even
  positive := rocket_positive fast
  divides := rocket_divides fast
  several := rocket_several fast

end Config

structure MultiplierReq (w : Nat) where
  fn : BitVec SZ_ALU_FN
  /-- The whole width, or else half of it. -/
  dw : Bool
  in1 : BitVec w
  in2 : BitVec w
  tag : Nat

inductive Phase where
  | ready
  | negInputs
  | busy
  | moveRem
  | negOutput
  | done
  deriving DecidableEq, Repr

structure State (w : Nat) where
  state : Phase
  req : MultiplierReq w
  count : Nat
  negOut : Bool
  isMul : Bool
  isHi : Bool
  divisor : Nat
  remainder : Nat

structure Input (w : Nat) where
  valid : Bool
  bits : MultiplierReq w
  kill : Bool
  ready : Bool

def idle (w : Nat) : Input w := ⟨false, ⟨0, true, 0, 0, 0⟩, false, true⟩

/-- The registers after reset, where only the state has a value of its own. -/
def reset (w : Nat) : State w := ⟨.ready, ⟨0, true, 0, 0, 0⟩, 0, false, false, false, 0, 0⟩

variable (c : Config)

def mulw : Nat := (c.w + c.unroll - 1) / c.unroll * c.unroll

def sext (dw : Bool) (x : BitVec c.w) (signed : Bool) : Nat × Bool :=
  let sign := signed && x.getLsbD (if dw then c.w - 1 else c.w / 2 - 1)
  let hi := if dw then bits x.toNat (c.w - 1) (c.w / 2) else if sign then 2 ^ (c.w / 2) - 1 else 0
  (hi * 2 ^ (c.w / 2) + bits x.toNat (c.w / 2 - 1) 0, sign)

section
variable (s : State c.w)

def subtractor : Nat := (bits s.remainder (2 * c.w) c.w + (2 ^ (c.w + 1) - s.divisor)) % 2 ^ (c.w + 1)

def less : Bool := (subtractor c s).testBit c.w

def negatedRemainder : Nat := (2 ^ c.w - bits s.remainder (c.w - 1) 0) % 2 ^ c.w

/-! Multiplication. -/

def mulReg : Nat := bits s.remainder (2 * mulw c + 1) (c.w + 1) * 2 ^ c.w + bits s.remainder (c.w - 1) 0

def mplier : Nat := bits (mulReg c s) (mulw c - 1) 0

def accum : Int := Int.bmod (bits (mulReg c s) (2 * mulw c) (mulw c)) (2 ^ (mulw c + 1))

def mpcand : Int := Int.bmod s.divisor (2 ^ (c.w + 1))

def prod : Int := (bits (mplier c s) (c.unroll - 1) 0 : Nat) * mpcand c s + accum c s

/-- `Cat(prod, mplier(mulw-1,unroll))`, the product in its own width. -/
def nextMulReg : Nat :=
  (prod c s % 2 ^ max (c.unroll + (c.w + 1)) (mulw c + 1)).toNat * 2 ^ (mulw c - c.unroll) + mplier c s / 2 ^ c.unroll

/-- The finished bits of the product. -/
def eOutMask : Nat :=
  (Int.shiftRight (-2 ^ mulw c) (s.count * c.unroll % 2 ^ log2Up (mulw c)) % 2 ^ mulw c).toNat

def mulEOut : Bool :=
  c.earlyOut && decide (s.count ≠ mulw c / c.unroll - 1) && decide (s.count ≠ 0) && !s.isHi
    && decide (andNot (mplier c s) (eOutMask c s) = 0)

def eOutRes : Nat := mulReg c s / 2 ^ ((mulw c - s.count * c.unroll) % 2 ^ log2Up (mulw c))

def nextMulReg1 : Nat :=
  bits (nextMulReg c s) (2 * mulw c) (mulw c) * 2 ^ mulw c
    + bits (if mulEOut c s then eOutRes c s else nextMulReg c s) (mulw c - 1) 0

def mulStep : State c.w :=
  { s with
    remainder := nextMulReg1 c s / 2 ^ c.w * 2 ^ (c.w + 1) + bits (nextMulReg1 c s) (c.w - 1) 0
    count := (s.count + 1) % 2 ^ log2Up (c.w + 1)
    state := if mulEOut c s || decide (s.count = mulw c / c.unroll - 1) then if s.isHi then .moveRem else .done else s.state }

/-! Division. -/

def divisorMSB : Nat := Nat.log2 (bits s.divisor (c.w - 1) 0)

def dividendMSB : Nat := Nat.log2 (bits s.remainder (c.w - 1) 0)

def eOutPos : Nat := (c.w - 1 + divisorMSB c s + (2 ^ log2Up c.w - dividendMSB c s)) % 2 ^ log2Up c.w

def eOutZero : Bool := decide (dividendMSB c s < divisorMSB c s)

def divEOut : Bool := c.earlyOut && decide (s.count = 0) && less c s && (decide (0 < eOutPos c s) || eOutZero c s)

def shift : Nat := if eOutZero c s then c.w - 1 else eOutPos c s

def divStep : State c.w :=
  { s with
    state := if s.count = c.w then if s.isHi then .moveRem else if s.negOut then .negOutput else .done else s.state
    count := if divEOut c s then shift c s else (s.count + 1) % 2 ^ log2Up (c.w + 1)
    remainder :=
      if divEOut c s then bits s.remainder (c.w - 1) 0 * 2 ^ shift c s % 2 ^ (2 * mulw c + 2)
      else (if less c s then bits s.remainder (2 * c.w - 1) c.w else bits (subtractor c s) (c.w - 1) 0) * 2 ^ (c.w + 1)
        + bits s.remainder (c.w - 1) 0 * 2 + (!less c s).toNat
    negOut := s.negOut && !(decide (s.count = 0) && !less c s && !s.isHi) }

/-! One cycle. -/

def negInputs : State c.w :=
  { s with
    remainder := if s.remainder.testBit (c.w - 1) || s.isMul then negatedRemainder c s else s.remainder
    divisor := if s.divisor.testBit (c.w - 1) || s.isMul then subtractor c s else s.divisor
    state := .busy }

def work : State c.w :=
  match s.state with
  | .negInputs => negInputs c s
  | .negOutput => { s with remainder := negatedRemainder c s, state := .done }
  | .moveRem => { s with remainder := bits s.remainder (2 * c.w) (c.w + 1), state := if s.negOut then .negOutput else .done }
  | .busy => if s.isMul then mulStep c s else divStep c s
  | .ready | .done => s

/-- A request is taken; the registers are loaded whatever they did. -/
def accept (r : MultiplierReq c.w) (k : Control) : State c.w :=
  let lhs := sext c r.dw r.in1 k.lhsSigned
  let rhs := sext c r.dw r.in2 k.rhsSigned
  { state := if lhs.2 || rhs.2 && !k.cmdMul then .negInputs else .busy
    isMul := k.cmdMul
    isHi := k.cmdHi
    count := 0
    negOut := !k.cmdMul && if k.cmdHi then lhs.2 else lhs.2 != rhs.2
    divisor := rhs.2.toNat * 2 ^ c.w + rhs.1
    remainder := lhs.1
    req := r }

def respValid : Bool := decide (s.state = .done)

def reqReady : Bool := decide (s.state = .ready)

def respData : Nat :=
  if s.req.dw then bits s.remainder (c.w - 1) 0
  else (if s.remainder.testBit (c.w / 2 - 1) then 2 ^ (c.w / 2) - 1 else 0) * 2 ^ (c.w / 2) + bits s.remainder (c.w / 2 - 1) 0

/-- One cycle; an answer that is taken and a kill both free the unit. -/
def next (i : Input c.w) : State c.w :=
  if i.valid && reqReady c s then accept c i.bits (control i.bits.fn)
  else if respValid c s && i.ready || i.kill then { work c s with state := .ready }
  else work c s

end

/-! What the operations are for. -/

inductive Op where
  | div
  | rem
  | divu
  | remu
  | mul
  | mulh
  | mulhu
  | mulhsu
  deriving DecidableEq, Repr

namespace Op

def fn : Op → Nat
  | div => FN_DIV
  | rem => FN_REM
  | divu => FN_DIVU
  | remu => FN_REMU
  | mul => FN_MUL
  | mulh => FN_MULH
  | mulhu => FN_MULHU
  | mulhsu => FN_MULHSU

def lhsSigned : Op → Bool
  | divu | remu | mulhu => false
  | div | rem | mul | mulh | mulhsu => true

def rhsSigned : Op → Bool
  | divu | remu | mulhu | mulhsu => false
  | div | rem | mul | mulh => true

/-- Division rounds to zero, by zero it gives ones and leaves the dividend. -/
def value (w : Nat) (a b : Int) : Op → Int
  | div | divu => if b = 0 then -1 else a.tdiv b
  | rem | remu => a.tmod b
  | mul => a * b
  | mulh | mulhu | mulhsu => a * b / 2 ^ w

end Op

/-- The number in the low `n` bits. -/
def operand (n : Nat) (signed : Bool) (x : Nat) : Int := if signed then Int.bmod x (2 ^ n) else (x % 2 ^ n : Nat)

/-- The answer; one of half the width is sign-extended. -/
def answer (op : Op) (r : MultiplierReq c.w) : Int :=
  let n := if r.dw then c.w else c.w / 2
  let v := op.value c.w (operand n op.lhsSigned r.in1.toNat) (operand n op.rhsSigned r.in2.toNat)
  (if r.dw then v else v.bmod (2 ^ (c.w / 2))) % 2 ^ c.w

end LowRisc.Rocket.MulDiv
