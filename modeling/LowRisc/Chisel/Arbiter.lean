import LowRisc.Chisel.Util

/-! The Chisel library arbiters `Arbiter` and `RRArbiter` with `needsHold`: an input that is shown
and not taken is held until it fires. -/

set_option autoImplicit false

namespace LowRisc.Chisel

inductive ArbiterKind where
  | fixed
  | roundRobin
  deriving DecidableEq, Repr

/-- `ArbiterCtrl`: no request before `i`. -/
def arbiterCtrl (request : Nat → Bool) (i : Nat) : Bool := (List.range i).all fun j => !request j

/-- `last_grant` is a register of the round robin arbiter only. -/
structure HoldArbiter where
  locked : Bool
  lockIdx : Nat
  last_grant : Nat
  deriving DecidableEq, Repr

namespace HoldArbiter

def grant (kind : ArbiterKind) (n : Nat) (a : HoldArbiter) (valid : Nat → Bool) (i : Nat) : Bool :=
  match kind with
  | .fixed => arbiterCtrl valid i
  | .roundRobin =>
    let request := fun j => if j < n then valid j && decide (a.last_grant < j) else valid (j - n)
    arbiterCtrl request i && decide (a.last_grant < i) || arbiterCtrl request (i + n)

def choose (kind : ArbiterKind) (n : Nat) (a : HoldArbiter) (valid : Nat → Bool) : Nat :=
  match kind with
  | .fixed => ((List.range n).find? valid).getD (n - 1)
  | .roundRobin => rrChosen n a.last_grant valid

def chosen (kind : ArbiterKind) (n : Nat) (a : HoldArbiter) (valid : Nat → Bool) : Nat :=
  if a.locked then a.lockIdx else choose kind n a valid

def in_ready (kind : ArbiterKind) (n : Nat) (a : HoldArbiter) (valid : Nat → Bool) (out_ready : Bool)
    (i : Nat) : Bool :=
  (if a.locked then a.lockIdx == i else grant kind n a valid i) && out_ready

def out_valid (kind : ArbiterKind) (n : Nat) (a : HoldArbiter) (valid : Nat → Bool) : Bool :=
  valid (chosen kind n a valid)

def next (kind : ArbiterKind) (n : Nat) (a : HoldArbiter) (valid : Nat → Bool) (out_ready : Bool) :
    HoldArbiter :=
  { locked := if out_valid kind n a valid then !out_ready else a.locked
    lockIdx := if out_valid kind n a valid && !a.locked then chosen kind n a valid else a.lockIdx
    last_grant := if out_valid kind n a valid && out_ready then chosen kind n a valid else a.last_grant }

section
variable {kind : ArbiterKind} {a : HoldArbiter} {valid : Nat → Bool}

/-- With two inputs, the input shown is the first one unless only the other one asks for the
output, or has its turn. -/
theorem choose_two :
    choose kind 2 a valid =
      if valid 0 && !(kind == .roundRobin && valid 1 && a.last_grant == 0) then 0 else 1 := by
  have two : List.range 2 = [0, 1] := rfl
  cases kind with
  | fixed =>
    cases up : valid 0 with
    | true => simp [choose, two, up]
    | false => cases up1 : valid 1 <;> simp [choose, two, up, up1]
  | roundRobin =>
    by_cases turn : a.last_grant = 0 <;> cases up : valid 0 <;> cases up1 : valid 1 <;>
      simp [choose, rrChosen, two, turn, up, up1]

theorem choose_lt_two : choose kind 2 a valid < 2 := by
  rw [choose_two]
  split <;> decide

theorem valid_choose {i : Nat} (inside : i < 2) (up : valid i = true) :
    valid (choose kind 2 a valid) = true := by
  rw [choose_two]
  have place : i = 0 ∨ i = 1 := by omega
  cases up0 : valid 0 <;> cases up1 : valid 1
  · rcases place with rfl | rfl <;> simp_all
  · simpa using up1
  · simpa using up0
  · split <;> assumption

theorem grant_two {i : Nat} (inside : i < 2) (up : valid i = true) :
    grant kind 2 a valid i = (choose kind 2 a valid == i) := by
  rw [choose_two]
  have place : i = 0 ∨ i = 1 := by omega
  have two : List.range 2 = [0, 1] := rfl
  have three : List.range 3 = [0, 1, 2] := rfl
  cases kind with
  | fixed =>
    rcases place with rfl | rfl
    · simp [grant, arbiterCtrl, up]
    · cases up0 : valid 0 <;> simp [grant, arbiterCtrl, up0]
  | roundRobin =>
    by_cases turn : a.last_grant = 0 <;> rcases place with rfl | rfl <;>
      cases other0 : valid 0 <;> cases other1 : valid 1 <;>
      simp_all [grant, arbiterCtrl]

end

end HoldArbiter

end LowRisc.Chisel
