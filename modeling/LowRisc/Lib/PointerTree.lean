import Mathlib.Algebra.GroupWithZero.Nat
import Mathlib.Data.Bool.Basic
import Mathlib.Data.List.Count

/-! Complete binary trees of pointers. A node is the path that leads to it and points to one of its
two sides; to use a leaf turns all nodes above it away from it. -/

set_option autoImplicit false

namespace LowRisc.Lib

abbrev Pointers := List Bool → Bool

namespace Pointers

def below (f : Pointers) (b : Bool) : Pointers := fun p => f (b :: p)

/-- The leaf that the pointers lead to, `k` levels down. -/
def target (f : Pointers) : Nat → List Bool
  | 0 => []
  | k + 1 => f [] :: target (f.below (f [])) k

def turnAway : List Bool → Pointers → Pointers
  | [], f, p => f p
  | b :: _, _, [] => !b
  | b :: leaf, f, c :: p => if c = b then turnAway leaf (f.below b) p else f (c :: p)

/-- The current target is used. -/
def step (k : Nat) (f : Pointers) : Pointers := turnAway (f.target k) f

def targets (k : Nat) : Nat → Pointers → List (List Bool)
  | 0, _ => []
  | m + 1, f => f.target k :: targets k m (f.step k)

@[simp] theorem length_target (f : Pointers) (k : Nat) : (f.target k).length = k := by
  induction k generalizing f with
  | zero => rfl
  | succ k ih => rw [target, List.length_cons, ih]

@[simp] theorem turnAway_root (b : Bool) (leaf : List Bool) (f : Pointers) : turnAway (b :: leaf) f [] = !b := rfl

theorem below_turnAway (b : Bool) (leaf : List Bool) (f : Pointers) :
    (turnAway (b :: leaf) f).below b = turnAway leaf (f.below b) := by
  funext p
  simp [below, turnAway]

theorem below_turnAway_other {b c : Bool} (other : c ≠ b) (leaf : List Bool) (f : Pointers) :
    (turnAway (b :: leaf) f).below c = f.below c := by
  funext p
  simp [below, turnAway, other]

theorem target_turnAway_ne {leaf : List Bool} (inner : leaf ≠ []) (f : Pointers) :
    (turnAway leaf f).target leaf.length ≠ leaf := by
  cases leaf with
  | nil => exact absurd rfl inner
  | cons b leaf =>
    rw [List.length_cons, target, turnAway_root]
    intro same
    exact Bool.not_ne_self b (List.cons.inj same).1

theorem step_root (k : Nat) (f : Pointers) : f.step (k + 1) [] = !f [] := rfl

theorem below_step (k : Nat) (f : Pointers) : (f.step (k + 1)).below (f []) = (f.below (f [])).step k :=
  below_turnAway _ _ _

theorem below_step_other {f : Pointers} {c : Bool} (other : c ≠ f []) (k : Nat) :
    (f.step (k + 1)).below c = f.below c :=
  below_turnAway_other other _ _

theorem below_step_step (k : Nat) (f : Pointers) (b : Bool) :
    ((f.step (k + 1)).step (k + 1)).below b = (f.below b).step k := by
  by_cases same : b = f []
  · have other : b ≠ f.step (k + 1) [] := by
      rw [step_root, same]
      exact (Bool.not_ne_self _).symm
    rw [below_step_other other, same, below_step]
  · have turned : b = f.step (k + 1) [] := by
      rw [step_root]
      exact Bool.eq_not_of_ne same
    rw [turned, below_step, ← turned, below_step_other same]

/-- The steps alternate between the sides, so a leaf is met as often as on its own side in half as many. -/
theorem count_targets (k m : Nat) (f : Pointers) (b : Bool) (leaf : List Bool) :
    (targets (k + 1) (2 * m) f).count (b :: leaf) = (targets k m (f.below b)).count leaf := by
  induction m generalizing f with
  | zero => rfl
  | succ m ih =>
    rw [Nat.mul_succ, targets, targets, targets, List.count_cons, List.count_cons, ih, below_step_step,
      List.count_cons]
    by_cases same : b = f []
    · have other : (f.step (k + 1)).target (k + 1) ≠ b :: leaf := by
        intro eq
        rw [target, step_root, same] at eq
        exact Bool.not_ne_self _ (List.cons.inj eq).1
      rw [beq_eq_false_iff_ne.mpr other, target, same]
      simp
    · have turned : b = f.step (k + 1) [] := by
        rw [step_root]
        exact Bool.eq_not_of_ne same
      have other : f.target (k + 1) ≠ b :: leaf := by
        intro eq
        rw [target] at eq
        exact same (List.cons.inj eq).1.symm
      rw [beq_eq_false_iff_ne.mpr other, target, ← turned, below_step_other same]
      simp

/-- In as many steps as there are leaves every leaf is the target once. -/
theorem count_targets_all (k : Nat) (f : Pointers) {leaf : List Bool} (depth : leaf.length = k) :
    (targets k (2 ^ k) f).count leaf = 1 := by
  induction k generalizing f leaf with
  | zero =>
    rw [List.length_eq_zero_iff.mp depth]
    rfl
  | succ k ih =>
    cases leaf with
    | nil => cases depth
    | cons b leaf =>
      rw [Nat.pow_succ, Nat.mul_comm, count_targets]
      exact ih _ (Nat.succ.inj depth)

end Pointers

end LowRisc.Lib
