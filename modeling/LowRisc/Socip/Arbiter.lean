import Mathlib.Algebra.GroupWithZero.Nat
import Mathlib.Data.List.Basic
import Mathlib.Data.Nat.Find

/-! The round-robin arbiter `arbiter_rr`. Signals of width `N` are predicates on indices. -/

set_option autoImplicit false

namespace LowRisc.Socip

structure ArbiterRr where
  p : Nat → Bool
  lock : Bool

namespace ArbiterRr

/-- `|x` of a signal of width `n`. -/
def orReduce (n : Nat) (x : Nat → Bool) : Bool := (List.range n).any x

def onReset : ArbiterRr := ⟨fun i => i == 0, false⟩

/-- The positions after the last grant up to the next request, over two rounds. -/
def mask (n : Nat) (p req : Nat → Bool) : Nat → Bool
  | 0 => false
  | i + 1 => (mask n p req i && !req (i % n)) || (i < n && p i)

def locked (n : Nat) (a : ArbiterRr) (req : Nat → Bool) : Bool :=
  a.lock && orReduce n fun i => a.p i && req i

def gnt (n : Nat) (a : ArbiterRr) (req : Nat → Bool) (enable : Bool) (i : Nat) : Bool :=
  enable && if locked n a req then a.p i else req i && (mask n a.p req i || mask n a.p req (i + n))

def next (n : Nat) (a : ArbiterRr) (req : Nat → Bool) (enable : Bool) : ArbiterRr :=
  let granted := orReduce n (gnt n a req enable)
  { p := if !locked n a req && granted then gnt n a req enable else a.p
    lock := if !a.lock || !orReduce n (fun i => a.p i && req i) then granted else a.lock }

/-- Below `n`, the signal is up at `q` alone. -/
def OneHot (n : Nat) (x : Nat → Bool) (q : Nat) : Prop := q < n ∧ ∀ i < n, x i = (i == q)

theorem OneHot.up {n q : Nat} {x : Nat → Bool} (hot : OneHot n x q) : x q = true := by
  rw [hot.2 q hot.1]
  simp

theorem OneHot.eq {n q i : Nat} {x : Nat → Bool} (hot : OneHot n x q) (bound : i < n) (up : x i = true) :
    i = q := by
  rw [hot.2 i bound] at up
  exact beq_iff_eq.mp up

theorem orReduce_eq_true {n : Nat} {x : Nat → Bool} : orReduce n x = true ↔ ∃ i < n, x i = true := by
  simp [orReduce]

theorem orReduce_eq_false {n : Nat} {x : Nat → Bool} : orReduce n x = false ↔ ∀ i < n, x i = false := by
  simp [orReduce]

/-- The mask is up behind the pointer, as far as no request stands in between. -/
theorem mask_iff {n q : Nat} {p req : Nat → Bool} (hot : OneHot n p q) (j : Nat) :
    mask n p req j = true ↔ q < j ∧ ∀ k, q < k → k < j → req (k % n) = false := by
  induction j with
  | zero => simp [mask]
  | succ i ih =>
    simp only [mask, Bool.or_eq_true, Bool.and_eq_true, Bool.not_eq_true', decide_eq_true_eq]
    constructor
    · rintro (⟨behind, free⟩ | ⟨bound, here⟩)
      · obtain ⟨after, clear⟩ := ih.mp behind
        refine ⟨by omega, fun k above below => ?_⟩
        rcases Nat.lt_succ_iff_lt_or_eq.mp below with less | rfl
        · exact clear k above less
        · exact free
      · have same := hot.eq bound here
        exact ⟨by omega, fun k above below => by omega⟩
    · rintro ⟨after, clear⟩
      rcases Nat.lt_succ_iff_lt_or_eq.mp after with less | rfl
      · exact .inl ⟨ih.mpr ⟨less, fun k above below => clear k above (by omega)⟩, clear i less (by omega)⟩
      · exact .inr ⟨hot.1, hot.up⟩

/-- The distance from the pointer at which an index is looked at. -/
def turn (n q i : Nat) : Nat := if q < i then i else i + n

theorem turn_mod {n q i : Nat} (bound : i < n) : turn n q i % n = i := by
  unfold turn
  split
  · exact Nat.mod_eq_of_lt bound
  · rw [Nat.add_mod_right, Nat.mod_eq_of_lt bound]

theorem unlocked_iff {n q i : Nat} {p req : Nat → Bool} (hot : OneHot n p q) :
    (req i && (mask n p req i || mask n p req (i + n))) = true ↔
      req i = true ∧ ∀ k, q < k → k < turn n q i → req (k % n) = false := by
  simp only [Bool.and_eq_true, Bool.or_eq_true, mask_iff hot]
  have inside := hot.1
  constructor
  · rintro ⟨up, ⟨after, clear⟩ | ⟨_, clear⟩⟩
    · exact ⟨up, by simpa [turn, after] using clear⟩
    · refine ⟨up, fun k above below => clear k above ?_⟩
      unfold turn at below
      split at below <;> omega
  · rintro ⟨up, clear⟩
    by_cases after : q < i
    · exact ⟨up, .inl ⟨after, by simpa [turn, after] using clear⟩⟩
    · exact ⟨up, .inr ⟨by omega, by simpa [turn, after] using clear⟩⟩

theorem turn_mod_le {n q k : Nat} (above : q < k) : turn n q (k % n) ≤ k := by
  unfold turn
  split
  · exact Nat.mod_le _ _
  · have split' := Nat.div_add_mod k n
    have positive : 1 ≤ k / n := by
      by_contra zero
      have zero' : k / n = 0 := Nat.lt_one_iff.mp (Nat.not_le.mp zero)
      rw [zero', Nat.mul_zero, Nat.zero_add] at split'
      omega
    have round : n * 1 ≤ n * (k / n) := Nat.mul_le_mul_left n positive
    omega

theorem exists_first {n q : Nat} {req : Nat → Bool} (some' : ∃ i < n, req i = true) :
    ∃ g < n, req g = true ∧ ∀ k, q < k → k < turn n q g → req (k % n) = false := by
  classical
  have hit : ∃ k, ∃ i < n, req i = true ∧ turn n q i = k := by
    obtain ⟨i, bound, up⟩ := some'
    exact ⟨_, i, bound, up, rfl⟩
  obtain ⟨g, bound, up, first⟩ := Nat.find_spec hit
  refine ⟨g, bound, up, fun k above below => ?_⟩
  by_contra other
  have early := turn_mod_le (n := n) above
  exact Nat.find_min hit (m := turn n q (k % n)) (by omega)
    ⟨k % n, Nat.mod_lt _ (by omega), by simpa using other, rfl⟩

/-- With a one-hot pointer the grant is one-hot on a request, or there is no request. -/
theorem gnt_spec {n q : Nat} {a : ArbiterRr} (req : Nat → Bool) (hot : OneHot n a.p q) :
    (orReduce n req = false ∧ orReduce n (gnt n a req true) = false) ∨
      ∃ g, OneHot n (gnt n a req true) g ∧ req g = true := by
  have inside := hot.1
  cases fixed : locked n a req
  · have grant : ∀ i < n, gnt n a req true i = true ↔
        req i = true ∧ ∀ k, q < k → k < turn n q i → req (k % n) = false := fun i bound => by
      rw [← unlocked_iff hot]
      simp only [gnt, fixed, Bool.true_and, Bool.false_eq_true, if_false]
    cases any : orReduce n req
    · refine .inl ⟨rfl, orReduce_eq_false.mpr fun i bound => ?_⟩
      have down := orReduce_eq_false.mp any i bound
      rw [Bool.eq_false_iff, ne_eq, grant i bound, down]
      simp
    · obtain ⟨g, bound, up, first⟩ := exists_first (orReduce_eq_true.mp any)
      refine .inr ⟨g, ⟨bound, fun i below => ?_⟩, up⟩
      rw [Bool.eq_iff_iff, grant i below, beq_iff_eq]
      constructor
      · rintro ⟨wants, clear⟩
        -- of two granted indices the one whose turn comes first blocks the other
        by_contra different
        have turns : turn n q i ≠ turn n q g := fun same => different (by
          rw [← turn_mod (q := q) below, same, turn_mod bound])
        have after : ∀ j, q < turn n q j := fun j => by
          unfold turn
          split <;> omega
        rcases Nat.lt_or_gt_of_ne turns with before | behind
        · have none' := first _ (after i) before
          rw [turn_mod below, wants] at none'
          cases none'
        · have none' := clear _ (after g) behind
          rw [turn_mod bound, up] at none'
          cases none'
      · rintro rfl
        exact ⟨up, first⟩
  · have both := fixed
    simp only [locked, Bool.and_eq_true, orReduce_eq_true] at both
    obtain ⟨_, i, bound, pointed, wants⟩ := both
    have same := hot.eq bound pointed
    refine .inr ⟨q, ⟨inside, fun j below => ?_⟩, same ▸ wants⟩
    simp only [gnt, fixed, Bool.true_and, if_true]
    exact hot.2 j below

theorem OneHot.next {n q : Nat} {a : ArbiterRr} {req : Nat → Bool} (hot : OneHot n a.p q) :
    ∃ q', OneHot n (a.next n req true).p q' := by
  simp only [ArbiterRr.next]
  split
  · rename_i moved
    rcases gnt_spec req hot with ⟨_, idle⟩ | ⟨g, grant, _⟩
    · rw [idle] at moved
      simp at moved
    · exact ⟨g, grant⟩
  · exact ⟨q, hot⟩

theorem gnt_stable {n g : Nat} {a : ArbiterRr} {req req' : Nat → Bool}
    (grant : OneHot n (gnt n a req true) g) (stays : req' g = true) :
    OneHot n (gnt n (a.next n req true) req' true) g := by
  have granted : orReduce n (gnt n a req true) = true := orReduce_eq_true.mpr ⟨g, grant.1, grant.up⟩
  have held : OneHot n (a.next n req true).p g ∧ (a.next n req true).lock = true := by
    simp only [ArbiterRr.next, granted]
    cases fixed : locked n a req
    · refine ⟨by simpa using grant, ?_⟩
      simp only [locked] at fixed
      cases l : a.lock
      · rfl
      · rw [l, Bool.true_and] at fixed
        rw [fixed]
        rfl
    · have keeps : ∀ i < n, gnt n a req true i = a.p i := fun i _ => by simp [gnt, fixed]
      have both := fixed
      simp only [locked, Bool.and_eq_true] at both
      refine ⟨⟨grant.1, fun i bound => ?_⟩, ?_⟩
      · rw [← grant.2 i bound, keeps i bound]
        simp
      · simp [both.1, both.2]
  have fixed : locked n (a.next n req true) req' = true := by
    simp only [locked, held.2, Bool.true_and, orReduce_eq_true]
    exact ⟨g, grant.1, by rw [held.1.up, stays]; rfl⟩
  refine ⟨grant.1, fun i bound => ?_⟩
  simp only [gnt, fixed, Bool.true_and, if_true]
  exact held.1.2 i bound

end ArbiterRr

end LowRisc.Socip
