import Mathlib.Algebra.GroupWithZero.Nat
import Mathlib.Data.Nat.Basic
import Mathlib.Data.List.Basic

/-! Words of bytes on a data bus, and the bytes that a strobed word stores.

A bus of `2 ^ b` bytes is given by `b`.
-/

set_option autoImplicit false

namespace LowRisc.Socip

/-- Byte `j` of a word. -/
def byteOf {w : Nat} (x : BitVec w) (j : Nat) : BitVec 8 := x.extractLsb' (8 * j) 8

abbrev Bus (b : Nat) := BitVec (8 * 2 ^ b)

def strobed {b : Nat} (base : Nat) (data : Bus b) (strb : BitVec (2 ^ b)) : List (Nat × BitVec 8) :=
  (List.range (2 ^ b)).filterMap fun j => if strb.getLsbD j then some (base + j, byteOf data j) else none

/-! Bytes of shifted and cut words. -/

theorem byteOf_shiftLeft {w : Nat} (x : BitVec w) (lanes j : Nat) (inside : 8 * (lanes + j) + 8 ≤ w) :
    byteOf (x <<< (8 * lanes)) (lanes + j) = byteOf x j := by
  apply BitVec.eq_of_getLsbD_eq
  intro i low
  simp only [byteOf, BitVec.getLsbD_extractLsb', BitVec.getLsbD_shiftLeft]
  have bit : 8 * (lanes + j) + i - 8 * lanes = 8 * j + i := by omega
  have bound : 8 * (lanes + j) + i < w := by omega
  have above : ¬ 8 * (lanes + j) + i < 8 * lanes := by omega
  rw [bit]
  simp [bound, above]

theorem byteOf_setWidth {v w : Nat} (x : BitVec w) (j : Nat) (inside : 8 * j + 8 ≤ v) :
    byteOf (x.setWidth v) j = byteOf x j := by
  apply BitVec.eq_of_getLsbD_eq
  intro i low
  simp only [byteOf, BitVec.getLsbD_extractLsb', BitVec.getLsbD_setWidth]
  have bound : 8 * j + i < v := by omega
  simp [bound]

theorem byteOf_ushiftRight {w : Nat} (x : BitVec w) (lanes j : Nat) : byteOf (x >>> (8 * lanes)) j = byteOf x (lanes + j) := by
  apply BitVec.eq_of_getLsbD_eq
  intro i low
  have bit : 8 * lanes + (8 * j + i) = 8 * (lanes + j) + i := by omega
  simp only [byteOf, BitVec.getLsbD_extractLsb', BitVec.getLsbD_ushiftRight, bit]

theorem byteOf_extract {w : Nat} (x : BitVec w) (start width j : Nat) (inside : 8 * j + 8 ≤ width) :
    byteOf (x.extractLsb' (8 * start) width) j = byteOf x (start + j) := by
  apply BitVec.eq_of_getLsbD_eq
  intro i low
  simp only [byteOf, BitVec.getLsbD_extractLsb']
  have bound : 8 * j + i < width := by omega
  have bit : 8 * start + (8 * j + i) = 8 * (start + j) + i := by omega
  simp [bound, bit]

theorem strobed_window {b c base : Nat} (first : Nat) {data : Bus b} {strb : BitVec (2 ^ b)} (data' : Bus c)
    (strb' : BitVec (2 ^ c)) (fits : first + 2 ^ c ≤ 2 ^ b)
    (outside : ∀ j < 2 ^ b, j < first ∨ first + 2 ^ c ≤ j → strb.getLsbD j = false)
    (inside : ∀ j < 2 ^ c, strb.getLsbD (first + j) = strb'.getLsbD j ∧ byteOf data (first + j) = byteOf data' j) :
    strobed base data strb = strobed (base + first) data' strb' := by
  have size : List.range (2 ^ b) = List.range (first + 2 ^ c + (2 ^ b - (first + 2 ^ c))) :=
    congrArg List.range (by omega)
  unfold strobed
  rw [size, List.range_add, List.range_add, List.filterMap_append, List.filterMap_append]
  have low : (List.range first).filterMap
      (fun j => if strb.getLsbD j then some (base + j, byteOf data j) else none) = [] := by
    rw [List.filterMap_eq_nil_iff]
    intro j below
    have before := List.mem_range.mp below
    have positive := Nat.two_pow_pos c
    rw [outside j (by omega) (.inl before)]
    rfl
  have high : ((List.range (2 ^ b - (first + 2 ^ c))).map fun x => first + 2 ^ c + x).filterMap
      (fun j => if strb.getLsbD j then some (base + j, byteOf data j) else none) = [] := by
    rw [List.filterMap_map, List.filterMap_eq_nil_iff]
    intro j below
    have := List.mem_range.mp below
    simp only [Function.comp]
    rw [outside _ (by omega) (.inr (Nat.le_add_right _ _))]
    rfl
  rw [low, high, List.nil_append, List.append_nil, List.filterMap_map]
  apply List.filterMap_congr
  intro j below
  obtain ⟨sameStrb, sameByte⟩ := inside j (List.mem_range.mp below)
  simp only [Function.comp, sameStrb, sameByte, Nat.add_assoc]

theorem strobed_chunks {b c : Nat} (base n : Nat) (data : Bus b) (strb : BitVec (2 ^ b)) (beats : Nat → Bus c × BitVec (2 ^ c))
    (same : ∀ k < n, ∀ j < 2 ^ c, strb.getLsbD (k * 2 ^ c + j) = (beats k).2.getLsbD j ∧
      byteOf data (k * 2 ^ c + j) = byteOf (beats k).1 j) :
    (List.range (n * 2 ^ c)).filterMap (fun j => if strb.getLsbD j then some (base + j, byteOf data j) else none) =
      (List.range n).flatMap fun k => strobed (base + k * 2 ^ c) (beats k).1 (beats k).2 := by
  induction n with
  | zero => simp
  | succ n ih =>
    have size : List.range ((n + 1) * 2 ^ c) =
        List.range (n * 2 ^ c) ++ (List.range (2 ^ c)).map (n * 2 ^ c + ·) := by
      rw [Nat.succ_mul, List.range_add]
    rw [size, List.filterMap_append, ih fun k below => same k (by omega), List.range_succ,
      List.flatMap_append, List.flatMap_singleton, List.filterMap_map]
    congr 1
    apply List.filterMap_congr
    intro j below
    obtain ⟨sameStrb, sameByte⟩ := same n (by omega) j (List.mem_range.mp below)
    simp only [Function.comp, sameStrb, sameByte, Nat.add_assoc]

theorem zipIdx_map_range {α : Type} (f : Nat → α) (n : Nat) :
    ((List.range n).map f).zipIdx = (List.range n).map fun k => (f k, k) := by
  apply List.ext_getElem
  · simp
  · intro i _ _
    simp

/-- Address of beat `k` of an INCR burst: all but the first are aligned to the size. -/
def beatAddr (size addr k : Nat) : Nat := if k = 0 then addr else (addr / 2 ^ size + k) * 2 ^ size

def burstBytes {b : Nat} (size addr : Nat) (beats : List (Bus b × BitVec (2 ^ b))) : List (Nat × BitVec 8) :=
  beats.zipIdx.flatMap fun x => strobed (beatAddr size addr x.2 / 2 ^ b * 2 ^ b) x.1.1 x.1.2

theorem le_beatAddr (size addr k : Nat) : (addr / 2 ^ size + k) * 2 ^ size ≤ beatAddr size addr k := by
  unfold beatAddr
  split
  · rename_i zero
    rw [zero]
    exact Nat.div_mul_le_self _ _
  · exact Nat.le_refl _

theorem start_le_beatAddr (size addr k : Nat) : addr ≤ beatAddr size addr k := by
  unfold beatAddr
  split
  · exact Nat.le_refl _
  · have next : (addr / 2 ^ size + 1) * 2 ^ size ≤ (addr / 2 ^ size + k) * 2 ^ size := Nat.mul_le_mul_right _ (by omega)
    have inside := Nat.lt_div_mul_add (a := addr) (Nat.two_pow_pos size)
    rw [Nat.add_mul, Nat.one_mul] at next
    omega

theorem beatAddr_div (size addr k : Nat) {b : Nat} (fits : size ≤ b) :
    beatAddr size addr k / 2 ^ b = (addr / 2 ^ size + k) * 2 ^ size / 2 ^ b := by
  unfold beatAddr
  split
  · rename_i zero
    have split' : 2 ^ b = 2 ^ size * 2 ^ (b - size) := by
      rw [← Nat.pow_add, Nat.add_sub_cancel' fits]
    rw [zero, Nat.add_zero, split', ← Nat.div_div_eq_div_mul, ← Nat.div_div_eq_div_mul,
      Nat.mul_div_cancel _ (Nat.two_pow_pos _)]
  · rfl

theorem flatMap_range_mul {α : Type} (f : Nat → List α) (n r : Nat) :
    (List.range (n * r)).flatMap f = (List.range n).flatMap fun k => (List.range r).flatMap fun i => f (k * r + i) := by
  induction n with
  | zero => simp
  | succ n ih =>
    rw [Nat.succ_mul, List.range_add, List.flatMap_append, ih, List.range_succ, List.flatMap_append,
      List.flatMap_singleton, List.flatMap_map]

theorem flatMap_range_drop {α : Type} (f : Nat → List α) (skip n : Nat) (empty : ∀ i < skip, f i = []) :
    (List.range (skip + n)).flatMap f = (List.range n).flatMap fun i => f (skip + i) := by
  rw [List.range_add, List.flatMap_append, List.flatMap_map]
  have none' : (List.range skip).flatMap f = [] :=
    List.flatMap_eq_nil_iff.mpr fun i member => empty i (List.mem_range.mp member)
  rw [none', List.nil_append]

theorem strobed_lanes {b c base first count : Nat} {data : Bus b} {strb : BitVec (2 ^ b)} (fits : c ≤ b)
    (room : first + count ≤ 2 ^ (b - c))
    (confined : ∀ j < 2 ^ b, strb.getLsbD j = true → first * 2 ^ c ≤ j ∧ j < (first + count) * 2 ^ c) :
    strobed base data strb = (List.range count).flatMap fun r =>
      strobed (base + (first + r) * 2 ^ c) ((data >>> (8 * 2 ^ c * (first + r))).setWidth (8 * 2 ^ c))
        ((strb >>> (2 ^ c * (first + r))).setWidth (2 ^ c)) := by
  let lane (l : Nat) : Bus c × BitVec (2 ^ c) :=
    ((data >>> (8 * 2 ^ c * l)).setWidth (8 * 2 ^ c), (strb >>> (2 ^ c * l)).setWidth (2 ^ c))
  have whole : 2 ^ b = 2 ^ (b - c) * 2 ^ c := by rw [← Nat.pow_add, Nat.sub_add_cancel fits]
  have bits : ∀ l j, j < 2 ^ c → strb.getLsbD (l * 2 ^ c + j) = (lane l).2.getLsbD j := by
    intro l j below
    simp [lane, below, Nat.mul_comm]
  have chunks : strobed base data strb =
      (List.range (2 ^ (b - c))).flatMap fun l => strobed (base + l * 2 ^ c) (lane l).1 (lane l).2 := by
    rw [strobed, congrArg List.range whole]
    refine strobed_chunks base _ data strb lane fun l inRange j below => ⟨bits l j below, ?_⟩
    have shift : 8 * 2 ^ c * l = 8 * (l * 2 ^ c) := by rw [Nat.mul_assoc, Nat.mul_comm (2 ^ c)]
    simp only [lane, shift]
    rw [byteOf_setWidth _ _ (by omega), byteOf_ushiftRight]
  -- a lane outside of the stretch has no strobe
  have empty : ∀ l < 2 ^ (b - c), l < first ∨ first + count ≤ l → strobed (base + l * 2 ^ c) (lane l).1 (lane l).2 = [] := by
    intro l inRange outside
    rw [strobed, List.filterMap_eq_nil_iff]
    intro j below
    have below := List.mem_range.mp below
    have next : (l + 1) * 2 ^ c ≤ 2 ^ (b - c) * 2 ^ c := Nat.mul_le_mul_right _ inRange
    rw [Nat.succ_mul] at next
    have off : strb.getLsbD (l * 2 ^ c + j) = false := by
      by_contra on
      obtain ⟨low, high⟩ := confined (l * 2 ^ c + j) (by omega) (by simpa using on)
      rcases outside with before | after
      · have product : (l + 1) * 2 ^ c ≤ first * 2 ^ c := Nat.mul_le_mul_right _ before
        rw [Nat.succ_mul] at product
        omega
      · have product : (first + count) * 2 ^ c ≤ l * 2 ^ c := Nat.mul_le_mul_right _ after
        omega
    rw [← bits l j below, off]
    rfl
  have size : List.range (2 ^ (b - c)) = List.range (first + (count + (2 ^ (b - c) - (first + count)))) :=
    congrArg List.range (by omega)
  rw [chunks, size, flatMap_range_drop _ _ _ fun l below => empty l (by omega) (.inl below), List.range_add,
    List.flatMap_append, List.flatMap_map]
  have rest : ((List.range (2 ^ (b - c) - (first + count))).flatMap fun l =>
      strobed (base + (first + (count + l)) * 2 ^ c) (lane (first + (count + l))).1 (lane (first + (count + l))).2) = [] := by
    rw [List.flatMap_eq_nil_iff]
    intro l member
    have below := List.mem_range.mp member
    exact empty _ (by omega) (.inr (by omega))
  rw [rest, List.append_nil]

/-! Writing a lane. -/

def setLane {b c : Nat} (x : Bus b) (lane : Nat) (y : Bus c) : Bus b :=
  (x &&& ~~~((BitVec.allOnes (8 * 2 ^ c)).setWidth (8 * 2 ^ b) <<< (8 * 2 ^ c * lane))) |||
    y.setWidth (8 * 2 ^ b) <<< (8 * 2 ^ c * lane)

theorem getLsbD_setLane {b c lane i : Nat} (x : Bus b) (y : Bus c) (bound : i < 8 * 2 ^ b) :
    (setLane x lane y).getLsbD i =
      if 8 * 2 ^ c * lane ≤ i ∧ i < 8 * 2 ^ c * (lane + 1) then y.getLsbD (i - 8 * 2 ^ c * lane) else x.getLsbD i := by
  rw [Nat.mul_succ]
  by_cases below : i < 8 * 2 ^ c * lane
  · rw [if_neg (by omega)]
    simp [setLane, below, bound]
  · by_cases above : i < 8 * 2 ^ c * lane + 8 * 2 ^ c
    · have inside : i - 8 * 2 ^ c * lane < 8 * 2 ^ c := by omega
      rw [if_pos (by omega)]
      simp [setLane, below, bound, inside]
    · have outside : ¬ i - 8 * 2 ^ c * lane < 8 * 2 ^ c := by omega
      have zero : y.getLsbD (i - 8 * 2 ^ c * lane) = false := BitVec.getLsbD_of_ge _ _ (by omega)
      rw [if_neg (by omega)]
      simp [setLane, below, bound, outside, zero]

theorem byteOf_setLane_same {b c lane j : Nat} (x : Bus b) (y : Bus c) (inLane : j < 2 ^ c)
    (inWord : (lane + 1) * 2 ^ c ≤ 2 ^ b) : byteOf (setLane x lane y) (lane * 2 ^ c + j) = byteOf y j := by
  apply BitVec.eq_of_getLsbD_eq
  intro i low
  rw [Nat.add_mul, Nat.one_mul] at inWord
  have start : 8 * 2 ^ c * lane = 8 * (lane * 2 ^ c) := by rw [Nat.mul_assoc, Nat.mul_comm (2 ^ c)]
  have bit : 8 * (lane * 2 ^ c + j) + i - 8 * (lane * 2 ^ c) = 8 * j + i := by omega
  simp only [byteOf, BitVec.getLsbD_extractLsb']
  rw [getLsbD_setLane x y (by omega), Nat.mul_succ, start, if_pos (by omega), bit]

theorem byteOf_setLane_other {b c lane other j : Nat} (x : Bus b) (y : Bus c) (different : other ≠ lane) (inLane : j < 2 ^ c)
    (inWord : (other + 1) * 2 ^ c ≤ 2 ^ b) :
    byteOf (setLane x lane y) (other * 2 ^ c + j) = byteOf x (other * 2 ^ c + j) := by
  apply BitVec.eq_of_getLsbD_eq
  intro i low
  rw [Nat.add_mul, Nat.one_mul] at inWord
  have start : 8 * 2 ^ c * lane = 8 * (lane * 2 ^ c) := by rw [Nat.mul_assoc, Nat.mul_comm (2 ^ c)]
  have apart : ¬ (8 * (lane * 2 ^ c) ≤ 8 * (other * 2 ^ c + j) + i ∧
      8 * (other * 2 ^ c + j) + i < 8 * (lane * 2 ^ c) + 8 * 2 ^ c) := by
    rcases Nat.lt_or_gt_of_ne different with less | more
    · have product : (other + 1) * 2 ^ c ≤ lane * 2 ^ c := Nat.mul_le_mul_right _ less
      rw [Nat.add_mul, Nat.one_mul] at product
      omega
    · have product : (lane + 1) * 2 ^ c ≤ other * 2 ^ c := Nat.mul_le_mul_right _ more
      rw [Nat.add_mul, Nat.one_mul] at product
      omega
  simp only [byteOf, BitVec.getLsbD_extractLsb']
  rw [getLsbD_setLane x y (by omega), Nat.mul_succ, start, if_neg apart]

end LowRisc.Socip
