import LowRisc.Chisel.Util

/-! Words as vectors of equal lanes. -/

set_option autoImplicit false

namespace LowRisc.Chisel

/-- `Vec.toBits`: the elements side by side, the first one lowest. -/
def toBits {k : Nat} : (n : Nat) → (Nat → BitVec k) → BitVec (n * k)
  | 0, _ => 0
  | n + 1, f => (f n ++ toBits n f).cast (by rw [Nat.succ_mul, Nat.add_comm])

theorem getLsbD_toBits (n : Nat) {k : Nat} (f : Nat → BitVec k) (i : Nat) :
    (toBits n f).getLsbD i = (decide (i < n * k) && (f (i / k)).getLsbD (i % k)) := by
  induction n with
  | zero => simp [toBits]
  | succ n ih =>
    rw [toBits, BitVec.getLsbD_cast, BitVec.getLsbD_append, ih]
    have size : (n + 1) * k = n * k + k := Nat.succ_mul n k
    by_cases below : i < n * k
    · simp [below, size, Nat.lt_add_right k below]
    · by_cases inside : i < n * k + k
      · have last : i / k = n := Nat.div_eq_of_lt_le (by omega) (by omega)
        have place : i % k = i - n * k := by rw [Nat.mod_eq_sub_div_mul, last]
        simp [below, size, inside, last, place]
      · simp only [below, decide_false, size, inside, Bool.false_and]
        exact BitVec.getLsbD_of_ge _ _ (by omega)

/-- `Vec.toBits` of single bits. -/
def vecBits : (n : Nat) → (Nat → Bool) → BitVec n
  | 0, _ => 0
  | n + 1, f => BitVec.cons (f n) (vecBits n f)

theorem getLsbD_vecBits (n : Nat) (f : Nat → Bool) (i : Nat) : (vecBits n f).getLsbD i = (decide (i < n) && f i) := by
  induction n with
  | zero => simp [vecBits]
  | succ n ih =>
    rw [vecBits, BitVec.getLsbD_cons, ih]
    by_cases last : i = n
    · simp [last]
    · have below : i < n + 1 ↔ i < n := by omega
      simp [last, below]

theorem extract_toBits {n k i : Nat} (f : Nat → BitVec k) (bound : i < n) :
    (toBits n f).extractLsb' (k * i) k = f i := by
  apply BitVec.eq_of_getLsbD_eq
  intro j low
  have inside : k * i + j < n * k := calc
    k * i + j < k * (i + 1) := by rw [Nat.mul_add, Nat.mul_one]; omega
    _ ≤ k * n := Nat.mul_le_mul_left k bound
    _ = n * k := Nat.mul_comm k n
  have place : (k * i + j) / k = i := by
    rw [Nat.mul_add_div (by omega), Nat.div_eq_of_lt low, Nat.add_zero]
  rw [BitVec.getLsbD_extractLsb', getLsbD_toBits, place, Nat.mul_add_mod, Nat.mod_eq_of_lt low]
  simp [low, inside]

theorem toBits_extract {n k : Nat} (x : BitVec (n * k)) : (toBits n fun i => x.extractLsb' (k * i) k) = x := by
  apply BitVec.eq_of_getLsbD_eq
  intro j inside
  have positive : 0 < k := Nat.pos_of_ne_zero fun zero => by simp [zero] at inside
  rw [getLsbD_toBits, BitVec.getLsbD_extractLsb', Nat.div_add_mod]
  simp [inside, Nat.mod_lt _ positive]

theorem extract_setWidth {n k : Nat} (x : BitVec k) (wide : k ≤ n) : (x.setWidth n).extractLsb' 0 k = x := by
  apply BitVec.eq_of_getLsbD_eq
  intro j low
  simp [low, Nat.lt_of_lt_of_le low wide]

theorem shift_eq_extract {n : Nat} (x : BitVec n) (start k : Nat) :
    (x >>> start).setWidth k = x.extractLsb' start k := by
  apply BitVec.eq_of_getLsbD_eq
  intro j low
  simp [low]

theorem setWidth_toBits {n k : Nat} (f : Nat → BitVec k) (positive : 0 < n) : (toBits n f).setWidth k = f 0 := by
  rw [← extract_toBits f positive, ← shift_eq_extract, Nat.mul_zero, BitVec.ushiftRight_zero]

/-- Lane `i` of a word. -/
def lane (k : Nat) {n : Nat} (x : BitVec n) (i : Nat) : BitVec k := x.extractLsb' (k * i) k

theorem lane_toBits {n k i : Nat} (f : Nat → BitVec k) (bound : i < n) : lane k (toBits n f) i = f i :=
  extract_toBits f bound

theorem toBits_lane {n k : Nat} (x : BitVec (n * k)) : toBits n (lane k x) = x := toBits_extract x

theorem toBits_congr {n k : Nat} {f g : Nat → BitVec k} (same : ∀ i < n, f i = g i) : toBits n f = toBits n g := by
  apply BitVec.eq_of_getLsbD_eq
  intro j inside
  rw [getLsbD_toBits, getLsbD_toBits, same _ (Nat.div_lt_of_lt_mul (by rwa [Nat.mul_comm]))]

theorem setWidth_toBits_any {n m k : Nat} (f : Nat → BitVec k) :
    (toBits n f).setWidth (m * k) = toBits m fun i => if i < n then f i else 0 := by
  apply BitVec.eq_of_getLsbD_eq
  intro j inside
  rw [BitVec.getLsbD_setWidth, getLsbD_toBits, getLsbD_toBits]
  have low : j < n * k ↔ j / k < n := by rw [Nat.div_lt_iff_lt_mul (Nat.pos_of_ne_zero fun zero => by simp [zero] at inside)]
  by_cases below : j / k < n
  · simp [inside, low, below]
  · simp [low, below]

theorem setWidth_toBits_le {n m k : Nat} (f : Nat → BitVec k) (fits : m ≤ n) :
    (toBits n f).setWidth (m * k) = toBits m f := by
  rw [setWidth_toBits_any]
  apply toBits_congr
  intro i inside
  rw [if_pos (Nat.lt_of_lt_of_le inside fits)]

theorem toBits_ushiftRight {n k : Nat} (f : Nat → BitVec k) (skip : Nat) :
    toBits n f >>> (skip * k) = toBits n fun i => if skip + i < n then f (skip + i) else 0 := by
  apply BitVec.eq_of_getLsbD_eq
  intro j inside
  have positive : 0 < k := Nat.pos_of_ne_zero fun zero => by simp [zero] at inside
  rw [BitVec.getLsbD_ushiftRight, getLsbD_toBits, getLsbD_toBits, Nat.mul_comm skip k, Nat.mul_add_div positive,
    Nat.mul_add_mod]
  have low : k * skip + j < n * k ↔ skip + j / k < n := by
    rw [← Nat.mul_add_div positive, Nat.div_lt_iff_lt_mul positive]
  by_cases below : skip + j / k < n
  · simp [inside, low, below]
  · simp [low, below]

theorem toBits_shiftLeft {n k : Nat} (f : Nat → BitVec k) (skip : Nat) :
    toBits n f <<< (skip * k) = toBits n fun i => if i < skip then 0 else f (i - skip) := by
  apply BitVec.eq_of_getLsbD_eq
  intro j inside
  have positive : 0 < k := Nat.pos_of_ne_zero fun zero => by simp [zero] at inside
  rw [BitVec.getLsbD_shiftLeft, getLsbD_toBits, getLsbD_toBits]
  have low : j < skip * k ↔ j / k < skip := by rw [Nat.div_lt_iff_lt_mul positive]
  by_cases below : j / k < skip
  · simp [low, below]
  · obtain ⟨i, rfl⟩ : ∃ i, j = skip * k + i := ⟨j - skip * k, by have := low.not.mpr below; omega⟩
    have place : (skip * k + i) / k = skip + i / k := by rw [Nat.mul_comm, Nat.mul_add_div positive]
    have bit : (skip * k + i) % k = i % k := by rw [Nat.mul_comm, Nat.mul_add_mod]
    have behind : ¬ skip + i / k < skip := by omega
    simp [inside, behind, place, bit, Nat.lt_of_le_of_lt (Nat.le_add_left i (skip * k)) inside]

theorem toBits_or {n k : Nat} (f g : Nat → BitVec k) : toBits n f ||| toBits n g = toBits n fun i => f i ||| g i := by
  apply BitVec.eq_of_getLsbD_eq
  intro j inside
  rw [BitVec.getLsbD_or, getLsbD_toBits, getLsbD_toBits, getLsbD_toBits]
  simp [inside]

/-- `FillInterleaved(k, (1 << count) - 1)`: the lowest lanes. -/
def laneMask (n k count : Nat) : BitVec (n * k) := BitVec.ofNat _ (2 ^ (count * k) - 1)

theorem toBits_and_mask {n k : Nat} (f : Nat → BitVec k) (count : Nat) :
    toBits n f &&& laneMask n k count = toBits n fun i => if i < count then f i else 0 := by
  apply BitVec.eq_of_getLsbD_eq
  intro j inside
  have positive : 0 < k := Nat.pos_of_ne_zero fun zero => by simp [zero] at inside
  rw [BitVec.getLsbD_and, laneMask, BitVec.getLsbD_ofNat, Nat.testBit_two_pow_sub_one, getLsbD_toBits, getLsbD_toBits]
  have low : j < count * k ↔ j / k < count := by rw [Nat.div_lt_iff_lt_mul positive]
  by_cases below : j / k < count
  · simp [inside, low, below]
  · simp [low, below]

end LowRisc.Chisel
