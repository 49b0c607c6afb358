import LowRisc.Lib.Serial
import LowRisc.Rocket.MulDiv

/-! One step of the multiplier. -/

set_option autoImplicit false

namespace LowRisc.Rocket.MulDiv

open LowRisc.Lib LowRisc.Chisel LowRisc.Rocket.Decode

variable {c : Config} {s : State c.w}

theorem w_pos (c : Config) : 0 < c.w := Nat.lt_trans c.positive c.several

theorem mulw_eq (c : Config) : mulw c = c.w := by
  obtain ⟨k, size⟩ := Nat.dvd_of_mod_eq_zero c.divides
  have positive := c.positive
  unfold mulw
  rw [size, Nat.add_sub_assoc positive, Nat.mul_add_div positive, Nat.div_eq_of_lt (Nat.sub_lt positive Nat.one_pos), Nat.add_zero,
    Nat.mul_comm]

theorem bits_low (x : Nat) {n : Nat} (positive : 0 < n) : bits x (n - 1) 0 = x % 2 ^ n := by
  unfold bits
  rw [pow_zero, Nat.div_one, Nat.sub_zero, Nat.sub_add_cancel positive]

theorem bits_from (x : Nat) {hi lo n : Nat} (size : hi + 1 = lo + n) : bits x hi lo = x / 2 ^ lo % 2 ^ n := by
  unfold bits
  rw [size, Nat.add_sub_cancel_left]

/-! Multiplication. -/

/-- The register after `k` bits of the multiplier: the accumulator above what is left of the
multiplier, which makes room for the finished bits. -/
def Holds (c : Config) (f : Int) (n k x : Nat) : Prop :=
  ∃ acc low, Multiplied f n k acc low ∧ (-2 ^ c.w ≤ acc ∧ acc < 2 ^ c.w) ∧
    x = (acc % 2 ^ (c.w + 1)).toNat * 2 ^ c.w + (n / 2 ^ k + 2 ^ (c.w - k) * low)

theorem Holds.start (c : Config) (f : Int) (n : Nat) : Holds c f n 0 n := by
  refine ⟨0, 0, .start f n, ⟨by simp, by positivity⟩, by simp⟩

theorem low_lt {n k low w : Nat} (small : n < 2 ^ w) (inside : k ≤ w) (finished : low < 2 ^ k) :
    n / 2 ^ k + 2 ^ (w - k) * low < 2 ^ w := by
  have split : 2 ^ w = 2 ^ (w - k) * 2 ^ k := by rw [← pow_add, Nat.sub_add_cancel inside]
  have rest : n / 2 ^ k < 2 ^ (w - k) := by
    rw [Nat.div_lt_iff_lt_mul (Nat.two_pow_pos k), ← split]
    exact small
  calc n / 2 ^ k + 2 ^ (w - k) * low < 2 ^ (w - k) + 2 ^ (w - k) * low := Nat.add_lt_add_right rest _
    _ = 2 ^ (w - k) * (low + 1) := by ring
    _ ≤ 2 ^ (w - k) * 2 ^ k := Nat.mul_le_mul_left _ finished
    _ = 2 ^ w := split.symm

theorem toNat_emod_lt (z : Int) (n : Nat) : (z % 2 ^ n).toNat < 2 ^ n := by
  have positive : (0 : Int) < 2 ^ n := by positivity
  have bound := Int.emod_lt_of_pos z positive
  rw [← Int.toNat_of_nonneg (Int.emod_nonneg z positive.ne')] at bound
  exact_mod_cast bound

theorem toNat_emod (z : Int) (n : Nat) : ((z % 2 ^ n).toNat : Int) = z % 2 ^ n :=
  Int.toNat_of_nonneg (Int.emod_nonneg z (by positivity))

theorem bmod_toNat_emod {z : Int} {n : Nat} (range : -2 ^ n ≤ z ∧ z < 2 ^ n) : Int.bmod (z % 2 ^ (n + 1)).toNat (2 ^ (n + 1)) = z := by
  rw [toNat_emod]
  have size : (2 : Int) ^ (n + 1) = ((2 ^ (n + 1) : Nat) : Int) := by push_cast; rfl
  rw [size, Int.emod_bmod]
  apply Int.bmod_eq_of_le_mul_two <;> (push_cast; rw [pow_succ]; omega)

theorem emod_mul (z : Int) {a : Int} (b : Int) (positive : 0 < a) : z % (a * b) = z % a + a * (z / a % b) := by
  rw [Int.emod_def, Int.emod_def z a, Int.emod_def (z / a) b, Int.ediv_ediv_of_nonneg positive.le]
  ring

theorem prod_bits {w u : Nat} {z : Int} {m : Nat} (inside : u ≤ w) :
    (z % 2 ^ (u + (w + 1))).toNat * 2 ^ (w - u) + m =
      (z / 2 ^ u % 2 ^ (w + 1)).toNat * 2 ^ w + (m + 2 ^ (w - u) * (z % 2 ^ u).toNat) := by
  have split : (2 : Int) ^ w = 2 ^ u * 2 ^ (w - u) := by rw [← pow_add, Nat.add_sub_cancel' inside]
  have parts : z % 2 ^ (u + (w + 1)) = z % 2 ^ u + 2 ^ u * (z / 2 ^ u % 2 ^ (w + 1)) := by
    rw [pow_add, emod_mul z _ (by positivity)]
  zify
  rw [toNat_emod, toNat_emod, toNat_emod, parts, split]
  ring

theorem Holds.step {f : Int} {n k x : Nat} (before : Holds c f n k x) (small : n < 2 ^ c.w)
    (factor : -2 ^ c.w ≤ f ∧ f < 2 ^ c.w) (inside : k + c.unroll ≤ c.w) :
    Holds c f n (k + c.unroll) ((((x % 2 ^ c.w % 2 ^ c.unroll : Nat) * f + Int.bmod (x / 2 ^ c.w % 2 ^ (c.w + 1) : Nat) (2 ^ (c.w + 1)))
      % 2 ^ (c.unroll + (c.w + 1))).toNat * 2 ^ (c.w - c.unroll) + x % 2 ^ c.w / 2 ^ c.unroll) := by
  obtain ⟨acc, low, multiplied, range, rfl⟩ := before
  have fits := low_lt small (Nat.le_of_add_right_le inside) multiplied.low_lt
  have half := Nat.two_pow_pos c.w
  -- the parts of the register
  have lower : ((acc % 2 ^ (c.w + 1)).toNat * 2 ^ c.w + (n / 2 ^ k + 2 ^ (c.w - k) * low)) % 2 ^ c.w = n / 2 ^ k + 2 ^ (c.w - k) * low := by
    rw [Nat.mul_comm, Nat.mul_add_mod, Nat.mod_eq_of_lt fits]
  have upper : ((acc % 2 ^ (c.w + 1)).toNat * 2 ^ c.w + (n / 2 ^ k + 2 ^ (c.w - k) * low)) / 2 ^ c.w % 2 ^ (c.w + 1)
      = (acc % 2 ^ (c.w + 1)).toNat := by
    rw [Nat.mul_comm, Nat.mul_add_div half, Nat.div_eq_of_lt fits, Nat.add_zero, Nat.mod_eq_of_lt (toNat_emod_lt _ _)]
  have room : 2 ^ (c.w - k) = 2 ^ c.unroll * 2 ^ (c.w - (k + c.unroll)) := by
    rw [← pow_add]
    congr 1
    omega
  have digit : (n / 2 ^ k + 2 ^ (c.w - k) * low) % 2 ^ c.unroll = n / 2 ^ k % 2 ^ c.unroll := by
    rw [room, Nat.mul_assoc, Nat.add_mul_mod_self_left]
  have rest : (n / 2 ^ k + 2 ^ (c.w - k) * low) / 2 ^ c.unroll = n / 2 ^ (k + c.unroll) + 2 ^ (c.w - (k + c.unroll)) * low := by
    rw [room, Nat.mul_assoc, Nat.add_mul_div_left _ _ (Nat.two_pow_pos _), Nat.div_div_eq_div_mul, ← pow_add]
  rw [upper, lower, digit, rest, bmod_toNat_emod range]
  refine ⟨_, _, multiplied.step c.unroll, Multiplied.acc_range (Nat.mod_lt _ (Nat.two_pow_pos _)) factor range, ?_⟩
  rw [prod_bits (Nat.le_of_add_left_le inside)]
  congr 1
  have shift : 2 ^ (c.w - c.unroll) = 2 ^ (c.w - (k + c.unroll)) * 2 ^ k := by
    rw [← pow_add]
    congr 1
    omega
  rw [shift]
  ring

theorem Holds.product {f : Int} {n x : Nat} (all : Holds c f n c.w x) (small : n < 2 ^ c.w) :
    (x : Int) % 2 ^ c.w = f * n % 2 ^ c.w ∧ ((x / 2 ^ c.w : Nat) : Int) % 2 ^ c.w = f * n / 2 ^ c.w % 2 ^ c.w := by
  obtain ⟨acc, low, multiplied, range, rfl⟩ := all
  have product := multiplied.product (Nat.div_eq_of_lt small)
  rw [Nat.div_eq_of_lt small, Nat.sub_self, pow_zero, one_mul, zero_add, product]
  have positive : (0 : Int) < 2 ^ c.w := by positivity
  have finished : (low : Int) < 2 ^ c.w := by exact_mod_cast multiplied.low_lt
  constructor
  · push_cast
    rw [Int.add_comm, Int.add_mul_emod_self_right, Int.add_comm, Int.add_mul_emod_self_right]
  · rw [Nat.mul_comm, Nat.mul_add_div (Nat.two_pow_pos _), Nat.div_eq_of_lt multiplied.low_lt, Nat.add_zero, toNat_emod,
      Int.add_comm, Int.add_mul_ediv_right _ _ positive.ne', Int.ediv_eq_zero_of_lt (Int.natCast_nonneg low) finished, Int.zero_add]
    exact Int.emod_emod_of_dvd acc (pow_dvd_pow 2 (Nat.le_succ c.w))

/-- When the bits that are left are zero, the finished bits below the accumulator hold the low half. -/
theorem Holds.early {f : Int} {n k x : Nat} (before : Holds c f n k x) (inside : k ≤ c.w)
    (zeros : x % 2 ^ (c.w - k) = 0) (small : n < 2 ^ c.w) :
    ((x / 2 ^ (c.w - k) : Nat) : Int) % 2 ^ c.w = f * n % 2 ^ c.w := by
  obtain ⟨acc, low, multiplied, range, rfl⟩ := before
  have split : 2 ^ c.w = 2 ^ (c.w - k) * 2 ^ k := by rw [← pow_add, Nat.sub_add_cancel inside]
  have shape : (acc % 2 ^ (c.w + 1)).toNat * 2 ^ c.w + (n / 2 ^ k + 2 ^ (c.w - k) * low) =
      n / 2 ^ k + 2 ^ (c.w - k) * ((acc % 2 ^ (c.w + 1)).toNat * 2 ^ k + low) := by
    rw [split]
    ring
  have rest : n / 2 ^ k < 2 ^ (c.w - k) := by
    rw [Nat.div_lt_iff_lt_mul (Nat.two_pow_pos k), ← split]
    exact small
  rw [shape, Nat.add_mul_mod_self_left, Nat.mod_eq_of_lt rest] at zeros
  rw [shape, Nat.add_mul_div_left _ _ (Nat.two_pow_pos _), Nat.div_eq_of_lt rest, Nat.zero_add, multiplied.product zeros]
  push_cast
  rw [toNat_emod]
  -- the accumulator counts modulo its own width only
  have same : acc % 2 ^ (c.w + 1) ≡ acc [ZMOD 2 ^ c.w] := (Int.mod_modEq acc _).of_dvd (pow_dvd_pow 2 (Nat.le_succ c.w))
  exact (same.mul_right (2 ^ k)).add_right low

theorem testBit_ones {w j : Nat} (inside : j ≤ w) (i : Nat) : (2 ^ w - 2 ^ j).testBit i = (decide (j ≤ i) && decide (i < w)) := by
  have shape : 2 ^ w - 2 ^ j = 2 ^ j * (2 ^ (w - j) - 1) := by
    rw [Nat.mul_sub, ← pow_add, Nat.add_sub_cancel' inside, Nat.mul_one]
  rw [shape, Nat.testBit_two_pow_mul, Nat.testBit_two_pow_sub_one]
  by_cases above : j ≤ i
  · have both : i - j < w - j ↔ i < w := by omega
    simp [above, both]
  · simp [above]

theorem andNot_ones {w j m : Nat} (inside : j ≤ w) (small : m < 2 ^ w) : andNot m (2 ^ w - 2 ^ j) = m % 2 ^ j := by
  apply Nat.eq_of_testBit_eq
  intro i
  rw [testBit_andNot, testBit_ones inside, Nat.testBit_mod_two_pow]
  by_cases low : i < j
  · simp [low]
  · by_cases high : i < w
    · simp [low, high, Nat.le_of_not_lt low]
    · simp [low, testBit_of_le small (Nat.le_of_not_lt high)]

theorem shiftRight_neg {w k : Nat} (inside : k ≤ w) (positive : 0 < k) :
    (Int.shiftRight (-2 ^ w) k % 2 ^ w).toNat = 2 ^ w - 2 ^ (w - k) := by
  have split : (2 : Int) ^ w = 2 ^ (w - k) * 2 ^ k := by rw [← pow_add, Nat.sub_add_cancel inside]
  have down : Int.shiftRight (-2 ^ w) k = -2 ^ (w - k) := by
    show (-2 ^ w : Int) >>> k = _
    rw [Int.shiftRight_eq_div_pow, split, ← neg_mul]
    push_cast
    exact Int.mul_ediv_cancel _ (by positivity)
  have less : 2 ^ (w - k) < 2 ^ w := Nat.pow_lt_pow_right (by decide) (by omega)
  rw [down, ← Int.add_emod_right, Int.emod_eq_of_lt]
  · zify [less.le]
    rw [Int.toNat_of_nonneg]
    · ring
    · have := less.le
      zify at this
      linarith
  · have := less.le
    zify at this
    linarith
  · have : (0 : Int) < 2 ^ (w - k) := by positivity
    linarith

theorem Holds.lt {f : Int} {n k x : Nat} (holds : Holds c f n k x) (inside : k ≤ c.w) (small : n < 2 ^ c.w) :
    x < 2 ^ (2 * c.w + 1) := by
  obtain ⟨acc, low, multiplied, -, rfl⟩ := holds
  have half := low_lt small inside multiplied.low_lt
  calc (acc % 2 ^ (c.w + 1)).toNat * 2 ^ c.w + (n / 2 ^ k + 2 ^ (c.w - k) * low)
      < (acc % 2 ^ (c.w + 1)).toNat * 2 ^ c.w + 2 ^ c.w := Nat.add_lt_add_left half _
    _ = ((acc % 2 ^ (c.w + 1)).toNat + 1) * 2 ^ c.w := by ring
    _ ≤ 2 ^ (c.w + 1) * 2 ^ c.w := Nat.mul_le_mul_right _ (toNat_emod_lt _ _)
    _ = 2 ^ (2 * c.w + 1) := by
      rw [← pow_add]
      congr 1
      omega

/-! The registers. -/

/-- The register as it is stored, with an unused bit between its halves. -/
def stored (w x : Nat) : Nat := x / 2 ^ w * 2 ^ (w + 1) + x % 2 ^ w

theorem stored_low (w x : Nat) : stored w x % 2 ^ w = x % 2 ^ w := by
  have shape : stored w x = 2 ^ w * (2 * (x / 2 ^ w)) + x % 2 ^ w := by
    unfold stored
    ring
  rw [shape, Nat.mul_add_mod, Nat.mod_mod]

theorem stored_high (w x : Nat) : stored w x / 2 ^ (w + 1) = x / 2 ^ w := by
  have less : x % 2 ^ w < 2 ^ (w + 1) := Nat.lt_trans (Nat.mod_lt _ (Nat.two_pow_pos w)) (Nat.pow_lt_pow_right (by decide) (Nat.lt_succ_self w))
  unfold stored
  rw [Nat.mul_comm, Nat.mul_add_div (Nat.two_pow_pos _), Nat.div_eq_of_lt less, Nat.add_zero]

theorem mulReg_eq (s : State c.w) : mulReg c s = s.remainder / 2 ^ (c.w + 1) % 2 ^ (c.w + 1) * 2 ^ c.w + s.remainder % 2 ^ c.w := by
  unfold mulReg
  rw [mulw_eq, bits_low _ (w_pos c)]
  congr 2
  apply bits_from
  omega

theorem mulReg_stored {x : Nat} (here : s.remainder = stored c.w x) (small : x < 2 ^ (2 * c.w + 1)) : mulReg c s = x := by
  have high : x / 2 ^ c.w < 2 ^ (c.w + 1) := by
    rw [Nat.div_lt_iff_lt_mul (Nat.two_pow_pos _), ← pow_add]
    calc x < 2 ^ (2 * c.w + 1) := small
      _ = 2 ^ (c.w + 1 + c.w) := by
        congr 1
        omega
  rw [mulReg_eq, here, stored_high, stored_low, Nat.mod_eq_of_lt high, Nat.div_add_mod']

theorem room_of_lt {u w k : Nat} (divides : u ∣ w) (count : k * u < w) : k * u + u ≤ w := by
  obtain ⟨m, rfl⟩ := divides
  rw [Nat.mul_comm] at count
  have less : k + 1 ≤ m := Nat.lt_of_mul_lt_mul_left count
  calc k * u + u = u * (k + 1) := by ring
    _ ≤ u * m := Nat.mul_le_mul_left u less

theorem last_iff_of_le {u w k : Nat} (positive : 0 < u) (divides : u ∣ w) (room : k * u + u ≤ w) :
    k = w / u - 1 ↔ k * u + u = w := by
  obtain ⟨m, rfl⟩ := divides
  have shape : k * u + u = u * (k + 1) := by ring
  rw [shape] at room ⊢
  have less := Nat.le_of_mul_le_mul_left room positive
  rw [Nat.mul_div_cancel_left m positive]
  constructor
  · intro last
    congr 1
    omega
  · intro all
    have same := Nat.eq_of_mul_eq_mul_left positive all
    omega

/-- The unit is in the middle of the product of `f` and `n`. -/
structure Multiplying (c : Config) (s : State c.w) (f : Int) (n : Nat) : Prop where
  isMul : s.isMul = true
  negOut : s.negOut = false
  factor : -2 ^ c.w ≤ f ∧ f < 2 ^ c.w
  small : n < 2 ^ c.w
  divisor : s.divisor = (f % 2 ^ (c.w + 1)).toNat
  count : s.count * c.unroll < c.w
  holds : Holds c f n (s.count * c.unroll) (mulReg c s)

section
variable {f : Int} {n : Nat}

theorem Multiplying.room (busy : Multiplying c s f n) : s.count * c.unroll + c.unroll ≤ c.w :=
  room_of_lt (Nat.dvd_of_mod_eq_zero c.divides) busy.count

theorem Multiplying.last_iff (busy : Multiplying c s f n) :
    s.count = mulw c / c.unroll - 1 ↔ s.count * c.unroll + c.unroll = c.w := by
  rw [mulw_eq]
  exact last_iff_of_le c.positive (Nat.dvd_of_mod_eq_zero c.divides) busy.room

theorem Multiplying.nextMulReg_holds (busy : Multiplying c s f n) :
    Holds c f n (s.count * c.unroll + c.unroll) (nextMulReg c s) := by
  have factor : mpcand c s = f := by
    unfold mpcand
    rw [busy.divisor]
    exact bmod_toNat_emod busy.factor
  have wide : max (c.unroll + (c.w + 1)) (c.w + 1) = c.unroll + (c.w + 1) := Nat.max_eq_left (Nat.le_add_left _ _)
  have upper : bits (mulReg c s) (2 * c.w) c.w = mulReg c s / 2 ^ c.w % 2 ^ (c.w + 1) := by
    apply bits_from
    omega
  have step := busy.holds.step busy.small busy.factor busy.room
  unfold nextMulReg prod accum mplier
  rw [factor, mulw_eq, wide, upper, bits_low _ (w_pos c), bits_low _ c.positive]
  exact step

theorem Multiplying.mulEOut_spec (busy : Multiplying c s f n) (out : mulEOut c s = true) :
    s.isHi = false ∧ ((eOutRes c s : Nat) : Int) % 2 ^ c.w = f * n % 2 ^ c.w := by
  unfold mulEOut at out
  simp only [Bool.and_eq_true, decide_eq_true_eq, Bool.not_eq_true'] at out
  obtain ⟨⟨⟨-, started⟩, low⟩, zeros⟩ := out
  have count := busy.count
  have positive : 0 < s.count * c.unroll := Nat.mul_pos (Nat.pos_of_ne_zero started) c.positive
  have fits := le_two_pow_log2Up c.w
  have whole : s.count * c.unroll % 2 ^ log2Up c.w = s.count * c.unroll := Nat.mod_eq_of_lt (by omega)
  have rest : (c.w - s.count * c.unroll) % 2 ^ log2Up c.w = c.w - s.count * c.unroll := Nat.mod_eq_of_lt (by omega)
  unfold eOutMask mplier at zeros
  rw [mulw_eq, whole, shiftRight_neg count.le positive, bits_low _ (w_pos c),
    andNot_ones (Nat.sub_le _ _) (Nat.mod_lt _ (Nat.two_pow_pos _)),
    Nat.mod_mod_of_dvd _ (pow_dvd_pow 2 (Nat.sub_le _ _))] at zeros
  refine ⟨low, ?_⟩
  unfold eOutRes
  rw [mulw_eq, rest]
  exact busy.holds.early count.le zeros busy.small

/-- What the register holds of a finished operation: its low half, or the upper one for `isHi`. -/
def Shows (c : Config) (s : State c.w) (v : Int) : Prop := (s.remainder : Int) % 2 ^ c.w = v % 2 ^ c.w

def ShowsHigh (c : Config) (s : State c.w) (v : Int) : Prop := ((s.remainder / 2 ^ (c.w + 1) : Nat) : Int) % 2 ^ c.w = v % 2 ^ c.w

theorem mulStep_spec (busy : Multiplying c s f n) :
    (mulStep c s).isHi = s.isHi ∧ (mulStep c s).req = s.req ∧ (mulStep c s).isMul = true ∧ (mulStep c s).negOut = false ∧
    ((mulStep c s).state = s.state ∧ (mulStep c s).count = s.count + 1 ∧ Multiplying c (mulStep c s) f n
      ∨ (mulStep c s).state = .done ∧ s.isHi = false ∧ Shows c (mulStep c s) (f * n)
      ∨ (mulStep c s).state = .moveRem ∧ s.isHi = true ∧ ShowsHigh c (mulStep c s) (f * n / 2 ^ c.w)) := by
  refine ⟨rfl, rfl, busy.isMul, busy.negOut, ?_⟩
  have holds := busy.nextMulReg_holds
  have bound := holds.lt busy.room busy.small
  have remainder : (mulStep c s).remainder = stored c.w (nextMulReg1 c s) := by
    simp only [mulStep, stored, bits_low _ (w_pos c)]
  have upper : bits (nextMulReg c s) (2 * c.w) c.w = nextMulReg c s / 2 ^ c.w := by
    rw [bits_from (n := c.w + 1) _ (by omega)]
    apply Nat.mod_eq_of_lt
    rw [Nat.div_lt_iff_lt_mul (Nat.two_pow_pos _), ← pow_add]
    calc nextMulReg c s < 2 ^ (2 * c.w + 1) := bound
      _ = 2 ^ (c.w + 1 + c.w) := by
        congr 1
        omega
  cases out : mulEOut c s with
  | true =>
    -- the bits that are left are zero: the low half is ready
    obtain ⟨low, product⟩ := busy.mulEOut_spec out
    refine .inr (.inl ⟨by simp [mulStep, out, low], low, ?_⟩)
    have half : nextMulReg1 c s % 2 ^ c.w = eOutRes c s % 2 ^ c.w := by
      unfold nextMulReg1
      rw [mulw_eq, out, if_pos rfl, bits_low _ (w_pos c), Nat.mul_comm, Nat.mul_add_mod, Nat.mod_mod]
    unfold Shows
    rw [remainder]
    have := stored_low c.w (nextMulReg1 c s)
    rw [half] at this
    rw [← product]
    exact_mod_cast this
  | false =>
    have whole : nextMulReg1 c s = nextMulReg c s := by
      unfold nextMulReg1
      rw [mulw_eq, out, if_neg (by decide), upper, bits_low _ (w_pos c), Nat.div_add_mod']
    rw [whole] at remainder
    by_cases last : s.count = mulw c / c.unroll - 1
    · have all := holds
      rw [busy.last_iff.mp last] at all
      obtain ⟨low, high⟩ := all.product busy.small
      cases hi : s.isHi with
      | false =>
        refine .inr (.inl ⟨by simp [mulStep, last, hi], rfl, ?_⟩)
        unfold Shows
        rw [remainder, ← low]
        exact_mod_cast stored_low c.w (nextMulReg c s)
      | true =>
        refine .inr (.inr ⟨by simp [mulStep, last, hi], rfl, ?_⟩)
        unfold ShowsHigh
        rw [remainder, stored_high, high]
    · have room := busy.room
      have more : s.count * c.unroll + c.unroll ≠ c.w := fun all => last (busy.last_iff.mpr all)
      have count : (mulStep c s).count = s.count + 1 := by
        have fits := le_two_pow_log2Up (c.w + 1)
        have below : s.count + 1 ≤ (s.count + 1) * c.unroll := Nat.le_mul_of_pos_right _ c.positive
        rw [Nat.add_mul, Nat.one_mul] at below
        exact Nat.mod_eq_of_lt (by omega)
      have next : (s.count + 1) * c.unroll = s.count * c.unroll + c.unroll := by ring
      refine .inl ⟨by simp [mulStep, out, last], count, ⟨busy.isMul, busy.negOut, busy.factor, busy.small, busy.divisor, ?_, ?_⟩⟩
      · rw [count, next]
        omega
      · rw [count, next, mulReg_stored remainder bound]
        exact holds

end

end LowRisc.Rocket.MulDiv
