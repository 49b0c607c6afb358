import LowRisc.Lib.Transition

/-! What the two halves of the NASTI width narrower share: the functions on a request, and the
walk of the running address over the beats of the slave burst.

A bus of `2 ^ b` bytes is given by `b`. Only the low bits of the running address are used, so it
is not cut to the width of the address.
-/

set_option autoImplicit false

namespace LowRisc.Socip

/-- `MASTER_CHANNEL_SIZE` and `SLAVE_CHANNEL_SIZE`. -/
structure NarrowParams where
  master : Nat
  slave : Nat
  narrower : slave < master

/-- The fields of `NastiReq` that are read; the others are copied to the slave. -/
structure NastiReq (I : Type) where
  id : I
  addr : Nat
  len : Nat
  size : Nat
  deriving DecidableEq, Repr

namespace NastiReq

variable {I : Type} (p : NarrowParams) (req : NastiReq I)

def ratio : Nat := if p.slave < req.size then 2 ^ (req.size - p.slave) else 1

def ratio_offset : Nat := if p.slave < req.size then req.size - p.slave else 0

def slave_step : Nat := if p.slave < req.size then 2 ^ p.slave else 2 ^ req.size

def burst_index : Nat := req.addr / 2 ^ p.slave % 2 ^ (req.size - p.slave)

def slave_len : Nat :=
  if 1 < ratio p req then req.len * 2 ^ ratio_offset p req + ratio p req - burst_index p req - 1 else req.len

def slave_size : Nat := if p.slave < req.size then p.slave else req.size

def total_size : Nat := 2 ^ req.size * (req.len + 1)

/-- A request that the ports can carry and that passes the assertions. -/
structure Accepted : Prop where
  len : req.len < 256
  size : req.size ≤ p.master
  total : total_size req ≤ 32 * (8 * 2 ^ p.slave)

/-- The running address behind a beat of the slave. -/
def stepAddr (addr : Nat) : Nat :=
  addr / 2 ^ ratio_offset p req * 2 ^ ratio_offset p req + slave_step p req

/-- The beat at the running address is the last of a master beat. -/
def fillsBeat (addr : Nat) : Bool := decide (2 ^ req.size ≤ addr % 2 ^ req.size + slave_step p req)

def laneOf (addr : Nat) : Nat := addr / 2 ^ p.slave % 2 ^ (p.master - p.slave)

/-- The running address at beat `i` of the slave. -/
def walk : Nat → Nat
  | 0 => req.addr
  | i + 1 => stepAddr p req (walk i)

/-- The master beats finished before beat `i` of the slave. -/
def finished : Nat → Nat
  | 0 => 0
  | i + 1 => finished i + if fillsBeat p req (walk p req i) then 1 else 0

def beats : Nat := slave_len p req + 1

def slaveWords : Nat :=
  (req.addr / 2 ^ req.size + req.len + 1) * 2 ^ req.size / 2 ^ slave_size p req - req.addr / 2 ^ slave_size p req

/-! The walk. -/

theorem slave_step_eq : slave_step p req = 2 ^ slave_size p req := by
  unfold slave_step slave_size
  split <;> rfl

theorem slave_step_pos : 0 < slave_step p req := by
  rw [slave_step_eq]
  exact Nat.two_pow_pos _

theorem ratio_pos : 0 < ratio p req := by
  unfold ratio
  split
  · exact Nat.two_pow_pos _
  · exact Nat.one_pos

theorem ratio_mul_step : ratio p req * slave_step p req = 2 ^ req.size := by
  unfold ratio slave_step
  split
  · rename_i wide
    rw [← Nat.pow_add, Nat.sub_add_cancel (Nat.le_of_lt wide)]
  · rw [Nat.one_mul]

def offset : Nat := req.addr / slave_step p req % ratio p req

theorem offset_lt : offset p req < ratio p req := Nat.mod_lt _ (ratio_pos p req)

theorem beats_add_offset : beats p req + offset p req = (req.len + 1) * ratio p req := by
  have below := offset_lt p req
  unfold beats slave_len
  split
  · rename_i many
    have wide : p.slave < req.size := by
      by_contra narrow
      simp [ratio, narrow] at many
    have index : burst_index p req = offset p req := by simp [burst_index, offset, ratio, slave_step, wide]
    have power : 2 ^ ratio_offset p req = ratio p req := by simp [ratio_offset, ratio, wide]
    rw [index, power, Nat.add_mul, Nat.one_mul]
    omega
  · rename_i one
    have single : ratio p req = 1 := by
      have positive := ratio_pos p req
      omega
    rw [single] at below ⊢
    omega

theorem addr_div_step : req.addr / slave_step p req = req.addr / 2 ^ req.size * ratio p req + offset p req := by
  have parts := Nat.div_add_mod (req.addr / slave_step p req) (ratio p req)
  rw [Nat.div_div_eq_div_mul, Nat.mul_comm (slave_step p req), ratio_mul_step] at parts
  rw [offset, Nat.mul_comm (req.addr / 2 ^ req.size)]
  exact parts.symm

theorem slaveWords_eq : slaveWords p req = beats p req := by
  have total := beats_add_offset p req
  have words := addr_div_step p req
  have ends : (req.addr / 2 ^ req.size + req.len + 1) * 2 ^ req.size / slave_step p req =
      req.addr / 2 ^ req.size * ratio p req + (req.len + 1) * ratio p req := by
    rw [← Nat.add_mul, ← Nat.add_assoc, ← ratio_mul_step p req, ← Nat.mul_assoc, Nat.mul_div_cancel _ (slave_step_pos p req)]
  rw [slaveWords, ← slave_step_eq, ends, words]
  omega

variable {p req} in
theorem slave_len_lt (fits : Accepted p req) : slave_len p req < 256 := by
  have total := beats_add_offset p req
  have beatsEq : beats p req = slave_len p req + 1 := rfl
  by_cases wide : p.slave < req.size
  · have size := fits.total
    rw [total_size, ← ratio_mul_step p req, show slave_step p req = 2 ^ p.slave from if_pos wide] at size
    have bound : (req.len + 1) * ratio p req * 2 ^ p.slave ≤ 256 * 2 ^ p.slave := by
      calc (req.len + 1) * ratio p req * 2 ^ p.slave = ratio p req * 2 ^ p.slave * (req.len + 1) := by
            rw [Nat.mul_comm (req.len + 1), Nat.mul_right_comm]
        _ ≤ 32 * (8 * 2 ^ p.slave) := size
        _ = 256 * 2 ^ p.slave := by rw [← Nat.mul_assoc]
    have count := Nat.le_of_mul_le_mul_right bound (Nat.two_pow_pos _)
    omega
  · have single : ratio p req = 1 := if_neg wide
    have zero := offset_lt p req
    rw [single] at total zero
    have len := fits.len
    omega

/-- The running address is in the right slave word throughout the burst. -/
def WalksRight : Prop := ∀ i < beats p req, walk p req i / slave_step p req = req.addr / slave_step p req + i

theorem fillsBeat_iff (a : Nat) : fillsBeat p req a = true ↔
    a / slave_step p req % ratio p req = ratio p req - 1 := by
  have step := slave_step_pos p req
  have positive := ratio_pos p req
  have size := ratio_mul_step p req
  have split' : a % 2 ^ req.size = slave_step p req * (a / slave_step p req % ratio p req) + a % slave_step p req := by
    rw [← size, Nat.mul_comm, Nat.mod_mul]
    exact Nat.add_comm _ _
  have low := Nat.mod_lt a step
  have high := Nat.mod_lt (a / slave_step p req) positive
  rw [fillsBeat, decide_eq_true_iff, split', ← size]
  constructor
  · intro reached
    by_contra short
    have less : a / slave_step p req % ratio p req + 1 ≤ ratio p req - 1 := by omega
    have product := Nat.mul_le_mul_left (slave_step p req) less
    have whole : slave_step p req * (ratio p req - 1) + slave_step p req = ratio p req * slave_step p req := by
      rw [← Nat.mul_succ, Nat.succ_eq_add_one, Nat.sub_add_cancel positive, Nat.mul_comm]
    rw [Nat.mul_add, Nat.mul_one] at product
    omega
  · intro last
    have whole : slave_step p req * (ratio p req - 1) + slave_step p req = ratio p req * slave_step p req := by
      rw [← Nat.mul_succ, Nat.succ_eq_add_one, Nat.sub_add_cancel positive, Nat.mul_comm]
    rw [last]
    omega

variable {p req}

theorem WalksRight.fills_iff (right : WalksRight p req) {i : Nat} (more : i < beats p req) :
    fillsBeat p req (walk p req i) = true ↔ ratio p req ∣ offset p req + i + 1 := by
  have positive := ratio_pos p req
  have word : walk p req i / slave_step p req % ratio p req = (offset p req + i) % ratio p req := by
    rw [right i more, addr_div_step, Nat.add_assoc, Nat.mul_comm, Nat.mul_add_mod]
  rw [fillsBeat_iff, word]
  constructor
  · intro last
    have whole := Nat.div_add_mod (offset p req + i) (ratio p req)
    rw [last] at whole
    exact ⟨(offset p req + i) / ratio p req + 1, by rw [Nat.mul_succ]; omega⟩
  · intro divides
    have less := Nat.mod_lt (offset p req + i) positive
    have zero := Nat.mod_eq_zero_of_dvd divides
    by_contra short
    rw [Nat.add_mod] at zero
    by_cases one : ratio p req = 1
    · omega
    · rw [Nat.mod_eq_of_lt (show 1 < ratio p req by omega), Nat.mod_eq_of_lt (by omega)] at zero
      omega

theorem WalksRight.finished (right : WalksRight p req) {i : Nat} (bound : i ≤ beats p req) :
    finished p req i = (offset p req + i) / ratio p req := by
  have positive := ratio_pos p req
  induction i with
  | zero => exact (Nat.div_eq_of_lt (by simpa using offset_lt p req)).symm
  | succ i ih =>
    rw [NastiReq.finished, ih (by omega), ← Nat.add_assoc, Nat.succ_div]
    congr 1
    simp only [right.fills_iff (i := i) (by omega)]

theorem finished_beats (right : WalksRight p req) : NastiReq.finished p req (beats p req) = req.len + 1 := by
  have total := beats_add_offset p req
  rw [right.finished (Nat.le_refl _), Nat.add_comm, total, Nat.mul_div_cancel _ (ratio_pos p req)]

theorem finished_le (right : WalksRight p req) {i : Nat} (more : i < beats p req) :
    NastiReq.finished p req i ≤ req.len := by
  have total := beats_add_offset p req
  rw [right.finished (Nat.le_of_lt more)]
  exact Nat.le_of_lt_succ ((Nat.div_lt_iff_lt_mul (ratio_pos p req)).mpr (by rw [Nat.succ_eq_add_one]; omega))

/-! Which requests the walk serves. The alignment shift is by the ratio of the widths, not by the
step, so the walk advances as long as the ratio is not larger than the slave word. -/

variable (p req) in
/-- The ratio is at most the size of the slave word, or the burst is over before that matters. -/
def Aligns : Prop :=
  req.size ≤ 2 * p.slave ∨ beats p req = 1 ∨ (req.size = 2 * p.slave + 1 ∧ beats p req = 2)

theorem div_mul_div_of_dvd {a d n : Nat} (divides : d ∣ n) (positive : 0 < d) : a / d * d / n = a / n := by
  obtain ⟨m, rfl⟩ := divides
  rw [← Nat.div_div_eq_div_mul, Nat.mul_div_cancel _ positive, Nat.div_div_eq_div_mul]

theorem walksRight_of_small (small : req.size ≤ 2 * p.slave) : WalksRight p req := by
  have step := slave_step_pos p req
  have divides : 2 ^ ratio_offset p req ∣ slave_step p req := by
    unfold ratio_offset slave_step
    split
    · exact Nat.pow_dvd_pow 2 (by omega)
    · exact Nat.one_dvd _
  intro i bound
  induction i with
  | zero => rfl
  | succ i ih =>
    rw [walk, stepAddr, Nat.add_div_right _ step, div_mul_div_of_dvd divides (Nat.two_pow_pos _), ih (by omega)]
    rfl

theorem walksRight_of_aligns (aligns : Aligns p req) : WalksRight p req := by
  rcases aligns with small | one | ⟨size, two⟩
  · exact walksRight_of_small small
  · intro i bound
    obtain rfl : i = 0 := by omega
    rfl
  · have wide : p.slave < req.size := by omega
    have ratioEq : ratio p req = 2 * 2 ^ p.slave := by
      rw [ratio, if_pos wide, size, show 2 * p.slave + 1 - p.slave = p.slave + 1 by omega, Nat.pow_succ, Nat.mul_comm]
    have stepEq : slave_step p req = 2 ^ p.slave := if_pos wide
    have offsetEq : 2 ^ ratio_offset p req = 2 ^ p.slave * 2 := by
      rw [ratio_offset, if_pos wide, size, show 2 * p.slave + 1 - p.slave = p.slave + 1 by omega, Nat.pow_succ]
    -- the burst starts at an even slave word, so the coarser alignment does no harm
    have total := beats_add_offset p req
    rw [two, ratioEq] at total
    have even : req.addr / 2 ^ p.slave % 2 = 0 := by
      have parity : offset p req % 2 = 0 := by
        have twice : (req.len + 1) * (2 * 2 ^ p.slave) = 2 * ((req.len + 1) * 2 ^ p.slave) := by
          rw [Nat.mul_left_comm]
        omega
      rw [offset, ratioEq, stepEq, Nat.mod_mul_right_mod] at parity
      exact parity
    intro i bound
    obtain rfl | rfl : i = 0 ∨ i = 1 := by omega
    · rfl
    · rw [walk, stepAddr, stepEq, offsetEq, Nat.add_div_right _ (Nat.two_pow_pos _), ← Nat.div_div_eq_div_mul, walk,
        Nat.mul_comm (2 ^ p.slave), ← Nat.mul_assoc, Nat.mul_div_cancel _ (Nat.two_pow_pos _),
        Nat.div_mul_cancel (Nat.dvd_of_mod_eq_zero even)]

section
variable (large : 2 * p.slave < req.size)
include large

/-- Where the ratio is larger than the slave word the walk stops after one step. -/
theorem walk_stuck (i : Nat) : walk p req (i + 1) = stepAddr p req req.addr := by
  have wide : p.slave < req.size := by omega
  have less : slave_step p req < 2 ^ ratio_offset p req := by
    rw [slave_step, if_pos wide, ratio_offset, if_pos wide]
    exact Nat.pow_lt_pow_right (by decide) (by omega)
  induction i with
  | zero => rfl
  | succ i ih =>
    have back : stepAddr p req req.addr / 2 ^ ratio_offset p req = req.addr / 2 ^ ratio_offset p req := by
      rw [stepAddr, Nat.mul_comm, Nat.mul_add_div (Nat.two_pow_pos _), Nat.div_eq_of_lt less, Nat.add_zero]
    rw [walk, ih, stepAddr, back]
    rfl

theorem finished_stuck (i : Nat) : finished p req (i + 1) =
    (if fillsBeat p req req.addr then 1 else 0) + i * if fillsBeat p req (stepAddr p req req.addr) then 1 else 0 := by
  induction i with
  | zero => rw [finished, finished, walk, Nat.zero_add, Nat.zero_mul, Nat.add_zero]
  | succ i ih =>
    rw [finished, ih, walk_stuck large, Nat.succ_mul, Nat.add_assoc]

/-- The stuck address can be a last word of a master beat for one size only. -/
theorem size_of_fills (fills : fillsBeat p req (stepAddr p req req.addr) = true) : req.size = 2 * p.slave + 1 := by
  have wide : p.slave < req.size := by omega
  have stepEq : slave_step p req = 2 ^ p.slave := if_pos wide
  have ratioEq : ratio p req = 2 ^ (req.size - 2 * p.slave) * 2 ^ p.slave := by
    rw [ratio, if_pos wide, ← Nat.pow_add]
    congr 1
    omega
  have offsetEq : 2 ^ ratio_offset p req = 2 ^ (req.size - 2 * p.slave) * 2 ^ p.slave := by
    rw [ratio_offset, if_pos wide, ← Nat.pow_add]
    congr 1
    omega
  rw [fillsBeat_iff, stepAddr, stepEq, Nat.add_div_right _ (Nat.two_pow_pos _), offsetEq, ← Nat.mul_assoc,
    Nat.mul_div_cancel _ (Nat.two_pow_pos _), ratioEq] at fills
  -- both sides modulo the larger power of two: one on the left, minus one on the right
  by_contra other
  have big : 4 ∣ 2 ^ (req.size - 2 * p.slave) := Nat.pow_dvd_pow 2 (show 2 ≤ req.size - 2 * p.slave by omega)
  obtain ⟨m, power⟩ := big
  have positive := Nat.two_pow_pos p.slave
  have positiveM : 0 < m := by
    have := Nat.two_pow_pos (req.size - 2 * p.slave)
    omega
  rw [power] at fills
  have residue := congrArg (· % 4) fills
  simp only [Nat.mul_assoc] at residue
  rw [Nat.mod_mul_right_mod] at residue
  have left : (req.addr / (4 * (m * 2 ^ p.slave)) * (4 * m) + 1) % 4 = 1 := by
    rw [← Nat.mul_assoc, Nat.mul_comm _ 4, Nat.mul_assoc, Nat.mul_add_mod]
  have product : 0 < m * 2 ^ p.slave := Nat.mul_pos positiveM positive
  omega

end

theorem finished_ne_of_not_aligns (unaligned : ¬ Aligns p req) : finished p req (beats p req) ≠ req.len + 1 := by
  simp only [Aligns, not_or, not_and, Nat.not_le] at unaligned
  obtain ⟨large, several, special⟩ := unaligned
  have total := beats_add_offset p req
  have below := offset_lt p req
  have wide : p.slave < req.size := by omega
  have two : 2 ≤ ratio p req := by
    rw [ratio, if_pos wide]
    exact Nat.le_self_pow (by omega) 2
  have one : 1 ≤ beats p req := by
    unfold beats
    omega
  rw [Nat.add_mul, Nat.one_mul] at total
  have first : fillsBeat p req req.addr = true ↔ offset p req = ratio p req - 1 := fillsBeat_iff p req req.addr
  have growth : req.len * 2 ≤ req.len * ratio p req := Nat.mul_le_mul_left _ two
  -- behind the second word the walk stands still, so two words decide
  rw [show beats p req = beats p req - 1 + 1 by omega, finished_stuck large]
  cases again : fillsBeat p req (stepAddr p req req.addr)
  · cases start : fillsBeat p req req.addr
    · simp
    · have last := first.mp start
      simp only [Bool.false_eq_true, if_true, if_false, Nat.mul_zero]
      intro same
      have zero : req.len = 0 := by omega
      rw [zero] at total
      omega
  · have size := size_of_fills large again
    have more := special size
    cases start : fillsBeat p req req.addr
    · have notLast : offset p req ≠ ratio p req - 1 := fun last => by
        rw [first.mpr last] at start
        cases start
      simp only [Bool.false_eq_true, if_true, if_false, Nat.mul_one, Nat.zero_add]
      omega
    · have last := first.mp start
      simp only [if_true, Nat.mul_one]
      omega

/-! The words of the slave in the lanes of the wide bus. -/

variable (p req) in
theorem slave_size_le : slave_size p req ≤ p.slave := by
  unfold slave_size
  split <;> omega

variable (p req) in
theorem step_dvd : slave_step p req ∣ 2 ^ p.slave := by
  rw [slave_step_eq]
  exact Nat.pow_dvd_pow 2 (slave_size_le p req)

theorem lane_of_word {a n : Nat} (word : a / slave_step p req = n) : a / 2 ^ p.slave = n * slave_step p req / 2 ^ p.slave := by
  obtain ⟨q, whole⟩ := step_dvd p req
  have step := slave_step_pos p req
  rw [whole, ← Nat.div_div_eq_div_mul, word, Nat.mul_comm n, ← Nat.div_div_eq_div_mul, Nat.mul_div_cancel_left _ step]

theorem lane_of_place (b : Nat) {r : Nat} (place : r < ratio p req) :
    (b * ratio p req + r) * slave_step p req / 2 ^ p.slave = b * 2 ^ req.size / 2 ^ p.slave + r := by
  rw [Nat.add_mul, Nat.mul_assoc, ratio_mul_step]
  by_cases wide : p.slave < req.size
  · rw [show slave_step p req = 2 ^ p.slave from if_pos wide, Nat.add_mul_div_right _ _ (Nat.two_pow_pos _)]
  · have single : ratio p req = 1 := if_neg wide
    obtain rfl : r = 0 := by omega
    simp

theorem word_base (p : NarrowParams) (n : Nat) :
    n / 2 ^ (p.master - p.slave) * 2 ^ p.master + n % 2 ^ (p.master - p.slave) * 2 ^ p.slave = n * 2 ^ p.slave := by
  have whole : 2 ^ p.master = 2 ^ (p.master - p.slave) * 2 ^ p.slave := by
    rw [← Nat.pow_add, Nat.sub_add_cancel (Nat.le_of_lt p.narrower)]
  rw [whole, ← Nat.mul_assoc, ← Nat.add_mul, Nat.div_add_mod']

theorem master_of_lane (p : NarrowParams) (a : Nat) : a / 2 ^ p.slave / 2 ^ (p.master - p.slave) = a / 2 ^ p.master := by
  rw [Nat.div_div_eq_div_mul, ← Nat.pow_add, Nat.add_sub_cancel' (Nat.le_of_lt p.narrower)]

theorem lanes_fit (fits : Accepted p req) (b : Nat) :
    b * 2 ^ req.size / 2 ^ p.slave % 2 ^ (p.master - p.slave) + ratio p req ≤ 2 ^ (p.master - p.slave) := by
  have positive := Nat.two_pow_pos (p.master - p.slave)
  have size := fits.size
  by_cases wide : p.slave < req.size
  · have ratioEq : ratio p req = 2 ^ (req.size - p.slave) := if_pos wide
    have split' : 2 ^ req.size = ratio p req * 2 ^ p.slave := by
      rw [ratioEq, ← Nat.pow_add, Nat.sub_add_cancel (Nat.le_of_lt wide)]
    have total : 2 ^ (p.master - p.slave) = ratio p req * 2 ^ (p.master - req.size) := by
      rw [ratioEq, ← Nat.pow_add]
      congr 1
      omega
    rw [split', ← Nat.mul_assoc, Nat.mul_div_cancel _ (Nat.two_pow_pos _), total, Nat.mul_comm b, Nat.mul_mod_mul_left]
    have below := Nat.mod_lt b (Nat.two_pow_pos (p.master - req.size))
    rw [← Nat.mul_succ]
    exact Nat.mul_le_mul_left _ below
  · have single : ratio p req = 1 := if_neg wide
    have below := Nat.mod_lt (b * 2 ^ req.size / 2 ^ p.slave) positive
    omega

variable (p req) in
theorem beat_confined (b a : Nat) (low : b * 2 ^ req.size ≤ a) (high : a < (b + 1) * 2 ^ req.size) :
    b * 2 ^ req.size / 2 ^ p.slave * 2 ^ p.slave ≤ a ∧
      a < (b * 2 ^ req.size / 2 ^ p.slave + ratio p req) * 2 ^ p.slave := by
  refine ⟨Nat.le_trans (Nat.div_mul_le_self _ _) low, ?_⟩
  by_cases wide : p.slave < req.size
  · have split' : 2 ^ req.size = ratio p req * 2 ^ p.slave := by
      rw [show ratio p req = 2 ^ (req.size - p.slave) from if_pos wide, ← Nat.pow_add, Nat.sub_add_cancel (Nat.le_of_lt wide)]
    rw [split', ← Nat.mul_assoc] at high ⊢
    rw [Nat.mul_div_cancel _ (Nat.two_pow_pos _), Nat.add_mul]
    rw [Nat.add_mul, Nat.add_mul, Nat.one_mul] at high
    exact high
  · have single : ratio p req = 1 := if_neg wide
    have split' : 2 ^ p.slave = 2 ^ req.size * 2 ^ (p.slave - req.size) := by
      rw [← Nat.pow_add, Nat.add_sub_cancel' (by omega)]
    have next : b + 1 ≤ (b / 2 ^ (p.slave - req.size) + 1) * 2 ^ (p.slave - req.size) := by
      rw [Nat.succ_mul]
      exact Nat.lt_div_mul_add (Nat.two_pow_pos _)
    rw [single, split', Nat.mul_comm b, ← Nat.div_div_eq_div_mul, Nat.mul_div_cancel_left _ (Nat.two_pow_pos _)]
    calc a < (b + 1) * 2 ^ req.size := high
      _ ≤ (b / 2 ^ (p.slave - req.size) + 1) * 2 ^ (p.slave - req.size) * 2 ^ req.size := Nat.mul_le_mul_right _ next
      _ = (b / 2 ^ (p.slave - req.size) + 1) * (2 ^ req.size * 2 ^ (p.slave - req.size)) := by
        rw [Nat.mul_assoc, Nat.mul_comm (2 ^ (p.slave - req.size))]

theorem WalksRight.laneOf (fits : Accepted p req) (right : WalksRight p req) {i : Nat} (more : i < beats p req) :
    laneOf p (walk p req i) =
      (req.addr / 2 ^ req.size + (offset p req + i) / ratio p req) * 2 ^ req.size / 2 ^ p.slave % 2 ^ (p.master - p.slave) +
        (offset p req + i) % ratio p req := by
  have place := Nat.mod_lt (offset p req + i) (ratio_pos p req)
  have lanes := lanes_fit fits (req.addr / 2 ^ req.size + (offset p req + i) / ratio p req)
  have word : walk p req i / slave_step p req =
      (req.addr / 2 ^ req.size + (offset p req + i) / ratio p req) * ratio p req + (offset p req + i) % ratio p req := by
    rw [right i more, addr_div_step, Nat.add_mul, Nat.add_assoc, Nat.add_assoc, Nat.div_add_mod']
  rw [NastiReq.laneOf, lane_of_word word, lane_of_place _ place]
  generalize (req.addr / 2 ^ req.size + (offset p req + i) / ratio p req) * 2 ^ req.size / 2 ^ p.slave = lane at lanes ⊢
  rw [Nat.add_mod, Nat.mod_eq_of_lt (show (offset p req + i) % ratio p req < 2 ^ (p.master - p.slave) by omega),
    Nat.mod_eq_of_lt (by omega)]

theorem beat_of_address {k a : Nat} (start : req.addr ≤ a) (low : (req.addr / 2 ^ req.size + k) * 2 ^ req.size ≤ a)
    (high : a < (req.addr / 2 ^ req.size + k + 1) * 2 ^ req.size) :
    ∃ j, a / slave_step p req = req.addr / slave_step p req + j ∧ (offset p req + j) / ratio p req = k := by
  have after : req.addr / slave_step p req ≤ a / slave_step p req := Nat.div_le_div_right start
  refine ⟨a / slave_step p req - req.addr / slave_step p req, by omega, ?_⟩
  have beat : a / slave_step p req / ratio p req = req.addr / 2 ^ req.size + k := by
    rw [Nat.div_div_eq_div_mul, Nat.mul_comm, ratio_mul_step]
    exact Nat.div_eq_of_lt_le low high
  have words := addr_div_step p req
  have whole : a / slave_step p req = ratio p req * (req.addr / 2 ^ req.size) +
      (offset p req + (a / slave_step p req - req.addr / slave_step p req)) := by
    rw [Nat.mul_comm]
    omega
  rw [whole, Nat.mul_add_div (ratio_pos p req)] at beat
  omega

end NastiReq

end LowRisc.Socip
