import LowRisc.Chisel.Vec
import LowRisc.Lib.Parity
import Mathlib.Data.Nat.Bitwise

/-! Codes for the arrays of the caches.

A code word of the single error code has its positions counted from 1. The powers of two are the
check positions; the syndrome of a word is the exclusive or of the positions of its ones.
-/

set_option autoImplicit false

namespace LowRisc.Uncore

open LowRisc.Chisel LowRisc.Lib

instance : DecidablePred isPow2 := fun n => decidable_of_iff (2 ^ n.log2 = n)
  ⟨fun power => ⟨n.log2, power.symm⟩, by rintro ⟨k, rfl⟩; rw [Nat.log2_two_pow]⟩

structure Decoding (k : Nat) where
  uncorrected : BitVec k
  corrected : BitVec k
  correctable : Bool
  uncorrectable : Bool

def Decoding.error {k : Nat} (d : Decoding k) : Bool := d.correctable || d.uncorrectable

/-- A code takes words of any width; `dataWidth` is the width that `decode` gives back. -/
structure Code where
  width : Nat → Nat
  dataWidth : Nat → Nat
  encode : {k : Nat} → BitVec k → BitVec (width k)
  decode : {n : Nat} → BitVec n → Decoding (dataWidth n)

def xorR {n : Nat} (x : BitVec n) : Bool := parity (List.range n) x.getLsbD

def ParityCode : Code where
  width k := k + 1
  dataWidth n := n - 1
  encode x := BitVec.cons (xorR x) x
  decode {n} y := ⟨y.setWidth (n - 1), y.setWidth (n - 1), false, xorR y⟩

/-- `1 to n`. -/
def positions (n : Nat) : List Nat := (List.range n).map (· + 1)

namespace SECCode

def width (k : Nat) : Nat :=
  let m := k.log2 + 1
  k + m + if 2 ^ m < m + k + 1 then 1 else 0

def mapping (i : Nat) : Nat := i - 1 - log2Up i

/-- Bit `y` at position `i` of a code word with `n` positions. -/
def encoded {k : Nat} (x : BitVec k) (n i : Nat) : Bool :=
  if isPow2 i then
    parity ((positions n).filter fun j => decide (j ≠ i) && decide (j &&& i ≠ 0)) fun j => x.getLsbD (mapping j)
  else x.getLsbD (mapping i)

def encode {k : Nat} (x : BitVec k) : BitVec (width k) := vecBits _ fun i => encoded x (width k) (i + 1)

def syndrome {n : Nat} (y : BitVec n) : BitVec (log2Up n) :=
  vecBits _ fun b => parity ((positions n).filter fun j => decide (j &&& 2 ^ b ≠ 0)) fun j => y.getLsbD (j - 1)

def dataPositions (n : Nat) : List Nat := (positions n).filter fun i => !decide (isPow2 i)

def dataWidth (n : Nat) : Nat := (dataPositions n).length

def swizzle {n : Nat} (z : BitVec n) : BitVec (dataWidth n) := vecBits _ fun r => z.getLsbD ((dataPositions n).getD r 0 - 1)

/-- The bit that the syndrome names is turned over; position 0 is shifted out again. -/
def corrected {n : Nat} (y : BitVec n) : BitVec n :=
  let w := max (n + 1) (2 ^ log2Up n)
  ((y.setWidth w <<< 1 ^^^ BitVec.twoPow w (syndrome y).toNat) >>> 1).setWidth n

def decode {n : Nat} (y : BitVec n) : Decoding (dataWidth n) :=
  ⟨swizzle y, swizzle (corrected y), decide (syndrome y ≠ 0), false⟩

end SECCode

def SECCode : Code := ⟨SECCode.width, SECCode.dataWidth, SECCode.encode, SECCode.decode⟩

def SECDEDCode : Code where
  width k := SECCode.width k + 1
  dataWidth n := SECCode.dataWidth (n - 1)
  encode x := ParityCode.encode (SECCode.encode x)
  decode {n} y :=
    let secdec := SECCode.decode (y.setWidth (n - 1))
    let pardec := ParityCode.decode y
    ⟨secdec.uncorrected, secdec.corrected, pardec.uncorrectable, !pardec.uncorrectable && secdec.correctable⟩

/-! What codes are for. -/

namespace Code

variable (code : Code) (k : Nat)

/-- A word with the bit at position `p` turned over. -/
def hit {n : Nat} (y : BitVec n) (p : Nat) : BitVec n := y ^^^ BitVec.twoPow n p

/-- Words come back as they are, without an error. -/
def RoundTrip : Prop :=
  code.dataWidth (code.width k) = k ∧ ∀ x : BitVec k, (code.decode (code.encode x)).uncorrected.toNat = x.toNat
    ∧ (code.decode (code.encode x)).corrected.toNat = x.toNat ∧ (code.decode (code.encode x)).error = false

/-- A word with one bit turned over is corrected, and the error is reported as corrected. -/
def CorrectsOne : Prop :=
  ∀ (x : BitVec k), ∀ p < code.width k, (code.decode (hit (code.encode x) p)).corrected.toNat = x.toNat
    ∧ (code.decode (hit (code.encode x) p)).correctable = true ∧ (code.decode (hit (code.encode x) p)).uncorrectable = false

/-- Two bits turned over are reported and not taken for one. -/
def DetectsTwo : Prop :=
  ∀ (x : BitVec k), ∀ p < code.width k, ∀ q < code.width k, p ≠ q →
    (code.decode (hit (hit (code.encode x) p) q)).uncorrectable = true
      ∧ (code.decode (hit (hit (code.encode x) p) q)).correctable = false

end Code

/-! Positions. -/

theorem mem_positions {n i : Nat} : i ∈ positions n ↔ 1 ≤ i ∧ i ≤ n := by
  unfold positions
  constructor
  · intro inside
    obtain ⟨j, low, rfl⟩ := List.mem_map.mp inside
    exact ⟨by omega, List.mem_range.mp low⟩
  · intro bounds
    exact List.mem_map.mpr ⟨i - 1, List.mem_range.mpr (by omega), by omega⟩

theorem nodup_positions (n : Nat) : (positions n).Nodup := by
  apply List.Nodup.map _ List.nodup_range
  intro i j same
  exact Nat.succ.inj same

theorem positions_succ (n : Nat) : positions (n + 1) = positions n ++ [n + 1] := by
  simp [positions, List.range_succ]

theorem and_two_pow_ne_zero (i b : Nat) : i &&& 2 ^ b ≠ 0 ↔ i.testBit b = true := by
  rw [Nat.and_two_pow]
  cases i.testBit b <;> simp

theorem not_isPow2_of_testBit {i b : Nat} (set : i.testBit b = true) (other : i ≠ 2 ^ b) : ¬isPow2 i := by
  rintro ⟨c, rfl⟩
  rw [Nat.testBit_two_pow] at set
  exact other (congrArg (2 ^ ·) (by simpa using set))

theorem isPow2_succ_iff {n : Nat} (positive : 0 < n) : isPow2 (n + 1) ↔ (n + 1).log2 = n.log2 + 1 := by
  have low := Nat.log2_self_le (Nat.ne_of_gt positive)
  have high := @Nat.lt_log2_self n
  constructor
  · rintro ⟨k, power⟩
    rw [power, Nat.log2_two_pow]
    apply Nat.le_antisymm
    · rw [← Nat.pow_le_pow_iff_right (show 1 < 2 by decide), ← power]
      exact high
    · rw [Nat.succ_le_iff, ← Nat.pow_lt_pow_iff_right (show 1 < 2 by decide), ← power]
      omega
  · intro next
    refine ⟨n.log2 + 1, Nat.le_antisymm high ?_⟩
    rw [← next]
    exact Nat.log2_self_le (by omega)

theorem log2_succ_of_not_isPow2 {n : Nat} (positive : 0 < n) (other : ¬isPow2 (n + 1)) : (n + 1).log2 = n.log2 := by
  have low := Nat.log2_self_le (Nat.ne_of_gt positive)
  have high := @Nat.lt_log2_self n
  have top : n + 1 ≠ 2 ^ (n.log2 + 1) := fun power => other ⟨_, power⟩
  rw [Nat.log2_eq_iff (by omega)]
  omega

namespace SECCode

theorem dataPositions_succ (n : Nat) :
    dataPositions (n + 1) = dataPositions n ++ if isPow2 (n + 1) then [] else [n + 1] := by
  unfold dataPositions
  rw [positions_succ, List.filter_append]
  by_cases power : isPow2 (n + 1) <;> simp [power]

theorem dataWidth_eq (n : Nat) (positive : 0 < n) : dataWidth n = n - (n.log2 + 1) := by
  induction n with
  | zero => cases positive
  | succ n ih =>
    rcases Nat.eq_zero_or_pos n with rfl | before
    · rfl
    · have small : n.log2 < n := Nat.lt_of_lt_of_le Nat.lt_two_pow_self (Nat.log2_self_le (Nat.ne_of_gt before))
      unfold dataWidth at ih ⊢
      rw [dataPositions_succ, List.length_append, ih before]
      by_cases power : isPow2 (n + 1)
      · rw [if_pos power, (isPow2_succ_iff before).mp power]
        simp
      · rw [if_neg power, log2_succ_of_not_isPow2 before power]
        simp only [List.length_singleton]
        omega

theorem map_mapping (n : Nat) : (dataPositions n).map mapping = List.range (dataWidth n) := by
  induction n with
  | zero => rfl
  | succ n ih =>
    unfold dataWidth at ih ⊢
    rw [dataPositions_succ, List.map_append, ih]
    by_cases power : isPow2 (n + 1)
    · simp [power]
    · rw [if_neg power, List.length_append, List.length_singleton, List.range_succ, List.map_singleton]
      -- 1 and 2 are powers
      have large : 2 < n + 1 := by
        by_contra small
        apply power
        obtain rfl | rfl : n = 0 ∨ n = 1 := by omega
        · exact ⟨0, rfl⟩
        · exact ⟨1, rfl⟩
      have width := dataWidth_eq n (by omega)
      unfold dataWidth at width
      rw [width, mapping, log2Up, if_neg (by omega)]
      rfl

theorem log2Up_eq {n : Nat} (other : ¬isPow2 n) (positive : 0 < n) : log2Up n = n.log2 + 1 := by
  cases n with
  | zero => cases positive
  | succ n =>
    have large : 2 < n + 1 := by
      by_contra small
      apply other
      obtain rfl | rfl : n = 0 ∨ n = 1 := by omega
      · exact ⟨0, rfl⟩
      · exact ⟨1, rfl⟩
    rw [log2Up, if_neg (by omega), Nat.add_sub_cancel, log2_succ_of_not_isPow2 (by omega) other]

theorem width_between {k : Nat} (positive : 0 < k) : ∃ e, 2 ^ e < width k ∧ width k < 2 ^ (e + 1) ∧ width k = k + e + 1 := by
  have low := Nat.log2_self_le (Nat.ne_of_gt positive)
  have high := @Nat.lt_log2_self k
  have small : k.log2 + 1 < 2 ^ (k.log2 + 1) := Nat.lt_two_pow_self
  have four : 2 ^ (k.log2 + 2) = 2 * 2 ^ (k.log2 + 1) := by rw [Nat.pow_succ, Nat.mul_comm]
  unfold width
  simp only
  split
  · exact ⟨k.log2 + 1, by omega, by omega, rfl⟩
  · exact ⟨k.log2, by omega, by omega, rfl⟩

/-- `require(n > 0 && !isPow2(n))` holds of code words. -/
theorem not_isPow2_width {k : Nat} (positive : 0 < k) : ¬isPow2 (width k) := by
  obtain ⟨e, low, high, -⟩ := width_between positive
  rintro ⟨f, power⟩
  rw [power] at low high
  have first := (Nat.pow_lt_pow_iff_right (show 1 < 2 by decide)).mp low
  have second := (Nat.pow_lt_pow_iff_right (show 1 < 2 by decide)).mp high
  omega

theorem dataWidth_width {k : Nat} (positive : 0 < k) : dataWidth (width k) = k := by
  obtain ⟨e, low, high, size⟩ := width_between positive
  have exponent : (width k).log2 = e := by
    rw [Nat.log2_eq_iff (by omega)]
    omega
  rw [dataWidth_eq _ (by omega), exponent, size]
  omega

/-! The syndrome. -/

section Syndrome

variable {n : Nat}

theorem getLsbD_syndrome (y : BitVec n) {b : Nat} (bound : b < log2Up n) :
    (syndrome y).getLsbD b = parity (positions n) fun j => j.testBit b && y.getLsbD (j - 1) := by
  unfold syndrome
  rw [getLsbD_vecBits, decide_eq_true bound, Bool.true_and, parity_filter]
  apply parity_congr
  intro j _
  congr 1
  rw [Bool.eq_iff_iff]
  simpa using and_two_pow_ne_zero j b

theorem lt_two_pow_log2Up (other : ¬isPow2 n) {j : Nat} (inside : j ≤ n) (positive : 0 < n) : j < 2 ^ log2Up n := by
  rw [log2Up_eq other positive]
  have high := @Nat.lt_log2_self n
  omega

/-- A bit that is turned over adds its position. -/
theorem syndrome_hit (y : BitVec n) {p : Nat} (inside : p < n) :
    syndrome (Code.hit y p) = syndrome y ^^^ BitVec.ofNat (log2Up n) (p + 1) := by
  apply BitVec.eq_of_getLsbD_eq
  intro b bound
  have flipped : ∀ j ∈ positions n, (j.testBit b && (Code.hit y p).getLsbD (j - 1)) =
      ((j.testBit b && y.getLsbD (j - 1)) ^^ (decide (j = p + 1) && j.testBit b)) := by
    intro j listed
    have bounds := mem_positions.mp listed
    have here : p = j - 1 ↔ j = p + 1 := by omega
    simp only [Code.hit, BitVec.getLsbD_xor, BitVec.getLsbD_twoPow, here, inside, decide_true, Bool.true_and]
    cases j.testBit b <;> simp
  rw [BitVec.getLsbD_xor, getLsbD_syndrome _ bound, getLsbD_syndrome _ bound, parity_congr flipped, parity_xor,
    parity_pick (nodup_positions n)]
  have listed : p + 1 ∈ positions n := mem_positions.mpr ⟨by omega, inside⟩
  simp only [listed, decide_true, Bool.true_and, BitVec.getLsbD_ofNat, bound]

theorem syndrome_encode {k : Nat} (positive : 0 < k) (x : BitVec k) : syndrome (encode x) = 0 := by
  apply BitVec.eq_of_getLsbD_eq
  intro b bound
  obtain ⟨e, low, high, size⟩ := width_between positive
  have other := not_isPow2_width positive
  have bit : ∀ j ∈ positions (width k), (encode x).getLsbD (j - 1) = encoded x (width k) j := by
    intro j listed
    have bounds := mem_positions.mp listed
    unfold encode
    rw [getLsbD_vecBits, decide_eq_true (by omega), Bool.true_and, Nat.sub_add_cancel bounds.1]
  have check : 2 ^ b ∈ positions (width k) := by
    rw [mem_positions]
    rw [log2Up_eq other (by omega)] at bound
    have exponent := Nat.pow_le_pow_right (show 0 < 2 by decide) (show b ≤ (width k).log2 by omega)
    exact ⟨Nat.two_pow_pos b, Nat.le_trans exponent (Nat.log2_self_le (by omega))⟩
  have sum : parity ((positions (width k)).filter fun j => decide (j ≠ 2 ^ b)) (fun j => j.testBit b && (encode x).getLsbD (j - 1))
      = encoded x (width k) (2 ^ b) := by
    rw [encoded, if_pos ⟨b, rfl⟩, parity_filter, parity_filter]
    apply parity_congr
    intro j listed
    have tests : decide (j &&& 2 ^ b ≠ 0) = j.testBit b := by
      rw [Bool.eq_iff_iff]
      simpa using and_two_pow_ne_zero j b
    rw [tests]
    by_cases same : j = 2 ^ b
    · simp [same]
    · cases set : j.testBit b with
      | false => simp
      | true => rw [bit j listed, encoded, if_neg (not_isPow2_of_testBit set same), Bool.true_and, Bool.and_true]
  rw [getLsbD_syndrome _ bound, parity_split (nodup_positions _) check, sum, bit _ check]
  simp

end Syndrome

/-! The data positions. -/

theorem swizzle_eq {k n : Nat} {z : BitVec n} {x : BitVec k} (wide : dataWidth n = k)
    (agree : ∀ j ∈ dataPositions n, z.getLsbD (j - 1) = x.getLsbD (mapping j)) : (swizzle z).toNat = x.toNat := by
  subst wide
  congr 1
  apply BitVec.eq_of_getLsbD_eq
  intro r bound
  have listed : ((dataPositions n).map mapping)[r]? = some r := by
    rw [map_mapping, List.getElem?_range bound]
  rw [List.getElem?_map] at listed
  obtain ⟨j, found, place⟩ := Option.map_eq_some_iff.mp listed
  unfold swizzle
  rw [getLsbD_vecBits, decide_eq_true bound, Bool.true_and, List.getD_eq_getElem?_getD, found, Option.getD_some,
    agree j (List.mem_of_getElem? found), place]

theorem mem_dataPositions {n j : Nat} : j ∈ dataPositions n ↔ (1 ≤ j ∧ j ≤ n) ∧ ¬isPow2 j := by
  unfold dataPositions
  rw [List.mem_filter, mem_positions]
  simp

theorem getLsbD_corrected {n : Nat} (y : BitVec n) {j : Nat} (low : 1 ≤ j) (high : j ≤ n) :
    (corrected y).getLsbD (j - 1) = (y.getLsbD (j - 1) ^^ decide ((syndrome y).toNat = j)) := by
  unfold corrected
  simp only [BitVec.getLsbD_setWidth, BitVec.getLsbD_ushiftRight, BitVec.getLsbD_xor, BitVec.getLsbD_shiftLeft,
    BitVec.getLsbD_twoPow]
  have position : 1 + (j - 1) = j := by omega
  have inside : j < max (n + 1) (2 ^ log2Up n) := by omega
  have before : j - 1 < max (n + 1) (2 ^ log2Up n) := by omega
  have place : j - 1 < n := by omega
  have later : ¬j < 1 := by omega
  have named : (decide ((syndrome y).toNat < max (n + 1) (2 ^ log2Up n)) && decide ((syndrome y).toNat = j))
      = decide ((syndrome y).toNat = j) := by
    by_cases same : (syndrome y).toNat = j
    · rw [same]
      simp [inside]
    · simp [same]
  rw [position, named]
  simp [inside, before, place, later]

theorem getLsbD_encode {k : Nat} (x : BitVec k) {j : Nat} (data : j ∈ dataPositions (width k)) :
    (encode x).getLsbD (j - 1) = x.getLsbD (mapping j) := by
  obtain ⟨bounds, other⟩ := mem_dataPositions.mp data
  unfold encode
  rw [getLsbD_vecBits, decide_eq_true (by omega), Bool.true_and, Nat.sub_add_cancel bounds.1, encoded, if_neg other]

theorem syndrome_hit_encode {k : Nat} (positive : 0 < k) (x : BitVec k) {p : Nat} (inside : p < width k) :
    (syndrome (Code.hit (encode x) p)).toNat = p + 1 := by
  have fits : p + 1 < 2 ^ log2Up (width k) := lt_two_pow_log2Up (not_isPow2_width positive) inside (by omega)
  rw [syndrome_hit _ inside, syndrome_encode positive]
  simp [Nat.mod_eq_of_lt fits]

theorem uncorrected_encode {k : Nat} (positive : 0 < k) (x : BitVec k) : (swizzle (encode x)).toNat = x.toNat := by
  apply swizzle_eq (dataWidth_width positive)
  intro j data
  exact getLsbD_encode x data

theorem corrected_encode {k : Nat} (positive : 0 < k) (x : BitVec k) : (swizzle (corrected (encode x))).toNat = x.toNat := by
  apply swizzle_eq (dataWidth_width positive)
  intro j data
  obtain ⟨bounds, -⟩ := mem_dataPositions.mp data
  have apart : ¬0 = j := by omega
  rw [getLsbD_corrected _ bounds.1 bounds.2, syndrome_encode positive, getLsbD_encode x data]
  simp [apart]

theorem corrected_hit {k : Nat} (positive : 0 < k) (x : BitVec k) {p : Nat} (inside : p < width k) :
    (swizzle (corrected (Code.hit (encode x) p))).toNat = x.toNat := by
  apply swizzle_eq (dataWidth_width positive)
  intro j data
  obtain ⟨bounds, -⟩ := mem_dataPositions.mp data
  have here : p = j - 1 ↔ p + 1 = j := by omega
  rw [getLsbD_corrected _ bounds.1 bounds.2, syndrome_hit_encode positive x inside, ← getLsbD_encode x data]
  -- the bit is turned over twice
  simp [Code.hit, here, inside]

theorem returns {k : Nat} (positive : 0 < k) : SECCode.RoundTrip k := by
  refine ⟨dataWidth_width positive, fun x => ⟨uncorrected_encode positive x, corrected_encode positive x, ?_⟩⟩
  have clean : decide (syndrome (encode x) ≠ 0) = false := by simp [syndrome_encode positive]
  simp only [Decoding.error, Uncore.SECCode, decode, clean, Bool.or_false]

theorem corrects_one {k : Nat} (positive : 0 < k) : SECCode.CorrectsOne k := by
  intro x p inside
  refine ⟨corrected_hit positive x inside, ?_, rfl⟩
  apply decide_eq_true
  intro clean
  have found := syndrome_hit_encode positive x inside
  have zero : syndrome (Code.hit (encode x) p) = 0 := clean
  rw [zero] at found
  cases found

theorem two_pow_spread {m e : Nat} (less : m ≤ e) : 2 ^ m + e ≤ 2 ^ e + m := by
  induction less with
  | refl => exact Nat.le_refl _
  | @step e _ ih =>
    have positive := Nat.two_pow_pos e
    rw [Nat.pow_succ]
    omega

/-- No fewer check bits would have a syndrome for each position and one for no error. -/
theorem width_le {k m : Nat} (positive : 0 < k) (enough : k + m + 1 ≤ 2 ^ m) : width k ≤ k + m := by
  obtain ⟨e, low, -, size⟩ := width_between positive
  rw [size] at low ⊢
  by_contra fewer
  have spread := two_pow_spread (show m ≤ e by omega)
  omega

/-- One error is corrected with as few check bits as that takes, and the decoder accepts the width
of every code word. -/
theorem sec {k : Nat} (positive : 0 < k) : SECCode.RoundTrip k ∧ SECCode.CorrectsOne k ∧ ¬isPow2 (SECCode.width k)
    ∧ ∀ m, k + m + 1 ≤ 2 ^ m → SECCode.width k ≤ k + m :=
  ⟨returns positive, corrects_one positive, not_isPow2_width positive, fun _ => width_le positive⟩

theorem sec_of_byte : SECCode.RoundTrip 8 ∧ SECCode.CorrectsOne 8 ∧ ¬isPow2 (SECCode.width 8)
    ∧ ∀ m, 8 + m + 1 ≤ 2 ^ m → SECCode.width 8 ≤ 8 + m := sec (by decide)

end SECCode

/-! The parity bit. -/

theorem xorR_hit {n : Nat} (y : BitVec n) {p : Nat} (inside : p < n) : xorR (Code.hit y p) = !xorR y := by
  have flipped : ∀ i ∈ List.range n, (Code.hit y p).getLsbD i = (y.getLsbD i ^^ (decide (i = p) && true)) := by
    intro i _
    have here : p = i ↔ i = p := eq_comm
    simp [Code.hit, here, inside]
  unfold xorR
  rw [parity_congr flipped, parity_xor, parity_pick List.nodup_range]
  simp [inside]

theorem xorR_cons {n : Nat} (b : Bool) (c : BitVec n) : xorR (BitVec.cons b c) = (b ^^ xorR c) := by
  have top : parity [n] (BitVec.cons b c).getLsbD = b := by
    rw [parity_cons, parity_nil, Bool.xor_false, BitVec.getLsbD_cons, if_pos rfl]
  have rest : parity (List.range n) (BitVec.cons b c).getLsbD = parity (List.range n) c.getLsbD := by
    apply parity_congr
    intro i listed
    have below := List.mem_range.mp listed
    rw [BitVec.getLsbD_cons, if_neg (by omega)]
  unfold xorR
  rw [List.range_succ, parity_append, rest, top, Bool.xor_comm]

namespace SECDEDCode

variable {k : Nat} (x : BitVec k)

/-- The word that `encode` gives, at the width that `decode` takes apart. -/
def sent : BitVec (SECCode.width k + 1) := BitVec.cons (xorR (SECCode.encode x)) (SECCode.encode x)

theorem xorR_sent : xorR (sent x) = false := by
  unfold sent
  rw [xorR_cons, Bool.xor_self]

theorem low_sent : (sent x).setWidth (SECCode.width k) = SECCode.encode x := BitVec.setWidth_cons

/-- The inner code does not see the parity bit. -/
theorem low_hit {n : Nat} (y : BitVec (n + 1)) (p : Nat) :
    (Code.hit y p).setWidth n = if p < n then Code.hit (y.setWidth n) p else y.setWidth n := by
  apply BitVec.eq_of_getLsbD_eq
  intro i bound
  by_cases inside : p < n
  · simp [Code.hit, inside, bound, Nat.lt_succ_of_lt inside, @eq_comm Nat p i]
  · have apart : ¬p = i := by omega
    simp [Code.hit, inside, bound, apart]

def decoded {n : Nat} (y : BitVec (n + 1)) : Decoding (SECCode.dataWidth n) :=
  ⟨SECCode.swizzle (y.setWidth n), SECCode.swizzle (SECCode.corrected (y.setWidth n)), xorR y,
    !xorR y && decide (SECCode.syndrome (y.setWidth n) ≠ 0)⟩

theorem returns (positive : 0 < k) : SECDEDCode.RoundTrip k := by
  refine ⟨SECCode.dataWidth_width positive, fun x => ?_⟩
  change (decoded (sent x)).uncorrected.toNat = x.toNat ∧ (decoded (sent x)).corrected.toNat = x.toNat
    ∧ (decoded (sent x)).error = false
  simp only [decoded, Decoding.error, low_sent, xorR_sent, SECCode.syndrome_encode positive]
  exact ⟨SECCode.uncorrected_encode positive x, SECCode.corrected_encode positive x, by simp⟩

theorem corrects_one (positive : 0 < k) : SECDEDCode.CorrectsOne k := by
  intro x p inside
  replace inside : p < SECCode.width k + 1 := inside
  have odd : xorR (Code.hit (sent x) p) = true := by
    rw [xorR_hit _ inside, xorR_sent]
    rfl
  change (decoded (Code.hit (sent x) p)).corrected.toNat = x.toNat ∧ (decoded (Code.hit (sent x) p)).correctable = true
    ∧ (decoded (Code.hit (sent x) p)).uncorrectable = false
  simp only [decoded, odd, low_hit, low_sent]
  refine ⟨?_, trivial, rfl⟩
  -- the inner code has one error, or none when the parity bit is hit
  split
  · rename_i inner
    exact SECCode.corrected_hit positive x inner
  · exact SECCode.corrected_encode positive x

/-- Two different positions do not cancel in the inner code. -/
theorem syndrome_two (positive : 0 < k) {p q : Nat} (inside : p < SECCode.width k + 1) (inside' : q < SECCode.width k + 1)
    (apart : p ≠ q) : SECCode.syndrome ((Code.hit (Code.hit (sent x) p) q).setWidth (SECCode.width k)) ≠ 0 := by
  intro clean
  rw [low_hit, low_hit, low_sent] at clean
  by_cases first : p < SECCode.width k
  · have found := SECCode.syndrome_hit_encode positive x first
    rw [if_pos first] at clean
    by_cases second : q < SECCode.width k
    · have fits := SECCode.lt_two_pow_log2Up (SECCode.not_isPow2_width positive) second (by omega)
      rw [if_pos second, SECCode.syndrome_hit _ second] at clean
      -- the two positions are equal as words of the syndrome
      have same := BitVec.xor_eq_zero_iff.mp clean
      rw [same, BitVec.toNat_ofNat, Nat.mod_eq_of_lt fits] at found
      omega
    · rw [if_neg second] at clean
      rw [clean] at found
      cases found
  · have second : q < SECCode.width k := by omega
    have found := SECCode.syndrome_hit_encode positive x second
    rw [if_neg first, if_pos second] at clean
    rw [clean] at found
    cases found

theorem detects_two (positive : 0 < k) : SECDEDCode.DetectsTwo k := by
  intro x p inside q inside' apart
  replace inside : p < SECCode.width k + 1 := inside
  replace inside' : q < SECCode.width k + 1 := inside'
  have even : xorR (Code.hit (Code.hit (sent x) p) q) = false := by
    rw [xorR_hit _ inside', xorR_hit _ inside, xorR_sent]
    rfl
  have named := syndrome_two x positive inside inside' apart
  change (decoded (Code.hit (Code.hit (sent x) p) q)).uncorrectable = true
    ∧ (decoded (Code.hit (Code.hit (sent x) p) q)).correctable = false
  simp only [decoded, even]
  exact ⟨by simpa using named, trivial⟩

/-- One error is corrected and two are told apart from one. -/
theorem secded (positive : 0 < k) : SECDEDCode.RoundTrip k ∧ SECDEDCode.CorrectsOne k ∧ SECDEDCode.DetectsTwo k :=
  ⟨returns positive, corrects_one positive, detects_two positive⟩

theorem secded_of_row : SECDEDCode.RoundTrip 64 ∧ SECDEDCode.CorrectsOne 64 ∧ SECDEDCode.DetectsTwo 64 := secded (by decide)

end SECDEDCode

end LowRisc.Uncore
