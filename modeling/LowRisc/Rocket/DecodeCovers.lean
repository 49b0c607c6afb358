import LowRisc.Rocket.Decode
import Mathlib.Data.Nat.Bitwise
import Mathlib.Data.Nat.Digits.Lemmas

/-! Covers of decode tables.

A sweep keeps two promises: a merged term has the points of the terms it was made of, or points
that no one asked about, and no term leaves the table before another one covers it.
-/

set_option autoImplicit false

namespace LowRisc.Rocket.Decode

open LowRisc.Lib

theorem testBit_andNot (a b i : Nat) : (andNot a b).testBit i = (a.testBit i && !b.testBit i) := by
  unfold andNot
  rw [Nat.testBit_xor, Nat.testBit_and]
  cases a.testBit i <;> cases b.testBit i <;> rfl

theorem eq_zero_iff_testBit (n : Nat) : n = 0 ↔ ∀ i, n.testBit i = false := by
  constructor
  · rintro rfl i
    exact Nat.zero_testBit i
  · intro zeros
    apply Nat.eq_of_testBit_eq
    intro i
    rw [zeros i, Nat.zero_testBit]

/-! Ones. -/

theorem bitCount_two_mul_add (q r : Nat) (small : r < 2) : bitCount (2 * q + r) = bitCount q + r := by
  unfold bitCount
  rcases Nat.eq_zero_or_pos (2 * q + r) with zero | positive
  · obtain ⟨rfl, rfl⟩ : q = 0 ∧ r = 0 := by omega
    simp
  · rw [Nat.digits_def' (by decide) positive, List.sum_cons]
    have low : (2 * q + r) % 2 = r := by omega
    have high : (2 * q + r) / 2 = q := by omega
    rw [low, high, Nat.add_comm]

theorem bitCount_succ_le (a : Nat) : bitCount (a + 1) ≤ bitCount a + 1 := by
  induction a using Nat.strong_induction_on with
  | _ a ih =>
    obtain ⟨q, r, small, rfl⟩ : ∃ q r, r < 2 ∧ a = 2 * q + r := ⟨a / 2, a % 2, Nat.mod_lt _ (by decide), by omega⟩
    obtain rfl | rfl : r = 0 ∨ r = 1 := by omega
    · rw [bitCount_two_mul_add q 1 (by decide), bitCount_two_mul_add q 0 (by decide)]
    · have carry : 2 * q + 1 + 1 = 2 * (q + 1) + 0 := by omega
      have before := ih q (by omega)
      rw [carry, bitCount_two_mul_add (q + 1) 0 (by decide), bitCount_two_mul_add q 1 (by decide)]
      omega

/-- A carry loses a one. -/
theorem bitCount_add_two_pow_le (e a : Nat) (set : a.testBit e = true) : bitCount (a + 2 ^ e) ≤ bitCount a := by
  induction e generalizing a with
  | zero =>
    obtain ⟨q, rfl⟩ : ∃ q, a = 2 * q + 1 := ⟨a / 2, by
      rw [Nat.testBit_zero, decide_eq_true_eq] at set
      omega⟩
    have carry : 2 * q + 1 + 2 ^ 0 = 2 * (q + 1) + 0 := by omega
    rw [carry, bitCount_two_mul_add (q + 1) 0 (by decide), bitCount_two_mul_add q 1 (by decide)]
    exact bitCount_succ_le q
  | succ e ih =>
    obtain ⟨q, r, small, rfl⟩ : ∃ q r, r < 2 ∧ a = 2 * q + r := ⟨a / 2, a % 2, Nat.mod_lt _ (by decide), by omega⟩
    have half : (2 * q + r) / 2 = q := by omega
    have shift : 2 * q + r + 2 ^ (e + 1) = 2 * (q + 2 ^ e) + r := by
      rw [Nat.pow_succ]
      omega
    rw [Nat.testBit_succ, half] at set
    rw [shift, bitCount_two_mul_add _ r small, bitCount_two_mul_add q r small]
    exact Nat.add_le_add_right (ih q set) r

theorem bitCount_add_two_pow (e a : Nat) (clear : a.testBit e = false) : bitCount (a + 2 ^ e) = bitCount a + 1 := by
  induction e generalizing a with
  | zero =>
    obtain ⟨q, rfl⟩ : ∃ q, a = 2 * q + 0 := ⟨a / 2, by
      rw [Nat.testBit_zero, decide_eq_false_iff_not] at clear
      omega⟩
    have first : 2 * q + 0 + 2 ^ 0 = 2 * q + 1 := by omega
    rw [first, bitCount_two_mul_add q 1 (by decide), bitCount_two_mul_add q 0 (by decide)]
  | succ e ih =>
    obtain ⟨q, r, small, rfl⟩ : ∃ q r, r < 2 ∧ a = 2 * q + r := ⟨a / 2, a % 2, Nat.mod_lt _ (by decide), by omega⟩
    have half : (2 * q + r) / 2 = q := by omega
    have shift : 2 * q + r + 2 ^ (e + 1) = 2 * (q + 2 ^ e) + r := by
      rw [Nat.pow_succ]
      omega
    rw [Nat.testBit_succ, half] at clear
    rw [shift, bitCount_two_mul_add _ r small, bitCount_two_mul_add q r small, ih q clear]
    omega

theorem bitCount_le {n bits : Nat} (small : n < 2 ^ bits) : bitCount n ≤ bits := by
  induction bits generalizing n with
  | zero =>
    obtain rfl : n = 0 := by simpa using small
    simp [bitCount]
  | succ bits ih =>
    obtain ⟨q, r, low, rfl⟩ : ∃ q r, r < 2 ∧ n = 2 * q + r := ⟨n / 2, n % 2, Nat.mod_lt _ (by decide), by omega⟩
    rw [Nat.pow_succ] at small
    have half := @ih q (by omega)
    rw [bitCount_two_mul_add q r low]
    omega

theorem add_two_pow (e a : Nat) (clear : a.testBit e = false) : a + 2 ^ e = a ||| 2 ^ e := by
  induction e generalizing a with
  | zero =>
    apply Nat.eq_of_testBit_eq
    intro i
    rw [Nat.testBit_zero, decide_eq_false_iff_not] at clear
    cases i with
    | zero =>
      rw [Nat.testBit_or, Nat.testBit_zero, Nat.testBit_zero, Nat.testBit_zero, ← Bool.decide_or, decide_eq_decide]
      omega
    | succ i =>
      have half : (a + 2 ^ 0) / 2 = a / 2 := by omega
      rw [Nat.testBit_or, Nat.testBit_succ, Nat.testBit_succ, Nat.testBit_succ, half]
      simp
  | succ e ih =>
    apply Nat.eq_of_testBit_eq
    intro i
    rw [Nat.testBit_succ] at clear
    have half : (a + 2 ^ (e + 1)) / 2 = a / 2 + 2 ^ e := by
      rw [Nat.pow_succ]
      omega
    have half' : 2 ^ (e + 1) / 2 = 2 ^ e := by
      rw [Nat.pow_succ]
      omega
    cases i with
    | zero =>
      rw [Nat.testBit_or, Nat.testBit_zero, Nat.testBit_zero, Nat.testBit_zero, ← Bool.decide_or, decide_eq_decide, Nat.pow_succ]
      omega
    | succ i =>
      rw [Nat.testBit_or, Nat.testBit_succ, Nat.testBit_succ, Nat.testBit_succ, half, half', ih _ clear, Nat.testBit_or]

/-! Terms and their points. -/

namespace Term

def Holds (t : Term) (a : Nat) : Prop := ∀ i, t.mask.testBit i = false → a.testBit i = t.value.testBit i

/-- Free bits are zero in the value, and everything is within the width of the address. -/
structure Fits (bits : Nat) (t : Term) : Prop where
  free : ∀ i, t.mask.testBit i = true → t.value.testBit i = false
  value_lt : t.value < 2 ^ bits
  mask_lt : t.mask < 2 ^ bits

variable {t x y : Term}

theorem covers_iff : t.covers x = true ↔
    ∀ i, t.mask.testBit i = false → t.value.testBit i = x.value.testBit i ∧ x.mask.testBit i = false := by
  simp only [covers, decide_eq_true_eq, eq_zero_iff_testBit, Nat.testBit_or, testBit_andNot, Nat.testBit_xor]
  apply forall_congr'
  intro i
  cases t.mask.testBit i <;> cases x.mask.testBit i <;> cases t.value.testBit i <;> cases x.value.testBit i <;> simp

theorem covers_refl (t : Term) : t.covers t = true := covers_iff.mpr fun _ given => ⟨rfl, given⟩

theorem covers_trans (first : t.covers x = true) (second : x.covers y = true) : t.covers y = true := by
  rw [covers_iff] at *
  intro i given
  obtain ⟨same, given'⟩ := first i given
  obtain ⟨same', given''⟩ := second i given'
  exact ⟨same.trans same', given''⟩

theorem Holds.of_covers {a : Nat} (holds : x.Holds a) (covers : t.covers x = true) : t.Holds a := by
  intro i given
  obtain ⟨same, given'⟩ := covers_iff.mp covers i given
  rw [holds i given', same]

theorem intersects_iff : t.intersects x = true ↔ ∃ a, t.Holds a ∧ x.Holds a := by
  simp only [intersects, decide_eq_true_eq, eq_zero_iff_testBit, testBit_andNot, Nat.testBit_xor]
  constructor
  · intro agree
    -- the given bits of both, those of the first term first
    refine ⟨andNot t.value t.mask ||| (andNot x.value x.mask &&& t.mask), fun i given => ?_, fun i given => ?_⟩
    · simp [testBit_andNot, given]
    · have here := agree i
      rw [given] at here
      cases free : t.mask.testBit i with
      | true => simp [testBit_andNot, given, free]
      | false =>
        rw [free] at here
        simp only [Nat.testBit_or, testBit_andNot, Nat.testBit_and, free, given]
        revert here
        cases t.value.testBit i <;> cases x.value.testBit i <;> simp
  · rintro ⟨a, first, second⟩ i
    cases free : t.mask.testBit i with
    | true => simp
    | false =>
      cases free' : x.mask.testBit i with
      | true => simp
      | false => simp [← first i free, ← second i free']

/-- A term and its neighbour with bit `e` set make the term in which the bit is free. -/
theorem merge_spec {bits e : Nat} {a b : Term} (fits : a.Fits bits) (fits' : b.Fits bits) (mask : b.mask = a.mask)
    (value : b.value = a.value + 2 ^ e) (clear : a.value.testBit e = false) :
    (b.merge a).value = a.value ∧ (b.merge a).Fits bits ∧ (b.merge a).covers a = true ∧ (b.merge a).covers b = true
      ∧ ∀ p, (b.merge a).Holds p → a.Holds p ∨ b.Holds p := by
  have bit : b.value - a.value = 2 ^ e := by rw [value, Nat.add_sub_cancel_left]
  have ones : ∀ i, b.value.testBit i = (a.value.testBit i || decide (e = i)) := by
    intro i
    rw [value, add_two_pow e _ clear, Nat.testBit_or, Nat.testBit_two_pow]
  have given : b.mask.testBit e = false := by
    by_contra free
    have zero := fits'.free e (by simpa using free)
    rw [ones e] at zero
    simp at zero
  have rest : andNot b.value (2 ^ e) = a.value := by
    apply Nat.eq_of_testBit_eq
    intro i
    rw [testBit_andNot, ones i, Nat.testBit_two_pow]
    by_cases same : e = i
    · subst same
      simp [clear]
    · simp [same]
  have merged : b.merge a = ⟨a.value, b.mask ||| 2 ^ e⟩ := by
    simp only [merge, bit, rest]
  have free : ∀ i, (b.mask ||| 2 ^ e).testBit i = (b.mask.testBit i || decide (e = i)) := by
    intro i
    rw [Nat.testBit_or, Nat.testBit_two_pow]
  have small : 2 ^ e < 2 ^ bits := by
    have bound := fits'.value_lt
    rw [value] at bound
    exact Nat.lt_of_le_of_lt (Nat.le_add_left _ _) bound
  rw [merged]
  refine ⟨rfl, ⟨fun i set => ?_, fits.value_lt, Nat.or_lt_two_pow fits'.mask_lt small⟩, covers_iff.mpr fun i given' => ?_,
    covers_iff.mpr fun i given' => ?_, fun p holds => ?_⟩
  · simp only [free, Bool.or_eq_true, decide_eq_true_eq] at set
    rcases set with set | rfl
    · exact fits.free i (by rw [← mask, set])
    · exact clear
  · simp only [free, Bool.or_eq_false_iff] at given'
    exact ⟨rfl, by rw [← mask, given'.1]⟩
  · simp only [free, Bool.or_eq_false_iff] at given'
    exact ⟨by rw [ones i, given'.2, Bool.or_false], given'.1⟩
  · -- the address decides on the free bit
    cases side : p.testBit e with
    | false =>
      refine .inl fun i given' => ?_
      by_cases same : e = i
      · subst same
        rw [side, clear]
      · exact holds i (by simp [mask, given', same])
    | true =>
      refine .inr fun i given' => ?_
      by_cases same : e = i
      · subst same
        rw [side, ones]
        simp
      · rw [ones i, decide_eq_false same, Bool.or_false]
        exact holds i (by simp [free, given', same])

end Term

/-! Sweeps. -/

/-- A term of set `j` all of whose points may be in the cover. -/
structure Member (good : Nat → Prop) (bits j : Nat) (t : Term) : Prop where
  fits : t.Fits bits
  ones : bitCount t.value = j
  points : ∀ a, t.Holds a → good a

/-- Sets only grow, by members, and a term whose flag goes down is covered in the next column. -/
structure Extends (good : Nat → Prop) (bits : Nat) (s s' : Sweep) : Prop where
  grows : ∀ j t, t ∈ s.next j → t ∈ s'.next j
  fresh : ∀ j t, t ∈ s'.next j → t ∈ s.next j ∨ Member good bits j t
  covered : ∀ t ∈ s'.merged, t ∈ s.merged ∨ ∃ j u, u ∈ s'.next j ∧ u.covers t = true

section
variable {good : Nat → Prop} {bits : Nat}

theorem Extends.refl (s : Sweep) : Extends good bits s s := ⟨fun _ _ => id, fun _ _ => .inl, fun _ => .inl⟩

theorem Extends.trans {s s' s'' : Sweep} (first : Extends good bits s s') (second : Extends good bits s' s'') :
    Extends good bits s s'' where
  grows j t inside := second.grows j t (first.grows j t inside)
  fresh j t inside := by
    rcases second.fresh j t inside with before | member
    · exact first.fresh j t before
    · exact .inr member
  covered t flagged := by
    rcases second.covered t flagged with before | later
    · rcases first.covered t before with before | ⟨j, u, inside, covers⟩
      · exact .inl before
      · exact .inr ⟨j, u, second.grows j u inside, covers⟩
    · exact .inr later

theorem extends_add {j : Nat} {s : Sweep} {m : Term × List Term} (member : Member good bits j m.1)
    (covers : ∀ t ∈ m.2, m.1.covers t = true) : Extends good bits s (Sweep.add j s m) := by
  have here : m.1 ∈ (Sweep.add j s m).next j := by
    simp [Sweep.add]
  refine ⟨fun k t inside => ?_, fun k t inside => ?_, fun t flagged => ?_⟩
  · by_cases same : k = j
    · subst same
      simp [Sweep.add, inside]
    · simpa [Sweep.add, same] using inside
  · by_cases same : k = j
    · subst same
      simp only [Sweep.add, upd_same, List.mem_insert_iff] at inside
      rcases inside with rfl | before
      · exact .inr member
      · exact .inl before
    · simp only [Sweep.add, upd_of_ne same] at inside
      exact .inl inside
  · simp only [Sweep.add, List.mem_append] at flagged
    rcases flagged with now | before
    · exact .inr ⟨j, m.1, here, covers t now⟩
    · exact .inl before

theorem extends_addAll {j : Nat} {s : Sweep} (ms : List (Term × List Term))
    (right : ∀ m ∈ ms, Member good bits j m.1 ∧ ∀ t ∈ m.2, m.1.covers t = true) :
    Extends good bits s (ms.foldl (Sweep.add j) s) := by
  induction ms generalizing s with
  | nil => exact .refl s
  | cons m ms ih =>
    obtain ⟨member, covers⟩ := right m List.mem_cons_self
    rw [List.foldl_cons]
    apply (extends_add member covers).trans
    apply ih
    intro m' inside
    exact right m' (List.mem_cons_of_mem m inside)

theorem extends_fold {f : Sweep → Nat → Sweep} (js : List Nat) {s : Sweep}
    (right : ∀ s, ∀ j ∈ js, Extends good bits s (f s j)) : Extends good bits s (js.foldl f s) := by
  induction js generalizing s with
  | nil => exact .refl s
  | cons j js ih =>
    rw [List.foldl_cons]
    apply (right s j List.mem_cons_self).trans
    apply ih
    intro s j inside
    exact right s j (List.mem_cons_of_mem _ inside)

/-! Two terms of the table. -/

theorem similar_spec {a b : Term} (similar : b.similar a = true) (more : bitCount b.value = bitCount a.value + 1) :
    b.mask = a.mask ∧ ∃ e, b.value = a.value + 2 ^ e ∧ a.value.testBit e = false := by
  simp only [Term.similar, Bool.and_eq_true, decide_eq_true_eq] at similar
  obtain ⟨⟨mask, larger⟩, power⟩ := similar
  obtain ⟨e, power⟩ := (Nat.and_sub_one_eq_zero_iff_isPowerOfTwo (by omega)).mp power
  have value : b.value = a.value + 2 ^ e := by omega
  refine ⟨mask, e, value, ?_⟩
  by_contra set
  have fewer := bitCount_add_two_pow_le e a.value (by simpa using set)
  rw [value] at more
  omega

theorem Simplify.similarTerms_right {row : Nat → List Term} {j : Nat} (members : ∀ j, ∀ t ∈ row j, Member good bits j t) :
    ∀ m ∈ Simplify.similarTerms row j, Member good bits j m.1 ∧ ∀ t ∈ m.2, m.1.covers t = true := by
  intro m inside
  unfold Simplify.similarTerms at inside
  obtain ⟨a, first, inside⟩ := List.mem_flatMap.mp inside
  obtain ⟨b, second, rfl⟩ := List.mem_map.mp inside
  obtain ⟨second, similar⟩ := List.mem_filter.mp second
  have lower := members j a first
  have upper := members (j + 1) b second
  obtain ⟨mask, e, value, clear⟩ := similar_spec similar (by rw [upper.ones, lower.ones])
  obtain ⟨same, fits, covers, covers', points⟩ := Term.merge_spec lower.fits upper.fits mask value clear
  refine ⟨⟨fits, by rw [same, lower.ones], fun p holds => ?_⟩, fun t listed => ?_⟩
  · rcases points p holds with inner | inner
    · exact lower.points p inner
    · exact upper.points p inner
  · simp only [List.mem_cons, List.not_mem_nil, or_false] at listed
    rcases listed with rfl | rfl
    · exact covers'
    · exact covers

theorem Simplify.extends_sweep {i : Nat} {row : Nat → List Term} (members : ∀ j, ∀ t ∈ row j, Member good bits j t)
    (s : Sweep) : Extends good bits s (Simplify.sweep bits i row s) := by
  apply extends_fold
  intro s j _
  apply extends_addAll
  exact Simplify.similarTerms_right members

end

/-! Neighbours outside the maxterms. -/

def Spared (maxterms : List Term) (a : Nat) : Prop := ∀ m ∈ maxterms, ¬m.Holds a

theorem spared_of_intersects {maxterms : List Term} {t : Term} (apart : (maxterms.any fun m => m.intersects t) = false) {a : Nat}
    (holds : t.Holds a) : Spared maxterms a := by
  intro m listed inside
  rw [List.any_eq_false] at apart
  exact apart m listed (Term.intersects_iff.mpr ⟨a, inside, holds⟩)

namespace SimplifyDC

variable {maxterms : List Term} {bits : Nat} {a dc : Term}

theorem testBit_of_and {n e : Nat} : n &&& 2 ^ e = 0 ↔ n.testBit e = false := by
  rw [Nat.and_two_pow]
  cases n.testBit e <;> simp

theorem getImplicitDC_above (found : getImplicitDC maxterms a bits true = some dc) :
    ∃ e < bits, dc = ⟨a.value ||| 2 ^ e, a.mask⟩ ∧ a.value.testBit e = false ∧ a.mask.testBit e = false
      ∧ ∀ p, dc.Holds p → Spared maxterms p := by
  obtain ⟨e, inside, found⟩ := List.exists_of_findSome?_eq_some found
  obtain ⟨t, neighbour, apart⟩ := Option.bind_eq_some_iff.mp found
  split at apart
  · cases apart
  · rename_i outside
    cases apart
    simp only [Bool.true_and, Bool.not_true, Bool.false_and, Bool.false_eq_true, if_false] at neighbour
    split at neighbour
    · rename_i zero
      cases neighbour
      have clear := testBit_of_and.mp (of_decide_eq_true zero)
      rw [Nat.testBit_or, Bool.or_eq_false_iff] at clear
      exact ⟨e, List.mem_range.mp inside, rfl, clear.1, clear.2, fun p => spared_of_intersects (by simpa using outside)⟩
    · cases neighbour

theorem getImplicitDC_below (found : getImplicitDC maxterms a bits false = some dc) :
    ∃ e, dc = ⟨andNot a.value (2 ^ e), a.mask⟩ ∧ a.value.testBit e = true ∧ ∀ p, dc.Holds p → Spared maxterms p := by
  obtain ⟨e, -, found⟩ := List.exists_of_findSome?_eq_some found
  obtain ⟨t, neighbour, apart⟩ := Option.bind_eq_some_iff.mp found
  split at apart
  · cases apart
  · rename_i outside
    cases apart
    simp only [Bool.false_and, Bool.false_eq_true, if_false, Bool.not_false, Bool.true_and] at neighbour
    split at neighbour
    · rename_i one
      cases neighbour
      have set : a.value.testBit e = true := by
        by_contra clear
        exact of_decide_eq_true one (testBit_of_and.mpr (by simpa using clear))
      exact ⟨e, rfl, set, fun p => spared_of_intersects (by simpa using outside)⟩
    · cases neighbour

theorem implicitAbove_right {j : Nat} {set : List Term} (members : ∀ t ∈ set, Member (Spared maxterms) bits j t) :
    ∀ m ∈ implicitAbove maxterms bits set, Member (Spared maxterms) bits j m.1 ∧ ∀ t ∈ m.2, m.1.covers t = true := by
  intro m inside
  obtain ⟨a, listed, found⟩ := List.mem_filterMap.mp inside
  obtain ⟨dc, chosen, rfl⟩ := Option.map_eq_some_iff.mp found
  obtain ⟨e, bound, rfl, clear, given, spared⟩ := getImplicitDC_above chosen
  have member := members a listed
  have fits : Term.Fits bits ⟨a.value ||| 2 ^ e, a.mask⟩ := by
    refine ⟨fun i free => ?_, Nat.or_lt_two_pow member.fits.value_lt (Nat.pow_lt_pow_right (by decide) bound), member.fits.mask_lt⟩
    have apart : e ≠ i := by
      rintro rfl
      rw [given] at free
      cases free
    rw [Nat.testBit_or, member.fits.free i free, Nat.testBit_two_pow, decide_eq_false apart]
    rfl
  obtain ⟨same, fits', covers, -, points⟩ := Term.merge_spec member.fits fits rfl (add_two_pow e _ clear).symm clear
  refine ⟨⟨fits', by rw [same, member.ones], fun p holds => ?_⟩, fun t flagged => ?_⟩
  · rcases points p holds with inner | inner
    · exact member.points p inner
    · exact spared p inner
  · rw [List.mem_singleton] at flagged
    rw [flagged]
    exact covers

theorem implicitBelow_right {j : Nat} {set : List Term} (members : ∀ t ∈ set, Member (Spared maxterms) bits (j + 1) t) :
    ∀ m ∈ implicitBelow maxterms bits set, Member (Spared maxterms) bits j m.1 ∧ ∀ t ∈ m.2, m.1.covers t = true := by
  intro m inside
  obtain ⟨a, listed, found⟩ := List.mem_filterMap.mp inside
  obtain ⟨dc, chosen, rfl⟩ := Option.map_eq_some_iff.mp found
  obtain ⟨e, rfl, set, spared⟩ := getImplicitDC_below chosen
  have member := members a listed
  have clear : (andNot a.value (2 ^ e)).testBit e = false := by
    rw [testBit_andNot, Nat.testBit_two_pow, decide_eq_true rfl]
    simp
  have value : a.value = andNot a.value (2 ^ e) + 2 ^ e := by
    rw [add_two_pow e _ clear]
    apply Nat.eq_of_testBit_eq
    intro i
    rw [Nat.testBit_or, testBit_andNot, Nat.testBit_two_pow]
    by_cases same : e = i
    · subst same
      simp [set]
    · simp [same]
  have fits : Term.Fits bits ⟨andNot a.value (2 ^ e), a.mask⟩ := by
    refine ⟨fun i free => ?_, ?_, member.fits.mask_lt⟩
    · rw [testBit_andNot, member.fits.free i free]
      rfl
    · have bound := member.fits.value_lt
      rw [value] at bound
      exact Nat.lt_of_le_of_lt (Nat.le_add_right _ _) bound
  obtain ⟨same, fits', -, covers, points⟩ := Term.merge_spec fits member.fits rfl value clear
  have ones := member.ones
  rw [value, bitCount_add_two_pow e _ clear] at ones
  refine ⟨⟨fits', by rw [same]; exact Nat.succ.inj ones, fun p holds => ?_⟩, fun t flagged => ?_⟩
  · rcases points p holds with inner | inner
    · exact spared p inner
    · exact member.points p inner
  · rw [List.mem_singleton] at flagged
    rw [flagged]
    exact covers

theorem extends_sweep {i : Nat} {row : Nat → List Term} (members : ∀ j, ∀ t ∈ row j, Member (Spared maxterms) bits j t)
    (s : Sweep) : Extends (Spared maxterms) bits s (sweep maxterms bits i row s) := by
  apply (Simplify.extends_sweep members s).trans
  apply extends_fold
  intro s j _
  -- the sets are filtered by the flags as they are then
  refine (extends_addAll _ (implicitAbove_right fun t inside => ?_)).trans
    (extends_addAll _ (implicitBelow_right fun t inside => ?_))
  · exact members j t (List.mem_filter.mp inside).1
  · exact members (j + 1) t (List.mem_filter.mp inside).1

end SimplifyDC

/-! The whole table. -/

section Table

variable {good : Nat → Prop} {bits : Nat} {implicants : List Term} {sweep : Nat → (Nat → List Term) → Sweep → Sweep}

theorem mem_cols {t : Term} {i j : Nat} :
    t ∈ cols implicants i j ↔ t ∈ implicants ∧ bitCount t.mask = i ∧ bitCount t.value = j := by
  simp [cols]

variable (fits : ∀ t ∈ implicants, t.Fits bits ∧ ∀ a, t.Holds a → good a)
  (right : ∀ {row : Nat → List Term}, (∀ j, ∀ t ∈ row j, Member good bits j t) → ∀ i s, Extends good bits s (sweep i row s))
  (last : ∀ row s, sweep bits row s = s)

include fits

theorem members_cols (i : Nat) : ∀ j, ∀ t ∈ cols implicants i j, Member good bits j t := by
  intro j t inside
  obtain ⟨listed, -, ones⟩ := mem_cols.mp inside
  exact ⟨(fits t listed).1, ones, (fits t listed).2⟩

include right

theorem members_next {i : Nat} {row : Nat → List Term} (members : ∀ j, ∀ t ∈ row j, Member good bits j t) :
    ∀ j, ∀ t ∈ (sweep i row ⟨cols implicants (i + 1), []⟩).next j, Member good bits j t := by
  intro j t inside
  rcases (right members i ⟨cols implicants (i + 1), []⟩).fresh j t inside with before | member
  · exact members_cols fits (i + 1) j t before
  · exact member

theorem primes_sound (n i : Nat) {row : Nat → List Term} (members : ∀ j, ∀ t ∈ row j, Member good bits j t) :
    ∀ p ∈ primes implicants bits sweep n i row, p.Fits bits ∧ ∀ a, p.Holds a → good a := by
  induction n generalizing i row with
  | zero =>
    intro p inside
    cases inside
  | succ n ih =>
    intro p inside
    rw [primes] at inside
    rcases List.mem_append.mp inside with now | later
    · obtain ⟨j, -, listed⟩ := List.mem_flatMap.mp (List.mem_filter.mp now).1
      exact ⟨(members j p listed).fits, (members j p listed).points⟩
    · exact ih (i + 1) (members_next fits right members) p later

include last

/-- No term is lost: it is prime, or a term of the next column covers it. -/
theorem primes_complete (n i : Nat) {row : Nat → List Term} (members : ∀ j, ∀ t ∈ row j, Member good bits j t)
    (columns : i + n = bits + 1) : ∀ t, (∃ j, t ∈ row j) ∨ (t ∈ implicants ∧ i < bitCount t.mask) →
      n ≠ 0 → ∃ p ∈ primes implicants bits sweep n i row, p.covers t = true := by
  induction n generalizing i row with
  | zero => exact fun _ _ none => absurd rfl none
  | succ n ih =>
    intro t there _
    have extends' := right members i ⟨cols implicants (i + 1), []⟩
    have next := ih (i + 1) (members_next fits right (i := i) members) (by omega)
    rw [primes]
    rcases there with ⟨j, inside⟩ | ⟨listed, more⟩
    · cases flag : (sweep i row ⟨cols implicants (i + 1), []⟩).prime t with
      | true =>
        have low := bitCount_le (members j t inside).fits.value_lt
        rw [(members j t inside).ones] at low
        refine ⟨t, List.mem_append_left _ (List.mem_filter.mpr ⟨List.mem_flatMap.mpr ⟨j, ?_, inside⟩, flag⟩), t.covers_refl⟩
        exact List.mem_range.mpr (by omega)
      | false =>
        have merged : t ∈ (sweep i row ⟨cols implicants (i + 1), []⟩).merged := by simpa [Sweep.prime] using flag
        rcases extends'.covered t merged with none | ⟨k, u, later, covers⟩
        · cases none
        · -- the last column is not merged any more
          have inner : n ≠ 0 := by
            rintro rfl
            obtain rfl : i = bits := by omega
            rw [last] at merged
            cases merged
          obtain ⟨p, found, covers'⟩ := next u (.inl ⟨k, later⟩) inner
          exact ⟨p, List.mem_append_right _ found, Term.covers_trans covers' covers⟩
    · have few := bitCount_le (fits t listed).1.mask_lt
      have later : (∃ j, t ∈ (sweep i row ⟨cols implicants (i + 1), []⟩).next j) ∨ t ∈ implicants ∧ i + 1 < bitCount t.mask := by
        by_cases here : bitCount t.mask = i + 1
        · exact .inl ⟨bitCount t.value, extends'.grows _ t (mem_cols.mpr ⟨listed, here, rfl⟩)⟩
        · exact .inr ⟨listed, by omega⟩
      obtain ⟨p, found, covers⟩ := next t later (by omega)
      exact ⟨p, List.mem_append_right _ found, covers⟩

/-- The prime implicants have good points only and cover the implicants. -/
theorem primes_spec : (∀ p ∈ sorted (primes implicants bits sweep (bits + 1) 0 (cols implicants 0)),
      p.Fits bits ∧ ∀ a, p.Holds a → good a) ∧
    ∀ t ∈ implicants, ∃ p ∈ sorted (primes implicants bits sweep (bits + 1) 0 (cols implicants 0)), p.covers t = true := by
  have members := members_cols fits 0
  constructor
  · intro p inside
    exact primes_sound fits right (bits + 1) 0 members p (List.mem_mergeSort.mp inside)
  · intro t listed
    have there : (∃ j, t ∈ cols implicants 0 j) ∨ t ∈ implicants ∧ 0 < bitCount t.mask := by
      rcases Nat.eq_zero_or_pos (bitCount t.mask) with zero | more
      · exact .inl ⟨bitCount t.value, mem_cols.mpr ⟨listed, zero, rfl⟩⟩
      · exact .inr ⟨listed, more⟩
    obtain ⟨p, inside, covers⟩ := primes_complete fits right last (bits + 1) 0 members (by omega) t there (by omega)
    exact ⟨p, List.mem_mergeSort.mpr inside, covers⟩

end Table

end LowRisc.Rocket.Decode
