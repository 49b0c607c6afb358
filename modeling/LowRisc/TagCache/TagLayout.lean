import LowRisc.TagCache.TagUtil
import Mathlib.Tactic.Ring

/-! Where the tag table and the two tag maps lie.

The addresses of the three levels are computed from the offset into the memory, while the byte
and bit of a row are cut out of the physical address itself.
-/

set_option autoImplicit false

namespace LowRisc.TagCache

open LowRisc.Chisel

namespace TagUtil

variable (tg : TagUtil)

/-- The physical addresses whose words have tags. -/
def Tagged (addr : Nat) : Prop := tg.memBase ≤ addr ∧ addr < tg.tableBase

def blockOf (addr : Nat) : Nat := addr / 2 ^ tg.blockOffBits

/-- The first bit of the tag table that holds tags of the block of `addr`: the byte `pa2ttr` of
the row of `pa2tta`. -/
def tableBit (rbo addr : Nat) : Nat :=
  let block := addr / tg.cacheBlockBytes * tg.cacheBlockBytes
  8 * (tg.pa2tta block / 2 ^ rbo * 2 ^ rbo + tg.pa2ttr block rbo)

/-- The bit of tag map 0 that stands for `addr`: byte address and bit of the row. -/
def tm0Bit (rbo addr : Nat) : Nat × Nat := (tg.pa2tm0a addr, tg.pa2tm0b addr rbo)
def tm1Bit (rbo addr : Nat) : Nat × Nat := (tg.pa2tm1a addr, tg.pa2tm1b addr rbo)

/-- The group of `mapRatio` bits of the tag table with the entry of `addr`, and the group of tag
map 0 with the bit of `addr`. -/
def tableChunk (addr : Nat) : Nat := 8 * (tg.pa2tta addr - tg.tableBase) / tg.mapRatio
def map0Chunk (rbo addr : Nat) : Nat :=
  (8 * (tg.pa2tm0a addr - tg.map0Base) + tg.pa2tm0b addr rbo % 8) / tg.mapRatio

structure Layout (rbo : Nat) : Prop where
  table : ∀ a, tg.Tagged a → tg.tableBase ≤ tg.pa2tta a ∧ tg.pa2tta a < tg.map0Base
  map0 : ∀ a, tg.Tagged a → tg.map0Base ≤ tg.pa2tm0a a ∧ tg.pa2tm0a a < tg.map1Base
  map1 : ∀ a, tg.Tagged a → tg.map1Base ≤ tg.pa2tm1a a ∧ tg.pa2tm1a a < tg.memBase + tg.memSize
  apart : ∀ a b, tg.Tagged a → tg.Tagged b → tg.blockOf (tg.pa2tta a) ≠ tg.blockOf (tg.pa2tm0a b)
    ∧ tg.blockOf (tg.pa2tta a) ≠ tg.blockOf (tg.pa2tm1a b)
    ∧ tg.blockOf (tg.pa2tm0a a) ≠ tg.blockOf (tg.pa2tm1a b)
  classes : ∀ a, tg.Tagged a → tg.isMap (tg.pa2tta a) = false ∧ tg.isTop (tg.pa2tta a) = false
    ∧ tg.isMap (tg.pa2tm0a a) = true ∧ tg.isTop (tg.pa2tm0a a) = false
    ∧ tg.isMap (tg.pa2tm1a a) = true ∧ tg.isTop (tg.pa2tm1a a) = true
  disjoint : ∀ a b, tg.Tagged a → tg.Tagged b → a / tg.cacheBlockBytes ≠ b / tg.cacheBlockBytes →
    tg.tableBit rbo a + tg.cacheBlockTagBits ≤ tg.tableBit rbo b
      ∨ tg.tableBit rbo b + tg.cacheBlockTagBits ≤ tg.tableBit rbo a
  tm0Bits : ∀ a b, tg.Tagged a → tg.Tagged b →
    (tg.tm0Bit rbo a = tg.tm0Bit rbo b ↔ tg.tableChunk a = tg.tableChunk b)
  tm1Bits : ∀ a b, tg.Tagged a → tg.Tagged b →
    (tg.tm1Bit rbo a = tg.tm1Bit rbo b ↔ tg.map0Chunk rbo a = tg.map0Chunk rbo b)

/-- The sizes as powers of two: `A` bytes are left of tag map 0 for each byte ratio of the table,
and `S` is the size of tag map 1. -/
structure Geometry (tg : TagUtil) (t m b A S : Nat) : Prop where
  untag : tg.unTagBits = t
  unmap : tg.unMapBits = m
  offset : tg.blockOffBits = b
  bytes : tg.cacheBlockBytes = 2 ^ b
  ratio : tg.mapRatio = 2 ^ m
  tags : tg.cacheBlockTagBits = 8 * 2 ^ (b - t)
  size : tg.memSize = A * 2 ^ t * 2 ^ m * 2 ^ t
  table : tg.tableSize = A * 2 ^ t * 2 ^ m
  map0 : tg.map0Size = A * 2 ^ t
  map1 : tg.map1Size = S
  top : S * 2 ^ m = A * 2 ^ t
  keys : 2 ^ log2Up tg.map0Size = A * 2 ^ t
  positive : 0 < S
  order : t ≤ m
  low : 3 ≤ t
  within : t ≤ b
  blocks : 2 ^ b ∣ A
  base : 2 ^ b ∣ tg.memBase
  aligned : 2 ^ (t + m + m - 3) ∣ tg.memBase

namespace Geometry

variable {tg} {t m b A S addr : Nat} (geo : tg.Geometry t m b A S)

include geo

theorem sizes : S ≤ A ∧ A ≤ A * 2 ^ t ∧ A * 2 ^ t ≤ A * 2 ^ m ∧ A * 2 ^ m ≤ A * 2 ^ t * 2 ^ m
    ∧ A * 2 ^ t * 2 ^ m ≤ A * 2 ^ t * 2 ^ m * 2 ^ t := by
  have ratios : A * 2 ^ t ≤ A * 2 ^ m := Nat.mul_le_mul_left A (Nat.pow_le_pow_right (by decide) geo.order)
  have least : A ≤ A * 2 ^ t := Nat.le_mul_of_pos_right A (Nat.two_pow_pos t)
  refine ⟨?_, least, ratios, Nat.mul_le_mul_right _ least, Nat.le_mul_of_pos_right _ (Nat.two_pow_pos t)⟩
  rw [← geo.top] at ratios
  exact Nat.le_of_mul_le_mul_right ratios (Nat.two_pow_pos m)

theorem offset_lt (tagged : tg.Tagged addr) :
    addr - tg.memBase < A * 2 ^ t * 2 ^ m * 2 ^ t - A * 2 ^ t * 2 ^ m := by
  have above := tagged.1
  have below := tagged.2
  have order := geo.sizes
  rw [tableBase, geo.size, geo.table] at below
  omega

theorem pa2tta_eq : tg.pa2tta addr = (addr - tg.memBase) / 2 ^ t + tg.tableBase := by
  rw [pa2tta, geo.untag]

theorem pa2tm0a_eq : tg.pa2tm0a addr = (addr - tg.memBase) / 2 ^ (t + m) + tg.map0Base := by
  rw [pa2tm0a, geo.untag, geo.unmap]

theorem pa2tm1a_eq : tg.pa2tm1a addr = (addr - tg.memBase) / 2 ^ (t + m + m) + tg.map1Base := by
  rw [pa2tm1a, geo.untag, geo.unmap]

theorem pa2tta_lt (tagged : tg.Tagged addr) : tg.pa2tta addr < tg.memBase + tg.memSize - A * 2 ^ m := by
  have part : (addr - tg.memBase) / 2 ^ t < A * 2 ^ t * 2 ^ m - A * 2 ^ m := by
    rw [Nat.div_lt_iff_lt_mul (Nat.two_pow_pos t), Nat.sub_mul, Nat.mul_right_comm A (2 ^ m)]
    exact geo.offset_lt tagged
  have order := geo.sizes
  rw [geo.pa2tta_eq, tableBase, geo.size, geo.table]
  omega

theorem map0_offset_lt (tagged : tg.Tagged addr) : (addr - tg.memBase) / 2 ^ (t + m) < A * 2 ^ t - A := by
  rw [Nat.div_lt_iff_lt_mul (Nat.two_pow_pos _), Nat.sub_mul, Nat.pow_add]
  have same : A * 2 ^ t * (2 ^ t * 2 ^ m) - A * (2 ^ t * 2 ^ m) =
      A * 2 ^ t * 2 ^ m * 2 ^ t - A * 2 ^ t * 2 ^ m := by ring_nf
  rw [same]
  exact geo.offset_lt tagged

theorem map1_offset_lt (tagged : tg.Tagged addr) : (addr - tg.memBase) / 2 ^ (t + m + m) < S := by
  have whole : S * 2 ^ (t + m + m) = A * 2 ^ t * 2 ^ m * 2 ^ t := by
    rw [← geo.top, Nat.pow_add, Nat.pow_add]
    ring
  rw [Nat.div_lt_iff_lt_mul (Nat.two_pow_pos _), whole]
  have := geo.offset_lt tagged
  omega

theorem pa2tm0a_lt (tagged : tg.Tagged addr) : tg.pa2tm0a addr < tg.memBase + tg.memSize - A := by
  have part := geo.map0_offset_lt tagged
  have order := geo.sizes
  rw [geo.pa2tm0a_eq, map0Base, geo.size, geo.map0]
  omega

theorem pa2tm1a_lt (tagged : tg.Tagged addr) : tg.pa2tm1a addr < tg.memBase + tg.memSize := by
  have part := geo.map1_offset_lt tagged
  have order := geo.sizes
  rw [geo.pa2tm1a_eq, map1Base, geo.size, geo.map1]
  omega

/-! Blocks. -/

theorem end_aligned : 2 ^ b ∣ tg.memBase + tg.memSize := by
  rw [geo.size]
  apply Nat.dvd_add geo.base
  rw [Nat.mul_assoc, Nat.mul_assoc]
  exact Nat.dvd_mul_right_of_dvd geo.blocks _

theorem blockOf_lt {border low high : Nat} (aligned : 2 ^ b ∣ border) (front : low < border) (behind : border ≤ high) :
    tg.blockOf low < tg.blockOf high := by
  rw [blockOf, blockOf, geo.offset]
  obtain ⟨k, rfl⟩ := aligned
  have first : low / 2 ^ b < k := Nat.div_lt_of_lt_mul front
  have second : k ≤ high / 2 ^ b := (Nat.le_div_iff_mul_le (Nat.two_pow_pos b)).mpr (by rwa [Nat.mul_comm])
  omega

theorem table_before_map0 (tagged : tg.Tagged addr) {high : Nat} (behind : tg.map0Base ≤ high) :
    tg.blockOf (tg.pa2tta addr) < tg.blockOf high := by
  have order := geo.sizes
  apply geo.blockOf_lt (Nat.dvd_sub geo.end_aligned (Nat.dvd_mul_right_of_dvd geo.blocks (2 ^ m)))
    (geo.pa2tta_lt tagged)
  rw [map0Base, geo.map0] at behind
  omega

theorem map0_before_map1 (tagged : tg.Tagged addr) {high : Nat} (behind : tg.map1Base ≤ high) :
    tg.blockOf (tg.pa2tm0a addr) < tg.blockOf high := by
  have order := geo.sizes
  apply geo.blockOf_lt (Nat.dvd_sub geo.end_aligned geo.blocks) (geo.pa2tm0a_lt tagged)
  rw [map1Base, geo.map1] at behind
  omega

theorem map0Base_le : tg.map0Base ≤ tg.map1Base := by
  have order := geo.sizes
  rw [map0Base, map1Base, geo.map0, geo.map1]
  omega

theorem map0Base_le_pa2tm0a (addr : Nat) : tg.map0Base ≤ tg.pa2tm0a addr := geo.pa2tm0a_eq ▸ Nat.le_add_left _ _

theorem map1Base_le_pa2tm1a (addr : Nat) : tg.map1Base ≤ tg.pa2tm1a addr := geo.pa2tm1a_eq ▸ Nat.le_add_left _ _

omit geo in
theorem isMap_eq (addr : Nat) : tg.isMap addr = decide (tg.blockOf tg.map0Base ≤ tg.blockOf addr) := rfl

omit geo in
theorem isTop_eq (addr : Nat) : tg.isTop addr = decide (tg.blockOf tg.map1Base ≤ tg.blockOf addr) := rfl

omit geo in
theorem blockOf_mono (tg : TagUtil) {low high : Nat} (order : low ≤ high) : tg.blockOf low ≤ tg.blockOf high :=
  Nat.div_le_div_right order

theorem classes (tagged : tg.Tagged addr) :
    tg.isMap (tg.pa2tta addr) = false ∧ tg.isTop (tg.pa2tta addr) = false
      ∧ tg.isMap (tg.pa2tm0a addr) = true ∧ tg.isTop (tg.pa2tm0a addr) = false
      ∧ tg.isMap (tg.pa2tm1a addr) = true ∧ tg.isTop (tg.pa2tm1a addr) = true := by
  have table := geo.table_before_map0 tagged le_rfl
  have map0 := geo.map0_before_map1 tagged le_rfl
  have bases := blockOf_mono tg geo.map0Base_le
  have low := blockOf_mono tg (geo.map0Base_le_pa2tm0a addr)
  have high := blockOf_mono tg (geo.map1Base_le_pa2tm1a addr)
  simp only [isMap_eq, isTop_eq, decide_eq_true_eq, decide_eq_false_iff_not]
  omega

/-! Map bits. -/

omit geo in
theorem group_eq_iff {base d a c : Nat} (w : Nat) (aligned : d ∣ base) (first : base ≤ a) (second : base ≤ c) :
    ((a - base) / (d * 8) = (c - base) / (d * 8) ∧ a / d % (8 * w) = c / d % (8 * w)) ↔
      (a - base) / d = (c - base) / d := by
  rcases Nat.eq_zero_or_pos d with rfl | some
  · simp
  obtain ⟨k, rfl⟩ := aligned
  have shift : ∀ {e : Nat}, d * k ≤ e → e / d = (e - d * k) / d + k := by
    intro e above
    obtain ⟨x, rfl⟩ := Nat.exists_eq_add_of_le above
    rw [Nat.add_sub_cancel_left, Nat.add_comm, Nat.add_mul_div_left _ _ some]
  rw [shift first, shift second, ← Nat.div_div_eq_div_mul, ← Nat.div_div_eq_div_mul]
  generalize (a - d * k) / d = u
  generalize (c - d * k) / d = v
  constructor
  · rintro ⟨byte, bits⟩
    have low : (u + k) % 8 = (v + k) % 8 := by
      rw [← Nat.mod_mod_of_dvd (u + k) (Nat.dvd_mul_right 8 w), bits, Nat.mod_mod_of_dvd _ (Nat.dvd_mul_right 8 w)]
    omega
  · rintro rfl
    exact ⟨rfl, rfl⟩

omit geo in
theorem bits_eq {addr k n : Nat} (low : 3 ≤ k) :
    bits addr (k + n - 1) (k - 3) = addr / 2 ^ (k - 3) % (8 * 2 ^ n) := by
  rw [bits, show k + n - 1 + 1 - (k - 3) = 3 + n by omega, Nat.pow_add]

omit geo in
theorem two_pow_eight {k : Nat} (low : 3 ≤ k) : 2 ^ k = 2 ^ (k - 3) * 8 := by
  rw [show (8 : Nat) = 2 ^ 3 by rfl, ← Nat.pow_add]
  congr 1
  omega

omit geo in
theorem group_div {x y r k n : Nat} (low : 3 ≤ k) (small : r < 8) (place : y = x / 2 ^ n) :
    (8 * y + r) / 2 ^ k = x / 2 ^ (n + k - 3) := by
  rw [two_pow_eight low, Nat.mul_comm (2 ^ (k - 3)), ← Nat.div_div_eq_div_mul, show (8 * y + r) / 8 = y by omega, place,
    Nat.div_div_eq_div_mul, ← Nat.pow_add, show n + (k - 3) = n + k - 3 by omega]

theorem tableChunk_eq : tg.tableChunk addr = (addr - tg.memBase) / 2 ^ (t + m - 3) := by
  have low := geo.low
  have order := geo.order
  rw [tableChunk, geo.ratio, geo.pa2tta_eq, Nat.add_sub_cancel]
  exact group_div (r := 0) (by omega) (by decide) rfl

theorem map0Chunk_eq (rbo : Nat) : tg.map0Chunk rbo addr = (addr - tg.memBase) / 2 ^ (t + m + m - 3) := by
  have low := geo.low
  have order := geo.order
  rw [map0Chunk, geo.ratio, geo.pa2tm0a_eq, Nat.add_sub_cancel]
  exact group_div (by omega) (Nat.mod_lt _ (by decide)) rfl

theorem tm0Bit_eq_iff {rbo a c : Nat} (first : tg.memBase ≤ a) (second : tg.memBase ≤ c) :
    tg.tm0Bit rbo a = tg.tm0Bit rbo c ↔ (a - tg.memBase) / 2 ^ (t + m - 3) = (c - tg.memBase) / 2 ^ (t + m - 3) := by
  have low := geo.low
  have aligned : 2 ^ (t + m - 3) ∣ tg.memBase :=
    Nat.dvd_trans (Nat.pow_dvd_pow 2 (by omega)) geo.aligned
  rw [tm0Bit, tm0Bit, Prod.mk.injEq, geo.pa2tm0a_eq, geo.pa2tm0a_eq, Nat.add_right_cancel_iff, pa2tm0b, pa2tm0b, geo.untag,
    geo.unmap, bits_eq (by omega), bits_eq (by omega), two_pow_eight (show 3 ≤ t + m by omega)]
  exact group_eq_iff (2 ^ rbo) aligned first second

theorem tm1Bit_eq_iff {rbo a c : Nat} (first : tg.memBase ≤ a) (second : tg.memBase ≤ c) :
    tg.tm1Bit rbo a = tg.tm1Bit rbo c ↔
      (a - tg.memBase) / 2 ^ (t + m + m - 3) = (c - tg.memBase) / 2 ^ (t + m + m - 3) := by
  have low := geo.low
  rw [tm1Bit, tm1Bit, Prod.mk.injEq, geo.pa2tm1a_eq, geo.pa2tm1a_eq, Nat.add_right_cancel_iff, pa2tm1b, pa2tm1b, geo.untag,
    geo.unmap, bits_eq (by omega), bits_eq (by omega), two_pow_eight (show 3 ≤ t + m + m by omega)]
  exact group_eq_iff (2 ^ rbo) geo.aligned first second

/-! Entries of the tag table. -/

omit geo in
theorem row_place_inj {i j k T w : Nat} (positive : 0 < w) (first : k ≤ i) (second : k ≤ j)
    (same : (i - k + T) / w * w + i % w = (j - k + T) / w * w + j % w) : i = j := by
  have rows : (i - k + T) / w = (j - k + T) / w := by
    have divided := congrArg (· / w) same
    simpa [Nat.add_comm _ (_ % w), Nat.add_mul_div_right _ _ positive, Nat.div_eq_of_lt (Nat.mod_lt _ positive)]
      using divided
  have places : i % w = j % w := by
    rw [rows] at same
    omega
  wlog order : i ≤ j generalizing i j
  · exact (this second first same.symm rows.symm places.symm (by omega)).symm
  obtain ⟨e, rfl⟩ : ∃ e, j = i + w * e := by
    have split := Nat.div_add_mod i w
    have split' := Nat.div_add_mod j w
    refine ⟨j / w - i / w, ?_⟩
    have less := Nat.mul_le_mul_left w (Nat.div_le_div_right (c := w) order)
    rw [Nat.mul_sub]
    omega
  rw [show i + w * e - k + T = i - k + T + w * e by omega, Nat.add_mul_div_left _ _ positive] at rows
  have none : e = 0 := by omega
  rw [none, Nat.mul_zero, Nat.add_zero]

theorem tableBit_eq {rbo : Nat} (rows : tg.cacheBlockTagBits ≤ 8 * 2 ^ rbo) (tagged : tg.Tagged addr) :
    tg.tableBit rbo addr = 8 * 2 ^ (b - t) *
      ((addr / 2 ^ b - tg.memBase / 2 ^ b + tg.tableBase / 2 ^ (b - t)) / 2 ^ (rbo - (b - t)) * 2 ^ (rbo - (b - t))
        + addr / 2 ^ b % 2 ^ (rbo - (b - t))) := by
  have within := geo.within
  have narrow : b - t ≤ rbo := by
    rw [geo.tags] at rows
    exact (Nat.pow_le_pow_iff_right (show 1 < 2 by decide)).mp (Nat.le_of_mul_le_mul_left rows (by decide))
  have block : 2 ^ b = 2 ^ (b - t) * 2 ^ t := by rw [← Nat.pow_add, Nat.sub_add_cancel within]
  have row : 2 ^ rbo = 2 ^ (b - t) * 2 ^ (rbo - (b - t)) := by rw [← Nat.pow_add, Nat.add_sub_cancel' narrow]
  have table : 2 ^ (b - t) ∣ tg.tableBase := by
    apply Nat.dvd_trans (Nat.pow_dvd_pow 2 (Nat.sub_le b t))
    rw [tableBase, geo.table]
    apply Nat.dvd_sub geo.end_aligned
    rw [Nat.mul_assoc]
    exact Nat.dvd_mul_right_of_dvd geo.blocks _
  obtain ⟨k, base⟩ := geo.base
  obtain ⟨T, table⟩ := table
  have above : k ≤ addr / 2 ^ b := by
    rw [Nat.le_div_iff_mul_le (Nat.two_pow_pos b), Nat.mul_comm, ← base]
    exact tagged.1
  have start : (addr / 2 ^ b * 2 ^ b - tg.memBase) / 2 ^ t = 2 ^ (b - t) * (addr / 2 ^ b - k) := by
    rw [base, Nat.mul_comm (addr / 2 ^ b), ← Nat.mul_sub, block, Nat.mul_right_comm,
      Nat.mul_div_cancel _ (Nat.two_pow_pos t)]
  have place : addr / 2 ^ b * 2 ^ b / 2 ^ t = 2 ^ (b - t) * (addr / 2 ^ b) := by
    rw [Nat.mul_comm (addr / 2 ^ b), block, Nat.mul_right_comm, Nat.mul_div_cancel _ (Nat.two_pow_pos t)]
  simp only [tableBit, geo.bytes, geo.pa2tta_eq, pa2ttr, geo.untag, bits, start, place]
  have low := geo.low
  rw [show t + rbo - 1 + 1 - t = rbo by omega, row, table, base, ← Nat.mul_add, Nat.mul_div_mul_left _ _ (Nat.two_pow_pos _),
    Nat.mul_mod_mul_left, Nat.mul_div_cancel_left _ (Nat.two_pow_pos _), Nat.mul_div_cancel_left _ (Nat.two_pow_pos _)]
  ring

theorem disjoint {rbo a c : Nat} (rows : tg.cacheBlockTagBits ≤ 8 * 2 ^ rbo) (first : tg.Tagged a) (second : tg.Tagged c)
    (apart : a / tg.cacheBlockBytes ≠ c / tg.cacheBlockBytes) :
    tg.tableBit rbo a + tg.cacheBlockTagBits ≤ tg.tableBit rbo c
      ∨ tg.tableBit rbo c + tg.cacheBlockTagBits ≤ tg.tableBit rbo a := by
  rw [geo.bytes] at apart
  rw [geo.tableBit_eq rows first, geo.tableBit_eq rows second, geo.tags]
  have above : ∀ {e : Nat}, tg.Tagged e → tg.memBase / 2 ^ b ≤ e / 2 ^ b := fun tagged => Nat.div_le_div_right tagged.1
  have places := mt (row_place_inj (T := tg.tableBase / 2 ^ (b - t)) (Nat.two_pow_pos (rbo - (b - t))) (above first)
    (above second)) apart
  rcases Nat.lt_or_gt_of_ne places with less | more
  · left
    rw [← Nat.mul_succ]
    exact Nat.mul_le_mul_left _ less
  · right
    rw [← Nat.mul_succ]
    exact Nat.mul_le_mul_left _ more

theorem layout {rbo : Nat} (rows : tg.cacheBlockTagBits ≤ 8 * 2 ^ rbo) : tg.Layout rbo where
  table a tagged := by
    have order := geo.sizes
    have clear := geo.pa2tta_lt tagged
    refine ⟨geo.pa2tta_eq ▸ Nat.le_add_left _ _, ?_⟩
    rw [map0Base, geo.map0]
    omega
  map0 a tagged := by
    have order := geo.sizes
    have clear := geo.pa2tm0a_lt tagged
    refine ⟨geo.map0Base_le_pa2tm0a a, ?_⟩
    rw [map1Base, geo.map1]
    omega
  map1 a tagged := ⟨geo.map1Base_le_pa2tm1a a, geo.pa2tm1a_lt tagged⟩
  apart a c first _ :=
    ⟨(geo.table_before_map0 first (geo.map0Base_le_pa2tm0a c)).ne,
      (geo.table_before_map0 first (geo.map0Base_le.trans (geo.map1Base_le_pa2tm1a c))).ne,
      (geo.map0_before_map1 first (geo.map1Base_le_pa2tm1a c)).ne⟩
  classes a tagged := geo.classes tagged
  disjoint a c first second apart := geo.disjoint rows first second apart
  tm0Bits a c first second := by rw [geo.tm0Bit_eq_iff first.1 second.1, geo.tableChunk_eq, geo.tableChunk_eq]
  tm1Bits a c first second := by rw [geo.tm1Bit_eq_iff first.1 second.1, geo.map0Chunk_eq, geo.map0Chunk_eq]

end Geometry

/-! Parameters. -/

theorem tag_cases (least : 2 ≤ tg.tagBits) (most : tg.tagBits ≤ 8) :
    ∃ t, 3 ≤ t ∧ t ≤ 5 ∧ tg.tagRatio = 2 ^ t ∧ tg.unTagBits = t ∧ tg.normTagBits = 2 ^ (6 - t) := by
  obtain ⟨tagBits, mapRatio, memSize, memBase, cacheBlockBytes⟩ := tg
  simp only at least most
  have all : ∀ k < 9, 2 ≤ k → ∃ t ≤ 5, 3 ≤ t ∧ wordBits / 2 ^ log2Up k = 2 ^ t
      ∧ log2Up (wordBits / 2 ^ log2Up k) = t ∧ log2Up k = 6 - t := by decide
  obtain ⟨t, high, low, ratio, untag, norm⟩ := all tagBits (by omega) least
  exact ⟨t, low, high, ratio, untag, congrArg (2 ^ ·) norm⟩

/-- The blocks of the default size, or of another power of two that holds a byte of tags and is
small beside the memory. -/
def BlockFits : Prop :=
  tg.cacheBlockBytes = 64 ∨ isPow2 tg.cacheBlockBytes ∧ tg.cacheBlockBytes ≤ 2 ^ 30 ∧
    tg.tagRatio ≤ tg.cacheBlockBytes ∧ tg.cacheBlockBytes * tg.tagRatio * tg.tagRatio * tg.mapRatio ≤ tg.memSize

variable {tg}

theorem exists_geometry (required : tg.Required) (least : 2 ≤ tg.tagBits) (most : tg.tagBits ≤ 8)
    (memory : 2 ^ 27 ≤ tg.memSize) (base : 2 ^ 30 ∣ tg.memBase) (blocks : tg.BlockFits)
    (top : tg.mapRatio * tg.mapRatio ≤ tg.tableSize) (aligned : tg.tagRatio * tg.mapRatio * tg.mapRatio / 8 ∣ tg.memBase) :
    ∃ t m b A S, tg.Geometry t m b A S := by
  obtain ⟨n, size⟩ := required.memSize_pow2
  obtain ⟨m, map⟩ := required.mapRatio_pow2
  obtain ⟨t, low, high, ratio, untag, norm⟩ := tg.tag_cases least most
  have order := required.tagRatio_le
  have strict : (1 : Nat) < 2 := by decide
  rw [size, Nat.pow_le_pow_iff_right strict] at memory
  rw [ratio, map, Nat.pow_le_pow_iff_right strict] at order
  have table : tg.tableSize = 2 ^ (n - t) := by
    rw [tableSize, size, ratio, Nat.pow_div (by omega) (by decide)]
  rw [table, map, ← Nat.pow_add, Nat.pow_le_pow_iff_right strict] at top
  have map0 : tg.map0Size = 2 ^ (n - t - m) := by
    rw [map0Size, table, map, Nat.pow_div (by omega) (by decide)]
  have map1 : tg.map1Size = 2 ^ (n - t - m - m) := by
    rw [map1Size, map0, map, Nat.pow_div (by omega) (by decide)]
  -- the block size, by default or as a power of two of its own
  obtain ⟨b, bytes, within, atMost, share⟩ :
      ∃ b, tg.cacheBlockBytes = 2 ^ b ∧ t ≤ b ∧ b ≤ 30 ∧ b + t + t + m ≤ n := by
    rcases blocks with default | ⟨⟨b, bytes⟩, atMost, within, share⟩
    · exact ⟨6, default, by omega, by omega, by omega⟩
    · rw [bytes, Nat.pow_le_pow_iff_right strict] at atMost
      rw [bytes, ratio, Nat.pow_le_pow_iff_right strict] at within
      rw [bytes, ratio, map, size, ← Nat.pow_add, ← Nat.pow_add, ← Nat.pow_add, Nat.pow_le_pow_iff_right strict] at share
      exact ⟨b, bytes, within, atMost, share⟩
  refine ⟨t, m, b, 2 ^ (n - t - t - m), 2 ^ (n - t - m - m), ?_⟩
  exact {
    untag, bytes, low, order, within, map1
    unmap := by rw [unMapBits, map, log2Up_two_pow (by omega)]
    offset := by rw [blockOffBits, bytes, log2Up_two_pow (by omega)]
    ratio := map
    tags := by
      rw [cacheBlockTagBits, bytes, norm, wordBytes, wordBits, show 64 / 8 = 2 ^ 3 by rfl,
        Nat.pow_div (by omega) (by decide), ← Nat.pow_add, show (8 : Nat) = 2 ^ 3 by rfl, ← Nat.pow_add]
      congr 1
      omega
    size := by
      rw [size, ← Nat.pow_add, ← Nat.pow_add, ← Nat.pow_add]
      congr 1
      omega
    table := by
      rw [table, ← Nat.pow_add, ← Nat.pow_add]
      congr 1
      omega
    map0 := by
      rw [map0, ← Nat.pow_add]
      congr 1
      omega
    top := by
      rw [← Nat.pow_add, ← Nat.pow_add]
      congr 1
      omega
    keys := by
      rw [map0, log2Up_two_pow (by omega), ← Nat.pow_add]
      congr 1
      omega
    positive := Nat.two_pow_pos _
    blocks := Nat.pow_dvd_pow 2 (by omega)
    base := Nat.dvd_trans (Nat.pow_dvd_pow 2 atMost) base
    aligned := by
      rw [ratio, map, ← Nat.pow_add, ← Nat.pow_add, show (8 : Nat) = 2 ^ 3 by rfl, Nat.pow_div (by omega) (by decide)]
        at aligned
      exact aligned }

/-- The layout is free of collisions when tag map 1 has a byte and the base address is a multiple
of the data that one bit of tag map 1 stands for. -/
theorem layout_of_top (required : tg.Required) (least : 2 ≤ tg.tagBits) (most : tg.tagBits ≤ 8)
    (memory : 2 ^ 27 ≤ tg.memSize) (base : 2 ^ 30 ∣ tg.memBase) (blocks : tg.BlockFits)
    (top : tg.mapRatio * tg.mapRatio ≤ tg.tableSize) (aligned : tg.tagRatio * tg.mapRatio * tg.mapRatio / 8 ∣ tg.memBase)
    (rbo : Nat) (rows : tg.cacheBlockTagBits ≤ 8 * 2 ^ rbo) : tg.Layout rbo := by
  obtain ⟨t, m, b, A, S, geo⟩ := exists_geometry required least most memory base blocks top aligned
  exact geo.layout rows

/-- Two tag bits, the map ratio of the configuration and 128 MB at 1 GB. -/
def smallest : TagUtil := ⟨2, 512, 2 ^ 27, 2 ^ 30, 64⟩

theorem layout_smallest : smallest.Layout 3 :=
  layout_of_top ⟨⟨27, rfl⟩, ⟨9, rfl⟩, by decide⟩ (by decide) (by decide) (by decide) (by decide) (.inl rfl) (by decide)
    (by decide) 3 (by decide)

/-- A map ratio that leaves no byte for tag map 1 passes the checks as well. -/
def topless : TagUtil := ⟨4, 2 ^ 12, 2 ^ 27, 2 ^ 30, 64⟩

theorem not_layout_topless : topless.Required ∧ 2 ≤ topless.tagBits ∧ topless.tagBits ≤ 8 ∧ 2 ^ 27 ≤ topless.memSize
    ∧ 2 ^ 30 ∣ topless.memBase ∧ ¬ topless.Layout 3 := by
  refine ⟨⟨⟨27, rfl⟩, ⟨12, rfl⟩, by decide⟩, by decide, by decide, by decide, by decide, fun layout => ?_⟩
  have inside := layout.map1 (2 ^ 30) ⟨by decide, by decide⟩
  exact absurd inside.2 (by decide)

end TagUtil

end LowRisc.TagCache
