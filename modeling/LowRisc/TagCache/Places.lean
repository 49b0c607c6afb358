import LowRisc.Lib.SparseTable
import LowRisc.TagCache.TagLocks

/-! The three tables of tags and map bits.

A block of the memory has an entry with its tags in the tag table, a bit in tag map 0 for its block
of the table, and a bit in tag map 1 for its block of tag map 0.
-/

set_option autoImplicit false

namespace LowRisc.TagCache

open LowRisc.Chisel LowRisc.Lib

abbrev DataBlock (c : Config) := { b : Nat // c.InMem b }

namespace DataBlock

variable {c : Config} (d : DataBlock c)

def addr : Nat := d.val * Config.blockBytes

def ttSlot : Slot :=
  ⟨Config.blockOf (c.tg.pa2tta d.addr), Config.rowOf (c.tg.pa2tta d.addr), c.tg.pa2ttr d.addr Config.rowOffBits * 8⟩

def tm0Slot : Slot :=
  ⟨Config.blockOf (c.tg.pa2tm0a d.addr), Config.rowOf (c.tg.pa2tm0a d.addr), c.tg.pa2tm0b d.addr Config.rowOffBits⟩

def tm1Slot : Slot :=
  ⟨Config.blockOf (c.tg.pa2tm1a d.addr), Config.rowOf (c.tg.pa2tm1a d.addr), c.tg.pa2tm1b d.addr Config.rowOffBits⟩

end DataBlock

/-- The sizes of the memory, in multiples of the size `S` of tag map 1. -/
structure Config.Sized (c : Config) (t S k : Nat) : Prop where
  low : 3 ≤ t
  high : t ≤ 5
  top : 16 ∣ S
  some : 0 < S
  untag : c.tg.unTagBits = t
  unmap : c.tg.unMapBits = 9
  tags : c.tg.cacheBlockTagBits = 8 * 2 ^ (6 - t)
  base : c.tg.memBase = 2 ^ 30 * k
  size : c.tg.memSize = S * 2 ^ 18 * 2 ^ t
  table : c.tg.tableBase = 2 ^ 30 * k + S * 2 ^ 18 * 2 ^ t - S * 2 ^ 18
  map0 : c.tg.map0Base = 2 ^ 30 * k + S * 2 ^ 18 * 2 ^ t - S * 2 ^ 9
  map1 : c.tg.map1Base = 2 ^ 30 * k + S * 2 ^ 18 * 2 ^ t - S
  map1Size : c.tg.map1Size = S

variable {c : Config}

theorem Config.Admissible.exists_sized (admissible : c.Admissible) : ∃ t S k, c.Sized t S k := by
  obtain ⟨t, low, high, ratio, untag, norm⟩ := c.tg.tag_cases admissible.tagBits_ge admissible.tagBits_le
  obtain ⟨n, size⟩ := admissible.required.memSize_pow2
  obtain ⟨k, base⟩ := admissible.memBase
  have memory := admissible.memSize
  rw [size, Nat.pow_le_pow_iff_right (show 1 < 2 by decide)] at memory
  have map : c.tg.mapRatio = 2 ^ 9 := admissible.mapRatio
  obtain ⟨e, rfl⟩ := Nat.exists_eq_add_of_le (show 22 + t ≤ n by omega)
  have whole : c.tg.memSize = 16 * 2 ^ e * 2 ^ 18 * 2 ^ t := by
    rw [size]
    ring
  have tableSize : c.tg.tableSize = 16 * 2 ^ e * 2 ^ 18 := by
    rw [TagUtil.tableSize, whole, ratio, Nat.mul_div_cancel _ (Nat.two_pow_pos t)]
  have map0Size : c.tg.map0Size = 16 * 2 ^ e * 2 ^ 9 := by
    rw [TagUtil.map0Size, tableSize, map, show 16 * 2 ^ e * 2 ^ 18 = 16 * 2 ^ e * 2 ^ 9 * 2 ^ 9 by ring,
      Nat.mul_div_cancel _ (by decide)]
  have map1Size : c.tg.map1Size = 16 * 2 ^ e := by
    rw [TagUtil.map1Size, map0Size, map, Nat.mul_div_cancel _ (by decide)]
  refine ⟨t, 16 * 2 ^ e, k, low, high, ⟨2 ^ e, rfl⟩, by positivity, untag, ?_, ?_, base, whole, ?_, ?_, ?_, map1Size⟩
  · rw [TagUtil.unMapBits, map, log2Up_two_pow (by decide)]
  · rw [TagUtil.cacheBlockTagBits, admissible.block, norm]
    rfl
  · rw [TagUtil.tableBase, tableSize, whole, base]
  · rw [TagUtil.map0Base, map0Size, whole, base]
  · rw [TagUtil.map1Base, map1Size, whole, base]

namespace DataBlock

variable {t S k : Nat}

/-- The number of a data block, counted from the start of the memory. -/
def rel (d : DataBlock c) : Nat := d.val - c.tg.memBase / Config.blockBytes

theorem val_eq (sized : c.Sized t S k) (d : DataBlock c) :
    d.val = 2 ^ 24 * k + d.rel ∧ d.rel * 64 < S * 2 ^ 18 * 2 ^ t - S * 2 ^ 18 := by
  have inside := d.property
  simp only [Config.InMem, Config.blockBytes, sized.base, sized.table] at inside
  simp only [rel, Config.blockBytes, sized.base]
  omega

theorem slots_eq (sized : c.Sized t S k) (d : DataBlock c) :
    d.ttSlot = ⟨d.rel / 2 ^ t + c.tg.tableBase / 64, d.rel * 2 ^ (6 - t) / 8 % 8, d.rel * 2 ^ (6 - t) % 8 * 8⟩ ∧
    d.tm0Slot = ⟨d.rel / 2 ^ (t + 9) + c.tg.map0Base / 64, d.rel / 2 ^ (t + 6) % 8, d.rel / 2 ^ t % 64⟩ ∧
    d.tm1Slot = ⟨(d.rel / 2 ^ (t + 12) + c.tg.map1Base) / 64, (d.rel / 2 ^ (t + 15) + c.tg.map1Base / 8) % 8,
      d.rel / 2 ^ (t + 9) % 64⟩ := by
  obtain ⟨place, inside⟩ := d.val_eq sized
  obtain ⟨s, sixteen⟩ := sized.top
  have low := sized.low
  have high := sized.high
  simp only [ttSlot, tm0Slot, tm1Slot, addr, TagUtil.pa2tta, TagUtil.pa2ttr, TagUtil.pa2tm0a, TagUtil.pa2tm0b,
    TagUtil.pa2tm1a, TagUtil.pa2tm1b, bits, sized.untag, sized.unmap, sized.base, sized.table, sized.map0, sized.map1,
    Config.blockOf, Config.rowOf, Config.blockBytes, Config.outerDataBeats, Config.rowOffBits, Slot.mk.injEq, place]
  obtain rfl | rfl | rfl : t = 3 ∨ t = 4 ∨ t = 5 := by omega
  all_goals
    simp only [sixteen] at inside ⊢
    norm_num at inside ⊢
    omega

theorem ttSlots (admissible : c.Admissible) : Slots 64 c.tg.cacheBlockTagBits 8 (ttSlot (c := c)) := by
  obtain ⟨t, S, k, sized⟩ := admissible.exists_sized
  have low := sized.low
  have high := sized.high
  constructor
  · intro d
    rw [(d.slots_eq sized).1, sized.tags]
    obtain rfl | rfl | rfl : t = 3 ∨ t = 4 ∨ t = 5 := by omega
    all_goals
      constructor <;> norm_num <;> omega
  · intro d e
    rw [Slot.Apart, (d.slots_eq sized).1, (e.slots_eq sized).1, sized.tags]
    simp only [Slot.mk.injEq]
    obtain rfl | rfl | rfl : t = 3 ∨ t = 4 ∨ t = 5 := by omega
    all_goals
      norm_num
      omega

theorem ttSlot_inj (admissible : c.Admissible) {d e : DataBlock c} : d.ttSlot = e.ttSlot ↔ d = e := by
  obtain ⟨t, S, k, sized⟩ := admissible.exists_sized
  have low := sized.low
  have high := sized.high
  refine ⟨fun same => Subtype.ext ?_, fun same => by rw [same]⟩
  rw [(d.slots_eq sized).1, (e.slots_eq sized).1, Slot.mk.injEq] at same
  rw [(d.val_eq sized).1, (e.val_eq sized).1]
  obtain rfl | rfl | rfl : t = 3 ∨ t = 4 ∨ t = 5 := by omega
  all_goals
    norm_num at same
    omega

theorem tm0Slots (admissible : c.Admissible) : Slots 64 1 8 (tm0Slot (c := c)) := by
  obtain ⟨t, S, k, sized⟩ := admissible.exists_sized
  constructor
  · intro d
    rw [(d.slots_eq sized).2.1]
    exact ⟨Nat.mod_lt _ (by decide), Nat.mod_lt _ (by decide)⟩
  · intro d e
    rw [Slot.Apart, (d.slots_eq sized).2.1, (e.slots_eq sized).2.1]
    simp only [Slot.mk.injEq]
    omega

/-- Blocks with one bit of tag map 0 are those with one block of the tag table. -/
theorem tm0Slot_eq_iff (admissible : c.Admissible) {d e : DataBlock c} :
    d.tm0Slot = e.tm0Slot ↔ d.ttSlot.block = e.ttSlot.block := by
  obtain ⟨t, S, k, sized⟩ := admissible.exists_sized
  have low := sized.low
  have high := sized.high
  rw [(d.slots_eq sized).1, (e.slots_eq sized).1, (d.slots_eq sized).2.1, (e.slots_eq sized).2.1, Slot.mk.injEq]
  obtain rfl | rfl | rfl : t = 3 ∨ t = 4 ∨ t = 5 := by omega
  all_goals
    norm_num
    omega

theorem tm1Slots (admissible : c.Admissible) : Slots 64 1 8 (tm1Slot (c := c)) := by
  obtain ⟨t, S, k, sized⟩ := admissible.exists_sized
  constructor
  · intro d
    rw [(d.slots_eq sized).2.2]
    exact ⟨Nat.mod_lt _ (by decide), Nat.mod_lt _ (by decide)⟩
  · intro d e
    rw [Slot.Apart, (d.slots_eq sized).2.2, (e.slots_eq sized).2.2]
    simp only [Slot.mk.injEq]
    omega

theorem tm1Slot_eq_iff (admissible : c.Admissible) {d e : DataBlock c} :
    d.tm1Slot = e.tm1Slot ↔ d.tm0Slot.block = e.tm0Slot.block := by
  obtain ⟨t, S, k, sized⟩ := admissible.exists_sized
  have low := sized.low
  have high := sized.high
  obtain ⟨s, sixteen⟩ := sized.top
  rw [(d.slots_eq sized).2.1, (e.slots_eq sized).2.1, (d.slots_eq sized).2.2, (e.slots_eq sized).2.2, Slot.mk.injEq,
    sized.map0, sized.map1, sixteen]
  obtain rfl | rfl | rfl : t = 3 ∨ t = 4 ∨ t = 5 := by omega
  all_goals
    norm_num
    omega

/-- The top map is what the initiators create, and the other two levels lie in front of it. -/
theorem blocks_apart (admissible : c.Admissible) (d : DataBlock c) :
    d.tm0Slot.block < Config.blockOf c.topMapBase ∧ (∀ e : DataBlock c, d.ttSlot.block < e.tm0Slot.block) ∧
      Config.blockOf c.topMapBase ≤ d.tm1Slot.block ∧ d.tm1Slot.block < Config.blockOf c.topMapBase + c.nTopMapBlocks := by
  obtain ⟨t, S, k, sized⟩ := admissible.exists_sized
  have low := sized.low
  have high := sized.high
  obtain ⟨s, sixteen⟩ := sized.top
  have some := sized.some
  have inside := (d.val_eq sized).2
  rw [(d.slots_eq sized).1, (d.slots_eq sized).2.1, (d.slots_eq sized).2.2]
  simp only [Config.nTopMapBlocks, Config.map1Blocks, Config.topMapBase, Config.blockOf, Config.blockBytes, sized.map1Size,
    sized.map1, sized.map0, sized.table, sixteen] at inside some ⊢
  refine ⟨?_, fun e => ?_, ?_, ?_⟩
  · obtain rfl | rfl | rfl : t = 3 ∨ t = 4 ∨ t = 5 := by omega
    all_goals
      norm_num at inside ⊢
      omega
  · rw [(e.slots_eq sized).2.1, sized.map0, sixteen]
    obtain rfl | rfl | rfl : t = 3 ∨ t = 4 ∨ t = 5 := by omega
    all_goals
      norm_num at inside ⊢
      omega
  · obtain rfl | rfl | rfl : t = 3 ∨ t = 4 ∨ t = 5 := by omega
    all_goals
      norm_num at inside ⊢
      omega
  · obtain ⟨q, quarter⟩ : ∃ q, s = 4 * q ∨ s = 4 * q + 1 ∨ s = 4 * q + 2 ∨ s = 4 * q + 3 := ⟨s / 4, by omega⟩
    obtain rfl | rfl | rfl : t = 3 ∨ t = 4 ∨ t = 5 := by omega
    all_goals
      norm_num at inside ⊢
      obtain rfl | rfl | rfl | rfl := quarter <;> split <;> omega

end DataBlock

end LowRisc.TagCache
