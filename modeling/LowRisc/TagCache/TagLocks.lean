import LowRisc.TagCache.TagLayout
import LowRisc.TagCache.System
import Mathlib.Data.Nat.ModEq

/-! Keys of the transaction locks.

A lock entry keeps the low bits of the request address and the cut lock index. For requests
that the trackers make on the maps these name the level and the map bit.
-/

set_option autoImplicit false

namespace LowRisc.TagCache

open LowRisc.Chisel

inductive MapLevel where
  | tm0
  | tm1
  deriving DecidableEq, Repr

/-- The map on which a tracker makes its request in a state. -/
def TcState.level : TcState → Option MapLevel
  | .tm0r | .tm0f | .tm0l | .tm0w => some .tm0
  | .tm1f | .tm1l | .tm1w => some .tm1
  | _ => none

variable {c : Config}

def MapLevel.bit (c : Config) : MapLevel → Nat → Nat × Nat
  | .tm0, addr => c.tg.tm0Bit Config.rowOffBits addr
  | .tm1, addr => c.tg.tm1Bit Config.rowOffBits addr

def Config.lockKey (c : Config) (req : TCTagRequest) : Nat × Nat := (c.lockAddr req.addr, req.lindex)

/-- The entry that a lock request leaves in the lock table. -/
def Config.lockEntry (c : Config) (req : TCTagRequest) : TCTagLock := ⟨req.id, c.lockAddr req.addr, req.lindex, true⟩

theorem add_mod_inj {x y z n : Nat} (first : x < n) (second : y < n) : (x + z) % n = (y + z) % n ↔ x = y := by
  constructor
  · intro same
    have cancel : x ≡ y [MOD n] := Nat.ModEq.add_right_cancel' z same
    rw [← Nat.mod_eq_of_lt first, ← Nat.mod_eq_of_lt second]
    exact cancel
  · rintro rfl
    rfl

namespace TagUtil.Geometry

variable {t m b A S : Nat} (geo : c.tg.Geometry t m b A S)

include geo

/-- Both maps counted from the start of tag map 0. -/
theorem lockAddr_tm0 (addr : Nat) :
    c.lockAddr (c.tg.pa2tm0a addr) = ((addr - c.tg.memBase) / 2 ^ (t + m) + c.tg.map0Base) % (A * 2 ^ t) := by
  rw [Config.lockAddr, geo.keys, geo.pa2tm0a_eq]

theorem lockAddr_tm1 (addr : Nat) :
    c.lockAddr (c.tg.pa2tm1a addr) =
      ((addr - c.tg.memBase) / 2 ^ (t + m + m) + (A * 2 ^ t - S) + c.tg.map0Base) % (A * 2 ^ t) := by
  have order := geo.sizes
  have bases : c.tg.map1Base = A * 2 ^ t - S + c.tg.map0Base := by
    rw [TagUtil.map0Base, TagUtil.map1Base, geo.map0, geo.map1, geo.size]
    omega
  rw [Config.lockAddr, geo.keys, geo.pa2tm1a_eq, bases, ← Nat.add_assoc]

/-- The lock index keeps at least the bit of the byte. -/
theorem lockIndex_eq {addr k : Nat} (low : 3 ≤ k) :
    bits addr (k + b - 1) (k - 3) % 2 ^ b = addr / 2 ^ (k - 3) % (8 * 2 ^ (b - 3)) := by
  have within := geo.within
  have least := geo.low
  have size : 8 * 2 ^ (b - 3) = 2 ^ b := by
    rw [show (8 : Nat) = 2 ^ 3 by rfl, ← Nat.pow_add, Nat.add_sub_cancel' (by omega)]
  rw [bits_eq low, size, Nat.mod_mod_of_dvd _ (Nat.dvd_mul_left _ _)]

theorem key_tm0 {a d : Nat} (first : c.tg.Tagged a) (second : c.tg.Tagged d) :
    (c.lockAddr (c.tg.pa2tm0a a) = c.lockAddr (c.tg.pa2tm0a d)
      ∧ c.tg.pa2tm0i a % 2 ^ c.tg.blockOffBits = c.tg.pa2tm0i d % 2 ^ c.tg.blockOffBits) ↔
      c.tg.tm0Bit Config.rowOffBits a = c.tg.tm0Bit Config.rowOffBits d := by
  have low := geo.low
  have one := geo.map0_offset_lt first
  have two := geo.map0_offset_lt second
  have aligned : 2 ^ (t + m - 3) ∣ c.tg.memBase :=
    Nat.dvd_trans (Nat.pow_dvd_pow 2 (by omega)) geo.aligned
  rw [geo.tm0Bit_eq_iff first.1 second.1, geo.lockAddr_tm0, geo.lockAddr_tm0, add_mod_inj (by omega) (by omega),
    TagUtil.pa2tm0i, TagUtil.pa2tm0i, geo.untag, geo.unmap, geo.offset, geo.lockIndex_eq (by omega),
    geo.lockIndex_eq (by omega), two_pow_eight (show 3 ≤ t + m by omega)]
  exact group_eq_iff (2 ^ (b - 3)) aligned first.1 second.1

theorem key_tm1 {a d : Nat} (first : c.tg.Tagged a) (second : c.tg.Tagged d) :
    (c.lockAddr (c.tg.pa2tm1a a) = c.lockAddr (c.tg.pa2tm1a d)
      ∧ c.tg.pa2tm1i a % 2 ^ c.tg.blockOffBits = c.tg.pa2tm1i d % 2 ^ c.tg.blockOffBits) ↔
      c.tg.tm1Bit Config.rowOffBits a = c.tg.tm1Bit Config.rowOffBits d := by
  have low := geo.low
  have order := geo.sizes
  have one := geo.map1_offset_lt first
  have two := geo.map1_offset_lt second
  rw [geo.tm1Bit_eq_iff first.1 second.1, geo.lockAddr_tm1, geo.lockAddr_tm1, add_mod_inj (by omega) (by omega),
    Nat.add_right_cancel_iff, TagUtil.pa2tm1i, TagUtil.pa2tm1i, geo.untag, geo.unmap, geo.offset,
    geo.lockIndex_eq (by omega), geo.lockIndex_eq (by omega), two_pow_eight (show 3 ≤ t + m + m by omega)]
  exact group_eq_iff (2 ^ (b - 3)) geo.aligned first.1 second.1

/-- The last `S` bytes of the range of tag map 0 hold tag map 1 and no bit of tag map 0. -/
theorem key_levels {a d : Nat} (first : c.tg.Tagged a) (second : c.tg.Tagged d) :
    c.lockAddr (c.tg.pa2tm0a a) ≠ c.lockAddr (c.tg.pa2tm1a d) := by
  have order := geo.sizes
  have one := geo.map0_offset_lt first
  have two := geo.map1_offset_lt second
  rw [geo.lockAddr_tm0, geo.lockAddr_tm1]
  generalize A * 2 ^ t = N at order one two ⊢
  generalize (a - c.tg.memBase) / 2 ^ (t + m) = x at one ⊢
  generalize (d - c.tg.memBase) / 2 ^ (t + m + m) = y at two ⊢
  rw [ne_eq, add_mod_inj (by omega) (by omega)]
  omega

end TagUtil.Geometry

theorem Config.Admissible.exists_geometry (admissible : c.Admissible) : ∃ t m b A S, c.tg.Geometry t m b A S := by
  have small : c.tg.tagRatio ∣ 64 ∧ c.tg.tagRatio ≤ 32 := by
    obtain ⟨t, -, high, ratio, -⟩ := c.tg.tag_cases admissible.tagBits_ge admissible.tagBits_le
    rw [ratio]
    exact ⟨Nat.pow_dvd_pow 2 (show t ≤ 6 by omega), Nat.pow_le_pow_right (by decide) high⟩
  have map : c.tg.mapRatio = 512 := admissible.mapRatio
  apply TagUtil.exists_geometry admissible.required admissible.tagBits_ge admissible.tagBits_le admissible.memSize
    admissible.memBase (.inl admissible.block)
  · have memory := admissible.memSize
    rw [map, TagUtil.tableSize, Nat.le_div_iff_mul_le]
    · have := Nat.mul_le_mul_left (512 * 512) small.2
      omega
    · exact Nat.pos_of_dvd_of_pos small.1 (by decide)
  · refine Nat.dvd_trans ?_ admissible.memBase
    obtain ⟨k, ratio⟩ := small.1
    rw [map, Nat.mul_assoc, show 512 * 512 = 8 * 32768 by rfl, Nat.mul_left_comm, Nat.mul_div_cancel_left _ (by decide)]
    exact ⟨k * 512, by rw [Nat.mul_right_comm, ← Nat.mul_assoc c.tg.tagRatio, ← ratio]; rfl⟩

def MapLevel.key (c : Config) : MapLevel → Nat → Nat × Nat
  | .tm0, addr => (c.lockAddr (c.tg.pa2tm0a addr), c.tg.pa2tm0i addr % 2 ^ c.tg.blockOffBits)
  | .tm1, addr => (c.lockAddr (c.tg.pa2tm1a addr), c.tg.pa2tm1i addr % 2 ^ c.tg.blockOffBits)

theorem lockKey_tcReq (m : MemXactTracker c) (i : Nat) {level : MapLevel} (on : m.tcState.level = some level) :
    c.lockKey (m.tcReq i) = level.key c m.memAddr := by
  obtain ⟨mtState, tcState⟩ := m
  cases tcState <;> cases on <;> rfl

/-- Two requests on the maps have the same key if and only if they are for the same bit of the
same map, and these are the requests that a lock of another tracker holds back. -/
theorem lock_keys_name_map_bits (admissible : c.Admissible) (m n : MemXactTracker c) (i j : Nat) {level level' : MapLevel}
    (first : c.tg.Tagged m.memAddr) (second : c.tg.Tagged n.memAddr) (on : m.tcState.level = some level)
    (on' : n.tcState.level = some level') :
    (c.lockKey (m.tcReq i) = c.lockKey (n.tcReq j) ↔
      level = level' ∧ level.bit c m.memAddr = level.bit c n.memAddr)
    ∧ (i ≠ j → (State.blockedBy (c := c) (n.tcReq j) (c.lockEntry (m.tcReq i)) = true ↔
      level = level' ∧ level.bit c m.memAddr = level.bit c n.memAddr)) := by
  obtain ⟨t, k, b, A, S, geo⟩ := admissible.exists_geometry
  have keys : c.lockKey (m.tcReq i) = c.lockKey (n.tcReq j) ↔
      level = level' ∧ level.bit c m.memAddr = level.bit c n.memAddr := by
    rw [lockKey_tcReq m i on, lockKey_tcReq n j on']
    cases level with
    | tm0 =>
      cases level' with
      | tm0 => simpa [MapLevel.bit, MapLevel.key] using geo.key_tm0 first second
      | tm1 => simpa [MapLevel.key] using fun same => absurd same (geo.key_levels first second)
    | tm1 =>
      cases level' with
      | tm0 => simpa [MapLevel.key] using fun same => absurd same.symm (geo.key_levels second first)
      | tm1 => simpa [MapLevel.bit, MapLevel.key] using geo.key_tm1 first second
  refine ⟨keys, fun other => ?_⟩
  have ids : (m.tcReq i).id = i ∧ (n.tcReq j).id = j := by
    constructor
    · cases state : m.tcState <;> simp [MemXactTracker.tcReq, state]
    · cases state : n.tcState <;> simp [MemXactTracker.tcReq, state]
  rw [← keys, State.blockedBy, Config.lockEntry, Config.lockKey, Config.lockKey]
  simp [ids.1, ids.2, other]

/-- The smallest memory of the configurations, with four trackers of each kind. -/
def smallConfig : Config := ⟨.smallest, 4, 4, 64, 8⟩

theorem smallConfig_admissible : smallConfig.Admissible where
  required := ⟨⟨27, rfl⟩, ⟨9, rfl⟩, by decide⟩
  tagBits_ge := by decide
  tagBits_le := by decide
  block := rfl
  mapRatio := rfl
  memSize := by decide
  memBase := by decide
  memTransactors := by decide
  tagTransactors := ⟨2, rfl⟩
  sets := ⟨6, rfl⟩
  sets_ge := by decide
  ways := by decide

/-- A tracker that updates a bit of tag map 0 for a data address. -/
def writingTm0 (addr : Nat) : MemXactTracker smallConfig :=
  ⟨.ognt, .tm0w, false, true, addr, 0, 0, true, false, false, false, true⟩

/-- Two blocks whose tags share a chunk of the tag table conflict. -/
theorem lock_keys_neighbours :
    smallConfig.lockKey ((writingTm0 (2 ^ 30)).tcReq 0) = smallConfig.lockKey ((writingTm0 (2 ^ 30 + 64)).tcReq 1)
    ∧ State.blockedBy (c := smallConfig) ((writingTm0 (2 ^ 30 + 64)).tcReq 1)
      (smallConfig.lockEntry ((writingTm0 (2 ^ 30)).tcReq 0)) = true := by
  have same : MapLevel.bit smallConfig .tm0 (2 ^ 30) = MapLevel.bit smallConfig .tm0 (2 ^ 30 + 64) := by decide
  obtain ⟨keys, blocks⟩ := lock_keys_name_map_bits smallConfig_admissible (writingTm0 (2 ^ 30)) (writingTm0 (2 ^ 30 + 64))
    0 1 ⟨by decide, by decide⟩ ⟨by decide, by decide⟩ rfl rfl
  exact ⟨keys.mpr ⟨rfl, same⟩, (blocks (by decide)).mpr ⟨rfl, same⟩⟩

end LowRisc.TagCache
