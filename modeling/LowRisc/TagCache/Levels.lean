import LowRisc.TagCache.Places
import LowRisc.TagCache.BankRuns

/-! The three levels of tags and what a transaction works towards.

Tags count as stored when all three levels agree. While a write is under way the levels are changed
one after the other, from the tag table up to the top map.
-/

set_option autoImplicit false

namespace LowRisc.TagCache

open LowRisc.Chisel LowRisc.Lib

variable {c : Config}

/-- Blocks from the start of the top map on. -/
def Config.inTopMap (c : Config) (b : Nat) : Bool := decide (blockOf c.topMapBase ≤ b)

abbrev FlatTags (c : Config) := DataBlock c → BlockTags c

/-- A bit of a map as an entry. -/
abbrev mapBit (present : DataBlock c → Bool) : DataBlock c → BitVec 1 := fun d => BitVec.ofBool (present d)

abbrev Table (v : View) (e0 : DataBlock c → Bool) (flat : FlatTags c) : Prop :=
  Sparse 8 DataBlock.ttSlot v.content v.copied e0 flat

abbrev Map0 (v : View) (e1 e0 : DataBlock c → Bool) : Prop :=
  Sparse 8 DataBlock.tm0Slot v.content v.copied e1 (mapBit e0)

def Map1 (v : View) (e1 : DataBlock c → Bool) : Prop :=
  ∀ d : DataBlock c, d.tm1Slot.get 1 v.content = mapBit e1 d

/-- `e0` says which blocks have a block of the tag table, `e1` which of them have one of tag map 0. -/
structure Stored (v : View) (flat : FlatTags c) (e0 e1 : DataBlock c → Bool) : Prop where
  table : Table v e0 flat
  map0 : Map0 v e1 e0
  map1 : Map1 v e1

variable {v v' : View} {flat flat' : FlatTags c} {e0 e1 : DataBlock c → Bool}
  {d e : DataBlock c} {req : TCTagRequest} {resp : TCTagResp}

theorem Map1.congr (map1 : Map1 v e1) (same : ∀ d : DataBlock c, v'.content d.tm1Slot.block = v.content d.tm1Slot.block) :
    Map1 v' e1 := by
  intro d
  rw [Slot.get, same]
  exact map1 d

theorem mapBit_eq_zero : mapBit e0 d = 0 ↔ e0 d = false := by
  cases value : e0 d <;> simp [mapBit, value]

theorem field_one (row : Row) (shift : Nat) : field 1 row shift = BitVec.ofBool (row.getLsbD shift) := by
  apply BitVec.eq_of_getLsbD_eq
  intro j inside
  rw [getLsbD_field inside]
  obtain rfl : j = 0 := by omega
  simp

theorem ofBool_inj {x y : Bool} : BitVec.ofBool x = BitVec.ofBool y ↔ x = y := by
  cases x <;> cases y <;> decide

namespace Stored

variable (stored : Stored v flat e0 e1)

include stored

theorem e1_of_e0 (here : e0 d = true) : e1 d = true := by
  by_contra absent
  have zero := mapBit_eq_zero.mp (stored.map0.empty d (by simpa using absent))
  rw [here] at zero
  cases zero

theorem e1_of_copied (copy : v.copied d.tm0Slot.block) : e1 d = true := by
  by_contra absent
  exact stored.map0.lacking d (by simpa using absent) copy

theorem e0_of_copied (copy : v.copied d.ttSlot.block) : e0 d = true := by
  by_contra absent
  exact stored.table.lacking d (by simpa using absent) copy

theorem tags_eq (here : e0 d = true) :
    field c.tg.cacheBlockTagBits (v.content d.ttSlot.block d.ttSlot.row) d.ttSlot.shift = flat d :=
  stored.table.held d here

theorem map0_bit (here : e1 d = true) : (v.content d.tm0Slot.block d.tm0Slot.row).getLsbD d.tm0Slot.shift = e0 d := by
  have bit := stored.map0.held d here
  rw [Slot.get, field_one] at bit
  exact ofBool_inj.mp bit

theorem map1_bit (d : DataBlock c) : (v.content d.tm1Slot.block d.tm1Slot.row).getLsbD d.tm1Slot.shift = e1 d := by
  have bit := stored.map1 d
  rw [Slot.get, field_one] at bit
  exact ofBool_inj.mp bit

/-- A read changes nothing but the copies, and fetches only what is present. -/
theorem read (takes : v.Takes req v') (quiet : req.op.isWrite = false)
    (table : (req.op = .fr ∨ req.op = .fl) → ∀ d : DataBlock c, d.ttSlot.block = req.block → e0 d = true)
    (map0 : (req.op = .fr ∨ req.op = .fl) → ∀ d : DataBlock c, d.tm0Slot.block = req.block → e1 d = true) :
    Stored v' flat e0 e1 := by
  have same : v'.content = v.content := by
    funext b
    by_cases here : b = req.block
    · rw [here, takes.same quiet]
    · exact takes.others b here
  have own : v'.copied (req.block) → v.copied (req.block) ∨ req.op = .fr ∨ req.op = .fl := by
    intro copy
    cases op : req.op with
    | r | l | u => exact .inl (takes.stays (by simp [op]) copy)
    | fr | fl => simp
    | i | c | w => simp [op, TCTagOp.isWrite] at quiet
  have copies : ∀ b, v'.copied b → v.copied b ∨ b = req.block ∧ (req.op = .fr ∨ req.op = .fl) := by
    intro b copy
    by_cases here : b = req.block
    · subst here
      exact (own copy).imp_right fun fetch => ⟨rfl, fetch⟩
    · exact .inl (takes.copies b here copy)
  refine ⟨stored.table.frame (fun d => by rw [same]) fun d copy => ?_,
    stored.map0.frame (fun d => by rw [same]) fun d copy => ?_, fun d => ?_⟩
  · refine (copies _ copy).imp_right ?_
    rintro ⟨here, fetch⟩
    exact table fetch d here
  · refine (copies _ copy).imp_right ?_
    rintro ⟨here, fetch⟩
    exact map0 fetch d here
  · rw [same]
    exact stored.map1 d

end Stored

/-! The other levels. -/

theorem ttBlock_ne_tm0Block (admissible : c.Admissible) (d e : DataBlock c) : d.ttSlot.block ≠ e.tm0Slot.block :=
  ((d.blocks_apart admissible).2.1 e).ne

theorem tm0Block_ne_tm1Block (admissible : c.Admissible) (d e : DataBlock c) : d.tm0Slot.block ≠ e.tm1Slot.block := by
  have first := (d.blocks_apart admissible).1
  have second := (e.blocks_apart admissible).2.2.1
  omega

theorem ttBlock_ne_tm1Block (admissible : c.Admissible) (d e : DataBlock c) : d.ttSlot.block ≠ e.tm1Slot.block := by
  have first := (d.blocks_apart admissible).2.1 e
  have second := (e.blocks_apart admissible).1
  have third := (e.blocks_apart admissible).2.2.1
  omega

theorem not_inTopMap_tm0 (admissible : c.Admissible) (d : DataBlock c) : c.inTopMap d.tm0Slot.block = false := by
  simpa [Config.inTopMap] using (d.blocks_apart admissible).1

theorem not_inTopMap_tt (admissible : c.Admissible) (d : DataBlock c) : c.inTopMap d.ttSlot.block = false := by
  have first := (d.blocks_apart admissible).2.1 d
  have second := (d.blocks_apart admissible).1
  simp only [Config.inTopMap, decide_eq_false_iff_not, not_le]
  omega

/-! What a block keeps when bits of an entry are cleared. -/

/-- Something is left of the block when the bits of a mask are cleared. -/
def Rest {w : Nat} (v : View) (s : Slot) (mask : BitVec w) : Prop :=
  Filled 8 (upd (v.content s.block) s.row (v.content s.block s.row &&& ~~~spread 64 mask s.shift))

theorem filled_iff_nonzeroRows (line : Line) : Filled 8 line ↔ 0 < nonzeroRows line := by
  rw [nonzeroRows, List.countP_pos_iff]
  constructor
  · rintro ⟨r, inside, some⟩
    exact ⟨r, List.mem_range.mpr inside, bne_iff_ne.mpr some⟩
  · rintro ⟨r, inside, some⟩
    exact ⟨r, List.mem_range.mp inside, bne_iff_ne.mp some⟩

theorem rest_iff {w : Nat} {s : Slot} {mask : BitVec w} (inside : s.row < 8) (some : v.content s.block s.row ≠ 0)
    {tcnt : Nat} (counted : Counted (nonzeroRows (v.content s.block)) tcnt false) {data : Row}
    (row : data = v.content s.block s.row) :
    (decide (1 < tcnt) || data &&& ~~~spread 64 mask s.shift != 0) = true ↔ Rest v s mask := by
  have count := nonzeroRows_upd (v.content s.block) 0 inside
  have one : (v.content s.block s.row != 0).toNat = 1 := by rw [bne_iff_ne.mpr some, Bool.toNat_true]
  -- The other rows are those that are left when this one is cleared.
  have others : 1 < tcnt ↔ ∃ k < 8, k ≠ s.row ∧ v.content s.block k ≠ 0 := by
    have left : (0 : Row) ≠ 0 ∨ (∃ k < 8, k ≠ s.row ∧ v.content s.block k ≠ 0) ↔ Filled 8 (upd (v.content s.block) s.row 0) :=
      (filled_upd_iff inside 0).symm
    rw [filled_iff_nonzeroRows] at left
    simp only [ne_eq, not_true, false_or] at left
    rw [left, counted.exact rfl]
    simp only [bne_self_eq_false, Bool.toNat_false] at count
    omega
  rw [Rest, filled_upd_iff inside, ← others, row, Bool.or_eq_true, decide_eq_true_eq, bne_iff_ne, or_comm]

theorem Rest.congr {w : Nat} {s : Slot} {mask : BitVec w} (same : v'.content s.block = v.content s.block) :
    Rest v' s mask ↔ Rest v s mask := by
  rw [Rest, Rest, same]

end LowRisc.TagCache
