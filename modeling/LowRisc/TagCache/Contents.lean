import LowRisc.TagCache.Completion
import LowRisc.TagCache.RowStore

/-! What the tag cache stores for a block.

The content of a block is its line in the cache, or the memory where the cache has no copy of it.
Filling a way with another block changes the content of that block only.
-/

set_option autoImplicit false

namespace LowRisc.TagCache

open LowRisc.Chisel LowRisc.Lib

variable {c : Config}

namespace Arrays

variable {a a' : Arrays} {blank : Nat → Bool} {b b' idx w v : Nat}

def ways (c : Config) (a : Arrays) (b : Nat) : List Nat := a.hitWays c (c.setOf b) (b / 2 ^ c.idxBits)

def Copied (c : Config) (a : Arrays) (b : Nat) : Prop := a.ways c b ≠ []

def content (c : Config) (a : Arrays) (b : Nat) : Line :=
  match a.ways c b with
  | [] => a.memory b
  | w :: _ => a.datas (c.setOf b) w

theorem mem_ways : w ∈ a.ways c b ↔ w < c.nWays ∧ (a.metas (c.setOf b) w).tag = b / 2 ^ c.idxBits
    ∧ (a.metas (c.setOf b) w).isValid = true := mem_hitWays

theorem ways_congr (agree : AgreeOn c a a' (c.setOf b)) : a'.ways c b = a.ways c b := by
  simp only [ways, hitWays, agree.metas]

theorem copied_congr (agree : AgreeOn c a a' (c.setOf b)) : a'.Copied c b ↔ a.Copied c b := by
  rw [Copied, Copied, ways_congr agree]

theorem content_congr (agree : AgreeOn c a a' (c.setOf b)) : a'.content c b = a.content c b := by
  rw [content, content, ways_congr agree, agree.datas, agree.memory b rfl]

theorem block_eq (set : c.setOf b = c.setOf b') (tag : b / 2 ^ c.idxBits = b' / 2 ^ c.idxBits) : b = b' := by
  rw [← Nat.div_add_mod b (2 ^ c.idxBits), ← Nat.div_add_mod b' (2 ^ c.idxBits), tag]
  exact congrArg _ set

theorem block_of_way (set : c.setOf b = c.setOf b') (first : w ∈ a.ways c b) (second : w ∈ a.ways c b') : b = b' := by
  obtain ⟨-, tag, -⟩ := mem_ways.mp first
  obtain ⟨-, tag', -⟩ := mem_ways.mp second
  rw [← set] at tag'
  exact block_eq set (tag.symm.trans tag')

theorem Unique.way_eq (unique : a.Unique c (c.setOf b)) (first : w ∈ a.ways c b) (second : v ∈ a.ways c b) : w = v := by
  obtain ⟨bound, tag, valid⟩ := mem_ways.mp first
  obtain ⟨bound', tag', valid'⟩ := mem_ways.mp second
  exact unique w bound v bound' valid valid' (tag.trans tag'.symm)

theorem Unique.content_of_mem (unique : a.Unique c (c.setOf b)) (found : w ∈ a.ways c b) :
    a.content c b = a.datas (c.setOf b) w := by
  rw [content]
  cases ways : a.ways c b with
  | nil =>
    rw [ways] at found
    cases found
  | cons v rest =>
    have first : v ∈ a.ways c b := by simp [ways]
    rw [unique.way_eq found first]

theorem content_of_none (none' : a.ways c b = []) : a.content c b = a.memory b := by
  rw [content, none']

theorem copied_of_mem (found : w ∈ a.ways c b) : a.Copied c b := List.ne_nil_of_mem found

/-- A set in order: no block twice, clean lines as in the memory, rows counted. -/
structure Intact (c : Config) (a : Arrays) (blank : Nat → Bool) (idx : Nat) : Prop where
  unique : a.Unique c idx
  clean : ∀ b, c.setOf b = idx → ∀ w ∈ a.ways c b, (a.metas idx w).state = .clean → a.datas idx w = a.memory b
  counted : ∀ b, c.setOf b = idx → ∀ w ∈ a.ways c b,
    Counted (nonzeroRows (a.datas idx w)) (a.metas idx w).tcnt (blank b)

theorem Intact.congr (intact : a.Intact c blank idx) (agree : AgreeOn c a a' idx) : a'.Intact c blank idx := by
  have ways : ∀ b, c.setOf b = idx → a'.ways c b = a.ways c b := by
    rintro b rfl
    exact ways_congr agree
  refine ⟨?_, fun b here w found => ?_, fun b here w found => ?_⟩
  · rw [Unique, agree.metas]
    exact intact.unique
  · rw [ways b here] at found
    rw [agree.metas, agree.datas, agree.memory b here]
    exact intact.clean b here w found
  · rw [ways b here] at found
    rw [agree.metas, agree.datas]
    exact intact.counted b here w found

/-! Filling a way. -/

/-- Way `v` of the set of `b` takes the line and the entry; whatever block it held is in the memory. -/
structure Refill (c : Config) (a a' : Arrays) (b v : Nat) (line : Line) (md : TCMetadata) : Prop where
  bound : v < c.nWays
  metas : ∀ w, a'.metas (c.setOf b) w = if w = v then md else a.metas (c.setOf b) w
  datas : ∀ w, a'.datas (c.setOf b) w = if w = v then line else a.datas (c.setOf b) w
  alone : ∀ w ∈ a.ways c b, w = v
  tag : md.tag = b / 2 ^ c.idxBits
  saved : ∀ b', b' ≠ b → c.setOf b' = c.setOf b → v ∈ a.ways c b' → a'.memory b' = a.datas (c.setOf b) v
  kept : ∀ b', b' ≠ b → c.setOf b' = c.setOf b → v ∉ a.ways c b' → a'.memory b' = a.memory b'

namespace Refill

variable {line : Line} {md : TCMetadata} (refill : Refill c a a' b v line md)

include refill

theorem mem_ways_other (other : b' ≠ b) (set : c.setOf b' = c.setOf b) :
    w ∈ a'.ways c b' ↔ w ≠ v ∧ w ∈ a.ways c b' := by
  rw [mem_ways, mem_ways, set, refill.metas]
  by_cases here : w = v
  · subst here
    simp only [if_true, ne_eq, not_true, false_and, iff_false, not_and]
    intro _ tag
    exact absurd (block_eq set (refill.tag.symm.trans tag).symm) other
  · simp [here]

theorem mem_ways_own : w ∈ a'.ways c b ↔ w = v ∧ md.isValid = true := by
  rw [mem_ways, refill.metas]
  by_cases here : w = v
  · subst here
    simp [refill.bound, refill.tag]
  · simp only [here, if_false, false_and, iff_false]
    intro found
    exact here (refill.alone w (mem_ways.mpr found))

theorem unique (before : a.Unique c (c.setOf b)) : a'.Unique c (c.setOf b) := by
  intro w bound w' bound' valid valid' same
  rw [refill.metas] at valid same
  rw [refill.metas] at valid' same
  by_cases here : w = v
  · by_cases here' : w' = v
    · rw [here, here']
    · simp only [here, here', if_true, if_false] at valid' same
      exact absurd (refill.alone w' (mem_ways.mpr ⟨bound', same.symm.trans refill.tag, valid'⟩)) here'
  · by_cases here' : w' = v
    · simp only [here, here', if_true, if_false] at valid same
      exact absurd (refill.alone w (mem_ways.mpr ⟨bound, same.trans refill.tag, valid⟩)) here
    · simp only [here, here', if_false] at valid valid' same
      exact before w bound w' bound' valid valid' same

theorem copied_other (other : b' ≠ b) (set : c.setOf b' = c.setOf b) (copied : a'.Copied c b') : a.Copied c b' := by
  obtain ⟨w, found⟩ := List.exists_mem_of_ne_nil _ copied
  exact copied_of_mem ((refill.mem_ways_other other set).mp found).2

theorem content_other (before : a.Unique c (c.setOf b)) (other : b' ≠ b) (set : c.setOf b' = c.setOf b) :
    a'.content c b' = a.content c b' := by
  rw [← set] at before
  by_cases copied : a'.ways c b' = []
  · rw [content_of_none copied]
    by_cases victim : v ∈ a.ways c b'
    · rw [refill.saved b' other set victim, before.content_of_mem victim, set]
    · have none' : a.ways c b' = [] := by
        refine List.eq_nil_iff_forall_not_mem.mpr fun w found => ?_
        have still := (refill.mem_ways_other other set).mpr ⟨fun same => victim (same ▸ found), found⟩
        rw [copied] at still
        cases still
      rw [refill.kept b' other set victim, content_of_none none']
  · obtain ⟨w, found⟩ := List.exists_mem_of_ne_nil _ copied
    obtain ⟨apart, found'⟩ := (refill.mem_ways_other other set).mp found
    have after := refill.unique (set ▸ before)
    rw [← set] at after
    rw [after.content_of_mem found, before.content_of_mem found', set, refill.datas, if_neg apart]

theorem content_own (before : a.Unique c (c.setOf b)) (valid : md.isValid = true) : a'.content c b = line := by
  rw [(refill.unique before).content_of_mem (refill.mem_ways_own.mpr ⟨rfl, valid⟩), refill.datas, if_pos rfl]

theorem not_copied_own (invalid : md.isValid = false) : ¬a'.Copied c b := by
  intro copied
  obtain ⟨w, found⟩ := List.exists_mem_of_ne_nil _ copied
  have valid := (refill.mem_ways_own.mp found).2
  rw [invalid] at valid
  cases valid

theorem intact (before : a.Intact c blank (c.setOf b)) (clean : md.state = .clean → line = a'.memory b)
    (counted : md.isValid = true → Counted (nonzeroRows line) md.tcnt (blank b)) : a'.Intact c blank (c.setOf b) := by
  refine ⟨refill.unique before.unique, fun b' set w found state => ?_, fun b' set w found => ?_⟩
  · by_cases other : b' = b
    · subst other
      obtain ⟨rfl, -⟩ := refill.mem_ways_own.mp found
      rw [refill.metas, if_pos rfl] at state
      rw [refill.datas, if_pos rfl]
      exact clean state
    · obtain ⟨apart, found'⟩ := (refill.mem_ways_other other set).mp found
      have gone : v ∉ a.ways c b' := by
        intro victim
        have unique := before.unique
        rw [← set] at unique
        exact apart (unique.way_eq found' victim)
      rw [refill.metas, if_neg apart] at state
      rw [refill.datas, if_neg apart, refill.kept b' other set gone]
      exact before.clean b' set w found' state
  · by_cases other : b' = b
    · subst other
      obtain ⟨rfl, valid⟩ := refill.mem_ways_own.mp found
      rw [refill.metas, refill.datas, if_pos rfl, if_pos rfl]
      exact counted valid
    · obtain ⟨apart, found'⟩ := (refill.mem_ways_other other set).mp found
      rw [refill.metas, refill.datas, if_neg apart, if_neg apart]
      exact before.counted b' set w found'

end Refill

end Arrays

end LowRisc.TagCache
