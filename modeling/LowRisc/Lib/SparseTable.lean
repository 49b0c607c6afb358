import LowRisc.Lib.Transition
import Mathlib.Data.BitVec

/-! Tables of bit fields, some blocks of which are absent.

A block is a sequence of rows, and an entry of the table is a field of a row. The entries of an
absent block are all zero, whatever is stored in its place. A block is dropped with its last entry
that is not zero, and starts empty when it comes back.
-/

set_option autoImplicit false

namespace LowRisc.Lib

variable {n w rows : Nat} {ι : Type}

/-! Fields of a row. -/

def field (w : Nat) (row : BitVec n) (shift : Nat) : BitVec w := (row >>> shift).setWidth w

def spread (n : Nat) (v : BitVec w) (shift : Nat) : BitVec n := v.setWidth n <<< shift

def masked (old data mask : BitVec n) : BitVec n := (data &&& mask) ||| (old &&& ~~~mask)

section
variable {row : BitVec n} {data mask : BitVec w} {s t : Nat}

theorem getLsbD_field {j : Nat} (inside : j < w) : (field w row s).getLsbD j = row.getLsbD (s + j) := by
  simp [field, inside]

theorem getLsbD_spread {j : Nat} (fits : s + w ≤ n) : (spread n data s).getLsbD (s + j) = data.getLsbD j := by
  by_cases inside : j < w
  · simp [spread, show s + j < n by omega]
  · simp [spread, BitVec.getLsbD_of_ge data j (by omega)]

theorem getLsbD_spread_apart {j : Nat} (inside : j < w) (apart : s + w ≤ t ∨ t + w ≤ s) :
    (spread n data s).getLsbD (t + j) = false := by
  rcases apart with below | above
  · simp [spread, BitVec.getLsbD_of_ge data (t + j - s) (by omega)]
  · simp [spread, show t + j < s by omega]

@[simp] theorem field_zero : field w 0#n s = 0#w := by simp [field]

theorem field_masked_same (fits : s + w ≤ n) :
    field w (masked row (spread n data s) (spread n mask s)) s = masked (field w row s) data mask := by
  apply BitVec.eq_of_getLsbD_eq
  intro j inside
  simp only [getLsbD_field inside, masked, BitVec.getLsbD_or, BitVec.getLsbD_and, BitVec.getLsbD_not,
    getLsbD_spread fits, inside, show s + j < n by omega]

theorem field_masked_apart (apart : s + w ≤ t ∨ t + w ≤ s) :
    field w (masked row (spread n data s) (spread n mask s)) t = field w row t := by
  apply BitVec.eq_of_getLsbD_eq
  intro j inside
  have clear : (spread n mask s).getLsbD (t + j) = false := getLsbD_spread_apart inside apart
  rw [getLsbD_field inside, getLsbD_field inside]
  by_cases within : t + j < n
  · simp only [masked, BitVec.getLsbD_or, BitVec.getLsbD_and, BitVec.getLsbD_not, clear, within, decide_true,
      Bool.and_false, Bool.not_false, Bool.and_true, Bool.false_or]
  · simp only [BitVec.getLsbD_of_ge _ (t + j) (Nat.not_lt.mp within)]

theorem spread_and (fits : s + w ≤ n) (data mask : BitVec w) :
    spread n data s &&& spread n mask s = spread n (data &&& mask) s := by
  apply BitVec.eq_of_getLsbD_eq
  intro j inside
  by_cases low : j < s
  · simp [spread, low]
  · obtain ⟨k, rfl⟩ := Nat.exists_eq_add_of_le (Nat.not_lt.mp low)
    simp only [BitVec.getLsbD_and, getLsbD_spread fits]

theorem field_spread (fits : s + w ≤ n) (data : BitVec w) : field w (spread n data s) s = data := by
  apply BitVec.eq_of_getLsbD_eq
  intro j inside
  rw [getLsbD_field inside, getLsbD_spread fits]

theorem spread_eq_zero_iff (fits : s + w ≤ n) (data : BitVec w) : spread n data s = 0 ↔ data = 0 := by
  constructor
  · intro zero
    rw [← field_spread fits data, zero]
    exact field_zero
  · rintro rfl
    simp [spread]

end

theorem masked_eq_zero_iff {old data mask : BitVec n} :
    masked old data mask = 0 ↔ data &&& mask = 0 ∧ old &&& ~~~mask = 0 :=
  BitVec.or_eq_zero_iff

theorem masked_self (old mask : BitVec n) : masked old old mask = old := by
  apply BitVec.eq_of_getLsbD_eq
  intro j inside
  simp only [masked, BitVec.getLsbD_or, BitVec.getLsbD_and, BitVec.getLsbD_not, inside, decide_true, Bool.true_and]
  cases old.getLsbD j <;> cases mask.getLsbD j <;> rfl

theorem and_of_field {row : BitVec n} {old data mask : BitVec w} {s : Nat} (fits : s + w ≤ n) (held : field w row s = old)
    (outside : data &&& ~~~mask = old &&& ~~~mask) :
    row &&& (spread n data s &&& ~~~spread n mask s) = spread n data s &&& ~~~spread n mask s := by
  apply BitVec.eq_of_getLsbD_eq
  intro j inside
  by_cases low : j < s
  · simp [spread, low]
  · obtain ⟨k, rfl⟩ := Nat.exists_eq_add_of_le (Nat.not_lt.mp low)
    by_cases within : k < w
    · have bit := congrArg (fun x => x.getLsbD k) outside
      simp only [BitVec.getLsbD_and, BitVec.getLsbD_not, within, decide_true, Bool.true_and, ← held, getLsbD_field within] at bit
      simp only [BitVec.getLsbD_and, BitVec.getLsbD_not, inside, decide_true, Bool.true_and, getLsbD_spread fits]
      revert bit
      cases row.getLsbD (s + k) <;> cases data.getLsbD k <;> cases mask.getLsbD k <;> simp
    · simp only [BitVec.getLsbD_and, getLsbD_spread fits, BitVec.getLsbD_of_ge data k (Nat.not_lt.mp within), Bool.false_and,
        Bool.and_false]

/-! Blocks. -/

structure Slot where
  block : Nat
  row : Nat
  shift : Nat
  deriving DecidableEq

namespace Slot

def get (w : Nat) (content : Nat → Nat → BitVec n) (s : Slot) : BitVec w := field w (content s.block s.row) s.shift

def Apart (w : Nat) (s t : Slot) : Prop :=
  s.block ≠ t.block ∨ s.row ≠ t.row ∨ s.shift + w ≤ t.shift ∨ t.shift + w ≤ s.shift

structure Fits (n w rows : Nat) (s : Slot) : Prop where
  bits : s.shift + w ≤ n
  row : s.row < rows

/-- A block with the bits of one entry under a mask replaced. -/
def put (s : Slot) (block : Nat → BitVec n) (data mask : BitVec w) : Nat → BitVec n :=
  upd block s.row (masked (block s.row) (spread n data s.shift) (spread n mask s.shift))

variable {s t : Slot} {block : Nat → BitVec n} {data mask : BitVec w}

theorem field_put_same (fits : s.Fits n w rows) :
    field w (s.put block data mask s.row) s.shift = masked (field w (block s.row) s.shift) data mask := by
  rw [put, upd_same, field_masked_same fits.bits]

theorem field_put_apart (apart : s.row ≠ t.row ∨ s.shift + w ≤ t.shift ∨ t.shift + w ≤ s.shift) :
    field w (s.put block data mask t.row) t.shift = field w (block t.row) t.shift := by
  by_cases same : t.row = s.row
  · rw [put, same, upd_same, field_masked_apart (apart.resolve_left (absurd same.symm))]
  · rw [put, upd_of_ne same]

end Slot

def Filled (rows : Nat) (block : Nat → BitVec n) : Prop := ∃ r < rows, block r ≠ 0

theorem filled_upd_iff {block : Nat → BitVec n} {r : Nat} (inside : r < rows) (v : BitVec n) :
    Filled rows (upd block r v) ↔ v ≠ 0 ∨ ∃ k < rows, k ≠ r ∧ block k ≠ 0 := by
  constructor
  · rintro ⟨k, bound, some⟩
    by_cases same : k = r
    · subst same
      rw [upd_same] at some
      exact .inl some
    · rw [upd_of_ne same] at some
      exact .inr ⟨k, bound, same, some⟩
  · rintro (some | ⟨k, bound, other, some⟩)
    · exact ⟨r, inside, by rwa [upd_same]⟩
    · exact ⟨k, bound, by rwa [upd_of_ne other]⟩

theorem filled_of_field {block : Nat → BitVec n} {s : Slot} (inside : s.row < rows)
    (some : field w (block s.row) s.shift ≠ 0) : Filled rows block := by
  refine ⟨s.row, inside, fun zero => some ?_⟩
  rw [zero]
  exact field_zero

/-- A write leaves something in the block if it sets a bit, or something else is left. -/
theorem filled_put_iff {s : Slot} {block : Nat → BitVec n} {data mask : BitVec w} (fits : s.Fits n w rows) :
    Filled rows (s.put block data mask) ↔
      data &&& mask ≠ 0 ∨ Filled rows (upd block s.row (block s.row &&& ~~~spread n mask s.shift)) := by
  have zero : masked (block s.row) (spread n data s.shift) (spread n mask s.shift) = 0 ↔
      data &&& mask = 0 ∧ block s.row &&& ~~~spread n mask s.shift = 0 := by
    rw [masked_eq_zero_iff, spread_and fits.bits, spread_eq_zero_iff fits.bits]
  rw [Slot.put, filled_upd_iff fits.row, filled_upd_iff fits.row, ne_eq, zero]
  tauto

/-! Tables. -/

/-- Entries of present blocks are stored in their places and their blocks are filled. Absent blocks
have zero entries, and nobody keeps a copy of them. -/
structure Sparse (rows : Nat) (slot : ι → Slot) (content : Nat → Nat → BitVec n) (copied : Nat → Prop)
    (present : ι → Bool) (value : ι → BitVec w) : Prop where
  uniform : ∀ i j, (slot i).block = (slot j).block → present i = present j
  held : ∀ i, present i = true → (slot i).get w content = value i
  filled : ∀ i, present i = true → Filled rows (content (slot i).block)
  empty : ∀ i, present i = false → value i = 0
  lacking : ∀ i, present i = false → ¬copied (slot i).block

/-- Two entries have the same place or no bit in common. -/
structure Slots (n w rows : Nat) (slot : ι → Slot) : Prop where
  fits : ∀ i, (slot i).Fits n w rows
  cases : ∀ i j, slot i = slot j ∨ (slot i).Apart w (slot j)

namespace Sparse

variable {slot : ι → Slot} {content content' : Nat → Nat → BitVec n} {copied copied' : Nat → Prop}
  {present : ι → Bool}
  {value : ι → BitVec w} {i : ι}

def base (slot : ι → Slot) (content : Nat → Nat → BitVec n) (present : ι → Bool) (i : ι) : Nat → BitVec n :=
  if present i then content (slot i).block else fun _ => 0

theorem field_base (sparse : Sparse rows slot content copied present value) {j : ι}
    (same : (slot j).block = (slot i).block) :
    field w (base slot content present i (slot j).row) (slot j).shift = value j := by
  have uniform := sparse.uniform j i same
  cases there : present i with
  | true =>
    rw [base, there, if_pos rfl, ← same]
    exact sparse.held j (uniform.trans there)
  | false =>
    rw [sparse.empty j (uniform.trans there)]
    simp only [base, there, Bool.false_eq_true, if_false]
    exact field_zero

theorem value_congr (sparse : Sparse rows slot content copied present value) {j : ι} (same : slot j = slot i) :
    value j = value i := by
  rw [← sparse.field_base (i := i) (congrArg Slot.block same), ← sparse.field_base (i := i) (j := i) rfl, same]

theorem field_put (sparse : Sparse rows slot content copied present value) (slots : Slots n w rows slot) {j : ι}
    (same : (slot j).block = (slot i).block) (data mask : BitVec w) :
    field w ((slot i).put (base slot content present i) data mask (slot j).row) (slot j).shift =
      if slot j = slot i then masked (value i) data mask else value j := by
  split
  · rename_i here
    rw [here, Slot.field_put_same (slots.fits i), sparse.field_base rfl]
  · rename_i elsewhere
    have apart := ((slots.cases i j).resolve_left (Ne.symm elsewhere)).resolve_left (fun other => other same.symm)
    rw [Slot.field_put_apart apart, sparse.field_base same]

section
variable (sparse : Sparse rows slot content copied present value) (slots : Slots n w rows slot) (data mask : BitVec w)
  (others : ∀ b, b ≠ (slot i).block → content' b = content b)
  (copies : ∀ b, b ≠ (slot i).block → copied' b → copied b)

include sparse slots others copies

theorem write (own : content' (slot i).block = (slot i).put (base slot content present i) data mask)
    (some : Filled rows (content' (slot i).block)) :
    Sparse rows slot content' copied' (fun j => if (slot j).block = (slot i).block then true else present j)
      (fun j => if slot j = slot i then masked (value i) data mask else value j) where
  uniform j k same := by simp only [same, sparse.uniform j k same]
  held j there := by
    by_cases here : (slot j).block = (slot i).block
    · simp only [Slot.get, here, own, sparse.field_put slots here]
    · simp only [here, if_false] at there
      have other : slot j ≠ slot i := fun same => here (congrArg Slot.block same)
      simp only [Slot.get, others _ here, other, if_false]
      exact sparse.held j there
  filled j there := by
    by_cases here : (slot j).block = (slot i).block
    · rwa [here]
    · simp only [here, if_false] at there
      rw [others _ here]
      exact sparse.filled j there
  empty j absent := by
    by_cases here : (slot j).block = (slot i).block
    · simp [here] at absent
    · simp only [here, if_false] at absent
      have other : slot j ≠ slot i := fun same => here (congrArg Slot.block same)
      simp only [other, if_false]
      exact sparse.empty j absent
  lacking j absent := by
    by_cases here : (slot j).block = (slot i).block
    · simp [here] at absent
    · simp only [here, if_false] at absent
      exact fun copy => sparse.lacking j absent (copies _ here copy)

theorem drop (none : ¬Filled rows ((slot i).put (base slot content present i) data mask))
    (gone : ¬copied' (slot i).block) :
    Sparse rows slot content' copied' (fun j => if (slot j).block = (slot i).block then false else present j)
      (fun j => if slot j = slot i then masked (value i) data mask else value j) where
  uniform j k same := by simp only [same, sparse.uniform j k same]
  held j there := by
    by_cases here : (slot j).block = (slot i).block
    · simp [here] at there
    · simp only [here, if_false] at there
      have other : slot j ≠ slot i := fun same => here (congrArg Slot.block same)
      simp only [Slot.get, others _ here, other, if_false]
      exact sparse.held j there
  filled j there := by
    by_cases here : (slot j).block = (slot i).block
    · simp [here] at there
    · simp only [here, if_false] at there
      rw [others _ here]
      exact sparse.filled j there
  empty j absent := by
    by_cases here : (slot j).block = (slot i).block
    -- An entry of the block that is left would be in one of its rows.
    · rw [← sparse.field_put slots here]
      by_contra left
      exact none (filled_of_field (slots.fits j).row left)
    · simp only [here, if_false] at absent
      have other : slot j ≠ slot i := fun same => here (congrArg Slot.block same)
      simp only [other, if_false]
      exact sparse.empty j absent
  lacking j absent := by
    by_cases here : (slot j).block = (slot i).block
    · rwa [here]
    · simp only [here, if_false] at absent
      exact fun copy => sparse.lacking j absent (copies _ here copy)

theorem update {left : Bool} (fills : left = true ↔ Filled rows ((slot i).put (base slot content present i) data mask))
    (own : left = true → content' (slot i).block = (slot i).put (base slot content present i) data mask)
    (gone : left = false → ¬copied' (slot i).block) :
    Sparse rows slot content' copied' (fun j => if (slot j).block = (slot i).block then left else present j)
      (fun j => if slot j = slot i then masked (value i) data mask else value j) := by
  cases left with
  | true => exact sparse.write slots data mask others copies (own rfl) (by rw [own rfl]; exact fills.mp rfl)
  | false => exact sparse.drop slots data mask others copies (fun filled => by cases fills.mpr filled) (gone rfl)

end

theorem frame (sparse : Sparse rows slot content copied present value)
    (same : ∀ j, content' (slot j).block = content (slot j).block)
    (copies : ∀ j, copied' (slot j).block → copied (slot j).block ∨ present j = true) :
    Sparse rows slot content' copied' present value where
  uniform := sparse.uniform
  held j there := by
    rw [Slot.get, same]
    exact sparse.held j there
  filled j there := by
    rw [same]
    exact sparse.filled j there
  empty := sparse.empty
  lacking j absent copy := by
    rcases copies j copy with before | there
    · exact sparse.lacking j absent before
    · rw [absent] at there
      cases there

end Sparse

end LowRisc.Lib
