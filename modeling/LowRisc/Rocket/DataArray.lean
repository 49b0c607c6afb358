import LowRisc.Chisel.Vec

/-! The data and tag arrays of the data cache, with the rows of one set. -/

set_option autoImplicit false

namespace LowRisc.Rocket

open LowRisc.Chisel

/-- The sizes of the data cache. A word keeps its width in the arrays (the code is the identity). -/
structure CacheParams where
  outerDataBeats : Nat
  refillCyclesPerBeat : Nat
  rowWords : Nat
  nWays : Nat
  wordBits : Nat
  tgBits : Nat
  beats_pos : 0 < outerDataBeats
  cycles_pos : 0 < refillCyclesPerBeat
  rowWords_pos : 0 < rowWords
  wordBits_pos : 0 < wordBits
  tgBits_pos : 0 < tgBits

namespace CacheParams

variable (p : CacheParams)

abbrev rowBits : Nat := p.rowWords * p.wordBits

abbrev rowTagBits : Nat := p.rowWords * p.tgBits

abbrev outerDataBits : Nat := p.refillCyclesPerBeat * p.rowBits

abbrev outerTagBits : Nat := p.refillCyclesPerBeat * p.rowTagBits

def refillCycles : Nat := p.refillCyclesPerBeat * p.outerDataBeats

def doNarrowRead : Bool := p.wordBits * p.nWays % p.rowBits == 0

theorem tag_inside (way : Nat) : p.tgBits * (way % p.rowWords) < p.rowTagBits := by
  rw [rowTagBits, Nat.mul_comm]
  exact Nat.mul_lt_mul_of_pos_right (Nat.mod_lt _ p.rowWords_pos) p.tgBits_pos

end CacheParams

structure RowData (p : CacheParams) where
  data : BitVec p.rowBits
  dtag : BitVec p.rowTagBits

/-- The memories: for each group of ways (a way alone without narrow reads) and each array in it, the
elements of every row. -/
structure DataArray (p : CacheParams) where
  data_array : Nat → Nat → Nat → Nat → BitVec p.wordBits
  dtag_array : Nat → Nat → Nat → Nat → BitVec p.rowTagBits

namespace DataArray

variable {p : CacheParams} (m : DataArray p)

/-- With narrow reads the tags of a word, `rowWords` times side by side, are written to memory words as wide as
`rowWords` elements, so that all of them are in the first element and the others are zero. -/
def widened (x : RowData p) (a i : Nat) : BitVec p.rowTagBits :=
  ((toBits p.rowWords fun _ => x.dtag.extractLsb' (p.tgBits * a) p.tgBits).setWidth
    (p.rowWords * p.rowTagBits)).extractLsb' (p.rowTagBits * i) p.rowTagBits

def groupEn (p : CacheParams) (way_en : Nat → Bool) (g i : Nat) : Bool := way_en (g * p.rowWords + i)

def write (way_en : Nat → Bool) (row : Nat) (wmask : Nat → Bool) (x : RowData p) : DataArray p :=
  if p.doNarrowRead then
    { data_array := fun g a r i =>
        if (List.range p.rowWords).any (groupEn p way_en g) && wmask a && groupEn p way_en g i && r == row then
          x.data.extractLsb' (p.wordBits * a) p.wordBits
        else m.data_array g a r i
      dtag_array := fun g a r i =>
        if (List.range p.rowWords).any (groupEn p way_en g) && wmask a && groupEn p way_en g i && r == row then
          widened x a i
        else m.dtag_array g a r i }
  else
    { data_array := fun w a r i =>
        if way_en w && wmask i && r == row then x.data.extractLsb' (p.wordBits * i) p.wordBits
        else m.data_array w a r i
      dtag_array := fun w a r i =>
        if way_en w && wmask i && r == row then x.dtag.extractLsb' (p.rowTagBits * i) p.rowTagBits
        else m.dtag_array w a r i }

/-- What the arrays answer for a way; `word` is the word that the address selects in the row. -/
def resp_data (way row word : Nat) : BitVec p.rowBits :=
  if p.doNarrowRead then
    toBits p.rowWords fun a =>
      (toBits p.rowWords fun i => m.data_array (way / p.rowWords) (if a = 0 then word else a) row i).extractLsb'
        (p.wordBits * (way % p.rowWords)) p.wordBits
  else toBits p.rowWords fun i => m.data_array way 0 row i

def resp_dtag (way row word : Nat) : BitVec p.rowTagBits :=
  if p.doNarrowRead then
    toBits p.rowWords fun a =>
      -- the wire of an array has the width of one element, so the elements above the first are cut off
      ((toBits p.rowWords fun i =>
        m.dtag_array (way / p.rowWords) (if a = 0 then word else a) row i).setWidth p.rowTagBits).extractLsb'
          (p.tgBits * (way % p.rowWords)) p.tgBits
  else (toBits p.rowWords fun i => m.dtag_array way 0 row i).setWidth p.rowTagBits

/-- The answer for the first word of a row. -/
def resp (way row : Nat) : RowData p := ⟨m.resp_data way row 0, m.resp_dtag way row 0⟩

def fill (way row : Nat) (x : RowData p) : DataArray p := m.write (· == way) row (fun _ => true) x

theorem groupEn_self (way : Nat) : groupEn p (· == way) (way / p.rowWords) (way % p.rowWords) = true := by
  simp [groupEn, Nat.div_add_mod']

theorem group_enabled (way : Nat) :
    (List.range p.rowWords).any (groupEn p (· == way) (way / p.rowWords)) = true := by
  rw [List.any_eq_true]
  exact ⟨way % p.rowWords, List.mem_range.mpr (Nat.mod_lt _ p.rowWords_pos), groupEn_self way⟩

/-- The ways whose tags come back: with narrow reads only the first way of each group. -/
def KeepsTags (p : CacheParams) (way : Nat) : Prop := p.doNarrowRead = false ∨ way % p.rowWords = 0

theorem fill_resp_data (way row : Nat) (x : RowData p) : (m.fill way row x).resp_data way row 0 = x.data := by
  unfold resp_data fill write
  by_cases narrow : p.doNarrowRead = true
  · have words (a : Nat) : (if a = 0 then 0 else a) = a := by split <;> omega
    simp only [narrow, ↓reduceIte, words, extract_toBits _ (Nat.mod_lt way p.rowWords_pos)]
    simp [group_enabled, groupEn_self, toBits_extract]
  · simp [narrow, toBits_extract]

/-- The first element answers with the tags of the word. -/
theorem widened_first (x : RowData p) (a : Nat) :
    (widened x a 0).extractLsb' 0 p.tgBits = x.dtag.extractLsb' (p.tgBits * a) p.tgBits := by
  have wide : p.rowTagBits ≤ p.rowWords * p.rowTagBits := Nat.le_mul_of_pos_left _ p.rowWords_pos
  rw [widened, Nat.mul_zero, extract_setWidth _ wide]
  exact extract_toBits (fun _ => x.dtag.extractLsb' (p.tgBits * a) p.tgBits) p.rowWords_pos

theorem fill_resp_dtag {way : Nat} (keeps : KeepsTags p way) (row : Nat) (x : RowData p) :
    (m.fill way row x).resp_dtag way row 0 = x.dtag := by
  unfold resp_dtag fill write
  by_cases narrow : p.doNarrowRead = true
  · have first : way % p.rowWords = 0 := keeps.resolve_left (by simp [narrow])
    have on := groupEn_self (p := p) way
    rw [first] at on
    have words (a : Nat) : (if a = 0 then 0 else a) = a := by split <;> omega
    simp only [narrow, ↓reduceIte, words, setWidth_toBits _ p.rowWords_pos, first, Nat.mul_zero]
    simp only [group_enabled, on, beq_self_eq_true, Bool.and_true, ↓reduceIte, widened_first]
    exact toBits_extract x.dtag
  · simp only [narrow, Bool.false_eq_true, ↓reduceIte, setWidth_toBits _ p.rowWords_pos, beq_self_eq_true,
      Bool.and_true, Nat.mul_zero]
    rw [← shift_eq_extract]
    simp

theorem fill_resp_of_ne {row other : Nat} (apart : other ≠ row) (way : Nat) (x : RowData p) :
    (m.fill way row x).resp way other = m.resp way other := by
  unfold resp resp_data resp_dtag fill write
  by_cases narrow : p.doNarrowRead = true
  · simp [narrow, apart]
  · simp [narrow, apart]

theorem fill_first_element {way : Nat} (narrow : p.doNarrowRead = true) (later : way % p.rowWords ≠ 0) (row : Nat)
    (x : RowData p) (g a r : Nat) : (m.fill way row x).dtag_array g a r 0 = m.dtag_array g a r 0 := by
  have off : groupEn p (· == way) g 0 = false := by
    by_contra on
    have same : g * p.rowWords = way := by simpa [groupEn] using on
    exact later (by rw [← same, Nat.mul_mod_left])
  simp [fill, write, narrow, off]

/-- Every way answers with the tags of the first element. -/
theorem resp_dtag_first (narrow : p.doNarrowRead = true) (way row : Nat) :
    (m.resp_dtag way row 0).getLsbD 0 =
      (m.dtag_array (way / p.rowWords) 0 row 0).getLsbD (p.tgBits * (way % p.rowWords)) := by
  have positive := Nat.mul_pos p.rowWords_pos p.tgBits_pos
  have inside := p.tag_inside way
  unfold resp_dtag
  simp only [narrow, ↓reduceIte, setWidth_toBits _ p.rowWords_pos]
  rw [getLsbD_toBits, BitVec.getLsbD_extractLsb']
  simp [positive, p.tgBits_pos]

end DataArray

/-- The registers `regs` and `tags` of stage two, all of them loaded. -/
def capture {p : CacheParams} (x : RowData p) : RowData p where
  data := toBits p.rowWords fun i => (x.data >>> (p.wordBits * i)).setWidth p.wordBits
  dtag := toBits p.rowWords fun i => (x.dtag >>> (p.tgBits * i)).setWidth p.tgBits

@[simp] theorem capture_eq {p : CacheParams} (x : RowData p) : capture x = x := by
  cases x
  simp only [capture, shift_eq_extract, toBits_extract]

end LowRisc.Rocket
