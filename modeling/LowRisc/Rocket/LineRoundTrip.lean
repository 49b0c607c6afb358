import LowRisc.Chisel.Util
import LowRisc.Rocket.DataArray

/-! The refill of a line through the serializer into the arrays, and its write-back. -/

set_option autoImplicit false

namespace LowRisc.Rocket

open LowRisc.Chisel

/-- A data beat of the outer channel. -/
structure Beat (p : CacheParams) where
  data : BitVec p.outerDataBits
  tag : BitVec p.outerTagBits

@[ext] structure Release (p : CacheParams) where
  addr_beat : Nat
  data : BitVec p.outerDataBits
  tag : BitVec p.outerTagBits

section Refill

variable (p : CacheParams)

/-- The serializer of the grants, the row counter of the miss handler and the arrays; `taken` counts
the beats that the serializer accepted. -/
structure Refill where
  cnt : Nat
  rbits : Beat p
  active : Bool
  refill_cnt : Nat
  arrays : DataArray p
  taken : Nat

structure RefillInput where
  grant_valid : Bool
  write_ready : Bool

variable {p}
variable (way : Nat) (line : Nat → Beat p) (m : Refill p) (e : RefillInput)

namespace Refill

def in_valid : Bool := e.grant_valid && decide (m.taken < p.outerDataBeats)

def in_ready : Bool := if p.refillCyclesPerBeat = 1 then e.write_ready else !m.active

def out_valid : Bool := if p.refillCyclesPerBeat = 1 then in_valid m e else m.active || in_valid m e

/-- `shifter(cnt)`; the tag is handed on whole. -/
def out_bits : Beat p :=
  if p.refillCyclesPerBeat ≠ 1 ∧ m.active then
    { m.rbits with data := (m.rbits.data.extractLsb' (m.cnt * p.rowBits) p.rowBits).setWidth p.outerDataBits }
  else line m.taken

def fired : Bool := out_valid m e && e.write_ready

/-- The row for the arrays: the low bits of what comes out. -/
def row : RowData p := ⟨(out_bits line m).data.setWidth p.rowBits, (out_bits line m).tag.setWidth p.rowTagBits⟩

def next : Refill p where
  cnt :=
    if p.refillCyclesPerBeat = 1 then m.cnt
    else if m.active then
      if e.write_ready then
        if m.cnt = p.refillCyclesPerBeat - 1 then 0 else (m.cnt + 1) % 2 ^ log2Up p.refillCyclesPerBeat
      else m.cnt
    else if in_valid m e then if e.write_ready then 1 else 0
    else m.cnt
  rbits := if p.refillCyclesPerBeat ≠ 1 ∧ !m.active ∧ in_valid m e then line m.taken else m.rbits
  active :=
    if p.refillCyclesPerBeat = 1 then m.active
    else if m.active then !(e.write_ready && m.cnt == p.refillCyclesPerBeat - 1)
    else in_valid m e
  refill_cnt := counterNext (fired m e) p.refillCycles m.refill_cnt
  arrays := if fired m e then m.arrays.fill way m.refill_cnt (row line m) else m.arrays
  taken := if in_valid m e && in_ready m e then m.taken + 1 else m.taken

def run (es : List RefillInput) : Refill p := es.foldl (next way line) m

structure Fresh : Prop where
  active : m.active = false
  refill_cnt : m.refill_cnt = 0
  taken : m.taken = 0

def Done : Prop := m.taken = p.outerDataBeats ∧ m.active = false

end Refill

end Refill

namespace WritebackUnit

/-- The registers of the unit and of the stages behind the arrays. `s1_row` is the row the unit
asked for in the cycle before. -/
structure Regs (p : CacheParams) where
  active : Bool
  r1_data_req_fired : Bool
  r2_data_req_fired : Bool
  data_req_cnt : Nat
  buf_v : BitVec (p.refillCyclesPerBeat - 1)
  beat_cnt : Nat
  data_buf : BitVec p.outerDataBits
  dtag_buf : BitVec p.outerTagBits
  s1_row : Option Nat
  s2_row : RowData p

/-- One cycle; `stray` is a row that stage two loads for another request. -/
structure Input (p : CacheParams) where
  data_req_ready : Bool
  meta_read_ready : Bool
  release_ready : Bool
  stray : Option (RowData p)

variable {p : CacheParams} (arrays : DataArray p) (way : Nat) (m : Regs p) (e : Input p)

def fire : Bool := m.active && decide (m.data_req_cnt < p.refillCycles)

def bothFire : Bool := (fire m && e.data_req_ready) && (fire m && e.meta_read_ready)

def reqRow : Nat := if 1 < p.refillCycles then m.data_req_cnt % 2 ^ log2Up p.refillCycles else 0

def beat_done : Bool := m.buf_v == BitVec.allOnes _

def release_valid : Bool := m.active && m.r2_data_req_fired && beat_done m

def releaseFire : Bool := release_valid m && e.release_ready

def refused : Bool := release_valid m && !e.release_ready

/-- `Cat(data_resp, data_buf)` has a row more than a beat and loses its upper end. -/
def release : Release p where
  addr_beat := m.beat_cnt
  data :=
    if 1 < p.refillCyclesPerBeat then (m.s2_row.data ++ m.data_buf).setWidth p.outerDataBits
    else m.s2_row.data.setWidth p.outerDataBits
  tag :=
    if 1 < p.refillCyclesPerBeat then (m.s2_row.dtag ++ m.dtag_buf).setWidth p.outerTagBits
    else m.s2_row.dtag.setWidth p.outerTagBits

/-- The row behind the release valid goes into the buffers. -/
def collects : Bool :=
  decide (1 < p.refillCyclesPerBeat) && m.active && m.r2_data_req_fired && !beat_done m

def next : Regs p where
  active :=
    if m.active && m.r2_data_req_fired && !m.r1_data_req_fired then
      decide (m.data_req_cnt < p.refillCycles) || !e.release_ready
    else m.active
  r1_data_req_fired :=
    if m.active then if refused m e then false else bothFire m e else m.r1_data_req_fired
  r2_data_req_fired :=
    if m.active then if refused m e then false else m.r1_data_req_fired else m.r2_data_req_fired
  data_req_cnt :=
    if refused m e then
      (m.data_req_cnt + 2 ^ log2Up (p.refillCycles + 1) -
        if decide (1 < p.refillCycles) && m.r1_data_req_fired then 2 else 1) % 2 ^ log2Up (p.refillCycles + 1)
    else if bothFire m e then (m.data_req_cnt + 1) % 2 ^ log2Up (p.refillCycles + 1)
    else m.data_req_cnt
  buf_v :=
    if collects m then m.buf_v >>> 1 ||| BitVec.twoPow _ (p.refillCyclesPerBeat - 2)
    else if releaseFire m e then if 1 < p.refillCyclesPerBeat then 0 else m.buf_v
    else m.buf_v
  beat_cnt := counterNext (releaseFire m e) p.outerDataBeats m.beat_cnt
  data_buf :=
    if collects m then
      (m.s2_row.data ++ m.data_buf.extractLsb' p.rowBits ((p.refillCyclesPerBeat - 1) * p.rowBits)).setWidth _
    else m.data_buf
  dtag_buf :=
    -- the source cuts the old part out of `data_buf`
    if collects m then
      (m.s2_row.dtag ++ m.data_buf.extractLsb' p.rowTagBits ((p.refillCyclesPerBeat - 1) * p.rowTagBits)).setWidth _
    else m.dtag_buf
  s1_row := if bothFire m e then some (reqRow m) else none
  s2_row :=
    match m.s1_row with
    | some r => capture (arrays.resp way r)
    | none => e.stray.getD m.s2_row

structure Idle : Prop where
  active : m.active = false
  r1 : m.r1_data_req_fired = false
  r2 : m.r2_data_req_fired = false
  beat_cnt : m.beat_cnt = 0

def start : Regs p :=
  { m with
    active := true
    data_req_cnt := 0
    buf_v := if 1 < p.refillCyclesPerBeat then 0 else m.buf_v }

structure System (p : CacheParams) where
  regs : Regs p
  released : List (Release p)

def cycle (s : System p) (e : Input p) : System p where
  regs := next arrays way s.regs e
  released := s.released ++ if releaseFire s.regs e then [release s.regs] else []

def run (s : System p) (es : List (Input p)) : System p := es.foldl (cycle arrays way) s

/-- A cycle in which nothing holds the unit up. -/
def calm (p : CacheParams) : Input p := ⟨true, true, true, none⟩

/-- The write-back of the line that the arrays hold, from its request on. -/
def writeback (es : List (Input p)) : System p := run arrays way ⟨start m, []⟩ es

end WritebackUnit

/-- The beats of the grant, as a write-back has to release them. -/
def granted (p : CacheParams) (line : Nat → Beat p) : List (Release p) :=
  (List.range p.outerDataBeats).map fun k => ⟨k, (line k).data, (line k).tag⟩

/-- A line goes through the cache unchanged: the refill can be brought to its end; the write-back
releases the beats of the grant in their order and no others, all of them when it ends, and it ends when
nothing holds it up any more. -/
structure Preserves (p : CacheParams) (way : Nat) (line : Nat → Beat p) : Prop where
  refills : ∀ m : Refill p, m.Fresh → ∀ es, ∃ fs, (m.run way line (es ++ fs)).Done
  inOrder : ∀ m : Refill p, m.Fresh → ∀ es, (m.run way line es).Done →
    ∀ w : WritebackUnit.Regs p, WritebackUnit.Idle w → ∀ fs,
      (WritebackUnit.writeback (m.run way line es).arrays way w fs).released <+: granted p line
  whole : ∀ m : Refill p, m.Fresh → ∀ es, (m.run way line es).Done →
    ∀ w : WritebackUnit.Regs p, WritebackUnit.Idle w → ∀ fs,
      (WritebackUnit.writeback (m.run way line es).arrays way w fs).regs.active = false →
        (WritebackUnit.writeback (m.run way line es).arrays way w fs).released = granted p line
  ends : ∀ m : Refill p, m.Fresh → ∀ es, (m.run way line es).Done →
    ∀ w : WritebackUnit.Regs p, WritebackUnit.Idle w → ∀ fs, ∃ k,
      (WritebackUnit.writeback (m.run way line es).arrays way w
        (fs ++ List.replicate k (WritebackUnit.calm p))).regs.active = false

section Sufficient

variable {p : CacheParams} {way : Nat} {line : Nat → Beat p}

def rowOf (x : Beat p) : RowData p := ⟨x.data.setWidth p.rowBits, x.tag.setWidth p.rowTagBits⟩

theorem refillCycles_one (one : p.refillCyclesPerBeat = 1) : p.refillCycles = p.outerDataBeats := by
  rw [CacheParams.refillCycles, one, Nat.one_mul]

theorem setWidth_back {n k : Nat} (x : BitVec n) (wide : n ≤ k) : (x.setWidth k).setWidth n = x := by
  apply BitVec.eq_of_getLsbD_eq
  intro i low
  simp [low, Nat.lt_of_lt_of_le low wide]

namespace Refill

variable {m : Refill p}

/-- With one row for each beat the rows written are the beats taken. -/
structure Filled (way : Nat) (line : Nat → Beat p) (m : Refill p) : Prop where
  active : m.active = false
  within : m.taken ≤ p.outerDataBeats
  refill_cnt : m.taken < p.outerDataBeats → m.refill_cnt = m.taken
  rows : ∀ k < m.taken, m.arrays.resp way k = rowOf (line k)

theorem Fresh.filled (fresh : m.Fresh) : Filled way line m where
  active := fresh.active
  within := by rw [fresh.taken]; exact Nat.zero_le _
  refill_cnt _ := by rw [fresh.refill_cnt, fresh.taken]
  rows k below := by rw [fresh.taken] at below; omega

theorem Filled.next (one : p.refillCyclesPerBeat = 1) (keeps : DataArray.KeepsTags p way) (filled : Filled way line m)
    (e : RefillInput) : Filled way line (m.next way line e) := by
  have same : fired m e = (in_valid m e && in_ready m e) := by simp [fired, out_valid, in_ready, one]
  by_cases takes : in_valid m e && in_ready m e
  · have below : m.taken < p.outerDataBeats := by
      simp only [in_valid, Bool.and_eq_true, decide_eq_true_eq] at takes
      exact takes.1.2
    have place := filled.refill_cnt below
    have written : row line m = rowOf (line m.taken) := by simp [row, out_bits, one, rowOf]
    refine ⟨by simp [Refill.next, one, filled.active], by simp only [Refill.next, takes]; exact below, ?_, ?_⟩
    · intro more
      simp only [Refill.next, takes, ↓reduceIte] at more ⊢
      simp only [same, takes, counterNext, ↓reduceIte, refillCycles_one one, place]
      rw [if_neg (by omega)]
    · intro k before
      simp only [Refill.next, takes, same, ↓reduceIte, place, written] at before ⊢
      by_cases last : k = m.taken
      · rw [last, DataArray.resp, DataArray.fill_resp_data, DataArray.fill_resp_dtag _ keeps]
      · rw [DataArray.fill_resp_of_ne _ last]
        exact filled.rows k (by omega)
  · have off : (in_valid m e && in_ready m e) = false := by simpa using takes
    refine ⟨by simp [Refill.next, one, filled.active], ?_, ?_, ?_⟩
    · simpa [Refill.next, off] using filled.within
    · simpa [Refill.next, off, same, counterNext] using filled.refill_cnt
    · simpa [Refill.next, off, same] using filled.rows

theorem Filled.run (one : p.refillCyclesPerBeat = 1) (keeps : DataArray.KeepsTags p way) (filled : Filled way line m)
    (es : List RefillInput) : Filled way line (m.run way line es) := by
  induction es generalizing m with
  | nil => exact filled
  | cons e es ih => exact ih (filled.next one keeps e)

theorem run_append (es fs : List RefillInput) : m.run way line (es ++ fs) = (m.run way line es).run way line fs :=
  List.foldl_append

theorem Filled.finishes (one : p.refillCyclesPerBeat = 1) (keeps : DataArray.KeepsTags p way)
    (filled : Filled way line m) : ∃ fs, (m.run way line fs).Done := by
  induction left : p.outerDataBeats - m.taken generalizing m with
  | zero => exact ⟨[], by have := filled.within; exact ⟨show m.taken = _ by omega, filled.active⟩⟩
  | succ d ih =>
    have more : m.taken < p.outerDataBeats := by omega
    have counted : (m.next way line ⟨true, true⟩).taken = m.taken + 1 := by
      simp [Refill.next, in_valid, in_ready, one, more]
    obtain ⟨fs, done⟩ := ih (filled.next one keeps ⟨true, true⟩) (by rw [counted]; omega)
    exact ⟨⟨true, true⟩ :: fs, done⟩

end Refill

namespace WritebackUnit

variable {arrays : DataArray p} {s : System p}

theorem release_valid_one (one : p.refillCyclesPerBeat = 1) (m : Regs p) :
    release_valid m = (m.active && m.r2_data_req_fired) := by
  have whole : m.buf_v = BitVec.allOnes _ := by
    apply BitVec.eq_of_getLsbD_eq
    intro i low
    omega
  simp [release_valid, beat_done, whole]

theorem release_one (one : p.refillCyclesPerBeat = 1) (m : Regs p) {x : Beat p} (row : m.s2_row = rowOf x) :
    release m = ⟨m.beat_cnt, x.data, x.tag⟩ := by
  have data : p.outerDataBits = p.rowBits := by rw [CacheParams.outerDataBits, one, Nat.one_mul]
  have tags : p.outerTagBits = p.rowTagBits := by rw [CacheParams.outerTagBits, one, Nat.one_mul]
  simp [release, one, row, rowOf, setWidth_back _ (Nat.le_of_eq data), setWidth_back _ (Nat.le_of_eq tags)]

/-- With one row for each beat: the rows released, asked for and counted belong together. -/
structure Sending (line : Nat → Beat p) (s : System p) : Prop where
  released : s.released = (List.range s.released.length).map fun k => ⟨k, (line k).data, (line k).tag⟩
  within : s.released.length + s.regs.r1_data_req_fired.toNat + s.regs.r2_data_req_fired.toNat ≤ p.outerDataBeats
  beat_cnt : s.released.length < p.outerDataBeats → s.regs.beat_cnt = s.released.length
  more : s.regs.active = true → s.released.length < p.outerDataBeats
  count : s.regs.active = true →
    s.regs.data_req_cnt = s.released.length + s.regs.r1_data_req_fired.toNat + s.regs.r2_data_req_fired.toNat
  asked : s.regs.active = true → s.regs.r1_data_req_fired = true →
    s.regs.s1_row = some (s.released.length + s.regs.r2_data_req_fired.toNat)
  loaded : s.regs.active = true → s.regs.r2_data_req_fired = true → s.regs.s2_row = rowOf (line s.released.length)
  ended : s.regs.active = false → s.released.length = p.outerDataBeats

theorem Idle.sending {w : Regs p} (idle : Idle w) : Sending line ⟨start w, []⟩ where
  released := rfl
  within := by simp [start, idle.r1, idle.r2]
  beat_cnt _ := idle.beat_cnt
  more _ := p.beats_pos
  count _ := by simp [start, idle.r1, idle.r2]
  asked _ up := by simp [start, idle.r1] at up
  loaded _ up := by simp [start, idle.r2] at up
  ended off := by simp [start] at off

theorem bothFire_iff {m : Regs p} {e : Input p} : bothFire m e = true ↔
    m.active = true ∧ m.data_req_cnt < p.refillCycles ∧ e.data_req_ready = true ∧ e.meta_read_ready = true := by
  simp only [bothFire, fire, Bool.and_eq_true, decide_eq_true_eq]
  tauto

/-- The counter of the rows does not wrap. -/
theorem count_next {m : Regs p} {e : Input p} (kept : refused m e = false) :
    (next arrays way m e).data_req_cnt = m.data_req_cnt + (bothFire m e).toNat := by
  have room := le_two_pow_log2Up (p.refillCycles + 1)
  by_cases on : bothFire m e = true
  · have below := (bothFire_iff.mp on).2.1
    simp only [next, kept, on, Bool.false_eq_true, ↓reduceIte, Bool.toNat_true]
    exact Nat.mod_eq_of_lt (by omega)
  · simp [next, kept, on]

theorem count_refused {m : Regs p} {e : Input p} (back : refused m e = true) {done : Nat}
    (count : m.data_req_cnt = done + m.r1_data_req_fired.toNat + 1) (fits : m.data_req_cnt ≤ p.refillCycles) :
    (next arrays way m e).data_req_cnt = done := by
  have room := le_two_pow_log2Up (p.refillCycles + 1)
  have size : (if decide (1 < p.refillCycles) && m.r1_data_req_fired then 2 else 1) = m.r1_data_req_fired.toNat + 1 := by
    cases r1 : m.r1_data_req_fired with
    | false => simp
    | true =>
      have several : 1 < p.refillCycles := by simp only [r1, Bool.toNat_true] at count; omega
      simp [several]
  simp only [next, back, ↓reduceIte, size, count]
  rw [show done + m.r1_data_req_fired.toNat + 1 + 2 ^ log2Up (p.refillCycles + 1) - (m.r1_data_req_fired.toNat + 1) =
    done + 2 ^ log2Up (p.refillCycles + 1) by omega, Nat.add_mod_right]
  exact Nat.mod_eq_of_lt (by omega)

theorem reqRow_eq {m : Regs p} (below : m.data_req_cnt < p.refillCycles) : reqRow m = m.data_req_cnt := by
  have room := le_two_pow_log2Up p.refillCycles
  unfold reqRow
  split
  · exact Nat.mod_eq_of_lt (by omega)
  · omega

theorem s1_next {m : Regs p} {e : Input p} (on : (next arrays way m e).r1_data_req_fired = true) (up : m.active = true) :
    (next arrays way m e).s1_row = some m.data_req_cnt := by
  have fires : bothFire m e = true := by
    simp only [next, up, ↓reduceIte] at on
    split at on
    · cases on
    · exact on
  simp [next, fires, reqRow_eq (bothFire_iff.mp fires).2.1]

theorem s2_next {m : Regs p} {e : Input p} {r : Nat} (asked : m.s1_row = some r) :
    (next arrays way m e).s2_row = arrays.resp way r := by
  simp [next, asked]

theorem releaseFire_one (one : p.refillCyclesPerBeat = 1) {m : Regs p} {e : Input p} (up : m.active = true)
    (kept : refused m e = false) : releaseFire m e = m.r2_data_req_fired := by
  simp only [refused, releaseFire, release_valid_one one, up, Bool.true_and] at kept ⊢
  cases r2 : m.r2_data_req_fired with
  | false => rfl
  | true => simpa [r2] using kept

theorem Sending.released_next (one : p.refillCyclesPerBeat = 1) (sending : Sending line s) {e : Input p}
    (up : s.regs.active = true) (kept : refused s.regs e = false) :
    (cycle arrays way s e).released =
      (List.range (s.released.length + s.regs.r2_data_req_fired.toNat)).map fun k => ⟨k, (line k).data, (line k).tag⟩ := by
  have fires := releaseFire_one one up kept
  simp only [cycle, fires]
  cases r2 : s.regs.r2_data_req_fired with
  | false => simpa using sending.released
  | true =>
    have beat := release_one one s.regs (sending.loaded up r2)
    rw [sending.beat_cnt (sending.more up)] at beat
    rw [if_pos rfl, beat, Bool.toNat_true, List.range_succ, List.map_append, ← sending.released]
    rfl

theorem Sending.step (one : p.refillCyclesPerBeat = 1) (held : ∀ k < p.outerDataBeats, arrays.resp way k = rowOf (line k))
    (sending : Sending line s) {e : Input p} (up : s.regs.active = true) (kept : refused s.regs e = false) :
    Sending line (cycle arrays way s e) := by
  -- a row asked for is in stage one a cycle later, and in stage two when it is released
  have fires := releaseFire_one one up kept
  have beats : (cycle arrays way s e).released = _ := sending.released_next one up kept
  have length : (cycle arrays way s e).released.length = s.released.length + s.regs.r2_data_req_fired.toNat := by
    rw [beats, List.length_map, List.length_range]
  have within := sending.within
  have more := sending.more up
  have count := sending.count up
  have total := refillCycles_one one
  have r1' : (cycle arrays way s e).regs.r1_data_req_fired = bothFire s.regs e := by simp [cycle, next, up, kept]
  have r2' : (cycle arrays way s e).regs.r2_data_req_fired = s.regs.r1_data_req_fired := by
    simp [cycle, next, up, kept]
  have cnt' : (cycle arrays way s e).regs.data_req_cnt = s.regs.data_req_cnt + (bothFire s.regs e).toNat :=
    count_next kept
  have room : s.regs.data_req_cnt + (bothFire s.regs e).toNat ≤ p.outerDataBeats := by
    by_cases on : bothFire s.regs e = true
    · have below := (bothFire_iff.mp on).2.1
      rw [on, Bool.toNat_true]
      omega
    · simp only [Bool.not_eq_true] at on
      rw [on, Bool.toNat_false]
      omega
  -- the unit looks for its end only where no row is behind the one that is released
  have active' : (cycle arrays way s e).regs.active =
      if s.regs.r2_data_req_fired && !s.regs.r1_data_req_fired then decide (s.regs.data_req_cnt < p.refillCycles)
      else true := by
    cases r2 : s.regs.r2_data_req_fired with
    | false => simp [cycle, next, up, r2]
    | true =>
      have ready : e.release_ready = true := by
        simpa [releaseFire, release_valid_one one, up, r2] using fires
      simp [cycle, next, up, r2, ready]
  refine ⟨?_, ?_, ?_, ?_, ?_, ?_, ?_, ?_⟩
  · rw [length, beats]
  · rw [length, r1', r2']
    omega
  · intro left
    rw [length] at left ⊢
    have place := sending.beat_cnt more
    simp only [cycle, next, fires, counterNext, place]
    cases r2 : s.regs.r2_data_req_fired with
    | false => simp
    | true =>
      rw [r2, Bool.toNat_true] at left
      simp only [↓reduceIte, Bool.toNat_true]
      rw [if_neg (by omega)]
  · intro still
    rw [length]
    rw [active'] at still
    cases r2 : s.regs.r2_data_req_fired <;> cases r1 : s.regs.r1_data_req_fired <;>
      simp [r1, r2] at still count within ⊢ <;> omega
  · intro _
    rw [length, r1', r2', cnt']
    omega
  · intro _ on
    rw [length, r2', show (cycle arrays way s e).regs.s1_row = some s.regs.data_req_cnt from s1_next on up]
    congr 1
    omega
  · intro _ on
    rw [r2'] at on
    have row : (cycle arrays way s e).regs.s2_row = _ := s2_next (sending.asked up on)
    rw [on, Bool.toNat_true] at within
    rw [row, length, held _ (by omega)]
  · intro off
    rw [length]
    rw [active'] at off
    cases r2 : s.regs.r2_data_req_fired <;> cases r1 : s.regs.r1_data_req_fired <;>
      simp [r1, r2] at off count within ⊢
    omega

/-- A refused beat is released again later: its row is read once more. -/
theorem Sending.refuse (one : p.refillCyclesPerBeat = 1) (sending : Sending line s) {e : Input p}
    (back : refused s.regs e = true) : Sending line (cycle arrays way s e) := by
  have parts := back
  simp only [refused, release_valid_one one, Bool.and_eq_true, Bool.not_eq_true'] at parts
  obtain ⟨⟨up, r2⟩, unready⟩ := parts
  have quiet : releaseFire s.regs e = false := by simp [releaseFire, unready]
  have same : (cycle arrays way s e).released = s.released := by simp [cycle, quiet]
  have count := sending.count up
  have within := sending.within
  rw [r2, Bool.toNat_true] at count within
  have cnt' : (cycle arrays way s e).regs.data_req_cnt = s.released.length :=
    count_refused back (by omega) (by rw [refillCycles_one one]; omega)
  have r1' : (cycle arrays way s e).regs.r1_data_req_fired = false := by simp [cycle, next, up, back]
  have r2' : (cycle arrays way s e).regs.r2_data_req_fired = false := by simp [cycle, next, up, back]
  have active' : (cycle arrays way s e).regs.active = true := by simp [cycle, next, up, unready]
  refine ⟨by rw [same]; exact sending.released, ?_, ?_, ?_, ?_, ?_, ?_, ?_⟩
  · rw [same, r1', r2', Bool.toNat_false]
    omega
  · intro left
    rw [same] at left ⊢
    simpa [cycle, next, quiet, counterNext] using sending.beat_cnt left
  · intro _
    rw [same]
    exact sending.more up
  · intro _
    rw [same, r1', r2', cnt']
    rfl
  · intro _ on
    rw [r1'] at on
    cases on
  · intro _ on
    rw [r2'] at on
    cases on
  · intro off
    rw [active'] at off
    cases off

theorem Sending.rest (sending : Sending line s) {e : Input p} (off : s.regs.active = false) :
    Sending line (cycle arrays way s e) := by
  have quiet : releaseFire s.regs e = false := by simp [releaseFire, release_valid, off]
  have kept : refused s.regs e = false := by simp [refused, release_valid, off]
  have same : (cycle arrays way s e).released = s.released := by simp [cycle, quiet]
  have active' : (cycle arrays way s e).regs.active = false := by simp [cycle, next, off]
  have all := sending.ended off
  refine ⟨by rw [same]; exact sending.released, ?_, ?_, ?_, ?_, ?_, ?_, fun _ => by rw [same]; exact all⟩
  · rw [same]
    simpa [cycle, next, off] using sending.within
  · intro left
    rw [same, all] at left
    exact absurd left (Nat.lt_irrefl _)
  all_goals
    intro up
    rw [active'] at up
    cases up

theorem Sending.cycle (one : p.refillCyclesPerBeat = 1) (held : ∀ k < p.outerDataBeats, arrays.resp way k = rowOf (line k))
    (sending : Sending line s) (e : Input p) : Sending line (cycle arrays way s e) := by
  cases up : s.regs.active with
  | false => exact sending.rest up
  | true =>
    cases back : refused s.regs e with
    | false => exact sending.step one held up back
    | true => exact sending.refuse one back

theorem Sending.run (one : p.refillCyclesPerBeat = 1) (held : ∀ k < p.outerDataBeats, arrays.resp way k = rowOf (line k))
    (sending : Sending line s) (es : List (Input p)) : Sending line (run arrays way s es) := by
  induction es generalizing s with
  | nil => exact sending
  | cons e es ih => exact ih (sending.cycle one held e)

theorem Sending.whole (sending : Sending line s) (off : s.regs.active = false) : s.released = granted p line := by
  rw [sending.released, sending.ended off, granted]

theorem Sending.inOrder (sending : Sending line s) : s.released <+: granted p line := by
  have within : s.released.length ≤ p.outerDataBeats := by
    have := sending.within
    omega
  rw [sending.released, granted]
  obtain ⟨rest, split⟩ := Nat.exists_eq_add_of_le within
  rw [split, List.range_add, List.map_append]
  exact List.prefix_append _ _

/-- The work left; a row on its way counts for less than a row not asked for. -/
def rank (s : System p) : Nat :=
  3 * (p.outerDataBeats - s.released.length) -
    if s.regs.r2_data_req_fired then 2 else if s.regs.r1_data_req_fired then 1 else 0

theorem Sending.rank_calm (one : p.refillCyclesPerBeat = 1) (sending : Sending line s) (up : s.regs.active = true) :
    rank (WritebackUnit.cycle arrays way s (calm p)) < rank s := by
  have kept : refused s.regs (calm p) = false := by simp [refused, calm]
  have more := sending.more up
  have count := sending.count up
  have length : (WritebackUnit.cycle arrays way s (calm p)).released.length =
      s.released.length + s.regs.r2_data_req_fired.toNat := by
    rw [sending.released_next one up kept, List.length_map, List.length_range]
  have r2' : (WritebackUnit.cycle arrays way s (calm p)).regs.r2_data_req_fired = s.regs.r1_data_req_fired := by
    simp [WritebackUnit.cycle, next, up, kept]
  have r1' : (WritebackUnit.cycle arrays way s (calm p)).regs.r1_data_req_fired = bothFire s.regs (calm p) := by
    simp [WritebackUnit.cycle, next, up, kept]
  have asks : bothFire s.regs (calm p) = decide (s.regs.data_req_cnt < p.outerDataBeats) := by
    simp [bothFire, fire, calm, up, refillCycles_one one]
  unfold rank
  rw [length, r1', r2', asks]
  cases r2 : s.regs.r2_data_req_fired <;> cases r1 : s.regs.r1_data_req_fired <;>
    simp [r1, r2] at count ⊢
  · rw [if_pos (by omega)]
    omega
  · omega
  · split <;> omega
  · omega

theorem Sending.ends (one : p.refillCyclesPerBeat = 1) (held : ∀ k < p.outerDataBeats, arrays.resp way k = rowOf (line k))
    (sending : Sending line s) : ∃ k, (WritebackUnit.run arrays way s (List.replicate k (calm p))).regs.active = false := by
  induction left : rank s using Nat.strongRecOn generalizing s with
  | ind r ih =>
    cases up : s.regs.active with
    | false => exact ⟨0, up⟩
    | true =>
      obtain ⟨k, done⟩ := ih _ (left ▸ sending.rank_calm one up) (sending.cycle one held (calm p)) rfl
      exact ⟨k + 1, done⟩

theorem run_append (es fs : List (Input p)) :
    WritebackUnit.run arrays way s (es ++ fs) = WritebackUnit.run arrays way (WritebackUnit.run arrays way s es) fs :=
  List.foldl_append

end WritebackUnit

theorem preserves_of_keeps (one : p.refillCyclesPerBeat = 1) (keeps : DataArray.KeepsTags p way) (line : Nat → Beat p) :
    Preserves p way line := by
  have held {m : Refill p} (fresh : m.Fresh) {es : List RefillInput} (done : (m.run way line es).Done) :
      ∀ k < p.outerDataBeats, (m.run way line es).arrays.resp way k = rowOf (line k) := by
    have filled := (fresh.filled : m.Filled way line).run one keeps es
    rw [← done.1]
    exact filled.rows
  refine ⟨?_, ?_, ?_, ?_⟩
  · intro m fresh es
    obtain ⟨fs, done⟩ := ((fresh.filled : m.Filled way line).run one keeps es).finishes one keeps
    exact ⟨fs, by rwa [Refill.run_append]⟩
  · intro m fresh es done w idle fs
    exact (idle.sending.run one (held fresh done) fs).inOrder
  · intro m fresh es done w idle fs off
    exact (idle.sending.run one (held fresh done) fs).whole off
  · intro m fresh es done w idle fs
    obtain ⟨k, off⟩ := (idle.sending.run one (held fresh done) fs).ends one (held fresh done)
    exact ⟨k, by rwa [WritebackUnit.writeback, WritebackUnit.run_append]⟩

end Sufficient

section Necessary

variable {p : CacheParams} {way : Nat} {line : Nat → Beat p}

theorem granted_head (p : CacheParams) (line : Nat → Beat p) :
    (granted p line).head? = some ⟨0, (line 0).data, (line 0).tag⟩ := by
  obtain ⟨n, beats⟩ := Nat.exists_eq_succ_of_ne_zero (Nat.pos_iff_ne_zero.mp p.beats_pos)
  rw [granted, beats, List.range_succ_eq_map]
  rfl

theorem Preserves.returns (preserves : Preserves p way line) {m : Refill p} (fresh : m.Fresh)
    {w : WritebackUnit.Regs p} (idle : WritebackUnit.Idle w) : ∃ es fs,
      (WritebackUnit.writeback (m.run way line es).arrays way w fs).released.head? =
        some ⟨0, (line 0).data, (line 0).tag⟩ := by
  obtain ⟨es, done⟩ := preserves.refills m fresh []
  obtain ⟨k, off⟩ := preserves.ends m fresh es done w idle []
  have whole := preserves.whole m fresh es done w idle _ off
  exact ⟨es, _, by rw [whole, granted_head]⟩

namespace WritebackUnit

variable {arrays : DataArray p} {s : System p} {c : Bool}

/-- Up to the first release the low row of the buffer comes from its old upper end. -/
structure Buffering (c : Bool) (s : System p) : Prop where
  first : ∀ b, s.released.head? = some b → b.data.getLsbD 0 = c
  buffer : s.released = [] → ∃ k ≤ p.refillCyclesPerBeat - 1,
    (∀ i < p.refillCyclesPerBeat - 1, s.regs.buf_v.getLsbD i = decide (p.refillCyclesPerBeat - 1 - k ≤ i)) ∧
      s.regs.data_buf.getLsbD ((p.refillCyclesPerBeat - 1 - k) * p.rowBits) = c

theorem buffered_iff (several : 1 < p.refillCyclesPerBeat) {m : Regs p} {k : Nat}
    (bits : ∀ i < p.refillCyclesPerBeat - 1, m.buf_v.getLsbD i = decide (p.refillCyclesPerBeat - 1 - k ≤ i)) :
    beat_done m = true ↔ p.refillCyclesPerBeat - 1 ≤ k := by
  rw [beat_done, beq_iff_eq]
  constructor
  · intro all
    have low := bits 0 (by omega)
    rw [all] at low
    simp [show 0 < p.refillCyclesPerBeat - 1 by omega] at low
    omega
  · intro full
    apply BitVec.eq_of_getLsbD_eq
    intro i inside
    rw [bits i inside]
    simp [inside]
    omega

theorem Buffering.start (several : 1 < p.refillCyclesPerBeat) {w : Regs p}
    (top : w.data_buf.getLsbD ((p.refillCyclesPerBeat - 1) * p.rowBits) = c) : Buffering c ⟨start w, []⟩ where
  first b none' := by simp at none'
  buffer _ := by
    refine ⟨0, Nat.zero_le _, ?_, by simpa [WritebackUnit.start] using top⟩
    intro i inside
    simp [WritebackUnit.start, several]
    omega

theorem Buffering.cycle (several : 1 < p.refillCyclesPerBeat) (buffering : Buffering c s) (e : Input p) :
    Buffering c (cycle arrays way s e) := by
  have positive : 0 < p.rowBits := Nat.mul_pos p.rowWords_pos p.wordBits_pos
  have width : p.outerDataBits = (p.refillCyclesPerBeat - 1) * p.rowBits + p.rowBits := by
    rw [CacheParams.outerDataBits, ← Nat.succ_mul]
    congr 1
    omega
  cases old : s.released with
  | cons b rest =>
    have head : (WritebackUnit.cycle arrays way s e).released.head? = some b := by simp [WritebackUnit.cycle, old]
    refine ⟨?_, ?_⟩
    · intro b' same
      exact buffering.first b' (by rw [old, ← same, head]; rfl)
    · intro none'
      simp [none'] at head
  | nil =>
    obtain ⟨k, bound, bits, low⟩ := buffering.buffer old
    have full := buffered_iff several bits
    cases goes : releaseFire s.regs e with
    | true =>
      -- the buffer has all rows but the last, which goes out beside it
      have last : p.refillCyclesPerBeat - 1 ≤ k := by
        simp only [releaseFire, release_valid, Bool.and_eq_true] at goes
        exact full.mp goes.1.2
      refine ⟨?_, ?_⟩
      · intro b same
        simp only [WritebackUnit.cycle, goes, old, ↓reduceIte, List.nil_append, List.head?_cons, Option.some.injEq] at same
        rw [show p.refillCyclesPerBeat - 1 - k = 0 by omega, Nat.zero_mul] at low
        have wide : 0 < p.outerDataBits := by omega
        rw [← same]
        simp only [release, several, ↓reduceIte, BitVec.getLsbD_setWidth, BitVec.getLsbD_append, wide, decide_true,
          Bool.true_and]
        exact low
      · intro none'
        simp [WritebackUnit.cycle, goes, old] at none'
    | false =>
      refine ⟨?_, ?_⟩
      · intro b same
        simp [WritebackUnit.cycle, goes, old] at same
      · intro _
        cases takes : collects s.regs with
        | false =>
          refine ⟨k, bound, ?_, ?_⟩
          · intro i inside
            simpa [WritebackUnit.cycle, next, goes, takes] using bits i inside
          · simpa [WritebackUnit.cycle, next, takes] using low
        | true =>
          -- a row comes in at the top, and the others move down
          have more : k < p.refillCyclesPerBeat - 1 := by
            by_contra whole
            have done := full.mpr (by omega)
            simp [collects, done] at takes
          refine ⟨k + 1, more, ?_, ?_⟩
          · intro i inside
            simp only [WritebackUnit.cycle, next, takes, ↓reduceIte, BitVec.getLsbD_or, BitVec.getLsbD_ushiftRight,
              BitVec.getLsbD_twoPow]
            by_cases top : i + 1 < p.refillCyclesPerBeat - 1
            · rw [Nat.add_comm, bits _ top, Bool.eq_iff_iff]
              simp only [Bool.or_eq_true, Bool.and_eq_true, decide_eq_true_eq]
              omega
            · rw [BitVec.getLsbD_of_ge _ _ (by omega), Bool.eq_iff_iff]
              simp only [Bool.or_eq_true, Bool.and_eq_true, decide_eq_true_eq, Bool.false_eq_true]
              omega
          · simp only [WritebackUnit.cycle, next, takes, ↓reduceIte, BitVec.getLsbD_setWidth, BitVec.getLsbD_append,
              BitVec.getLsbD_extractLsb']
            have place : p.rowBits + (p.refillCyclesPerBeat - 1 - (k + 1)) * p.rowBits =
                (p.refillCyclesPerBeat - 1 - k) * p.rowBits := by
              rw [Nat.add_comm, ← Nat.succ_mul]
              congr 1
              omega
            have below : (p.refillCyclesPerBeat - 1 - k) * p.rowBits ≤ (p.refillCyclesPerBeat - 1) * p.rowBits :=
              Nat.mul_le_mul_right _ (Nat.sub_le _ _)
            rw [place, if_pos (by omega), low, decide_eq_true (by omega), decide_eq_true (by omega)]
            rfl

theorem Buffering.run (several : 1 < p.refillCyclesPerBeat) (buffering : Buffering c s) (es : List (Input p)) :
    Buffering c (run arrays way s es) := by
  induction es generalizing s with
  | nil => exact buffering
  | cons e es ih => exact ih (buffering.cycle several e)

/-- A write-back unit between two write-backs, with `x` left in its buffer. -/
def idleWith (x : BitVec p.outerDataBits) : Regs p where
  active := false
  r1_data_req_fired := false
  r2_data_req_fired := false
  data_req_cnt := 0
  buf_v := 0
  beat_cnt := 0
  data_buf := x
  dtag_buf := 0
  s1_row := none
  s2_row := ⟨0, 0⟩

theorem idle_idleWith (x : BitVec p.outerDataBits) : Idle (idleWith x) := ⟨rfl, rfl, rfl, rfl⟩

/-- When every row answers with `c` in its lowest tag bit, so do the beats. -/
structure Showing (c : Bool) (s : System p) : Prop where
  asked : s.regs.active = true → s.regs.r1_data_req_fired = true → ∃ r, s.regs.s1_row = some r
  loaded : s.regs.active = true → s.regs.r2_data_req_fired = true → s.regs.s2_row.dtag.getLsbD 0 = c
  first : ∀ b ∈ s.released, b.tag.getLsbD 0 = c

theorem Idle.showing {w : Regs p} (idle : Idle w) : Showing c ⟨start w, []⟩ where
  asked _ on := by simp [start, idle.r1] at on
  loaded _ on := by simp [start, idle.r2] at on
  first b member := by simp at member

theorem Showing.cycle (one : p.refillCyclesPerBeat = 1) (answers : ∀ r, (arrays.resp way r).dtag.getLsbD 0 = c)
    (showing : Showing c s) (e : Input p) : Showing c (cycle arrays way s e) := by
  have before (up : (WritebackUnit.cycle arrays way s e).regs.active = true) : s.regs.active = true := by
    by_contra off
    simp [WritebackUnit.cycle, next, off] at up
  refine ⟨?_, ?_, ?_⟩
  · intro up on
    exact ⟨_, s1_next on (before up)⟩
  · intro up on
    have r1 : s.regs.r1_data_req_fired = true := by
      simp only [WritebackUnit.cycle, next, before up, ↓reduceIte] at on
      split at on
      · cases on
      · exact on
    obtain ⟨r, asked⟩ := showing.asked (before up) r1
    rw [show (WritebackUnit.cycle arrays way s e).regs.s2_row = _ from s2_next asked]
    exact answers r
  · intro b member
    rw [WritebackUnit.cycle, List.mem_append] at member
    rcases member with old | new
    · exact showing.first b old
    · split at new
      · rename_i goes
        simp only [releaseFire, release_valid, Bool.and_eq_true] at goes
        have positive := Nat.mul_pos p.rowWords_pos p.tgBits_pos
        have bit := showing.loaded goes.1.1.1 goes.1.1.2
        rw [List.mem_singleton.mp new]
        simp only [release, one, Nat.lt_irrefl, ↓reduceIte, BitVec.getLsbD_setWidth]
        simpa [CacheParams.outerTagBits, one, positive] using bit
      · cases new

theorem Showing.run (one : p.refillCyclesPerBeat = 1) (answers : ∀ r, (arrays.resp way r).dtag.getLsbD 0 = c)
    (showing : Showing c s) (es : List (Input p)) : Showing c (run arrays way s es) := by
  induction es generalizing s with
  | nil => exact showing
  | cons e es ih => exact ih (showing.cycle one answers e)

end WritebackUnit

/-- Empty registers before a refill, over arrays whose tags are all `v`. -/
def freshWith (v : BitVec p.rowTagBits) : Refill p where
  cnt := 0
  rbits := ⟨0, 0⟩
  active := false
  refill_cnt := 0
  arrays := ⟨fun _ _ _ _ => 0, fun _ _ _ _ => v⟩
  taken := 0

theorem fresh_freshWith (v : BitVec p.rowTagBits) : (freshWith v).Fresh := ⟨rfl, rfl, rfl⟩

/-- The refill of a later way of a group does not reach the element that the tags are read from. -/
theorem Refill.run_first_element (narrow : p.doNarrowRead = true) (later : way % p.rowWords ≠ 0) (m : Refill p)
    (es : List RefillInput) (g a r : Nat) :
    (m.run way line es).arrays.dtag_array g a r 0 = m.arrays.dtag_array g a r 0 := by
  induction es generalizing m with
  | nil => rfl
  | cons e es ih =>
    have step : (m.next way line e).arrays.dtag_array g a r 0 = m.arrays.dtag_array g a r 0 := by
      simp only [Refill.next]
      split
      · exact DataArray.fill_first_element _ narrow later _ _ _ _ _
      · rfl
    exact (ih (m.next way line e)).trans step

def allOf (n : Nat) (c : Bool) : BitVec n := if c then BitVec.allOnes n else 0

theorem getLsbD_allOf {n i : Nat} (c : Bool) (inside : i < n) : (allOf n c).getLsbD i = c := by
  cases c <;> simp [allOf, inside]

theorem not_preserves_of_several (several : 1 < p.refillCyclesPerBeat) (line : Nat → Beat p) : ¬ Preserves p way line := by
  intro preserves
  let c := !(line 0).data.getLsbD 0
  have positive : 0 < p.rowBits := Nat.mul_pos p.rowWords_pos p.wordBits_pos
  have inside : (p.refillCyclesPerBeat - 1) * p.rowBits < p.outerDataBits :=
    Nat.mul_lt_mul_of_pos_right (by omega) positive
  obtain ⟨es, fs, head⟩ := preserves.returns (fresh_freshWith 0) (WritebackUnit.idle_idleWith (allOf _ c))
  have top : (WritebackUnit.idleWith (allOf p.outerDataBits c)).data_buf.getLsbD
      ((p.refillCyclesPerBeat - 1) * p.rowBits) = c := getLsbD_allOf c inside
  have low := ((WritebackUnit.Buffering.start several top).run several fs).first _ head
  exact absurd low (by simp [c])

theorem not_preserves_of_later (narrow : p.doNarrowRead = true) (later : way % p.rowWords ≠ 0)
    (one : p.refillCyclesPerBeat = 1) (line : Nat → Beat p) : ¬ Preserves p way line := by
  intro preserves
  let c := !(line 0).tag.getLsbD 0
  have inside := p.tag_inside way
  have idle := WritebackUnit.idle_idleWith (p := p) 0
  obtain ⟨es, fs, head⟩ := preserves.returns (fresh_freshWith (allOf _ c)) idle
  have answers (r : Nat) : (((freshWith (allOf _ c)).run way line es).arrays.resp way r).dtag.getLsbD 0 = c := by
    rw [DataArray.resp, DataArray.resp_dtag_first _ narrow, Refill.run_first_element narrow later]
    exact getLsbD_allOf c inside
  have low := (idle.showing.run one answers fs).first _ (List.mem_of_head? head)
  exact absurd low (by simp [c])

end Necessary

/-- The line comes back exactly in configurations with one row for each beat, and with narrow reads
only in the first way of each group. -/
theorem preserves_iff (p : CacheParams) (way : Fin p.nWays) (line : Nat → Beat p) :
    Preserves p way line ↔
      p.refillCyclesPerBeat = 1 ∧ (p.doNarrowRead = false ∨ way.val % p.rowWords = 0) := by
  constructor
  · intro preserves
    have positive := p.cycles_pos
    have one : p.refillCyclesPerBeat = 1 := by
      by_contra several
      exact not_preserves_of_several (by omega) line preserves
    refine ⟨one, ?_⟩
    by_contra lost
    simp only [not_or, Bool.not_eq_false] at lost
    exact not_preserves_of_later lost.1 lost.2 one line preserves
  · rintro ⟨one, keeps⟩
    exact preserves_of_keeps one keeps line

/-- Two ways with rows of two words, as wide as a beat. -/
def pairParams : CacheParams where
  outerDataBeats := 4
  refillCyclesPerBeat := 1
  rowWords := 2
  nWays := 2
  wordBits := 64
  tgBits := 4
  beats_pos := by decide
  cycles_pos := by decide
  rowWords_pos := by decide
  wordBits_pos := by decide
  tgBits_pos := by decide

/-- The second way loses the tags of a line. -/
theorem not_preserves_second_way : ¬ Preserves pairParams 1 (fun _ => ⟨0, BitVec.allOnes _⟩) :=
  not_preserves_of_later (by decide) (by decide) rfl _

end LowRisc.Rocket
