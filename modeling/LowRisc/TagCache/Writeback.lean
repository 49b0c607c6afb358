import LowRisc.TagCache.WritebackUnit

/-! Every request is written back as one burst of the rows its line had. -/

set_option autoImplicit false

namespace LowRisc.TagCache

open LowRisc.Chisel LowRisc.Lib

namespace WbSystem

variable {c : Config} {s t : WbSystem} {e : WbInputs}

/-! Rows on their way from the array to the unit. -/

/-- The row of an entry of the array's pipeline, when it is for the unit. -/
def forUnit (c : Config) : Option (Nat × Row) → List Row
  | some (id, row) => if id = c.wbId then [row] else []
  | none => []

def pending (c : Config) (s : WbSystem) : List Row := forUnit c s.data.resp ++ forUnit c s.data.s1

theorem toList_resp : (s.resp c).toList = forUnit c s.data.resp := by
  rw [resp]
  cases s.data.resp with
  | none => rfl
  | some entry =>
    simp only [forUnit]
    split <;> rfl

def asked (s : WbSystem) (e : WbInputs) : List Row :=
  if s.readFire e then [s.data.array s.unit.xact.way s.unit.xact.idx s.unit.readCnt] else []

theorem forUnit_arrayRead (owned : s.owned c e = true) :
    forUnit c ((s.arrayRead c e).map fun r => (r.id, s.data.array r.way r.idx r.row)) = asked s e := by
  have others : ∀ r, e.reader = some r → r.id ≠ c.wbId := by
    intro r reader
    simp only [WbSystem.owned, reader, Option.all_some, Bool.and_eq_true, bne_iff_ne] at owned
    exact owned.2
  rw [arrayRead, asked, readFire]
  cases write : e.write with
  | some w => simp [forUnit]
  | none =>
    cases reader : e.reader with
    | some r => simp [forUnit, others r reader]
    | none =>
      by_cases reading : s.unit.state = .read
      · simp [forUnit, reading]
      · simp [forUnit, reading]

theorem pending_cycle (owned : s.owned c e = true) :
    (s.resp c).toList ++ pending c (s.cycle c e) = pending c s ++ asked s e := by
  rw [toList_resp, pending, pending, List.append_assoc]
  simp only [cycle, TCDataArray.cycle]
  rw [forUnit_arrayRead owned]

/-! The invariant. -/

/-- What a request still needs from the array: `issued` reads are out, and those that came back
are in the buffer. -/
structure Reading (c : Config) (s : WbSystem) (issued : Nat) (line : Line) : Prop where
  array : s.data.array s.unit.xact.way s.unit.xact.idx = line
  count : s.unit.writeCnt + (pending c s).length = issued
  buffer : ∀ i < s.unit.writeCnt, s.unit.dataBuffer i = line i
  rows : pending c s = (List.range' s.unit.writeCnt (pending c s).length).map line
  tlCnt : s.unit.tlCnt = 0

/-- The unit works on the last of the accepted requests, for which `beats` beats are sent. -/
def Working (c : Config) (s : WbSystem) (line : Line) (beats : Nat) : Prop :=
  ∃ done, s.accepted = done ++ [(s.unit.xact, line)]
    ∧ s.sent = done.flatMap (burst c) ++ (burst c (s.unit.xact, line)).take beats

structure Quiet (c : Config) (s : WbSystem) : Prop where
  readCnt : s.unit.readCnt = 0
  writeCnt : s.unit.writeCnt = 0
  tlCnt : s.unit.tlCnt = 0
  pending : pending c s = []
  sent : s.sent = s.accepted.flatMap (burst c)

inductive Orderly (c : Config) (s : WbSystem) : Prop where
  | idle (state : s.unit.state = .idle) (quiet : Quiet c s)
  | read (line : Line) (state : s.unit.state = .read) (few : s.unit.readCnt < refillCycles)
      (reading : Reading c s s.unit.readCnt line) (working : Working c s line 0)
  | readDone (line : Line) (state : s.unit.state = .readDone) (readCnt : s.unit.readCnt = 0)
      (more : pending c s ≠ []) (reading : Reading c s refillCycles line) (working : Working c s line 0)
  | write (line : Line) (state : s.unit.state = .write) (readCnt : s.unit.readCnt = 0)
      (writeCnt : s.unit.writeCnt = 0) (none : pending c s = []) (few : s.unit.tlCnt < Config.outerDataBeats)
      (buffer : ∀ i < refillCycles, s.unit.dataBuffer i = line i) (working : Working c s line s.unit.tlCnt)
  | gnt (state : s.unit.state = .gnt) (quiet : Quiet c s)

theorem OnReset.orderly (reset : s.OnReset) : Orderly c s := by
  refine .idle reset.state ⟨reset.readCnt, reset.writeCnt, reset.tlCnt, ?_, ?_⟩
  · rw [pending, reset.s1, reset.resp]
    rfl
  · rw [reset.sent, reset.accepted]
    rfl

/-! One cycle. -/

theorem resp_eq_none (empty : pending c s = []) : s.resp c = none := by
  have nothing : (s.resp c).toList = [] := by
    rw [toList_resp]
    exact (List.append_eq_nil_iff.mp empty).1
  simpa using nothing

theorem pending_cycle_nil (owned : s.owned c e = true) (empty : pending c s = []) (idle : s.readFire e = false) :
    pending c (s.cycle c e) = [] := by
  have moved := pending_cycle owned
  rw [resp_eq_none empty, empty, asked, idle] at moved
  simpa using moved

theorem array_cycle (owned : s.owned c e = true) (busy : s.unit.state ≠ .idle) (held : s.unit.state ≠ .gnt) :
    (s.cycle c e).data.array s.unit.xact.way s.unit.xact.idx = s.data.array s.unit.xact.way s.unit.xact.idx := by
  simp only [cycle, TCDataArray.cycle]
  cases write : e.write with
  | none => rfl
  | some w =>
    have other : w.idx ≠ s.unit.xact.idx := by
      simp only [WbSystem.owned, write, Bool.and_eq_true] at owned
      cases state : s.unit.state with
      | idle => exact absurd state busy
      | gnt => exact absurd state held
      | read => simpa [state] using owned.1
      | readDone => simpa [state] using owned.1
      | write => simpa [state] using owned.1
    funext row
    simp [TCDataArray.write, Ne.symm other]

section Reading

variable {issued : Nat} {line : Line} (reading : Reading c s issued line) (owned : s.owned c e = true)
  (next : s.readFire e = true → s.unit.readCnt = issued)

include reading next in
/-- The next row asked for continues the rows under way. -/
theorem Reading.flow :
    pending c s ++ asked s e =
      (List.range' s.unit.writeCnt ((pending c s).length + (asked s e).length)).map line := by
  rw [asked]
  split
  · rename_i fired
    rw [List.length_singleton, List.range'_1_concat, List.map_append, ← reading.rows, reading.array, next fired,
      ← reading.count]
    rfl
  · rw [List.append_nil, List.length_nil, Nat.add_zero]
    exact reading.rows

include reading owned next in
theorem Reading.moved :
    (s.resp c = none ∧ pending c (s.cycle c e) =
        (List.range' s.unit.writeCnt ((pending c s).length + (asked s e).length)).map line)
    ∨ (s.resp c = some (line s.unit.writeCnt) ∧ 0 < (pending c s).length ∧ pending c (s.cycle c e) =
        (List.range' (s.unit.writeCnt + 1) ((pending c s).length + (asked s e).length - 1)).map line) := by
  have moved := pending_cycle owned
  rw [reading.flow next] at moved
  cases answer : s.resp c with
  | none =>
    rw [answer] at moved
    exact .inl ⟨rfl, by simpa using moved⟩
  | some row =>
    have some' : 0 < (pending c s).length := by
      have front : forUnit c s.data.resp = [row] := by rw [← toList_resp, answer]; rfl
      rw [pending, front]
      simp
    rw [answer, show (pending c s).length + (asked s e).length =
      (pending c s).length + (asked s e).length - 1 + 1 by omega, List.range'_succ] at moved
    simp only [Option.toList_some, List.singleton_append, List.map_cons, List.cons.injEq] at moved
    exact .inr ⟨by rw [moved.1], some', moved.2⟩

include reading owned next in
theorem Reading.cycle (busy : s.unit.state ≠ .idle) (held : s.unit.state ≠ .gnt) (before : s.unit.state ≠ .write)
    (room : s.unit.writeCnt + (s.resp c).toList.length < refillCycles) :
    Reading c (s.cycle c e) (issued + (asked s e).length) line := by
  have same : (s.cycle c e).unit.xact = s.unit.xact := if_neg busy
  have quiet : s.acquireFire e = false := by simp [acquireFire, before]
  have count := reading.count
  have array : (s.cycle c e).data.array (s.cycle c e).unit.xact.way (s.cycle c e).unit.xact.idx = line := by
    rw [same, array_cycle owned busy held, reading.array]
  have tlCnt : (s.cycle c e).unit.tlCnt = 0 := by
    simp only [WbSystem.cycle, unitNext, quiet]
    exact reading.tlCnt
  rcases reading.moved owned next with ⟨answer, rows⟩ | ⟨answer, some', rows⟩
  -- no row comes back in this cycle, so the counter stays
  · have writeCnt : (s.cycle c e).unit.writeCnt = s.unit.writeCnt := by
      simp [WbSystem.cycle, unitNext, answer, counterNext]
    have buffer : (s.cycle c e).unit.dataBuffer = s.unit.dataBuffer := by
      simp [WbSystem.cycle, unitNext, bufferNext, answer, busy]
    have length : (pending c (s.cycle c e)).length = (pending c s).length + (asked s e).length := by simp [rows]
    refine ⟨array, ?_, ?_, ?_, tlCnt⟩
    · rw [writeCnt, length]
      omega
    · rw [writeCnt, buffer]
      exact reading.buffer
    · rw [writeCnt, length, rows]
  · rw [answer] at room
    simp only [Option.toList_some, List.length_singleton] at room
    -- the row that comes back is the next one of the line
    have writeCnt : (s.cycle c e).unit.writeCnt = s.unit.writeCnt + 1 := by
      simp [WbSystem.cycle, unitNext, answer, counterNext, room.ne]
    have buffer : (s.cycle c e).unit.dataBuffer = upd s.unit.dataBuffer s.unit.writeCnt (line s.unit.writeCnt) := by
      simp [WbSystem.cycle, unitNext, bufferNext, answer, busy]
    have length : (pending c (s.cycle c e)).length = (pending c s).length + (asked s e).length - 1 := by simp [rows]
    refine ⟨array, ?_, ?_, ?_, tlCnt⟩
    · rw [writeCnt, length]
      omega
    · intro i inside
      rw [writeCnt] at inside
      rw [buffer]
      by_cases here : i = s.unit.writeCnt
      · rw [here, upd_same]
      · rw [upd_of_ne here]
        exact reading.buffer i (by omega)
    · rw [writeCnt, length, rows]

include reading owned next in
theorem Reading.complete (busy : s.unit.state ≠ .idle) (all : issued + (asked s e).length = refillCycles)
    (last : s.writeDone c = true) :
    (s.cycle c e).unit.writeCnt = 0 ∧ pending c (s.cycle c e) = []
      ∧ ∀ i < refillCycles, (s.cycle c e).unit.dataBuffer i = line i := by
  have count := reading.count
  simp only [writeDone, counterWrap, Bool.and_eq_true, decide_eq_true_eq] at last
  rcases reading.moved owned next with ⟨answer, -⟩ | ⟨answer, -, rows⟩
  · rw [answer] at last
    cases last.1
  · refine ⟨?_, ?_, ?_⟩
    · simp [WbSystem.cycle, unitNext, answer, counterNext, last.2]
    · rw [rows, show (pending c s).length + (asked s e).length - 1 = 0 by omega]
      rfl
    · intro i inside
      have buffer : (s.cycle c e).unit.dataBuffer = upd s.unit.dataBuffer s.unit.writeCnt (line s.unit.writeCnt) := by
        simp [WbSystem.cycle, unitNext, bufferNext, answer, busy]
      rw [buffer]
      by_cases here : i = s.unit.writeCnt
      · rw [here, upd_same]
      · rw [upd_of_ne here]
        exact reading.buffer i (by omega)

end Reading

/-! The states one by one. -/

theorem accepted_cycle (busy : s.unit.state ≠ .idle) : (s.cycle c e).accepted = s.accepted := by
  simp only [cycle, busy, if_false]
  cases e.request <;> simp

theorem sent_cycle (still : s.unit.state ≠ .write) : (s.cycle c e).sent = s.sent := by
  simp [cycle, acquireFire, still]

theorem Working.keep {line : Line} {beats : Nat} (working : Working c s line beats) (busy : s.unit.state ≠ .idle)
    (still : s.unit.state ≠ .write) : Working c (s.cycle c e) line beats := by
  have same : (s.cycle c e).unit.xact = s.unit.xact := if_neg busy
  obtain ⟨done, accepted, sent⟩ := working
  exact ⟨done, by rw [accepted_cycle busy, same, accepted], by rw [sent_cycle still, same, sent]⟩

theorem putBeat_eq (few : s.unit.tlCnt < Config.outerDataBeats) :
    s.putBeat c = ⟨c.blockAt s.unit.xact.tag s.unit.xact.idx, s.unit.tlCnt, s.unit.dataBuffer s.unit.tlCnt⟩ := by
  have block : s.tlAddr c / (Config.outerDataBeats * 2 ^ Config.rowOffBits) =
      c.blockAt s.unit.xact.tag s.unit.xact.idx := by
    simp only [tlAddr, Config.outerDataBeats, Config.rowOffBits] at few ⊢
    omega
  have beat : s.tlAddr c / 2 ^ Config.rowOffBits % Config.outerDataBeats = s.unit.tlCnt := by
    simp only [tlAddr, Config.outerDataBeats, Config.rowOffBits] at few ⊢
    omega
  rw [putBeat, block, beat]

theorem Quiet.gnt_cycle (quiet : Quiet c s) (state : s.unit.state = .gnt) (owned : s.owned c e = true) :
    Quiet c (s.cycle c e) := by
  have noRead : s.readFire e = false := by simp [readFire, state]
  have noBeat : s.acquireFire e = false := by simp [acquireFire, state]
  have noAnswer := resp_eq_none quiet.pending
  refine ⟨?_, ?_, ?_, pending_cycle_nil owned quiet.pending noRead, ?_⟩
  · simp [cycle, unitNext, noRead, counterNext, quiet.readCnt]
  · simp [cycle, unitNext, noAnswer, counterNext, quiet.writeCnt]
  · simp [cycle, unitNext, noBeat, counterNext, quiet.tlCnt]
  · rw [accepted_cycle (by simp [state]), sent_cycle (by simp [state]), quiet.sent]

theorem Quiet.idle_cycle (quiet : Quiet c s) (state : s.unit.state = .idle) (owned : s.owned c e = true) :
    Orderly c (s.cycle c e) := by
  have noRead : s.readFire e = false := by simp [readFire, state]
  have noBeat : s.acquireFire e = false := by simp [acquireFire, state]
  have noAnswer := resp_eq_none quiet.pending
  have readCnt : (s.cycle c e).unit.readCnt = 0 := by simp [cycle, unitNext, noRead, counterNext, quiet.readCnt]
  have writeCnt : (s.cycle c e).unit.writeCnt = 0 := by simp [cycle, unitNext, noAnswer, counterNext, quiet.writeCnt]
  have tlCnt : (s.cycle c e).unit.tlCnt = 0 := by simp [cycle, unitNext, noBeat, counterNext, quiet.tlCnt]
  have empty := pending_cycle_nil owned quiet.pending noRead
  have sent : (s.cycle c e).sent = s.accepted.flatMap (burst c) := by
    rw [sent_cycle (by simp [state]), quiet.sent]
  cases request : e.request with
  | none =>
    refine .idle (by simp [cycle, unitNext, stateNext, state, request]) ⟨readCnt, writeCnt, tlCnt, empty, ?_⟩
    rw [sent]
    simp [cycle, request]
  | some r =>
    have xact : (s.cycle c e).unit.xact = r := by simp [cycle, unitNext, state, request]
    -- no write reaches the set in the cycle of the request
    have array : (s.cycle c e).data.array r.way r.idx = s.data.array r.way r.idx := by
      simp only [cycle, TCDataArray.cycle]
      cases write : e.write with
      | none => rfl
      | some w =>
        have other : w.idx ≠ r.idx := by
          simp only [WbSystem.owned, write, state, request, Option.all_some, Bool.and_eq_true, bne_iff_ne] at owned
          exact owned.1
        funext row
        simp [TCDataArray.write, Ne.symm other]
    refine .read (s.data.array r.way r.idx) (by simp [cycle, unitNext, stateNext, state, request]) ?_ ?_ ?_
    · rw [readCnt]
      decide
    · refine ⟨by rw [xact, array], by rw [writeCnt, readCnt, empty]; rfl, ?_, by rw [empty]; rfl, tlCnt⟩
      intro i inside
      rw [writeCnt] at inside
      exact absurd inside (Nat.not_lt_zero i)
    · refine ⟨s.accepted, ?_, ?_⟩
      · rw [xact]
        simp [cycle, request, state]
      · rw [sent, List.take_zero, List.append_nil]

section States

variable {line : Line} (owned : s.owned c e = true)

include owned

theorem Orderly.read_cycle (state : s.unit.state = .read) (few : s.unit.readCnt < refillCycles)
    (reading : Reading c s s.unit.readCnt line) (working : Working c s line 0) : Orderly c (s.cycle c e) := by
  have count := reading.count
  have next : s.readFire e = true → s.unit.readCnt = s.unit.readCnt := fun _ => rfl
  have answers : (s.resp c).toList.length ≤ (pending c s).length := by
    rw [toList_resp, pending, List.length_append]
    omega
  have reading' := reading.cycle owned next (by simp [state]) (by simp [state]) (by simp [state]) (by omega)
  have working' : Working c (s.cycle c e) line 0 := working.keep (by simp [state]) (by simp [state])
  by_cases fired : s.readFire e = true
  · have one : (asked s e).length = 1 := by simp [asked, fired]
    rw [one] at reading'
    by_cases last : s.unit.readCnt + 1 = refillCycles
    · -- the last read is out, and its answer is still to come
      refine .readDone line ?_ ?_ ?_ (last ▸ reading') working'
      · simp [WbSystem.cycle, unitNext, stateNext, state, WbSystem.readDone, counterWrap, fired, last]
      · simp [WbSystem.cycle, unitNext, counterNext, fired, last]
      · intro empty
        have moved := congrArg List.length (pending_cycle owned)
        rw [empty, List.length_append, List.length_append, one] at moved
        simp only [List.length_nil] at moved
        omega
    · have readCnt : (s.cycle c e).unit.readCnt = s.unit.readCnt + 1 := by
        simp [WbSystem.cycle, unitNext, counterNext, fired, last]
      refine .read line ?_ (by omega) (readCnt ▸ reading') working'
      simp [WbSystem.cycle, unitNext, stateNext, state, WbSystem.readDone, counterWrap, last]
  · have zero : (asked s e).length = 0 := by simp [asked, fired]
    rw [zero, Nat.add_zero] at reading'
    have readCnt : (s.cycle c e).unit.readCnt = s.unit.readCnt := by
      simp [WbSystem.cycle, unitNext, counterNext, fired]
    refine .read line ?_ (readCnt ▸ few) (readCnt ▸ reading') working'
    simp [WbSystem.cycle, unitNext, stateNext, state, WbSystem.readDone, counterWrap, fired]

theorem Orderly.readDone_cycle (state : s.unit.state = .readDone) (readCnt : s.unit.readCnt = 0)
    (more : pending c s ≠ []) (reading : Reading c s refillCycles line) (working : Working c s line 0) :
    Orderly c (s.cycle c e) := by
  have fired : s.readFire e = false := by simp [readFire, state]
  have zero : (asked s e).length = 0 := by simp [asked, fired]
  have next : s.readFire e = true → s.unit.readCnt = refillCycles := by simp [fired]
  have readCnt' : (s.cycle c e).unit.readCnt = 0 := by
    simp [WbSystem.cycle, unitNext, counterNext, fired, readCnt]
  have working' : Working c (s.cycle c e) line 0 := working.keep (by simp [state]) (by simp [state])
  by_cases done : s.writeDone c = true
  -- the row that comes back is the last one
  · obtain ⟨writeCnt, empty, buffer⟩ := reading.complete owned next (by simp [state]) (by rw [zero, Nat.add_zero]) done
    have tlCnt : (s.cycle c e).unit.tlCnt = 0 := by
      simp [WbSystem.cycle, unitNext, acquireFire, state, counterNext, reading.tlCnt]
    refine .write line ?_ readCnt' writeCnt empty (by rw [tlCnt]; decide) buffer (by rw [tlCnt]; exact working')
    simp [WbSystem.cycle, unitNext, stateNext, state, done]
  · have room : s.unit.writeCnt + (s.resp c).toList.length < refillCycles := by
      have count := reading.count
      have some' := List.length_pos_iff.mpr more
      cases answer : s.resp c with
      | none =>
        simp only [Option.toList_none, List.length_nil]
        omega
      | some row =>
        have open' : ¬ s.unit.writeCnt + 1 = refillCycles := by
          simpa [writeDone, counterWrap, answer] using done
        simp only [Option.toList_some, List.length_singleton]
        omega
    have reading' := reading.cycle owned next (by simp [state]) (by simp [state]) (by simp [state]) room
    rw [zero, Nat.add_zero] at reading'
    refine .readDone line ?_ readCnt' ?_ reading' working'
    · simp [WbSystem.cycle, unitNext, stateNext, state, done]
    -- the counts leave at least one row on its way
    · intro empty
      have moved := congrArg List.length (pending_cycle owned)
      have count := reading.count
      rw [empty, List.length_append, List.length_append, zero] at moved
      simp only [List.length_nil] at moved
      omega

theorem Orderly.write_cycle (state : s.unit.state = .write) (readCnt : s.unit.readCnt = 0)
    (writeCnt : s.unit.writeCnt = 0) (empty : pending c s = []) (few : s.unit.tlCnt < Config.outerDataBeats)
    (buffer : ∀ i < refillCycles, s.unit.dataBuffer i = line i) (working : Working c s line s.unit.tlCnt) :
    Orderly c (s.cycle c e) := by
  have fired : s.readFire e = false := by simp [readFire, state]
  have noAnswer := resp_eq_none empty
  have empty' := pending_cycle_nil owned empty fired
  have readCnt' : (s.cycle c e).unit.readCnt = 0 := by
    simp [WbSystem.cycle, unitNext, counterNext, fired, readCnt]
  have writeCnt' : (s.cycle c e).unit.writeCnt = 0 := by
    simp [WbSystem.cycle, unitNext, counterNext, noAnswer, writeCnt]
  have same : (s.cycle c e).unit.xact = s.unit.xact := if_neg (by simp [state])
  have buffer' : (s.cycle c e).unit.dataBuffer = s.unit.dataBuffer := by
    simp [WbSystem.cycle, unitNext, bufferNext, noAnswer, state]
  obtain ⟨done, accepted, sent⟩ := working
  have accepted' : (s.cycle c e).accepted = done ++ [(s.unit.xact, line)] := by
    rw [accepted_cycle (by simp [state]), accepted]
  by_cases taken : e.acquireReady = true
  · have beat : s.acquireFire e = true := by simp [acquireFire, state, taken]
    have sent' : (s.cycle c e).sent =
        done.flatMap (burst c) ++ (burst c (s.unit.xact, line)).take (s.unit.tlCnt + 1) := by
      have inside : s.unit.tlCnt < (burst c (s.unit.xact, line)).length := by simpa [burst] using few
      -- the counter picks the beat of the burst that is sent
      rw [List.take_succ_eq_append_getElem inside, ← List.append_assoc, ← sent]
      simp only [WbSystem.cycle, beat, if_true, putBeat_eq few]
      simp [burst, buffer s.unit.tlCnt few]
    by_cases last : s.unit.tlCnt + 1 = Config.outerDataBeats
    · refine .gnt ?_ ⟨readCnt', writeCnt', ?_, empty', ?_⟩
      · simp [WbSystem.cycle, unitNext, stateNext, state, tlDone, counterWrap, beat, last]
      · simp [WbSystem.cycle, unitNext, counterNext, beat, last]
      · rw [sent', accepted', List.flatMap_append, List.flatMap_singleton, last,
          List.take_of_length_le (by simp [burst])]
    · have tlCnt : (s.cycle c e).unit.tlCnt = s.unit.tlCnt + 1 := by
        simp [WbSystem.cycle, unitNext, counterNext, beat, last]
      refine .write line ?_ readCnt' writeCnt' empty' (by omega) (buffer' ▸ buffer) ⟨done, same ▸ accepted', ?_⟩
      · simp [WbSystem.cycle, unitNext, stateNext, state, tlDone, counterWrap, last]
      · rw [tlCnt, same, sent']
  -- the outer memory stalls, and the same beat stays up
  · have beat : s.acquireFire e = false := by simp [acquireFire, taken]
    have tlCnt : (s.cycle c e).unit.tlCnt = s.unit.tlCnt := by
      simp [WbSystem.cycle, unitNext, counterNext, beat]
    refine .write line ?_ readCnt' writeCnt' empty' (tlCnt ▸ few) (buffer' ▸ buffer) ⟨done, same ▸ accepted', ?_⟩
    · simp [WbSystem.cycle, unitNext, stateNext, state, tlDone, counterWrap, beat]
    · rw [tlCnt, same, ← sent]
      simp [WbSystem.cycle, beat]

end States

theorem Orderly.cycle (orderly : Orderly c s) (owned : s.owned c e = true) : Orderly c (s.cycle c e) := by
  cases orderly with
  | idle state quiet => exact quiet.idle_cycle state owned
  | read line state few reading working => exact read_cycle owned state few reading working
  | readDone line state readCnt more reading working => exact readDone_cycle owned state readCnt more reading working
  | write line state readCnt writeCnt empty few buffer working =>
    exact write_cycle owned state readCnt writeCnt empty few buffer working
  | gnt state quiet =>
    have quiet' := quiet.gnt_cycle state owned
    by_cases granted : e.grantValid = true
    · exact .idle (by simp [WbSystem.cycle, unitNext, stateNext, state, granted]) quiet'
    · exact .gnt (by simp [WbSystem.cycle, unitNext, stateNext, state, granted]) quiet'

theorem Orderly.run (start : Orderly c s) (run : Steps (clock c) (fun s e => owned c s e = true) s t) :
    Orderly c t :=
  run.invariant start fun orderly owned fired => Option.some.inj fired ▸ orderly.cycle owned

/-! Progress. -/

/-- A cycle in which the array is left to the unit and the outer memory is ready. -/
def cooperative (e : WbInputs) : Bool := e.write.isNone && e.reader.isNone && e.acquireReady && e.grantValid

theorem owned_of_cooperative (cooperates : cooperative e = true) : s.owned c e = true := by
  simp only [cooperative, Bool.and_eq_true, Option.isNone_iff_eq_none] at cooperates
  simp [owned, cooperates]

/-- Bounds the cooperative cycles until the unit is idle. -/
def rank (c : Config) (s : WbSystem) : Nat :=
  match s.unit.state with
  | .idle => 0
  | .gnt => 1
  | .write => 2 + (Config.outerDataBeats - s.unit.tlCnt)
  | .readDone => 11 + 2 * (forUnit c s.data.s1).length + (forUnit c s.data.resp).length
  | .read => 15 + (refillCycles - s.unit.readCnt)

theorem length_forUnit (entry : Option (Nat × Row)) : (forUnit c entry).length ≤ 1 := by
  cases entry with
  | none => simp [forUnit]
  | some entry =>
    simp only [forUnit]
    split <;> simp

theorem rank_cooperative (orderly : Orderly c s) (busy : s.unit.state ≠ .idle) (cooperates : cooperative e = true) :
    rank c (s.cycle c e) < rank c s := by
  simp only [cooperative, Bool.and_eq_true, Option.isNone_iff_eq_none] at cooperates
  obtain ⟨⟨⟨write, reader⟩, ready⟩, granted⟩ := cooperates
  have first := length_forUnit (c := c) (s.cycle c e).data.s1
  have second := length_forUnit (c := c) (s.cycle c e).data.resp
  cases orderly with
  | idle state _ => exact absurd state busy
  | read line state few reading _ =>
    -- nothing else reads the array, so the unit asks for the next row
    have fired : s.readFire e = true := by simp [readFire, state, write, reader]
    by_cases last : s.unit.readCnt + 1 = refillCycles
    · have state' : (s.cycle c e).unit.state = .readDone := by
        simp [cycle, unitNext, stateNext, state, readDone, counterWrap, fired, last]
      simp only [rank, state, state']
      omega
    · have state' : (s.cycle c e).unit.state = .read := by
        simp [cycle, unitNext, stateNext, state, readDone, counterWrap, last]
      have readCnt : (s.cycle c e).unit.readCnt = s.unit.readCnt + 1 := by
        simp [cycle, unitNext, counterNext, fired, last]
      simp only [rank, state, state', readCnt]
      omega
  | readDone line state readCnt more reading _ =>
    have some' := List.length_pos_iff.mpr more
    rw [pending, List.length_append] at some'
    by_cases done : s.writeDone c = true
    · have state' : (s.cycle c e).unit.state = .write := by simp [cycle, unitNext, stateNext, state, done]
      simp only [rank, state, state', Config.outerDataBeats]
      omega
    · have state' : (s.cycle c e).unit.state = .readDone := by simp [cycle, unitNext, stateNext, state, done]
      -- the unit asks for no more rows, so the pipeline of the array runs dry
      have s1 : (s.cycle c e).data.s1 = none := by simp [cycle, TCDataArray.cycle, arrayRead, write, reader, state]
      have resp : (s.cycle c e).data.resp = s.data.s1 := rfl
      have nothing : forUnit c none = [] := rfl
      simp only [rank, state, state', s1, resp, nothing, List.length_nil]
      omega
  | write line state readCnt writeCnt empty few buffer _ =>
    -- the outer memory takes a beat in each cooperative cycle
    have beat : s.acquireFire e = true := by simp [acquireFire, state, ready]
    by_cases last : s.unit.tlCnt + 1 = Config.outerDataBeats
    · have state' : (s.cycle c e).unit.state = .gnt := by
        simp [cycle, unitNext, stateNext, state, tlDone, counterWrap, beat, last]
      simp only [rank, state, state']
      omega
    · have state' : (s.cycle c e).unit.state = .write := by
        simp [cycle, unitNext, stateNext, state, tlDone, counterWrap, last]
      have tlCnt : (s.cycle c e).unit.tlCnt = s.unit.tlCnt + 1 := by
        simp [cycle, unitNext, counterNext, beat, last]
      simp only [rank, state, state', tlCnt]
      omega
  | gnt state _ =>
    have state' : (s.cycle c e).unit.state = .idle := by simp [cycle, unitNext, stateNext, state, granted]
    simp only [rank, state, state']
    omega

/-- Within `rank` cooperative cycles the unit is ready again, whatever is asked of it meanwhile. -/
theorem Orderly.completes (orderly : Orderly c s) (inputs : List WbInputs) (enough : rank c s ≤ inputs.length)
    (cooperates : ∀ e ∈ inputs, cooperative e = true) :
    ∃ k u, exec (clock c) s (inputs.take k) = some u ∧ u.unit.state = .idle ∧ u.accepted = s.accepted := by
  induction inputs generalizing s with
  | nil =>
    have rest : s.unit.state = .idle := by
      by_contra busy
      cases state : s.unit.state <;> simp_all [rank]
    exact ⟨0, s, rfl, rest, rfl⟩
  | cons e inputs ih =>
    by_cases rest : s.unit.state = .idle
    · exact ⟨0, s, rfl, rest, rfl⟩
    · have first := cooperates e List.mem_cons_self
      have lower := rank_cooperative orderly rest first
      rw [List.length_cons] at enough
      obtain ⟨k, u, ran, idle, accepted⟩ := ih (orderly.cycle (owned_of_cooperative first))
        (Nat.le_of_lt_succ (lower.trans_le enough)) (fun e' mem => cooperates e' (List.mem_cons_of_mem e mem))
      exact ⟨k + 1, u, ran, idle, accepted.trans (accepted_cycle rest)⟩

/-- The beats sent are the bursts of the accepted requests, one behind the other. Whenever the
unit is ready for a request all of them are sent and its counters are zero, and it becomes
ready as soon as the array and the outer memory serve it long enough. -/
theorem writes_back_victim_lines (reset : s.OnReset) (run : Steps (clock c) (fun s e => owned c s e = true) s t) :
    t.sent <+: t.accepted.flatMap (burst c)
    ∧ (t.unit.state = .idle → t.sent = t.accepted.flatMap (burst c)
      ∧ t.unit.readCnt = 0 ∧ t.unit.writeCnt = 0 ∧ t.unit.tlCnt = 0)
    ∧ ∃ bound, ∀ inputs : List WbInputs, bound ≤ inputs.length → (∀ e ∈ inputs, cooperative e = true) →
      ∃ k u, exec (clock c) t (inputs.take k) = some u ∧ u.unit.state = .idle ∧ u.accepted = t.accepted := by
  have orderly := reset.orderly.run run
  refine ⟨?_, ?_, rank c t, fun inputs enough cooperates => orderly.completes inputs enough cooperates⟩
  · have working : ∀ {line : Line} {beats : Nat}, Working c t line beats → t.sent <+: t.accepted.flatMap (burst c) := by
      rintro line beats ⟨done, accepted, sent⟩
      rw [accepted, sent, List.flatMap_append, List.flatMap_singleton]
      exact ⟨(burst c (t.unit.xact, line)).drop beats, by rw [List.append_assoc, List.take_append_drop]⟩
    cases orderly with
    | idle _ quiet => exact ⟨[], by rw [List.append_nil, quiet.sent]⟩
    | read _ _ _ _ work => exact working work
    | readDone _ _ _ _ _ work => exact working work
    | write _ _ _ _ _ _ _ work => exact working work
    | gnt _ quiet => exact ⟨[], by rw [List.append_nil, quiet.sent]⟩
  · intro idle
    cases orderly with
    | idle _ quiet => exact ⟨quiet.sent, quiet.readCnt, quiet.writeCnt, quiet.tlCnt⟩
    | read _ state => rw [state] at idle; cases idle
    | readDone _ state => rw [state] at idle; cases idle
    | write _ state => rw [state] at idle; cases idle
    | gnt state => rw [state] at idle; cases idle

def oneTracker : Config := ⟨⟨2, 512, 2 ^ 27, 2 ^ 30, 64⟩, 1, 1, 64, 8⟩

/-- A reset state in which every row of the array holds its own number. -/
def resetExample : WbSystem :=
  ⟨⟨.idle, fun _ => 0, 0, 0, 0, ⟨0, 0, 0, 0, 0⟩⟩, ⟨fun _ _ row => BitVec.ofNat 64 row, none, none⟩, [], []⟩

def calm (request : Option TCWBReq) : WbInputs := ⟨request, none, none, true, true⟩

/-- A request, a write to another set that closes the read port, a reader that wins it, and a
memory that stalls once; then a request for a line of that other set. -/
def inputsExample : List WbInputs :=
  ⟨some ⟨1, 0, 3, 2, 7⟩, none, none, false, false⟩ :: ⟨none, some ⟨2, 4, 0, 1, 1⟩, none, false, false⟩
    :: ⟨none, none, some ⟨9, 0, 0, 0⟩, false, false⟩ :: List.replicate 11 ⟨none, none, none, false, false⟩
    ++ List.replicate 9 (calm none) ++ List.replicate 20 (calm (some ⟨1, 0, 4, 0, 5⟩))

theorem writes_back_example : ∃ t : WbSystem, t.unit.state = .idle ∧ t.accepted.length = 2 ∧ t.sent.length = 16
    ∧ t.sent = t.accepted.flatMap (burst oneTracker) := by
  have ran : (execGuarded (clock oneTracker) (owned oneTracker) resetExample inputsExample).map
      (fun t => (t.unit.state, t.accepted.length, t.sent.length)) = some (.idle, 2, 16) := by decide +kernel
  obtain ⟨t, ran, result⟩ := Option.map_eq_some_iff.mp ran
  simp only [Prod.mk.injEq] at result
  obtain ⟨-, whole, -⟩ := writes_back_victim_lines (s := resetExample) ⟨rfl, rfl, rfl, rfl, rfl, rfl, rfl, rfl⟩
    (steps_of_execGuarded ran)
  exact ⟨t, result.1, result.2.1, result.2.2, (whole result.1).1⟩

end WbSystem

end LowRisc.TagCache
