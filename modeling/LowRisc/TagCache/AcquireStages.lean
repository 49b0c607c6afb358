import LowRisc.TagCache.AcquireStream

/-! The stages of an acquire, one cycle at a time. -/

set_option autoImplicit false

namespace LowRisc.TagCache

open LowRisc.Chisel LowRisc.Lib

namespace Stream

open TCMemAcquireTracker

variable {c : Config} {uncached : Bool} {s : Stream c} {inp : AcquireInput c}

/-! Collecting the beats. -/

theorem Complete.cycle (complete : Complete s) (none' : s.tracker.acquired inp = none)
    (rests : s.tracker.mtState = .idle ∨ s.tracker.mtState = .ifin)
    (tags : s.tracker.aType.grantsData = true → s.tracker.tcState = .idle) : Complete (s.cycle uncached inp) := by
  have other : s.tracker.mtState ≠ .oacq ∧ s.tracker.mtState ≠ .ognt ∧ s.tracker.mtState ≠ .ignt := by
    rcases rests with state | state <;> simp [state]
  have granted' : s.tracker.granted inp = none := granted_eq_none other.2.1
  have running : s.starts inp = false := by simp [starts, none']
  have beats : (s.cycle uncached inp).beats = s.beats := by simp [Stream.cycle, starts, none']
  have sent : (s.cycle uncached inp).sent = s.sent := by simp [Stream.cycle, starts, none', oacqFire_eq_false other.1]
  have answered : (s.cycle uncached inp).answered = s.answered := by simp [Stream.cycle, starts, none', granted']
  have grants : (s.cycle uncached inp).grants = s.grants := by simp [Stream.cycle, starts, none', igntFire_eq_false other]
  have aType : (s.cycle uncached inp).tracker.aType = s.tracker.aType := by
    simp [Stream.cycle, TCMemAcquireTracker.next, none']
  have reg : (s.cycle uncached inp).tracker.iacqCntReg = s.tracker.iacqCntReg := by
    simp [Stream.cycle, TCMemAcquireTracker.next, none']
  refine ⟨⟨?_, ?_, ?_⟩, ?_, ?_, ?_, ?_, ?_⟩
  · rw [beats, aType]
    exact complete.received.aType
  · rw [beats, aType]
    exact complete.received.block
  · rw [beats, aType, reg]
    exact complete.received.single
  · rw [sent, beats, complete.sent]
  · intro data
    rw [aType] at data
    have same : (s.cycle uncached inp).grantOf = s.grantOf := by
      funext g
      simp only [grantOf, aType, tagsLeft_cycle (tags data) running]
    rw [grants, answered, same, tagsLeft_cycle (tags data) running]
    exact complete.data data
  · rw [grants, aType]
    exact complete.block
  · rw [grants, aType, beats]
    exact complete.beat
  · rw [grants, aType]
    exact complete.ack

theorem zero_cycle (zero : Zero s.tracker) (none' : s.tracker.acquired inp = none)
    (rests : s.tracker.mtState = .idle ∨ s.tracker.mtState = .ifin) : Zero (s.cycle uncached inp).tracker := by
  have other : s.tracker.mtState ≠ .oacq ∧ s.tracker.mtState ≠ .ognt ∧ s.tracker.mtState ≠ .ignt := by
    rcases rests with state | state <;> simp [state]
  have granted' : s.tracker.granted inp = none := granted_eq_none other.2.1
  obtain ⟨iacqCnt, oacqCnt, ogntCnt, igntCnt⟩ := zero
  refine ⟨?_, ?_, ?_, ?_⟩ <;>
    simp [Stream.cycle, TCMemAcquireTracker.next, none', granted', oacqFire_eq_false other.1, igntFire_eq_false other,
      iacqCnt, oacqCnt, ogntCnt, igntCnt]

theorem settled_of_start (idle : s.tracker.tcState = .idle) (done : s.tracker.iacqDone inp = true) :
    Settled (s.cycle uncached inp) := by
  intro ended
  simp only [Stream.cycle, TCMemAcquireTracker.next, tcNext, idle, done, if_true] at ended
  cases order : s.tracker.order <;> simp [order, MemXactTracker.firstState] at ended

theorem Stage.start {b : AcquireBeat c} (state : s.tracker.mtState = .idle) (zero : Zero s.tracker)
    (taken : s.tracker.acquired inp = some b) (fits : s.fits b = true) : Stage (s.cycle uncached inp) := by
  have resting' : s.tracker.resting = true ∧ s.tracker.tcState = .idle := by
    simp only [acquired] at taken
    split at taken
    · rename_i ready
      simp only [acquireReady, state, Bool.or_eq_true] at ready
      have rests : s.tracker.resting = true := by
        rcases ready with rests | other
        · exact rests
        · cases other
      refine ⟨rests, ?_⟩
      simp only [resting, Bool.and_eq_true, beq_iff_eq] at rests
      exact rests.2
    · cases taken
  obtain ⟨rests, tcState⟩ := resting'
  have begins : s.starts inp = true := by simp [starts, state, taken]
  have granted' : s.tracker.granted inp = none := granted_eq_none (by simp [state])
  have oacq : s.tracker.oacqFire inp = false := oacqFire_eq_false (by simp [state])
  have ignt : s.tracker.igntFire inp = false := igntFire_eq_false (by simp [state])
  have beats : (s.cycle uncached inp).beats = [b] := by simp [Stream.cycle, begins, taken]
  have fresh : (s.cycle uncached inp).sent = [] ∧ (s.cycle uncached inp).answered = [] ∧ (s.cycle uncached inp).grants = [] := by
    simp [Stream.cycle, begins, granted', oacq, ignt]
  have aType : (s.cycle uncached inp).tracker.aType = b.aType := by
    simp [Stream.cycle, TCMemAcquireTracker.next, state, taken]
  have buffered : Buffered (s.cycle uncached inp) := by
    intro b' member
    rw [beats, List.mem_singleton] at member
    subst member
    simp [AcquireBeat.request, Stream.cycle, TCMemAcquireTracker.next, state, taken, granted']
  have counters : (s.cycle uncached inp).tracker.oacqCnt = 0 ∧ (s.cycle uncached inp).tracker.ogntCnt = 0
      ∧ (s.cycle uncached inp).tracker.igntCnt = 0 := by
    simp [Stream.cycle, TCMemAcquireTracker.next, oacq, granted', ignt, zero.oacqCnt, zero.ogntCnt, zero.igntCnt]
  have registers : (s.cycle uncached inp).tracker.ogntCntReg = 0 ∧ (s.cycle uncached inp).tracker.igntDoneReg = false := by
    simp [Stream.cycle, TCMemAcquireTracker.next, taken]
  cases multi : b.aType.hasMultibeatData with
  | true =>
    -- only a block comes in several beats, and the first of them is beat 0
    have block : b.aType = .putBlock := by
      cases kind : b.aType <;> simp_all [AcquireType.hasMultibeatData]
    have first : b.addrBeat = 0 := by
      simpa [Stream.fits, state, multi] using fits
    have done : s.tracker.iacqDone inp = false := by
      simp [iacqDone, taken, multi, zero.iacqCnt, Config.outerDataBeats]
    refine .iacq ⟨?_, ?_, ?_, ?_, ?_, ?_, ?_, buffered, counters, registers, fresh⟩
    · simp [Stream.cycle, TCMemAcquireTracker.next, mtNext, state, taken, done]
    · simp [Stream.cycle, TCMemAcquireTracker.next, tcNext, tcState, done]
    · rw [aType, block]
    · rw [beats]
      simp [Stream.cycle, TCMemAcquireTracker.next, taken, multi, zero.iacqCnt, counterNext, Config.outerDataBeats]
    · rw [beats, List.length_singleton]
      decide
    · rw [beats]
      simp [first]
    · rw [beats, aType]
      simp
  | false =>
    -- the one beat is the whole request, which goes out next
    have done : s.tracker.iacqDone inp = true := by simp [iacqDone, taken, multi]
    refine .oacq ⟨?_, ⟨?_, ?_, ?_⟩, buffered, ?_, ?_, ?_, fresh.2.1, ⟨?_, ?_, ?_, ?_⟩, settled_of_start tcState done⟩
    · simp [Stream.cycle, TCMemAcquireTracker.next, mtNext, state, taken, done]
    · rw [beats, aType]
      simp
    · intro block
      rw [aType, multi] at block
      cases block
    · intro _
      rw [beats]
      simp [Stream.cycle, TCMemAcquireTracker.next, taken]
    · rw [fresh.1, counters.1, List.take_zero]
    · rw [counters.1, beats]
      exact Nat.one_pos
    · refine ⟨?_, counters.2.1, registers.1⟩
      simp [Stream.cycle, TCMemAcquireTracker.next, taken, multi, zero.iacqCnt]
    · intro _
      rw [fresh.2.2]
      exact ⟨registers.2, counters.2.2, ⟨_, rfl⟩⟩
    · intro _ _
      exact fresh.2.2
    · intro _ _
      exact ⟨registers.2, counters.2.2, fresh.2.2⟩
    · intro _
      rw [fresh.2.2, registers.2]
      exact ⟨counters.2.2, rfl⟩

theorem acquired_of_iacq (state : s.tracker.mtState = .iacq) : s.tracker.acquired inp = inp.acquire := by
  simp [acquired, acquireReady, state]

theorem Collecting.collect {b : AcquireBeat c} (collecting : Collecting s)
    (taken : s.tracker.acquired inp = some b) (fits : s.fits b = true) : Stage (s.cycle uncached inp) := by
  obtain ⟨state, tcState, aType, count, few, order, aTypes, buffered, others, -, fresh⟩ := collecting
  have busy : s.tracker.mtState ≠ .idle := by simp [state]
  have running : s.starts inp = false := starts_of_busy busy
  have granted' : s.tracker.granted inp = none := granted_eq_none (by simp [state])
  have oacq : s.tracker.oacqFire inp = false := oacqFire_eq_false (by simp [state])
  have ignt : s.tracker.igntFire inp = false := igntFire_eq_false (by simp [state])
  have awake : s.tracker.resting = false := by simp [resting, state]
  obtain ⟨⟨kind, block⟩, beat⟩ : (b.aType = .putBlock ∧ b.addrBlock = s.tracker.addrBlock) ∧ b.addrBeat = s.beats.length := by
    simpa [Stream.fits, state] using fits
  have beats : (s.cycle uncached inp).beats = s.beats ++ [b] := by simp [Stream.cycle, running, taken]
  have fresh' : (s.cycle uncached inp).sent = [] ∧ (s.cycle uncached inp).answered = [] ∧ (s.cycle uncached inp).grants = [] := by
    simp [Stream.cycle, running, granted', oacq, ignt, fresh]
  have aType' : (s.cycle uncached inp).tracker.aType = .putBlock := by rw [aType_cycle busy, aType]
  -- the beats have come in the order of their numbers, so this one is the next
  have order' : (s.cycle uncached inp).beats.map AcquireBeat.addrBeat = List.range (s.beats.length + 1) := by
    rw [beats, List.map_append, order, List.range_succ]
    simp [beat]
  have aTypes' : ∀ b' ∈ (s.cycle uncached inp).beats, b'.aType = (s.cycle uncached inp).tracker.aType := by
    rw [beats, aType']
    intro b' member
    rcases List.mem_append.mp member with old | new
    · rw [aTypes b' old, aType]
    · rw [List.mem_singleton.mp new, kind]
  have buffered' : Buffered (s.cycle uncached inp) := by
    intro b' member
    rw [beats] at member
    -- an earlier beat has another number, so its place in the buffer is kept
    rcases List.mem_append.mp member with old | new
    · have below : b'.addrBeat ≠ b.addrBeat := by
        have inside : b'.addrBeat ∈ s.beats.map AcquireBeat.addrBeat := List.mem_map_of_mem old
        rw [order, List.mem_range] at inside
        omega
      rw [buffered b' old]
      simp [Stream.cycle, TCMemAcquireTracker.next, busy, taken, granted', awake, below]
    · obtain rfl := List.mem_singleton.mp new
      simp [AcquireBeat.request, AcquireType.outerOperand, Stream.cycle, TCMemAcquireTracker.next, busy, taken, granted', kind,
        block, aType]
  have counters : (s.cycle uncached inp).tracker.oacqCnt = 0 ∧ (s.cycle uncached inp).tracker.ogntCnt = 0
      ∧ (s.cycle uncached inp).tracker.igntCnt = 0 := by
    simp [Stream.cycle, TCMemAcquireTracker.next, oacq, granted', ignt, others]
  have registers : (s.cycle uncached inp).tracker.ogntCntReg = 0 ∧ (s.cycle uncached inp).tracker.igntDoneReg = false := by
    simp [Stream.cycle, TCMemAcquireTracker.next, taken]
  by_cases last : s.beats.length + 1 = Config.outerDataBeats
  -- the block is complete and goes to the outer memory
  · have done : s.tracker.iacqDone inp = true := by simp [iacqDone, taken, count, last]
    refine .oacq ⟨?_, ⟨aTypes', ?_, ?_⟩, buffered', ?_, ?_, ?_, fresh'.2.1, ⟨?_, ?_, ?_, ?_⟩, settled_of_start tcState done⟩
    · simp [Stream.cycle, TCMemAcquireTracker.next, mtNext, state, done]
    · intro _
      rw [order', last]
    · intro single
      rw [aType'] at single
      cases single
    · rw [fresh'.1, counters.1, List.take_zero]
    · rw [counters.1, beats]
      simp
    · refine ⟨?_, counters.2.1, registers.1⟩
      simp [Stream.cycle, TCMemAcquireTracker.next, taken, kind, AcquireType.hasMultibeatData, counterNext, count, last]
    · intro block
      rw [aType'] at block
      cases block
    · intro data
      rw [aType'] at data
      cases data
    · intro data
      rw [aType'] at data
      cases data
    · intro _
      rw [fresh'.2.2, registers.2]
      exact ⟨counters.2.2, rfl⟩
  -- the counter does not wrap yet
  · have done : s.tracker.iacqDone inp = false := by
      simp [iacqDone, taken, count, last, kind, AcquireType.hasMultibeatData]
    refine .iacq ⟨?_, ?_, aType', ?_, ?_, ?_, aTypes', buffered', counters, registers, fresh'⟩
    · simp [Stream.cycle, TCMemAcquireTracker.next, mtNext, state, done]
    · simp [Stream.cycle, TCMemAcquireTracker.next, tcNext, tcState, done]
    · rw [beats]
      simp [Stream.cycle, TCMemAcquireTracker.next, taken, kind, AcquireType.hasMultibeatData, counterNext, count, last]
    · rw [beats, List.length_append, List.length_singleton]
      omega
    · rw [order', beats, List.length_append, List.length_singleton]

theorem Collecting.await (collecting : Collecting s) (none' : s.tracker.acquired inp = none) :
    Collecting (s.cycle uncached inp) := by
  obtain ⟨state, tcState, aType, count, few, order, aTypes, buffered, others, registers, fresh⟩ := collecting
  have busy : s.tracker.mtState ≠ .idle := by simp [state]
  have running : s.starts inp = false := starts_of_busy busy
  have granted' : s.tracker.granted inp = none := granted_eq_none (by simp [state])
  have oacq : s.tracker.oacqFire inp = false := oacqFire_eq_false (by simp [state])
  have ignt : s.tracker.igntFire inp = false := igntFire_eq_false (by simp [state])
  have done : s.tracker.iacqDone inp = false := iacqDone_of_none none'
  have awake : s.tracker.resting = false := by simp [resting, state]
  have beats : (s.cycle uncached inp).beats = s.beats := by simp [Stream.cycle, running, none']
  have aType' : (s.cycle uncached inp).tracker.aType = s.tracker.aType := aType_cycle busy
  refine ⟨?_, tcNext_of_idle tcState none', aType'.trans aType, ?_, ?_, ?_, ?_, ?_, ?_, ?_, ?_⟩
  · simp [Stream.cycle, TCMemAcquireTracker.next, mtNext, state, done]
  · rw [beats]
    simp [Stream.cycle, TCMemAcquireTracker.next, none', count]
  · rw [beats]
    exact few
  · rw [beats]
    exact order
  · rw [beats, aType']
    exact aTypes
  · intro b member
    rw [beats] at member
    rw [buffered b member]
    simp [Stream.cycle, TCMemAcquireTracker.next, busy, none', granted', awake]
  · simp [Stream.cycle, TCMemAcquireTracker.next, oacq, granted', ignt, others]
  · simp [Stream.cycle, TCMemAcquireTracker.next, none', granted', ignt, registers]
  · simp [Stream.cycle, running, granted', oacq, ignt, fresh]

/-! Sending the request. -/

theorem beats_cycle (busy : s.tracker.mtState ≠ .idle) (full : s.tracker.mtState ≠ .iacq) :
    (s.cycle uncached inp).beats = s.beats := by
  have none' : s.tracker.acquired inp = none := acquired_eq_none busy full
  simp [Stream.cycle, starts_of_busy busy, none']

theorem Received.cycle (received : Received s) (busy : s.tracker.mtState ≠ .idle) (full : s.tracker.mtState ≠ .iacq) :
    Received (s.cycle uncached inp) := by
  have none' : s.tracker.acquired inp = none := acquired_eq_none busy full
  have reg : (s.cycle uncached inp).tracker.iacqCntReg = s.tracker.iacqCntReg := by
    simp [Stream.cycle, TCMemAcquireTracker.next, none']
  refine ⟨?_, ?_, ?_⟩
  · rw [beats_cycle busy full, aType_cycle busy]
    exact received.aType
  · rw [beats_cycle busy full, aType_cycle busy]
    exact received.block
  · rw [beats_cycle busy full, aType_cycle busy, reg]
    exact received.single

theorem Received.length_block (received : Received s) (multi : s.tracker.aType.hasMultibeatData = true) :
    s.beats.length = Config.outerDataBeats := by
  have count := congrArg List.length (received.block multi)
  simpa using count

theorem Received.length_single (received : Received s) (multi : s.tracker.aType.hasMultibeatData = false) :
    s.beats.length = 1 := by
  have count := congrArg List.length (received.single multi)
  simpa using count

theorem outer_outer (t : AcquireType) : t.outer.outer = t.outer := by cases t <;> rfl

theorem outerOperand_outer (t : AcquireType) (o : Operand) :
    t.outer.outerOperand (t.outerOperand o) = t.outerOperand o := by cases t <;> rfl

theorem Sending.request (sending : Sending s) :
    (s.beats.map AcquireBeat.request)[s.tracker.oacqCnt]? = some s.tracker.oacqBits.request := by
  have few := sending.few
  have place : s.beats[s.tracker.oacqCnt].addrBeat = s.tracker.oacqBeat := by
    rw [oacqBeat, oacqMulti, multi_outer]
    cases multi : s.tracker.aType.hasMultibeatData with
    | true =>
      have entry := congrArg (fun list => list[s.tracker.oacqCnt]?) (sending.received.block multi)
      rw [sending.received.length_block multi] at few
      simp only [List.getElem?_map, List.getElem?_eq_getElem sending.few, List.getElem?_range few, Option.map_some,
        Option.some.injEq] at entry
      simpa using entry
    | false =>
      have entry := congrArg (fun list => list[s.tracker.oacqCnt]?) (sending.received.single multi)
      rw [sending.received.length_single multi] at few
      have zero : s.tracker.oacqCnt = 0 := by omega
      simp only [List.getElem?_map, List.getElem?_eq_getElem sending.few, Option.map_some] at entry
      simpa [zero] using entry
  rw [List.getElem?_map, List.getElem?_eq_getElem few, Option.map_some, sending.buffered _ (List.getElem_mem few), place]
  simp [oacqBits, AcquireBeat.request, outer_outer, outerOperand_outer]

theorem Sending.oacqDone (sending : Sending s) (fire : s.tracker.oacqFire inp = true) :
    s.tracker.oacqDone inp = decide (s.tracker.oacqCnt + 1 = s.beats.length) := by
  have few := sending.few
  rw [TCMemAcquireTracker.oacqDone, fire, oacqMulti, multi_outer, Bool.true_and]
  cases multi : s.tracker.aType.hasMultibeatData with
  | true =>
    rw [sending.received.length_block multi]
    rfl
  | false =>
    rw [sending.received.length_single multi] at few ⊢
    have zero : s.tracker.oacqCnt = 0 := by omega
    simp [zero]

theorem Sending.granting_cycle (sending : Sending s) : Granting (s.cycle uncached inp) := by
  have state := sending.state
  have early : s.tracker.aType.grantsData = true → s.tracker.igntFire inp = false := by
    intro data
    by_contra fire
    have waits := (tcState_of_igntFire (eq_true_of_ne_false fire) data).2
    simp [sending.others, state] at waits
  have empty : Answered s := by
    refine ⟨?_, ?_⟩ <;> simp [sending.answered]
  refine sending.granting.cycle empty sending.settled (by simp [state]) (by simp [state]) ?_ (fun data _ => early data)
  intro block fire
  rw [early (grantsData_of_block block)] at fire
  cases fire

theorem Sending.cycle (sending : Sending s) : Stage (s.cycle uncached inp) := by
  have state := sending.state
  have busy : s.tracker.mtState ≠ .idle := by simp [state]
  have full : s.tracker.mtState ≠ .iacq := by simp [state]
  have none' : s.tracker.acquired inp = none := acquired_eq_none busy full
  have running : s.starts inp = false := starts_of_busy busy
  have granted' : s.tracker.granted inp = none := granted_eq_none (by simp [state])
  have awake : s.tracker.resting = false := by simp [resting, state]
  have beats : (s.cycle uncached inp).beats = s.beats := beats_cycle busy full
  have aType : (s.cycle uncached inp).tracker.aType = s.tracker.aType := aType_cycle busy
  have received : Received (s.cycle uncached inp) := sending.received.cycle busy full
  have settled : Settled (s.cycle uncached inp) := sending.settled.cycle busy full
  have answered : (s.cycle uncached inp).answered = [] := by simp [Stream.cycle, running, granted', sending.answered]
  have others : (s.cycle uncached inp).tracker.iacqCnt = 0 ∧ (s.cycle uncached inp).tracker.ogntCnt = 0
      ∧ (s.cycle uncached inp).tracker.ogntCntReg = 0 := by
    simp [Stream.cycle, TCMemAcquireTracker.next, none', granted', sending.others]
  have buffered : Buffered (s.cycle uncached inp) := by
    intro b member
    rw [beats] at member
    rw [sending.buffered b member]
    simp [Stream.cycle, TCMemAcquireTracker.next, busy, none', granted', awake]
  cases fire : s.tracker.oacqFire inp with
  | false =>
    -- nothing goes out in this cycle
    have done : s.tracker.oacqDone inp = false := by simp [TCMemAcquireTracker.oacqDone, fire]
    have count : (s.cycle uncached inp).tracker.oacqCnt = s.tracker.oacqCnt := by
      simp [Stream.cycle, TCMemAcquireTracker.next, fire]
    refine .oacq ⟨?_, received, buffered, ?_, ?_, others, answered, sending.granting_cycle, settled⟩
    · simp [Stream.cycle, TCMemAcquireTracker.next, mtNext, state, done]
    · rw [beats, count, ← sending.sent]
      simp [Stream.cycle, running, fire]
    · rw [beats, count]
      exact sending.few
  | true =>
    -- the counter names the beat that goes out
    have sent : (s.cycle uncached inp).sent = (s.beats.map AcquireBeat.request).take (s.tracker.oacqCnt + 1) := by
      rw [List.take_add_one, sending.request, ← sending.sent]
      simp [Stream.cycle, running, fire]
    have done := sending.oacqDone fire
    by_cases last : s.tracker.oacqCnt + 1 = s.beats.length
    · refine .ognt ⟨?_, received, ?_, ⟨others.1, ?_⟩, ?_, ?_, ?_, sending.granting_cycle, settled⟩
      · simp [Stream.cycle, TCMemAcquireTracker.next, mtNext, state, done, last]
      · rw [sent, beats, last, List.take_of_length_le (by simp)]
      -- the counter is back at 0, for a block as well as for a single beat
      · have length : s.tracker.oacqMulti = true → s.beats.length = Config.outerDataBeats := by
          rw [oacqMulti, multi_outer]
          exact sending.received.length_block
        have single : s.tracker.oacqMulti = false → s.beats.length = 1 := by
          rw [oacqMulti, multi_outer]
          exact sending.received.length_single
        cases multi : s.tracker.oacqMulti with
        | true =>
          rw [length multi] at last
          simp [Stream.cycle, TCMemAcquireTracker.next, fire, multi, counterNext, last]
        | false =>
          rw [single multi] at last
          simp [Stream.cycle, TCMemAcquireTracker.next, multi]
          omega
      · refine ⟨?_, ?_⟩ <;> simp [answered]
      · intro _
        rw [answered]
        exact ⟨others.2.1, Nat.succ_pos 7, others.2.2⟩
      · intro _
        exact ⟨others.2.1, answered, others.2.2⟩
    -- a single beat would have been the last
    · have multi : s.tracker.oacqMulti = true := by
        by_contra single
        rw [oacqMulti, multi_outer] at single
        have length := sending.received.length_single (eq_false_of_ne_true single)
        have few := sending.few
        omega
      have length : s.beats.length = Config.outerDataBeats := by
        rw [oacqMulti, multi_outer] at multi
        exact sending.received.length_block multi
      have count : (s.cycle uncached inp).tracker.oacqCnt = s.tracker.oacqCnt + 1 := by
        rw [length] at last
        simp [Stream.cycle, TCMemAcquireTracker.next, fire, multi, counterNext, last]
      refine .oacq ⟨?_, received, buffered, ?_, ?_, others, answered, sending.granting_cycle, settled⟩
      · simp [Stream.cycle, TCMemAcquireTracker.next, mtNext, state, done, last]
      · rw [sent, beats, count]
      · rw [beats, count]
        have few := sending.few
        omega

/-! The answer of the outer memory. -/

theorem Awaiting.granting_cycle (awaiting : Awaiting s) : Granting (s.cycle uncached inp) := by
  have state := awaiting.state
  refine awaiting.granting.cycle awaiting.answered awaiting.settled (by simp [state]) (by simp [state]) ?_ ?_
  · intro block fire
    obtain ⟨-, few, reg⟩ := awaiting.block block
    have waits := (tcState_of_igntFire fire (grantsData_of_block block)).2
    simp only [igntBeat, block, if_true, reg, state, reduceCtorEq, or_false] at waits
    omega
  · intro data single
    by_contra fire
    have waits := (tcState_of_igntFire (eq_true_of_ne_false fire) data).2
    simp [igntBeat, single, state] at waits

/-- The outer memory is asked for the one beat of a request without data for a block. -/
theorem Received.asked (received : Received s) (sent : s.sent = s.beats.map AcquireBeat.request)
    (single : s.tracker.aType.hasMultibeatData = false) {k : Nat} (asked : (s.sent.map Request.addrBeat).head? = some k) :
    s.beats.map AcquireBeat.addrBeat = [k] := by
  have beats : s.sent.map Request.addrBeat = s.beats.map AcquireBeat.addrBeat := by
    rw [sent, List.map_map]
    rfl
  rw [beats, received.single single] at asked
  rw [received.single single]
  simpa using asked

/-- The last beat never goes out before the whole block is in. -/
theorem Awaiting.igntCnt_cycle (awaiting : Awaiting s) (block : s.tracker.aType.grantsBlock = true) :
    (s.cycle uncached inp).tracker.igntCnt < Config.outerDataBeats := by
  obtain ⟨-, few, reg⟩ := awaiting.block block
  obtain ⟨-, count, front⟩ := awaiting.granting.block block
  have behind := front.length_le
  rw [List.length_map] at behind
  cases fire : s.tracker.igntFire inp with
  | false =>
    simp only [Stream.cycle, TCMemAcquireTracker.next, fire, Bool.false_and, counterNext_of_false]
    omega
  | true =>
    have early := (tcState_of_igntFire fire (grantsData_of_block block)).2
    simp only [igntBeat, block, if_true, reg, awaiting.state, reduceCtorEq, or_false] at early
    have last : ¬ s.tracker.igntCnt + 1 = Config.outerDataBeats := by omega
    simp only [Stream.cycle, TCMemAcquireTracker.next, fire, block, Bool.and_self, counterNext, if_true, last, if_false]
    omega

namespace Awaiting

theorem full (awaiting : Awaiting s) : s.tracker.mtState ≠ .idle ∧ s.tracker.mtState ≠ .iacq := by
  simp [awaiting.state]

/-- What the answer leaves alone. -/
theorem kept (awaiting : Awaiting s) (uncached : Bool) (inp : AcquireInput c) :
    (s.cycle uncached inp).beats = s.beats
    ∧ (s.cycle uncached inp).tracker.aType = s.tracker.aType
    ∧ (s.cycle uncached inp).sent = (s.cycle uncached inp).beats.map AcquireBeat.request
    ∧ (s.cycle uncached inp).tracker.iacqCnt = 0 ∧ (s.cycle uncached inp).tracker.oacqCnt = 0 := by
  obtain ⟨busy, full⟩ := awaiting.full
  have none' : s.tracker.acquired inp = none := acquired_eq_none busy full
  have running : s.starts inp = false := starts_of_busy busy
  have oacq : s.tracker.oacqFire inp = false := oacqFire_eq_false (by simp [awaiting.state])
  have beats : (s.cycle uncached inp).beats = s.beats := beats_cycle busy full
  refine ⟨beats, aType_cycle busy, ?_, ?_⟩
  · rw [beats, ← awaiting.sent]
    simp [Stream.cycle, running, oacq]
  · simp [Stream.cycle, TCMemAcquireTracker.next, none', oacq, awaiting.others]

theorem wait (awaiting : Awaiting s) (taken : s.tracker.granted inp = none) : Stage (s.cycle uncached inp) := by
  obtain ⟨busy, full⟩ := awaiting.full
  obtain ⟨-, aType, sent, others⟩ := awaiting.kept uncached inp
  have none' : s.tracker.acquired inp = none := acquired_eq_none busy full
  have answered : (s.cycle uncached inp).answered = s.answered := by simp [Stream.cycle, starts_of_busy busy, taken]
  have registers : (s.cycle uncached inp).tracker.ogntCnt = s.tracker.ogntCnt
      ∧ (s.cycle uncached inp).tracker.ogntCntReg = s.tracker.ogntCntReg := by
    simp [Stream.cycle, TCMemAcquireTracker.next, none', taken]
  have buffer : (s.cycle uncached inp).tracker.dataBuffer = s.tracker.dataBuffer := by
    simp [Stream.cycle, TCMemAcquireTracker.next, none', taken]
  refine .ognt ⟨?_, awaiting.received.cycle busy full, sent, others, ⟨?_, ?_⟩, ?_, ?_, awaiting.granting_cycle,
    awaiting.settled.cycle busy full⟩
  · simp [Stream.cycle, TCMemAcquireTracker.next, mtNext, awaiting.state, ogntDone, taken]
  · rw [aType, answered]
    exact awaiting.answered.order
  · rw [aType, answered, buffer]
    exact awaiting.answered.buffer
  · rw [aType, answered, registers.1, registers.2]
    exact awaiting.block
  · rw [aType, answered, registers.1, registers.2]
    exact awaiting.single

variable {g : GrantBeat c}

/-- A beat of the answer comes into the buffer. -/
theorem take (awaiting : Awaiting s) (uncached : Bool) (taken : s.tracker.granted inp = some g) :
    (s.cycle uncached inp).answered = s.answered ++ [g] ∧ (s.cycle uncached inp).tracker.ogntCntReg = g.addrBeat
      ∧ (s.cycle uncached inp).tracker.dataBuffer = upd s.tracker.dataBuffer g.addrBeat g.data := by
  obtain ⟨busy, full⟩ := awaiting.full
  have none' : s.tracker.acquired inp = none := acquired_eq_none busy full
  -- the register keeps the number of the beat for the grant that may go out with it
  refine ⟨by simp [Stream.cycle, starts_of_busy busy, taken], ?_, ?_⟩
  · simp [Stream.cycle, TCMemAcquireTracker.next, none', taken]
  · simp [Stream.cycle, TCMemAcquireTracker.next, taken]

theorem answered_block (awaiting : Awaiting s) (taken : s.tracker.granted inp = some g)
    (block : s.tracker.aType.grantsBlock = true) (place : g.addrBeat = s.answered.length) :
    Answered (s.cycle uncached inp) := by
  obtain ⟨answered, -, buffer⟩ := awaiting.take uncached taken
  constructor
  · intro _
    rw [answered, List.map_append, awaiting.answered.order block, List.length_append, List.length_singleton,
      List.range_succ]
    simp [place]
  · intro _ g' member
    rw [answered] at member
    rw [buffer]
    rcases List.mem_append.mp member with old | new
    · have inside : g'.addrBeat ∈ s.answered.map GrantBeat.addrBeat := List.mem_map_of_mem old
      rw [awaiting.answered.order block, List.mem_range] at inside
      rw [upd_of_ne (by omega)]
      exact awaiting.answered.buffer (grantsData_of_block block) g' old
    · rw [List.mem_singleton.mp new, upd_same]

/-- A beat of a block. -/
theorem takeBlock (awaiting : Awaiting s) (taken : s.tracker.granted inp = some g) (answers : s.answers g = true)
    (block : s.tracker.aType.grantsBlock = true) : Stage (s.cycle uncached inp) := by
  obtain ⟨busy, full⟩ := awaiting.full
  obtain ⟨-, aType, sent, others⟩ := awaiting.kept uncached inp
  obtain ⟨answered, reg, -⟩ := awaiting.take uncached taken
  obtain ⟨isBlock, place⟩ : g.isBlock = true ∧ g.addrBeat = s.answered.length := by
    simpa [Stream.answers, block] using answers
  obtain ⟨count, few, -⟩ := awaiting.block block
  have received : Received (s.cycle uncached inp) := awaiting.received.cycle busy full
  have settled : Settled (s.cycle uncached inp) := awaiting.settled.cycle busy full
  -- with the last beat the counter wraps to zero, and the tracker goes on to its grants
  have answered' : Answered (s.cycle uncached inp) := awaiting.answered_block taken block place
  by_cases last : s.answered.length + 1 = Config.outerDataBeats
  · refine .ignt ⟨?_, received, sent, ⟨others.1, others.2, ?_⟩, answered', ?_, ?_, awaiting.granting_cycle, settled⟩
    · simp [Stream.cycle, TCMemAcquireTracker.next, mtNext, awaiting.state, ogntDone, taken, count, last]
    · simp [Stream.cycle, TCMemAcquireTracker.next, taken, isBlock, counterNext, count, last]
    · intro _
      refine ⟨by rw [answered, List.length_append, List.length_singleton, last], ?_⟩
      exact awaiting.igntCnt_cycle block
    · intro _ single
      rw [aType, block] at single
      cases single
  · refine .ognt ⟨?_, received, sent, others, answered', ?_, ?_, awaiting.granting_cycle, settled⟩
    · simp [Stream.cycle, TCMemAcquireTracker.next, mtNext, awaiting.state, ogntDone, taken, count, last, isBlock]
    · intro _
      rw [answered, List.length_append, List.length_singleton, reg, place]
      refine ⟨?_, by omega, by omega⟩
      simp [Stream.cycle, TCMemAcquireTracker.next, taken, isBlock, counterNext, count, last]
    · intro single
      rw [aType, block] at single
      cases single

/-- The answer to a request that is granted no block is a single beat. -/
theorem takeSingle (awaiting : Awaiting s) (taken : s.tracker.granted inp = some g) (answers : s.answers g = true)
    (block : s.tracker.aType.grantsBlock = false) : Stage (s.cycle uncached inp) := by
  obtain ⟨busy, full⟩ := awaiting.full
  obtain ⟨beats, aType, sent, others⟩ := awaiting.kept uncached inp
  obtain ⟨answered, reg, buffer⟩ := awaiting.take uncached taken
  obtain ⟨count, empty, -⟩ := awaiting.single block
  obtain ⟨isBlock, asked⟩ : g.isBlock = false
      ∧ (s.tracker.aType.grantsData = false ∨ (s.sent.map Request.addrBeat).head? = some g.addrBeat) := by
    simpa only [Stream.answers, block, Bool.false_eq_true, if_false, Bool.and_eq_true, Bool.not_eq_true',
      Bool.or_eq_true, beq_iff_eq] using answers
  refine .ignt ⟨?_, awaiting.received.cycle busy full, sent, ⟨others.1, others.2, ?_⟩, ⟨?_, ?_⟩, ?_, ?_,
    awaiting.granting_cycle, awaiting.settled.cycle busy full⟩
  · simp [Stream.cycle, TCMemAcquireTracker.next, mtNext, awaiting.state, ogntDone, taken, isBlock]
  · simp [Stream.cycle, TCMemAcquireTracker.next, taken, isBlock, count]
  · intro block'
    rw [aType, block] at block'
    cases block'
  · intro _ g' member
    rw [answered, empty, List.nil_append, List.mem_singleton] at member
    rw [buffer, member, upd_same]
  · intro block'
    rw [aType, block] at block'
    cases block'
  · intro data _
    rw [aType] at data
    have one : s.tracker.aType.hasMultibeatData = false := by
      by_contra multi
      rw [(grants_of_multi (eq_true_of_ne_false multi)).1] at data
      cases data
    rw [answered, empty, reg, beats]
    refine ⟨rfl, awaiting.received.asked awaiting.sent one ?_⟩
    rcases asked with noData | asked
    · rw [data] at noData
      cases noData
    · exact asked

theorem cycle (awaiting : Awaiting s) (orderly : s.orderly inp = true) : Stage (s.cycle uncached inp) := by
  cases taken : s.tracker.granted inp with
  | none => exact awaiting.wait taken
  | some g =>
    have answers : s.answers g = true := by
      simp only [Stream.orderly, taken, Bool.and_eq_true] at orderly
      exact orderly.2
    cases block : s.tracker.aType.grantsBlock with
    | true => exact awaiting.takeBlock taken answers block
    | false => exact awaiting.takeSingle taken answers block

end Awaiting

/-! The last grants. -/

theorem map_grantOf (list : List (GrantBeat c)) :
    (list.map s.grantOf).map GrantBeat.addrBeat = list.map GrantBeat.addrBeat := by
  rw [List.map_map]
  rfl

theorem Replying.busy (replying : Replying s) :
    s.tracker.mtState = .ignt ∧ s.tracker.mtState ≠ .idle ∧ s.tracker.mtState ≠ .iacq := by
  simp [replying.state]

theorem Replying.silent (replying : Replying s) (inp : AcquireInput c) : s.tracker.acquired inp = none
    ∧ s.starts inp = false ∧ s.tracker.oacqFire inp = false ∧ s.tracker.granted inp = none := by
  obtain ⟨state, busy, full⟩ := replying.busy
  exact ⟨acquired_eq_none busy full, starts_of_busy busy, oacqFire_eq_false (by simp [state]),
    granted_eq_none (by simp [state])⟩

theorem Replying.kept (replying : Replying s) (uncached : Bool) (inp : AcquireInput c) :
    (s.cycle uncached inp).beats = s.beats ∧ (s.cycle uncached inp).tracker.aType = s.tracker.aType
      ∧ (s.cycle uncached inp).answered = s.answered := by
  obtain ⟨-, busy, full⟩ := replying.busy
  obtain ⟨-, running, -, granted⟩ := replying.silent inp
  refine ⟨beats_cycle busy full, aType_cycle busy, ?_⟩
  simp [Stream.cycle, running, granted]

theorem Replying.finish (replying : Replying s) (leaves : (s.tracker.igntDone inp || s.tracker.igntDoneReg) = true)
    (grants : s.tracker.aType.grantsData = true →
      (s.cycle uncached inp).grants = s.answered.map s.grantOf ∧ s.tracker.tcState = .idle)
    (ack : s.tracker.aType.grantsData = false → (s.cycle uncached inp).grants.length = 1)
    (zero : (s.cycle uncached inp).tracker.igntCnt = 0) : Stage (s.cycle uncached inp) := by
  obtain ⟨state, busy, full⟩ := replying.busy
  obtain ⟨none', running, oacq, granted'⟩ := replying.silent inp
  obtain ⟨beats, aType, answered⟩ := replying.kept uncached inp
  -- all counters wrapped with their last beat
  have counters : Zero (s.cycle uncached inp).tracker := by
    refine ⟨?_, ?_, ?_, zero⟩ <;>
      simp [Stream.cycle, TCMemAcquireTracker.next, none', oacq, granted', replying.others]
  have same : s.tracker.aType.grantsData = true → (s.cycle uncached inp).grantOf = s.grantOf := by
    intro data
    funext g
    simp only [grantOf, aType, tagsLeft_cycle (grants data).2 running]
  -- what went out and came in is kept in the cycle of the last grant
  have complete : Complete (s.cycle uncached inp) := by
    refine ⟨replying.received.cycle busy full, ?_, ?_, ?_, ?_, ?_⟩
    · rw [beats, ← replying.sent]
      simp [Stream.cycle, running, oacq]
    · intro data
      rw [aType] at data
      rw [(grants data).1, answered, same data, tagsLeft_cycle (grants data).2 running, replying.settled (grants data).2]
      exact ⟨rfl, rfl⟩
    · intro block
      rw [aType] at block
      rw [(grants (grantsData_of_block block)).1, map_grantOf, replying.answered.order block, (replying.block block).1]
    · intro data single
      rw [aType] at data single
      rw [(grants data).1, map_grantOf, beats, (replying.beat data single).1, (replying.beat data single).2]
    · rw [aType]
      exact ack
  have tags : (s.cycle uncached inp).tracker.aType.grantsData = true → (s.cycle uncached inp).tracker.tcState = .idle := by
    intro data
    rw [aType] at data
    exact tcNext_of_idle (grants data).2 none'
  -- without a cache above the tracker is free at once, else it waits for the finish
  cases uncached with
  | true =>
    refine .idle ?_ counters (.inr complete) tags
    simp [Stream.cycle, TCMemAcquireTracker.next, mtNext, state, leaves]
  | false =>
    refine .ifin ?_ counters complete tags
    simp [Stream.cycle, TCMemAcquireTracker.next, mtNext, state, leaves]

theorem Replying.stay (replying : Replying s) (stays : (s.tracker.igntDone inp || s.tracker.igntDoneReg) = false)
    (waits : s.tracker.aType.grantsData = true → s.tracker.aType.grantsBlock = false → s.tracker.igntFire inp = false) :
    Stage (s.cycle uncached inp) := by
  obtain ⟨state, busy, full⟩ := replying.busy
  obtain ⟨none', running, oacq, granted'⟩ := replying.silent inp
  obtain ⟨beats, aType, answered⟩ := replying.kept uncached inp
  have reg : (s.cycle uncached inp).tracker.ogntCntReg = s.tracker.ogntCntReg := by
    simp [Stream.cycle, TCMemAcquireTracker.next, none', granted']
  -- the last beat would end the stage
  have small : s.tracker.aType.grantsBlock = true → s.tracker.igntFire inp = true →
      s.tracker.igntCnt + 1 < Config.outerDataBeats := by
    intro block fire
    have below := (replying.block block).2
    simp only [igntDone, fire, block, Bool.not_true, Bool.false_or, Bool.true_and, Bool.or_eq_false_iff,
      decide_eq_false_iff_not] at stays
    omega
  refine .ignt ⟨?_, replying.received.cycle busy full, ?_, ?_, ⟨?_, ?_⟩, ?_, ?_, ?_, replying.settled.cycle busy full⟩
  · simp only [Stream.cycle, TCMemAcquireTracker.next, mtNext, state, stays, Bool.false_eq_true, if_false]
  · rw [beats, ← replying.sent]
    simp [Stream.cycle, running, oacq]
  · simp [Stream.cycle, TCMemAcquireTracker.next, none', oacq, granted', replying.others]
  · rw [aType, answered]
    exact replying.answered.order
  · rw [aType, answered]
    intro data g member
    have kept := replying.answered.buffer data g member
    simpa [Stream.cycle, TCMemAcquireTracker.next, none', granted'] using kept
  · intro block
    rw [aType] at block
    refine ⟨by rw [answered, (replying.block block).1], ?_⟩
    have below := (replying.block block).2
    cases fire : s.tracker.igntFire inp with
    | false =>
      simp only [Stream.cycle, TCMemAcquireTracker.next, fire, Bool.false_and, counterNext_of_false]
      exact below
    | true =>
      have room := small block fire
      have last : ¬ s.tracker.igntCnt + 1 = Config.outerDataBeats := by omega
      simp only [Stream.cycle, TCMemAcquireTracker.next, fire, block, Bool.and_self, counterNext, if_true, last, if_false]
      exact room
  · rw [aType, answered, reg, beats]
    exact replying.beat
  · refine replying.granting.cycle replying.answered replying.settled busy full ?_ waits
    intro block fire
    rw [(replying.block block).1]
    exact ⟨(replying.block block).2, small block fire⟩

theorem Replying.cycle (replying : Replying s) : Stage (s.cycle uncached inp) := by
  have state := replying.state
  have busy : s.tracker.mtState ≠ .idle := by simp [state]
  have running : s.starts inp = false := starts_of_busy busy
  cases data : s.tracker.aType.grantsData with
  | false =>
    -- an acknowledgement, which may be out already
    have block : s.tracker.aType.grantsBlock = false := by
      by_contra block
      rw [grantsData_of_block (eq_true_of_ne_false block)] at data
      cases data
    obtain ⟨count, grants⟩ := replying.granting.ack data
    cases leaves : s.tracker.igntDone inp || s.tracker.igntDoneReg with
    | false =>
      refine replying.stay leaves fun data' => ?_
      rw [data] at data'
      cases data'
    | true =>
      refine replying.finish leaves (fun data' => ?_) (fun _ => ?_) ?_
      · rw [data] at data'
        cases data'
      · cases done : s.tracker.igntDoneReg with
        | true =>
          have fire : s.tracker.igntFire inp = false := by simp [igntFire, igntValid, done]
          simp [Stream.cycle, running, fire, grants, done]
        | false =>
          have fire : s.tracker.igntFire inp = true := by
            simp only [done, Bool.or_false, igntDone, Bool.and_eq_true] at leaves
            exact leaves.1
          simp [Stream.cycle, running, fire, grants, done]
      · simp [Stream.cycle, TCMemAcquireTracker.next, block, count]
  | true =>
    cases fire : s.tracker.igntFire inp with
    | false =>
      refine replying.stay ?_ fun _ _ => fire
      cases block : s.tracker.aType.grantsBlock with
      | true => simp [igntDone, fire, (replying.granting.block block).1]
      | false => simp [igntDone, fire, (replying.granting.beat data block).1]
    | true =>
      have idle := (tcState_of_igntFire fire data).1
      have concat : (s.cycle uncached inp).grants = s.grants ++ [s.tracker.igntBits] := by simp [Stream.cycle, running, fire]
      cases block : s.tracker.aType.grantsBlock with
      | true =>
        obtain ⟨done, count, front⟩ := replying.granting.block block
        obtain ⟨whole, below⟩ := replying.block block
        by_cases last : s.tracker.igntCnt + 1 = Config.outerDataBeats
        · refine replying.finish ?_ (fun _ => ⟨?_, idle⟩) (fun noData => ?_) ?_
          · simp [igntDone, fire, last]
          · rw [concat]
            have longer := replying.granting.concat replying.answered replying.settled block fire (by omega)
            apply longer.eq_of_length
            rw [List.length_append, List.length_singleton, List.length_map]
            omega
          · rw [data] at noData
            cases noData
          · simp [Stream.cycle, TCMemAcquireTracker.next, fire, block, counterNext, last]
        · refine replying.stay ?_ fun _ single => ?_
          · simp [igntDone, fire, block, last, done]
          · rw [block] at single
            cases single
      | false =>
        obtain ⟨-, count, grants⟩ := replying.granting.beat data block
        refine replying.finish ?_ (fun _ => ⟨?_, idle⟩) (fun noData => ?_) ?_
        · simp [igntDone, fire, block]
        · have one := (replying.beat data block).1
          obtain ⟨g, only⟩ : ∃ g, s.answered = [g] := by
            rw [← List.length_eq_one_iff]
            have count := congrArg List.length one
            simpa using count
          rw [only] at one
          have place : g.addrBeat = s.tracker.ogntCntReg := by simpa using one
          have stored := replying.answered.buffer data g (by simp [only])
          rw [place] at stored
          rw [concat, grants, only]
          simp [igntBits, igntBeat, grantOf, block, place, stored, replying.settled idle]
        · rw [data] at noData
          cases noData
        · simp [Stream.cycle, TCMemAcquireTracker.next, block, count]

/-! Every cycle. -/

theorem Stage.cycle (stage : Stage s) (orderly : s.orderly inp = true) : Stage (s.cycle uncached inp) := by
  have fits : ∀ b, s.tracker.acquired inp = some b → s.fits b = true := by
    intro b taken
    simp only [Stream.orderly, taken, Bool.and_eq_true] at orderly
    exact orderly.1
  cases stage with
  | idle state zero finished tags =>
    cases taken : s.tracker.acquired inp with
    | some b => exact .start state zero taken (fits b taken)
    | none =>
      refine .idle ?_ (zero_cycle zero taken (.inl state)) ?_ ?_
      · simp [Stream.cycle, TCMemAcquireTracker.next, mtNext, state, taken]
      -- the tracker may not have served anything yet
      · rcases finished with ⟨beats, sent, grants⟩ | complete
        · refine .inl ⟨?_, ?_, ?_⟩
          · simp [Stream.cycle, starts, taken, beats]
          · simp [Stream.cycle, starts, taken, sent, oacqFire, state]
          · simp [Stream.cycle, starts, taken, grants, igntFire, igntValid, state]
        · exact .inr (complete.cycle taken (.inl state) tags)
      · intro data
        have kept : (s.cycle uncached inp).tracker.aType = s.tracker.aType := by
          simp [Stream.cycle, TCMemAcquireTracker.next, taken]
        rw [kept] at data
        exact tcNext_of_idle (tags data) taken
  | iacq collecting =>
    cases taken : s.tracker.acquired inp with
    | some b => exact collecting.collect taken (fits b taken)
    | none => exact .iacq (collecting.await taken)
  | oacq sending => exact sending.cycle
  | ognt awaiting => exact awaiting.cycle orderly
  | ignt replying => exact replying.cycle
  | ifin state zero complete tags =>
    have none' : s.tracker.acquired inp = none := acquired_eq_none (by simp [state]) (by simp [state])
    have kept : (s.cycle uncached inp).tracker.aType = s.tracker.aType := aType_cycle (by simp [state])
    have tags' : (s.cycle uncached inp).tracker.aType.grantsData = true → (s.cycle uncached inp).tracker.tcState = .idle := by
      intro data
      rw [kept] at data
      exact tcNext_of_idle (tags data) none'
    have zero' : Zero (s.cycle uncached inp).tracker := zero_cycle zero none' (.inr state)
    have complete' : Complete (s.cycle uncached inp) := complete.cycle none' (.inr state) tags
    cases finish : inp.finish with
    | true => exact .idle (by simp [Stream.cycle, TCMemAcquireTracker.next, mtNext, state, finish]) zero' (.inr complete') tags'
    | false => exact .ifin (by simp [Stream.cycle, TCMemAcquireTracker.next, mtNext, state, finish]) zero' complete' tags'

end Stream

end LowRisc.TagCache
