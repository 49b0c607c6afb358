import LowRisc.TagCache.AcquireTracker

/-! The beats of an acquire on their way through a tracker. -/

set_option autoImplicit false

namespace LowRisc.TagCache

open LowRisc.Chisel LowRisc.Lib

/-- What a request says apart from its tag: type, block, beat, data, masks and operand. -/
structure Request where
  aType : AcquireType
  addrBlock : Nat
  addrBeat : Nat
  data : Row
  wmask : BitVec 8
  tmask : Bool
  operand : Operand
  deriving DecidableEq

def AcquireBeat.request {c : Config} (b : AcquireBeat c) : Request :=
  ⟨b.aType.outer, b.addrBlock, b.addrBeat, b.data, b.wmask, b.tmask, b.aType.outerOperand b.operand⟩

structure Stream (c : Config) where
  tracker : TCMemAcquireTracker c
  /-- received from the inner side -/
  beats : List (AcquireBeat c)
  /-- sent to the outer side -/
  sent : List Request
  /-- received from the outer side -/
  answered : List (GrantBeat c)
  /-- sent to the inner side -/
  grants : List (GrantBeat c)
  /-- the tags when the tag transaction ended -/
  tagsLeft : Option (BlockTags c)

namespace Stream

open TCMemAcquireTracker

variable {c : Config} (uncached : Bool) (s : Stream c) (inp : AcquireInput c)

def starts : Bool := s.tracker.mtState == .idle && (s.tracker.acquired inp).isSome

def cycle : Stream c where
  tracker := s.tracker.next uncached inp
  beats := (if s.starts inp then [] else s.beats) ++ (s.tracker.acquired inp).toList
  sent := (if s.starts inp then [] else s.sent) ++ (if s.tracker.oacqFire inp then [s.tracker.oacqBits.request] else [])
  answered := (if s.starts inp then [] else s.answered) ++ (s.tracker.granted inp).toList
  grants := (if s.starts inp then [] else s.grants) ++ (if s.tracker.igntFire inp then [s.tracker.igntBits] else [])
  tagsLeft :=
    if s.starts inp then none
    else if s.tracker.tcState ≠ .idle ∧ s.tracker.tcNext inp = .idle then some (s.tracker.next uncached inp).memData
    else s.tagsLeft

def step : Option (Stream c) := some (s.cycle uncached inp)

/-- The beats of a block arrive in order and the beat of a smaller request is in the block. -/
def fits (b : AcquireBeat c) : Bool :=
  if s.tracker.mtState = .iacq then
    b.aType == .putBlock && b.addrBlock == s.tracker.addrBlock && b.addrBeat == s.beats.length
  else if b.aType.hasMultibeatData then b.addrBeat == 0 else decide (b.addrBeat < Config.outerDataBeats)

/-- The outer memory answers with the beats of the block in order, with the beat that it was
asked for, or with an acknowledgement. -/
def answers (g : GrantBeat c) : Bool :=
  if s.tracker.aType.grantsBlock then g.isBlock && g.addrBeat == s.answered.length
  else !g.isBlock && (!s.tracker.aType.grantsData || (s.sent.map Request.addrBeat).head? == some g.addrBeat)

def orderly : Bool := (s.tracker.acquired inp).all s.fits && (s.tracker.granted inp).all s.answers

structure OnReset : Prop where
  mtState : s.tracker.mtState = .idle
  tcState : s.tracker.tcState = .idle
  iacqCnt : s.tracker.iacqCnt = 0
  oacqCnt : s.tracker.oacqCnt = 0
  ogntCnt : s.tracker.ogntCnt = 0
  igntCnt : s.tracker.igntCnt = 0
  beats : s.beats = []
  sent : s.sent = []
  grants : s.grants = []

def grantOf (g : GrantBeat c) : GrantBeat c :=
  ⟨s.tracker.aType.grantsBlock, g.addrBeat, g.data, tagAt (s.tagsLeft.getD 0) g.addrBeat⟩

/-! The invariant. -/

structure Received (s : Stream c) : Prop where
  aType : ∀ b ∈ s.beats, b.aType = s.tracker.aType
  block : s.tracker.aType.hasMultibeatData = true →
    s.beats.map AcquireBeat.addrBeat = List.range Config.outerDataBeats
  single : s.tracker.aType.hasMultibeatData = false → s.beats.map AcquireBeat.addrBeat = [s.tracker.iacqCntReg]

def Buffered (s : Stream c) : Prop :=
  ∀ b ∈ s.beats, b.request = ⟨s.tracker.aType.outer, s.tracker.addrBlock, b.addrBeat, s.tracker.dataBuffer b.addrBeat,
    s.tracker.wmaskBuffer b.addrBeat, s.tracker.tmaskBuffer b.addrBeat, s.tracker.aType.outerOperand s.tracker.operand⟩

structure Granting (s : Stream c) : Prop where
  block : s.tracker.aType.grantsBlock = true → s.tracker.igntDoneReg = false ∧ s.tracker.igntCnt = s.grants.length
    ∧ s.grants <+: s.answered.map s.grantOf
  /-- no row goes out before its tags are known -/
  tags : s.tracker.aType.grantsData = true → s.tracker.tcState ≠ .idle → s.grants = []
  beat : s.tracker.aType.grantsData = true → s.tracker.aType.grantsBlock = false →
    s.tracker.igntDoneReg = false ∧ s.tracker.igntCnt = 0 ∧ s.grants = []
  ack : s.tracker.aType.grantsData = false → s.tracker.igntCnt = 0 ∧ s.grants.length = s.tracker.igntDoneReg.toNat

structure Answered (s : Stream c) : Prop where
  order : s.tracker.aType.grantsBlock = true → s.answered.map GrantBeat.addrBeat = List.range s.answered.length
  buffer : s.tracker.aType.grantsData = true → ∀ g ∈ s.answered, s.tracker.dataBuffer g.addrBeat = g.data

/-- The transaction is over: every beat went out once, and every grant came back once. -/
structure Complete (s : Stream c) : Prop where
  received : Received s
  sent : s.sent = s.beats.map AcquireBeat.request
  data : s.tracker.aType.grantsData = true → s.tagsLeft.isSome = true ∧ s.grants = s.answered.map s.grantOf
  block : s.tracker.aType.grantsBlock = true → s.grants.map GrantBeat.addrBeat = List.range Config.outerDataBeats
  beat : s.tracker.aType.grantsData = true → s.tracker.aType.grantsBlock = false →
    s.grants.map GrantBeat.addrBeat = s.beats.map AcquireBeat.addrBeat
  ack : s.tracker.aType.grantsData = false → s.grants.length = 1

structure Untouched (s : Stream c) : Prop where
  beats : s.beats = []
  sent : s.sent = []
  grants : s.grants = []

structure Zero (t : TCMemAcquireTracker c) : Prop where
  iacqCnt : t.iacqCnt = 0
  oacqCnt : t.oacqCnt = 0
  ogntCnt : t.ogntCnt = 0
  igntCnt : t.igntCnt = 0

/-- Once the tag machine rests, the tags are those that it left. -/
def Settled (s : Stream c) : Prop := s.tracker.tcState = .idle → s.tagsLeft = some s.tracker.memData

structure Collecting (s : Stream c) : Prop where
  state : s.tracker.mtState = .iacq
  tcState : s.tracker.tcState = .idle
  aType : s.tracker.aType = .putBlock
  count : s.tracker.iacqCnt = s.beats.length
  few : s.beats.length < Config.outerDataBeats
  order : s.beats.map AcquireBeat.addrBeat = List.range s.beats.length
  aTypes : ∀ b ∈ s.beats, b.aType = s.tracker.aType
  buffered : Buffered s
  others : s.tracker.oacqCnt = 0 ∧ s.tracker.ogntCnt = 0 ∧ s.tracker.igntCnt = 0
  registers : s.tracker.ogntCntReg = 0 ∧ s.tracker.igntDoneReg = false
  fresh : s.sent = [] ∧ s.answered = [] ∧ s.grants = []

structure Sending (s : Stream c) : Prop where
  state : s.tracker.mtState = .oacq
  received : Received s
  buffered : Buffered s
  sent : s.sent = (s.beats.map AcquireBeat.request).take s.tracker.oacqCnt
  few : s.tracker.oacqCnt < s.beats.length
  others : s.tracker.iacqCnt = 0 ∧ s.tracker.ogntCnt = 0 ∧ s.tracker.ogntCntReg = 0
  answered : s.answered = []
  granting : Granting s
  settled : Settled s

structure Awaiting (s : Stream c) : Prop where
  state : s.tracker.mtState = .ognt
  received : Received s
  sent : s.sent = s.beats.map AcquireBeat.request
  others : s.tracker.iacqCnt = 0 ∧ s.tracker.oacqCnt = 0
  answered : Answered s
  block : s.tracker.aType.grantsBlock = true → s.tracker.ogntCnt = s.answered.length
    ∧ s.answered.length < Config.outerDataBeats ∧ s.tracker.ogntCntReg = s.answered.length - 1
  single : s.tracker.aType.grantsBlock = false → s.tracker.ogntCnt = 0 ∧ s.answered = [] ∧ s.tracker.ogntCntReg = 0
  granting : Granting s
  settled : Settled s

structure Replying (s : Stream c) : Prop where
  state : s.tracker.mtState = .ignt
  received : Received s
  sent : s.sent = s.beats.map AcquireBeat.request
  others : s.tracker.iacqCnt = 0 ∧ s.tracker.oacqCnt = 0 ∧ s.tracker.ogntCnt = 0
  answered : Answered s
  block : s.tracker.aType.grantsBlock = true → s.answered.length = Config.outerDataBeats
    ∧ s.tracker.igntCnt < Config.outerDataBeats
  beat : s.tracker.aType.grantsData = true → s.tracker.aType.grantsBlock = false →
    s.answered.map GrantBeat.addrBeat = [s.tracker.ogntCntReg]
    ∧ s.beats.map AcquireBeat.addrBeat = [s.tracker.ogntCntReg]
  granting : Granting s
  settled : Settled s

inductive Stage (s : Stream c) : Prop where
  | idle (state : s.tracker.mtState = .idle) (zero : Zero s.tracker) (finished : Untouched s ∨ Complete s)
      (tags : s.tracker.aType.grantsData = true → s.tracker.tcState = .idle)
  | iacq (collecting : Collecting s)
  | oacq (sending : Sending s)
  | ognt (awaiting : Awaiting s)
  | ignt (replying : Replying s)
  | ifin (state : s.tracker.mtState = .ifin) (zero : Zero s.tracker) (complete : Complete s)
      (tags : s.tracker.aType.grantsData = true → s.tracker.tcState = .idle)

variable {uncached : Bool} {s : Stream c} {inp : AcquireInput c}

theorem OnReset.stage (reset : s.OnReset) : Stage s :=
  .idle reset.mtState ⟨reset.iacqCnt, reset.oacqCnt, reset.ogntCnt, reset.igntCnt⟩
    (.inl ⟨reset.beats, reset.sent, reset.grants⟩) fun _ => reset.tcState

/-! What happens in which state. -/

theorem acquired_eq_none (busy : s.tracker.mtState ≠ .idle) (full : s.tracker.mtState ≠ .iacq) :
    s.tracker.acquired inp = none := by
  simp [acquired, acquireReady, resting, busy, full]

theorem granted_eq_none (other : s.tracker.mtState ≠ .ognt) : s.tracker.granted inp = none := by
  simp [granted, other]

theorem oacqFire_eq_false (other : s.tracker.mtState ≠ .oacq) : s.tracker.oacqFire inp = false := by
  simp [oacqFire, other]

theorem igntFire_eq_false (other : s.tracker.mtState ≠ .oacq ∧ s.tracker.mtState ≠ .ognt ∧ s.tracker.mtState ≠ .ignt) :
    s.tracker.igntFire inp = false := by
  simp [igntFire, igntValid, other]

theorem iacqDone_of_none (none' : s.tracker.acquired inp = none) : s.tracker.iacqDone inp = false := by
  simp [iacqDone, none']

theorem starts_of_busy (busy : s.tracker.mtState ≠ .idle) : s.starts inp = false := by
  simp [starts, busy]

@[simp] theorem counterNext_of_false (n value : Nat) : counterNext false n value = value := rfl

theorem multi_outer (t : AcquireType) : t.outer.hasMultibeatData = t.hasMultibeatData := by cases t <;> rfl

theorem grants_of_multi {t : AcquireType} (multi : t.hasMultibeatData = true) : t.grantsData = false ∧ t.grantsBlock = false := by
  cases t <;> simp_all [AcquireType.hasMultibeatData, AcquireType.grantsData, AcquireType.grantsBlock]

theorem grantsData_of_block {t : AcquireType} (block : t.grantsBlock = true) : t.grantsData = true := by
  cases t <;> simp_all [AcquireType.grantsData, AcquireType.grantsBlock]

/-- A resting tag machine stays so without a new request. -/
theorem tcNext_of_idle (idle : s.tracker.tcState = .idle) (none' : s.tracker.acquired inp = none) :
    s.tracker.tcNext inp = .idle := by
  simp [tcNext, idle, iacqDone_of_none none']

theorem tagsNext_of_idle (idle : s.tracker.tcState = .idle) : s.tracker.tagsNext inp = s.tracker.tags := by
  rw [tagsNext]
  split
  · simp [MemXactTracker.tcResp, tags, idle]
  · rfl

theorem Settled.cycle (settled : Settled s) (busy : s.tracker.mtState ≠ .idle) (full : s.tracker.mtState ≠ .iacq) :
    Settled (s.cycle uncached inp) := by
  have none' : s.tracker.acquired inp = none := acquired_eq_none busy full
  intro idle
  by_cases was : s.tracker.tcState = .idle
  · have kept := settled was
    simp [Stream.cycle, TCMemAcquireTracker.next, none', was, resting, busy, tagsNext_of_idle was, tags, kept,
      starts_of_busy busy]
  · have ended : s.tracker.tcNext inp = .idle := idle
    simp [Stream.cycle, was, ended, starts_of_busy busy]

/-! The inner grants. -/

theorem isPrefix_of_eq {α : Type} {front whole : List α} (same : front = whole) : front <+: whole :=
  ⟨[], by rw [List.append_nil, same]⟩

theorem isPrefix_concat {α : Type} {front whole : List α} {x : α} (front' : front <+: whole)
    (next : whole[front.length]? = some x) : front ++ [x] <+: whole := by
  obtain ⟨rest, rfl⟩ := front'
  rw [List.getElem?_append_right le_rfl, Nat.sub_self] at next
  cases rest with
  | nil => cases next
  | cons y rest =>
    obtain rfl : y = x := by simpa using next
    exact ⟨rest, by simp⟩

theorem aType_cycle (busy : s.tracker.mtState ≠ .idle) : (s.cycle uncached inp).tracker.aType = s.tracker.aType := by
  simp [Stream.cycle, TCMemAcquireTracker.next, busy]

theorem tagsLeft_cycle (idle : s.tracker.tcState = .idle) (running : s.starts inp = false) :
    (s.cycle uncached inp).tagsLeft = s.tagsLeft := by
  simp [Stream.cycle, idle, running]

/-- A grant with data waits for the tags. -/
theorem tcState_of_igntFire (fire : s.tracker.igntFire inp = true) (data : s.tracker.aType.grantsData = true) :
    s.tracker.tcState = .idle ∧ (s.tracker.igntBeat < s.tracker.ogntCntReg ∨ s.tracker.mtState = .ignt) := by
  simp only [igntFire, igntValid, data, Bool.not_true, Bool.false_or, Bool.and_eq_true, beq_iff_eq, Bool.or_eq_true,
    decide_eq_true_eq] at fire
  exact fire.1.2

theorem Granting.concat (granting : Granting s) (answered : Answered s) (settled : Settled s)
    (block : s.tracker.aType.grantsBlock = true) (fire : s.tracker.igntFire inp = true)
    (there : s.tracker.igntCnt < s.answered.length) : s.grants ++ [s.tracker.igntBits] <+: s.answered.map s.grantOf := by
  have data := grantsData_of_block block
  obtain ⟨-, count, front⟩ := granting.block block
  apply isPrefix_concat front
  rw [← count, List.getElem?_map, List.getElem?_eq_getElem there]
  have place : s.answered[s.tracker.igntCnt].addrBeat = s.tracker.igntCnt := by
    have entry := congrArg (fun list => list[s.tracker.igntCnt]?) (answered.order block)
    simp only [List.getElem?_map, List.getElem?_eq_getElem there, List.getElem?_range there, Option.map_some,
      Option.some.injEq] at entry
    exact entry
  have stored := answered.buffer data _ (List.getElem_mem there)
  rw [place] at stored
  have left := settled (tcState_of_igntFire fire data).1
  simp [igntBits, igntBeat, grantOf, block, place, stored, left]

theorem Granting.cycle (granting : Granting s) (answered : Answered s) (settled : Settled s)
    (busy : s.tracker.mtState ≠ .idle) (full : s.tracker.mtState ≠ .iacq)
    (room : s.tracker.aType.grantsBlock = true → s.tracker.igntFire inp = true →
      s.tracker.igntCnt < s.answered.length ∧ s.tracker.igntCnt + 1 < Config.outerDataBeats)
    (waits : s.tracker.aType.grantsData = true → s.tracker.aType.grantsBlock = false → s.tracker.igntFire inp = false) :
    Granting (s.cycle uncached inp) := by
  have none' : s.tracker.acquired inp = none := acquired_eq_none busy full
  have running : s.starts inp = false := starts_of_busy busy
  have kept : (s.cycle uncached inp).tracker.aType = s.tracker.aType := aType_cycle busy
  refine ⟨?_, ?_, ?_, ?_⟩
  · intro block
    rw [kept] at block
    obtain ⟨done, count, front⟩ := granting.block block
    have data := grantsData_of_block block
    have later : (s.answered.map s.grantOf) <+: (s.cycle uncached inp).answered.map s.grantOf := by
      simp [Stream.cycle, running]
    cases fire : s.tracker.igntFire inp with
    | false =>
      refine ⟨?_, ?_, ?_⟩
      · simp [Stream.cycle, TCMemAcquireTracker.next, none', fire, done]
      · simp [Stream.cycle, TCMemAcquireTracker.next, fire, running, count]
      -- a grant carries the tags, so none is out before the tag machine rests
      · by_cases idle : s.tracker.tcState = .idle
        · have same : (s.cycle uncached inp).grantOf = s.grantOf := by
            funext g
            simp only [grantOf, kept, tagsLeft_cycle idle running]
          have grants : (s.cycle uncached inp).grants = s.grants := by simp [Stream.cycle, running, fire]
          rw [same, grants]
          exact front.trans later
        · have grants : (s.cycle uncached inp).grants = [] := by
            simp [Stream.cycle, running, fire, granting.tags data idle]
          rw [grants]
          exact ⟨_, rfl⟩
    | true =>
      obtain ⟨there, small⟩ := room block fire
      have idle := (tcState_of_igntFire fire data).1
      refine ⟨?_, ?_, ?_⟩
      · have last : ¬ s.tracker.igntCnt + 1 = Config.outerDataBeats := by omega
        simp [Stream.cycle, TCMemAcquireTracker.next, none', fire, igntDone, block, last]
      · have last : ¬ s.grants.length + 1 = Config.outerDataBeats := by omega
        simp [Stream.cycle, TCMemAcquireTracker.next, fire, running, count, block, counterNext, last]
      · have same : (s.cycle uncached inp).grantOf = s.grantOf := by
          funext g
          simp only [grantOf, kept, tagsLeft_cycle idle running]
        have grants : (s.cycle uncached inp).grants = s.grants ++ [s.tracker.igntBits] := by simp [Stream.cycle, running, fire]
        rw [same, grants]
        exact (granting.concat answered settled block fire there).trans later
  · intro data moving
    rw [kept] at data
    by_cases idle : s.tracker.tcState = .idle
    · exact absurd (tcNext_of_idle idle none') moving
    · have fire : s.tracker.igntFire inp = false := by
        by_contra fire
        exact idle (tcState_of_igntFire (eq_true_of_ne_false fire) data).1
      simp [Stream.cycle, running, fire, granting.tags data idle]
  · intro data block
    rw [kept] at data block
    obtain ⟨done, count, grants⟩ := granting.beat data block
    have fire := waits data block
    simp [Stream.cycle, TCMemAcquireTracker.next, none', fire, running, done, count, grants]
  · intro data
    rw [kept] at data
    obtain ⟨count, grants⟩ := granting.ack data
    -- a grant without data goes out once, at any time
    have block : s.tracker.aType.grantsBlock = false := by
      by_contra block
      rw [grantsData_of_block (eq_true_of_ne_false block)] at data
      cases data
    cases fire : s.tracker.igntFire inp with
    | false => simp [Stream.cycle, TCMemAcquireTracker.next, none', fire, running, count, grants]
    | true =>
      have first : s.tracker.igntDoneReg = false := by
        simp only [igntFire, igntValid, Bool.and_eq_true, Bool.not_eq_true'] at fire
        exact fire.1.1.1
      simp [Stream.cycle, TCMemAcquireTracker.next, none', fire, running, count, grants, first, igntDone, block]

end Stream

end LowRisc.TagCache
