import LowRisc.TagCache.AcquireStages

/-! Acquires over whole runs: every beat once, and back to idle. -/

set_option autoImplicit false

namespace LowRisc.TagCache

open LowRisc.Chisel LowRisc.Lib

namespace Stream

open TCMemAcquireTracker

variable {c : Config} {uncached : Bool} {s : Stream c} {inp : AcquireInput c}

/-! The way back to idle. -/

/-- A cycle in which every neighbour does its part. -/
def calm (s : Stream c) : AcquireInput c where
  acquire := if s.tracker.mtState = .iacq then some ⟨.putBlock, s.tracker.addrBlock, s.beats.length, 0, 0, 0, false, ⟨0, 0, 0⟩⟩ else none
  grantReady := true
  finish := true
  oacqReady := true
  ogrant := some (if s.tracker.aType.grantsBlock then ⟨true, s.answered.length, 0, 0⟩
    else ⟨false, ((s.sent.map Request.addrBeat).head?).getD 0, 0, 0⟩)
  tcReqReady := true
  tcResp := some ⟨0, true, 0, 0⟩
  order := .topDown

def tcRank : TcState → Nat
  | .idle => 0
  | .tm1w => 1
  | .tm0w => 2
  | .ttw => 3
  | .ttl => 4
  | .tm0l => 5
  | .tm1l => 6
  | .ttf => 7
  | .tm0f => 8
  | .tm1f => 9
  | .tm0r => 10
  | .ttr => 11

/-- Beats left on the memory side; the tag machine starts behind the last inner beat. -/
def mtRank (t : TCMemAcquireTracker c) : Nat :=
  match t.mtState with
  | .idle => 0
  | .ifin => 1
  | .ignt => 2 + (8 - t.igntCnt)
  | .ognt => 12 + (8 - t.ogntCnt)
  | .oacq => 22 + (8 - t.oacqCnt)
  | .iacq => 44 + (8 - t.iacqCnt)

def rank (s : Stream c) : Nat := mtRank s.tracker + tcRank s.tracker.tcState

/-- Every response moves the tag machine on. -/
theorem tcRank_tcStateNext (m : MemXactTracker c) (moving : m.tcState ≠ .idle) (r : TCTagResp) :
    tcRank (m.tcStateNext r) < tcRank m.tcState := by
  cases state : m.tcState <;> simp only [state, MemXactTracker.tcStateNext, ne_eq, not_true_eq_false, reduceCtorEq] at moving ⊢
  all_goals repeat' split
  all_goals decide

/-- Every neighbour does its part: what the tracker waits for comes, and what it offers is taken. -/
def cooperates (s : Stream c) (e : AcquireInput c) : Bool :=
  s.orderly e && (s.tracker.mtState != .iacq || e.acquire.isSome) && e.ogrant.isSome && e.tcResp.isSome
    && (e.oacqReady && e.grantReady && e.finish)

structure Cooperates (s : Stream c) (e : AcquireInput c) : Prop where
  orderly : s.orderly e = true
  acquire : s.tracker.mtState = .iacq → e.acquire.isSome = true
  ogrant : e.ogrant.isSome = true
  tcResp : e.tcResp.isSome = true
  oacqReady : e.oacqReady = true
  grantReady : e.grantReady = true
  finish : e.finish = true

theorem cooperates_iff : s.cooperates inp = true ↔ Cooperates s inp := by
  simp only [cooperates, Bool.and_eq_true, Bool.or_eq_true, bne_iff_ne, ne_eq]
  constructor
  · rintro ⟨⟨⟨⟨orderly, acquire⟩, ogrant⟩, tcResp⟩, ⟨oacqReady, grantReady⟩, finish⟩
    exact ⟨orderly, fun state => acquire.resolve_left (not_not_intro state), ogrant, tcResp, oacqReady, grantReady, finish⟩
  · intro cooperates
    exact ⟨⟨⟨⟨cooperates.orderly, Decidable.not_or_of_imp cooperates.acquire⟩, cooperates.ogrant⟩, cooperates.tcResp⟩,
      ⟨cooperates.oacqReady, cooperates.grantReady⟩, cooperates.finish⟩

/-- Behind the last inner beat the tag machine comes down in every such cycle. -/
theorem Cooperates.tcRank_lt (cooperates : Cooperates s inp) (none' : s.tracker.acquired inp = none) :
    tcRank (s.cycle uncached inp).tracker.tcState ≤ tcRank s.tracker.tcState
    ∧ (s.tracker.tcState ≠ .idle → tcRank (s.cycle uncached inp).tracker.tcState < tcRank s.tracker.tcState) := by
  by_cases idle : s.tracker.tcState = .idle
  · have stays : (s.cycle uncached inp).tracker.tcState = .idle := tcNext_of_idle idle none'
    rw [stays, idle]
    exact ⟨le_rfl, fun moving => absurd rfl moving⟩
  · obtain ⟨r, came⟩ := Option.isSome_iff_exists.mp cooperates.tcResp
    have next : (s.cycle uncached inp).tracker.tcState = s.tracker.tags.tcStateNext r := by
      simp [Stream.cycle, TCMemAcquireTracker.next, tcNext, idle, came]
    rw [next]
    have lower := tcRank_tcStateNext s.tracker.tags idle r
    exact ⟨lower.le, fun _ => lower⟩

theorem orderly_calm (stage : Stage s) : s.orderly s.calm = true := by
  rw [Stream.orderly, Bool.and_eq_true]
  constructor
  · by_cases state : s.tracker.mtState = .iacq
    · simp [acquired_of_iacq state, calm, state, Stream.fits]
    · simp [acquired, calm, state]
  · by_cases state : s.tracker.mtState = .ognt
    · cases stage with
      | ognt awaiting =>
        simp only [granted, state, beq_self_eq_true, if_true, calm, Option.all_some]
        cases block : s.tracker.aType.grantsBlock with
        | true => simp [Stream.answers, block]
        | false =>
          have some' : ∃ k, (s.sent.map Request.addrBeat).head? = some k := by
            rw [awaiting.sent]
            have some'' : s.beats ≠ [] := by
              intro empty
              cases multi : s.tracker.aType.hasMultibeatData with
              | true => simpa [empty, Config.outerDataBeats] using awaiting.received.length_block multi
              | false => simpa [empty] using awaiting.received.length_single multi
            obtain ⟨b, rest, split⟩ := List.exists_cons_of_ne_nil some''
            exact ⟨b.request.addrBeat, by simp [split]⟩
          obtain ⟨k, head⟩ := some'
          simp [Stream.answers, block, head]
      | idle other => simp [state] at other
      | iacq other => simp [other.state] at state
      | oacq other => simp [other.state] at state
      | ignt other => simp [other.state] at state
      | ifin other => simp [state] at other
    · simp [granted, state]

theorem cooperates_calm (stage : Stage s) : Cooperates s s.calm where
  orderly := orderly_calm stage
  acquire state := by simp [calm, state]
  ogrant := rfl
  tcResp := rfl
  oacqReady := rfl
  grantReady := rfl
  finish := rfl

theorem Collecting.rank_lt (collecting : Collecting s) (cooperates : Cooperates s inp) :
    rank (s.cycle uncached inp) < rank s := by
  have state := collecting.state
  have few : s.beats.length < 8 := collecting.few
  obtain ⟨b, came⟩ := Option.isSome_iff_exists.mp (cooperates.acquire state)
  have taken : s.tracker.acquired inp = some b := by rw [acquired_of_iacq state, came]
  have block : b.aType = .putBlock := by
    have orderly := cooperates.orderly
    simp only [Stream.orderly, taken, Option.all_some, Stream.fits, state, if_true, Bool.and_eq_true, beq_iff_eq] at orderly
    exact orderly.1.1.1
  have multi : b.aType.hasMultibeatData = true := by
    rw [block]
    rfl
  by_cases last : s.beats.length + 1 = Config.outerDataBeats
  · have done : s.tracker.iacqDone inp = true := by simp [iacqDone, taken, collecting.count, last]
    have next : (s.cycle uncached inp).tracker.mtState = .oacq := by
      simp [Stream.cycle, TCMemAcquireTracker.next, mtNext, state, done]
    have start : tcRank (s.cycle uncached inp).tracker.tcState ≤ 11 := by
      simp only [Stream.cycle, TCMemAcquireTracker.next, tcNext, collecting.tcState, done, if_true]
      cases s.tracker.order <;> decide
    simp only [rank, mtRank, next, state]
    omega
  · have done : s.tracker.iacqDone inp = false := by
      simp [iacqDone, taken, collecting.count, last, multi]
    have next : (s.cycle uncached inp).tracker.mtState = .iacq := by
      simp [Stream.cycle, TCMemAcquireTracker.next, mtNext, state, done]
    have rests : (s.cycle uncached inp).tracker.tcState = .idle := by
      simp [Stream.cycle, TCMemAcquireTracker.next, tcNext, collecting.tcState, done]
    have count : (s.cycle uncached inp).tracker.iacqCnt = s.beats.length + 1 := by
      simp [Stream.cycle, TCMemAcquireTracker.next, taken, multi, counterNext, collecting.count, last]
    simp only [rank, mtRank, next, state, rests, count, collecting.tcState, collecting.count]
    omega

theorem Cooperates.rank_of_mtRank (cooperates : Cooperates s inp) (busy : s.tracker.mtState ≠ .idle)
    (full : s.tracker.mtState ≠ .iacq) (lower : mtRank (s.cycle uncached inp).tracker < mtRank s.tracker) :
    rank (s.cycle uncached inp) < rank s := by
  have tags : tcRank (s.cycle uncached inp).tracker.tcState ≤ tcRank s.tracker.tcState :=
    (cooperates.tcRank_lt (acquired_eq_none busy full)).1
  simp only [rank]
  omega

theorem Sending.rank_lt (sending : Sending s) (cooperates : Cooperates s inp) :
    rank (s.cycle uncached inp) < rank s := by
  have state := sending.state
  have fire : s.tracker.oacqFire inp = true := by simp [oacqFire, state, cooperates.oacqReady]
  have few := sending.few
  apply cooperates.rank_of_mtRank (by simp [state]) (by simp [state])
  by_cases last : s.tracker.oacqCnt + 1 = s.beats.length
  · have next : (s.cycle uncached inp).tracker.mtState = .ognt := by
      simp [Stream.cycle, TCMemAcquireTracker.next, mtNext, state, sending.oacqDone fire, last]
    simp only [mtRank, next, state]
    omega
  · have next : (s.cycle uncached inp).tracker.mtState = .oacq := by
      simp [Stream.cycle, TCMemAcquireTracker.next, mtNext, state, sending.oacqDone fire, last]
    have multi : s.tracker.aType.hasMultibeatData = true := by
      by_contra single
      have length := sending.received.length_single (eq_false_of_ne_true single)
      omega
    have length : s.beats.length = 8 := sending.received.length_block multi
    have count : (s.cycle uncached inp).tracker.oacqCnt = s.tracker.oacqCnt + 1 := by
      rw [length] at last
      simp [Stream.cycle, TCMemAcquireTracker.next, fire, oacqMulti, multi_outer, multi, counterNext, Config.outerDataBeats, last]
    simp only [mtRank, next, state, count]
    omega

theorem Awaiting.rank_lt (awaiting : Awaiting s) (cooperates : Cooperates s inp) :
    rank (s.cycle uncached inp) < rank s := by
  have state := awaiting.state
  obtain ⟨g, came⟩ := Option.isSome_iff_exists.mp cooperates.ogrant
  have arrives : s.tracker.granted inp = some g := by simp [granted, state, came]
  have right : s.answers g = true := by
    have orderly := cooperates.orderly
    simp only [Stream.orderly, arrives, Option.all_some, Bool.and_eq_true] at orderly
    exact orderly.2
  apply cooperates.rank_of_mtRank (by simp [state]) (by simp [state])
  cases block : s.tracker.aType.grantsBlock with
  | true =>
    obtain ⟨count, few, -⟩ := awaiting.block block
    have eight : Config.outerDataBeats = 8 := rfl
    have isBlock : g.isBlock = true := by
      simp only [Stream.answers, block, if_true, Bool.and_eq_true] at right
      exact right.1
    by_cases last : s.answered.length + 1 = Config.outerDataBeats
    · have next : (s.cycle uncached inp).tracker.mtState = .ignt := by
        simp [Stream.cycle, TCMemAcquireTracker.next, mtNext, state, ogntDone, arrives, count, last]
      simp only [mtRank, next, state]
      omega
    · have next : (s.cycle uncached inp).tracker.mtState = .ognt := by
        simp [Stream.cycle, TCMemAcquireTracker.next, mtNext, state, ogntDone, arrives, count, last, isBlock]
      have more : (s.cycle uncached inp).tracker.ogntCnt = s.tracker.ogntCnt + 1 := by
        simp [Stream.cycle, TCMemAcquireTracker.next, arrives, counterNext, count, last, isBlock]
      simp only [mtRank, next, state, more]
      omega
  | false =>
    have isBlock : g.isBlock = false := by
      simp only [Stream.answers, block, Bool.false_eq_true, if_false, Bool.and_eq_true, Bool.not_eq_true'] at right
      exact right.1
    have next : (s.cycle uncached inp).tracker.mtState = .ignt := by
      simp [Stream.cycle, TCMemAcquireTracker.next, mtNext, state, ogntDone, arrives, isBlock]
    simp only [mtRank, next, state]
    omega

theorem Replying.rank_lt (replying : Replying s) (cooperates : Cooperates s inp) :
    rank (s.cycle uncached inp) < rank s := by
  have state := replying.state
  have leaves : (s.tracker.igntDone inp || s.tracker.igntDoneReg) = true →
      mtRank (s.cycle uncached inp).tracker < mtRank s.tracker := by
    intro leaves
    have next : (s.cycle uncached inp).tracker.mtState = if uncached then .idle else .ifin := by
      simp only [Stream.cycle, TCMemAcquireTracker.next, mtNext, state, leaves, if_true]
    cases uncached <;> simp only [mtRank, next, state, Bool.false_eq_true, if_true, if_false] <;> omega
  cases done : s.tracker.igntDoneReg with
  | true => exact cooperates.rank_of_mtRank (by simp [state]) (by simp [state]) (leaves (by simp [done]))
  | false =>
    by_cases waits : s.tracker.aType.grantsData = true ∧ s.tracker.tcState ≠ .idle
    · -- the tags are not there yet
      have fire : s.tracker.igntFire inp = false := by simp [igntFire, igntValid, waits]
      have next : (s.cycle uncached inp).tracker.mtState = .ignt := by
        simp [Stream.cycle, TCMemAcquireTracker.next, mtNext, state, igntDone, fire, done]
      have count : (s.cycle uncached inp).tracker.igntCnt = s.tracker.igntCnt := by
        simp [Stream.cycle, TCMemAcquireTracker.next, fire]
      have tags : tcRank (s.cycle uncached inp).tracker.tcState < tcRank s.tracker.tcState :=
        (cooperates.tcRank_lt (acquired_eq_none (by simp [state]) (by simp [state]))).2 waits.2
      simp only [rank, mtRank, next, state, count]
      omega
    · have fire : s.tracker.igntFire inp = true := by
        simp only [igntFire, igntValid, done, state, cooperates.grantReady]
        cases data : s.tracker.aType.grantsData with
        | false => simp
        | true => simp_all
      by_cases last : s.tracker.igntDone inp = true
      · exact cooperates.rank_of_mtRank (by simp [state]) (by simp [state]) (leaves (by simp [last]))
      · apply cooperates.rank_of_mtRank (by simp [state]) (by simp [state])
        simp only [igntDone, fire, Bool.true_and, Bool.or_eq_true, not_or, Bool.not_eq_true', Bool.not_eq_false,
          decide_eq_true_eq] at last
        have below := (replying.block last.1).2
        have eight : Config.outerDataBeats = 8 := rfl
        have next : (s.cycle uncached inp).tracker.mtState = .ignt := by
          simp [Stream.cycle, TCMemAcquireTracker.next, mtNext, state, igntDone, fire, done, last]
        have count : (s.cycle uncached inp).tracker.igntCnt = s.tracker.igntCnt + 1 := by
          simp [Stream.cycle, TCMemAcquireTracker.next, fire, last, counterNext]
        simp only [mtRank, next, state, count]
        omega

theorem Stage.rank_lt (stage : Stage s) (cooperates : Cooperates s inp) (awake : s.tracker.resting = false) :
    rank (s.cycle uncached inp) < rank s := by
  cases stage with
  | idle state _ _ _ =>
    have moving : s.tracker.tcState ≠ .idle := by
      intro idle
      simp [resting, state, idle] at awake
    have none' : s.tracker.acquired inp = none := by simp [acquired, acquireReady, awake, state]
    have next : (s.cycle uncached inp).tracker.mtState = .idle := by
      simp [Stream.cycle, TCMemAcquireTracker.next, mtNext, state, none']
    have tags : tcRank (s.cycle uncached inp).tracker.tcState < tcRank s.tracker.tcState :=
      (cooperates.tcRank_lt none').2 moving
    simpa only [rank, mtRank, next, state, Nat.zero_add] using tags
  | iacq collecting => exact collecting.rank_lt cooperates
  | oacq sending => exact sending.rank_lt cooperates
  | ognt awaiting => exact awaiting.rank_lt cooperates
  | ignt replying => exact replying.rank_lt cooperates
  | ifin state _ _ _ =>
    apply cooperates.rank_of_mtRank (by simp [state]) (by simp [state])
    have next : (s.cycle uncached inp).tracker.mtState = .idle := by
      simp [Stream.cycle, TCMemAcquireTracker.next, mtNext, state, cooperates.finish]
    simp [mtRank, next, state]

theorem Stage.completes (stage : Stage s) :
    ∃ t, Steps (step uncached) (fun s e => s.orderly e = true) s t ∧ t.tracker.resting = true := by
  induction bound : rank s using Nat.strong_induction_on generalizing s with
  | _ n ih =>
    by_cases rest : s.tracker.resting = true
    · exact ⟨s, .refl s, rest⟩
    · have lower : rank (s.cycle uncached s.calm) < rank s :=
        stage.rank_lt (cooperates_calm stage) (eq_false_of_ne_true rest)
      obtain ⟨t, run, rests⟩ := ih _ (bound ▸ lower) (stage.cycle (orderly_calm stage)) rfl
      exact ⟨t, Steps.head (e := s.calm) (orderly_calm stage) rfl run, rests⟩

/-- However the neighbours cooperate, the tracker rests after at most `rank` cycles. -/
theorem Stage.finishes (stage : Stage s) (inputs : List (AcquireInput c)) (enough : rank s ≤ inputs.length)
    (ran : (execGuarded (step uncached) cooperates s inputs).isSome = true) :
    ∃ k t, exec (step uncached) s (inputs.take k) = some t ∧ t.tracker.resting = true := by
  induction inputs generalizing s with
  | nil =>
    refine ⟨0, s, rfl, ?_⟩
    by_contra awake
    have lower : rank (s.cycle uncached s.calm) < rank s :=
      stage.rank_lt (cooperates_calm stage) (eq_false_of_ne_true awake)
    exact absurd (lower.trans_le enough) (Nat.not_lt_zero _)
  | cons e inputs ih =>
    by_cases rest : s.tracker.resting = true
    · exact ⟨0, s, rfl, rest⟩
    · have first : s.cooperates e = true := by
        by_contra refused
        simp [execGuarded, refused] at ran
      have cooperates := cooperates_iff.mp first
      have lower : rank (s.cycle uncached e) < rank s := stage.rank_lt cooperates (eq_false_of_ne_true rest)
      rw [List.length_cons] at enough
      obtain ⟨k, t, reached, rests⟩ := ih (stage.cycle cooperates.orderly) (Nat.le_of_lt_succ (lower.trans_le enough))
        (by simpa [execGuarded, first, step] using ran)
      exact ⟨k + 1, t, reached, rests⟩

/-! Whole runs. -/

/-- What goes out on behalf of the latest acquire, in any state of a run. -/
structure StreamsOnce (uncached : Bool) (s : Stream c) : Prop where
  /-- the outer memory sees the beats as they were received, in order -/
  sent : s.sent <+: s.beats.map AcquireBeat.request
  /-- a grant with data carries the row of the outer memory and the tags of the finished tag transaction -/
  rows : s.tracker.aType.grantsData = true → s.grants <+: s.answered.map s.grantOf
  tags : s.tracker.aType.grantsData = true → s.grants ≠ [] → s.tagsLeft.isSome = true
  places : s.tracker.aType.grantsBlock = true → s.grants.map GrantBeat.addrBeat <+: List.range Config.outerDataBeats
  acks : s.tracker.aType.grantsData = false → s.grants.length ≤ 1
  /-- an idle tracker is done and starts afresh -/
  idle : s.tracker.mtState = .idle → Zero s.tracker ∧ (Untouched s ∨ Complete s)
  /-- and the tracker can always become idle -/
  returns : ∃ t, Steps (step uncached) (fun s e => s.orderly e = true) s t ∧ t.tracker.resting = true
  /-- and does so in every run that goes on long enough and in which all neighbours do their part -/
  finishes : ∃ bound, ∀ inputs, bound ≤ inputs.length → (execGuarded (step uncached) cooperates s inputs).isSome = true →
    ∃ k t, exec (step uncached) s (inputs.take k) = some t ∧ t.tracker.resting = true

theorem Granting.rows (granting : Granting s) (data : s.tracker.aType.grantsData = true) :
    s.grants <+: s.answered.map s.grantOf := by
  cases block : s.tracker.aType.grantsBlock with
  | true => exact (granting.block block).2.2
  | false =>
    rw [(granting.beat data block).2.2]
    exact ⟨_, rfl⟩

theorem Granting.tagsLeft (granting : Granting s) (settled : Settled s) (data : s.tracker.aType.grantsData = true)
    (some' : s.grants ≠ []) : s.tagsLeft.isSome = true := by
  have idle : s.tracker.tcState = .idle := by
    by_contra moving
    exact some' (granting.tags data moving)
  rw [settled idle]
  rfl

theorem range_mono {m n : Nat} (le : m ≤ n) : List.range m <+: List.range n := by
  refine ⟨(List.range n).drop m, ?_⟩
  have front : (List.range n).take m = List.range m := by rw [List.take_range, Nat.min_eq_left le]
  rw [← front, List.take_append_drop]

theorem Granting.places (granting : Granting s) (answered : Answered s) (block : s.tracker.aType.grantsBlock = true)
    (few : s.answered.length ≤ Config.outerDataBeats) :
    s.grants.map GrantBeat.addrBeat <+: List.range Config.outerDataBeats := by
  have front := (granting.block block).2.2.map GrantBeat.addrBeat
  rw [map_grantOf, answered.order block] at front
  exact front.trans (range_mono few)

theorem Granting.acks (granting : Granting s) (data : s.tracker.aType.grantsData = false) : s.grants.length ≤ 1 := by
  rw [(granting.ack data).2]
  cases s.tracker.igntDoneReg <;> decide

theorem Complete.streamsOnce (complete : Complete s) (stage : Stage s) (zero : Zero s.tracker) : StreamsOnce uncached s where
  sent := isPrefix_of_eq complete.sent
  rows data := isPrefix_of_eq (complete.data data).2
  tags data _ := (complete.data data).1
  places block := isPrefix_of_eq (complete.block block)
  acks data := (complete.ack data).le
  idle _ := ⟨zero, .inr complete⟩
  returns := stage.completes
  finishes := ⟨rank s, stage.finishes⟩

theorem Stage.streamsOnce_of_empty (stage : Stage s) (sent : s.sent = []) (grants : s.grants = [])
    (idle : s.tracker.mtState = .idle → Zero s.tracker ∧ (Untouched s ∨ Complete s)) : StreamsOnce uncached s where
  sent := by
    rw [sent]
    exact ⟨_, rfl⟩
  rows _ := by
    rw [grants]
    exact ⟨_, rfl⟩
  tags _ some' := absurd grants some'
  places _ := by
    rw [grants]
    exact ⟨_, rfl⟩
  acks _ := by
    rw [grants]
    exact Nat.zero_le 1
  idle := idle
  returns := stage.completes
  finishes := ⟨rank s, stage.finishes⟩

theorem Stage.streamsOnce (stage : Stage s) : StreamsOnce uncached s := by
  have returns : ∃ t, Steps (step uncached) (fun s e => s.orderly e = true) s t ∧ t.tracker.resting = true := stage.completes
  have finishes : ∀ inputs, rank s ≤ inputs.length → (execGuarded (step uncached) cooperates s inputs).isSome = true →
      ∃ k t, exec (step uncached) s (inputs.take k) = some t ∧ t.tracker.resting = true := stage.finishes
  have whole := stage
  cases stage with
  -- nothing was ever sent, or the last acquire is complete
  | idle state zero finished _ =>
    rcases finished with untouched | complete
    · exact whole.streamsOnce_of_empty untouched.sent untouched.grants fun _ => ⟨zero, .inl untouched⟩
    · exact complete.streamsOnce whole zero
  | iacq collecting =>
    refine whole.streamsOnce_of_empty collecting.fresh.1 collecting.fresh.2.2 fun idle => ?_
    simp [collecting.state] at idle
  -- the inner grant may start before the outer acquire is out
  | oacq sending =>
    have answered : Answered s := by refine ⟨?_, ?_⟩ <;> simp [sending.answered]
    refine ⟨?_, sending.granting.rows, sending.granting.tagsLeft sending.settled, ?_, sending.granting.acks, ?_, returns, rank s, finishes⟩
    · rw [sending.sent]
      exact ⟨_, List.take_append_drop _ _⟩
    · intro block
      refine sending.granting.places answered block ?_
      simp [sending.answered]
    · intro idle
      simp [sending.state] at idle
  | ognt awaiting =>
    refine ⟨?_, awaiting.granting.rows, awaiting.granting.tagsLeft awaiting.settled, ?_, awaiting.granting.acks, ?_, returns, rank s, finishes⟩
    · exact isPrefix_of_eq awaiting.sent
    · intro block
      exact awaiting.granting.places awaiting.answered block (awaiting.block block).2.1.le
    · intro idle
      simp [awaiting.state] at idle
  | ignt replying =>
    refine ⟨?_, replying.granting.rows, replying.granting.tagsLeft replying.settled, ?_, replying.granting.acks, ?_, returns, rank s, finishes⟩
    · exact isPrefix_of_eq replying.sent
    · intro block
      exact replying.granting.places replying.answered block (replying.block block).1.le
    · intro idle
      simp [replying.state] at idle
  | ifin state zero complete _ => exact complete.streamsOnce whole zero

/-- Whatever the stalls and however fast the tags are. -/
theorem acquire_streams_once {t : Stream c} (reset : s.OnReset)
    (run : Steps (step uncached) (fun s e => s.orderly e = true) s t) : StreamsOnce uncached t :=
  (run.invariant reset.stage fun stage orderly fired => by
    cases fired
    exact stage.cycle orderly).streamsOnce

end Stream

/-! A block is fetched. -/

namespace Stream

def fetchConfig : Config := ⟨⟨4, 512, 2 ^ 27, 2 ^ 30, 64⟩, 1, 1, 2, 1⟩

def resetStream : Stream fetchConfig where
  tracker := ⟨.idle, .idle, false, .topDown, 0, false, false, true, true, true, .get, 0, ⟨0, 0, 0⟩, fun _ => 0, fun _ => 0,
    fun _ => false, 0, 0, 0, 0, 0, 0, true⟩
  beats := []
  sent := []
  answered := []
  grants := []
  tagsLeft := none

/-- A cycle with rows of the outer memory and a response of the tag side. -/
def fetchCycle (acquire : Option (AcquireBeat fetchConfig)) (row : Option Nat) (tags : Bool) : AcquireInput fetchConfig where
  acquire := acquire
  grantReady := true
  finish := false
  oacqReady := true
  ogrant := row.map fun k => ⟨true, k, BitVec.ofNat 64 (k + 1), 0⟩
  tcReqReady := true
  tcResp := if tags then some ⟨0, true, 0, 0⟩ else none
  order := .topDown

/-- The tags arrive between the rows, and the first grants leave before the last row is in. -/
def fetchBlock : List (AcquireInput fetchConfig) :=
  [fetchCycle (some ⟨.getBlock, 7, 0, 0, 0, 0, false, ⟨0, MT_Q, M_XRD⟩⟩) none false, fetchCycle none none false]
    ++ (List.range 4).map (fun k => fetchCycle none (some k) false)
    ++ [fetchCycle none none true]
    ++ (List.range 4).map (fun k => fetchCycle none (some (k + 4)) false)
    ++ List.replicate 4 (fetchCycle none none false)

theorem acquire_streams_once_block : ∃ t : Stream fetchConfig, t.tracker.resting = true
    ∧ t.grants.map GrantBeat.data = [1, 2, 3, 4, 5, 6, 7, 8] ∧ StreamsOnce true t := by
  have ran : (execGuarded (step true) (fun s e => s.orderly e) resetStream fetchBlock).map
      (fun t => (t.tracker.resting, t.grants.map GrantBeat.data)) = some (true, [1, 2, 3, 4, 5, 6, 7, 8]) := by decide +kernel
  obtain ⟨t, ran, result⟩ := Option.map_eq_some_iff.mp ran
  simp only [Prod.mk.injEq] at result
  exact ⟨t, result.1, result.2, acquire_streams_once (s := resetStream)
    ⟨rfl, rfl, rfl, rfl, rfl, rfl, rfl, rfl, rfl⟩ (steps_of_execGuarded ran)⟩

end Stream

end LowRisc.TagCache
