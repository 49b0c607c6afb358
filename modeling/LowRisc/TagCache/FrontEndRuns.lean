import LowRisc.TagCache.FrontEnd

/-! Every beat that the tag cache accepts reaches one tracker.

Where releases are served, two defects stand in the way. `io.inner.acquire.ready` does not see
the conflict with a release, and the idle release tracker starts its tag machine on whatever
block its registers hold.
-/

set_option autoImplicit false

namespace LowRisc.TagCache

open LowRisc.Chisel LowRisc.Lib

/-! One tracker. -/

namespace TCMemAcquireTracker

variable {c : Config} {uncached : Bool} {t : TCMemAcquireTracker c} {inp : AcquireInput c} {b : AcquireBeat c}

theorem resting_iff : t.resting = true ↔ t.mtState = .idle ∧ t.tcState = .idle := by
  simp [resting]

theorem acquireReady_iff : t.acquireReady = true ↔ t.resting = true ∨ t.mtState = .iacq := by
  simp [acquireReady]

/-- A tracker at rest that takes nothing stays at rest. -/
theorem resting_next (rests : t.resting = true) (none' : t.acquired inp = none) : (t.next uncached inp).resting = true := by
  obtain ⟨mt, tc⟩ := resting_iff.mp rests
  rw [resting_iff]
  simp [next, mtNext, tcNext, mt, tc, none', iacqDone]

theorem addrBlock_next (busy : t.resting = false) : (t.next uncached inp).addrBlock = t.addrBlock := by
  by_cases idle : t.mtState = .idle
  · have unready : t.acquired inp = none := by simp [acquired, acquireReady, busy, idle]
    simp [next, unready]
  · simp [next, idle]

theorem busy_of_taken (taken : t.acquired inp = some b) : (t.next uncached inp).resting = false := by
  by_contra rests
  have idle : t.mtNext uncached inp = .idle := (resting_iff.mp (eq_true_of_ne_false rests)).1
  have ready : t.resting = true ∨ t.mtState = .iacq := by
    rw [← acquireReady_iff]
    by_contra unready
    simp [acquired, unready] at taken
  have state : t.mtState = .idle ∨ t.mtState = .iacq := ready.imp_left fun rests => (resting_iff.mp rests).1
  rcases state with state | state
  all_goals
    simp only [mtNext, state, taken, Option.isSome_some, if_true] at idle
    split at idle <;> cases idle

/-- A tracker at rest that takes a beat works on its block. -/
theorem addrBlock_of_start (rests : t.resting = true) (taken : t.acquired inp = some b) :
    (t.next uncached inp).addrBlock = b.addrBlock := by
  simp [next, (resting_iff.mp rests).1, taken]

theorem next_iacq_iff : (t.next uncached inp).mtState = .iacq ↔ t.iacqDone inp = false
    ∧ (t.mtState = .iacq ∨ t.mtState = .idle ∧ (t.acquired inp).isSome = true) := by
  cases state : t.mtState <;> simp only [next, mtNext, state]
  all_goals repeat' split
  all_goals simp_all

theorem next_of_none (uncached : Bool) (none' : t.acquired inp = none) : (t.next uncached inp).addrBlock = t.addrBlock
    ∧ (t.next uncached inp).iacqCnt = t.iacqCnt ∧ ((t.next uncached inp).mtState = .iacq ↔ t.mtState = .iacq) := by
  rw [next_iacq_iff]
  simp [next, none', iacqDone, counterNext]

theorem next_of_some (uncached : Bool) (taken : t.acquired inp = some b) :
    (t.next uncached inp).iacqCnt = counterNext b.aType.hasMultibeatData Config.outerDataBeats t.iacqCnt
    ∧ ((t.next uncached inp).mtState = .iacq ↔
      b.aType.hasMultibeatData = true ∧ t.iacqCnt + 1 ≠ Config.outerDataBeats) := by
  have ready : t.mtState = .iacq ∨ t.mtState = .idle := by
    by_contra busy
    obtain ⟨collecting, idle⟩ := not_or.mp busy
    have unready : t.acquireReady = false := by simp [acquireReady, resting, collecting, idle]
    simp [acquired, unready] at taken
  refine ⟨by simp [next, taken], ?_⟩
  rw [next_iacq_iff]
  simp [taken, iacqDone, ready]

end TCMemAcquireTracker

namespace TCMemReleaseTracker

variable {c : Config} {t : TCMemReleaseTracker c} {inp : ReleaseInput c} {b : ReleaseBeat c}

theorem resting_iff : t.resting = true ↔ t.mtState = .idle ∧ t.tcState = .idle := by
  simp [resting]

theorem releaseReady_iff : t.releaseReady = true ↔ t.resting = true ∨ t.mtState = .irel := by
  simp [releaseReady]

/-- The block changes only with a beat that is taken at rest. -/
theorem addrBlock_next (kept : t.resting = true → t.released inp = none) : (t.next inp).addrBlock = t.addrBlock := by
  by_cases rests : t.resting = true
  · simp [next, kept rests]
  · simp [next, rests]

theorem addrBlock_of_start (rests : t.resting = true) (taken : t.released inp = some b) :
    (t.next inp).addrBlock = b.addrBlock := by
  simp [next, rests, taken]

theorem busy_of_unreleased (rests : t.resting = true) (none' : t.released inp = none) : (t.next inp).tlBlock = true := by
  obtain ⟨mt, tc⟩ := resting_iff.mp rests
  have starts : t.tcReqValid inp = true := by simp [tcReqValid, mt, RelState.code, irelDone, none']
  have state : (t.next inp).tcState = MemXactTracker.firstState t.order := by simp [next, tcNext, tc, starts]
  cases order : t.order <;> simp [tlBlock, resting, state, order, MemXactTracker.firstState]

theorem next_irel_iff : (t.next inp).mtState = .irel ↔ t.irelDone inp = false
    ∧ (t.mtState = .irel ∨ t.mtState = .idle ∧ (t.released inp).isSome = true) := by
  cases state : t.mtState <;> simp only [next, mtNext, state]
  all_goals repeat' split
  all_goals simp_all

theorem next_of_none (none' : t.released inp = none) : (t.next inp).addrBlock = t.addrBlock
    ∧ (t.next inp).irelCnt = t.irelCnt ∧ ((t.next inp).mtState = .irel ↔ t.mtState = .irel) := by
  rw [next_irel_iff]
  simp [next, none', irelDone, counterNext]

theorem next_of_some (taken : t.released inp = some b) :
    (t.next inp).irelCnt = counterNext b.hasData Config.outerDataBeats t.irelCnt
    ∧ ((t.next inp).mtState = .irel ↔ b.hasData = true ∧ t.irelCnt + 1 ≠ Config.outerDataBeats) := by
  have ready : t.mtState = .irel ∨ t.mtState = .idle := by
    by_contra busy
    obtain ⟨collecting, idle⟩ := not_or.mp busy
    have unready : t.releaseReady = false := by simp [releaseReady, resting, collecting, idle]
    simp [released, unready] at taken
  refine ⟨by simp [next, taken], ?_⟩
  rw [next_irel_iff]
  simp [taken, irelDone, ready]

end TCMemReleaseTracker

namespace FrontEnd

/-! An open block and the tracker that collects it. -/

section
variable {before : Option OpenBlock} {i j block block' beat count : Nat} {collecting collecting' : Prop} {many : Bool}

/-- Tracker `i` collects beats exactly if the open block is its own, and then the two agree on
the block and on the number of beats. -/
structure Collects (before : Option OpenBlock) (i : Nat) (collecting : Prop) (block count : Nat) : Prop where
  isOpen : collecting → ∃ o, before = some o ∧ o.owner = i ∧ o.addrBlock = block ∧ o.count = count
  owner : ∀ o, before = some o → o.owner = i → collecting
  zero : ¬ collecting → count = 0

theorem Collects.of_none (idle : ¬ collecting) (zero : count = 0) : Collects none i collecting block count :=
  ⟨fun busy => absurd busy idle, fun o isOpen => by (cases isOpen), fun _ => zero⟩

theorem Collects.block_eq (collects : Collects before i collecting block count) (busy : collecting)
    (fitting : fits before many block' beat = true) : block' = block := by
  obtain ⟨o, isOpen, -, same, -⟩ := collects.isOpen busy
  simp only [fits, isOpen, Bool.and_eq_true, beq_iff_eq] at fitting
  exact fitting.1.2.trans same

theorem Collects.count_eq (collects : Collects before i collecting block count)
    (own : ∀ o, before = some o → o.owner = i) : (before.map OpenBlock.count).getD 0 = count := by
  cases isOpen : before with
  | none =>
    have idle : ¬ collecting := by
      intro busy
      obtain ⟨o, isOpen', -⟩ := collects.isOpen busy
      rw [isOpen] at isOpen'
      cases isOpen'
    exact (collects.zero idle).symm
  | some o =>
    obtain ⟨o', isOpen', -, -, same⟩ := collects.isOpen (collects.owner o isOpen (own o isOpen))
    rw [isOpen] at isOpen'
    rw [Option.some.inj isOpen']
    exact same

theorem Collects.opened_eq (collects : Collects before i collecting block count)
    (own : ∀ o, before = some o → o.owner = i) : opened before many i block' =
      if many = true ∧ count + 1 ≠ Config.outerDataBeats then some ⟨i, block', count + 1⟩ else none := by
  have owner : (before.map OpenBlock.owner).getD i = i := by
    cases isOpen : before with
    | none => rfl
    | some o => exact own o isOpen
  simp only [opened, collects.count_eq own, owner, Bool.and_eq_true, decide_eq_true_eq]

theorem Collects.take (collects : Collects before i collecting block count)
    (own : ∀ o, before = some o → o.owner = i) (fitting : fits before many block' beat = true)
    (next : collecting' ↔ many = true ∧ count + 1 ≠ Config.outerDataBeats) :
    Collects (opened before many i block') i collecting' block' (counterNext many Config.outerDataBeats count) := by
  rw [collects.opened_eq own]
  refine ⟨fun busy => ?_, fun o isOpen _ => ?_, fun idle => ?_⟩
  · obtain ⟨many', more⟩ := next.mp busy
    rw [if_pos ⟨many', more⟩]
    exact ⟨_, rfl, rfl, rfl, by simp [counterNext, many', more]⟩
  · rw [next]
    by_contra last
    rw [if_neg last] at isOpen
    cases isOpen
  · rw [next, not_and, not_not] at idle
    cases several : many with
    | true => simp [counterNext, idle several]
    | false =>
      -- a beat on its own opens nothing, and it comes only when nothing is open
      have idle' : ¬ collecting := by
        intro busy
        obtain ⟨o, isOpen, -⟩ := collects.isOpen busy
        simp [fits, isOpen, several] at fitting
      exact collects.zero idle'

theorem Collects.leave (collects : Collects before j collecting block count)
    (own : ∀ o, before = some o → o.owner = i) (other : j ≠ i) :
    Collects (opened before many i block') j collecting block count := by
  have idle : ¬ collecting := by
    intro busy
    obtain ⟨o, isOpen, mine, -⟩ := collects.isOpen busy
    exact other (mine.symm.trans (own o isOpen))
  refine ⟨fun busy => absurd busy idle, fun o isOpen mine => ?_, collects.zero⟩
  have owner : o.owner = i := by
    simp only [opened] at isOpen
    split at isOpen
    · rw [← Option.some.inj isOpen]
      cases isOpen' : before with
      | none => rfl
      | some o' => exact own o' isOpen'
    · cases isOpen
  exact absurd (mine.symm.trans owner) other

end

variable {c : Config} {uncached : Bool} {nAcq : Nat} {s t : FrontEnd c} {inp : FrontInput c}

/-- No two trackers work on one block. -/
structure Distinct (uncached : Bool) (nAcq : Nat) (s : FrontEnd c) : Prop where
  acq : ∀ i < nAcq, ∀ j < nAcq, (s.acq i).tlBlock = true → (s.acq j).tlBlock = true →
    (s.acq i).addrBlock = (s.acq j).addrBlock → i = j
  rel : ∀ i < nAcq, uncached = false → (s.acq i).tlBlock = true → s.rel.tlBlock = true →
    (s.acq i).addrBlock ≠ s.rel.addrBlock

structure Tracked (uncached : Bool) (nAcq : Nat) (s : FrontEnd c) : Prop where
  distinct : Distinct uncached nAcq s
  bound : ∀ o, s.acqOpen = some o → o.owner < nAcq
  acq : ∀ i < nAcq, Collects s.acqOpen i ((s.acq i).mtState = .iacq) (s.acq i).addrBlock (s.acq i).iacqCnt
  relOwner : ∀ o, s.relOpen = some o → o.owner = 0
  rel : Collects s.relOpen 0 (s.rel.mtState = .irel) s.rel.addrBlock s.rel.irelCnt

theorem OnReset.tracked (reset : s.OnReset) : Tracked uncached nAcq s := by
  have rests : ∀ i, (s.acq i).tlBlock = false := by
    intro i
    simp [TCMemAcquireTracker.tlBlock, TCMemAcquireTracker.resting, reset.acq i]
  refine ⟨⟨?_, ?_⟩, ?_, ?_, ?_, ?_⟩
  · intro i _ j _ busy
    rw [rests i] at busy
    cases busy
  · intro i _ _ busy
    rw [rests i] at busy
    cases busy
  · intro o isOpen
    rw [reset.acqOpen] at isOpen
    cases isOpen
  · intro i _
    rw [reset.acqOpen]
    exact .of_none (by simp [reset.acq i]) (reset.acq i).2.2
  · intro o isOpen
    rw [reset.relOpen] at isOpen
    cases isOpen
  · rw [reset.relOpen]
    exact .of_none (by simp [reset.rel]) reset.rel.2.2

/-! Who takes an acquire. -/

theorem busy_of_iacq {i : Nat} (collecting : (s.acq i).mtState = .iacq) : (s.acq i).tlBlock = true := by
  simp [TCMemAcquireTracker.tlBlock, TCMemAcquireTracker.resting, collecting]

theorem tlAcqMatch_iff {i block : Nat} :
    s.tlAcqMatch block i = true ↔ (s.acq i).mtState = .iacq ∧ (s.acq i).addrBlock = block := by
  simp only [tlAcqMatch, acqBusy, TCMemAcquireTracker.tlBlock, Bool.and_eq_true, Bool.not_eq_true', beq_iff_eq,
    TCMemAcquireTracker.acquireReady_iff]
  constructor
  · rintro ⟨⟨busy, same⟩, rests | collecting⟩
    · rw [rests] at busy
      cases busy
    · exact ⟨collecting, same⟩
  · rintro ⟨collecting, same⟩
    refine ⟨⟨?_, same⟩, .inr collecting⟩
    simpa [TCMemAcquireTracker.tlBlock] using busy_of_iacq collecting

theorem ready_of_alloc {i block : Nat}
    (alloc : s.tlAcqAlloc uncached nAcq block i = true) : (s.acq i).acquireReady = true := by
  simp only [tlAcqAlloc] at alloc
  split at alloc
  · exact TCMemAcquireTracker.acquireReady_iff.mpr (.inr (tlAcqMatch_iff.mp alloc).1)
  · split at alloc
    · cases alloc
    · simpa using List.find?_some (beq_iff_eq.mp alloc)

/-- A tracker at rest is allocated only a block that no tracker works on, and only if it is the
first that is ready. -/
theorem alloc_of_resting {i block : Nat} (rests : (s.acq i).resting = true)
    (alloc : s.tlAcqAlloc uncached nAcq block i = true) : s.tlBlocked uncached nAcq block = false
    ∧ (List.range nAcq).find? (fun j => (s.acq j).acquireReady) = some i := by
  simp only [tlAcqAlloc] at alloc
  split at alloc
  · have collecting := (tlAcqMatch_iff.mp alloc).1
    rw [(TCMemAcquireTracker.resting_iff.mp rests).1] at collecting
    cases collecting
  · split at alloc
    · cases alloc
    · rename_i free
      exact ⟨eq_false_of_ne_true free, beq_iff_eq.mp alloc⟩

theorem Tracked.alloc_open (tracked : Tracked uncached nAcq s) {o : OpenBlock} (isOpen : s.acqOpen = some o) {i : Nat}
    (inside : i < nAcq) : s.tlAcqAlloc uncached nAcq o.addrBlock i = true ↔ i = o.owner := by
  have bound := tracked.bound o isOpen
  have collecting := (tracked.acq o.owner bound).owner o isOpen rfl
  obtain ⟨o', isOpen', -, block, -⟩ := (tracked.acq o.owner bound).isOpen collecting
  obtain rfl : o = o' := Option.some.inj (isOpen.symm.trans isOpen')
  have own : s.tlAcqMatch o.addrBlock o.owner = true := tlAcqMatch_iff.mpr ⟨collecting, block.symm⟩
  have found : (List.range nAcq).any (s.tlAcqMatch o.addrBlock) = true :=
    List.any_eq_true.mpr ⟨o.owner, List.mem_range.mpr bound, own⟩
  rw [tlAcqAlloc, if_pos found]
  constructor
  · intro match'
    obtain ⟨collecting', block'⟩ := tlAcqMatch_iff.mp match'
    exact tracked.distinct.acq i inside o.owner bound (busy_of_iacq collecting') (busy_of_iacq collecting)
      (block'.trans block)
  · rintro rfl
    exact own

theorem Tracked.rests_of_fresh (tracked : Tracked uncached nAcq s) (closed : s.acqOpen = none) {i block : Nat}
    (inside : i < nAcq) (alloc : s.tlAcqAlloc uncached nAcq block i = true) : (s.acq i).resting = true := by
  rcases TCMemAcquireTracker.acquireReady_iff.mp (ready_of_alloc alloc) with rests | collecting
  · exact rests
  · obtain ⟨o, isOpen, -⟩ := (tracked.acq i inside).isOpen collecting
    rw [closed] at isOpen
    cases isOpen

theorem acquiredBy_iff {i : Nat} {b : AcquireBeat c} :
    s.acquiredBy uncached nAcq inp i = some b ↔ inp.acquire = some b
      ∧ s.tlAcqAlloc uncached nAcq b.addrBlock i = true ∧ acqRelConflict uncached inp = false := by
  have presented : (s.acqInput uncached nAcq inp i).acquire = some b ↔ inp.acquire = some b
      ∧ s.tlAcqAlloc uncached nAcq b.addrBlock i = true ∧ acqRelConflict uncached inp = false := by
    simp only [acqInput, Option.filter_eq_some_iff, Bool.and_eq_true, Bool.not_eq_true']
  rw [← presented, acquiredBy, TCMemAcquireTracker.acquired]
  constructor
  · intro taken
    split at taken
    · exact taken
    · cases taken
  · intro taken
    rw [if_pos (ready_of_alloc (presented.mp taken).2.1), taken]

theorem acquireFire_iff {b : AcquireBeat c} : s.acquireFire uncached nAcq inp = some b ↔ inp.acquire = some b
    ∧ ∃ i < nAcq, s.tlAcqAlloc uncached nAcq b.addrBlock i = true := by
  simp only [acquireFire, Option.filter_eq_some_iff, acquireReady, List.any_eq_true, List.mem_range]

/-- A beat that is accepted apart from releases of its block is taken by one tracker, the owner
of the open block if there is one. -/
theorem Tracked.captures (tracked : Tracked uncached nAcq s) (orderly : s.orderly inp = true)
    (apart : s.apart uncached nAcq inp = true) {b : AcquireBeat c} (fired : s.acquireFire uncached nAcq inp = some b) :
    ∃ i < nAcq, s.acquiredBy uncached nAcq inp i = some b
      ∧ (∀ j < nAcq, (s.acquiredBy uncached nAcq inp j).isSome = true → j = i)
      ∧ ∀ o, s.acqOpen = some o → i = o.owner := by
  obtain ⟨offered, i, inside, alloc⟩ := acquireFire_iff.mp fired
  have free : acqRelConflict uncached inp = false := by
    simpa [FrontEnd.apart, fired] using apart
  have taken := acquiredBy_iff.mpr ⟨offered, alloc, free⟩
  have other : ∀ j < nAcq, (s.acquiredBy uncached nAcq inp j).isSome = true →
      s.tlAcqAlloc uncached nAcq b.addrBlock j = true := by
    intro j bound some'
    obtain ⟨b', taken'⟩ := Option.isSome_iff_exists.mp some'
    obtain ⟨offered', alloc', -⟩ := acquiredBy_iff.mp taken'
    rw [Option.some.inj (offered.symm.trans offered')]
    exact alloc'
  refine ⟨i, inside, taken, ?_⟩
  cases isOpen : s.acqOpen with
  | none =>
    have first := (alloc_of_resting (tracked.rests_of_fresh isOpen inside alloc) alloc).2
    refine ⟨fun j bound some' => ?_, fun o none' => by cases none'⟩
    have alloc' := other j bound some'
    have second := (alloc_of_resting (tracked.rests_of_fresh isOpen bound alloc') alloc').2
    exact Option.some.inj (second.symm.trans first)
  | some o =>
    have block : b.addrBlock = o.addrBlock := by
      simp only [FrontEnd.orderly, offered, Option.all_some, Bool.and_eq_true, fits, isOpen, beq_iff_eq] at orderly
      exact orderly.1.1.2
    rw [block] at alloc other
    refine ⟨fun j bound some' => ?_, fun o' same => ?_⟩
    · rw [(tracked.alloc_open isOpen bound).mp (other j bound some'), (tracked.alloc_open isOpen inside).mp alloc]
    · rw [← Option.some.inj same]
      exact (tracked.alloc_open isOpen inside).mp alloc

/-! Who takes a release. -/

theorem releaseFire_iff {b : ReleaseBeat c} : s.releaseFire uncached nAcq inp = some b ↔ inp.release = some b
    ∧ uncached = false ∧ s.releaseReady uncached nAcq b.addrBlock = true := by
  simp only [releaseFire, Option.filter_eq_some_iff, Bool.and_eq_true, Bool.not_eq_true']

theorem ready_of_releaseReady {block : Nat} (ready : s.releaseReady uncached nAcq block = true) :
    s.rel.releaseReady = true := by
  simp only [releaseReady] at ready
  split at ready
  · rename_i match'
    simp only [tlRelMatch, Bool.and_eq_true] at match'
    exact match'.1.2
  · split at ready
    · cases ready
    · exact ready

theorem releasedBy_eq : s.releasedBy uncached nAcq inp = s.releaseFire uncached nAcq inp := by
  cases fired : s.releaseFire uncached nAcq inp with
  | none =>
    have presented : (s.relInput uncached nAcq inp).release = none := fired
    simp [releasedBy, TCMemReleaseTracker.released, presented]
  | some b =>
    have presented : (s.relInput uncached nAcq inp).release = some b := fired
    have ready := ready_of_releaseReady (releaseFire_iff.mp fired).2.2
    simp [releasedBy, TCMemReleaseTracker.released, presented, ready]

theorem free_of_releaseFire {b : ReleaseBeat c} (fired : s.releaseFire uncached nAcq inp = some b)
    (rests : s.rel.resting = true) : s.tlBlocked uncached nAcq b.addrBlock = false := by
  have ready := (releaseFire_iff.mp fired).2.2
  have unmatched : s.tlRelMatch b.addrBlock = false := by
    simp [tlRelMatch, TCMemReleaseTracker.tlBlock, rests]
  simp only [releaseReady, unmatched] at ready
  by_contra blocked
  simp [eq_true_of_ne_false blocked] at ready

/-! No two trackers work on one block. -/

theorem not_acqBusy {i block : Nat} (free : s.tlBlocked uncached nAcq block = false) (inside : i < nAcq)
    (busy : (s.acq i).tlBlock = true) : (s.acq i).addrBlock ≠ block := by
  intro same
  simp only [tlBlocked, Bool.or_eq_false_iff, List.any_eq_false, List.mem_range] at free
  have idle := free.2 i inside
  simp [acqBusy, busy, same] at idle

theorem not_relBusy {block : Nat} (free : s.tlBlocked uncached nAcq block = false) (coherent : uncached = false)
    (busy : s.rel.tlBlock = true) : s.rel.addrBlock ≠ block := by
  intro same
  simp [tlBlocked, relBusy, coherent, busy, same] at free

theorem acq_busy_cycle {i : Nat} (inside : i < nAcq) (busy : ((s.cycle uncached nAcq inp).acq i).tlBlock = true) :
    ((s.acq i).tlBlock = true ∧ ((s.cycle uncached nAcq inp).acq i).addrBlock = (s.acq i).addrBlock)
    ∨ ∃ b, s.acquiredBy uncached nAcq inp i = some b ∧ s.acquireFire uncached nAcq inp = some b
      ∧ ((s.cycle uncached nAcq inp).acq i).addrBlock = b.addrBlock ∧ s.tlBlocked uncached nAcq b.addrBlock = false
      ∧ (List.range nAcq).find? (fun j => (s.acq j).acquireReady) = some i := by
  cases rests : (s.acq i).resting with
  | false => exact .inl ⟨by simp [TCMemAcquireTracker.tlBlock, rests], TCMemAcquireTracker.addrBlock_next rests⟩
  | true =>
    cases taken : s.acquiredBy uncached nAcq inp i with
    | none =>
      have still : ((s.cycle uncached nAcq inp).acq i).resting = true := TCMemAcquireTracker.resting_next rests taken
      simp [TCMemAcquireTracker.tlBlock, still] at busy
    | some b =>
      obtain ⟨offered, alloc, -⟩ := acquiredBy_iff.mp taken
      have fired := acquireFire_iff.mpr ⟨offered, i, inside, alloc⟩
      obtain ⟨free, first⟩ := alloc_of_resting rests alloc
      exact .inr ⟨b, rfl, fired, TCMemAcquireTracker.addrBlock_of_start rests taken, free, first⟩

theorem Distinct.acq_cycle (distinct : Distinct uncached nAcq s) {i j : Nat} (hi : i < nAcq) (hj : j < nAcq)
    (busyI : ((s.cycle uncached nAcq inp).acq i).tlBlock = true)
    (busyJ : ((s.cycle uncached nAcq inp).acq j).tlBlock = true)
    (same : ((s.cycle uncached nAcq inp).acq i).addrBlock = ((s.cycle uncached nAcq inp).acq j).addrBlock) : i = j := by
  rcases acq_busy_cycle hi busyI with ⟨oldI, blockI⟩ | ⟨a, -, -, blockI, freeI, firstI⟩
  · rcases acq_busy_cycle hj busyJ with ⟨oldJ, blockJ⟩ | ⟨b, -, -, blockJ, freeJ, -⟩
    · exact distinct.acq i hi j hj oldI oldJ (blockI.symm.trans (same.trans blockJ))
    · exact absurd (blockI.symm.trans (same.trans blockJ)) (not_acqBusy freeJ hi oldI)
  · rcases acq_busy_cycle hj busyJ with ⟨oldJ, blockJ⟩ | ⟨b, -, -, -, -, firstJ⟩
    · exact absurd (blockJ.symm.trans (same.symm.trans blockI)) (not_acqBusy freeI hj oldJ)
    · exact Option.some.inj (firstI.symm.trans firstJ)

theorem Distinct.rel_cycle (distinct : Distinct uncached nAcq s) (unshared : s.unshared uncached nAcq inp = true)
    {i : Nat} (inside : i < nAcq) (coherent : uncached = false)
    (busy : ((s.cycle uncached nAcq inp).acq i).tlBlock = true) (relBusy : (s.cycle uncached nAcq inp).rel.tlBlock = true) :
    ((s.cycle uncached nAcq inp).acq i).addrBlock ≠ (s.cycle uncached nAcq inp).rel.addrBlock := by
  cases rests : s.rel.resting with
  | false =>
    have old : s.rel.tlBlock = true := by simp [TCMemReleaseTracker.tlBlock, rests]
    have kept : (s.cycle uncached nAcq inp).rel.addrBlock = s.rel.addrBlock :=
      TCMemReleaseTracker.addrBlock_next fun rests' => by (rw [rests] at rests'; cases rests')
    rw [kept]
    rcases acq_busy_cycle inside busy with ⟨busy', block⟩ | ⟨b, -, -, block, free, -⟩
    · rw [block]
      exact distinct.rel i inside coherent busy' old
    · rw [block]
      exact (not_relBusy free coherent old).symm
  | true =>
    cases fired : s.releaseFire uncached nAcq inp with
    | some r =>
      have taken : (s.cycle uncached nAcq inp).rel.addrBlock = r.addrBlock :=
        TCMemReleaseTracker.addrBlock_of_start rests (releasedBy_eq.trans fired)
      rw [taken]
      rcases acq_busy_cycle inside busy with ⟨busy', block⟩ | ⟨b, captured, -, block, -, -⟩
      · rw [block]
        exact not_acqBusy (free_of_releaseFire fired rests) inside busy'
      · -- both start in this cycle: the conflict keeps the acquire from its tracker
        obtain ⟨offered, -, free⟩ := acquiredBy_iff.mp captured
        rw [block]
        simpa [acqRelConflict, offered, (releaseFire_iff.mp fired).1, coherent] using free
    | none =>
      subst coherent
      have kept : (s.cycle false nAcq inp).rel.addrBlock = s.rel.addrBlock :=
        TCMemReleaseTracker.addrBlock_next fun _ => releasedBy_eq.trans fired
      simp only [FrontEnd.unshared, rests, fired, Bool.false_or, Option.isSome_none, Bool.not_true,
        Bool.and_eq_true, List.all_eq_true, List.mem_range] at unshared
      rw [kept]
      rcases acq_busy_cycle inside busy with ⟨busy', block⟩ | ⟨b, -, accepted, block, -, -⟩
      · have goesOn : ((s.acq i).next false (s.acqInput false nAcq inp i)).resting = false := by
          simpa [TCMemAcquireTracker.tlBlock, FrontEnd.cycle] using busy
        rw [block]
        simpa [acqBusy, busy', goesOn] using unshared.1 i inside
      · rw [block]
        simpa [accepted] using unshared.2

/-! The open blocks. -/

theorem fits_acquire (orderly : s.orderly inp = true) {b : AcquireBeat c} (offered : inp.acquire = some b) :
    fits s.acqOpen b.aType.hasMultibeatData b.addrBlock b.addrBeat = true := by
  simp only [FrontEnd.orderly, offered, Option.all_some, Bool.and_eq_true] at orderly
  exact orderly.1

theorem fits_release (orderly : s.orderly inp = true) {b : ReleaseBeat c} (offered : inp.release = some b) :
    fits s.relOpen b.hasData b.addrBlock b.addrBeat = true := by
  simp only [FrontEnd.orderly, offered, Option.all_some, Bool.and_eq_true] at orderly
  exact orderly.2

theorem acquiredBy_of_unfired {i : Nat} (inside : i < nAcq) (unfired : s.acquireFire uncached nAcq inp = none) :
    s.acquiredBy uncached nAcq inp i = none := by
  cases taken : s.acquiredBy uncached nAcq inp i with
  | none => rfl
  | some b =>
    obtain ⟨offered, alloc, -⟩ := acquiredBy_iff.mp taken
    rw [acquireFire_iff.mpr ⟨offered, i, inside, alloc⟩] at unfired
    cases unfired

/-- The number that the open block gets is that of the one tracker that takes the beat. -/
theorem find_taker {i : Nat} (inside : i < nAcq) (taken : (s.acquiredBy uncached nAcq inp i).isSome = true)
    (only : ∀ j < nAcq, (s.acquiredBy uncached nAcq inp j).isSome = true → j = i) :
    ((List.range nAcq).find? fun j => (s.acquiredBy uncached nAcq inp j).isSome).getD nAcq = i := by
  cases found : (List.range nAcq).find? fun j => (s.acquiredBy uncached nAcq inp j).isSome with
  | none =>
    have none' := List.find?_eq_none.mp found i (List.mem_range.mpr inside)
    exact absurd taken none'
  | some j =>
    have taken' : (s.acquiredBy uncached nAcq inp j).isSome = true := by simpa using List.find?_some found
    exact only j (List.mem_range.mp (List.mem_of_find?_eq_some found)) taken'

theorem Tracked.addrBlock_taken (tracked : Tracked uncached nAcq s) (orderly : s.orderly inp = true) {i : Nat}
    (inside : i < nAcq) {b : AcquireBeat c} (taken : s.acquiredBy uncached nAcq inp i = some b) :
    ((s.cycle uncached nAcq inp).acq i).addrBlock = b.addrBlock := by
  obtain ⟨offered, alloc, -⟩ := acquiredBy_iff.mp taken
  rcases TCMemAcquireTracker.acquireReady_iff.mp (ready_of_alloc alloc) with rests | collecting
  · exact TCMemAcquireTracker.addrBlock_of_start rests taken
  · have busy : (s.acq i).resting = false := by
      simpa [TCMemAcquireTracker.tlBlock] using busy_of_iacq collecting
    have kept : ((s.cycle uncached nAcq inp).acq i).addrBlock = (s.acq i).addrBlock :=
      TCMemAcquireTracker.addrBlock_next busy
    rw [kept]
    exact ((tracked.acq i inside).block_eq collecting (fits_acquire orderly offered)).symm

theorem Tracked.acq_cycle (tracked : Tracked uncached nAcq s) (orderly : s.orderly inp = true)
    (apart : s.apart uncached nAcq inp = true) :
    (∀ o, (s.cycle uncached nAcq inp).acqOpen = some o → o.owner < nAcq)
    ∧ ∀ i < nAcq, Collects (s.cycle uncached nAcq inp).acqOpen i (((s.cycle uncached nAcq inp).acq i).mtState = .iacq)
      ((s.cycle uncached nAcq inp).acq i).addrBlock ((s.cycle uncached nAcq inp).acq i).iacqCnt := by
  cases fired : s.acquireFire uncached nAcq inp with
  -- no beat passes, so the trackers and the burst that is open stay
  | none =>
    have kept : (s.cycle uncached nAcq inp).acqOpen = s.acqOpen := by simp only [cycle, fired]
    rw [kept]
    refine ⟨tracked.bound, fun i inside => ?_⟩
    obtain ⟨block, count, state⟩ :=
      TCMemAcquireTracker.next_of_none uncached (acquiredBy_of_unfired inside fired)
    simp only [cycle, block, count, state]
    exact tracked.acq i inside
  | some b =>
    -- one tracker takes the beat, the one of the open burst where there is one
    obtain ⟨k, bound, taken, only, own⟩ := tracked.captures orderly apart fired
    have owned : ∀ o, s.acqOpen = some o → o.owner = k := fun o isOpen => (own o isOpen).symm
    have offered := (acquireFire_iff.mp fired).1
    have next : (s.cycle uncached nAcq inp).acqOpen = opened s.acqOpen b.aType.hasMultibeatData k b.addrBlock := by
      simp only [cycle, fired, find_taker bound (Option.isSome_iff_exists.mpr ⟨b, taken⟩) only]
    rw [next]
    constructor
    · intro o isOpen
      rw [(tracked.acq k bound).opened_eq owned] at isOpen
      split at isOpen
      · rw [← Option.some.inj isOpen]
        exact bound
      · cases isOpen
    · intro i inside
      by_cases same : i = k
      · subst same
        obtain ⟨count, state⟩ := TCMemAcquireTracker.next_of_some uncached taken
        rw [tracked.addrBlock_taken orderly inside taken]
        have collects := (tracked.acq i inside).take owned (fits_acquire orderly offered) state
        rw [← count] at collects
        exact collects
      -- another tracker would have taken the beat as well
      · have none' : s.acquiredBy uncached nAcq inp i = none := by
          by_contra some'
          exact same (only i inside (Option.isSome_iff_ne_none.mpr some'))
        obtain ⟨block, count, state⟩ := TCMemAcquireTracker.next_of_none uncached none'
        simp only [cycle, block, count, state]
        exact (tracked.acq i inside).leave owned same

theorem Tracked.rel_cycle (tracked : Tracked uncached nAcq s) (orderly : s.orderly inp = true) :
    (∀ o, (s.cycle uncached nAcq inp).relOpen = some o → o.owner = 0)
    ∧ Collects (s.cycle uncached nAcq inp).relOpen 0 ((s.cycle uncached nAcq inp).rel.mtState = .irel)
      (s.cycle uncached nAcq inp).rel.addrBlock (s.cycle uncached nAcq inp).rel.irelCnt := by
  cases fired : s.releaseFire uncached nAcq inp with
  | none =>
    have kept : (s.cycle uncached nAcq inp).relOpen = s.relOpen := by simp only [cycle, fired]
    rw [kept]
    refine ⟨tracked.relOwner, ?_⟩
    obtain ⟨block, count, state⟩ := TCMemReleaseTracker.next_of_none (releasedBy_eq.trans fired)
    simp only [cycle, block, count, state]
    exact tracked.rel
  | some b =>
    have taken : s.releasedBy uncached nAcq inp = some b := releasedBy_eq.trans fired
    obtain ⟨offered, -, ready⟩ := releaseFire_iff.mp fired
    have next : (s.cycle uncached nAcq inp).relOpen = opened s.relOpen b.hasData 0 b.addrBlock := by
      simp only [cycle, fired]
    have block : (s.cycle uncached nAcq inp).rel.addrBlock = b.addrBlock := by
      -- the first beat of a release sets the block, the others come for the same one
      rcases TCMemReleaseTracker.releaseReady_iff.mp (ready_of_releaseReady ready) with rests | collecting
      · exact TCMemReleaseTracker.addrBlock_of_start rests taken
      · have kept : (s.cycle uncached nAcq inp).rel.addrBlock = s.rel.addrBlock :=
          TCMemReleaseTracker.addrBlock_next fun rests => by
            rw [(TCMemReleaseTracker.resting_iff.mp rests).1] at collecting
            cases collecting
        rw [kept]
        exact (tracked.rel.block_eq collecting (fits_release orderly offered)).symm
    obtain ⟨count, state⟩ := TCMemReleaseTracker.next_of_some taken
    rw [next, block]
    constructor
    · intro o isOpen
      rw [tracked.rel.opened_eq tracked.relOwner] at isOpen
      split at isOpen
      · rw [← Option.some.inj isOpen]
      · cases isOpen
    · have collects := tracked.rel.take tracked.relOwner (fits_release orderly offered) state
      rw [← count] at collects
      exact collects

theorem Tracked.cycle (tracked : Tracked uncached nAcq s) (orderly : s.orderly inp = true)
    (apart : s.apart uncached nAcq inp = true) (unshared : s.unshared uncached nAcq inp = true) :
    Tracked uncached nAcq (s.cycle uncached nAcq inp) := by
  refine ⟨⟨?_, ?_⟩, (tracked.acq_cycle orderly apart).1, (tracked.acq_cycle orderly apart).2,
    (tracked.rel_cycle orderly).1, (tracked.rel_cycle orderly).2⟩
  · intro i hi j hj busyI busyJ same
    exact tracked.distinct.acq_cycle hi hj busyI busyJ same
  · intro i inside coherent busy relBusy
    exact tracked.distinct.rel_cycle unshared inside coherent busy relBusy

/-! What the front end promises. -/

/-- A beat that is accepted in the cycle is taken by one tracker, and by the one that has the
earlier beats of its block. -/
structure CapturesOnce (uncached : Bool) (nAcq : Nat) (s : FrontEnd c) (inp : FrontInput c) : Prop where
  acquire : ∀ b, s.acquireFire uncached nAcq inp = some b → ∃ i < nAcq, s.acquiredBy uncached nAcq inp i = some b
    ∧ (∀ j < nAcq, (s.acquiredBy uncached nAcq inp j).isSome = true → j = i) ∧ ∀ o, s.acqOpen = some o → i = o.owner
  release : ∀ b, s.releaseFire uncached nAcq inp = some b → s.releasedBy uncached nAcq inp = some b
    ∧ ∀ o, s.relOpen = some o → o.owner = 0

/-- Every state that is reached keeps the trackers apart, and every further cycle loses no beat. -/
structure FrontEndRight (uncached : Bool) (nAcq : Nat) (ok : FrontEnd c → FrontInput c → Prop) (s : FrontEnd c) : Prop where
  distinct : Distinct uncached nAcq s
  captures : ∀ inp, ok s inp → CapturesOnce uncached nAcq s inp

/-- The beats are orderly, and where releases are served the two defects are avoided. -/
def Undisturbed (uncached : Bool) (nAcq : Nat) (s : FrontEnd c) (inp : FrontInput c) : Prop :=
  s.orderly inp = true ∧ (uncached = false → s.apart uncached nAcq inp = true ∧ s.unshared uncached nAcq inp = true)

instance (uncached : Bool) (nAcq : Nat) (s : FrontEnd c) (inp : FrontInput c) : Decidable (Undisturbed uncached nAcq s inp) :=
  inferInstanceAs (Decidable (s.orderly inp = true
    ∧ (uncached = false → s.apart uncached nAcq inp = true ∧ s.unshared uncached nAcq inp = true)))

/-- Without a release tracker there is nothing to avoid. -/
theorem Undisturbed.conditions (undisturbed : Undisturbed uncached nAcq s inp) :
    s.apart uncached nAcq inp = true ∧ s.unshared uncached nAcq inp = true := by
  cases kind : uncached with
  | false =>
    subst kind
    exact undisturbed.2 rfl
  | true =>
    constructor
    · cases fired : s.acquireFire true nAcq inp <;> simp [FrontEnd.apart, fired, acqRelConflict]
    · simp [FrontEnd.unshared]

theorem Tracked.frontEndRight (tracked : Tracked uncached nAcq s) :
    FrontEndRight uncached nAcq (Undisturbed uncached nAcq) s := by
  refine ⟨tracked.distinct, fun inp undisturbed => ⟨fun b fired => ?_, fun b fired => ?_⟩⟩
  · exact tracked.captures undisturbed.1 undisturbed.conditions.1 fired
  · exact ⟨releasedBy_eq.trans fired, tracked.relOwner⟩

/-- An acquire that is accepted next to a release for its block reaches no tracker. -/
theorem CapturesOnce.apart (captures : CapturesOnce uncached nAcq s inp) : s.apart uncached nAcq inp = true := by
  cases fired : s.acquireFire uncached nAcq inp with
  | none => simp [FrontEnd.apart, fired]
  | some b =>
    obtain ⟨i, -, taken, -⟩ := captures.acquire b fired
    simp [FrontEnd.apart, fired, (acquiredBy_iff.mp taken).2.2]

/-- A start on a block of an acquire tracker leaves two trackers on one block. -/
theorem Tracked.unshared_of_distinct (tracked : Tracked uncached nAcq s) (orderly : s.orderly inp = true)
    (apart : s.apart uncached nAcq inp = true) (distinct : Distinct uncached nAcq (s.cycle uncached nAcq inp)) :
    s.unshared uncached nAcq inp = true := by
  by_contra shared
  simp only [FrontEnd.unshared, Bool.or_eq_true, Bool.and_eq_true, not_or, Bool.not_eq_true', Bool.not_eq_true,
    Bool.not_eq_false, Option.isSome_eq_false_iff, Option.isNone_iff_eq_none] at shared
  obtain ⟨⟨⟨coherent, rests⟩, unfired⟩, shared⟩ := shared
  have none' : s.releasedBy uncached nAcq inp = none := releasedBy_eq.trans unfired
  have starts : (s.cycle uncached nAcq inp).rel.tlBlock = true := TCMemReleaseTracker.busy_of_unreleased rests none'
  have block : (s.cycle uncached nAcq inp).rel.addrBlock = s.rel.addrBlock :=
    TCMemReleaseTracker.addrBlock_next fun _ => none'
  refine shared ⟨List.all_eq_true.mpr fun i member => ?_, ?_⟩
  · by_contra goesOn
    simp only [Bool.or_eq_true, not_or, Bool.not_eq_true', Bool.not_eq_false, Bool.not_eq_true] at goesOn
    obtain ⟨works, goesOn⟩ := goesOn
    simp only [acqBusy, TCMemAcquireTracker.tlBlock, Bool.and_eq_true, Bool.not_eq_true', beq_iff_eq] at works
    have kept : ((s.cycle uncached nAcq inp).acq i).addrBlock = (s.acq i).addrBlock :=
      TCMemAcquireTracker.addrBlock_next works.1
    have busy : ((s.cycle uncached nAcq inp).acq i).tlBlock = true := by
      simpa [TCMemAcquireTracker.tlBlock, FrontEnd.cycle] using goesOn
    exact distinct.rel i (List.mem_range.mp member) coherent busy starts (kept.trans (works.2.trans block.symm))
  · cases fired : s.acquireFire uncached nAcq inp with
    | none => rfl
    | some b =>
      obtain ⟨k, bound, taken, -⟩ := tracked.captures orderly apart fired
      have busy : ((s.cycle uncached nAcq inp).acq k).tlBlock = true := by
        have busy' : ((s.acq k).next uncached (s.acqInput uncached nAcq inp k)).resting = false :=
          TCMemAcquireTracker.busy_of_taken taken
        simpa [TCMemAcquireTracker.tlBlock, FrontEnd.cycle] using busy'
      have other := distinct.rel k bound coherent busy starts
      rw [tracked.addrBlock_taken orderly bound taken, block] at other
      simpa using other

/-- The condition is exact, cycle by cycle. -/
theorem Tracked.undisturbed_iff (tracked : Tracked uncached nAcq s) (orderly : s.orderly inp = true) :
    CapturesOnce uncached nAcq s inp ∧ Distinct uncached nAcq (s.cycle uncached nAcq inp)
      ↔ Undisturbed uncached nAcq s inp := by
  constructor
  · rintro ⟨captures, distinct⟩
    exact ⟨orderly, fun _ => ⟨captures.apart, tracked.unshared_of_distinct orderly captures.apart distinct⟩⟩
  · intro undisturbed
    obtain ⟨apart, unshared⟩ := undisturbed.conditions
    exact ⟨tracked.frontEndRight.captures inp undisturbed, (tracked.cycle orderly apart unshared).distinct⟩

/-- Undisturbed runs lose nothing, and no other cycle could follow them without a loss or two
trackers on one block. -/
theorem undisturbed_runs_lose_nothing (uncached : Bool) (nAcq : Nat) (reset : s.OnReset)
    (run : Steps (step uncached nAcq) (Undisturbed uncached nAcq) s t) :
    FrontEndRight uncached nAcq (Undisturbed uncached nAcq) t
    ∧ ∀ inp, t.orderly inp = true → (CapturesOnce uncached nAcq t inp
      ∧ Distinct uncached nAcq (t.cycle uncached nAcq inp) ↔ Undisturbed uncached nAcq t inp) := by
  have tracked : Tracked uncached nAcq t := run.invariant reset.tracked fun tracked undisturbed fired => by
    cases fired
    exact tracked.cycle undisturbed.1 undisturbed.conditions.1 undisturbed.conditions.2
  exact ⟨tracked.frontEndRight, fun inp orderly => tracked.undisturbed_iff orderly⟩

end FrontEnd

/-! A block is put while releases are served. -/

namespace FrontEnd

def frontConfig : Config := ⟨⟨4, 512, 2 ^ 27, 2 ^ 30, 64⟩, 1, 1, 2, 1⟩

def resetFrontEnd : FrontEnd frontConfig where
  acq _ := ⟨.idle, .idle, false, .topDown, 0, false, false, true, true, true, .get, 0, ⟨0, 0, 0⟩, fun _ => 0, fun _ => 0,
    fun _ => false, 0, 0, 0, 0, 0, 0, true⟩
  rel := ⟨.idle, .idle, false, .topDown, 0, false, false, true, true, true, 0, 0, fun _ => 0, 0, 0⟩
  acqOpen := none
  relOpen := none

theorem resetFrontEnd_onReset : resetFrontEnd.OnReset :=
  ⟨fun _ => ⟨rfl, rfl, rfl⟩, ⟨rfl, rfl, rfl⟩, rfl, rfl⟩

def frontCycle (acquire : Option (AcquireBeat frontConfig)) (release : Option (ReleaseBeat frontConfig)) :
    FrontInput frontConfig where
  acquire := acquire
  release := release
  acqEnv _ := ⟨none, true, false, true, none, true, none, .topDown⟩
  relEnv := ⟨none, true, true, false, true, none, .topDown⟩

def putBeatOf (block beat : Nat) : AcquireBeat frontConfig := ⟨.putBlock, block, beat, 0, 0, 0, false, ⟨0, 0, 0⟩⟩
def releaseOf (block : Nat) : ReleaseBeat frontConfig := ⟨false, block, 0, 0, 0⟩

def putBlockEvents : List (FrontInput frontConfig) :=
  frontCycle (some (putBeatOf 7 0)) (some (releaseOf 9))
    :: (List.range 7).map fun k => frontCycle (some (putBeatOf 7 (k + 1))) none

/-- All beats go to the first tracker, next to a release of another block. -/
theorem undisturbed_runs_lose_nothing_of_putBlock : ∃ t : FrontEnd frontConfig, (t.acq 0).mtState = .oacq
    ∧ t.rel.addrBlock = 9 ∧ FrontEndRight false 2 (Undisturbed false 2) t := by
  have ran : (execGuarded (step false 2) (fun s e => decide (Undisturbed false 2 s e)) resetFrontEnd putBlockEvents).map
      (fun t => ((t.acq 0).mtState, t.rel.addrBlock)) = some (.oacq, 9) := by decide +kernel
  obtain ⟨t, ran, result⟩ := Option.map_eq_some_iff.mp ran
  simp only [Prod.mk.injEq] at result
  have run := (steps_of_execGuarded ran).mono fun _ _ admitted => of_decide_eq_true admitted
  exact ⟨t, result.1, result.2, (undisturbed_runs_lose_nothing false 2 resetFrontEnd_onReset run).1⟩

/-- An acquire and a release for block 7 in the first cycle: the acquire is accepted and lost. -/
theorem not_frontEndRight_conflict : ¬ ∀ (uncached : Bool) (nAcq : Nat) (s t : FrontEnd frontConfig), s.OnReset →
    Steps (step uncached nAcq) (fun s inp => s.orderly inp = true) s t →
      FrontEndRight uncached nAcq (fun s inp => s.orderly inp = true) t := by
  intro always
  have right := always false 1 resetFrontEnd resetFrontEnd resetFrontEnd_onReset (.refl _)
  let inp := frontCycle (some ⟨.get, 7, 0, 0, 0, 0, false, ⟨0, MT_Q, M_XRD⟩⟩) (some (releaseOf 7))
  have accepted : (resetFrontEnd.acquireFire false 1 inp).isSome = true := by decide +kernel
  obtain ⟨b, fired⟩ := Option.isSome_iff_exists.mp accepted
  obtain ⟨i, inside, taken, -⟩ := (right.captures inp (by decide +kernel)).acquire b fired
  have lost : ∀ i < 1, (resetFrontEnd.acquiredBy false 1 inp i).isSome = false := by decide +kernel
  have none' := lost i inside
  rw [taken] at none'
  cases none'

end FrontEnd

end LowRisc.TagCache
