import LowRisc.TagCache.LockTable

/-! Runs of the lock table.

Requests are held back when a bank takes them and locks are set when it is done with them. In
between no other request for the lock gets to a bank, because all of them are for the same row.
-/

set_option autoImplicit false

namespace LowRisc.TagCache

open LowRisc.Chisel LowRisc.Lib

variable {c : Config}

namespace Log

variable {l l' : Log c}

theorem finishing_congr {i m : Nat} {key : Nat × Nat} (origin : l'.origin i = l.origin i)
    (tag : l'.state.tag i = l.state.tag i) : l'.Finishing i m key ↔ l.Finishing i m key := by
  unfold Finishing
  rw [origin, tag]

theorem holding_congr {m : Nat} {key : Nat × Nat} (mem : l'.state.mem m = l.state.mem m) :
    l'.Holding m key ↔ l.Holding m key := by
  unfold Holding
  rw [mem]

theorem Sited.tag_spec (sited : l.Sited) {i way : Nat} (calm : l.misleads (.tag i way) = false)
    (fired : l.step (.tag i way) = some l') : Resting l l' ∧ (∀ j, j ≠ i → l'.state.tag j = l.state.tag j) ∧
      (l'.state.mem = l.state.mem ∧ (∀ m, l.origin i = some m → ((l'.state.tag i).Awaits ↔ (l.state.tag i).Awaits))
        ∨ ∃ m, l.origin i = some m ∧ (l.state.tag i).responds = true ∧ ¬(l'.state.tag i).Awaits
          ∧ l'.state.mem = upd l.state.mem m ((l.state.mem m).tcResp (l.state.tag i).resp)) := by
  have moved := step_state fired
  obtain ⟨⟨t, tag, xact, awaits⟩, -, mem⟩ := State.stepTag_cases (s := l.state) moved
  have origin : l'.origin = l.origin := by
    obtain ⟨s', -, result⟩ := Option.map_eq_some_iff.mp fired
    rw [← result]
    simp only
    split <;> rfl
  have others : ∀ j, j ≠ i → l'.state.tag j = l.state.tag j := by
    intro j other
    rw [tag, upd_of_ne other]
  -- the bank keeps its request, whatever it does
  have here : l'.state.tag i = t := by rw [tag, upd_same]
  refine ⟨⟨origin, fun j => ?_⟩, others, ?_⟩
  · by_cases same : j = i
    · subst same
      rw [here]
      exact ⟨fun waits => (awaits.mp waits).1, xact⟩
    · rw [others j same]
      exact ⟨id, rfl⟩
  · rw [here]
    by_cases answer : (l.state.tag i).responds = true ∧ l.state.initialising i = false
    · simp only [State.memAfter, answer, Bool.not_false, Bool.and_self, if_true] at mem
      cases own : l.origin i with
      -- a create is answered to a tracker that is idle and does not listen
      | none =>
        have idle : (l.target i).tcState = .idle := by simpa [misleads, State.delivers, answer, own] using calm
        refine .inl ⟨?_, by simp⟩
        rw [mem]
        funext n
        by_cases target : n = (l.state.tag i).xact.id
        · rw [target, upd_same]
          exact MemXactTracker.tcResp_of_idle idle _
        · rw [upd_of_ne target]
      | some m =>
        rw [sited.named i m own] at mem
        exact .inr ⟨m, rfl, answer.1, by rw [awaits, answer.1]; simp, mem⟩
    -- no answer goes out, also because the bank still creates
    · refine .inl ⟨?_, fun m own => ?_⟩
      · rw [mem, State.memAfter, if_neg]
        simpa using answer
      · have silent : (l.state.tag i).responds = false := by
          by_contra responds
          exact answer ⟨by simpa using responds, sited.inv.ready i m own⟩
        rw [awaits, silent]
        simp

theorem Sited.answer_cases (sited : l.Sited) (admissible : c.Admissible) {i m : Nat} (own : l.origin i = some m)
    (waits : (l.state.tag i).Awaits) (mem : l'.state.mem = upd l.state.mem m ((l.state.mem m).tcResp (l.state.tag i).resp)) :
    c.tg.isMap (l.state.tag i).xact.addr = false ∧ (∀ n key, l'.Holding n key ↔ l.Holding n key) ∨
    c.tg.isMap (l.state.tag i).xact.addr = true ∧ (l.state.tag i).xact.op.isLock = true
      ∧ (∀ n key, l'.Holding n key ↔ l.Holding n key ∨ n = m ∧ key = c.lockKey (l.state.tag i).xact) ∨
    c.tg.isMap (l.state.tag i).xact.addr = true ∧ (l.state.tag i).xact.op.isLock = false
      ∧ ((l.state.tag i).xact.op.isWrite = true → l.Holding m (c.lockKey (l.state.tag i).xact))
      ∧ (∀ n key, l'.Holding n key ↔ l.Holding n key ∧ ¬(n = m ∧ key = c.lockKey (l.state.tag i).xact)) := by
  obtain ⟨⟨busy, -⟩, request⟩ := sited.inv.asked i m own waits
  have tagged := (sited.tagged m busy).2
  have there : ∀ n key, n ≠ m → (l'.Holding n key ↔ l.Holding n key) := by
    intro n key other
    apply holding_congr
    rw [mem, upd_of_ne other]
  have here : ∀ key, l'.Holding m key ↔ ((l.state.mem m).tcResp (l.state.tag i).resp).Locked key := by
    intro key
    unfold Holding
    rw [mem, upd_same]
  rw [request]
  unfold State.tcReq
  cases map : c.tg.isMap ((l.state.mem m).tcReq m).addr with
  | false =>
    -- a request beside the maps is not made on any level of the tag side
    have none' : (l.state.mem m).tcState.level = none := by
      cases on : (l.state.mem m).tcState.level with
      | none => rfl
      | some level =>
        rw [MemXactTracker.isMap_of_level admissible tagged m on] at map
        cases map
    refine .inl ⟨rfl, fun n key => ?_⟩
    by_cases same : n = m
    · rw [same, here]
      exact MemXactTracker.locked_tcResp none' _ key
    · exact there n key same
  | true =>
    obtain ⟨level, on, -⟩ := MemXactTracker.level_of_isMap admissible tagged busy map
    rw [lockKey_tcReq (l.state.mem m) m on]
    cases lock : ((l.state.mem m).tcReq m).op.isLock with
    -- the first request on a level takes the lock, from its answer on
    | true =>
      refine .inr (.inl ⟨rfl, rfl, fun n key => ?_⟩)
      by_cases same : n = m
      · rw [same, here, MemXactTracker.locked_opening (MemXactTracker.opening_of_isLock lock on)]
        simp only [true_and]
        rfl
      · rw [there n key same]
        simp [same]
    | false =>
      -- any other request on the level is the last one and gives the lock back
      have other : (l.state.mem m).tcState ≠ level.opening := by
        intro opening
        rw [MemXactTracker.isLock_of_opening opening] at lock
        cases lock
      refine .inr (.inr ⟨rfl, rfl, fun write => ?_, fun n key => ?_⟩)
      · exact MemXactTracker.locked_of_closing (MemXactTracker.closing_of_isWrite write on)
      · by_cases same : n = m
        · rw [same, here, MemXactTracker.locked_closing admissible tagged on other]
          simp only [true_and]
          rfl
        · rw [there n key same]
          simp [same]

/-- A create that robs nobody leaves the table as it is. -/
theorem Kept.unlock_of_robs (kept : l.Kept) {i way : Nat} (own : l.origin i = none) (mine : l.robs (.tag i way) = false)
    (state : (l.state.tag i).state = .l) (map : c.tg.isMap (l.state.tag i).xact.addr = true)
    (lock : (l.state.tag i).xact.op.isLock = false) : (l.state.unlock (l.state.tag i).xact).locks = l.state.locks := by
  funext j
  simp only [State.unlock]
  rw [if_neg]
  rintro ⟨locked, id, addr, lindex⟩
  have key : (l.state.locks j).key = c.lockKey (l.state.tag i).xact := Prod.ext addr lindex
  have frees : l.frees i j = true := by simp [Log.frees, state, map, lock, locked, id, key]
  simp only [robs, own, Option.isNone_none, Bool.true_and, List.any_eq_false] at mine
  exact mine j (List.mem_range.mpr (kept.within j locked)) frees

theorem Sited.effect_finish (sited : l.Sited) (admissible : c.Admissible) (kept : l.Kept) {i way : Nat} {locked : State c}
    (calm : l.misleads (.tag i way) = false) (mine : l.robs (.tag i way) = false) (fired : l.step (.tag i way) = some l')
    (state : (l.state.tag i).state = .l) (idle : (l'.state.tag i).state = .idle)
    (table : l.state.lockTable (l.state.tag i).xact = some locked) (locks : l'.state.locks = locked.locks) : Effect l l' i := by
  obtain ⟨⟨origin, -⟩, others, answer⟩ := sited.tag_spec calm fired
  have elsewhere : ∀ j n key, j ≠ i → (l'.Finishing j n key ↔ l.Finishing j n key) := by
    intro j n key other
    exact finishing_congr (by rw [origin]) (others j other)
  have gone : ∀ n key, ¬l'.Finishing i n key := fun n key finishing => finishing.2.1 idle
  have unchanged : (∀ n key, ¬l.Finishing i n key) → ∀ j n key, l'.Finishing j n key ↔ l.Finishing j n key := by
    intro before j n key
    by_cases same : j = i
    · subst same
      exact iff_of_false (gone n key) (before n key)
    · exact elsewhere j n key same
  have finished : ∀ j n key, l'.Finishing j n key ↔ l.Finishing j n key ∧ j ≠ i := by
    intro j n key
    by_cases same : j = i
    · subst same
      exact iff_of_false (gone n key) fun before => before.2 rfl
    · rw [elsewhere j n key same]
      simp [same]
  rcases answer with ⟨mem, awaits⟩ | ⟨m, own, responds, done, mem⟩
  · have holding : ∀ n key, l'.Holding n key ↔ l.Holding n key := fun n key => holding_congr (by rw [mem])
    cases own : l.origin i with
    | none =>
      have create := sited.created i own (by rw [state]; exact TagState.noConfusion)
      have lock : (l.state.tag i).xact.op.isLock = false := by rw [create]; rfl
      refine .quiet ?_ (unchanged fun n key before => ?_) holding
      · rw [locks]
        cases map : c.tg.isMap (l.state.tag i).xact.addr with
        | false => exact State.lockTable_of_not_isMap table map
        | true => rw [State.lockTable_of_not_isLock table map lock, kept.unlock_of_robs own mine state map lock]
      · rw [before.1] at own
        cases own
    | some m =>
      have answered : ¬(l.state.tag i).Awaits := fun waits => ((awaits m own).mpr waits).1 idle
      have write : (l.state.tag i).xact.op.isWrite = true := by
        by_contra other
        exact answered ⟨by rw [state]; exact TagState.noConfusion, fun write => absurd write other⟩
      cases map : c.tg.isMap (l.state.tag i).xact.addr with
      | false =>
        refine .quiet ?_ (unchanged fun n key before => ?_) holding
        · rw [locks, State.lockTable_of_not_isMap table map]
        · rw [before.2.2.2.1] at map
          cases map
      | true =>
        refine .closed m own map ?_ finished fun n key => ?_
        · rw [locks, State.lockTable_of_not_isLock table map (TCTagOp.not_isLock_of_isWrite write)]
        · -- the lock was given back with the answer
          rw [holding]
          refine ⟨fun held => ⟨held, ?_⟩, fun held => held.1⟩
          rintro ⟨rfl, rfl⟩
          exact sited.parted i n _ ⟨own, by rw [state]; exact TagState.noConfusion, answered, map, rfl⟩ held
  · have waits := TagXactTracker.awaits_of_responds responds
    -- the answer comes with the step, so the bank was not finishing before
    have before : ∀ n key, ¬l.Finishing i n key := fun n key finishing => finishing.2.2.1 waits
    rcases sited.answer_cases admissible own waits mem with ⟨map, holding⟩ | ⟨map, lock, holding⟩ | ⟨map, lock, -, holding⟩
    · exact .quiet (by rw [locks, State.lockTable_of_not_isMap table map]) (unchanged before) holding
    · obtain ⟨j, free, set⟩ := State.lockTable_of_isLock table map lock
      exact .opened m j own map lock waits done free (by rw [locks, set]) (unchanged before) holding
    · exact .closed m own map (by rw [locks, State.lockTable_of_not_isLock table map lock]) finished holding

theorem Sited.effect_tag (sited : l.Sited) (admissible : c.Admissible) (kept : l.Kept) {i way : Nat}
    (calm : l.misleads (.tag i way) = false) (mine : l.robs (.tag i way) = false)
    (fired : l.step (.tag i way) = some l') : Effect l l' i := by
  rcases State.stepTag_locks (step_state fired) with ⟨state, idle, locked, table, locks⟩ | ⟨state, busy, busy', locks⟩
  · exact sited.effect_finish admissible kept calm mine fired state idle table locks
  · obtain ⟨⟨origin, resting⟩, others, answer⟩ := sited.tag_spec calm fired
    have elsewhere : ∀ j n key, j ≠ i → (l'.Finishing j n key ↔ l.Finishing j n key) := by
      intro j n key other
      exact finishing_congr (by rw [origin]) (others j other)
    -- no answer in this step
    rcases answer with ⟨mem, awaits⟩ | ⟨m, own, responds, done, mem⟩
    · refine .quiet locks (fun j n key => ?_) fun n key => holding_congr (by rw [mem])
      by_cases same : j = i
      · subst same
        unfold Finishing
        rw [origin, (resting j).2]
        refine and_congr_right fun own => ?_
        rw [awaits n own]
        simp [busy, busy']
      · exact elsewhere j n key same
    · have waits := TagXactTracker.awaits_of_responds responds
      have before : ∀ n key, ¬l.Finishing i n key := fun n key finishing => finishing.2.2.1 waits
      -- at its metadata a bank answers writes only
      have write : (l.state.tag i).xact.op.isWrite = true := by
        by_contra other
        simp only [TagXactTracker.responds, other, decide_eq_true_eq] at responds
        exact state responds
      rcases sited.answer_cases admissible own waits mem with ⟨map, holding⟩ | ⟨-, lock, -⟩ | ⟨map, -, held, holding⟩
      · refine .quiet locks (fun j n key => ?_) holding
        by_cases same : j = i
        · subst same
          refine iff_of_false (fun finishing => ?_) (before n key)
          have map' := finishing.2.2.2.1
          rw [(resting j).2, map] at map'
          cases map'
        · exact elsewhere j n key same
      -- a write locks nothing
      · rw [TCTagOp.not_isLock_of_isWrite write] at lock
        cases lock
      -- the lock passes from the tracker to the bank, which frees it later
      · refine .passed m _ locks (held write) (fun j n key => ?_) holding
        by_cases same : j = i
        · subst same
          unfold Finishing
          rw [origin, (resting j).2, own]
          simp only [busy', done, map, ne_eq, not_false_eq_true, true_and, Option.some.injEq, waits, not_true_eq_false,
            false_and, and_false, false_or]
          exact and_congr_left fun _ => eq_comm
        · rw [elsewhere j n key same]
          simp [same]

/-! Steps beside the banks. -/

/-- The memory side of a transaction leaves its tag side alone. -/
theorem stepMt_kept {s s' : State c} {m : Nat} {source target : MtState} (moved : s.stepMt m source target = some s') :
    s'.locks = s.locks ∧ s'.tag = s.tag ∧
      ∀ n, (s'.mem n).tcState = (s.mem n).tcState ∧ (s'.mem n).memAddr = (s.mem n).memAddr := by
  unfold State.stepMt at moved
  split at moved
  · rw [Option.some.injEq] at moved
    rw [← moved]
    refine ⟨rfl, rfl, fun n => ?_⟩
    by_cases same : n = m
    · subst same
      simp [State.setMem]
    · simp [State.setMem, same]
  · cases moved

/-- The write-back unit moves one tracker on, without its request. -/
theorem retagged {old tag : Nat → TagXactTracker} {k : Nat} {t : TagXactTracker} (moved : tag = upd old k t)
    (awaits : t.Awaits ↔ (old k).Awaits) (xact : t.xact = (old k).xact) (idle : t.state = .idle ↔ (old k).state = .idle)
    (i : Nat) : ((tag i).Awaits ↔ (old i).Awaits) ∧ (tag i).xact = (old i).xact ∧
      ((tag i).state = .idle ↔ (old i).state = .idle) := by
  subst moved
  by_cases same : i = k
  · subst same
    rw [upd_same]
    exact ⟨awaits, xact, idle⟩
  · rw [upd_of_ne same]
    exact ⟨Iff.rfl, rfl, Iff.rfl⟩

theorem aside_cases {e : Event c} (fired : l.step e = some l') (other : ∀ i, e ≠ .accept i) (other' : ∀ i way, e ≠ .tag i way) :
    l'.origin = l.origin ∧ l'.state.locks = l.state.locks ∧
      (∀ i, ((l'.state.tag i).Awaits ↔ (l.state.tag i).Awaits) ∧ (l'.state.tag i).xact = (l.state.tag i).xact
        ∧ ((l'.state.tag i).state = .idle ↔ (l.state.tag i).state = .idle)) ∧
      ∀ m, ((l'.state.mem m).tcState = (l.state.mem m).tcState ∧ (l'.state.mem m).memAddr = (l.state.mem m).memAddr) ∨
        ((l.state.mem m).tcState = .idle ∧ (m < c.nMemTransactors ∧ c.tg.Tagged (l'.state.mem m).memAddr) ∧
          ∀ level, (l'.state.mem m).tcState.holds level = false) := by
  have origin : l'.origin = l.origin := by
    obtain ⟨s', -, result⟩ := Option.map_eq_some_iff.mp fired
    rw [← result]
    cases e with
    | accept i => exact absurd rfl (other i)
    | tag i way => exact absurd rfl (other' i way)
    | _ => rfl
  have moved := step_state fired
  refine ⟨origin, ?_⟩
  have still : ∀ i, ((l.state.tag i).Awaits ↔ (l.state.tag i).Awaits) ∧ (l.state.tag i).xact = (l.state.tag i).xact
      ∧ ((l.state.tag i).state = .idle ↔ (l.state.tag i).state = .idle) := fun i => ⟨Iff.rfl, rfl, Iff.rfl⟩
  cases e with
  | accept i => exact absurd rfl (other i)
  | tag i way => exact absurd rfl (other' i way)
  | outerAcquire m | outerGrant m | innerGrant m =>
    obtain ⟨locks, tag, mem⟩ := stepMt_kept moved
    rw [tag]
    exact ⟨locks, still, fun n => .inl (mem n)⟩
  | acquire m req order =>
    simp only [State.step, State.stepAcquire] at moved
    split at moved
    · rename_i ready
      have free := List.find?_some ready.2.2
      simp only [State.acquireReady, Bool.and_eq_true, decide_eq_true_eq] at free
      rw [Option.some.injEq] at moved
      rw [← moved]
      -- only a tracker at rest is allocated, and its first tag state has no lock
      refine ⟨rfl, still, fun n => ?_⟩
      by_cases same : n = m
      · subst same
        simp only [State.setMem, upd_same]
        refine .inr ⟨free.2, ⟨List.mem_range.mp (List.mem_of_find?_eq_some ready.2.2), ready.1⟩, fun level => ?_⟩
        cases order <;> cases level <;> rfl
      · simp [State.setMem, same]
    · cases moved
  | wbReq i =>
    simp only [State.step, State.stepWbReq] at moved
    split at moved
    · rw [Option.some.injEq] at moved
      rw [← moved]
      exact ⟨rfl, retagged (t := { l.state.tag i with wbSent := true }) rfl Iff.rfl rfl Iff.rfl, fun n => .inl ⟨rfl, rfl⟩⟩
    · cases moved
  | wb =>
    simp only [State.step, State.stepWb] at moved
    split at moved
    · cases moved
    · rw [Option.some.injEq] at moved
      rw [← moved]
      exact ⟨rfl, still, fun n => .inl ⟨rfl, rfl⟩⟩
    · rw [Option.some.injEq] at moved
      rw [← moved]
      exact ⟨rfl, still, fun n => .inl ⟨rfl, rfl⟩⟩
    · split at moved
      · rename_i waits
        rw [Option.some.injEq] at moved
        rw [← moved]
        refine ⟨rfl, retagged (t := (l.state.tag l.state.wb.id).enterF) rfl ?_ ?_ ?_, fun n => .inl ⟨rfl, rfl⟩⟩
        · simp [TagXactTracker.Awaits, waits]
        · exact TagXactTracker.enterF_xact _
        · simp [waits]
      · rw [Option.some.injEq] at moved
        rw [← moved]
        exact ⟨rfl, still, fun n => .inl ⟨rfl, rfl⟩⟩
    · rw [Option.some.injEq] at moved
      rw [← moved]
      exact ⟨rfl, still, fun n => .inl ⟨rfl, rfl⟩⟩

theorem Sited.aside (sited : l.Sited) (admissible : c.Admissible) {e : Event c} (fired : l.step e = some l')
    (other : ∀ i, e ≠ .accept i) (other' : ∀ i way, e ≠ .tag i way) (inv : l'.Inv) : l'.Sited ∧ Effect l l' 0 ∧ Resting l l' := by
  obtain ⟨origin, locks, tag, mem⟩ := aside_cases fired other other'
  have effect : Effect l l' 0 := by
    refine .quiet locks (fun i m key => ?_) fun m key => ?_
    · obtain ⟨awaits, xact, idle⟩ := tag i
      unfold Finishing
      rw [origin, awaits, xact, ne_eq, ne_eq, idle]
    · unfold Holding
      rcases mem m with ⟨state, addr⟩ | ⟨idle, -, none'⟩
      · unfold MemXactTracker.Locked
        rw [state, addr]
      · refine iff_of_false ?_ fun locked => locked.busy idle
        rintro ⟨level, holds, -⟩
        rw [none' level] at holds
        cases holds
  refine ⟨⟨inv, fun m busy => ?_, fun i m own => ?_, fun i m own map => ?_, fun i own busy => ?_, fun i m key finishing => ?_⟩,
    effect, origin, fun i => ⟨(tag i).1.mp, (tag i).2.1⟩⟩
  · rcases mem m with ⟨state, addr⟩ | ⟨-, tagged, -⟩
    · rw [state] at busy
      rw [addr]
      exact sited.tagged m busy
    · exact tagged
  · rw [origin] at own
    rw [(tag i).2.1]
    exact sited.named i m own
  · rw [origin] at own
    rw [(tag i).2.1] at map ⊢
    exact sited.placed i m own map
  · rw [origin] at own
    rw [(tag i).2.1]
    exact sited.created i own fun idle => busy ((tag i).2.2.mpr idle)
  · exact sited.parted_step admissible effect finishing

/-! A bank takes a request. -/

theorem accept_spec {i : Nat} (fired : l.step (.accept i) = some l') :
    (l.state.tag i).state = .idle ∧ (l'.state.tag i).Awaits ∧ l'.state.locks = l.state.locks
      ∧ (∀ j, j ≠ i → l'.state.tag j = l.state.tag j ∧ l'.origin j = l.origin j)
      ∧ (∀ n, (l'.state.mem n).tcState = (l.state.mem n).tcState ∧ (l'.state.mem n).memAddr = (l.state.mem n).memAddr)
      ∧ (l'.origin i = none ∧ (l'.state.tag i).xact.op = .c
        ∨ ∃ m, l'.origin i = some m ∧ (l'.state.tag i).xact = l.state.tcReq m ∧ l.state.presents i m = true) := by
  obtain ⟨s', moved, result⟩ := Option.map_eq_some_iff.mp fired
  rw [← result]
  simp only [State.step, State.stepAccept] at moved
  split at moved
  · rename_i free
    cases init : l.state.initialising i with
    -- a create of the initiator
    | true =>
      rw [if_pos init, Option.some.injEq] at moved
      rw [← moved]
      refine ⟨free.2, ?_, rfl, fun j other => ⟨upd_of_ne other, upd_of_ne other⟩, fun n => ⟨rfl, rfl⟩, .inl ⟨?_, ?_⟩⟩
      · simp [State.setTag, TagXactTracker.accept, TagXactTracker.Awaits]
      · simp [taken, init]
      · simp [State.setTag, TagXactTracker.accept, State.initReq]
    | false =>
      rw [if_neg (by simp [init])] at moved
      -- the request of the tracker that the arbiter has chosen
      split at moved
      · rename_i presented
        rw [Option.some.injEq] at moved
        rw [← moved]
        refine ⟨free.2, ?_, rfl, fun j other => ⟨upd_of_ne other, upd_of_ne other⟩, fun n => ?_,
          .inr ⟨l.state.chosen i, ?_, ?_, presented⟩⟩
        · simp [State.setTag, State.setMem, TagXactTracker.accept, TagXactTracker.Awaits]
        · by_cases same : n = l.state.chosen i
          · subst same
            simp [State.setTag, State.setMem]
          · simp [State.setTag, State.setMem, same]
        · simp [taken, init]
        · simp [State.setTag, State.setMem, TagXactTracker.accept]
      · cases moved
  · cases moved

theorem Sited.presented (sited : l.Sited) (admissible : c.Admissible) {i m : Nat} (presents : l.state.presents i m = true)
    (map : c.tg.isMap (l.state.tcReq m).addr = true) : ∃ level, (l.state.mem m).tcState.level = some level
      ∧ c.tg.Tagged (l.state.mem m).memAddr ∧ level.key c (l.state.mem m).memAddr = c.lockKey (l.state.tcReq m)
      ∧ c.bankOf (Config.blockOf (level.addr c (l.state.mem m).memAddr)) = i := by
  simp only [State.presents, MemXactTracker.tcReqValid, Bool.and_eq_true, decide_eq_true_eq] at presents
  obtain ⟨⟨⟨busy, -⟩, -⟩, bank⟩ := presents
  have tagged := (sited.tagged m busy).2
  obtain ⟨level, on, addr⟩ := MemXactTracker.level_of_isMap admissible tagged busy map
  refine ⟨level, on, tagged, (lockKey_tcReq (l.state.mem m) m on).symm, ?_⟩
  rw [← addr]
  exact bank

/-- A tracker that presents a lock request has no such lock, and nobody else has. -/
theorem Sited.unlocked (sited : l.Sited) (admissible : c.Admissible) (kept : l.Kept) {i m : Nat}
    (idle : (l.state.tag i).state = .idle) (presents : l.state.presents i m = true)
    (lock : (l.state.tcReq m).op.isLock = true) (map : c.tg.isMap (l.state.tcReq m).addr = true) (n : Nat) :
    ¬l.Due n (c.lockKey (l.state.tcReq m)) := by
  intro owed
  obtain ⟨level, on, tagged, key, bank⟩ := sited.presented admissible presents map
  by_cases same : n = m
  · subst same
    rcases owed with ⟨level', holds, key'⟩ | ⟨j, own, busy, -, map', key'⟩
    · obtain rfl := (admissible.key_inj tagged tagged (key.trans key'.symm)).1
      rw [MemXactTracker.opening_of_isLock lock on] at holds
      cases level <;> cases holds
    · obtain ⟨level', a, tagged', key'', bank'⟩ := sited.placed j n own map'
      have rows := (admissible.key_inj tagged tagged' (by rw [key, key'', key'])).2
      rw [← rows, bank] at bank'
      rw [← bank'] at busy
      exact busy idle
  · obtain ⟨j, entry⟩ := kept.entry n _ owed
    have bound := kept.within j (by rw [entry])
    simp only [State.presents, Bool.and_eq_true, State.tcReqUnblock, map, Bool.not_true, Bool.false_or, Bool.not_eq_true',
      List.any_eq_false] at presents
    refine presents.1.2 j (List.mem_range.mpr bound) ?_
    rw [entry]
    simp [State.blockedBy, Config.lockKey, State.tcReq, same]

theorem Sited.accept (sited : l.Sited) (admissible : c.Admissible) (kept : l.Kept) {i : Nat}
    (fired : l.step (.accept i) = some l') (inv : l'.Inv) : l'.Sited ∧ l'.Kept := by
  obtain ⟨idle, waits, locks, others, mem, taken⟩ := accept_spec fired
  have holding : ∀ m key, l'.Holding m key ↔ l.Holding m key := by
    intro m key
    unfold Holding MemXactTracker.Locked
    rw [(mem m).1, (mem m).2]
  have finishing : ∀ j m key, l'.Finishing j m key ↔ l.Finishing j m key := by
    intro j m key
    by_cases same : j = i
    · subst same
      exact iff_of_false (fun after => after.2.2.1 waits) fun before => before.2.1 idle
    · exact finishing_congr (others j same).2 (others j same).1
  -- an accepted request changes no lock, only who is to be answered
  have effect : Effect l l' i := .quiet locks finishing holding
  have due : ∀ n key, l'.Due n key ↔ l.Due n key := by
    intro n key
    unfold Due
    simp only [holding, finishing]
  constructor
  · refine ⟨inv, fun m busy => ?_, fun j m own => ?_, fun j m own map => ?_, fun j own busy => ?_, fun j m key finish => ?_⟩
    · rw [(mem m).1] at busy
      rw [(mem m).2]
      exact sited.tagged m busy
    · by_cases same : j = i
      · subst same
        rcases taken with ⟨nobody, -⟩ | ⟨n, own', request, -⟩
        · rw [nobody] at own
          cases own
        · rw [own'] at own
          rw [request, ← Option.some.inj own]
          exact MemXactTracker.tcReq_id _ _
      · rw [(others j same).2] at own
        rw [(others j same).1]
        exact sited.named j m own
    · by_cases same : j = i
      · subst same
        rcases taken with ⟨nobody, -⟩ | ⟨n, own', request, presents⟩
        · rw [nobody] at own
          cases own
        · rw [request] at map ⊢
          obtain ⟨level, -, tagged, key, bank⟩ := sited.presented admissible presents map
          exact ⟨level, _, tagged, key, bank⟩
      · rw [(others j same).2] at own
        rw [(others j same).1] at map ⊢
        exact sited.placed j m own map
    · by_cases same : j = i
      · subst same
        rcases taken with ⟨-, create⟩ | ⟨n, own', -⟩
        · exact create
        · rw [own'] at own
          cases own
      · rw [(others j same).2] at own
        rw [(others j same).1] at busy ⊢
        exact sited.created j own busy
    · exact sited.parted_step admissible effect finish
  · refine kept.same (fun j m own waits' lock map n owed => ?_) locks due
    rw [due] at owed
    by_cases same : j = i
    · subst same
      rcases taken with ⟨nobody, -⟩ | ⟨n', -, request, presents⟩
      · rw [nobody] at own
        cases own
      · rw [request] at lock map owed
        exact sited.unlocked admissible kept idle presents lock map n owed
    · rw [(others j same).2] at own
      rw [(others j same).1] at waits' lock map owed
      exact kept.fresh j m own waits' lock map n owed

theorem Sited.tag (sited : l.Sited) (admissible : c.Admissible) (kept : l.Kept) {i way : Nat}
    (calm : l.misleads (.tag i way) = false) (mine : l.robs (.tag i way) = false)
    (fired : l.step (.tag i way) = some l') (inv : l'.Inv) : l'.Sited ∧ l'.Kept := by
  have effect := sited.effect_tag admissible kept calm mine fired
  obtain ⟨rest, others, answer⟩ := sited.tag_spec calm fired
  refine ⟨⟨inv, fun m busy => ?_, fun j m own => ?_, fun j m own map => ?_, fun j own busy => ?_, fun j m key finish => ?_⟩,
    kept.rest sited admissible effect rest⟩
  · rcases answer with ⟨mem, -⟩ | ⟨n, -, -, -, mem⟩
    · rw [mem] at busy ⊢
      exact sited.tagged m busy
    · by_cases same : m = n
      · subst same
        rw [mem, upd_same] at busy ⊢
        rw [MemXactTracker.memAddr_tcResp]
        refine sited.tagged m fun idle => busy ?_
        rw [MemXactTracker.tcResp_of_idle idle, idle]
      · rw [mem, upd_of_ne same] at busy ⊢
        exact sited.tagged m busy
  · rw [rest.1] at own
    rw [(rest.2 j).2]
    exact sited.named j m own
  · rw [rest.1] at own
    rw [(rest.2 j).2] at map ⊢
    exact sited.placed j m own map
  · rw [rest.1] at own
    rw [(rest.2 j).2]
    apply sited.created j own
    by_cases same : j = i
    · subst same
      rcases State.stepTag_locks (step_state fired) with ⟨state, -⟩ | ⟨-, before, -⟩
      · rw [state]
        exact TagState.noConfusion
      · exact before
    · rwa [others j same] at busy
  · exact sited.parted_step admissible effect finish

theorem Sited.step (sited : l.Sited) (admissible : c.Admissible) (kept : l.Kept) {e : Event c} (calm : l.misleads e = false)
    (mine : l.robs e = false) (fired : l.step e = some l') : l'.Sited ∧ l'.Kept := by
  have inv := sited.inv.step calm fired
  have aside : (∀ i, e ≠ .accept i) → (∀ i way, e ≠ .tag i way) → l'.Sited ∧ l'.Kept := by
    intro other other'
    obtain ⟨sited', effect, rest⟩ := sited.aside admissible fired other other' inv
    exact ⟨sited', kept.rest sited admissible effect rest⟩
  cases e with
  | accept i => exact sited.accept admissible kept fired inv
  | tag i way => exact sited.tag admissible kept calm mine fired inv
  | _ => exact aside (fun i => by simp) fun i way => by simp

theorem OnReset.sited (reset : l.OnReset) : l.Sited where
  inv := reset.inv
  tagged m busy := absurd (reset.state.mem m).2.1 busy
  named i m own := by
    rw [reset.origin] at own
    cases own
  placed i m own := by
    rw [reset.origin] at own
    cases own
  created i _ busy := absurd (reset.state.tag i) busy
  parted i m key finishing := absurd (reset.state.tag i) finishing.2.1

theorem OnReset.kept (reset : l.OnReset) : l.Kept := by
  have unlocked : ∀ j, (l.state.locks j).lock ≠ true := fun j => by simp [reset.state.locks j]
  refine ⟨fun j locked => absurd locked (unlocked j), fun j locked => absurd locked (unlocked j), ?_,
    fun j k locked => absurd locked (unlocked j), fun i m own => ?_⟩
  · rintro m key (locked | ⟨i, finishing⟩)
    · exact absurd (reset.state.mem m).2.1 locked.busy
    · exact absurd (reset.state.tag i) finishing.2.1
  · rw [reset.origin] at own
    cases own

theorem Kept.exclusive (kept : l.Kept) (sited : l.Sited) : l.Exclusive where
  apart := kept.apart
  owned m key owed := by
    obtain ⟨j, entry⟩ := kept.entry m key owed
    have locked : (l.state.locks j).lock = true := by rw [entry]
    refine ⟨j, kept.within j locked, entry, fun k locked' _ same => ?_⟩
    apply kept.apart k j locked' locked
    rw [same, entry]
    rfl
  quiet trackers banks j := by
    by_contra locked
    rw [Bool.not_eq_false] at locked
    rcases kept.due j locked with held | ⟨i, own, busy, -⟩
    · exact held.busy (trackers _ (sited.tagged _ held.busy).1)
    · exact busy (banks i (sited.inv.bank i _ own))

theorem Sited.freesOwn (sited : l.Sited) (admissible : c.Admissible) (kept : l.Kept) {e : Event c}
    (calm : l.misleads e = false) (mine : l.robs e = false) : l.FreesOwn e := by
  intro l' fired j locked free
  have unfreed : l'.state.locks = l.state.locks → False := by
    intro same
    rw [same, locked] at free
    cases free
  have aside : (∀ i, e ≠ .accept i) → (∀ i way, e ≠ .tag i way) → False := by
    intro other other'
    exact unfreed (aside_cases fired other other').2.1
  cases e with
  | accept i => exact absurd (accept_spec fired).2.2.1 unfreed
  | tag i way =>
    refine ⟨i, way, rfl, ?_⟩
    rcases (sited.effect_tag admissible kept calm mine fired).due_iff sited admissible with ⟨locks, -⟩ | ⟨m, own, locks, -⟩
      | ⟨m, k, -, -, -, -, -, unused, locks, -⟩
    · exact absurd locks unfreed
    · by_cases right : (l.state.locks j).id = (l.state.tag i).xact.id ∧ (l.state.locks j).key = c.lockKey (l.state.tag i).xact
      · rw [right.1, sited.named i m own, own]
      · rw [locks, State.unlock_other right, locked] at free
        cases free
    · exfalso
      have other : j ≠ k := by
        rintro rfl
        rw [(State.freeLock_spec unused).2] at locked
        cases locked
      have same : l'.state.locks j = l.state.locks j := by
        rw [locks]
        exact upd_of_ne other
      rw [same, locked] at free
      cases free
  | _ => exact (aside (fun i => by simp) fun i way => by simp).elim

theorem not_freesOwn_of_robs {e : Event c} (robs : l.robs e = true) {l' : Log c} (fired : l.step e = some l') : ¬l.FreesOwn e := by
  intro right
  cases e with
  | tag i way =>
    simp only [Log.robs, Bool.and_eq_true, List.any_eq_true] at robs
    obtain ⟨nobody, j, -, freed⟩ := robs
    simp only [frees, Bool.and_eq_true, decide_eq_true_eq, Bool.not_eq_true'] at freed
    obtain ⟨⟨⟨⟨⟨state, map⟩, lock⟩, locked⟩, id⟩, key⟩ := freed
    have free : (l'.state.locks j).lock = false := by
      rcases State.stepTag_locks (step_state fired) with ⟨-, -, locks', table, locks⟩ | ⟨other, -⟩
      · rw [locks, State.lockTable_of_not_isLock table map lock]
        simp only [State.unlock]
        rw [if_pos ⟨locked, id, congrArg Prod.fst key, congrArg Prod.snd key⟩]
      · exact absurd state other
    obtain ⟨i', way', same, own⟩ := right l' fired j locked free
    cases same
    rw [own] at nobody
    cases nobody
  | _ => cases robs

/-- As long as no create misleads or robs a tracker the locks are exclusive, and each is given back
by its owner. -/
theorem locks_are_exclusive (admissible : c.Admissible)
    (reaches : Reaches (fun l e => l.misleads e = false ∧ l.robs e = false) l) :
    l.Exclusive ∧ ∀ e l', l.step e = some l' → l.misleads e = false → (l.FreesOwn e ↔ l.robs e = false) := by
  obtain ⟨start, reset, run⟩ := reaches
  have inv : l.Sited ∧ l.Kept := by
    apply run.invariant ⟨reset.sited, reset.kept⟩
    rintro t u e ⟨sited, kept⟩ ⟨calm, mine⟩ fired
    exact sited.step admissible kept calm mine fired
  refine ⟨inv.2.exclusive inv.1, fun e l' fired calm => ⟨fun right => ?_, inv.1.freesOwn admissible inv.2 calm⟩⟩
  by_contra robs
  exact not_freesOwn_of_robs (by simpa using robs) fired right

/-! One memory tracker and two banks. -/

/-- A write of the first block with tags in it. -/
def firstWrite : Event soloConfig := .acquire 0 ⟨true, 2 ^ 30 / 64, BitVec.allOnes _, BitVec.allOnes _⟩ .topDown

/-- Both banks create their block before the write arrives, which finds the bit of tag map 1 clear
and locks it. -/
def lockAfterCreate : List (Event soloConfig) :=
  .accept 0 :: .accept 1 :: (List.replicate 5 [.tag 0 0, .tag 1 0]).flatten ++ firstWrite :: .accept 0 :: List.replicate 3 (.tag 0 0)
    ++ .accept 0 :: List.replicate 3 (.tag 0 0)

theorem locks_are_exclusive_of_create : ∃ l : Log soloConfig, (l.state.mem 0).tcState = .tm0l ∧ l.Exclusive ∧
    ∀ e l', l.step e = some l' → l.misleads e = false → (l.FreesOwn e ↔ l.robs e = false) := by
  have ran : (execGuarded Log.step (fun l e => !l.misleads e && !l.robs e) (start soloConfig) lockAfterCreate).map
      (fun l => (l.state.mem 0).tcState) = some .tm0l := by decide +kernel
  obtain ⟨l, ran, state⟩ := Option.map_eq_some_iff.mp ran
  have run : Steps Log.step (fun l e => l.misleads e = false ∧ l.robs e = false) (start soloConfig) l :=
    (steps_of_execGuarded ran).mono fun _ _ calm => by simpa using calm
  exact ⟨l, state, locks_are_exclusive soloConfig_admissible ⟨start soloConfig, start_onReset _, run⟩⟩

/-- The answers to the creates take the tracker through its states before any of its requests is
accepted. -/
theorem not_exclusive_first_write : ¬ ∀ c : Config, c.Admissible → ∀ l : Log c, Reaches anyEvent l → l.Exclusive := by
  intro always
  have ran : (exec Log.step (start soloConfig) [.accept 0, .accept 1, firstWrite, .tag 0 0, .tag 1 0]).map (fun l =>
      ((l.state.mem 0).tcState, (l.state.locks 0).lock, (l.state.locks 1).lock)) = some (.tm0l, false, false) := by
    decide +kernel
  obtain ⟨l, ran, result⟩ := Option.map_eq_some_iff.mp ran
  simp only [Prod.mk.injEq] at result
  obtain ⟨state, first, second⟩ := result
  have right := always soloConfig soloConfig_admissible l ⟨_, start_onReset _, steps_of_exec ran⟩
  have held : l.Due 0 (MapLevel.tm1.key soloConfig (l.state.mem 0).memAddr) := .inl ⟨.tm1, by rw [state]; rfl, rfl⟩
  obtain ⟨j, bound, entry, -⟩ := right.owned 0 _ held
  have two : j < 2 := bound
  obtain rfl | rfl : j = 0 ∨ j = 1 := by omega
  · rw [entry] at first
    cases first
  · rw [entry] at second
    cases second

end Log

end LowRisc.TagCache
