import LowRisc.TagCache.Responses
import LowRisc.TagCache.Updating
import LowRisc.TagCache.Views

/-! A transaction among the steps of the tag cache.

While it is under way the other memory trackers are idle, and all that a bank can have left of an
earlier request is a write that is answered already.
-/

set_option autoImplicit false

namespace LowRisc.TagCache

open LowRisc.Chisel LowRisc.Lib

variable {c : Config}

/-! The memory trackers. -/

namespace MemXactTracker

variable {m : MemXactTracker c} {flat : FlatTags c} {d : DataBlock c} {v : View} {id : Nat}

theorem Phase.sides (phase : m.Phase flat d v) (mt : MtState) (sent : Bool) :
    Phase { m with mtState := mt, tcReqSent := sent } flat d v := by
  cases phase with
  | search state stored => exact .search state stored
  | tm0f state stored there => exact .tm0f state stored there
  | ttf state stored there => exact .ttf state stored there
  | tm1l state stored changes => exact .tm1l state stored ⟨changes.rw, changes.found, changes.differs⟩
  | tm0l state stored changes top => exact .tm0l state stored ⟨changes.rw, changes.found, changes.differs⟩ top
  | ttl state stored changes top map0 =>
    exact .ttl state stored ⟨changes.rw, changes.found, changes.differs⟩ top ⟨map0.tag1, map0.tagN⟩
  | ttw state stored changes top map0 table =>
    exact .ttw state stored ⟨changes.rw, changes.found, changes.differs⟩ top ⟨map0.tag1, map0.tagN⟩
      ⟨table.tag1, table.tagN⟩
  | tm0w state table map0 map1 top known new writes =>
    exact .tm0w state table map0 map1 top ⟨known.tag1, known.tagN⟩ new writes
  | tm1w state table map0 map1 top writes => exact .tm1w state table map0 map1 top writes

theorem Phase.busy (phase : m.Phase flat d v) : m.tcState ≠ .idle := by
  cases phase with
  | search state => rcases state with state | state | state <;> simp [state]
  | _ state => simp [state]

theorem Phase.not_blank (admissible : c.Admissible) (here : m.At d) (phase : m.Phase flat d v) :
    (m.tcReq id).blank = false := by
  have other : (m.tcReq id).op ≠ .c → (m.tcReq id).blank = false := by
    intro other
    cases op : (m.tcReq id).op <;> simp [TCTagRequest.blank, op, TCTagOp.isCreate]
    exact absurd op other
  -- a create is not blank where it sets a bit
  have sets : (m.tcReq id).data &&& (m.tcReq id).mask ≠ 0 → (m.tcReq id).blank = false := by
    intro some
    have no : ((m.tcReq id).data &&& (m.tcReq id).mask == 0) = false := beq_eq_false_iff_ne.mpr some
    rw [TCTagRequest.blank, no, Bool.and_false]
  cases phase with
  | search state => rcases state with state | state | state <;> exact other (by simp [tcReq, state])
  | tm0f state | ttf state | tm1l state => exact other (by simp [tcReq, state])
  | tm0l state | ttl state =>
    refine other ?_
    simp only [tcReq, state]
    split <;> simp
  | ttw state stored changes top map0 table =>
    by_cases create : (m.tcReq id).op = .c
    · refine sets ?_
      obtain ⟨-, -, data, mask, -⟩ := tt_places here
      simp only [tcReq, state] at create ⊢
      have told : m.ttTag1 = true := by
        unfold ttwOp at create
        split at create
        · cases create
        · split at create
          · rename_i new
            simp only [Bool.and_eq_true] at new
            exact new.2
          · cases create
      have bits := ((DataBlock.ttSlots admissible).fits d).bits
      rw [data, mask, spread_and bits, ne_eq, spread_eq_zero_iff bits]
      rw [table.tag1, writesTag, bne_iff_ne] at told
      exact told
    · exact other create
  | tm0w state =>
    by_cases create : (m.tcReq id).op = .c
    · refine sets ?_
      obtain ⟨-, -, data, mask, -⟩ := tm0_places here
      simp only [tcReq, state] at create ⊢
      have told : m.ttTag1 = true := by
        unfold tm0wOp at create
        split at create
        · cases create
        · split at create
          · cases create
          · split at create
            · rename_i new
              simp only [Bool.and_eq_true] at new
              exact new.2
            · cases create
      have bits := ((DataBlock.tm0Slots admissible).fits d).bits
      rw [data, mask, spread_and bits, ne_eq, spread_eq_zero_iff bits, told, Bool.true_or]
      decide
    · exact other create
  | tm1w state =>
    refine other ?_
    simp only [tcReq, state, tm1wOp]
    split <;> simp

end MemXactTracker

namespace State

variable {s s' : State c} {v v' : View} {flat : FlatTags c} {m i : Nat} {d : DataBlock c}

theorem mem_accept (fired : s.stepAccept i = some s') : i < c.nTagTransactors ∧
    (s.initialising i = true ∧ s'.mem = s.mem ∧ s'.rstCnt = upd s.rstCnt i (s.rstCnt i + 1) ∨
      s.initialising i = false ∧ s.presents i (s.chosen i) = true ∧ s'.rstCnt = s.rstCnt ∧
        s'.mem = upd s.mem (s.chosen i) { s.mem (s.chosen i) with tcReqSent := true }) := by
  unfold stepAccept at fired
  split at fired
  · rename_i ready
    refine ⟨ready.1, ?_⟩
    split at fired
    · rename_i first
      cases fired
      exact .inl ⟨first, rfl, rfl⟩
    · rename_i ended
      split at fired
      · rename_i presented
        cases fired
        exact .inr ⟨by simpa using ended, presented, rfl, rfl⟩
      · cases fired
  · cases fired

def Aside : Event c → Prop
  | .acquire .. | .accept .. | .tag .. => False
  | _ => True

theorem mem_aside {e : Event c} (aside : Aside e) (fired : s.step e = some s') :
    s'.rstCnt = s.rstCnt ∧ ∀ k, ∃ mt, s'.mem k = { s.mem k with mtState := mt } := by
  have mt : ∀ {m source target}, s.stepMt m source target = some s' →
      s'.rstCnt = s.rstCnt ∧ ∀ k, ∃ mt, s'.mem k = { s.mem k with mtState := mt } := by
    intro m source target moved
    unfold stepMt at moved
    split at moved
    · cases moved
      refine ⟨rfl, fun k => ?_⟩
      by_cases same : k = m
      · subst same
        exact ⟨target, by simp [setMem]⟩
      · exact ⟨(s.mem k).mtState, by simp [setMem, same]⟩
    · cases moved
  cases e with
  | acquire | accept | tag => cases aside
  | outerAcquire m => exact mt fired
  | outerGrant m => exact mt fired
  | innerGrant m => exact mt fired
  | wbReq i =>
    simp only [State.step, stepWbReq] at fired
    split at fired
    · cases fired
      exact ⟨rfl, fun k => ⟨_, rfl⟩⟩
    · cases fired
  -- the write-back unit touches only its own state and the memory
  | wb =>
    simp only [State.step, stepWb] at fired
    split at fired
    · cases fired
    · cases fired
      exact ⟨rfl, fun k => ⟨_, rfl⟩⟩
    · cases fired
      exact ⟨rfl, fun k => ⟨_, rfl⟩⟩
    · split at fired
      · cases fired
        exact ⟨rfl, fun k => ⟨_, rfl⟩⟩
      · cases fired
        exact ⟨rfl, fun k => ⟨_, rfl⟩⟩
    · cases fired
      exact ⟨rfl, fun k => ⟨_, rfl⟩⟩

/-- A request that nobody waits for any more. -/
def Stale (s : State c) (i : Nat) : Prop :=
  ∀ req loaded, (s.tag i).stage = some (req, loaded) → loaded = true ∧ req.op.isWrite = true

/-- Only blocks of the top map may count a row too many. -/
def Plain (c : Config) (v : View) : Prop := ∀ b, v.blank b = true → c.inTopMap b = true

theorem Plain.takes {req : TCTagRequest} (plain : Plain c v) (takes : v.Takes req v')
    (blank : req.blank = true → c.inTopMap req.block = true) : Plain c v' := by
  intro b marked
  rw [takes.blank] at marked
  by_cases same : b = req.block
  · subst same
    rw [upd_same, Bool.or_eq_true] at marked
    exact marked.elim (plain _) blank
  · rw [upd_of_ne same] at marked
    exact plain b marked

structure AtRest (s : State c) (v : View) (flat : FlatTags c) : Prop where
  idle : ∀ k, (s.mem k).tcState = .idle
  stale : ∀ i, s.Stale i
  stored : ∃ e0 e1, Stored v flat e0 e1

/-- Tracker `m` works on block `d`, with a request at a bank or before the next one. -/
structure Working (s : State c) (v : View) (flat : FlatTags c) (m : Nat) (d : DataBlock c) : Prop where
  here : (s.mem m).At d
  others : ∀ k, k ≠ m → (s.mem k).tcState = .idle
  phase : (s.mem m).Phase flat d v
  request : (s.mem m).tcReqSent = false ∧ (∀ i, s.Stale i) ∨ (s.mem m).tcReqSent = true ∧
    ∃ i loaded, (s.tag i).stage = some ((s.mem m).tcReq m, loaded) ∧
      (loaded = true → ((s.mem m).tcReq m).op.isWrite = false) ∧ ∀ j, j ≠ i → s.Stale j

theorem AtRest.keep (rest : s.AtRest v flat) (idle : ∀ k, (s'.mem k).tcState = .idle) (stale : ∀ i, s'.Stale i) :
    s'.AtRest v flat := ⟨idle, stale, rest.stored⟩

theorem Working.aside (working : s.Working v flat m d) (mem : ∀ k, ∃ mt, s'.mem k = { s.mem k with mtState := mt })
    (stage : ∀ j, (s'.tag j).stage = (s.tag j).stage) : s'.Working v flat m d := by
  obtain ⟨mt, same⟩ := mem m
  have stale : ∀ j, s.Stale j → s'.Stale j := by
    intro j stale req loaded here
    rw [stage] at here
    exact stale req loaded here
  refine ⟨?_, fun k other => ?_, ?_, ?_⟩
  · rw [same]
    exact working.here
  · obtain ⟨mt', same'⟩ := mem k
    rw [same']
    exact working.others k other
  · rw [same]
    exact working.phase.sides mt _
  · rw [same]
    refine working.request.imp (fun waits => ⟨waits.1, fun j => stale j (waits.2 j)⟩) ?_
    rintro ⟨sent, i, loaded, here, read, others⟩
    refine ⟨sent, i, loaded, ?_, read, fun j other => stale j (others j other)⟩
    rw [stage]
    exact here

theorem idle_tag (idle : ∀ k, (s.mem k).tcState = .idle) {way : Nat} (fired : s.stepTag i way = some s') (k : Nat) :
    (s'.mem k).tcState = .idle := by
  obtain ⟨-, -, ⟨mem, -⟩ | ⟨-, mem⟩⟩ := mem_tag fired
  · rw [mem]
    exact idle k
  · rw [mem]
    by_cases own : k = (s.tag i).xact.id
    · subst own
      rw [upd_same]
      simp only [MemXactTracker.tcResp, idle]
    · rw [upd_of_ne own]
      exact idle k

theorem not_presents_of_idle (idle : ∀ k, (s.mem k).tcState = .idle) (k : Nat) : s.presents i k = false := by
  simp [presents, MemXactTracker.tcReqValid, idle k]

theorem idle_aside {e : Event c} (idle : ∀ k, (s.mem k).tcState = .idle) (aside : Aside e)
    (fired : s.step e = some s') (k : Nat) :
    (s'.mem k).tcState = .idle := by
  obtain ⟨mt, same⟩ := (mem_aside aside fired).2 k
  rw [same]
  exact idle k

theorem stage_aside {e : Event c} (aside : Aside e) (fired : s.step e = some s') (j : Nat) :
    (s'.tag j).stage = (s.tag j).stage := by
  rw [stage_step fired]
  cases e with
  | acquire | accept | tag => cases aside
  | _ => rfl

def Ready (s : State c) : Prop := ∀ i < c.nTagTransactors, s.initialising i = false

theorem Ready.step (ready : s.Ready) {e : Event c} (fired : s.step e = some s') : s'.Ready := by
  have keep : s'.rstCnt = s.rstCnt → s'.Ready := by
    intro rst i bound
    rw [initialising, rst]
    exact ready i bound
  have aside : Aside e → s'.Ready := fun aside => keep (mem_aside aside fired).1
  cases e with
  | acquire m req order =>
    simp only [State.step, stepAcquire] at fired
    split at fired
    · cases fired
      exact ready
    · cases fired
  | accept i =>
    obtain ⟨bound, ⟨first, -⟩ | ⟨-, -, rst, -⟩⟩ := mem_accept fired
    · rw [ready i bound] at first
      cases first
    · exact keep rst
  | tag i way => exact keep (mem_tag fired).2.1
  | _ => exact aside trivial

/-- A request that nobody waits for goes on without the memory trackers. -/
theorem Stale.tag {way : Nat} (stale : s.Stale i) (fired : s.stepTag i way = some s') :
    (s.tag i).state ≠ .mr ∧ s'.mem = s.mem := by
  have busy : (s.tag i).state ≠ .idle := by
    intro idle
    have bound := (mem_tag fired).1
    simp [stepTag, bound, idle, stepVisit, TagXactTracker.visit] at fired
  have stage : (s.tag i).stage = some ((s.tag i).xact, decide ((s.tag i).state ≠ .mr)) := by simp [TagXactTracker.stage, busy]
  obtain ⟨loaded, write⟩ := stale _ _ stage
  have served : (s.tag i).state ≠ .mr := by simpa using loaded
  obtain ⟨-, -, ⟨mem, -⟩ | ⟨answers, -⟩⟩ := mem_tag fired
  · exact ⟨served, mem⟩
  · rcases answers with ⟨first, -⟩ | ⟨-, read⟩
    · exact absurd first served
    · rw [write] at read
      cases read

theorem Stale.next {j : Nat} {way : Nat} (stale : s.Stale j) (served : (s.tag i).state ≠ .mr)
    (fired : s.stepTag i way = some s') : s'.Stale j := by
  intro req loaded here
  rw [stage_step (e := .tag i way) fired] at here
  simp only [nextStage, served, if_false] at here
  split at here
  · rename_i own
    subst own
    split at here
    · cases here
    · exact stale req loaded here
  · exact stale req loaded here

theorem AtRest.step (rest : s.AtRest v flat) (tracks : s.Tracks v) (ready : s.Ready) (admissible : c.Admissible)
    (aligned : c.nTagTransactors ∣ Config.blockOf c.topMapBase) {e : Event c} (fired : s.step e = some s')
    (other : ∀ m req order, e ≠ .acquire m req order) : s'.Tracks v ∧ s'.AtRest v flat := by
  have quiet : s.loads e = none → s'.Tracks v := tracks.unread admissible aligned fired
  have aside : Aside e → s'.AtRest v flat := fun aside =>
    rest.keep (idle_aside rest.idle aside fired) fun j req loaded here => by
      rw [stage_aside aside fired] at here
      exact rest.stale j req loaded here
  cases e with
  | acquire m req order => exact absurd rfl (other m req order)
  | accept i =>
    obtain ⟨bound, ⟨first, -⟩ | ⟨-, presented, -⟩⟩ := mem_accept fired
    · rw [ready i bound] at first
      cases first
    · rw [not_presents_of_idle rest.idle] at presented
      cases presented
  | tag i way =>
    obtain ⟨served, -⟩ := (rest.stale i).tag fired
    exact ⟨quiet (by simp [loads, served]), rest.keep (idle_tag rest.idle fired) fun j => (rest.stale j).next served fired⟩
  | _ => exact ⟨quiet rfl, aside trivial⟩

theorem AtRest.acquire {req : AcquireReq c} {order : SearchOrder} (rest : s.AtRest v flat)
    (ends : ∀ i, (s.tag i).state = .idle)
    (fired : s.stepAcquire m req order = some s') : ∃ d : DataBlock c, d.val = req.addrBlock ∧ s'.tag = s.tag ∧
      s'.arrays = s.arrays ∧ s'.wb = s.wb ∧ s'.mem m = (s.mem m).acquire req order ∧ s'.Working v flat m d := by
  unfold stepAcquire at fired
  split at fired
  · rename_i free
    cases fired
    obtain ⟨e0, e1, stored⟩ := rest.stored
    have own : (s.setMem m ((s.mem m).acquire req order)).mem m = (s.mem m).acquire req order := by simp [setMem]
    refine ⟨⟨req.addrBlock, free.1⟩, rfl, rfl, rfl, rfl, own, ?_, fun k other => ?_, ?_, ?_⟩
    · rw [own]
      rfl
    · simp only [setMem, upd_of_ne other]
      exact rest.idle k
    · rw [own]
      refine .search ?_ stored
      cases order <;> simp [MemXactTracker.acquire, MemXactTracker.firstState]
    · rw [own]
      refine .inl ⟨rfl, fun i => ?_⟩
      intro r loaded here
      simp [TagXactTracker.stage, setMem, ends i] at here
  · cases fired

inductive Goes (s s' : State c) (v' : View) (flat : FlatTags c) (m : Nat) (d : DataBlock c) : Prop where
  | on (working : s'.Working v' flat m d) (goal : (s'.mem m).goal flat d = (s.mem m).goal flat d)
      (rw : (s'.mem m).rw = (s.mem m).rw)
  | ends (idle : (s'.mem m).tcState = .idle) (rest : s'.AtRest v' ((s.mem m).goal flat d))
      (data : (s.mem m).rw = false → (s'.mem m).memData = flat d)

theorem Working.respond {resp : TCTagResp} (working : s.Working v flat m d)
    (outcome : (s.mem m).Outcome flat d v' ((s.mem m).tcResp resp)) (mem : s'.mem = upd s.mem m ((s.mem m).tcResp resp))
    (stale : ∀ i, s'.Stale i) : s.Goes s' v' flat m d := by
  have own : s'.mem m = (s.mem m).tcResp resp := by rw [mem, upd_same]
  have others : ∀ k, k ≠ m → (s'.mem k).tcState = .idle := by
    intro k other
    rw [mem, upd_of_ne other]
    exact working.others k other
  have responded : (s.mem m).Responded resp ((s.mem m).tcResp resp) := MemXactTracker.responded working.phase.busy
  rw [← own] at outcome responded
  cases outcome with
  | goes phase goal =>
    exact .on ⟨responded.memAddr.trans working.here, others, phase, .inl ⟨responded.tcReqSent, stale⟩⟩ goal responded.rw
  | ends idle stored data =>
    refine .ends idle ⟨fun k => ?_, stale, _, _, stored⟩ data
    by_cases same : k = m
    · rwa [same]
    · exact others k same

theorem Working.accept (working : s.Working v flat m d) (ready : s.Ready) (fired : s.stepAccept i = some s') :
    s'.Working v flat m d ∧ (s'.mem m).goal flat d = (s.mem m).goal flat d ∧ (s'.mem m).rw = (s.mem m).rw := by
  have stages := stage_step (e := .accept i) fired
  obtain ⟨bound, ⟨first, -⟩ | ⟨ended, presented, -, mem⟩⟩ := mem_accept fired
  · rw [ready i bound] at first
    cases first
  have valid : (s.mem (s.chosen i)).tcState ≠ .idle ∧ (s.mem (s.chosen i)).tcReqSent = false := by
    simp only [presents, MemXactTracker.tcReqValid, Bool.and_eq_true, decide_eq_true_iff, Bool.not_eq_true'] at presented
    exact presented.1.1
  -- No other tracker presents a request to the arbiter.
  have own : s.chosen i = m := by
    by_contra other
    exact valid.1 (working.others _ other)
  rw [own] at valid mem
  have sent : s'.mem m = { s.mem m with tcReqSent := true } := by rw [mem, upd_same]
  obtain ⟨-, stale⟩ | ⟨asked, -⟩ := working.request
  · have unread : false = true → ((s'.mem m).tcReq m).op.isWrite = false := fun read => absurd read Bool.false_ne_true
    refine ⟨⟨?_, fun k other => ?_, ?_, .inr ⟨?_, i, false, ?_, unread, fun j other => ?_⟩⟩, ?_, ?_⟩
    · rw [sent]
      exact working.here
    · rw [mem, upd_of_ne other]
      exact working.others k other
    · rw [sent]
      exact working.phase.sides (s.mem m).mtState true
    · rw [sent]
    · rw [stages, sent]
      simp only [nextStage, if_true, accepted, ended, Bool.false_eq_true, if_false, own, tcReq]
      rfl
    · intro req loaded here
      rw [stages] at here
      simp only [nextStage, other, if_false] at here
      exact stale j req loaded here
    · rw [sent]
      rfl
    · rw [sent]
  · rw [valid.2] at asked
    cases asked

theorem Working.unseen (working : s.Working v flat m d) (mem : s'.mem = s.mem) (phase : (s.mem m).Phase flat d v')
    (request : (s.mem m).tcReqSent = false ∧ (∀ i, s'.Stale i) ∨ (s.mem m).tcReqSent = true ∧
      ∃ i loaded, (s'.tag i).stage = some ((s.mem m).tcReq m, loaded) ∧
        (loaded = true → ((s.mem m).tcReq m).op.isWrite = false) ∧ ∀ j, j ≠ i → s'.Stale j) : s.Goes s' v' flat m d := by
  refine .on ⟨?_, ?_, ?_, ?_⟩ ?_ ?_
  all_goals rw [mem]
  · exact working.here
  · exact working.others
  · exact phase
  · exact request

theorem Working.serve {way : Nat} {loaded : Bool} (working : s.Working v flat m d) (tracks : s.Tracks v)
    (plain : Plain c v)
    (ready : s.Ready) (admissible : c.Admissible) (aligned : c.nTagTransactors ∣ Config.blockOf c.topMapBase)
    (sent : (s.mem m).tcReqSent = true) (stage : (s.tag i).stage = some ((s.mem m).tcReq m, loaded))
    (read : loaded = true → ((s.mem m).tcReq m).op.isWrite = false) (stale : ∀ j, j ≠ i → s.Stale j)
    (fired : s.stepTag i way = some s') : ∃ v', s'.Tracks v' ∧ Plain c v' ∧ s.Goes s' v' flat m d := by
  have stages := stage_step (e := .tag i way) fired
  obtain ⟨busy, xact, at'⟩ := TagXactTracker.stage_eq_some_iff.mp stage
  obtain ⟨bound, -, effects⟩ := mem_tag fired
  have id : (s.tag i).xact.id = m := by rw [xact, MemXactTracker.tcReq_id]
  -- Unless it answers, the bank leaves the memory trackers alone.
  have unseen : ¬s.Answers i → s'.mem = s.mem := by
    intro quiet
    obtain ⟨mem, -⟩ | ⟨answers, -⟩ := effects
    · exact mem
    · exact absurd answers quiet
  have seen : s.Answers i → s'.mem = upd s.mem m ((s.mem m).tcResp (s.tag i).resp) := by
    intro answers
    obtain ⟨-, first | quiet⟩ | ⟨-, mem⟩ := effects
    · rw [ready i bound] at first
      cases first
    · exact absurd answers quiet
    · rwa [id] at mem
  have others : ∀ j, j ≠ i → s'.Stale j := by
    intro j other req loaded here
    rw [stages] at here
    simp only [nextStage, other, if_false] at here
    exact stale j other req loaded here
  -- A request has its effect when its metadata are read; only a write is answered then.
  by_cases first : (s.tag i).state = .mr
  · have after : (s'.tag i).stage = some ((s.mem m).tcReq m, true) := by
      rw [stages]
      simp [nextStage, first, xact]
    rcases tracks.step (e := .tag i way) admissible aligned fired with ⟨unread, -⟩ | ⟨req, v', load, takes, tracks'⟩
    · simp [loads, first] at unread
    · simp only [loads, first, if_true, xact, Option.some.injEq] at load
      subst load
      have plain' : Plain c v' := plain.takes takes fun blank => by
        rw [working.phase.not_blank admissible working.here] at blank
        cases blank
      refine ⟨v', tracks', plain', ?_⟩
      cases write : ((s.mem m).tcReq m).op.isWrite with
      | true =>
        have outcome : (s.mem m).Outcome flat d v' ((s.mem m).tcResp (s.tag i).resp) :=
          working.phase.update admissible working.here takes write
        refine working.respond outcome (seen (.inl ⟨first, by rw [xact, write]⟩)) fun j req loaded here => ?_
        by_cases same : j = i
        · rw [same, after] at here
          cases here
          exact ⟨rfl, write⟩
        · exact others j same req loaded here
      | false =>
        have quiet : ¬s.Answers i := by simp [Answers, first, xact, write]
        have phase := working.phase.read admissible working.here takes write
        exact working.unseen (unseen quiet) phase (.inr ⟨sent, i, true, after, fun _ => write, others⟩)
  -- Behind that the view stays, and the last visit answers what reads.
  · have done : loaded = true := by
      rw [← at']
      simpa using first
    subst done
    have write := read rfl
    have tracks' : s'.Tracks v := tracks.unread (e := .tag i way) admissible aligned fired (by simp [loads, first])
    refine ⟨v, tracks', plain, ?_⟩
    by_cases last : (s.tag i).state = .l
    · have answer := (tracks.banks i bound).answer (by simp [TagXactTracker.Serving, last]) (by rw [xact, write])
      rw [TagXactTracker.complete_of_rest (.inr (.inr last)), xact] at answer
      have outcome := working.phase.answer admissible working.here answer plain write
      refine working.respond outcome (seen (.inr ⟨last, by rw [xact, write]⟩)) fun j req loaded here => ?_
      by_cases same : j = i
      · rw [same, stages] at here
        simp [nextStage, last] at here
      · exact others j same req loaded here
    · have quiet : ¬s.Answers i := by simp [Answers, first, last]
      have after : (s'.tag i).stage = some ((s.mem m).tcReq m, true) := by
        rw [stages]
        simp [nextStage, first, last, stage]
      exact working.unseen (unseen quiet) working.phase (.inr ⟨sent, i, true, after, fun _ => write, others⟩)

/-- The steps of the tag cache while a transaction is under way. -/
theorem Working.step (working : s.Working v flat m d) (tracks : s.Tracks v) (plain : Plain c v)
    (ready : s.Ready) (admissible : c.Admissible) (aligned : c.nTagTransactors ∣ Config.blockOf c.topMapBase)
    {e : Event c}
    (fired : s.step e = some s') (other : ∀ k req order, e ≠ .acquire k req order) :
    ∃ v', s'.Tracks v' ∧ Plain c v' ∧ s.Goes s' v' flat m d := by
  have stages := stage_step fired
  have quiet : s.loads e = none → s'.Tracks v := tracks.unread admissible aligned fired
  have aside : Aside e → s.Goes s' v flat m d := by
    intro aside
    have mem := (mem_aside aside fired).2
    obtain ⟨mt, own⟩ := mem m
    refine .on (working.aside mem (stage_aside aside fired)) ?_ ?_
    · rw [own]
      rfl
    · rw [own]
  cases e with
  | acquire k req order => exact absurd rfl (other k req order)
  | accept i =>
    obtain ⟨working', goal, rw'⟩ := working.accept ready fired
    exact ⟨v, quiet rfl, plain, .on working' goal rw'⟩
  | tag i way =>
    -- The bank of an old write goes on beside the transaction.
    have pass : s.Stale i → (∀ {j req loaded}, (s.tag j).stage = some (req, loaded) → j ≠ i →
        (s'.tag j).stage = some (req, loaded)) ∧ s'.mem = s.mem ∧ ∀ j, s.Stale j → s'.Stale j := by
      intro stale
      obtain ⟨served, mem⟩ := stale.tag fired
      refine ⟨fun here apart => ?_, mem, fun j stale' => stale'.next served fired⟩
      rw [stages]
      simp only [nextStage, apart, if_false]
      exact here
    rcases working.request with ⟨sent, stale⟩ | ⟨sent, j, loaded, here, read, stale⟩
    · obtain ⟨-, mem, next⟩ := pass (stale i)
      have served := ((stale i).tag fired).1
      have goes := working.unseen mem working.phase (.inl ⟨sent, fun k => next k (stale k)⟩)
      exact ⟨v, quiet (by simp [loads, served]), plain, goes⟩
    · by_cases own : i = j
      · subst own
        exact working.serve tracks plain ready admissible aligned sent here read stale fired
      · obtain ⟨kept, mem, next⟩ := pass (stale i own)
        have served := ((stale i own).tag fired).1
        have goes := working.unseen mem working.phase
          (.inr ⟨sent, j, loaded, kept here fun same => own same.symm, read, fun k other => next k (stale k other)⟩)
        exact ⟨v, quiet (by simp [loads, served]), plain, goes⟩
  | _ => exact ⟨v, quiet rfl, plain, aside trivial⟩

end State

end LowRisc.TagCache
