import LowRisc.TagCache.TransactionSteps

/-! The initiators create the top map.

No transaction is served before. What they leave is a blank top map, which stands for tags that are
all zero, whatever the memory holds.
-/

set_option autoImplicit false

namespace LowRisc.TagCache

open LowRisc.Chisel LowRisc.Lib

variable {c : Config}

namespace Config

/-- The block of the top map that an initiator creates behind `k` others. -/
def topBlock (c : Config) (i k : Nat) : Nat := blockOf (c.initAddr i k)

theorem topBlock_inj {i j k l : Nat} (first : i < c.nTagTransactors) (second : j < c.nTagTransactors)
    (same : c.topBlock i k = c.topBlock j l) : i = j ∧ k = l := by
  simp only [topBlock, blockOf_initAddr] at same
  have sum : c.nTagTransactors * k + i = c.nTagTransactors * l + j := by
    rw [Nat.mul_comm _ k, Nat.mul_comm _ l]
    omega
  have bank : i = j := by
    have rest := congrArg (· % c.nTagTransactors) sum
    simpa [Nat.mod_eq_of_lt first, Nat.mod_eq_of_lt second] using rest
  subst bank
  exact ⟨rfl, Nat.eq_of_mul_eq_mul_left (by omega) (Nat.add_right_cancel sum)⟩

theorem inTopMap_topBlock (i k : Nat) : c.inTopMap (c.topBlock i k) = true := by
  rw [inTopMap, topBlock, blockOf_initAddr, decide_eq_true_iff]
  omega

theorem exists_topBlock (c : Config) {b : Nat} (some : 0 < c.nTagTransactors) (low : blockOf c.topMapBase ≤ b)
    (high : b < blockOf c.topMapBase + c.nTopMapBlocks) :
    ∃ i < c.nTagTransactors, ∃ k < c.nBlocks i, b = c.topBlock i k := by
  have split' := Nat.div_add_mod (b - blockOf c.topMapBase) c.nTagTransactors
  have whole := Nat.div_add_mod c.nTopMapBlocks c.nTagTransactors
  refine ⟨(b - blockOf c.topMapBase) % c.nTagTransactors, Nat.mod_lt _ some,
    (b - blockOf c.topMapBase) / c.nTagTransactors, ?_, ?_⟩
  · have most : (b - blockOf c.topMapBase) / c.nTagTransactors ≤ c.nTopMapBlocks / c.nTagTransactors :=
      Nat.div_le_div_right (by omega)
    rw [nBlocks]
    split
    · omega
    · rename_i last
      rw [Nat.add_zero]
      refine lt_of_le_of_ne most fun same => ?_
      rw [same] at split'
      omega
  · rw [topBlock, blockOf_initAddr, Nat.mul_comm _ c.nTagTransactors]
    omega

end Config

namespace State

variable {s s' : State c} {v v' : View} {i : Nat}

def Created (s : State c) (i k : Nat) : Prop :=
  k < s.rstCnt i ∧ ∀ req, (s.tag i).stage = some (req, false) → k + 1 ≠ s.rstCnt i

/-- No transaction has come yet, and what is in the caches is blank. -/
structure Fresh (s : State c) (v : View) : Prop where
  idle : ∀ k, (s.mem k).tcState = .idle
  creates : ∀ i req loaded, (s.tag i).stage = some (req, loaded) → i < c.nTagTransactors ∧ 0 < s.rstCnt i ∧
    req.op = .c ∧ req.data = 0 ∧ req.block = c.topBlock i (s.rstCnt i - 1)
  copied : ∀ b, v.copied b → ∃ i < c.nTagTransactors, ∃ k, s.Created i k ∧ b = c.topBlock i k
  content : ∀ i < c.nTagTransactors, ∀ k, s.Created i k → v.content (c.topBlock i k) = fun _ => 0
  plain : Plain c v

theorem OnReset.fresh (reset : s.OnReset) : s.Fresh s.viewOnReset := by
  refine ⟨fun k => (reset.mem k).2.1, fun i req loaded stage => ?_, fun b copy => copy.elim, fun i _ k created => ?_,
    fun b marked => by cases marked⟩
  · simp [TagXactTracker.stage, reset.tag i] at stage
  · have some := created.1
    rw [reset.rstCnt i] at some
    cases some

theorem Created.congr {j k : Nat} (rst : s'.rstCnt = s.rstCnt)
    (stage : ∀ req, (s'.tag j).stage = some (req, false) ↔ (s.tag j).stage = some (req, false)) :
    s'.Created j k ↔ s.Created j k := by
  simp only [Created, rst, stage]

theorem Fresh.keep (fresh : s.Fresh v) (idle : ∀ k, (s'.mem k).tcState = .idle) (rst : s'.rstCnt = s.rstCnt)
    (stage : ∀ j req loaded, (s'.tag j).stage = some (req, loaded) → (s.tag j).stage = some (req, loaded))
    (unread : ∀ j req, (s.tag j).stage = some (req, false) → (s'.tag j).stage = some (req, false)) : s'.Fresh v := by
  have same : ∀ j k, s'.Created j k ↔ s.Created j k := fun j k =>
    Created.congr rst fun req => ⟨stage j req false, unread j req⟩
  refine ⟨idle, fun i req loaded here => ?_, fun b copy => ?_, fun i bound k created => ?_, fresh.plain⟩
  · rw [rst]
    exact fresh.creates i req loaded (stage i req loaded here)
  · obtain ⟨i, bound, k, created, block⟩ := fresh.copied b copy
    exact ⟨i, bound, k, (same i k).mpr created, block⟩
  · exact fresh.content i bound k ((same i k).mp created)

theorem Fresh.accept (fresh : s.Fresh v) (bound : i < c.nTagTransactors) (initialising : s.initialising i = true)
    (idle : (s.tag i).state = .idle) (mem : s'.mem = s.mem) (rst : s'.rstCnt = upd s.rstCnt i (s.rstCnt i + 1))
    (stage : ∀ j, (s'.tag j).stage = if j = i then some (s.accepted i, false) else (s.tag j).stage) : s'.Fresh v := by
  have none' : (s.tag i).stage = none := by simp [TagXactTracker.stage, idle]
  -- The block of the new request does not count before its metadata are read.
  have same : ∀ j k, s'.Created j k ↔ s.Created j k := by
    intro j k
    by_cases own : j = i
    · subst own
      simp only [Created, rst, upd_same, stage, if_true, none']
      constructor
      · rintro ⟨low, new⟩
        have other := new _ rfl
        exact ⟨by omega, fun _ here => by cases here⟩
      · rintro ⟨low, -⟩
        exact ⟨by omega, fun _ _ => by omega⟩
    · simp only [Created, rst, upd_of_ne own, stage, if_neg own]
  refine ⟨by rw [mem]; exact fresh.idle, fun j req loaded here => ?_, fun b copy => ?_,
    fun j bound k created => ?_, fresh.plain⟩
  · rw [stage] at here
    split at here
    · rename_i own
      subst own
      cases here
      rw [accepted, if_pos initialising, rst, upd_same]
      exact ⟨bound, Nat.succ_pos _, rfl, rfl, rfl⟩
    · rename_i other
      rw [rst, upd_of_ne other]
      exact fresh.creates j req loaded here
  · obtain ⟨j, bound, k, created, block⟩ := fresh.copied b copy
    exact ⟨j, bound, k, (same j k).mpr created, block⟩
  · exact fresh.content j bound k ((same j k).mp created)

theorem Fresh.load {req : TCTagRequest} (fresh : s.Fresh v) (stage : (s.tag i).stage = some (req, false))
    (takes : v.Takes req v') (idle : ∀ k, (s'.mem k).tcState = .idle) (rst : s'.rstCnt = s.rstCnt)
    (after : ∀ j, (s'.tag j).stage = if j = i then some (req, true) else (s.tag j).stage) : s'.Fresh v' := by
  obtain ⟨bound, some, op, data, block⟩ := fresh.creates i req false stage
  have grows : ∀ j k, s'.Created j k ↔ s.Created j k ∨ j = i ∧ k + 1 = s.rstCnt i := by
    intro j k
    by_cases own : j = i
    · subst own
      simp only [Created, rst, after, if_true, stage, true_and]
      constructor
      · rintro ⟨low, -⟩
        by_cases last : k + 1 = s.rstCnt j
        · exact .inr last
        · exact .inl ⟨low, fun _ _ => last⟩
      · rintro (⟨low, -⟩ | last)
        · exact ⟨low, fun _ here => by cases here⟩
        · exact ⟨by omega, fun _ here => by cases here⟩
    · simp only [Created, rst, after, own, if_false, false_and, or_false]
  -- No other create has brought the block in before, and so the lines of the memory play no part.
  have absent : ¬v.copied req.block := by
    intro copy
    obtain ⟨j, inside, k, created, same⟩ := fresh.copied _ copy
    obtain ⟨rfl, rfl⟩ := Config.topBlock_inj bound inside (block.symm.trans same)
    exact created.2 req stage (by omega)
  have content := takes.fresh op absent
  refine ⟨idle, fun j req' loaded here => ?_, fun b copy => ?_, fun j inside k created => ?_,
    fresh.plain.takes takes fun _ => ?_⟩
  · rw [after] at here
    rw [rst]
    split at here
    · rename_i own
      subst own
      cases here
      exact ⟨bound, some, op, data, block⟩
    · exact fresh.creates j req' loaded here
  · by_cases own : b = req.block
    · exact ⟨i, bound, s.rstCnt i - 1, (grows _ _).mpr (.inr ⟨rfl, by omega⟩), own.trans block⟩
    · obtain ⟨j, inside, k, created, place⟩ := fresh.copied b (takes.copies b own copy)
      exact ⟨j, inside, k, (grows j k).mpr (.inl created), place⟩
  · by_cases own : c.topBlock j k = req.block
    · have zero : (0 : Row) &&& req.mask = 0 := BitVec.zero_and
      rw [own, content, data, zero]
      funext row
      simp [upd]
    · rw [takes.others _ own]
      refine fresh.content j inside k (((grows j k).mp created).resolve_right ?_)
      rintro ⟨rfl, last⟩
      refine own ?_
      rw [block, ← last]
      rfl
  · rw [block]
    exact Config.inTopMap_topBlock i _

theorem Fresh.stored (fresh : s.Fresh v) (admissible : c.Admissible) (idle : ∀ i, (s.tag i).state = .idle)
    (done : ∀ i < c.nTagTransactors, s.initialising i = false) :
    Stored (c := c) v (fun _ => 0) (fun _ => false) (fun _ => false) := by
  have apart : ∀ b, c.inTopMap b = false → ¬v.copied b := by
    intro b below copy
    obtain ⟨i, -, k, -, rfl⟩ := fresh.copied b copy
    rw [Config.inTopMap_topBlock] at below
    cases below
  have some : 0 < c.nTagTransactors := by
    obtain ⟨k, banks⟩ := admissible.tagTransactors
    rw [banks]
    exact Nat.two_pow_pos k
  have none' : ∀ {p : Prop}, false = true → p := fun absurd' => absurd absurd' Bool.false_ne_true
  have table := fun e (_ : false = false) => apart _ (not_inTopMap_tt admissible e)
  have map0 := fun e (_ : false = false) => apart _ (not_inTopMap_tm0 admissible e)
  refine ⟨⟨fun _ _ _ => rfl, fun _ => none', fun _ => none', fun _ _ => rfl, table⟩,
    ⟨fun _ _ _ => rfl, fun _ => none', fun _ => none', fun _ _ => rfl, map0⟩, fun e => ?_⟩
  -- Its block of the top map is one of those that some initiator has created.
  obtain ⟨-, -, low, high⟩ := e.blocks_apart admissible
  obtain ⟨i, bound, k, count, block⟩ := c.exists_topBlock some low high
  have blank := fresh.content i bound k ⟨?_, fun req stage => by simp [TagXactTracker.stage, idle i] at stage⟩
  · rw [Slot.get, block, blank, field_one]
    simp [mapBit]
  · have full := done i bound
    simp only [initialising, decide_eq_false_iff_not, not_not] at full
    rw [full]
    exact count

theorem Fresh.step (fresh : s.Fresh v) (tracks : s.Tracks v) (admissible : c.Admissible)
    (aligned : c.nTagTransactors ∣ Config.blockOf c.topMapBase) {e : Event c} (fired : s.step e = some s')
    (other : ∀ m req order, e ≠ .acquire m req order) : ∃ v', s'.Tracks v' ∧ s'.Fresh v' := by
  have stages := stage_step fired
  rcases tracks.step admissible aligned fired with ⟨unread, tracks'⟩ | ⟨req, v', load, takes, tracks'⟩
  · refine ⟨v, tracks', ?_⟩
    -- steps beside the banks keep the blocks that are not read yet
    have aside : Aside e → s'.Fresh v := fun aside =>
      fresh.keep (idle_aside fresh.idle aside fired) (mem_aside aside fired).1
        (fun j req loaded => by rw [stage_aside aside fired]; exact id) fun j req => by rw [stage_aside aside fired]; exact id
    cases e with
    | acquire m req order => exact absurd rfl (other m req order)
    | accept i =>
      obtain ⟨bound, ⟨first, mem, rst⟩ | ⟨-, presented, -⟩⟩ := mem_accept fired
      · exact fresh.accept bound first (stage_accept fired).2 mem rst stages
      -- no tracker asks before the top map is there
      · rw [not_presents_of_idle fresh.idle] at presented
        cases presented
    | tag i way =>
      have read : (s.tag i).state ≠ .mr := by
        intro state
        simp [loads, state] at unread
      -- a step past the metadata changes no line of the view
      refine fresh.keep (idle_tag fresh.idle fired) (mem_tag fired).2.1 (fun j req loaded here => ?_) fun j req here => ?_
      · rw [stages] at here
        simp only [nextStage, read, if_false] at here
        split at here
        · rename_i own
          split at here
          · cases here
          · rwa [own]
        · exact here
      · rw [stages]
        simp only [nextStage, read, if_false]
        split
        · rename_i own
          subst own
          obtain ⟨-, -, first⟩ := TagXactTracker.stage_eq_some_iff.mp here
          exact absurd read (by simpa using first)
        · exact here
    | _ => exact aside trivial
  · cases e with
    | tag i way =>
      simp only [loads] at load
      split at load
      · rename_i state
        cases load
        -- the metadata are read for a create, the only request there is
        have stage : (s.tag i).stage = some ((s.tag i).xact, false) := by simp [TagXactTracker.stage, state]
        refine ⟨v', tracks', fresh.load stage takes (idle_tag fresh.idle fired) (mem_tag fired).2.1 fun j => ?_⟩
        rw [stages]
        simp [nextStage, state]
      · cases load
    | _ => cases load

end State

end LowRisc.TagCache
