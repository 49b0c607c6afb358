import LowRisc.TagCache.Banks
import LowRisc.TagCache.Replacement

/-! Write-backs and later reads of the same block.

The write-back unit lets the tag tracker go on when the last beat of the line is sent, and waits
alone for the acknowledgement. Its address match ports are not connected, so that nothing holds
the bank back from reading the block again in the meantime.
-/

set_option autoImplicit false

namespace LowRisc.TagCache

open LowRisc.Chisel LowRisc.Lib

variable {c : Config}

/-- Requests that fetch a missing line from the outer memory. -/
def TCTagOp.fetches : TCTagOp → Bool
  | .fr | .fl | .w => true
  | _ => false

namespace TagXactTracker

variable {a : Arrays} {t : TagXactTracker} {victim : Nat}

/-- The tracker sends a `GetBlock`. -/
def sendsGetBlock (t : TagXactTracker) : Bool := decide (t.state = .f) && !t.reqSent && !t.xact.op.isCreate

theorem mrNext_eq_f_iff (t : TagXactTracker) (md : TCMetadata) : t.mrNext false md = .f ∧ t.xact.op.isCreate = false
    ↔ t.xact.op.fetches = true ∧ md.state ≠ .dirty := by
  cases op : t.xact.op <;> by_cases dirty : md.state = .dirty <;>
    simp [mrNext, op, dirty, TCTagOp.fetches, TCTagOp.isCreate]

theorem mrNext_eq_wb (t : TagXactTracker) {md : TCMetadata} (next : t.mrNext false md = .wb) : md.state = .dirty := by
  by_contra clean
  cases op : t.xact.op <;> simp [mrNext, op, clean] at next

/-- A metadata response leads to a fetch exactly for requests that fetch, miss and get a victim
that is not dirty. -/
theorem sendsGetBlock_metaResp (unique : a.Unique c (t.idx c)) : (t.metaResp c a victim).sendsGetBlock = true ↔
    t.xact.op.fetches = true ∧ a.hitWays c (t.idx c) (t.addrTag c) = []
      ∧ (a.metas (t.idx c) victim).state ≠ .dirty := by
  rcases unique.hitWays_cases (t.addrTag c) with none' | ⟨w, -, ways, -⟩
  · have miss := t.mrNext_eq_f_iff (a.metas (t.idx c) victim)
    simp only [metaResp, none', List.isEmpty_nil, Bool.not_true, Bool.false_eq_true, if_false, ohToUInt_singleton,
      true_and]
    rw [← miss]
    rcases t.mrNext_of_miss (a.metas (t.idx c) victim) with next | next | next
    · simp [next, sendsGetBlock]
    · simp [next, sendsGetBlock]
    · have fresh : ∀ u : TagXactTracker, u.enterF.reqSent = false := by
        intro u
        unfold enterF
        split <;> rfl
      simp [next, sendsGetBlock, fresh]
  · simp only [metaResp, ways, List.isEmpty_cons, Bool.not_false, if_true]
    rcases t.mrNext_of_hit (a.metas (t.idx c) (ohToUInt [w])) with next | next | next <;>
      simp only [next] <;> simp [sendsGetBlock]

/-- A victim that is written back is not the block of the request. -/
theorem metaTag_metaResp (unique : a.Unique c (t.idx c)) (bound : victim < c.nWays)
    (state : (t.metaResp c a victim).state = .wb) : (t.metaResp c a victim).metaTag ≠ t.addrTag c := by
  rcases unique.hitWays_cases (t.addrTag c) with none' | ⟨w, -, ways, -⟩
  · simp only [metaResp, none', List.isEmpty_nil, Bool.not_true, Bool.false_eq_true, if_false,
      ohToUInt_singleton] at state ⊢
    rcases t.mrNext_of_miss (a.metas (t.idx c) victim) with next | next | next
    · simp [next] at state
    · simp only [next]
      intro same
      have valid : (a.metas (t.idx c) victim).isValid = true := by simp [TCMetadata.isValid, t.mrNext_eq_wb next]
      have member := Arrays.mem_hitWays.mpr ⟨bound, same, valid⟩
      rw [none'] at member
      cases member
    · simp [next] at state
  · simp only [metaResp, ways, List.isEmpty_cons, Bool.not_false, if_true] at state
    rcases t.mrNext_of_hit (a.metas (t.idx c) (ohToUInt [w])) with next | next | next <;>
      simp only [next] at state <;> cases state

/-- Only a metadata response names a victim to be written back or leads to a `GetBlock`. -/
theorem visit_other {t' : TagXactTracker} {a' : Arrays} (visited : t.visit c a victim = some (t', a'))
    (other : t.state ≠ .mr) : t'.state ≠ .wb ∧ t'.sendsGetBlock = false := by
  cases state : t.state with
  | mr => exact absurd state other
  | idle | wb | l => simp [visit, state] at visited
  | dr =>
    simp only [visit, state, Option.some.injEq, Prod.mk.injEq] at visited
    rw [← visited.1]
    cases write : t.xact.op.isWrite <;> simp [sendsGetBlock, dataResp, write]
  | dwr | mw | dwb =>
    simp only [visit, state, Option.some.injEq, Prod.mk.injEq] at visited
    rw [← visited.1]
    simp [sendsGetBlock]
  | f =>
    simp only [visit, state] at visited
    split at visited
    · simp only [Option.some.injEq, Prod.mk.injEq] at visited
      rw [← visited.1]
      simp [sendsGetBlock]
    · split at visited
      all_goals
        simp only [Option.some.injEq, Prod.mk.injEq] at visited
        rw [← visited.1]
        simp [sendsGetBlock, fetched]

end TagXactTracker

namespace State

variable {s s' : State c}

def putBlock (s : State c) : Nat := c.blockAt s.wb.tag s.wb.idx

/-- Its `PutBlock` is on the way or not acknowledged. -/
def Unacknowledged (s : State c) : Prop := s.wb.state = .write ∨ s.wb.state = .gnt

/-- No tracker sends a `GetBlock` for a block while a `PutBlock` of it is not acknowledged. -/
def NoOvertaking (s : State c) : Prop :=
  ∀ i < c.nTagTransactors, (s.tag i).sendsGetBlock = true → s.Unacknowledged → (s.tag i).block ≠ s.putBlock

/-- A request that fetches misses on the block that is not acknowledged and gets a victim that is
not dirty. A dirty victim would make it wait for the write-back unit. -/
def refetches (s : State c) : Event c → Bool
  | .tag i way => decide ((s.tag i).state = .mr) && decide (s.wb.state = .gnt) && decide ((s.tag i).block = s.putBlock)
      && (s.tag i).xact.op.fetches && (s.arrays.hitWays c ((s.tag i).idx c) ((s.tag i).addrTag c)).isEmpty
      && decide ((s.arrays.metas ((s.tag i).idx c) way).state ≠ .dirty)
  | _ => false

/-- While the unit works for a tracker the tracker waits, and what is not acknowledged is not asked for. -/
structure Ordered (s : State c) : Prop where
  banked : Banked s
  victim : ∀ i, (s.tag i).state = .wb → (s.tag i).metaTag ≠ (s.tag i).addrTag c
  serving : s.wb.state ≠ .idle → s.wb.state ≠ .gnt → (s.tag s.wb.id).state = .wb ∧ (s.tag s.wb.id).wbSent = true
    ∧ s.wb.idx = (s.tag s.wb.id).idx c ∧ s.wb.tag = (s.tag s.wb.id).metaTag
  apart : s.wb.state = .gnt → ∀ i, (s.tag i).sendsGetBlock = true → (s.tag i).block ≠ s.putBlock

theorem OnReset.ordered (reset : s.OnReset) : Ordered s where
  banked := reset.banked
  victim i state := by
    rw [reset.tag i] at state
    cases state
  serving busy := absurd reset.wb busy
  apart state := by
    rw [reset.wb] at state
    cases state

theorem busy_of_sendsGetBlock {t : TagXactTracker} (sends : t.sendsGetBlock = true) : t.state = .f := by
  simp only [TagXactTracker.sendsGetBlock, Bool.and_eq_true, decide_eq_true_eq] at sends
  exact sends.1.1

theorem block_eq_blockAt_iff (t : TagXactTracker) {tag idx : Nat} (small : idx < 2 ^ c.idxBits) :
    t.block = c.blockAt tag idx ↔ t.addrTag c = tag ∧ t.idx c = idx := by
  have split : t.block = t.addrTag c * 2 ^ c.idxBits + t.idx c := by
    rw [TagXactTracker.block, TagXactTracker.addrTag, TagXactTracker.idx, Config.tagOf, Config.idxOf, Nat.mul_comm,
      Config.blockOf, Nat.div_add_mod]
  constructor
  · intro same
    have high : t.addrTag c = t.block / 2 ^ c.idxBits := rfl
    have low : t.idx c = t.block % 2 ^ c.idxBits := rfl
    rw [high, low, same, Config.blockAt, Nat.mul_comm]
    exact ⟨by rw [Nat.mul_add_div (Nat.two_pow_pos _), Nat.div_eq_of_lt small, Nat.add_zero],
      by rw [Nat.mul_add_mod, Nat.mod_eq_of_lt small]⟩
  · rintro ⟨rfl, rfl⟩
    exact split

theorem idx_lt (t : TagXactTracker) : t.idx c < 2 ^ c.idxBits := Nat.mod_lt _ (Nat.two_pow_pos _)

/-- While the unit has not sent the line, nobody asks for its block. -/
theorem Ordered.block_ne (admissible : c.Admissible) (ordered : Ordered s) (busy : s.wb.state ≠ .idle)
    (unsent : s.wb.state ≠ .gnt) {i : Nat} (works : (s.tag i).state ≠ .idle) : (s.tag i).block ≠ s.putBlock := by
  obtain ⟨state, -, idx, tag⟩ := ordered.serving busy unsent
  rw [putBlock, idx, tag, ne_eq, block_eq_blockAt_iff _ (idx_lt _)]
  rintro ⟨sameTag, sameSet⟩
  have bank : i = s.wb.id := by
    rw [← ordered.banked.bank_eq admissible works, sameSet, ordered.banked.bank_eq admissible (by simp [state])]
  rw [bank] at sameTag
  exact ordered.victim s.wb.id state sameTag.symm

theorem Ordered.noOvertaking (admissible : c.Admissible) (ordered : Ordered s) : NoOvertaking s := by
  intro i _ sends unacknowledged
  have works : (s.tag i).state ≠ .idle := by simp [busy_of_sendsGetBlock sends]
  rcases unacknowledged with write | gnt
  · exact ordered.block_ne admissible (by simp [write]) (by simp [write]) works
  · exact ordered.apart gnt i sends

theorem Ordered.frame (ordered : Ordered s) (banked : Banked s') (tag : s'.tag = s.tag) (wb : s'.wb = s.wb) :
    Ordered s' := by
  refine ⟨banked, ?_, ?_, ?_⟩
  · rw [tag]
    exact ordered.victim
  · rw [tag, wb]
    exact ordered.serving
  · rw [tag, putBlock, wb]
    exact ordered.apart

theorem Ordered.update (ordered : Ordered s) (banked : Banked s') {i : Nat} {t : TagXactTracker}
    (tag : s'.tag = upd s.tag i t) (wb : s'.wb = s.wb) (free : (s.tag i).state ≠ .wb)
    (victim : t.state = .wb → t.metaTag ≠ t.addrTag c)
    (apart : s.wb.state = .gnt → t.sendsGetBlock = true → t.block ≠ s.putBlock) : Ordered s' := by
  refine ⟨banked, fun j => ?_, fun busy unsent => ?_, fun gnt j => ?_⟩
  · rw [tag]
    by_cases same : j = i
    · rw [same, upd_same]
      exact victim
    · rw [upd_of_ne same]
      exact ordered.victim j
  · rw [wb] at busy unsent ⊢
    have serving := ordered.serving busy unsent
    have other : s.wb.id ≠ i := by
      intro same
      rw [same] at serving
      exact free serving.1
    rw [tag, upd_of_ne other]
    exact serving
  · rw [wb] at gnt
    rw [tag, putBlock, wb]
    by_cases same : j = i
    · rw [same, upd_same]
      exact apart gnt
    · rw [upd_of_ne same]
      exact ordered.apart gnt j

theorem Ordered.accept (ordered : Ordered s) (banked : Banked s') {i : Nat} (fired : s.stepAccept i = some s') :
    Ordered s' := by
  have taken : ∀ {req : TCTagRequest}, (s.tag i).state = .idle → s'.tag = upd s.tag i ((s.tag i).accept req) →
      s'.wb = s.wb → Ordered s' := by
    intro req idle tag wb
    refine ordered.update banked tag wb (by simp [idle]) ?_ ?_
    · simp [TagXactTracker.accept]
    · simp [TagXactTracker.accept, TagXactTracker.sendsGetBlock]
  unfold stepAccept at fired
  split at fired
  · rename_i ready
    split at fired
    · cases fired
      exact taken ready.2 rfl rfl
    · split at fired
      · cases fired
        exact taken ready.2 rfl rfl
      · cases fired
  · cases fired

theorem Ordered.lock (ordered : Ordered s) (banked : Banked s') {i : Nat} (state : (s.tag i).state = .l)
    (fired : s.stepLock i = some s') : Ordered s' := by
  obtain ⟨locked, table, result⟩ := Option.map_eq_some_iff.mp fired
  obtain ⟨tag, -, wb⟩ := lockTable_kept table
  have kept : s'.tag = upd s.tag i { s.tag i with state := .idle } ∧ s'.wb = s.wb := by
    split at result
    all_goals
      rw [← result]
      simp [setTag, tag, wb]
  refine ordered.update banked kept.1 kept.2 (by simp [state]) ?_ ?_
  · simp
  · simp [TagXactTracker.sendsGetBlock]

theorem Ordered.visit (ordered : Ordered s) (banked : Banked s') {i way : Nat}
    (waits : s.refetches (.tag i way) = false) (fired : s.stepVisit i way = some s') : Ordered s' := by
  obtain ⟨⟨t, a⟩, visited, result⟩ := Option.map_eq_some_iff.mp fired
  have unique := ordered.banked.unique ((s.tag i).idx c)
  have kept : s'.tag = upd s.tag i t ∧ s'.wb = s.wb := by
    simp only at result
    split at result
    all_goals
      rw [← result]
      simp [setTag]
  have free : (s.tag i).state ≠ .wb := by
    intro state
    simp [TagXactTracker.visit, state] at visited
  by_cases state : (s.tag i).state = .mr
  · simp only [TagXactTracker.visit, state] at visited
    split at visited
    · rename_i bound
      cases visited
      have xact := (TagXactTracker.placed_metaResp (t := s.tag i) unique bound).2.1
      refine ordered.update banked kept.1 kept.2 free (fun next => ?_) fun gnt sends same => ?_
      · rw [TagXactTracker.addrTag, xact]
        exact TagXactTracker.metaTag_metaResp unique bound next
      · rw [TagXactTracker.block, xact] at same
        obtain ⟨fetches, none', clean⟩ := (TagXactTracker.sendsGetBlock_metaResp unique).mp sends
        simp only [refetches, state, gnt, TagXactTracker.block, same, fetches, none', decide_true, Bool.and_self,
          List.isEmpty_nil, Bool.true_and, decide_eq_false_iff_not] at waits
        exact waits clean
    · cases visited
  · obtain ⟨next, sends⟩ := TagXactTracker.visit_other visited state
    refine ordered.update banked kept.1 kept.2 free (fun wb => absurd wb next) fun _ sends' => ?_
    rw [sends] at sends'
    cases sends'

theorem Ordered.wbReq (ordered : Ordered s) (banked : Banked s') {i : Nat} (fired : s.stepWbReq i = some s') :
    Ordered s' := by
  unfold stepWbReq at fired
  split at fired
  · rename_i ready
    obtain ⟨-, state, -, -⟩ := ready
    cases fired
    refine ⟨banked, fun j => ?_, fun _ _ => ?_, fun gnt => ?_⟩
    · by_cases same : j = i
      · subst same
        simp only [setTag, upd_same]
        exact ordered.victim j
      · simp only [setTag, upd_of_ne same]
        exact ordered.victim j
    · simp only [setTag, upd_same]
      exact ⟨state, trivial, rfl, trivial⟩
    · cases gnt
  · cases fired

theorem Ordered.wb_step (admissible : c.Admissible) (ordered : Ordered s) (banked : Banked s')
    (fired : s.stepWb = some s') : Ordered s' := by
  unfold stepWb at fired
  split at fired
  · cases fired
  · rename_i state
    cases fired
    exact ⟨banked, ordered.victim, fun _ _ => ordered.serving (by simp [state]) (by simp [state]), fun gnt => by (cases gnt)⟩
  · rename_i state
    cases fired
    exact ⟨banked, ordered.victim, fun _ _ => ordered.serving (by simp [state]) (by simp [state]), fun gnt => by (cases gnt)⟩
  · -- the line is sent: nobody works on its block, and its tracker goes on to another one
    rename_i state
    have busy : s.wb.state ≠ .idle := by simp [state]
    have unsent : s.wb.state ≠ .gnt := by simp [state]
    have waits := (ordered.serving busy unsent).1
    rw [if_pos waits] at fired
    cases fired
    refine ⟨banked, fun j => ?_, fun _ unsent' => absurd rfl unsent', fun _ j sends => ?_⟩
    · by_cases same : j = s.wb.id
      · subst same
        simp [setTag]
      · simp only [setTag, upd_of_ne same]
        exact ordered.victim j
    · by_cases same : j = s.wb.id
      · subst same
        simp only [setTag, upd_same, TagXactTracker.block, TagXactTracker.enterF_xact]
        exact ordered.block_ne admissible busy unsent (by simp [waits])
      · simp only [setTag, upd_of_ne same] at sends ⊢
        exact ordered.block_ne admissible busy unsent (by simp [busy_of_sendsGetBlock sends])
  · cases fired
    exact ⟨banked, ordered.victim, fun idle => absurd rfl idle, fun gnt => by (cases gnt)⟩

theorem Ordered.step (admissible : c.Admissible) (aligned : c.nTagTransactors ∣ Config.blockOf c.topMapBase)
    (ordered : Ordered s) {e : Event c} (waits : s.refetches e = false) (fired : s.step e = some s') : Ordered s' := by
  have banked : Banked s' := ordered.banked.step admissible aligned fired
  have mt : ∀ {m source target}, s.stepMt m source target = some s' → Ordered s' := by
    intro m source target moved
    unfold stepMt at moved
    split at moved
    · cases moved
      exact ordered.frame banked rfl rfl
    · cases moved
  cases e with
  | acquire m req order =>
    simp only [State.step, stepAcquire] at fired
    split at fired
    · cases fired
      exact ordered.frame banked rfl rfl
    · cases fired
  | outerAcquire m => exact mt fired
  | outerGrant m => exact mt fired
  | innerGrant m => exact mt fired
  | accept i => exact ordered.accept banked fired
  | tag i way =>
    simp only [State.step, stepTag] at fired
    split at fired
    · split at fired
      · rename_i state
        exact ordered.lock banked state fired
      · exact ordered.visit banked waits fired
    · cases fired
  | wbReq i => exact ordered.wbReq banked fired
  | wb => exact ordered.wb_step admissible banked fired

/-- A step that does not wait is the one that goes wrong. -/
theorem Ordered.waits_of_noOvertaking (ordered : Ordered s) {e : Event c} (fired : s.step e = some s')
    (right : NoOvertaking s') : s.refetches e = false := by
  cases e with
  | tag i way =>
    by_contra refetch
    simp only [refetches, Bool.not_eq_false, Bool.and_eq_true, decide_eq_true_eq, List.isEmpty_iff] at refetch
    obtain ⟨⟨⟨⟨⟨state, gnt⟩, same⟩, fetches⟩, none'⟩, clean⟩ := refetch
    have unique := ordered.banked.unique ((s.tag i).idx c)
    simp only [State.step, stepTag, state] at fired
    split at fired
    · rename_i bank
      simp only [reduceCtorEq, if_false] at fired
      obtain ⟨⟨t, a⟩, visited, result⟩ := Option.map_eq_some_iff.mp fired
      simp only [TagXactTracker.visit, state] at visited
      split at visited
      · rename_i bound
        cases visited
        -- a miss on a clean victim goes straight to the fetch
        have kept : s'.tag i = (s.tag i).metaResp c s.arrays way ∧ s'.wb = s.wb := by
          simp only at result
          split at result
          all_goals
            rw [← result]
            simp [setTag]
        have sends : (s'.tag i).sendsGetBlock = true := by
          rw [kept.1]
          exact (TagXactTracker.sendsGetBlock_metaResp unique).mpr ⟨fetches, none', clean⟩
        have block : (s'.tag i).block = s'.putBlock := by
          rw [kept.1, putBlock, kept.2, TagXactTracker.block, (TagXactTracker.placed_metaResp unique bound).2.1]
          exact same
        exact right i bank sends (.inr (by rw [kept.2, gnt])) block
      · cases visited
    · cases fired
  | _ => rfl

/-- Reads stay behind write-backs as long as no bank misses on the block that is not acknowledged
and gets a clean victim, and not a step longer. -/
theorem reads_behind_writebacks (admissible : c.Admissible) (aligned : c.nTagTransactors ∣ Config.blockOf c.topMapBase)
    (reaches : Reaches c (fun s e => s.refetches e = false) s) :
    NoOvertaking s ∧ ∀ e s', s.step e = some s' → (NoOvertaking s' ↔ s.refetches e = false) := by
  obtain ⟨start, reset, run⟩ := reaches
  have ordered : Ordered s := run.invariant reset.ordered fun ordered waits fired =>
    ordered.step admissible aligned waits fired
  refine ⟨ordered.noOvertaking admissible, fun e s' fired => ⟨ordered.waits_of_noOvertaking fired, fun waits => ?_⟩⟩
  exact (ordered.step admissible aligned waits fired).noOvertaking admissible

/-! One bank with two ways. -/

def oneBank : Config := ⟨.smallest, 1, 1, 2, 2⟩

theorem oneBank_admissible : oneBank.Admissible where
  required := ⟨⟨27, rfl⟩, ⟨9, rfl⟩, by decide⟩
  tagBits_ge := by decide
  tagBits_le := by decide
  block := rfl
  mapRatio := rfl
  memSize := by decide
  memBase := by decide
  memTransactors := by decide
  tagTransactors := ⟨0, rfl⟩
  sets := ⟨1, rfl⟩
  sets_ge := by decide
  ways := by decide

/-- After reset, with a replacer that names way 0 of every set. -/
def oneBankOnReset : Replacing oneBank := ⟨blank oneBank, ⟨fun _ => 0⟩⟩

/-- A request of the bank, with the way that the replacer names and the states behind the metadata. -/
def served (way later : Nat) : List (Event oneBank) := .accept 0 :: .tag 0 way :: List.replicate later (.tag 0 0)

/-- The victim of the request is written back. -/
def evicting (way later : Nat) : List (Event oneBank) :=
  [.accept 0, .tag 0 way, .wbReq 0, .wb, .wb, .wb] ++ List.replicate later (.tag 0 0)

def granted : List (Event oneBank) := [.outerAcquire 0, .outerGrant 0, .innerGrant 0]

def writeTags (addr : Nat) : Event oneBank := .acquire 0 ⟨true, addr / 64, BitVec.allOnes _, BitVec.allOnes _⟩ .topDown
def readTags (addr : Nat) : Event oneBank := .acquire 0 ⟨false, addr / 64, 0, 0⟩ .topDown

/-- The top map and two blocks of the tag table are in one set. The first block is back in place of
the second, whose write-back is under way, when a read asks for the second. -/
def readBehindWriteback : List (Event oneBank) :=
  served 0 4
    ++ writeTags 0x40000800 :: served 1 2 ++ served 1 2 ++ served 0 1 ++ served 1 1 ++ served 1 4 ++ served 0 4
      ++ served 0 4 ++ granted
    ++ writeTags 0x40001800 :: served 0 2 ++ served 1 2 ++ served 1 2 ++ served 1 2 ++ served 1 1 ++ evicting 1 4
      ++ served 1 4 ++ served 0 1 ++ .wb :: granted
    ++ readTags 0x40000800 :: served 0 2 ++ served 1 2 ++ evicting 1 5 ++ granted
    ++ readTags 0x40001800 :: served 0 2 ++ served 1 2 ++ [.accept 0]

/-- The acknowledgement comes first. -/
theorem reads_behind_writebacks_of_eviction : ∃ s : State oneBank,
    (s.tag 0).sendsGetBlock = true ∧ (s.tag 0).block = s.putBlock ∧ s.wb.state = .idle ∧ NoOvertaking s
    ∧ ∀ e s', s.step e = some s' → (NoOvertaking s' ↔ s.refetches e = false) := by
  have ran : (execGuarded Replacing.step (fun r e => decide (r.state.refetches e = false)) oneBankOnReset
      (readBehindWriteback ++ [.wb, .tag 0 1])).map (fun r =>
        ((r.state.tag 0).sendsGetBlock, decide ((r.state.tag 0).block = r.state.putBlock), r.state.wb.state))
      = some (true, true, .idle) := by decide +kernel
  obtain ⟨r, ran, result⟩ := Option.map_eq_some_iff.mp ran
  simp only [Prod.mk.injEq, decide_eq_true_eq] at result
  obtain ⟨sends, same, idle⟩ := result
  have run := Replacing.run_state (fun s e => s.refetches e = false)
    ((steps_of_execGuarded ran).mono fun _ _ waits => of_decide_eq_true waits)
  exact ⟨r.state, sends, same, idle,
    reads_behind_writebacks oneBank_admissible (by decide) ⟨blank oneBank, blank_onReset _, run⟩⟩

/-- The read of the second block misses, and the replacer names the way of the first, which is clean. -/
theorem not_noOvertaking_refetch : ¬ ∀ c : Config, c.Admissible → ∀ start r : Replacing c, start.state.OnReset →
    Steps Replacing.step anyEvent start r → NoOvertaking r.state := by
  intro always
  have ran : (exec Replacing.step oneBankOnReset (readBehindWriteback ++ [.tag 0 1])).map (fun r =>
      ((r.state.tag 0).sendsGetBlock, r.state.wb.state, decide ((r.state.tag 0).block = r.state.putBlock)))
        = some (true, .gnt, true) := by decide +kernel
  obtain ⟨r, ran, result⟩ := Option.map_eq_some_iff.mp ran
  simp only [Prod.mk.injEq, decide_eq_true_eq] at result
  obtain ⟨sends, gnt, same⟩ := result
  have right := always oneBank oneBank_admissible oneBankOnReset r (blank_onReset _) (steps_of_exec ran)
  exact right 0 (by decide) sends (.inr gnt) same

end State

end LowRisc.TagCache
