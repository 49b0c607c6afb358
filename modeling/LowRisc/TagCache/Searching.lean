import LowRisc.TagCache.Transactions

/-! The way down: a search for the tags of a block, and what a write collects behind it. -/

set_option autoImplicit false

namespace LowRisc.TagCache.MemXactTracker

open LowRisc.Chisel LowRisc.Lib

variable {c : Config} {m : MemXactTracker c} {flat : FlatTags c} {d : DataBlock c} {v : View}
  {e0 e1 : DataBlock c → Bool} {id : Nat} {resp : TCTagResp}

/-- What a response leads to: another request, or the end of the tag transaction. -/
inductive Outcome (m : MemXactTracker c) (flat : FlatTags c) (d : DataBlock c) (v : View)
    (n : MemXactTracker c) : Prop where
  | goes (phase : n.Phase flat d v) (goal : n.goal flat d = m.goal flat d)
  | ends {e0 e1 : DataBlock c → Bool} (idle : n.tcState = .idle) (stored : Stored v (m.goal flat d) e0 e1)
      (data : m.rw = false → n.memData = flat d)

structure Responded (m : MemXactTracker c) (resp : TCTagResp) (n : MemXactTracker c) : Prop where
  tcState : n.tcState = m.tcStateNext resp
  tcReqSent : n.tcReqSent = false
  memAddr : n.memAddr = m.memAddr
  rw : n.rw = m.rw
  memMask : n.memMask = m.memMask
  memData : n.memData = m.memDataNext resp
  tm1Tag1 : n.tm1Tag1 = if m.tcState = .tm1l then m.tm1Rdata resp.data else m.tm1Tag1
  tm0Tag1 : n.tm0Tag1 = if m.tcState = .tm0l then m.tm1Tag1 && m.tm0Rdata resp.data else m.tm0Tag1
  tm0TagN : n.tm0TagN = if m.tcState = .tm0l then
    m.tm1Tag1 && (decide (1 < resp.tcnt) || resp.data &&& ~~~m.tm0Wmask != 0) else m.tm0TagN
  ttTag1 : n.ttTag1 = if m.tcState = .ttl then m.writesTag else m.ttTag1
  ttTagN : n.ttTagN = if m.tcState = .ttl then
    m.tm0Tag1 && (decide (1 < resp.tcnt) || resp.data &&& ~~~m.ttWmask != 0) else m.ttTagN

theorem responded (busy : m.tcState ≠ .idle) : m.Responded resp (m.tcResp resp) := by
  unfold tcResp
  split
  · rename_i idle
    exact absurd idle busy
  · exact ⟨rfl, rfl, rfl, rfl, rfl, rfl, rfl, rfl, rfl, rfl, rfl⟩

theorem goal_of_responded {n : MemXactTracker c} (responded : m.Responded resp n)
    (data : m.memDataNext resp = m.memData ∨ m.memDataNext resp = m.want flat d) : n.goal flat d = m.goal flat d := by
  have same : n.want flat d = m.want flat d := want_of_found responded.rw responded.memMask (by rwa [responded.memData])
  funext e
  rw [goal, goal, same]

theorem outcome_found {n : MemXactTracker c} (responded : m.Responded resp n) (stored : Stored v flat e0 e1)
    (data : m.memDataNext resp = m.want flat d)
    (next : m.tcStateNext resp = if m.rw && (m.memData &&& m.memMask != flat d &&& m.memMask) then .tm1l else .idle) :
    m.Outcome flat d v n := by
  have found : n.memData = m.want flat d := responded.memData.trans data
  have same : n.want flat d = m.want flat d := want_of_found responded.rw responded.memMask (.inr found)
  cases write : m.rw && (m.memData &&& m.memMask != flat d &&& m.memMask) with
  | true =>
    rw [Bool.and_eq_true, bne_iff_ne] at write
    have state : n.tcState = .tm1l := by
      rw [responded.tcState, next, write.1, Bool.true_and, if_pos (bne_iff_ne.mpr write.2)]
    have bits : n.memData &&& n.memMask = m.memData &&& m.memMask := by
      rw [found, responded.memMask, want, write.1, if_pos rfl]
      apply BitVec.eq_of_getLsbD_eq
      intro j inside
      simp only [masked, BitVec.getLsbD_or, BitVec.getLsbD_and, BitVec.getLsbD_not, inside, decide_true, Bool.true_and]
      cases m.memMask.getLsbD j <;> cases m.memData.getLsbD j <;> cases (flat d).getLsbD j <;> rfl
    refine .goes (.tm1l state stored ⟨responded.rw.trans write.1, found.trans same.symm, ?_⟩)
      (goal_of_responded responded (.inr data))
    rw [bits, responded.memMask]
    exact write.2
  | false =>
    rw [write, if_neg Bool.false_ne_true] at next
    have quiet : m.goal flat d = flat := by
      refine goal_of_same fun write' => ?_
      rw [write', Bool.true_and] at write
      simpa using write
    refine .ends (responded.tcState.trans next) (quiet ▸ stored) fun read => ?_
    rw [found, want, read, if_neg Bool.false_ne_true]

theorem outcome_deeper {n : MemXactTracker c} (responded : m.Responded resp n) (data : m.memDataNext resp = m.memData)
    (phase : n.Phase flat d v) : m.Outcome flat d v n :=
  .goes phase (goal_of_responded responded (.inl data))

/-- A map bit that is clear stands for tags that are zero. -/
theorem outcome_clear {n : MemXactTracker c} (responded : m.Responded resp n) (stored : Stored v flat e0 e1)
    (absent : e0 d = false) (data : m.memDataNext resp = m.searchData 0)
    (next : m.tcStateNext resp = if m.rw && m.writesTag then .tm1l else .idle) : m.Outcome flat d v n := by
  have zero := stored.table.empty d absent
  refine outcome_found responded stored ?_ ?_
  · rw [data, ← zero]
    exact searchData_flat
  · rw [next, zero, writesTag]
    simp

theorem Changes.keep {n : MemXactTracker c} (changes : m.Changes flat d) (responded : m.Responded resp n)
    (own : m.memDataNext resp = m.memData) : n.Changes flat d := by
  have data : n.memData = m.memData := responded.memData.trans own
  have same : n.want flat d = m.want flat d := want_of_found responded.rw responded.memMask (.inl data)
  refine ⟨responded.rw.trans changes.rw, ?_, ?_⟩
  · rw [data, same]
    exact changes.found
  · rw [data, responded.memMask]
    exact changes.differs

theorem blank_eq_false {b : Nat} (plain : ∀ b, v.blank b = true → c.inTopMap b = true) (below : c.inTopMap b = false) :
    v.blank b = false := by
  by_contra blank
  have inside := plain b (by simpa using blank)
  rw [below] at inside
  cases inside

section
variable (admissible : c.Admissible) (here : m.At d) (answer : v.Answer (m.tcReq id) resp)

include here answer

theorem answer_ttr (state : m.tcState = .ttr) (stored : Stored v flat e0 e1) :
    m.Outcome flat d v (m.tcResp resp) := by
  have responded : m.Responded resp (m.tcResp resp) := responded (by simp [state])
  obtain ⟨block, row, -, -, rdata⟩ := tt_places here
  cases hit : resp.hit with
  | true =>
    have copy := answer.found (by simp [tcReq, state]) hit
    have data := answer.right.hit (by simp [tcReq, state]) hit
    simp only [TCTagRequest.block, TCTagRequest.row, tcReq, state, block, row] at copy data
    have tags : m.ttRdata resp.data = flat d := by
      rw [rdata, data]
      exact stored.tags_eq (stored.e0_of_copied copy)
    refine outcome_found responded stored ?_ ?_
    · simp only [memDataNext, state, hit, if_true, tags]
      exact searchData_flat
    · simp [tcStateNext, state, hit, tags]
  | false =>
    refine outcome_deeper responded (by simp [memDataNext, state, hit]) (.search (.inr (.inl ?_)) stored)
    rw [responded.tcState]
    simp [tcStateNext, state, hit]

theorem answer_tm0r (state : m.tcState = .tm0r) (stored : Stored v flat e0 e1) :
    m.Outcome flat d v (m.tcResp resp) := by
  have responded : m.Responded resp (m.tcResp resp) := responded (by simp [state])
  obtain ⟨block, row, -, -, rdata⟩ := tm0_places here
  cases hit : resp.hit with
  | true =>
    have copy := answer.found (by simp [tcReq, state]) hit
    have data := answer.right.hit (by simp [tcReq, state]) hit
    simp only [TCTagRequest.block, TCTagRequest.row, tcReq, state, block, row] at copy data
    have bit : m.tm0Rdata resp.data = e0 d := by
      rw [rdata, data]
      exact stored.map0_bit (stored.e1_of_copied copy)
    cases there : e0 d with
    | true =>
      refine outcome_deeper responded (by simp [memDataNext, state, hit, bit, there]) (.ttf ?_ stored there)
      rw [responded.tcState]
      simp [tcStateNext, state, hit, bit, there]
    | false =>
      exact outcome_clear responded stored there (by simp [memDataNext, state, hit, bit, there])
        (by simp [tcStateNext, state, hit, bit, there])
  | false =>
    refine outcome_deeper responded (by simp [memDataNext, state, hit]) (.search (.inr (.inr ?_)) stored)
    rw [responded.tcState]
    simp [tcStateNext, state, hit]

theorem answer_tm1f (state : m.tcState = .tm1f) (stored : Stored v flat e0 e1) :
    m.Outcome flat d v (m.tcResp resp) := by
  have responded : m.Responded resp (m.tcResp resp) := responded (by simp [state])
  obtain ⟨block, row, -, -, rdata⟩ := tm1_places here
  obtain ⟨data, -⟩ := answer.right.row (by simp [tcReq, state])
  simp only [TCTagRequest.block, TCTagRequest.row, tcReq, state, block, row] at data
  have bit : m.tm1Rdata resp.data = e1 d := by
    rw [rdata, data]
    exact stored.map1_bit d
  cases there : e1 d with
  | true =>
    refine outcome_deeper responded (by simp [memDataNext, state, bit, there]) (.tm0f ?_ stored there)
    rw [responded.tcState]
    simp [tcStateNext, state, bit, there]
  | false =>
    have absent : e0 d = false := by
      by_contra present
      have top := stored.e1_of_e0 (by simpa using present)
      rw [there] at top
      cases top
    exact outcome_clear responded stored absent (by simp [memDataNext, state, bit, there])
      (by simp [tcStateNext, state, bit, there])

theorem answer_tm0f (state : m.tcState = .tm0f) (stored : Stored v flat e0 e1) (top : e1 d = true) :
    m.Outcome flat d v (m.tcResp resp) := by
  have responded : m.Responded resp (m.tcResp resp) := responded (by simp [state])
  obtain ⟨block, row, -, -, rdata⟩ := tm0_places here
  obtain ⟨data, -⟩ := answer.right.row (by simp [tcReq, state])
  simp only [TCTagRequest.block, TCTagRequest.row, tcReq, state, block, row] at data
  have bit : m.tm0Rdata resp.data = e0 d := by
    rw [rdata, data]
    exact stored.map0_bit top
  cases there : e0 d with
  | true =>
    refine outcome_deeper responded (by simp [memDataNext, state, bit, there]) (.ttf ?_ stored there)
    rw [responded.tcState]
    simp [tcStateNext, state, bit, there]
  | false =>
    exact outcome_clear responded stored there (by simp [memDataNext, state, bit, there])
      (by simp [tcStateNext, state, bit, there])

theorem answer_ttf (state : m.tcState = .ttf) (stored : Stored v flat e0 e1) (there : e0 d = true) :
    m.Outcome flat d v (m.tcResp resp) := by
  have responded : m.Responded resp (m.tcResp resp) := responded (by simp [state])
  obtain ⟨block, row, -, -, rdata⟩ := tt_places here
  obtain ⟨data, -⟩ := answer.right.row (by simp [tcReq, state])
  simp only [TCTagRequest.block, TCTagRequest.row, tcReq, state, block, row] at data
  have tags : m.ttRdata resp.data = flat d := by
    rw [rdata, data]
    exact stored.tags_eq there
  refine outcome_found responded stored ?_ ?_
  · simp only [memDataNext, state, tags]
    exact searchData_flat
  · simp [tcStateNext, state, tags]

/-! What a write collects on its way down. -/

theorem answer_tm1l (state : m.tcState = .tm1l) (stored : Stored v flat e0 e1) (changes : m.Changes flat d) :
    m.Outcome flat d v (m.tcResp resp) := by
  have responded : m.Responded resp (m.tcResp resp) := responded (by simp [state])
  obtain ⟨block, row, -, -, rdata⟩ := tm1_places here
  obtain ⟨data, -⟩ := answer.right.row (by simp [tcReq, state])
  simp only [TCTagRequest.block, TCTagRequest.row, tcReq, state, block, row] at data
  have own : m.memDataNext resp = m.memData := by simp [memDataNext, state]
  have top : (m.tcResp resp).tm1Tag1 = e1 d := by
    rw [responded.tm1Tag1, if_pos state, rdata, data]
    exact stored.map1_bit d
  refine outcome_deeper responded own (.tm0l ?_ stored (changes.keep responded own) top)
  rw [responded.tcState]
  simp [tcStateNext, state]

variable (plain : ∀ b, v.blank b = true → c.inTopMap b = true)

include plain admissible

theorem answer_tm0l (state : m.tcState = .tm0l) (stored : Stored v flat e0 e1) (changes : m.Changes flat d)
    (top : m.tm1Tag1 = e1 d) : m.Outcome flat d v (m.tcResp resp) := by
  have responded : m.Responded resp (m.tcResp resp) := responded (by simp [state])
  obtain ⟨block, row, -, mask, rdata⟩ := tm0_places here
  have own : m.memDataNext resp = m.memData := by simp [memDataNext, state]
  -- Without a block of tag map 0 nothing is fetched, and no tag is set under it.
  have known : (m.tcResp resp).KnowsMap0 d v e0 := by
    cases there : e1 d with
    | true =>
      rw [there] at top
      obtain ⟨data, counted⟩ := answer.right.row (by simp [tcReq, state, top])
      simp only [TCTagRequest.block, TCTagRequest.row, tcReq, state, block, row] at data counted
      have bit := stored.map0_bit there
      refine ⟨?_, fun set => ?_⟩
      · rw [responded.tm0Tag1, if_pos state, top, Bool.true_and, rdata, data, bit]
      · rw [blank_eq_false plain (not_inTopMap_tm0 admissible d)] at counted
        -- The own bit is set, and so its row is one of those that count.
        have some : v.content d.tm0Slot.block d.tm0Slot.row ≠ 0 := by
          intro zero
          rw [zero, set] at bit
          simp at bit
        rw [responded.tm0TagN, if_pos state, top, Bool.true_and, mask]
        exact rest_iff ((DataBlock.tm0Slots admissible).fits d).row some counted data
    | false =>
      have absent : e0 d = false := by
        by_contra present
        have up := stored.e1_of_e0 (by simpa using present)
        rw [there] at up
        cases up
      refine ⟨?_, fun set => ?_⟩
      · rw [responded.tm0Tag1, if_pos state, top, there, Bool.false_and, absent]
      · rw [absent] at set
        cases set
  have top' : (m.tcResp resp).tm1Tag1 = e1 d := by
    rw [responded.tm1Tag1, if_neg (by simp [state])]
    exact top
  refine outcome_deeper responded own (.ttl ?_ stored (changes.keep responded own) top' known)
  rw [responded.tcState]
  simp [tcStateNext, state]

theorem answer_ttl (state : m.tcState = .ttl) (stored : Stored v flat e0 e1) (changes : m.Changes flat d)
    (top : m.tm1Tag1 = e1 d) (map0 : m.KnowsMap0 d v e0) : m.Outcome flat d v (m.tcResp resp) := by
  have responded : m.Responded resp (m.tcResp resp) := responded (by simp [state])
  obtain ⟨block, row, -, mask, -⟩ := tt_places here
  have own : m.memDataNext resp = m.memData := by simp [memDataNext, state]
  have same : (m.tcResp resp).writesTag = m.writesTag := by
    rw [writesTag, writesTag, responded.memData, own, responded.memMask]
  have known : (m.tcResp resp).KnowsTable d v e0 := by
    refine ⟨?_, fun there clear => ?_⟩
    · rw [responded.ttTag1, if_pos state, same]
    · rw [responded.ttTag1, if_pos state] at clear
      have told : m.tm0Tag1 = true := map0.tag1.trans there
      obtain ⟨data, counted⟩ := answer.right.row (by simp [tcReq, state, told])
      simp only [TCTagRequest.block, TCTagRequest.row, tcReq, state, block, row] at data counted
      rw [blank_eq_false plain (not_inTopMap_tt admissible d)] at counted
      -- A write that clears tags has some to clear.
      have some : v.content d.ttSlot.block d.ttSlot.row ≠ 0 := by
        intro zero
        have tags := stored.tags_eq there
        rw [zero] at tags
        have none' : flat d = 0 := tags.symm.trans field_zero
        refine changes.differs ?_
        rw [none']
        simpa [writesTag] using clear
      rw [responded.ttTagN, if_pos state, told, Bool.true_and, responded.memMask, mask]
      exact rest_iff ((DataBlock.ttSlots admissible).fits d).row some counted data
  have top' : (m.tcResp resp).tm1Tag1 = e1 d := by
    rw [responded.tm1Tag1, if_neg (by simp [state])]
    exact top
  have map0' : (m.tcResp resp).KnowsMap0 d v e0 := by
    refine ⟨?_, ?_⟩
    · rw [responded.tm0Tag1, if_neg (by simp [state])]
      exact map0.tag1
    · rw [responded.tm0TagN, if_neg (by simp [state])]
      exact map0.tagN
  refine outcome_deeper responded own (.ttw ?_ stored (changes.keep responded own) top' map0' known)
  rw [responded.tcState]
  simp [tcStateNext, state]

end

end LowRisc.TagCache.MemXactTracker
