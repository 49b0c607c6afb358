import LowRisc.TagCache.Searching

/-! The way up: a write stores its tags and puts the maps right. -/

set_option autoImplicit false

namespace LowRisc.TagCache.MemXactTracker

open LowRisc.Chisel LowRisc.Lib

variable {c : Config} {m : MemXactTracker c} {flat : FlatTags c} {d : DataBlock c} {v v' : View}
  {e0 e1 : DataBlock c → Bool} {id : Nat} {resp : TCTagResp}

theorem Changes.sets (changes : m.Changes flat d) (stored : Stored v flat e0 e1) (absent : e0 d = false) :
    m.writesTag = true := by
  have differs := changes.differs
  have none' : flat d &&& m.memMask = 0 := by
    rw [stored.table.empty d absent]
    exact BitVec.zero_and
  rw [none'] at differs
  exact bne_iff_ne.mpr differs

theorem Changes.goal_eq (changes : m.Changes flat d) (e : DataBlock c) :
    m.goal flat d e = if e = d then masked (flat d) m.memData m.memMask else flat e := by
  rw [goal, want, changes.rw, if_pos rfl]

theorem Changes.outside (changes : m.Changes flat d) : m.memData &&& ~~~m.memMask = flat d &&& ~~~m.memMask := by
  have found := changes.found
  rw [want, changes.rw, if_pos rfl] at found
  apply BitVec.eq_of_getLsbD_eq
  intro j inside
  have bit := congrArg (fun x => x.getLsbD j) found
  simp only [masked, BitVec.getLsbD_or, BitVec.getLsbD_and, BitVec.getLsbD_not, inside, decide_true, Bool.true_and] at bit ⊢
  revert bit
  cases m.memData.getLsbD j <;> cases m.memMask.getLsbD j <;> cases (flat d).getLsbD j <;> simp

structure Climbs (m : MemXactTracker c) (n : MemXactTracker c) : Prop where
  rw : n.rw = m.rw
  goal : ∀ (flat : FlatTags c) (d : DataBlock c), n.goal flat d = m.goal flat d
  tm1Tag1 : n.tm1Tag1 = m.tm1Tag1
  tm0Tag1 : n.tm0Tag1 = m.tm0Tag1
  tm0TagN : n.tm0TagN = m.tm0TagN
  ttTag1 : n.ttTag1 = m.ttTag1
  ttTagN : n.ttTagN = m.ttTagN

theorem Responded.climbs {n : MemXactTracker c} (responded : m.Responded resp n)
    (state : m.tcState = .ttw ∨ m.tcState = .tm0w ∨ m.tcState = .tm1w) : m.Climbs n := by
  have own : m.memDataNext resp = m.memData := by rcases state with state | state | state <;> simp [memDataNext, state]
  have others : m.tcState ≠ .tm1l ∧ m.tcState ≠ .tm0l ∧ m.tcState ≠ .ttl := by
    rcases state with state | state | state <;> simp [state]
  refine ⟨responded.rw, fun flat d => goal_of_responded responded (.inl own), ?_, ?_, ?_, ?_, ?_⟩
  · rw [responded.tm1Tag1, if_neg others.1]
  · rw [responded.tm0Tag1, if_neg others.2.1]
  · rw [responded.tm0TagN, if_neg others.2.1]
  · rw [responded.ttTag1, if_neg others.2.2]
  · rw [responded.ttTagN, if_neg others.2.2]

theorem Climbs.left0 {n : MemXactTracker c} (climbs : m.Climbs n) : n.left0 d e0 = m.left0 d e0 := by
  funext e
  rw [MemXactTracker.left0, MemXactTracker.left0, present0, present0, climbs.ttTag1, climbs.ttTagN]

theorem Climbs.left1 {n : MemXactTracker c} (climbs : m.Climbs n) : n.left1 d e1 = m.left1 d e1 := by
  funext e
  rw [MemXactTracker.left1, MemXactTracker.left1, present1, present1, climbs.ttTag1, climbs.ttTagN, climbs.tm0TagN]

theorem left0_eq (uniform : ∀ e : DataBlock c, e.ttSlot.block = d.ttSlot.block → e0 e = e0 d) (same : m.present0 = e0 d) :
    m.left0 d e0 = e0 := by
  funext e
  rw [left0]
  split
  · rename_i inside
    rw [same, uniform e inside]
  · rfl

theorem left1_eq (uniform : ∀ e : DataBlock c, e.tm0Slot.block = d.tm0Slot.block → e1 e = e1 d)
    (same : m.present1 = e1 d) :
    m.left1 d e1 = e1 := by
  funext e
  rw [left1]
  split
  · rename_i inside
    rw [same, uniform e inside]
  · rfl

theorem uniform_map0 (admissible : c.Admissible) (map0 : Map0 v e1 e0) (e : DataBlock c)
    (same : e.ttSlot.block = d.ttSlot.block) : e0 e = e0 d :=
  ofBool_inj.mp (map0.value_congr ((DataBlock.tm0Slot_eq_iff admissible).mpr same))

theorem uniform_map1 (admissible : c.Admissible) (map1 : Map1 v e1) (e : DataBlock c)
    (same : e.tm0Slot.block = d.tm0Slot.block) : e1 e = e1 d := by
  have first := map1 e
  rw [(DataBlock.tm1Slot_eq_iff admissible).mpr same, map1 d] at first
  exact ofBool_inj.mp first.symm

theorem tm0wOp_quiet : m.tm0wOp = .u ↔ m.present0 = m.tm0Tag1 := by
  unfold tm0wOp present0
  split
  · rename_i same
    simpa using same
  · rename_i other
    refine iff_of_false ?_ fun same => other (beq_iff_eq.mpr same)
    split
    · simp
    · split <;> simp

theorem tm1wOp_quiet : m.tm1wOp = .u ↔ m.present1 = m.tm1Tag1 := by
  unfold tm1wOp present1
  split
  · rename_i same
    simpa using same
  · rename_i other
    exact iff_of_false (by simp) fun same => other (beq_iff_eq.mpr same)

theorem outcome_tm0w (state : m.tcState = .tm0w) (table : Table v (m.left0 d e0) (m.goal flat d))
    (map0 : Map0 v (m.left1 d e1) (m.left0 d e0)) (map1 : Map1 v e1) (top : m.tm1Tag1 = e1 d) (writes : m.rw = true) :
    m.Outcome flat d v (m.tcResp resp) := by
  have responded : m.Responded resp (m.tcResp resp) := responded (by simp [state])
  have climbs := responded.climbs (.inr (.inl state))
  have next : (m.tcResp resp).tcState = .tm1w := by
    rw [responded.tcState]
    simp [tcStateNext, state]
  have table' : Table v ((m.tcResp resp).left0 d e0) ((m.tcResp resp).goal flat d) := by
    rw [climbs.left0, climbs.goal]
    exact table
  have map0' : Map0 v ((m.tcResp resp).left1 d e1) ((m.tcResp resp).left0 d e0) := by
    rw [climbs.left0, climbs.left1]
    exact map0
  exact .goes (.tm1w next table' map0' map1 (climbs.tm1Tag1.trans top) (climbs.rw.trans writes)) (climbs.goal flat d)

theorem outcome_tm1w (state : m.tcState = .tm1w) (stored : Stored v (m.goal flat d) (m.left0 d e0) (m.left1 d e1))
    (writes : m.rw = true) : m.Outcome flat d v (m.tcResp resp) := by
  have responded : m.Responded resp (m.tcResp resp) := responded (by simp [state])
  refine .ends ?_ stored fun read => ?_
  · rw [responded.tcState]
    simp [tcStateNext, state]
  · rw [writes] at read
    cases read

/-! The tag table. -/

section
variable (admissible : c.Admissible) (here : m.At d) (takes : v.Takes (m.tcReq id) v')

include admissible here takes

/-- The table with the new tags, without the block that they leave empty. -/
theorem table_ttw (state : m.tcState = .ttw) (stored : Stored v flat e0 e1) (changes : m.Changes flat d)
    (map0 : m.KnowsMap0 d v e0) (table : m.KnowsTable d v e0) : Table v' (m.left0 d e0) (m.goal flat d) := by
  obtain ⟨block, row, data, mask, -⟩ := tt_places here
  have slots := DataBlock.ttSlots admissible
  have block' : (m.tcReq id).block = d.ttSlot.block := by simp only [TCTagRequest.block, tcReq, state, block]
  have row' : (m.tcReq id).row = d.ttSlot.row := by simp only [TCTagRequest.row, tcReq, state, row]
  have op' : (m.tcReq id).op = m.ttwOp := by simp only [tcReq, state]
  have data' : (m.tcReq id).data = spread 64 m.memData d.ttSlot.shift := by simp only [tcReq, state, data]
  have mask' : (m.tcReq id).mask = spread 64 m.memMask d.ttSlot.shift := by simp only [tcReq, state, mask]
  have told : m.ttTag1 = true ↔ m.memData &&& m.memMask ≠ 0 := by rw [table.tag1, writesTag, bne_iff_ne]
  -- The registers tell whether the write leaves tags in the block.
  have fills : m.present0 = true ↔
      Filled 8 (d.ttSlot.put (Sparse.base DataBlock.ttSlot v.content e0 d) m.memData m.memMask) := by
    rw [filled_put_iff (slots.fits d), ← told, present0, Bool.or_eq_true]
    cases new : m.ttTag1 with
    | true => simp
    | false =>
      have there : e0 d = true := by
        by_contra absent
        have sets := changes.sets stored (by simpa using absent)
        rw [← table.tag1, new] at sets
        cases sets
      rw [table.tagN there new, Sparse.base, there, if_pos rfl, Rest]
  have updated : Table v' (fun e => if e.ttSlot.block = d.ttSlot.block then m.present0 else e0 e)
      (fun e => if e.ttSlot = d.ttSlot then masked (flat d) m.memData m.memMask else flat e) := by
    refine stored.table.update slots m.memData m.memMask (fun b other => takes.others b (by rwa [block']))
      (fun b other => takes.copies b (by rwa [block'])) fills (fun left => ?_) fun gone => ?_
    · rw [present0] at left
      by_cases create : (!m.tm0Tag1 && m.ttTag1) = true
      · have op : m.ttwOp = .c := by
          rw [ttwOp, if_pos create, if_neg]
          simp only [Bool.and_eq_true] at create
          simp [create.2]
        have absent : e0 d = false := by
          rw [← map0.tag1]
          simp only [Bool.and_eq_true, Bool.not_eq_true'] at create
          exact create.1
        have fresh := takes.fresh (op'.trans op) (by rw [block']; exact stored.table.lacking d absent)
        rw [block', row', data', mask'] at fresh
        rw [fresh, Slot.put, Sparse.base, absent, if_neg Bool.false_ne_true]
        simp [masked]
      · have op : m.ttwOp = .w := by
          rw [ttwOp, if_neg create, if_neg]
          intro clear
          simp only [Bool.and_eq_true, Bool.not_eq_true'] at clear
          simp [clear] at left
        have there : e0 d = true := by
          by_contra absent
          have absent : e0 d = false := by simpa using absent
          have sets := changes.sets stored absent
          rw [map0.tag1, absent, table.tag1, sets] at create
          exact create rfl
        have write := takes.effect.write (op'.trans op)
        rw [block', row', data', mask'] at write
        rw [write (and_of_field (slots.fits d).bits (stored.tags_eq there) changes.outside), Slot.put, Sparse.base, there,
          if_pos rfl]
    · have op : m.ttwOp = .i := by
        rw [present0, Bool.or_eq_false_iff] at gone
        simp [ttwOp, gone]
      have dropped := takes.drops (op'.trans op)
      rwa [block'] at dropped
  have goals : m.goal flat d = fun e => if e.ttSlot = d.ttSlot then masked (flat d) m.memData m.memMask else flat e := by
    funext e
    rw [changes.goal_eq]
    exact if_congr (DataBlock.ttSlot_inj admissible).symm rfl rfl
  rw [goals]
  exact updated

theorem update_ttw (state : m.tcState = .ttw) (stored : Stored v flat e0 e1) (changes : m.Changes flat d)
    (top : m.tm1Tag1 = e1 d) (map0 : m.KnowsMap0 d v e0) (table : m.KnowsTable d v e0) :
    m.Outcome flat d v' (m.tcResp resp) := by
  have responded : m.Responded resp (m.tcResp resp) := responded (by simp [state])
  have climbs := responded.climbs (.inl state)
  have block' : (m.tcReq id).block = d.ttSlot.block := by simp only [TCTagRequest.block, tcReq, state, (tt_places here).1]
  have table' := table_ttw admissible here takes state stored changes map0 table
  have next : (m.tcResp resp).tcState = .tm0w := by
    rw [responded.tcState]
    simp [tcStateNext, state]
  have apart0 : ∀ e : DataBlock c, v'.content e.tm0Slot.block = v.content e.tm0Slot.block := fun e =>
    takes.others _ (by rw [block']; exact (ttBlock_ne_tm0Block admissible d e).symm)
  have apart1 : ∀ e : DataBlock c, v'.content e.tm1Slot.block = v.content e.tm1Slot.block := fun e =>
    takes.others _ (by rw [block']; exact (ttBlock_ne_tm1Block admissible d e).symm)
  have known : (m.tcResp resp).KnowsMap0 d v' e0 := by
    refine KnowsMap0.congr ⟨?_, ?_⟩ (apart0 d)
    · rw [climbs.tm0Tag1]
      exact map0.tag1
    · rw [climbs.tm0TagN]
      exact map0.tagN
  refine .goes (.tm0w next ?_ ?_ (stored.map1.congr apart1) (climbs.tm1Tag1.trans top) known ?_
    (climbs.rw.trans changes.rw)) (climbs.goal flat d)
  · rw [climbs.left0, climbs.goal]
    exact table'
  · exact stored.map0.frame apart0 fun e copy =>
      .inl (takes.copies _ (by rw [block']; exact (ttBlock_ne_tm0Block admissible d e).symm) copy)
  · intro absent
    rw [climbs.ttTag1, table.tag1]
    exact changes.sets stored absent

/-! Tag map 0. -/

/-- The block of tag map 0 with the new bit, or gone with its last one. -/
theorem map0_tm0w (state : m.tcState = .tm0w) (map0 : Map0 v e1 e0) (top : m.tm1Tag1 = e1 d) (known : m.KnowsMap0 d v e0)
    (new : e0 d = false → m.ttTag1 = true) (differs : m.present0 ≠ e0 d) :
    Map0 v' (m.left1 d e1) (m.left0 d e0) := by
  obtain ⟨block, row, data, mask, -⟩ := tm0_places here
  have slots := DataBlock.tm0Slots admissible
  have block' : (m.tcReq id).block = d.tm0Slot.block := by simp only [TCTagRequest.block, tcReq, state, block]
  have row' : (m.tcReq id).row = d.tm0Slot.row := by simp only [TCTagRequest.row, tcReq, state, row]
  have op' : (m.tcReq id).op = m.tm0wOp := by simp only [tcReq, state]
  have data' : (m.tcReq id).data = spread 64 (BitVec.ofBool m.present0) d.tm0Slot.shift := by
    simp only [tcReq, state, data, present0]
  have mask' : (m.tcReq id).mask = spread 64 1#1 d.tm0Slot.shift := by simp only [tcReq, state, mask]
  have changed : ¬((m.ttTag1 || m.ttTagN) == m.tm0Tag1) = true := by
    rw [known.tag1, beq_iff_eq]
    exact differs
  have whole : ∀ b : Bool, BitVec.ofBool b &&& 1#1 ≠ 0 ↔ b = true := by decide
  -- A bit that is cleared was set, and so its block is there.
  have there : m.present0 = false → e0 d = true ∧ e1 d = true := by
    intro clear
    have set : e0 d = true := by
      cases value : e0 d with
      | true => rfl
      | false => exact absurd (clear.trans value.symm) differs
    refine ⟨set, ?_⟩
    by_contra absent
    have zero := mapBit_eq_zero.mp (map0.empty d (by simpa using absent))
    rw [set] at zero
    cases zero
  -- The registers tell whether the write leaves bits in the block.
  have fills : m.present1 = true ↔
      Filled 8 (d.tm0Slot.put (Sparse.base DataBlock.tm0Slot v.content e1 d) (BitVec.ofBool m.present0) 1#1) := by
    rw [filled_put_iff (slots.fits d), whole]
    have split' : m.present1 = (m.present0 || m.tm0TagN) := rfl
    rw [split', Bool.or_eq_true]
    cases value : m.present0 with
    | true => simp
    | false =>
      obtain ⟨set, inside⟩ := there value
      rw [known.tagN set, Sparse.base, inside, if_pos rfl, Rest]
  have updated : Sparse 8 DataBlock.tm0Slot v'.content v'.copied
      (fun e => if e.tm0Slot.block = d.tm0Slot.block then m.present1 else e1 e)
      (fun e => if e.tm0Slot = d.tm0Slot then masked (mapBit e0 d) (BitVec.ofBool m.present0) 1#1 else mapBit e0 e) := by
    refine map0.update slots (BitVec.ofBool m.present0) 1#1 (fun b other => takes.others b (by rwa [block']))
      (fun b other => takes.copies b (by rwa [block'])) fills (fun left => ?_) fun gone => ?_
    · have some : ¬(!m.ttTag1 && !m.ttTagN && !m.tm0TagN) = true := by
        intro clear
        simp only [Bool.and_eq_true, Bool.not_eq_true'] at clear
        simp [present1, clear] at left
      by_cases create : (!m.tm1Tag1 && m.ttTag1) = true
      · have op : m.tm0wOp = .c := by rw [tm0wOp, if_neg changed, if_neg some, if_pos create]
        have absent : e1 d = false := by
          rw [← top]
          simp only [Bool.and_eq_true, Bool.not_eq_true'] at create
          exact create.1
        have fresh := takes.fresh (op'.trans op) (by rw [block']; exact map0.lacking d absent)
        rw [block', row', data', mask'] at fresh
        rw [fresh, Slot.put, Sparse.base, absent, if_neg Bool.false_ne_true]
        simp [masked]
      · have op : m.tm0wOp = .w := by rw [tm0wOp, if_neg changed, if_neg some, if_neg create]
        have inside : e1 d = true := by
          by_contra absent
          have absent : e1 d = false := by simpa using absent
          have sets : m.ttTag1 = true := by
            refine new ?_
            exact mapBit_eq_zero.mp (map0.empty d absent)
          rw [top, absent, sets] at create
          exact create rfl
        have write := takes.effect.write (op'.trans op)
        rw [block', row', data', mask'] at write
        have bits : BitVec.ofBool m.present0 &&& ~~~1#1 = mapBit e0 d &&& ~~~1#1 := by
          cases m.present0 <;> cases value : e0 d <;> simp [mapBit, value]
        rw [write (and_of_field (slots.fits d).bits (map0.held d inside) bits), Slot.put, Sparse.base, inside, if_pos rfl]
    · have op : m.tm0wOp = .i := by
        simp only [present1, Bool.or_eq_false_iff] at gone
        rw [tm0wOp, if_neg changed, if_pos]
        simp [gone]
      have dropped := takes.drops (op'.trans op)
      rwa [block'] at dropped
  have values : mapBit (m.left0 d e0) = fun e => if e.tm0Slot = d.tm0Slot then
      masked (mapBit e0 d) (BitVec.ofBool m.present0) 1#1 else mapBit e0 e := by
    have bit : ∀ a b : Bool, masked (BitVec.ofBool a) (BitVec.ofBool b) 1#1 = BitVec.ofBool b := by decide
    funext e
    rw [mapBit, left0, bit]
    by_cases same : e.ttSlot.block = d.ttSlot.block
    · rw [if_pos same, if_pos ((DataBlock.tm0Slot_eq_iff admissible).mpr same)]
    · rw [if_neg same, if_neg fun eq => same ((DataBlock.tm0Slot_eq_iff admissible).mp eq)]
  rw [Map0, values]
  exact updated

theorem update_tm0w (state : m.tcState = .tm0w) (table : Table v (m.left0 d e0) (m.goal flat d)) (map0 : Map0 v e1 e0)
    (map1 : Map1 v e1) (top : m.tm1Tag1 = e1 d) (known : m.KnowsMap0 d v e0) (new : e0 d = false → m.ttTag1 = true)
    (writes : m.rw = true) (op : (m.tcReq id).op.isWrite = true) : m.Outcome flat d v' (m.tcResp resp) := by
  have block' : (m.tcReq id).block = d.tm0Slot.block := by simp only [TCTagRequest.block, tcReq, state, (tm0_places here).1]
  have differs : m.present0 ≠ e0 d := by
    intro same
    rw [← known.tag1] at same
    simp only [tcReq, state, tm0wOp_quiet.mpr same] at op
    cases op
  have map0' := map0_tm0w admissible here takes state map0 top known new differs
  have apart : ∀ e : DataBlock c, e.ttSlot.block ≠ (m.tcReq id).block := fun e => by
    rw [block']
    exact ttBlock_ne_tm0Block admissible e d
  have apart1 : ∀ e : DataBlock c, v'.content e.tm1Slot.block = v.content e.tm1Slot.block := fun e =>
    takes.others _ (by rw [block']; exact (tm0Block_ne_tm1Block admissible d e).symm)
  exact outcome_tm0w state (table.frame (fun e => takes.others _ (apart e)) fun e copy => .inl (takes.copies _ (apart e) copy))
    map0' (map1.congr apart1) top writes

/-! Tag map 1. -/

theorem map1_tm1w (state : m.tcState = .tm1w) (map1 : Map1 v e1) (top : m.tm1Tag1 = e1 d) (differs : m.present1 ≠ e1 d) :
    Map1 v' (m.left1 d e1) := by
  obtain ⟨block, row, data, mask, -⟩ := tm1_places here
  have slots := DataBlock.tm1Slots admissible
  have block' : (m.tcReq id).block = d.tm1Slot.block := by simp only [TCTagRequest.block, tcReq, state, block]
  have row' : (m.tcReq id).row = d.tm1Slot.row := by simp only [TCTagRequest.row, tcReq, state, row]
  have data' : (m.tcReq id).data = spread 64 (BitVec.ofBool m.present1) d.tm1Slot.shift := by
    simp only [tcReq, state, data, present1]
  have mask' : (m.tcReq id).mask = spread 64 1#1 d.tm1Slot.shift := by simp only [tcReq, state, mask]
  have op : (m.tcReq id).op = .w := by
    simp only [tcReq, state]
    rw [tm1wOp, if_neg]
    rw [top, beq_iff_eq]
    exact differs
  have write := takes.effect.write op
  rw [block', row', data', mask'] at write
  -- One bit leaves no others to agree on.
  have bits : BitVec.ofBool m.present1 &&& ~~~1#1 = mapBit e1 d &&& ~~~1#1 := by
    cases m.present1 <;> cases value : e1 d <;> simp [mapBit, value]
  have own : v'.content d.tm1Slot.block = d.tm1Slot.put (v.content d.tm1Slot.block) (BitVec.ofBool m.present1) 1#1 :=
    write (and_of_field (slots.fits d).bits (map1 d) bits)
  intro e
  rw [mapBit, left1]
  by_cases same : e.tm1Slot = d.tm1Slot
  · have bit : ∀ a b : Bool, masked (BitVec.ofBool a) (BitVec.ofBool b) 1#1 = BitVec.ofBool b := by decide
    have old := map1 d
    rw [Slot.get] at old
    rw [if_pos ((DataBlock.tm1Slot_eq_iff admissible).mp same), same, Slot.get, own, Slot.field_put_same (slots.fits d), old, bit]
  · rw [if_neg fun eq => same ((DataBlock.tm1Slot_eq_iff admissible).mpr eq)]
    refine Eq.trans ?_ (map1 e)
    rw [Slot.get, Slot.get]
    by_cases there : e.tm1Slot.block = d.tm1Slot.block
    · have apart := ((slots.cases d e).resolve_left (Ne.symm same)).resolve_left fun other => other there.symm
      rw [there, own, Slot.field_put_apart apart]
    · rw [takes.others _ (by rwa [block'])]

theorem update_tm1w (state : m.tcState = .tm1w) (table : Table v (m.left0 d e0) (m.goal flat d))
    (map0 : Map0 v (m.left1 d e1) (m.left0 d e0)) (map1 : Map1 v e1) (top : m.tm1Tag1 = e1 d) (writes : m.rw = true)
    (op : (m.tcReq id).op.isWrite = true) : m.Outcome flat d v' (m.tcResp resp) := by
  have block' : (m.tcReq id).block = d.tm1Slot.block := by simp only [TCTagRequest.block, tcReq, state, (tm1_places here).1]
  have differs : m.present1 ≠ e1 d := by
    intro same
    rw [← top] at same
    simp only [tcReq, state, tm1wOp_quiet.mpr same] at op
    cases op
  have map1' := map1_tm1w admissible here takes state map1 top differs
  have apart : ∀ e : DataBlock c, e.ttSlot.block ≠ (m.tcReq id).block := fun e => by
    rw [block']
    exact ttBlock_ne_tm1Block admissible e d
  have apart0 : ∀ e : DataBlock c, e.tm0Slot.block ≠ (m.tcReq id).block := fun e => by
    rw [block']
    exact tm0Block_ne_tm1Block admissible e d
  exact outcome_tm1w state ⟨table.frame (fun e => takes.others _ (apart e)) fun e copy => .inl (takes.copies _ (apart e) copy),
    map0.frame (fun e => takes.others _ (apart0 e)) fun e copy => .inl (takes.copies _ (apart0 e) copy), map1'⟩ writes

end

/-! Every response. -/

/-- A write has its effect when its metadata are read, and is answered at once. -/
theorem Phase.update (admissible : c.Admissible) (here : m.At d) (phase : m.Phase flat d v)
    (takes : v.Takes (m.tcReq id) v')
    (write : (m.tcReq id).op.isWrite = true) : m.Outcome flat d v' (m.tcResp resp) := by
  cases phase with
  | search state =>
    rcases state with state | state | state
    all_goals
      simp only [tcReq, state] at write
      cases write
  | tm0f state | ttf state | tm1l state =>
    simp only [tcReq, state] at write
    cases write
  | tm0l state | ttl state =>
    simp only [tcReq, state] at write
    split at write <;> cases write
  | ttw state stored changes top map0 table => exact update_ttw admissible here takes state stored changes top map0 table
  | tm0w state table map0 map1 top known new writes =>
    exact update_tm0w admissible here takes state table map0 map1 top known new writes write
  | tm1w state table map0 map1 top writes => exact update_tm1w admissible here takes state table map0 map1 top writes write

theorem Phase.answer (admissible : c.Admissible) (here : m.At d) (phase : m.Phase flat d v)
    (answer : v.Answer (m.tcReq id) resp)
    (plain : ∀ b, v.blank b = true → c.inTopMap b = true) (read : (m.tcReq id).op.isWrite = false) :
    m.Outcome flat d v (m.tcResp resp) := by
  cases phase with
  | search state stored =>
    rcases state with state | state | state
    · exact answer_ttr here answer state stored
    · exact answer_tm0r here answer state stored
    · exact answer_tm1f here answer state stored
  | tm0f state stored there => exact answer_tm0f here answer state stored there
  | ttf state stored there => exact answer_ttf here answer state stored there
  | tm1l state stored changes => exact answer_tm1l here answer state stored changes
  | tm0l state stored changes top => exact answer_tm0l admissible here answer plain state stored changes top
  | ttl state stored changes top map0 => exact answer_ttl admissible here answer plain state stored changes top map0
  | ttw state =>
    simp only [tcReq, state] at read
    rw [ttwOp_isWrite] at read
    cases read
  | @tm0w e0 e1 state table map0 map1 top known new writes =>
    simp only [tcReq, state] at read
    have same := tm0wOp_quiet.mp (tm0wOp_eq_u read)
    rw [known.tag1] at same
    -- nothing was to be changed, so the bit is what it was before the write
    have present : m.present1 = e1 d := by
      have split' : m.present1 = (m.present0 || m.tm0TagN) := rfl
      cases value : e0 d with
      | true =>
        have inside : e1 d = true := by
          by_contra absent
          have zero := mapBit_eq_zero.mp (map0.empty d (by simpa using absent))
          rw [value] at zero
          cases zero
        rw [split', same, value, inside, Bool.true_or]
      | false =>
        have sets := new value
        rw [present0, sets, value] at same
        cases same
    refine outcome_tm0w state table ?_ map1 top writes
    rw [left0_eq (uniform_map0 admissible map0) same, left1_eq (fun e inside => map0.uniform e d inside) present]
    exact map0
  -- the top bit stands already
  | @tm1w e0 e1 state table map0 map1 top writes =>
    simp only [tcReq, state] at read
    have same := tm1wOp_quiet.mp (tm1wOp_eq_u read)
    rw [top] at same
    have left := left1_eq (uniform_map1 admissible map1) same
    refine outcome_tm1w state ⟨table, map0, ?_⟩ writes
    rw [left]
    exact map1

end LowRisc.TagCache.MemXactTracker
