import LowRisc.TagCache.Levels

/-! A block transaction, response by response.

The search ends with the tags of the block. A write that changes them then collects, on its way
down, what the three levels hold beside its own entries, and decides from that on its way up which
blocks to create, to write and to drop.
-/

set_option autoImplicit false

namespace LowRisc.TagCache

open LowRisc.Chisel LowRisc.Lib

variable {c : Config}

namespace MemXactTracker

def At (m : MemXactTracker c) (d : DataBlock c) : Prop := m.memAddr = d.addr

section
variable {m : MemXactTracker c} {d : DataBlock c}

/-! The request bits in terms of the places. -/

theorem tt_places (here : m.At d) : Config.blockOf m.ttAddr = d.ttSlot.block ∧ Config.rowOf m.ttAddr = d.ttSlot.row ∧
    m.ttWdata = spread 64 m.memData d.ttSlot.shift ∧ m.ttWmask = spread 64 m.memMask d.ttSlot.shift ∧
    ∀ row, m.ttRdata row = field c.tg.cacheBlockTagBits row d.ttSlot.shift := by
  rw [At] at here
  simp only [ttAddr, ttWdata, ttWmask, ttRdata, ttShift, here]
  exact ⟨rfl, rfl, rfl, rfl, fun _ => rfl⟩

theorem spread_one (shift : Nat) : spread 64 1#1 shift = 1#64 <<< shift := rfl

theorem tm0_places (here : m.At d) : Config.blockOf m.tm0Addr = d.tm0Slot.block ∧ Config.rowOf m.tm0Addr = d.tm0Slot.row ∧
    m.tm0Wdata = spread 64 (BitVec.ofBool (m.ttTag1 || m.ttTagN)) d.tm0Slot.shift ∧
    m.tm0Wmask = spread 64 1#1 d.tm0Slot.shift ∧ ∀ row, m.tm0Rdata row = row.getLsbD d.tm0Slot.shift := by
  rw [At] at here
  simp only [tm0Addr, tm0Wdata, tm0Wmask, tm0Rdata, tm0BitIndex, here, spread_one]
  exact ⟨rfl, rfl, rfl, rfl, fun _ => rfl⟩

theorem tm1_places (here : m.At d) : Config.blockOf m.tm1Addr = d.tm1Slot.block ∧ Config.rowOf m.tm1Addr = d.tm1Slot.row ∧
    m.tm1Wdata = spread 64 (BitVec.ofBool (m.ttTag1 || m.ttTagN || m.tm0TagN)) d.tm1Slot.shift ∧
    m.tm1Wmask = spread 64 1#1 d.tm1Slot.shift ∧ ∀ row, m.tm1Rdata row = row.getLsbD d.tm1Slot.shift := by
  rw [At] at here
  simp only [tm1Addr, tm1Wdata, tm1Wmask, tm1Rdata, tm1BitIndex, here, spread_one]
  exact ⟨rfl, rfl, rfl, rfl, fun _ => rfl⟩

end

/-! What a transaction is to leave. -/

variable (m : MemXactTracker c) (flat : FlatTags c) (d : DataBlock c)

def want : BlockTags c := if m.rw then masked (flat d) m.memData m.memMask else flat d

def goal : FlatTags c := fun e => if e = d then m.want flat d else flat e

structure Changes : Prop where
  rw : m.rw = true
  found : m.memData = m.want flat d
  differs : m.memData &&& m.memMask ≠ flat d &&& m.memMask

structure KnowsMap0 (v : View) (e0 : DataBlock c → Bool) : Prop where
  tag1 : m.tm0Tag1 = e0 d
  tagN : e0 d = true → (m.tm0TagN = true ↔ Rest v d.tm0Slot 1#1)

structure KnowsTable (v : View) (e0 : DataBlock c → Bool) : Prop where
  tag1 : m.ttTag1 = m.writesTag
  tagN : e0 d = true → m.ttTag1 = false → (m.ttTagN = true ↔ Rest v d.ttSlot m.memMask)

/-- Tags are left in the block of the tag table, and bits in the block of tag map 0. -/
def present0 : Bool := m.ttTag1 || m.ttTagN
def present1 : Bool := m.ttTag1 || m.ttTagN || m.tm0TagN

/-- The entries of tag map 0 and of tag map 1 that the write is to leave. -/
def left0 (e0 : DataBlock c → Bool) : DataBlock c → Bool := fun e =>
  if e.ttSlot.block = d.ttSlot.block then m.present0 else e0 e

def left1 (e1 : DataBlock c → Bool) : DataBlock c → Bool := fun e =>
  if e.tm0Slot.block = d.tm0Slot.block then m.present1 else e1 e

/-- Where a transaction stands, in front of the response to its next request. -/
inductive Phase (v : View) : Prop where
  | search {e0 e1 : DataBlock c → Bool} (state : m.tcState = .ttr ∨ m.tcState = .tm0r ∨ m.tcState = .tm1f)
      (stored : Stored v flat e0 e1)
  | tm0f {e0 e1 : DataBlock c → Bool} (state : m.tcState = .tm0f) (stored : Stored v flat e0 e1)
      (there : e1 d = true)
  | ttf {e0 e1 : DataBlock c → Bool} (state : m.tcState = .ttf) (stored : Stored v flat e0 e1)
      (there : e0 d = true)
  | tm1l {e0 e1 : DataBlock c → Bool} (state : m.tcState = .tm1l) (stored : Stored v flat e0 e1)
      (changes : m.Changes flat d)
  | tm0l {e0 e1 : DataBlock c → Bool} (state : m.tcState = .tm0l) (stored : Stored v flat e0 e1)
      (changes : m.Changes flat d) (top : m.tm1Tag1 = e1 d)
  | ttl {e0 e1 : DataBlock c → Bool} (state : m.tcState = .ttl) (stored : Stored v flat e0 e1)
      (changes : m.Changes flat d) (top : m.tm1Tag1 = e1 d) (map0 : m.KnowsMap0 d v e0)
  | ttw {e0 e1 : DataBlock c → Bool} (state : m.tcState = .ttw) (stored : Stored v flat e0 e1)
      (changes : m.Changes flat d) (top : m.tm1Tag1 = e1 d) (map0 : m.KnowsMap0 d v e0)
      (table : m.KnowsTable d v e0)
  | tm0w {e0 e1 : DataBlock c → Bool} (state : m.tcState = .tm0w)
      (table : Table v (m.left0 d e0) (m.goal flat d)) (map0 : Map0 v e1 e0) (map1 : Map1 v e1)
      (top : m.tm1Tag1 = e1 d) (known : m.KnowsMap0 d v e0) (new : e0 d = false → m.ttTag1 = true) (writes : m.rw = true)
  | tm1w {e0 e1 : DataBlock c → Bool} (state : m.tcState = .tm1w)
      (table : Table v (m.left0 d e0) (m.goal flat d))
      (map0 : Map0 v (m.left1 d e1) (m.left0 d e0)) (map1 : Map1 v e1) (top : m.tm1Tag1 = e1 d)
      (writes : m.rw = true)

variable {m flat d} {v v' : View} {e0 e1 : DataBlock c → Bool}
  {id : Nat} {resp : TCTagResp}

theorem searchData_flat : m.searchData (flat d) = m.want flat d := by
  cases write : m.rw with
  | true => simp [searchData, want, write, masked]
  | false => simp [searchData, want, write]

theorem want_of_found {n : MemXactTracker c} (rw : n.rw = m.rw) (mask : n.memMask = m.memMask)
    (data : n.memData = m.memData ∨ n.memData = m.want flat d) : n.want flat d = m.want flat d := by
  rcases data with same | found
  · rw [want, want, rw, mask, same]
  · cases write : m.rw with
    | true =>
      rw [want, want, rw, mask, found, want, write]
      simp only [if_true]
      apply BitVec.eq_of_getLsbD_eq
      intro j inside
      simp only [masked, BitVec.getLsbD_or, BitVec.getLsbD_and, BitVec.getLsbD_not, inside, decide_true, Bool.true_and]
      cases m.memMask.getLsbD j <;> cases m.memData.getLsbD j <;> cases (flat d).getLsbD j <;> rfl
    | false => simp [want, rw, write]

theorem goal_of_same (same : m.rw = true → m.memData &&& m.memMask = flat d &&& m.memMask) : m.goal flat d = flat := by
  funext e
  rw [goal]
  split
  · rename_i here
    rw [here, want]
    split
    · rename_i write
      rw [masked, same write]
      exact masked_self (flat d) m.memMask
    · rfl
  · rfl

theorem KnowsMap0.congr (known : m.KnowsMap0 d v e0) (same : v'.content d.tm0Slot.block = v.content d.tm0Slot.block) :
    m.KnowsMap0 d v' e0 :=
  ⟨known.tag1, fun there => (known.tagN there).trans (Rest.congr same).symm⟩

/-! Reads change nothing but the copies. -/

theorem effect_same {req : TCTagRequest} (takes : v.Takes req v') (quiet : req.op.isWrite = false) :
    v'.content = v.content := by
  funext b
  by_cases there : b = req.block
  · rw [there, takes.same quiet]
  · exact takes.others b there

theorem Stored.read_top (admissible : c.Admissible) (here : m.At d) {req : TCTagRequest} (addr : req.addr = m.tm1Addr)
    (stored : Stored v flat e0 e1) (takes : v.Takes req v')
    (quiet : req.op.isWrite = false) : Stored v' flat e0 e1 := by
  refine stored.read takes quiet (fun _ e same => ?_) fun _ e same => ?_
  · rw [TCTagRequest.block, addr, (tm1_places here).1] at same
    exact absurd same (ttBlock_ne_tm1Block admissible e d)
  · rw [TCTagRequest.block, addr, (tm1_places here).1] at same
    exact absurd same (tm0Block_ne_tm1Block admissible e d)

theorem Stored.read_map0 (admissible : c.Admissible) (here : m.At d) {req : TCTagRequest} (addr : req.addr = m.tm0Addr)
    (stored : Stored v flat e0 e1) (takes : v.Takes req v')
    (quiet : req.op.isWrite = false) (fetch : req.op = .fr ∨ req.op = .fl → e1 d = true) :
    Stored v' flat e0 e1 := by
  refine stored.read takes quiet (fun _ e same => ?_) fun fetches e same => ?_
  · rw [TCTagRequest.block, addr, (tm0_places here).1] at same
    exact absurd same (ttBlock_ne_tm0Block admissible e d)
  · rw [TCTagRequest.block, addr, (tm0_places here).1] at same
    exact (stored.map0.uniform e d same).trans (fetch fetches)

theorem Stored.read_table (admissible : c.Admissible) (here : m.At d) {req : TCTagRequest} (addr : req.addr = m.ttAddr)
    (stored : Stored v flat e0 e1) (takes : v.Takes req v')
    (quiet : req.op.isWrite = false) (fetch : req.op = .fr ∨ req.op = .fl → e0 d = true) :
    Stored v' flat e0 e1 := by
  refine stored.read takes quiet (fun fetches e same => ?_) fun _ e same => ?_
  · rw [TCTagRequest.block, addr, (tt_places here).1] at same
    exact (stored.table.uniform e d same).trans (fetch fetches)
  · rw [TCTagRequest.block, addr, (tt_places here).1] at same
    exact absurd same.symm (ttBlock_ne_tm0Block admissible d e)

theorem ttwOp_isWrite (m : MemXactTracker c) : m.ttwOp.isWrite = true := by
  unfold ttwOp
  split
  · rfl
  · split <;> rfl

theorem tm0wOp_eq_u (quiet : m.tm0wOp.isWrite = false) : m.tm0wOp = .u := by
  unfold tm0wOp at quiet ⊢
  split
  · rfl
  · rename_i other
    rw [if_neg other] at quiet
    split at quiet
    · cases quiet
    · split at quiet <;> cases quiet

theorem tm1wOp_eq_u (quiet : m.tm1wOp.isWrite = false) : m.tm1wOp = .u := by
  unfold tm1wOp at quiet ⊢
  split
  · rfl
  · rename_i other
    rw [if_neg other] at quiet
    cases quiet

theorem effect_copies {req : TCTagRequest} (takes : v.Takes req v')
    (stays : req.op = .r ∨ req.op = .l ∨ req.op = .u) (b : Nat) (copy : v'.copied b) : v.copied b := by
  by_cases there : b = req.block
  · rw [there] at copy ⊢
    exact takes.stays stays copy
  · exact takes.copies b there copy

/-- A lock request fetches only when told to. -/
theorem of_fetches {b : Bool} (fetch : (if b then TCTagOp.fl else .l) = .fr ∨ (if b then TCTagOp.fl else .l) = .fl) :
    b = true := by
  cases b with
  | true => rfl
  | false => rcases fetch with op | op <;> cases op

theorem Phase.read (admissible : c.Admissible) (here : m.At d) (phase : m.Phase flat d v)
    (takes : v.Takes (m.tcReq id) v') (quiet : (m.tcReq id).op.isWrite = false) :
    m.Phase flat d v' := by
  have same := effect_same takes quiet
  cases phase with
  | @search e0 e1 state stored =>
    have next : Stored v' flat e0 e1 := by
      rcases state with state | state | state
      · exact Stored.read_table admissible here (by simp [tcReq, state]) stored takes quiet (by simp [tcReq, state])
      · exact Stored.read_map0 admissible here (by simp [tcReq, state]) stored takes quiet (by simp [tcReq, state])
      · exact Stored.read_top admissible here (by simp [tcReq, state]) stored takes quiet
    exact .search state next
  | tm0f state stored there =>
    exact .tm0f state (Stored.read_map0 admissible here (by simp [tcReq, state]) stored takes quiet fun _ => there) there
  | ttf state stored there =>
    exact .ttf state (Stored.read_table admissible here (by simp [tcReq, state]) stored takes quiet fun _ => there) there
  | tm1l state stored changes =>
    exact .tm1l state (Stored.read_top admissible here (by simp [tcReq, state]) stored takes quiet) changes
  -- a fetch below the top map means that the bit above it is set
  | tm0l state stored changes top =>
    have fetch : (m.tcReq id).op = .fr ∨ (m.tcReq id).op = .fl → m.tm1Tag1 = true := by
      simp only [tcReq, state]
      exact of_fetches
    rw [top] at fetch
    exact .tm0l state (Stored.read_map0 admissible here (by simp [tcReq, state]) stored takes quiet fetch) changes top
  | ttl state stored changes top map0 =>
    have fetch : (m.tcReq id).op = .fr ∨ (m.tcReq id).op = .fl → m.tm0Tag1 = true := by
      simp only [tcReq, state]
      exact of_fetches
    rw [map0.tag1] at fetch
    exact .ttl state (Stored.read_table admissible here (by simp [tcReq, state]) stored takes quiet fetch) changes top
      (map0.congr (congrFun same _))
  -- the table is always written in this state
  | ttw state =>
    simp only [tcReq, state] at quiet
    rw [ttwOp_isWrite] at quiet
    cases quiet
  -- the bit stands already, so the update only reads
  | tm0w state table map0 map1 top known new writes =>
    have op : (m.tcReq id).op = .u := by
      simp only [tcReq, state] at quiet ⊢
      exact tm0wOp_eq_u quiet
    have copies := effect_copies takes (.inr (.inr op))
    exact .tm0w state (table.frame (fun _ => congrFun same _) fun e copy => .inl (copies _ copy))
      (map0.frame (fun _ => congrFun same _) fun e copy => .inl (copies _ copy)) (map1.congr fun _ => congrFun same _) top
      (known.congr (congrFun same _)) new writes
  | tm1w state table map0 map1 top writes =>
    have op : (m.tcReq id).op = .u := by
      simp only [tcReq, state] at quiet ⊢
      exact tm1wOp_eq_u quiet
    have copies := effect_copies takes (.inr (.inr op))
    exact .tm1w state (table.frame (fun _ => congrFun same _) fun e copy => .inl (copies _ copy))
      (map0.frame (fun _ => congrFun same _) fun e copy => .inl (copies _ copy)) (map1.congr fun _ => congrFun same _) top writes

end MemXactTracker

end LowRisc.TagCache
