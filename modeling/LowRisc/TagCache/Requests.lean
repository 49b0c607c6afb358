import LowRisc.TagCache.Contents

/-! What a tag request does.

Between the metadata read and the last state of a request lie up to five states, with a line
written back and another fetched. Taken together they change one block.
-/

set_option autoImplicit false

namespace LowRisc.TagCache

open LowRisc.Chisel LowRisc.Lib

variable {c : Config} {blank : Nat → Bool}

namespace TagXactTracker

variable {t : TagXactTracker} {a : Arrays} {victim w : Nat}

def loaded (t : TagXactTracker) (hit : Bool) (way : Nat) (md : TCMetadata) : TagXactTracker :=
  { t with
    hit := hit
    wayEn := [way]
    metaTag := md.tag
    metaState := md.state
    metaTcnt := md.tcnt
    dataBuf := upd t.dataBuf t.row 0
    reqSent := false
    wbSent := false }

theorem metaResp_of_hit (ways : a.ways c t.block = [w]) :
    t.metaResp c a victim =
      match t.mrNext true (a.metas (t.idx c) w) with
      | .f => (t.loaded true w (a.metas (t.idx c) w)).enterF
      | .mw => { t.loaded true w (a.metas (t.idx c) w) with state := .mw, metaState := .invalid }
      | next => { t.loaded true w (a.metas (t.idx c) w) with state := next } := by
  have hits : a.hitWays c (t.idx c) (t.addrTag c) = [w] := ways
  simp only [metaResp, hits, List.isEmpty_cons, Bool.not_false, if_true, ohToUInt_singleton]
  rfl

theorem metaResp_of_miss (none' : a.ways c t.block = []) :
    t.metaResp c a victim =
      match t.mrNext false (a.metas (t.idx c) victim) with
      | .f => (t.loaded false victim (a.metas (t.idx c) victim)).enterF
      | .mw => { t.loaded false victim (a.metas (t.idx c) victim) with state := .mw, metaState := .invalid }
      | next => { t.loaded false victim (a.metas (t.idx c) victim) with state := next } := by
  have misses : a.hitWays c (t.idx c) (t.addrTag c) = [] := none'
  simp only [metaResp, misses, List.isEmpty_nil, Bool.not_true, Bool.false_eq_true, if_false, ohToUInt_singleton]
  rfl

theorem complete_hit (ways : a.ways c t.block = [w]) :
    (t.metaResp c a victim).complete c a =
      let read := t.loaded true w (a.metas (t.idx c) w)
      match t.xact.op with
      | .u | .l => ({ read with state := .l }, a)
      | .i => fromMw c { read with state := .mw, metaState := .invalid } a
      | .c | .w => fromDr c { read with state := .dr } a
      | _ =>
        if (a.metas (t.idx c) w).tcnt = 0 then ({ read with state := .l }, a)
        else fromDr c { read with state := .dr } a := by
  rw [metaResp_of_hit ways]
  cases op : t.xact.op <;> by_cases empty : (a.metas (t.idx c) w).tcnt = 0 <;>
    simp [mrNext, op, empty, TCTagOp.isWrite, complete]

theorem enterF_of_state (t : TagXactTracker) (state : TagState) : { t with state := state }.enterF = t.enterF := by
  unfold enterF
  split <;> rfl

def evicted (c : Config) (t : TagXactTracker) (a : Arrays) (victim : Nat) : Arrays :=
  if (a.metas (t.idx c) victim).state = .dirty then
    a.writeMemory (c.blockAt (a.metas (t.idx c) victim).tag (t.idx c)) (a.datas (t.idx c) victim)
  else a

theorem complete_miss (none' : a.ways c t.block = []) :
    (t.metaResp c a victim).complete c a =
      let read := t.loaded false victim (a.metas (t.idx c) victim)
      match t.xact.op with
      | .u | .l | .i | .r => ({ read with state := .l }, a)
      | _ => fromF c read.enterF (t.evicted c a victim) := by
  have block : wbBlock c { t.loaded false victim (a.metas (t.idx c) victim) with state := .wb } =
      c.blockAt (a.metas (t.idx c) victim).tag (t.idx c) := rfl
  have set : idx c { t.loaded false victim (a.metas (t.idx c) victim) with state := .wb } = t.idx c := rfl
  have way : way { t.loaded false victim (a.metas (t.idx c) victim) with state := .wb } = victim := ohToUInt_singleton victim
  rw [metaResp_of_miss none']
  cases op : t.xact.op <;> by_cases dirty : (a.metas (t.idx c) victim).state = .dirty <;>
    simp [mrNext, op, dirty, complete, fromWb, enterF_of_state, evicted, block, set, way]

/-! The arrays behind a request. -/

theorem evicted_spec (intact : a.Intact c blank (t.idx c)) (bound : victim < c.nWays) :
    (t.evicted c a victim).metas = a.metas ∧ (t.evicted c a victim).datas = a.datas ∧
    (∀ b, c.setOf b = t.idx c → victim ∈ a.ways c b → (t.evicted c a victim).memory b = a.datas (t.idx c) victim) ∧
    (∀ b, c.setOf b = t.idx c → victim ∉ a.ways c b → (t.evicted c a victim).memory b = a.memory b) := by
  unfold evicted
  split
  · rename_i dirty
    have place : ∀ b, c.setOf b = t.idx c →
        (victim ∈ a.ways c b ↔ b = c.blockAt (a.metas (t.idx c) victim).tag (t.idx c)) := by
      intro b set
      rw [Arrays.mem_ways, set]
      constructor
      · rintro ⟨-, tag, -⟩
        rw [tag, Config.blockAt, ← set, Config.setOf, Nat.mul_comm, Nat.div_add_mod]
      · intro same
        have small : t.idx c < 2 ^ c.idxBits := Nat.mod_lt _ (Nat.two_pow_pos _)
        refine ⟨bound, ?_, by simp [TCMetadata.isValid, dirty]⟩
        rw [same, Config.blockAt, Nat.mul_comm, Nat.mul_add_div (Nat.two_pow_pos _), Nat.div_eq_of_lt small, Nat.add_zero]
    refine ⟨rfl, rfl, fun b set there => ?_, fun b set elsewhere => ?_⟩
    · simp [Arrays.writeMemory, (place b set).mp there]
    · simp [Arrays.writeMemory, (place b set).not.mp elsewhere]
  · rename_i clean
    refine ⟨rfl, rfl, fun b set there => ?_, fun b set elsewhere => rfl⟩
    have valid := (Arrays.mem_ways.mp there).2.2
    rw [set, TCMetadata.isValid, decide_eq_true_eq] at valid
    have state : (a.metas (t.idx c) victim).state = .clean := by
      cases entry : (a.metas (t.idx c) victim).state with
      | invalid => exact absurd entry valid
      | clean => rfl
      | dirty => exact absurd entry clean
    exact (intact.clean b set victim there state).symm

def newLine (t : TagXactTracker) (line : Line) : Line :=
  if t.xact.op.isCreate then fun i => if i = t.row then t.xact.data &&& t.xact.mask else 0 else t.beatDataUpdate line

theorem newLine_of_fetch (fetch : t.xact.op.isCreate = false) (line : Line) : t.newLine line = t.beatDataUpdate line := by
  rw [newLine, fetch]
  rfl

def newMeta (c : Config) (t : TagXactTracker) (line : Line) : TCMetadata :=
  if t.xact.op.isCreate then ⟨t.addrTag c, 1, .dirty⟩
  else ⟨t.addrTag c, countRows (t.newLine line), if t.newLine line t.row = line t.row then .clean else .dirty⟩

theorem way_of_wayEn (victim : Nat) {u : TagXactTracker} (wayEn : u.wayEn = [victim]) : u.way = victim := by
  rw [TagXactTracker.way, wayEn, ohToUInt_singleton]

theorem fromF_loaded (md : TCMetadata) (a : Arrays) :
    ((t.loaded false victim md).enterF.fromF c a).2 =
      (a.writeData (t.idx c) victim (t.newLine (a.memory t.block))).writeMeta (t.idx c) [victim]
        (t.newMeta c (a.memory t.block)) := by
  cases create : t.xact.op.isCreate with
  | true =>
    have create' : (t.loaded false victim md).xact.op.isCreate = true := create
    simp only [fromF, enterF_xact, create', if_true, fromDwb, fromMw, newLine, newMeta, create]
    rw [way_of_wayEn victim (by simp [loaded]), enterF, if_pos create']
    rfl
  | false =>
    have create' : (t.loaded false victim md).xact.op.isCreate = false := create
    simp only [fromF, enterF_xact, create', Bool.false_eq_true, if_false, fromDwb, fromMw, newMeta, create]
    rw [way_of_wayEn victim (by simp [loaded, fetched]), enterF, create', if_neg Bool.false_ne_true]
    simp only [newLine, create, Bool.false_eq_true, if_false]
    rfl

theorem resp_fetched (victim : Nat) (md : TCMetadata) (a : Arrays) (fetch : t.xact.op.isCreate = false) :
    ((t.loaded false victim md).enterF.fromF c a).1.resp.data = t.newLine (a.memory t.block) t.row ∧
      ((t.loaded false victim md).enterF.fromF c a).1.resp.tcnt = nonzeroRows (t.newLine (a.memory t.block)) := by
  have fetch' : (t.loaded false victim md).xact.op.isCreate = false := fetch
  rw [newLine_of_fetch fetch]
  simp only [fromF, enterF_xact, fetch', Bool.false_eq_true, if_false, fromDwb, fromMw]
  rw [enterF, fetch', if_neg Bool.false_ne_true]
  exact ⟨rfl, rfl⟩

theorem refill_miss (intact : a.Intact c blank (t.idx c)) (bound : victim < c.nWays) (none' : a.ways c t.block = []) :
    Arrays.Refill c a ((t.loaded false victim (a.metas (t.idx c) victim)).enterF.fromF c (t.evicted c a victim)).2 t.block victim
      (t.newLine (a.memory t.block)) (t.newMeta c (a.memory t.block)) := by
  obtain ⟨metas, datas, saved, kept⟩ := evicted_spec intact bound
  have line : (t.evicted c a victim).memory t.block = a.memory t.block := kept t.block rfl (by simp [none'])
  rw [fromF_loaded, line]
  refine ⟨bound, fun w => ?_, fun w => ?_, fun w found => ?_, ?_, fun b _ set there => ?_, fun b _ set elsewhere => ?_⟩
  · simp [Arrays.writeMeta, Arrays.writeData, setOf_block, metas]
  · simp [Arrays.writeMeta, Arrays.writeData, setOf_block, datas]
  · rw [none'] at found
    cases found
  · rw [newMeta]
    split <;> rfl
  · exact saved b set there
  · exact kept b set elsewhere

def mergedLine (t : TagXactTracker) (line : Line) : Line := upd line t.row (masked (line t.row) t.xact.data t.xact.mask)

def counter (t : TagXactTracker) (md : TCMetadata) : TCTagXactTracker :=
  ⟨t.state, t.xact, t.hit, t.wayEn, md.tag, md.state, md.tcnt, 0, t.dataBuf, 0, t.reqSent⟩

theorem dataResp_loaded (md : TCMetadata) :
    let read := dataResp c { t.loaded true w md with state := .dr } a
    read.dataBuf t.row = masked (a.datas (t.idx c) w t.row) t.xact.data t.xact.mask ∧
      read.metaTcnt = (t.counter md).tcntNext (a.datas (t.idx c) w t.row) := by
  have way : way { t.loaded true w md with state := .dr } = w := ohToUInt_singleton w
  simp only [dataResp, way]
  constructor
  · simp only [TagXactTracker.row, loaded, upd_same]
    rfl
  · rfl

theorem refill_write (ways : a.ways c t.block = [w]) (write : t.xact.op.isWrite = true) :
    Arrays.Refill c a (fromDr c { t.loaded true w (a.metas (t.idx c) w) with state := .dr } a).2 t.block w
      (t.mergedLine (a.datas (t.idx c) w))
      ⟨t.addrTag c, (t.counter (a.metas (t.idx c) w)).tcntNext (a.datas (t.idx c) w t.row), .dirty⟩ := by
  have found : w ∈ a.ways c t.block := by simp [ways]
  have write' : TCTagOp.isWrite { t.loaded true w (a.metas (t.idx c) w) with state := .dr }.xact.op = true := write
  obtain ⟨buffer, count⟩ := dataResp_loaded (c := c) (t := t) (a := a) (w := w) (a.metas (t.idx c) w)
  have way : way (dataResp c { t.loaded true w (a.metas (t.idx c) w) with state := .dr } a) = w := ohToUInt_singleton w
  have line : writtenRow c (dataResp c { t.loaded true w (a.metas (t.idx c) w) with state := .dr } a) a =
      t.mergedLine (a.datas (t.idx c) w) := by
    rw [writtenRow, way]
    have row : row (dataResp c { t.loaded true w (a.metas (t.idx c) w) with state := .dr } a) = t.row := rfl
    simp only [row, buffer, mergedLine]
    exact congrArg _ (masked_write _ _ _)
  simp only [fromDr, write', if_true, fromDwr, fromMw, way, line]
  refine ⟨(Arrays.mem_ways.mp found).1, fun v => ?_, fun v => ?_, fun v other => ?_, rfl, fun b other set there => ?_,
    fun b other set elsewhere => rfl⟩
  · simp only [Arrays.writeMeta, Arrays.writeData, setOf_block, dataResp, loaded, TagXactTracker.idx, List.mem_singleton]
    simp only [true_and]
    split
    · exact congrArg (fun k => TCMetadata.mk _ k _) count
    · rfl
  · simp only [Arrays.writeMeta, Arrays.writeData, setOf_block, dataResp, loaded, TagXactTracker.idx, true_and]
  · rw [ways] at other
    exact List.mem_singleton.mp other
  · exact absurd (Arrays.block_of_way set there found) other

theorem refill_invalidate (ways : a.ways c t.block = [w]) (tcnt : Nat) :
    Arrays.Refill c a (a.writeMeta (t.idx c) [w] ⟨t.addrTag c, tcnt, .invalid⟩) t.block w (a.datas (t.idx c) w)
      ⟨t.addrTag c, tcnt, .invalid⟩ := by
  have found : w ∈ a.ways c t.block := by simp [ways]
  refine ⟨(Arrays.mem_ways.mp found).1, fun v => ?_, fun v => ?_, fun v other => ?_, rfl, fun b other set there => ?_,
    fun b other set elsewhere => rfl⟩
  · simp [Arrays.writeMeta, setOf_block]
  · simp only [Arrays.writeMeta, setOf_block]
    split
    · rename_i same
      rw [same]
    · rfl
  · rw [ways] at other
    exact List.mem_singleton.mp other
  · exact absurd (Arrays.block_of_way set there found) other

end TagXactTracker

/-! The effect of a request. -/

structure Served (c : Config) (blank : Nat → Bool) (req : TCTagRequest) (a a' : Arrays) : Prop where
  intact : a'.Intact c blank (c.setOf req.block)
  others : ∀ b, b ≠ req.block → c.setOf b = c.setOf req.block → a'.content c b = a.content c b
  effect : req.Effect (a.content c req.block) (a'.content c req.block)
  copies : ∀ b, b ≠ req.block → c.setOf b = c.setOf req.block → a'.Copied c b → a.Copied c b
  stays : req.op = .r ∨ req.op = .l ∨ req.op = .u → a'.Copied c req.block → a.Copied c req.block
  drops : req.op = .i → ¬a'.Copied c req.block
  fresh : req.op = .c → ¬a.Copied c req.block →
    a'.content c req.block = upd (fun _ => 0) req.row (req.data &&& req.mask)

namespace TagXactTracker

variable {t : TagXactTracker} {a a' : Arrays} {victim w v : Nat}

theorem served_same (intact : a.Intact c blank (t.idx c))
    (other : t.xact.op.isWrite = false ∨ t.xact.op = .i ∧ ¬a.Copied c t.block) : Served c blank t.xact a a where
  intact := intact
  others _ _ _ := rfl
  effect := other.elim .read fun drop => .drop _ drop.1
  copies _ _ _ copied := copied
  stays _ copied := copied
  drops drop := by
    rcases other with quiet | ⟨-, absent⟩
    · rw [drop] at quiet
      cases quiet
    · exact absent
  fresh create := by
    rcases other with quiet | ⟨drop, -⟩
    · rw [create] at quiet
      cases quiet
    · rw [create] at drop
      cases drop

/-- A line that arrives is counted, and as in the memory where it is clean. -/
theorem newLine_spec (marked : t.xact.blank = true → blank t.block = true) (line : Line) :
    (t.newMeta c line).isValid = true ∧ ((t.newMeta c line).state = .clean → t.newLine line = line) ∧
      Counted (nonzeroRows (t.newLine line)) (t.newMeta c line).tcnt (blank t.block) := by
  cases create : t.xact.op.isCreate with
  | true =>
    have rows : nonzeroRows (t.newLine line) = (t.xact.data &&& t.xact.mask != 0).toNat := by
      rw [newLine, create]
      exact TagSystem.nonzeroRows_single (rowOf_lt t.xact.addr) _
    rw [rows]
    simp only [newMeta, create, if_true]
    refine ⟨rfl, fun clean => (by cases clean), ?_⟩
    by_cases zero : t.xact.data &&& t.xact.mask = 0
    · have mark : blank t.block = true := marked (by simp [TCTagRequest.blank, create, zero])
      simp only [zero, bne_self_eq_false, Bool.toNat_false, mark]
      exact ⟨by decide, le_rfl, fun no => by cases no⟩
    · have some : (t.xact.data &&& t.xact.mask != 0) = true := bne_iff_ne.mpr zero
      simp only [some, Bool.toNat_true]
      exact ⟨le_rfl, by decide, fun _ => rfl⟩
  | false =>
    simp only [newMeta, create, Bool.false_eq_true, if_false]
    refine ⟨?_, fun clean => ?_, le_rfl, Nat.le_succ _, fun _ => rfl⟩
    · simp only [TCMetadata.isValid]
      split <;> simp
    · split at clean
      · rename_i same
        funext beat
        rw [newLine_of_fetch create] at same ⊢
        simp only [beatDataUpdate] at same ⊢
        split
        · rename_i here
          simpa [here.1, here.2] using same
        · rfl
      · cases clean

theorem served_miss (intact : a.Intact c blank (t.idx c)) (bound : victim < c.nWays) (none' : a.ways c t.block = [])
    (marked : t.xact.blank = true → blank t.block = true)
    (fills : t.xact.op = .fr ∨ t.xact.op = .fl ∨ t.xact.op = .c ∨ t.xact.op = .w) :
    Served c blank t.xact a
      ((t.loaded false victim (a.metas (t.idx c) victim)).enterF.fromF c (t.evicted c a victim)).2 := by
  have refill := refill_miss intact bound none'
  obtain ⟨valid, clean, counted⟩ := newLine_spec marked (a.memory t.block)
  have own := refill.content_own intact.unique valid
  have old : a.content c t.block = a.memory t.block := Arrays.content_of_none none'
  have memory : ((t.loaded false victim (a.metas (t.idx c) victim)).enterF.fromF c (t.evicted c a victim)).2.memory t.block =
      a.memory t.block := by
    rw [fromF_loaded]
    exact (evicted_spec intact bound).2.2.2 t.block rfl (by simp [none'])
  refine ⟨refill.intact intact (fun state => (clean state).trans memory.symm) fun _ => counted,
    fun b other set => refill.content_other intact.unique other set, ?_,
    fun b other set => refill.copied_other other set, fun stays => ?_, fun drop => ?_, fun create _ => own.trans ?_⟩
  rotate_left
  · rcases fills with op | op | op | op <;> simp [op] at stays
  · rcases fills with op | op | op | op <;> simp [op] at drop
  · rw [newLine, create]
    rfl
  -- The line comes from the memory, where it had its content before.
  change t.xact.Effect (a.content c t.block) (Arrays.content c _ t.block)
  rw [own, old]
  have fetched : t.xact.op = .fr ∨ t.xact.op = .fl → t.xact.Effect (a.memory t.block) (t.newLine (a.memory t.block)) := by
    intro op
    have same : t.newLine (a.memory t.block) = a.memory t.block := by
      rw [newLine_of_fetch (by rcases op with op | op <;> simp [op, TCTagOp.isCreate])]
      funext beat
      rcases op with op | op <;> simp [beatDataUpdate, op]
    rw [same]
    exact .read (by rcases op with op | op <;> simp [op, TCTagOp.isWrite])
  rcases fills with op | op | op | op
  · exact fetched (.inl op)
  · exact fetched (.inr op)
  · have line : t.newLine (a.memory t.block) = upd (fun _ => 0) t.xact.row (t.xact.data &&& t.xact.mask) := by
      rw [newLine, op]
      rfl
    rw [line]
    exact .create op
  · have line : t.newLine (a.memory t.block) =
        upd (a.memory t.block) t.xact.row ((a.memory t.block t.xact.row &&& ~~~t.xact.mask) ||| t.xact.data) := by
      rw [newLine_of_fetch (by simp [op, TCTagOp.isCreate])]
      funext beat
      by_cases here : beat = Config.rowOf t.xact.addr
      · simp [beatDataUpdate, op, here, TagXactTracker.row, TCTagRequest.row]
      · simp [beatDataUpdate, here, upd, TagXactTracker.row, TCTagRequest.row]
    rw [line]
    exact .fill op

theorem served_write (intact : a.Intact c blank (t.idx c)) (ways : a.ways c t.block = [w])
    (write : t.xact.op = .c ∨ t.xact.op = .w) :
    Served c blank t.xact a (fromDr c { t.loaded true w (a.metas (t.idx c) w) with state := .dr } a).2 := by
  have found : w ∈ a.ways c t.block := by simp [ways]
  have refill := refill_write ways (by rcases write with op | op <;> simp [op, TCTagOp.isWrite])
  have own := refill.content_own intact.unique rfl
  have counted := intact.counted t.block rfl w found
  have old : a.content c t.block = a.datas (t.idx c) w := intact.unique.content_of_mem found
  refine ⟨refill.intact intact (fun clean => by cases clean) fun _ => ?_,
    fun b apart set => refill.content_other intact.unique apart set, ?_,
    fun b apart set => refill.copied_other apart set, fun stays => ?_, fun drop => ?_, fun _ absent => ?_⟩
  · exact counted.dataResp (t := t.counter (a.metas (t.idx c) w))
  · change t.xact.Effect (a.content c t.block) (Arrays.content c _ t.block)
    rw [own, old]
    exact .merge write
  · rcases write with op | op <;> simp [op] at stays
  · rcases write with op | op <;> simp [op] at drop
  · exact absurd (Arrays.copied_of_mem found) absent

theorem served_invalidate (intact : a.Intact c blank (t.idx c)) (ways : a.ways c t.block = [w]) (op : t.xact.op = .i)
    (tcnt : Nat) : Served c blank t.xact a (a.writeMeta (t.idx c) [w] ⟨t.addrTag c, tcnt, .invalid⟩) := by
  have refill := refill_invalidate ways tcnt
  exact ⟨refill.intact intact (fun clean => by cases clean) (fun valid => by cases valid),
    fun b apart set => refill.content_other intact.unique apart set, .drop _ op,
    fun b apart set => refill.copied_other apart set, fun stays => by simp [op] at stays,
    fun _ => refill.not_copied_own rfl, fun create => by simp [op] at create⟩

/-- Every request, once its metadata are read, has this effect on its set. -/
theorem served (intact : a.Intact c blank (t.idx c)) (bound : victim < c.nWays)
    (marked : t.xact.blank = true → blank t.block = true) :
    Served c blank t.xact a ((t.metaResp c a victim).complete c a).2 := by
  rcases intact.unique.hitWays_cases (t.addrTag c) with none' | ⟨w, -, ways, -⟩
  · have absent : ¬a.Copied c t.block := fun copied => copied none'
    rw [complete_miss none']
    cases op : t.xact.op with
    | r | l | u => exact served_same intact (.inl (by simp [op, TCTagOp.isWrite]))
    | i => exact served_same intact (.inr ⟨op, absent⟩)
    | fr | fl | c | w => exact served_miss intact bound none' marked (by simp [op])
  · rw [complete_hit ways]
    cases op : t.xact.op with
    | u | l => exact served_same intact (by simp [op, TCTagOp.isWrite])
    | i => exact served_invalidate intact ways op _
    | c | w => exact served_write intact ways (by simp [op])
    | r | fr | fl =>
      simp only
      split
      · exact served_same intact (by simp [op, TCTagOp.isWrite])
      · have read : TCTagOp.isWrite { t.loaded true w (a.metas (t.idx c) w) with state := .dr }.xact.op = false := by
          simp [loaded, op, TCTagOp.isWrite]
        rw [fromDr, if_neg (by simp [read])]
        exact served_same intact (by simp [op, TCTagOp.isWrite])

/-- A read that may miss leaves the arrays alone. -/
theorem complete_r (intact : a.Intact c blank (t.idx c)) (op : t.xact.op = .r) :
    ((t.metaResp c a victim).complete c a).2 = a := by
  rcases intact.unique.hitWays_cases (t.addrTag c) with none' | ⟨w, -, ways, -⟩
  · rw [complete_miss none', op]
  · rw [complete_hit ways, op]
    have read : TCTagOp.isWrite { t.loaded true w (a.metas (t.idx c) w) with state := .dr }.xact.op = false := by
      simp [loaded, op, TCTagOp.isWrite]
    simp only
    split
    · rfl
    · rw [fromDr, if_neg (by simp [read])]

end TagXactTracker

/-! The response. -/

namespace TagXactTracker

variable {t : TagXactTracker} {a a' : Arrays} {victim w v : Nat}

theorem tcntNext_quiet {u : TCTagXactTracker} (quiet : u.xact.data = 0 ∧ u.xact.mask = 0) (row : Row) :
    u.tcntNext row = u.metaTcnt := by
  simp [TCTagXactTracker.tcntNext, quiet]

theorem answered_hit (intact : a.Intact c blank (t.idx c)) (ways : a.ways c t.block = [w])
    (quiet : t.xact.data = 0 ∧ t.xact.mask = 0) (read : t.xact.op = .r ∨ t.xact.op = .fr ∨ t.xact.op = .fl) :
    let out := if (a.metas (t.idx c) w).tcnt = 0 then ({ t.loaded true w (a.metas (t.idx c) w) with state := .l }, a)
      else fromDr c { t.loaded true w (a.metas (t.idx c) w) with state := .dr } a
    out.1.resp.data = a.content c t.block t.row ∧
      Counted (nonzeroRows (a.content c t.block)) out.1.resp.tcnt (blank t.block) := by
  have found : w ∈ a.ways c t.block := by simp [ways]
  have counted := intact.counted t.block rfl w found
  have old : a.content c t.block = a.datas (t.idx c) w := intact.unique.content_of_mem found
  rw [old]
  simp only
  split
  · rename_i empty
    refine ⟨?_, counted⟩
    have zero : nonzeroRows (a.datas (t.idx c) w) = 0 := by
      have least := counted.least
      omega
    have row := TagSystem.row_eq_zero (rowOf_lt t.xact.addr) zero
    refine Eq.trans ?_ row.symm
    exact upd_same _ _ _
  · have write : TCTagOp.isWrite { t.loaded true w (a.metas (t.idx c) w) with state := .dr }.xact.op = false := by
      rcases read with op | op | op <;> simp [loaded, op, TCTagOp.isWrite]
    obtain ⟨buffer, count⟩ := dataResp_loaded (c := c) (t := t) (a := a) (w := w) (a.metas (t.idx c) w)
    rw [fromDr, if_neg (by simp [write])]
    constructor
    · refine buffer.trans ?_
      rw [quiet.1, quiet.2]
      exact masked_zero _
    · have same := count.trans (tcntNext_quiet (u := t.counter (a.metas (t.idx c) w)) quiet _)
      simp only [resp]
      rw [same]
      exact counted

theorem answered_miss (intact : a.Intact c blank (t.idx c)) (bound : victim < c.nWays) (none' : a.ways c t.block = [])
    (read : t.xact.op = .fr ∨ t.xact.op = .fl) :
    let out := fromF c (t.loaded false victim (a.metas (t.idx c) victim)).enterF (t.evicted c a victim)
    out.1.resp.data = a.content c t.block t.row ∧
      Counted (nonzeroRows (a.content c t.block)) out.1.resp.tcnt (blank t.block) := by
  have fetch : t.xact.op.isCreate = false ∧ t.xact.op ≠ .w := by
    rcases read with op | op <;> simp [op, TCTagOp.isCreate]
  have memory : (t.evicted c a victim).memory t.block = a.memory t.block :=
    (evicted_spec intact bound).2.2.2 t.block rfl (by simp [none'])
  have line : t.newLine (a.memory t.block) = a.content c t.block := by
    rw [newLine_of_fetch fetch.1, Arrays.content_of_none none']
    funext beat
    simp [beatDataUpdate, fetch.2]
  obtain ⟨data, tcnt⟩ := resp_fetched (c := c) victim (a.metas (t.idx c) victim) (t.evicted c a victim) fetch.1
  rw [memory, line] at data tcnt
  refine ⟨data, ?_⟩
  rw [tcnt]
  exact ⟨le_rfl, Nat.le_succ _, fun _ => rfl⟩

theorem answered (intact : a.Intact c blank (t.idx c)) (bound : victim < c.nWays)
    (quiet : t.xact.Quiet) :
    t.xact.Answer (a.content c t.block) (blank t.block) ((t.metaResp c a victim).complete c a).1.resp ∧
      (t.xact.op = .r → ((t.metaResp c a victim).complete c a).1.resp.hit = true → a.Copied c t.block) := by
  rcases intact.unique.hitWays_cases (t.addrTag c) with none' | ⟨w, -, ways, -⟩
  · rw [complete_miss none']
    cases op : t.xact.op with
    | r =>
      refine ⟨⟨fun _ hit => ?_, fun other => by simp [op] at other⟩, fun _ hit => ?_⟩ <;> simp [resp, loaded, op] at hit
    | l | u | i | c | w => exact ⟨⟨fun other => by simp [op] at other, fun other => by simp [op] at other⟩, by simp⟩
    | fr | fl =>
      exact ⟨⟨fun other => by simp [op] at other, fun _ => answered_miss intact bound none' (by simp [op])⟩, by simp⟩
  · rw [complete_hit ways]
    cases op : t.xact.op with
    | r =>
      have read := answered_hit intact ways (quiet (.inl op)) (.inl op)
      have found : w ∈ a.ways c t.block := by simp [show a.ways c t.block = [w] from ways]
      exact ⟨⟨fun _ _ => read.1, fun other => by simp [op] at other⟩, fun _ _ => Arrays.copied_of_mem found⟩
    | l | u | i | c | w => exact ⟨⟨fun other => by simp [op] at other, fun other => by simp [op] at other⟩, by simp⟩
    | fr | fl =>
      have read := answered_hit intact ways (quiet (by simp [op])) (by simp [op])
      exact ⟨⟨fun other => by simp [op] at other, fun _ => read⟩, by simp⟩

end TagXactTracker

end LowRisc.TagCache
