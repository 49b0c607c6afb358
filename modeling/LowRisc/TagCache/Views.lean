import LowRisc.TagCache.BankRuns

/-! The lines as the whole tag cache will leave them.

The trackers of the banks, the write-back unit and the memory trackers take turns. Only the
metadata read of a request changes what is in view.
-/

set_option autoImplicit false

namespace LowRisc.TagCache

open LowRisc.Chisel LowRisc.Lib

variable {c : Config}

theorem MemXactTracker.quiet_tcReq (m : MemXactTracker c) (id : Nat) : (m.tcReq id).Quiet := by
  intro read
  cases state : m.tcState with
  | idle | ttr | tm0r | tm1f | tm0f | ttf | tm1l | tm0l | ttl => simp [tcReq, state]
  | ttw =>
    simp only [tcReq, state, ttwOp] at read
    split at read
    · simp at read
    · split at read <;> simp at read
  | tm0w =>
    simp only [tcReq, state, tm0wOp] at read
    split at read
    · simp at read
    · split at read
      · simp at read
      · split at read <;> simp at read
  | tm1w =>
    simp only [tcReq, state, tm1wOp] at read
    split at read <;> simp at read

namespace State

variable {s s' : State c} {v : View} {i way : Nat}

/-- The write-back unit works for a tracker that waits for it. -/
structure WbHeld (s : State c) : Prop where
  waits : (s.tag s.wb.id).state = .wb
  idx : s.wb.idx = (s.tag s.wb.id).idx c
  wayEn : s.wb.wayEn = (s.tag s.wb.id).wayEn
  tag : s.wb.tag = (s.tag s.wb.id).metaTag

/-- Until the line is sent, the unit has the victim of its tracker, and then its line. -/
structure WbRight (s : State c) : Prop where
  held : s.wb.state = .read ∨ s.wb.state = .readDone ∨ s.wb.state = .write → s.WbHeld
  line : s.wb.state = .readDone ∨ s.wb.state = .write →
    s.wb.dataBuffer = s.arrays.datas s.wb.idx (ohToUInt s.wb.wayEn)

theorem WbRight.keep (right : s.WbRight) (wb : s'.wb = s.wb)
    (tag : (s.tag s.wb.id).state = .wb → s'.tag s.wb.id = s.tag s.wb.id)
    (datas : (s.tag s.wb.id).state = .wb →
      s'.arrays.datas ((s.tag s.wb.id).idx c) = s.arrays.datas ((s.tag s.wb.id).idx c)) :
    s'.WbRight := by
  refine ⟨fun busy => ?_, fun read => ?_⟩
  · rw [wb] at busy
    obtain ⟨waits, idx, wayEn, metaTag⟩ := right.held busy
    have same := tag waits
    exact ⟨by rw [wb, same, waits], by rw [wb, same, idx], by rw [wb, same, wayEn], by rw [wb, same, metaTag]⟩
  · rw [wb] at read ⊢
    obtain ⟨waits, idx, -⟩ := right.held (.inr read)
    rw [right.line read, idx, datas waits]

/-- The invariant: every bank will leave its part of the view. -/
structure Tracks (s : State c) (v : View) : Prop where
  banked : Banked s
  quiet : ∀ i, (s.tag i).state ≠ .idle → (s.tag i).xact.Quiet
  wb : s.WbRight
  banks : ∀ i < c.nTagTransactors, TagXactTracker.Bank c v i (s.tag i) s.arrays

theorem Banked.owned (banked : Banked s) (i : Nat) : (s.tag i).Owned c i := by
  by_cases idle : (s.tag i).state = .idle
  · exact .inl idle
  · exact .inr (banked.routed i idle).2

def viewOnReset (s : State c) : View := ⟨s.arrays.memory, fun _ => False, fun _ => false⟩

theorem OnReset.tracks (reset : s.OnReset) : Tracks s s.viewOnReset := by
  have invalid : ∀ idx w, (s.arrays.metas idx w).isValid = false := by
    intro idx w
    rw [reset.metas]
    rfl
  have absent : ∀ b, s.arrays.ways c b = [] := by
    intro b
    refine List.eq_nil_iff_forall_not_mem.mpr fun w found => ?_
    have valid := (Arrays.mem_ways.mp found).2.2
    rw [invalid] at valid
    cases valid
  refine ⟨reset.banked, fun i busy => absurd (reset.tag i) busy, ⟨fun busy => ?_, fun busy => ?_⟩, fun i _ => ?_⟩
  · simp [reset.wb] at busy
  · simp [reset.wb] at busy
  · rw [TagXactTracker.bank_iff (.inl (reset.tag i))]
    refine ⟨fun idx _ => ⟨reset.banked.unique idx, fun b _ w found => ?_, fun b _ w found => ?_⟩, fun b _ => ?_, fun b _ => ?_⟩
    · rw [absent] at found
      cases found
    · rw [absent] at found
      cases found
    · exact Arrays.content_of_none (absent b)
    · simp [Arrays.Copied, absent, viewOnReset]

theorem Tracks.frame (tracks : s.Tracks v) (tag : s'.tag = s.tag) (arrays : s'.arrays = s.arrays) (wb : s'.wb = s.wb) :
    s'.Tracks v := by
  refine ⟨tracks.banked.frame tag (by rw [arrays]), ?_, tracks.wb.keep wb (fun _ => by rw [tag]) fun _ => by rw [arrays], ?_⟩
  · rw [tag]
    exact tracks.quiet
  · rw [tag, arrays]
    exact tracks.banks

theorem Tracks.change (tracks : s.Tracks v) (admissible : c.Admissible) {t : TagXactTracker} {a : Arrays} {v' : View}
    (banked : Banked s') (right : s'.WbRight) (tag : s'.tag = upd s.tag i t) (arrays : s'.arrays = a)
    (quiet : t.state ≠ .idle → t.xact.Quiet) (bank : TagXactTracker.Bank c v' i t a)
    (agree : ∀ idx, idx % c.nTagTransactors ≠ i → Arrays.AgreeOn c s.arrays a idx)
    (views : ∀ b, c.bankOf b ≠ i → v.Agree v' b) : s'.Tracks v' := by
  refine ⟨banked, fun j busy => ?_, right, fun j bound => ?_⟩
  · rw [tag] at busy ⊢
    by_cases same : j = i
    · subst same
      rw [upd_same] at busy ⊢
      exact quiet busy
    · rw [upd_of_ne same] at busy ⊢
      exact tracks.quiet j busy
  · rw [tag, arrays]
    by_cases same : j = i
    · subst same
      rw [upd_same]
      exact bank
    · rw [upd_of_ne same]
      have owned := tracks.banked.owned j
      have bank' := (tracks.banks j bound).congr admissible owned fun idx here => agree idx fun own => same (here.symm.trans own)
      exact bank'.other admissible owned fun b here => views b fun own => same (here.symm.trans own)

theorem Tracks.update (tracks : s.Tracks v) (admissible : c.Admissible) {t : TagXactTracker} {a : Arrays}
    (banked : Banked s') (right : s'.WbRight) (tag : s'.tag = upd s.tag i t) (arrays : s'.arrays = a)
    (quiet : t.state ≠ .idle → t.xact.Quiet) (bank : TagXactTracker.Bank c v i t a)
    (agree : ∀ idx, idx % c.nTagTransactors ≠ i → Arrays.AgreeOn c s.arrays a idx) : s'.Tracks v :=
  tracks.change admissible banked right tag arrays quiet bank agree fun b _ => .refl v b

theorem Tracks.accept (tracks : s.Tracks v) (admissible : c.Admissible) (banked : Banked s')
    (fired : s.stepAccept i = some s') : s'.Tracks v := by
  have taken : ∀ {u : State c} {req : TCTagRequest}, Banked u → u.tag = upd s.tag i ((s.tag i).accept req) →
      u.arrays = s.arrays → u.wb = s.wb → i < c.nTagTransactors → (s.tag i).state = .idle → req.Quiet →
      u.Tracks v := by
    intro u req banked tag arrays wb bound idle quiet
    have right : u.WbRight := by
      refine tracks.wb.keep wb (fun waits => ?_) fun _ => by rw [arrays]
      have other : s.wb.id ≠ i := by
        rintro rfl
        rw [idle] at waits
        cases waits
      rw [tag, upd_of_ne other]
    have waiting : ¬((s.tag i).accept req).Serving := fun serving => serving.2 rfl
    have bank := (tracks.banks i bound).rest (.inl idle) waiting
    exact tracks.update admissible banked right tag arrays (fun _ => quiet) bank fun idx _ => .refl _ idx
  unfold stepAccept at fired
  split at fired
  · rename_i ready
    split at fired
    · cases fired
      refine taken banked rfl rfl rfl ready.1 ready.2 fun read => ?_
      simp [initReq] at read
    · split at fired
      · cases fired
        exact taken banked rfl rfl rfl ready.1 ready.2 (MemXactTracker.quiet_tcReq _ _)
      · cases fired
  · cases fired

/-- No tracker but the one of its bank works on a set. -/
theorem Banked.idx_ne (banked : Banked s) (admissible : c.Admissible) (busy : (s.tag i).state ≠ .idle) {idx : Nat}
    (other : idx % c.nTagTransactors ≠ i) : idx ≠ (s.tag i).idx c := by
  rintro rfl
  exact other (banked.bank_eq admissible busy)

theorem Tracks.visited (tracks : s.Tracks v) (admissible : c.Admissible) (banked : Banked s') {t : TagXactTracker}
    {a : Arrays}
    {v' : View} (visit : (s.tag i).visit c s.arrays way = some (t, a)) (tag : s'.tag = upd s.tag i t)
    (arrays : s'.arrays = a)
    (wb : s'.wb = s.wb) (bank : TagXactTracker.Bank c v' i t a) (views : ∀ b, c.bankOf b ≠ i → v.Agree v' b) :
    s'.Tracks v' := by
  have xact := (TagXactTracker.serving_visit visit).1
  have busy : (s.tag i).state ≠ .idle := by
    intro idle
    simp [TagXactTracker.visit, idle] at visit
  have other : (s.tag s.wb.id).state = .wb → s.wb.id ≠ i := by
    rintro waits rfl
    simp [TagXactTracker.visit, waits] at visit
  have agree : ∀ idx, idx % c.nTagTransactors ≠ i → Arrays.AgreeOn c s.arrays a idx :=
    fun idx other => TagXactTracker.agree_visit visit (tracks.banked.idx_ne admissible busy other)
  have right : s'.WbRight := by
    refine tracks.wb.keep wb (fun waits => ?_) fun waits => ?_
    · rw [tag, upd_of_ne (other waits)]
    · rw [arrays]
      refine (agree _ ?_).datas
      rw [tracks.banked.bank_eq admissible (by simp [waits])]
      exact other waits
  refine tracks.change admissible banked right tag arrays (fun _ => ?_) bank agree views
  rw [xact]
  exact tracks.quiet i busy

theorem stepVisit_spec (fired : s.stepVisit i way = some s') : ∃ t a, (s.tag i).visit c s.arrays way = some (t, a) ∧
    s'.tag = upd s.tag i t ∧ s'.arrays = a ∧ s'.wb = s.wb := by
  obtain ⟨⟨t, a⟩, visit, result⟩ := Option.map_eq_some_iff.mp fired
  refine ⟨t, a, visit, ?_⟩
  simp only at result
  split at result
  · subst result
    exact ⟨deliver_tag .., deliver_arrays .., deliver_wb ..⟩
  · subst result
    exact ⟨rfl, rfl, rfl⟩

theorem Tracks.visit (tracks : s.Tracks v) (admissible : c.Admissible) (banked : Banked s')
    (bound : i < c.nTagTransactors)
    (other : (s.tag i).state ≠ .mr) (fired : s.stepVisit i way = some s') : s'.Tracks v := by
  obtain ⟨t, a, visit, tag, arrays, wb⟩ := stepVisit_spec fired
  have busy : (s.tag i).state ≠ .idle := by
    intro idle
    simp [TagXactTracker.visit, idle] at visit
  exact tracks.visited admissible banked visit tag arrays wb ((tracks.banks i bound).visit visit ⟨busy, other⟩) fun b _ => .refl v b

theorem Tracks.load (tracks : s.Tracks v) (admissible : c.Admissible) (banked : Banked s') (bound : i < c.nTagTransactors)
    (state : (s.tag i).state = .mr) (fired : s.stepVisit i way = some s') :
    ∃ v' : View, v.Takes (s.tag i).xact v' ∧ s'.Tracks v' := by
  obtain ⟨t, a, visit, tag, arrays, wb⟩ := stepVisit_spec fired
  have busy : (s.tag i).state ≠ .idle := by simp [state]
  have own := (tracks.banked.routed i busy).2
  have read := visit
  simp only [TagXactTracker.visit, state] at read
  split at read
  · rename_i ways
    cases read
    obtain ⟨v', takes, views, bank⟩ := (tracks.banks i bound).load admissible state own ways (tracks.quiet i busy)
    exact ⟨v', takes, tracks.visited admissible banked visit tag arrays wb bank views⟩
  · cases read

theorem stepLock_spec (fired : s.stepLock i = some s') :
    s'.tag = upd s.tag i { s.tag i with state := .idle } ∧ s'.arrays = s.arrays ∧ s'.wb = s.wb := by
  obtain ⟨locked, table, result⟩ := Option.map_eq_some_iff.mp fired
  obtain ⟨tag, arrays, wb⟩ := lockTable_kept table
  split at result
  · subst result
    exact ⟨by simp only [setTag, tag], arrays, wb⟩
  · subst result
    exact ⟨by simp only [deliver_tag, setTag, tag], by simp only [deliver_arrays, setTag, arrays],
      by simp only [deliver_wb, setTag, wb]⟩

theorem Tracks.lock (tracks : s.Tracks v) (admissible : c.Admissible) (banked : Banked s') (bound : i < c.nTagTransactors)
    (state : (s.tag i).state = .l) (fired : s.stepLock i = some s') : s'.Tracks v := by
  obtain ⟨tag, arrays, wb⟩ := stepLock_spec fired
  have right : s'.WbRight := by
    refine tracks.wb.keep wb (fun waits => ?_) fun _ => by rw [arrays]
    -- The tracker that the unit works for waits in another state.
    have other : s.wb.id ≠ i := by
      rintro rfl
      rw [state] at waits
      cases waits
    rw [tag, upd_of_ne other]
  have waiting : ¬TagXactTracker.Serving { s.tag i with state := .idle } := fun serving => serving.1 rfl
  have bank := (tracks.banks i bound).rest (.inr (.inr state)) waiting
  exact tracks.update admissible banked right tag arrays (fun busy => absurd rfl busy) bank fun idx _ => .refl _ idx

theorem Tracks.wbReq (tracks : s.Tracks v) (admissible : c.Admissible) (banked : Banked s')
    (fired : s.stepWbReq i = some s') : s'.Tracks v := by
  unfold stepWbReq at fired
  split at fired
  · rename_i ready
    obtain ⟨bound, state, -, -⟩ := ready
    cases fired
    refine tracks.update admissible banked ⟨fun _ => ⟨?_, ?_, ?_, ?_⟩, fun read => ?_⟩ rfl rfl
      (fun _ => tracks.quiet i (by simp [state])) ((tracks.banks i bound).wbReq state) fun idx _ => .refl _ idx
    · simp [setTag, state]
    · simp [setTag, TagXactTracker.idx]
    · simp [setTag]
    · simp [setTag]
    · simp at read
  · cases fired

/-- The write-back unit saves the line of the victim, and of no other set. -/
theorem Tracks.wbStep (tracks : s.Tracks v) (admissible : c.Admissible) (banked : Banked s')
    (fired : s.stepWb = some s') : s'.Tracks v := by
  have keep : ∀ u : State c, Banked u → u.tag = s.tag → u.arrays = s.arrays → u.WbRight → u.Tracks v := by
    intro u banked tag arrays right
    refine ⟨banked, ?_, right, ?_⟩
    · rw [tag]
      exact tracks.quiet
    · rw [tag, arrays]
      exact tracks.banks
  unfold stepWb at fired
  split at fired
  · cases fired
  · rename_i read
    cases fired
    obtain ⟨waits, idx, wayEn, tag⟩ := tracks.wb.held (.inl read)
    exact keep _ banked rfl rfl ⟨fun _ => ⟨waits, idx, wayEn, tag⟩, fun _ => rfl⟩
  · rename_i readDone
    cases fired
    obtain ⟨waits, idx, wayEn, tag⟩ := tracks.wb.held (.inr (.inl readDone))
    exact keep _ banked rfl rfl ⟨fun _ => ⟨waits, idx, wayEn, tag⟩, fun _ => tracks.wb.line (.inl readDone)⟩
  · rename_i write
    obtain ⟨waits, idx, wayEn, tag⟩ := tracks.wb.held (.inr (.inr write))
    have line := tracks.wb.line (.inr write)
    rw [if_pos waits] at fired
    cases fired
    have busy : (s.tag s.wb.id).state ≠ .idle := by simp [waits]
    have bound := (tracks.banked.routed _ busy).1
    -- What the unit has buffered is still the line of the victim.
    have memory : s.arrays.writeMemory (c.blockAt s.wb.tag s.wb.idx) s.wb.dataBuffer =
        s.arrays.writeMemory ((s.tag s.wb.id).wbBlock c) (s.arrays.datas ((s.tag s.wb.id).idx c) (s.tag s.wb.id).way) := by
      rw [line, tag, idx, wayEn]
      rfl
    have bank := (tracks.banks _ bound).writeBack waits
    refine tracks.update admissible banked ⟨fun other => ?_, fun other => ?_⟩ rfl memory (fun _ => ?_) bank fun set other => ?_
    · simp [setTag] at other
    · simp [setTag] at other
    · rw [TagXactTracker.enterF_xact]
      exact tracks.quiet _ busy
    · refine Arrays.agreeOn_writeMemory ?_ _
      rw [TagXactTracker.setOf_wbBlock]
      exact tracks.banked.idx_ne admissible busy other
  · cases fired
    exact keep _ banked rfl rfl ⟨fun other => by simp at other, fun other => by simp at other⟩

/-! Which requests are under way. -/

def accepted (s : State c) (i : Nat) : TCTagRequest := if s.initialising i then s.initReq i else s.tcReq (s.chosen i)

def nextStage (s : State c) (e : Event c) (j : Nat) : Option (TCTagRequest × Bool) :=
  match e with
  | .accept i => if j = i then some (s.accepted i, false) else (s.tag j).stage
  | .tag i _ =>
    if j = i then
      if (s.tag i).state = .mr then some ((s.tag i).xact, true)
      else if (s.tag i).state = .l then none
      else (s.tag i).stage
    else (s.tag j).stage
  | _ => (s.tag j).stage

theorem stage_accept (fired : s.stepAccept i = some s') :
    s'.tag = upd s.tag i ((s.tag i).accept (s.accepted i)) ∧ (s.tag i).state = .idle := by
  unfold stepAccept at fired
  split at fired
  · rename_i ready
    refine ⟨?_, ready.2⟩
    split at fired
    · rename_i first
      cases fired
      simp only [setTag, accepted, first, if_true]
    · rename_i ended
      split at fired
      · cases fired
        simp only [setTag, setMem, accepted, ended, Bool.false_eq_true, if_false]
      · cases fired
  · cases fired

theorem stage_step {e : Event c} (fired : s.step e = some s') (j : Nat) : (s'.tag j).stage = s.nextStage e j := by
  have changed : ∀ {i t x}, s'.tag = upd s.tag i t → TagXactTracker.stage t = x →
      (s'.tag j).stage = if j = i then x else (s.tag j).stage := by
    intro i t x tag stage
    rw [tag]
    split
    · rename_i same
      rw [same, upd_same, stage]
    · rename_i other
      rw [upd_of_ne other]
  have mt : ∀ {m source target}, s.stepMt m source target = some s' → (s'.tag j).stage = (s.tag j).stage := by
    intro m source target moved
    unfold stepMt at moved
    split at moved
    · cases moved
      rfl
    · cases moved
  cases e with
  | acquire m req order =>
    simp only [State.step, stepAcquire] at fired
    split at fired
    · cases fired
      rfl
    · cases fired
  | outerAcquire m => exact mt fired
  | outerGrant m => exact mt fired
  | innerGrant m => exact mt fired
  | accept i => exact changed (stage_accept fired).1 (by simp [TagXactTracker.stage, TagXactTracker.accept])
  | wbReq i =>
    simp only [State.step, stepWbReq] at fired
    split at fired
    · cases fired
      refine (changed rfl rfl).trans ?_
      split
      · rename_i same
        rw [same]
        rfl
      · rfl
    · cases fired
  | wb =>
    simp only [State.step, stepWb] at fired
    split at fired
    · cases fired
    · cases fired
      rfl
    · cases fired
      rfl
    · split at fired
      · rename_i waits
        cases fired
        refine (changed rfl (x := (s.tag s.wb.id).stage) (by simp [TagXactTracker.stage, waits])).trans ?_
        split
        · rename_i same
          rw [same]
          rfl
        · rfl
      · cases fired
        rfl
    · cases fired
      rfl
  | tag i way =>
    simp only [State.step, stepTag] at fired
    split at fired
    · split at fired
      · rename_i last
        refine (changed (stepLock_spec fired).1 (x := none) (by simp [TagXactTracker.stage])).trans ?_
        simp [nextStage, last]
      · rename_i other
        -- behind a visit the metadata are read, whichever state it was
        obtain ⟨t, a, visit, tag, -⟩ := stepVisit_spec fired
        obtain ⟨xact, busy, loaded⟩ := TagXactTracker.serving_visit visit
        refine (changed tag (x := some ((s.tag i).xact, true)) (by simp [TagXactTracker.stage, busy, loaded, xact])).trans ?_
        have active : (s.tag i).state ≠ .idle := by
          intro idle
          simp [TagXactTracker.visit, idle] at visit
        by_cases first : (s.tag i).state = .mr
        · simp [nextStage, first]
        · simp [nextStage, first, other, TagXactTracker.stage, active]
    · cases fired

/-! What the memory trackers see. -/

/-- Write-type requests are answered with their metadata, the others at their end. -/
def Answers (s : State c) (i : Nat) : Prop :=
  (s.tag i).state = .mr ∧ (s.tag i).xact.op.isWrite = true ∨ (s.tag i).state = .l ∧ (s.tag i).xact.op.isWrite = false

theorem mem_tag (fired : s.stepTag i way = some s') :
    i < c.nTagTransactors ∧ s'.rstCnt = s.rstCnt ∧ (s'.mem = s.mem ∧ (s.initialising i = true ∨ ¬s.Answers i) ∨
      s.Answers i ∧ s'.mem = upd s.mem (s.tag i).xact.id ((s.mem (s.tag i).xact.id).tcResp (s.tag i).resp)) := by
  -- an answer reaches its tracker unless the bank still creates
  have delivered : ∀ {u : State c}, u.mem = s.mem → u.rstCnt = s.rstCnt → s.Answers i →
      (u.deliver i (s.tag i).resp).rstCnt = s.rstCnt ∧ ((u.deliver i (s.tag i).resp).mem = s.mem ∧
        (s.initialising i = true ∨ ¬s.Answers i) ∨ s.Answers i ∧ (u.deliver i (s.tag i).resp).mem =
          upd s.mem (s.tag i).xact.id ((s.mem (s.tag i).xact.id).tcResp (s.tag i).resp)) := by
    intro u mem rst answers
    have same : u.initialising i = s.initialising i := by rw [initialising, initialising, rst]
    unfold deliver
    split
    · rename_i busy
      exact ⟨rst, .inl ⟨mem, .inl (same ▸ busy)⟩⟩
    · refine ⟨rst, .inr ⟨answers, ?_⟩⟩
      rw [setMem, mem]
      rfl
  unfold stepTag at fired
  split at fired
  · rename_i bound
    refine ⟨bound, ?_⟩
    split at fired
    -- a read is answered when its lock is done
    · rename_i last
      obtain ⟨locked, table, result⟩ := Option.map_eq_some_iff.mp fired
      have kept : locked.mem = s.mem ∧ locked.rstCnt = s.rstCnt := by
        unfold lockTable at table
        split at table
        · split at table
          · obtain ⟨j, -, rfl⟩ := Option.map_eq_some_iff.mp table
            exact ⟨rfl, rfl⟩
          · cases table
            exact ⟨rfl, rfl⟩
        · cases table
          exact ⟨rfl, rfl⟩
      split at result
      · rename_i write
        subst result
        refine ⟨kept.2, .inl ⟨kept.1, .inr ?_⟩⟩
        simp [Answers, last, write]
      · rename_i read
        subst result
        exact delivered kept.1 kept.2 (.inr ⟨last, by simpa using read⟩)
    -- a write is answered when its metadata are read
    · rename_i other
      obtain ⟨⟨t, a⟩, -, result⟩ := Option.map_eq_some_iff.mp fired
      simp only at result
      split at result
      · rename_i early
        subst result
        exact delivered rfl rfl (.inl early)
      · rename_i late
        subst result
        refine ⟨rfl, .inl ⟨rfl, .inr ?_⟩⟩
        simpa [Answers, other] using late
  · cases fired

def loads (s : State c) : Event c → Option TCTagRequest
  | .tag i _ => if (s.tag i).state = .mr then some (s.tag i).xact else none
  | _ => none

/-- Only metadata reads change the view, and each of them as its request says. -/
theorem Tracks.step (tracks : s.Tracks v) (admissible : c.Admissible)
    (aligned : c.nTagTransactors ∣ Config.blockOf c.topMapBase) {e : Event c} (fired : s.step e = some s') :
    s.loads e = none ∧ s'.Tracks v ∨ ∃ req v', s.loads e = some req ∧ v.Takes req v' ∧ s'.Tracks v' := by
  have banked := tracks.banked.step admissible aligned fired
  -- the memory side of the trackers touches neither arrays nor memory
  have mt : ∀ {m source target}, s.stepMt m source target = some s' → s'.Tracks v := by
    intro m source target moved
    unfold stepMt at moved
    split at moved
    · cases moved
      exact tracks.frame rfl rfl rfl
    · cases moved
  cases e with
  | acquire m req order =>
    refine .inl ⟨rfl, ?_⟩
    simp only [State.step, stepAcquire] at fired
    split at fired
    · cases fired
      exact tracks.frame rfl rfl rfl
    · cases fired
  | outerAcquire m => exact .inl ⟨rfl, mt fired⟩
  | outerGrant m => exact .inl ⟨rfl, mt fired⟩
  | innerGrant m => exact .inl ⟨rfl, mt fired⟩
  | accept i => exact .inl ⟨rfl, tracks.accept admissible banked fired⟩
  | wbReq i => exact .inl ⟨rfl, tracks.wbReq admissible banked fired⟩
  | wb => exact .inl ⟨rfl, tracks.wbStep admissible banked fired⟩
  | tag i way =>
    simp only [State.step, stepTag] at fired
    split at fired
    · rename_i bound
      split at fired
      · rename_i state
        exact .inl ⟨by simp [loads, state], tracks.lock admissible banked bound state fired⟩
      -- only this visit counts: what comes later in the request is in the view already
      · by_cases state : (s.tag i).state = .mr
        · obtain ⟨v', takes, tracks'⟩ := tracks.load admissible banked bound state fired
          exact .inr ⟨_, v', by simp [loads, state], takes, tracks'⟩
        · exact .inl ⟨by simp [loads, state], tracks.visit admissible banked bound state fired⟩
    · cases fired

theorem Tracks.unread (tracks : s.Tracks v) (admissible : c.Admissible)
    (aligned : c.nTagTransactors ∣ Config.blockOf c.topMapBase) {e : Event c} (fired : s.step e = some s')
    (none' : s.loads e = none) : s'.Tracks v := by
  rcases tracks.step admissible aligned fired with ⟨-, tracks'⟩ | ⟨req, v', load, -⟩
  · exact tracks'
  · rw [none'] at load
    cases load

end State

end LowRisc.TagCache
