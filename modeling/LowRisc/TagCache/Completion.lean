import LowRisc.TagCache.Banks

/-! What is left of a request.

A tag tracker that has its metadata runs through the rest of its states without asking anybody but
the write-back unit. The arrays as it will leave them change with no further step of its own.
-/

set_option autoImplicit false

namespace LowRisc.TagCache

open LowRisc.Chisel LowRisc.Lib

namespace TagXactTracker

variable (c : Config) (t : TagXactTracker) (a : Arrays)

def fromMw : TagXactTracker × Arrays :=
  ({ t with state := .l }, a.writeMeta (t.idx c) t.wayEn ⟨t.addrTag c, t.metaTcnt, t.metaState⟩)

def fromDwb : TagXactTracker × Arrays :=
  fromMw c { t with state := .mw } (a.writeData (t.idx c) t.way t.dataBuf)

def fromDwr : TagXactTracker × Arrays :=
  fromMw c { t with state := .mw, metaState := .dirty } (a.writeData (t.idx c) t.way (t.writtenRow c a))

def fromDr : TagXactTracker × Arrays :=
  if t.xact.op.isWrite then fromDwr c (t.dataResp c a) a else (t.dataResp c a, a)

def fromF : TagXactTracker × Arrays :=
  if t.xact.op.isCreate then fromDwb c { t with state := .dwb } a else fromDwb c (t.fetched (a.memory t.block)) a

def fromWb : TagXactTracker × Arrays :=
  fromF c t.enterF (a.writeMemory (t.wbBlock c) (a.datas (t.idx c) t.way))

/-- The tracker in its last state, and the arrays as it leaves them. -/
def complete : TagXactTracker × Arrays :=
  match t.state with
  | .idle | .mr | .l => (t, a)
  | .dr => t.fromDr c a
  | .dwr => t.fromDwr c a
  | .mw => t.fromMw c a
  | .wb => t.fromWb c a
  | .f => t.fromF c a
  | .dwb => t.fromDwb c a

variable {c t a} {t' : TagXactTracker} {a' : Arrays} {victim : Nat}

theorem complete_of_rest (rest : t.state = .idle ∨ t.state = .mr ∨ t.state = .l) : t.complete c a = (t, a) := by
  rcases rest with state | state | state <;> rw [complete, state]

theorem complete_of_wb (state : t.state = .wb) :
    t.complete c a = t.enterF.complete c (a.writeMemory (t.wbBlock c) (a.datas (t.idx c) t.way)) := by
  rw [complete, state, complete, enterF_state]
  rfl

/-- A visit after the metadata read goes on as foreseen. -/
theorem complete_visit (visited : t.visit c a victim = some (t', a')) (other : t.state ≠ .mr) :
    t'.complete c a' = t.complete c a := by
  cases state : t.state with
  | mr => exact absurd state other
  | idle | wb | l => simp [visit, state] at visited
  | dr =>
    simp only [visit, state, Option.some.injEq, Prod.mk.injEq] at visited
    rw [← visited.1, ← visited.2]
    cases write : t.xact.op.isWrite <;> simp [complete, state, fromDr, dataResp, write]
  | dwr | mw | dwb =>
    simp only [visit, state, Option.some.injEq, Prod.mk.injEq] at visited
    rw [← visited.1, ← visited.2, complete, complete, state]
    rfl
  | f =>
    simp only [visit, state] at visited
    split at visited
    · rename_i create
      cases visited
      rw [complete, complete, state]
      simp only [fromF, create, if_true]
    · rename_i fetch
      split at visited
      · cases visited
        rw [complete, complete, state]
        simp only [fromF, fetch, fetched]
        rfl
      · cases visited
        rw [complete, complete, state]
        simp only [fromF, fetch]
        rfl

end TagXactTracker

/-! Sets are independent of each other. -/

def Config.setOf (c : Config) (b : Nat) : Nat := b % 2 ^ c.idxBits

namespace Arrays

variable {c : Config} {a a' a'' : Arrays} {idx : Nat}

structure AgreeOn (c : Config) (a a' : Arrays) (idx : Nat) : Prop where
  metas : a'.metas idx = a.metas idx
  datas : a'.datas idx = a.datas idx
  memory : ∀ b, c.setOf b = idx → a'.memory b = a.memory b

theorem AgreeOn.refl (a : Arrays) (idx : Nat) : AgreeOn c a a idx := ⟨rfl, rfl, fun _ _ => rfl⟩

theorem AgreeOn.symm (agree : AgreeOn c a a' idx) : AgreeOn c a' a idx :=
  ⟨agree.metas.symm, agree.datas.symm, fun b here => (agree.memory b here).symm⟩

theorem AgreeOn.trans (first : AgreeOn c a a' idx) (second : AgreeOn c a' a'' idx) : AgreeOn c a a'' idx :=
  ⟨second.metas.trans first.metas, second.datas.trans first.datas,
    fun b here => (second.memory b here).trans (first.memory b here)⟩

theorem agreeOn_writeMeta {i : Nat} (other : idx ≠ i) (wayEn : List Nat) (md : TCMetadata) :
    AgreeOn c a (a.writeMeta i wayEn md) idx :=
  ⟨by simp [writeMeta, other], rfl, fun _ _ => rfl⟩

theorem agreeOn_writeData {i : Nat} (other : idx ≠ i) (way : Nat) (line : Line) :
    AgreeOn c a (a.writeData i way line) idx :=
  ⟨rfl, by simp [writeData, other], fun _ _ => rfl⟩

theorem agreeOn_writeMemory {block : Nat} (other : idx ≠ c.setOf block) (line : Line) :
    AgreeOn c a (a.writeMemory block line) idx := by
  refine ⟨rfl, rfl, fun b here => ?_⟩
  have apart : b ≠ block := by
    rintro rfl
    exact other here.symm
  simp [writeMemory, apart]

end Arrays

namespace TagXactTracker

open Arrays

variable {c : Config} {t t' : TagXactTracker} {a a' : Arrays} {idx victim : Nat}

theorem setOf_wbBlock (t : TagXactTracker) : c.setOf (t.wbBlock c) = t.idx c := by
  rw [Config.setOf, wbBlock, Config.blockAt, Nat.mul_comm, Nat.mul_add_mod]
  exact Nat.mod_mod _ _

theorem setOf_block (t : TagXactTracker) : c.setOf t.block = t.idx c := rfl

/-! What a request leaves alone. -/

theorem agree_fromMw (other : idx ≠ t.idx c) : AgreeOn c a (t.fromMw c a).2 idx := agreeOn_writeMeta other _ _

theorem agree_fromDwb (other : idx ≠ t.idx c) : AgreeOn c a (t.fromDwb c a).2 idx :=
  (agreeOn_writeData other _ _).trans (agree_fromMw (t := { t with state := .mw }) other)

theorem agree_fromF (other : idx ≠ t.idx c) : AgreeOn c a (t.fromF c a).2 idx := by
  rw [fromF]
  split
  · exact agree_fromDwb (t := { t with state := .dwb }) other
  · exact agree_fromDwb (t := t.fetched (a.memory t.block)) other

theorem agree_complete (other : idx ≠ t.idx c) : AgreeOn c a (t.complete c a).2 idx := by
  have dwr : ∀ u : TagXactTracker, u.xact = t.xact → AgreeOn c a (u.fromDwr c a).2 idx := by
    intro u xact
    have apart : idx ≠ u.idx c := by rwa [TagXactTracker.idx, xact]
    exact (agreeOn_writeData apart _ _).trans (agree_fromMw (t := { u with state := .mw, metaState := .dirty }) apart)
  cases state : t.state with
  | idle | mr | l =>
    rw [complete_of_rest (by simp [state])]
    exact .refl a idx
  | dr =>
    rw [complete, state]
    simp only [fromDr]
    split
    · exact dwr _ rfl
    · exact .refl a idx
  | dwr =>
    rw [complete, state]
    exact dwr _ rfl
  | mw =>
    rw [complete, state]
    exact agree_fromMw other
  | wb =>
    rw [complete, state]
    have apart : idx ≠ t.enterF.idx c := by rwa [TagXactTracker.idx, enterF_xact]
    exact (agreeOn_writeMemory (by rwa [setOf_wbBlock]) _).trans (agree_fromF apart)
  | f =>
    rw [complete, state]
    exact agree_fromF other
  | dwb =>
    rw [complete, state]
    exact agree_fromDwb other

theorem agree_visit (visited : t.visit c a victim = some (t', a')) (other : idx ≠ t.idx c) : AgreeOn c a a' idx := by
  cases state : t.state with
  | idle | wb | l => simp [visit, state] at visited
  | mr =>
    simp only [visit, state] at visited
    split at visited
    · cases visited
      exact .refl a idx
    · cases visited
  | dr =>
    simp only [visit, state, Option.some.injEq, Prod.mk.injEq] at visited
    rw [← visited.2]
    exact .refl a idx
  | dwr | dwb =>
    simp only [visit, state, Option.some.injEq, Prod.mk.injEq] at visited
    rw [← visited.2]
    exact agreeOn_writeData other _ _
  | mw =>
    simp only [visit, state, Option.some.injEq, Prod.mk.injEq] at visited
    rw [← visited.2]
    exact agreeOn_writeMeta other _ _
  | f =>
    simp only [visit, state] at visited
    split at visited
    · cases visited
      exact .refl a idx
    · split at visited
      all_goals
        cases visited
        exact .refl a idx

/-! What a request depends on. -/

theorem congr_fromMw (agree : AgreeOn c a a' (t.idx c)) :
    (t.fromMw c a').1 = (t.fromMw c a).1 ∧ AgreeOn c (t.fromMw c a).2 (t.fromMw c a').2 (t.idx c) := by
  refine ⟨rfl, ?_, agree.datas, agree.memory⟩
  simp only [fromMw, writeMeta, true_and]
  rw [agree.metas]

theorem congr_fromDwb (agree : AgreeOn c a a' (t.idx c)) :
    (t.fromDwb c a').1 = (t.fromDwb c a).1 ∧ AgreeOn c (t.fromDwb c a).2 (t.fromDwb c a').2 (t.idx c) := by
  refine congr_fromMw (t := { t with state := .mw }) ⟨agree.metas, ?_, agree.memory⟩
  simp only [writeData, TagXactTracker.idx, true_and]
  rw [show a'.datas (c.idxOf t.xact.addr) = a.datas (c.idxOf t.xact.addr) from agree.datas]

theorem congr_fromDwr (agree : AgreeOn c a a' (t.idx c)) :
    (t.fromDwr c a').1 = (t.fromDwr c a).1 ∧ AgreeOn c (t.fromDwr c a).2 (t.fromDwr c a').2 (t.idx c) := by
  refine congr_fromMw (t := { t with state := .mw, metaState := .dirty }) ⟨agree.metas, ?_, agree.memory⟩
  have same : a'.datas (c.idxOf t.xact.addr) = a.datas (c.idxOf t.xact.addr) := agree.datas
  simp only [writeData, writtenRow, TagXactTracker.idx, true_and]
  rw [same]

theorem congr_fromF (agree : AgreeOn c a a' (t.idx c)) :
    (t.fromF c a').1 = (t.fromF c a).1 ∧ AgreeOn c (t.fromF c a).2 (t.fromF c a').2 (t.idx c) := by
  rw [fromF, fromF]
  split
  · exact congr_fromDwb (t := { t with state := .dwb }) agree
  · rw [agree.memory t.block rfl]
    exact congr_fromDwb (t := t.fetched (a.memory t.block)) agree

theorem congr_complete (agree : AgreeOn c a a' (t.idx c)) :
    (t.complete c a').1 = (t.complete c a).1 ∧ AgreeOn c (t.complete c a).2 (t.complete c a').2 (t.idx c) := by
  cases state : t.state with
  | idle | mr | l =>
    rw [complete_of_rest (by simp [state]), complete_of_rest (by simp [state])]
    exact ⟨rfl, agree⟩
  | dr =>
    -- both see the row of the same line
    have read : t.dataResp c a' = t.dataResp c a := by
      rw [dataResp, dataResp, agree.datas]
    rw [complete, complete, state]
    simp only [fromDr, read]
    split
    · exact congr_fromDwr (t := t.dataResp c a) agree
    · exact ⟨rfl, agree⟩
  | dwr =>
    rw [complete, complete, state]
    exact congr_fromDwr agree
  | mw =>
    rw [complete, complete, state]
    exact congr_fromMw agree
  | wb =>
    rw [complete, complete, state]
    have xact : t.enterF.idx c = t.idx c := by rw [TagXactTracker.idx, enterF_xact, TagXactTracker.idx]
    rw [← xact] at agree ⊢
    refine congr_fromF (t := t.enterF) ⟨agree.metas, agree.datas, fun b here => ?_⟩
    rw [xact] at agree here
    -- the victim that goes to memory is the same line in both
    simp only [writeMemory]
    split
    · exact congrFun agree.datas _
    · exact agree.memory b here
  | f =>
    rw [complete, complete, state]
    exact congr_fromF agree
  | dwb =>
    rw [complete, complete, state]
    exact congr_fromDwb agree

end TagXactTracker

end LowRisc.TagCache
