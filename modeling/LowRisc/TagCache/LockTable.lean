import LowRisc.TagCache.Responses

/-! The lock table.

A tracker takes the lock of a bit of tag map 1 and then that of a bit of tag map 0, and gives them
back with its last two requests, whose tag trackers free the entries after they have answered. An
entry is due to a tracker from the response to its lock request on until then.
-/

set_option autoImplicit false

namespace LowRisc.TagCache

open LowRisc.Chisel LowRisc.Lib

variable {c : Config}

def MapLevel.addr (c : Config) : MapLevel → Nat → Nat
  | .tm0, addr => c.tg.pa2tm0a addr
  | .tm1, addr => c.tg.pa2tm1a addr

/-- The state that asks for the lock on a level, and the one that gives it back. -/
def MapLevel.opening : MapLevel → TcState
  | .tm0 => .tm0l
  | .tm1 => .tm1l

def MapLevel.closing : MapLevel → TcState
  | .tm0 => .tm0w
  | .tm1 => .tm1w

def TcState.holds : TcState → MapLevel → Bool
  | .tm0l, .tm1 | .ttl, _ | .ttw, _ | .tm0w, _ | .tm1w, .tm1 => true
  | _, _ => false

theorem Config.Admissible.key_inj (admissible : c.Admissible) {level level' : MapLevel} {a d : Nat} (first : c.tg.Tagged a)
    (second : c.tg.Tagged d) (same : level.key c a = level'.key c d) :
    level = level' ∧ level.addr c a = level'.addr c d := by
  obtain ⟨t, k, b, A, S, geo⟩ := admissible.exists_geometry
  cases level with
  | tm0 =>
    cases level' with
    | tm0 =>
      have bits := (geo.key_tm0 first second).mp (by simpa [MapLevel.key] using same)
      exact ⟨rfl, congrArg Prod.fst bits⟩
    | tm1 => exact absurd (congrArg Prod.fst same) (geo.key_levels first second)
  | tm1 =>
    cases level' with
    | tm0 => exact absurd (congrArg Prod.fst same).symm (geo.key_levels second first)
    | tm1 =>
      have bits := (geo.key_tm1 first second).mp (by simpa [MapLevel.key] using same)
      exact ⟨rfl, congrArg Prod.fst bits⟩

namespace MemXactTracker

variable {m : MemXactTracker c}

@[simp] theorem memAddr_tcResp (m : MemXactTracker c) (resp : TCTagResp) : (m.tcResp resp).memAddr = m.memAddr := by
  unfold tcResp
  split <;> rfl

theorem level_of_isMap (admissible : c.Admissible) (tagged : c.tg.Tagged m.memAddr) (busy : m.tcState ≠ .idle) {id : Nat}
    (map : c.tg.isMap (m.tcReq id).addr = true) :
    ∃ level, m.tcState.level = some level ∧ (m.tcReq id).addr = level.addr c m.memAddr := by
  obtain ⟨t, k, b, A, S, geo⟩ := admissible.exists_geometry
  have table := (geo.classes tagged).1
  cases state : m.tcState with
  | idle => exact absurd state busy
  | ttr | ttf | ttl | ttw =>
    simp only [tcReq, state, ttAddr] at map
    rw [table] at map
    cases map
  | tm0r | tm0f | tm0l | tm0w => exact ⟨.tm0, rfl, by simp only [tcReq, state]; rfl⟩
  | tm1f | tm1l | tm1w => exact ⟨.tm1, rfl, by simp only [tcReq, state]; rfl⟩

theorem isMap_of_level (admissible : c.Admissible) (tagged : c.tg.Tagged m.memAddr) (id : Nat) {level : MapLevel}
    (on : m.tcState.level = some level) : c.tg.isMap (m.tcReq id).addr = true := by
  obtain ⟨t, k, b, A, S, geo⟩ := admissible.exists_geometry
  obtain ⟨-, -, zero, -, one, -⟩ := geo.classes tagged
  cases state : m.tcState with
  | idle | ttr | ttf | ttl | ttw => rw [state] at on; cases on
  | tm0r | tm0f | tm0l | tm0w => simpa only [tcReq, state, tm0Addr] using zero
  | tm1f | tm1l | tm1w => simpa only [tcReq, state, tm1Addr] using one

theorem opening_of_isLock {id : Nat} {level : MapLevel} (lock : (m.tcReq id).op.isLock = true)
    (on : m.tcState.level = some level) : m.tcState = level.opening := by
  cases state : m.tcState with
  | idle | ttr | ttf | ttl | ttw => rw [state] at on; cases on
  | tm0r | tm0f | tm1f => simp [tcReq, state, TCTagOp.isLock] at lock
  | tm0l | tm1l =>
    rw [state] at on
    cases on
    rfl
  | tm0w =>
    simp only [tcReq, state, tm0wOp] at lock
    split at lock
    · cases lock
    · split at lock
      · cases lock
      · split at lock <;> cases lock
  | tm1w =>
    simp only [tcReq, state, tm1wOp] at lock
    split at lock <;> cases lock

theorem isLock_of_opening {id : Nat} {level : MapLevel} (opening : m.tcState = level.opening) : (m.tcReq id).op.isLock = true := by
  cases level with
  | tm0 =>
    simp only [tcReq, opening, MapLevel.opening]
    split <;> rfl
  | tm1 =>
    simp only [tcReq, opening, MapLevel.opening]
    rfl

theorem closing_of_isWrite {id : Nat} {level : MapLevel} (write : (m.tcReq id).op.isWrite = true)
    (on : m.tcState.level = some level) : m.tcState = level.closing := by
  cases state : m.tcState with
  | idle | ttr | ttf | ttl | ttw => rw [state] at on; cases on
  | tm0r | tm0f | tm1f | tm1l => simp [tcReq, state, TCTagOp.isWrite] at write
  | tm0l =>
    simp only [tcReq, state] at write
    split at write <;> cases write
  | tm0w | tm1w =>
    rw [state] at on
    cases on
    rfl

theorem holds_tcResp (m : MemXactTracker c) (resp : TCTagResp) (level : MapLevel) :
    (m.tcResp resp).tcState.holds level = true ↔
      m.tcState = level.opening ∨ m.tcState.holds level = true ∧ m.tcState ≠ level.closing := by
  cases state : m.tcState with
  | idle | ttr | tm0r | tm1f | tm0f | ttf =>
    have search : (m.tcResp resp).tcState.holds level = false := by
      simp only [tcResp, state, tcStateNext]
      first
        | rfl
        | (repeat' split) <;> rfl
    rw [search]
    cases level <;> simp [TcState.holds, MapLevel.opening]
  | tm1l | tm0l | ttl | ttw | tm0w | tm1w =>
    cases level <;> simp [tcResp, tcStateNext, state, TcState.holds, MapLevel.opening, MapLevel.closing]

/-- The transaction of the tracker has the lock of a map bit. -/
def Locked (m : MemXactTracker c) (key : Nat × Nat) : Prop := ∃ level, m.tcState.holds level = true ∧ level.key c m.memAddr = key

theorem Locked.busy {key : Nat × Nat} (locked : m.Locked key) : m.tcState ≠ .idle := by
  obtain ⟨level, holds, -⟩ := locked
  intro idle
  rw [idle] at holds
  cases level <;> cases holds

theorem locked_opening {level : MapLevel} (asks : m.tcState = level.opening) (resp : TCTagResp) (key : Nat × Nat) :
    (m.tcResp resp).Locked key ↔ m.Locked key ∨ key = level.key c m.memAddr := by
  unfold Locked
  simp only [holds_tcResp, memAddr_tcResp]
  constructor
  · rintro ⟨level', opened | ⟨holds, -⟩, same⟩
    · rw [asks] at opened
      have level_eq : level = level' := by cases level <;> cases level' <;> first | rfl | cases opened
      exact .inr (by rw [level_eq, same])
    · exact .inl ⟨level', holds, same⟩
  · rintro (⟨level', holds, same⟩ | same)
    · refine ⟨level', .inr ⟨holds, ?_⟩, same⟩
      rw [asks]
      cases level <;> cases level' <;> exact TcState.noConfusion
    · exact ⟨level, .inl asks, same.symm⟩

theorem locked_closing (admissible : c.Admissible) (tagged : c.tg.Tagged m.memAddr) {level : MapLevel}
    (on : m.tcState.level = some level) (other : m.tcState ≠ level.opening) (resp : TCTagResp) (key : Nat × Nat) :
    (m.tcResp resp).Locked key ↔ m.Locked key ∧ key ≠ level.key c m.memAddr := by
  unfold Locked
  simp only [holds_tcResp, memAddr_tcResp]
  constructor
  · rintro ⟨level', opened | ⟨holds, unclosed⟩, rfl⟩
    · have level_eq : level = level' := by
        rw [opened] at on
        cases level <;> cases level' <;> first | rfl | cases on
      rw [level_eq] at other
      exact absurd opened other
    · refine ⟨⟨level', holds, rfl⟩, fun same => ?_⟩
      obtain rfl := (admissible.key_inj tagged tagged same).1
      cases state : m.tcState <;> rw [state] at on holds unclosed <;> cases on <;>
        first
          | exact unclosed rfl
          | cases holds
  · rintro ⟨⟨level', holds, rfl⟩, apart⟩
    refine ⟨level', .inr ⟨holds, fun closed => ?_⟩, rfl⟩
    have level_eq : level = level' := by
      rw [closed] at on
      cases level <;> cases level' <;> first | rfl | cases on
    rw [level_eq] at apart
    exact apart rfl

theorem locked_tcResp (none' : m.tcState.level = none) (resp : TCTagResp) (key : Nat × Nat) :
    (m.tcResp resp).Locked key ↔ m.Locked key := by
  unfold Locked
  simp only [holds_tcResp, memAddr_tcResp]
  constructor
  · rintro ⟨level, opened | ⟨holds, -⟩, same⟩
    · rw [opened] at none'
      cases level <;> cases none'
    · exact ⟨level, holds, same⟩
  · rintro ⟨level, holds, same⟩
    refine ⟨level, .inr ⟨holds, fun closed => ?_⟩, same⟩
    rw [closed] at none'
    cases level <;> cases none'

theorem locked_of_closing {level : MapLevel} (closing : m.tcState = level.closing) : m.Locked (level.key c m.memAddr) := by
  refine ⟨level, ?_, rfl⟩
  rw [closing]
  cases level <;> rfl

end MemXactTracker

theorem TCTagOp.not_isLock_of_isWrite {op : TCTagOp} (write : op.isWrite = true) : op.isLock = false := by
  cases op <;> first | rfl | cases write

def TCTagLock.key (e : TCTagLock) : Nat × Nat := (e.addr, e.lindex)

namespace State

variable {s s' : State c}

theorem unlock_of_lock {req : TCTagRequest} {j : Nat} (locked : ((s.unlock req).locks j).lock = true) :
    (s.unlock req).locks j = s.locks j ∧ ¬((s.locks j).id = req.id ∧ (s.locks j).key = c.lockKey req) := by
  simp only [unlock] at locked ⊢
  split at locked
  · cases locked
  · rename_i other
    rw [if_neg other]
    refine ⟨rfl, ?_⟩
    rintro ⟨id, key⟩
    exact other ⟨locked, id, congrArg Prod.fst key, congrArg Prod.snd key⟩

theorem unlock_other {req : TCTagRequest} {j : Nat} (other : ¬((s.locks j).id = req.id ∧ (s.locks j).key = c.lockKey req)) :
    (s.unlock req).locks j = s.locks j := by
  simp only [unlock]
  rw [if_neg]
  rintro ⟨-, id, addr, lindex⟩
  exact other ⟨id, Prod.ext addr lindex⟩

theorem freeLock_spec {j : Nat} (free : s.freeLock = some j) : j < c.nLocks ∧ (s.locks j).lock = false := by
  have found := List.find?_some free
  have listed := List.mem_of_find?_eq_some free
  exact ⟨List.mem_range.mp listed, by simpa using found⟩

theorem lockTable_of_not_isMap {req : TCTagRequest} (table : s.lockTable req = some s')
    (map : c.tg.isMap req.addr = false) : s'.locks = s.locks := by
  simp only [lockTable, map, Bool.false_eq_true, if_false, Option.some.injEq] at table
  rw [table]

theorem lockTable_of_not_isLock {req : TCTagRequest} (table : s.lockTable req = some s')
    (map : c.tg.isMap req.addr = true) (lock : req.op.isLock = false) : s'.locks = (s.unlock req).locks := by
  simp only [lockTable, map, lock, Bool.false_eq_true, if_true, if_false, Option.some.injEq] at table
  rw [table]

theorem lockTable_of_isLock {req : TCTagRequest} (table : s.lockTable req = some s')
    (map : c.tg.isMap req.addr = true) (lock : req.op.isLock = true) :
    ∃ j, s.freeLock = some j ∧ s'.locks = (s.setLock j req).locks := by
  simp only [lockTable, map, lock, if_true] at table
  obtain ⟨j, free, rfl⟩ := Option.map_eq_some_iff.mp table
  exact ⟨j, free, rfl⟩

theorem stepTag_locks {i way : Nat} (fired : s.stepTag i way = some s') :
    ((s.tag i).state = .l ∧ (s'.tag i).state = .idle ∧ ∃ locked, s.lockTable (s.tag i).xact = some locked ∧ s'.locks = locked.locks)
      ∨ ((s.tag i).state ≠ .l ∧ (s.tag i).state ≠ .idle ∧ (s'.tag i).state ≠ .idle ∧ s'.locks = s.locks) := by
  have kept : ∀ (t : State c) (resp : TCTagResp), (t.deliver i resp).locks = t.locks := by
    intro t resp
    unfold deliver
    split <;> rfl
  unfold stepTag at fired
  split at fired
  · split at fired
    -- the lock stage is the last one
    · rename_i state
      obtain ⟨locked, table, result⟩ := Option.map_eq_some_iff.mp fired
      refine .inl ⟨state, ?_, locked, table, ?_⟩
      · simp only at result
        split at result
        · rw [← result]
          simp [setTag]
        · rw [← result, deliver_tag]
          simp [setTag]
      · simp only at result
        split at result
        · rw [← result]
          rfl
        · rw [← result, kept]
          rfl
    -- the other stages only visit the arrays
    · rename_i state
      obtain ⟨⟨t, a⟩, visited, result⟩ := Option.map_eq_some_iff.mp fired
      obtain ⟨-, busy, -, before, -⟩ := TagXactTracker.visit_spec visited
      refine .inr ⟨state, before, ?_, ?_⟩
      · simp only at result
        split at result
        · rw [← result, deliver_tag]
          simpa [setTag] using busy
        · rw [← result]
          simpa [setTag] using busy
      · simp only at result
        split at result
        · rw [← result, kept]
          rfl
        · rw [← result]
          rfl
  · cases fired

end State

namespace Log

variable (l : Log c)

def Finishing (i m : Nat) (key : Nat × Nat) : Prop :=
  l.origin i = some m ∧ (l.state.tag i).state ≠ .idle ∧ ¬(l.state.tag i).Awaits
    ∧ c.tg.isMap (l.state.tag i).xact.addr = true ∧ key = c.lockKey (l.state.tag i).xact

/-- The transaction of a tracker has the lock of a map bit: its response has come, and that to the
request that gives it back has not. -/
def Holding (m : Nat) (key : Nat × Nat) : Prop := (l.state.mem m).Locked key

/-- The lock is not given back, or the bank that is to free it has not finished. -/
def Due (m : Nat) (key : Nat × Nat) : Prop := l.Holding m key ∨ ∃ i, l.Finishing i m key

/-- A tracker owns exactly one entry for each lock that is due to it, no key is locked twice, and no
lock is left when everything is idle. -/
structure Exclusive : Prop where
  apart : ∀ j k, (l.state.locks j).lock = true → (l.state.locks k).lock = true →
    (l.state.locks j).key = (l.state.locks k).key → j = k
  owned : ∀ m key, l.Due m key → ∃ j < c.nLocks, l.state.locks j = ⟨m, key.1, key.2, true⟩ ∧
    ∀ k, (l.state.locks k).lock = true → (l.state.locks k).id = m → (l.state.locks k).key = key → k = j
  quiet : (∀ m < c.nMemTransactors, (l.state.mem m).tcState = .idle) → (∀ i < c.nTagTransactors, (l.state.tag i).state = .idle) →
    ∀ j, (l.state.locks j).lock = false

def frees (i j : Nat) : Bool :=
  decide ((l.state.tag i).state = .l) && c.tg.isMap (l.state.tag i).xact.addr && !(l.state.tag i).xact.op.isLock
    && (l.state.locks j).lock && decide ((l.state.locks j).id = (l.state.tag i).xact.id)
    && decide ((l.state.locks j).key = c.lockKey (l.state.tag i).xact)

/-- The step frees an entry for the tracker that owns it, or none. -/
def FreesOwn (e : Event c) : Prop :=
  ∀ l', l.step e = some l' → ∀ j, (l.state.locks j).lock = true → (l'.state.locks j).lock = false →
    ∃ i way, e = .tag i way ∧ l.origin i = some (l.state.locks j).id

/-- A create of an initiator bears the identifier and the key of an entry of the table. -/
def robs : Event c → Bool
  | .tag i _ => (l.origin i).isNone && (List.range c.nLocks).any (l.frees i)
  | _ => false

/-- What holds of the requests in the banks whatever the lock table is. -/
structure Sited (l : Log c) : Prop where
  inv : l.Inv
  tagged : ∀ m, (l.state.mem m).tcState ≠ .idle → m < c.nMemTransactors ∧ c.tg.Tagged (l.state.mem m).memAddr
  named : ∀ i m, l.origin i = some m → (l.state.tag i).xact.id = m
  placed : ∀ i m, l.origin i = some m → c.tg.isMap (l.state.tag i).xact.addr = true →
    ∃ level a, c.tg.Tagged a ∧ MapLevel.key c level a = c.lockKey (l.state.tag i).xact
      ∧ c.bankOf (Config.blockOf (level.addr c a)) = i
  created : ∀ i, l.origin i = none → (l.state.tag i).state ≠ .idle → (l.state.tag i).xact.op = .c
  parted : ∀ i m key, l.Finishing i m key → ¬l.Holding m key

structure Kept (l : Log c) : Prop where
  within : ∀ j, (l.state.locks j).lock = true → j < c.nLocks
  due : ∀ j, (l.state.locks j).lock = true → l.Due (l.state.locks j).id (l.state.locks j).key
  entry : ∀ m key, l.Due m key → ∃ j, l.state.locks j = ⟨m, key.1, key.2, true⟩
  apart : ∀ j k, (l.state.locks j).lock = true → (l.state.locks k).lock = true →
    (l.state.locks j).key = (l.state.locks k).key → j = k
  fresh : ∀ i m, l.origin i = some m → (l.state.tag i).Awaits → (l.state.tag i).xact.op.isLock = true →
    c.tg.isMap (l.state.tag i).xact.addr = true → ∀ n, ¬l.Due n (c.lockKey (l.state.tag i).xact)

variable {l l' : Log c}

/-- Requests for one key are in one bank. -/
theorem Sited.bank_eq (sited : l.Sited) (admissible : c.Admissible) {i j m n : Nat} (own : l.origin i = some m)
    (own' : l.origin j = some n) (map : c.tg.isMap (l.state.tag i).xact.addr = true)
    (map' : c.tg.isMap (l.state.tag j).xact.addr = true)
    (same : c.lockKey (l.state.tag i).xact = c.lockKey (l.state.tag j).xact) : i = j := by
  obtain ⟨level, a, tagged, key, bank⟩ := sited.placed i m own map
  obtain ⟨level', d, tagged', key', bank'⟩ := sited.placed j n own' map'
  have rows := (admissible.key_inj tagged tagged' (by rw [key, key', same])).2
  rw [← bank, ← bank', rows]

/-! What a step does to the locks that are due and to the lock table. -/

inductive Effect (l l' : Log c) (i : Nat) : Prop where
  | quiet (locks : l'.state.locks = l.state.locks) (finishing : ∀ j n key, l'.Finishing j n key ↔ l.Finishing j n key)
      (holding : ∀ n key, l'.Holding n key ↔ l.Holding n key)
  /-- the bank answers the request that gives a lock back -/
  | passed (m : Nat) (key : Nat × Nat) (locks : l'.state.locks = l.state.locks) (held : l.Holding m key)
      (finishing : ∀ j n key', l'.Finishing j n key' ↔ l.Finishing j n key' ∨ j = i ∧ n = m ∧ key' = key)
      (holding : ∀ n key', l'.Holding n key' ↔ l.Holding n key' ∧ ¬(n = m ∧ key' = key))
  /-- the bank frees the lock -/
  | closed (m : Nat) (own : l.origin i = some m) (map : c.tg.isMap (l.state.tag i).xact.addr = true)
      (locks : l'.state.locks = (l.state.unlock (l.state.tag i).xact).locks)
      (finishing : ∀ j n key, l'.Finishing j n key ↔ l.Finishing j n key ∧ j ≠ i)
      (holding : ∀ n key, l'.Holding n key ↔ l.Holding n key ∧ ¬(n = m ∧ key = c.lockKey (l.state.tag i).xact))
  /-- the bank sets the lock and answers -/
  | opened (m j : Nat) (own : l.origin i = some m) (map : c.tg.isMap (l.state.tag i).xact.addr = true)
      (lock : (l.state.tag i).xact.op.isLock = true) (waits : (l.state.tag i).Awaits) (done : ¬(l'.state.tag i).Awaits)
      (free : l.state.freeLock = some j) (locks : l'.state.locks = (l.state.setLock j (l.state.tag i).xact).locks)
      (finishing : ∀ j n key, l'.Finishing j n key ↔ l.Finishing j n key)
      (holding : ∀ n key, l'.Holding n key ↔ l.Holding n key ∨ n = m ∧ key = c.lockKey (l.state.tag i).xact)

def Resting (l l' : Log c) : Prop :=
  l'.origin = l.origin ∧ ∀ i, ((l'.state.tag i).Awaits → (l.state.tag i).Awaits) ∧ (l'.state.tag i).xact = (l.state.tag i).xact

theorem Sited.parted_step (sited : l.Sited) (admissible : c.Admissible) {i : Nat} (effect : Effect l l' i) {j m : Nat}
    {key : Nat × Nat} (finishing : l'.Finishing j m key) : ¬l'.Holding m key := by
  intro holding
  cases effect with
  | quiet _ finish hold =>
    rw [finish] at finishing
    rw [hold] at holding
    exact sited.parted j m key finishing holding
  | passed n key' _ _ finish hold =>
    rw [finish] at finishing
    rw [hold] at holding
    rcases finishing with before | ⟨-, same⟩
    · exact sited.parted j m key before holding.1
    · exact holding.2 same
  | closed n _ _ _ finish hold =>
    rw [finish] at finishing
    rw [hold] at holding
    exact sited.parted j m key finishing.1 holding.1
  | opened n k own map _ waits _ _ _ finish hold =>
    rw [finish] at finishing
    rw [hold] at holding
    rcases holding with before | ⟨-, same⟩
    · exact sited.parted j m key finishing before
    · -- the bank of the key still waits with its answer
      obtain ⟨own', -, answered, map', key_eq⟩ := finishing
      obtain rfl := sited.bank_eq admissible own' own map' map (by rw [← key_eq, same])
      exact answered waits

/-! The lock table behind each of these steps. -/

section Table

variable (kept : l.Kept)
  (fresh : ∀ i m, l'.origin i = some m → (l'.state.tag i).Awaits → (l'.state.tag i).xact.op.isLock = true →
    c.tg.isMap (l'.state.tag i).xact.addr = true → ∀ n, ¬l'.Due n (c.lockKey (l'.state.tag i).xact))

include kept fresh

theorem Kept.same (locks : l'.state.locks = l.state.locks) (due : ∀ n key, l'.Due n key ↔ l.Due n key) : l'.Kept where
  within j := by
    rw [locks]
    exact kept.within j
  due j locked := by
    rw [locks] at locked ⊢
    rw [due]
    exact kept.due j locked
  entry m key owed := by
    rw [locks]
    exact kept.entry m key ((due m key).mp owed)
  apart := by
    rw [locks]
    exact kept.apart
  fresh := fresh

theorem Kept.unlock {req : TCTagRequest} (locks : l'.state.locks = (l.state.unlock req).locks)
    (due : ∀ n key, l'.Due n key ↔ l.Due n key ∧ ¬(n = req.id ∧ key = c.lockKey req)) : l'.Kept where
  within j locked := by
    rw [locks] at locked
    rw [(State.unlock_of_lock locked).1] at locked
    exact kept.within j locked
  due j locked := by
    rw [locks] at locked ⊢
    obtain ⟨same, other⟩ := State.unlock_of_lock locked
    rw [same] at locked ⊢
    exact (due _ _).mpr ⟨kept.due j locked, other⟩
  entry m key owed := by
    obtain ⟨before, other⟩ := (due m key).mp owed
    obtain ⟨j, entry⟩ := kept.entry m key before
    refine ⟨j, ?_⟩
    rw [locks, State.unlock_other, entry]
    rw [entry]
    exact other
  apart j k locked locked' same := by
    rw [locks] at locked locked' same
    have first := (State.unlock_of_lock locked).1
    have second := (State.unlock_of_lock locked').1
    rw [first] at locked same
    rw [second] at locked' same
    exact kept.apart j k locked locked' same
  fresh := fresh

theorem Kept.setLock {req : TCTagRequest} {j : Nat} (free : l.state.freeLock = some j)
    (locks : l'.state.locks = (l.state.setLock j req).locks) (unlocked : ∀ n, ¬l.Due n (c.lockKey req))
    (due : ∀ n key, l'.Due n key ↔ l.Due n key ∨ n = req.id ∧ key = c.lockKey req) : l'.Kept := by
  obtain ⟨bound, unused⟩ := State.freeLock_spec free
  have here : l'.state.locks j = ⟨req.id, c.lockAddr req.addr, req.lindex, true⟩ := by
    rw [locks]
    exact upd_same _ _ _
  have there : ∀ k, k ≠ j → l'.state.locks k = l.state.locks k := by
    intro k other
    rw [locks]
    exact upd_of_ne other
  -- the key is new: whoever has it locked would be due a lock already
  have alone : ∀ k, k ≠ j → (l'.state.locks k).lock = true → (l'.state.locks k).key ≠ (l'.state.locks j).key := by
    intro k other locked same
    rw [there k other] at locked same
    rw [here] at same
    have owed := kept.due k locked
    rw [same] at owed
    exact unlocked _ owed
  refine ⟨fun k locked => ?_, fun k locked => ?_, fun m key owed => ?_, fun k k' locked locked' same => ?_, fresh⟩
  · by_cases same : k = j
    · rw [same]
      exact bound
    · rw [there k same] at locked
      exact kept.within k locked
  · by_cases same : k = j
    · rw [same, here]
      exact (due _ _).mpr (.inr ⟨rfl, rfl⟩)
    · rw [there k same] at locked ⊢
      exact (due _ _).mpr (.inl (kept.due k locked))
  -- the entries in use are not the one that was free
  · rcases (due m key).mp owed with before | ⟨rfl, rfl⟩
    · obtain ⟨k, entry⟩ := kept.entry m key before
      have other : k ≠ j := by
        rintro rfl
        rw [entry] at unused
        cases unused
      exact ⟨k, by rw [there k other, entry]⟩
    · exact ⟨j, here⟩
  · by_cases first : k = j
    · by_cases second : k' = j
      · rw [first, second]
      · rw [first] at same
        exact absurd same.symm (alone k' second locked')
    · by_cases second : k' = j
      · rw [second] at same
        exact absurd same (alone k first locked)
      · rw [there k first] at locked same
        rw [there k' second] at locked' same
        exact kept.apart k k' locked locked' same

end Table

theorem Effect.due_iff (sited : l.Sited) (admissible : c.Admissible) {i : Nat} (effect : Effect l l' i) :
    (l'.state.locks = l.state.locks ∧ ∀ n key, l'.Due n key ↔ l.Due n key)
    ∨ (∃ m, l.origin i = some m ∧ l'.state.locks = (l.state.unlock (l.state.tag i).xact).locks ∧
        ∀ n key, l'.Due n key ↔ l.Due n key ∧ ¬(n = m ∧ key = c.lockKey (l.state.tag i).xact))
    ∨ (∃ m j, l.origin i = some m ∧ c.tg.isMap (l.state.tag i).xact.addr = true ∧ (l.state.tag i).xact.op.isLock = true
        ∧ (l.state.tag i).Awaits ∧ ¬(l'.state.tag i).Awaits ∧ l.state.freeLock = some j
        ∧ l'.state.locks = (l.state.setLock j (l.state.tag i).xact).locks
        ∧ ∀ n key, l'.Due n key ↔ l.Due n key ∨ n = m ∧ key = c.lockKey (l.state.tag i).xact) := by
  unfold Due
  cases effect with
  | quiet locks finish hold =>
    refine .inl ⟨locks, fun n key => ?_⟩
    simp only [finish, hold]
  | passed m key locks held finish hold =>
    refine .inl ⟨locks, fun n key' => ?_⟩
    simp only [finish, hold]
    -- what the tracker gives up the bank takes over
    constructor
    · rintro (⟨before, -⟩ | ⟨j, before | ⟨-, rfl, rfl⟩⟩)
      · exact .inl before
      · exact .inr ⟨j, before⟩
      · exact .inl held
    · rintro (before | ⟨j, before⟩)
      · by_cases same : n = m ∧ key' = key
        · exact .inr ⟨i, .inr ⟨rfl, same⟩⟩
        · exact .inl ⟨before, same⟩
      · exact .inr ⟨j, .inl before⟩
  | closed m own map locks finish hold =>
    refine .inr (.inl ⟨m, own, locks, fun n key => ?_⟩)
    simp only [finish, hold]
    constructor
    · rintro (⟨before, other⟩ | ⟨j, before, other⟩)
      · exact ⟨.inl before, other⟩
      · refine ⟨.inr ⟨j, before⟩, ?_⟩
        rintro ⟨-, same⟩
        -- two banks with one key are one bank
        obtain ⟨own', -, -, map', key_eq⟩ := before
        exact other (sited.bank_eq admissible own' own map' map (by rw [← key_eq, same]))
    · rintro ⟨before | ⟨j, before⟩, other⟩
      · exact .inl ⟨before, other⟩
      · refine .inr ⟨j, before, ?_⟩
        rintro rfl
        obtain ⟨own', -, -, -, key_eq⟩ := before
        exact other ⟨Option.some.inj (own'.symm.trans own), key_eq⟩
  | opened m j own map lock waits done free locks finish hold =>
    refine .inr (.inr ⟨m, j, own, map, lock, waits, done, free, locks, fun n key => ?_⟩)
    simp only [finish, hold]
    constructor
    · rintro ((before | same) | before)
      · exact .inl (.inl before)
      · exact .inr same
      · exact .inl (.inr before)
    · rintro ((before | before) | same)
      · exact .inl (.inl before)
      · exact .inr before
      · exact .inl (.inr same)

theorem Kept.rest (kept : l.Kept) (sited : l.Sited) (admissible : c.Admissible) {i : Nat} (effect : Effect l l' i)
    (rest : Resting l l') : l'.Kept := by
  obtain ⟨origin, resting⟩ := rest
  have before : ∀ j m, l'.origin j = some m → (l'.state.tag j).Awaits → (l'.state.tag j).xact.op.isLock = true →
      c.tg.isMap (l'.state.tag j).xact.addr = true → l.origin j = some m ∧ (l.state.tag j).Awaits
        ∧ c.tg.isMap (l.state.tag j).xact.addr = true ∧ ∀ n, ¬l.Due n (c.lockKey (l'.state.tag j).xact) := by
    intro j m own waits lock map
    obtain ⟨waits', xact⟩ := resting j
    rw [origin] at own
    rw [xact] at lock map ⊢
    exact ⟨own, waits' waits, map, kept.fresh j m own (waits' waits) lock map⟩
  rcases effect.due_iff sited admissible with ⟨locks, due⟩ | ⟨m, own, locks, due⟩
    | ⟨m, j, own, map, lock, waits, done, free, locks, due⟩
  · refine kept.same (fun j m own waits lock map n owed => ?_) locks due
    exact (before j m own waits lock map).2.2.2 n ((due n _).mp owed)
  · rw [← sited.named i m own] at due
    refine kept.unlock (fun j m own waits lock map n owed => ?_) locks due
    exact (before j m own waits lock map).2.2.2 n ((due n _).mp owed).1
  · have unlocked := kept.fresh i m own waits lock map
    rw [← sited.named i m own] at due
    refine kept.setLock (fun k n own' awaits' lock' map' n' owed => ?_) free locks unlocked due
    obtain ⟨own', waits', map', fresh⟩ := before k n own' awaits' lock' map'
    rcases (due n' _).mp owed with owed | ⟨-, same⟩
    · exact fresh n' owed
    · rw [(resting k).2] at same
      obtain rfl := sited.bank_eq admissible own' own map' map same
      exact done awaits'

end Log

end LowRisc.TagCache
