import LowRisc.Pfc.Network
import Mathlib.Data.List.Forall2

/-! What software reads of the performance counters. -/

set_option autoImplicit false

namespace LowRisc.Pfc

open LowRisc.Chisel LowRisc.Lib LowRisc.Rocket

namespace PfcSystem

variable {cfg : PfcConfig} {s t : PfcSystem} {inp : PfcInput} {i m : Nat}

/-! Who talks to whom. -/

theorem reqAt_eq_some : s.reqAt cfg inp m = some i ↔ inp.reqFrom m = some i
    ∧ (s.clients i).reqValid (inp.ports i) = true ∧ (s.request cfg i).dst = m ∧ (s.locks m).all (· == i) = true := by
  rw [reqAt, Option.filter_eq_some_iff]
  simp [and_assoc]

theorem respAt_eq_some : s.respAt inp i = some m ↔ inp.respFrom i = some m ∧ (s.managers m).responding = true
    ∧ (s.managers m).reqReg.src = i ∧ (s.clients i).respReady (inp.ports i) = true := by
  rw [respAt, Option.filter_eq_some_iff]
  simp [and_assoc]

theorem reqFire_eq_true : s.reqFire cfg inp i = true ↔ s.reqAt cfg inp (s.request cfg i).dst = some i := by
  rw [reqFire, beq_iff_eq]

theorem reqFire_of_reqAt (taken : s.reqAt cfg inp m = some i) :
    s.reqFire cfg inp i = true ∧ (s.request cfg i).dst = m := by
  obtain ⟨-, -, rfl, -⟩ := reqAt_eq_some.mp taken
  exact ⟨reqFire_eq_true.mpr taken, rfl⟩

/-- A request port is locked to the client that waits for its manager, and a manager answers
that client only. -/
structure Linked (s : PfcSystem) : Prop where
  locks : ∀ m i, s.locks m = some i ↔ (s.clients i).reqfired = true ∧ (s.clients i).findst = m
  finish : ∀ i, (s.clients i).reqfinish = true → (s.clients i).reqfired = true
  serving : ∀ m, (s.managers m).responding = true → s.locks m = some (s.managers m).reqReg.src
  programID : ∀ m, (s.managers m).responding = true →
    (s.managers m).reqReg.programID = (s.clients (s.managers m).reqReg.src).programID
  served : ∀ m, (s.managers m).responding = true →
    s.served m = ((s.managers m).reqReg.src, (s.ledgers (s.managers m).reqReg.src).serial)

theorem OnReset.linked (reset : s.OnReset) : Linked s where
  locks m i := by simp [reset.locks, reset.reqfired]
  finish i finish := by simp [reset.reqfinish] at finish
  serving m responding := by simp [reset.responding] at responding
  programID m responding := by simp [reset.responding] at responding
  served m responding := by simp [reset.responding] at responding

theorem Linked.finishes (linked : Linked s) (taken : s.reqAt cfg inp m = some i)
    (finish : (s.clients i).reqfinish = true) : s.locks m = some i := by
  obtain ⟨-, -, rfl, -⟩ := reqAt_eq_some.mp taken
  rw [linked.locks]
  exact ⟨linked.finish i finish, by simp [request, PfcClient.reqBits, finish]⟩

theorem Linked.starts (linked : Linked s) (taken : s.reqAt cfg inp m = some i)
    (fresh : (s.clients i).reqfinish = false) :
    (s.clients i).reqfired = false ∧ (s.clients i).trigger = true ∧ (inp.ports i).acqbsof = false ∧ s.locks m = none := by
  obtain ⟨-, isValid, -, lock⟩ := reqAt_eq_some.mp taken
  simp only [PfcClient.reqValid, fresh, Bool.or_false] at isValid
  split at isValid
  · cases isValid
  · rename_i free
    simp only [Bool.and_eq_true, Bool.not_eq_true'] at isValid
    refine ⟨isValid.2, isValid.1, by simpa using free, ?_⟩
    cases held : s.locks m with
    | none => rfl
    | some j =>
      rw [held] at lock
      obtain rfl : j = i := by simpa using lock
      have fired := ((linked.locks m j).mp held).1
      rw [isValid.2] at fired
      cases fired

theorem serial_nextLedger : (s.nextLedger cfg inp i).serial =
    if s.reqFire cfg inp i && !(s.clients i).reqfinish then (s.ledgers i).serial + 1 else (s.ledgers i).serial := by
  simp only [nextLedger]
  split_ifs <;> rfl

theorem Linked.locks_cycle (linked : Linked s) (m i : Nat) : (s.cycle cfg inp).locks m = some i ↔
    ((s.cycle cfg inp).clients i).reqfired = true ∧ ((s.cycle cfg inp).clients i).findst = m := by
  have before := linked.locks m i
  simp only [cycle, PfcClient.next]
  cases taken : s.reqAt cfg inp m with
  | none =>
    -- what the client sends goes to another manager
    cases fire : s.reqFire cfg inp i with
    | false => simpa using before
    | true =>
      have there := reqFire_eq_true.mp fire
      have elsewhere : (s.request cfg i).dst ≠ m := by
        rintro rfl
        rw [taken] at there
        cases there
      cases finish : (s.clients i).reqfinish with
      | true =>
        have held := linked.finishes there finish
        have other : (s.clients i).findst ≠ m := by
          rw [((linked.locks _ i).mp held).2]
          exact elsewhere
        simp [before, other]
      | false =>
        have fresh := (linked.starts there finish).1
        have other : (s.clients i).reqdst cfg.managerIDs ≠ m := by
          simpa [request, PfcClient.reqBits, finish] using elsewhere
        simp [before, fresh, other]
  | some j =>
    obtain ⟨fireJ, dst⟩ := reqFire_of_reqAt taken
    by_cases same : j = i
    · subst same
      cases finish : (s.clients j).reqfinish with
      | true => simp [linked.finishes taken finish, fireJ]
      | false =>
        have target : (s.clients j).reqdst cfg.managerIDs = m := by
          simpa [request, PfcClient.reqBits, finish] using dst
        simp [(linked.starts taken finish).2.2.2, fireJ, target]
    · have lock : s.locks m ≠ some i := by
        intro held
        obtain ⟨-, -, -, lock⟩ := reqAt_eq_some.mp taken
        rw [held] at lock
        exact same (beq_iff_eq.mp lock).symm
      have away : ¬ ((s.clients i).reqfired = true ∧ (s.clients i).findst = m) := fun owns => lock (before.mpr owns)
      have left : (if (s.locks m).isSome = true then none else some j) ≠ some i := by
        split <;> simp [same]
      simp only [left, false_iff]
      rintro ⟨fired, target⟩
      cases fire : s.reqFire cfg inp i with
      | false => simp [fire] at fired target; exact away ⟨fired, target⟩
      | true =>
        have there := reqFire_eq_true.mp fire
        cases finish : (s.clients i).reqfinish with
        | true => simp [fire, finish] at fired
        | false =>
          have dstI : (s.request cfg i).dst = m := by
            simpa [request, PfcClient.reqBits, finish, fire] using target
          rw [dstI, taken] at there
          exact same (Option.some.inj there)

/-- A manager that answers goes on answering the same client, or has just taken a request. -/
theorem responding_cycle (responding : ((s.cycle cfg inp).managers m).responding = true) :
    (s.reqAt cfg inp m = none ∧ (s.managers m).responding = true
      ∧ ((s.cycle cfg inp).managers m).reqReg = (s.managers m).reqReg)
    ∨ ∃ i, s.reqAt cfg inp m = some i ∧ (s.clients i).reqfinish = false
      ∧ ((s.cycle cfg inp).managers m).reqReg = s.request cfg i := by
  simp only [cycle, PFCManager.next] at responding ⊢
  split at responding
  · cases responding
  · cases taken : s.reqAt cfg inp m with
    | none =>
      rw [taken] at responding
      exact .inl ⟨rfl, responding, rfl⟩
    | some i =>
      rw [taken] at responding
      refine .inr ⟨i, rfl, ?_, rfl⟩
      by_contra finish
      simp [request, PfcClient.reqBits, finish] at responding

theorem Linked.cycle (linked : Linked s) : Linked (s.cycle cfg inp) := by
  -- a client whose manager takes nothing keeps its numbers
  have kept : ∀ m, s.reqAt cfg inp m = none → (s.managers m).responding = true →
      s.reqFire cfg inp (s.managers m).reqReg.src = false := by
    intro m idle responding
    by_contra fire
    have there := reqFire_eq_true.mp (eq_true_of_ne_false fire)
    have held := (linked.locks _ _).mp (linked.serving m responding)
    cases finish : (s.clients (s.managers m).reqReg.src).reqfinish with
    | true =>
      have own := (linked.locks _ _).mp (linked.finishes there finish)
      rw [← own.2, held.2, idle] at there
      cases there
    | false =>
      have fresh := (linked.starts there finish).1
      rw [fresh] at held
      cases held.1
  refine ⟨linked.locks_cycle, ?_, ?_, ?_, ?_⟩
  · intro i finish
    simp only [PfcSystem.cycle, PfcClient.next] at finish ⊢
    have before := linked.finish i
    cases fire : s.reqFire cfg inp i with
    | true =>
      cases done : (s.clients i).reqfinish with
      | true => simp [fire, done] at finish
      | false => simp
    | false =>
      simp only [fire, Bool.false_and, Bool.false_eq_true, if_false] at finish ⊢
      split at finish
      · -- the last response comes from the manager that the client waits for
        rename_i last
        simp only [PfcClient.respdone, PfcClient.stored, resp] at last
        cases from' : s.respAt inp i with
        | none => simp [from'] at last
        | some m =>
          obtain ⟨-, responding, src, -⟩ := respAt_eq_some.mp from'
          have held := linked.serving m responding
          rw [src] at held
          exact ((linked.locks m i).mp held).1
      · split at finish
        · rename_i cancel
          simp only [Bool.and_eq_true] at cancel
          exact cancel.1.2
        · exact before finish
  · intro m responding
    rcases responding_cycle responding with ⟨idle, was, reg⟩ | ⟨i, taken, fresh, reg⟩
    · rw [reg]
      simp only [PfcSystem.cycle, idle]
      exact linked.serving m was
    · rw [reg]
      simp only [PfcSystem.cycle, taken, (linked.starts taken fresh).2.2.2]
      rfl
  · intro m responding
    rcases responding_cycle responding with ⟨idle, was, reg⟩ | ⟨i, taken, fresh, reg⟩
    · rw [reg, linked.programID m was]
      simp [PfcSystem.cycle, PfcClient.next, kept m idle was]
    · rw [reg]
      simp [PfcSystem.cycle, PfcClient.next, request, PfcClient.reqBits, fresh]
  · intro m responding
    rcases responding_cycle responding with ⟨idle, was, reg⟩ | ⟨i, taken, fresh, reg⟩
    · rw [reg]
      simp only [PfcSystem.cycle, idle, serial_nextLedger, kept m idle was]
      exact linked.served m was
    · rw [reg]
      simp only [PfcSystem.cycle, taken, fresh, serial_nextLedger]
      simp [request, PfcClient.reqBits, (reqFire_of_reqAt taken).1, fresh]

/-! The values of a request. -/

/-- The value that a counter of the addressed manager had in a cycle between the request and `limit`. -/
def Sample (s : PfcSystem) (i limit : Nat) (value : Word) (counter : Nat) : Prop :=
  ∃ time, (s.ledgers i).sentAt ≤ time ∧ time < limit ∧ value = s.history time (s.ledgers i).target counter

/-- The counters that the latest request of a client selects. -/
def chosen (cfg : PfcConfig) (s : PfcSystem) (i : Nat) : List Nat :=
  selected (cfg.nCounters (s.ledgers i).target) (s.ledgers i).bitmap

/-- The registers of a client that got some values, of which `k` have been read. The first value
goes to `pfcr` at once, so that value `j + 1` is in place `j` of the array. -/
structure Holds (c : PfcClient) (got : List Word) (k : Nat) : Prop where
  respCoun : c.respCoun + 1 = got.length
  readCoun : c.readCoun = k % 64
  array : ∀ j, j + 1 < got.length → got[j + 1]? = some (c.respArray j)
  front : k < got.length → got[k]? = some c.regPfcr
  error : c.pfcrError = decide (k = got.length)

/-- The request of the client is on the way and has brought some of its values. -/
structure Active (cfg : PfcConfig) (s : PfcSystem) (i : Nat) (got : List Word) : Prop where
  doneAt : (s.ledgers i).doneAt = none
  fired : (s.clients i).reqfired = true
  finish : (s.clients i).reqfinish = false
  trigger : (s.clients i).trigger = true
  target : (s.ledgers i).target = (s.clients i).findst
  sent : (s.ledgers i).sentAt ≤ s.now
  responding : (s.managers (s.clients i).findst).responding = true
  few : got.length < (chosen cfg s i).length
  rest : selected (cfg.nCounters (s.ledgers i).target) (s.managers (s.clients i).findst).bitmap =
    (chosen cfg s i).drop got.length
  firstresp : (s.managers (s.clients i).findst).firstresp = got.isEmpty
  sampled : List.Forall₂ (Sample s i s.now) got ((chosen cfg s i).take got.length)
  error : (s.clients i).pfcrError = false
  holds : got ≠ [] → Holds (s.clients i) got 0

structure Completed (cfg : PfcConfig) (s : PfcSystem) (i : Nat) (got : List Word) (time : Nat) : Prop where
  doneAt : (s.ledgers i).doneAt = some time
  past : time < s.now
  closed : (s.clients i).reqfired = true → (s.clients i).reqfinish = true
  trigger : (s.clients i).trigger = false
  sampled : List.Forall₂ (Sample s i (time + 1)) got (chosen cfg s i)
  values : (s.clients i).readErrorFlag = false → Holds (s.clients i) got (s.ledgers i).values.length
    ∧ (s.ledgers i).values = got.take (s.ledgers i).values.length

inductive Phase (cfg : PfcConfig) (s : PfcSystem) (i : Nat) : Prop where
  | quiet (doneAt : (s.ledgers i).doneAt = none)
      (closed : (s.clients i).reqfired = true → (s.clients i).reqfinish = true)
      (error : (s.clients i).trigger = true → (s.clients i).pfcrError = false)
  | active {got : List Word} (active : Active cfg s i got)
  | completed {got : List Word} {time : Nat} (completed : Completed cfg s i got time)

theorem OnReset.phase (reset : s.OnReset) : Phase cfg s i := by
  refine .quiet (reset.doneAt i) ?_ ?_
  · intro fired
    simp [reset.reqfired] at fired
  · intro trigger
    simp [PfcClient.trigger, reset.regPfcc] at trigger

/-! One register at a time. -/

theorem trigger_pfccOf (upper : BitVec 60) (e m n t : Bool) : (pfccOf upper e m n t).getLsbD 0 = t := by
  rw [pfccOf, BitVec.getLsbD_append]
  cases t <;> cases n <;> cases m <;> cases e <;> rfl

theorem readError_pfccOf (upper : BitVec 60) (e m n t : Bool) : (pfccOf upper e m n t).getLsbD 3 = e := by
  rw [pfccOf, BitVec.getLsbD_append]
  cases t <;> cases n <;> cases m <;> cases e <;> rfl

theorem not_acqbsof_of_readEn {p : CsrPort} (read : p.readEn = true) : p.acqbsof = false := by
  simp only [CsrPort.readEn, Bool.and_eq_true, beq_iff_eq] at read
  simp [CsrPort.acqbsof, read.1, CSRs.pfcr, CSRs.pfcc]

theorem nextLedger_kept (none' : s.reqFire cfg inp i = true → (s.clients i).reqfinish = true) :
    (s.nextLedger cfg inp i).sentAt = (s.ledgers i).sentAt ∧ (s.nextLedger cfg inp i).target = (s.ledgers i).target
    ∧ (s.nextLedger cfg inp i).bitmap = (s.ledgers i).bitmap := by
  have idle : (s.reqFire cfg inp i && !(s.clients i).reqfinish) = false := by
    cases fire : s.reqFire cfg inp i with
    | false => rfl
    | true => simp [none' fire]
  simp only [nextLedger, idle, Bool.false_eq_true, if_false]
  split_ifs <;> exact ⟨rfl, rfl, rfl⟩

theorem chosen_cycle (none' : s.reqFire cfg inp i = true → (s.clients i).reqfinish = true) :
    chosen cfg (s.cycle cfg inp) i = chosen cfg s i := by
  obtain ⟨-, target, bitmap⟩ := nextLedger_kept none'
  simp only [chosen, cycle, target, bitmap]

theorem Sample.cycle {limit : Nat} {value : Word} {counter : Nat} (sample : Sample s i limit value counter)
    (none' : s.reqFire cfg inp i = true → (s.clients i).reqfinish = true) (past : limit ≤ s.now) :
    Sample (s.cycle cfg inp) i limit value counter := by
  obtain ⟨sentAt, target, -⟩ := nextLedger_kept none'
  obtain ⟨time, after, before, held⟩ := sample
  refine ⟨time, ?_, before, ?_⟩
  · simpa only [PfcSystem.cycle, sentAt] using after
  · simp only [PfcSystem.cycle, target]
    rw [upd_of_ne (by omega)]
    exact held

theorem Linked.silent (linked : Linked s) (closed : (s.clients i).reqfired = true → (s.clients i).reqfinish = true) :
    s.resp cfg inp i = none := by
  rw [resp]
  cases from' : s.respAt inp i with
  | none => rfl
  | some m =>
    obtain ⟨-, responding, src, ready⟩ := respAt_eq_some.mp from'
    have held := linked.serving m responding
    rw [src] at held
    have finish := closed ((linked.locks m i).mp held).1
    simp [PfcClient.respReady, finish] at ready

/-! The registers of a client that takes a value or gives one. -/

section
variable {c : PfcClient} {p : CsrPort} {fire : Bool} {resp : Option PFCResp} {r : PFCResp} {got : List Word} {k managerIDs : Nat}

theorem Holds.first (stored : c.stored resp = some r) (first : r.first = true) (quiet : p.readEn = false)
    (other : p.acqbsof = false) (error : c.pfcrError = false) : Holds (c.next managerIDs p fire resp) [r.data] 0 where
  respCoun := by simp [PfcClient.next, stored, first]
  readCoun := by simp [PfcClient.next, stored, first, quiet]
  array j inside := by simp at inside
  front _ := by simp [PfcClient.next, stored, first, quiet]
  error := by simp [PfcClient.next, quiet, other, error]

theorem Holds.more (holds : Holds c got 0) (few : got.length < 64) (stored : c.stored resp = some r)
    (later : r.first = false) (quiet : p.readEn = false) (other : p.acqbsof = false) :
    Holds (c.next managerIDs p fire resp) (got ++ [r.data]) 0 := by
  have length := holds.respCoun
  refine ⟨?_, ?_, ?_, ?_, ?_⟩
  · simp only [PfcClient.next, stored, later, Option.any_some, Bool.false_eq_true, if_false, Option.isSome_some, if_true,
      List.length_append, List.length_singleton]
    rw [Nat.mod_eq_of_lt (by omega)]
    omega
  · simpa [PfcClient.next, stored, later, quiet] using holds.readCoun
  · intro j inside
    rw [List.length_append, List.length_singleton] at inside
    simp only [PfcClient.next, stored]
    by_cases last : j + 1 = got.length
    · obtain rfl : j = c.respCoun := by omega
      rw [upd_same, last]
      simp
    · rw [upd_of_ne (by omega), List.getElem?_append_left (by omega)]
      exact holds.array j (by omega)
  · intro _
    have front := holds.front (by omega)
    rw [List.getElem?_append_left (by omega)]
    simpa [PfcClient.next, stored, later, quiet] using front
  · have error := holds.error
    have some' : ¬ 0 = got.length := by omega
    simpa [PfcClient.next, quiet, other, some'] using error

theorem Holds.keep (holds : Holds c got k) (none' : c.stored resp = none) (quiet : p.readEn = false)
    (other : p.acqbsof = false) : Holds (c.next managerIDs p fire resp) got k where
  respCoun := by simpa [PfcClient.next, none'] using holds.respCoun
  readCoun := by simpa [PfcClient.next, none', quiet] using holds.readCoun
  array j inside := by simpa [PfcClient.next, none'] using holds.array j inside
  front inside := by simpa [PfcClient.next, none', quiet] using holds.front inside
  error := by simpa [PfcClient.next, quiet, other] using holds.error

theorem Holds.read (holds : Holds c got k) (inside : k < got.length) (few : got.length ≤ 64)
    (none' : c.stored resp = none) (read : p.readEn = true) : Holds (c.next managerIDs p fire resp) got (k + 1) := by
  have length := holds.respCoun
  have place : c.readCoun = k := by rw [holds.readCoun, Nat.mod_eq_of_lt (by omega)]
  refine ⟨?_, ?_, ?_, ?_, ?_⟩
  · simpa [PfcClient.next, none'] using holds.respCoun
  · simp [PfcClient.next, read, place]
  · simpa [PfcClient.next, none'] using holds.array
  · intro more
    simpa [PfcClient.next, read, place] using holds.array k more
  · simp only [PfcClient.next, read, if_true, place, decide_eq_decide]
    omega

end

/-! One cycle of a client. -/

/-- While a request is on the way nothing reads `pfcr`. -/
theorem quiet_of_trigger (patient : s.patient inp i = true) (undisturbed : s.undisturbed inp i = true)
    (doneAt : (s.ledgers i).doneAt = none) (trigger : (s.clients i).trigger = true) : (inp.ports i).readEn = false := by
  by_contra read
  simp only [PfcSystem.patient, PfcSystem.undisturbed, CsrPort.reads, doneAt, trigger, eq_true_of_ne_false read] at patient undisturbed
  simp_all

theorem trigger_next {c : PfcClient} {p : CsrPort} {fire : Bool} {resp : Option PFCResp} {managerIDs : Nat}
    (other : p.acqbsof = false) :
    (c.next managerIDs p fire resp).trigger = if c.respdone resp then false else c.trigger := by
  simp only [PfcClient.next, PfcClient.trigger, other, Bool.false_eq_true, if_false]
  exact trigger_pfccOf _ _ _ _ _

theorem readErrorFlag_next {c : PfcClient} {p : CsrPort} {fire : Bool} {resp : Option PFCResp} {managerIDs : Nat}
    (other : p.acqbsof = false) :
    (c.next managerIDs p fire resp).readErrorFlag = c.readError p := by
  simp only [PfcClient.next, PfcClient.readErrorFlag, other, Bool.false_eq_true, if_false]
  exact readError_pfccOf _ _ _ _ _

/-- A write of `pfcc` drops what the client has, and cancels a request on the way. -/
theorem Linked.quiet_of_acqbsof (linked : Linked s) (write : (inp.ports i).acqbsof = true)
    (waiting : (s.clients i).reqfired = true → (s.clients i).reqfinish = false → (s.clients i).trigger = true) :
    Phase cfg (s.cycle cfg inp) i := by
  have silent : s.resp cfg inp i = none := by
    rw [resp]
    cases from' : s.respAt inp i with
    | none => rfl
    | some m =>
      obtain ⟨-, -, -, ready⟩ := respAt_eq_some.mp from'
      simp [PfcClient.respReady, write] at ready
  have noRead : (inp.ports i).readEn = false := by
    by_contra read
    rw [not_acqbsof_of_readEn (eq_true_of_ne_false read)] at write
    cases write
  have fires : s.reqFire cfg inp i = true → (s.clients i).reqfinish = true := by
    intro fire
    by_contra fresh
    have starts := linked.starts (reqFire_eq_true.mp fire) (eq_false_of_ne_true fresh)
    rw [starts.2.2.1] at write
    cases write
  refine .quiet ?_ ?_ ?_
  · simp [PfcSystem.cycle, nextLedger, write]
  · intro fired
    simp only [PfcSystem.cycle, PfcClient.next, silent, write, Bool.true_and] at fired ⊢
    cases fire : s.reqFire cfg inp i with
    | true => simp [fire, fires fire] at fired
    | false =>
      simp only [fire, Bool.false_eq_true, if_false, Bool.false_and] at fired ⊢
      cases finish : (s.clients i).reqfinish with
      | true => simp
      | false => simp [PfcClient.respdone, PfcClient.stored, fired, waiting fired finish]
  · intro _
    simp [PfcSystem.cycle, PfcClient.next, noRead, write]

theorem respdone_none (c : PfcClient) : c.respdone none = false := rfl

theorem Linked.respFire_of_starts (linked : Linked s) (free : s.locks m = none) : s.respFire inp m = false := by
  by_contra fire
  obtain ⟨-, responding, -, -⟩ := respAt_eq_some.mp (beq_iff_eq.mp (eq_true_of_ne_false fire))
  rw [linked.serving m responding] at free
  cases free

theorem Linked.active_of_start (linked : Linked s) (fire : s.reqFire cfg inp i = true)
    (fresh : (s.clients i).reqfinish = false) (doneAt : (s.ledgers i).doneAt = none)
    (error : (s.clients i).pfcrError = false) (quiet : (inp.ports i).readEn = false)
    (selects : s.selects cfg inp i = true) : Active cfg (s.cycle cfg inp) i [] := by
  have taken := reqFire_eq_true.mp fire
  -- a client starts only with its trigger up, and with no other read of its manager
  obtain ⟨unfired, trigger, other, free⟩ := linked.starts taken fresh
  have silent : s.resp cfg inp i = none := linked.silent fun fired => by rw [unfired] at fired; cases fired
  have noRead : (inp.ports i).reads = false := by simp [CsrPort.reads, quiet]
  have dst : (s.clients i).reqdst cfg.managerIDs = (s.request cfg i).dst := by
    simp [request, PfcClient.reqBits, fresh]
  have findst : ((s.cycle cfg inp).clients i).findst = (s.request cfg i).dst := by
    simp [PfcSystem.cycle, PfcClient.next, fire, fresh, dst]
  have ledger : (s.cycle cfg inp).ledgers i = { s.ledgers i with
      serial := (s.ledgers i).serial + 1
      sentAt := s.now
      target := (s.request cfg i).dst
      bitmap := (s.clients i).regPfcm.toNat } := by
    simp [PfcSystem.cycle, nextLedger, fire, fresh, other, silent, respdone_none, noRead]
  -- the manager takes the selection of this client
  have bitmap : ((s.cycle cfg inp).managers (s.request cfg i).dst).bitmap =
      (s.clients i).regPfcm.toNat % 2 ^ cfg.nCounters (s.request cfg i).dst := by
    have sent : (s.request cfg i).bitmap = (s.clients i).regPfcm.toNat := rfl
    simp [PfcSystem.cycle, PFCManager.next, taken, linked.respFire_of_starts free, sent]
  have cmd : (s.request cfg i).cmd = 0 := by simp [request, PfcClient.reqBits, fresh]
  refine ⟨?_, ?_, ?_, ?_, ?_, ?_, ?_, ?_, ?_, ?_, .nil, ?_, fun some' => absurd rfl some'⟩
  · rw [ledger]
    exact doneAt
  · simp [PfcSystem.cycle, PfcClient.next, fire, fresh]
  · simp [PfcSystem.cycle, PfcClient.next, fire, fresh, silent, respdone_none, other]
  · simp only [PfcSystem.cycle]
    rw [trigger_next other, silent, respdone_none]
    exact trigger
  · rw [ledger, findst]
  · rw [ledger]
    exact Nat.le_succ _
  · rw [findst]
    simp [PfcSystem.cycle, PFCManager.next, taken, linked.respFire_of_starts free, cmd]
  · simp only [PfcSystem.selects, fire, fresh, Bool.not_false, Bool.and_self, Bool.not_true, Bool.false_or] at selects
    simp only [chosen, ledger, List.length_nil]
    apply List.length_pos_of_ne_nil
    simpa using selects
  · rw [findst, bitmap, chosen, ledger, List.length_nil, List.drop_zero]
    exact selected_mod _ _
  · rw [findst]
    simp [PfcSystem.cycle, PFCManager.next, taken, linked.respFire_of_starts free]
  · simp [PfcSystem.cycle, PfcClient.next, quiet, other, error]

theorem Linked.phase_of_quiet (linked : Linked s) (doneAt : (s.ledgers i).doneAt = none)
    (closed : (s.clients i).reqfired = true → (s.clients i).reqfinish = true)
    (error : (s.clients i).trigger = true → (s.clients i).pfcrError = false) (other : (inp.ports i).acqbsof = false)
    (selects : s.selects cfg inp i = true) (patient : s.patient inp i = true) (undisturbed : s.undisturbed inp i = true) :
    Phase cfg (s.cycle cfg inp) i := by
  by_cases start : s.reqFire cfg inp i = true ∧ (s.clients i).reqfinish = false
  · have trigger := (linked.starts (reqFire_eq_true.mp start.1) start.2).2.1
    exact .active <| linked.active_of_start start.1 start.2 doneAt (error trigger)
      (quiet_of_trigger patient undisturbed doneAt trigger) selects
  · have silent : s.resp cfg inp i = none := linked.silent closed
    refine .quiet ?_ ?_ ?_
    · simp only [PfcSystem.cycle, nextLedger, other, silent, respdone_none, Bool.false_eq_true, if_false]
      split_ifs <;> exact doneAt
    · intro fired
      simp only [PfcSystem.cycle, PfcClient.next, silent, respdone_none, other, Bool.false_and, Bool.false_eq_true,
        if_false] at fired ⊢
      cases fire : s.reqFire cfg inp i with
      | true => simp_all
      | false =>
        simp only [fire, Bool.false_eq_true, if_false, Bool.false_and] at fired ⊢
        exact closed fired
    · intro trigger
      simp only [PfcSystem.cycle, trigger_next other, silent, respdone_none, Bool.false_eq_true, if_false] at trigger
      have quiet := quiet_of_trigger patient undisturbed doneAt trigger
      simp [PfcSystem.cycle, PfcClient.next, quiet, other, error trigger]

theorem length_chosen_le : (chosen cfg s i).length ≤ 64 := by
  have all := List.length_filter_le (s.ledgers i).bitmap.testBit (List.range (cfg.nCounters (s.ledgers i).target))
  rw [List.length_range] at all
  exact all.trans (cfg.nCounters_le _)

theorem Sample.concat {got : List Word} {counter : Nat} {rest : List Nat}
    (sampled : List.Forall₂ (Sample s i s.now) got ((chosen cfg s i).take got.length))
    (idle : s.reqFire cfg inp i = false) (sent : (s.ledgers i).sentAt ≤ s.now)
    (next : (chosen cfg s i).drop got.length = counter :: rest) :
    List.Forall₂ (Sample (s.cycle cfg inp) i (s.now + 1))
      (got ++ [(s.managers (s.ledgers i).target).pfcounters counter])
      ((chosen cfg (s.cycle cfg inp) i).take (got.length + 1)) := by
  have none' : s.reqFire cfg inp i = true → (s.clients i).reqfinish = true := fun fire => by rw [idle] at fire; cases fire
  obtain ⟨sentAt, target, -⟩ := nextLedger_kept none'
  have place : (chosen cfg s i)[got.length]? = some counter := by
    have head := congrArg List.head? next
    rwa [List.head?_drop] at head
  rw [chosen_cycle none', List.take_add_one, place]
  apply List.rel_append
  · exact sampled.imp fun v c sample => by
      obtain ⟨time, after, before, held⟩ := sample.cycle none' le_rfl
      exact ⟨time, after, by omega, held⟩
  · refine .cons ⟨s.now, ?_, Nat.lt_succ_self _, ?_⟩ .nil
    · simpa only [PfcSystem.cycle, sentAt] using sent
    · simp only [PfcSystem.cycle, target, upd_same]

theorem Linked.resp_of_waiting (linked : Linked s) (taken : s.respAt inp i = some m) :
    (s.clients i).findst = m ∧ s.respFire inp m = true
    ∧ (s.clients i).stored (s.resp cfg inp i) = some ((s.managers m).resp (cfg.nCounters m)) := by
  obtain ⟨-, responding, src, -⟩ := respAt_eq_some.mp taken
  have held := linked.serving m responding
  have number := linked.programID m responding
  rw [src] at held number
  refine ⟨((linked.locks m i).mp held).2, ?_, ?_⟩
  · rw [respFire, src, taken, beq_self_eq_true]
  · rw [resp, taken]
    simp [PfcClient.stored, Option.filter, PfcClient.pidMatch, PFCManager.resp, number]

/-- Nobody talks to the manager of a request on the way, and the client sends nothing. -/
theorem Linked.undisturbed (linked : Linked s) (fired : (s.clients i).reqfired = true)
    (finish : (s.clients i).reqfinish = false) :
    s.reqFire cfg inp i = false ∧ s.reqAt cfg inp (s.clients i).findst = none := by
  have idle : s.reqFire cfg inp i = false := by
    by_contra fire
    have starts := linked.starts (reqFire_eq_true.mp (eq_true_of_ne_false fire)) finish
    rw [starts.1] at fired
    cases fired
  refine ⟨idle, ?_⟩
  cases taken : s.reqAt cfg inp (s.clients i).findst with
  | none => rfl
  | some j =>
    obtain ⟨-, -, -, lock⟩ := reqAt_eq_some.mp taken
    rw [(linked.locks _ i).mpr ⟨fired, rfl⟩] at lock
    obtain rfl : i = j := beq_iff_eq.mp lock
    rw [(reqFire_of_reqAt taken).1] at idle
    cases idle

theorem Active.pause {got : List Word} (active : Active cfg s i got) (linked : Linked s)
    (other : (inp.ports i).acqbsof = false) (quiet : (inp.ports i).readEn = false) (pause : s.respAt inp i = none) :
    Active cfg (s.cycle cfg inp) i got := by
  obtain ⟨idle, untaken⟩ : s.reqFire cfg inp i = false ∧ s.reqAt cfg inp (s.clients i).findst = none :=
    linked.undisturbed active.fired active.finish
  have none' : s.reqFire cfg inp i = true → (s.clients i).reqfinish = true := fun fire => by rw [idle] at fire; cases fire
  have silent : s.resp cfg inp i = none := by rw [resp, pause]; rfl
  have noRead : (inp.ports i).reads = false := by simp [CsrPort.reads, quiet]
  -- the manager is locked for this client, so nobody else is served by it
  have src : (s.managers (s.clients i).findst).reqReg.src = i := by
    have held := linked.serving _ active.responding
    rw [(linked.locks _ i).mpr ⟨active.fired, rfl⟩] at held
    exact (Option.some.inj held).symm
  have still : s.respFire inp (s.clients i).findst = false := by
    rw [respFire, src, pause]
    rfl
  have ledger : (s.cycle cfg inp).ledgers i = s.ledgers i := by
    simp [PfcSystem.cycle, nextLedger, idle, other, silent, respdone_none, noRead]
  have findst : ((s.cycle cfg inp).clients i).findst = (s.clients i).findst := by
    simp [PfcSystem.cycle, PfcClient.next, idle]
  have stays : ((s.cycle cfg inp).managers (s.clients i).findst).responding = true
      ∧ ((s.cycle cfg inp).managers (s.clients i).findst).bitmap = (s.managers (s.clients i).findst).bitmap
      ∧ ((s.cycle cfg inp).managers (s.clients i).findst).firstresp = (s.managers (s.clients i).findst).firstresp := by
    simp [PfcSystem.cycle, PFCManager.next, untaken, still, active.responding]
  refine ⟨?_, ?_, ?_, ?_, ?_, ?_, ?_, ?_, ?_, ?_, ?_, ?_, ?_⟩
  · rw [ledger, active.doneAt]
  · simp [PfcSystem.cycle, PfcClient.next, idle, active.fired]
  · simp [PfcSystem.cycle, PfcClient.next, idle, active.finish, silent, respdone_none, other]
  · simp only [PfcSystem.cycle]
    rw [trigger_next other, silent, respdone_none]
    exact active.trigger
  · rw [ledger, findst, active.target]
  · rw [ledger]
    exact active.sent.trans (Nat.le_succ _)
  · rw [findst]
    exact stays.1
  · rw [chosen_cycle none']
    exact active.few
  · rw [findst, stays.2.1, ledger, chosen_cycle none', active.rest]
  · rw [findst, stays.2.2, active.firstresp]
  · rw [chosen_cycle none']
    -- the counters sampled before stay between the start and now
    exact active.sampled.imp fun v c sample => by
      obtain ⟨time, after, before, held⟩ := sample.cycle none' le_rfl
      exact ⟨time, after, Nat.lt_succ_of_lt before, held⟩
  · simp [PfcSystem.cycle, PfcClient.next, quiet, other, active.error]
  · intro some'
    exact (active.holds some').keep (by rw [silent]; rfl) quiet other

theorem Active.beat {got : List Word} (active : Active cfg s i got) : ∃ counter rest,
    (chosen cfg s i).drop got.length = counter :: rest
    ∧ selected (cfg.nCounters (s.clients i).findst) (s.managers (s.clients i).findst).bitmap = counter :: rest
    ∧ ((s.managers (s.clients i).findst).resp (cfg.nCounters (s.clients i).findst)).data =
      (s.managers (s.ledgers i).target).pfcounters counter
    ∧ ((s.managers (s.clients i).findst).resp (cfg.nCounters (s.clients i).findst)).first = got.isEmpty
    ∧ ((s.managers (s.clients i).findst).resp (cfg.nCounters (s.clients i).findst)).last = rest.isEmpty := by
  have selection := active.rest
  rw [active.target] at selection ⊢
  obtain ⟨counter, rest, split⟩ := List.exists_cons_of_length_pos (l := (chosen cfg s i).drop got.length)
    (by rw [List.length_drop]; have few := active.few; omega)
  rw [split] at selection
  refine ⟨counter, rest, split, selection, ?_, active.firstresp, ?_⟩
  · rw [PFCManager.resp, raddr_of_cons selection]
  · rw [PFCManager.resp, popCount_eq, selection]
    cases rest <;> simp

theorem Active.holds_beat {got : List Word} {r : PFCResp} (active : Active cfg s i got)
    (other : (inp.ports i).acqbsof = false) (quiet : (inp.ports i).readEn = false)
    (stored : (s.clients i).stored (s.resp cfg inp i) = some r) (first : r.first = got.isEmpty) :
    Holds ((s.cycle cfg inp).clients i) (got ++ [r.data]) 0 := by
  cases empty : got.isEmpty with
  | true =>
    rw [List.isEmpty_iff.mp empty]
    exact Holds.first stored (first.trans empty) quiet other active.error
  | false =>
    have some' : got ≠ [] := by
      rintro rfl
      cases empty
    exact (active.holds some').more (lt_of_lt_of_le active.few length_chosen_le) stored (first.trans empty) quiet other

theorem Active.take {got : List Word} (active : Active cfg s i got) (linked : Linked s)
    (other : (inp.ports i).acqbsof = false) (quiet : (inp.ports i).readEn = false) (taken : s.respAt inp i = some m) :
    Phase cfg (s.cycle cfg inp) i := by
  obtain ⟨idle, untaken⟩ : s.reqFire cfg inp i = false ∧ s.reqAt cfg inp (s.clients i).findst = none :=
    linked.undisturbed active.fired active.finish
  have none' : s.reqFire cfg inp i = true → (s.clients i).reqfinish = true := fun fire => by rw [idle] at fire; cases fire
  obtain ⟨rfl, fire, stored⟩ : (s.clients i).findst = m ∧ s.respFire inp m = true
      ∧ (s.clients i).stored (s.resp cfg inp i) = some ((s.managers m).resp (cfg.nCounters m)) :=
    linked.resp_of_waiting taken
  obtain ⟨counter, rest, split, selection, data, first, last⟩ := active.beat
  have holds := active.holds_beat other quiet stored first
  have sampled := Sample.concat active.sampled idle active.sent split
  rw [← data] at sampled
  generalize beat : (s.managers (s.clients i).findst).resp (cfg.nCounters (s.clients i).findst) = r at *
  have noRead : (inp.ports i).reads = false := by simp [CsrPort.reads, quiet]
  have length : (chosen cfg s i).length = got.length + 1 + rest.length := by
    have few := active.few
    have count := congrArg List.length split
    rw [List.length_drop, List.length_cons] at count
    omega
  have respdone : (s.clients i).respdone (s.resp cfg inp i) = rest.isEmpty := by
    rw [PfcClient.respdone, stored, ← last]
    rfl
  have trigger : ((s.cycle cfg inp).clients i).trigger = !rest.isEmpty := by
    simp only [PfcSystem.cycle]
    rw [trigger_next other, respdone, active.trigger]
    cases rest.isEmpty <;> rfl
  have finish : ((s.cycle cfg inp).clients i).reqfinish = rest.isEmpty := by
    simp only [PfcSystem.cycle, PfcClient.next, idle, respdone, other, active.finish]
    cases rest.isEmpty <;> rfl
  cases empty : rest.isEmpty with
  | true =>
    -- the last value
    have all : got.length + 1 = (chosen cfg (s.cycle cfg inp) i).length := by
      rw [chosen_cycle none', length, List.isEmpty_iff.mp empty]
      rfl
    rw [all, List.take_length] at sampled
    have ledger : ((s.cycle cfg inp).ledgers i).doneAt = some s.now ∧ ((s.cycle cfg inp).ledgers i).values = [] := by
      simp [PfcSystem.cycle, nextLedger, idle, other, respdone, empty]
    refine .completed ⟨ledger.1, Nat.lt_succ_self _, fun _ => by rw [finish, empty], by rw [trigger, empty]; rfl, sampled, ?_⟩
    intro _
    rw [ledger.2]
    exact ⟨holds, rfl⟩
  | false =>
    have some' : 0 < rest.length := List.length_pos_of_ne_nil (by rintro rfl; cases empty)
    have ledger : (s.cycle cfg inp).ledgers i = s.ledgers i := by
      simp [PfcSystem.cycle, nextLedger, idle, other, respdone, empty, noRead]
    have findst : ((s.cycle cfg inp).clients i).findst = (s.clients i).findst := by
      simp [PfcSystem.cycle, PfcClient.next, idle]
    have moves : ((s.cycle cfg inp).managers (s.clients i).findst).responding = true
        ∧ ((s.cycle cfg inp).managers (s.clients i).findst).bitmap =
          rmleastO (cfg.nCounters (s.clients i).findst) (s.managers (s.clients i).findst).bitmap
        ∧ ((s.cycle cfg inp).managers (s.clients i).findst).firstresp = false := by
      simp [PfcSystem.cycle, PFCManager.next, untaken, fire, active.responding, beat, last, empty]
    refine .active ⟨?_, ?_, ?_, ?_, ?_, ?_, ?_, ?_, ?_, ?_, ?_, ?_, fun _ => holds⟩
    · rw [ledger, active.doneAt]
    · simp [PfcSystem.cycle, PfcClient.next, idle, active.fired]
    · rw [finish, empty]
    · rw [trigger, empty]
      rfl
    · rw [ledger, findst, active.target]
    · rw [ledger]
      exact active.sent.trans (Nat.le_succ _)
    · rw [findst]
      exact moves.1
    · rw [chosen_cycle none', List.length_append, List.length_singleton]
      omega
    · rw [findst, moves.2.1, ledger, active.target, selected_rmleastO selection, chosen_cycle none',
        List.length_append, List.length_singleton, ← List.drop_drop, split]
      rfl
    · rw [findst, moves.2.2]
      simp
    · rw [List.length_append, List.length_singleton]
      exact sampled
    · simp [PfcSystem.cycle, PfcClient.next, quiet, other, active.error]

/-- Behind the last value software reads one value after the other. -/
theorem Completed.cycle {got : List Word} {time : Nat} (completed : Completed cfg s i got time) (linked : Linked s)
    (other : (inp.ports i).acqbsof = false) (undisturbed : s.undisturbed inp i = true) :
    Completed cfg (s.cycle cfg inp) i got time := by
  have silent : s.resp cfg inp i = none := linked.silent completed.closed
  -- a client without a trigger sends finishes only
  have sends : s.reqFire cfg inp i = true → (s.clients i).reqfinish = true := by
    intro fire
    by_contra fresh
    have starts := linked.starts (reqFire_eq_true.mp fire) (eq_false_of_ne_true fresh)
    rw [completed.trigger] at starts
    cases starts.2.1
  have idle : (s.reqFire cfg inp i && !(s.clients i).reqfinish) = false := by
    cases fire : s.reqFire cfg inp i with
    | false => rfl
    | true => simp [sends fire]
  have ledger : (s.cycle cfg inp).ledgers i = if (inp.ports i).reads
      then { s.ledgers i with values := (s.ledgers i).values ++ [(s.clients i).regPfcr] } else s.ledgers i := by
    simp [PfcSystem.cycle, nextLedger, idle, other, silent, respdone_none]
  refine ⟨?_, Nat.lt_succ_of_lt completed.past, ?_, ?_, ?_, ?_⟩
  · rw [ledger]
    split <;> exact completed.doneAt
  · intro fired
    simp only [PfcSystem.cycle, PfcClient.next, silent, respdone_none, other, Bool.false_and, Bool.false_eq_true,
      if_false] at fired ⊢
    cases fire : s.reqFire cfg inp i with
    | true => simp [fire, sends fire] at fired
    | false =>
      simp only [fire, Bool.false_eq_true, if_false, Bool.false_and] at fired ⊢
      exact completed.closed fired
  · simp only [PfcSystem.cycle]
    rw [trigger_next other, silent, respdone_none]
    exact completed.trigger
  · rw [chosen_cycle sends]
    exact completed.sampled.imp fun v c sample => sample.cycle sends completed.past
  · intro flag
    simp only [PfcSystem.cycle] at flag
    rw [readErrorFlag_next other, PfcClient.readError, Bool.or_eq_false_iff, Bool.and_eq_false_iff] at flag
    obtain ⟨holds, values⟩ := completed.values flag.2
    cases read : (inp.ports i).readEn with
    | false =>
      have noRead : (inp.ports i).reads = false := by simp [CsrPort.reads, read]
      rw [ledger, if_neg (by simp [noRead])]
      exact ⟨holds.keep (by rw [silent]; rfl) read other, values⟩
    | true =>
      have reads : (inp.ports i).reads = true := by
        simpa [PfcSystem.undisturbed, CsrPort.reads, read, completed.doneAt] using undisturbed
      -- the error flag is up from the read behind the last value on
      have bound : (s.ledgers i).values.length ≤ got.length := by
        have count := congrArg List.length values
        rw [List.length_take] at count
        omega
      have more : (s.ledgers i).values.length < got.length := by
        have error : (s.clients i).pfcrError = false := by
          rcases flag.1 with error | noRead
          · exact error
          · rw [read] at noRead
            cases noRead
        rw [holds.error, decide_eq_false_iff_not] at error
        omega
      have few : got.length ≤ 64 := by
        rw [completed.sampled.length_eq]
        exact length_chosen_le
      rw [ledger, if_pos reads, List.length_append, List.length_singleton]
      refine ⟨holds.read more few (by rw [silent]; rfl) read, ?_⟩
      rw [List.take_add_one, holds.front more, ← values]
      rfl

theorem Phase.cycle (phase : Phase cfg s i) (linked : Linked s) (selects : s.selects cfg inp i = true)
    (patient : s.patient inp i = true) (undisturbed : s.undisturbed inp i = true) : Phase cfg (s.cycle cfg inp) i := by
  cases write : (inp.ports i).acqbsof with
  | true =>
    refine linked.quiet_of_acqbsof write fun fired finish => ?_
    cases phase with
    | quiet _ closed _ => rw [closed fired] at finish; cases finish
    | active active => exact active.trigger
    | completed completed => rw [completed.closed fired] at finish; cases finish
  | false =>
    cases phase with
    | quiet doneAt closed error => exact linked.phase_of_quiet doneAt closed error write selects patient undisturbed
    | active active =>
      have quiet := quiet_of_trigger patient undisturbed active.doneAt active.trigger
      cases taken : s.respAt inp i with
      | none => exact .active (active.pause linked write quiet taken)
      | some m => exact active.take linked write quiet taken
    | completed completed => exact .completed (completed.cycle linked write undisturbed)

/-! Whole runs. -/

/-- What software of client `i` has read, and what the client takes next. -/
structure ReadsRight (cfg : PfcConfig) (s : PfcSystem) (i : Nat) : Prop where
  /-- the values read without an error are those of the first counters of the latest request,
  in ascending order, each from a cycle between the request and its last response -/
  values : ∀ time, (s.ledgers i).doneAt = some time → (s.clients i).readErrorFlag = false →
    List.Forall₂ (fun value counter => ∃ cycle, (s.ledgers i).sentAt ≤ cycle ∧ cycle ≤ time
        ∧ value = s.history cycle (s.ledgers i).target counter)
      (s.ledgers i).values ((chosen cfg s i).take (s.ledgers i).values.length)
  /-- a response that is stored answers the latest request, which is not cancelled -/
  own : ∀ inp r, (s.clients i).stored (s.resp cfg inp i) = some r → ∃ m, s.respAt inp i = some m
    ∧ s.served m = (i, (s.ledgers i).serial) ∧ (s.clients i).reqfinish = false ∧ (inp.ports i).acqbsof = false

theorem Linked.own {r : PFCResp} (linked : Linked s) (stored : (s.clients i).stored (s.resp cfg inp i) = some r) :
    ∃ m, s.respAt inp i = some m ∧ s.served m = (i, (s.ledgers i).serial) ∧ (s.clients i).reqfinish = false
      ∧ (inp.ports i).acqbsof = false := by
  cases taken : s.respAt inp i with
  | none => simp [resp, taken, PfcClient.stored] at stored
  | some m =>
    obtain ⟨-, responding, src, ready⟩ := respAt_eq_some.mp taken
    have served := linked.served m responding
    rw [src] at served
    simp only [PfcClient.respReady] at ready
    split at ready
    · cases ready
    · rename_i other
      exact ⟨m, rfl, served, by simpa using ready, by simpa using other⟩

theorem Phase.readsRight (phase : Phase cfg s i) (linked : Linked s) : ReadsRight cfg s i := by
  refine ⟨?_, fun _ _ => linked.own⟩
  intro time doneAt flag
  cases phase with
  | quiet none' => rw [none'] at doneAt; cases doneAt
  | active active => rw [active.doneAt] at doneAt; cases doneAt
  | completed completed =>
    obtain rfl := Option.some.inj (completed.doneAt.symm.trans doneAt)
    obtain ⟨-, values⟩ := completed.values flag
    have front := List.forall₂_take (s.ledgers i).values.length completed.sampled
    rw [← values] at front
    exact front.imp fun v c ⟨cycle, after, before, held⟩ => ⟨cycle, after, Nat.le_of_lt_succ before, held⟩

/-- Requests of client `i` select a counter, and its software waits for the values. -/
def asked (cfg : PfcConfig) (i : Nat) (s : PfcSystem) (inp : PfcInput) : Bool := s.selects cfg inp i && s.patient inp i

def askedUndisturbed (cfg : PfcConfig) (i : Nat) (s : PfcSystem) (inp : PfcInput) : Bool :=
  asked cfg i s inp && s.undisturbed inp i

/-- Whatever the other clients, the managers and the arbiters do. -/
theorem reads_never_mix (reset : s.OnReset)
    (run : Steps (step cfg) (fun s inp => askedUndisturbed cfg i s inp = true) s t) : ReadsRight cfg t i := by
  have sound : Linked t ∧ Phase cfg t i := by
    refine run.invariant (I := fun t => Linked t ∧ Phase cfg t i) ⟨reset.linked, reset.phase⟩ ?_
    rintro t u inp ⟨linked, phase⟩ admitted ⟨⟩
    simp only [askedUndisturbed, asked, Bool.and_eq_true] at admitted
    exact ⟨linked.cycle, phase.cycle linked admitted.1.1 admitted.1.2 admitted.2⟩
  exact sound.2.readsRight sound.1

/-- One manager with two counters. -/
def twoCounters : PfcConfig := ⟨fun _ => 2, fun _ => by decide, 1⟩

def resetTwo : PfcSystem where
  clients _ := ⟨0, 0, 0, 0, 0, fun _ => 0, false, false, false, 0, 0, false⟩
  managers _ := ⟨false, ⟨0, 0, 0, 0, 0⟩, false, 0, fun _ => 0⟩
  locks _ := none
  now := 0
  history _ _ _ := 0
  ledgers _ := ⟨0, 0, 0, 0, none, []⟩
  served _ := (0, 0)

theorem resetTwo_onReset : resetTwo.OnReset :=
  ⟨fun _ => rfl, fun _ => rfl, fun _ => rfl, fun _ => rfl, fun _ => rfl, fun _ => rfl⟩

/-! Two clients on one manager; the first one asks anew before its first request is answered. -/

def cycleOfBoth (zero one : CsrPort) (request response : Option Nat) (grow : Nat → BitVec 2) : PfcInput where
  ports i := if i = 0 then zero else if i = 1 then one else ⟨0, CSR.N, 0, PRV.M, false⟩
  reqFrom m := if m = 0 then request else none
  respFrom i := if response = some i then some 0 else none
  update _ := grow

def idlePort : CsrPort := ⟨0, CSR.N, 0, PRV.M, false⟩
def writePort (addr : BitVec 12) (wdata : Word) : CsrPort := ⟨addr, CSR.W, wdata, PRV.M, true⟩
def readPort : CsrPort := ⟨CSRs.pfcr, CSR.R, 0, PRV.M, true⟩

def askBoth : List PfcInput :=
  [cycleOfBoth (writePort CSRs.pfcm 3) (writePort CSRs.pfcm 2) none none (fun i => BitVec.ofNat 2 (i + 1)),
    cycleOfBoth (writePort CSRs.pfcc 1) (writePort CSRs.pfcc 1) none none (fun _ => 0),
    cycleOfBoth idlePort idlePort (some 0) none (fun _ => 0),
    cycleOfBoth idlePort idlePort none (some 0) (fun _ => 1),
    -- client 0 cancels behind the first of its two values, and its request is withdrawn
    cycleOfBoth (writePort CSRs.pfcc 1) idlePort none (some 0) (fun _ => 0),
    cycleOfBoth (writePort CSRs.pfcm 3) idlePort (some 0) none (fun _ => 0),
    cycleOfBoth idlePort idlePort (some 1) none (fun _ => 0),
    cycleOfBoth idlePort idlePort none (some 1) (fun _ => 1),
    cycleOfBoth idlePort idlePort (some 1) none (fun _ => 0),
    cycleOfBoth idlePort readPort (some 0) none (fun _ => 0),
    cycleOfBoth idlePort idlePort none (some 0) (fun _ => 0),
    cycleOfBoth idlePort idlePort none (some 0) (fun _ => 0),
    cycleOfBoth readPort idlePort (some 0) none (fun _ => 0),
    cycleOfBoth readPort idlePort none none (fun _ => 0)]

def undisturbedBoth (s : PfcSystem) (inp : PfcInput) : Bool :=
  askedUndisturbed twoCounters 0 s inp && askedUndisturbed twoCounters 1 s inp

theorem reads_never_mix_two : ∃ t : PfcSystem, (t.ledgers 0).values = [3, 4] ∧ (t.ledgers 1).values = [3]
    ∧ ReadsRight twoCounters t 0 ∧ ReadsRight twoCounters t 1 := by
  have ran : (execGuarded (step twoCounters) undisturbedBoth resetTwo askBoth).map
      (fun t => ((t.ledgers 0).values, (t.ledgers 1).values)) = some ([3, 4], [3]) := by decide +kernel
  obtain ⟨t, ran, values⟩ := Option.map_eq_some_iff.mp ran
  have run := steps_of_execGuarded ran
  simp only [undisturbedBoth, Bool.and_eq_true] at run
  obtain ⟨zero, one⟩ := Prod.mk.inj values
  exact ⟨t, zero, one, reads_never_mix resetTwo_onReset (run.mono fun _ _ both => both.1),
    reads_never_mix resetTwo_onReset (run.mono fun _ _ both => both.2)⟩

/-! One client that asks for two counters. -/

def cycleOf (addr : BitVec 12) (cmd : BitVec 3) (wdata : Word) (request response : Bool) (grow : Nat → BitVec 2) : PfcInput where
  ports i := if i = 0 then ⟨addr, cmd, wdata, PRV.M, true⟩ else ⟨0, CSR.N, 0, PRV.M, false⟩
  reqFrom m := if m = 0 ∧ request then some 0 else none
  respFrom i := if i = 0 ∧ response then some 0 else none
  update _ := grow

def askTwo : List PfcInput :=
  [cycleOf CSRs.pfcm CSR.W 3 false false (fun i => BitVec.ofNat 2 (i + 1)), cycleOf CSRs.pfcc CSR.W 1 false false (fun _ => 0),
    cycleOf 0 CSR.N 0 true false (fun _ => 0), cycleOf 0 CSR.N 0 false true (fun _ => 0),
    cycleOf 0 CSR.N 0 false true (fun _ => 0)]

/-- `addi x0, x0, 0x402` takes the first value away. -/
def readBehindAddi : List PfcInput :=
  askTwo ++ [cycleOf CSRs.pfcr CSR.N 0 false false (fun _ => 0), cycleOf CSRs.pfcr CSR.R 0 false false (fun _ => 0)]

/-- Software then reads the second counter in place of the first, without an error. -/
theorem not_reads_right_behind_addi : ¬ ∀ s t : PfcSystem, s.OnReset →
    Steps (step twoCounters) (fun s inp => asked twoCounters 0 s inp = true) s t → ReadsRight twoCounters t 0 := by
  intro always
  have ran : (execGuarded (step twoCounters) (asked twoCounters 0) resetTwo readBehindAddi).map
      (fun t => (((t.ledgers 0).values, (t.ledgers 0).doneAt, (t.clients 0).readErrorFlag), ((t.ledgers 0).sentAt,
        (t.ledgers 0).target, (t.ledgers 0).bitmap), (List.range 5).map fun cycle => t.history cycle 0 0)) =
      some (([2], some 4, false), (2, 0, 3), [0, 1, 1, 1, 1]) := by decide +kernel
  obtain ⟨t, ran, result⟩ := Option.map_eq_some_iff.mp ran
  simp only [Prod.mk.injEq] at result
  obtain ⟨⟨values, doneAt, flag⟩, ⟨sentAt, target, bitmap⟩, history⟩ := result
  have right := (always resetTwo t resetTwo_onReset (steps_of_execGuarded ran)).values 4 doneAt flag
  have first : chosen twoCounters t 0 = [0, 1] := by
    rw [chosen, target, bitmap]
    decide
  rw [values, first, sentAt, target] at right
  obtain ⟨⟨cycle, after, before, held⟩, -⟩ := List.forall₂_cons.mp right
  have place : t.history cycle 0 0 = 1 := by
    have entry := congrArg (fun column => column[cycle]?) history
    obtain rfl | rfl | rfl : cycle = 2 ∨ cycle = 3 ∨ cycle = 4 := by omega
    all_goals simpa using entry
  rw [place] at held
  exact absurd held (by decide)

end PfcSystem

end LowRisc.Pfc
