import LowRisc.Coherence.ManagerValues

/-! The accesses of all cores to one block.

A core that writes is alone with the block, and the accesses are atomic: each of them reads what the
accesses before it have left.
-/

set_option autoImplicit false

namespace LowRisc.Coherence

open LowRisc.Lib MESICoherence

variable {n : Nat} {V U : Type} {act : U → V → V} {s s' : System n V U} {m' : Manager n V}
  {f : Option (Fin n × Effect V)} {e : Event V U} {v : V} {i j : Fin n}

theorem Manager.duty_alone {m : Manager n V} (alone : (m.duty i).alone) (sharer : (m.duty j).sharer = true) :
    j = i := by
  cases acq : m.acq with
  | some x =>
    simp only [Manager.duty, acq] at alone sharer
    exact alone j sharer
  | none =>
    cases unit : m.evict <;> simp only [Manager.duty, acq, unit] at alone sharer <;> exact alone j sharer

/-- Nobody else has the block of an owner. -/
theorem System.Inv.alone (inv : s.Inv) (owns : (s.clients i).view.owns = true) (apart : j ≠ i) :
    (s.clients j).view.present = false := by
  cases present : (s.clients j).view.present with
  | false => rfl
  | true =>
    have alone := (inv.shared i).alone owns
    exact absurd (Manager.duty_alone alone ((inv.shared j).sharer present)) apart

theorem Client.absent {c : Client V U} (absent : c.view.present = false) :
    c.held = .clientInvalid ∧ c.view.carries = false := by
  simp only [View.present, Bool.or_eq_false_iff] at absent
  exact ⟨by simpa [Client.view, isValid] using absent.1, absent.2⟩

namespace Log

variable {l l' : Log n V U}

/-- While a core writes, no other core has access. -/
theorem writers_are_alone {ok : Log n V U → Action n V U → Prop} (run : Steps (Log.step act) ok (Log.onReset v) l)
    (apart : j ≠ i) {a b : ClientAction U} {c c' : Client V U} {e' : Event V U}
    (writer : (l.system.clients i).step act a = some (c, e)) (write : e.write ≠ none)
    (other : (l.system.clients j).step act b = some (c', e')) : e' = .silent := by
  have inv := inv_of_run run
  have owner : writePermission (l.system.clients i).held = true := by
    rcases (Client.moves_of_step writer).event (inv.clients i) with rfl | ⟨-, -, owner⟩
    · exact absurd rfl write
    · exact (owner write).1
  have absent := (Client.absent (inv.alone (by simp [View.owns, Client.view, owner]) apart)).1
  rcases (Client.moves_of_step other).event (inv.clients j) with silent | ⟨-, valid, -⟩
  · exact silent
  · exact absurd absent valid

end Log

/-! A step of a cache. -/

theorem System.Current.ofClient {a : ClientAction U} {c' : Client V U} (current : s.Current v) (inv : s.Inv)
    (moved : (s.clients i).Moves act a c' e) (calm : (s.clients i).spoils a = false) :
    (∀ r, e.read = some r → r = v) ∧ System.Current { s with clients := put s.clients i c' } (e.left act v) := by
  have sound := inv.clients i
  have shared := inv.shared i
  have here := current.clients i
  have next := moved.current sound shared Manager.duty_source calm here
  have dirty := moved.dirty sound shared Manager.duty_source (inv.manager.kind i)
  have event := moved.event sound
  -- only an owner writes, and its copy is dirty by then
  have owner : e.write ≠ none → writePermission (s.clients i).held = true ∧
      (s.clients i).held = .clientExclusiveDirty := by
    intro write
    rcases event with rfl | ⟨-, -, owner⟩
    · exact absurd rfl write
    · exact ⟨(owner write).1, (owner write).2 here.ready⟩
  refine ⟨?_, ?_, ?_, current.kept⟩
  · intro r read
    rcases event with rfl | ⟨copy, valid, -⟩
    · cases read
    · rw [copy r read, here.copy valid]
  · intro j
    by_cases same : j = i
    · subst same
      simpa using next
    · simp only [put_of_ne same]
      cases write : e.write with
      | none => simpa [Event.left, write] using current.clients j
      | some u =>
        -- the writer is alone, so the others have no copy that could be stale
        have owns : (s.clients i).view.owns = true := by
          simp [View.owns, Client.view, (owner (by simp [write])).1]
        obtain ⟨absent, clean⟩ := Client.absent (inv.alone owns same)
        refine ⟨fun valid => absurd absent valid, fun r sent data => ?_, (current.clients j).ready⟩
        simp [View.carries, Client.view, sent, data] at clean
  · intro clean
    -- nothing was dirty before either, and then nothing is written
    have before : ∀ j, ¬(s.clients j).Dirty := by
      intro j was
      by_cases same : j = i
      · subst same
        exact clean j (by simpa using dirty was)
      · exact clean j (by simpa [same] using was)
    have silent : e.write = none := by
      by_contra write
      exact before i (.inl (owner write).2)
    simpa [Event.left, silent] using current.manager before

/-! A step of the manager. -/

theorem Manager.Kept.buffer {m : Manager n V} {x : Xact n V} {y : V} (kept : m.Kept) (acq : m.acq = some x)
    (buffered : x.data_buffer = some y) : m.value = y := by
  rw [Manager.kept_acq acq] at kept
  rw [Manager.value_acq acq]
  cases writes : x.pending_writes <;> simp_all [Xact.value]

theorem Client.Dirty.owns {c : Client V U} (dirty : c.Dirty) : c.view.owns = true := by
  rcases dirty with held | carries
  · simp [View.owns, held, writePermission]
  · simp [View.owns, carries]

theorem Client.Current.takeRelease {c : Client V U} (current : c.Current v) :
    Client.Current { c with release := none } v :=
  ⟨current.copy, by simp, current.ready⟩

theorem Client.Current.acknowledged {c : Client V U} {d : Duty} {y : V} (current : c.Current v)
    (shared : Shared d c.view) (owed : d.acking = true) :
    Client.Current { c with grant := some ⟨.builtIn .voluntaryAck, y⟩ } v ∧
      (c.Dirty → Client.Dirty { c with grant := some ⟨.builtIn .voluntaryAck, y⟩ }) := by
  have waits := (shared.ack_waits owed).1
  have absent := Client.held_of_waits waits
  have absent' : Client.held { c with grant := some ⟨.builtIn .voluntaryAck, y⟩ } = .clientInvalid :=
    Client.held_of_waits waits
  refine ⟨⟨fun valid => absurd absent' valid, current.release, current.ready⟩, fun dirty => ?_⟩
  rcases dirty with held | carries
  · rw [show c.view.held = .clientInvalid from absent] at held
    cases held
  · exact .inr carries

theorem Client.Current.granted {c : Client V U} {g : Grant V} {req : Request U} (current : c.Current v)
    (waiting : c.mshr = .refillResp req) (data : g.g_type.hasData = true) (right : g.data = v) :
    Client.Current { c with grant := some g } v := by
  refine ⟨fun _ => ?_, current.release, current.ready⟩
  simp [Client.copy, waiting, data, right]

theorem System.Current.received {effect : Effect V} (current : s.Current v) (inv : s.Inv)
    (moved : s.manager.Moves s.clients m' (some (i, effect))) :
    ((s.clients i).receive effect).Current v ∧
      (brings s.clients (some (i, effect)) = none → (s.clients i).Dirty → ((s.clients i).receive effect).Dirty) := by
  have here := current.clients i
  cases effect with
  | takeAcquire | takeFinish | probe => exact ⟨⟨here.copy, here.release, here.ready⟩, fun _ dirty => dirty⟩
  | takeRelease =>
    refine ⟨here.takeRelease, fun nothing dirty => ?_⟩
    rcases dirty with held | carries
    · exact .inl held
    · cases came : (s.clients i).release with
      | none => simp [View.carries, Client.view, came] at carries
      | some r =>
        simp only [View.carries, Client.view, came, Option.any_some] at carries
        simp [brings, came, carries] at nothing
  | grant g =>
    rcases inv.grant_cases moved with ⟨owed, y, rfl⟩ | ⟨x, y, acq, busy, pending, buffered, rfl, rfl⟩
    · obtain ⟨next, dirty⟩ := here.acknowledged (inv.shared i) owed (y := y)
      exact ⟨next, fun _ => dirty⟩
    · obtain ⟨-, poor, req, waiting, type, -⟩ := inv.granting acq busy pending
      have clean : ∀ j, ¬(s.clients j).Dirty := by
        intro j dirty
        have owns := dirty.owns
        rw [poor] at owns
        cases owns
      have right : y = v := (current.kept.buffer acq buffered).symm.trans (current.manager clean)
      obtain ⟨-, -, data, -⟩ := getGrantType_spec x.pending_coh.sharers x.src ⟨req.cmd, type.symm⟩
      exact ⟨here.granted waiting data right, fun _ dirty => absurd dirty (clean x.src)⟩

theorem System.Current.ofManager (current : s.Current v) (inv : s.Inv) (moved : s.manager.Moves s.clients m' f) :
    (s.after m' f).Current v := by
  obtain ⟨kept, value⟩ := inv.value current.kept moved
  cases f with
  | none =>
    refine ⟨current.clients, fun clean => ?_, kept⟩
    exact value.trans (current.manager clean)
  | some effect =>
    obtain ⟨i, effect⟩ := effect
    obtain ⟨next, dirty⟩ := current.received inv moved
    refine ⟨fun j => ?_, fun clean => value.trans ?_, kept⟩
    · by_cases same : j = i
      · subst same
        simpa [System.after] using next
      · simpa [System.after, same] using current.clients j
    · cases came : brings s.clients (some (i, effect)) with
      | some d =>
        have data : ∃ r, (s.clients i).release = some r ∧ r.r_type.hasData = true ∧ r.data = d := by
          cases effect <;> simp_all [brings, Option.bind_eq_some_iff]
        obtain ⟨r, sent, data, rfl⟩ := data
        exact (current.clients i).release r sent data
      | none =>
        apply current.manager
        intro j was
        by_cases same : j = i
        · subst same
          exact clean j (by simpa [System.after] using dirty came was)
        · exact clean j (by simpa [System.after, same] using was)

/-! Runs. -/

theorem System.current_onReset (v : V) : (System.onReset v : System n V U).Current v where
  clients i := ⟨fun valid => absurd rfl valid, by simp [System.onReset, Client.onReset], trivial⟩
  manager _ := rfl
  kept := by simp [System.onReset, Manager.onReset, Manager.Kept, Manager.Below]

namespace Log

variable {l l' : Log n V U}

def spoils (l : Log n V U) : Action n V U → Bool
  | .client i a => (l.system.clients i).spoils a
  | .manager _ => false

theorem step_serial {a : Action n V U} (inv : l.system.Inv) (calm : l.spoils a = false)
    (before : l.system.Current (current act v l.events)) (serial : Serial act v l.events)
    (fired : l.step act a = some l') :
    l'.system.Current (current act v l'.events) ∧ Serial act v l'.events := by
  obtain ⟨e, stepped, events⟩ := step_spec fired
  rw [events, current_concat]
  rcases System.step_cases stepped with ⟨i, b, c', rfl, moved, after⟩ | ⟨m', f, moved, after, rfl⟩
  · obtain ⟨read, next⟩ := before.ofClient inv moved calm
    rw [after]
    exact ⟨next, serial.concat read⟩
  · rw [after]
    exact ⟨before.ofManager inv moved, serial.concat (by simp [Event.silent])⟩

/-- The accesses of all cores are atomic: each reads what the accesses before it have left. -/
theorem accesses_are_serial (run : Steps (Log.step act) (fun l a => l.spoils a = false) (Log.onReset v) l) :
    Serial act v l.events := by
  have inv : l.system.Inv ∧ l.system.Current (current act v l.events) ∧ Serial act v l.events := by
    apply run.invariant (I := fun l : Log n V U =>
      l.system.Inv ∧ l.system.Current (current act v l.events) ∧ Serial act v l.events)
    · exact ⟨System.inv_onReset v, System.current_onReset v, trivial⟩
    · rintro t u a ⟨inv, before, serial⟩ calm fired
      obtain ⟨e, stepped, -⟩ := step_spec fired
      exact ⟨inv.step stepped, step_serial inv calm before serial fired⟩
  exact inv.2.2

/-! Two caches: one of them stores to a block of the level below. -/

def overwrite (stored _ : Nat) : Nat := stored

def missSteps (i : Fin 2) (a : Access Nat) : List (Action 2 Nat Nat) :=
  [.client i (.access a), .client i .victimCleared, .client i .sendAcquire, .manager (.acceptAcquire i false)]

def grantSteps (i : Fin 2) : List (Action 2 Nat Nat) :=
  [.manager .sendGrant, .client i .takeGrant, .client i .writeMeta, .client i .metaWritten]

def refillSteps : List (Action 2 Nat Nat) :=
  [.manager .outerAcquire, .manager .outerGrant, .manager .writeArray] ++ grantSteps 0

def finishSteps : List (Action 2 Nat Nat) :=
  [.client 0 .drained, .client 0 .sendFinish, .manager (.takeFinish 0), .manager .finishXact]

theorem writers_are_alone_of_store : ∃ l : Log 2 Nat Nat,
    ((l.system.clients 0).step overwrite .replay).map (fun next => next.2.write) = some (some 5) ∧
      ∀ b c e, (l.system.clients 1).step overwrite b = some (c, e) → e = .silent := by
  have ran : (exec (Log.step overwrite) (Log.onReset 0) (missSteps 0 ⟨.xwr, 5, false⟩ ++ refillSteps)).map (fun l =>
      ((l.system.clients 0).step overwrite .replay).map fun next => next.2.write) = some (some (some 5)) := by
    decide +kernel
  obtain ⟨l, ran, result⟩ := Option.map_eq_some_iff.mp ran
  refine ⟨l, result, fun b c e other => ?_⟩
  obtain ⟨⟨c', e'⟩, writer, write⟩ := Option.map_eq_some_iff.mp result
  have wrote : e'.write ≠ none := by
    rw [show e'.write = some 5 from write]
    simp
  exact writers_are_alone (i := 0) (j := 1) (steps_of_exec ran) (by decide) writer wrote other

/-- The other cache then reads the block; its data come with the reply to the probe or from the array. -/
def readSteps (fetch : ManagerAction 2 Nat) : List (Action 2 Nat Nat) :=
  missSteps 1 ⟨.xrd, 0, false⟩ ++ [.manager .sendProbe, .client 0 .takeProbe, .manager (.takeRelease 0),
    .manager .probesDone, .manager fetch] ++ grantSteps 1 ++ [.client 1 .replay]

theorem accesses_are_serial_of_store : ∃ l : Log 2 Nat Nat,
    l.events.filter (fun e => e.read.isSome || e.write.isSome) = [⟨none, some 5⟩, ⟨some 5, none⟩] ∧
      Serial overwrite 0 l.events := by
  have ran : (execGuarded (Log.step overwrite) (fun l a => !l.spoils a) (Log.onReset 0) (missSteps 0 ⟨.xwr, 5, false⟩ ++
      refillSteps ++ [.client 0 .replay] ++ finishSteps ++ readSteps .writeArray)).map (fun l =>
      l.events.filter fun e => e.read.isSome || e.write.isSome) = some [⟨none, some 5⟩, ⟨some 5, none⟩] := by
    decide +kernel
  obtain ⟨l, ran, result⟩ := Option.map_eq_some_iff.mp ran
  have run : Steps (Log.step overwrite) (fun l a => l.spoils a = false) (Log.onReset 0) l :=
    (steps_of_execGuarded ran).mono fun _ _ calm => by simpa using calm
  exact ⟨l, result, accesses_are_serial run⟩

/-- A store that joins a prefetch for writing leaves the block clean: the other cache does not see it. -/
theorem not_serial_of_prefetch : ∃ l : Log 2 Nat Nat, Steps (Log.step overwrite) anyEvent (Log.onReset 0) l ∧
    ¬Serial overwrite 0 l.events := by
  have ran : (exec (Log.step overwrite) (Log.onReset 0) ([.client 0 (.access ⟨.pfw, 0, false⟩),
      .client 0 (.join ⟨.xwr, 5, false⟩)] ++ (missSteps 0 ⟨.pfw, 0, false⟩).tail ++ refillSteps ++ [.client 0 .replay] ++
      finishSteps ++ readSteps .readArray)).map (fun l => decide (Serial overwrite 0 l.events)) = some false := by
    decide +kernel
  obtain ⟨l, ran, result⟩ := Option.map_eq_some_iff.mp ran
  exact ⟨l, steps_of_exec ran, of_decide_eq_false result⟩

end Log

end LowRisc.Coherence
