import LowRisc.Coherence.Accesses

/-! The messages between the caches and the manager.

There is never more than one message of a kind under way, so that no step overwrites one, and a release
that no other unit takes is a voluntary one of a block that is resident.
-/

set_option autoImplicit false

namespace LowRisc.Coherence

open LowRisc.Lib MESICoherence

variable {n : Nat} {V U : Type} {act : U → V → V} {s : System n V U} {m' : Manager n V} {c c' : Client V U}
  {a : ClientAction U} {e : Event V U} {d : Duty}

structure Client.KeepsSent (c c' : Client V U) : Prop where
  acquire : ∀ a, c.acquire = some a → c'.acquire = some a
  release : ∀ r, c.release = some r → c'.release = some r
  finish : c.finish = true → c'.finish = true

structure Client.KeepsReceived (c c' : Client V U) : Prop where
  probe : ∀ p, c.probe = some p → c'.probe = some p
  grant : ∀ g, c.grant = some g → c'.grant = some g

theorem Client.Moves.keepsSent (moved : c.Moves act a c' e) (sound : c.Sound) (shared : Shared d c.view)
    (kind : d.kind ≠ .probeCopy) : c.KeepsSent c' := by
  cases moved with
  | writeBack old victim =>
    simp only [Client.Sound, victim] at sound
    have owner : writePermission c.view.held = true := by simp [Client.view, Client.held, victim, sound.2.1, writePermission]
    have silent := shared.silent owner (by simp [Client.view, Client.waits, victim])
    refine ⟨fun _ sent => sent, fun r sent => ?_, id⟩
    rw [show c.release = none from silent] at sent
    cases sent
  | sendAcquire req before =>
    simp only [Client.Sound, before] at sound
    refine ⟨fun a sent => ?_, fun _ sent => sent, id⟩
    rw [sound.1.1] at sent
    cases sent
  | sendFinish queued => exact ⟨fun _ sent => sent, fun _ sent => sent, fun _ => rfl⟩
  | takeProbe p came ready =>
    have silent := (shared.takeProbe (x := c.data) came (Client.waits_of_ready ready) kind).1
    refine ⟨fun _ sent => sent, fun r sent => ?_, id⟩
    rw [show c.release = none from silent] at sent
    cases sent
  | _ => exact ⟨fun _ sent => sent, fun _ sent => sent, id⟩

theorem System.Inv.keepsReceived {i : Fin n} {effect : Effect V} (inv : s.Inv)
    (moved : s.manager.Moves s.clients m' (some (i, effect))) :
    (s.clients i).KeepsReceived ((s.clients i).receive effect) := by
  cases effect with
  | takeAcquire | takeRelease | takeFinish => exact ⟨fun _ came => came, fun _ came => came⟩
  | probe p =>
    have next : (s.manager.duty i).toProbe = true := by
      cases moved with
      | sendProbe x dst acq next =>
        simp [Manager.duty, acq, Manager.tracked, FullRepresentation.next_spec next]
      | wbProbe w dst evict next =>
        have acq := inv.manager.evicting (by simp [evict])
        simp [Manager.duty, acq, evict, Manager.evicted, FullRepresentation.next_spec next]
    have quiet := (inv.shared i).unasked next
    refine ⟨fun q came => ?_, fun _ came => came⟩
    simp [View.probed, Client.view, came] at quiet
  | grant g =>
    have empty : (s.clients i).grant = none := by
      rcases inv.grant_cases moved with ⟨owed, y, rfl⟩ | ⟨x, y, acq, busy, pending, -, rfl, rfl⟩
      · exact (Client.view_ack (x := y) (inv.shared i) owed).1
      · obtain ⟨-, -, req, -, -, empty⟩ := inv.granting acq busy pending
        exact empty
    refine ⟨fun _ came => came, fun h came => ?_⟩
    rw [empty] at came
    cases came

namespace Log

variable {l : Log n V U} {v : V} {ok : Log n V U → Action n V U → Prop} {s' : System n V U}

/-- No message is overwritten before it is taken. -/
theorem messages_are_kept (run : Steps (Log.step act) ok (Log.onReset v) l) (i : Fin n) :
    (∀ j a, l.system.step act (.client j a) = some (s', e) → (l.system.clients i).KeepsSent (s'.clients i)) ∧
      ∀ a, l.system.step act (.manager a) = some (s', e) → (l.system.clients i).KeepsReceived (s'.clients i) := by
  have inv := inv_of_run run
  constructor
  · intro j a fired
    obtain ⟨⟨c', e'⟩, moved, same⟩ := Option.map_eq_some_iff.mp fired
    cases same
    by_cases here : i = j
    · subst here
      simpa using (Client.moves_of_step moved).keepsSent (inv.clients i) (inv.shared i) (inv.manager.kind i)
    · simp only [put_of_ne here]
      exact ⟨fun _ sent => sent, fun _ sent => sent, id⟩
  · intro a fired
    obtain ⟨⟨m', f⟩, moved, same⟩ := Option.map_eq_some_iff.mp fired
    have other : (l.system.clients i).KeepsReceived (l.system.clients i) := ⟨fun _ came => came, fun _ came => came⟩
    cases f with
    | none =>
      cases same
      exact other
    | some effect =>
      obtain ⟨j, effect⟩ := effect
      cases same
      by_cases here : i = j
      · subst here
        simpa using inv.keepsReceived (Manager.moves_of_step moved)
      · simpa [here] using other

/-- The Acquire of the first cache waits for the manager. -/
theorem messages_are_kept_of_miss : ∃ l : Log 2 Nat Nat, (l.system.clients 0).acquire.isSome = true ∧
    ∀ j a s' e, l.system.step overwrite (.client j a) = some (s', e) →
      (l.system.clients 0).KeepsSent (s'.clients 0) := by
  have ran : (exec (Log.step overwrite) (Log.onReset 0) ((missSteps 0 ⟨.xwr, 5, false⟩).take 3)).map (fun l =>
      (l.system.clients 0).acquire.isSome) = some true := by decide +kernel
  obtain ⟨l, ran, result⟩ := Option.map_eq_some_iff.mp ran
  exact ⟨l, result, fun j a s' e => (messages_are_kept (steps_of_exec ran) 0).1 j a⟩

/-- A release that no unit matches is voluntary, and its block is resident. -/
theorem releases_are_expected (run : Steps (Log.step act) ok (Log.onReset v) l) {src : Fin n} {r : Release V}
    (came : (l.system.clients src).release = some r) (unmatched : l.system.manager.volFree = true) :
    r.voluntary = true ∧ l.system.manager.resident.isSome = true := by
  have inv := inv_of_run run
  simp only [Manager.volFree, Bool.and_eq_true, Option.isNone_iff_eq_none] at unmatched
  obtain ⟨⟨vol, tracker⟩, unit⟩ := unmatched
  have waiting : ∀ x, l.system.manager.acq = some x → x.state = .wbReq := by
    intro x acq
    simpa [acq] using tracker
  have working : ∀ w, l.system.manager.evict ≠ .wb w := by
    intro w evict
    simp [evict] at unit
  have voluntary : r.voluntary = true := by
    by_contra involuntary
    have none : l.system.manager.awaited = 0 := by
      cases acq : l.system.manager.acq with
      | some x =>
        have sound := (inv.manager.acq x acq).2.2
        simp only [Xact.Sound, waiting x acq] at sound
        simp [Manager.awaited, acq, sound]
      | none =>
        cases evict : l.system.manager.evict with
        | wb w => exact absurd evict (working w)
        | _ => simp [Manager.awaited, acq, evict]
    have quiet := inv.unprobed none src
    simp [View.probed, View.replying, Client.view, came, involuntary] at quiet
  obtain ⟨-, ⟨coh, resident⟩, -⟩ := inv.resident came voluntary waiting working
  exact ⟨voluntary, by simp [resident]⟩

/-- The first cache evicts what it has stored. -/
theorem releases_are_expected_of_evict : ∃ l : Log 2 Nat Nat,
    (l.system.clients 0).release = some ⟨true, .releaseInvalidateData, 5⟩ ∧ l.system.manager.volFree = true ∧
      l.system.manager.resident.isSome = true := by
  have ran : (exec (Log.step overwrite) (Log.onReset 0) (missSteps 0 ⟨.xwr, 5, false⟩ ++ refillSteps ++
      [.client 0 .replay] ++ finishSteps ++ [.client 0 .evict, .client 0 .writeBack])).map (fun l =>
      ((l.system.clients 0).release, l.system.manager.volFree)) =
      some (some ⟨true, .releaseInvalidateData, 5⟩, true) := by decide +kernel
  obtain ⟨l, ran, result⟩ := Option.map_eq_some_iff.mp ran
  simp only [Prod.mk.injEq] at result
  exact ⟨l, result.1, result.2, (releases_are_expected (steps_of_exec ran) result.1 result.2).2⟩

end Log

end LowRisc.Coherence
