import LowRisc.Coherence.ManagerShared

/-! Runs of the caches and the manager.

Both sides' knowledge of each other holds in every state that is reached from reset.
-/

set_option autoImplicit false

namespace LowRisc.Coherence

open LowRisc.Lib MESICoherence

variable {n : Nat} {V U : Type} {act : U → V → V} {s s' : System n V U} {m' : Manager n V} {f : Option (Fin n × Effect V)}
  {c c' : Client V U} {e : Event V U} {d : Duty}

/-! The clients at a step of the manager. -/

theorem Client.Sound.takeAcquire (sound : c.Sound) : Client.Sound { c with acquire := none } := by
  cases waiting : c.mshr <;> simp_all [Client.Sound, Client.Quiet, Client.Lacks]

theorem Client.Sound.acknowledged {x : V} (sound : c.Sound) (shared : Shared d c.view) (owed : d.acking = true) :
    Client.Sound { c with grant := some ⟨.builtIn .voluntaryAck, x⟩ } := by
  have waits := (shared.ack_waits owed).1
  have victim : c.mshr = .wbResp := by
    change c.waits = true at waits
    unfold Client.waits at waits
    split at waits
    · assumption
    · cases waits
  simp only [Client.Sound, victim] at sound ⊢
  exact ⟨sound.1, by simp⟩

theorem Client.Sound.granted {req : Request U} {sharers : BitVec n} {x : V} (sound : c.Sound)
    (waiting : c.mshr = .refillResp req) :
    Client.Sound { c with grant := some ⟨getGrantType (getAcquireType req.cmd) sharers, x⟩ } := by
  simp only [Client.Sound, waiting] at sound ⊢
  refine ⟨sound.1, sound.2.1, sound.2.2.1, ?_⟩
  intro g same
  cases Option.some.inj same
  cases intent : req.cmd.isWriteIntent <;> cases none : FullRepresentation.none sharers <;>
    simp [Grant.Answers, getGrantType, getAcquireType, intent, none]

theorem Client.Sound.unmoved (sound : c.Sound) (mshr : c'.mshr = c.mshr) (state : c'.state = c.state)
    (acquire : c'.acquire = c.acquire) (grant : c'.grant = c.grant) : c'.Sound := by
  unfold Client.Sound Client.Quiet Client.Lacks at sound ⊢
  rw [mshr, state, acquire, grant]
  exact sound

/-- A grant acknowledges a voluntary release, or answers the Acquire that the tracker serves. -/
theorem System.Inv.grant_cases {i : Fin n} {g : Grant V} (inv : s.Inv)
    (moved : s.manager.Moves s.clients m' (some (i, .grant g))) :
    ((s.manager.duty i).acking = true ∧ ∃ y, g = ⟨.builtIn .voluntaryAck, y⟩) ∨
      ∃ x y, s.manager.acq = some x ∧ x.state = .busy ∧ x.pending_ignt = true ∧ x.data_buffer = some y ∧ i = x.src ∧
        g = ⟨getGrantType x.a_type x.pending_coh.sharers, y⟩ := by
  cases moved with
  | ackVoluntary x dst acq owed => exact .inl ⟨by simp [Manager.duty, acq, Manager.tracked, owed], _, rfl⟩
  | wbAck w dst acq evict owed => exact .inl ⟨by simp [Manager.duty, acq, evict, Manager.evicted, owed], _, rfl⟩
  -- its acknowledgement is owed to the client of the voluntary release
  | volAck v vol owed =>
    obtain ⟨-, -, unit⟩ := inv.manager.vol v vol
    obtain ⟨sharers, -, duty⟩ := Manager.duty_calm (inv.manager.acq_of_vol vol) unit
    have before : s.manager.duty v.src = Manager.calm sharers (some v) v.src := by rw [← duty, ← vol]
    exact .inl ⟨by simp [before, Manager.calm, owed], _, rfl⟩
  | sendGrant x d acq buffered busy pending => exact .inr ⟨x, d, acq, busy, pending, buffered, rfl, rfl⟩

theorem System.Inv.receive {i : Fin n} {effect : Effect V} (inv : s.Inv)
    (moved : s.manager.Moves s.clients m' (some (i, effect))) : ((s.clients i).receive effect).Sound := by
  have sound := inv.clients i
  cases effect with
  | takeAcquire => exact sound.takeAcquire
  | takeRelease | takeFinish | probe => exact sound.unmoved rfl rfl rfl rfl
  | grant g =>
    rcases inv.grant_cases moved with ⟨owed, y, rfl⟩ | ⟨x, y, acq, busy, pending, -, rfl, rfl⟩
    · exact sound.acknowledged (inv.shared i) owed
    · obtain ⟨-, -, req, waiting, type, -⟩ := inv.granting acq busy pending
      rw [← type]
      exact sound.granted waiting

theorem System.Inv.managerClients (inv : s.Inv) (moved : s.manager.Moves s.clients m' f) (j : Fin n) :
    ((s.after m' f).clients j).Sound := by
  cases f with
  | none => exact inv.clients j
  | some effect =>
    obtain ⟨i, effect⟩ := effect
    by_cases same : j = i
    · subst same
      simpa [System.after] using inv.receive moved
    · simpa [System.after, same] using inv.clients j

/-! The replies that are awaited: the probes that go out count up, the replies that are taken count down. -/

theorem System.Inv.tally_still {i : Fin n} {e : Effect V} (inv : s.Inv)
    (same : ((s.clients i).receive e).view.probed = (s.clients i).view.probed) :
    tally (fun c => c.view.probed) (s.after m' (some (i, e))).clients = s.manager.awaited := by
  rw [← inv.awaited]
  exact tally_put_same same

theorem Client.probed_voluntary {r : Release V} (came : c.release = some r) (voluntary : r.voluntary = true) :
    (c.receive .takeRelease).view.probed = c.view.probed := by
  simp [Client.receive, Client.view, View.probed, View.replying, came, voluntary]

theorem System.Inv.tally_probe {i : Fin n} {p : ProbeType} {k : Nat} (inv : s.Inv) (before : s.manager.awaited = k)
    (next : (s.manager.duty i).toProbe = true) :
    tally (fun c => c.view.probed) (s.after m' (some (i, .probe p))).clients = k + 1 := by
  -- the client had no probe under way, so it counts from now on
  have quiet := (inv.shared i).unasked next
  rw [← before, ← inv.awaited]
  exact tally_put_new quiet (by simp [Client.receive, Client.view, View.probed])

theorem System.Inv.tally_reply {i : Fin n} {r : Release V} {k : Nat} (inv : s.Inv) (before : s.manager.awaited = k)
    (came : (s.clients i).release = some r) (involuntary : r.voluntary = false) :
    tally (fun c => c.view.probed) (s.after m' (some (i, .takeRelease))).clients = k - 1 := by
  have probed : (s.clients i).view.probed = true := by
    simp [Client.view, View.probed, View.replying, came, involuntary]
  have unprobed := (inv.shared i).unprobed came involuntary
  -- the client has no second probe under way, so it leaves the count
  have fewer := tally_put_gone (f := s.clients) (i := i) (p := fun c => c.view.probed)
    (a := (s.clients i).receive .takeRelease) probed
    (by simp only [Client.receive, View.probed, View.replying, Client.view] at unprobed ⊢; simp [unprobed])
  rw [← before, ← inv.awaited, ← fewer]
  rfl

theorem System.Inv.managerAwaited (inv : s.Inv) (moved : s.manager.Moves s.clients m' f) :
    tally (fun c => c.view.probed) (s.after m' f).clients = m'.awaited := by
  have count := inv.awaited
  cases moved with
  | acceptAcquire src a writeback asked acq vol evict =>
    rw [inv.tally_still rfl]
    cases found : s.manager.resident <;> simp [Manager.awaited, acq, evict, Xact.start]
  | takeVoluntary src r came volunt => rw [inv.tally_still (Client.probed_voluntary came volunt)]; rfl
  | mergeVoluntary src r x came volunt acq =>
    rw [inv.tally_still (Client.probed_voluntary came volunt)]
    simp [Manager.awaited, acq, Xact.mergeRelease, Xact.updatePendingCoh]
  | takeReply src r x came involuntary acq => exact inv.tally_reply (by simp [Manager.awaited, acq]) came involuntary
  | wbVoluntary src r w came volunt acq evict =>
    rw [inv.tally_still (Client.probed_voluntary came volunt)]
    simp [Manager.awaited, acq, evict, Writeback.mergeRelease]
  | wbReply src r w came involuntary acq evict =>
    rw [inv.tally_reply (by simp only [Manager.awaited, acq, evict]; rfl) came involuntary]
    simp [Manager.awaited, acq]
  | takeFinish src x came acq =>
    rw [inv.tally_still rfl]
    simp [Manager.awaited, acq]
  | sendProbe x dst acq next =>
    have found := FullRepresentation.next_spec next
    exact inv.tally_probe (by simp [Manager.awaited, acq]) (by simp [Manager.duty, acq, Manager.tracked, found])
  | wbProbe w dst evict next =>
    have acq := inv.manager.evicting (by simp [evict])
    have found := FullRepresentation.next_spec next
    rw [inv.tally_probe (by simp only [Manager.awaited, acq, evict]; rfl)
      (by simp [Manager.duty, acq, evict, Manager.evicted, found])]
    simp [Manager.awaited, acq]
  | wbRequested x acq | wbDone x acq | probesDone x acq | outerAcquire x acq | outerGrant x acq | readArray x acq
  -- the tracker goes on by itself, and no message passes
  | writeArray x d acq =>
    refine count.trans ?_
    simp [Manager.awaited, acq, Manager.refilled, Xact.updatePendingCoh]
  | ackVoluntary x dst acq | sendGrant x d acq =>
    rw [inv.tally_still rfl]
    simp [Manager.awaited, acq, Xact.updatePendingCoh]
  | wbAck w dst acq evict =>
    rw [inv.tally_still rfl]
    simp [Manager.awaited, acq, evict]
  -- a tracker that is done waits for no reply, so nothing is lost with it
  | finishXact x acq busy =>
    obtain ⟨-, evict, tracker⟩ := inv.manager.acq x acq
    simp only [Xact.Sound, busy] at tracker
    refine count.trans ?_
    simp [Manager.awaited, acq, evict, tracker]
  | volWrite => exact count
  | volAck => exact inv.tally_still rfl
  | volDone => exact count
  | evict old resident acq vol evict =>
    refine count.trans ?_
    simp [Manager.awaited, acq, evict]
  | wbStart old evict =>
    have acq := inv.manager.evicting (by simp [evict])
    refine count.trans ?_
    simp [Manager.awaited, acq, evict, Writeback.start]
  | wbProbesDone w evict | wbMetaResp w coh evict | wbRead w evict | wbRelease w d evict | wbGrant w evict =>
    have acq := inv.manager.evicting (by simp [evict])
    refine count.trans ?_
    simp [Manager.awaited, acq, evict]
  | wbResp w evict done =>
    have acq := inv.manager.evicting (by simp [evict])
    have answered := (inv.manager.wb w evict (by simp [done])).2.1
    refine count.trans ?_
    simp [Manager.awaited, acq, evict, answered]
  | overwrite v evict => exact count
  | replaced evict =>
    have acq := inv.manager.evicting (by simp [evict])
    refine count.trans ?_
    simp [Manager.awaited, acq, evict]

/-! Runs. -/

theorem System.Inv.ofManager (inv : s.Inv) (moved : s.manager.Moves s.clients m' f) : (s.after m' f).Inv where
  clients := inv.managerClients moved
  manager := by
    have sound := inv.managerSound moved
    cases f <;> exact sound
  shared := by
    have shared := inv.managerShared moved
    cases f <;> exact shared
  awaited := by
    have count := inv.managerAwaited moved
    cases f <;> exact count

theorem System.Inv.ofClient {i : Fin n} {a : ClientAction U} (inv : s.Inv) (moved : (s.clients i).Moves act a c' e) :
    System.Inv { s with clients := put s.clients i c' } := by
  obtain ⟨shared, probed⟩ := moved.shared (inv.clients i) (inv.shared i) Manager.duty_source (inv.manager.kind i)
  have sound := moved.sound (inv.clients i) (inv.shared i)
  refine ⟨?_, inv.manager, ?_, ?_⟩
  · intro j
    by_cases same : j = i
    · subst same
      simpa using sound
    · simpa [same] using inv.clients j
  · intro j
    by_cases same : j = i
    · subst same
      simpa using shared
    · simpa [same] using inv.shared j
  · exact (tally_put_same (p := fun c : Client V U => c.view.probed) probed).trans inv.awaited

theorem System.step_cases {a : Action n V U} (fired : s.step act a = some (s', e)) :
    (∃ i b c', a = .client i b ∧ (s.clients i).Moves act b c' e ∧ s' = { s with clients := put s.clients i c' }) ∨
      ∃ m' f, s.manager.Moves s.clients m' f ∧ s' = s.after m' f ∧ e = .silent := by
  cases a with
  | client i a =>
    obtain ⟨⟨c', e'⟩, moved, same⟩ := Option.map_eq_some_iff.mp fired
    cases same
    exact .inl ⟨i, a, c', rfl, Client.moves_of_step moved, rfl⟩
  | manager a =>
    obtain ⟨⟨m', f⟩, moved, same⟩ := Option.map_eq_some_iff.mp fired
    refine .inr ⟨m', f, Manager.moves_of_step moved, ?_⟩
    cases f <;> cases same <;> exact ⟨rfl, rfl⟩

theorem System.Inv.step {a : Action n V U} (inv : s.Inv) (fired : s.step act a = some (s', e)) : s'.Inv := by
  rcases System.step_cases fired with ⟨i, b, c', -, moved, rfl⟩ | ⟨m', f, moved, rfl, -⟩
  · exact inv.ofClient moved
  · exact inv.ofManager moved

theorem System.inv_onReset (v : V) : (System.onReset v : System n V U).Inv where
  clients i := ⟨rfl, rfl⟩
  manager := .of_idle rfl rfl (fun h => absurd rfl h) (fun w h => by cases h)
  shared i := by
    constructor <;>
      simp [System.onReset, Manager.duty, Manager.onReset, Manager.calm, Manager.sharers, Client.view, Client.onReset,
        Client.held, Client.asked, Client.waits, View.present, View.owns, View.carries, View.probed, View.replying,
        View.releasing, isValid, writePermission]
  awaited := tally_eq_zero.mpr fun i => rfl

variable {l l' : Log n V U} {v : V}

theorem Log.step_spec {a : Action n V U} (fired : l.step act a = some l') :
    ∃ e, l.system.step act a = some (l'.system, e) ∧ l'.events = l.events ++ [e] := by
  obtain ⟨⟨s', e⟩, stepped, same⟩ := Option.map_eq_some_iff.mp fired
  cases same
  exact ⟨e, stepped, rfl⟩

theorem Log.inv_of_run {ok : Log n V U → Action n V U → Prop} (run : Steps (Log.step act) ok (Log.onReset v) l) :
    l.system.Inv := by
  apply run.invariant (I := fun l => l.system.Inv) (System.inv_onReset v)
  intro t u a inv _ fired
  obtain ⟨e, stepped, -⟩ := Log.step_spec fired
  exact inv.step stepped

end LowRisc.Coherence
