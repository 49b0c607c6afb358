import LowRisc.Coherence.Values

/-! The steps of a cache keep its copy current. -/

set_option autoImplicit false

namespace LowRisc.Coherence

open LowRisc.Lib MESICoherence

variable {V U : Type} {act : U → V → V} {c c' : Client V U} {a : ClientAction U} {e : Event V U} {d : Duty} {v : V}

section
variable {b : Access U}

theorem Client.perform_read {r : V} (read : (c.perform act b).2.read = some r) : r = c.data := by
  simp only [Client.perform, Option.ite_none_right_eq_some] at read
  exact (Option.some.inj read.2).symm

theorem Client.perform_write (write : (c.perform act b).2.write ≠ none) : b.cmd.isWrite = true := by
  by_contra other
  simp [Client.perform, Access.writes, other] at write

theorem Client.perform_data : (c.perform act b).1 = { c with data := (c.perform act b).2.left act c.data } := by
  cases writes : b.writes <;> simp [Client.perform, Event.left, writes]

end

/-- An access reads the copy, and changes it only where the client owns the block. -/
theorem Client.Moves.event (moved : c.Moves act a c' e) (sound : c.Sound) : e = .silent ∨
    (∀ r, e.read = some r → r = c.copy) ∧ c.held ≠ .clientInvalid ∧
      (e.write ≠ none → writePermission c.held = true ∧ (c.Ready → c.held = .clientExclusiveDirty)) := by
  cases moved with
  | hit b idle found dirty =>
    have copy : c.copy = c.data := by simp [Client.copy, idle]
    have held : c.held = c.state := by simp [Client.held, idle]
    rw [copy, held]
    refine .inr ⟨fun r => Client.perform_read, isValid_iff.mp found, fun write => ?_⟩
    rw [dirty (Client.perform_write write)]
    exact ⟨rfl, fun _ => rfl⟩
  | replay b rpq granted =>
    have copy : c.copy = c.data := by simp [Client.copy, granted]
    have held : c.held = c.state := by simp [Client.held, granted]
    rw [copy, held]
    simp only [Client.Sound, granted] at sound
    obtain ⟨-, valid, permits⟩ := sound
    refine .inr ⟨fun r => Client.perform_read, valid, fun write => ?_⟩
    have writes := Client.perform_write write
    refine ⟨permits b (.head _) (MemoryOp.isWriteIntent_of_isWrite writes), fun ready => ?_⟩
    simp only [Client.Ready, granted] at ready
    exact ready ⟨b, .head _, writes⟩
  | _ => exact .inl rfl

/-! The writes of the replay queue. -/

section
variable {b : Access U} {req : Request U} {rpq : List (Access U)}

theorem hasWrites_enqueued (writes : Client.HasWrites (Client.enqueued b)) : b.cmd.isWrite = true := by
  obtain ⟨x, inside, write⟩ := writes
  rwa [mem_enqueued inside] at write

theorem hasWrites_joined (writes : Client.HasWrites (Client.joined req b).rpq) :
    Client.HasWrites req.rpq ∨ b.cmd.isWrite = true := by
  obtain ⟨x, inside, write⟩ := writes
  rcases List.mem_append.mp inside with before | new
  · exact .inl ⟨x, before, write⟩
  · rw [mem_enqueued new] at write
    exact .inr write

theorem isWrite_of_joined (enough : requiresAcquireOnSecondaryMiss req.cmd b.cmd = false)
    (calm : (b.cmd.isWrite && req.cmd.isWriteIntent && !req.cmd.isWrite) = false) (write : b.cmd.isWrite = true) :
    req.cmd.isWrite = true := by
  simp only [requiresAcquireOnSecondaryMiss, MemoryOp.isWriteIntent_of_isWrite write, Bool.true_and,
    Bool.not_eq_false'] at enough
  simpa [write, enough] using calm

theorem Grant.Answers.dirty {g : Grant V} (answers : g.Answers req) (write : req.cmd.isWrite = true) :
    clientMetadataOnGrant g.g_type req.cmd = .clientExclusiveDirty := by
  rcases answers with exclusive | ⟨-, read⟩
  · simp [clientMetadataOnGrant, exclusive, write]
  · rw [MemoryOp.isWriteIntent_of_isWrite write] at read
    cases read

end

theorem Client.Moves.ready (moved : c.Moves act a c' e) (sound : c.Sound) (calm : c.spoils a = false)
    (ready : c.Ready) : c'.Ready := by
  cases moved with
  | hit b idle found dirty => simp [Client.Ready, Client.perform, idle]
  | upgrade b idle clean => exact fun _ => rfl
  | miss b idle lacks intent => exact hasWrites_enqueued
  | missAbsent b idle absent => exact hasWrites_enqueued
  | joinBefore b req before =>
    simp only [Client.Ready, before] at ready
    simp only [Client.spoils, before] at calm
    intro writes
    -- a write among the joined accesses was there before or is the new one
    rcases hasWrites_joined writes with queued | write
    · simp [requiresAcquireOnSecondaryMiss, MemoryOp.isWriteIntent_of_isWrite (ready queued), ready queued]
    · cases raise : requiresAcquireOnSecondaryMiss req.cmd b.cmd with
      | true => exact write
      | false => exact isWrite_of_joined raise calm write
  | joinReq b req before enough =>
    simp only [Client.Ready, before] at ready
    simp only [Client.spoils, before] at calm
    intro writes
    rcases hasWrites_joined writes with queued | write
    · exact ready queued
    · exact isWrite_of_joined enough calm write
  | joinResp b req asked enough =>
    simp only [Client.Ready, asked] at ready
    simp only [Client.spoils, asked] at calm
    intro writes
    rcases hasWrites_joined writes with queued | write
    · exact ready queued
    · exact isWrite_of_joined enough calm write
  | victimCleared req before | sendAcquire req before =>
    simp only [Client.Ready, before] at ready
    exact ready
  | takeGrant g req came asked =>
    simp only [Client.Ready, asked] at ready
    simp only [Client.Sound, asked] at sound
    exact fun writes => (sound.2.2.2 g came).dirty (ready writes)
  | writeMeta coh rpq granted | metaWritten rpq granted =>
    simp only [Client.Ready, granted] at ready
    exact ready
  | replay b rpq granted =>
    -- the write that is replayed may be the last, so only what is left counts
    simp only [Client.Ready, granted] at ready
    rintro ⟨x, inside, write⟩
    exact ready ⟨x, .tail _ inside, write⟩
  | sendFinish queued => exact ready
  | takeProbe p came ready' =>
    rcases ready' with idle | ⟨req, before⟩ | ⟨req, asked⟩
    · simp [Client.Ready, idle]
    · simp only [Client.Ready, before] at ready ⊢
      exact ready
    · simp only [Client.Ready, asked] at ready ⊢
      exact ready
  | evictDirty | evictClean | writeBack | clearMeta | takeAck | drained => trivial

/-! The copy. -/

theorem Client.Moves.held_copy (moved : c.Moves act a c' e) (sound : c.Sound) (shared : Shared d c.view)
    (source : d.unfinished = true → d.self = true) (valid : c'.held ≠ .clientInvalid) :
    c.held ≠ .clientInvalid ∧ c'.copy = e.left act c.copy := by
  cases moved with
  | hit b idle found dirty =>
    rw [Client.perform_data] at valid ⊢
    exact ⟨by simpa [Client.held, idle] using valid, by simp [Client.copy, idle]⟩
  | upgrade b idle clean => exact ⟨by simp [Client.held, idle, clean], by simp [Client.copy, idle]⟩
  | miss b idle | missAbsent b idle | evictDirty idle =>
    exact ⟨by simpa [Client.held, idle] using valid, by simp [Client.copy, idle]⟩
  | joinBefore b req before | joinReq b req before | victimCleared req before =>
    exact ⟨by simpa [Client.held, before] using valid, by simp [Client.copy, before]⟩
  | joinResp b req asked =>
    refine ⟨by simpa [Client.held, asked, Client.joined] using valid, ?_⟩
    cases came : c.grant <;> simp [Client.copy, asked, came]
  | evictClean idle clean => simp [Client.held] at valid
  | writeBack old victim => simp [Client.held] at valid
  | clearMeta victim => simp [Client.held] at valid
  | takeAck g came victim => simp [Client.held] at valid
  | sendAcquire req before =>
    simp only [Client.Sound, before] at sound
    exact ⟨by simpa [Client.held, before, sound.1.2] using valid, by simp [Client.copy, before, sound.1.2]⟩
  | takeGrant g req came asked =>
    exact ⟨by simpa [Client.held, asked, came] using valid, by simp [Client.copy, asked, came]⟩
  | writeMeta coh rpq granted | metaWritten rpq granted | drained granted =>
    exact ⟨by simpa [Client.held, granted] using valid, by simp [Client.copy, granted]⟩
  | replay b rpq granted =>
    have same : ({ c with mshr := .drainRpq rpq }.perform act b).1 =
        { c with mshr := .drainRpq rpq, data := (c.perform act b).2.left act c.data } := Client.perform_data
    rw [same] at valid ⊢
    exact ⟨by simpa [Client.held, granted] using valid, by simp [Client.copy, granted]⟩
  | sendFinish queued => exact ⟨valid, rfl⟩
  | takeProbe p came ready =>
    -- no probe gives a copy to a client that has none
    have stays : ∀ {x : ClientState}, (if isValid x then clientMetadataOnProbe p x else x) ≠ .clientInvalid →
        x ≠ .clientInvalid := by
      rintro x kept rfl
      exact kept rfl
    have ungranted := sound.ungranted shared source came
    rcases ready with idle | ⟨req, before⟩ | ⟨req, asked⟩
    · simp only [Client.held, idle] at valid ⊢
      exact ⟨stays valid, by simp [Client.copy, idle]⟩
    · simp only [Client.held, before] at valid ⊢
      exact ⟨stays valid, by simp [Client.copy, before]⟩
    · simp only [Client.held, asked, ungranted req asked] at valid ⊢
      exact ⟨stays valid, by simp [Client.copy, asked, ungranted req asked]⟩

/-! Releases. -/

/-- What is released with data is the copy of an owner. -/
theorem Client.Moves.release (moved : c.Moves act a c' e) (sound : c.Sound) (r : Release V) (sent : c'.release = some r)
    (data : r.r_type.hasData = true) :
    c.release = some r ∨ c.held ≠ .clientInvalid ∧ r.data = c.copy ∧ e = .silent := by
  cases moved with
  | writeBack old victim =>
    simp only [Client.Sound, victim] at sound
    cases Option.some.inj sent
    exact .inr ⟨by simp [Client.held, victim, sound.2.1], by simp [Client.copy, victim], rfl⟩
  | takeProbe p came ready =>
    cases Option.some.inj sent
    -- data go out only with a reply of an owner whose block is dirty
    have dirty : c.state = .clientExclusiveDirty := by
      cases p <;> cases state : c.state <;>
        simp_all [Client.reply, getReleaseTypeOnProbe, getReleaseType, dirtyData, ReleaseType.hasData]
    rcases ready with idle | ⟨req, before⟩ | ⟨req, asked⟩
    · exact .inr ⟨by simp [Client.held, idle, dirty], by simp [Client.copy, idle, Client.reply], rfl⟩
    · exact .inr ⟨by simp [Client.held, before, dirty], by simp [Client.copy, before, Client.reply], rfl⟩
    · simp only [Client.Sound, asked] at sound
      -- a client that waits for a grant has no dirty copy
      rcases sound.1 with absent | ⟨shared, -⟩
      · rw [dirty] at absent
        cases absent
      · rw [dirty] at shared
        cases shared
  | _ => exact .inl sent

theorem Client.Moves.dirty (moved : c.Moves act a c' e) (sound : c.Sound) (shared : Shared d c.view)
    (source : d.unfinished = true → d.self = true) (kind : d.kind ≠ .probeCopy) (dirty : c.Dirty) : c'.Dirty := by
  have same : c'.held = c.held → c'.release = c.release → c'.Dirty := by
    intro held release
    unfold Client.Dirty View.carries Client.view at dirty ⊢
    rw [held, release]
    exact dirty
  cases moved with
  | hit b idle => exact same rfl rfl
  | upgrade b idle clean => exact .inl rfl
  | miss b idle | missAbsent b idle | evictDirty idle => exact same (by simp [Client.held, idle]) rfl
  | joinBefore b req before | joinReq b req before | victimCleared req before =>
    exact same (by simp [Client.held, before]) rfl
  | joinResp b req asked => exact same (by simp [Client.held, asked, Client.joined]) rfl
  | evictClean idle clean =>
    rcases dirty with held | carries
    · exact absurd (by simpa [Client.view, Client.held, idle] using held) clean
    · exact .inr carries
  | writeBack old victim =>
    simp only [Client.Sound, victim] at sound
    obtain ⟨-, -, rfl⟩ := sound
    exact .inr rfl
  | clearMeta victim => exact same (by simp [Client.held, victim]) rfl
  | takeAck g came victim => exact same (by simp [Client.held, victim]) rfl
  | sendAcquire req before =>
    simp only [Client.Sound, before] at sound
    exact same (by simp [Client.held, before, sound.1.2]) rfl
  | takeGrant g req came asked => exact same (by simp [Client.held, asked, came]) rfl
  | writeMeta coh rpq granted | metaWritten rpq granted | drained granted =>
    exact same (by simp [Client.held, granted]) rfl
  | replay b rpq granted =>
    exact same (by simp [Client.held, granted, Client.perform]) rfl
  | sendFinish queued => exact same rfl rfl
  | takeProbe p came ready =>
    obtain ⟨silent, -⟩ := shared.takeProbe (x := c.data) (p := p) came (Client.waits_of_ready ready) kind
    have asked := (shared.probe p came).1
    rcases dirty with held | carries
    -- the data move from the copy into the reply
    · right
      have state : c.state = .clientExclusiveDirty := by
        simp only [Client.view] at held
        rcases ready with idle | ⟨req, before⟩ | ⟨req, asked⟩
        · simpa [Client.held, idle] using held
        · simpa [Client.held, before] using held
        · simpa [Client.held, asked, sound.ungranted shared source came req asked] using held
      rw [← asked] at kind
      cases p with
      | probeCopy => exact absurd rfl kind
      | probeInvalidate | probeDowngrade =>
        simp [Client.view, View.carries, Client.reply, getReleaseTypeOnProbe, getReleaseType, dirtyData, state,
          ReleaseType.hasData]
    · simp [View.carries, silent] at carries

theorem Client.Moves.current (moved : c.Moves act a c' e) (sound : c.Sound) (shared : Shared d c.view)
    (source : d.unfinished = true → d.self = true) (calm : c.spoils a = false) (current : c.Current v) :
    c'.Current (e.left act v) where
  copy valid := by
    obtain ⟨before, copy⟩ := moved.held_copy sound shared source valid
    rw [copy, current.copy before]
  release r sent data := by
    rcases moved.release sound r sent data with same | ⟨valid, copy, rfl⟩
    · rcases moved.event sound with rfl | ⟨-, valid, owner⟩
      · exact current.release r same data
      · cases write : e.write with
        | none => simpa [Event.left, write] using current.release r same data
        | some u =>
          have rests : c.view.waits = false := by
            cases waits : c.view.waits with
            | false => rfl
            | true => exact absurd (Client.held_of_waits waits) valid
          have silent := shared.silent (owner (by simp [write])).1 rests
          rw [show c.release = none from silent] at same
          cases same
    · rw [copy]
      exact current.copy valid
  ready := moved.ready sound calm current.ready

end LowRisc.Coherence
