import LowRisc.Coherence.Rights

/-! The steps of a cache keep what it and the manager know of each other. -/

set_option autoImplicit false

namespace LowRisc.Coherence

open LowRisc.Lib MESICoherence

variable {V U : Type} {act : U → V → V} {c c' : Client V U} {e : Event V U} {d : Duty}

inductive Client.Moves (act : U → V → V) (c : Client V U) : ClientAction U → Client V U → Event V U → Prop where
  | hit (a : Access U) (idle : c.mshr = .invalid) (found : isValid c.state = true)
      (dirty : a.cmd.isWrite = true → c.state = .clientExclusiveDirty) :
      Moves act c (.access a) (c.perform act a).1 (c.perform act a).2
  | upgrade (a : Access U) (idle : c.mshr = .invalid) (clean : c.state = .clientExclusiveClean) :
      Moves act c (.access a) { c with mshr := .metaWriteReq .clientExclusiveDirty (enqueued a) } .silent
  | miss (a : Access U) (idle : c.mshr = .invalid) (lacks : c.state = .clientShared)
      (intent : a.cmd.isWriteIntent = true) :
      Moves act c (.access a) { c with mshr := .refillReq ⟨a.cmd, enqueued a⟩ } .silent
  | missAbsent (a : Access U) (idle : c.mshr = .invalid) (absent : c.state = .clientInvalid) :
      Moves act c (.access a) { c with mshr := .beforeRefill ⟨a.cmd, enqueued a⟩ } .silent
  | joinBefore (a : Access U) (req : Request U) (before : c.mshr = .beforeRefill req) :
      Moves act c (.join a) { c with mshr := .beforeRefill { joined req a with
        cmd := if requiresAcquireOnSecondaryMiss req.cmd a.cmd then a.cmd else req.cmd } } .silent
  | joinReq (a : Access U) (req : Request U) (before : c.mshr = .refillReq req)
      (enough : requiresAcquireOnSecondaryMiss req.cmd a.cmd = false) :
      Moves act c (.join a) { c with mshr := .refillReq (joined req a) } .silent
  | joinResp (a : Access U) (req : Request U) (asked : c.mshr = .refillResp req)
      (enough : requiresAcquireOnSecondaryMiss req.cmd a.cmd = false) :
      Moves act c (.join a) { c with mshr := .refillResp (joined req a) } .silent
  | evictDirty (idle : c.mshr = .invalid) (dirty : c.state = .clientExclusiveDirty) :
      Moves act c .evict { c with mshr := .wbReq c.state } .silent
  | evictClean (idle : c.mshr = .invalid) (clean : c.state ≠ .clientExclusiveDirty) :
      Moves act c .evict { c with mshr := .metaClear } .silent
  | writeBack (old : ClientState) (victim : c.mshr = .wbReq old) :
      Moves act c .writeBack { c with release := some ⟨true, getReleaseType .flush old, c.data⟩, mshr := .wbResp } .silent
  | clearMeta (victim : c.mshr = .metaClear) :
      Moves act c .clearMeta { c with state := .clientInvalid, mshr := .invalid } .silent
  | victimCleared (req : Request U) (before : c.mshr = .beforeRefill req) :
      Moves act c .victimCleared { c with mshr := .refillReq req } .silent
  | sendAcquire (req : Request U) (before : c.mshr = .refillReq req) :
      Moves act c .sendAcquire { c with acquire := some ⟨getAcquireType req.cmd, req.cmd⟩, mshr := .refillResp req } .silent
  | takeAck (g : Grant V) (came : c.grant = some g) (victim : c.mshr = .wbResp) :
      Moves act c .takeGrant { c with mshr := .metaClear, fq := c.fq || g.g_type.requiresAck, grant := none } .silent
  | takeGrant (g : Grant V) (req : Request U) (came : c.grant = some g) (asked : c.mshr = .refillResp req) :
      Moves act c .takeGrant { c with
        data := if g.g_type.hasData then g.data else c.data
        mshr := .metaWriteReq (clientMetadataOnGrant g.g_type req.cmd) req.rpq
        fq := c.fq || g.g_type.requiresAck
        grant := none } .silent
  | writeMeta (coh : ClientState) (rpq : List (Access U)) (granted : c.mshr = .metaWriteReq coh rpq) :
      Moves act c .writeMeta { c with state := coh, mshr := .metaWriteResp rpq } .silent
  | metaWritten (rpq : List (Access U)) (granted : c.mshr = .metaWriteResp rpq) :
      Moves act c .metaWritten { c with mshr := .drainRpq rpq } .silent
  | replay (a : Access U) (rpq : List (Access U)) (granted : c.mshr = .drainRpq (a :: rpq)) :
      Moves act c .replay ({ c with mshr := .drainRpq rpq }.perform act a).1 (c.perform act a).2
  | drained (granted : c.mshr = .drainRpq []) : Moves act c .drained { c with mshr := .invalid } .silent
  | sendFinish (queued : c.fq = true) : Moves act c .sendFinish { c with finish := true, fq := false } .silent
  | takeProbe (p : ProbeType) (came : c.probe = some p)
      (ready : c.mshr = .invalid ∨ (∃ req, c.mshr = .refillReq req) ∨ ∃ req, c.mshr = .refillResp req) :
      Moves act c .takeProbe { c with
        release := some (c.reply p)
        state := if isValid c.state then clientMetadataOnProbe p c.state else c.state
        probe := none } .silent

theorem isValid_iff {s : ClientState} : isValid s = true ↔ s ≠ .clientInvalid := by
  simp [isValid]

/-- Where an access neither hits nor is granted by the state that is there, it misses. -/
theorem Client.moves_access {a : Access U} (idle : c.mshr = .invalid)
    (fired : (if c.hits a.cmd then some (c.perform act a)
      else if a.cmd.isPrefetch || a.cmd.isRead || a.cmd.isWrite then some ({ c with mshr := c.missed a }, .silent)
      else none) = some (c', e)) : c.Moves act (.access a) c' e := by
  split at fired
  · rename_i hit
    simp only [Client.hits, Bool.and_eq_true, beq_iff_eq] at hit
    obtain ⟨⟨valid, -⟩, same⟩ := hit
    have moved : c.Moves act (.access a) _ _ := .hit a idle valid fun write => by
      rw [same, clientMetadataOnHit, if_pos write]
    rwa [Option.some.inj fired] at moved
  · rename_i missed
    split at fired
    · cases fired
      by_cases valid : isValid c.state = true
      · by_cases enough : isHit a.cmd c.state = true
        -- the state allows the access but changes: a write to a clean block
        · have write : a.cmd.isWrite = true := by
            by_contra other
            simp [Client.hits, valid, enough, clientMetadataOnHit, other] at missed
          have clean : c.state = .clientExclusiveClean := by
            have intent := MemoryOp.isWriteIntent_of_isWrite write
            cases held : c.state <;>
              simp_all [isHit, writePermission, Client.hits, clientMetadataOnHit]
          have moved : c.Moves act (.access a) _ .silent := .upgrade a idle clean
          rwa [Client.missed, if_pos valid, if_pos enough, clientMetadataOnHit, if_pos write]
        -- the block is there without the permission: a write to a shared block
        · have intent : a.cmd.isWriteIntent = true := by
            by_contra read
            cases held : c.state <;> simp_all [isHit, isValid, readPermission]
          have lacks : c.state = .clientShared := by
            cases held : c.state <;> simp_all [isHit, isValid, writePermission]
          have moved : c.Moves act (.access a) _ .silent := .miss a idle lacks intent
          rwa [Client.missed, if_pos valid, if_neg enough]
      · have absent : c.state = .clientInvalid := by
          simpa [isValid] using valid
        have moved : c.Moves act (.access a) _ .silent := .missAbsent a idle absent
        rwa [Client.missed, if_neg valid]
    · cases fired

theorem Client.moves_join {a : Access U} (fired : c.step act (.join a) = some (c', e)) : c.Moves act (.join a) c' e := by
  simp only [Client.step] at fired
  split at fired
  · rename_i req before
    cases fired
    exact .joinBefore a req before
  · rename_i req before
    -- the second miss needs more than was asked for, so it has to wait
    split at fired
    · cases fired
    · rename_i enough
      simp only [Bool.or_eq_true, not_or, Bool.not_eq_true] at enough
      cases fired
      exact .joinReq a req before enough.1
  · rename_i req asked
    split at fired
    · cases fired
    · rename_i enough
      simp only [Bool.or_eq_true, not_or, Bool.not_eq_true] at enough
      cases fired
      exact .joinResp a req asked enough.1
  · cases fired

theorem Client.moves_evict (fired : c.step act .evict = some (c', e)) : c.Moves act .evict c' e := by
  simp only [Client.step] at fired
  split at fired
  · rename_i idle
    split at fired
    · cases fired
      by_cases dirty : c.state = .clientExclusiveDirty
      · have moved : c.Moves act .evict _ .silent := .evictDirty idle dirty
        rwa [if_pos (by simp [requiresReleaseOnCacheControl, dirtyData, dirty])]
      · have moved : c.Moves act .evict _ .silent := .evictClean idle dirty
        rwa [if_neg (by simp [requiresReleaseOnCacheControl, dirtyData, dirty])]
    · cases fired
  · cases fired

theorem Client.moves_of_step {a : ClientAction U} (fired : c.step act a = some (c', e)) : c.Moves act a c' e := by
  cases a with
  | join a => exact Client.moves_join fired
  | evict => exact Client.moves_evict fired
  | access a =>
    simp only [Client.step] at fired
    split at fired
    · exact Client.moves_access ‹_› fired
    · cases fired
  | sendFinish =>
    simp only [Client.step] at fired
    split at fired
    · rename_i ready
      cases fired
      exact .sendFinish ready
    · cases fired
  | replay =>
    simp only [Client.step] at fired
    split at fired
    · rename_i b rpq granted
      cases fired
      exact .replay b rpq granted
    · cases fired
  | takeGrant =>
    simp only [Client.step] at fired
    split at fired
    · rename_i g came victim
      cases fired
      exact .takeAck g came victim
    · rename_i g req came asked
      cases fired
      exact .takeGrant g req came asked
    · cases fired
  | takeProbe =>
    simp only [Client.step] at fired
    split at fired
    · rename_i p came ready
      cases fired
      exact .takeProbe p came (.inl ready)
    · rename_i p req came ready
      cases fired
      exact .takeProbe p came (.inr (.inl ⟨req, ready⟩))
    · rename_i p req came ready
      cases fired
      exact .takeProbe p came (.inr (.inr ⟨req, ready⟩))
    · cases fired
  -- the other actions have one guard and one effect each
  | writeBack | clearMeta | victimCleared | sendAcquire | writeMeta | metaWritten | drained =>
    simp only [Client.step] at fired
    split at fired
    · cases fired
      constructor
      assumption
    · cases fired

/-! The client's own invariant. -/

variable {a b : Access U} {req : Request U}

theorem mem_enqueued (inside : b ∈ Client.enqueued a) : b = a := by
  unfold Client.enqueued at inside
  split at inside
  · cases inside
  · exact List.mem_singleton.mp inside

theorem covered_enqueued : (⟨a.cmd, Client.enqueued a⟩ : Request U).Covered := by
  intro b inside intent
  rwa [mem_enqueued inside] at intent

theorem Request.Covered.joined (covered : req.Covered) (enough : requiresAcquireOnSecondaryMiss req.cmd a.cmd = false) :
    (Client.joined req a).Covered := by
  intro b inside intent
  rcases List.mem_append.mp inside with before | new
  · exact covered b before intent
  · rw [mem_enqueued new] at intent
    rwa [requiresAcquireOnSecondaryMiss, intent, Bool.true_and, Bool.not_eq_false'] at enough

theorem Request.Covered.raised (covered : req.Covered) :
    Request.Covered { Client.joined req a with
      cmd := if requiresAcquireOnSecondaryMiss req.cmd a.cmd then a.cmd else req.cmd } := by
  by_cases raise : requiresAcquireOnSecondaryMiss req.cmd a.cmd = true
  · intro b inside intent
    simp only [requiresAcquireOnSecondaryMiss, Bool.and_eq_true] at raise
    simp [requiresAcquireOnSecondaryMiss, raise]
  · intro b inside intent
    rw [if_neg raise]
    exact covered.joined (by simpa using raise) b inside intent

theorem Grant.Answers.custom {g : Grant V} (answers : g.Answers req) : g.g_type.isVoluntary = false := by
  rcases answers with exclusive | ⟨shared, -⟩
  · rw [exclusive]
    rfl
  · rw [shared]
    rfl

theorem Grant.Answers.permits {g : Grant V} (answers : g.Answers req) (covered : req.Covered) :
    Permits (clientMetadataOnGrant g.g_type req.cmd) req.rpq := by
  rcases answers with exclusive | ⟨granted, read⟩
  · cases write : req.cmd.isWrite <;> simp [Permits, clientMetadataOnGrant, writePermission, exclusive, write]
  · rw [granted]
    refine ⟨by simp [clientMetadataOnGrant], fun b inside intent => ?_⟩
    rw [covered b inside intent] at read
    cases read

theorem Client.Lacks.probed (lacks : c.Lacks req) (p : ProbeType) :
    (if isValid c.state then clientMetadataOnProbe p c.state else c.state) = .clientInvalid ∨
      (if isValid c.state then clientMetadataOnProbe p c.state else c.state) = .clientShared ∧
        req.cmd.isWriteIntent = true := by
  rcases lacks with absent | ⟨shared, intent⟩
  · left
    simp [isValid, absent]
  · rw [shared]
    cases p
    · exact .inl rfl
    · exact .inr ⟨rfl, intent⟩
    · exact .inr ⟨rfl, intent⟩

theorem Client.Moves.sound {a : ClientAction U} (moved : c.Moves act a c' e) (sound : c.Sound) (shared : Shared d c.view) : c'.Sound := by
  cases moved with
  | hit a idle found dirty => exact sound
  | upgrade a idle clean =>
    simp only [Client.Sound, idle] at sound
    exact ⟨sound, by simp, fun _ _ _ => rfl⟩
  | miss a idle lacks intent =>
    simp only [Client.Sound, idle] at sound
    exact ⟨sound, .inr ⟨lacks, intent⟩, covered_enqueued⟩
  | missAbsent a idle absent =>
    simp only [Client.Sound, idle] at sound
    exact ⟨sound, absent, covered_enqueued⟩
  | joinBefore a req before =>
    simp only [Client.Sound, before] at sound
    exact ⟨sound.1, sound.2.1, sound.2.2.raised⟩
  | joinReq a req before enough =>
    simp only [Client.Sound, before] at sound
    exact ⟨sound.1, sound.2.1, sound.2.2.joined enough⟩
  | joinResp a req asked enough =>
    simp only [Client.Sound, asked] at sound
    exact ⟨sound.1, sound.2.1.joined enough, sound.2.2⟩
  | evictDirty idle dirty =>
    simp only [Client.Sound, idle] at sound
    exact ⟨sound, dirty, dirty⟩
  | evictClean idle clean =>
    simp only [Client.Sound, idle] at sound
    exact sound
  | writeBack old victim =>
    simp only [Client.Sound, victim] at sound
    exact ⟨sound.1.1, by simp [sound.1.2]⟩
  | clearMeta victim =>
    simp only [Client.Sound, victim] at sound
    exact sound
  | victimCleared req before =>
    simp only [Client.Sound, before] at sound
    exact ⟨sound.1, .inl sound.2.1, sound.2.2⟩
  | sendAcquire req before =>
    simp only [Client.Sound, before] at sound
    exact ⟨sound.2.1, sound.2.2, by simp, by simp [sound.1.2]⟩
  | takeAck g came victim =>
    simp only [Client.Sound, victim] at sound
    exact ⟨sound.1, rfl⟩
  | takeGrant g req came asked =>
    simp only [Client.Sound, asked] at sound
    obtain ⟨-, covered, -, answers⟩ := sound
    have answered := answers g came
    -- the Acquire is gone, since its grant is here
    have gone : c.acquire = none := by
      have balance := shared.request
      simp only [Client.view, Client.asked, asked, came, Option.any_some, answered.custom, Bool.not_false, Bool.toNat_true,
        Option.isSome_some] at balance
      cases acquired : c.acquire with
      | none => rfl
      | some _ => simp [acquired] at balance
    exact ⟨⟨gone, rfl⟩, answered.permits covered⟩
  | writeMeta coh rpq granted =>
    simp only [Client.Sound, granted] at sound
    exact sound
  | metaWritten rpq granted =>
    simp only [Client.Sound, granted] at sound
    exact sound
  | replay a rpq granted =>
    simp only [Client.Sound, granted] at sound
    exact ⟨sound.1, sound.2.1, fun b inside => sound.2.2 b (.tail _ inside)⟩
  | drained granted =>
    simp only [Client.Sound, granted] at sound
    exact sound.1
  | sendFinish queued => exact sound
  | takeProbe p came ready =>
    rcases ready with idle | ⟨req, before⟩ | ⟨req, asked⟩
    · simp only [Client.Sound, idle] at sound ⊢
      exact sound
    · simp only [Client.Sound, before] at sound ⊢
      exact ⟨sound.1, sound.2.1.probed p, sound.2.2⟩
    · simp only [Client.Sound, asked] at sound ⊢
      exact ⟨sound.1.probed p, sound.2⟩

/-! What the manager sees of a step. -/

theorem Shared.upgrade {v : View V} (shared : Shared d v) (clean : v.held = .clientExclusiveClean) :
    Shared d { v with held := .clientExclusiveDirty } where
  __ := shared
  sharer _ := shared.sharer (by simp [View.present, isValid, clean])
  alone _ := shared.alone (by simp [View.owns, writePermission, clean])
  reply r came involuntary := by
    have fits := shared.reply r came involuntary
    rw [clean] at fits
    cases kind : d.kind <;> simp [Fits, kind, writePermission] at fits
  owner ungranted _ := shared.owner ungranted (by simp [View.owns, writePermission, clean])
  released releasing := by
    have present := shared.released releasing
    simp [View.present, isValid, clean] at present

theorem Shared.drop {v : View V} (shared : Shared d v) : Shared d { v with held := .clientInvalid } where
  __ := shared
  sharer present := shared.sharer (Bool.or_eq_true_iff.mpr (.inr present))
  alone owns := shared.alone (Bool.or_eq_true_iff.mpr (.inr owns))
  reply r came involuntary := by
    have fits := shared.reply r came involuntary
    cases kind : d.kind <;> simp_all [Fits, writePermission]
  owner ungranted owns := shared.owner ungranted (Bool.or_eq_true_iff.mpr (.inr owns))
  released releasing := (Bool.or_eq_false_iff.mp (shared.released releasing)).2

/-- An owner that does not wait has no release under way. -/
theorem Shared.silent {v : View V} (shared : Shared d v) (owner : writePermission v.held = true)
    (rests : v.waits = false) : v.release = none := by
  cases came : v.release with
  | none => rfl
  | some r =>
    have balance := shared.release
    rw [rests] at balance
    cases kind : r.voluntary with
    | true => simp [View.releasing, came, kind] at balance
    | false =>
      have fits := shared.reply r came kind
      cases asked : d.kind <;> simp_all [Fits, writePermission]

theorem Shared.writeBack {v : View V} {x : V} (shared : Shared d v) (dirty : v.held = .clientExclusiveDirty)
    (rests : v.waits = false) : v.release = none ∧
      Shared d { v with held := .clientInvalid, release := some ⟨true, .releaseInvalidateData, x⟩, waits := true } := by
  have silent := shared.silent (by rw [dirty]; rfl) rests
  have owns : v.owns = true := by simp [View.owns, writePermission, dirty]
  have present : v.present = true := by simp [View.present, isValid, dirty]
  refine ⟨silent, { shared with
    release := ?_
    sharer := fun _ => shared.sharer present
    alone := fun _ => shared.alone owns
    probe := fun p came => ⟨(shared.probe p came).1, rfl⟩
    probed := fun probed => shared.probed ?_
    voluntary := ?_
    reply := ?_
    taken := fun invalidates sharer => ?_
    owner := fun ungranted _ => ?_
    released := fun releasing => ?_ }⟩
  · have balance := shared.release
    rw [rests, View.releasing, silent] at balance
    simp at balance
    simp [View.releasing, balance]
  · simpa [View.probed, View.replying, silent] using probed
  · simp
  · simp
  · have before := shared.taken invalidates sharer
    simpa [View.probed, View.replying, silent] using before
  · have before := shared.owner ungranted owns
    simpa [View.probed, View.replying, silent] using before
  · have absent := shared.released releasing
    rw [present] at absent
    cases absent

theorem Shared.sendAcquire {v : View V} {t : AcquireType} (shared : Shared d v) (rests : v.asked = none) :
    Shared d { v with asked := some t, acquire := true } where
  __ := shared
  request := by
    have balance := shared.request
    rw [rests] at balance
    simp at balance
    simp [balance]
  asked t granting := by
    have before := shared.asked t granting
    rw [rests] at before
    cases before

theorem Shared.takeAck {v : View V} (shared : Shared d v) (came : v.ack = true) :
    Shared d { v with ack := false, waits := false } where
  __ := shared
  release := by
    have balance := shared.release
    have once := Bool.toNat_le v.waits
    rw [came, Bool.toNat_true] at balance
    have empty : v.releasing.toNat + d.acking.toNat + false.toNat = false.toNat := by
      rw [Bool.toNat_false]
      omega
    exact empty

theorem Shared.takeGrant {v : View V} (shared : Shared d v) (came : v.grant = true) :
    Shared d { v with grant := false, asked := none, fq := true } where
  __ := shared
  request := by
    have balance := shared.request
    rw [came] at balance
    have once := Bool.toNat_le v.asked.isSome
    simp only [Bool.toNat_true, Bool.toNat_false, Option.isSome_none] at balance ⊢
    omega
  asked t granting := by
    have balance := shared.request
    have once := Bool.toNat_le v.asked.isSome
    rw [came, granting] at balance
    simp only [Bool.toNat_true, Option.isSome_some] at balance
    omega
  finish := by
    have balance := shared.finish
    rw [came] at balance
    have once := Bool.toNat_le d.unfinished
    simp only [Bool.toNat_true, Bool.toNat_false] at balance ⊢
    omega

theorem Shared.sendFinish {v : View V} (shared : Shared d v) (queued : v.fq = true) :
    v.finish = false ∧ Shared d { v with fq := false, finish := true } := by
  have balance := shared.finish
  have once := Bool.toNat_le d.unfinished
  rw [queued, Bool.toNat_true] at balance
  have empty : v.finish = false := by
    cases sent : v.finish with
    | false => rfl
    | true =>
      rw [sent, Bool.toNat_true] at balance
      omega
  refine ⟨empty, { shared with finish := ?_ }⟩
  rw [empty] at balance
  simp only [Bool.toNat_true, Bool.toNat_false] at balance ⊢
  omega

theorem Shared.takeProbe {v : View V} {p : ProbeType} {x : V} (shared : Shared d v) (came : v.probe = some p)
    (rests : v.waits = false) (kind : d.kind ≠ .probeCopy) :
    v.release = none ∧
      Shared d { v with
        held := if isValid v.held then clientMetadataOnProbe p v.held else v.held
        release := some ⟨false, getReleaseTypeOnProbe p v.held, x⟩
        probe := none } := by
  obtain ⟨asked, quiet⟩ := shared.probe p came
  -- a client that does not wait has no voluntary release out, and it answers one probe at a time
  have silent : v.release = none := by
    cases sent : v.release with
    | none => rfl
    | some r =>
      have balance := shared.release
      rw [rests] at balance
      cases voluntary : r.voluntary with
      | true => simp [View.releasing, sent, voluntary] at balance
      | false => simp [View.replying, sent, voluntary] at quiet
  have probed : v.probed = true := by simp [View.probed, came]
  have balance := shared.release
  simp [View.releasing, silent] at balance
  have less : writePermission (if isValid v.held then clientMetadataOnProbe p v.held else v.held) = false := by
    rw [← asked] at kind
    cases p <;> cases held : v.held <;> simp_all [isValid, writePermission, clientMetadataOnProbe]
  have stays : isValid (if isValid v.held then clientMetadataOnProbe p v.held else v.held) = true →
      isValid v.held = true := by
    intro valid
    split at valid
    · assumption
    · assumption
  have dirty : (getReleaseTypeOnProbe p v.held).hasData = true → v.held = .clientExclusiveDirty := by
    intro data
    cases p <;> cases held : v.held <;>
      simp_all [getReleaseTypeOnProbe, getReleaseType, dirtyData, ReleaseType.hasData]
  refine ⟨silent, { shared with
    release := ?_
    sharer := fun present => shared.sharer ?_
    alone := fun owns => shared.alone ?_
    probe := by simp
    probed := fun _ => shared.probed probed
    voluntary := by simp
    reply := ?_
    taken := fun _ _ => .inr (.inr rfl)
    owner := fun _ _ => .inr rfl
    released := fun releasing => ?_ }⟩
  · simpa [View.releasing] using balance
  · simp only [View.present, View.carries, Option.any_some, Bool.or_eq_true] at present ⊢
    rcases present with valid | data
    · exact .inl (stays valid)
    · simp [dirty data, isValid]
  · simp only [View.owns, View.carries, Option.any_some, Bool.or_eq_true, less] at owns ⊢
    rcases owns with writes | data
    · cases writes
    · simp [dirty data, writePermission]
  · intro r same _
    cases Option.some.inj same
    rw [← asked] at kind ⊢
    cases p with
    | probeInvalidate => cases held : v.held <;> simp [Fits, getReleaseTypeOnProbe, getReleaseType, dirtyData, isValid,
        clientMetadataOnProbe]
    | probeDowngrade =>
      refine ⟨?_, less⟩
      cases held : v.held <;> simp [getReleaseTypeOnProbe, getReleaseType, dirtyData]
    | probeCopy => exact absurd rfl kind
  · have absent := shared.released releasing
    simp only [View.present, View.carries, silent, Option.any_none, Bool.or_false] at absent
    have gone : v.held = .clientInvalid := by simpa [isValid] using absent
    cases p <;> simp [View.present, View.carries, gone, isValid, getReleaseTypeOnProbe, getReleaseType, dirtyData,
      ReleaseType.hasData]

theorem Client.waits_of_ready
    (ready : c.mshr = .invalid ∨ (∃ req, c.mshr = .refillReq req) ∨ ∃ req, c.mshr = .refillResp req) :
    c.view.waits = false := by
  rcases ready with idle | ⟨req, before⟩ | ⟨req, asked⟩
  · simp [Client.view, Client.waits, idle]
  · simp [Client.view, Client.waits, before]
  · simp [Client.view, Client.waits, asked]

theorem Client.Sound.ungranted {p : ProbeType} (sound : c.Sound) (shared : Shared d c.view)
    (source : d.unfinished = true → d.self = true) (came : c.probe = some p) (req : Request U)
    (asked : c.mshr = .refillResp req) : c.grant = none := by
  simp only [Client.Sound, asked] at sound
  cases granted : c.grant with
  | none => rfl
  | some g =>
    have custom := (sound.2.2.2 g granted).custom
    have balance := shared.finish
    have once := Bool.toNat_le d.unfinished
    have own := (shared.probed (by simp [View.probed, Client.view, came])).2
    have grant : c.view.grant = true := by simp [Client.view, granted, custom]
    rw [grant, Bool.toNat_true] at balance
    have unfinished : d.unfinished = true := by
      rw [← Bool.toNat_eq_one]
      omega
    rw [source unfinished] at own
    cases own

/-! What the manager sees of the larger steps. -/

theorem Client.view_writeBack (victim : c.mshr = .wbReq .clientExclusiveDirty) :
    Client.view ({ c with
      release := some ⟨true, getReleaseType .flush .clientExclusiveDirty, c.data⟩
      mshr := .wbResp } : Client V U) =
      { c.view with
        held := .clientInvalid
        release := some ⟨true, .releaseInvalidateData, c.data⟩
        waits := true } := by
  simp [Client.view, Client.held, Client.asked, Client.waits, victim, getReleaseType, dirtyData]

theorem Client.view_takeAck {g : Grant V} (came : c.grant = some g) (victim : c.mshr = .wbResp)
    (voluntary : g.g_type = .builtIn .voluntaryAck) :
    Client.view ({ c with mshr := .metaClear, fq := c.fq || g.g_type.requiresAck, grant := none } : Client V U) =
      { c.view with ack := false, waits := false } := by
  simp [Client.view, Client.held, Client.asked, Client.waits, victim, came, voluntary, GrantType.isVoluntary,
    GrantType.requiresAck]

theorem Client.view_takeGrant {g : Grant V} {req : Request U} (came : c.grant = some g)
    (asked : c.mshr = .refillResp req) (custom : g.g_type.isVoluntary = false) :
    Client.view { c with
      data := if g.g_type.hasData then g.data else c.data
      mshr := .metaWriteReq (clientMetadataOnGrant g.g_type req.cmd) req.rpq
      fq := c.fq || g.g_type.requiresAck
      grant := none } = { c.view with grant := false, asked := none, fq := true } := by
  simp [Client.view, Client.held, Client.asked, Client.waits, asked, came, custom, GrantType.requiresAck,
    tlNetworkPreservesPointToPointOrdering]

theorem Client.view_takeProbe {p : ProbeType}
    (ready : c.mshr = .invalid ∨ (∃ req, c.mshr = .refillReq req) ∨ ∃ req, c.mshr = .refillResp req)
    (ungranted : ∀ req, c.mshr = .refillResp req → c.grant = none) :
    Client.view { c with
      release := some (c.reply p)
      state := if isValid c.state then clientMetadataOnProbe p c.state else c.state
      probe := none } =
      { c.view with
        held := if isValid c.view.held then clientMetadataOnProbe p c.view.held else c.view.held
        release := some ⟨false, getReleaseTypeOnProbe p c.view.held, c.data⟩
        probe := none } := by
  rcases ready with idle | ⟨req, before⟩ | ⟨req, asked⟩
  · simp [Client.view, Client.held, Client.asked, Client.waits, Client.reply, idle]
  · simp [Client.view, Client.held, Client.asked, Client.waits, Client.reply, before]
  · simp [Client.view, Client.held, Client.asked, Client.waits, Client.reply, asked, ungranted req asked]

theorem Client.Moves.shared {a : ClientAction U} (moved : c.Moves act a c' e) (sound : c.Sound) (shared : Shared d c.view)
    (source : d.unfinished = true → d.self = true) (kind : d.kind ≠ .probeCopy) :
    Shared d c'.view ∧ c'.view.probed = c.view.probed := by
  -- most actions do not change what the manager sees
  have still : c'.view = c.view → Shared d c'.view ∧ c'.view.probed = c.view.probed := by
    intro same
    rw [same]
    exact ⟨shared, rfl⟩
  cases moved with
  | hit a idle found dirty => exact still rfl
  | upgrade a idle clean =>
    have held : c.view.held = .clientExclusiveClean := by simp [Client.view, Client.held, idle, clean]
    have view : Client.view { c with mshr := .metaWriteReq .clientExclusiveDirty (enqueued a) } =
        { c.view with held := .clientExclusiveDirty } := by
      simp [Client.view, Client.held, Client.asked, Client.waits, idle]
    rw [view]
    exact ⟨shared.upgrade held, rfl⟩
  | miss a idle lacks intent => exact still (by simp [Client.view, Client.held, Client.asked, Client.waits, idle])
  | missAbsent a idle absent => exact still (by simp [Client.view, Client.held, Client.asked, Client.waits, idle])
  | joinBefore a req before => exact still (by simp [Client.view, Client.held, Client.asked, Client.waits, before])
  | joinReq a req before enough => exact still (by simp [Client.view, Client.held, Client.asked, Client.waits, before])
  | joinResp a req asked enough =>
    exact still (by simp [Client.view, Client.held, Client.asked, Client.waits, asked, Client.joined])
  | evictDirty idle dirty => exact still (by simp [Client.view, Client.held, Client.asked, Client.waits, idle])
  | evictClean idle clean =>
    have view : Client.view ({ c with mshr := .metaClear } : Client V U) = { c.view with held := .clientInvalid } := by
      simp [Client.view, Client.held, Client.asked, Client.waits, idle]
    rw [view]
    exact ⟨shared.drop, rfl⟩
  | writeBack old victim =>
    -- only a dirty victim is written back
    simp only [Client.Sound, victim] at sound
    obtain ⟨-, dirty, rfl⟩ := sound
    have held : c.view.held = .clientExclusiveDirty := by simp [Client.view, Client.held, victim, dirty]
    have rests : c.view.waits = false := by simp [Client.view, Client.waits, victim]
    obtain ⟨silent, sent⟩ := shared.writeBack (x := c.data) held rests
    rw [Client.view_writeBack victim]
    exact ⟨sent, by simp [View.probed, View.replying, silent]⟩
  | clearMeta victim => exact still (by simp [Client.view, Client.held, Client.asked, Client.waits, victim])
  | victimCleared req before => exact still (by simp [Client.view, Client.held, Client.asked, Client.waits, before])
  | sendAcquire req before =>
    simp only [Client.Sound, before] at sound
    have rests : c.view.asked = none := by simp [Client.view, Client.asked, before]
    have view : Client.view { c with acquire := some ⟨getAcquireType req.cmd, req.cmd⟩, mshr := .refillResp req } =
        { c.view with asked := some (getAcquireType req.cmd), acquire := true } := by
      simp [Client.view, Client.held, Client.asked, Client.waits, before, sound.1.2]
    rw [view]
    exact ⟨shared.sendAcquire rests, rfl⟩
  | takeAck g came victim =>
    simp only [Client.Sound, victim] at sound
    have voluntary := sound.2 g came
    have ack : c.view.ack = true := by simp [Client.view, came, voluntary, GrantType.isVoluntary]
    rw [Client.view_takeAck came victim voluntary]
    exact ⟨shared.takeAck ack, rfl⟩
  | takeGrant g req came asked =>
    simp only [Client.Sound, asked] at sound
    have custom := (sound.2.2.2 g came).custom
    have grant : c.view.grant = true := by simp [Client.view, came, custom]
    rw [Client.view_takeGrant came asked custom]
    exact ⟨shared.takeGrant grant, rfl⟩
  | writeMeta coh rpq granted => exact still (by simp [Client.view, Client.held, Client.asked, Client.waits, granted])
  | metaWritten rpq granted => exact still (by simp [Client.view, Client.held, Client.asked, Client.waits, granted])
  | replay a rpq granted =>
    exact still (by simp [Client.view, Client.held, Client.asked, Client.waits, granted, Client.perform])
  | drained granted => exact still (by simp [Client.view, Client.held, Client.asked, Client.waits, granted])
  | sendFinish queued =>
    have view : Client.view { c with finish := true, fq := false } = { c.view with fq := false, finish := true } := rfl
    rw [view]
    exact ⟨(shared.sendFinish queued).2, rfl⟩
  | takeProbe p came ready =>
    -- a probe that overtakes the grant would change a copy that is not there yet
    have ungranted := sound.ungranted shared source came
    obtain ⟨silent, replied⟩ := shared.takeProbe (x := c.data) (p := p) came (Client.waits_of_ready ready) kind
    rw [Client.view_takeProbe ready ungranted]
    exact ⟨replied, by simp [View.probed, View.replying, Client.view, came]⟩

end LowRisc.Coherence
