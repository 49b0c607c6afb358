import LowRisc.Coherence.Handshake
import LowRisc.Coherence.ManagerMoves

/-! Every step of the manager keeps the manager's own invariant. -/

set_option autoImplicit false

namespace LowRisc.Coherence

open LowRisc.Lib MESICoherence

variable {n : Nat} {V U : Type} {s : System n V U} {m' : Manager n V} {f : Option (Fin n × Effect V)}

/-- A voluntary release that no other unit takes finds the block in the cache. -/
theorem System.Inv.resident (inv : s.Inv) {src : Fin n} {r : Release V} (came : (s.clients src).release = some r)
    (voluntary : r.voluntary = true) (acq : ∀ x, s.manager.acq = some x → x.state = .wbReq)
    (evict : ∀ w, s.manager.evict ≠ .wb w) :
    s.manager.acq = none ∧ (∃ coh, s.manager.resident = some coh) ∧
      (s.manager.evict = .none ∨ ∃ old, s.manager.evict = .wbReq old ∧ old.sharers ≠ 0#n) := by
  have shared := inv.shared src
  have present := (shared.voluntary_waits came voluntary).2.2.2.2
  have sharer := shared.sharer present
  have none : s.manager.acq = none := by
    -- a tracker that waits for the writeback has an empty directory, but this client is a sharer
    cases taken : s.manager.acq with
    | none => rfl
    | some x =>
      have sound := (inv.manager.acq x taken).2.2
      simp only [Xact.Sound, acq x taken, Xact.Fresh] at sound
      simp [Manager.duty, taken, Manager.tracked, sound] at sharer
  cases unit : s.manager.evict with
  | none =>
    refine ⟨none, ?_, .inl rfl⟩
    cases found : s.manager.resident with
    | none => simp [Manager.duty, none, unit, Manager.calm, Manager.sharers, found] at sharer
    | some coh => exact ⟨coh, rfl⟩
  | wbReq old =>
    have here := inv.manager.evict (by simp [unit])
    refine ⟨none, Option.isSome_iff_exists.mp here, .inr ⟨old, rfl, ?_⟩⟩
    intro empty
    simp [Manager.duty, none, unit, Manager.calm, empty] at sharer
  | wb w => exact absurd unit (evict w)
  -- the block is gone while the line is refilled, so it has no sharer
  | refill => simp [Manager.duty, none, unit, Manager.calm] at sharer

theorem Manager.Sound.evicting {m : Manager n V} (sound : m.Sound) (unit : m.evict ≠ .none) : m.acq = none := by
  cases taken : m.acq with
  | none => rfl
  | some x => exact absurd (sound.acq x taken).2.1 unit

theorem Manager.Sound.acq_of_vol {m : Manager n V} {v : VolXact n V} (sound : m.Sound) (vol : m.vol = some v) :
    m.acq = none := by
  cases taken : m.acq with
  | none => rfl
  | some x =>
    have free := (sound.acq x taken).1
    rw [vol] at free
    cases free

theorem Manager.Sound.vol_of_wb {m : Manager n V} (sound : m.Sound) (none : m.evict ≠ .none)
    (past : ∀ old, m.evict ≠ .wbReq old) : m.vol = .none := by
  cases taken : m.vol with
  | none => rfl
  | some v =>
    obtain ⟨-, -, unit | ⟨old, unit, -⟩⟩ := sound.vol v taken
    · exact absurd unit none
    · exact absurd unit (past old)

theorem Manager.Sound.setAcq {m : Manager n V} {x x' : Xact n V} {d : V} (sound : m.Sound) (acq : m.acq = some x)
    (next : x'.Sound m.resident) : Manager.Sound { m with acq := some x', array := d } := by
  obtain ⟨vol, evict, -⟩ := sound.acq x acq
  refine ⟨?_, by simp [vol], by simp [evict], by simp [evict]⟩
  intro y taken
  cases Option.some.inj taken
  exact ⟨vol, evict, next⟩

theorem Manager.Sound.of_idle {m : Manager n V} (acq : m.acq = none) (vol : m.vol = none)
    (evict : m.evict ≠ .none → m.resident.isSome = true) (wb : ∀ w, m.evict = .wb w → w.Sound) : m.Sound :=
  ⟨by simp [acq], by simp [vol], evict, wb⟩

theorem Manager.Sound.setWb {m : Manager n V} {w w' : Writeback n V} {d : V} (sound : m.Sound)
    (evict : m.evict = .wb w) (next : w'.Sound) : Manager.Sound { m with evict := .wb w', outer := d } := by
  have acq := sound.evicting (by simp [evict])
  have vol := sound.vol_of_wb (by simp [evict]) (by simp [evict])
  refine .of_idle acq vol (fun _ => sound.evict (by simp [evict])) ?_
  intro y taken
  cases taken
  exact next

theorem Xact.Sound.merge {x : Xact n V} {resident : Option (Meta n)} {r : Release V} {src : Fin n} {k : Nat}
    {vol : Option (Fin n)} (sound : x.Sound resident)
    (here : x.state = .innerProbe ∨ k = x.pending_irels ∧ x.pending_coh.sharers ≠ 0#n) :
    Xact.Sound { x.mergeRelease r src with pending_irels := k, pending_vol_ignt := vol } resident := by
  unfold Xact.Sound at sound ⊢
  simp only [Xact.mergeRelease, Xact.updatePendingCoh]
  cases state : x.state <;> simp only [state, Xact.Fresh] at sound here ⊢ <;> grind

theorem Xact.Sound.written {x : Xact n V} {resident : Option (Meta n)} (sound : x.Sound resident) :
    (if x.pending_meta_write then some x.pending_coh else resident) = some x.pending_coh := by
  split
  · rfl
  · rename_i unchanged
    exact sound.2.1 (by simpa using unchanged)

/-! What the tracker does on its own. -/

section Tracker

variable {x : Xact n V} {resident : Option (Meta n)}

theorem Xact.sound_start {src : Fin n} {a : Acquire} {writeback : Bool}
    (custom : ∃ cmd : MemoryOp, a.a_type = getAcquireType cmd) :
    Xact.Sound (Xact.start src a resident writeback : Xact n V) resident := by
  cases found : resident with
  | none =>
    cases writeback <;> simp [Xact.start, Xact.Sound, Xact.Fresh, Meta.onReset, custom]
  | some coh =>
    cases probes : requiresProbes a.a_type coh.sharers <;> simp [Xact.start, Xact.Sound, probes, custom]
    all_goals grind

theorem Xact.Sound.takeFinish (sound : x.Sound resident) (busy : x.state = .busy) :
    Xact.Sound { x with pending_ifins := false } resident := by
  simp only [Xact.Sound, busy, Xact.Fresh] at sound ⊢
  grind

theorem Xact.Sound.wbRequested (sound : x.Sound resident) (waiting : x.state = .wbReq) :
    Xact.Sound { x with state := .wbResp } resident := by
  simpa only [Xact.Sound, waiting, Xact.Fresh] using sound

theorem Xact.Sound.wbDone (sound : x.Sound resident) (waiting : x.state = .wbResp) :
    Xact.Sound { x with state := .outerAcquire } resident := by
  simpa only [Xact.Sound, waiting, Xact.Fresh] using sound

theorem Xact.Sound.sendProbe {iprbs : BitVec n} (sound : x.Sound resident) (probing : x.state = .innerProbe) :
    Xact.Sound { x with pending_iprbs := iprbs, pending_irels := x.pending_irels + 1 } resident := by
  simpa only [Xact.Sound, probing] using sound

theorem Xact.Sound.probesDone (sound : x.Sound resident) (probing : x.state = .innerProbe)
    (sent : x.pending_iprbs = 0#n) (answered : x.pending_irels = 0) : Xact.Sound { x with state := .busy } resident := by
  simp only [Xact.Sound, probing] at sound ⊢
  grind

theorem Xact.Sound.outerAcquire (sound : x.Sound resident) (missing : x.state = .outerAcquire) :
    Xact.Sound { x with state := .busy, pending_ognt := true } resident := by
  simp only [Xact.Sound, missing, Xact.Fresh] at sound ⊢
  grind

theorem Xact.Sound.outerGrant {m : Manager n V} (sound : x.Sound m.resident) (busy : x.state = .busy)
    (waiting : x.pending_ognt = true) : Xact.Sound (m.refilled x) m.resident := by
  simp only [Xact.Sound, busy, waiting, Xact.Fresh, Manager.refilled, Xact.updatePendingCoh] at sound ⊢
  grind

theorem Xact.Sound.readArray {d : V} (sound : x.Sound resident) (busy : x.state = .busy) (here : x.pending_ognt = false) :
    Xact.Sound { x with data_buffer := some d } resident := by
  simp only [Xact.Sound, busy, here, Xact.Fresh] at sound ⊢
  grind

theorem Xact.Sound.writeArray (sound : x.Sound resident) (busy : x.state = .busy) (here : x.pending_ognt = false) :
    Xact.Sound { x with pending_writes := false } resident := by
  simp only [Xact.Sound, busy, here, Xact.Fresh] at sound ⊢
  grind

theorem Xact.Sound.ackVoluntary (sound : x.Sound resident) :
    Xact.Sound { x with pending_vol_ignt := none } resident := by
  simp only [Xact.Sound, Xact.Fresh] at sound ⊢
  cases state : x.state <;> simp only [state] at sound ⊢ <;> grind

theorem Xact.Sound.sendGrant {d : V} {g : GrantType} (sound : x.Sound resident) (busy : x.state = .busy)
    (buffered : x.data_buffer = some d) :
    Xact.Sound { x.updatePendingCoh (x.pending_coh.onGrant g x.src) with
      pending_ignt := false
      pending_ifins := g.requiresAck } resident := by
  simp only [Xact.Sound, busy, Xact.Fresh, Xact.updatePendingCoh] at sound ⊢
  grind

end Tracker

theorem Writeback.sound_start (old : Meta n) : (Writeback.start old : Writeback n V).Sound := by
  intro past
  simp only [Writeback.start] at past ⊢
  split <;> simp_all

theorem System.Inv.managerSound (inv : s.Inv) (moved : s.manager.Moves s.clients m' f) : m'.Sound := by
  have sound := inv.manager
  cases moved with
  | acceptAcquire src a writeback asked acq vol evict =>
    refine ⟨?_, by simp [vol], by simp [evict], by simp [evict]⟩
    rintro x taken
    cases Option.some.inj taken
    -- a client asks with the type of an access, so the tracker never sees another one
    obtain ⟨req, -, type⟩ := (inv.clients src).asking asked
    exact ⟨vol, evict, Xact.sound_start ⟨req.cmd, type⟩⟩
  | takeVoluntary src r came voluntary vol acq evict =>
    obtain ⟨none, ⟨coh, resident⟩, unit⟩ := inv.resident came voluntary acq evict
    refine ⟨by simp [none], ?_, sound.evict, sound.wb⟩
    rintro v taken
    cases Option.some.inj taken
    exact ⟨by simp [resident], (inv.shared src).voluntary r came voluntary, unit⟩
  | mergeVoluntary src r x came voluntary acq merge =>
    have sharer := (inv.shared src).sharer ((inv.shared src).voluntary_waits came voluntary).2.2.2.2
    simp only [Manager.duty, acq, Manager.tracked] at sharer
    refine sound.setAcq acq ((sound.acq x acq).2.2.merge (.inr ⟨rfl, ?_⟩))
    -- whoever releases the block is a sharer still, so the directory is not empty
    intro empty
    simp [empty] at sharer
  | takeReply src r x came involuntary acq probing =>
    exact sound.setAcq acq ((sound.acq x acq).2.2.merge (.inl probing))
  | wbVoluntary src r w came voluntary acq evict probing free =>
    exact sound.setWb evict fun past => absurd probing past
  | wbReply src r w came involuntary acq evict probing =>
    exact sound.setWb evict fun past => absurd probing past
  | takeFinish src x came acq busy => exact sound.setAcq acq ((sound.acq x acq).2.2.takeFinish busy)
  | wbRequested x acq waiting => exact sound.setAcq acq ((sound.acq x acq).2.2.wbRequested waiting)
  | wbDone x acq waiting => exact sound.setAcq acq ((sound.acq x acq).2.2.wbDone waiting)
  | sendProbe x dst acq next probing => exact sound.setAcq acq ((sound.acq x acq).2.2.sendProbe probing)
  | probesDone x acq probing sent answered =>
    exact sound.setAcq acq ((sound.acq x acq).2.2.probesDone probing sent answered)
  | outerAcquire x acq missing => exact sound.setAcq acq ((sound.acq x acq).2.2.outerAcquire missing)
  | outerGrant x acq busy waiting => exact sound.setAcq acq ((sound.acq x acq).2.2.outerGrant busy waiting)
  | readArray x acq busy missing here => exact sound.setAcq acq ((sound.acq x acq).2.2.readArray busy here)
  | writeArray x d acq buffered busy here =>
    exact sound.setAcq acq ((sound.acq x acq).2.2.writeArray busy here)
  | ackVoluntary x dst acq owed => exact sound.setAcq acq (sound.acq x acq).2.2.ackVoluntary
  | wbAck w dst acq evict owed =>
    refine sound.setWb evict ?_
    -- past the probes the unit owes no acknowledgement, so this one is sent before
    intro past
    have quiet := (sound.wb w evict past).2.2
    rw [quiet] at owed
    cases owed
  | sendGrant x d acq buffered busy pending =>
    exact sound.setAcq acq ((sound.acq x acq).2.2.sendGrant busy buffered)
  | finishXact x acq busy done =>
    obtain ⟨vol, evict, -⟩ := sound.acq x acq
    exact ⟨by simp, by simp [vol], by simp [evict], by simp [evict]⟩
  | volWrite v vol pending =>
    refine ⟨by simp [sound.acq_of_vol vol], ?_, sound.evict, sound.wb⟩
    intro y taken
    cases Option.some.inj taken
    exact sound.vol v vol
  | volAck v vol owed =>
    refine ⟨by simp [sound.acq_of_vol vol], ?_, sound.evict, sound.wb⟩
    intro y taken
    cases Option.some.inj taken
    exact sound.vol v vol
  | volDone v vol written acked =>
    exact .of_idle (sound.acq_of_vol vol) rfl (fun _ => rfl) sound.wb
  | evict old resident acq vol evict =>
    exact .of_idle acq vol (fun _ => by simp [resident]) (by simp)
  | wbStart old evict vol =>
    have acq := sound.evicting (by simp [evict])
    refine .of_idle acq vol (fun _ => sound.evict (by simp [evict])) ?_
    intro w taken
    cases taken
    exact Writeback.sound_start old
  | wbProbe w dst evict next probing =>
    exact sound.setWb evict fun past => absurd probing past
  | wbProbesDone w evict probing sent answered acked =>
    exact sound.setWb evict fun _ => ⟨sent, answered, acked⟩
  | wbMetaResp w coh evict resident waiting =>
    exact sound.setWb evict fun _ => sound.wb w evict (by simp [waiting])
  | wbRead w evict busy missing =>
    exact sound.setWb evict fun _ => sound.wb w evict (by simp [busy])
  | wbRelease w d evict busy buffered =>
    exact sound.setWb evict fun _ => sound.wb w evict (by simp [busy])
  | wbGrant w evict waiting =>
    exact sound.setWb evict fun _ => sound.wb w evict (by simp [waiting])
  | wbResp w evict done =>
    have acq := sound.evicting (by simp [evict])
    have vol := sound.vol_of_wb (by simp [evict]) (by simp [evict])
    exact .of_idle acq vol (fun _ => sound.evict (by simp [evict])) (by simp)
  | overwrite v evict =>
    exact ⟨sound.acq, sound.vol, sound.evict, sound.wb⟩
  | replaced evict =>
    have acq := sound.evicting (by simp [evict])
    have vol := sound.vol_of_wb (by simp [evict]) (by simp [evict])
    exact .of_idle acq vol (by simp) (by simp)

end LowRisc.Coherence
