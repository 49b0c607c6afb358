import LowRisc.Coherence.ClientValues

/-! The steps of the manager keep the block's value. -/

set_option autoImplicit false

namespace LowRisc.Coherence

open LowRisc.Lib MESICoherence

variable {n : Nat} {V U : Type} {s : System n V U} {m m' : Manager n V} {link : Fin n → Client V U}
  {f : Option (Fin n × Effect V)} {x : Xact n V} {w : Writeback n V}

def brings (link : Fin n → Client V U) : Option (Fin n × Effect V) → Option V
  | some (i, .takeRelease) => (link i).release.bind fun r => if r.r_type.hasData then some r.data else none
  | _ => none

theorem Manager.value_acq (acq : m.acq = some x) : m.value = x.value m.resident m.array m.outer := by
  simp only [Manager.value, acq]

theorem Manager.kept_acq (acq : m.acq = some x) : m.Kept ↔
    (x.pending_coh.dirty = false → m.outer = x.value m.resident m.array m.outer) ∧
      if x.pending_writes then x.data_buffer.isSome = true else ∀ d, x.data_buffer = some d → d = m.array := by
  simp only [Manager.Kept, acq]

theorem Manager.value_wb (acq : m.acq = none) (vol : m.vol = none) (evict : m.evict = .wb w) :
    m.value = w.value m.array m.outer := by
  simp only [Manager.value, acq, vol, evict]

theorem Manager.kept_wb (acq : m.acq = none) (vol : m.vol = none) (evict : m.evict = .wb w) :
    m.Kept ↔ w.Kept m.Below := by
  simp only [Manager.Kept, acq, vol, evict]

theorem Manager.value_setWb {o v : V} (acq : m.acq = none) (vol : m.vol = none)
    (kept : w.Kept (Manager.Below { m with outer := o })) (value : w.value m.array o = v) :
    Manager.Kept { m with evict := .wb w, outer := o } ∧ Manager.value { m with evict := .wb w, outer := o } = v := by
  simp only [Manager.Kept, Manager.value, acq, vol]
  exact ⟨kept, value⟩

theorem Xact.Sound.holds {resident : Option (Meta n)} (sound : x.Sound resident) (some : x.pending_coh.sharers ≠ 0#n) :
    resident.isSome = true ∨ x.data_buffer.isSome = true := by
  cases found : resident with
  | some _ => exact .inl rfl
  | none =>
    right
    cases state : x.state <;> simp only [Xact.Sound, state, Xact.Fresh, found] at sound <;> grind

theorem Manager.value_merge {r : Release V} {src : Fin n} {k : Nat} {vol : Option (Fin n)} (acq : m.acq = some x)
    (kept : m.Kept) (here : m.resident.isSome = true ∨ x.data_buffer.isSome = true) :
    Manager.Kept { m with acq := some { x.mergeRelease r src with pending_irels := k, pending_vol_ignt := vol } } ∧
      Manager.value { m with acq := some { x.mergeRelease r src with pending_irels := k, pending_vol_ignt := vol } } =
        if r.r_type.hasData then r.data else m.value := by
  rw [Manager.kept_acq acq] at kept
  rw [Manager.kept_acq rfl, Manager.value_acq rfl, Manager.value_acq acq]
  cases data : r.r_type.hasData <;>
    simp_all [Xact.value, Xact.mergeRelease, Xact.updatePendingCoh, Meta.onRelease]

theorem Manager.value_tracker {y : Xact n V} (acq : m.acq = some x) (kept : m.Kept)
    (dirty : y.pending_coh.dirty = x.pending_coh.dirty) (writes : y.pending_writes = x.pending_writes)
    (buffer : y.data_buffer = x.data_buffer) :
    Manager.Kept { m with acq := some y } ∧ Manager.value { m with acq := some y } = m.value := by
  rw [Manager.kept_acq acq] at kept
  rw [Manager.kept_acq rfl, Manager.value_acq rfl, Manager.value_acq acq, dirty, writes, buffer]
  simpa [Xact.value, writes, buffer] using kept

theorem Manager.value_wbMerge {r : Release V} {src : Fin n} {k : Nat} {vol' : Option (Fin n)} (acq : m.acq = none)
    (vol : m.vol = none) (evict : m.evict = .wb w) (probing : w.state = .innerProbe) (kept : m.Kept) :
    Manager.Kept { m with evict := .wb { w.mergeRelease r src with pending_irels := k, pending_vol_ignt := vol' } } ∧
      Manager.value { m with evict := .wb { w.mergeRelease r src with pending_irels := k, pending_vol_ignt := vol' } } =
        if r.r_type.hasData then r.data else m.value := by
  rw [Manager.kept_wb acq vol evict] at kept
  simp only [Writeback.Kept, probing] at kept
  apply Manager.value_setWb acq vol
  · cases data : r.r_type.hasData
    · simpa [Writeback.Kept, Writeback.mergeRelease, Meta.onRelease, probing, data] using kept
    · simpa [Writeback.Kept, Writeback.mergeRelease, Meta.onRelease, probing, data] using kept.1
  · rw [Manager.value_wb acq vol evict]
    cases data : r.r_type.hasData <;> simp [Writeback.value, Writeback.mergeRelease, probing, data]

theorem Manager.Sound.idle (sound : m.Sound) (evicting : m.evict ≠ .none) (started : ∀ old, m.evict ≠ .wbReq old) :
    m.acq = none ∧ m.vol = none :=
  ⟨sound.evicting evicting, sound.vol_of_wb evicting started⟩

theorem brings_release {src : Fin n} {r : Release V} {v : V} (came : (link src).release = some r) :
    (brings link (some (src, .takeRelease))).getD v = if r.r_type.hasData then r.data else v := by
  cases data : r.r_type.hasData <;> simp [brings, came, data]

theorem Manager.value_accept {a : Acquire} {src : Fin n} {writeback : Bool} (acq : m.acq = none) (vol : m.vol = none)
    (evict : m.evict = .none) (kept : m.Kept) :
    Manager.Kept { m with acq := some (.start src a m.resident writeback) } ∧
      Manager.value { m with acq := some (.start src a m.resident writeback) } = m.value := by
  simp only [Manager.Kept, acq, vol, evict, Manager.Below] at kept
  rw [Manager.kept_acq rfl, Manager.value_acq rfl]
  cases found : m.resident with
  | none => simp [Xact.start, Xact.value, Manager.value, acq, vol, evict, found]
  | some coh =>
    have below := kept coh found
    simp [Xact.start, Xact.value, Manager.value, acq, vol, evict, found]
    grind

theorem Manager.value_refilled (sound : m.Sound) (acq : m.acq = some x) (busy : x.state = .busy)
    (waiting : x.pending_ognt = true) :
    Manager.Kept { m with acq := some (m.refilled x) } ∧ Manager.value { m with acq := some (m.refilled x) } = m.value := by
  have tracker := (sound.acq x acq).2.2
  simp only [Xact.Sound, busy, waiting, Xact.Fresh] at tracker
  rw [Manager.kept_acq rfl, Manager.value_acq rfl]
  simp [Manager.refilled, Xact.updatePendingCoh, Xact.value, Manager.value_acq acq, tracker]

theorem Manager.value_readArray (sound : m.Sound) (kept : m.Kept) (acq : m.acq = some x) (busy : x.state = .busy)
    (missing : x.data_buffer = none) (here : x.pending_ognt = false) :
    Manager.Kept { m with acq := some { x with data_buffer := some m.array } } ∧
      Manager.value { m with acq := some { x with data_buffer := some m.array } } = m.value := by
  have tracker := (sound.acq x acq).2.2
  simp only [Xact.Sound, busy, here, Xact.Fresh] at tracker
  rw [Manager.kept_acq acq] at kept
  rw [Manager.kept_acq rfl, Manager.value_acq rfl]
  -- data to be written are in the buffer, so with an empty one nothing waits
  have clean : x.pending_writes = false := by
    cases writes : x.pending_writes <;> simp_all
  have resident : m.resident.isSome = true := by
    cases found : m.resident <;> simp_all
  simp_all [Manager.value_acq acq, Xact.value]

theorem Manager.value_writeArray {d : V} (kept : m.Kept) (acq : m.acq = some x) (buffered : x.data_buffer = some d) :
    Manager.Kept { m with array := d, acq := some { x with pending_writes := false } } ∧
      Manager.value { m with array := d, acq := some { x with pending_writes := false } } = m.value := by
  rw [Manager.kept_acq acq] at kept
  rw [Manager.kept_acq rfl, Manager.value_acq rfl, Manager.value_acq acq]
  cases writes : x.pending_writes <;> simp_all [Xact.value]

theorem Manager.value_finishXact (sound : m.Sound) (kept : m.Kept) (acq : m.acq = some x)
    (done : x.allPendingDone = true) :
    Manager.Kept { m with
        acq := none
        resident := if x.pending_meta_write then some x.pending_coh else m.resident } ∧
      Manager.value { m with
        acq := none
        resident := if x.pending_meta_write then some x.pending_coh else m.resident } = m.value := by
  obtain ⟨vol, evict, tracker⟩ := sound.acq x acq
  rw [Manager.kept_acq acq] at kept
  simp only [Xact.allPendingDone, Bool.and_eq_true, Bool.not_eq_true'] at done
  obtain ⟨⟨⟨⟨⟨here, clean⟩, -⟩, -⟩, -⟩, -⟩ := done
  -- nothing is left to be written, so the array has the value
  have settled : x.value m.resident m.array m.outer = m.array := by
    simp [Xact.value, clean, here]
  have same := tracker.written
  simp only [Manager.Kept, Manager.value, Manager.Below, acq, vol, evict, same]
  rw [settled] at kept ⊢
  refine ⟨?_, by simp⟩
  intro coh found below
  cases Option.some.inj found
  exact kept.1 below

theorem Manager.value_volDone {v : VolXact n V} (sound : m.Sound) (vol : m.vol = some v)
    (written : v.pending_writes = false) :
    Manager.Kept { m with vol := none, resident := some (v.coh.onRelease v.xact v.src) } ∧
      Manager.value { m with vol := none, resident := some (v.coh.onRelease v.xact v.src) } = m.value := by
  have acq := sound.acq_of_vol vol
  obtain ⟨resident, data, unit | ⟨old, unit, some⟩⟩ := sound.vol v vol
  · simp [Manager.Kept, Manager.value, Manager.Below, acq, vol, unit, written, data, ReleaseType.hasData,
      Meta.onRelease]
  · simp [Manager.Kept, Manager.value, Manager.Below, acq, vol, unit, written, data, ReleaseType.hasData,
      Meta.onRelease, some]

theorem Manager.value_wbStart {old : Meta n} (sound : m.Sound) (kept : m.Kept) (evict : m.evict = .wbReq old)
    (vol : m.vol = none) :
    Manager.Kept { m with evict := .wb (.start old) } ∧
      Manager.value { m with evict := .wb (.start old) } = m.value := by
  have acq := sound.evicting (by simp [evict])
  have here := sound.evict (by simp [evict])
  obtain ⟨coh, resident⟩ := Option.isSome_iff_exists.mp here
  simp only [Manager.Kept, acq, vol, evict] at kept
  obtain ⟨below, same⟩ := kept
  have before : m.value = m.array := by simp [Manager.value, acq, vol, evict, resident]
  refine Manager.value_setWb acq vol ?_ ?_
  · cases none : FullRepresentation.none old.sharers <;> cases dirty : old.dirty <;>
      simp [Writeback.Kept, Writeback.start, requiresProbesOnVoluntaryWriteback, none, dirty]
    all_goals exact below
  · rw [before]
    cases none : FullRepresentation.none old.sharers <;> cases dirty : old.dirty <;>
      simp [Writeback.value, Writeback.start, requiresProbesOnVoluntaryWriteback, none, dirty]
    -- neither probes nor data are needed: the level below has the value
    exact below old (same (by simpa [FullRepresentation.none] using none)) dirty

/-- The writeback unit has all its answers: a clean block is below already. -/
theorem Manager.value_wbProbesDone (sound : m.Sound) (kept : m.Kept) (evict : m.evict = .wb w)
    (probing : w.state = .innerProbe) :
    Manager.Kept { m with evict := .wb { w with state := if w.coh.dirty then .busy else .metaRead } } ∧
      Manager.value { m with evict := .wb { w with state := if w.coh.dirty then .busy else .metaRead } } = m.value := by
  obtain ⟨acq, vol⟩ := sound.idle (by simp [evict]) (by simp [evict])
  rw [Manager.kept_wb acq vol evict] at kept
  simp only [Writeback.Kept, probing] at kept
  refine Manager.value_setWb acq vol ?_ ?_
  · cases dirty : w.coh.dirty
    · simpa [Writeback.Kept, dirty] using ⟨kept.1, kept.2 dirty⟩
    · simp [Writeback.Kept]
  · cases dirty : w.coh.dirty <;> simp [Manager.value_wb acq vol evict, Writeback.value, probing]

theorem Manager.value_wbMetaResp {coh : Meta n} (sound : m.Sound) (kept : m.Kept) (evict : m.evict = .wb w)
    (resident : m.resident = some coh) (waiting : w.state = .metaRead) :
    Manager.Kept { m with evict := .wb { w with state := if coh.dirty then .busy else .wbResp } } ∧
      Manager.value { m with evict := .wb { w with state := if coh.dirty then .busy else .wbResp } } = m.value := by
  obtain ⟨acq, vol⟩ := sound.idle (by simp [evict]) (by simp [evict])
  rw [Manager.kept_wb acq vol evict] at kept
  simp only [Writeback.Kept, waiting] at kept
  refine Manager.value_setWb acq vol ?_ ?_
  · cases dirty : coh.dirty <;> simp [Writeback.Kept]
  · have below := kept.1 coh resident
    cases dirty : coh.dirty <;>
      simp_all [Manager.value_wb acq vol evict, Writeback.value]

theorem System.Inv.value_mergeVoluntary {src : Fin n} {r : Release V} (inv : s.Inv) (kept : s.manager.Kept)
    (came : (s.clients src).release = some r) (voluntary : r.voluntary = true) (acq : s.manager.acq = some x) :
    Manager.Kept { s.manager with acq := some { x.mergeRelease r src with pending_vol_ignt := some src } } ∧
      Manager.value { s.manager with acq := some { x.mergeRelease r src with pending_vol_ignt := some src } } =
        if r.r_type.hasData then r.data else s.manager.value := by
  have sharer := (inv.shared src).sharer ((inv.shared src).voluntary_waits came voluntary).2.2.2.2
  simp only [Manager.duty, acq, Manager.tracked] at sharer
  have some : x.pending_coh.sharers ≠ 0#n := fun empty => by simp [empty] at sharer
  exact Manager.value_merge acq kept ((inv.manager.acq x acq).2.2.holds some)

theorem System.Inv.value (inv : s.Inv) (kept : s.manager.Kept) (moved : s.manager.Moves s.clients m' f) :
    m'.Kept ∧ m'.value = (brings s.clients f).getD s.manager.value := by
  have sound := inv.manager
  cases moved with
  | acceptAcquire src a writeback asked acq vol evict => exact Manager.value_accept acq vol evict kept
  | takeVoluntary src r came voluntary vol acq evict =>
    have idle := (inv.resident came voluntary acq evict).1
    have data := (inv.shared src).voluntary r came voluntary
    rw [brings_release came]
    simp [Manager.Kept, Manager.value, idle, data, ReleaseType.hasData]
  | mergeVoluntary src r x came voluntary acq merge =>
    rw [brings_release came]
    exact inv.value_mergeVoluntary kept came voluntary acq
  | takeReply src r x came involuntary acq probing =>
    have tracker := (sound.acq x acq).2.2
    simp only [Xact.Sound, probing] at tracker
    rw [brings_release came]
    exact Manager.value_merge acq kept (.inl tracker.2.2.2.1)
  | wbVoluntary src r w came voluntary acq evict probing | wbReply src r w came involuntary acq evict probing =>
    have vol := (sound.idle (by simp [evict]) (by simp [evict])).2
    rw [brings_release came]
    exact Manager.value_wbMerge acq vol evict probing kept
  | takeFinish src x came acq | wbRequested x acq | wbDone x acq | sendProbe x dst acq | probesDone x acq
  | outerAcquire x acq | ackVoluntary x dst acq | sendGrant x d acq => exact Manager.value_tracker acq kept rfl rfl rfl
  | outerGrant x acq busy waiting => exact Manager.value_refilled sound acq busy waiting
  | readArray x acq busy missing here => exact Manager.value_readArray sound kept acq busy missing here
  | writeArray x d acq buffered => exact Manager.value_writeArray kept acq buffered
  | wbAck w dst acq evict | wbProbe w dst evict =>
    obtain ⟨acq, vol⟩ := sound.idle (by simp [evict]) (by simp [evict])
    rw [Manager.kept_wb acq vol evict] at kept
    exact Manager.value_setWb acq vol kept (Manager.value_wb acq vol evict).symm
  | finishXact x acq busy done => exact Manager.value_finishXact sound kept acq done
  | volWrite v vol pending =>
    have acq := sound.acq_of_vol vol
    simp [Manager.Kept, Manager.value, acq, vol, pending, brings]
  | volAck v vol owed =>
    have acq := sound.acq_of_vol vol
    simp [Manager.Kept, Manager.value, acq, vol, brings]
  | volDone v vol written acked => exact Manager.value_volDone sound vol written
  | evict old resident acq vol evict =>
    simp only [Manager.Kept, acq, vol, evict] at kept
    simp only [Manager.Kept, Manager.value, acq, vol, evict, resident, brings]
    exact ⟨⟨fun coh found => kept coh (resident.trans found), by simp⟩, by simp⟩
  | wbStart old evict vol => exact Manager.value_wbStart sound kept evict vol
  | wbProbesDone w evict probing sent answered acked => exact Manager.value_wbProbesDone sound kept evict probing
  | wbMetaResp w coh evict resident waiting => exact Manager.value_wbMetaResp sound kept evict resident waiting
  | wbRead w evict busy missing =>
    obtain ⟨acq, vol⟩ := sound.idle (by simp [evict]) (by simp [evict])
    refine Manager.value_setWb acq vol ?_ ?_
    · simp [Writeback.Kept, busy]
    · simp [brings, Manager.value_wb acq vol evict, Writeback.value, busy, missing]
  | wbRelease w d evict busy buffered =>
    obtain ⟨acq, vol⟩ := sound.idle (by simp [evict]) (by simp [evict])
    refine Manager.value_setWb acq vol ?_ ?_
    · simp [Writeback.Kept]
    · simp [brings, Manager.value_wb acq vol evict, Writeback.value, busy, buffered]
  | wbGrant w evict waiting =>
    obtain ⟨acq, vol⟩ := sound.idle (by simp [evict]) (by simp [evict])
    refine Manager.value_setWb acq vol ?_ ?_
    · simp [Writeback.Kept]
    · simp [brings, Manager.value_wb acq vol evict, Writeback.value, waiting]
  | wbResp w evict done =>
    obtain ⟨acq, vol⟩ := sound.idle (by simp [evict]) (by simp [evict])
    simp [Manager.Kept, Manager.value, acq, vol, evict, brings, Writeback.value, done]
  | overwrite v evict =>
    obtain ⟨acq, vol⟩ := sound.idle (by simp [evict]) (by simp [evict])
    simp [Manager.Kept, Manager.value, acq, vol, evict, brings]
  | replaced evict =>
    obtain ⟨acq, vol⟩ := sound.idle (by simp [evict]) (by simp [evict])
    simp [Manager.Kept, Manager.value, Manager.Below, acq, vol, evict, brings]

end LowRisc.Coherence
