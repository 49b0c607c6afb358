import LowRisc.Coherence.ClientMoves

/-! The steps of the manager keep what it and the caches know of each other. -/

set_option autoImplicit false

namespace LowRisc.Coherence

open LowRisc.Lib MESICoherence

variable {n : Nat} {V U : Type} {m m' : Manager n V} {link : Fin n → Client V U} {f : Option (Fin n × Effect V)}

inductive Manager.Moves (m : Manager n V) (link : Fin n → Client V U) :
    Manager n V → Option (Fin n × Effect V) → Prop where
  | acceptAcquire (src : Fin n) (a : Acquire) (writeback : Bool) (asked : (link src).acquire = some a)
      (acq : m.acq = none) (vol : m.vol = none) (evict : m.evict = .none) :
      Moves m link { m with acq := some (.start src a m.resident writeback) } (some (src, .takeAcquire))
  -- a release goes to the unit that is at its block; the voluntary tracker takes it where there is none
  | takeVoluntary (src : Fin n) (r : Release V) (came : (link src).release = some r) (voluntary : r.voluntary = true)
      (vol : m.vol = none) (acq : ∀ x, m.acq = some x → x.state = .wbReq) (evict : ∀ w, m.evict ≠ .wb w) :
      Moves m link { m with vol := some ⟨src, r, m.resident.getD .onReset, r.r_type.hasData, true⟩ }
        (some (src, .takeRelease))
  | mergeVoluntary (src : Fin n) (r : Release V) (x : Xact n V) (came : (link src).release = some r)
      (voluntary : r.voluntary = true) (acq : m.acq = some x) (merge : x.irelCanMerge = true) :
      Moves m link { m with acq := some { x.mergeRelease r src with pending_vol_ignt := some src } }
        (some (src, .takeRelease))
  | takeReply (src : Fin n) (r : Release V) (x : Xact n V) (came : (link src).release = some r)
      (involuntary : r.voluntary = false) (acq : m.acq = some x) (probing : x.state = .innerProbe) :
      Moves m link { m with acq := some { x.mergeRelease r src with pending_irels := x.pending_irels - 1 } }
        (some (src, .takeRelease))
  | wbVoluntary (src : Fin n) (r : Release V) (w : Writeback n V) (came : (link src).release = some r)
      (voluntary : r.voluntary = true) (acq : m.acq = none) (evict : m.evict = .wb w) (probing : w.state = .innerProbe)
      (free : w.pending_vol_ignt = none) :
      Moves m link { m with evict := .wb { w.mergeRelease r src with pending_vol_ignt := some src } }
        (some (src, .takeRelease))
  | wbReply (src : Fin n) (r : Release V) (w : Writeback n V) (came : (link src).release = some r)
      (involuntary : r.voluntary = false) (acq : m.acq = none) (evict : m.evict = .wb w)
      (probing : w.state = .innerProbe) :
      Moves m link { m with evict := .wb { w.mergeRelease r src with pending_irels := w.pending_irels - 1 } }
        (some (src, .takeRelease))
  | takeFinish (src : Fin n) (x : Xact n V) (came : (link src).finish = true) (acq : m.acq = some x)
      (busy : x.state = .busy) :
      Moves m link { m with acq := some { x with pending_ifins := false } } (some (src, .takeFinish))
  -- the acquire tracker
  | wbRequested (x : Xact n V) (acq : m.acq = some x) (waiting : x.state = .wbReq) :
      Moves m link { m with acq := some { x with state := .wbResp } } none
  | wbDone (x : Xact n V) (acq : m.acq = some x) (waiting : x.state = .wbResp) :
      Moves m link { m with acq := some { x with state := .outerAcquire } } none
  | sendProbe (x : Xact n V) (dst : Fin n) (acq : m.acq = some x)
      (next : FullRepresentation.next x.pending_iprbs = some dst) (probing : x.state = .innerProbe) :
      Moves m link { m with acq := some { x with
          pending_iprbs := FullRepresentation.pop x.pending_iprbs dst
          pending_irels := x.pending_irels + 1 } }
        (some (dst, .probe (getProbeType x.a_type)))
  | probesDone (x : Xact n V) (acq : m.acq = some x) (probing : x.state = .innerProbe)
      (sent : x.pending_iprbs = 0#n) (answered : x.pending_irels = 0) :
      Moves m link { m with acq := some { x with state := .busy } } none
  | outerAcquire (x : Xact n V) (acq : m.acq = some x) (missing : x.state = .outerAcquire) :
      Moves m link { m with acq := some { x with state := .busy, pending_ognt := true } } none
  | outerGrant (x : Xact n V) (acq : m.acq = some x) (busy : x.state = .busy) (waiting : x.pending_ognt = true) :
      Moves m link { m with acq := some (m.refilled x) } none
  | readArray (x : Xact n V) (acq : m.acq = some x) (busy : x.state = .busy) (missing : x.data_buffer = none)
      (here : x.pending_ognt = false) :
      Moves m link { m with acq := some { x with data_buffer := some m.array } } none
  | writeArray (x : Xact n V) (d : V) (acq : m.acq = some x) (buffered : x.data_buffer = some d)
      (busy : x.state = .busy) (here : x.pending_ognt = false) :
      Moves m link { m with array := d, acq := some { x with pending_writes := false } } none
  | ackVoluntary (x : Xact n V) (dst : Fin n) (acq : m.acq = some x) (owed : x.pending_vol_ignt = some dst) :
      Moves m link { m with acq := some { x with pending_vol_ignt := none } } (some (dst, .grant m.voluntaryAck))
  | wbAck (w : Writeback n V) (dst : Fin n) (acq : m.acq = none) (evict : m.evict = .wb w)
      (owed : w.pending_vol_ignt = some dst) :
      Moves m link { m with evict := .wb { w with pending_vol_ignt := none } } (some (dst, .grant m.voluntaryAck))
  | sendGrant (x : Xact n V) (d : V) (acq : m.acq = some x) (buffered : x.data_buffer = some d)
      (busy : x.state = .busy) (pending : x.pending_ignt = true) :
      Moves m link
        { m with acq := some { x.updatePendingCoh
              (x.pending_coh.onGrant (getGrantType x.a_type x.pending_coh.sharers) x.src) with
            pending_ignt := false
            pending_ifins := (getGrantType x.a_type x.pending_coh.sharers).requiresAck } }
        (some (x.src, .grant ⟨getGrantType x.a_type x.pending_coh.sharers, d⟩))
  | finishXact (x : Xact n V) (acq : m.acq = some x) (busy : x.state = .busy) (done : x.allPendingDone = true) :
      Moves m link { m with
        acq := none
        resident := if x.pending_meta_write then some x.pending_coh else m.resident } none
  -- the tracker of voluntary releases
  | volWrite (v : VolXact n V) (vol : m.vol = some v) (pending : v.pending_writes = true) :
      Moves m link { m with array := v.xact.data, vol := some { v with pending_writes := false } } none
  | volAck (v : VolXact n V) (vol : m.vol = some v) (owed : v.pending_ignt = true) :
      Moves m link { m with vol := some { v with pending_ignt := false } } (some (v.src, .grant m.voluntaryAck))
  | volDone (v : VolXact n V) (vol : m.vol = some v) (written : v.pending_writes = false)
      (acked : v.pending_ignt = false) :
      Moves m link { m with vol := none, resident := some (v.coh.onRelease v.xact v.src) } none
  -- the choice of a victim and the writeback unit
  | evict (old : Meta n) (resident : m.resident = some old) (acq : m.acq = none) (vol : m.vol = none)
      (evict : m.evict = .none) :
      Moves m link { m with evict := .wbReq old } none
  | wbStart (old : Meta n) (evict : m.evict = .wbReq old) (vol : m.vol = none) :
      Moves m link { m with evict := .wb (.start old) } none
  | wbProbe (w : Writeback n V) (dst : Fin n) (evict : m.evict = .wb w)
      (next : FullRepresentation.next w.pending_iprbs = some dst) (probing : w.state = .innerProbe) :
      Moves m link { m with evict := .wb { w with
          pending_iprbs := FullRepresentation.pop w.pending_iprbs dst
          pending_irels := w.pending_irels + 1 } }
        (some (dst, .probe .probeInvalidate))
  | wbProbesDone (w : Writeback n V) (evict : m.evict = .wb w) (probing : w.state = .innerProbe)
      (sent : w.pending_iprbs = 0#n) (answered : w.pending_irels = 0) (acked : w.pending_vol_ignt = none) :
      Moves m link { m with evict := .wb { w with state := if w.coh.dirty then .busy else .metaRead } } none
  | wbMetaResp (w : Writeback n V) (coh : Meta n) (evict : m.evict = .wb w) (resident : m.resident = some coh)
      (waiting : w.state = .metaRead) :
      Moves m link { m with evict := .wb { w with state := if coh.dirty then .busy else .wbResp } } none
  | wbRead (w : Writeback n V) (evict : m.evict = .wb w) (busy : w.state = .busy) (missing : w.data_buffer = none) :
      Moves m link { m with evict := .wb { w with data_buffer := some m.array } } none
  | wbRelease (w : Writeback n V) (d : V) (evict : m.evict = .wb w) (busy : w.state = .busy)
      (buffered : w.data_buffer = some d) :
      Moves m link { m with outer := d, evict := .wb { w with state := .outerGrant } } none
  | wbGrant (w : Writeback n V) (evict : m.evict = .wb w) (waiting : w.state = .outerGrant) :
      Moves m link { m with evict := .wb { w with state := .wbResp } } none
  | wbResp (w : Writeback n V) (evict : m.evict = .wb w) (done : w.state = .wbResp) :
      Moves m link { m with evict := .refill } none
  -- the way is refilled with another block
  | overwrite (v : V) (evict : m.evict = .refill) : Moves m link { m with array := v } none
  | replaced (evict : m.evict = .refill) : Moves m link { m with resident := none, evict := .none } none

theorem Manager.moves_release {src : Fin n} {r : Release V} (came : (link src).release = some r)
    (fired : m.takeRelease src r = some m') : m.Moves link m' (some (src, .takeRelease)) := by
  simp only [Manager.takeRelease] at fired
  split at fired
  · rename_i free
    -- no unit is at the block, and only a voluntary release is taken
    split at fired
    · rename_i voluntary
      cases fired
      simp only [Manager.volFree, Bool.and_eq_true, Option.isNone_iff_eq_none] at free
      obtain ⟨⟨vol, acq⟩, evict⟩ := free
      apply Manager.Moves.takeVoluntary src r came voluntary vol
      · intro x taken
        simpa [taken] using acq
      · intro w taken
        simp [taken] at evict
    · cases fired
  · split at fired
    · rename_i x acq
      -- the acquire tracker merges a voluntary release, and a reply only while it probes
      split at fired
      · rename_i voluntary
        split at fired
        · rename_i merge
          cases fired
          exact .mergeVoluntary src r x came voluntary acq merge
        · cases fired
      · rename_i involuntary
        split at fired
        · rename_i probing
          cases fired
          exact .takeReply src r x came (by simpa using involuntary) acq probing
        · cases fired
    · rename_i w acq evict
      -- the writeback unit does so only while it probes
      split at fired
      · rename_i probing
        split at fired
        · rename_i voluntary
          split at fired
          · rename_i free
            cases fired
            exact .wbVoluntary src r w came voluntary acq evict probing (Option.isNone_iff_eq_none.mp free)
          · cases fired
        · rename_i involuntary
          cases fired
          exact .wbReply src r w came (by simpa using involuntary) acq evict probing
      · cases fired
    · cases fired

theorem Manager.setFree_iff : m.setFree = true ↔ m.acq = none ∧ m.vol = none ∧ m.evict = .none := by
  unfold Manager.setFree
  split
  · simp_all
  · rename_i occupied
    simp only [Bool.false_eq_true, false_iff, not_and]
    exact fun acq vol evict => occupied acq vol evict

theorem Manager.moves_tracker {a : ManagerAction n V} (acting : a = .wbRequested ∨ a = .wbDone ∨ a = .probesDone ∨
    a = .outerAcquire ∨ a = .outerGrant ∨ a = .readArray ∨ a = .finishXact)
    (fired : m.step link a = some (m', f)) : m.Moves link m' f := by
  rcases acting with rfl | rfl | rfl | rfl | rfl | rfl | rfl <;> simp only [Manager.step] at fired <;>
    split at fired <;> try cases fired
  all_goals
    rename_i x acq
    split at fired <;> cases fired
    rename_i ready
  · exact .wbRequested x acq ready
  · exact .wbDone x acq ready
  · exact .probesDone x acq ready.1 ready.2.1 ready.2.2
  · exact .outerAcquire x acq ready
  · exact .outerGrant x acq ready.1 ready.2
  · exact .readArray x acq ready.1 (Option.isNone_iff_eq_none.mp ready.2.1) ready.2.2
  · exact .finishXact x acq ready.1 ready.2

theorem Manager.moves_voluntary {a : ManagerAction n V} (acting : a = .volWrite ∨ a = .volAck ∨ a = .volDone)
    (fired : m.step link a = some (m', f)) : m.Moves link m' f := by
  rcases acting with rfl | rfl | rfl <;> simp only [Manager.step] at fired <;> split at fired <;> try cases fired
  all_goals
    rename_i v vol
    split at fired <;> cases fired
    rename_i ready
  · exact .volWrite v vol ready
  · exact .volAck v vol ready
  · exact .volDone v vol ready.1 ready.2

theorem Manager.moves_writeback {a : ManagerAction n V} (acting : a = .wbProbesDone ∨ a = .wbRead ∨ a = .wbGrant ∨
    a = .wbResp) (fired : m.step link a = some (m', f)) : m.Moves link m' f := by
  rcases acting with rfl | rfl | rfl | rfl <;> simp only [Manager.step] at fired <;> split at fired <;> try cases fired
  all_goals
    rename_i w evict
    split at fired <;> cases fired
    rename_i ready
  · exact .wbProbesDone w evict ready.1 ready.2.1 ready.2.2.1 ready.2.2.2
  · exact .wbRead w evict ready.1 (Option.isNone_iff_eq_none.mp ready.2)
  · exact .wbGrant w evict ready
  · exact .wbResp w evict ready

theorem Manager.moves_acceptAcquire {src : Fin n} {writeback : Bool}
    (fired : m.step link (.acceptAcquire src writeback) = some (m', f)) : m.Moves link m' f := by
  simp only [Manager.step] at fired
  split at fired
  · rename_i a asked
    split at fired
    · rename_i free
      cases fired
      obtain ⟨acq, vol, evict⟩ := Manager.setFree_iff.mp free
      exact .acceptAcquire src a writeback asked acq vol evict
    · cases fired
  · cases fired

theorem Manager.moves_takeRelease {src : Fin n} (fired : m.step link (.takeRelease src) = some (m', f)) : m.Moves link m' f := by
  simp only [Manager.step] at fired
  split at fired
  · rename_i r came
    obtain ⟨next, taken, same⟩ := Option.map_eq_some_iff.mp fired
    cases same
    exact Manager.moves_release came taken
  · cases fired

theorem Manager.moves_takeFinish {src : Fin n} (fired : m.step link (.takeFinish src) = some (m', f)) : m.Moves link m' f := by
  simp only [Manager.step] at fired
  split at fired
  · rename_i x came acq
    split at fired
    · rename_i busy
      cases fired
      exact .takeFinish src x came acq busy
    · cases fired
  · cases fired

theorem Manager.moves_sendProbe (fired : m.step link .sendProbe = some (m', f)) : m.Moves link m' f := by
  simp only [Manager.step] at fired
  split at fired
  · rename_i x acq
    split at fired
    · rename_i dst next
      split at fired
      · rename_i probing
        cases fired
        exact .sendProbe x dst acq next probing
      · cases fired
    · cases fired
  · cases fired

theorem Manager.moves_writeArray (fired : m.step link .writeArray = some (m', f)) : m.Moves link m' f := by
  simp only [Manager.step] at fired
  split at fired
  · rename_i x acq
    split at fired
    · rename_i d buffered
      split at fired
      · rename_i ready
        cases fired
        exact .writeArray x d acq buffered ready.1 ready.2.2
      · cases fired
    · cases fired
  · cases fired

theorem Manager.moves_ackVoluntary (fired : m.step link .ackVoluntary = some (m', f)) : m.Moves link m' f := by
  simp only [Manager.step] at fired
  split at fired
  · rename_i x acq
    split at fired
    · rename_i dst owed
      cases fired
      exact .ackVoluntary x dst acq owed
    · cases fired
  · rename_i w acq evict
    split at fired
    · rename_i dst owed
      cases fired
      exact .wbAck w dst acq evict owed
    · cases fired
  · cases fired

theorem Manager.moves_sendGrant (fired : m.step link .sendGrant = some (m', f)) : m.Moves link m' f := by
  simp only [Manager.step] at fired
  split at fired
  · rename_i x acq
    split at fired
    · rename_i d buffered
      split at fired
      · rename_i ready
        cases fired
        exact .sendGrant x d acq buffered ready.1 ready.2.1
      · cases fired
    · cases fired
  · cases fired

theorem Manager.moves_evict (fired : m.step link .evict = some (m', f)) : m.Moves link m' f := by
  simp only [Manager.step] at fired
  split at fired
  · rename_i old resident
    split at fired
    · rename_i free
      cases fired
      obtain ⟨acq, vol, evict⟩ := Manager.setFree_iff.mp free
      exact .evict old resident acq vol evict
    · cases fired
  · cases fired

theorem Manager.moves_wbStart (fired : m.step link .wbStart = some (m', f)) : m.Moves link m' f := by
  simp only [Manager.step] at fired
  split at fired
  · rename_i old evict vol
    cases fired
    exact .wbStart old evict vol
  · cases fired

theorem Manager.moves_wbProbe (fired : m.step link .wbProbe = some (m', f)) : m.Moves link m' f := by
  simp only [Manager.step] at fired
  split at fired
  · rename_i w evict
    split at fired
    · rename_i dst next
      split at fired
      · rename_i probing
        cases fired
        exact .wbProbe w dst evict next probing
      · cases fired
    · cases fired
  · cases fired

theorem Manager.moves_wbMetaResp (fired : m.step link .wbMetaResp = some (m', f)) : m.Moves link m' f := by
  simp only [Manager.step] at fired
  split at fired
  · rename_i w coh evict resident
    split at fired
    · rename_i waiting
      cases fired
      exact .wbMetaResp w coh evict resident waiting
    · cases fired
  · cases fired

theorem Manager.moves_wbRelease (fired : m.step link .wbRelease = some (m', f)) : m.Moves link m' f := by
  simp only [Manager.step] at fired
  split at fired
  · rename_i w evict
    split at fired
    · rename_i d buffered
      split at fired
      · rename_i busy
        cases fired
        exact .wbRelease w d evict busy buffered
      · cases fired
    · cases fired
  · cases fired

theorem Manager.moves_overwrite {v : V} (fired : m.step link (.overwrite v) = some (m', f)) : m.Moves link m' f := by
  simp only [Manager.step] at fired
  split at fired
  · rename_i evict
    cases fired
    exact .overwrite v evict
  · cases fired

theorem Manager.moves_replaced (fired : m.step link .replaced = some (m', f)) : m.Moves link m' f := by
  simp only [Manager.step] at fired
  split at fired
  · rename_i evict
    cases fired
    exact .replaced evict
  · cases fired

theorem Manager.moves_of_step {a : ManagerAction n V} (fired : m.step link a = some (m', f)) : m.Moves link m' f := by
  cases a with
  | wbRequested | wbDone | probesDone | outerAcquire | outerGrant | readArray | finishXact =>
    exact Manager.moves_tracker (by simp) fired
  | volWrite | volAck | volDone => exact Manager.moves_voluntary (by simp) fired
  | wbProbesDone | wbRead | wbGrant | wbResp => exact Manager.moves_writeback (by simp) fired
  | acceptAcquire src writeback => exact Manager.moves_acceptAcquire fired
  | takeRelease src => exact Manager.moves_takeRelease fired
  | takeFinish src => exact Manager.moves_takeFinish fired
  | sendProbe => exact Manager.moves_sendProbe fired
  | writeArray => exact Manager.moves_writeArray fired
  | ackVoluntary => exact Manager.moves_ackVoluntary fired
  | sendGrant => exact Manager.moves_sendGrant fired
  | evict => exact Manager.moves_evict fired
  | wbStart => exact Manager.moves_wbStart fired
  | wbProbe => exact Manager.moves_wbProbe fired
  | wbMetaResp => exact Manager.moves_wbMetaResp fired
  | wbRelease => exact Manager.moves_wbRelease fired
  | overwrite v => exact Manager.moves_overwrite fired
  | replaced => exact Manager.moves_replaced fired

end LowRisc.Coherence
