import LowRisc.Coherence.ManagerSound

/-! Every step of the manager keeps what it and the clients know of each other. -/

set_option autoImplicit false

namespace LowRisc.Coherence

open LowRisc.Lib MESICoherence

variable {n : Nat} {V U : Type} {s : System n V U} {m' : Manager n V} {f : Option (Fin n × Effect V)}
  {d d' : Duty} {v : View V}

/-- The duties of a manager that serves nobody, whatever the voluntary release it handles. -/
theorem Manager.duty_calm {m : Manager n V} (acq : m.acq = none)
    (evict : m.evict = .none ∨ ∃ old, m.evict = .wbReq old ∧ old.sharers ≠ 0#n) :
    ∃ sharers, (m.evict = .none → sharers = m.sharers) ∧
      ∀ vol i, Manager.duty { m with vol := vol } i = Manager.calm sharers vol i := by
  rcases evict with unit | ⟨old, unit, -⟩
  · refine ⟨m.sharers, fun _ => rfl, fun vol i => ?_⟩
    simp [Manager.duty, acq, unit, Manager.sharers]
  · refine ⟨old.sharers, by simp [unit], fun vol i => ?_⟩
    simp [Manager.duty, acq, unit]

theorem Manager.awaited_calm {m : Manager n V} (acq : m.acq = none)
    (evict : m.evict = .none ∨ ∃ old, m.evict = .wbReq old ∧ old.sharers ≠ 0#n) : m.awaited = 0 := by
  rcases evict with unit | ⟨old, unit, -⟩ <;> simp [Manager.awaited, acq, unit]

/-! The manager's step. -/

def System.after (s : System n V U) (m' : Manager n V) : Option (Fin n × Effect V) → System n V U
  | some (i, e) => ⟨put s.clients i ((s.clients i).receive e), m'⟩
  | none => ⟨s.clients, m'⟩

theorem Manager.duty_of_acq {m : Manager n V} {x : Xact n V} (acq : m.acq = some x) (i : Fin n) :
    m.duty i = Manager.tracked x i := by
  simp [Manager.duty, acq]

theorem Manager.duty_of_wb {m : Manager n V} {w : Writeback n V} (acq : m.acq = none) (evict : m.evict = .wb w)
    (i : Fin n) : m.duty i = Manager.evicted w i := by
  simp [Manager.duty, acq, evict]

/-- Manager and clients know the same of each other after a step of the manager. -/
def System.SharedAfter (s : System n V U) (m' : Manager n V) (f : Option (Fin n × Effect V)) : Prop :=
  ∀ i, Shared (m'.duty i) ((s.after m' f).clients i).view

theorem System.Inv.still (inv : s.Inv) (same : ∀ i, m'.duty i = s.manager.duty i) :
    s.SharedAfter m' none := by
  intro i
  rw [same]
  exact inv.shared i

theorem System.shared_after {i : Fin n} {e : Effect V}
    (here : Shared (m'.duty i) ((s.clients i).receive e).view)
    (others : ∀ j, j ≠ i → Shared (m'.duty j) (s.clients j).view) : s.SharedAfter m' (some (i, e)) := by
  intro j
  by_cases same : j = i
  · subst same
    simpa [System.after] using here
  · simpa [System.after, same] using others j same

def Manager.opening (src : Fin n) (t : AcquireType) (sharers : BitVec n) (i : Fin n) : Duty where
  sharer := FullRepresentation.has sharers i
  alone := ∀ k, FullRepresentation.has sharers k = true → k = i
  toProbe := requiresProbes t sharers && FullRepresentation.has sharers i && !decide (i = src)
  kind := getProbeType t
  invalidates := decide (getProbeType t = .probeInvalidate)
  self := decide (src = i)
  ungranted := true
  granting := if src = i then some t else none
  unfinished := false
  acking := false
  releasing := false

theorem Manager.tracked_start {src i : Fin n} {a : Acquire} {m : Manager n V} {writeback : Bool} :
    Manager.tracked (Xact.start src a m.resident writeback : Xact n V) i =
      Manager.opening src a.a_type m.sharers i := by
  unfold Manager.sharers
  cases m.resident with
  | none =>
    simp [Manager.tracked, Manager.opening, Xact.start, Meta.onReset]
    exact ⟨rfl, rfl⟩
  | some coh =>
    cases probes : requiresProbes a.a_type coh.sharers <;>
      simp [Manager.tracked, Manager.opening, Xact.start, probes, FullRepresentation.full]

/-- The acceptance of an Acquire probes whoever has too much. -/
theorem Shared.opening {src i : Fin n} {t : AcquireType} {sharers : BitVec n}
    (shared : Shared (Manager.calm sharers (none : Option (VolXact n V)) i) v) (quiet : v.probed = false)
    (poor : i = src → v.owns = false) (custom : ∃ cmd : MemoryOp, t = getAcquireType cmd) :
    Shared { Manager.opening src t sharers i with granting := none } v := by
  -- a sharer is probed unless the block is only read and somebody else shares it too
  have probes : FullRepresentation.has sharers i = true → requiresProbes t sharers = true ∨
      t = .acquireShared ∧ FullRepresentation.one sharers = false := by
    intro sharer
    have some : FullRepresentation.none sharers = false := by
      cases none : FullRepresentation.none sharers with
      | false => rfl
      | true => rw [FullRepresentation.none_iff.mp none i] at sharer; cases sharer
    obtain ⟨cmd, rfl⟩ := custom
    cases single : FullRepresentation.one sharers <;> cases intent : cmd.isWriteIntent <;>
      simp [requiresProbes, some, single, getAcquireType, intent]
  have apart : (Manager.opening src t sharers i).self = false → i ≠ src := by
    simp only [Manager.opening, decide_eq_false_iff_not]
    exact fun other same => other same.symm
  refine shared.restage quiet rfl rfl rfl shared.sharer shared.alone ?_ ?_ ?_ ?_
  · simp only [Manager.opening, Bool.and_eq_true, Bool.not_eq_true', decide_eq_false_iff_not]
    exact fun probe same => probe.2 same.symm
  · intro invalidates sharer
    -- the source keeps its copy, the others are probed
    by_cases same : src = i
    · exact .inl (decide_eq_true same)
    · right
      change FullRepresentation.has sharers i = true at sharer
      rcases probes sharer with needed | ⟨read, -⟩
      · simp [Manager.opening, needed, sharer, Ne.symm same]
      · simp [Manager.opening, read, getProbeType] at invalidates
  · intro _ owns
    have other : i ≠ src := fun same => by rw [poor same] at owns; cases owns
    have sharer : FullRepresentation.has sharers i = true := shared.sharer (View.present_of_owns owns)
    -- an owner is the only sharer, and a single sharer is always probed
    have single := FullRepresentation.one_of_unique sharer (shared.alone owns)
    rcases probes sharer with needed | ⟨-, several⟩
    · simp [Manager.opening, needed, sharer, other]
    · rw [single] at several
      cases several
  · simp [Manager.opening]

/-- A grant adds its client to the sharers; it may write where the block was asked for so, or where no
other client has it. -/
theorem getGrantType_spec {t : AcquireType} (sharers : BitVec n) (src : Fin n)
    (custom : ∃ cmd : MemoryOp, t = getAcquireType cmd) :
    (getGrantType t sharers).isVoluntary = false ∧ (getGrantType t sharers).requiresAck = true ∧
      (getGrantType t sharers).hasData = true ∧
      managerMetadataOnGrant (getGrantType t sharers) src sharers = FullRepresentation.push sharers src ∧
      ∀ cmd, writePermission (clientMetadataOnGrant (getGrantType t sharers) cmd) = true →
        t = .acquireExclusive ∨ FullRepresentation.none sharers = true := by
  obtain ⟨cmd, rfl⟩ := custom
  cases intent : cmd.isWriteIntent <;> cases none : FullRepresentation.none sharers <;>
    simp [getGrantType, getAcquireType, intent, none, GrantType.isVoluntary, GrantType.requiresAck, GrantType.hasData,
      tlNetworkPreservesPointToPointOrdering, managerMetadataOnGrant, clientMetadataOnGrant, writePermission]

/-- When the tracker is about to grant, nobody is probed and every owner was probed before. -/
theorem System.Inv.granting {x : Xact n V} (inv : s.Inv) (acq : s.manager.acq = some x) (busy : x.state = .busy)
    (pending : x.pending_ignt = true) :
    (∀ i, (s.clients i).view.probed = false) ∧ (∀ i, (s.clients i).view.owns = false) ∧
      ∃ req, (s.clients x.src).mshr = .refillResp req ∧ getAcquireType req.cmd = x.a_type ∧
        (s.clients x.src).grant = none := by
  have tracker := (inv.manager.acq x acq).2.2
  have tracked : ∀ i, s.manager.duty i = Manager.tracked x i := fun i => by simp [Manager.duty, acq]
  simp only [Xact.Sound, busy] at tracker
  obtain ⟨-, -, -, sent, answered, -⟩ := tracker
  have quiet := inv.unprobed (by simp [Manager.awaited, acq, answered])
  refine ⟨quiet, ?_, ?_⟩
  -- an owner was probed before, and no probe is under way any more
  · intro i
    have shared := inv.shared i
    rw [tracked] at shared
    cases owns : (s.clients i).view.owns with
    | false => rfl
    | true =>
      rcases shared.owner pending owns with probe | probe
      · simp [Manager.tracked, sent] at probe
      · rw [quiet] at probe
        cases probe
  · have shared := inv.shared x.src
    rw [tracked] at shared
    have granting : (Manager.tracked x x.src).granting = some x.a_type := by simp [Manager.tracked, pending]
    have ungranted := shared.ungranted (.inr (by simp [granting]))
    obtain ⟨req, waiting, type, empty, -⟩ :=
      (inv.clients x.src).asker shared (shared.asked x.a_type granting) (quiet x.src) ungranted
    exact ⟨req, waiting, type, empty⟩

/-! One lemma for each kind of move. -/

theorem System.Inv.shared_acceptAcquire (inv : s.Inv) {src : Fin n} {a : Acquire} {writeback : Bool}
    (asked : (s.clients src).acquire = some a) (acq : s.manager.acq = none)
    (vol : s.manager.vol = none) (evict : s.manager.evict = .none) :
    s.SharedAfter { s.manager with acq := some (.start src a s.manager.resident writeback) } (some (src, .takeAcquire)) := by
  obtain ⟨req, waiting, type⟩ := (inv.clients src).asking asked
  have idle : ∀ i, s.manager.duty i = Manager.calm s.manager.sharers (none : Option (VolXact n V)) i := fun i => by
    simp [Manager.duty, acq, vol, evict]
  have quiet := inv.unprobed (by simp [Manager.awaited, acq, evict])
  -- a client that asks for the block cannot write it
  have poor : (s.clients src).view.owns = false := by
    have shared := inv.shared src
    have ungranted := shared.ungranted (.inl (by simp [Client.view, asked]))
    have wanted : (s.clients src).asked = some (getAcquireType req.cmd) := by simp [Client.asked, waiting]
    obtain ⟨-, -, -, -, poor⟩ := (inv.clients src).asker shared wanted (quiet src) ungranted
    exact poor
  -- first the new duties of all clients, then the Acquire leaves the link of its source
  have staged : ∀ i, Shared { Manager.opening src a.a_type s.manager.sharers i with granting := none }
      (s.clients i).view := by
    intro i
    have shared := inv.shared i
    rw [idle] at shared
    apply shared.opening (quiet i) _ ⟨req.cmd, type⟩
    rintro rfl
    exact poor
  apply System.shared_after
  · have here := (staged src).takeAcquire rfl (by simp [Client.view, asked]) (t := a.a_type)
      (by simp [Client.view, Client.asked, waiting, type])
    have opened : Manager.duty { s.manager with acq := some (.start src a s.manager.resident writeback) } src =
        { Manager.opening src a.a_type s.manager.sharers src with granting := some a.a_type } := by
      simp [Manager.duty, Manager.tracked_start, Manager.opening]
    rw [opened]
    exact here
  · intro j other
    have opened : Manager.duty { s.manager with acq := some (.start src a s.manager.resident writeback) } j =
        { Manager.opening src a.a_type s.manager.sharers j with granting := none } := by
      simp [Manager.duty, Manager.tracked_start, Manager.opening, Ne.symm other]
    rw [opened]
    exact staged j

theorem System.Inv.shared_takeVoluntary (inv : s.Inv) {src : Fin n} {r : Release V}
    (came : (s.clients src).release = some r) (voluntary : r.voluntary = true)
    (vol : s.manager.vol = none) (acq : ∀ x, s.manager.acq = some x → x.state = .wbReq)
    (evict : ∀ w, s.manager.evict ≠ .wb w) :
    s.SharedAfter { s.manager with vol := some ⟨src, r, s.manager.resident.getD .onReset, r.r_type.hasData, true⟩ }
      (some (src, .takeRelease)) := by
  obtain ⟨free, -, unit⟩ := inv.resident came voluntary acq evict
  obtain ⟨sharers, -, duty⟩ := Manager.duty_calm free unit
  have before : ∀ i, s.manager.duty i = Manager.calm sharers (none : Option (VolXact n V)) i := fun i => by
    rw [← duty, ← vol]
  apply System.shared_after
  · have shared := inv.shared src
    rw [before] at shared
    have held := Client.held_of_waits (shared.voluntary_waits came voluntary).1
    rw [duty]
    exact shared.takeVoluntary came voluntary held id (by simp)
  · intro j other
    have shared := inv.shared j
    have same : Manager.calm sharers (some ⟨src, r, s.manager.resident.getD .onReset, r.r_type.hasData, true⟩) j =
        Manager.calm sharers (none : Option (VolXact n V)) j := by
      simp [Manager.calm, Ne.symm other]
    rw [before, ← same] at shared
    rw [duty]
    exact shared

theorem System.Inv.shared_mergeVoluntary (inv : s.Inv) {src : Fin n} {r : Release V} {x : Xact n V}
    (came : (s.clients src).release = some r) (voluntary : r.voluntary = true)
    (acq : s.manager.acq = some x) (merge : x.irelCanMerge = true) :
    s.SharedAfter { s.manager with acq := some { x.mergeRelease r src with pending_vol_ignt := some src } }
      (some (src, .takeRelease)) := by
  have tracked := Manager.duty_of_acq acq
  have free : x.pending_vol_ignt = none := by
    simp only [Xact.irelCanMerge, Bool.and_eq_true, Option.isNone_iff_eq_none] at merge
    exact merge.2
  apply System.shared_after
  · have shared := inv.shared src
    rw [tracked] at shared
    have held := Client.held_of_waits (shared.voluntary_waits came voluntary).1
    exact shared.takeVoluntary came voluntary held has_managerMetadataOnRelease (decide_eq_true rfl)
  · intro j other
    have shared := inv.shared j
    rw [tracked] at shared
    exact shared.onlyFewer rfl rfl other (by simp [Manager.tracked, free, Ne.symm other])

theorem System.Inv.shared_wbVoluntary (inv : s.Inv) {src : Fin n} {r : Release V} {w : Writeback n V}
    (came : (s.clients src).release = some r) (voluntary : r.voluntary = true)
    (acq : s.manager.acq = none) (evict : s.manager.evict = .wb w) (free : w.pending_vol_ignt = none) :
    s.SharedAfter { s.manager with evict := .wb { w.mergeRelease r src with pending_vol_ignt := some src } }
      (some (src, .takeRelease)) := by
  have evicted := Manager.duty_of_wb acq evict
  apply System.shared_after
  · have shared := inv.shared src
    rw [evicted] at shared
    have held := Client.held_of_waits (shared.voluntary_waits came voluntary).1
    simp only [Manager.duty, acq]
    exact shared.takeVoluntary came voluntary held has_managerMetadataOnRelease (decide_eq_true rfl)
  · intro j other
    have shared := inv.shared j
    rw [evicted] at shared
    simp only [Manager.duty, acq]
    exact shared.onlyFewer rfl rfl other (by simp [Manager.evicted, free, Ne.symm other])

theorem System.Inv.shared_takeFinish (inv : s.Inv) {src : Fin n} {x : Xact n V}
    (came : (s.clients src).finish = true) (acq : s.manager.acq = some x) :
    s.SharedAfter { s.manager with acq := some { x with pending_ifins := false } } (some (src, .takeFinish)) := by
  have tracked := Manager.duty_of_acq acq
  have shared := inv.shared src
  rw [tracked] at shared
  have source : x.src = src := by
    have owed := shared.finish_owed came
    simp only [Manager.tracked, Bool.and_eq_true, decide_eq_true_eq] at owed
    exact owed.1
  apply System.shared_after
  · exact shared.takeFinish came (Bool.and_false _)
  · intro j other
    have shared := inv.shared j
    have same : Manager.tracked { x with pending_ifins := false } j = Manager.tracked x j := by
      simp [Manager.tracked, source, Ne.symm other]
    rw [tracked, ← same] at shared
    exact shared

theorem System.Inv.shared_sendProbe (inv : s.Inv) {x : Xact n V} {dst : Fin n}
    (acq : s.manager.acq = some x) (next : FullRepresentation.next x.pending_iprbs = some dst) :
    s.SharedAfter { s.manager with acq := some { x with
          pending_iprbs := FullRepresentation.pop x.pending_iprbs dst
          pending_irels := x.pending_irels + 1 } }
      (some (dst, .probe (getProbeType x.a_type))) := by
  have tracked := Manager.duty_of_acq acq
  apply System.shared_after
  · have shared := inv.shared dst
    rw [tracked] at shared
    exact shared.sendProbe (FullRepresentation.next_spec next) (by simp)
  · intro j other
    have shared := inv.shared j
    have same : Manager.tracked { x with
        pending_iprbs := FullRepresentation.pop x.pending_iprbs dst
        pending_irels := x.pending_irels + 1 } j = Manager.tracked x j := by
      simp [Manager.tracked, other]
    rw [tracked, ← same] at shared
    exact shared

theorem System.Inv.shared_ackVoluntary (inv : s.Inv) {x : Xact n V} {dst : Fin n}
    (acq : s.manager.acq = some x) (owed : x.pending_vol_ignt = some dst) :
    s.SharedAfter { s.manager with acq := some { x with pending_vol_ignt := none } }
      (some (dst, .grant s.manager.voluntaryAck)) := by
  have tracked := Manager.duty_of_acq acq
  apply System.shared_after
  · have shared := inv.shared dst
    rw [tracked] at shared
    have due : (Manager.tracked x dst).acking = true := by simp [Manager.tracked, owed]
    simp only [Client.receive, Manager.voluntaryAck]
    rw [(Client.view_ack shared due).2]
    exact shared.ack due (by simp)
  · intro j other
    have shared := inv.shared j
    have same : Manager.tracked { x with pending_vol_ignt := none } j = Manager.tracked x j := by
      simp [Manager.tracked, owed, Ne.symm other]
    rw [tracked, ← same] at shared
    exact shared

theorem System.Inv.shared_wbAck (inv : s.Inv) {w : Writeback n V} {dst : Fin n}
    (acq : s.manager.acq = none) (evict : s.manager.evict = .wb w)
    (owed : w.pending_vol_ignt = some dst) :
    s.SharedAfter { s.manager with evict := .wb { w with pending_vol_ignt := none } }
      (some (dst, .grant s.manager.voluntaryAck)) := by
  have evicted := Manager.duty_of_wb acq evict
  apply System.shared_after
  · have shared := inv.shared dst
    rw [evicted] at shared
    have due : (Manager.evicted w dst).acking = true := by simp [Manager.evicted, owed]
    simp only [Client.receive, Manager.voluntaryAck, Manager.duty, acq]
    rw [(Client.view_ack shared due).2]
    exact shared.ack due (by simp)
  · intro j other
    have shared := inv.shared j
    have same : Manager.evicted { w with pending_vol_ignt := none } j = Manager.evicted w j := by
      simp [Manager.evicted, owed, Ne.symm other]
    rw [evicted, ← same] at shared
    simp only [Manager.duty, acq]
    exact shared

theorem System.Inv.shared_finishXact (inv : s.Inv) {x : Xact n V}
    (acq : s.manager.acq = some x) (busy : x.state = .busy) (done : x.allPendingDone = true) :
    s.SharedAfter { s.manager with
        acq := none
        resident := if x.pending_meta_write then some x.pending_coh else s.manager.resident } none := by
  have sound := inv.manager
  obtain ⟨-, evict, tracker⟩ := sound.acq x acq
  intro i
  have shared := inv.shared i
  have before : s.manager.duty i = Manager.tracked x i := by simp [Manager.duty, acq]
  rw [before] at shared
  have quiet := inv.unprobed (by simp only [Xact.Sound, busy] at tracker; simp [Manager.awaited, acq, tracker]) i
  simp only [Xact.allPendingDone, Bool.and_eq_true, Bool.not_eq_true', Option.isNone_iff_eq_none] at done
  obtain ⟨⟨⟨⟨⟨-, -⟩, -⟩, granted⟩, acked⟩, finished⟩ := done
  have kept := tracker.written
  have after : Manager.duty { s.manager with
      acq := none
      resident := if x.pending_meta_write then some x.pending_coh else s.manager.resident } i =
      Manager.calm x.pending_coh.sharers s.manager.vol i := by
    simp [Manager.duty, evict, Manager.sharers, kept]
  rw [after]
  have vol := (sound.acq x acq).1
  refine shared.restage quiet ?_ ?_ ?_ shared.sharer shared.alone ?_ ?_ ?_ ?_ <;>
    simp [Manager.calm, Manager.tracked, granted, acked, finished, vol]

theorem System.Inv.shared_volAck (inv : s.Inv) {v : VolXact n V}
    (vol : s.manager.vol = some v) (owed : v.pending_ignt = true) :
    s.SharedAfter { s.manager with vol := some { v with pending_ignt := false } }
      (some (v.src, .grant s.manager.voluntaryAck)) := by
  have sound := inv.manager
  obtain ⟨-, -, unit⟩ := sound.vol v vol
  have acq := sound.acq_of_vol vol
  obtain ⟨sharers, -, duty⟩ := Manager.duty_calm acq unit
  have before : ∀ i, s.manager.duty i = Manager.calm sharers (some v) i := fun i => by
    rw [← duty, ← vol]
  apply System.shared_after
  · have shared := inv.shared v.src
    rw [before] at shared
    have due : (Manager.calm sharers (some v) v.src).acking = true := by simp [Manager.calm, owed]
    rw [duty]
    simp only [Client.receive, Manager.voluntaryAck]
    rw [(Client.view_ack shared due).2]
    exact shared.ack due (by simp)
  · intro j other
    have shared := inv.shared j
    have same : Manager.calm sharers (some { v with pending_ignt := false }) j = Manager.calm sharers (some v) j := by
      simp [Manager.calm, Ne.symm other]
    rw [before, ← same] at shared
    rw [duty]
    exact shared

/-- The client that released its block is no sharer any more, unless the block is on its way out. -/
theorem System.Inv.shared_volDone (inv : s.Inv) {v : VolXact n V}
    (vol : s.manager.vol = some v) (acked : v.pending_ignt = false) :
    s.SharedAfter { s.manager with vol := none, resident := some (v.coh.onRelease v.xact v.src) } none := by
  have sound := inv.manager
  obtain ⟨coh, -, unit⟩ := sound.vol v vol
  have acq := sound.acq_of_vol vol
  obtain ⟨sharers, same, duty⟩ := Manager.duty_calm acq unit
  intro i
  have shared := inv.shared i
  have before : s.manager.duty i = Manager.calm sharers (some v) i := by rw [← duty, ← vol]
  rw [before] at shared
  have quiet := inv.unprobed (Manager.awaited_calm acq unit) i
  rcases unit with unit | ⟨old, unit, -⟩
  -- the block is still resident: the directory loses the client, which has no copy any more
  · have here : sharers = v.coh.sharers := by simp [same unit, Manager.sharers, coh]
    have after : Manager.duty { s.manager with vol := none, resident := some (v.coh.onRelease v.xact v.src) } i =
        Manager.calm (managerMetadataOnRelease v.xact.r_type v.src v.coh.sharers) (none : Option (VolXact n V)) i := by
      simp [Manager.duty, acq, unit, Manager.sharers, Meta.onRelease]
    rw [after]
    rw [here] at shared
    refine shared.restage quiet rfl rfl (by simp [Manager.calm, acked]) ?_ ?_ (by simp [Manager.calm])
      (by simp [Manager.calm]) (by simp [Manager.calm]) (by simp [Manager.calm])
    · intro present
      have other : i ≠ v.src := by
        intro same
        have absent := shared.released (by simp [Manager.calm, same])
        rw [present] at absent
        cases absent
      exact (has_managerMetadataOnRelease_other other).trans (shared.sharer present)
    · exact fun owns k still => shared.alone owns k (has_managerMetadataOnRelease still)
  -- the block is on its way out, and the directory that counts is the one of the victim
  · have after : Manager.duty { s.manager with vol := none, resident := some (v.coh.onRelease v.xact v.src) } i =
        Manager.calm sharers (none : Option (VolXact n V)) i := by
      have settled := duty none i
      simp only [Manager.duty, acq, unit] at settled ⊢
      exact settled
    rw [after]
    exact shared.restage quiet rfl rfl (by simp [Manager.calm, acked]) shared.sharer shared.alone (by simp [Manager.calm])
      (by simp [Manager.calm]) (by simp [Manager.calm]) (by simp [Manager.calm])

theorem System.Inv.shared_wbStart (inv : s.Inv) {old : Meta n}
    (evict : s.manager.evict = .wbReq old) (vol : s.manager.vol = none) :
    s.SharedAfter { s.manager with evict := .wb (.start old) } none := by
  have sound := inv.manager
  have acq := sound.evicting (by simp [evict])
  intro i
  have shared := inv.shared i
  have before : s.manager.duty i = Manager.calm old.sharers s.manager.vol i := by simp [Manager.duty, acq, evict]
  rw [before] at shared
  have quiet := inv.unprobed (by simp [Manager.awaited, acq, evict]) i
  have after : Manager.duty { s.manager with evict := .wb (.start old) } i =
      Manager.evicted (.start old : Writeback n V) i := by
    simp [Manager.duty, acq]
  rw [after]
  refine shared.restage quiet rfl rfl ?_ shared.sharer shared.alone ?_ ?_ ?_ ?_
  · simp [Manager.calm, Manager.evicted, Writeback.start, vol]
  · simp [Manager.evicted]
  -- any directory that is not empty is probed in full
  · intro _ sharer
    have some : FullRepresentation.none old.sharers = false := by
      cases none : FullRepresentation.none old.sharers with
      | false => rfl
      | true =>
        have clear := FullRepresentation.none_iff.mp none i
        change FullRepresentation.has old.sharers i = true at sharer
        rw [clear] at sharer
        cases sharer
    right
    simpa [Manager.evicted, Writeback.start, requiresProbesOnVoluntaryWriteback, some, FullRepresentation.full] using sharer
  · simp [Manager.evicted]
  · simp [Manager.evicted]

theorem System.Inv.shared_wbProbe (inv : s.Inv) {w : Writeback n V} {dst : Fin n}
    (evict : s.manager.evict = .wb w) (next : FullRepresentation.next w.pending_iprbs = some dst) :
    s.SharedAfter { s.manager with evict := .wb { w with
          pending_iprbs := FullRepresentation.pop w.pending_iprbs dst
          pending_irels := w.pending_irels + 1 } }
      (some (dst, .probe .probeInvalidate)) := by
  have sound := inv.manager
  have acq := sound.evicting (by simp [evict])
  have evicted := Manager.duty_of_wb acq evict
  apply System.shared_after
  · have shared := inv.shared dst
    rw [evicted] at shared
    simp only [Manager.duty, acq]
    exact shared.sendProbe (FullRepresentation.next_spec next) (by simp)
  · intro j other
    have shared := inv.shared j
    have same : Manager.evicted { w with
        pending_iprbs := FullRepresentation.pop w.pending_iprbs dst
        pending_irels := w.pending_irels + 1 } j = Manager.evicted w j := by
      simp [Manager.evicted, other]
    rw [evicted, ← same] at shared
    simp only [Manager.duty, acq]
    exact shared

theorem System.Inv.shared_wbResp (inv : s.Inv) {w : Writeback n V}
    (evict : s.manager.evict = .wb w) (done : w.state = .wbResp) :
    s.SharedAfter { s.manager with evict := .refill } none := by
  have sound := inv.manager
  have acq := sound.evicting (by simp [evict])
  obtain ⟨sent, answered, acked⟩ := sound.wb w evict (by simp [done])
  have vol := sound.vol_of_wb (by simp [evict]) (by simp [evict])
  intro i
  have shared := inv.shared i
  have before : s.manager.duty i = Manager.evicted w i := by simp [Manager.duty, acq, evict]
  rw [before] at shared
  have quiet := inv.unprobed (by simp [Manager.awaited, acq, evict, answered]) i
  -- all probes are answered, so no client has a copy any more
  have gone : (Manager.evicted w i).sharer = false := by
    cases sharer : (Manager.evicted w i).sharer with
    | false => rfl
    | true =>
      have probed := shared.taken rfl sharer
      simp [Manager.evicted, sent, quiet] at probed
  have absent : (s.clients i).view.present = false := by
    cases present : (s.clients i).view.present with
    | false => rfl
    | true => rw [shared.sharer present] at gone; cases gone
  have after : Manager.duty { s.manager with evict := .refill } i = Manager.calm 0#n (none : Option (VolXact n V)) i := by
    simp [Manager.duty, acq, vol]
  rw [after]
  refine shared.restage quiet rfl rfl ?_ ?_ ?_ ?_ ?_ ?_ ?_ <;> simp [Manager.calm, Manager.evicted, acked, absent]

theorem Manager.duty_granted {m : Manager n V} {x : Xact n V} (custom : ∃ cmd : MemoryOp, x.a_type = getAcquireType cmd)
    (i : Fin n) :
    Manager.duty { m with acq := some { x.updatePendingCoh
          (x.pending_coh.onGrant (getGrantType x.a_type x.pending_coh.sharers) x.src) with
        pending_ignt := false
        pending_ifins := (getGrantType x.a_type x.pending_coh.sharers).requiresAck } } i =
      { Manager.tracked x i with
        sharer := FullRepresentation.has (FullRepresentation.push x.pending_coh.sharers x.src) i
        alone := ∀ k, FullRepresentation.has (FullRepresentation.push x.pending_coh.sharers x.src) k = true → k = i
        ungranted := false
        granting := none
        unfinished := decide (x.src = i) } := by
  obtain ⟨-, ack, -, pushed, -⟩ := getGrantType_spec x.pending_coh.sharers x.src custom
  simp [Manager.duty, Manager.tracked, Xact.updatePendingCoh, Meta.onGrant, ack, pushed]

/-- Where the block is granted for writing, nobody but the source has it. -/
theorem System.Inv.alone_of_exclusive {x : Xact n V} (inv : s.Inv) (acq : s.manager.acq = some x) (sent : x.pending_iprbs = 0#n)
    (quiet : ∀ i, (s.clients i).view.probed = false) (exclusive : x.a_type = .acquireExclusive) (i : Fin n)
    (sharer : FullRepresentation.has x.pending_coh.sharers i = true) : i = x.src := by
  have shared := inv.shared i
  rw [Manager.duty_of_acq acq] at shared
  rcases shared.taken (by simp [Manager.tracked, exclusive, getProbeType]) sharer with self | probe | probe
  · simp only [Manager.tracked, decide_eq_true_eq] at self
    exact self.symm
  · simp [Manager.tracked, sent] at probe
  · rw [quiet] at probe
    cases probe

theorem System.Inv.shared_granted {x : Xact n V} {d : V} (inv : s.Inv) (acq : s.manager.acq = some x)
    (busy : x.state = .busy) (pending : x.pending_ignt = true) (custom : ∃ cmd : MemoryOp, x.a_type = getAcquireType cmd)
    (sent : x.pending_iprbs = 0#n) (unfinished : x.pending_ifins = false) :
    Shared { Manager.tracked x x.src with
        sharer := FullRepresentation.has (FullRepresentation.push x.pending_coh.sharers x.src) x.src
        alone := ∀ k, FullRepresentation.has (FullRepresentation.push x.pending_coh.sharers x.src) k = true → k = x.src
        ungranted := false
        granting := none
        unfinished := decide (x.src = x.src) }
      ((s.clients x.src).receive (.grant ⟨getGrantType x.a_type x.pending_coh.sharers, d⟩)).view := by
  obtain ⟨quiet, poor, req, waiting, type, empty⟩ := inv.granting acq busy pending
  have owed := inv.shared x.src
  rw [Manager.duty_of_acq acq] at owed
  obtain ⟨involuntary, -, -, -, writable⟩ := getGrantType_spec x.pending_coh.sharers x.src custom
  have granting : (Manager.tracked x x.src).granting = some x.a_type := by simp [Manager.tracked, pending]
  have view : Client.view ((s.clients x.src).receive (.grant ⟨getGrantType x.a_type x.pending_coh.sharers, d⟩)) =
      { (s.clients x.src).view with
        held := clientMetadataOnGrant (getGrantType x.a_type x.pending_coh.sharers) req.cmd
        grant := true } := by
    simp [Client.view, Client.receive, Client.held, Client.asked, Client.waits, waiting, empty, involuntary]
  have clean : (s.clients x.src).view.carries = false := (Bool.or_eq_false_iff.mp (poor x.src)).2
  rw [view]
  refine owed.grant (quiet x.src) granting ?_ ?_ clean ⟨rfl, rfl, rfl⟩ rfl ?_ ⟨rfl, rfl, ?_⟩ ?_
  · simp [Manager.tracked, unfinished]
  · simp [Manager.tracked]
  · simp
  · simp
  · intro writes k sharer
    simp only [FullRepresentation.has_push, Bool.or_eq_true, decide_eq_true_eq] at sharer
    -- a new owner is alone: by its intent the others were probed, else there are none
    rcases sharer with before | same
    · rcases writable req.cmd writes with exclusive | none
      · exact inv.alone_of_exclusive acq sent quiet exclusive k before
      · rw [FullRepresentation.none_iff.mp none k] at before
        cases before
    · exact same

theorem System.Inv.shared_sendGrant {x : Xact n V} {d : V} (inv : s.Inv)
    (acq : s.manager.acq = some x) (busy : x.state = .busy) (pending : x.pending_ignt = true) :
    s.SharedAfter { s.manager with acq := some { x.updatePendingCoh
              (x.pending_coh.onGrant (getGrantType x.a_type x.pending_coh.sharers) x.src) with
            pending_ignt := false
            pending_ifins := (getGrantType x.a_type x.pending_coh.sharers).requiresAck } }
      (some (x.src, .grant ⟨getGrantType x.a_type x.pending_coh.sharers, d⟩)) := by
  obtain ⟨-, -, tracker⟩ := inv.manager.acq x acq
  have tracked := Manager.duty_of_acq acq
  simp only [Xact.Sound, busy, pending] at tracker
  obtain ⟨fresh, -, custom, sent, -⟩ := tracker
  obtain ⟨quiet, poor, -⟩ := inv.granting acq busy pending
  -- nothing was granted yet, so no finish is due
  have unfinished : x.pending_ifins = false := by
    cases finish : x.pending_ifins with
    | false => rfl
    | true => cases fresh finish
  apply System.shared_after
  · rw [Manager.duty_granted custom]
    exact inv.shared_granted acq busy pending custom sent unfinished
  · intro j other
    have shared := inv.shared j
    rw [tracked] at shared
    rw [Manager.duty_granted custom]
    refine shared.restage (quiet j) ?_ ?_ rfl ?_ ?_ ?_ ?_ ?_ ?_
    · simp [Manager.tracked, Ne.symm other]
    · simp [Manager.tracked, Ne.symm other]
    -- the grant only adds its source to the sharers
    · intro present
      have before : FullRepresentation.has x.pending_coh.sharers j = true := shared.sharer present
      simp [before]
    · intro owns
      rw [poor] at owns
      cases owns
    · exact shared.others
    · intro invalidates sharer
      have before : FullRepresentation.has x.pending_coh.sharers j = true := by simpa [other] using sharer
      rcases shared.taken invalidates before with self | probe | probe
      · exact .inl self
      · exact .inr probe
      · rw [quiet] at probe
        cases probe
    · simp
    · simp [Manager.tracked]

theorem System.Inv.managerShared (inv : s.Inv) (moved : s.manager.Moves s.clients m' f) : s.SharedAfter m' f := by
  have sound := inv.manager
  cases moved with
  | acceptAcquire src a writeback asked acq vol evict => exact inv.shared_acceptAcquire asked acq vol evict
  | takeVoluntary src r came voluntary vol acq evict => exact inv.shared_takeVoluntary came voluntary vol acq evict
  | mergeVoluntary src r x came voluntary acq merge => exact inv.shared_mergeVoluntary came voluntary acq merge
  | takeReply src r x came involuntary acq probing =>
    have tracked := Manager.duty_of_acq acq
    apply System.shared_after
    · have shared := inv.shared src
      rw [tracked] at shared
      exact shared.afterReply came involuntary rfl (by simp [Manager.tracked])
    · intro j other
      have shared := inv.shared j
      rw [tracked] at shared
      exact shared.onlyFewer rfl rfl other rfl
  | wbVoluntary src r w came voluntary acq evict probing free => exact inv.shared_wbVoluntary came voluntary acq evict free
  | wbReply src r w came involuntary acq evict probing =>
    have evicted := Manager.duty_of_wb acq evict
    apply System.shared_after
    · have shared := inv.shared src
      rw [evicted] at shared
      simp only [Manager.duty, acq]
      exact shared.afterReply came involuntary rfl fun _ => rfl
    · intro j other
      have shared := inv.shared j
      rw [evicted] at shared
      simp only [Manager.duty, acq]
      exact shared.onlyFewer rfl rfl other rfl
  | takeFinish src x came acq busy => exact inv.shared_takeFinish came acq
  | wbRequested x acq waiting => exact inv.still fun i => by simp [Manager.duty, acq, Manager.tracked]
  | wbDone x acq waiting => exact inv.still fun i => by simp [Manager.duty, acq, Manager.tracked]
  | sendProbe x dst acq next probing => exact inv.shared_sendProbe acq next
  | probesDone x acq probing sent answered => exact inv.still fun i => by simp [Manager.duty, acq, Manager.tracked]
  | outerAcquire x acq missing => exact inv.still fun i => by simp [Manager.duty, acq, Manager.tracked]
  | outerGrant x acq busy waiting =>
    have tracker := (sound.acq x acq).2.2
    simp only [Xact.Sound, busy, waiting, Xact.Fresh] at tracker
    exact inv.still fun i => by
      simp [Manager.duty, acq, Manager.tracked, Manager.refilled, Xact.updatePendingCoh, tracker]
  | readArray x acq busy missing here => exact inv.still fun i => by simp [Manager.duty, acq, Manager.tracked]
  | writeArray x d acq buffered busy here => exact inv.still fun i => by simp [Manager.duty, acq, Manager.tracked]
  | ackVoluntary x dst acq owed => exact inv.shared_ackVoluntary acq owed
  | wbAck w dst acq evict owed => exact inv.shared_wbAck acq evict owed
  | sendGrant x d acq buffered busy pending => exact inv.shared_sendGrant acq busy pending
  | finishXact x acq busy done => exact inv.shared_finishXact acq busy done
  | volWrite v vol pending =>
    exact inv.still fun i => by
      cases acq : s.manager.acq <;> cases unit : s.manager.evict <;> simp [Manager.duty, acq, unit, vol, Manager.calm, Manager.sharers]
  | volAck v vol owed => exact inv.shared_volAck vol owed
  | volDone v vol written acked => exact inv.shared_volDone vol acked
  | evict old resident acq vol evict =>
    exact inv.still fun i => by simp [Manager.duty, acq, evict, vol, Manager.calm, Manager.sharers, resident]
  | wbStart old evict vol => exact inv.shared_wbStart evict vol
  | wbProbe w dst evict next probing => exact inv.shared_wbProbe evict next
  | wbProbesDone w evict probing sent answered acked =>
    exact inv.still fun i => by
      cases acq : s.manager.acq <;> simp [Manager.duty, acq, evict, Manager.evicted]
  | wbMetaResp w coh evict resident waiting =>
    exact inv.still fun i => by
      cases acq : s.manager.acq <;> simp [Manager.duty, acq, evict, Manager.evicted]
  | wbRead w evict busy missing =>
    exact inv.still fun i => by
      cases acq : s.manager.acq <;> simp [Manager.duty, acq, evict, Manager.evicted]
  | wbRelease w d evict busy buffered =>
    exact inv.still fun i => by
      cases acq : s.manager.acq <;> simp [Manager.duty, acq, evict, Manager.evicted]
  | wbGrant w evict waiting =>
    exact inv.still fun i => by
      cases acq : s.manager.acq <;> simp [Manager.duty, acq, evict, Manager.evicted]
  | wbResp w evict done => exact inv.shared_wbResp evict done
  | overwrite v evict => exact inv.still fun i => rfl
  | replaced evict =>
    exact inv.still fun i => by
      cases acq : s.manager.acq <;> simp [Manager.duty, acq, evict, Manager.calm, Manager.sharers]

end LowRisc.Coherence
