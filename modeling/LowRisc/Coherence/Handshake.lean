import LowRisc.Coherence.ClientMoves

/-! What the messages under way allow, and what the manager's steps do to a client's view and its duties. -/

set_option autoImplicit false

namespace LowRisc.Coherence

open LowRisc.Lib MESICoherence

variable {n : Nat} {V U : Type} {s : System n V U} {d d' : Duty} {v : View V}

theorem Manager.duty_source {m : Manager n V} {i : Fin n} (unfinished : (m.duty i).unfinished = true) :
    (m.duty i).self = true := by
  unfold Manager.duty at unfinished ⊢
  split at unfinished <;> simp_all [Manager.tracked, Manager.evicted, Manager.calm]

theorem Manager.Sound.kind {m : Manager n V} (sound : m.Sound) (i : Fin n) : (m.duty i).kind ≠ .probeCopy := by
  unfold Manager.duty
  split
  · rename_i x acq
    obtain ⟨-, -, ⟨cmd, custom⟩, -⟩ := (sound.acq x acq).2.2
    cases intent : cmd.isWriteIntent <;> simp [Manager.tracked, custom, getAcquireType, getProbeType, intent]
  all_goals simp [Manager.evicted, Manager.calm]

theorem System.Inv.unprobed (inv : s.Inv) (none : s.manager.awaited = 0) (i : Fin n) :
    (s.clients i).view.probed = false :=
  tally_eq_zero.mp (inv.awaited.trans none) i

theorem Client.held_of_waits {c : Client V U} (waits : c.waits = true) : c.held = .clientInvalid := by
  unfold Client.waits at waits
  split at waits
  · rename_i victim
    simp [Client.held, victim]
  · cases waits

theorem Shared.voluntary_waits {r : Release V} (shared : Shared d v)
    (came : v.release = some r) (voluntary : r.voluntary = true) :
    v.waits = true ∧ d.acking = false ∧ v.ack = false ∧ v.owns = true ∧ v.present = true := by
  have balance := shared.release
  have data := shared.voluntary r came voluntary
  have once := Bool.toNat_le v.waits
  simp only [View.releasing, came, Option.any_some, voluntary, Bool.toNat_true] at balance
  refine ⟨?_, ?_, ?_, ?_, ?_⟩
  · cases waits : v.waits with
    | true => rfl
    | false => rw [waits, Bool.toNat_false] at balance; omega
  · cases acking : d.acking with
    | false => rfl
    | true => rw [acking, Bool.toNat_true] at balance; omega
  · cases ack : v.ack with
    | false => rfl
    | true => rw [ack, Bool.toNat_true] at balance; omega
  · simp [View.owns, View.carries, came, data, ReleaseType.hasData]
  · simp [View.present, View.carries, came, data, ReleaseType.hasData]

theorem Client.Sound.asking {c : Client V U} {a : Acquire} (sound : c.Sound) (asked : c.acquire = some a) :
    ∃ req, c.mshr = .refillResp req ∧ a.a_type = getAcquireType req.cmd := by
  unfold Client.Sound at sound
  split at sound
  case h_7 req waiting => exact ⟨req, waiting, sound.2.2.1 a asked⟩
  all_goals simp_all [Client.Quiet]

theorem View.present_of_owns (owns : v.owns = true) : v.present = true := by
  simp only [View.owns, View.present, Bool.or_eq_true] at owns ⊢
  rcases owns with writes | data
  · left
    cases held : v.held <;> simp_all [writePermission, isValid]
  · exact .inr data

theorem Client.grant_eq_none {c : Client V U} (absent : c.view.grant = false) (unacked : c.view.ack = false) :
    c.grant = none := by
  cases granted : c.grant with
  | none => rfl
  | some g =>
    simp only [Client.view, granted, Option.any_some, Bool.not_eq_false'] at absent unacked
    rw [absent] at unacked
    cases unacked

theorem Shared.ack_waits (shared : Shared d v) (owed : d.acking = true) : v.waits = true ∧ v.ack = false := by
  have balance := shared.release
  have once := Bool.toNat_le v.waits
  rw [owed, Bool.toNat_true] at balance
  constructor
  · cases waits : v.waits with
    | true => rfl
    | false => rw [waits, Bool.toNat_false] at balance; omega
  · cases ack : v.ack with
    | false => rfl
    | true => rw [ack, Bool.toNat_true] at balance; omega

theorem Shared.finish_owed (shared : Shared d v) (came : v.finish = true) : d.unfinished = true := by
  have balance := shared.finish
  rw [came, Bool.toNat_true] at balance
  cases owed : d.unfinished with
  | true => rfl
  | false => rw [owed, Bool.toNat_false] at balance; omega

theorem Shared.ungranted (shared : Shared d v) (first : v.acquire = true ∨ d.granting.isSome = true) :
    v.grant = false := by
  have balance := shared.request
  have once := Bool.toNat_le v.asked.isSome
  cases came : v.grant with
  | false => rfl
  | true =>
    rw [came, Bool.toNat_true] at balance
    rcases first with acquire | granting
    · rw [acquire, Bool.toNat_true] at balance
      omega
    · rw [granting, Bool.toNat_true] at balance
      omega

/-- A client that has asked and is not probed has nothing to lose. -/
theorem Client.Sound.asker {c : Client V U} (sound : c.Sound) (shared : Shared d c.view) {t : AcquireType}
    (asked : c.asked = some t) (quiet : c.view.probed = false) (ungranted : c.view.grant = false) :
    ∃ req, c.mshr = .refillResp req ∧ getAcquireType req.cmd = t ∧ c.grant = none ∧ c.view.owns = false := by
  unfold Client.asked at asked
  split at asked
  · rename_i req waiting
    have rests : c.view.waits = false := by simp [Client.view, Client.waits, waiting]
    have unacked : c.view.ack = false := by
      have balance := shared.release
      rw [rests, Bool.toNat_false] at balance
      cases ack : c.view.ack with
      | false => rfl
      | true => rw [ack, Bool.toNat_true] at balance; omega
    have none := Client.grant_eq_none ungranted unacked
    refine ⟨req, waiting, Option.some.inj asked, none, ?_⟩
    have readOnly : writePermission c.view.held = false := by
      simp only [Client.Sound, waiting] at sound
      rcases sound.1 with absent | ⟨held, -⟩
      · simp [Client.view, Client.held, waiting, none, absent, writePermission]
      · simp [Client.view, Client.held, waiting, none, held, writePermission]
    have clean : c.view.carries = false := by
      cases came : c.view.release with
      | none => simp [View.carries, came]
      | some r =>
        cases voluntary : r.voluntary with
        | true =>
          have waits := (shared.voluntary_waits came voluntary).1
          rw [rests] at waits
          cases waits
        | false => simp [View.probed, View.replying, came, voluntary] at quiet
    simp [View.owns, readOnly, clean]
  · cases asked

theorem Client.view_ack {c : Client V U} {x : V} (shared : Shared d c.view) (owed : d.acking = true) :
    c.grant = none ∧
      Client.view { c with grant := some ⟨.builtIn .voluntaryAck, x⟩ } = { c.view with ack := true } := by
  obtain ⟨waits, unacked⟩ := shared.ack_waits owed
  have victim : c.mshr = .wbResp := by
    change c.waits = true at waits
    unfold Client.waits at waits
    split at waits
    · assumption
    · cases waits
  have absent : c.view.grant = false := by
    have balance := shared.request
    cases came : c.view.grant with
    | false => rfl
    | true =>
      rw [came] at balance
      simp [Client.view, Client.asked, victim] at balance
  have none := Client.grant_eq_none absent unacked
  refine ⟨none, ?_⟩
  simp [Client.view, Client.held, Client.asked, Client.waits, victim, none, GrantType.isVoluntary]

/-! What the clients see of a step. -/

theorem Shared.restage (shared : Shared d v) (quiet : v.probed = false) (granting : d'.granting = d.granting)
    (unfinished : d'.unfinished = d.unfinished) (acking : d'.acking = d.acking)
    (sharer : v.present = true → d'.sharer = true) (alone : v.owns = true → d'.alone)
    (others : d'.toProbe = true → d'.self = false)
    (taken : d'.invalidates = true → d'.sharer = true → d'.self = true ∨ d'.toProbe = true)
    (owner : d'.ungranted = true → v.owns = true → d'.toProbe = true)
    (released : d'.releasing = true → v.present = false) : Shared d' v where
  request := by rw [granting]; exact shared.request
  asked := by rw [granting]; exact shared.asked
  finish := by rw [unfinished]; exact shared.finish
  release := by rw [acking]; exact shared.release
  sharer := sharer
  alone := alone
  probe p came := by simp [View.probed, came] at quiet
  probed probed := by rw [quiet] at probed; cases probed
  others := others
  voluntary := shared.voluntary
  reply r came involuntary := by simp [View.probed, View.replying, came, involuntary] at quiet
  taken invalidates sharer := by
    rcases taken invalidates sharer with self | probe
    · exact .inl self
    · exact .inr (.inl probe)
  owner ungranted owns := .inl (owner ungranted owns)
  released := released

theorem Shared.unasked (shared : Shared d v) (next : d.toProbe = true) : v.probed = false := by
  cases probed : v.probed with
  | false => rfl
  | true =>
    rw [(shared.probed probed).1] at next
    cases next

theorem Shared.sendProbe {toProbe : Bool} (shared : Shared d v) (next : d.toProbe = true) (sent : toProbe = false) :
    Shared { d with toProbe := toProbe } { v with probe := some d.kind } := by
  -- a client that is yet to be probed has no reply under way
  have silent : v.replying = false := (Bool.or_eq_false_iff.mp (shared.unasked next)).2
  refine { shared with
    probe := ?_
    probed := fun _ => ⟨sent, shared.others next⟩
    others := fun probing => by rw [sent] at probing; cases probing
    taken := fun _ _ => .inr (.inr rfl)
    owner := fun _ _ => .inr rfl }
  intro p came
  exact ⟨(Option.some.inj came).symm, silent⟩

theorem Shared.unprobed {r : Release V} (shared : Shared d v) (came : v.release = some r)
    (involuntary : r.voluntary = false) : v.probe = none := by
  have replying : v.replying = true := by simp [View.replying, came, involuntary]
  cases asked : v.probe with
  | none => rfl
  | some p =>
    rw [(shared.probe p asked).2] at replying
    cases replying

theorem Shared.takeReply {r : Release V} {sharer : Bool} {alone : Prop} (shared : Shared d v)
    (came : v.release = some r) (involuntary : r.voluntary = false)
    (kept : sharer = d.sharer ∨ sharer = false ∧ v.held = .clientInvalid) (dropped : d.invalidates = true → sharer = false) :
    Shared { d with sharer := sharer, alone := alone } ({ v with release := none } : View V) := by
  have fits := shared.reply r came involuntary
  have unprobed := shared.unprobed came involuntary
  have present : isValid v.held = true → v.present = true := fun valid => by simp [View.present, valid]
  have owns : writePermission v.held = true → v.owns = true := fun writes => by simp [View.owns, writes]
  -- a reply leaves at most a copy to read, as the manager never sends a copy probe
  have readOnly : writePermission v.held = false := by
    unfold Fits at fits
    split at fits
    · rw [fits.2]
      rfl
    · exact fits.2
    · exact fits.elim
  refine { shared with
    release := ?_
    sharer := ?_
    alone := ?_
    probe := ?_
    probed := ?_
    voluntary := by simp
    reply := by simp
    taken := ?_
    owner := ?_
    released := ?_ }
  · have balance := shared.release
    simpa [View.releasing, came, involuntary] using balance
  · intro valid
    simp only [View.present, View.carries, Option.any_none, Bool.or_false] at valid
    rcases kept with same | ⟨-, gone⟩
    · rw [same]
      exact shared.sharer (present valid)
    · simp [gone, isValid] at valid
  · intro writes
    simp [View.owns, View.carries, readOnly] at writes
  · intro p asked
    rw [unprobed] at asked
    cases asked
  · intro probed
    simp [View.probed, View.replying, unprobed] at probed
  · intro invalidates sharer'
    rw [dropped invalidates] at sharer'
    cases sharer'
  · intro _ writes
    simp [View.owns, View.carries, readOnly] at writes
  · intro releasing
    have absent := shared.released releasing
    simp only [View.present, Bool.or_eq_false_iff] at absent
    simp [View.present, View.carries, absent.1]

theorem Shared.takeVoluntary {r : Release V} {sharer acking releasing : Bool} {alone : Prop} (shared : Shared d v)
    (came : v.release = some r) (voluntary : r.voluntary = true) (held : v.held = .clientInvalid)
    (kept : sharer = true → d.sharer = true) (owed : acking = true) :
    Shared { d with sharer := sharer, alone := alone, acking := acking, releasing := releasing }
      ({ v with release := none } : View V) := by
  subst owed
  have acking := (shared.voluntary_waits came voluntary).2.1
  have absent : isValid v.held = false := by rw [held]; rfl
  have readOnly : writePermission v.held = false := by rw [held]; rfl
  refine { shared with
    release := ?_
    sharer := ?_
    alone := ?_
    probe := fun p asked => ⟨(shared.probe p asked).1, rfl⟩
    probed := ?_
    voluntary := by simp
    reply := by simp
    taken := ?_
    owner := ?_
    released := ?_ }
  · have balance := shared.release
    simp only [View.releasing, came, Option.any_some, voluntary, acking] at balance
    simpa [View.releasing] using balance
  · intro valid
    simp [View.present, View.carries, absent] at valid
  · intro writes
    simp [View.owns, View.carries, readOnly] at writes
  · intro probed
    exact shared.probed (by simpa [View.probed, View.replying, came, voluntary] using probed)
  · intro invalidates sharer'
    have before := shared.taken invalidates (kept sharer')
    simpa [View.probed, View.replying, came, voluntary] using before
  · intro _ writes
    simp [View.owns, View.carries, readOnly] at writes
  · intro _
    simp [View.present, View.carries, absent]

theorem Shared.ack {acking : Bool} (shared : Shared d v) (owed : d.acking = true) (sent : acking = false) :
    Shared { d with acking := acking } { v with ack := true } where
  __ := shared
  release := by
    have balance := shared.release
    have once := Bool.toNat_le v.waits
    rw [owed, Bool.toNat_true] at balance
    -- of a release, its debt and its acknowledgement there is one at a time
    have last : v.releasing.toNat + acking.toNat + true.toNat = v.waits.toNat := by
      rw [sent, Bool.toNat_true, Bool.toNat_false]
      omega
    exact last

theorem Shared.takeFinish {unfinished : Bool} (shared : Shared d v) (came : v.finish = true)
    (settled : unfinished = false) : Shared { d with unfinished := unfinished } { v with finish := false } where
  __ := shared
  finish := by
    have balance := shared.finish
    have once := Bool.toNat_le d.unfinished
    rw [came, Bool.toNat_true] at balance
    simp only [settled, Bool.toNat_false]
    omega

/-- The other clients do not notice that a sharer is dropped. -/
theorem Shared.fewer {alone : Prop} (shared : Shared d v) (fewer : d.alone → alone) : Shared { d with alone := alone } v where
  __ := shared
  alone owns := fewer (shared.alone owns)

theorem Shared.takeAcquire {t : AcquireType} (shared : Shared d v) (free : d.granting = none) (came : v.acquire = true)
    (asked : v.asked = some t) : Shared { d with granting := some t } { v with acquire := false } where
  __ := shared
  request := by
    have balance := shared.request
    rw [free, came, asked] at balance
    simp only [Bool.toNat_true, Option.isSome_some, Option.isSome_none, Bool.toNat_false] at balance
    simp only [asked, Option.isSome_some, Bool.toNat_true, Bool.toNat_false]
    omega
  asked t' same := by
    cases Option.some.inj same
    exact asked

theorem Shared.grant {t : AcquireType} {h : ClientState} (shared : Shared d v) (quiet : v.probed = false)
    (granting : d.granting = some t) (fresh : d.unfinished = false) (own : d.self = true) (clean : v.carries = false)
    (kind : d'.self = d.self ∧ d'.toProbe = d.toProbe ∧ d'.acking = d.acking) (rests : d'.releasing = false)
    (sharer : d'.sharer = true) (granted : d'.granting = none ∧ d'.ungranted = false ∧ d'.unfinished = true)
    (only : writePermission h = true → d'.alone) : Shared d' { v with held := h, grant := true } := by
  -- by the balances no Acquire and no grant is on its way, and no finish is due
  have asked := shared.asked t granting
  have balance := shared.request
  have finished := shared.finish
  rw [granting, asked] at balance
  rw [fresh, Bool.toNat_false] at finished
  simp only [Option.isSome_some, Bool.toNat_true] at balance
  refine { shared with
    request := ?_
    asked := by simp [granted.1]
    finish := ?_
    release := by rw [kind.2.2]; exact shared.release
    sharer := fun _ => sharer
    alone := ?_
    probe := fun p came => ?_
    probed := fun probed => ?_
    others := by rw [kind.1, kind.2.1]; exact shared.others
    reply := ?_
    taken := fun _ _ => .inl (kind.1.trans own)
    owner := by simp [granted.2.1]
    released := by simp [rests] }
  · simp only [asked, granted.1, Option.isSome_some, Option.isSome_none, Bool.toNat_true, Bool.toNat_false]
    omega
  · simp only [granted.2.2, Bool.toNat_true]
    omega
  · intro owns
    simp only [View.owns, View.carries, Bool.or_eq_true] at owns
    rcases owns with writes | data
    · exact only writes
    · rw [View.carries] at clean
      rw [clean] at data
      cases data
  · simp [View.probed, show v.probe = some p from came] at quiet
  · rw [show v.probed = true from probed] at quiet
    cases quiet
  · intro r (came : v.release = some r) involuntary
    simp [View.probed, View.replying, came, involuntary] at quiet

/-! Sharers after a release. -/

theorem has_managerMetadataOnRelease {t : ReleaseType} {src i : Fin n} {sharers : BitVec n}
    (still : FullRepresentation.has (managerMetadataOnRelease t src sharers) i = true) :
    FullRepresentation.has sharers i = true := by
  cases t <;> simp_all [managerMetadataOnRelease]

theorem has_managerMetadataOnRelease_other {t : ReleaseType} {src i : Fin n} {sharers : BitVec n} (other : i ≠ src) :
    FullRepresentation.has (managerMetadataOnRelease t src sharers) i = FullRepresentation.has sharers i := by
  cases t <;> simp [managerMetadataOnRelease, other]

theorem Shared.afterReply {r : Release V} {src : Fin n} {sharers : BitVec n} {alone : Prop} (shared : Shared d v)
    (came : v.release = some r) (involuntary : r.voluntary = false)
    (sharer : d.sharer = FullRepresentation.has sharers src)
    (kind : d.invalidates = true → d.kind = .probeInvalidate) :
    Shared { d with sharer := FullRepresentation.has (managerMetadataOnRelease r.r_type src sharers) src, alone := alone }
      ({ v with release := none } : View V) := by
  have fits := shared.reply r came involuntary
  apply shared.takeReply came involuntary
  · rw [sharer]
    unfold Fits at fits
    split at fits
    · obtain ⟨dropped | dropped, gone⟩ := fits <;> simp [dropped, managerMetadataOnRelease, gone]
    · obtain ⟨kept | kept, -⟩ := fits <;> simp [kept, managerMetadataOnRelease]
    · exact fits.elim
  · intro invalidates
    rw [kind invalidates] at fits
    obtain ⟨dropped | dropped, -⟩ := fits <;> simp [dropped, managerMetadataOnRelease]

theorem Shared.onlyFewer {t : ReleaseType} {src i : Fin n} {sharers : BitVec n} {acking : Bool} (shared : Shared d v)
    (alone : d.alone = ∀ k, FullRepresentation.has sharers k = true → k = i)
    (sharer : d.sharer = FullRepresentation.has sharers i) (other : i ≠ src) (owed : acking = d.acking) :
    Shared { d with
      sharer := FullRepresentation.has (managerMetadataOnRelease t src sharers) i
      alone := ∀ k, FullRepresentation.has (managerMetadataOnRelease t src sharers) k = true → k = i
      acking := acking } v := by
  rw [has_managerMetadataOnRelease_other other, ← sharer, owed]
  apply shared.fewer
  rw [alone]
  exact fun only k still => only k (has_managerMetadataOnRelease still)

end LowRisc.Coherence
