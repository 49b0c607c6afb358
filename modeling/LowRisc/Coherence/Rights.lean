import LowRisc.Coherence.System

/-! What each cache may do with the block, and what the manager knows of it.

A grant under way counts as held, and so does a dirty block whose release is under way. The manager's
duties towards a client and what the client has in hand fit together; they are all that a step of the other
side depends on.
-/

set_option autoImplicit false

namespace LowRisc.Coherence

open LowRisc.Lib MESICoherence

variable {n : Nat} {V U : Type}

/-! The client's side. -/

/-- The state that the client has, or will have when the grant under way has come in. -/
def Client.held (c : Client V U) : ClientState :=
  match c.mshr with
  | .wbResp | .metaClear => .clientInvalid
  | .metaWriteReq coh _ => coh
  | .refillResp req =>
    match c.grant with
    | some g => clientMetadataOnGrant g.g_type req.cmd
    | none => c.state
  | _ => c.state

structure View (V : Type) where
  held : ClientState
  asked : Option AcquireType
  waits : Bool
  acquire : Bool
  grant : Bool
  ack : Bool
  release : Option (Release V)
  probe : Option ProbeType
  fq : Bool
  finish : Bool

def Client.asked (c : Client V U) : Option AcquireType :=
  match c.mshr with
  | .refillResp req => some (getAcquireType req.cmd)
  | _ => none

def Client.waits (c : Client V U) : Bool :=
  match c.mshr with
  | .wbResp => true
  | _ => false

def Client.view (c : Client V U) : View V where
  held := c.held
  asked := c.asked
  waits := c.waits
  acquire := c.acquire.isSome
  grant := c.grant.any fun g => !g.g_type.isVoluntary
  ack := c.grant.any fun g => g.g_type.isVoluntary
  release := c.release
  probe := c.probe
  fq := c.fq
  finish := c.finish

namespace View

variable (v : View V)

def releasing : Bool := v.release.any fun r => r.voluntary

def replying : Bool := v.release.any fun r => !r.voluntary

def carries : Bool := v.release.any fun r => r.r_type.hasData

def probed : Bool := v.probe.isSome || v.replying

/-- The client has a copy, or its dirty data are under way. -/
def present : Bool := isValid v.held || v.carries

/-- The client may write, or what it has written is under way. -/
def owns : Bool := writePermission v.held || v.carries

end View

def Request.Covered (req : Request U) : Prop :=
  ∀ a ∈ req.rpq, a.cmd.isWriteIntent = true → req.cmd.isWriteIntent = true

def Client.Lacks (c : Client V U) (req : Request U) : Prop :=
  c.state = .clientInvalid ∨ c.state = .clientShared ∧ req.cmd.isWriteIntent = true

def Permits (coh : ClientState) (rpq : List (Access U)) : Prop :=
  coh ≠ .clientInvalid ∧ ∀ a ∈ rpq, a.cmd.isWriteIntent = true → writePermission coh = true

def Grant.Answers (g : Grant V) (req : Request U) : Prop :=
  g.g_type = .grantExclusive ∨ g.g_type = .grantShared ∧ req.cmd.isWriteIntent = false

def Client.Quiet (c : Client V U) : Prop := c.acquire = none ∧ c.grant = none

def Client.Sound (c : Client V U) : Prop :=
  match c.mshr with
  | .invalid | .metaClear => c.Quiet
  | .wbReq old => c.Quiet ∧ c.state = .clientExclusiveDirty ∧ old = .clientExclusiveDirty
  | .wbResp => c.acquire = none ∧ ∀ g, c.grant = some g → g.g_type = .builtIn .voluntaryAck
  | .beforeRefill req => c.Quiet ∧ c.state = .clientInvalid ∧ req.Covered
  | .refillReq req => c.Quiet ∧ c.Lacks req ∧ req.Covered
  | .refillResp req => c.Lacks req ∧ req.Covered ∧
      (∀ a, c.acquire = some a → a.a_type = getAcquireType req.cmd) ∧ ∀ g, c.grant = some g → g.Answers req
  | .metaWriteReq coh rpq => c.Quiet ∧ Permits coh rpq
  | .metaWriteResp rpq | .drainRpq rpq => c.Quiet ∧ Permits c.state rpq

/-! The manager's side. -/

structure Duty where
  sharer : Bool
  /-- The client is the only sharer, if there is one. -/
  alone : Prop
  toProbe : Bool
  kind : ProbeType
  /-- The transaction takes the block from everyone but its source. -/
  invalidates : Bool
  self : Bool
  ungranted : Bool
  granting : Option AcquireType
  unfinished : Bool
  acking : Bool
  releasing : Bool

namespace Manager

def calm (sharers : BitVec n) (vol : Option (VolXact n V)) (i : Fin n) : Duty where
  sharer := FullRepresentation.has sharers i
  alone := ∀ k, FullRepresentation.has sharers k = true → k = i
  toProbe := false
  kind := .probeInvalidate
  invalidates := false
  self := false
  ungranted := false
  granting := none
  unfinished := false
  acking := vol.any fun v => decide (v.src = i) && v.pending_ignt
  releasing := vol.any fun v => decide (v.src = i)

def tracked (x : Xact n V) (i : Fin n) : Duty where
  sharer := FullRepresentation.has x.pending_coh.sharers i
  alone := ∀ k, FullRepresentation.has x.pending_coh.sharers k = true → k = i
  toProbe := FullRepresentation.has x.pending_iprbs i
  kind := getProbeType x.a_type
  invalidates := decide (getProbeType x.a_type = .probeInvalidate)
  self := decide (x.src = i)
  ungranted := x.pending_ignt
  granting := if x.src = i ∧ x.pending_ignt = true then some x.a_type else none
  unfinished := decide (x.src = i) && x.pending_ifins
  acking := decide (x.pending_vol_ignt = some i)
  releasing := false

def evicted (w : Writeback n V) (i : Fin n) : Duty where
  sharer := FullRepresentation.has w.coh.sharers i
  alone := ∀ k, FullRepresentation.has w.coh.sharers k = true → k = i
  toProbe := FullRepresentation.has w.pending_iprbs i
  kind := .probeInvalidate
  invalidates := true
  self := false
  ungranted := false
  granting := none
  unfinished := false
  acking := decide (w.pending_vol_ignt = some i)
  releasing := false

def sharers (m : Manager n V) : BitVec n :=
  match m.resident with
  | some coh => coh.sharers
  | none => 0#n

def duty (m : Manager n V) (i : Fin n) : Duty :=
  match m.acq, m.evict with
  | some x, _ => tracked x i
  | none, .wb w => evicted w i
  | none, .wbReq old => calm old.sharers m.vol i
  | none, .refill => calm 0#n m.vol i
  | none, .none => calm m.sharers m.vol i

def awaited (m : Manager n V) : Nat :=
  match m.acq, m.evict with
  | some x, _ => x.pending_irels
  | none, .wb w => w.pending_irels
  | none, _ => 0

end Manager

/-! The two sides together. -/

/-- How a reply fits the probe, with the state that the client has left. -/
def Fits (kind : ProbeType) (t : ReleaseType) (held : ClientState) : Prop :=
  match kind with
  | .probeInvalidate =>
    (t = .releaseInvalidateData ∨ t = .releaseInvalidateAck) ∧ held = .clientInvalid
  | .probeDowngrade =>
    (t = .releaseDowngradeData ∨ t = .releaseDowngradeAck) ∧ writePermission held = false
  | .probeCopy => False

structure Shared (d : Duty) (v : View V) : Prop where
  request : v.acquire.toNat + d.granting.isSome.toNat + v.grant.toNat = v.asked.isSome.toNat
  asked : ∀ t, d.granting = some t → v.asked = some t
  finish : v.grant.toNat + v.fq.toNat + v.finish.toNat = d.unfinished.toNat
  release : v.releasing.toNat + d.acking.toNat + v.ack.toNat = v.waits.toNat
  sharer : v.present = true → d.sharer = true
  alone : v.owns = true → d.alone
  probe : ∀ p, v.probe = some p → p = d.kind ∧ v.replying = false
  probed : v.probed = true → d.toProbe = false ∧ d.self = false
  others : d.toProbe = true → d.self = false
  voluntary : ∀ r, v.release = some r → r.voluntary = true → r.r_type = .releaseInvalidateData
  reply : ∀ r, v.release = some r → r.voluntary = false → Fits d.kind r.r_type v.held
  taken : d.invalidates = true → d.sharer = true → d.self = true ∨ d.toProbe = true ∨ v.probed = true
  owner : d.ungranted = true → v.owns = true → d.toProbe = true ∨ v.probed = true
  released : d.releasing = true → v.present = false

def Xact.Fresh (x : Xact n V) : Prop :=
  x.pending_coh.sharers = 0#n ∧ x.pending_vol_ignt = none ∧ x.data_buffer = none ∧ x.pending_writes = false ∧
    x.pending_ignt = true ∧ x.pending_ifins = false ∧ x.pending_meta_write = true

def Xact.Sound (x : Xact n V) (resident : Option (Meta n)) : Prop :=
  (x.pending_ifins = true → x.pending_ignt = false) ∧
  (x.pending_meta_write = false → resident = some x.pending_coh) ∧
  (∃ cmd : MemoryOp, x.a_type = getAcquireType cmd) ∧
  match x.state with
  | .innerProbe => resident.isSome = true ∧ x.pending_ognt = false ∧ x.pending_ignt = true
  | .wbReq | .wbResp | .outerAcquire =>
    x.pending_iprbs = 0#n ∧ x.pending_irels = 0 ∧ resident = none ∧ x.pending_ognt = false ∧ x.Fresh
  | .busy =>
    x.pending_iprbs = 0#n ∧ x.pending_irels = 0 ∧ (x.pending_ognt = true → resident = none ∧ x.Fresh) ∧
      (x.pending_ognt = false → resident = none → x.data_buffer.isSome = true ∧ x.pending_meta_write = true) ∧
      (x.pending_ignt = false → x.data_buffer.isSome = true)

def Writeback.Sound (w : Writeback n V) : Prop :=
  w.state ≠ .innerProbe → w.pending_iprbs = 0#n ∧ w.pending_irels = 0 ∧ w.pending_vol_ignt = none

/-- At most one unit serves the block, except that a voluntary release may come before the writeback. -/
structure Manager.Sound (m : Manager n V) : Prop where
  acq : ∀ x, m.acq = some x → m.vol = none ∧ m.evict = .none ∧ x.Sound m.resident
  vol : ∀ v, m.vol = some v → m.resident = some v.coh ∧ v.xact.r_type = .releaseInvalidateData ∧
    (m.evict = .none ∨ ∃ old, m.evict = .wbReq old ∧ old.sharers ≠ 0#n)
  evict : m.evict ≠ .none → m.resident.isSome = true
  wb : ∀ w, m.evict = .wb w → w.Sound

structure System.Inv (s : System n V U) : Prop where
  clients : ∀ i, (s.clients i).Sound
  manager : s.manager.Sound
  shared : ∀ i, Shared (s.manager.duty i) (s.clients i).view
  awaited : tally (fun c => c.view.probed) s.clients = s.manager.awaited

end LowRisc.Coherence
