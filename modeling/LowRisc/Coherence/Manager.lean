import LowRisc.Coherence.Client

/-! The second level cache, as one block sees it.

A block is served by one of three units: the tracker of an Acquire, the tracker of a voluntary Release,
and the writeback unit where a miss on another block of the set takes the block's way. The level below
holds the block when this one does not.
-/

set_option autoImplicit false

namespace LowRisc.Coherence

open MESICoherence

variable {n : Nat} {V U : Type}

/-- What the metadata array says of a resident block; the outer state is valid whenever it is resident. -/
structure Meta (n : Nat) where
  sharers : BitVec n
  dirty : Bool
  deriving DecidableEq, Repr

namespace Meta

def onReset : Meta n := ⟨0#n, false⟩

/-- A release drops its sharer, and its data are dirty here. -/
def onRelease (coh : Meta n) (r : Release V) (src : Fin n) : Meta n :=
  ⟨managerMetadataOnRelease r.r_type src coh.sharers, r.r_type.hasData || coh.dirty⟩

def onGrant (coh : Meta n) (g : GrantType) (dst : Fin n) : Meta n :=
  { coh with sharers := managerMetadataOnGrant g dst coh.sharers }

end Meta

/-! The tracker of an Acquire. -/

inductive XactState where
  | wbReq
  | wbResp
  | innerProbe
  | outerAcquire
  | busy
  deriving DecidableEq, Repr

/-- The registers of `L2AcquireTracker`; the buffer is empty until the block's data have arrived. -/
structure Xact (n : Nat) (V : Type) where
  state : XactState
  src : Fin n
  a_type : AcquireType
  op_code : MemoryOp
  pending_coh : Meta n
  pending_iprbs : BitVec n
  pending_irels : Nat
  pending_vol_ignt : Option (Fin n)
  pending_ognt : Bool
  data_buffer : Option V
  pending_writes : Bool
  /-- The grant is still in `ignt_q`. -/
  pending_ignt : Bool
  pending_ifins : Bool
  pending_meta_write : Bool
  deriving DecidableEq, Repr

namespace Xact

/-- The state after the metadata were read; until then nothing of the set is accepted. A miss may first
write back the block it replaces. -/
def start (src : Fin n) (a : Acquire) (found : Option (Meta n)) (writeback : Bool) : Xact n V :=
  match found with
  | some coh =>
    let probes := requiresProbes a.a_type coh.sharers
    let hit : Meta n := { coh with dirty := a.op_code.isWrite || coh.dirty }
    ⟨if probes then .innerProbe else .busy, src, a.a_type, a.op_code, hit,
      if probes then FullRepresentation.pop (FullRepresentation.full coh.sharers) src else 0#n,
      0, none, false, none, false, true, false, hit != coh⟩
  | none =>
    ⟨if writeback then .wbReq else .outerAcquire, src, a.a_type, a.op_code, .onReset, 0#n,
      0, none, false, none, false, true, false, true⟩

def allPendingDone (x : Xact n V) : Bool :=
  x.data_buffer.isSome && !x.pending_writes && !x.pending_ognt && !x.pending_ignt &&
    x.pending_vol_ignt.isNone && !x.pending_ifins

def updatePendingCoh (x : Xact n V) (coh : Meta n) : Xact n V :=
  { x with pending_coh := coh, pending_meta_write := x.pending_meta_write || coh != x.pending_coh }

/-- `mergeData` of a release. -/
def mergeRelease (x : Xact n V) (r : Release V) (src : Fin n) : Xact n V :=
  { x.updatePendingCoh (x.pending_coh.onRelease r src) with
    data_buffer := if r.r_type.hasData then some r.data else x.data_buffer
    pending_writes := r.r_type.hasData || x.pending_writes }

def irelCanMerge (x : Xact n V) : Bool :=
  x.state != .wbReq && (x.state != .busy || !x.allPendingDone) && x.pending_vol_ignt.isNone

end Xact

/-! The tracker of a voluntary Release. -/

/-- The registers of `L2VoluntaryReleaseTracker`, with the metadata it has read. -/
structure VolXact (n : Nat) (V : Type) where
  src : Fin n
  xact : Release V
  coh : Meta n
  pending_writes : Bool
  pending_ignt : Bool
  deriving DecidableEq, Repr

/-! The writeback unit. -/

inductive WbState where
  | innerProbe
  | metaRead
  | busy
  | outerGrant
  | wbResp
  deriving DecidableEq, Repr

/-- The registers of `L2WritebackUnit`. -/
structure Writeback (n : Nat) (V : Type) where
  state : WbState
  coh : Meta n
  pending_iprbs : BitVec n
  pending_irels : Nat
  pending_vol_ignt : Option (Fin n)
  data_buffer : Option V
  deriving DecidableEq, Repr

namespace Writeback

def start (coh : Meta n) : Writeback n V :=
  let probes := requiresProbesOnVoluntaryWriteback coh.sharers
  ⟨if probes then .innerProbe else if coh.dirty then .busy else .wbResp, coh,
    if probes then FullRepresentation.full coh.sharers else 0#n, 0, none, none⟩

def mergeRelease (w : Writeback n V) (r : Release V) (src : Fin n) : Writeback n V :=
  { w with
    coh := w.coh.onRelease r src
    data_buffer := if r.r_type.hasData then some r.data else w.data_buffer }

end Writeback

inductive Evict (n : Nat) (V : Type) where
  | none
  /-- `s_wb_req`, with the metadata as the tracker has read them. -/
  | wbReq (old : Meta n)
  | wb (w : Writeback n V)
  /-- After the writeback, until the metadata are overwritten. -/
  | refill
  deriving DecidableEq, Repr

structure Manager (n : Nat) (V : Type) where
  /-- The block's entry in the metadata array, where its tag matches. -/
  resident : Option (Meta n)
  array : V
  /-- The block one level below. -/
  outer : V
  acq : Option (Xact n V)
  vol : Option (VolXact n V)
  evict : Evict n V
  deriving DecidableEq, Repr

inductive ManagerAction (n : Nat) (V : Type) where
  | acceptAcquire (src : Fin n) (writeback : Bool)
  | takeRelease (src : Fin n)
  | takeFinish (src : Fin n)
  | wbRequested
  | wbDone
  | sendProbe
  | probesDone
  | outerAcquire
  | outerGrant
  | readArray
  | writeArray
  | ackVoluntary
  | sendGrant
  | finishXact
  | volWrite
  | volAck
  | volDone
  | evict
  | wbStart
  | wbProbe
  | wbProbesDone
  | wbMetaResp
  | wbRead
  | wbRelease
  | wbGrant
  | wbResp
  | overwrite (v : V)
  | replaced
  deriving DecidableEq, Repr

/-- What a step of the manager does to the messages of one client. -/
inductive Effect (V : Type) where
  | takeAcquire
  | takeRelease
  | takeFinish
  | probe (p : ProbeType)
  | grant (g : Grant V)
  deriving DecidableEq, Repr

namespace Manager

def onReset (v : V) : Manager n V := ⟨none, v, v, none, none, .none⟩

/-- The tracker of an Acquire for another block of the set matches while it reads the metadata, so that the
acceptance of the block's own Acquire needs the set to be free. -/
def setFree (m : Manager n V) : Bool :=
  match m.acq, m.vol, m.evict with
  | none, none, .none => true
  | _, _, _ => false

/-- Where a voluntary release goes: no unit matches the block. -/
def volFree (m : Manager n V) : Bool :=
  m.vol.isNone && (match m.acq with | none => true | some x => x.state == .wbReq) &&
    (match m.evict with | .wb _ => false | _ => true)

def refilled (m : Manager n V) (x : Xact n V) : Xact n V :=
  { x.updatePendingCoh ⟨0#n, x.op_code.isWrite⟩ with
    pending_ognt := false
    data_buffer := some m.outer
    pending_writes := true }

/-- A release is offered to the unit that matches; the reply to a probe is taken where it is awaited. -/
def takeRelease (m : Manager n V) (src : Fin n) (r : Release V) : Option (Manager n V) :=
  if m.volFree then
    if r.voluntary then
      some { m with vol := some ⟨src, r, m.resident.getD .onReset, r.r_type.hasData, true⟩ }
    else none
  else match m.acq, m.evict with
    | some x, _ =>
      if r.voluntary then
        if x.irelCanMerge then some { m with acq := some { x.mergeRelease r src with pending_vol_ignt := some src } }
        else none
      else if x.state = .innerProbe then
        some { m with acq := some { x.mergeRelease r src with pending_irels := x.pending_irels - 1 } }
      else none
    | none, .wb w =>
      if w.state = .innerProbe then
        if r.voluntary then
          if w.pending_vol_ignt.isNone then
            some { m with evict := .wb { w.mergeRelease r src with pending_vol_ignt := some src } }
          else none
        else some { m with evict := .wb { w.mergeRelease r src with pending_irels := w.pending_irels - 1 } }
      else none
    | none, _ => none

def voluntaryAck (m : Manager n V) : Grant V := ⟨.builtIn .voluntaryAck, m.array⟩

/-- A step, for the messages of client `c`; the client must be the one the step is about. -/
def step (m : Manager n V) (link : Fin n → Client V U) :
    ManagerAction n V → Option (Manager n V × Option (Fin n × Effect V))
  | .acceptAcquire src writeback =>
    match (link src).acquire with
    | some a =>
      if m.setFree then some ({ m with acq := some (.start src a m.resident writeback) }, some (src, .takeAcquire))
      else none
    | none => none
  | .takeRelease src =>
    match (link src).release with
    | some r => (m.takeRelease src r).map fun m => (m, some (src, .takeRelease))
    | none => none
  | .takeFinish src =>
    match (link src).finish, m.acq with
    | true, some x =>
      if x.state = .busy then some ({ m with acq := some { x with pending_ifins := false } }, some (src, .takeFinish))
      else none
    | _, _ => none
  | .wbRequested =>
    match m.acq with
    | some x => if x.state = .wbReq then some ({ m with acq := some { x with state := .wbResp } }, none) else none
    | none => none
  | .wbDone =>
    match m.acq with
    | some x => if x.state = .wbResp then some ({ m with acq := some { x with state := .outerAcquire } }, none) else none
    | none => none
  | .sendProbe =>
    match m.acq with
    | some x =>
      match FullRepresentation.next x.pending_iprbs with
      | some dst =>
        if x.state = .innerProbe then
          some ({ m with acq := some { x with
              pending_iprbs := FullRepresentation.pop x.pending_iprbs dst
              pending_irels := x.pending_irels + 1 } },
            some (dst, .probe (getProbeType x.a_type)))
        else none
      | none => none
    | none => none
  | .probesDone =>
    match m.acq with
    | some x =>
      if x.state = .innerProbe ∧ x.pending_iprbs = 0#n ∧ x.pending_irels = 0 then
        some ({ m with acq := some { x with state := .busy } }, none)
      else none
    | none => none
  | .outerAcquire =>
    match m.acq with
    | some x =>
      if x.state = .outerAcquire then
        some ({ m with acq := some { x with state := .busy, pending_ognt := true } }, none)
      else none
    | none => none
  | .outerGrant =>
    match m.acq with
    | some x =>
      if x.state = .busy ∧ x.pending_ognt then some ({ m with acq := some (m.refilled x) }, none) else none
    | none => none
  | .readArray =>
    match m.acq with
    | some x =>
      if x.state = .busy ∧ x.data_buffer.isNone ∧ x.pending_ognt = false then
        some ({ m with acq := some { x with data_buffer := some m.array } }, none)
      else none
    | none => none
  | .writeArray =>
    match m.acq with
    | some x =>
      match x.data_buffer with
      | some d =>
        if x.state = .busy ∧ x.pending_writes ∧ x.pending_ognt = false then
          some ({ m with array := d, acq := some { x with pending_writes := false } }, none)
        else none
      | none => none
    | none => none
  | .ackVoluntary =>
    match m.acq, m.evict with
    | some x, _ =>
      match x.pending_vol_ignt with
      | some dst =>
        some ({ m with acq := some { x with pending_vol_ignt := none } }, some (dst, .grant m.voluntaryAck))
      | none => none
    | none, .wb w =>
      match w.pending_vol_ignt with
      | some dst =>
        some ({ m with evict := .wb { w with pending_vol_ignt := none } }, some (dst, .grant m.voluntaryAck))
      | none => none
    | none, _ => none
  | .sendGrant =>
    match m.acq with
    | some x =>
      match x.data_buffer with
      | some d =>
        if x.state = .busy ∧ x.pending_ignt ∧ x.pending_vol_ignt = none then
          let g := getGrantType x.a_type x.pending_coh.sharers
          some ({ m with acq := some { x.updatePendingCoh (x.pending_coh.onGrant g x.src) with
              pending_ignt := false
              pending_ifins := g.requiresAck } },
            some (x.src, .grant ⟨g, d⟩))
        else none
      | none => none
    | none => none
  | .finishXact =>
    match m.acq with
    | some x =>
      if x.state = .busy ∧ x.allPendingDone then
        some ({ m with acq := none, resident := if x.pending_meta_write then some x.pending_coh else m.resident }, none)
      else none
    | none => none
  | .volWrite =>
    match m.vol with
    | some v =>
      if v.pending_writes then some ({ m with array := v.xact.data, vol := some { v with pending_writes := false } }, none)
      else none
    | none => none
  | .volAck =>
    match m.vol with
    | some v =>
      if v.pending_ignt then
        some ({ m with vol := some { v with pending_ignt := false } }, some (v.src, .grant m.voluntaryAck))
      else none
    | none => none
  | .volDone =>
    match m.vol with
    | some v =>
      if v.pending_writes = false ∧ v.pending_ignt = false then
        some ({ m with vol := none, resident := some (v.coh.onRelease v.xact v.src) }, none)
      else none
    | none => none
  | .evict =>
    match m.resident with
    | some old => if m.setFree then some ({ m with evict := .wbReq old }, none) else none
    | none => none
  | .wbStart =>
    match m.evict, m.vol with
    | .wbReq old, none => some ({ m with evict := .wb (.start old) }, none)
    | _, _ => none
  | .wbProbe =>
    match m.evict with
    | .wb w =>
      match FullRepresentation.next w.pending_iprbs with
      | some dst =>
        if w.state = .innerProbe then
          some ({ m with evict := .wb { w with
              pending_iprbs := FullRepresentation.pop w.pending_iprbs dst
              pending_irels := w.pending_irels + 1 } },
            some (dst, .probe (getProbeTypeOnVoluntaryWriteback .flush)))
        else none
      | none => none
    | _ => none
  | .wbProbesDone =>
    match m.evict with
    | .wb w =>
      if w.state = .innerProbe ∧ w.pending_iprbs = 0#n ∧ w.pending_irels = 0 ∧ w.pending_vol_ignt = none then
        some ({ m with evict := .wb { w with state := if w.coh.dirty then .busy else .metaRead } }, none)
      else none
    | _ => none
  | .wbMetaResp =>
    match m.evict, m.resident with
    -- a voluntary release may have dirtied the block after the tracker read its metadata
    | .wb w, some coh =>
      if w.state = .metaRead then
        some ({ m with evict := .wb { w with state := if coh.dirty then .busy else .wbResp } }, none)
      else none
    | _, _ => none
  | .wbRead =>
    match m.evict with
    | .wb w =>
      if w.state = .busy ∧ w.data_buffer.isNone then
        some ({ m with evict := .wb { w with data_buffer := some m.array } }, none)
      else none
    | _ => none
  | .wbRelease =>
    match m.evict with
    | .wb w =>
      match w.data_buffer with
      | some d =>
        if w.state = .busy then some ({ m with outer := d, evict := .wb { w with state := .outerGrant } }, none)
        else none
      | none => none
    | _ => none
  | .wbGrant =>
    match m.evict with
    | .wb w => if w.state = .outerGrant then some ({ m with evict := .wb { w with state := .wbResp } }, none) else none
    | _ => none
  | .wbResp =>
    match m.evict with
    | .wb w => if w.state = .wbResp then some ({ m with evict := .refill }, none) else none
    | _ => none
  | .overwrite v =>
    match m.evict with
    | .refill => some ({ m with array := v }, none)
    | _ => none
  | .replaced =>
    match m.evict with
    | .refill => some ({ m with resident := none, evict := .none }, none)
    | _ => none

end Manager

end LowRisc.Coherence
