import LowRisc.Coherence.Policy
import LowRisc.Lib.AtomicMemory

/-! A first level data cache, as one block sees it.

The miss handler of the block's set is either busy with the block or with another block that takes its
place. The messages under way between the cache and the manager are kept with the cache; the values and
the writes to them are of any type.
-/

set_option autoImplicit false

namespace LowRisc.Coherence

open LowRisc.Lib MESICoherence

variable {V U : Type}

/-! Messages. -/

structure Acquire where
  a_type : AcquireType
  op_code : MemoryOp
  deriving DecidableEq, Repr

structure Release (V : Type) where
  voluntary : Bool
  r_type : ReleaseType
  data : V
  deriving DecidableEq, Repr

structure Grant (V : Type) where
  g_type : GrantType
  data : V
  deriving DecidableEq, Repr

/-! Accesses. -/

/-- An access of the core. It `fails` as a store conditional without its reservation or as a store that the
tag check refuses, and then writes nothing. -/
structure Access (U : Type) where
  cmd : MemoryOp
  operand : U
  fails : Bool
  deriving DecidableEq, Repr

def Access.reads (a : Access U) : Bool := a.cmd.isRead && a.cmd != .xsc

def Access.writes (a : Access U) : Bool := a.cmd.isWrite && !a.fails

/-! The miss handler. -/

structure Request (U : Type) where
  cmd : MemoryOp
  rpq : List (Access U)
  deriving DecidableEq, Repr

inductive Mshr (U : Type) where
  | invalid
  /-- `s_wb_req`, with the block as the dirty victim of a miss. -/
  | wbReq (old : ClientState)
  /-- `s_wb_resp`. -/
  | wbResp
  /-- `s_meta_clear`, with the block as the victim. -/
  | metaClear
  /-- The same three states, with another block as the victim of a miss on the block. -/
  | beforeRefill (req : Request U)
  | refillReq (req : Request U)
  | refillResp (req : Request U)
  | metaWriteReq (coh : ClientState) (rpq : List (Access U))
  | metaWriteResp (rpq : List (Access U))
  | drainRpq (rpq : List (Access U))
  deriving DecidableEq, Repr

structure Client (V U : Type) where
  state : ClientState
  data : V
  mshr : Mshr U
  /-- The finish queue holds a Finish. -/
  fq : Bool
  acquire : Option Acquire
  probe : Option ProbeType
  release : Option (Release V)
  grant : Option (Grant V)
  finish : Bool
  deriving DecidableEq, Repr

inductive ClientAction (U : Type) where
  | access (a : Access U)
  | join (a : Access U)
  | evict
  | writeBack
  | clearMeta
  | victimCleared
  | sendAcquire
  | takeGrant
  | writeMeta
  | metaWritten
  | replay
  | drained
  | sendFinish
  | takeProbe
  deriving DecidableEq, Repr

namespace Client

def onReset (v : V) : Client V U := ⟨.clientInvalid, v, .invalid, false, none, none, none, none, false⟩

/-- `s2_hit`: a store to a clean block is not a hit, since its state changes. -/
def hits (c : Client V U) (cmd : MemoryOp) : Bool :=
  isValid c.state && isHit cmd c.state && c.state == clientMetadataOnHit cmd c.state

def perform (act : U → V → V) (c : Client V U) (a : Access U) : Client V U × Event V U :=
  ({ c with data := if a.writes then act a.operand c.data else c.data },
    ⟨if a.reads then some c.data else none, if a.writes then some a.operand else none⟩)

/-- The replay queue takes no prefetches. -/
def enqueued (a : Access U) : List (Access U) := if a.cmd.isPrefetch then [] else [a]

def missed (c : Client V U) (a : Access U) : Mshr U :=
  if isValid c.state then
    if isHit a.cmd c.state then .metaWriteReq (clientMetadataOnHit a.cmd c.state) (enqueued a)
    else .refillReq ⟨a.cmd, enqueued a⟩
  else .beforeRefill ⟨a.cmd, enqueued a⟩

def joined (req : Request U) (a : Access U) : Request U := { req with rpq := req.rpq ++ enqueued a }

def reply (c : Client V U) (p : ProbeType) : Release V := ⟨false, getReleaseTypeOnProbe p c.state, c.data⟩

def step (act : U → V → V) (c : Client V U) : ClientAction U → Option (Client V U × Event V U)
  | .access a =>
    match c.mshr with
    | .invalid =>
      if c.hits a.cmd then some (c.perform act a)
      else if a.cmd.isPrefetch || a.cmd.isRead || a.cmd.isWrite then
        some ({ c with mshr := c.missed a }, .silent)
      else none
    | _ => none
  | .join a =>
    match c.mshr with
    | .beforeRefill req =>
      -- the command is upgraded while no Acquire has been sent
      let cmd := if requiresAcquireOnSecondaryMiss req.cmd a.cmd then a.cmd else req.cmd
      some ({ c with mshr := .beforeRefill { joined req a with cmd := cmd } }, .silent)
    | .refillReq req =>
      if requiresAcquireOnSecondaryMiss req.cmd a.cmd || c.hits a.cmd then none
      else some ({ c with mshr := .refillReq (joined req a) }, .silent)
    | .refillResp req =>
      if requiresAcquireOnSecondaryMiss req.cmd a.cmd || c.hits a.cmd then none
      else some ({ c with mshr := .refillResp (joined req a) }, .silent)
    | _ => none
  | .evict =>
    match c.mshr with
    | .invalid =>
      if isValid c.state then
        some ({ c with mshr := if requiresReleaseOnCacheControl c.state then .wbReq c.state else .metaClear }, .silent)
      else none
    | _ => none
  | .writeBack =>
    match c.mshr with
    | .wbReq old =>
      some ({ c with release := some ⟨true, getReleaseType .flush old, c.data⟩, mshr := .wbResp }, .silent)
    | _ => none
  | .clearMeta =>
    match c.mshr with
    | .metaClear => some ({ c with state := clientMetadataOnCacheControl .flush c.state, mshr := .invalid }, .silent)
    | _ => none
  | .victimCleared =>
    match c.mshr with
    | .beforeRefill req => some ({ c with mshr := .refillReq req }, .silent)
    | _ => none
  | .sendAcquire =>
    match c.mshr with
    | .refillReq req =>
      some ({ c with acquire := some ⟨getAcquireType req.cmd, req.cmd⟩, mshr := .refillResp req }, .silent)
    | _ => none
  | .takeGrant =>
    match c.grant, c.mshr with
    | some g, .wbResp => some ({ c with mshr := .metaClear, fq := c.fq || g.g_type.requiresAck, grant := none }, .silent)
    | some g, .refillResp req =>
      some ({ c with
        data := if g.g_type.hasData then g.data else c.data
        mshr := .metaWriteReq (clientMetadataOnGrant g.g_type req.cmd) req.rpq
        fq := c.fq || g.g_type.requiresAck
        grant := none }, .silent)
    | _, _ => none
  | .writeMeta =>
    match c.mshr with
    | .metaWriteReq coh rpq => some ({ c with state := coh, mshr := .metaWriteResp rpq }, .silent)
    | _ => none
  | .metaWritten =>
    match c.mshr with
    | .metaWriteResp rpq => some ({ c with mshr := .drainRpq rpq }, .silent)
    | _ => none
  | .replay =>
    match c.mshr with
    | .drainRpq (a :: rpq) => some ({ c with mshr := .drainRpq rpq }.perform act a)
    | _ => none
  | .drained =>
    match c.mshr with
    | .drainRpq [] => some ({ c with mshr := .invalid }, .silent)
    | _ => none
  | .sendFinish =>
    -- `can_finish` is about the handler with the queue, which may serve another block by now
    if c.fq then some ({ c with finish := true, fq := false }, .silent) else none
  | .takeProbe =>
    match c.probe, c.mshr with
    -- the metadata are read only where the miss handler is not about to change them
    | some p, .invalid | some p, .refillReq _ | some p, .refillResp _ =>
      some ({ c with
        release := some (c.reply p)
        state := if isValid c.state then clientMetadataOnProbe p c.state else c.state
        probe := none }, .silent)
    | _, _ => none

end Client

end LowRisc.Coherence
