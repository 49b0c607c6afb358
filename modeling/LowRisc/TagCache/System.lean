import LowRisc.Lib.Transition
import LowRisc.TagCache.MemXactTracker
import LowRisc.TagCache.TagXactTracker

/-! The tag cache as an interleaving of its components.

Memory trackers send tag requests to the banks through one round-robin arbiter for
each bank. A bank is an initiator and a tag tracker. The tag trackers share the
arrays, the write-back unit, the outer memory and the table of locks. Each event is
one step of one component; a response is taken by its memory tracker in the same step.
-/

set_option autoImplicit false

namespace LowRisc.TagCache

open LowRisc.Chisel LowRisc.Lib

inductive WbState where
  | idle | read | readDone | write | gnt
  deriving DecidableEq, Repr

structure WritebackUnit where
  state : WbState
  id : Nat
  idx : Nat
  wayEn : List Nat
  tag : Nat
  dataBuffer : Line

structure State (c : Config) where
  mem : Nat → MemXactTracker c
  tag : Nat → TagXactTracker
  rstCnt : Nat → Nat
  lastGrant : Nat → Nat
  wb : WritebackUnit
  locks : Nat → TCTagLock
  arrays : Arrays

inductive Event (c : Config) where
  /-- the last beat of an inner acquire -/
  | acquire (m : Nat) (req : AcquireReq c) (order : SearchOrder)
  /-- the memory side of a tracker: outer acquire sent, outer grant, inner grant -/
  | outerAcquire (m : Nat)
  | outerGrant (m : Nat)
  | innerGrant (m : Nat)
  /-- a tag tracker takes a request of its initiator or of its arbiter -/
  | accept (i : Nat)
  /-- a tag tracker visits its state; the way is the victim of a metadata read -/
  | tag (i way : Nat)
  /-- the write-back unit takes the request of a tag tracker -/
  | wbReq (i : Nat)
  /-- the write-back unit visits its state -/
  | wb

namespace Config

variable (c : Config)

def nBlocks (id : Nat) : Nat :=
  c.nTopMapBlocks / c.nTagTransactors + (if id < c.nTopMapBlocks % c.nTagTransactors then 1 else 0)

def initAddr (id rstCnt : Nat) : Nat :=
  c.topMapBase + id * blockBytes + rstCnt * (c.nTagTransactors * blockBytes)

/-- Lock entries store the low bits of the address. -/
def lockAddr (addr : Nat) : Nat := addr % 2 ^ log2Up c.tg.map0Size

def InMem (block : Nat) : Prop :=
  c.tg.memBase ≤ block * blockBytes ∧ block * blockBytes < c.tg.tableBase

instance (block : Nat) : Decidable (c.InMem block) := inferInstanceAs (Decidable (_ ∧ _))

end Config

namespace State

variable {c : Config} (s : State c)

def tcReq (m : Nat) : TCTagRequest := (s.mem m).tcReq m

/-- An entry that another tracker holds on the map bit of a request. -/
def blockedBy (req : TCTagRequest) (e : TCTagLock) : Bool :=
  e.lock && decide (e.addr = c.lockAddr req.addr) && decide (e.lindex = req.lindex) &&
    decide (e.id ≠ req.id)

/-- `tc_req_unblock`: requests on a locked map bit are held back. -/
def tcReqUnblock (m : Nat) : Bool :=
  !c.tg.isMap (s.tcReq m).addr ||
    !(List.range c.nLocks).any fun j => blockedBy (c := c) (s.tcReq m) (s.locks j)

/-- The request that a memory tracker presents to a bank through its demultiplexer. -/
def presents (i m : Nat) : Bool :=
  (s.mem m).tcReqValid && s.tcReqUnblock m && decide (c.bankOf (Config.blockOf (s.tcReq m).addr) = i)

def chosen (i : Nat) : Nat := rrChosen c.nMemTransactors (s.lastGrant i) (s.presents i)

def initialising (i : Nat) : Bool := decide (s.rstCnt i ≠ c.nBlocks i)

/-- The request of an initiator overrides address, data, mask and operation; identifier
and lock index are those on the output of the arbiter. -/
def initReq (i : Nat) : TCTagRequest :=
  ⟨(s.tcReq (s.chosen i)).id, 0, 0, c.initAddr i (s.rstCnt i), .c, (s.tcReq (s.chosen i)).lindex⟩

def setTag (i : Nat) (t : TagXactTracker) : State c :=
  { s with tag := upd s.tag i t }

def setMem (m : Nat) (t : MemXactTracker c) : State c :=
  { s with mem := upd s.mem m t }

/-- A response passes the initiator only when it has sent all its requests. -/
def deliver (i : Nat) (resp : TCTagResp) : State c :=
  if s.initialising i then s else s.setMem resp.id ((s.mem resp.id).tcResp resp)

/-- Unlocking frees every entry with the key and the identifier of the request. -/
def unlock (req : TCTagRequest) : State c :=
  { s with locks := fun j =>
      if (s.locks j).lock ∧ (s.locks j).id = req.id ∧ (s.locks j).addr = c.lockAddr req.addr ∧
          (s.locks j).lindex = req.lindex then { s.locks j with lock := false }
      else s.locks j }

def freeLock : Option Nat := (List.range c.nLocks).find? fun j => !(s.locks j).lock

def setLock (j : Nat) (req : TCTagRequest) : State c :=
  { s with locks := upd s.locks j ⟨req.id, c.lockAddr req.addr, req.lindex, true⟩ }

/-- The lock table as the request of a tracker in state `l` leaves it; a lock request
waits while no entry is free. -/
def lockTable (req : TCTagRequest) : Option (State c) :=
  if c.tg.isMap req.addr then
    if req.op.isLock then s.freeLock.map fun j => s.setLock j req
    else some (s.unlock req)
  else some s

def acquireReady (m : Nat) : Bool :=
  decide ((s.mem m).mtState = .idle) && decide ((s.mem m).tcState = .idle)

/-- `tl_acq_block`: some tracker still works on the block. -/
def tlAcqBlock (block : Nat) : Bool :=
  (List.range c.nMemTransactors).any fun m =>
    (s.mem m).tlBlock && decide ((s.mem m).memAddr = block * Config.blockBytes)

def stepAcquire (m : Nat) (req : AcquireReq c) (order : SearchOrder) : Option (State c) :=
  if c.InMem req.addrBlock ∧ s.tlAcqBlock req.addrBlock = false ∧
      (List.range c.nMemTransactors).find? s.acquireReady = some m then
    some (s.setMem m ((s.mem m).acquire req order))
  else none

/-- The memory side moves on; a grant with data waits for the tags. -/
def stepMt (m : Nat) (source target : MtState) : Option (State c) :=
  if m < c.nMemTransactors ∧ (s.mem m).mtState = source ∧
      (source = .ignt → (s.mem m).rw = true ∨ (s.mem m).tcState = .idle) then
    some (s.setMem m { s.mem m with mtState := target })
  else none

def stepAccept (i : Nat) : Option (State c) :=
  if i < c.nTagTransactors ∧ (s.tag i).state = .idle then
    if s.initialising i then
      some { s.setTag i ((s.tag i).accept (s.initReq i)) with
        rstCnt := upd s.rstCnt i (s.rstCnt i + 1) }
    else if s.presents i (s.chosen i) then
      some { (s.setTag i ((s.tag i).accept (s.tcReq (s.chosen i)))).setMem (s.chosen i)
          { s.mem (s.chosen i) with tcReqSent := true } with
        lastGrant := upd s.lastGrant i (s.chosen i) }
    else none
  else none

/-- The last state of a request: lock or unlock, and answer what has no answer yet. -/
def stepLock (i : Nat) : Option (State c) :=
  (s.lockTable (s.tag i).xact).map fun locked =>
    let done := locked.setTag i { s.tag i with state := .idle }
    if (s.tag i).xact.op.isWrite then done else done.deliver i (s.tag i).resp

/-- Write-type requests are answered when their metadata arrives. -/
def stepVisit (i way : Nat) : Option (State c) :=
  ((s.tag i).visit c s.arrays way).map fun (t, a) =>
    let moved := { s.setTag i t with arrays := a }
    if (s.tag i).state = .mr ∧ (s.tag i).xact.op.isWrite then moved.deliver i (s.tag i).resp
    else moved

def stepTag (i way : Nat) : Option (State c) :=
  if i < c.nTagTransactors then
    if (s.tag i).state = .l then s.stepLock i else s.stepVisit i way
  else none

def stepWbReq (i : Nat) : Option (State c) :=
  if i < c.nTagTransactors ∧ (s.tag i).state = .wb ∧ (s.tag i).wbSent = false ∧
      s.wb.state = .idle then
    some { s.setTag i { s.tag i with wbSent := true } with
      wb := ⟨.read, i, (s.tag i).idx c, (s.tag i).wayEn, (s.tag i).metaTag, fun _ => 0⟩ }
  else none

/-- The write-back unit reads the line, sends it, lets the tag tracker go on and then
waits for the acknowledgement. The memory takes the messages in the order in which they are sent. -/
def stepWb : Option (State c) :=
  match s.wb.state with
  | .idle => none
  | .read => some { s with wb := { s.wb with
      state := .readDone
      dataBuffer := s.arrays.datas s.wb.idx (ohToUInt s.wb.wayEn) } }
  | .readDone => some { s with wb := { s.wb with state := .write } }
  | .write =>
    let sent := { s with
      wb := { s.wb with state := .gnt }
      arrays := s.arrays.writeMemory (c.blockAt s.wb.tag s.wb.idx) s.wb.dataBuffer }
    if (s.tag s.wb.id).state = .wb then some (sent.setTag s.wb.id (s.tag s.wb.id).enterF)
    else some sent
  | .gnt => some { s with wb := { s.wb with state := .idle } }

def step : Event c → Option (State c)
  | .acquire m req order => s.stepAcquire m req order
  | .outerAcquire m => s.stepMt m .oacq .ognt
  | .outerGrant m => s.stepMt m .ognt .ignt
  | .innerGrant m => s.stepMt m .ignt .idle
  | .accept i => s.stepAccept i
  | .tag i way => s.stepTag i way
  | .wbReq i => s.stepWbReq i
  | .wb => s.stepWb

/-- Reset: trackers idle, no lock, no valid line. Memory, data array and the registers
without a reset value are arbitrary. -/
structure OnReset : Prop where
  mem : ∀ m, (s.mem m).OnReset
  tag : ∀ i, (s.tag i).state = .idle
  rstCnt : ∀ i, s.rstCnt i = 0
  lastGrant : ∀ i, s.lastGrant i = 0
  wb : s.wb.state = .idle
  locks : ∀ j, (s.locks j).lock = false
  metas : ∀ idx way, s.arrays.metas idx way = TCMetadata.onReset

end State

def Reaches (c : Config) (ok : State c → Event c → Prop) (s : State c) : Prop :=
  ∃ start : State c, start.OnReset ∧ Steps State.step ok start s

end LowRisc.TagCache
