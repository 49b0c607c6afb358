import LowRisc.TagCache.Types
import LowRisc.Lib.Transition

/-! The write-back unit and the data array it reads, cycle by cycle.

The array answers two cycles behind a read. Its read port is shared with the tag trackers and
closed while one of them writes. Next to the hardware the state keeps the accepted requests,
each with the rows of its line, and the beats that the outer memory took.
-/

set_option autoImplicit false

namespace LowRisc.TagCache

open LowRisc.Chisel LowRisc.Lib

/-! The data array. -/

structure TCDataReadReq where
  id : Nat
  way : Nat
  idx : Nat
  row : Nat
  deriving DecidableEq, Repr

/-- The byte mask is spread over the bits of its bytes. -/
structure TCDataWriteReq where
  way : Nat
  idx : Nat
  row : Nat
  data : Row
  mask : Row
  deriving DecidableEq, Repr

structure TCDataArray where
  array : Nat → Nat → Line
  s1 : Option (Nat × Row)
  resp : Option (Nat × Row)

namespace TCDataArray

variable (d : TCDataArray)

def write (w : TCDataWriteReq) : Nat → Nat → Line := fun way idx row =>
  if way = w.way ∧ idx = w.idx ∧ row = w.row then (d.array way idx row &&& ~~~w.mask) ||| (w.data &&& w.mask)
  else d.array way idx row

/-- One cycle; a read is taken only without a write. -/
def cycle (read : Option TCDataReadReq) (write : Option TCDataWriteReq) : TCDataArray where
  array := match write with
    | some w => d.write w
    | none => d.array
  s1 := read.map fun r => (r.id, d.array r.way r.idx r.row)
  resp := d.s1

end TCDataArray

/-! The unit. -/

structure TCWBReq where
  id : Nat
  row : Nat
  idx : Nat
  way : Nat
  tag : Nat
  deriving DecidableEq, Repr

/-- A beat of a `PutBlock`. -/
structure PutBeat where
  addr_block : Nat
  addr_beat : Nat
  data : Row
  deriving DecidableEq, Repr

inductive TCWritebackUnit.State where
  | idle | read | readDone | write | gnt
  deriving DecidableEq, Repr

structure TCWritebackUnit where
  state : TCWritebackUnit.State
  dataBuffer : Line
  readCnt : Nat
  writeCnt : Nat
  tlCnt : Nat
  xact : TCWBReq

/-- What happens around the unit in a cycle: a request, a write of a tag tracker, the read of
another reader that wins the port, and the two handshakes of the outer memory. -/
structure WbInputs where
  request : Option TCWBReq
  write : Option TCDataWriteReq
  reader : Option TCDataReadReq
  acquireReady : Bool
  grantValid : Bool

structure WbSystem where
  unit : TCWritebackUnit
  data : TCDataArray
  accepted : List (TCWBReq × Line)
  sent : List PutBeat

def Config.wbId (c : Config) : Nat := c.nMemTransactors + c.nTagTransactors

namespace WbSystem

variable (c : Config) (s : WbSystem) (e : WbInputs)

def refillCycles : Nat := Config.outerDataBeats

/-- The read port goes to the unit unless a write closes it or another reader wins. -/
def readFire : Bool := decide (s.unit.state = .read) && e.write.isNone && e.reader.isNone

def readDone : Bool := counterWrap (s.readFire e) refillCycles s.unit.readCnt

def resp : Option Row :=
  match s.data.resp with
  | some (id, row) => if id = c.wbId then some row else none
  | none => none

def writeDone : Bool := counterWrap (s.resp c).isSome refillCycles s.unit.writeCnt

def acquireFire : Bool := decide (s.unit.state = .write) && e.acquireReady

def tlDone : Bool := counterWrap (s.acquireFire e) Config.outerDataBeats s.unit.tlCnt

/-- `Cat(tag, idx, tl_cnt, UInt(0, rowOffBits))`. -/
def tlAddr : Nat :=
  (c.blockAt s.unit.xact.tag s.unit.xact.idx * Config.outerDataBeats + s.unit.tlCnt) * 2 ^ Config.rowOffBits

def putBeat : PutBeat where
  addr_block := s.tlAddr c / (Config.outerDataBeats * 2 ^ Config.rowOffBits)
  addr_beat := s.tlAddr c / 2 ^ Config.rowOffBits % Config.outerDataBeats
  data := s.unit.dataBuffer s.unit.tlCnt

def stateNext : TCWritebackUnit.State :=
  match s.unit.state with
  | .idle => if e.request.isSome then .read else .idle
  | .read => if s.readDone e then .readDone else .read
  | .readDone => if s.writeDone c then .write else .readDone
  | .write => if s.tlDone e then .gnt else .write
  | .gnt => if e.grantValid then .idle else .gnt

def arrayRead : Option TCDataReadReq :=
  if e.write.isSome then none
  else match e.reader with
    | some r => some r
    | none =>
      if s.unit.state = .read then some ⟨c.wbId, s.unit.xact.way, s.unit.xact.idx, s.unit.readCnt⟩ else none

def bufferNext : Line :=
  let kept : Line := if s.unit.state = .idle then fun _ => 0 else s.unit.dataBuffer
  match s.resp c with
  | some row => upd kept s.unit.writeCnt row
  | none => kept

def unitNext : TCWritebackUnit where
  state := s.stateNext c e
  dataBuffer := s.bufferNext c
  readCnt := counterNext (s.readFire e) refillCycles s.unit.readCnt
  writeCnt := counterNext (s.resp c).isSome refillCycles s.unit.writeCnt
  tlCnt := counterNext (s.acquireFire e) Config.outerDataBeats s.unit.tlCnt
  xact := if s.unit.state = .idle then e.request.getD s.unit.xact else s.unit.xact

def cycle : WbSystem where
  unit := s.unitNext c e
  data := s.data.cycle (s.arrayRead c e) e.write
  accepted := s.accepted ++ match e.request with
    | some r => if s.unit.state = .idle then [(r, s.data.array r.way r.idx)] else []
    | none => []
  sent := s.sent ++ if s.acquireFire e then [s.putBeat c] else []

def clock : Option WbSystem := some (s.cycle c e)

/-- The set of a request belongs to its tag tracker, which waits: nobody writes to it from the
request on until the last beat is sent. Other readers have identifiers of their own. -/
def owned : Bool :=
  (match e.write with
    | some w =>
      (match s.unit.state with
        | .idle => e.request.all fun r => w.idx != r.idx
        | .gnt => true
        | _ => w.idx != s.unit.xact.idx)
    | none => true)
  && e.reader.all fun r => r.id != c.wbId

structure OnReset : Prop where
  state : s.unit.state = .idle
  readCnt : s.unit.readCnt = 0
  writeCnt : s.unit.writeCnt = 0
  tlCnt : s.unit.tlCnt = 0
  s1 : s.data.s1 = none
  resp : s.data.resp = none
  accepted : s.accepted = []
  sent : s.sent = []

/-- The burst that a request asks for. -/
def burst (request : TCWBReq × Line) : List PutBeat :=
  (List.range Config.outerDataBeats).map fun i =>
    ⟨c.blockAt request.1.tag request.1.idx, i, request.2 i⟩

end WbSystem

end LowRisc.TagCache
