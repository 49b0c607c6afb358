import LowRisc.TagCache.Types
import LowRisc.Lib.Transition

/-! The tag transaction tracker.

One tracker serves the tag requests of one bank, one after the other. A step of the
model is one visit of a state: the accesses to the arrays that the state makes, all
beats of a line transfer included.
-/

set_option autoImplicit false

namespace LowRisc.TagCache

open LowRisc.Chisel LowRisc.Lib

/-- The states: read metadata, read a row, write a row, write metadata, write back a
line, fetch a line, write a line, and lock or unlock. -/
inductive TagState where
  | idle | mr | dr | dwr | mw | wb | f | dwb | l
  deriving DecidableEq, Repr

structure TagXactTracker where
  state : TagState
  xact : TCTagRequest
  hit : Bool
  wayEn : List Nat
  metaTag : Nat
  metaState : LineState
  metaTcnt : Nat
  dataBuf : Line
  reqSent : Bool
  wbSent : Bool

def byteMask (mask : Row) : Row :=
  (List.range 8).foldl
    (fun acc i => if mask >>> (8 * i) &&& 255#64 == 0 then acc else acc ||| 255#64 <<< (8 * i)) 0

namespace Arrays

def hitWays (c : Config) (a : Arrays) (idx tag : Nat) : List Nat :=
  (List.range c.nWays).filter fun w => (a.metas idx w).tag == tag && (a.metas idx w).isValid

def writeMeta (a : Arrays) (idx : Nat) (wayEn : List Nat) (md : TCMetadata) : Arrays :=
  { a with metas := fun s w => if s = idx ∧ w ∈ wayEn then md else a.metas s w }

def writeData (a : Arrays) (idx way : Nat) (line : Line) : Arrays :=
  { a with datas := fun s w => if s = idx ∧ w = way then line else a.datas s w }

def writeMemory (a : Arrays) (block : Nat) (line : Line) : Arrays :=
  { a with memory := fun b => if b = block then line else a.memory b }

end Arrays

namespace TagXactTracker

variable (c : Config) (t : TagXactTracker)

def idx : Nat := c.idxOf t.xact.addr
def addrTag : Nat := c.tagOf t.xact.addr
def row : Nat := Config.rowOf t.xact.addr
def block : Nat := Config.blockOf t.xact.addr
def way : Nat := ohToUInt t.wayEn
def wbBlock : Nat := c.blockAt t.metaTag (t.idx c)

/-- `beat_data_update`: a write takes effect while the line is fetched. -/
def beatDataUpdate (line : Line) : Line := fun beat =>
  if beat = t.row ∧ t.xact.op = .w then (line beat &&& ~~~t.xact.mask) ||| t.xact.data
  else line beat

/-- Rows of a line that hold a tag, counted as the beats arrive. -/
def countRows (line : Line) : Nat :=
  (List.range Config.outerDataBeats).countP fun beat => line beat != 0

/-- Entering the fetch state prepares an empty line for a create. -/
def enterF : TagXactTracker :=
  if t.xact.op.isCreate then
    { t with
      state := .f
      reqSent := false
      dataBuf := fun i => if i = t.row then t.xact.data &&& t.xact.mask else 0
      metaTcnt := 1
      metaState := .dirty }
  else { t with state := .f, reqSent := false, metaTcnt := 0, metaState := .clean }

def mrNext (hit : Bool) (md : TCMetadata) : TagState :=
  if t.xact.op = .u ∨ t.xact.op = .l then .l
  else if hit then
    if t.xact.op = .i then .mw
    else if !t.xact.op.isWrite && md.tcnt == 0 then .l
    else .dr
  else if t.xact.op = .i ∨ t.xact.op = .r then .l
  else if md.state = .dirty then .wb else .f

/-- The metadata response: hit and way, or the victim that the replacement names. -/
def metaResp (a : Arrays) (victim : Nat) : TagXactTracker :=
  let ways := a.hitWays c (t.idx c) (t.addrTag c)
  let hit := !ways.isEmpty
  let wayEn := if hit then ways else [victim]
  let md := a.metas (t.idx c) (ohToUInt wayEn)
  let read := { t with
    hit := hit
    wayEn := wayEn
    metaTag := md.tag
    metaState := md.state
    metaTcnt := md.tcnt
    dataBuf := upd t.dataBuf t.row 0
    reqSent := false
    wbSent := false }
  match t.mrNext hit md with
  | .f => read.enterF
  | .mw => { read with state := .mw, metaState := .invalid }
  | next => { read with state := next }

/-- The row arrives from the data array: merge the request and adjust the row count. -/
def dataResp (a : Arrays) : TagXactTracker :=
  let data := a.datas (t.idx c) t.way t.row
  let new := t.xact.data &&& t.xact.mask
  let grown := if new != 0 && data == 0 then (t.metaTcnt + 1) % 16 else t.metaTcnt
  let tcnt :=
    if new == 0 && data &&& t.xact.mask != 0 && data &&& ~~~t.xact.mask == 0 then
      (t.metaTcnt + 15) % 16
    else grown
  { t with
    state := if t.xact.op.isWrite then .dwr else .l
    dataBuf := upd t.dataBuf t.row (new ||| (data &&& ~~~t.xact.mask))
    metaTcnt := tcnt }

/-- The row goes back to the data array, byte by byte under the mask. -/
def writtenRow (a : Arrays) : Line :=
  let old := a.datas (t.idx c) t.way
  let mask := byteMask t.xact.mask
  upd old t.row ((t.dataBuf t.row &&& mask) ||| (old t.row &&& ~~~mask))

/-- All beats of a grant: buffer, count and state follow the updated line. -/
def fetched (line : Line) : TagXactTracker :=
  let updated := t.beatDataUpdate line
  { t with
    state := .dwb
    reqSent := false
    dataBuf := updated
    metaTcnt := countRows updated
    metaState := if updated t.row = line t.row then t.metaState else .dirty }

/-- A state visit that needs only the arrays and the outer memory. The states `idle`
and `wb` wait for a request and for the write-back unit, `l` for the lock table. -/
def visit (a : Arrays) (victim : Nat) : Option (TagXactTracker × Arrays) :=
  match t.state with
  | .idle | .wb | .l => none
  | .mr => if victim < c.nWays then some (t.metaResp c a victim, a) else none
  | .dr => some (t.dataResp c a, a)
  | .dwr => some ({ t with state := .mw, metaState := .dirty },
      a.writeData (t.idx c) t.way (t.writtenRow c a))
  | .mw => some ({ t with state := .l },
      a.writeMeta (t.idx c) t.wayEn ⟨t.addrTag c, t.metaTcnt, t.metaState⟩)
  | .f =>
    if t.xact.op.isCreate then some ({ t with state := .dwb }, a)
    else if t.reqSent then some (t.fetched (a.memory t.block), a)
    else some ({ t with reqSent := true }, a)
  | .dwb => some ({ t with state := .mw }, a.writeData (t.idx c) t.way t.dataBuf)

/-- The response a tracker drives: early for writes, at the end for the others. -/
def resp : TCTagResp :=
  ⟨t.xact.id, decide (t.xact.op ≠ .r) || t.hit, t.dataBuf t.row, t.metaTcnt⟩

def accept (req : TCTagRequest) : TagXactTracker :=
  { t with state := .mr, xact := req, reqSent := false }

end TagXactTracker

end LowRisc.TagCache
