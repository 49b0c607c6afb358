import LowRisc.TagCache.TagXactTracker

/-! `TCTagXactTracker`, transfer by transfer.

Every event is one handshake that the tracker waits for in its state, with what the clock edge
then does to its registers and to the arrays. Cycles without a handshake change nothing. Next
to the hardware the state remembers which lines were created without a tag.
-/

set_option autoImplicit false

namespace LowRisc.TagCache

open LowRisc.Chisel LowRisc.Lib

structure TCTagXactTracker where
  state : TagState
  xact : TCTagRequest
  hit : Bool
  wayEn : List Nat
  metaTag : Nat
  metaState : LineState
  metaTcnt : Nat
  dataCnt : Nat
  dataBuf : Line
  fetchCnt : Nat
  reqSent : Bool

structure TagSystem where
  tracker : TCTagXactTracker
  metas : Nat → Nat → TCMetadata
  datas : Nat → Nat → Line
  blank : Nat → Nat → Bool

inductive TagEvent where
  /-- a request is taken -/
  | request (req : TCTagRequest)
  /-- the metadata array answers; `victim` is the way of the replacement -/
  | metaResp (victim : Nat)
  /-- the data array answers -/
  | dataResp
  /-- the data array takes a row -/
  | dataWrite
  /-- the metadata array takes a line -/
  | metaWrite
  /-- the victim is written back -/
  | wbResp
  /-- the outer memory takes the request for the line, and sends a beat of it -/
  | acquire
  | grant (data : Row)
  /-- a line is created without the outer memory -/
  | create
  /-- the lock table is ready, or not needed -/
  | lock
  deriving DecidableEq

namespace TCTagXactTracker

variable (c : Config) (t : TCTagXactTracker)

def idx : Nat := c.idxOf t.xact.addr
def addrTag : Nat := c.tagOf t.xact.addr
def row : Nat := Config.rowOf t.xact.addr
def way : Nat := ohToUInt t.wayEn

def beatDataUpdate (data : Row) (index : Nat) : Row :=
  if index = t.row ∧ t.xact.op = .w then (data &&& ~~~t.xact.mask) ||| t.xact.data else data

def mrNext (hit : Bool) (md : TCMetadata) : TagState :=
  if t.xact.op = .u ∨ t.xact.op = .l then .l
  else if hit then
    if t.xact.op = .i then .mw
    else if !t.xact.op.isWrite && md.tcnt == 0 then .l
    else .dr
  else if t.xact.op = .i ∨ t.xact.op = .r then .l
  else if md.state = .dirty then .wb else .f

def enterF : TCTagXactTracker :=
  if t.xact.op.isCreate then
    { t with
      state := .f
      reqSent := false
      dataBuf := fun i => if i = t.row then t.xact.data &&& t.xact.mask else 0
      metaTcnt := 1
      metaState := .dirty }
  else { t with state := .f, reqSent := false, metaTcnt := 0, metaState := .clean }

/-- The two assertions on the row count in the cycle of the data response. -/
def addsToFull (data : Row) : Bool :=
  (t.xact.data &&& t.xact.mask != 0) && (data == 0) && decide (t.metaTcnt % 16 = 15)
def clearsEmpty (data : Row) : Bool :=
  (t.xact.data &&& t.xact.mask == 0) && (data &&& t.xact.mask != 0) && (data &&& ~~~t.xact.mask == 0)
    && decide (t.metaTcnt % 16 = 0)

/-- The row count behind the data response, a register of four bits. -/
def tcntNext (data : Row) : Nat :=
  if t.xact.data &&& t.xact.mask == 0 && data &&& t.xact.mask != 0 && data &&& ~~~t.xact.mask == 0 then
    (t.metaTcnt + 15) % 16
  else if t.xact.data &&& t.xact.mask != 0 && data == 0 then (t.metaTcnt + 1) % 16
  else t.metaTcnt

def dataResp (data : Row) : TCTagXactTracker :=
  { t with
    state := if t.xact.op.isWrite then .dwr else .l
    reqSent := false
    dataBuf := upd t.dataBuf t.row ((t.xact.data &&& t.xact.mask) ||| (data &&& ~~~t.xact.mask))
    metaTcnt := t.tcntNext data }

def grant (data : Row) : TCTagXactTracker :=
  let updated := t.beatDataUpdate data t.fetchCnt
  let done := counterWrap true Config.outerDataBeats t.fetchCnt
  { t with
    state := if done then .dwb else .f
    reqSent := !done
    dataBuf := upd t.dataBuf t.fetchCnt updated
    metaTcnt := if updated != 0 then (t.metaTcnt + 1) % 16 else t.metaTcnt
    metaState := if updated != data then .dirty else t.metaState
    fetchCnt := counterNext true Config.outerDataBeats t.fetchCnt }

end TCTagXactTracker

namespace TagSystem

variable (c : Config) (s : TagSystem)

def hitWays : List Nat :=
  (List.range c.nWays).filter fun w =>
    (s.metas (s.tracker.idx c) w).tag == s.tracker.addrTag c && (s.metas (s.tracker.idx c) w).isValid

def metaResp (victim : Nat) : TCTagXactTracker :=
  let t := s.tracker
  let hit := !(s.hitWays c).isEmpty
  let wayEn := if hit then s.hitWays c else [victim]
  let md := s.metas (t.idx c) (ohToUInt wayEn)
  let read := { t with
    hit := hit
    wayEn := wayEn
    metaTag := md.tag
    metaState := md.state
    metaTcnt := md.tcnt
    dataBuf := upd t.dataBuf t.row 0
    reqSent := false }
  match t.mrNext hit md with
  | .f => read.enterF
  | .mw => { read with state := .mw, metaState := .invalid }
  | next => { read with state := next }

/-- A row of the line in use as it stands in the data array. -/
def line : Line := s.datas (s.tracker.idx c) s.tracker.way

def setLine (line : Line) : Nat → Nat → Line := fun i w =>
  if i = s.tracker.idx c ∧ w = s.tracker.way then line else s.datas i w

/-- The row goes back under the byte mask. -/
def writeRow : TagSystem :=
  let t := s.tracker
  let mask := byteMask t.xact.mask
  { s with
    tracker := { t with state := .mw, metaState := .dirty }
    datas := s.setLine c (upd (s.line c) t.row ((t.dataBuf t.row &&& mask) ||| (s.line c t.row &&& ~~~mask))) }

def writeLine : TagSystem :=
  let t := s.tracker
  let done := counterWrap true Config.outerDataBeats t.dataCnt
  { s with
    tracker := { t with
      state := if done then .mw else .dwb
      dataCnt := counterNext true Config.outerDataBeats t.dataCnt }
    datas := s.setLine c (upd (s.line c) t.dataCnt (t.dataBuf t.dataCnt)) }

/-- A line that was not there before is new; it is blank when a create brings no tag. -/
def newBlank : Bool :=
  s.tracker.xact.op.isCreate && (s.tracker.xact.data &&& s.tracker.xact.mask == 0)

def writeMeta : TagSystem :=
  let t := s.tracker
  { s with
    tracker := { t with state := .l }
    metas := fun i w =>
      if i = t.idx c ∧ w ∈ t.wayEn then ⟨t.addrTag c, t.metaTcnt, t.metaState⟩ else s.metas i w
    blank := fun i w =>
      if i = t.idx c ∧ w ∈ t.wayEn ∧ t.hit = false then s.newBlank else s.blank i w }

def step : TagEvent → Option TagSystem
  | .request req =>
    if s.tracker.state = .idle then some { s with tracker := { s.tracker with state := .mr, xact := req, reqSent := false } }
    else none
  | .metaResp victim =>
    if s.tracker.state = .mr ∧ victim < c.nWays then some { s with tracker := s.metaResp c victim } else none
  | .dataResp =>
    if s.tracker.state = .dr then
      some { s with tracker := s.tracker.dataResp (s.line c s.tracker.row) }
    else none
  | .dataWrite =>
    if s.tracker.state = .dwr then some (s.writeRow c)
    else if s.tracker.state = .dwb then some (s.writeLine c)
    else none
  | .metaWrite => if s.tracker.state = .mw then some (s.writeMeta c) else none
  | .wbResp => if s.tracker.state = .wb then some { s with tracker := s.tracker.enterF } else none
  | .acquire =>
    if s.tracker.state = .f ∧ s.tracker.xact.op.isCreate = false ∧ s.tracker.reqSent = false then
      some { s with tracker := { s.tracker with reqSent := true } }
    else none
  | .grant data =>
    if s.tracker.state = .f ∧ s.tracker.xact.op.isCreate = false ∧ s.tracker.reqSent = true then
      some { s with tracker := s.tracker.grant data }
    else none
  | .create =>
    if s.tracker.state = .f ∧ s.tracker.xact.op.isCreate = true then
      some { s with tracker := { s.tracker with state := .dwb, reqSent := false } }
    else none
  | .lock => if s.tracker.state = .l then some { s with tracker := { s.tracker with state := .idle } } else none

/-- After reset no line is valid. -/
structure OnReset : Prop where
  state : s.tracker.state = .idle
  dataCnt : s.tracker.dataCnt = 0
  fetchCnt : s.tracker.fetchCnt = 0
  metas : ∀ i w, s.metas i w = .onReset

end TagSystem

def nonzeroRows (line : Line) : Nat := (List.range Config.outerDataBeats).countP fun i => line i != 0

end LowRisc.TagCache
