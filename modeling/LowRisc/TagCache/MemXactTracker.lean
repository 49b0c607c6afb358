import LowRisc.TagCache.Types

/-! The memory transaction tracker.

Each block transaction of the inner side searches the three levels for the tags
of its block in one of three orders. A write that changes tags then locks the map
bits on the way down and writes table, map 0 and map 1 on the way up.
-/

set_option autoImplicit false

namespace LowRisc.TagCache

open LowRisc.Chisel

/-- The shared tag state machine: reads (`r`), forced reads (`f`), locks (`l`) and
writes (`w`) of the tag table and of the two maps. -/
inductive TcState where
  | idle | ttr | tm0r | tm1f | tm0f | ttf | tm1l | tm0l | ttl | ttw | tm0w | tm1w
  deriving DecidableEq, Repr

/-- The memory side of an acquire tracker, from the last inner beat on. -/
inductive MtState where
  | idle | oacq | ognt | ignt
  deriving DecidableEq, Repr

inductive SearchOrder where
  | topDown | bottomUp | middleUp
  deriving DecidableEq, Repr

/-- An inner acquire with all its beats: kind, block, tags and word mask. -/
structure AcquireReq (c : Config) where
  rw : Bool
  addrBlock : Nat
  tag : BlockTags c
  tmask : BlockTags c

structure MemXactTracker (c : Config) where
  mtState : MtState
  tcState : TcState
  tcReqSent : Bool
  rw : Bool
  memAddr : Nat
  memData : BlockTags c
  memMask : BlockTags c
  ttTag1 : Bool
  ttTagN : Bool
  tm0Tag1 : Bool
  tm0TagN : Bool
  tm1Tag1 : Bool

namespace MemXactTracker

variable {c : Config} (m : MemXactTracker c)

def ttAddr : Nat := c.tg.pa2tta m.memAddr
def ttShift : Nat := c.tg.pa2ttr m.memAddr Config.rowOffBits * 8
def ttRdata (data : Row) : BlockTags c := (data >>> m.ttShift).setWidth _
def ttWdata : Row := m.memData.setWidth 64 <<< m.ttShift
def ttWmask : Row := m.memMask.setWidth 64 <<< m.ttShift

def tm0Addr : Nat := c.tg.pa2tm0a m.memAddr
def tm0BitIndex : Nat := c.tg.pa2tm0b m.memAddr Config.rowOffBits
def tm0LockIndex : Nat := c.tg.pa2tm0i m.memAddr % 2 ^ c.tg.blockOffBits
def tm0Rdata (data : Row) : Bool := data.getLsbD m.tm0BitIndex
def tm0Wdata : Row := (BitVec.ofBool (m.ttTag1 || m.ttTagN)).setWidth 64 <<< m.tm0BitIndex
def tm0Wmask : Row := 1#64 <<< m.tm0BitIndex

def tm1Addr : Nat := c.tg.pa2tm1a m.memAddr
def tm1BitIndex : Nat := c.tg.pa2tm1b m.memAddr Config.rowOffBits
def tm1LockIndex : Nat := c.tg.pa2tm1i m.memAddr % 2 ^ c.tg.blockOffBits
def tm1Rdata (data : Row) : Bool := data.getLsbD m.tm1BitIndex
def tm1Wdata : Row :=
  (BitVec.ofBool (m.ttTag1 || m.ttTagN || m.tm0TagN)).setWidth 64 <<< m.tm1BitIndex
def tm1Wmask : Row := 1#64 <<< m.tm1BitIndex

/-- The new tags of the words that the transaction writes are not all zero. -/
def writesTag : Bool := m.memData &&& m.memMask != 0

def ttwOp : TCTagOp :=
  if !m.ttTag1 && !m.ttTagN then .i else if !m.tm0Tag1 && m.ttTag1 then .c else .w

def tm0wOp : TCTagOp :=
  if (m.ttTag1 || m.ttTagN) == m.tm0Tag1 then .u
  else if !m.ttTag1 && !m.ttTagN && !m.tm0TagN then .i
  else if !m.tm1Tag1 && m.ttTag1 then .c else .w

def tm1wOp : TCTagOp :=
  if (m.ttTag1 || m.ttTagN || m.tm0TagN) == m.tm1Tag1 then .u else .w

def tcReq (id : Nat) : TCTagRequest :=
  match m.tcState with
  | .idle => ⟨id, 0, 0, 0, .r, 0⟩
  | .ttr => ⟨id, 0, 0, m.ttAddr, .r, 0⟩
  | .tm0r => ⟨id, 0, 0, m.tm0Addr, .r, m.tm0LockIndex⟩
  | .tm1f => ⟨id, 0, 0, m.tm1Addr, .fr, m.tm1LockIndex⟩
  | .tm0f => ⟨id, 0, 0, m.tm0Addr, .fr, m.tm0LockIndex⟩
  | .ttf => ⟨id, 0, 0, m.ttAddr, .fr, 0⟩
  | .tm1l => ⟨id, 0, 0, m.tm1Addr, .fl, m.tm1LockIndex⟩
  | .tm0l => ⟨id, 0, 0, m.tm0Addr, if m.tm1Tag1 then .fl else .l, m.tm0LockIndex⟩
  | .ttl => ⟨id, 0, 0, m.ttAddr, if m.tm0Tag1 then .fl else .l, 0⟩
  | .ttw => ⟨id, m.ttWdata, m.ttWmask, m.ttAddr, m.ttwOp, 0⟩
  | .tm0w => ⟨id, m.tm0Wdata, m.tm0Wmask, m.tm0Addr, m.tm0wOp, m.tm0LockIndex⟩
  | .tm1w => ⟨id, m.tm1Wdata, m.tm1Wmask, m.tm1Addr, m.tm1wOp, m.tm1LockIndex⟩

def tcReqValid : Bool := decide (m.tcState ≠ .idle) && !m.tcReqSent

/-- `write_tc_xact_data` with the mask of a search: a write keeps its own words. -/
def searchData (data : BlockTags c) : BlockTags c :=
  let mask := if m.rw then ~~~m.memMask else BitVec.allOnes _
  (m.memData &&& ~~~mask) ||| (data &&& mask)

def tcStateNext (resp : TCTagResp) : TcState :=
  match m.tcState with
  | .idle => .idle
  | .ttr =>
    if !resp.hit then .tm0r
    else if m.rw && (m.memData &&& m.memMask != m.ttRdata resp.data &&& m.memMask) then .tm1l
    else .idle
  | .tm0r =>
    if !resp.hit then .tm1f
    else if m.tm0Rdata resp.data then .ttf
    else if m.rw && m.writesTag then .tm1l else .idle
  | .tm1f =>
    if m.tm1Rdata resp.data then .tm0f
    else if m.rw && m.writesTag then .tm1l else .idle
  | .tm0f =>
    if m.tm0Rdata resp.data then .ttf
    else if m.rw && m.writesTag then .tm1l else .idle
  | .ttf =>
    if m.rw && (m.memData &&& m.memMask != m.ttRdata resp.data &&& m.memMask) then .tm1l
    else .idle
  | .tm1l => .tm0l
  | .tm0l => .ttl
  | .ttl => .ttw
  | .ttw => .tm0w
  | .tm0w => .tm1w
  | .tm1w => .idle

def memDataNext (resp : TCTagResp) : BlockTags c :=
  match m.tcState with
  | .ttr => if resp.hit then m.searchData (m.ttRdata resp.data) else m.memData
  | .ttf => m.searchData (m.ttRdata resp.data)
  | .tm0r => if resp.hit && !m.tm0Rdata resp.data then m.searchData 0 else m.memData
  | .tm0f => if !m.tm0Rdata resp.data then m.searchData 0 else m.memData
  | .tm1f => if !m.tm1Rdata resp.data then m.searchData 0 else m.memData
  | _ => m.memData

/-- A response `io.tc.resp.valid`; an idle tracker ignores it. -/
def tcResp (resp : TCTagResp) : MemXactTracker c :=
  match m.tcState with
  | .idle => m
  | state => { m with
      tcState := m.tcStateNext resp
      tcReqSent := false
      memData := m.memDataNext resp
      tm1Tag1 := if state = .tm1l then m.tm1Rdata resp.data else m.tm1Tag1
      tm0Tag1 := if state = .tm0l then m.tm1Tag1 && m.tm0Rdata resp.data else m.tm0Tag1
      tm0TagN := if state = .tm0l then
          m.tm1Tag1 && (decide (1 < resp.tcnt) || resp.data &&& ~~~m.tm0Wmask != 0)
        else m.tm0TagN
      ttTag1 := if state = .ttl then m.writesTag else m.ttTag1
      ttTagN := if state = .ttl then
          m.tm0Tag1 && (decide (1 < resp.tcnt) || resp.data &&& ~~~m.ttWmask != 0)
        else m.ttTagN }

/-- The first search state of each order. -/
def firstState : SearchOrder → TcState
  | .topDown => .tm1f
  | .bottomUp => .ttr
  | .middleUp => .tm0r

/-- The last beat of an inner acquire starts the tag and the memory side. -/
def acquire (req : AcquireReq c) (order : SearchOrder) : MemXactTracker c :=
  { m with
    mtState := .oacq
    tcState := firstState order
    tcReqSent := false
    rw := req.rw
    memAddr := req.addrBlock * Config.blockBytes
    memData := req.tag &&& req.tmask
    memMask := req.tmask }

/-- The tracker blocks later transactions on its block. -/
def tlBlock : Bool := decide (m.mtState ≠ .idle) || decide (m.tcState ≠ .idle)

/-- The flags that reset sets; the other registers start unknown. -/
def OnReset : Prop :=
  m.mtState = .idle ∧ m.tcState = .idle ∧ m.tcReqSent = false ∧
  m.tm0Tag1 = true ∧ m.tm0TagN = true ∧ m.tm1Tag1 = true

end MemXactTracker

end LowRisc.TagCache
