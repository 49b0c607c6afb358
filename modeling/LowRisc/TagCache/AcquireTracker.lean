import LowRisc.TagCache.MemXactTracker
import LowRisc.Lib.Transition

/-! `TCMemAcquireTracker`, cycle by cycle.

A beat is a row of 64 bits with one tag. `MemXactTracker` gives the tag state machine its
requests and its transitions. One call of `next` is one clock edge; the inputs are what the
neighbours present on the channels in the cycle.
-/

set_option autoImplicit false

namespace LowRisc.TagCache

open LowRisc.Chisel LowRisc.Lib

/-- The built-in acquire types, and the types of the coherence policy. -/
inductive AcquireType where
  | get | getBlock | put | putBlock | putAtomic | getPrefetch | putPrefetch | coherent
  deriving DecidableEq, Repr

namespace AcquireType

def hasData : AcquireType → Bool
  | .put | .putBlock | .putAtomic => true
  | _ => false

def hasMultibeatData : AcquireType → Bool
  | .putBlock => true
  | _ => false

/-- The type of the outer request: what is not built in fetches a block. -/
def outer : AcquireType → AcquireType
  | .coherent => .getBlock
  | t => t

/-- The grant of the type carries data. -/
def grantsData : AcquireType → Bool
  | .get | .getBlock | .putAtomic | .coherent => true
  | _ => false

/-- The grant of the type has a beat for each row of the block. -/
def grantsBlock : AcquireType → Bool
  | .getBlock | .coherent => true
  | _ => false

end AcquireType

/-- What a read or an atomic operation says of its operand; the other types have masks in its place. -/
structure Operand where
  addrByte : Nat
  opSize : Nat
  opCode : Nat
  deriving DecidableEq, Repr

def MT_Q : Nat := 7
def M_XRD : Nat := 0

/-- The operand in the union of the outer request. -/
def AcquireType.outerOperand : AcquireType → Operand → Operand
  | .get, o | .putAtomic, o => o
  | .getBlock, o => { o with addrByte := 0 }
  | .coherent, _ => ⟨0, MT_Q, M_XRD⟩
  | .put, _ | .putBlock, _ | .getPrefetch, _ | .putPrefetch, _ => ⟨0, 0, 0⟩

structure AcquireBeat (c : Config) where
  aType : AcquireType
  addrBlock : Nat
  addrBeat : Nat
  data : Row
  tag : BitVec c.tg.tagBits
  wmask : BitVec 8
  tmask : Bool
  operand : Operand

structure GrantBeat (c : Config) where
  isBlock : Bool
  addrBeat : Nat
  data : Row
  tag : BitVec c.tg.tagBits

inductive AcqState where
  | idle | iacq | oacq | ognt | ignt | ifin
  deriving DecidableEq, Repr

structure TCMemAcquireTracker (c : Config) where
  mtState : AcqState
  tcState : TcState
  tcReqSent : Bool
  order : SearchOrder
  memData : BlockTags c
  ttTag1 : Bool
  ttTagN : Bool
  tm0Tag1 : Bool
  tm0TagN : Bool
  tm1Tag1 : Bool
  aType : AcquireType
  addrBlock : Nat
  operand : Operand
  dataBuffer : Nat → Row
  wmaskBuffer : Nat → BitVec 8
  tmaskBuffer : Nat → Bool
  iacqCnt : Nat
  iacqCntReg : Nat
  oacqCnt : Nat
  ogntCnt : Nat
  ogntCntReg : Nat
  igntCnt : Nat
  igntDoneReg : Bool

structure AcquireInput (c : Config) where
  acquire : Option (AcquireBeat c)
  grantReady : Bool
  finish : Bool
  oacqReady : Bool
  ogrant : Option (GrantBeat c)
  tcReqReady : Bool
  tcResp : Option TCTagResp
  order : SearchOrder

namespace TCMemAcquireTracker

variable {c : Config} (uncached : Bool) (t : TCMemAcquireTracker c) (inp : AcquireInput c)

/-- A tag at the place of its beat in the tags of a block. -/
def place (k : Nat) (tag : BitVec c.tg.tagBits) : BlockTags c := tag.setWidth _ <<< (k * c.tg.tagBits)

/-- `xact_tag_buffer(k)` -/
def tagAt (tags : BlockTags c) (k : Nat) : BitVec c.tg.tagBits := tags.extractLsb' (k * c.tg.tagBits) c.tg.tagBits

def tmaskFill (tmask : Bool) : BitVec c.tg.tagBits := if tmask then BitVec.allOnes _ else 0

/-- `tc_xact_mem_mask` -/
def memMask : BlockTags c :=
  (List.range Config.outerDataBeats).foldl (fun mask k => mask ||| place k (tmaskFill (t.tmaskBuffer k))) 0

def tags : MemXactTracker c where
  mtState := .idle
  tcState := t.tcState
  tcReqSent := t.tcReqSent
  rw := t.aType.hasData
  memAddr := t.addrBlock * Config.blockBytes
  memData := t.memData
  memMask := t.memMask
  ttTag1 := t.ttTag1
  ttTagN := t.ttTagN
  tm0Tag1 := t.tm0Tag1
  tm0TagN := t.tm0TagN
  tm1Tag1 := t.tm1Tag1

def resting : Bool := t.mtState == .idle && t.tcState == .idle

/-! The inner acquire. -/

def acquireReady : Bool := t.resting || t.mtState == .iacq
def acquired : Option (AcquireBeat c) := if t.acquireReady then inp.acquire else none
def iacqDone : Bool := (t.acquired inp).any fun b => !b.aType.hasMultibeatData || decide (t.iacqCnt + 1 = Config.outerDataBeats)

/-! The outer acquire. -/

def oacqFire : Bool := t.mtState == .oacq && inp.oacqReady
def oacqMulti : Bool := t.aType.outer.hasMultibeatData
def oacqBeat : Nat := if t.oacqMulti then t.oacqCnt else t.iacqCntReg
def oacqDone : Bool := t.oacqFire inp && (!t.oacqMulti || decide (t.oacqCnt + 1 = Config.outerDataBeats))
def oacqBits : AcquireBeat c :=
  ⟨t.aType.outer, t.addrBlock, t.oacqBeat, t.dataBuffer t.oacqBeat, tagAt t.memData t.oacqBeat,
    t.wmaskBuffer t.oacqBeat, t.tmaskBuffer t.oacqBeat, t.aType.outerOperand t.operand⟩

/-! The outer grant. -/

def granted : Option (GrantBeat c) := if t.mtState == .ognt then inp.ogrant else none
def ogntDone : Bool := (t.granted inp).any fun g => !g.isBlock || decide (t.ogntCnt + 1 = Config.outerDataBeats)

/-! The inner grant, which is sent as early as possible. -/

def igntBeat : Nat := if t.aType.grantsBlock then t.igntCnt else t.ogntCntReg
def igntValid : Bool :=
  !t.igntDoneReg && (t.mtState == .oacq || t.mtState == .ognt || t.mtState == .ignt)
    && (!t.aType.grantsData
      || (t.tcState == .idle && (decide (t.igntBeat < t.ogntCntReg) || t.mtState == .ignt)))
def igntFire : Bool := t.igntValid && inp.grantReady
def igntDone : Bool := t.igntFire inp && (!t.aType.grantsBlock || decide (t.igntCnt + 1 = Config.outerDataBeats))
def igntBits : GrantBeat c :=
  ⟨t.aType.grantsBlock, t.igntBeat, t.dataBuffer t.igntBeat, tagAt t.memData t.igntBeat⟩

/-! The clock edge. -/

def mtNext : AcqState :=
  match t.mtState with
  | .idle => if (t.acquired inp).isSome then if t.iacqDone inp then .oacq else .iacq else .idle
  | .iacq => if t.iacqDone inp then .oacq else .iacq
  | .oacq => if t.oacqDone inp then .ognt else .oacq
  | .ognt => if t.ogntDone inp then .ignt else .ognt
  | .ignt => if t.igntDone inp || t.igntDoneReg then if uncached then .idle else .ifin else .ignt
  | .ifin => if inp.finish then .idle else .ifin

/-- The tag machine starts with the last beat, and moves with every response. -/
def tcNext : TcState :=
  if t.tcState = .idle then if t.iacqDone inp then MemXactTracker.firstState t.order else .idle
  else match inp.tcResp with
    | some r => t.tags.tcStateNext r
    | none => t.tcState

def tagsNext : MemXactTracker c :=
  match inp.tcResp with
  | some r => t.tags.tcResp r
  | none => t.tags

def next : TCMemAcquireTracker c where
  mtState := t.mtNext uncached inp
  tcState := t.tcNext inp
  tcReqSent := if t.tcNext inp ≠ t.tcState then false else t.tcReqSent || inp.tcReqReady
  order := if t.tcNext inp = .idle ∧ (t.tcState ≠ .idle ∨ t.iacqDone inp = false) then inp.order else t.order
  -- the tags of the beats, and of the memory where the mask leaves holes
  memData :=
    match t.acquired inp with
    | some b =>
      let mask := place b.addrBeat (tmaskFill b.tmask)
      (t.memData &&& ~~~mask) ||| (place b.addrBeat b.tag &&& mask)
    | none => if t.resting then 0 else (t.tagsNext inp).memData
  ttTag1 := (t.tagsNext inp).ttTag1
  ttTagN := (t.tagsNext inp).ttTagN
  tm0Tag1 := (t.tagsNext inp).tm0Tag1
  tm0TagN := (t.tagsNext inp).tm0TagN
  tm1Tag1 := (t.tagsNext inp).tm1Tag1
  -- type, block and operand are those of the first beat
  aType := if t.mtState = .idle then ((t.acquired inp).map AcquireBeat.aType).getD t.aType else t.aType
  addrBlock := if t.mtState = .idle then ((t.acquired inp).map AcquireBeat.addrBlock).getD t.addrBlock else t.addrBlock
  operand := if t.mtState = .idle then ((t.acquired inp).map AcquireBeat.operand).getD t.operand else t.operand
  -- a block that is fetched comes into the buffer that the acquire used
  dataBuffer :=
    match t.granted inp with
    | some g => upd t.dataBuffer g.addrBeat g.data
    | none => match t.acquired inp with
      | some b => upd t.dataBuffer b.addrBeat b.data
      | none => t.dataBuffer
  wmaskBuffer :=
    let kept := if t.resting then fun _ => 0 else t.wmaskBuffer
    match t.acquired inp with
    | some b => upd kept b.addrBeat b.wmask
    | none => kept
  tmaskBuffer :=
    let kept := if t.resting then fun _ => false else t.tmaskBuffer
    match t.acquired inp with
    | some b => upd kept b.addrBeat b.tmask
    | none => kept
  iacqCnt := counterNext ((t.acquired inp).any fun b => b.aType.hasMultibeatData) Config.outerDataBeats t.iacqCnt
  iacqCntReg := ((t.acquired inp).map AcquireBeat.addrBeat).getD t.iacqCntReg
  oacqCnt := counterNext (t.oacqFire inp && t.oacqMulti) Config.outerDataBeats t.oacqCnt
  ogntCnt := counterNext ((t.granted inp).any GrantBeat.isBlock) Config.outerDataBeats t.ogntCnt
  ogntCntReg := if (t.acquired inp).isSome then 0 else ((t.granted inp).map GrantBeat.addrBeat).getD t.ogntCntReg
  igntCnt := counterNext (t.igntFire inp && t.aType.grantsBlock) Config.outerDataBeats t.igntCnt
  igntDoneReg := if (t.acquired inp).isSome then false else if t.igntFire inp then t.igntDone inp else t.igntDoneReg

/-- The tracker blocks later transactions on its block. -/
def tlBlock : Bool := !t.resting

end TCMemAcquireTracker

end LowRisc.TagCache
