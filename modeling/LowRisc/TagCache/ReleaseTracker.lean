import LowRisc.TagCache.AcquireTracker

/-! `TCMemReleaseTracker`, cycle by cycle.

It exists only in the tag cache of a coherent inner side. Grants of releases need an
acknowledgement of the outer memory and carry nothing, so they are not modelled further.
-/

set_option autoImplicit false

namespace LowRisc.TagCache

open LowRisc.Chisel LowRisc.Lib

structure ReleaseBeat (c : Config) where
  /-- a release with data has a beat for each row -/
  hasData : Bool
  addrBlock : Nat
  addrBeat : Nat
  data : Row
  tag : BitVec c.tg.tagBits

inductive RelState where
  | idle | irel | oacq | ignt
  deriving DecidableEq, Repr

def RelState.code : RelState → Nat
  | .idle => 0
  | .irel => 1
  | .oacq => 2
  | .ignt => 3

structure TCMemReleaseTracker (c : Config) where
  mtState : RelState
  tcState : TcState
  tcReqSent : Bool
  order : SearchOrder
  memData : BlockTags c
  ttTag1 : Bool
  ttTagN : Bool
  tm0Tag1 : Bool
  tm0TagN : Bool
  tm1Tag1 : Bool
  addrBlock : Nat
  addrBeat : Nat
  dataBuffer : Nat → Row
  irelCnt : Nat
  oacqCnt : Nat

structure ReleaseInput (c : Config) where
  release : Option (ReleaseBeat c)
  grantReady : Bool
  oacqReady : Bool
  ogrant : Bool
  tcReqReady : Bool
  tcResp : Option TCTagResp
  order : SearchOrder

namespace TCMemReleaseTracker

variable {c : Config} (t : TCMemReleaseTracker c) (inp : ReleaseInput c)

def tags : MemXactTracker c where
  mtState := .idle
  tcState := t.tcState
  tcReqSent := t.tcReqSent
  rw := true
  memAddr := t.addrBlock * Config.blockBytes + t.addrBeat * 2 ^ Config.rowOffBits
  memData := t.memData
  memMask := BitVec.allOnes _
  ttTag1 := t.ttTag1
  ttTagN := t.ttTagN
  tm0Tag1 := t.tm0Tag1
  tm0TagN := t.tm0TagN
  tm1Tag1 := t.tm1Tag1

def resting : Bool := t.mtState == .idle && t.tcState == .idle

def releaseReady : Bool := t.resting || t.mtState == .irel
def released : Option (ReleaseBeat c) := if t.releaseReady then inp.release else none
def irelDone : Bool := (t.released inp).any fun b => !b.hasData || decide (t.irelCnt + 1 = Config.outerDataBeats)

def oacqFire : Bool := t.mtState == .oacq && inp.oacqReady
def oacqDone : Bool := t.oacqFire inp && decide (t.oacqCnt + 1 = Config.outerDataBeats)
def igntFire : Bool := t.mtState == .ignt && inp.ogrant && inp.grantReady

/-- The start of the tag machine. The source compares the state itself with `irel_done`, so an
idle tracker starts without a release. -/
def tcReqValid : Bool := t.mtState.code == (t.irelDone inp).toNat

def mtNext : RelState :=
  match t.mtState with
  | .idle => if (t.released inp).isSome then if t.irelDone inp then .oacq else .irel else .idle
  | .irel => if t.irelDone inp then .oacq else .irel
  | .oacq => if t.oacqDone inp then .ignt else .oacq
  | .ignt => if t.igntFire inp then .idle else .ignt

def tcNext : TcState :=
  if t.tcState = .idle then if t.tcReqValid inp then MemXactTracker.firstState t.order else .idle
  else match inp.tcResp with
    | some r => t.tags.tcStateNext r
    | none => t.tcState

def tagsNext : MemXactTracker c :=
  match inp.tcResp with
  | some r => t.tags.tcResp r
  | none => t.tags

def next : TCMemReleaseTracker c where
  mtState := t.mtNext inp
  tcState := t.tcNext inp
  tcReqSent := if t.tcNext inp ≠ t.tcState then false else t.tcReqSent || inp.tcReqReady
  order := if t.tcNext inp = .idle ∧ (t.tcState ≠ .idle ∨ t.tcReqValid inp = false) then inp.order else t.order
  memData :=
    match t.released inp with
    | some b =>
      let mask := TCMemAcquireTracker.place b.addrBeat (BitVec.allOnes _)
      (t.memData &&& ~~~mask) ||| (TCMemAcquireTracker.place b.addrBeat b.tag &&& mask)
    | none => (t.tagsNext inp).memData
  ttTag1 := (t.tagsNext inp).ttTag1
  ttTagN := (t.tagsNext inp).ttTagN
  tm0Tag1 := (t.tagsNext inp).tm0Tag1
  tm0TagN := (t.tagsNext inp).tm0TagN
  tm1Tag1 := (t.tagsNext inp).tm1Tag1
  addrBlock := if t.resting then ((t.released inp).map ReleaseBeat.addrBlock).getD t.addrBlock else t.addrBlock
  addrBeat := if t.resting then ((t.released inp).map ReleaseBeat.addrBeat).getD t.addrBeat else t.addrBeat
  dataBuffer :=
    match t.released inp with
    | some b => upd t.dataBuffer b.addrBeat b.data
    | none => t.dataBuffer
  irelCnt := counterNext ((t.released inp).any ReleaseBeat.hasData) Config.outerDataBeats t.irelCnt
  oacqCnt := counterNext (t.oacqFire inp) Config.outerDataBeats t.oacqCnt

def tlBlock : Bool := !t.resting

end TCMemReleaseTracker

end LowRisc.TagCache
