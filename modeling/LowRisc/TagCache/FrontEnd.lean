import LowRisc.TagCache.ReleaseTracker

/-! The inner side of `TagCache`.

`acq` are the trackers that serve acquires, `nAcq` of them; `rel` serves releases and is there
only when the tag cache is not `uncached`. Next to the hardware the state remembers which beats
of a block are still to come, and the tracker that took the first of them.
-/

set_option autoImplicit false

namespace LowRisc.TagCache

open LowRisc.Chisel LowRisc.Lib

/-- A block of which some beats have been accepted: the tracker that has them and their number. -/
structure OpenBlock where
  owner : Nat
  addrBlock : Nat
  count : Nat
  deriving DecidableEq

structure FrontEnd (c : Config) where
  acq : Nat → TCMemAcquireTracker c
  rel : TCMemReleaseTracker c
  acqOpen : Option OpenBlock
  relOpen : Option OpenBlock

structure FrontInput (c : Config) where
  acquire : Option (AcquireBeat c)
  release : Option (ReleaseBeat c)
  /-- what the other neighbours of the trackers present -/
  acqEnv : Nat → AcquireInput c
  relEnv : ReleaseInput c

namespace FrontEnd

variable {c : Config} (uncached : Bool) (nAcq : Nat) (s : FrontEnd c) (inp : FrontInput c)

def acqBusy (i block : Nat) : Bool := (s.acq i).tlBlock && (s.acq i).addrBlock == block
def relBusy (block : Nat) : Bool := !uncached && s.rel.tlBlock && s.rel.addrBlock == block

def tlBlocked (block : Nat) : Bool := s.relBusy uncached block || (List.range nAcq).any fun i => s.acqBusy i block

def tlAcqMatch (block i : Nat) : Bool := s.acqBusy i block && (s.acq i).acquireReady
def tlAcqAlloc (block i : Nat) : Bool :=
  if (List.range nAcq).any (s.tlAcqMatch block) then s.tlAcqMatch block i
  else if s.tlBlocked uncached nAcq block then false
  else (List.range nAcq).find? (fun j => (s.acq j).acquireReady) == some i

/-- `io.inner.acquire.ready`, for the block on offer -/
def acquireReady (block : Nat) : Bool := (List.range nAcq).any (s.tlAcqAlloc uncached nAcq block)

def acqRelConflict : Bool :=
  !uncached && inp.acquire.any fun a => inp.release.any fun r => a.addrBlock == r.addrBlock

/-- The inputs of acquire tracker `i`. -/
def acqInput (i : Nat) : AcquireInput c :=
  { inp.acqEnv i with
    acquire := inp.acquire.filter fun b => s.tlAcqAlloc uncached nAcq b.addrBlock i && !acqRelConflict uncached inp }

def tlRelMatch (block : Nat) : Bool := s.rel.tlBlock && s.rel.releaseReady && s.rel.addrBlock == block
/-- `io.inner.release.ready`, for the block on offer -/
def releaseReady (block : Nat) : Bool :=
  if s.tlRelMatch block then true else if s.tlBlocked uncached nAcq block then false else s.rel.releaseReady

def relInput : ReleaseInput c :=
  { inp.relEnv with
    release := inp.release.filter fun b => !uncached && s.releaseReady uncached nAcq b.addrBlock }

/-- The beat that acquire tracker `i` takes, and the beat that the release tracker takes. -/
def acquiredBy (i : Nat) : Option (AcquireBeat c) := (s.acq i).acquired (s.acqInput uncached nAcq inp i)
def releasedBy : Option (ReleaseBeat c) := s.rel.released (s.relInput uncached nAcq inp)

def acquireFire : Option (AcquireBeat c) := inp.acquire.filter fun b => s.acquireReady uncached nAcq b.addrBlock
def releaseFire : Option (ReleaseBeat c) :=
  inp.release.filter fun b => !uncached && s.releaseReady uncached nAcq b.addrBlock

def opened (before : Option OpenBlock) (many : Bool) (owner addrBlock : Nat) : Option OpenBlock :=
  let count := (before.map OpenBlock.count).getD 0 + 1
  if many && decide (count ≠ Config.outerDataBeats) then some ⟨(before.map OpenBlock.owner).getD owner, addrBlock, count⟩
  else none

def cycle : FrontEnd c where
  acq i := (s.acq i).next uncached (s.acqInput uncached nAcq inp i)
  rel := s.rel.next (s.relInput uncached nAcq inp)
  acqOpen :=
    match s.acquireFire uncached nAcq inp with
    | some b => opened s.acqOpen b.aType.hasMultibeatData
        (((List.range nAcq).find? fun i => (s.acquiredBy uncached nAcq inp i).isSome).getD nAcq) b.addrBlock
    | none => s.acqOpen
  relOpen :=
    match s.releaseFire uncached nAcq inp with
    | some b => opened s.relOpen b.hasData 0 b.addrBlock
    | none => s.relOpen

def step : Option (FrontEnd c) := some (s.cycle uncached nAcq inp)

/-- The beats of a block come in order, and no other beat comes between them. -/
def fits (before : Option OpenBlock) (many : Bool) (addrBlock addrBeat : Nat) : Bool :=
  match before with
  | some o => many && addrBlock == o.addrBlock && addrBeat == o.count
  | none => !many || addrBeat == 0

def orderly : Bool :=
  (inp.acquire.all fun b => fits s.acqOpen b.aType.hasMultibeatData b.addrBlock b.addrBeat)
    && inp.release.all fun b => fits s.relOpen b.hasData b.addrBlock b.addrBeat

/-- No acquire is accepted in a cycle with a release for its block. -/
def apart : Bool := (s.acquireFire uncached nAcq inp).all fun _ => !acqRelConflict uncached inp

/-- An idle release tracker does not start on the block that its registers still hold, while an
acquire tracker goes on working on that block or takes an acquire for it. -/
def unshared : Bool :=
  uncached || !s.rel.resting || (s.releaseFire uncached nAcq inp).isSome
    || ((List.range nAcq).all fun i => !s.acqBusy i s.rel.addrBlock
        || ((s.acq i).next uncached (s.acqInput uncached nAcq inp i)).resting)
      && (s.acquireFire uncached nAcq inp).all fun b => b.addrBlock != s.rel.addrBlock

structure OnReset : Prop where
  acq : ∀ i, (s.acq i).mtState = .idle ∧ (s.acq i).tcState = .idle ∧ (s.acq i).iacqCnt = 0
  rel : s.rel.mtState = .idle ∧ s.rel.tcState = .idle ∧ s.rel.irelCnt = 0
  acqOpen : s.acqOpen = none
  relOpen : s.relOpen = none

end FrontEnd

end LowRisc.TagCache
