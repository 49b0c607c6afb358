import Mathlib.Data.BitVec
import Mathlib.Data.List.FinRange

/-! The coherence policy between the first level caches and the second level.

A client state says what a cache may do with a block; the manager keeps the sharers of each block
as a bit vector. The functions below choose the messages of a transaction and give the states that
follow from them.
-/

set_option autoImplicit false

namespace LowRisc.Coherence

/-! Memory operations. -/

inductive MemoryOp where
  | xrd
  | xwr
  | pfr
  | pfw
  | xaSwap
  | nop
  | xlr
  | xsc
  | xaAdd
  | xaXor
  | xaOr
  | xaAnd
  | xaMin
  | xaMax
  | xaMinu
  | xaMaxu
  | flush
  | produce
  | clean
  deriving DecidableEq, Repr

namespace MemoryOp

def code : MemoryOp → BitVec 5
  | xrd => 0b00000#5
  | xwr => 0b00001#5
  | pfr => 0b00010#5
  | pfw => 0b00011#5
  | xaSwap => 0b00100#5
  | nop => 0b00101#5
  | xlr => 0b00110#5
  | xsc => 0b00111#5
  | xaAdd => 0b01000#5
  | xaXor => 0b01001#5
  | xaOr => 0b01010#5
  | xaAnd => 0b01011#5
  | xaMin => 0b01100#5
  | xaMax => 0b01101#5
  | xaMinu => 0b01110#5
  | xaMaxu => 0b01111#5
  | flush => 0b10000#5
  | produce => 0b10001#5
  | clean => 0b10011#5

def isAMO (cmd : MemoryOp) : Bool := cmd.code.getLsbD 3 || cmd == xaSwap

def isPrefetch (cmd : MemoryOp) : Bool := cmd == pfr || cmd == pfw

def isRead (cmd : MemoryOp) : Bool := cmd == xrd || cmd == xlr || cmd == xsc || cmd.isAMO

def isWrite (cmd : MemoryOp) : Bool := cmd == xwr || cmd == xsc || cmd.isAMO

def isWriteIntent (cmd : MemoryOp) : Bool := cmd.isWrite || cmd == pfw || cmd == xlr

theorem isWriteIntent_of_isWrite {cmd : MemoryOp} (write : cmd.isWrite = true) : cmd.isWriteIntent = true := by
  simp [isWriteIntent, write]

end MemoryOp

/-! The sharers of a block, one bit for each client. -/

namespace FullRepresentation

variable {n : Nat}

def UIntToOH (id : Fin n) : BitVec n := 1#n <<< id.val

def has (s : BitVec n) (id : Fin n) : Bool := s.getLsbD id

def pop (prev : BitVec n) (id : Fin n) : BitVec n := prev &&& ~~~UIntToOH id

def push (prev : BitVec n) (id : Fin n) : BitVec n := prev ||| UIntToOH id

def none (s : BitVec n) : Bool := s == 0#n

def one (s : BitVec n) : Bool := (List.finRange n).countP (has s) == 1

def next (s : BitVec n) : Option (Fin n) := (List.finRange n).find? (has s)

def full (s : BitVec n) : BitVec n := s

variable {s : BitVec n} {i j : Fin n}

theorem ext_has {t : BitVec n} (same : ∀ i, has s i = has t i) : s = t :=
  BitVec.eq_of_getLsbD_eq fun k inside => same ⟨k, inside⟩

@[simp] theorem has_zero : has (0#n) i = false := BitVec.getLsbD_zero

@[simp] theorem has_UIntToOH : has (UIntToOH i) j = decide (j = i) := by
  rw [has, UIntToOH, BitVec.getLsbD_shiftLeft, BitVec.getLsbD_one]
  have inside := j.isLt
  by_cases same : j = i
  · subst same
    simp [inside]
    omega
  · have apart : j.val ≠ i.val := fun h => same (Fin.ext h)
    simp only [inside, same, decide_true, decide_false, Bool.true_and]
    by_cases low : j.val < i.val
    · simp [low]
    · simp [low, show j.val - i.val ≠ 0 by omega]

@[simp] theorem has_pop : has (pop s i) j = (has s j && !decide (j = i)) := by
  have inside := j.isLt
  have other : has (UIntToOH i) j = decide (j = i) := has_UIntToOH
  rw [has] at other
  rw [has, has, pop, BitVec.getLsbD_and, BitVec.getLsbD_not, other, decide_eq_true inside, Bool.true_and]

@[simp] theorem has_push : has (push s i) j = (has s j || decide (j = i)) := by
  have other : has (UIntToOH i) j = decide (j = i) := has_UIntToOH
  rw [has] at other
  rw [has, has, push, BitVec.getLsbD_or, other]

theorem none_iff : none s = true ↔ ∀ j, has s j = false := by
  rw [none, beq_iff_eq]
  constructor
  · rintro rfl j
    exact has_zero
  · intro clear
    apply ext_has
    intro i
    rw [clear i, has_zero]

theorem one_of_unique (first : has s i = true) (unique : ∀ j, has s j = true → j = i) : one s = true := by
  have same : (List.finRange n).countP (has s) = (List.finRange n).count i := by
    apply List.countP_congr
    intro j _
    rw [beq_iff_eq]
    exact ⟨unique j, fun same => same ▸ first⟩
  rw [one, same, List.count_eq_one_of_mem (List.nodup_finRange n) (List.mem_finRange i)]
  rfl

theorem next_spec (found : next s = some i) : has s i = true := List.find?_some found

end FullRepresentation

/-! Message types. -/

inductive BuiltInAcquire where
  | get
  | getBlock
  | put
  | putBlock
  | putAtomic
  | getPrefetch
  | putPrefetch
  deriving DecidableEq, Repr

inductive AcquireType where
  | builtIn (t : BuiltInAcquire)
  | acquireShared
  | acquireExclusive
  deriving DecidableEq, Repr

inductive ProbeType where
  | probeInvalidate
  | probeDowngrade
  | probeCopy
  deriving DecidableEq, Repr

inductive ReleaseType where
  | releaseInvalidateData
  | releaseDowngradeData
  | releaseCopyData
  | releaseInvalidateAck
  | releaseDowngradeAck
  | releaseCopyAck
  deriving DecidableEq, Repr

inductive BuiltInGrant where
  | voluntaryAck
  | prefetchAck
  | putAck
  | getDataBeat
  | getDataBlock
  deriving DecidableEq, Repr

inductive GrantType where
  | builtIn (t : BuiltInGrant)
  | grantShared
  | grantExclusive
  | grantExclusiveAck
  deriving DecidableEq, Repr

def BuiltInAcquire.hasData : BuiltInAcquire → Bool
  | put | putBlock | putAtomic => true
  | get | getBlock | getPrefetch | putPrefetch => false

def BuiltInAcquire.getBuiltInGrantType : BuiltInAcquire → BuiltInGrant
  | get => .getDataBeat
  | getBlock => .getDataBlock
  | put | putBlock => .putAck
  | putAtomic => .getDataBeat
  | getPrefetch | putPrefetch => .prefetchAck

def ReleaseType.hasData : ReleaseType → Bool
  | releaseInvalidateData | releaseDowngradeData | releaseCopyData => true
  | releaseInvalidateAck | releaseDowngradeAck | releaseCopyAck => false

def GrantType.hasData : GrantType → Bool
  | builtIn t => t == .getDataBeat || t == .getDataBlock
  | grantShared | grantExclusive => true
  | grantExclusiveAck => false

/-- The network does not keep the order of the messages between two points. -/
def tlNetworkPreservesPointToPointOrdering : Bool := false

def GrantType.isVoluntary (g : GrantType) : Bool := g == .builtIn .voluntaryAck

def GrantType.requiresAck (g : GrantType) : Bool := !tlNetworkPreservesPointToPointOrdering && !g.isVoluntary

/-! Clients. -/

inductive ClientState where
  | clientInvalid
  | clientShared
  | clientExclusiveClean
  | clientExclusiveDirty
  deriving DecidableEq, Repr

namespace MESICoherence

open ClientState ProbeType ReleaseType AcquireType GrantType

def readPermission : ClientState → Bool
  | clientShared | clientExclusiveClean | clientExclusiveDirty => true
  | clientInvalid => false

def writePermission : ClientState → Bool
  | clientExclusiveClean | clientExclusiveDirty => true
  | clientInvalid | clientShared => false

def dirtyData (s : ClientState) : Bool := s == clientExclusiveDirty

def isValid (s : ClientState) : Bool := s != clientInvalid

def isHit (cmd : MemoryOp) (s : ClientState) : Bool :=
  if cmd.isWriteIntent then writePermission s else readPermission s

def requiresAcquireOnSecondaryMiss (first second : MemoryOp) : Bool := second.isWriteIntent && !first.isWriteIntent

def requiresReleaseOnCacheControl (s : ClientState) : Bool := dirtyData s

def getAcquireType (cmd : MemoryOp) : AcquireType :=
  if cmd.isWriteIntent then acquireExclusive else acquireShared

def getReleaseType (cmd : MemoryOp) (s : ClientState) : ReleaseType :=
  match cmd with
  | .flush => if dirtyData s then releaseInvalidateData else releaseInvalidateAck
  | .produce => if dirtyData s then releaseDowngradeData else releaseDowngradeAck
  | .clean => if dirtyData s then releaseCopyData else releaseCopyAck
  | _ => releaseCopyAck

def getReleaseTypeOnProbe (incoming : ProbeType) (s : ClientState) : ReleaseType :=
  match incoming with
  | probeInvalidate => getReleaseType .flush s
  | probeDowngrade => getReleaseType .produce s
  | probeCopy => getReleaseType .clean s

def clientMetadataOnHit (cmd : MemoryOp) (s : ClientState) : ClientState :=
  if cmd.isWrite then clientExclusiveDirty else s

def clientMetadataOnCacheControl (cmd : MemoryOp) (s : ClientState) : ClientState :=
  match cmd with
  | .flush => clientInvalid
  | .produce => if writePermission s then clientShared else s
  | .clean => if s = clientExclusiveDirty then clientExclusiveClean else s
  | _ => s

def clientMetadataOnGrant (incoming : GrantType) (cmd : MemoryOp) : ClientState :=
  match incoming with
  | .builtIn _ => clientInvalid
  | grantShared => clientShared
  | grantExclusive => if cmd.isWrite then clientExclusiveDirty else clientExclusiveClean
  | grantExclusiveAck => clientExclusiveDirty

def clientMetadataOnProbe (incoming : ProbeType) (s : ClientState) : ClientState :=
  match incoming with
  | probeInvalidate => clientInvalid
  | probeDowngrade => clientShared
  | probeCopy => s

/-! The manager. -/

variable {n : Nat}

def requiresProbes (a : AcquireType) (sharers : BitVec n) : Bool :=
  if FullRepresentation.none sharers then false
  else if FullRepresentation.one sharers then true
  else match a with
    | .builtIn t => t.hasData
    | _ => a != acquireShared

/-- An eviction probes whoever has the block. -/
def requiresProbesOnVoluntaryWriteback (sharers : BitVec n) : Bool := !FullRepresentation.none sharers

def getProbeTypeOnVoluntaryWriteback : MemoryOp → ProbeType
  | .flush => probeInvalidate
  | .produce => probeDowngrade
  | _ => probeCopy

def getProbeType (a : AcquireType) : ProbeType :=
  match a with
  | .builtIn .put | .builtIn .putBlock | .builtIn .putPrefetch | .builtIn .putAtomic => probeInvalidate
  | .builtIn .get | .builtIn .getBlock | .builtIn .getPrefetch => probeCopy
  | acquireShared => probeDowngrade
  | acquireExclusive => probeInvalidate

def getGrantType (a : AcquireType) (sharers : BitVec n) : GrantType :=
  match a with
  | .builtIn t => .builtIn t.getBuiltInGrantType
  | acquireShared => if !FullRepresentation.none sharers then grantShared else grantExclusive
  | acquireExclusive => grantExclusive

def managerMetadataOnRelease (incoming : ReleaseType) (src : Fin n) (sharers : BitVec n) : BitVec n :=
  match incoming with
  | releaseInvalidateData | releaseInvalidateAck => FullRepresentation.pop sharers src
  | _ => sharers

def managerMetadataOnGrant (outgoing : GrantType) (dst : Fin n) (sharers : BitVec n) : BitVec n :=
  match outgoing with
  | .builtIn _ => sharers
  | _ => FullRepresentation.push sharers dst

end MESICoherence

end LowRisc.Coherence
