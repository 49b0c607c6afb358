import LowRisc.Debug.SerDesBuffer
import LowRisc.Lib.Transition

/-! The bridge from the debug memory module to TileLink. -/

set_option autoImplicit false

namespace LowRisc.Debug

open LowRisc.Chisel LowRisc.Lib

/-- Words of `2 ^ mamByteBits` bytes on the debug side, beats of `2 ^ tlByteBits` bytes on the memory side. -/
structure ConverterParams where
  mamByteBits : Nat
  tlByteBits : Nat
  mamBeatsBits : Nat
  mamAddrBits : Nat
  tlBlockAddrBits : Nat
  tlBeatAddrBits : Nat
  addr_fits : tlBlockAddrBits + tlBeatAddrBits + log2Up (2 ^ tlByteBits) ≤ mamAddrBits

namespace ConverterParams

variable (p : ConverterParams)

abbrev mamBytes : Nat := 2 ^ p.mamByteBits

abbrev tlDataBytes : Nat := 2 ^ p.tlByteBits

def mamBytesBits : Nat := p.mamBeatsBits + log2Up p.mamBytes

def tlByteAddrBits : Nat := log2Up p.tlDataBytes

def pAddrBits : Nat := p.tlBlockAddrBits + p.tlBeatAddrBits + p.tlByteAddrBits

end ConverterParams

structure MamReq where
  rw : Bool
  addr : Nat
  burst : Bool
  beats : Nat
  deriving DecidableEq

structure MamWData (p : ConverterParams) where
  data : BitVec (p.mamBytes * 8)
  strb : BitVec (p.mamBytes * 1)

/-- A `Put` or a `Get` of one beat. -/
structure SubRequest (p : ConverterParams) where
  write : Bool
  addr_block : Nat
  addr_beat : Nat
  data : BitVec (p.tlDataBytes * 8)
  wmask : BitVec (p.tlDataBytes * 1)

namespace MamConverter

/-- The registers of `MamReqSerDes`, of the converter and of its three buffers. -/
structure Regs (p : ConverterParams) where
  req : MamReq
  byte_cnt : Nat
  tl_acq_sent : Bool
  mam_data : SerDesBuffer 8 (p.tlDataBytes + p.mamBytes)
  mam_mask : SerDesBuffer 1 (p.tlDataBytes + p.mamBytes)
  tl_data : SerDesBuffer 8 (p.tlDataBytes + p.tlDataBytes)

structure Input (p : ConverterParams) where
  req : Option MamReq
  wdata : Option (MamWData p)
  acquire_ready : Bool
  grant : Option (BitVec (p.tlDataBytes * 8))
  rdata_ready : Bool

variable (p : ConverterParams) (m : Regs p) (e : Input p)

/-! `MamReqSerDes`; its block transactions are switched off. -/

def req_ready : Bool := m.byte_cnt == 0

def reqTaken : Option MamReq := e.req.filter fun _ => req_ready p m

def tl_addr : Nat := m.req.addr / 2 ^ p.tlByteAddrBits * 2 ^ p.tlByteAddrBits % 2 ^ p.pAddrBits

def tl_shift : Nat := m.req.addr % 2 ^ p.tlByteAddrBits

/-- The sum has the width of its wider operand and no carry. -/
def tl_count : Nat :=
  (if p.tlDataBytes ≤ (m.byte_cnt + tl_shift p m) % 2 ^ max p.mamBytesBits p.tlByteAddrBits then
    p.tlDataBytes - tl_shift p m
  else m.byte_cnt) % 2 ^ (p.tlBlockAddrBits + 1)

def tl_valid : Bool := m.byte_cnt != 0

/-! `TileLinkIOMamIOConverter`. -/

def tl_beat_byte_count : Nat := tl_count p m % 2 ^ log2Up (p.tlDataBytes + 1)

def acquire_valid : Bool :=
  tl_valid p m && !m.tl_acq_sent && (!m.req.rw || decide (tl_count p m ≤ m.mam_data.wp))

def acquire : SubRequest p where
  write := m.req.rw
  addr_block := tl_addr p m / 2 ^ (p.tlBeatAddrBits + p.tlByteAddrBits)
  addr_beat := tl_addr p m / 2 ^ p.tlByteAddrBits % 2 ^ p.tlBeatAddrBits
  data := if m.req.rw then m.mam_data.out_bits p.tlDataBytes <<< (tl_shift p m * 8) else 0
  wmask := if m.req.rw then m.mam_mask.out_bits p.tlDataBytes <<< (tl_shift p m * 1) else 0

def acquireFire : Bool := acquire_valid p m && e.acquire_ready

def grant_ready : Bool := if m.req.rw then m.tl_acq_sent else m.tl_data.in_ready p.tlDataBytes

def grantFire : Bool := e.grant.isSome && grant_ready p m

/-- A write goes on as soon as a grant is there, taken or not. -/
def tl_ready : Bool := tl_valid p m && if m.req.rw then e.grant.isSome else grantFire p m e

/-- The strobes of a word; a burst writes all of it. -/
def maskOf (burst : Bool) (w : MamWData p) : BitVec (p.mamBytes * 1) := if burst then BitVec.allOnes _ else w.strb

def tlDataIn : Option (BitVec (p.tlDataBytes * 8)) :=
  if m.req.rw then none else e.grant.map fun (g : BitVec (p.tlDataBytes * 8)) => g >>> (tl_shift p m * 8)

def next : Regs p where
  req :=
    match reqTaken p m e with
    | some r => r
    | none =>
      if tl_ready p m e then { m.req with addr := (m.req.addr + tl_count p m) % 2 ^ p.mamAddrBits } else m.req
  byte_cnt :=
    match reqTaken p m e with
    | some r => r.beats * p.mamBytes % 2 ^ p.mamBytesBits
    | none =>
      if tl_ready p m e then
        (m.byte_cnt + 2 ^ max p.mamBytesBits (p.tlBlockAddrBits + 1) - tl_count p m) % 2 ^ p.mamBytesBits
      else m.byte_cnt
  tl_acq_sent := !tl_ready p m e && (m.tl_acq_sent || acquireFire p m e)
  mam_data := m.mam_data.next (e.wdata.map MamWData.data) p.mamBytes (acquireFire p m e) (tl_beat_byte_count p m)
  mam_mask :=
    m.mam_mask.next (e.wdata.map (maskOf p m.req.burst)) p.mamBytes (acquireFire p m e) (tl_beat_byte_count p m)
  tl_data := m.tl_data.next (tlDataIn p m e) (tl_beat_byte_count p m) e.rdata_ready p.mamBytes

/-! The bridge with what passed on its ports: for each request it took the words, sub-requests and
answers that followed, and the words read. -/

structure Transaction (p : ConverterParams) where
  req : MamReq
  words : List (MamWData p)
  acquires : List (SubRequest p)
  grants : List (BitVec (p.tlDataBytes * 8))

structure System (p : ConverterParams) where
  regs : Regs p
  done : List (Transaction p)
  current : Option (Transaction p)
  rdata : List (BitVec (p.mamBytes * 8))

def wTaken : Option (MamWData p) := e.wdata.filter fun _ => m.mam_data.in_ready p.mamBytes

def acquireTaken : Option (SubRequest p) := if acquireFire p m e then some (acquire p m) else none

def grantTaken : Option (BitVec (p.tlDataBytes * 8)) := e.grant.filter fun _ => grant_ready p m

def rdataTaken : Option (BitVec (p.mamBytes * 8)) :=
  if m.tl_data.outFire e.rdata_ready p.mamBytes then some (m.tl_data.out_bits p.mamBytes) else none

def record (t : Transaction p) : Transaction p where
  req := t.req
  words := t.words ++ (wTaken p m e).toList
  acquires := t.acquires ++ (acquireTaken p m e).toList
  grants := t.grants ++ (grantTaken p m e).toList

def cycle (s : System p) (e : Input p) : System p where
  regs := next p s.regs e
  done := s.done ++ if (reqTaken p s.regs e).isSome then (s.current.map (record p s.regs e)).toList else []
  current :=
    match reqTaken p s.regs e with
    | some r => some ⟨r, [], [], []⟩
    | none => s.current.map (record p s.regs e)
  rdata := s.rdata ++ (rdataTaken p s.regs e).toList

def clock (s : System p) (e : Input p) : Option (System p) := some (cycle p s e)

structure AfterReset (s : System p) : Prop where
  byte_cnt : s.regs.byte_cnt = 0
  tl_acq_sent : s.regs.tl_acq_sent = false
  mam_data : s.regs.mam_data.wp = 0 ∧ s.regs.mam_data.buffer = 0
  mam_mask : s.regs.mam_mask.wp = 0 ∧ s.regs.mam_mask.buffer = 0
  tl_data : s.regs.tl_data.wp = 0 ∧ s.regs.tl_data.buffer = 0
  done : s.done = []
  current : s.current = none
  rdata : s.rdata = []

structure Legal (r : MamReq) : Prop where
  some_beats : 0 < r.beats
  beats : r.beats < 2 ^ p.mamBeatsBits
  addr : r.addr < 2 ^ p.mamAddrBits

/-- What comes from outside: the words of a write after its request and no more of them, and an answer for each
sub-request that is taken. -/
structure Offers (s : System p) (e : Input p) : Prop where
  req : ∀ r ∈ e.req, Legal p r
  wdata : e.wdata.isSome → ∃ t ∈ s.current, t.req.rw = true ∧ t.words.length < t.req.beats
  grant : e.grant.isSome →
    ∃ t ∈ s.current, t.grants.length < t.acquires.length + (acquireTaken p s.regs e).toList.length

/-! What a request asks for. -/

def total (r : MamReq) : Nat := r.beats * p.mamBytes

def pieceCount (r : MamReq) : Nat := (r.addr % p.tlDataBytes + total p r + p.tlDataBytes - 1) / p.tlDataBytes

/-- The bytes of the range in the first `k` beats it touches. -/
def covered (r : MamReq) (k : Nat) : Nat := min (total p r) (k * p.tlDataBytes - r.addr % p.tlDataBytes)

def dataLanes (t : Transaction p) : List (BitVec 8) := t.words.flatMap fun w => SerDesBuffer.lanes 8 w.data p.mamBytes

def maskLanes (t : Transaction p) : List (BitVec 1) :=
  t.words.flatMap fun w => SerDesBuffer.lanes 1 (maskOf p t.req.burst w) p.mamBytes

/-- The bytes of the range that were answered, each from its beat. -/
def readLanes (t : Transaction p) : List (BitVec 8) :=
  if t.req.rw then []
  else (List.range (covered p t.req t.grants.length)).map fun i =>
    lane 8 (t.grants.getD ((t.req.addr % p.tlDataBytes + i) / p.tlDataBytes) 0) ((t.req.addr + i) % p.tlDataBytes)

/-- Sub-request `k` is for the part of the range in beat `k`: it has the address of this beat, and a write
changes the bytes of this part, each with its data where its strobe is set, and no other byte. -/
structure AcquireRight (t : Transaction p) (k : Nat) (a : SubRequest p) : Prop where
  write : a.write = t.req.rw
  addr : a.addr_block * 2 ^ p.tlBeatAddrBits + a.addr_beat =
    (t.req.addr / p.tlDataBytes + k) % 2 ^ (p.tlBlockAddrBits + p.tlBeatAddrBits)
  wmask : t.req.rw = true → ∀ j < p.tlDataBytes, lane 1 a.wmask j =
    if t.req.addr % p.tlDataBytes ≤ k * p.tlDataBytes + j ∧
      k * p.tlDataBytes + j < t.req.addr % p.tlDataBytes + total p t.req then
      (maskLanes p t).getD (k * p.tlDataBytes + j - t.req.addr % p.tlDataBytes) 0
    else 0
  data : t.req.rw = true → ∀ j < p.tlDataBytes, t.req.addr % p.tlDataBytes ≤ k * p.tlDataBytes + j →
    k * p.tlDataBytes + j < t.req.addr % p.tlDataBytes + total p t.req →
    lane 8 a.data j = (dataLanes p t).getD (k * p.tlDataBytes + j - t.req.addr % p.tlDataBytes) 0

structure InProgress (t : Transaction p) : Prop where
  acquires : ∀ k a, t.acquires[k]? = some a → AcquireRight p t k a
  bound : t.acquires.length ≤ pieceCount p t.req
  waits : t.grants.length ≤ t.acquires.length ∧ t.acquires.length ≤ t.grants.length + 1

/-- Every part of the range was asked for and answered. -/
structure Complete (t : Transaction p) : Prop extends InProgress p t where
  acquired : t.acquires.length = pieceCount p t.req
  answered : t.grants.length = pieceCount p t.req

def all (s : System p) : List (Transaction p) := s.done ++ s.current.toList

def handed (s : System p) : List (BitVec 8) := s.rdata.flatMap fun w => SerDesBuffer.lanes 8 w p.mamBytes

def Settled (s : System p) : Prop := req_ready p s.regs = true ∧ handed p s = (all p s).flatMap (readLanes p)

/-- Nobody keeps the bridge waiting, and it gets no new request. -/
structure Cooperative (s : System p) (e : Input p) : Prop where
  req : e.req = none
  acquire : e.acquire_ready = true
  rdata : e.rdata_ready = true
  wdata : ∀ t ∈ s.current, t.req.rw = true → t.words.length < t.req.beats → e.wdata.isSome
  grant : ∀ t ∈ s.current, (e.grant.isSome ↔ t.grants.length < t.acquires.length)

def rank (s : System p) : Nat :=
  (match s.current with
  | some t => (p.tlDataBytes + 2) * (pieceCount p t.req - t.grants.length) + (t.req.beats - t.words.length)
  | none => 0) - s.regs.tl_acq_sent.toNat + s.regs.tl_data.wp

/-- Every request touches exactly its bytes, and the bytes read come back in order. -/
structure Intact (s : System p) : Prop where
  done : ∀ t ∈ s.done, Complete p t
  current : ∀ t ∈ s.current, InProgress p t ∧ (req_ready p s.regs = true → Complete p t)
  rdata : handed p s <+: (all p s).flatMap (readLanes p)
  progress : ∀ e, Offers p s e → Cooperative p s e → Settled p s ∨ rank p (cycle p s e) < rank p s

/-- The requests that the bridge is wide enough for. -/
structure Fits (r : MamReq) : Prop where
  several : 0 < p.tlByteBits
  count : p.tlByteBits ≤ p.tlBlockAddrBits
  sum : r.addr % p.tlDataBytes + total p r < 2 ^ max p.mamBytesBits p.tlByteAddrBits
  read : r.rw = true ∨ p.mamByteBits ≤ p.tlByteBits ∨ p.mamByteBits = p.tlByteBits + 1 ∧ r.addr % p.tlDataBytes = 0

/-- Requests it is wide enough for, and no write answered in the cycle in which it is taken. -/
structure Served (s : System p) (e : Input p) : Prop where
  req : ∀ r ∈ e.req, Fits p r
  grant : e.grant.isSome → s.regs.req.rw = true → acquireTaken p s.regs e = none

end MamConverter

end LowRisc.Debug
