import LowRisc.TagCache.TagUtil

/-! Parameters, requests and array entries of the tag cache.

Blocks have 64 bytes and rows 64 bits, so that a row is one beat of the outer
memory interface and a block has eight of them. One map bit stands for one block.
-/

set_option autoImplicit false

namespace LowRisc.TagCache

open LowRisc.Chisel

structure Config where
  tg : TagUtil
  nMemTransactors : Nat
  nTagTransactors : Nat
  nSets : Nat
  nWays : Nat

namespace Config

variable (c : Config)

def blockBytes : Nat := 64
def outerDataBeats : Nat := 8
def rowOffBits : Nat := 3
def idxBits : Nat := log2Up c.nSets
def map1Blocks : Nat :=
  c.tg.map1Size / blockBytes + (if c.tg.map1Size % blockBytes = 0 then 0 else 1)
/-- Blocks of the top map, which the initiators create after reset. -/
def nTopMapBlocks : Nat := c.map1Blocks
def topMapBase : Nat := c.tg.map1Base
def nLocks : Nat := max (c.nMemTransactors * 2) 1

/-- The configurations of the chip: 64-byte blocks, one map bit for each block, a
memory of a power of two of at least 128 MB at a multiple of 1 GB, banks and sets
in powers of two with at least one set for each bank. -/
structure Admissible : Prop where
  required : c.tg.Required
  tagBits_ge : 2 ≤ c.tg.tagBits
  tagBits_le : c.tg.tagBits ≤ 8
  block : c.tg.cacheBlockBytes = blockBytes
  mapRatio : c.tg.mapRatio = blockBytes * 8
  memSize : 2 ^ 27 ≤ c.tg.memSize
  memBase : 2 ^ 30 ∣ c.tg.memBase
  memTransactors : 0 < c.nMemTransactors
  tagTransactors : isPow2 c.nTagTransactors
  sets : isPow2 c.nSets
  sets_ge : c.nTagTransactors ≤ c.nSets
  ways : 0 < c.nWays

end Config

abbrev Row := BitVec 64
abbrev Line := Nat → Row
abbrev BlockTags (c : Config) := BitVec c.tg.cacheBlockTagBits

inductive TCTagOp where
  /-- read if hit -/
  | r
  /-- force a read and fetch if miss -/
  | fr
  /-- lock the line -/
  | l
  /-- force a read and lock the line -/
  | fl
  /-- unlock the line -/
  | u
  /-- invalidate a line -/
  | i
  /-- create an empty line -/
  | c
  /-- write a line -/
  | w
  deriving DecidableEq, Repr

def TCTagOp.isWrite : TCTagOp → Bool
  | .i | .c | .w => true
  | _ => false

def TCTagOp.isCreate : TCTagOp → Bool
  | .c => true
  | _ => false

def TCTagOp.isLock : TCTagOp → Bool
  | .l | .fl => true
  | _ => false

structure TCTagRequest where
  id : Nat
  data : Row
  mask : Row
  addr : Nat
  op : TCTagOp
  lindex : Nat
  deriving DecidableEq

structure TCTagResp where
  id : Nat
  hit : Bool
  data : Row
  tcnt : Nat

inductive LineState where
  | invalid
  | clean
  | dirty
  deriving DecidableEq, Repr

structure TCMetadata where
  tag : Nat
  tcnt : Nat
  state : LineState
  deriving DecidableEq

def TCMetadata.isValid (md : TCMetadata) : Bool := decide (md.state ≠ .invalid)

def TCMetadata.onReset : TCMetadata := ⟨0, 0, .invalid⟩

structure TCTagLock where
  id : Nat
  addr : Nat
  lindex : Nat
  lock : Bool
  deriving DecidableEq

/-- The metadata array, the data array and the outer memory. -/
structure Arrays where
  metas : Nat → Nat → TCMetadata
  datas : Nat → Nat → Line
  memory : Nat → Line

namespace Config

variable (c : Config)

def blockOf (addr : Nat) : Nat := addr / blockBytes
def idxOf (addr : Nat) : Nat := addr / blockBytes % 2 ^ c.idxBits
def tagOf (addr : Nat) : Nat := addr / blockBytes / 2 ^ c.idxBits
def rowOf (addr : Nat) : Nat := addr / 2 ^ rowOffBits % outerDataBeats

def blockAt (tag idx : Nat) : Nat := tag * 2 ^ c.idxBits + idx

/-- The bank that serves a block: the low bits of its number. -/
def bankOf (block : Nat) : Nat := block % c.nTagTransactors

end Config

end LowRisc.TagCache
