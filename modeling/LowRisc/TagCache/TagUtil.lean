import LowRisc.Chisel.Util
import Mathlib.Tactic.IntervalCases

/-! Address layout of tagged memory.

A tagged memory keeps the tags of its words in a table at its own end. The last
part of the table's range holds a map with one bit for each group of table bits
(tag map 0), and the last part of that range a map of the map (tag map 1).
-/

set_option autoImplicit false

namespace LowRisc.TagCache

open LowRisc.Chisel

structure TagUtil where
  tagBits : Nat
  mapRatio : Nat
  memSize : Nat
  memBase : Nat
  cacheBlockBytes : Nat := 64

namespace TagUtil

variable (tg : TagUtil)

def wordBits : Nat := 64
def wordBytes : Nat := wordBits / 8
def normTagBits : Nat := 2 ^ log2Up tg.tagBits
def tagRatio : Nat := wordBits / tg.normTagBits
def unTagBits : Nat := log2Up tg.tagRatio
def unMapBits : Nat := log2Up tg.mapRatio
def tableSize : Nat := tg.memSize / tg.tagRatio
def tableBase : Nat := tg.memBase + tg.memSize - tg.tableSize
def map0Size : Nat := tg.tableSize / tg.mapRatio
def map0Base : Nat := tg.memBase + tg.memSize - tg.map0Size
def map1Size : Nat := tg.map0Size / tg.mapRatio
def map1Base : Nat := tg.memBase + tg.memSize - tg.map1Size
def cacheBlockTagBits : Nat := tg.cacheBlockBytes / wordBytes * tg.normTagBits
def blockOffBits : Nat := log2Up tg.cacheBlockBytes

/-- The parameter checks of the class. -/
structure Required : Prop where
  memSize_pow2 : isPow2 tg.memSize
  mapRatio_pow2 : isPow2 tg.mapRatio
  tagRatio_le : tg.tagRatio ≤ tg.mapRatio

/-- Tag table address of a physical address, and the byte of its row. -/
def pa2tta (addr : Nat) : Nat := (addr - tg.memBase) / 2 ^ tg.unTagBits + tg.tableBase
def pa2ttr (addr rbo : Nat) : Nat := bits addr (tg.unTagBits + rbo - 1) tg.unTagBits

/-- Tag map 0: address, bit of the row, and bit used in lock keys. -/
def pa2tm0a (addr : Nat) : Nat :=
  (addr - tg.memBase) / 2 ^ (tg.unTagBits + tg.unMapBits) + tg.map0Base
def pa2tm0b (addr rbo : Nat) : Nat :=
  bits addr (tg.unTagBits + tg.unMapBits + rbo - 1) (tg.unTagBits + tg.unMapBits - 3)
def pa2tm0i (addr : Nat) : Nat :=
  bits addr (tg.unTagBits + tg.unMapBits + tg.blockOffBits - 1) (tg.unTagBits + tg.unMapBits - 3)

/-- Tag map 1: address, bit of the row, and bit used in lock keys. -/
def pa2tm1a (addr : Nat) : Nat :=
  (addr - tg.memBase) / 2 ^ (tg.unTagBits + tg.unMapBits + tg.unMapBits) + tg.map1Base
def pa2tm1b (addr rbo : Nat) : Nat :=
  bits addr (tg.unTagBits + tg.unMapBits + tg.unMapBits + rbo - 1)
    (tg.unTagBits + tg.unMapBits + tg.unMapBits - 3)
def pa2tm1i (addr : Nat) : Nat :=
  bits addr (tg.unTagBits + tg.unMapBits + tg.unMapBits + tg.blockOffBits - 1)
    (tg.unTagBits + tg.unMapBits + tg.unMapBits - 3)

def isTop (addr : Nat) : Bool :=
  decide (tg.map1Base / 2 ^ tg.blockOffBits ≤ addr / 2 ^ tg.blockOffBits)
def isMap (addr : Nat) : Bool :=
  decide (tg.map0Base / 2 ^ tg.blockOffBits ≤ addr / 2 ^ tg.blockOffBits)

end TagUtil

end LowRisc.TagCache
