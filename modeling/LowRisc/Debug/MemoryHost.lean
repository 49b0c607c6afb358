import LowRisc.Debug.Mam

/-! The host's side of debug memory accesses, `memory.c`.

A packet is the list of its words without the length in front. `none` stands for an access
outside of a buffer, for sending memory that was never written, and for a wait that never
ends.
-/

set_option autoImplicit false

namespace LowRisc.Debug

/-- What the host knows of a memory module: `osd_memory_descriptor`, its address on the
debug interconnect and the longest packet. -/
structure MemoryDescriptor where
  addr_width : Nat
  data_width : Nat
  modaddr : Word
  max_pkt_len : Nat

def MamParams.descriptor (p : MamParams) (modaddr : Word) : MemoryDescriptor :=
  ⟨16 * p.addrWords, 16 * p.dataWords, modaddr, p.maxPktLen⟩

namespace Memory

def BULK_MAX : Nat := 0x3f00

def blocksize (mem : MemoryDescriptor) : Nat := mem.data_width >>> 3

def hlen (mem : MemoryDescriptor) : Nat := 1 + ((mem.addr_width + 15) >>> 4)

/-- Only the four words up to `header[4]` are written. -/
def header (mem : MemoryDescriptor) (control : Word) (addr : Nat) : Option (List Word) :=
  if 5 < hlen mem then none
  else some (control :: (List.range (hlen mem - 1)).map fun i => BitVec.ofNat 16 (addr >>> (16 * i)))

/-- A packet of the plain type; the buffer has `max_pkt_len + 1` words. -/
def packet (mem : MemoryDescriptor) (payload : List Word) : Option (List Word) :=
  if mem.max_pkt_len < payload.length + 2 then none
  else some (mem.modaddr :: 0x4000#16 :: payload)

/-- The words of a byte string, the first byte on top. -/
def words : List Byte → List Word
  | a :: b :: rest => (a ++ b) :: words rest
  | _ => []

/-- The loop over the data: `current` is what the buffer holds of the next packet. -/
def payloads (wordsperpacket : Nat) (current : List Word) : List Word → List (List Word)
  | [] => if current.length = 0 then [] else [current]
  | w :: rest =>
    let filled := current ++ [w]
    if filled.length = wordsperpacket then filled :: payloads wordsperpacket [] rest
    else payloads wordsperpacket filled rest

/-- The bytes `data[offset]` to `data[offset+size-1]`. -/
def slice (data : List Byte) (offset size : Nat) : Option (List Byte) :=
  if data.length < offset + size then none else some ((data.drop offset).take size)

def memory_write_bulk (mem : MemoryDescriptor) (addr : Nat) (data : List Byte) (offset size : Nat) :
    Option (List (List Word)) := do
  if BULK_MAX < size then return []
  let start ← packet mem (← header mem (0xc000#16 ||| BitVec.ofNat 16 (size / blocksize mem)) addr)
  let bytes ← slice data offset size
  let body ← (payloads (mem.max_pkt_len - 2) [] (words bytes)).mapM (packet mem)
  return start :: body

/-- The strobe is an `uint8_t`: bits of lanes above the eighth are lost. -/
def strobe (mem : MemoryDescriptor) (baddr size : Nat) : Word :=
  ((List.range (blocksize mem)).foldl
    (fun strobe i => if baddr ≤ i ∧ i < baddr + size then strobe ||| (1#8 <<< i) else strobe) 0#8).setWidth 16

/-- The bytes of the word that is written; `memcpy` must stay inside the block. -/
def block (mem : MemoryDescriptor) (baddr : Nat) (bytes : List Byte) : Option (List Byte) :=
  if blocksize mem < baddr + bytes.length then none
  else some (List.replicate baddr 0 ++ bytes
    ++ List.replicate (blocksize mem - baddr - bytes.length) 0)

/-- Header and data go into one packet, whatever the longest packet is. -/
def memory_write_single (mem : MemoryDescriptor) (addr : Nat) (data : List Byte) (offset size : Nat) :
    Option (List (List Word)) := do
  -- `baddr` is an `uint8_t` as well.
  let baddr := addr % blocksize mem % 256
  let head ← header mem (0x8000#16 ||| strobe mem baddr size) (addr - addr % blocksize mem)
  let content ← block mem baddr (← slice data offset size)
  return [← packet mem (head ++ words content)]

structure Parts where
  prolog : Nat
  bulk : Nat
  epilog : Nat
  deriving DecidableEq, Repr

def calculate_parts (addr size blocksize : Nat) : Parts :=
  if size < blocksize then ⟨size, 0, 0⟩
  else
    let prolog := (blocksize + 2 ^ 64 - addr) % 2 ^ 64 % blocksize
    let epilog := (addr + size) % blocksize
    ⟨prolog, size - prolog - epilog, epilog⟩

/-- The values of `i` in the loop over the bulk, which runs up to `size`. -/
def chunkStarts (size : Nat) : List Nat :=
  (List.range ((size + BULK_MAX - 1) / BULK_MAX)).map fun k => k * BULK_MAX

/-- The length of the chunk at `i`, a difference of `size_t` values. -/
def chunkSize (size bulk i : Nat) : Nat :=
  if size < i + BULK_MAX then (bulk + 2 ^ 64 - i) % 2 ^ 64 else BULK_MAX

/-- The packets of the calls made for each of `starts`, in order. -/
def forEach {α : Type} (call : Nat → Option (List α)) : List Nat → Option (List α)
  | [] => some []
  | i :: rest => do return (← call i) ++ (← forEach call rest)

def osd_memory_write (mem : MemoryDescriptor) (addr : Nat) (data : List Byte) :
    Option (List (List Word)) := do
  let size := data.length
  let parts := calculate_parts addr size (blocksize mem)
  let prolog ←
    (if parts.prolog = 0 then some [] else memory_write_single mem addr data 0 parts.prolog)
  let bulk ←
    (if parts.bulk = 0 then some []
    else forEach (fun i => memory_write_bulk mem (addr + parts.prolog + i) data (parts.prolog + i)
      (chunkSize size parts.bulk i)) (chunkStarts size))
  let epilog ←
    (if parts.epilog = 0 then some []
    else memory_write_single mem (addr + parts.prolog + parts.bulk) data (parts.prolog + parts.bulk) parts.epilog)
  return prolog ++ bulk ++ epilog

/-! Reading. The packets of the module arrive at `memory_read_cb` in order, and a call of
`memory_read_bulk` returns once the words of its request are there. -/

def memory_read_cb (buffer : List Byte) (packet : List Word) : List Byte :=
  buffer ++ (packet.drop 2).flatMap fun w => [lowByte w, highByte w]

/-- Take packets until `size/2` words have come. -/
def collect (size : Nat) : List Byte → List (List Word) → Option (List Byte × List (List Word))
  | _, [] => none
  | buffer, packet :: rest =>
    let filled := memory_read_cb buffer packet
    if size < filled.length then none
    else if size / 2 ≤ filled.length / 2 then some (filled, rest)
    else collect size filled rest

def swapBytes : List Byte → List Byte
  | a :: b :: rest => b :: a :: swapBytes rest
  | rest => rest

/-- The packet that asks for `size` bytes. -/
def readRequest (mem : MemoryDescriptor) (addr size : Nat) : Option (List Word) := do
  packet mem (← header mem (0x4000#16 ||| BitVec.ofNat 16 (size / blocksize mem)) addr)

def memory_read_bulk (size : Nat) (packets : List (List Word)) :
    Option (List Byte × List (List Word)) := do
  let (filled, rest) ← collect size [] packets
  return (swapBytes filled, rest)

/-- A call of `memory_read_bulk`, with the part of its bytes that is stored and where. -/
structure ReadCall where
  addr : Nat
  size : Nat
  skip : Nat
  count : Nat
  offset : Nat
  deriving DecidableEq, Repr

/-- The calls that `osd_memory_read` makes. -/
def readCalls (mem : MemoryDescriptor) (addr size : Nat) : List ReadCall :=
  let parts := calculate_parts addr size (blocksize mem)
  let B := blocksize mem
  (if parts.prolog = 0 then []
    else [⟨(addr + 2 ^ 64 - B + parts.prolog) % 2 ^ 64, B, B - parts.prolog, parts.prolog, 0⟩])
  ++ (if parts.bulk = 0 then []
    else (chunkStarts size).map fun i =>
      let s := chunkSize size parts.bulk i
      ⟨addr + parts.prolog + i, s, 0, s, parts.prolog + i⟩)
  ++ (if parts.epilog = 0 then []
    else [⟨addr + parts.prolog + parts.bulk, B, 0, parts.epilog, parts.prolog + parts.bulk⟩])

def readRequests (mem : MemoryDescriptor) (addr size : Nat) : Option (List (List Word)) :=
  (readCalls mem addr size).mapM fun call => readRequest mem call.addr call.size

def storeBytes (buffer : List Byte) (offset : Nat) (bytes : List Byte) : Option (List Byte) :=
  if buffer.length < offset + bytes.length then none
  else some (buffer.take offset ++ bytes ++ buffer.drop (offset + bytes.length))

def runCalls : List ReadCall → List Byte → List (List Word) → Option (List Byte)
  | [], buffer, _ => some buffer
  | call :: rest, buffer, packets => do
    let (bytes, left) ← memory_read_bulk call.size packets
    let stored ← storeBytes buffer call.offset ((bytes.drop call.skip).take call.count)
    runCalls rest stored left

/-- The caller's buffer after the call, when the module sends `packets`. -/
def osd_memory_read (mem : MemoryDescriptor) (addr : Nat) (buffer : List Byte) (packets : List (List Word)) :
    Option (List Byte) :=
  runCalls (readCalls mem addr buffer.length) buffer packets

end Memory

end LowRisc.Debug
