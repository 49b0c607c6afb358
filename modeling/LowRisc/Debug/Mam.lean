import LowRisc.Debug.RegAccess

/-! The memory access module `osd_mam` and the memory at its system port.

Behind the register access layer a state machine takes memory access sequences out of the
packets of the host. The wide registers are kept as 16-bit slices, as the flits fill them.
-/

set_option autoImplicit false

namespace LowRisc.Debug

open LowRisc.Lib

abbrev Byte := BitVec 8

def highByte (w : Word) : Byte := w.extractLsb' 8 8

def lowByte (w : Word) : Byte := w.extractLsb' 0 8

/-- The parameters of `osd_mam`, its widths in 16-bit words. -/
structure MamParams where
  addrWords : Nat
  dataWords : Nat
  maxPktLen : Nat
  endian : Bool
  id : BitVec 10

namespace MamParams

/-- `DATA_WIDTH/8` -/
def dataBytes (p : MamParams) : Nat := 2 * p.dataWords

def regParams (p : MamParams) : RegParams := ⟨3, 0, false, p.id⟩

end MamParams

/-! The memory.

With `ENDIAN` the byte at the lowest address of a word is in its highest lane, without in its
lowest, and the strobe bit of a lane enables that lane. A request at the address of a word
is served from there on. Where a request between two words is served is up to the memory.
-/

structure MamMemory where
  place : Nat → Nat
  initial : Nat → Byte
  updates : List (Nat × Byte)
  cursor : Nat

namespace MamMemory

def content (m : MamMemory) : Nat → Byte := m.updates.foldl (fun now u => upd now u.1 u.2) m.initial

/-- The lane of the byte at an offset from the address of the word; also the inverse. -/
def laneOf (p : MamParams) (offset : Nat) : Nat := if p.endian then p.dataBytes - 1 - offset else offset

/-- Requests at the address of a word are served there. -/
def Serves (p : MamParams) (m : MamMemory) : Prop := ∀ a, p.dataBytes ∣ a → m.place a = a

def request (addr : Nat) (m : MamMemory) : MamMemory := { m with cursor := m.place addr }

def store (p : MamParams) (enabled : Nat → Bool) (data : Nat → Byte) (m : MamMemory) : MamMemory :=
  { m with
    updates := m.updates ++ ((List.range p.dataBytes).filter fun k => enabled (laneOf p k)).map fun k =>
      (m.cursor + k, data (laneOf p k))
    cursor := m.cursor + p.dataBytes }

/-- `read_data`, lane by lane. -/
def read_data (p : MamParams) (m : MamMemory) (lane : Nat) : Byte := m.content (m.cursor + laneOf p lane)

def advance (p : MamParams) (m : MamMemory) : MamMemory := { m with cursor := m.cursor + p.dataBytes }

end MamMemory

/-! The state machine. -/

inductive MamPhase where
  | inactive
  | cmdSkip
  | cmd
  | addr
  | request
  | writePacket
  | write
  | writeWait
  | readPacket
  | read
  | writeSingle
  | writeSingleWait
  deriving DecidableEq, Repr

/-- The registers. Slice `i` of the address holds its bits from `16 * i` on, slice `w` of the
data register is the `w`-th from the top. -/
structure MamRegs where
  phase : MamPhase
  counter : Nat
  wcounter : Nat
  in_packet : Bool
  is_last_flit : Bool
  req_beats : BitVec 14
  req_rw : Bool
  req_burst : Bool
  req_addr : Nat → Word
  write_data_reg : Nat → Word
  write_strb : Word

structure MamPorts where
  dp_in : DiiFlit
  dp_out_ready : Bool
  req_ready : Bool
  write_ready : Bool
  read_valid : Bool

/-- The number in the lowest `n` slices. -/
def slicesValue : Nat → (Nat → Word) → Nat
  | 0, _ => 0
  | n + 1, slices => slicesValue n slices + (slices n).toNat * 2 ^ (16 * n)

namespace Mam

/-- Byte lane `j` of a data word given by its slices. -/
def lane (p : MamParams) (slices : Nat → Word) (j : Nat) : Byte :=
  let slice := slices (p.dataWords - 1 - j / 2)
  if j % 2 = 0 then lowByte slice else highByte slice

def endian_conv (p : MamParams) (din : Nat → Byte) (j : Nat) : Byte := din (p.dataBytes - 1 - j)

def dp_in_ready (s : MamRegs) : Bool :=
  match s.phase with
  | .inactive | .cmdSkip | .cmd | .addr | .writePacket | .write | .writeSingle => true
  | _ => false

def readSlice (p : MamParams) (m : MamMemory) (w : Nat) : Word :=
  let read_data_m := if p.endian then m.read_data p else endian_conv p (m.read_data p)
  read_data_m (2 * (p.dataWords - w) - 1) ++ read_data_m (2 * (p.dataWords - w) - 2)

def headFlit (p : MamParams) (s : MamRegs) : Flit :=
  ⟨false, if s.counter = 0 then 0 else 0b01#2 ++ 0b1111#4 ++ p.id⟩

/-- The packet is full, or the last slice of the last beat leaves. -/
def readFlit (p : MamParams) (s : MamRegs) (m : MamMemory) : Flit :=
  ⟨s.counter == p.maxPktLen - 1 || (s.wcounter == p.dataWords - 1 && s.req_beats == 1),
    readSlice p m s.wcounter⟩

def dp_out (p : MamParams) (s : MamRegs) (m : MamMemory) (read_valid : Bool) : DiiFlit :=
  match s.phase with
  | .readPacket => .ofFlit (headFlit p s)
  | .read => if read_valid then .ofFlit (readFlit p s m) else .idle
  | _ => .idle

def req_valid (s : MamRegs) : Bool := s.phase == .request

def write_valid (p : MamParams) (s : MamRegs) (dp_in : DiiFlit) : Bool :=
  match s.phase with
  | .write | .writeSingle => dp_in.valid && s.wcounter == p.dataWords - 1
  | .writeWait | .writeSingleWait => true
  | _ => false

def write_data_m (s : MamRegs) (dp_in : DiiFlit) : Nat → Word :=
  match s.phase with
  | .write | .writeSingle => upd s.write_data_reg s.wcounter dp_in.data
  | _ => s.write_data_reg

def write_data (p : MamParams) (s : MamRegs) (dp_in : DiiFlit) : Nat → Byte :=
  let data := lane p (write_data_m s dp_in)
  if p.endian then data else endian_conv p data

def read_ready (p : MamParams) (s : MamRegs) (io : MamPorts) : Bool :=
  s.phase == .read && io.read_valid && io.dp_out_ready && s.wcounter == p.dataWords - 1

/-- `STATE_CMD`: the fields of the control word are sampled in every cycle. -/
def nextCmd (s : MamRegs) (dp_in : DiiFlit) : MamRegs :=
  { s with
    write_strb := dp_in.data
    req_rw := dp_in.data.getLsbD 15
    req_burst := dp_in.data.getLsbD 14
    req_beats := if dp_in.data.getLsbD 14 then dp_in.data.extractLsb' 0 14 else 1
    counter := if dp_in.valid then 0 else s.counter
    phase := if dp_in.valid then .addr else .cmd }

def nextAddr (p : MamParams) (s : MamRegs) (dp_in : DiiFlit) : MamRegs :=
  let complete := dp_in.valid && s.counter == p.addrWords - 1
  { s with
    req_addr := upd s.req_addr s.counter dp_in.data
    counter := if dp_in.valid then s.counter + 1 else s.counter
    is_last_flit := if complete then dp_in.last else s.is_last_flit
    phase := if complete then .request else .addr }

def nextRequest (s : MamRegs) (req_ready : Bool) : MamRegs :=
  if req_ready then
    { s with
      is_last_flit := false
      wcounter := 0
      counter := 0
      in_packet := false
      phase :=
        if s.req_rw then
          (if s.req_burst then (if s.is_last_flit then .writePacket else .write) else .writeSingle)
        else .readPacket }
  else s

def nextWritePacket (s : MamRegs) (dp_in : DiiFlit) : MamRegs :=
  if dp_in.valid then
    { s with counter := s.counter + 1, phase := if s.counter = 1 then .write else .writePacket }
  else s

/-- The memory takes a beat of a burst; `inPacket` says whether the packet goes on. -/
def beatTaken (s : MamRegs) (inPacket : Bool) : MamRegs :=
  { s with
    req_beats := s.req_beats - 1
    counter := if s.req_beats = 1 ∨ inPacket then s.counter else 0
    phase := if s.req_beats = 1 then .inactive else if inPacket then .write else .writePacket }

def nextWrite (p : MamParams) (s : MamRegs) (dp_in : DiiFlit) (write_ready : Bool) : MamRegs :=
  let sampled := { s with write_data_reg := upd s.write_data_reg s.wcounter dp_in.data }
  if !dp_in.valid then sampled
  else if s.wcounter = p.dataWords - 1 then
    if write_ready then beatTaken { sampled with wcounter := 0 } !dp_in.last
    else { sampled with wcounter := 0, phase := .writeWait, in_packet := !dp_in.last }
  else
    { sampled with
      wcounter := s.wcounter + 1
      counter := if dp_in.last then 0 else s.counter
      phase := if dp_in.last then .writePacket else .write }

def nextWriteWait (s : MamRegs) (write_ready : Bool) : MamRegs :=
  if write_ready then beatTaken s s.in_packet else s

def nextWriteSingle (p : MamParams) (s : MamRegs) (dp_in : DiiFlit) (write_ready : Bool) : MamRegs :=
  { s with
    write_data_reg := upd s.write_data_reg s.wcounter dp_in.data
    wcounter := if dp_in.valid then s.wcounter + 1 else s.wcounter
    phase :=
      if dp_in.valid && s.wcounter == p.dataWords - 1 then
        (if write_ready then .inactive else .writeSingleWait)
      else .writeSingle }

def nextReadPacket (s : MamRegs) (dp_out_ready : Bool) : MamRegs :=
  if dp_out_ready then
    { s with counter := s.counter + 1, phase := if s.counter = 1 then .read else .readPacket }
  else s

/-- The next flit is of the same packet, or of a new one if this one is full. -/
def flitSent (p : MamParams) (s : MamRegs) : MamRegs :=
  if s.counter = p.maxPktLen - 1 then { s with phase := .readPacket, counter := 0 }
  else { s with counter := s.counter + 1 }

def nextRead (p : MamParams) (s : MamRegs) (read_valid dp_out_ready : Bool) : MamRegs :=
  if read_valid && dp_out_ready then
    if s.wcounter = p.dataWords - 1 then
      let beat := { s with req_beats := s.req_beats - 1, wcounter := 0 }
      if s.req_beats = 1 then { beat with phase := .inactive } else flitSent p beat
    else flitSent p { s with wcounter := s.wcounter + 1 }
  else s

def next (p : MamParams) (s : MamRegs) (io : MamPorts) : MamRegs :=
  match s.phase with
  | .inactive => { s with phase := if io.dp_in.valid then .cmdSkip else .inactive }
  | .cmdSkip => { s with phase := if io.dp_in.valid then .cmd else .cmdSkip }
  | .cmd => nextCmd s io.dp_in
  | .addr => nextAddr p s io.dp_in
  | .request => nextRequest s io.req_ready
  | .writePacket => nextWritePacket s io.dp_in
  | .write => nextWrite p s io.dp_in io.write_ready
  | .writeWait => nextWriteWait s io.write_ready
  | .readPacket => nextReadPacket s io.dp_out_ready
  | .read => nextRead p s io.read_valid io.dp_out_ready
  | .writeSingle => nextWriteSingle p s io.dp_in io.write_ready
  | .writeSingleWait => { s with phase := if io.write_ready then .inactive else .writeSingleWait }

/-- The strobe counts for single accesses only. -/
def enabled (s : MamRegs) (lane : Nat) : Bool := s.req_burst || s.write_strb.getLsbD lane

/-- The memory after the cycle: it takes a request, a write beat or a read beat. -/
def memoryNext (p : MamParams) (s : MamRegs) (m : MamMemory) (io : MamPorts) : MamMemory :=
  if req_valid s && io.req_ready then m.request (slicesValue p.addrWords s.req_addr)
  else if write_valid p s io.dp_in && io.write_ready then m.store p (enabled s) (write_data p s io.dp_in)
  else if read_ready p s io then m.advance p
  else m

end Mam

/-! The module behind its register access layer, fed from a list of flits. -/

structure MamSystem where
  layer : LayerSystem
  mam : MamRegs
  memory : MamMemory

/-- The inputs of one cycle apart from the flits and the words of the memory. -/
structure MamInput where
  offer : Bool
  noise : Flit
  debug_out_ready : Bool
  req_ready : Bool
  write_ready : Bool
  read_valid : Bool
  answer : RegAnswer

namespace MamSystem

def layerInput (p : MamParams) (s : MamSystem) (e : MamInput) : LayerInput :=
  ⟨e.offer, e.noise, e.debug_out_ready, Mam.dp_in_ready s.mam, Mam.dp_out p s.mam s.memory e.read_valid, e.answer⟩

def dp_in (s : MamSystem) (e : LayerInput) : DiiFlit :=
  let demux := s.layer.layer.demux
  ⟨Demux.out_bypass_valid demux (Layer.inPort s.layer e), demux.buf.last, demux.buf.data⟩

def ports (p : MamParams) (s : MamSystem) (e : MamInput) : MamPorts :=
  let io := layerInput p s e
  { dp_in := dp_in s io
    dp_out_ready := RingRouterMux.in_ready s.layer.layer.mux
      (RegAccess.debug_out p.regParams s.layer.layer.reg) io.module_in e.debug_out_ready .loc
    req_ready := e.req_ready
    write_ready := e.write_ready
    read_valid := e.read_valid }

def cycle (p : MamParams) (s : MamSystem) (e : MamInput) : MamSystem :=
  { layer := Layer.cycle p.regParams s.layer (layerInput p s e)
    mam := Mam.next p s.mam (ports p s e)
    memory := Mam.memoryNext p s.mam s.memory (ports p s e) }

def clock (p : MamParams) (s : MamSystem) (e : MamInput) : Option MamSystem := some (cycle p s e)

/-- After `rst`, with the given flits to come and no access made. -/
structure OnReset (p : MamParams) (s : MamSystem) (flits : List Flit) : Prop where
  layer : Layer.OnReset s.layer
  pending : s.layer.pending = flits
  phase : s.mam.phase = .inactive
  updates : s.memory.updates = []
  serves : s.memory.Serves p

def sent (s : MamSystem) : List Flit := s.layer.log.map Prod.snd

end MamSystem

end LowRisc.Debug
