import LowRisc.Lib.Transition
import LowRisc.Debug.Dii
import LowRisc.Debug.OsdFifo

/-! The trace path of a debug module: `osd_tracesample`, `osd_fifo`,
`osd_trace_packetization` and the egress multiplexer it shares with register responses. -/

set_option autoImplicit false

namespace LowRisc.Debug

open LowRisc.Lib

/-- An entry of the trace buffer: an event or a count of lost events. -/
structure TraceRecord (width : Nat) where
  overflow : Bool
  data : BitVec width
  deriving DecidableEq, Repr

namespace TraceSample

variable {width : Nat}

def passthrough (ov_counter : BitVec 10) : Bool := ov_counter == 0

/-- The low ten bits carry the count; a narrower record keeps what fits. -/
def fifo_data (ov_counter : BitVec 10) (sample_data : BitVec width) : BitVec width :=
  if passthrough ov_counter then sample_data
  else ((sample_data >>> 10) <<< 10) ||| ov_counter.setWidth width

def fifo_overflow (ov_counter : BitVec 10) : Bool := !passthrough ov_counter

def fifo_valid (ov_counter : BitVec 10) (sample_valid : Bool) : Bool :=
  if passthrough ov_counter then sample_valid else true

def next (ov_counter : BitVec 10) (sample_valid fifo_ready : Bool) : BitVec 10 :=
  let ov_increment := sample_valid && !fifo_ready
  let ov_saturate := ov_counter == BitVec.allOnes 10
  let ov_complete := fifo_overflow ov_counter && fifo_ready && !sample_valid
  let ov_again := fifo_overflow ov_counter && fifo_ready && sample_valid
  if ov_complete then 0
  else if ov_again then 1
  else if ov_increment && !ov_saturate then ov_counter + 1
  else ov_counter

end TraceSample

inductive PacketPhase where
  | idle
  | source
  | status
  | event
  deriving DecidableEq, Repr

namespace TracePacket

variable {width : Nat}

def NUM_FLITS (width : Nat) : Nat := (width + 15) / 16

def FILL_LAST (width : Nat) : Nat := NUM_FLITS width * 16 - width

/-- The source flit: a trace event, with the overflow bit. -/
def sourceWord (id : BitVec 10) (overflow : Bool) : Word :=
  2#2 ++ 0#2 ++ BitVec.ofBool overflow ++ 0#1 ++ id

def statusWord (data : BitVec width) : Word := 1#1 ++ 0#5 ++ data.setWidth 10

/-- The flit of an event at the given counter; the last one is padded with zeros. -/
def eventWord (data : BitVec width) (counter : Nat) : Word :=
  if counter < NUM_FLITS width - 1 then data.extractLsb' (counter * 16) 16
  else if 0 < FILL_LAST width then
    (data.extractLsb' (width - (16 - FILL_LAST width)) (16 - FILL_LAST width)).setWidth 16
  else data.extractLsb' (counter * 16) 16

structure State where
  phase : PacketPhase
  counter : Nat
  deriving DecidableEq, Repr

def debug_out (id : BitVec 10) (s : State) (trace_valid : Bool) (trace : TraceRecord width) : DiiFlit :=
  match s.phase with
  | .idle => ⟨trace_valid, false, 0⟩
  | .source => ⟨true, false, sourceWord id trace.overflow⟩
  | .status => ⟨true, true, statusWord trace.data⟩
  | .event => ⟨true, !decide (s.counter < NUM_FLITS width - 1), eventWord trace.data s.counter⟩

def trace_ready (width : Nat) (s : State) (debug_out_ready : Bool) : Bool :=
  match s.phase with
  | .idle | .source => false
  | .status => debug_out_ready
  | .event => !decide (s.counter < NUM_FLITS width - 1) && debug_out_ready

def next (s : State) (trace_valid : Bool) (trace : TraceRecord width) (debug_out_ready : Bool) : State :=
  match s.phase with
  | .idle => { s with phase := if trace_valid && debug_out_ready then .source else .idle }
  | .source =>
    ⟨if debug_out_ready then (if trace.overflow then .status else .event) else .source, 0⟩
  | .status => { s with phase := if debug_out_ready then .idle else .status }
  | .event =>
    if s.counter < NUM_FLITS width - 1 then
      { s with counter := if debug_out_ready then s.counter + 1 else s.counter }
    else { s with phase := if debug_out_ready then .idle else .event }

end TracePacket

/-- The trace path with what was sampled and what has left on the debug port. Flits of
the trace are logged with source `loc`, register responses with source `ring`. -/
structure TraceSystem (width depth : Nat) where
  ov_counter : BitVec 10
  fifo : OsdFifo depth (TraceRecord width)
  packet : TracePacket.State
  mux : MuxState
  log : List (Source × Flit)
  sampled : List (BitVec width)

/-- The inputs of one cycle; `response` is the port of the register access state machine. -/
structure TraceInput (width : Nat) where
  sample_valid : Bool
  sample_data : BitVec width
  response : DiiFlit
  debug_out_ready : Bool

namespace Trace

variable {width depth : Nat}

def packetOut (id : BitVec 10) (s : TraceSystem width depth) : DiiFlit :=
  TracePacket.debug_out id s.packet s.fifo.out_valid s.fifo.out_data

def packetTaken (id : BitVec 10) (s : TraceSystem width depth) (e : TraceInput width) : Bool :=
  RingRouterMux.in_ready s.mux e.response (packetOut id s) e.debug_out_ready .loc

def cycle (id : BitVec 10) (s : TraceSystem width depth) (e : TraceInput width) : TraceSystem width depth :=
  let record := ⟨TraceSample.fifo_overflow s.ov_counter, TraceSample.fifo_data s.ov_counter e.sample_data⟩
  let out := packetOut id s
  let taken := packetTaken id s e
  { ov_counter := TraceSample.next s.ov_counter e.sample_valid s.fifo.in_ready
    fifo := s.fifo.next record (TraceSample.fifo_valid s.ov_counter e.sample_valid)
      (TracePacket.trace_ready width s.packet taken)
    packet := TracePacket.next s.packet s.fifo.out_valid s.fifo.out_data taken
    mux := RingRouterMux.nxt_state s.mux e.response out e.debug_out_ready
    log := s.log ++ (RingRouterMux.transfer s.mux e.response out e.debug_out_ready).toList
    sampled := if e.sample_valid then s.sampled ++ [e.sample_data] else s.sampled }

def clock (id : BitVec 10) (s : TraceSystem width depth) (e : TraceInput width) :
    Option (TraceSystem width depth) := some (cycle id s e)

def OnReset (s : TraceSystem width depth) : Prop :=
  s.ov_counter = 0 ∧ s.fifo.fifo_write_ptr = BitVec.twoPow (depth + 1) 0 ∧ s.packet = ⟨.idle, 0⟩
    ∧ s.mux = .noworm ∧ s.log = [] ∧ s.sampled = []

end Trace

/-! What the host makes of the packets. -/

inductive TraceItem (width : Nat) where
  | event (data : BitVec width)
  | lost (count : Nat)
  deriving DecidableEq, Repr

namespace TraceHost

variable {width : Nat}

def ofWords (width : Nat) (payload : List Word) : BitVec width :=
  payload.foldr (fun w acc => (acc <<< 16) ||| w.setWidth width) 0

/-- `(packet[2] >> 11) & 0x1` tells an overflow packet, `packet[3] & 0x3ff` is its count. -/
def decode (width : Nat) : List Word → Option (TraceItem width)
  | _ :: source :: payload =>
    if source.getLsbD 11 then (payload.head?).map fun w => .lost (w &&& 0x3ff).toNat
    else some (.event (ofWords width payload))
  | _ => none

end TraceHost

/-- The whole packets of a flit stream. -/
def packets : List Flit → List (List Word)
  | [] => []
  | f :: rest =>
    if f.last then [f.data] :: packets rest
    else match packets rest with
      | [] => []
      | p :: ps => (f.data :: p) :: ps

end LowRisc.Debug
