import LowRisc.Lib.Transition
import LowRisc.Debug.Dii

/-! The register access layer of a debug module.

Register access packets are taken out of the incoming stream by `osd_regaccess_demux`
and answered by the state machine `osd_regaccess`. Its responses share the way out
with the packets of the module through `ring_router_mux`.
-/

set_option autoImplicit false

namespace LowRisc.Debug

open LowRisc.Lib

/-! The demultiplexer holds one flit back, because the type of a packet stands in its
second flit. -/

structure DemuxState where
  buf : Flit
  worm : Bool
  first : Bool
  regaccess : Bool
  deriving DecidableEq, Repr

namespace Demux

def in_is_regaccess (inp : DiiFlit) : Bool := inp.data.extractLsb' 14 2 == 0

def active (d : DemuxState) : Bool := d.first || d.worm

def out_reg_valid (d : DemuxState) (inp : DiiFlit) : Bool :=
  (d.first && in_is_regaccess inp && inp.valid) || (d.worm && d.regaccess && inp.valid)
    || (d.worm && d.regaccess && d.buf.last && !inp.valid)

def out_bypass_valid (d : DemuxState) (inp : DiiFlit) : Bool :=
  (d.first && !in_is_regaccess inp && inp.valid) || (d.worm && !d.regaccess && inp.valid)
    || (d.worm && !d.regaccess && d.buf.last && !inp.valid)

def out_reg (d : DemuxState) (inp : DiiFlit) : DiiFlit := ⟨out_reg_valid d inp, d.buf.last, d.buf.data⟩

def in_ready (d : DemuxState) (inp : DiiFlit) (out_reg_ready out_bypass_ready : Bool) : Bool :=
  let out_ready_first := if in_is_regaccess inp then out_reg_ready else out_bypass_ready
  let out_ready_worm := if d.regaccess then out_reg_ready else out_bypass_ready
  !active d || (d.first && out_ready_first) || (d.worm && out_ready_worm)

def next (d : DemuxState) (inp : DiiFlit) (out_reg_ready out_bypass_ready : Bool) : DemuxState :=
  let in_transfer := inp.valid && in_ready d inp out_reg_ready out_bypass_ready
  let out_transfer := (out_reg_valid d inp && out_reg_ready) || (out_bypass_valid d inp && out_bypass_ready)
  { buf := if in_transfer then inp.flit else d.buf
    worm := (d.first && in_transfer) || (d.worm && !(d.buf.last && out_transfer))
    first := (!active d && inp.valid) || (d.first && !in_transfer) || (d.worm && in_transfer && d.buf.last)
    regaccess := if d.first then in_is_regaccess inp else d.regaccess }

end Demux

/-! The state machine. -/

inductive RegPhase where
  | idle
  | start
  | addr
  | write
  | respStart
  | respSrc
  | respValue
  | drop
  | extStart
  deriving DecidableEq, Repr

structure RegParams where
  modid : Word
  modversion : Word
  canStall : Bool
  id : BitVec 10

structure RegState where
  phase : RegPhase
  req_write : Bool
  req_size : BitVec 2
  req_addr : Word
  reqresp_value : Word
  resp_dest : BitVec 10
  resp_error : Bool
  mod_cs_stall : Bool
  deriving DecidableEq, Repr

/-- The answer of the register file in one cycle. -/
structure RegAnswer where
  ack : Bool
  err : Bool
  rdata : Word
  deriving DecidableEq, Repr

namespace RegAccess

def REQ_SIZE_16 : BitVec 2 := 0
def REG_MODID : Word := 0
def REG_VERSION : Word := 1
def REG_CS : Word := 3
def CS_STALL : BitVec 5 := 1

/-- Addresses from `0x200` on belong to the register file of the module. -/
def isExt (addr : Word) : Bool := addr.extractLsb' 9 7 != 0

def debug_in_ready (s : RegState) : Bool :=
  match s.phase with
  | .idle | .start | .addr | .write | .drop => true
  | _ => false

def destFlit (s : RegState) : Flit := ⟨false, 0#6 ++ s.resp_dest⟩

def srcFlit (p : RegParams) (s : RegState) : Flit :=
  ⟨s.resp_error || s.req_write, 0#4 ++ BitVec.ofBool s.req_write ++ BitVec.ofBool s.resp_error ++ p.id⟩

def valueFlit (s : RegState) : Flit := ⟨true, s.reqresp_value⟩

def debug_out (p : RegParams) (s : RegState) : DiiFlit :=
  match s.phase with
  | .respStart => .ofFlit (destFlit s)
  | .respSrc => .ofFlit (srcFlit p s)
  | .respValue => .ofFlit (valueFlit s)
  | _ => .idle

def reg_request (s : RegState) : Bool := s.phase == .extStart

/-- `STATE_START`: the fields of the request header are sampled in every cycle. -/
def nextStart (s : RegState) (inp : DiiFlit) : RegState :=
  { s with
    req_write := inp.data.getLsbD 12
    req_size := inp.data.extractLsb' 10 2
    resp_dest := inp.data.extractLsb' 0 10
    resp_error := false
    phase := if inp.valid then (if inp.data.extractLsb' 14 2 != 0 then .drop else .addr) else .start }

/-- The error flag of a write to a register of this module. -/
def localWriteError (s : RegState) (inp : DiiFlit) : Bool :=
  s.req_size != REQ_SIZE_16 || inp.data != REG_CS

def nextAddrExt (s : RegState) (inp : DiiFlit) : RegState :=
  { s with
    req_addr := inp.data
    phase := if inp.valid then (if s.req_write then .write else .extStart) else .addr }

def nextAddrLocalWrite (s : RegState) (inp : DiiFlit) : RegState :=
  let error := localWriteError s inp
  { s with
    req_addr := if s.req_size = REQ_SIZE_16 then inp.data else s.req_addr
    resp_error := error || (inp.valid && inp.last)
    phase := if inp.valid then (if inp.last || error then .respStart else .write) else .addr }

def nextAddrLocalRead (p : RegParams) (s : RegState) (inp : DiiFlit) : RegState :=
  { s with
    reqresp_value :=
      if inp.data = REG_MODID then p.modid
      else if inp.data = REG_VERSION then p.modversion else s.reqresp_value
    resp_error := if inp.data = REG_MODID ∨ inp.data = REG_VERSION then s.resp_error else true
    phase := if inp.valid then (if inp.last then .respStart else .drop) else .addr }

def nextAddr (p : RegParams) (s : RegState) (inp : DiiFlit) : RegState :=
  if isExt inp.data then nextAddrExt s inp
  else if s.req_write then nextAddrLocalWrite s inp
  else nextAddrLocalRead p s inp

def nextWrite (p : RegParams) (s : RegState) (inp : DiiFlit) : RegState :=
  if !inp.valid then s
  else if isExt s.req_addr then
    { s with
      reqresp_value := inp.data
      phase := if inp.last then .extStart else .drop }
  else
    let stallCommand := s.req_addr == REG_CS && inp.data.extractLsb' 11 5 == CS_STALL && p.canStall
    { s with
      reqresp_value := inp.data
      mod_cs_stall := if stallCommand then inp.data.getLsbD 0 else s.mod_cs_stall
      resp_error := if s.req_addr = REG_CS ∧ !stallCommand then true else s.resp_error
      phase := if inp.last then .respStart else .drop }

def nextExtStart (s : RegState) (answer : RegAnswer) : RegState :=
  if answer.ack || answer.err then
    { s with reqresp_value := answer.rdata, resp_error := answer.err, phase := .respStart }
  else s

def next (p : RegParams) (s : RegState) (inp : DiiFlit) (debug_out_ready : Bool) (answer : RegAnswer) :
    RegState :=
  match s.phase with
  | .idle => { s with phase := if inp.valid then .start else .idle }
  | .start => nextStart s inp
  | .addr => nextAddr p s inp
  | .write => nextWrite p s inp
  | .respStart => { s with phase := if debug_out_ready then .respSrc else .respStart }
  | .respSrc =>
    { s with phase := if debug_out_ready then (if s.req_write then .idle else .respValue) else .respSrc }
  | .respValue => { s with phase := if debug_out_ready then .idle else .respValue }
  | .extStart => nextExtStart s answer
  | .drop => { s with phase := if inp.valid && inp.last then .idle else .drop }

def stall (p : RegParams) (s : RegState) : Bool := p.canStall && s.mod_cs_stall

end RegAccess

/-! The layer, with the source that feeds it and what has left it so far. -/

structure LayerState where
  demux : DemuxState
  reg : RegState
  mux : MuxState
  deriving DecidableEq, Repr

structure LayerInput where
  offer : Bool
  noise : Flit
  debug_out_ready : Bool
  module_out_ready : Bool
  module_in : DiiFlit
  answer : RegAnswer
  deriving DecidableEq, Repr

/-- A layer in its environment: the flits still to come, the flits sent with their
origin (`ring` for responses, `loc` for packets of the module) and the answers that
the register file has given. -/
structure LayerSystem where
  layer : LayerState
  pending : List Flit
  log : List (Source × Flit)
  answers : List RegAnswer
  deriving DecidableEq, Repr

namespace Layer

def inPort (s : LayerSystem) (e : LayerInput) : DiiFlit := offered e.offer e.noise s.pending

def debug_in_ready (s : LayerSystem) (e : LayerInput) : Bool :=
  Demux.in_ready s.layer.demux (inPort s e) (RegAccess.debug_in_ready s.layer.reg) e.module_out_ready

def answered (s : LayerState) (e : LayerInput) : Bool :=
  RegAccess.reg_request s.reg && (e.answer.ack || e.answer.err)

def cycle (p : RegParams) (s : LayerSystem) (e : LayerInput) : LayerSystem :=
  let inp := inPort s e
  let demux := s.layer.demux
  let reg := s.layer.reg
  let regOut := RegAccess.debug_out p reg
  let regOutReady := RingRouterMux.in_ready s.layer.mux regOut e.module_in e.debug_out_ready .ring
  let regInReady := RegAccess.debug_in_ready reg
  { layer :=
      { demux := Demux.next demux inp regInReady e.module_out_ready
        reg := RegAccess.next p reg (Demux.out_reg demux inp) regOutReady e.answer
        mux := RingRouterMux.nxt_state s.layer.mux regOut e.module_in e.debug_out_ready }
    pending := if inp.valid && debug_in_ready s e then s.pending.tail else s.pending
    log := s.log ++ (RingRouterMux.transfer s.layer.mux regOut e.module_in e.debug_out_ready).toList
    answers := if answered s.layer e then s.answers ++ [e.answer] else s.answers }

def clock (p : RegParams) (s : LayerSystem) (e : LayerInput) : Option LayerSystem := some (cycle p s e)

/-- The registers that `rst` sets. -/
def OnReset (s : LayerSystem) : Prop :=
  s.layer.demux.worm = false ∧ s.layer.demux.first = false ∧ s.layer.reg.phase = .idle
    ∧ s.layer.reg.mod_cs_stall = true ∧ s.layer.mux = .noworm ∧ s.log = [] ∧ s.answers = []

end Layer

end LowRisc.Debug
