import LowRisc.Debug.DiiBuffer
import LowRisc.Debug.RingTraffic
import LowRisc.Lib.Transition

/-! The routers of `debug_ring` and the ring they are chained to.

Register updates follow the cycle's wires, so a cycle of the ring is one step. Beside the
registers the state keeps the flits that have passed each wire, and which local sources have
begun a packet.
-/

set_option autoImplicit false

namespace LowRisc.Debug.Interconnect

open Lib Lib.Worm

/-- `worm_local` is undefined until the first packet. -/
structure DemuxState where
  worm : Bool
  worm_local : Bool
  deriving DecidableEq, Repr

namespace RingRouterDemux

def is_local (id : BitVec 10) (f : Flit) : Bool := f.data.setWidth 10 == id

def switch_local (id : BitVec 10) (s : DemuxState) (in_ring : DiiFlit) : Bool :=
  if s.worm then s.worm_local else is_local id in_ring.flit

def out_ring (id : BitVec 10) (s : DemuxState) (in_ring : DiiFlit) : DiiFlit :=
  { in_ring with valid := !switch_local id s in_ring && in_ring.valid }

def out_local (id : BitVec 10) (s : DemuxState) (in_ring : DiiFlit) : DiiFlit :=
  { in_ring with valid := switch_local id s in_ring && in_ring.valid }

def in_ring_ready (id : BitVec 10) (s : DemuxState) (in_ring : DiiFlit)
    (out_local_ready out_ring_ready : Bool) : Bool :=
  if switch_local id s in_ring then out_local_ready else out_ring_ready

def next (id : BitVec 10) (s : DemuxState) (in_ring : DiiFlit) (ready : Bool) : DemuxState :=
  if !s.worm then
    { worm_local := is_local id in_ring.flit
      worm := ready && in_ring.valid && !in_ring.last }
  else { s with worm := !(ready && in_ring.valid && in_ring.last) }

end RingRouterDemux

inductive MuxRrState where
  | noworm0
  | noworm1
  | worm0
  | worm1
  deriving DecidableEq, Repr

namespace RingRouterMuxRr

def selected (s : MuxRrState) (in0 in1 : DiiFlit) : Option (Fin 2) :=
  match s with
  | .noworm0 => if in0.valid then some 0 else if in1.valid then some 1 else none
  | .noworm1 => if in1.valid then some 1 else if in0.valid then some 0 else none
  | .worm0 => some 0
  | .worm1 => some 1

def port (in0 in1 : DiiFlit) (chain : Fin 2) : DiiFlit := if chain = 0 then in0 else in1

def out_mux (s : MuxRrState) (in0 in1 : DiiFlit) : DiiFlit :=
  match selected s in0 in1 with
  | some chain => port in0 in1 chain
  | none => .idle

def in_ready (s : MuxRrState) (in0 in1 : DiiFlit) (out_mux_ready : Bool) (chain : Fin 2) : Bool :=
  out_mux_ready && selected s in0 in1 == some chain

def wormState (chain : Fin 2) : MuxRrState := if chain = 0 then .worm0 else .worm1

/-- The priority changes only behind a packet that was followed as a worm. -/
def nxt_state (s : MuxRrState) (in0 in1 : DiiFlit) (out_mux_ready : Bool) : MuxRrState :=
  let out := out_mux s in0 in1
  let ended := out.last && out.valid && out_mux_ready
  match s with
  | .worm0 => if ended then .noworm1 else s
  | .worm1 => if ended then .noworm0 else s
  | _ =>
    match selected s in0 in1 with
    | some chain => if out.last then s else wormState chain
    | none => s

def owner : MuxRrState → Option (Fin 2)
  | .worm0 => some 0
  | .worm1 => some 1
  | _ => none

end RingRouterMuxRr

structure RingRouter where
  demux0 : DemuxState
  demux1 : DemuxState
  mux_ring0 : MuxState
  mux_local : MuxRrState
  buffer0 : DiiBuffer
  buffer1 : DiiBuffer

structure RouterInput where
  ring_in0 : DiiFlit
  ring_in1 : DiiFlit
  ring_out0_ready : Bool
  ring_out1_ready : Bool
  local_in : DiiFlit
  local_out_ready : Bool

namespace RingRouter

section
variable (size : Nat) (id : BitVec 10) (r : RingRouter)

def ring_fwd0 (ring_in0 : DiiFlit) : DiiFlit := RingRouterDemux.out_ring id r.demux0 ring_in0
def ring_fwd1 (ring_in1 : DiiFlit) : DiiFlit := RingRouterDemux.out_ring id r.demux1 ring_in1
def ring_local0 (ring_in0 : DiiFlit) : DiiFlit := RingRouterDemux.out_local id r.demux0 ring_in0
def ring_local1 (ring_in1 : DiiFlit) : DiiFlit := RingRouterDemux.out_local id r.demux1 ring_in1

def ring_local_ready (e : RouterInput) (chain : Fin 2) : Bool :=
  RingRouterMuxRr.in_ready r.mux_local (r.ring_local0 id e.ring_in0) (r.ring_local1 id e.ring_in1)
    e.local_out_ready chain

def local_out (e : RouterInput) : DiiFlit :=
  RingRouterMuxRr.out_mux r.mux_local (r.ring_local0 id e.ring_in0) (r.ring_local1 id e.ring_in1)

def ring_muxed_ready : Bool := r.buffer0.flit_in_ready size

def ring_muxed (e : RouterInput) : DiiFlit :=
  RingRouterMux.out_mux r.mux_ring0 (r.ring_fwd0 id e.ring_in0) e.local_in

def ring_fwd0_ready (e : RouterInput) : Bool :=
  RingRouterMux.in_ready r.mux_ring0 (r.ring_fwd0 id e.ring_in0) e.local_in (r.ring_muxed_ready size) .ring

def local_in_ready (e : RouterInput) : Bool :=
  RingRouterMux.in_ready r.mux_ring0 (r.ring_fwd0 id e.ring_in0) e.local_in (r.ring_muxed_ready size) .loc

def ring_fwd1_ready : Bool := r.buffer1.flit_in_ready size

def ring_in0_ready (e : RouterInput) : Bool :=
  RingRouterDemux.in_ring_ready id r.demux0 e.ring_in0 (r.ring_local_ready id e 0)
    (r.ring_fwd0_ready size id e)

def ring_in1_ready (e : RouterInput) : Bool :=
  RingRouterDemux.in_ring_ready id r.demux1 e.ring_in1 (r.ring_local_ready id e 1)
    (r.ring_fwd1_ready size)

def next (e : RouterInput) : RingRouter :=
  { demux0 := RingRouterDemux.next id r.demux0 e.ring_in0 (r.ring_in0_ready size id e)
    demux1 := RingRouterDemux.next id r.demux1 e.ring_in1 (r.ring_in1_ready size id e)
    mux_ring0 := RingRouterMux.nxt_state r.mux_ring0 (r.ring_fwd0 id e.ring_in0) e.local_in
      (r.ring_muxed_ready size)
    mux_local := RingRouterMuxRr.nxt_state r.mux_local (r.ring_local0 id e.ring_in0)
      (r.ring_local1 id e.ring_in1) e.local_out_ready
    buffer0 := r.buffer0.next size (r.ring_muxed id e) e.ring_out0_ready
    buffer1 := r.buffer1.next size (r.ring_fwd1 id e.ring_in1) e.ring_out1_ready }

def passing (e : RouterInput) : Traffic :=
  { local_in := e.local_in.passed (r.local_in_ready size id e)
    ring_in0 := e.ring_in0.passed (r.ring_in0_ready size id e)
    ring_in1 := e.ring_in1.passed (r.ring_in1_ready size id e)
    ring_fwd0 := (r.ring_fwd0 id e.ring_in0).passed (r.ring_fwd0_ready size id e)
    ring_fwd1 := (r.ring_fwd1 id e.ring_in1).passed (r.ring_fwd1_ready size)
    ring_out0 := r.buffer0.flit_out.passed e.ring_out0_ready
    ring_out1 := r.buffer1.flit_out.passed e.ring_out1_ready
    ring_local0 := (r.ring_local0 id e.ring_in0).passed (r.ring_local_ready id e 0)
    ring_local1 := (r.ring_local1 id e.ring_in1).passed (r.ring_local_ready id e 1)
    ring_muxed := (r.ring_muxed id e).passed (r.ring_muxed_ready size)
    local_muxed := (r.local_out id e).passed e.local_out_ready
    local_out := (r.local_out id e).passed e.local_out_ready }

end

end RingRouter

/-- One cycle at the ports of a ring: the wires of chain 0 in front of the first router are
not driven. -/
structure RingInput where
  dii_in : Nat → DiiFlit
  dii_out_ready : Nat → Bool
  undriven : Flit

/-- The ports of a ring with what has passed: a source has begun a packet from its first offer
until its last flit is taken. -/
structure Observed (ρ : Type) where
  ring : ρ
  traffic : Nat → Traffic
  begun : Nat → Bool

def beginsOn (local_in : DiiFlit) (ready begun : Bool) : Bool :=
  if local_in.valid then !(ready && local_in.last) else begun

namespace DebugRing

abbrev State := Observed (Nat → RingRouter)

section
variable (n size : Nat) (id_map : Nat → BitVec 10) (routers : Nat → RingRouter)

/-- `chain[0][i]`. -/
def chain0 (undriven : Flit) : Nat → DiiFlit
  | 0 => ⟨false, undriven.last, undriven.data⟩
  | i + 1 => (routers i).buffer0.flit_out

/-- `chain[1][i]`: the end of chain 0 is connected to the start of chain 1. -/
def chain1 : Nat → DiiFlit
  | 0 => (routers (n - 1)).buffer0.flit_out
  | i + 1 => (routers i).buffer1.flit_out

/-- The input of router `i` without the ready wires of its successor. -/
def upstream (e : RingInput) (i : Nat) : RouterInput :=
  { ring_in0 := chain0 routers e.undriven i
    ring_in1 := chain1 n routers i
    ring_out0_ready := false
    ring_out1_ready := false
    local_in := e.dii_in i
    local_out_ready := e.dii_out_ready i }

/-- `chain_ready[0][i]`: no router passes the ready wires of its successor on. -/
def chain0_ready (e : RingInput) (i : Nat) : Bool :=
  if i = n then (routers 0).ring_in1_ready size (id_map 0) (upstream n routers e 0)
  else (routers i).ring_in0_ready size (id_map i) (upstream n routers e i)

/-- `chain_ready[1][i]`: the end of chain 1 dumps its flits. -/
def chain1_ready (e : RingInput) (i : Nat) : Bool :=
  if i = n then true else (routers i).ring_in1_ready size (id_map i) (upstream n routers e i)

def routerInput (e : RingInput) (i : Nat) : RouterInput :=
  { upstream n routers e i with
    ring_out0_ready := chain0_ready n size id_map routers e (i + 1)
    ring_out1_ready := chain1_ready n size id_map routers e (i + 1) }

end

def cycle (n size : Nat) (id_map : Nat → BitVec 10) (s : State) (e : RingInput) : State :=
  { ring := fun i => (s.ring i).next size (id_map i) (routerInput n size id_map s.ring e i)
    traffic := fun i =>
      (s.traffic i).append ((s.ring i).passing size (id_map i) (routerInput n size id_map s.ring e i))
    begun := fun i => beginsOn (e.dii_in i)
      ((s.ring i).local_in_ready size (id_map i) (routerInput n size id_map s.ring e i)) (s.begun i) }

structure OnReset (s : State) : Prop where
  worm0 : ∀ i, (s.ring i).demux0.worm = false
  worm1 : ∀ i, (s.ring i).demux1.worm = false
  mux_ring0 : ∀ i, (s.ring i).mux_ring0 = .noworm
  mux_local : ∀ i, (s.ring i).mux_local = .noworm0
  buffer0 : ∀ i, (s.ring i).buffer0.reg_out_valid = false ∧ (s.ring i).buffer0.rp = 0
  buffer1 : ∀ i, (s.ring i).buffer1.reg_out_valid = false ∧ (s.ring i).buffer1.rp = 0
  traffic : s.traffic = fun _ => {}
  begun : s.begun = fun _ => false

end DebugRing

end LowRisc.Debug.Interconnect
