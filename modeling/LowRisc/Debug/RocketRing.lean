import LowRisc.Chisel.Queue
import LowRisc.Debug.RingSwitching
import LowRisc.Debug.WormholeArbiter

/-! The Chisel ring `RingNetwork` and its routers `DebugRingRouter`.

In contrast to `debug_ring` chain 1 has no buffers: a flit at its start runs to the router that
takes it, or to the end, in one cycle. The local port has a buffer instead.
-/

set_option autoImplicit false

namespace LowRisc.Debug.Interconnect

open Lib Lib.Worm Chisel

namespace LocalIdRoute

/-- `worm` and `route_reg` follow the flits that fire; `route_reg` keeps the way of the worm. -/
def next (id : BitVec 10) (s : DemuxState) (ip : DiiFlit) (ready : Bool) : DemuxState :=
  let fire := ip.valid && ready
  { worm := if fire && ip.last then false else if fire then true else s.worm
    worm_local := if fire && !s.worm then RingRouterDemux.is_local id ip.flit else s.worm_local }

end LocalIdRoute

def deq (q : Queue Flit) : DiiFlit := ⟨q.deq_valid, q.deq_bits.last, q.deq_bits.data⟩

structure RocketRouter where
  ring0_demux : DemuxState
  ring1_demux : DemuxState
  ring0_mux : WormholeArbiter
  local_mux : WormholeArbiter
  ring0_buffer : Queue Flit
  local_buffer : Queue Flit

namespace RocketRouter

section
variable (buf_len : Nat) (id : BitVec 10) (r : RocketRouter)

def ring_fwd0 (ring_in0 : DiiFlit) : DiiFlit := RingRouterDemux.out_ring id r.ring0_demux ring_in0
def ring_fwd1 (ring_in1 : DiiFlit) : DiiFlit := RingRouterDemux.out_ring id r.ring1_demux ring_in1
def ring_local0 (ring_in0 : DiiFlit) : DiiFlit := RingRouterDemux.out_local id r.ring0_demux ring_in0
def ring_local1 (ring_in1 : DiiFlit) : DiiFlit := RingRouterDemux.out_local id r.ring1_demux ring_in1

/-- The inputs of `ring0_mux`: chain 0, then the local source. -/
def ring0_ip (e : RouterInput) (i : Nat) : DiiFlit :=
  RingRouterMux.port (r.ring_fwd0 id e.ring_in0) e.local_in (WormholeArbiter.label .ring .loc i)

/-- The inputs of `local_mux`: chain 0, then chain 1. -/
def local_ip (ring_in0 ring_in1 : DiiFlit) (i : Nat) : DiiFlit :=
  RingRouterMuxRr.port (r.ring_local0 id ring_in0) (r.ring_local1 id ring_in1) (WormholeArbiter.label 0 1 i)

def ring_muxed (e : RouterInput) : DiiFlit := r.ring0_mux.out .fixed 2 (r.ring0_ip id e)

def ring_muxed_ready : Bool := r.ring0_buffer.enq_ready

def ring_fwd0_ready (e : RouterInput) : Bool :=
  r.ring0_mux.in_ready .fixed 2 (r.ring0_ip id e) r.ring_muxed_ready 0

def local_in_ready (e : RouterInput) : Bool :=
  r.ring0_mux.in_ready .fixed 2 (r.ring0_ip id e) r.ring_muxed_ready 1

def local_muxed (e : RouterInput) : DiiFlit :=
  r.local_mux.out .roundRobin 2 (r.local_ip id e.ring_in0 e.ring_in1)

def local_muxed_ready : Bool := r.local_buffer.enq_ready

def ring_local_ready (ring_in0 ring_in1 : DiiFlit) (chain : Nat) : Bool :=
  r.local_mux.in_ready .roundRobin 2 (r.local_ip id ring_in0 ring_in1) r.local_muxed_ready chain

def ring_in0_ready (e : RouterInput) : Bool :=
  RingRouterDemux.in_ring_ready id r.ring0_demux e.ring_in0 (r.ring_local_ready id e.ring_in0 e.ring_in1 0)
    (r.ring_fwd0_ready id e)

def ring_in1_ready (e : RouterInput) : Bool :=
  RingRouterDemux.in_ring_ready id r.ring1_demux e.ring_in1 (r.ring_local_ready id e.ring_in0 e.ring_in1 1)
    e.ring_out1_ready

def next (e : RouterInput) : RocketRouter :=
  { ring0_demux := LocalIdRoute.next id r.ring0_demux e.ring_in0 (r.ring_in0_ready id e)
    ring1_demux := LocalIdRoute.next id r.ring1_demux e.ring_in1 (r.ring_in1_ready id e)
    ring0_mux := r.ring0_mux.next .fixed 2 (r.ring0_ip id e) r.ring_muxed_ready
    local_mux := r.local_mux.next .roundRobin 2 (r.local_ip id e.ring_in0 e.ring_in1) r.local_muxed_ready
    ring0_buffer := r.ring0_buffer.next buf_len (r.ring_muxed id e).valid (r.ring_muxed id e).flit
      e.ring_out0_ready
    local_buffer := r.local_buffer.next buf_len (r.local_muxed id e).valid (r.local_muxed id e).flit
      e.local_out_ready }

def passing (e : RouterInput) : Traffic :=
  { local_in := e.local_in.passed (r.local_in_ready id e)
    ring_in0 := e.ring_in0.passed (r.ring_in0_ready id e)
    ring_in1 := e.ring_in1.passed (r.ring_in1_ready id e)
    ring_fwd0 := (r.ring_fwd0 id e.ring_in0).passed (r.ring_fwd0_ready id e)
    ring_fwd1 := (r.ring_fwd1 id e.ring_in1).passed e.ring_out1_ready
    ring_out0 := (deq r.ring0_buffer).passed e.ring_out0_ready
    ring_out1 := (r.ring_fwd1 id e.ring_in1).passed e.ring_out1_ready
    ring_local0 := (r.ring_local0 id e.ring_in0).passed (r.ring_local_ready id e.ring_in0 e.ring_in1 0)
    ring_local1 := (r.ring_local1 id e.ring_in1).passed (r.ring_local_ready id e.ring_in0 e.ring_in1 1)
    ring_muxed := (r.ring_muxed id e).passed r.ring_muxed_ready
    local_muxed := (r.local_muxed id e).passed r.local_muxed_ready
    local_out := (deq r.local_buffer).passed e.local_out_ready }

end

end RocketRouter

namespace RingNetwork

abbrev State := Observed (Nat → RocketRouter)

section
variable (nodes : Nat) (id_assign : Nat → BitVec 10) (routers : Nat → RocketRouter)

def net0_in (undriven : Flit) : Nat → DiiFlit
  | 0 => ⟨false, undriven.last, undriven.data⟩
  | i + 1 => deq (routers i).ring0_buffer

def net1_in : Nat → DiiFlit
  | 0 => deq (routers (nodes - 1)).ring0_buffer
  | i + 1 => (routers i).ring_fwd1 (id_assign i) (net1_in i)

/-- `io.net(1).dii_in.ready` of the router with `rest` routers behind its predecessor: from the
end of the chain, which is always ready, to its start. -/
def net1_ready (undriven : Flit) : Nat → Bool
  | 0 => true
  | rest + 1 =>
    let i := nodes - (rest + 1)
    RingRouterDemux.in_ring_ready (id_assign i) (routers i).ring1_demux (net1_in nodes id_assign routers i)
      ((routers i).ring_local_ready (id_assign i) (net0_in routers undriven i)
        (net1_in nodes id_assign routers i) 1)
      (net1_ready undriven rest)

/-- The input of router `i` without the ready wire of chain 0. -/
def upstream (e : RingInput) (i : Nat) : RouterInput :=
  { ring_in0 := net0_in routers e.undriven i
    ring_in1 := net1_in nodes id_assign routers i
    ring_out0_ready := false
    ring_out1_ready := net1_ready nodes id_assign routers e.undriven (nodes - (i + 1))
    local_in := e.dii_in i
    local_out_ready := e.dii_out_ready i }

def routerInput (e : RingInput) (i : Nat) : RouterInput :=
  { upstream nodes id_assign routers e i with
    ring_out0_ready :=
      if i + 1 = nodes then net1_ready nodes id_assign routers e.undriven nodes
      else (routers (i + 1)).ring_in0_ready (id_assign (i + 1)) (upstream nodes id_assign routers e (i + 1)) }

end

def cycle (nodes buf_len : Nat) (id_assign : Nat → BitVec 10) (s : State) (e : RingInput) : State :=
  { ring := fun i => (s.ring i).next buf_len (id_assign i) (routerInput nodes id_assign s.ring e i)
    traffic := fun i =>
      (s.traffic i).append ((s.ring i).passing (id_assign i) (routerInput nodes id_assign s.ring e i))
    begun := fun i => beginsOn (e.dii_in i)
      ((s.ring i).local_in_ready (id_assign i) (routerInput nodes id_assign s.ring e i)) (s.begun i) }

structure RouterOnReset (r : RocketRouter) : Prop where
  worm0 : r.ring0_demux.worm = false
  worm1 : r.ring1_demux.worm = false
  ring0_mux : r.ring0_mux = ⟨⟨false, 1, 0⟩, fun _ => false⟩
  local_mux : r.local_mux = ⟨⟨false, 1, 0⟩, fun _ => false⟩
  ring0_buffer : r.ring0_buffer.enq_ptr = 0 ∧ r.ring0_buffer.deq_ptr = 0 ∧ r.ring0_buffer.maybe_full = false
  local_buffer : r.local_buffer.enq_ptr = 0 ∧ r.local_buffer.deq_ptr = 0 ∧ r.local_buffer.maybe_full = false

structure OnReset (s : State) : Prop where
  routers : ∀ i, RouterOnReset (s.ring i)
  traffic : s.traffic = fun _ => {}
  begun : s.begun = fun _ => false

end RingNetwork

end LowRisc.Debug.Interconnect
