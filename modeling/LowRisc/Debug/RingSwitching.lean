import LowRisc.Debug.RingRouter

/-! How the routers of `debug_ring` switch packets: what has passed the wires of a router agrees
with its registers, whatever its neighbours do.
-/

set_option autoImplicit false

namespace LowRisc.Debug.Interconnect

open Lib.Worm

/-- The registers of a demultiplexer after a stream: inside a packet they hold its way. -/
structure DemuxState.Follows (here : Flit → Bool) (s : DemuxState) (stream : List Flit) : Prop where
  worm : s.worm = !(openPacket stream).isEmpty
  way : s.worm = true → s.worm_local = headed here (openPacket stream)

namespace RingRouterDemux
variable {id : BitVec 10} {s : DemuxState} {stream : List Flit}

theorem switch_eq (follows : s.Follows (is_local id) stream) (d : DiiFlit) :
    switch_local id s d = headed (is_local id) (openPacket stream ++ [d.flit]) := by
  unfold switch_local
  cases part : openPacket stream with
  | nil => simp [follows.worm, part]
  | cons f rest => simp [follows.worm, part, follows.way (by simp [follows.worm, part])]

theorem follows_next (follows : s.Follows (is_local id) stream) (d : DiiFlit) (ready : Bool) :
    (next id s d ready).Follows (is_local id) (stream ++ d.passed ready) := by
  have turned := switch_eq follows d
  cases moves : d.valid && ready with
  | false =>
    have none : d.passed ready = [] := by simp [DiiFlit.passed, moves]
    have same : (next id s d ready).worm = s.worm := by
      rw [Bool.and_comm] at moves
      cases worm : s.worm <;> simp [next, worm, moves]
    rw [none, List.append_nil]
    refine ⟨same.trans follows.worm, fun up => ?_⟩
    rw [same] at up
    simpa [next, up] using follows.way up
  | true =>
    have one : d.passed ready = [d.flit] := by simp [DiiFlit.passed, moves]
    rw [Bool.and_comm] at moves
    rw [one]
    constructor
    · cases ends : d.last <;> cases worm : s.worm <;> simp [next, worm, moves, ends, DiiFlit.flit]
    · intro up
      have goesOn : d.last = false := by
        by_contra ends
        rw [Bool.not_eq_false] at ends
        cases worm : s.worm <;> simp [next, worm, moves, ends] at up
      have part : openPacket (stream ++ [d.flit]) = openPacket stream ++ [d.flit] := by
        simp [DiiFlit.flit, goesOn]
      rw [part, ← turned]
      cases worm : s.worm <;> simp [next, switch_local, worm]

theorem out_local_passed (s : DemuxState) (d : DiiFlit) (localReady ringReady : Bool) :
    (out_local id s d).passed localReady =
      if switch_local id s d then d.passed (in_ring_ready id s d localReady ringReady) else [] := by
  cases turned : switch_local id s d <;>
    simp [out_local, in_ring_ready, DiiFlit.passed, DiiFlit.flit, turned]

theorem out_ring_passed (s : DemuxState) (d : DiiFlit) (localReady ringReady : Bool) :
    (out_ring id s d).passed ringReady =
      if !switch_local id s d then d.passed (in_ring_ready id s d localReady ringReady) else [] := by
  cases turned : switch_local id s d <;>
    simp [out_ring, in_ring_ready, DiiFlit.passed, DiiFlit.flit, turned]

end RingRouterDemux

end LowRisc.Debug.Interconnect

namespace LowRisc.Debug.RingRouterMux
open Interconnect Lib.Worm

def owner : MuxState → Option Source
  | .noworm => none
  | .wormRing => some .ring
  | .wormLocal => some .loc

theorem turns (s : MuxState) (in_ring in_local : DiiFlit) (ready : Bool) :
    Turns (owner s) (owner (nxt_state s in_ring in_local ready)) (selected s in_ring in_local)
      (port in_ring in_local) ready := by
  cases s with
  | noworm =>
    refine .of_states (by simp [owner]) (fun source _ turned => ?_) (fun _ => ?_) (by simp [owner])
    · simp only [selected] at turned
      split at turned
      · cases turned
        assumption
      · split at turned
        · cases turned
          assumption
        · cases turned
    · cases turned : selected .noworm in_ring in_local with
      | none => simp [nxt_state, turned, owner]
      | some source =>
        simp only [nxt_state, out_mux, turned, Option.elim_some, apply_ite owner]
        cases source <;> rfl
  | wormRing =>
    refine .of_states (fun _ held => held) (by simp [owner]) (by simp [owner]) (fun source held => ?_)
    cases held
    cases ended : (port in_ring in_local .ring).last && (port in_ring in_local .ring).valid && ready <;>
      simp [nxt_state, out_mux, selected, ended, owner]
  | wormLocal =>
    refine .of_states (fun _ held => held) (by simp [owner]) (by simp [owner]) (fun source held => ?_)
    cases held
    cases ended : (port in_ring in_local .loc).last && (port in_ring in_local .loc).valid && ready <;>
      simp [nxt_state, out_mux, selected, ended, owner]

theorem out_mux_passed (s : MuxState) (in_ring in_local : DiiFlit) (ready : Bool) :
    (out_mux s in_ring in_local).passed ready =
      (selected s in_ring in_local).elim [] fun i => (port in_ring in_local i).passed ready := by
  unfold out_mux
  cases selected s in_ring in_local <;> simp [DiiFlit.passed, DiiFlit.idle]

end LowRisc.Debug.RingRouterMux

namespace LowRisc.Debug.Interconnect.RingRouterMuxRr
open Lib.Worm

theorem valid_of_selected {s : MuxRrState} {in0 in1 : DiiFlit} (free : owner s = none) {chain : Fin 2}
    (turned : selected s in0 in1 = some chain) : (port in0 in1 chain).valid = true := by
  cases s with
  | noworm0 =>
    simp only [selected] at turned
    split at turned
    · cases turned
      assumption
    · split at turned
      · cases turned
        assumption
      · cases turned
  | noworm1 =>
    simp only [selected] at turned
    split at turned
    · cases turned
      assumption
    · split at turned
      · cases turned
        assumption
      · cases turned
  | worm0 => cases free
  | worm1 => cases free

theorem owner_wormState (chain : Fin 2) : owner (wormState chain) = some chain := by
  match chain with
  | 0 => rfl
  | 1 => rfl

theorem turns (s : MuxRrState) (in0 in1 : DiiFlit) (ready : Bool) :
    Turns (owner s) (owner (nxt_state s in0 in1 ready)) (selected s in0 in1) (port in0 in1) ready := by
  cases s with
  | noworm0 =>
    refine .of_states (by simp [owner]) (fun _ free turned => valid_of_selected free turned) (fun _ => ?_) (by simp [owner])
    cases turned : selected .noworm0 in0 in1 with
    | none => simp [nxt_state, turned, owner]
    | some chain =>
      simp only [nxt_state, out_mux, turned, Option.elim_some, apply_ite owner, owner_wormState]
      rfl
  | noworm1 =>
    refine .of_states (by simp [owner]) (fun _ free turned => valid_of_selected free turned) (fun _ => ?_) (by simp [owner])
    cases turned : selected .noworm1 in0 in1 with
    | none => simp [nxt_state, turned, owner]
    | some chain =>
      simp only [nxt_state, out_mux, turned, Option.elim_some, apply_ite owner, owner_wormState]
      rfl
  | worm0 =>
    refine .of_states (fun _ held => held) (by simp [owner]) (by simp [owner]) (fun chain held => ?_)
    cases held
    cases ended : (port in0 in1 0).last && (port in0 in1 0).valid && ready <;>
      simp [nxt_state, out_mux, selected, ended, owner]
  | worm1 =>
    refine .of_states (fun _ held => held) (by simp [owner]) (by simp [owner]) (fun chain held => ?_)
    cases held
    cases ended : (port in0 in1 1).last && (port in0 in1 1).valid && ready <;>
      simp [nxt_state, out_mux, selected, ended, owner]

theorem out_mux_passed (s : MuxRrState) (in0 in1 : DiiFlit) (ready : Bool) :
    (out_mux s in0 in1).passed ready =
      (selected s in0 in1).elim [] fun i => (port in0 in1 i).passed ready := by
  unfold out_mux
  cases selected s in0 in1 <;> simp [DiiFlit.passed, DiiFlit.idle]

end LowRisc.Debug.Interconnect.RingRouterMuxRr

namespace LowRisc.Debug.Interconnect

open Lib.Worm

namespace RingRouter

structure Keeps (size : Nat) (id : BitVec 10) (r : RingRouter) (t : Traffic) : Prop where
  switched : t.Switched (RingRouterDemux.is_local id) (RingRouterMux.owner r.mux_ring0)
    (RingRouterMuxRr.owner r.mux_local)
  demux0 : r.demux0.Follows (RingRouterDemux.is_local id) t.ring_in0
  demux1 : r.demux1.Follows (RingRouterDemux.is_local id) t.ring_in1
  wf0 : r.buffer0.WellFormed size
  wf1 : r.buffer1.WellFormed size
  buffer0 : t.ring_out0 ++ r.buffer0.flits = t.ring_muxed
  buffer1 : t.ring_out1 ++ r.buffer1.flits = t.ring_fwd1
  out : t.local_out = t.local_muxed

variable {size : Nat} {id : BitVec 10} {r : RingRouter} {t : Traffic}

theorem demux_cycle {s : DemuxState} {stream locals forwards : List Flit} {d : DiiFlit}
    (follows : s.Follows (RingRouterDemux.is_local id) stream)
    (here : Routed Flit.last (RingRouterDemux.is_local id) stream locals)
    (past : Routed Flit.last (fun f => !RingRouterDemux.is_local id f) stream forwards)
    (localReady ringReady : Bool) :
    Routed Flit.last (RingRouterDemux.is_local id)
      (stream ++ d.passed (RingRouterDemux.in_ring_ready id s d localReady ringReady))
      (locals ++ (RingRouterDemux.out_local id s d).passed localReady)
    ∧ Routed Flit.last (fun f => !RingRouterDemux.is_local id f)
      (stream ++ d.passed (RingRouterDemux.in_ring_ready id s d localReady ringReady))
      (forwards ++ (RingRouterDemux.out_ring id s d).passed ringReady) := by
  have turned := RingRouterDemux.switch_eq follows d
  constructor
  · rw [RingRouterDemux.out_local_passed s d localReady ringReady]
    exact Traffic.routed_cycle here turned _
  · rw [RingRouterDemux.out_ring_passed s d localReady ringReady]
    exact Traffic.routed_cycle past (by rw [Traffic.headed_not, turned]) _

theorem Keeps.switched_next (keeps : r.Keeps size id t) (e : RouterInput) :
    (t.append (r.passing size id e)).Switched (RingRouterDemux.is_local id)
      (RingRouterMux.owner (r.next size id e).mux_ring0)
      (RingRouterMuxRr.owner (r.next size id e).mux_local) := by
  have chain0 := demux_cycle (d := e.ring_in0) keeps.demux0 keeps.switched.local0 keeps.switched.fwd0
    (r.ring_local_ready id e 0) (r.ring_fwd0_ready size id e)
  have chain1 := demux_cycle (d := e.ring_in1) keeps.demux1 keeps.switched.local1 keeps.switched.fwd1
    (r.ring_local_ready id e 1) (r.ring_fwd1_ready size)
  refine ⟨chain0.1, chain0.2, chain1.1, chain1.2, ?_, ?_⟩
  · have step := (RingRouterMux.turns r.mux_ring0 (r.ring_fwd0 id e.ring_in0) e.local_in
      (r.ring_muxed_ready size)).wormStep
    rw [← RingRouterMux.out_mux_passed] at step
    have next := keeps.switched.muxed.step step
    have same : (t.append (r.passing size id e)).toRing = fun source => t.toRing source ++
        (RingRouterMux.port (r.ring_fwd0 id e.ring_in0) e.local_in source).passed
          (RingRouterMux.in_ready r.mux_ring0 (r.ring_fwd0 id e.ring_in0) e.local_in
            (r.ring_muxed_ready size) source) := by
      funext source
      cases source <;> rfl
    rw [same]
    exact next
  · have step := (RingRouterMuxRr.turns r.mux_local (r.ring_local0 id e.ring_in0)
      (r.ring_local1 id e.ring_in1) e.local_out_ready).wormStep
    rw [← RingRouterMuxRr.out_mux_passed] at step
    have next := keeps.switched.localMuxed.step step
    have same : (t.append (r.passing size id e)).toLocal = fun chain => t.toLocal chain ++
        (RingRouterMuxRr.port (r.ring_local0 id e.ring_in0) (r.ring_local1 id e.ring_in1) chain).passed
          (r.ring_local_ready id e chain) := by
      funext chain
      match chain with
      | 0 => rfl
      | 1 => rfl
    rw [same]
    exact next

theorem Keeps.next (two : 2 ≤ size) (keeps : r.Keeps size id t) (e : RouterInput) :
    (r.next size id e).Keeps size id (t.append (r.passing size id e)) where
  switched := keeps.switched_next e
  demux0 := RingRouterDemux.follows_next keeps.demux0 e.ring_in0 _
  demux1 := RingRouterDemux.follows_next keeps.demux1 e.ring_in1 _
  wf0 := keeps.wf0.next _ _
  wf1 := keeps.wf1.next _ _
  buffer0 := by
    have conserved := DiiBuffer.conserved two keeps.wf0 (r.ring_muxed id e) e.ring_out0_ready
    simp only [Traffic.append, passing, RingRouter.next]
    rw [List.append_assoc, conserved, ← List.append_assoc, keeps.buffer0]
    rfl
  buffer1 := by
    have conserved := DiiBuffer.conserved two keeps.wf1 (r.ring_fwd1 id e.ring_in1) e.ring_out1_ready
    simp only [Traffic.append, passing, RingRouter.next]
    rw [List.append_assoc, conserved, ← List.append_assoc, keeps.buffer1]
    rfl
  out := by simp [Traffic.append, passing, keeps.out]

end RingRouter

end LowRisc.Debug.Interconnect
