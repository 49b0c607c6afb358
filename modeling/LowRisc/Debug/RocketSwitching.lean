import LowRisc.Debug.RocketRing

/-! How the routers of `RingNetwork` switch packets: what has passed the wires of a router agrees
with its registers, whatever its neighbours do.
-/

set_option autoImplicit false

namespace LowRisc.Debug.Interconnect

open Lib.Worm Chisel

theorem LocalIdRoute.follows_next {id : BitVec 10} {s : DemuxState} {stream : List Flit}
    (follows : s.Follows (RingRouterDemux.is_local id) stream) (d : DiiFlit) (ready : Bool) :
    (next id s d ready).Follows (RingRouterDemux.is_local id) (stream ++ d.passed ready) := by
  have turned := RingRouterDemux.switch_eq follows d
  cases moves : d.valid && ready with
  | false =>
    have none : d.passed ready = [] := by simp [DiiFlit.passed, moves]
    rw [none, List.append_nil]
    simp only [next, moves]
    exact follows
  | true =>
    have one : d.passed ready = [d.flit] := by simp [DiiFlit.passed, moves]
    rw [one]
    constructor
    · cases ends : d.last <;> simp [next, moves, ends, DiiFlit.flit]
    · intro up
      have goesOn : d.last = false := by
        by_contra ends
        rw [Bool.not_eq_false] at ends
        simp [next, moves, ends] at up
      have part : openPacket (stream ++ [d.flit]) = openPacket stream ++ [d.flit] := by
        simp [DiiFlit.flit, goesOn]
      rw [part, ← turned]
      cases worm : s.worm <;> simp [next, moves, RingRouterDemux.switch_local, worm]

section
variable {entries : Nat} {q : Queue Flit} {list : List Flit}

theorem deq_of_cons {f : Flit} {rest : List Flit} (positive : 0 < entries)
    (holds : q.Contains entries (f :: rest)) : deq q = .ofFlit f := by
  have valid : q.deq_valid = true := by simp [Queue.deq_valid, holds.empty_eq positive]
  simp [deq, valid, holds.deq_bits_eq, DiiFlit.ofFlit]

theorem deq_valid_iff (positive : 0 < entries) (holds : q.Contains entries list) :
    (deq q).valid = true ↔ list ≠ [] := by
  cases list <;> simp [deq, Queue.deq_valid, holds.empty_eq positive]

theorem queue_conserved (positive : 0 < entries) (holds : q.Contains entries list) (d : DiiFlit)
    (ready : Bool) :
    ∃ list', (q.next entries d.valid d.flit ready).Contains entries list'
      ∧ (deq q).passed ready ++ list' = list ++ d.passed q.enq_ready := by
  refine ⟨_, holds.next positive d.valid d.flit ready, ?_⟩
  have given : (if (q.enq_ready && d.valid) = true then [d.flit] else []) = d.passed q.enq_ready := by
    rw [DiiFlit.passed, Bool.and_comm]
  rw [given, ← List.append_assoc]
  congr 1
  cases list with
  | nil =>
    have down : (deq q).valid = false := by
      rw [Bool.eq_false_iff]
      intro up
      exact (deq_valid_iff positive holds).mp up rfl
    simp [DiiFlit.passed, down]
  | cons f rest =>
    have head := deq_of_cons positive holds
    have valid : q.deq_valid = true := by simp [Queue.deq_valid, holds.empty_eq positive]
    rw [head]
    cases ready <;> simp [DiiFlit.passed, DiiFlit.ofFlit, DiiFlit.flit, valid]

end

namespace RocketRouter

structure Keeps (buf_len : Nat) (id : BitVec 10) (r : RocketRouter) (t : Traffic) : Prop where
  switched : t.Switched (RingRouterDemux.is_local id) (r.ring0_mux.owner .ring .loc) (r.local_mux.owner 0 1)
  demux0 : r.ring0_demux.Follows (RingRouterDemux.is_local id) t.ring_in0
  demux1 : r.ring1_demux.Follows (RingRouterDemux.is_local id) t.ring_in1
  wf0 : r.ring0_mux.WellFormed
  wfLocal : r.local_mux.WellFormed
  ring0_buffer : ∃ list, r.ring0_buffer.Contains buf_len list ∧ t.ring_out0 ++ list = t.ring_muxed
  local_buffer : ∃ list, r.local_buffer.Contains buf_len list ∧ t.local_out ++ list = t.local_muxed
  out1 : t.ring_out1 = t.ring_fwd1

variable {buf_len : Nat} {id : BitVec 10} {r : RocketRouter} {t : Traffic}

theorem Keeps.switched_next (keeps : r.Keeps buf_len id t) (e : RouterInput) :
    (t.append (r.passing id e)).Switched (RingRouterDemux.is_local id)
      ((r.next buf_len id e).ring0_mux.owner .ring .loc) ((r.next buf_len id e).local_mux.owner 0 1) := by
  have chain0 := RingRouter.demux_cycle (d := e.ring_in0) keeps.demux0 keeps.switched.local0
    keeps.switched.fwd0 (r.ring_local_ready id e.ring_in0 e.ring_in1 0) (r.ring_fwd0_ready id e)
  have chain1 := RingRouter.demux_cycle (d := e.ring_in1) keeps.demux1 keeps.switched.local1
    keeps.switched.fwd1 (r.ring_local_ready id e.ring_in0 e.ring_in1 1) e.ring_out1_ready
  refine ⟨chain0.1, chain0.2, chain1.1, chain1.2, ?_, ?_⟩
  · have step := r.ring0_mux.wormStep .fixed Source.ring Source.loc
      (RingRouterMux.port (r.ring_fwd0 id e.ring_in0) e.local_in) keeps.wf0 r.ring_muxed_ready
    have next := keeps.switched.muxed.step step
    have same : (t.append (r.passing id e)).toRing = fun source => t.toRing source ++
        (RingRouterMux.port (r.ring_fwd0 id e.ring_in0) e.local_in source).passed
          (r.ring_muxed_ready
            && r.ring0_mux.turned Source.ring Source.loc .fixed (r.ring0_ip id e) == some source) := by
      funext source
      cases source with
      | ring =>
        exact congrArg (t.ring_fwd0 ++ (r.ring_fwd0 id e.ring_in0).passed ·)
          (WormholeArbiter.in_ready_label (by decide) keeps.wf0 _ (by decide))
      | loc =>
        exact congrArg (t.local_in ++ e.local_in.passed ·)
          (WormholeArbiter.in_ready_label (by decide) keeps.wf0 _ (by decide))
    rw [same]
    exact next
  · have step := r.local_mux.wormStep .roundRobin (0 : Fin 2) 1
      (RingRouterMuxRr.port (r.ring_local0 id e.ring_in0) (r.ring_local1 id e.ring_in1)) keeps.wfLocal
      r.local_muxed_ready
    have next := keeps.switched.localMuxed.step step
    have same : (t.append (r.passing id e)).toLocal = fun chain => t.toLocal chain ++
        (RingRouterMuxRr.port (r.ring_local0 id e.ring_in0) (r.ring_local1 id e.ring_in1) chain).passed
          (r.local_muxed_ready
            && r.local_mux.turned 0 1 .roundRobin (r.local_ip id e.ring_in0 e.ring_in1) == some chain) := by
      funext chain
      match chain with
      | 0 =>
        exact congrArg (t.ring_local0 ++ (r.ring_local0 id e.ring_in0).passed ·)
          (WormholeArbiter.in_ready_label (by decide) keeps.wfLocal _ (by decide))
      | 1 =>
        exact congrArg (t.ring_local1 ++ (r.ring_local1 id e.ring_in1).passed ·)
          (WormholeArbiter.in_ready_label (by decide) keeps.wfLocal _ (by decide))
    rw [same]
    exact next

theorem Keeps.next (positive : 0 < buf_len) (keeps : r.Keeps buf_len id t) (e : RouterInput) :
    (r.next buf_len id e).Keeps buf_len id (t.append (r.passing id e)) where
  switched := keeps.switched_next e
  demux0 := LocalIdRoute.follows_next keeps.demux0 e.ring_in0 _
  demux1 := LocalIdRoute.follows_next keeps.demux1 e.ring_in1 _
  wf0 := keeps.wf0.next _
  wfLocal := keeps.wfLocal.next _
  ring0_buffer := by
    obtain ⟨list, holds, split⟩ := keeps.ring0_buffer
    obtain ⟨list', holds', conserved⟩ := queue_conserved positive holds (r.ring_muxed id e) e.ring_out0_ready
    refine ⟨list', holds', ?_⟩
    simp only [Traffic.append, passing]
    rw [List.append_assoc, conserved, ← List.append_assoc, split]
    rfl
  local_buffer := by
    obtain ⟨list, holds, split⟩ := keeps.local_buffer
    obtain ⟨list', holds', conserved⟩ := queue_conserved positive holds (r.local_muxed id e) e.local_out_ready
    refine ⟨list', holds', ?_⟩
    simp only [Traffic.append, passing]
    rw [List.append_assoc, conserved, ← List.append_assoc, split]
    rfl
  out1 := by simp [Traffic.append, passing, keeps.out1]

end RocketRouter

end LowRisc.Debug.Interconnect
