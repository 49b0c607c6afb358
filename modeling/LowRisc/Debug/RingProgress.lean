import LowRisc.Debug.RingSwitching

/-! A debug ring does not deadlock.

The argument does not depend on the implementation. The flits of a worm can wait for chain 1
or for another worm at a local port, but chain 0 never waits for a worm that is itself held
back on chain 0: its unfinished part lies upstream, down to its source.
-/

set_option autoImplicit false

namespace LowRisc.Debug.RingRouterMux

variable {s : MuxState} {in_ring in_local : DiiFlit}

theorem loc_ready (held : owner s = some .loc) : in_ready s in_ring in_local true .loc ≠ false := by
  cases s <;> simp_all [owner, in_ready, selected]

theorem ring_ready (free : owner s ≠ some .loc) (up : in_ring.valid = true) :
    in_ready s in_ring in_local true .ring ≠ false := by
  cases s <;> simp_all [owner, in_ready, selected]

theorem loc_ready_of_free (free : owner s ≠ some .ring) (down : in_ring.valid = false) (up : in_local.valid = true) :
    in_ready s in_ring in_local true .loc = true := by
  cases s <;> simp_all [owner, in_ready, selected]

end LowRisc.Debug.RingRouterMux

namespace LowRisc.Debug.Interconnect

open Lib Lib.Worm

structure Wires where
  out0 : Nat → Bool
  out1 : Nat → Bool
  fwd0 : Nat → Bool
  fwd1 : Nat → Bool
  local0 : Nat → Bool
  local1 : Nat → Bool

namespace Wires

def in0 (w : Wires) : Nat → Bool
  | 0 => false
  | k + 1 => w.out0 k

def in1 (n : Nat) (w : Wires) : Nat → Bool
  | 0 => w.out0 (n - 1)
  | k + 1 => w.out1 k

end Wires

/-- A ring in which no flit moves although the local ports are ready and the sources offer what
they have begun. -/
structure Standstill (n : Nat) (here : Nat → Flit → Bool) (owner : Nat → Option Source)
    (localOwner : Nat → Option (Fin 2)) (T : Nat → Traffic) (w : Wires) : Prop where
  linked : Linked n T
  switched : ∀ k, k < n → (T k).Switched (here k) (owner k) (localOwner k)
  drained0 : ∀ k, k < n → w.out0 k = false → (T k).ring_out0 = (T k).ring_muxed
  drained1 : ∀ k, k < n → w.out1 k = false → (T k).ring_out1 = (T k).ring_fwd1
  turned0 : ∀ k, k < n → w.in0 k = true → w.local0 k = true ∨ w.fwd0 k = true
  turned1 : ∀ k, k < n → w.in1 n k = true → w.local1 k = true ∨ w.fwd1 k = true
  goesOn0 : ∀ k, k < n → w.in0 k = true → openPacket (T k).ring_fwd0 ≠ [] → w.fwd0 k = true
  goesLocal0 : ∀ k, k < n → w.in0 k = true → openPacket (T k).ring_local0 ≠ [] → w.local0 k = true
  committed0 : ∀ k, k < n → localOwner k = some 0 → openPacket (T k).ring_local0 ≠ [] ∨ w.local0 k = true
  committed1 : ∀ k, k < n → localOwner k = some 1 → openPacket (T k).ring_local1 ≠ [] ∨ w.local1 k = true
  sources : ∀ k, k < n → w.out0 k = false → owner k ≠ some .loc
  stuck0 : ∀ k, k < n → w.out0 k = false → w.fwd0 k = false
  stuck1 : ∀ k, k < n → w.fwd1 k = true → w.out1 k = true
  stuckLocal0 : ∀ k, k < n → w.local0 k = true → localOwner k = some 1 ∧ w.local1 k = false
  stuckLocal1 : ∀ k, k < n → w.local1 k = true → localOwner k = some 0 ∧ w.local0 k = false
  dumped : ∀ k, k + 1 = n → w.out1 k = false

namespace Standstill

variable {n : Nat} {here : Nat → Flit → Bool} {owner : Nat → Option Source}
  {localOwner : Nat → Option (Fin 2)} {T : Nat → Traffic} {w : Wires}

/-- Behind an empty buffer of chain 0 there is no unfinished worm: it could be followed up to
a source that goes on with it. -/
theorem no_open_worm (still : Standstill n here owner localOwner T w) {k : Nat} (inside : k < n)
    (empty : w.out0 k = false) : openPacket (T k).ring_muxed = [] := by
  induction k with
  | zero =>
    by_contra part
    have merged := (still.switched 0 inside).muxed
    cases held : owner 0 with
    | none => exact part (merged.free held)
    | some source =>
      cases source with
      | loc => exact still.sources 0 inside empty held
      | ring =>
        rw [openPacket, merged.worm .ring held] at part
        have upstream := (still.switched 0 inside).fwd0.unfinished_source part
        rw [still.linked.first] at upstream
        exact upstream.2 rfl
  | succ j ih =>
    by_contra part
    have merged := (still.switched (j + 1) inside).muxed
    cases held : owner (j + 1) with
    | none => exact part (merged.free held)
    | some source =>
      cases source with
      | loc => exact still.sources (j + 1) inside empty held
      | ring =>
        rw [openPacket, merged.worm .ring held] at part
        cases waits : w.out0 j with
        | true =>
          have forward := still.goesOn0 (j + 1) inside waits part
          rw [still.stuck0 (j + 1) inside empty] at forward
          cases forward
        | false =>
          have upstream := (still.switched (j + 1) inside).fwd0.unfinished_source part
          rw [still.linked.chain0 j inside, still.drained0 j (by omega) waits] at upstream
          exact upstream.2 (ih (by omega) waits)

theorem no_worm_on_ring (still : Standstill n here owner localOwner T w) {k : Nat} (inside : k < n)
    (empty : w.out0 k = false) (held : owner k = some .ring) : openPacket (T k).ring_fwd0 = [] :=
  ((still.switched k inside).muxed.worm .ring held).symm.trans (still.no_open_worm inside empty)

theorem local0_of_held (still : Standstill n here owner localOwner T w) {k : Nat} (inside : k < n)
    (held : localOwner k = some 0) : w.local0 k = true := by
  rcases still.committed0 k inside held with part | up
  · have upstream := (still.switched k inside).local0.unfinished_source part
    cases k with
    | zero =>
      rw [still.linked.first] at upstream
      exact absurd rfl upstream.2
    | succ j =>
      cases waits : w.out0 j with
      | true => exact still.goesLocal0 (j + 1) inside waits part
      | false =>
        rw [still.linked.chain0 j inside, still.drained0 j (by omega) waits] at upstream
        exact absurd (still.no_open_worm (by omega) waits) upstream.2
  · exact up

theorem local1_idle (still : Standstill n here owner localOwner T w) {k : Nat} (inside : k < n) :
    w.local1 k = false := by
  by_contra up
  obtain ⟨held, idle⟩ := still.stuckLocal1 k inside (by simpa using up)
  rw [still.local0_of_held inside held] at idle
  cases idle

/-- Chain 1 is empty: from its end on, every flit could go on. -/
theorem out1_empty (still : Standstill n here owner localOwner T w) (d : Nat) {k : Nat}
    (place : k + 1 + d = n) : w.out1 k = false := by
  induction d generalizing k with
  | zero => exact still.dumped k place
  | succ d ih =>
    by_contra up
    rw [Bool.not_eq_false] at up
    rcases still.turned1 (k + 1) (by omega) up with here | forward
    · rw [still.local1_idle (by omega)] at here
      cases here
    · have full := still.stuck1 (k + 1) (by omega) forward
      rw [ih (by omega)] at full
      cases full

theorem last_out0_empty (still : Standstill n here owner localOwner T w) (positive : 0 < n) :
    w.out0 (n - 1) = false := by
  by_contra up
  rw [Bool.not_eq_false] at up
  rcases still.turned1 0 positive up with here | forward
  · rw [still.local1_idle positive] at here
    cases here
  · have full := still.stuck1 0 positive forward
    rw [still.out1_empty (n - 1) (by omega)] at full
    cases full

theorem no_open_worm1 (still : Standstill n here owner localOwner T w) {k : Nat} (inside : k < n) :
    openPacket (T k).ring_in1 = [] := by
  induction k with
  | zero =>
    have empty := still.last_out0_empty inside
    rw [still.linked.wrap, still.drained0 (n - 1) (by omega) empty]
    exact still.no_open_worm (by omega) empty
  | succ j ih =>
    rw [still.linked.chain1 j inside, still.drained1 j (by omega) (still.out1_empty (n - 1 - j) (by omega))]
    by_contra part
    exact ((still.switched j (by omega)).fwd1.unfinished_source part).2 (ih (by omega))

theorem local0_idle (still : Standstill n here owner localOwner T w) {k : Nat} (inside : k < n) :
    w.local0 k = false := by
  by_contra up
  obtain ⟨held, idle⟩ := still.stuckLocal0 k inside (by simpa using up)
  rcases still.committed1 k inside held with part | other
  · exact ((still.switched k inside).local1.unfinished_source part).2 (still.no_open_worm1 inside)
  · rw [idle] at other
    cases other

theorem out0_empty (still : Standstill n here owner localOwner T w) (d : Nat) {k : Nat}
    (place : k + 1 + d = n) : w.out0 k = false := by
  induction d generalizing k with
  | zero => exact (show k = n - 1 by omega) ▸ still.last_out0_empty (by omega)
  | succ d ih =>
    by_contra up
    rw [Bool.not_eq_false] at up
    rcases still.turned0 (k + 1) (by omega) up with here | forward
    · rw [still.local0_idle (by omega)] at here
      cases here
    · rw [still.stuck0 (k + 1) (by omega) (ih (by omega))] at forward
      cases forward

/-- Only an empty ring stands still. -/
theorem empty (still : Standstill n here owner localOwner T w) {k : Nat} (inside : k < n) :
    w.out0 k = false ∧ w.out1 k = false :=
  ⟨still.out0_empty (n - 1 - k) (by omega), still.out1_empty (n - 1 - k) (by omega)⟩

end Standstill

/-! Flits that wait at a multiplexer of `debug_ring` keep waiting there. -/

namespace RingRouterDemux

variable {id : BitVec 10}

theorem switch_local_stalled (s : DemuxState) (d : DiiFlit) :
    switch_local id (next id s d false) d = switch_local id s d := by
  cases worm : s.worm <;> simp [switch_local, next, worm]

theorem out_local_waits {s : DemuxState} {d d' : DiiFlit} {localReady ringReady : Bool}
    (waits : (out_local id s d).valid = true) (stays : (out_local id s d).passed localReady = [])
    (same : d.valid = true → in_ring_ready id s d localReady ringReady = false → d' = d) :
    (out_local id (next id s d (in_ring_ready id s d localReady ringReady)) d').valid = true := by
  have turned : switch_local id s d = true ∧ d.valid = true := by simpa [out_local] using waits
  have held : in_ring_ready id s d localReady ringReady = false := by
    simpa [DiiFlit.passed, out_local, turned, in_ring_ready] using stays
  rw [same turned.2 held, held, out_local]
  simp [switch_local_stalled, turned]

theorem out_ring_waits {s : DemuxState} {d d' : DiiFlit} {localReady ringReady : Bool}
    (waits : (out_ring id s d).valid = true) (stays : (out_ring id s d).passed ringReady = [])
    (same : d.valid = true → in_ring_ready id s d localReady ringReady = false → d' = d) :
    (out_ring id (next id s d (in_ring_ready id s d localReady ringReady)) d').valid = true := by
  have turned : switch_local id s d = false ∧ d.valid = true := by simpa [out_ring] using waits
  have held : in_ring_ready id s d localReady ringReady = false := by
    simpa [DiiFlit.passed, out_ring, turned, in_ring_ready] using stays
  rw [same turned.2 held, held, out_ring]
  simp [switch_local_stalled, turned]

theorem turned_valid (s : DemuxState) {d : DiiFlit} (up : d.valid = true) :
    (out_local id s d).valid = true ∨ (out_ring id s d).valid = true := by
  cases turned : switch_local id s d <;> simp [out_local, out_ring, turned, up]

theorem goes_local {s : DemuxState} {stream out : List Flit} {d : DiiFlit}
    (follows : s.Follows (is_local id) stream) (way : Routed Flit.last (is_local id) stream out)
    (part : openPacket out ≠ []) (up : d.valid = true) : (out_local id s d).valid = true := by
  obtain ⟨headed, started⟩ := way.unfinished_source part
  have turned : switch_local id s d = true := by
    rw [switch_eq follows, headed_append _ _ started, headed]
  simp [out_local, turned, up]

theorem goes_on {s : DemuxState} {stream out : List Flit} {d : DiiFlit}
    (follows : s.Follows (is_local id) stream)
    (way : Routed Flit.last (fun f => !is_local id f) stream out)
    (part : openPacket out ≠ []) (up : d.valid = true) : (out_ring id s d).valid = true := by
  obtain ⟨headed, started⟩ := way.unfinished_source part
  have turned : (!switch_local id s d) = true := by
    rw [switch_eq follows, ← Traffic.headed_not, headed_append _ _ started, headed]
  simp only [out_ring, turned, up, Bool.and_self]

end RingRouterDemux

theorem beginsOn_of_passed {d : DiiFlit} {ready begun : Bool} {f : Flit} (passed : d.passed ready = [f])
    (goesOn : f.last = false) : beginsOn d ready begun = true := by
  unfold DiiFlit.passed at passed
  split at passed
  · cases passed
    simp_all [beginsOn, DiiFlit.flit]
  · cases passed

theorem beginsOn_of_waits {d : DiiFlit} {ready begun : Bool} (stays : d.passed ready = [])
    (waits : begun = true ∨ d.valid = true) : beginsOn d ready begun = true := by
  unfold beginsOn
  split
  · rename_i up
    simp only [DiiFlit.passed, up, Bool.true_and, ite_eq_right_iff, List.cons_ne_nil, imp_false,
      Bool.not_eq_true] at stays
    simp [stays]
  · rename_i down
    exact waits.resolve_right down

theorem openPacket_of_passed {stream : List Flit} {f : Flit} (goesOn : f.last = false) :
    openPacket (stream ++ [f]) ≠ [] := by
  simp [openPacket, goesOn]

theorem passed_eq_nil_iff {d : DiiFlit} {ready : Bool} :
    d.passed ready = [] ↔ (d.valid = true → ready = false) := by
  simp [DiiFlit.passed]

theorem passed_of_taken {d : DiiFlit} {ready : Bool} (taken : d.valid = true → ready = true) :
    d.passed ready = d.passed true := by
  cases up : d.valid with
  | false => simp [DiiFlit.passed, up]
  | true => rw [taken up]

/-- Only a worm of the other input holds a flit back when the output is ready. -/
theorem RingRouterMuxRr.held_of_stalled {s : MuxRrState} {in0 in1 : DiiFlit}
    (still0 : in0.passed (in_ready s in0 in1 true 0) = [])
    (still1 : in1.passed (in_ready s in0 in1 true 1) = []) :
    (in0.valid = true → owner s = some 1 ∧ in1.valid = false)
    ∧ (in1.valid = true → owner s = some 0 ∧ in0.valid = false) := by
  rw [passed_eq_nil_iff] at still0 still1
  cases s <;> cases up0 : in0.valid <;> cases up1 : in1.valid <;>
    simp_all [in_ready, selected, owner]

namespace RingRouter

/-- A worm that a multiplexer follows is either inside a packet or has a flit waiting. -/
structure Committed (id : BitVec 10) (r : RingRouter) (t : Traffic) (begun : Bool)
    (ring_in0 ring_in1 : DiiFlit) : Prop where
  loc : RingRouterMux.owner r.mux_ring0 = some .loc → begun = true
  ring : RingRouterMux.owner r.mux_ring0 = some .ring →
    openPacket t.ring_fwd0 ≠ [] ∨ (r.ring_fwd0 id ring_in0).valid = true
  local0 : RingRouterMuxRr.owner r.mux_local = some 0 →
    openPacket t.ring_local0 ≠ [] ∨ (r.ring_local0 id ring_in0).valid = true
  local1 : RingRouterMuxRr.owner r.mux_local = some 1 →
    openPacket t.ring_local1 ≠ [] ∨ (r.ring_local1 id ring_in1).valid = true

variable {size : Nat} {id : BitVec 10} {r : RingRouter} {t : Traffic} {begun : Bool}

theorem Committed.next {e : RouterInput} {in0 in1 : DiiFlit}
    (committed : r.Committed id t begun e.ring_in0 e.ring_in1)
    (same0 : e.ring_in0.valid = true → r.ring_in0_ready size id e = false → in0 = e.ring_in0)
    (same1 : e.ring_in1.valid = true → r.ring_in1_ready size id e = false → in1 = e.ring_in1) :
    (r.next size id e).Committed id (t.append (r.passing size id e))
      (beginsOn e.local_in (r.local_in_ready size id e) begun) in0 in1 := by
  constructor
  · intro held
    rcases (RingRouterMux.turns r.mux_ring0 (r.ring_fwd0 id e.ring_in0) e.local_in
      (r.ring_muxed_ready size)).commits held with ⟨f, passed, goesOn⟩ | ⟨stays, before⟩
    -- a flit of the local source that is not the last one has opened a packet
    · exact beginsOn_of_passed passed goesOn
    · exact beginsOn_of_waits stays (before.imp_left committed.loc)
  · intro held
    rcases (RingRouterMux.turns r.mux_ring0 (r.ring_fwd0 id e.ring_in0) e.local_in
      (r.ring_muxed_ready size)).commits held with ⟨f, passed, goesOn⟩ | ⟨stays, before⟩
    · left
      have one : (r.passing size id e).ring_fwd0 = [f] := passed
      -- the packet on the ring is open since this cycle
      simp only [Traffic.append, one]
      exact openPacket_of_passed goesOn
    · have none : (r.passing size id e).ring_fwd0 = [] := stays
      simp only [Traffic.append, none, List.append_nil]
      -- the flit that keeps the multiplexer waits at the input still
      have waits : openPacket t.ring_fwd0 ≠ [] ∨ (r.ring_fwd0 id e.ring_in0).valid = true :=
        before.elim committed.ring .inr
      exact waits.imp_right fun up => RingRouterDemux.out_ring_waits up none same0
  · intro held
    rcases (RingRouterMuxRr.turns r.mux_local (r.ring_local0 id e.ring_in0) (r.ring_local1 id e.ring_in1)
      e.local_out_ready).commits held with ⟨f, passed, goesOn⟩ | ⟨stays, before⟩
    · left
      have one : (r.passing size id e).ring_local0 = [f] := passed
      simp only [Traffic.append, one]
      exact openPacket_of_passed goesOn
    · have none : (r.passing size id e).ring_local0 = [] := stays
      simp only [Traffic.append, none, List.append_nil]
      have waits : openPacket t.ring_local0 ≠ [] ∨ (r.ring_local0 id e.ring_in0).valid = true :=
        before.elim committed.local0 .inr
      exact waits.imp_right fun up => RingRouterDemux.out_local_waits up none same0
  · intro held
    rcases (RingRouterMuxRr.turns r.mux_local (r.ring_local0 id e.ring_in0) (r.ring_local1 id e.ring_in1)
      e.local_out_ready).commits held with ⟨f, passed, goesOn⟩ | ⟨stays, before⟩
    · left
      have one : (r.passing size id e).ring_local1 = [f] := passed
      simp only [Traffic.append, one]
      exact openPacket_of_passed goesOn
    · have none : (r.passing size id e).ring_local1 = [] := stays
      simp only [Traffic.append, none, List.append_nil]
      have waits : openPacket t.ring_local1 ≠ [] ∨ (r.ring_local1 id e.ring_in1).valid = true :=
        before.elim committed.local1 .inr
      exact waits.imp_right fun up => RingRouterDemux.out_local_waits up none same1

end RingRouter

namespace DebugRing

variable {n size : Nat} {id_map : Nat → BitVec 10} {s : State} {e : RingInput}

/-! The ready wire of a buffer is the one of the input it is connected to. -/

theorem ring_out0_ready_inner {k : Nat} (inside : k + 1 < n) :
    (routerInput n size id_map s.ring e k).ring_out0_ready =
      (s.ring (k + 1)).ring_in0_ready size (id_map (k + 1)) (routerInput n size id_map s.ring e (k + 1)) := by
  simp only [routerInput, chain0_ready, if_neg (show ¬k + 1 = n by omega)]
  rfl

theorem ring_out0_ready_last {k : Nat} (final : k + 1 = n) :
    (routerInput n size id_map s.ring e k).ring_out0_ready =
      (s.ring 0).ring_in1_ready size (id_map 0) (routerInput n size id_map s.ring e 0) := by
  simp only [routerInput, chain0_ready, if_pos final]
  rfl

theorem ring_out1_ready_inner {k : Nat} (inside : k + 1 < n) :
    (routerInput n size id_map s.ring e k).ring_out1_ready =
      (s.ring (k + 1)).ring_in1_ready size (id_map (k + 1)) (routerInput n size id_map s.ring e (k + 1)) := by
  simp only [routerInput, chain1_ready, if_neg (show ¬k + 1 = n by omega)]
  rfl

theorem ring_out1_ready_last {k : Nat} (final : k + 1 = n) :
    (routerInput n size id_map s.ring e k).ring_out1_ready = true := by
  simp only [routerInput, chain1_ready, if_pos final]

/-- What holds in every state of a run: each router agrees with its wires, the wires are
connected, and the worms that are followed are there. -/
structure Invariant (n size : Nat) (id_map : Nat → BitVec 10) (s : State) : Prop where
  keeps : ∀ k, k < n → (s.ring k).Keeps size (id_map k) (s.traffic k)
  linked : Linked n s.traffic
  committed : ∀ k, k < n → ∀ undriven, (s.ring k).Committed (id_map k) (s.traffic k) (s.begun k)
    (chain0 s.ring undriven k) (chain1 n s.ring k)

theorem invariant_of_reset (positive : 0 < size) (reset : OnReset s) : Invariant n size id_map s where
  keeps k _ := by
    have empty0 : (s.ring k).buffer0.flits = [] := by simp [DiiBuffer.flits, reset.buffer0 k]
    have empty1 : (s.ring k).buffer1.flits = [] := by simp [DiiBuffer.flits, reset.buffer1 k]
    rw [reset.traffic]
    exact
      { switched := by
          rw [reset.mux_ring0, reset.mux_local]
          exact Traffic.switched_empty _
        demux0 := ⟨by simp [reset.worm0 k], by simp [reset.worm0 k]⟩
        demux1 := ⟨by simp [reset.worm1 k], by simp [reset.worm1 k]⟩
        wf0 := ⟨by rw [(reset.buffer0 k).2]; exact positive, fun _ => (reset.buffer0 k).2⟩
        wf1 := ⟨by rw [(reset.buffer1 k).2]; exact positive, fun _ => (reset.buffer1 k).2⟩
        buffer0 := by simp [empty0]
        buffer1 := by simp [empty1]
        out := rfl }
  linked := by
    rw [reset.traffic]
    exact ⟨rfl, fun _ _ => rfl, rfl, fun _ _ => rfl⟩
  committed k _ undriven := by
    constructor
    · simp [reset.mux_ring0 k, RingRouterMux.owner]
    · simp [reset.mux_ring0 k, RingRouterMux.owner]
    · simp [reset.mux_local k, RingRouterMuxRr.owner]
    · simp [reset.mux_local k, RingRouterMuxRr.owner]

theorem Invariant.linked_cycle (positive : 0 < n) (inv : Invariant n size id_map s) (e : RingInput) :
    Linked n (cycle n size id_map s e).traffic where
  first := by
    simp only [cycle, Traffic.append, RingRouter.passing]
    rw [inv.linked.first]
    rfl
  chain0 k inside := by
    simp only [cycle, Traffic.append, RingRouter.passing]
    rw [inv.linked.chain0 k inside, ring_out0_ready_inner inside]
    rfl
  wrap := by
    simp only [cycle, Traffic.append, RingRouter.passing]
    rw [inv.linked.wrap, ring_out0_ready_last (by omega)]
    rfl
  chain1 k inside := by
    simp only [cycle, Traffic.append, RingRouter.passing]
    rw [inv.linked.chain1 k inside, ring_out1_ready_inner inside]
    rfl

theorem Invariant.committed_cycle (two : 2 ≤ size) (positive : 0 < n) (inv : Invariant n size id_map s)
    (e : RingInput) {k : Nat} (inside : k < n) (undriven : Flit) :
    ((cycle n size id_map s e).ring k).Committed (id_map k) ((cycle n size id_map s e).traffic k)
      ((cycle n size id_map s e).begun k) (chain0 (cycle n size id_map s e).ring undriven k)
      (chain1 n (cycle n size id_map s e).ring k) := by
  have before := inv.committed k inside e.undriven
  refine before.next (e := routerInput n size id_map s.ring e k) ?_ ?_
  · intro up held
    cases k with
    | zero => cases up
    | succ j =>
      exact DiiBuffer.flit_out_waits two (inv.keeps j (by omega)).wf0 up
        ((ring_out0_ready_inner inside).trans held)
  · intro up held
    cases k with
    | zero =>
      exact DiiBuffer.flit_out_waits two (inv.keeps (n - 1) (by omega)).wf0 up
        ((ring_out0_ready_last (by omega)).trans held)
    | succ j =>
      exact DiiBuffer.flit_out_waits two (inv.keeps j (by omega)).wf1 up
        ((ring_out1_ready_inner inside).trans held)

theorem Invariant.cycle (two : 2 ≤ size) (positive : 0 < n) (inv : Invariant n size id_map s)
    (e : RingInput) : Invariant n size id_map (cycle n size id_map s e) where
  keeps k inside := (inv.keeps k inside).next two _
  linked := inv.linked_cycle positive e
  committed _ inside undriven := inv.committed_cycle two positive e inside undriven

def step (n size : Nat) (id_map : Nat → BitVec 10) (s : State) (e : RingInput) : Option State :=
  some (DebugRing.cycle n size id_map s e)

theorem invariant_of_run (two : 2 ≤ size) (positive : 0 < n) {start : State} (reset : OnReset start)
    (run : Steps (step n size id_map) anyEvent start s) : Invariant n size id_map s := by
  refine run.invariant (invariant_of_reset (by omega) reset) ?_
  intro t u e inv _ fired
  cases fired
  exact inv.cycle two positive e

def moving (n size : Nat) (id_map : Nat → BitVec 10) (s : State) (e : RingInput) (k : Nat) : List Flit :=
  let passing := (s.ring k).passing size (id_map k) (routerInput n size id_map s.ring e k)
  passing.ring_out0 ++ passing.ring_out1 ++ passing.local_in

def wires (n : Nat) (id_map : Nat → BitVec 10) (s : State) (undriven : Flit) : Wires where
  out0 k := (s.ring k).buffer0.flit_out.valid
  out1 k := (s.ring k).buffer1.flit_out.valid
  fwd0 k := ((s.ring k).ring_fwd0 (id_map k) (chain0 s.ring undriven k)).valid
  fwd1 k := ((s.ring k).ring_fwd1 (id_map k) (chain1 n s.ring k)).valid
  local0 k := ((s.ring k).ring_local0 (id_map k) (chain0 s.ring undriven k)).valid
  local1 k := ((s.ring k).ring_local1 (id_map k) (chain1 n s.ring k)).valid

def Still (n size : Nat) (id_map : Nat → BitVec 10) (s : State) (e : RingInput) : Prop :=
  ∀ k, k < n → moving n size id_map s e k = []

theorem Still.ring_in0 (still : Still n size id_map s e) {k : Nat} (inside : k < n) :
    (chain0 s.ring e.undriven k).passed
      ((s.ring k).ring_in0_ready size (id_map k) (routerInput n size id_map s.ring e k)) = [] := by
  cases k with
  | zero => rfl
  | succ j =>
    have rest := still j (by omega)
    simp only [moving, List.append_eq_nil_iff] at rest
    rw [← ring_out0_ready_inner inside]
    exact rest.1.1

theorem Still.ring_in1 (still : Still n size id_map s e) {k : Nat} (inside : k < n) :
    (chain1 n s.ring k).passed
      ((s.ring k).ring_in1_ready size (id_map k) (routerInput n size id_map s.ring e k)) = [] := by
  cases k with
  | zero =>
    have rest := still (n - 1) (by omega)
    simp only [moving, List.append_eq_nil_iff] at rest
    rw [← ring_out0_ready_last (k := n - 1) (by omega)]
    exact rest.1.1
  | succ j =>
    have rest := still j (by omega)
    simp only [moving, List.append_eq_nil_iff] at rest
    rw [← ring_out1_ready_inner inside]
    exact rest.1.2

theorem Still.outputs (still : Still n size id_map s e) {k : Nat} (inside : k < n) :
    let router := s.ring k
    let input := routerInput n size id_map s.ring e k
    (router.ring_fwd0 (id_map k) input.ring_in0).passed (router.ring_fwd0_ready size (id_map k) input) = []
    ∧ (router.ring_fwd1 (id_map k) input.ring_in1).passed (router.ring_fwd1_ready size) = []
    ∧ (router.ring_local0 (id_map k) input.ring_in0).passed (router.ring_local_ready (id_map k) input 0) = []
    ∧ (router.ring_local1 (id_map k) input.ring_in1).passed (router.ring_local_ready (id_map k) input 1) = [] := by
  intro router input
  have none0 := still.ring_in0 inside
  have none1 := still.ring_in1 inside
  refine ⟨?_, ?_, ?_, ?_⟩
  · rw [RingRouter.ring_fwd0, RingRouterDemux.out_ring_passed _ _ (router.ring_local_ready (id_map k) input 0)]
    split
    · exact none0
    · rfl
  · rw [RingRouter.ring_fwd1, RingRouterDemux.out_ring_passed _ _ (router.ring_local_ready (id_map k) input 1)]
    split
    · exact none1
    · rfl
  · rw [RingRouter.ring_local0, RingRouterDemux.out_local_passed _ _ _ (router.ring_fwd0_ready size (id_map k) input)]
    split
    · exact none0
    · rfl
  · rw [RingRouter.ring_local1, RingRouterDemux.out_local_passed _ _ _ (router.ring_fwd1_ready size)]
    split
    · exact none1
    · rfl

theorem in0_eq {undriven : Flit} (k : Nat) :
    (wires n id_map s undriven).in0 k = (chain0 s.ring undriven k).valid := by
  cases k <;> rfl

theorem in1_eq {undriven : Flit} (k : Nat) :
    (wires n id_map s undriven).in1 n k = (chain1 n s.ring k).valid := by
  cases k <;> rfl

/-- A cycle without movement is a standstill. -/
theorem Invariant.standstill (inv : Invariant n size id_map s) (still : Still n size id_map s e)
    (offers : ∀ k, k < n → s.begun k = true → (e.dii_in k).valid = true)
    (ready : ∀ k, k < n → e.dii_out_ready k = true) :
    Standstill n (fun k => RingRouterDemux.is_local (id_map k))
      (fun k => RingRouterMux.owner (s.ring k).mux_ring0)
      (fun k => RingRouterMuxRr.owner (s.ring k).mux_local) s.traffic (wires n id_map s e.undriven) := by
  have empty0 : ∀ k, (wires n id_map s e.undriven).out0 k = false → (s.ring k).buffer0.flits = [] := by
    intro k down
    by_contra held
    rw [← ne_eq, ← DiiBuffer.valid_iff] at held
    exact Bool.false_ne_true (down.symm.trans held)
  have empty1 : ∀ k, (wires n id_map s e.undriven).out1 k = false → (s.ring k).buffer1.flits = [] := by
    intro k down
    by_contra held
    rw [← ne_eq, ← DiiBuffer.valid_iff] at held
    exact Bool.false_ne_true (down.symm.trans held)
  -- a source that holds its multiplexer offers a flit, and an empty buffer would take it
  have sources : ∀ k, k < n → (wires n id_map s e.undriven).out0 k = false →
      RingRouterMux.owner (s.ring k).mux_ring0 ≠ some .loc := by
    intro k inside down held
    have offered := offers k inside ((inv.committed k inside e.undriven).loc held)
    have room : (s.ring k).buffer0.flit_in_ready size = true := DiiBuffer.ready_of_empty (empty0 k down)
    have rest := still k inside
    simp only [moving, List.append_eq_nil_iff] at rest
    have none := passed_eq_nil_iff.mp rest.2 offered
    rw [RingRouter.local_in_ready, RingRouter.ring_muxed_ready, room] at none
    exact RingRouterMux.loc_ready held none
  -- at a ready local port a chain waits only for the worm of the other one
  have locals : ∀ k, k < n →
      ((wires n id_map s e.undriven).local0 k = true →
        RingRouterMuxRr.owner (s.ring k).mux_local = some 1 ∧ (wires n id_map s e.undriven).local1 k = false)
      ∧ ((wires n id_map s e.undriven).local1 k = true →
        RingRouterMuxRr.owner (s.ring k).mux_local = some 0 ∧ (wires n id_map s e.undriven).local0 k = false) := by
    intro k inside
    obtain ⟨-, -, none0, none1⟩ := still.outputs inside
    simp only [RingRouter.ring_local_ready] at none0 none1
    rw [show (routerInput n size id_map s.ring e k).local_out_ready = true from ready k inside] at none0 none1
    exact RingRouterMuxRr.held_of_stalled none0 none1
  exact
    { linked := inv.linked
      switched := fun k inside => (inv.keeps k inside).switched
      drained0 := fun k inside down => by simpa [empty0 k down] using (inv.keeps k inside).buffer0
      drained1 := fun k inside down => by simpa [empty1 k down] using (inv.keeps k inside).buffer1
      turned0 := fun k _ up => RingRouterDemux.turned_valid _ ((in0_eq k).symm.trans up)
      turned1 := fun k _ up => RingRouterDemux.turned_valid _ ((in1_eq k).symm.trans up)
      goesOn0 := fun k inside up part => RingRouterDemux.goes_on (inv.keeps k inside).demux0
        (inv.keeps k inside).switched.fwd0 part ((in0_eq k).symm.trans up)
      goesLocal0 := fun k inside up part => RingRouterDemux.goes_local (inv.keeps k inside).demux0
        (inv.keeps k inside).switched.local0 part ((in0_eq k).symm.trans up)
      committed0 := fun k inside => (inv.committed k inside e.undriven).local0
      committed1 := fun k inside => (inv.committed k inside e.undriven).local1
      sources := sources
      stuck0 := by
        intro k inside down
        by_contra up
        rw [Bool.not_eq_false] at up
        have room : (s.ring k).buffer0.flit_in_ready size = true := DiiBuffer.ready_of_empty (empty0 k down)
        have none := passed_eq_nil_iff.mp (still.outputs inside).1 up
        rw [RingRouter.ring_fwd0_ready, RingRouter.ring_muxed_ready, room] at none
        exact RingRouterMux.ring_ready (sources k inside down) up none
      stuck1 := by
        intro k inside up
        by_contra down
        rw [Bool.not_eq_true] at down
        have room : (s.ring k).buffer1.flit_in_ready size = true := DiiBuffer.ready_of_empty (empty1 k down)
        have none := passed_eq_nil_iff.mp (still.outputs inside).2.1 up
        rw [RingRouter.ring_fwd1_ready, room] at none
        cases none
      stuckLocal0 := fun k inside => (locals k inside).1
      stuckLocal1 := fun k inside => (locals k inside).2
      dumped := by
        intro k final
        by_contra up
        rw [Bool.not_eq_false] at up
        have rest := still k (by omega)
        simp only [moving, List.append_eq_nil_iff] at rest
        have none := passed_eq_nil_iff.mp rest.1.2 up
        rw [ring_out1_ready_last final] at none
        cases none }

/-- A ring that stands still takes the flits that its sources offer next. -/
theorem Invariant.takes (inv : Invariant n size id_map s)
    (still : Standstill n (fun k => RingRouterDemux.is_local (id_map k))
      (fun k => RingRouterMux.owner (s.ring k).mux_ring0)
      (fun k => RingRouterMuxRr.owner (s.ring k).mux_local) s.traffic (wires n id_map s e.undriven))
    (d : RingInput) {k : Nat} (inside : k < n) (offers : (d.dii_in k).valid = true) :
    (s.ring k).local_in_ready size (id_map k) (routerInput n size id_map s.ring d k) = true := by
  have down : ∀ j, j < n → (s.ring j).buffer0.flit_out.valid = false := fun j below => (still.empty below).1
  have quiet (undriven : Flit) : (chain0 s.ring undriven k).valid = false := by
    cases k with
    | zero => rfl
    | succ j => exact down j (by omega)
  have quietFwd (undriven : Flit) : ((s.ring k).ring_fwd0 (id_map k) (chain0 s.ring undriven k)).valid = false := by
    simp [RingRouter.ring_fwd0, RingRouterDemux.out_ring, quiet]
  have free : RingRouterMux.owner (s.ring k).mux_ring0 ≠ some .ring := by
    intro held
    rcases (inv.committed k inside e.undriven).ring held with part | up
    · exact part (still.no_worm_on_ring inside (down k inside) held)
    · rw [quietFwd] at up
      cases up
  have room : (s.ring k).buffer0.flit_in_ready size = true := by
    refine DiiBuffer.ready_of_empty ?_
    by_contra some
    exact Bool.false_ne_true ((down k inside).symm.trans (DiiBuffer.valid_iff.mpr some))
  rw [RingRouter.local_in_ready, RingRouter.ring_muxed_ready, room]
  exact RingRouterMux.loc_ready_of_free free (quietFwd d.undriven) offers

def held (s : State) (k : Nat) : List Flit := (s.ring k).buffer0.flits ++ (s.ring k).buffer1.flits

theorem Invariant.moves (inv : Invariant n size id_map s)
    (offers : ∀ k, k < n → s.begun k = true → (e.dii_in k).valid = true)
    (ready : ∀ k, k < n → e.dii_out_ready k = true) {k : Nat} (inside : k < n) (holds : held s k ≠ []) :
    ∃ j, j < n ∧ moving n size id_map s e j ≠ [] := by
  by_contra none
  have still : Still n size id_map s e := by
    intro j below
    by_contra moves
    exact none ⟨j, below, moves⟩
  obtain ⟨empty0, empty1⟩ := (inv.standstill still offers ready).empty inside
  apply holds
  have none0 : (s.ring k).buffer0.flits = [] := by
    by_contra some
    exact Bool.false_ne_true (empty0.symm.trans (DiiBuffer.valid_iff.mpr some))
  have none1 : (s.ring k).buffer1.flits = [] := by
    by_contra some
    exact Bool.false_ne_true (empty1.symm.trans (DiiBuffer.valid_iff.mpr some))
  simp [held, none0, none1]

/-- In every state of every run a flit moves, if some flit is inside the network, the sources
offer what they have begun and the local outputs are ready. -/
theorem debug_ring_never_deadlocks {start : State} (two : 2 ≤ size) (reset : OnReset start)
    (run : Steps (step n size id_map) anyEvent start s) (e : RingInput)
    (offers : ∀ k, k < n → s.begun k = true → (e.dii_in k).valid = true)
    (ready : ∀ k, k < n → e.dii_out_ready k = true) (holds : ∃ k, k < n ∧ held s k ≠ []) :
    ∃ j, j < n ∧ moving n size id_map s e j ≠ [] := by
  obtain ⟨k, inside, holds⟩ := holds
  have inv : Invariant n size id_map s := invariant_of_run two (by omega) reset run
  exact inv.moves offers ready inside holds

/-- Two routers, reset, and then one packet of a single flit at the first of them. -/
def blankRouter : RingRouter :=
  { demux0 := ⟨false, false⟩, demux1 := ⟨false, false⟩, mux_ring0 := .noworm, mux_local := .noworm0
    buffer0 := ⟨fun _ => ⟨false, 0⟩, 0, false⟩, buffer1 := ⟨fun _ => ⟨false, 0⟩, 0, false⟩ }

def blank : State := { ring := fun _ => blankRouter, traffic := fun _ => {}, begun := fun _ => false }

theorem blank_onReset : OnReset blank :=
  ⟨fun _ => rfl, fun _ => rfl, fun _ => rfl, fun _ => rfl, fun _ => ⟨rfl, rfl⟩, fun _ => ⟨rfl, rfl⟩, rfl, rfl⟩

def everyone (d : DiiFlit) : RingInput := { dii_in := fun _ => d, dii_out_ready := fun _ => true, undriven := ⟨false, 0⟩ }

theorem debug_ring_never_deadlocks_of_injection :
    held (cycle 2 2 (fun k => BitVec.ofNat 10 k) blank (everyone ⟨true, true, 1⟩)) 0 ≠ []
    ∧ ∃ j, j < 2 ∧ moving 2 2 (fun k => BitVec.ofNat 10 k)
      (cycle 2 2 (fun k => BitVec.ofNat 10 k) blank (everyone ⟨true, true, 1⟩)) (everyone ⟨true, true, 0⟩) j ≠ [] :=
  ⟨by decide, debug_ring_never_deadlocks (by decide) blank_onReset (.next (.refl _) trivial rfl) _
    (fun _ _ _ => rfl) (fun _ _ => rfl) ⟨0, by decide, by decide⟩⟩

end DebugRing

end LowRisc.Debug.Interconnect
