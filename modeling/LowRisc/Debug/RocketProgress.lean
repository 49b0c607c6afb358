import LowRisc.Debug.RingProgress
import LowRisc.Debug.RocketSwitching

/-! The invariant of `RingNetwork` over whole runs, and its progress while the sources go on with what
they have begun.

The library arbiters hold an input that was shown. A source that has begun a packet may
therefore not withdraw it.
-/

set_option autoImplicit false

namespace LowRisc.Debug.Interconnect

open Lib Lib.Worm Chisel

theorem LocalIdRoute.next_stalled (id : BitVec 10) (s : DemuxState) (d : DiiFlit) :
    next id s d false = s := by
  simp [next]

theorem LocalIdRoute.out_ring_waits {id : BitVec 10} {s : DemuxState} {d d' : DiiFlit}
    {localReady ringReady : Bool} (waits : (RingRouterDemux.out_ring id s d).valid = true)
    (stays : (RingRouterDemux.out_ring id s d).passed ringReady = [])
    (same : d.valid = true → RingRouterDemux.in_ring_ready id s d localReady ringReady = false → d' = d) :
    (RingRouterDemux.out_ring id
      (next id s d (RingRouterDemux.in_ring_ready id s d localReady ringReady)) d').valid = true := by
  have turned : RingRouterDemux.switch_local id s d = false ∧ d.valid = true := by
    simpa [RingRouterDemux.out_ring] using waits
  have held : RingRouterDemux.in_ring_ready id s d localReady ringReady = false := by
    simpa [DiiFlit.passed, RingRouterDemux.out_ring, turned, RingRouterDemux.in_ring_ready] using stays
  rw [same turned.2 held, held, next_stalled]
  exact waits

theorem LocalIdRoute.out_local_waits {id : BitVec 10} {s : DemuxState} {d d' : DiiFlit}
    {localReady ringReady : Bool} (waits : (RingRouterDemux.out_local id s d).valid = true)
    (stays : (RingRouterDemux.out_local id s d).passed localReady = [])
    (same : d.valid = true → RingRouterDemux.in_ring_ready id s d localReady ringReady = false → d' = d) :
    (RingRouterDemux.out_local id
      (next id s d (RingRouterDemux.in_ring_ready id s d localReady ringReady)) d').valid = true := by
  have turned : RingRouterDemux.switch_local id s d = true ∧ d.valid = true := by
    simpa [RingRouterDemux.out_local] using waits
  have held : RingRouterDemux.in_ring_ready id s d localReady ringReady = false := by
    simpa [DiiFlit.passed, RingRouterDemux.out_local, turned, RingRouterDemux.in_ring_ready] using stays
  rw [same turned.2 held, held, next_stalled]
  exact waits

namespace RocketRouter

structure Committed (id : BitVec 10) (r : RocketRouter) (t : Traffic) (begun : Bool)
    (ring_in0 ring_in1 : DiiFlit) : Prop where
  loc : r.ring0_mux.chosen 1 = true
    ∨ r.ring0_mux.arbiter.locked = true ∧ r.ring0_mux.arbiter.lockIdx = 1 → begun = true
  ring : r.ring0_mux.owner Source.ring .loc = some .ring → openPacket t.ring_fwd0 ≠ []
  ringWaits : r.ring0_mux.arbiter.locked = true → r.ring0_mux.transmitting 2 = false →
    r.ring0_mux.arbiter.lockIdx = 0 → (r.ring_fwd0 id ring_in0).valid = true
  local0 : r.local_mux.owner (0 : Fin 2) 1 = some 0 → openPacket t.ring_local0 ≠ []
  local1 : r.local_mux.owner (0 : Fin 2) 1 = some 1 → openPacket t.ring_local1 ≠ []
  waits : r.local_mux.arbiter.locked = true → r.local_mux.transmitting 2 = false →
    (r.local_ip id ring_in0 ring_in1 r.local_mux.arbiter.lockIdx).valid = true

variable {buf_len : Nat} {id : BitVec 10} {r : RocketRouter} {t : Traffic} {begun : Bool}

theorem Committed.loc_next {e : RouterInput}
    (committed : r.Committed id t begun e.ring_in0 e.ring_in1)
    (held : (r.next buf_len id e).ring0_mux.chosen 1 = true
      ∨ (r.next buf_len id e).ring0_mux.arbiter.locked = true
        ∧ (r.next buf_len id e).ring0_mux.arbiter.lockIdx = 1) :
    beginsOn e.local_in (r.local_in_ready id e) begun = true := by
  rcases WormholeArbiter.held_next (by decide) held with ⟨f, passed, goesOn⟩ | ⟨stays, before⟩
  · exact beginsOn_of_passed passed goesOn
  · exact beginsOn_of_waits stays (before.imp_left committed.loc)

theorem Committed.ring_next {e : RouterInput} (keeps : r.Keeps buf_len id t)
    (committed : r.Committed id t begun e.ring_in0 e.ring_in1)
    (held : (r.next buf_len id e).ring0_mux.owner Source.ring .loc = some .ring) :
    openPacket (t.append (r.passing id e)).ring_fwd0 ≠ [] := by
  have ready : r.ring_fwd0_ready id e = _ := WormholeArbiter.in_ready_label (by decide) keeps.wf0 _ (by decide)
  rcases WormholeArbiter.opens keeps.wf0 held with ⟨f, passed, goesOn⟩ | ⟨stays, before⟩
  · have one : (r.passing id e).ring_fwd0 = [f] := by
      simp only [passing, ready]
      exact passed
    simp only [Traffic.append, one]
    exact openPacket_of_passed goesOn
  · have none : (r.passing id e).ring_fwd0 = [] := by
      simp only [passing, ready]
      exact stays
    simp only [Traffic.append, none, List.append_nil]
    exact committed.ring before

theorem Committed.ringWaits_next {e : RouterInput} {in0 : DiiFlit} (keeps : r.Keeps buf_len id t)
    (committed : r.Committed id t begun e.ring_in0 e.ring_in1)
    (same0 : e.ring_in0.valid = true → r.ring_in0_ready id e = false → in0 = e.ring_in0)
    (locked : (r.next buf_len id e).ring0_mux.arbiter.locked = true)
    (free : (r.next buf_len id e).ring0_mux.transmitting 2 = false)
    (place : (r.next buf_len id e).ring0_mux.arbiter.lockIdx = 0) :
    ((r.next buf_len id e).ring_fwd0 id in0).valid = true := by
  obtain ⟨up, stays⟩ := WormholeArbiter.waits_next keeps.wf0 committed.ringWaits locked free place
  exact LocalIdRoute.out_ring_waits up stays same0

theorem Committed.waits_next {e : RouterInput} {in0 in1 : DiiFlit} (keeps : r.Keeps buf_len id t)
    (committed : r.Committed id t begun e.ring_in0 e.ring_in1)
    (same0 : e.ring_in0.valid = true → r.ring_in0_ready id e = false → in0 = e.ring_in0)
    (same1 : e.ring_in1.valid = true → r.ring_in1_ready id e = false → in1 = e.ring_in1)
    (locked : (r.next buf_len id e).local_mux.arbiter.locked = true)
    (free : (r.next buf_len id e).local_mux.transmitting 2 = false) :
    ((r.next buf_len id e).local_ip id in0 in1
      (r.next buf_len id e).local_mux.arbiter.lockIdx).valid = true := by
  have inside : (r.next buf_len id e).local_mux.arbiter.lockIdx < 2 := (keeps.wfLocal.next _).index
  generalize place : (r.next buf_len id e).local_mux.arbiter.lockIdx = k at inside
  obtain ⟨up, stays⟩ := WormholeArbiter.waits_next keeps.wfLocal
    (fun held free same => same ▸ committed.waits held free) locked free place
  have two : k = 0 ∨ k = 1 := by omega
  rcases two with rfl | rfl
  · exact LocalIdRoute.out_local_waits up stays same0
  · exact LocalIdRoute.out_local_waits up stays same1

theorem Committed.next {e : RouterInput} {in0 in1 : DiiFlit} (keeps : r.Keeps buf_len id t)
    (committed : r.Committed id t begun e.ring_in0 e.ring_in1)
    (same0 : e.ring_in0.valid = true → r.ring_in0_ready id e = false → in0 = e.ring_in0)
    (same1 : e.ring_in1.valid = true → r.ring_in1_ready id e = false → in1 = e.ring_in1) :
    (r.next buf_len id e).Committed id (t.append (r.passing id e))
      (beginsOn e.local_in (r.local_in_ready id e) begun) in0 in1 where
  loc := committed.loc_next
  ring := committed.ring_next keeps
  ringWaits := committed.ringWaits_next keeps same0
  local0 held := by
    have ready : r.ring_local_ready id e.ring_in0 e.ring_in1 0 = _ :=
      WormholeArbiter.in_ready_label (by decide) keeps.wfLocal _ (by decide)
    rcases WormholeArbiter.opens keeps.wfLocal held with ⟨f, passed, goesOn⟩ | ⟨stays, before⟩
    -- the packet is open since this cycle, or the arbiter has held its input before
    · have one : (r.passing id e).ring_local0 = [f] := by
        simp only [passing, ready]
        exact passed
      simp only [Traffic.append, one]
      exact openPacket_of_passed goesOn
    · have none : (r.passing id e).ring_local0 = [] := by
        simp only [passing, ready]
        exact stays
      simp only [Traffic.append, none, List.append_nil]
      exact committed.local0 before
  local1 held := by
    have ready : r.ring_local_ready id e.ring_in0 e.ring_in1 1 = _ :=
      WormholeArbiter.in_ready_label (by decide) keeps.wfLocal _ (by decide)
    rcases WormholeArbiter.opens keeps.wfLocal held with ⟨f, passed, goesOn⟩ | ⟨stays, before⟩
    · have one : (r.passing id e).ring_local1 = [f] := by
        simp only [passing, ready]
        exact passed
      simp only [Traffic.append, one]
      exact openPacket_of_passed goesOn
    · have none : (r.passing id e).ring_local1 = [] := by
        simp only [passing, ready]
        exact stays
      simp only [Traffic.append, none, List.append_nil]
      exact committed.local1 before
  waits := committed.waits_next keeps same0 same1

end RocketRouter

theorem deq_waits {entries : Nat} {q : Queue Flit} {list : List Flit} {d : DiiFlit} {ready : Bool}
    (positive : 0 < entries) (holds : q.Contains entries list) (up : (deq q).valid = true)
    (held : ready = false) : deq (q.next entries d.valid d.flit ready) = deq q := by
  obtain ⟨list', holds', conserved⟩ := queue_conserved positive holds d ready
  have none : (deq q).passed ready = [] := by simp [DiiFlit.passed, held]
  cases list with
  | nil => exact absurd rfl ((deq_valid_iff positive holds).mp up)
  | cons f rest =>
    rw [none, List.nil_append, List.cons_append] at conserved
    subst conserved
    rw [deq_of_cons positive holds, deq_of_cons positive holds']

namespace RingNetwork

variable {n buf_len : Nat} {id_assign : Nat → BitVec 10} {s : State} {e : RingInput}

/-! The ready wire of an output is the one of the input it is connected to. -/

theorem net1_ready_eq {k : Nat} (inside : k < n) :
    net1_ready n id_assign s.ring e.undriven (n - k) =
      (s.ring k).ring_in1_ready (id_assign k) (routerInput n id_assign s.ring e k) := by
  have rest : n - k = (n - (k + 1)) + 1 := by omega
  have place : n - ((n - (k + 1)) + 1) = k := by omega
  rw [rest, net1_ready]
  simp only [place]
  rfl

theorem ring_out0_ready_inner {k : Nat} (inside : k + 1 < n) :
    (routerInput n id_assign s.ring e k).ring_out0_ready =
      (s.ring (k + 1)).ring_in0_ready (id_assign (k + 1)) (routerInput n id_assign s.ring e (k + 1)) := by
  simp only [routerInput, if_neg (show ¬k + 1 = n by omega)]
  rfl

theorem ring_out0_ready_last {k : Nat} (final : k + 1 = n) :
    (routerInput n id_assign s.ring e k).ring_out0_ready =
      (s.ring 0).ring_in1_ready (id_assign 0) (routerInput n id_assign s.ring e 0) := by
  simp only [routerInput, if_pos final]
  exact net1_ready_eq (k := 0) (by omega)

theorem ring_out1_ready_inner {k : Nat} (inside : k + 1 < n) :
    (routerInput n id_assign s.ring e k).ring_out1_ready =
      (s.ring (k + 1)).ring_in1_ready (id_assign (k + 1)) (routerInput n id_assign s.ring e (k + 1)) :=
  net1_ready_eq inside

theorem ring_out1_ready_last {k : Nat} (final : k + 1 = n) :
    (routerInput n id_assign s.ring e k).ring_out1_ready = true := by
  simp only [routerInput, upstream, show n - (k + 1) = 0 by omega, net1_ready]

structure Invariant (n buf_len : Nat) (id_assign : Nat → BitVec 10) (s : State) : Prop where
  keeps : ∀ k, k < n → (s.ring k).Keeps buf_len (id_assign k) (s.traffic k)
  linked : Linked n s.traffic
  committed : ∀ k, k < n → ∀ undriven, (s.ring k).Committed (id_assign k) (s.traffic k) (s.begun k)
    (net0_in s.ring undriven k) (net1_in n id_assign s.ring k)

theorem contains_of_reset {q : Queue Flit} (positive : 0 < buf_len)
    (reset : q.enq_ptr = 0 ∧ q.deq_ptr = 0 ∧ q.maybe_full = false) : q.Contains buf_len [] := by
  obtain ⟨enq, deq, full⟩ := reset
  refine ⟨by simp, by omega, by simp [enq, deq, Queue.place, positive], ?_, by simp⟩
  intro _
  simp [full]
  omega

theorem invariant_of_reset (positive : 0 < buf_len) (reset : OnReset s) :
    Invariant n buf_len id_assign s where
  keeps k _ := by
    have router := reset.routers k
    rw [reset.traffic]
    exact
      { switched := by
          rw [router.ring0_mux, router.local_mux]
          exact Traffic.switched_empty _
        demux0 := ⟨by simp [router.worm0], by simp [router.worm0]⟩
        demux1 := ⟨by simp [router.worm1], by simp [router.worm1]⟩
        wf0 := by
          rw [router.ring0_mux]
          exact ⟨by simp, by simp, by simp⟩
        wfLocal := by
          rw [router.local_mux]
          exact ⟨by simp, by simp, by simp⟩
        ring0_buffer := ⟨[], contains_of_reset positive router.ring0_buffer, rfl⟩
        local_buffer := ⟨[], contains_of_reset positive router.local_buffer, rfl⟩
        out1 := rfl }
  linked := by
    rw [reset.traffic]
    exact ⟨rfl, fun _ _ => rfl, rfl, fun _ _ => rfl⟩
  committed k _ undriven := by
    have router := reset.routers k
    constructor
    · simp [router.ring0_mux]
    · simp [router.ring0_mux, WormholeArbiter.owner]
    · simp [router.ring0_mux]
    · simp [router.local_mux, WormholeArbiter.owner]
    · simp [router.local_mux, WormholeArbiter.owner]
    · simp [router.local_mux]

theorem Invariant.linked_cycle (positive : 0 < n) (inv : Invariant n buf_len id_assign s) (e : RingInput) :
    Linked n (cycle n buf_len id_assign s e).traffic where
  first := by
    simp only [cycle, Traffic.append, RocketRouter.passing]
    rw [inv.linked.first]
    rfl
  chain0 k inside := by
    simp only [cycle, Traffic.append, RocketRouter.passing]
    rw [inv.linked.chain0 k inside, ring_out0_ready_inner inside]
    rfl
  wrap := by
    simp only [cycle, Traffic.append, RocketRouter.passing]
    rw [inv.linked.wrap, ring_out0_ready_last (by omega)]
    rfl
  chain1 k inside := by
    simp only [cycle, Traffic.append, RocketRouter.passing]
    rw [inv.linked.chain1 k inside, ring_out1_ready_inner inside]
    rfl

theorem Invariant.net1_waits (two : 0 < buf_len) (inv : Invariant n buf_len id_assign s) {k : Nat}
    (inside : k < n) (up : (net1_in n id_assign s.ring k).valid = true)
    (held : (s.ring k).ring_in1_ready (id_assign k) (routerInput n id_assign s.ring e k) = false) :
    net1_in n id_assign (cycle n buf_len id_assign s e).ring k = net1_in n id_assign s.ring k := by
  induction k with
  | zero =>
    obtain ⟨list, holds, -⟩ := (inv.keeps (n - 1) (by omega)).ring0_buffer
    exact deq_waits two holds up ((ring_out0_ready_last (by omega)).trans held)
  | succ j ih =>
    have turned : RingRouterDemux.switch_local (id_assign j) (s.ring j).ring1_demux (net1_in n id_assign s.ring j)
        = false ∧ (net1_in n id_assign s.ring j).valid = true := by
      simpa [net1_in, RocketRouter.ring_fwd1, RingRouterDemux.out_ring] using up
    have held' : (s.ring j).ring_in1_ready (id_assign j) (routerInput n id_assign s.ring e j) = false := by
      rw [← ring_out1_ready_inner inside] at held
      rw [RocketRouter.ring_in1_ready, RingRouterDemux.in_ring_ready]
      exact (if_neg (by rw [Bool.not_eq_true]; exact turned.1)).trans held
    have same := ih (by omega) turned.2 held'
    rw [net1_in, net1_in, same]
    simp only [cycle, RocketRouter.ring_fwd1, RocketRouter.next, held', LocalIdRoute.next_stalled]

theorem Invariant.committed_cycle (positive : 0 < buf_len) (inv : Invariant n buf_len id_assign s)
    (e : RingInput) {k : Nat} (inside : k < n) (undriven : Flit) :
    ((cycle n buf_len id_assign s e).ring k).Committed (id_assign k)
      ((cycle n buf_len id_assign s e).traffic k) ((cycle n buf_len id_assign s e).begun k)
      (net0_in (cycle n buf_len id_assign s e).ring undriven k)
      (net1_in n id_assign (cycle n buf_len id_assign s e).ring k) := by
  have before := inv.committed k inside e.undriven
  refine before.next (e := routerInput n id_assign s.ring e k) (inv.keeps k inside) ?_ ?_
  · intro up held
    cases k with
    | zero => cases up
    | succ j =>
      obtain ⟨list, holds, -⟩ := (inv.keeps j (by omega)).ring0_buffer
      exact deq_waits positive holds up ((ring_out0_ready_inner inside).trans held)
  · intro up held
    exact inv.net1_waits positive inside up held

theorem Invariant.cycle (positive : 0 < buf_len) (some : 0 < n) (inv : Invariant n buf_len id_assign s)
    (e : RingInput) : Invariant n buf_len id_assign (cycle n buf_len id_assign s e) where
  keeps k inside := (inv.keeps k inside).next positive _
  linked := inv.linked_cycle some e
  committed _ inside undriven := inv.committed_cycle positive e inside undriven

def moving (n : Nat) (id_assign : Nat → BitVec 10) (s : State) (e : RingInput) (k : Nat) : List Flit :=
  let passing := (s.ring k).passing (id_assign k) (routerInput n id_assign s.ring e k)
  passing.ring_out0 ++ passing.ring_out1 ++ passing.local_out ++ passing.local_in

def wires (n : Nat) (id_assign : Nat → BitVec 10) (s : State) (undriven : Flit) : Wires where
  out0 k := (deq (s.ring k).ring0_buffer).valid
  out1 k := ((s.ring k).ring_fwd1 (id_assign k) (net1_in n id_assign s.ring k)).valid
  fwd0 k := ((s.ring k).ring_fwd0 (id_assign k) (net0_in s.ring undriven k)).valid
  fwd1 k := ((s.ring k).ring_fwd1 (id_assign k) (net1_in n id_assign s.ring k)).valid
  local0 k := ((s.ring k).ring_local0 (id_assign k) (net0_in s.ring undriven k)).valid
  local1 k := ((s.ring k).ring_local1 (id_assign k) (net1_in n id_assign s.ring k)).valid

theorem in0_eq {undriven : Flit} (k : Nat) :
    (wires n id_assign s undriven).in0 k = (net0_in s.ring undriven k).valid := by
  cases k <;> rfl

theorem in1_eq {undriven : Flit} (k : Nat) :
    (wires n id_assign s undriven).in1 n k = (net1_in n id_assign s.ring k).valid := by
  cases k <;> rfl

def Still (n : Nat) (id_assign : Nat → BitVec 10) (s : State) (e : RingInput) : Prop :=
  ∀ k, k < n → moving n id_assign s e k = []

theorem Still.ring_in0 (still : Still n id_assign s e) {k : Nat} (inside : k < n) :
    (net0_in s.ring e.undriven k).passed
      ((s.ring k).ring_in0_ready (id_assign k) (routerInput n id_assign s.ring e k)) = [] := by
  cases k with
  | zero => rfl
  | succ j =>
    have rest := still j (by omega)
    simp only [moving, List.append_eq_nil_iff] at rest
    rw [← ring_out0_ready_inner inside]
    exact rest.1.1.1

theorem Still.ring_in1 (still : Still n id_assign s e) {k : Nat} (inside : k < n) :
    (net1_in n id_assign s.ring k).passed
      ((s.ring k).ring_in1_ready (id_assign k) (routerInput n id_assign s.ring e k)) = [] := by
  cases k with
  | zero =>
    have rest := still (n - 1) (by omega)
    simp only [moving, List.append_eq_nil_iff] at rest
    rw [← ring_out0_ready_last (k := n - 1) (by omega)]
    exact rest.1.1.1
  | succ j =>
    have rest := still j (by omega)
    simp only [moving, List.append_eq_nil_iff] at rest
    rw [← ring_out1_ready_inner inside]
    exact rest.1.1.2

theorem Still.outputs (still : Still n id_assign s e) {k : Nat} (inside : k < n) :
    let router := s.ring k
    let input := routerInput n id_assign s.ring e k
    (router.ring_fwd0 (id_assign k) input.ring_in0).passed (router.ring_fwd0_ready (id_assign k) input) = []
    ∧ (router.ring_local0 (id_assign k) input.ring_in0).passed
      (router.ring_local_ready (id_assign k) input.ring_in0 input.ring_in1 0) = []
    ∧ (router.ring_local1 (id_assign k) input.ring_in1).passed
      (router.ring_local_ready (id_assign k) input.ring_in0 input.ring_in1 1) = [] := by
  intro router input
  have none0 := still.ring_in0 inside
  have none1 := still.ring_in1 inside
  refine ⟨?_, ?_, ?_⟩
  · rw [RocketRouter.ring_fwd0, RingRouterDemux.out_ring_passed _ _
      (router.ring_local_ready (id_assign k) input.ring_in0 input.ring_in1 0)]
    split
    · exact none0
    · rfl
  · rw [RocketRouter.ring_local0, RingRouterDemux.out_local_passed _ _ _
      (router.ring_fwd0_ready (id_assign k) input)]
    split
    · exact none0
    · rfl
  · rw [RocketRouter.ring_local1, RingRouterDemux.out_local_passed _ _ _ input.ring_out1_ready]
    split
    · exact none1
    · rfl

theorem Still.local_empty (still : Still n id_assign s e) (inv : Invariant n buf_len id_assign s)
    (positive : 0 < buf_len) {k : Nat} (inside : k < n) (ready : e.dii_out_ready k = true) :
    (s.ring k).local_buffer.Contains buf_len [] := by
  obtain ⟨list, holds, -⟩ := (inv.keeps k inside).local_buffer
  cases list with
  | nil => exact holds
  | cons f rest =>
    have out := still k inside
    simp only [moving, List.append_eq_nil_iff] at out
    have none := passed_eq_nil_iff.mp out.1.2 ((deq_valid_iff positive holds).mpr (by simp))
    exact absurd (ready.symm.trans none) (by decide)

theorem enq_ready_of_empty {q : Queue Flit} (positive : 0 < buf_len) (holds : q.Contains buf_len []) :
    q.enq_ready = true := by
  simp [Queue.enq_ready, holds.full_eq]
  omega

end RingNetwork

theorem WormholeArbiter.held_of_stalled {ι : Type} {a b : ι} (kind : ArbiterKind)
    {w : WormholeArbiter} {port : ι → DiiFlit} (wf : w.WellFormed)
    (waits : w.arbiter.locked = true → w.transmitting 2 = false →
      (port (label a b w.arbiter.lockIdx)).valid = true)
    (still : ∀ k, k < 2 → (port (label a b k)).passed
      (w.in_ready kind 2 (fun k => port (label a b k)) true k) = [])
    {k : Nat} (inside : k < 2) (up : (port (label a b k)).valid = true) :
    ∃ j, j < 2 ∧ j ≠ k ∧ w.owner a b = some (label a b j) ∧ (port (label a b j)).valid = false := by
  obtain ⟨j, below, shows, valid⟩ : ∃ j, j < 2 ∧ w.shown kind (fun k => port (label a b k)) = j
      ∧ w.arbiterValid 2 (fun k => port (label a b k)) j = true := turned_isSome wf inside up waits
  have down : (port (label a b j)).valid = false := by
    rw [Bool.eq_false_iff]
    intro up'
    have ready := passed_eq_nil_iff.mp (still j below) up'
    rw [in_ready_two true below, shows, valid] at ready
    simp at ready
  have busy : w.chosen j = true := by
    simp only [arbiterValid, down, Bool.and_false, Bool.or_false] at valid
    exact valid
  refine ⟨j, below, ?_, ?_, down⟩
  · rintro rfl
    rw [up] at down
    cases down
  · have single := wf.single
    have two : j = 0 ∨ j = 1 := by omega
    rcases two with rfl | rfl
    · simp [owner, busy, label]
    · have free : w.chosen 0 = false := by simpa [busy] using single
      simp [owner, busy, free, label]

namespace RingNetwork

variable {n buf_len : Nat} {id_assign : Nat → BitVec 10} {s : State} {e : RingInput}

theorem Still.local_stuck (still : Still n id_assign s e) (inv : Invariant n buf_len id_assign s)
    (positive : 0 < buf_len) {k : Nat} (inside : k < n) (ready : e.dii_out_ready k = true) {i : Nat}
    (below : i < 2)
    (up : ((s.ring k).local_ip (id_assign k) (net0_in s.ring e.undriven k) (net1_in n id_assign s.ring k) i).valid
      = true) :
    ∃ j, j < 2 ∧ j ≠ i ∧ (s.ring k).local_mux.owner (0 : Fin 2) 1 = some (WormholeArbiter.label 0 1 j)
      ∧ ((s.ring k).local_ip (id_assign k) (net0_in s.ring e.undriven k) (net1_in n id_assign s.ring k) j).valid
        = false := by
  have room : (s.ring k).local_muxed_ready = true :=
    enq_ready_of_empty positive (still.local_empty inv positive inside ready)
  obtain ⟨-, none0, none1⟩ := still.outputs inside
  simp only [RocketRouter.ring_local_ready, room] at none0 none1
  refine WormholeArbiter.held_of_stalled .roundRobin (inv.keeps k inside).wfLocal
    (inv.committed k inside e.undriven).waits ?_ below up
  intro j inside'
  have two : j = 0 ∨ j = 1 := by omega
  rcases two with rfl | rfl
  · exact none0
  · exact none1

/-- The multiplexer into chain 0 holds an input only for a flit that waits there, if the local source
goes on with what it has begun. -/
theorem Invariant.ring0_waits (inv : Invariant n buf_len id_assign s) {k : Nat} (inside : k < n)
    (offers : s.begun k = true → (e.dii_in k).valid = true) :
    (s.ring k).ring0_mux.arbiter.locked = true → (s.ring k).ring0_mux.transmitting 2 = false →
      ((s.ring k).ring0_ip (id_assign k) (routerInput n id_assign s.ring e k)
        (s.ring k).ring0_mux.arbiter.lockIdx).valid = true := by
  intro locked free
  have committed := inv.committed k inside e.undriven
  have index := (inv.keeps k inside).wf0.index
  have place : (s.ring k).ring0_mux.arbiter.lockIdx = 0 ∨ (s.ring k).ring0_mux.arbiter.lockIdx = 1 := by omega
  rcases place with own | own
  · rw [own]
    exact committed.ringWaits locked free own
  · rw [own]
    exact offers (committed.loc (.inr ⟨locked, own⟩))

theorem Invariant.ring0_stuck (inv : Invariant n buf_len id_assign s) (positive : 0 < buf_len) {k : Nat}
    (inside : k < n) (offers : s.begun k = true → (e.dii_in k).valid = true)
    (empty : (s.ring k).ring0_buffer.Contains buf_len [])
    (noRing : ((s.ring k).ring_fwd0 (id_assign k) (net0_in s.ring e.undriven k)).passed
      ((s.ring k).ring_fwd0_ready (id_assign k) (routerInput n id_assign s.ring e k)) = [])
    (noLocal : (e.dii_in k).passed
      ((s.ring k).local_in_ready (id_assign k) (routerInput n id_assign s.ring e k)) = []) {i : Nat} (below : i < 2)
    (up : ((s.ring k).ring0_ip (id_assign k) (routerInput n id_assign s.ring e k) i).valid = true) :
    ∃ j, j < 2 ∧ j ≠ i ∧ (s.ring k).ring0_mux.owner Source.ring .loc = some (WormholeArbiter.label .ring .loc j) ∧
      ((s.ring k).ring0_ip (id_assign k) (routerInput n id_assign s.ring e k) j).valid = false := by
  have room : (s.ring k).ring_muxed_ready = true := enq_ready_of_empty positive empty
  simp only [RocketRouter.ring_fwd0_ready, RocketRouter.local_in_ready, room] at noRing noLocal
  refine WormholeArbiter.held_of_stalled .fixed (inv.keeps k inside).wf0 (inv.ring0_waits inside offers) ?_ below up
  intro j inside'
  have two : j = 0 ∨ j = 1 := by omega
  rcases two with rfl | rfl
  · exact noRing
  · exact noLocal

theorem Still.local_in (still : Still n id_assign s e) {k : Nat} (inside : k < n) :
    (e.dii_in k).passed ((s.ring k).local_in_ready (id_assign k) (routerInput n id_assign s.ring e k)) = [] := by
  have rest := still k inside
  simp only [moving, List.append_eq_nil_iff] at rest
  exact rest.2

theorem Still.source_free (still : Still n id_assign s e) (inv : Invariant n buf_len id_assign s)
    (positive : 0 < buf_len) {k : Nat} (inside : k < n) (offers : s.begun k = true → (e.dii_in k).valid = true)
    (empty : (s.ring k).ring0_buffer.Contains buf_len []) :
    (s.ring k).ring0_mux.owner Source.ring .loc ≠ some .loc := by
  intro held
  have busy : (s.ring k).ring0_mux.chosen 1 = true := by
    unfold WormholeArbiter.owner at held
    split at held
    · cases held
    · split at held
      · assumption
      · cases held
  have up := offers ((inv.committed k inside ⟨false, 0⟩).loc (.inl busy))
  obtain ⟨j, below, other, owned, -⟩ := inv.ring0_stuck positive inside offers empty (still.outputs inside).1
    (still.local_in inside) (i := 1) (by decide) up
  obtain rfl : j = 0 := by omega
  rw [held] at owned
  cases owned

theorem Still.ring_stuck (still : Still n id_assign s e) (inv : Invariant n buf_len id_assign s)
    (positive : 0 < buf_len) {k : Nat} (inside : k < n) (offers : s.begun k = true → (e.dii_in k).valid = true)
    (empty : (s.ring k).ring0_buffer.Contains buf_len []) :
    ((s.ring k).ring_fwd0 (id_assign k) (net0_in s.ring e.undriven k)).valid = false := by
  by_contra up
  rw [Bool.not_eq_false] at up
  obtain ⟨j, below, other, owned, -⟩ := inv.ring0_stuck positive inside offers empty (still.outputs inside).1
    (still.local_in inside) (i := 0) (by decide) up
  obtain rfl : j = 1 := by omega
  exact still.source_free inv positive inside offers empty owned

/-- A cycle without movement is a standstill. -/
theorem Invariant.standstill (positive : 0 < buf_len) (inv : Invariant n buf_len id_assign s)
    (still : Still n id_assign s e) (offers : ∀ k, k < n → s.begun k = true → (e.dii_in k).valid = true)
    (ready : ∀ k, k < n → e.dii_out_ready k = true) :
    Standstill n (fun k => RingRouterDemux.is_local (id_assign k))
      (fun k => (s.ring k).ring0_mux.owner .ring .loc) (fun k => (s.ring k).local_mux.owner 0 1)
      s.traffic (wires n id_assign s e.undriven) := by
  -- a buffer that offers nothing is empty
  have empty0 : ∀ k, k < n → (wires n id_assign s e.undriven).out0 k = false →
      (s.ring k).ring0_buffer.Contains buf_len [] ∧ (s.traffic k).ring_out0 = (s.traffic k).ring_muxed := by
    intro k inside down
    obtain ⟨list, holds, split⟩ := (inv.keeps k inside).ring0_buffer
    cases list with
    | nil => exact ⟨holds, by simpa using split⟩
    | cons f rest =>
      exact absurd (down.symm.trans ((deq_valid_iff positive holds).mpr (by simp))) (by decide)
  exact
    { linked := inv.linked
      switched := fun k inside => (inv.keeps k inside).switched
      drained0 := fun k inside down => (empty0 k inside down).2
      drained1 := fun k inside _ => (inv.keeps k inside).out1
      turned0 := fun k _ up => RingRouterDemux.turned_valid _ ((in0_eq k).symm.trans up)
      turned1 := fun k _ up => RingRouterDemux.turned_valid _ ((in1_eq k).symm.trans up)
      goesOn0 := fun k inside up part => RingRouterDemux.goes_on (inv.keeps k inside).demux0
        (inv.keeps k inside).switched.fwd0 part ((in0_eq k).symm.trans up)
      goesLocal0 := fun k inside up part => RingRouterDemux.goes_local (inv.keeps k inside).demux0
        (inv.keeps k inside).switched.local0 part ((in0_eq k).symm.trans up)
      committed0 := fun k inside held => .inl ((inv.committed k inside e.undriven).local0 held)
      committed1 := fun k inside held => .inl ((inv.committed k inside e.undriven).local1 held)
      sources := fun k inside down =>
        still.source_free inv positive inside (offers k inside) (empty0 k inside down).1
      stuck0 := fun k inside down =>
        still.ring_stuck inv positive inside (offers k inside) (empty0 k inside down).1
      stuck1 := fun _ _ up => up
      stuckLocal0 := by
        intro k inside up
        -- with the local port ready only a worm of the other ring can be in the way
        obtain ⟨j, below, other, held, down⟩ :=
          still.local_stuck inv positive inside (ready k inside) (i := 0) (by decide) up
        obtain rfl : j = 1 := by omega
        exact ⟨held, down⟩
      stuckLocal1 := by
        intro k inside up
        obtain ⟨j, below, other, held, down⟩ :=
          still.local_stuck inv positive inside (ready k inside) (i := 1) (by decide) up
        obtain rfl : j = 0 := by omega
        exact ⟨held, down⟩
      dumped := by
        intro k final
        -- the last router drops what goes round once more
        by_contra up
        rw [Bool.not_eq_false] at up
        have rest := still k (by omega)
        simp only [moving, List.append_eq_nil_iff] at rest
        have none := passed_eq_nil_iff.mp rest.1.1.2 up
        rw [ring_out1_ready_last final] at none
        cases none }

/-- A ring that stands still takes the flits that its sources offer next. -/
theorem Invariant.takes (positive : 0 < buf_len) (inv : Invariant n buf_len id_assign s)
    (still : Standstill n (fun k => RingRouterDemux.is_local (id_assign k))
      (fun k => (s.ring k).ring0_mux.owner .ring .loc) (fun k => (s.ring k).local_mux.owner 0 1)
      s.traffic (wires n id_assign s e.undriven))
    (d : RingInput) {k : Nat} (inside : k < n) (offers : (d.dii_in k).valid = true) :
    (s.ring k).local_in_ready (id_assign k) (routerInput n id_assign s.ring d k) = true := by
  have down : ∀ j, j < n → (deq (s.ring j).ring0_buffer).valid = false := fun j below => (still.empty below).1
  have quiet (undriven : Flit) : ((s.ring k).ring_fwd0 (id_assign k) (net0_in s.ring undriven k)).valid = false := by
    cases k with
    | zero => simp [RocketRouter.ring_fwd0, RingRouterDemux.out_ring, net0_in]
    | succ j => simp [RocketRouter.ring_fwd0, RingRouterDemux.out_ring, net0_in, down j (by omega)]
  have empty : (s.ring k).ring0_buffer.Contains buf_len [] := by
    obtain ⟨list, holds, -⟩ := (inv.keeps k inside).ring0_buffer
    cases list with
    | nil => exact holds
    | cons f rest => exact absurd ((down k inside).symm.trans ((deq_valid_iff positive holds).mpr (by simp))) (by decide)
  by_contra refused
  rw [Bool.not_eq_true] at refused
  have noRing : ((s.ring k).ring_fwd0 (id_assign k) (net0_in s.ring d.undriven k)).passed
      ((s.ring k).ring_fwd0_ready (id_assign k) (routerInput n id_assign s.ring d k)) = [] :=
    passed_eq_nil_iff.mpr fun up => absurd (up.symm.trans (quiet d.undriven)) (by decide)
  obtain ⟨j, below, other, owned, -⟩ := inv.ring0_stuck positive inside (fun _ => offers) empty noRing
    (passed_eq_nil_iff.mpr fun _ => refused) (i := 1) (by decide) offers
  obtain rfl : j = 0 := by omega
  exact (inv.committed k inside d.undriven).ring owned (still.no_worm_on_ring inside (down k inside) owned)

end RingNetwork

end LowRisc.Debug.Interconnect
