import LowRisc.Debug.RingFlow
import LowRisc.Debug.RocketProgress
import Mathlib.Tactic.Ring

/-! Debug rings deliver packets: at most once, whole, and those of one source in their order.

A ring is followed over arbitrary runs. While the sources go on with what they have begun, every
cycle with ready local ports moves a flit or finds the ring empty, and there is a bound on how far
the flits can move. So a ring comes to rest unless its sources keep it busy. `debug_ring` needs the
rest: a stream of short packets can hold a packet of the other chain back for ever.
-/

set_option autoImplicit false

namespace LowRisc.Debug.Interconnect

open Lib Lib.Worm Chisel

def PortsReady (n : Nat) (e : RingInput) : Bool := (List.range n).all e.dii_out_ready

def readyCycles (n : Nat) (inputs : List RingInput) : Nat := inputs.countP (PortsReady n)

/-- Every source that has begun a packet offers its next flit. -/
def SourcesGoOn {ρ : Type} (n : Nat) (s : Observed ρ) (e : RingInput) : Prop :=
  ∀ k, k < n → s.begun k = true → (e.dii_in k).valid = true

def AlwaysGoOn {ρ : Type} (n : Nat) (cycle : Observed ρ → RingInput → Observed ρ) : Observed ρ → List RingInput → Prop
  | _, [] => True
  | s, e :: rest => SourcesGoOn n s e ∧ AlwaysGoOn n cycle (cycle s e) rest

instance {ρ : Type} (n : Nat) (s : Observed ρ) (e : RingInput) : Decidable (SourcesGoOn n s e) :=
  inferInstanceAs (Decidable (∀ k, k < n → s.begun k = true → (e.dii_in k).valid = true))

instance decidableAlwaysGoOn {ρ : Type} (n : Nat) (cycle : Observed ρ → RingInput → Observed ρ) :
    ∀ s inputs, Decidable (AlwaysGoOn n cycle s inputs)
  | _, [] => .isTrue trivial
  | s, e :: rest =>
    have := decidableAlwaysGoOn n cycle (cycle s e) rest
    inferInstanceAs (Decidable (SourcesGoOn n s e ∧ AlwaysGoOn n cycle (cycle s e) rest))

/-- A cycle between packets in which no source offers a flit, and the next flit of every source
would be taken at once. -/
structure Pause {ρ : Type} (n : Nat) (cycle : Observed ρ → RingInput → Observed ρ) (s : Observed ρ)
    (e : RingInput) : Prop where
  between : ∀ k, k < n → s.begun k = false
  silent : ∀ k, k < n → (e.dii_in k).valid = false
  takes : ∀ (next : RingInput) k, k < n →
    ((cycle s next).traffic k).local_in = (s.traffic k).local_in ++ (next.dii_in k).passed true

def passedFlits (n : Nat) (T : Nat → Traffic) : Nat := leftFlits n T + injectedFlits n T

structure Advances {ρ : Type} (n size : Nat) (here : Nat → Flit → Bool) (Inv : Observed ρ → Prop)
    (cycle : Observed ρ → RingInput → Observed ρ) : Prop where
  flows : ∀ {s}, Inv s → Flows n here s.traffic
  bounded : ∀ {s}, Inv s → Bounded n size s.traffic
  step : ∀ {s} e, Inv s → Inv (cycle s e)
  later : ∀ s e, Later s.traffic (cycle s e).traffic
  moves : ∀ {s e}, Inv s → SourcesGoOn n s e → PortsReady n e = true →
    passedFlits n s.traffic < passedFlits n (cycle s e).traffic ∨ Pause n cycle s e ∧ Settled n s.traffic

section
variable {ρ : Type} {n size : Nat} {here : Nat → Flit → Bool} {Inv : Observed ρ → Prop}
  {cycle : Observed ρ → RingInput → Observed ρ} {s : Observed ρ}

theorem passedFlits_mono {T U : Nat → Traffic} (later : Later T U) : passedFlits n T ≤ passedFlits n U := by
  refine Nat.add_le_add (Finset.sum_le_sum fun k _ => ?_) (injectedFlits_mono later n)
  obtain ⟨more, grown⟩ := later k
  simp only [grown, Traffic.append, List.length_append]
  omega

theorem Advances.run (advances : Advances n size here Inv cycle) (inv : Inv s) (inputs : List RingInput) :
    Inv (inputs.foldl cycle s) ∧ Later s.traffic (inputs.foldl cycle s).traffic := by
  induction inputs generalizing s with
  | nil => exact ⟨inv, .refl _⟩
  | cons e rest ih =>
    obtain ⟨inv', later⟩ := ih (advances.step e inv)
    exact ⟨inv', (advances.later s e).trans later⟩

/-- Every ready cycle moves a flit until the ring is at rest. -/
theorem Advances.rests_or_moves (advances : Advances n size here Inv cycle) (inv : Inv s) {inputs : List RingInput}
    (goOn : AlwaysGoOn n cycle s inputs) :
    (∃ early e late, inputs = early ++ e :: late ∧ Pause n cycle (early.foldl cycle s) e
      ∧ Settled n (early.foldl cycle s).traffic)
    ∨ passedFlits n s.traffic + readyCycles n inputs ≤ passedFlits n (inputs.foldl cycle s).traffic := by
  induction inputs generalizing s with
  | nil => exact .inr (by simp [readyCycles])
  | cons e rest ih =>
    obtain ⟨offers, goOn⟩ := goOn
    rcases ih (advances.step e inv) goOn with ⟨early, e', late, rfl, pause, settled⟩ | moved
    · exact .inl ⟨e :: early, e', late, rfl, pause, settled⟩
    · have grown := passedFlits_mono (n := n) (advances.later s e)
      cases ready : PortsReady n e with
      | false =>
        right
        rw [readyCycles, List.countP_cons_of_neg (by simp [ready])]
        exact Nat.le_trans (Nat.add_le_add_right grown _) moved
      | true =>
        rcases advances.moves inv offers ready with more | ⟨pause, settled⟩
        · right
          rw [readyCycles, List.countP_cons_of_pos ready]
          simp only [readyCycles, List.foldl_cons] at moved ⊢
          omega
        · exact .inl ⟨[], e, rest, rfl, pause, settled⟩

/-- A ring comes to rest when its sources put in little for the time that its ports are ready. -/
theorem Advances.rests (advances : Advances n size here Inv cycle) (inv : Inv s) {inputs : List RingInput} {m : Nat}
    (goOn : AlwaysGoOn n cycle s inputs)
    (little : injectedFlits n (inputs.foldl cycle s).traffic ≤ injectedFlits n s.traffic + m)
    (long : 6 * n * n * size + (4 * n + 1) * m < readyCycles n inputs) :
    ∃ early e late, inputs = early ++ e :: late ∧ Pause n cycle (early.foldl cycle s) e
      ∧ Settled n (early.foldl cycle s).traffic := by
  rcases advances.rests_or_moves inv goOn with rest | moved
  · exact rest
  · obtain ⟨inv', later⟩ := advances.run inv inputs
    have left := (advances.flows inv).leftFlits_later (advances.flows inv') later (advances.bounded inv)
    have most : n * (4 * injectedFlits n (inputs.foldl cycle s).traffic + 6 * (n * size)) ≤
        n * (4 * injectedFlits n s.traffic) + (4 * n * m + 6 * n * n * size) := by
      calc n * (4 * injectedFlits n (inputs.foldl cycle s).traffic + 6 * (n * size))
          ≤ n * (4 * (injectedFlits n s.traffic + m) + 6 * (n * size)) :=
            Nat.mul_le_mul_left n (Nat.add_le_add_right (Nat.mul_le_mul_left 4 little) _)
        _ = n * (4 * injectedFlits n s.traffic) + (4 * n * m + 6 * n * n * size) := by ring
    rw [Nat.add_mul, Nat.one_mul] at long
    simp only [passedFlits] at moved
    omega

end

/-- From `start` on, every local port gives out packets that sources have put in for it, each at most
once and those of a source in their order. In every stretch in which the sources put in little for the
time that the local ports are ready, there is a pause, and then all these packets have come out. -/
structure DeliversPackets {ρ : Type} (n size : Nat) (here : Nat → Flit → Bool)
    (cycle : Observed ρ → RingInput → Observed ρ) (start : Observed ρ) : Prop where
  inOrder : ∀ {s}, Steps (fun s e => some (cycle s e)) anyEvent start s → ∀ d, d < n →
    Holds List.IsPrefix (addressed n here s.traffic d) (packets (s.traffic d).local_out)
  all : ∀ {s}, Steps (fun s e => some (cycle s e)) anyEvent start s → ∀ (inputs : List RingInput) (m : Nat),
    AlwaysGoOn n cycle s inputs → injectedFlits n (inputs.foldl cycle s).traffic ≤ injectedFlits n s.traffic + m →
    6 * n * n * size + (4 * n + 1) * m < readyCycles n inputs →
    ∃ early e late, inputs = early ++ e :: late ∧ Pause n cycle (early.foldl cycle s) e ∧
      ∀ d, d < n → Shuffle (addressed n here (early.foldl cycle s).traffic d)
        (packets ((early.foldl cycle s).traffic d).local_out)

theorem DeliversPackets.of_no_router {ρ : Type} {size : Nat} {here : Nat → Flit → Bool}
    {cycle : Observed ρ → RingInput → Observed ρ} {start : Observed ρ} : DeliversPackets 0 size here cycle start where
  inOrder _ _ inside := absurd inside (Nat.not_lt_zero _)
  all := by
    intro s _ inputs m _ _ long
    cases inputs with
    | nil => simp [readyCycles] at long
    | cons e rest =>
      refine ⟨[], e, rest, rfl, ⟨?_, ?_, ?_⟩, fun _ inside => absurd inside (Nat.not_lt_zero _)⟩
      · exact fun _ inside => absurd inside (Nat.not_lt_zero _)
      · exact fun _ inside => absurd inside (Nat.not_lt_zero _)
      · exact fun _ _ inside => absurd inside (Nat.not_lt_zero _)

theorem Advances.delivers {ρ : Type} {n size : Nat} {here : Nat → Flit → Bool} {Inv : Observed ρ → Prop}
    {cycle : Observed ρ → RingInput → Observed ρ} {start : Observed ρ} (distinct : Distinct n here)
    (advances : Advances n size here Inv cycle) (init : Inv start) : DeliversPackets n size here cycle start := by
  have always : ∀ {s}, Steps (fun s e => some (cycle s e)) anyEvent start s → Inv s := by
    intro s run
    refine run.invariant init ?_
    intro t u e inv _ fired
    cases fired
    exact advances.step e inv
  constructor
  · intro s run d inside
    exact ((advances.flows (always run)).chained (by omega)).delivered slack_behind distinct inside
  · intro s run inputs m goOn little long
    have inv := always run
    obtain ⟨early, e, late, split, pause, settled⟩ := advances.rests inv goOn little long
    refine ⟨early, e, late, split, pause, fun d inside => ?_⟩
    obtain ⟨ins, mixed, same⟩ := ((advances.flows (advances.run inv early).1).chained_settled (by omega)
      settled).delivered slack_eq distinct inside
    exact funext same ▸ mixed

theorem passedFlits_lt {n : Nat} {T more : Nat → Traffic} {j : Nat} (inside : j < n)
    (moves : (more j).ring_out0 ++ (more j).ring_out1 ++ (more j).local_out ++ (more j).local_in ≠ []) :
    passedFlits n T < passedFlits n fun k => (T k).append (more k) := by
  simp only [passedFlits, leftFlits, injectedFlits, ← Finset.sum_add_distrib]
  refine Finset.sum_lt_sum ?_ ⟨j, Finset.mem_range.mpr inside, ?_⟩
  · intro k _
    simp only [Traffic.append, List.length_append]
    omega
  · have some := List.length_pos_iff.mpr moves
    simp only [Traffic.append, List.length_append] at some ⊢
    omega

theorem port_ready {n : Nat} {e : RingInput} (ready : PortsReady n e = true) : ∀ k, k < n → e.dii_out_ready k = true := by
  simpa [PortsReady] using ready

namespace DebugRing

variable {n size : Nat} {id_map : Nat → BitVec 10} {s : State} {e : RingInput}

theorem Invariant.flows (inv : Invariant n size id_map s) :
    Flows n (fun k => RingRouterDemux.is_local (id_map k)) s.traffic where
  linked := inv.linked
  switched k inside := ⟨_, _, (inv.keeps k inside).switched⟩
  out0 k inside := ⟨_, (inv.keeps k inside).buffer0⟩
  out1 k inside := ⟨_, (inv.keeps k inside).buffer1⟩
  local_out k inside := by rw [(inv.keeps k inside).out]

theorem Invariant.bounded (inv : Invariant n size id_map s) : Bounded n size s.traffic where
  out0 k inside := by
    rw [← (inv.keeps k inside).buffer0, List.length_append]
    exact Nat.add_le_add_left (DiiBuffer.length_flits_le (inv.keeps k inside).wf0) _
  out1 k inside := by
    rw [← (inv.keeps k inside).buffer1, List.length_append]
    exact Nat.add_le_add_left (DiiBuffer.length_flits_le (inv.keeps k inside).wf1) _
  local_out k inside := by
    rw [(inv.keeps k inside).out]
    omega

theorem Invariant.settled (inv : Invariant n size id_map s) {owner : Nat → Option Source}
    {localOwner : Nat → Option (Fin 2)} {here : Nat → Flit → Bool} {undriven : Flit}
    (still : Standstill n here owner localOwner s.traffic (wires n id_map s undriven)) : Settled n s.traffic where
  out0 k inside := still.drained0 k inside (still.empty inside).1
  out1 k inside := still.drained1 k inside (still.empty inside).2
  local_out k inside := (inv.keeps k inside).out

theorem Invariant.moves_or_rests (inv : Invariant n size id_map s) (goOn : SourcesGoOn n s e)
    (ready : PortsReady n e = true) :
    passedFlits n s.traffic < passedFlits n (DebugRing.cycle n size id_map s e).traffic
    ∨ Pause n (DebugRing.cycle n size id_map) s e ∧ Settled n s.traffic := by
  by_cases quiet : Still n size id_map s e
  · right
    have still := inv.standstill quiet goOn (port_ready ready)
    have silent : ∀ k, k < n → (e.dii_in k).valid = false := by
      intro k inside
      by_contra up
      rw [Bool.not_eq_false] at up
      have none := quiet k inside
      simp only [moving, List.append_eq_nil_iff] at none
      have refused := passed_eq_nil_iff.mp none.2 up
      rw [inv.takes still e inside up] at refused
      cases refused
    refine ⟨⟨fun k inside => ?_, silent, fun next k inside => ?_⟩, inv.settled still⟩
    · by_contra begun
      exact Bool.false_ne_true ((silent k inside).symm.trans (goOn k inside (by simpa using begun)))
    · exact congrArg ((s.traffic k).local_in ++ ·) (passed_of_taken (inv.takes still next inside))
  · left
    simp only [Still, not_forall] at quiet
    obtain ⟨j, below, moves⟩ := quiet
    refine passedFlits_lt below fun none => moves ?_
    simp only [List.append_eq_nil_iff] at none
    simp only [moving, List.append_eq_nil_iff]
    exact ⟨none.1.1, none.2⟩

theorem advances (two : 2 ≤ size) (positive : 0 < n) :
    Advances n size (fun k => RingRouterDemux.is_local (id_map k)) (Invariant n size id_map)
      (DebugRing.cycle n size id_map) where
  flows inv := inv.flows
  bounded inv := inv.bounded
  step e inv := inv.cycle two positive e
  later _ _ _ := ⟨_, rfl⟩
  moves inv goOn ready := inv.moves_or_rests goOn ready

end DebugRing

namespace RingNetwork

variable {n buf_len : Nat} {id_assign : Nat → BitVec 10} {s : State} {e : RingInput}

theorem Invariant.flows (inv : Invariant n buf_len id_assign s) :
    Flows n (fun k => RingRouterDemux.is_local (id_assign k)) s.traffic where
  linked := inv.linked
  switched k inside := ⟨_, _, (inv.keeps k inside).switched⟩
  out0 k inside := by
    obtain ⟨list, -, split⟩ := (inv.keeps k inside).ring0_buffer
    exact ⟨list, split⟩
  out1 k inside := by rw [(inv.keeps k inside).out1]
  local_out k inside := by
    obtain ⟨list, -, split⟩ := (inv.keeps k inside).local_buffer
    exact ⟨list, split⟩

theorem Invariant.bounded (inv : Invariant n buf_len id_assign s) : Bounded n buf_len s.traffic where
  out0 k inside := by
    obtain ⟨list, holds, split⟩ := (inv.keeps k inside).ring0_buffer
    rw [← split, List.length_append]
    exact Nat.add_le_add_left holds.bound _
  out1 k inside := by
    rw [(inv.keeps k inside).out1]
    omega
  local_out k inside := by
    obtain ⟨list, holds, split⟩ := (inv.keeps k inside).local_buffer
    rw [← split, List.length_append]
    exact Nat.add_le_add_left holds.bound _

theorem Still.settled (positive : 0 < buf_len) (quiet : Still n id_assign s e) (inv : Invariant n buf_len id_assign s)
    (ready : PortsReady n e = true) {owner : Nat → Option Source} {localOwner : Nat → Option (Fin 2)}
    {here : Nat → Flit → Bool} {undriven : Flit}
    (still : Standstill n here owner localOwner s.traffic (wires n id_assign s undriven)) : Settled n s.traffic where
  out0 k inside := still.drained0 k inside (still.empty inside).1
  out1 k inside := (inv.keeps k inside).out1
  local_out k inside := by
    obtain ⟨list, holds, split⟩ := (inv.keeps k inside).local_buffer
    cases list with
    | nil => simpa using split
    | cons f rest =>
      have out := quiet k inside
      simp only [moving, List.append_eq_nil_iff] at out
      have none := passed_eq_nil_iff.mp out.1.2 ((deq_valid_iff positive holds).mpr (by simp))
      exact absurd ((port_ready ready k inside).symm.trans none) (by decide)

theorem Invariant.moves_or_rests (positive : 0 < buf_len) (inv : Invariant n buf_len id_assign s)
    (goOn : SourcesGoOn n s e) (ready : PortsReady n e = true) :
    passedFlits n s.traffic < passedFlits n (RingNetwork.cycle n buf_len id_assign s e).traffic
    ∨ Pause n (RingNetwork.cycle n buf_len id_assign) s e ∧ Settled n s.traffic := by
  by_cases quiet : Still n id_assign s e
  · right
    have still := inv.standstill positive quiet goOn (port_ready ready)
    have silent : ∀ k, k < n → (e.dii_in k).valid = false := by
      intro k inside
      by_contra up
      rw [Bool.not_eq_false] at up
      have refused := passed_eq_nil_iff.mp (quiet.local_in inside) up
      rw [inv.takes positive still e inside up] at refused
      cases refused
    refine ⟨⟨fun k inside => ?_, silent, fun next k inside => ?_⟩, quiet.settled positive inv ready still⟩
    · by_contra begun
      exact Bool.false_ne_true ((silent k inside).symm.trans (goOn k inside (by simpa using begun)))
    · exact congrArg ((s.traffic k).local_in ++ ·) (passed_of_taken (inv.takes positive still next inside))
  · left
    simp only [Still, not_forall] at quiet
    obtain ⟨j, below, moves⟩ := quiet
    exact passedFlits_lt below moves

theorem advances (positive : 0 < buf_len) (some : 0 < n) :
    Advances n buf_len (fun k => RingRouterDemux.is_local (id_assign k)) (Invariant n buf_len id_assign)
      (RingNetwork.cycle n buf_len id_assign) where
  flows inv := inv.flows
  bounded inv := inv.bounded
  step e inv := inv.cycle positive some e
  later _ _ _ := ⟨_, rfl⟩
  moves inv goOn ready := inv.moves_or_rests positive goOn ready

end RingNetwork

theorem distinct_is_local {n : Nat} {ids : Nat → BitVec 10}
    (distinct : ∀ i j, i < n → j < n → ids i = ids j → i = j) :
    Distinct n fun k => RingRouterDemux.is_local (ids k) := by
  intro i j f inside inside' here there
  simp only [RingRouterDemux.is_local, beq_iff_eq] at here there
  exact distinct i j inside inside' (here.symm.trans there)

theorem ofNat_distinct {n : Nat} (small : n ≤ 2 ^ 10) :
    ∀ i j, i < n → j < n → BitVec.ofNat 10 i = BitVec.ofNat 10 j → i = j := by
  intro i j inside inside' same
  have same' := congrArg BitVec.toNat same
  simp only [BitVec.toNat_ofNat] at same'
  rwa [Nat.mod_eq_of_lt (by omega), Nat.mod_eq_of_lt (by omega)] at same'

/-- Both rings deliver the packets of their sources: to the router whose id the first flit names,
at most once, whole and in order, and to no other; and all of them by the next pause. -/
theorem rings_deliver_packets {n size : Nat} {ids : Nat → BitVec 10} (two : 2 ≤ size)
    (distinct : ∀ i j, i < n → j < n → ids i = ids j → i = j) :
    (∀ start, DebugRing.OnReset start → DeliversPackets n size (fun k => RingRouterDemux.is_local (ids k))
      (DebugRing.cycle n size ids) start)
    ∧ (∀ start, RingNetwork.OnReset start → DeliversPackets n size (fun k => RingRouterDemux.is_local (ids k))
      (RingNetwork.cycle n size ids) start) := by
  rcases Nat.eq_zero_or_pos n with rfl | positive
  · exact ⟨fun _ _ => .of_no_router, fun _ _ => .of_no_router⟩
  · constructor
    · intro start reset
      exact (DebugRing.advances two positive).delivers (distinct_is_local distinct)
        (DebugRing.invariant_of_reset (by omega) reset)
    · intro start reset
      exact (RingNetwork.advances (by omega) positive).delivers (distinct_is_local distinct)
        (RingNetwork.invariant_of_reset (by omega) reset)

def RingNetwork.blank : RingNetwork.State :=
  { ring := fun _ =>
      { ring0_demux := ⟨false, false⟩, ring1_demux := ⟨false, false⟩
        ring0_mux := ⟨⟨false, 1, 0⟩, fun _ => false⟩, local_mux := ⟨⟨false, 1, 0⟩, fun _ => false⟩
        ring0_buffer := ⟨fun _ => ⟨false, 0⟩, 0, 0, false⟩, local_buffer := ⟨fun _ => ⟨false, 0⟩, 0, 0, false⟩ }
    traffic := fun _ => {}
    begun := fun _ => false }

theorem RingNetwork.blank_onReset : RingNetwork.OnReset RingNetwork.blank :=
  ⟨fun _ => ⟨rfl, rfl, rfl, rfl, ⟨rfl, rfl, rfl⟩, ⟨rfl, rfl, rfl⟩⟩, rfl, rfl⟩

/-- Source 1 sends a packet of two flits to router 0, and then all sources are silent. -/
def sendFlit (f : Flit) : RingInput :=
  { dii_in := fun k => if k = 1 then .ofFlit f else .idle, dii_out_ready := fun _ => true, undriven := ⟨false, 0⟩ }

def noFlit : RingInput := { dii_in := fun _ => .idle, dii_out_ready := fun _ => true, undriven := ⟨false, 0⟩ }

def sendPacket : List RingInput := sendFlit ⟨false, 0⟩ :: sendFlit ⟨true, 7⟩ :: List.replicate 65 noFlit

/-- All packets have come out by a pause. -/
def Emptied {ρ : Type} (cycle : Observed ρ → RingInput → Observed ρ) (start : Observed ρ) (inputs : List RingInput) : Prop :=
  ∃ early e late, inputs = early ++ e :: late ∧ Pause 2 cycle (early.foldl cycle start) e ∧
    ∀ d, d < 2 → Shuffle (addressed 2 (fun k => RingRouterDemux.is_local (BitVec.ofNat 10 k)) (early.foldl cycle start).traffic d)
      (packets ((early.foldl cycle start).traffic d).local_out)

theorem rings_deliver_packets_of_packet :
    (Emptied (DebugRing.cycle 2 2 (BitVec.ofNat 10)) DebugRing.blank sendPacket ∧
      packets ((sendPacket.foldl (DebugRing.cycle 2 2 (BitVec.ofNat 10)) DebugRing.blank).traffic 0).local_out
        = [[⟨false, 0⟩, ⟨true, 7⟩]]) ∧
    Emptied (RingNetwork.cycle 2 2 (BitVec.ofNat 10)) RingNetwork.blank sendPacket ∧
      packets ((sendPacket.foldl (RingNetwork.cycle 2 2 (BitVec.ofNat 10)) RingNetwork.blank).traffic 0).local_out
        = [[⟨false, 0⟩, ⟨true, 7⟩]] := by
  obtain ⟨debug, rocket⟩ := rings_deliver_packets (n := 2) (le_refl 2) (ofNat_distinct (by decide))
  refine ⟨⟨(debug _ DebugRing.blank_onReset).all (.refl _) sendPacket 2 ?_ ?_ ?_, ?_⟩,
    (rocket _ RingNetwork.blank_onReset).all (.refl _) sendPacket 2 ?_ ?_ ?_, ?_⟩
  all_goals decide +kernel

/-! A run in which a packet never comes out. -/

def stateAt {ρ : Type} (cycle : Observed ρ → RingInput → Observed ρ) (start : Observed ρ)
    (inputs : Nat → RingInput) : Nat → Observed ρ
  | 0 => start
  | t + 1 => cycle (stateAt cycle start inputs t) (inputs t)

/-- With ready local ports, and sources that go on with what they have begun, every packet that has been
put in comes out at some time. -/
def DeliversAll {ρ : Type} (n : Nat) (here : Nat → Flit → Bool) (cycle : Observed ρ → RingInput → Observed ρ)
    (start : Observed ρ) : Prop :=
  ∀ inputs : Nat → RingInput, (∀ t, PortsReady n (inputs t) = true) →
    (∀ t, SourcesGoOn n (stateAt cycle start inputs t) (inputs t)) →
    ∀ t d source packet, d < n → packet ∈ addressed n here ((stateAt cycle start inputs t).traffic) d source →
      ∃ u, packet ∈ packets ((stateAt cycle start inputs u).traffic d).local_out

namespace DebugRing

def waitingFlit : Flit := ⟨true, 1025⟩
def streamFlit : Flit := ⟨true, 1⟩

/-- Source 0 sends one short packet after the other to router 1. -/
def stream : RingInput where
  dii_in k := if k = 0 then .ofFlit streamFlit else .idle
  dii_out_ready _ := true
  undriven := ⟨false, 0⟩

/-- In the first cycle source 1 sends a packet to its own router. -/
def streamInputs : Nat → RingInput
  | 0 => { stream with dii_in := fun k => .ofFlit (if k = 0 then streamFlit else waitingFlit) }
  | _ + 1 => stream

abbrev twoRouters : State → RingInput → State := DebugRing.cycle 2 2 (BitVec.ofNat 10)

/-- The packet of source 1 waits at its router, while the packets of source 0 pass it. -/
structure Starving (s : State) : Prop where
  worm0 : (s.ring 0).demux0.worm = false ∧ (s.ring 0).demux1.worm = false
  worm1 : (s.ring 1).demux0.worm = false ∧ (s.ring 1).demux1.worm = false
  mux_ring0 : (s.ring 0).mux_ring0 = .noworm ∧ (s.ring 1).mux_ring0 = .noworm
  mux_local : (s.ring 1).mux_local = .noworm0
  passes : (s.ring 0).buffer0.reg_out_valid = true ∧ (s.ring 0).buffer0.rp = 0 ∧ (s.ring 0).buffer0.data 0 = streamFlit
  waits : (s.ring 0).buffer1.reg_out_valid = true ∧ (s.ring 0).buffer1.rp = 0 ∧ (s.ring 0).buffer1.data 0 = waitingFlit
  empty : (s.ring 1).buffer0.reg_out_valid = false ∧ (s.ring 1).buffer0.rp = 0
  between : ∀ k, k < 2 → s.begun k = false
  out : ∀ f ∈ (s.traffic 1).local_out, f = streamFlit

section
variable {s : State}

theorem Starving.wires (starving : Starving s) : (∀ undriven, chain0 s.ring undriven 1 = .ofFlit streamFlit) ∧
    chain1 2 s.ring 1 = .ofFlit waitingFlit ∧ (chain1 2 s.ring 0).valid = false := by
  obtain ⟨up0, rp0, data0⟩ := starving.passes
  obtain ⟨up1, rp1, data1⟩ := starving.waits
  refine ⟨fun _ => ?_, ?_, ?_⟩
  · simp [chain0, DiiBuffer.flit_out, DiiFlit.ofFlit, up0, rp0, data0]
  · simp [chain1, DiiBuffer.flit_out, DiiFlit.ofFlit, up1, rp1, data1]
  · simp [chain1, DiiBuffer.flit_out, starving.empty.1]

/-- Router 1 turns to chain 0, and so it refuses the flit of chain 1. -/
theorem Starving.turned (starving : Starving s) {id : BitVec 10} (here : RingRouterDemux.is_local id streamFlit = true)
    {e : RouterInput} (in0 : e.ring_in0 = .ofFlit streamFlit) :
    RingRouterMuxRr.selected (s.ring 1).mux_local ((s.ring 1).ring_local0 id e.ring_in0)
      ((s.ring 1).ring_local1 id e.ring_in1) = some 0 := by
  have up : ((s.ring 1).ring_local0 id e.ring_in0).valid = true := by
    simp only [RingRouter.ring_local0, RingRouterDemux.out_local, RingRouterDemux.switch_local, starving.worm1, in0,
      Bool.false_eq_true, if_false, Bool.and_eq_true]
    exact ⟨here, rfl⟩
  rw [starving.mux_local]
  simp only [RingRouterMuxRr.selected, up, if_true]

theorem Starving.ready (starving : Starving s) (id : BitVec 10) (here : RingRouterDemux.is_local id streamFlit = true)
    (here' : RingRouterDemux.is_local id waitingFlit = true) {e : RouterInput} (in0 : e.ring_in0 = .ofFlit streamFlit)
    (in1 : e.ring_in1 = .ofFlit waitingFlit) (out : e.local_out_ready = true) :
    (s.ring 1).ring_in0_ready 2 id e = true ∧ (s.ring 1).ring_in1_ready 2 id e = false := by
  have turned := starving.turned here (e := e) in0
  have way0 : RingRouterDemux.switch_local id (s.ring 1).demux0 e.ring_in0 = true := by
    simp only [RingRouterDemux.switch_local, starving.worm1, in0]
    exact here
  have way1 : RingRouterDemux.switch_local id (s.ring 1).demux1 e.ring_in1 = true := by
    simp only [RingRouterDemux.switch_local, starving.worm1, in1]
    exact here'
  constructor
  · simp [RingRouter.ring_in0_ready, RingRouterDemux.in_ring_ready, way0, RingRouter.ring_local_ready,
      RingRouterMuxRr.in_ready, turned, out]
  · simp [RingRouter.ring_in1_ready, RingRouterDemux.in_ring_ready, way1, RingRouter.ring_local_ready,
      RingRouterMuxRr.in_ready, turned]

/-- Router 0 lets the stream in and keeps the packet that waits. -/
theorem Starving.router0 (starving : Starving s) (id : BitVec 10) {e : RouterInput} (in0 : e.ring_in0.valid = false)
    (in1 : e.ring_in1.valid = false) (given : e.local_in = .ofFlit streamFlit) (out0 : e.ring_out0_ready = true)
    (out1 : e.ring_out1_ready = false) :
    let r := (s.ring 0).next 2 id e
    (r.demux0.worm = false ∧ r.demux1.worm = false) ∧ r.mux_ring0 = .noworm ∧
    (r.buffer0.reg_out_valid = true ∧ r.buffer0.rp = 0 ∧ r.buffer0.data 0 = streamFlit) ∧
    (r.buffer1.reg_out_valid = true ∧ r.buffer1.rp = 0 ∧ r.buffer1.data 0 = waitingFlit) ∧
    (s.ring 0).local_in_ready 2 id e = true := by
  obtain ⟨up0, rp0, data0⟩ := starving.passes
  obtain ⟨up1, rp1, data1⟩ := starving.waits
  obtain ⟨worm0, worm1⟩ := starving.worm0
  have mux := starving.mux_ring0.1
  have fwd0 : ((s.ring 0).ring_fwd0 id e.ring_in0).valid = false := by
    simp [RingRouter.ring_fwd0, RingRouterDemux.out_ring, in0]
  have fwd1 : ((s.ring 0).ring_fwd1 id e.ring_in1).valid = false := by
    simp [RingRouter.ring_fwd1, RingRouterDemux.out_ring, in1]
  have room : (s.ring 0).buffer0.flit_in_ready 2 = true := by simp [DiiBuffer.flit_in_ready, rp0]
  have up : (DiiFlit.ofFlit streamFlit).valid = true := rfl
  have ends : (DiiFlit.ofFlit streamFlit).last = true := rfl
  have chosen : RingRouterMux.selected .noworm ((s.ring 0).ring_fwd0 id e.ring_in0) (.ofFlit streamFlit) = some .loc := by
    simp [RingRouterMux.selected, fwd0, up]
  have muxed : (s.ring 0).ring_muxed id e = .ofFlit streamFlit := by
    simp [RingRouter.ring_muxed, RingRouterMux.out_mux, mux, chosen, RingRouterMux.port, given]
  refine ⟨⟨?_, ?_⟩, ?_, ⟨?_, ?_, ?_⟩, ⟨?_, ?_, ?_⟩, ?_⟩
  · simp [RingRouter.next, RingRouterDemux.next, worm0, in0]
  · simp [RingRouter.next, RingRouterDemux.next, worm1, in1]
  · simp [RingRouter.next, RingRouterMux.nxt_state, RingRouterMux.out_mux, mux, chosen, RingRouterMux.port, given, ends]
  · simp [RingRouter.next, DiiBuffer.next, muxed, up]
  · simp [RingRouter.next, DiiBuffer.next, DiiBuffer.flit_out, up0, rp0, out0]
  · simp only [RingRouter.next, DiiBuffer.next, muxed, room, up, Bool.and_self, if_true]
    rfl
  · simp [RingRouter.next, DiiBuffer.next, DiiBuffer.flit_out, fwd1, up1, out1]
  · simp [RingRouter.next, DiiBuffer.next, DiiBuffer.flit_out, fwd1, rp1, out1]
  · simp [RingRouter.next, DiiBuffer.next, fwd1, data1]
  · simp [RingRouter.local_in_ready, RingRouterMux.in_ready, RingRouter.ring_muxed_ready, mux, given, chosen, room]

theorem Starving.router1 (starving : Starving s) (id : BitVec 10) (here : RingRouterDemux.is_local id streamFlit = true)
    {e : RouterInput} (in0 : e.ring_in0 = .ofFlit streamFlit)
    (in1 : e.ring_in1 = .ofFlit waitingFlit) (silent : e.local_in.valid = false) :
    let r := (s.ring 1).next 2 id e
    (r.demux0.worm = false ∧ r.demux1.worm = false) ∧ r.mux_ring0 = .noworm ∧ r.mux_local = .noworm0 ∧
    (r.buffer0.reg_out_valid = false ∧ r.buffer0.rp = 0) ∧ (s.ring 1).local_out id e = .ofFlit streamFlit := by
  obtain ⟨down, rp⟩ := starving.empty
  obtain ⟨worm0, worm1⟩ := starving.worm1
  have mux := starving.mux_ring0.2
  have priority := starving.mux_local
  have turned := starving.turned here (e := e) in0
  rw [priority] at turned
  have way0 : RingRouterDemux.switch_local id (s.ring 1).demux0 e.ring_in0 = true := by
    simp only [RingRouterDemux.switch_local, worm0, in0]
    exact here
  have fwd0 : ((s.ring 1).ring_fwd0 id e.ring_in0).valid = false := by
    simp [RingRouter.ring_fwd0, RingRouterDemux.out_ring, way0]
  have chosen : RingRouterMux.selected .noworm ((s.ring 1).ring_fwd0 id e.ring_in0) e.local_in = none := by
    simp [RingRouterMux.selected, fwd0, silent]
  have muxed : ((s.ring 1).ring_muxed id e).valid = false := by
    simp [RingRouter.ring_muxed, RingRouterMux.out_mux, mux, chosen, DiiFlit.idle]
  have shown : (s.ring 1).ring_local0 id e.ring_in0 = .ofFlit streamFlit := by
    rw [RingRouter.ring_local0, RingRouterDemux.out_local, way0, in0]
    rfl
  have given : (s.ring 1).local_out id e = .ofFlit streamFlit := by
    rw [RingRouter.local_out, RingRouterMuxRr.out_mux, priority, turned]
    exact shown
  refine ⟨⟨?_, ?_⟩, ?_, ?_, ⟨?_, ?_⟩, given⟩
  · simp [RingRouter.next, RingRouterDemux.next, worm0, in0, DiiFlit.ofFlit, streamFlit]
  · simp [RingRouter.next, RingRouterDemux.next, worm1, in1, DiiFlit.ofFlit, waitingFlit]
  · simp [RingRouter.next, RingRouterMux.nxt_state, mux, chosen]
  · have ends : ((s.ring 1).ring_local0 id e.ring_in0).last = true := by
      rw [shown]
      rfl
    simp [RingRouter.next, RingRouterMuxRr.nxt_state, RingRouterMuxRr.out_mux, RingRouterMuxRr.port, priority, turned, ends]
  · simp [RingRouter.next, DiiBuffer.next, muxed, down]
  · simp [RingRouter.next, DiiBuffer.next, muxed, rp]

theorem Starving.cycle (starving : Starving s) : Starving (twoRouters s stream) := by
  obtain ⟨in0, in1, none1⟩ := starving.wires
  have input1 : (upstream 2 s.ring stream 1).ring_in0 = .ofFlit streamFlit := in0 stream.undriven
  obtain ⟨ready0, ready1⟩ := starving.ready (BitVec.ofNat 10 1) (by decide) (by decide)
    (e := upstream 2 s.ring stream 1) input1 in1 rfl
  have first := starving.router0 (BitVec.ofNat 10 0) (e := routerInput 2 2 (BitVec.ofNat 10) s.ring stream 0) rfl
    none1 rfl ((ring_out0_ready_inner (by decide)).trans ready0) ((ring_out1_ready_inner (by decide)).trans ready1)
  have second := starving.router1 (BitVec.ofNat 10 1) (by decide)
    (e := routerInput 2 2 (BitVec.ofNat 10) s.ring stream 1) input1 in1 rfl
  obtain ⟨worm0, mux0, passes, waits, taken⟩ := first
  obtain ⟨worm1, mux1, priority, empty, given⟩ := second
  refine ⟨worm0, worm1, ⟨mux0, mux1⟩, priority, passes, waits, empty, ?_, ?_⟩
  · intro k inside
    have two : k = 0 ∨ k = 1 := by omega
    rcases two with rfl | rfl
    · simp only [twoRouters, DebugRing.cycle, beginsOn, taken]
      rfl
    · exact starving.between 1 (by decide)
  · intro f member
    simp only [twoRouters, DebugRing.cycle, Traffic.append, RingRouter.passing, given, List.mem_append] at member
    rcases member with old | new
    · exact starving.out f old
    · exact List.mem_singleton.mp new

theorem Starving.never (starving : Starving s) : waitingFlit ∉ (s.traffic 1).local_out := by
  intro out
  exact absurd (starving.out _ out) (by decide)

end

theorem starving_of_stream (t : Nat) : Starving (stateAt twoRouters blank streamInputs (t + 2)) := by
  induction t with
  | zero =>
    refine ⟨⟨rfl, rfl⟩, ⟨rfl, rfl⟩, ⟨rfl, rfl⟩, rfl, ⟨rfl, rfl, rfl⟩, ⟨rfl, rfl, rfl⟩, ⟨rfl, rfl⟩, ?_, ?_⟩
    · decide +kernel
    · decide +kernel
  | succ t ih => exact ih.cycle

/-- Short packets leave the multiplexer of a local port at chain 0, so that a stream of them holds a
packet of chain 1 back for ever. -/
theorem not_deliversAll_stream : ¬ ∀ (n size : Nat) (ids : Nat → BitVec 10), 2 ≤ size →
    (∀ i j, i < n → j < n → ids i = ids j → i = j) → ∀ start, OnReset start →
    DeliversAll n (fun k => RingRouterDemux.is_local (ids k)) (DebugRing.cycle n size ids) start := by
  intro always
  have between : ∀ t k, k < 2 → (stateAt twoRouters blank streamInputs t).begun k = false := by
    intro t
    match t with
    | 0 => exact fun _ _ => rfl
    | 1 => decide +kernel
    | t + 2 => exact (starving_of_stream t).between
  obtain ⟨u, out⟩ := always 2 2 _ (le_refl 2) (ofNat_distinct (by decide)) blank blank_onReset streamInputs
    (fun t => by cases t <;> rfl) (fun t k inside begun => by rw [between t k inside] at begun; cases begun)
    2 1 1 [waitingFlit] (by decide) (by decide +kernel)
  have member : waitingFlit ∈ ((stateAt twoRouters blank streamInputs u).traffic 1).local_out := by
    rw [← flatten_completed Flit.last ((stateAt twoRouters blank streamInputs u).traffic 1).local_out, List.mem_append]
    exact .inl (List.mem_flatten.mpr ⟨_, out, by simp⟩)
  match u with
  | 0 => cases member
  | 1 => exact absurd member (by decide +kernel)
  | u + 2 => exact (starving_of_stream u).never member

end DebugRing

end LowRisc.Debug.Interconnect
