import Mathlib.Algebra.Order.BigOperators.Group.Finset
import LowRisc.Debug.RingTraffic

/-! How many flits a ring lets move.

A router loses no flit and makes none, and a buffer holds a bounded number. So the flits that leave
the buffers in some time are bounded by what was held and what the sources have put in meanwhile.
-/

set_option autoImplicit false

namespace LowRisc.Debug.Interconnect

open Lib.Worm

/-! The number of flits on neighbouring wires. -/

theorem length_eq_packets (stream : List Flit) :
    stream.length = ((packets stream).map List.length).sum + (openPacket stream).length := by
  induction stream using List.reverseRecOn with
  | nil => rfl
  | append_singleton stream f ih =>
    by_cases ends : f.last = true
    · simp [packets, openPacket, ends, ih]
      omega
    · simp [packets, openPacket, ends, ih]
      omega

theorem headed_not_packet {p : Flit → Bool} {packet : List Flit} (started : packet ≠ []) :
    headed (fun f => !p f) packet = !headed p packet := by
  cases packet with
  | nil => exact absurd rfl started
  | cons f rest => rfl

theorem sum_filter_headed {p : Flit → Bool} {all : List (List Flit)} (started : ∀ packet ∈ all, packet ≠ []) :
    (all.map List.length).sum = ((all.filter (headed p)).map List.length).sum
      + ((all.filter (headed fun f => !p f)).map List.length).sum := by
  induction all with
  | nil => rfl
  | cons packet all ih =>
    have rest := ih fun other member => started other (List.mem_cons_of_mem _ member)
    have turned := headed_not_packet (p := p) (started packet (List.mem_cons_self ..))
    cases here : headed p packet with
    | true =>
      simp only [turned, here, List.filter_cons, List.map_cons, List.sum_cons, rest, if_true, Bool.not_true,
        Bool.false_eq_true, if_false]
      omega
    | false =>
      simp only [turned, here, List.filter_cons, List.map_cons, List.sum_cons, rest, if_true, Bool.not_false,
        Bool.false_eq_true, if_false]
      omega

theorem length_routed {p : Flit → Bool} {stream out other : List Flit} (way : Routed Flit.last p stream out)
    (rest : Routed Flit.last (fun f => !p f) stream other) : stream.length = out.length + other.length := by
  have whole : ∀ packet ∈ packets stream, packet ≠ [] := by
    intro packet member
    obtain ⟨body, f, rfl, -⟩ := exists_last_of_mem_completed _ member
    simp
  have split := sum_filter_headed (p := p) whole
  have part : (openPacket stream).length = (openPacket out).length + (openPacket other).length := by
    rw [openPacket, openPacket, openPacket, way.rest, rest.rest]
    cases begun : unfinished Flit.last stream with
    | nil => rfl
    | cons f behind =>
      rw [headed_cons, headed_cons]
      cases p f <;> simp
  have here : packets out = (packets stream).filter (headed p) := way.packets
  have there : packets other = (packets stream).filter (headed fun f => !p f) := rest.packets
  rw [length_eq_packets stream, length_eq_packets out, length_eq_packets other, split, part, here, there]
  omega

theorem length_shuffled {ι : Type} [DecidableEq ι] {a b : ι} {ins : ι → List (List Flit)}
    {out : List (List Flit)} (two : ∀ i, i = a ∨ i = b) (differ : a ≠ b) (mixed : Shuffle ins out) :
    (out.map List.length).sum = ((ins a).map List.length).sum + ((ins b).map List.length).sum := by
  obtain ⟨labelled, rfl, projected⟩ := mixed
  rw [← projected a, ← projected b]
  clear projected
  simp only [List.map_map]
  induction labelled with
  | nil => rfl
  | cons entry rest ih =>
    obtain ⟨i, packet⟩ := entry
    rcases two i with rfl | rfl
    · simp [differ, ih]
      omega
    · simp [differ.symm, ih]
      omega

theorem length_merged {ι : Type} [DecidableEq ι] {a b : ι} {owner : Option ι} {ins : ι → List Flit}
    {out : List Flit} (two : ∀ i, i = a ∨ i = b) (differ : a ≠ b)
    (merged : Merged Flit.last owner ins out) : out.length = (ins a).length + (ins b).length := by
  have whole := length_shuffled two differ merged.packets
  have part : (openPacket out).length = (openPacket (ins a)).length + (openPacket (ins b)).length := by
    cases held : owner with
    | none =>
      have same : openPacket out = [] := merged.free held
      have first : openPacket (ins a) = [] := merged.others a (by simp [held])
      have second : openPacket (ins b) = [] := merged.others b (by simp [held])
      simp [same, first, second]
    | some i =>
      have same : openPacket out = openPacket (ins i) := merged.worm i held
      rw [same]
      rcases two i with rfl | rfl
      · have other : openPacket (ins b) = [] := merged.others b (by simpa [held] using differ)
        simp [other]
      · have other : openPacket (ins a) = [] := merged.others a (by simpa [held] using differ.symm)
        simp [other]
  rw [length_eq_packets out, length_eq_packets (ins a), length_eq_packets (ins b)]
  simp only [packets] at whole ⊢
  omega

/-! A ring in flow: its wires are connected, its routers switch and its buffers hold packets
back. -/

structure Flows (n : Nat) (here : Nat → Flit → Bool) (T : Nat → Traffic) : Prop where
  linked : Linked n T
  switched : ∀ k, k < n → ∃ owner localOwner, (T k).Switched (here k) owner localOwner
  out0 : ∀ k, k < n → (T k).ring_out0 <+: (T k).ring_muxed
  out1 : ∀ k, k < n → (T k).ring_out1 <+: (T k).ring_fwd1
  local_out : ∀ k, k < n → (T k).local_out <+: (T k).local_muxed

structure Settled (n : Nat) (T : Nat → Traffic) : Prop where
  out0 : ∀ k, k < n → (T k).ring_out0 = (T k).ring_muxed
  out1 : ∀ k, k < n → (T k).ring_out1 = (T k).ring_fwd1
  local_out : ∀ k, k < n → (T k).local_out = (T k).local_muxed

section
variable {n : Nat} {here : Nat → Flit → Bool} {T : Nat → Traffic}

theorem Flows.chained (positive : 0 < n) (flows : Flows n here T) : Chained List.IsPrefix n here T where
  positive := positive
  switched := flows.switched
  first := flows.linked.first
  chain0 k inside := by
    rw [flows.linked.chain0 k inside]
    exact completed_mono _ (flows.out0 k (by omega))
  wrap := by
    rw [flows.linked.wrap]
    exact completed_mono _ (flows.out0 (n - 1) (by omega))
  chain1 k inside := by
    rw [flows.linked.chain1 k inside]
    exact completed_mono _ (flows.out1 k (by omega))
  out k inside := completed_mono _ (flows.local_out k inside)

theorem Flows.chained_settled (positive : 0 < n) (flows : Flows n here T) (settled : Settled n T) :
    Chained Eq n here T where
  positive := positive
  switched := flows.switched
  first := flows.linked.first
  chain0 k inside := by rw [flows.linked.chain0 k inside, settled.out0 k (by omega)]
  wrap := by rw [flows.linked.wrap, settled.out0 (n - 1) (by omega)]
  chain1 k inside := by rw [flows.linked.chain1 k inside, settled.out1 k (by omega)]
  out k inside := by rw [settled.local_out k inside]

def injectedFlits (n : Nat) (T : Nat → Traffic) : Nat := ∑ k ∈ Finset.range n, (T k).local_in.length

def leftFlits (n : Nat) (T : Nat → Traffic) : Nat :=
  ∑ k ∈ Finset.range n, ((T k).ring_out0.length + (T k).ring_out1.length + (T k).local_out.length)

structure Counts (t : Traffic) : Prop where
  in0 : t.ring_in0.length = t.ring_local0.length + t.ring_fwd0.length
  in1 : t.ring_in1.length = t.ring_local1.length + t.ring_fwd1.length
  muxed : t.ring_muxed.length = t.ring_fwd0.length + t.local_in.length
  localMuxed : t.local_muxed.length = t.ring_local0.length + t.ring_local1.length
  out0 : t.ring_out0.length ≤ t.ring_muxed.length
  out1 : t.ring_out1.length ≤ t.ring_fwd1.length
  out : t.local_out.length ≤ t.local_muxed.length

theorem Flows.counts (flows : Flows n here T) {k : Nat} (inside : k < n) : Counts (T k) := by
  obtain ⟨owner, localOwner, switched⟩ := flows.switched k inside
  exact
    { in0 := length_routed switched.local0 switched.fwd0
      in1 := length_routed switched.local1 switched.fwd1
      muxed := length_merged (a := Source.ring) (b := Source.loc) (fun source => by cases source <;> simp)
        (by decide) switched.muxed
      localMuxed := length_merged (a := 0) (b := 1) (by decide) (by decide) switched.localMuxed
      out0 := (flows.out0 k inside).length_le
      out1 := (flows.out1 k inside).length_le
      out := (flows.local_out k inside).length_le }

/-- No buffer holds more than `c` flits. -/
structure Bounded (n c : Nat) (T : Nat → Traffic) : Prop where
  out0 : ∀ k, k < n → (T k).ring_muxed.length ≤ (T k).ring_out0.length + c
  out1 : ∀ k, k < n → (T k).ring_fwd1.length ≤ (T k).ring_out1.length + c
  local_out : ∀ k, k < n → (T k).local_muxed.length ≤ (T k).local_out.length + c

def Later (T U : Nat → Traffic) : Prop := ∀ k, ∃ more, U k = (T k).append more

theorem Later.refl (T : Nat → Traffic) : Later T T := fun k => ⟨{}, by simp [Traffic.append]⟩

theorem Later.trans {T U V : Nat → Traffic} (first : Later T U) (second : Later U V) : Later T V := by
  intro k
  obtain ⟨more, grown⟩ := first k
  obtain ⟨more', grown'⟩ := second k
  exact ⟨more.append more', by simp [grown', grown, Traffic.append]⟩

/-! How far the flits get while others are put in. -/

section
variable {c : Nat} {U : Nat → Traffic}

theorem Later.local_in (later : Later T U) (k : Nat) : (T k).local_in.length ≤ (U k).local_in.length := by
  obtain ⟨more, grown⟩ := later k
  simp [grown, Traffic.append]

theorem Later.ring_local (later : Later T U) (k : Nat) :
    (T k).ring_local0.length ≤ (U k).ring_local0.length ∧ (T k).ring_local1.length ≤ (U k).ring_local1.length := by
  obtain ⟨more, grown⟩ := later k
  simp [grown, Traffic.append]

theorem Later.ring_fwd (later : Later T U) (k : Nat) :
    (T k).ring_fwd0.length ≤ (U k).ring_fwd0.length ∧ (T k).ring_fwd1.length ≤ (U k).ring_fwd1.length := by
  obtain ⟨more, grown⟩ := later k
  simp [grown, Traffic.append]

theorem injectedFlits_mono (later : Later T U) (m : Nat) : injectedFlits m T ≤ injectedFlits m U := by
  exact Finset.sum_le_sum fun k _ => later.local_in k

theorem injectedFlits_part (later : Later T U) {m : Nat} (part : m ≤ n) :
    injectedFlits m U + injectedFlits n T ≤ injectedFlits m T + injectedFlits n U := by
  induction n, part using Nat.le_induction with
  | base => omega
  | succ n above ih =>
    have longer := later.local_in n
    simp only [injectedFlits, Finset.sum_range_succ] at ih ⊢
    omega

/-! What a router lets go is what its buffers held and what has come in. -/

theorem Bounded.muxed_later (bounded : Bounded n c T) (flows : Flows n here T) (flows' : Flows n here U)
    (later : Later T U) {k : Nat} (inside : k < n) :
    (U k).ring_out0.length + (T k).ring_in0.length + (T k).local_in.length ≤
      (T k).ring_out0.length + (U k).ring_in0.length + (U k).local_in.length + c := by
  have room := bounded.out0 k inside
  have kept := (later.ring_local k).1
  have old := flows.counts inside
  have new := flows'.counts inside
  have muxed := old.muxed
  have in0 := old.in0
  have muxed' := new.muxed
  have in0' := new.in0
  have out0' := new.out0
  omega

theorem Bounded.fwd1_later (bounded : Bounded n c T) (flows : Flows n here T) (flows' : Flows n here U)
    (later : Later T U) {k : Nat} (inside : k < n) :
    (U k).ring_out1.length + (T k).ring_in1.length ≤ (T k).ring_out1.length + (U k).ring_in1.length + c := by
  have room := bounded.out1 k inside
  have kept := (later.ring_local k).2
  have in1 := (flows.counts inside).in1
  have in1' := (flows'.counts inside).in1
  have out1' := (flows'.counts inside).out1
  omega

theorem Bounded.local_later (bounded : Bounded n c T) (flows : Flows n here T) (flows' : Flows n here U)
    (later : Later T U) {k : Nat} (inside : k < n) :
    (U k).local_out.length + (T k).ring_in0.length + (T k).ring_in1.length ≤
      (T k).local_out.length + (U k).ring_in0.length + (U k).ring_in1.length + c := by
  have room := bounded.local_out k inside
  obtain ⟨kept0, kept1⟩ := later.ring_fwd k
  have old := flows.counts inside
  have new := flows'.counts inside
  have muxed := old.localMuxed
  have in0 := old.in0
  have in1 := old.in1
  have muxed' := new.localMuxed
  have in0' := new.in0
  have in1' := new.in1
  have out' := new.out
  omega

/-- What the buffers of chain 0 let go is what they held and what the sources before them put in. -/
theorem Flows.out0_later (flows : Flows n here T) (flows' : Flows n here U) (later : Later T U)
    (bounded : Bounded n c T) {k : Nat} (inside : k < n) :
    (U k).ring_out0.length + injectedFlits (k + 1) T ≤
      (T k).ring_out0.length + injectedFlits (k + 1) U + (k + 1) * c := by
  induction k with
  | zero =>
    have step := bounded.muxed_later flows flows' later inside
    rw [flows.linked.first, flows'.linked.first] at step
    simp only [injectedFlits, Finset.sum_range_succ, Finset.range_zero, Finset.sum_empty]
    omega
  | succ k ih =>
    have step := bounded.muxed_later flows flows' later inside
    have before := ih (by omega)
    rw [flows.linked.chain0 k inside, flows'.linked.chain0 k inside] at step
    rw [Nat.add_mul (k + 1), Nat.one_mul]
    simp only [injectedFlits, Finset.sum_range_succ] at before ⊢
    omega

theorem Flows.in0_later (flows : Flows n here T) (flows' : Flows n here U) (later : Later T U)
    (bounded : Bounded n c T) {k : Nat} (inside : k < n) :
    (U k).ring_in0.length + injectedFlits n T ≤ (T k).ring_in0.length + injectedFlits n U + n * c := by
  cases k with
  | zero =>
    have more := injectedFlits_mono later n
    rw [flows.linked.first, flows'.linked.first]
    omega
  | succ k =>
    have before := flows.out0_later flows' later bounded (k := k) (by omega)
    have part := injectedFlits_part later (m := k + 1) (n := n) (by omega)
    have held : (k + 1) * c ≤ n * c := Nat.mul_le_mul_right c (by omega)
    rw [flows.linked.chain0 k inside, flows'.linked.chain0 k inside]
    omega

theorem Flows.out0_all (flows : Flows n here T) (flows' : Flows n here U) (later : Later T U)
    (bounded : Bounded n c T) {k : Nat} (inside : k < n) :
    (U k).ring_out0.length + injectedFlits n T ≤ (T k).ring_out0.length + injectedFlits n U + n * c := by
  have before := flows.out0_later flows' later bounded inside
  have part := injectedFlits_part later (m := k + 1) (n := n) (by omega)
  have held : (k + 1) * c ≤ n * c := Nat.mul_le_mul_right c (by omega)
  omega

theorem Flows.in1_later (flows : Flows n here T) (flows' : Flows n here U) (later : Later T U)
    (bounded : Bounded n c T) {k : Nat} (inside : k < n) :
    (U k).ring_in1.length + injectedFlits n T ≤ (T k).ring_in1.length + injectedFlits n U + (n + k) * c := by
  induction k with
  | zero =>
    rw [flows.linked.wrap, flows'.linked.wrap, Nat.add_zero]
    exact flows.out0_all flows' later bounded (by omega)
  | succ k ih =>
    have before := ih (by omega)
    have step := bounded.fwd1_later flows flows' later (k := k) (by omega)
    rw [flows.linked.chain1 k inside, flows'.linked.chain1 k inside, ← Nat.add_assoc, Nat.add_mul (n + k), Nat.one_mul]
    omega

theorem Flows.leftFlits_later (flows : Flows n here T) (flows' : Flows n here U) (later : Later T U)
    (bounded : Bounded n c T) :
    leftFlits n U + n * (4 * injectedFlits n T) ≤ leftFlits n T + n * (4 * injectedFlits n U + 6 * (n * c)) := by
  have each : ∀ k ∈ Finset.range n,
      (U k).ring_out0.length + (U k).ring_out1.length + (U k).local_out.length + 4 * injectedFlits n T ≤
        (T k).ring_out0.length + (T k).ring_out1.length + (T k).local_out.length
          + (4 * injectedFlits n U + 6 * (n * c)) := by
    intro k member
    have inside := Finset.mem_range.mp member
    have in0 := flows.in0_later flows' later bounded inside
    have in1 := flows.in1_later flows' later bounded inside
    have out0 := flows.out0_all flows' later bounded inside
    have out1 := bounded.fwd1_later flows flows' later inside
    have out := bounded.local_later flows flows' later inside
    have place : (n + k) * c + c ≤ 2 * (n * c) := by
      rw [← Nat.succ_mul, ← Nat.mul_assoc]
      exact Nat.mul_le_mul_right c (by omega)
    omega
  have all := Finset.sum_le_sum each
  simpa [leftFlits, Finset.sum_add_distrib] using all

end

end

end LowRisc.Debug.Interconnect
