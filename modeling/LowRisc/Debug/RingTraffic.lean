import LowRisc.Debug.Dii
import LowRisc.Lib.Wormhole

/-! The packets on the wires of a debug ring.

Both ring implementations are chains of routers: chain 0 takes the packets of the local ports,
chain 1 carries the packets that ran past the end of chain 0. Here a ring is described by the
flits that have passed each wire of its routers, and by what two neighbouring wires have to do
with each other.
-/

set_option autoImplicit false

namespace LowRisc.Debug.Interconnect

open Lib.Worm

instance twoChains : NeZero 2 := ⟨by decide⟩

structure Traffic where
  local_in : List Flit := []
  ring_in0 : List Flit := []
  ring_in1 : List Flit := []
  ring_fwd0 : List Flit := []
  ring_fwd1 : List Flit := []
  ring_out0 : List Flit := []
  ring_out1 : List Flit := []
  ring_local0 : List Flit := []
  ring_local1 : List Flit := []
  ring_muxed : List Flit := []
  local_muxed : List Flit := []
  local_out : List Flit := []

abbrev packets (wire : List Flit) : List (List Flit) := completed Flit.last wire

abbrev openPacket (wire : List Flit) : List Flit := unfinished Flit.last wire

namespace Traffic

/-- The inputs of the multiplexer into chain 0. -/
def toRing (t : Traffic) : Source → List Flit
  | .ring => t.ring_fwd0
  | .loc => t.local_in

def toLocal (t : Traffic) (chain : Fin 2) : List Flit :=
  if chain = 0 then t.ring_local0 else t.ring_local1

/-- The wires of one router agree: packets for `here` leave at the local port and the others
go on, and both multiplexers let packets pass as a whole. -/
structure Switched (here : Flit → Bool) (owner : Option Source) (localOwner : Option (Fin 2))
    (t : Traffic) : Prop where
  local0 : Routed Flit.last here t.ring_in0 t.ring_local0
  fwd0 : Routed Flit.last (fun f => !here f) t.ring_in0 t.ring_fwd0
  local1 : Routed Flit.last here t.ring_in1 t.ring_local1
  fwd1 : Routed Flit.last (fun f => !here f) t.ring_in1 t.ring_fwd1
  muxed : Merged Flit.last owner t.toRing t.ring_muxed
  localMuxed : Merged Flit.last localOwner t.toLocal t.local_muxed

theorem switched_empty (here : Flit → Bool) : Switched here none none {} where
  local0 := .nil _
  fwd0 := .nil _
  local1 := .nil _
  fwd1 := .nil _
  muxed := .nil fun source => by cases source <;> rfl
  localMuxed := .nil fun chain => by simp [toLocal]

def append (t more : Traffic) : Traffic :=
  { local_in := t.local_in ++ more.local_in
    ring_in0 := t.ring_in0 ++ more.ring_in0
    ring_in1 := t.ring_in1 ++ more.ring_in1
    ring_fwd0 := t.ring_fwd0 ++ more.ring_fwd0
    ring_fwd1 := t.ring_fwd1 ++ more.ring_fwd1
    ring_out0 := t.ring_out0 ++ more.ring_out0
    ring_out1 := t.ring_out1 ++ more.ring_out1
    ring_local0 := t.ring_local0 ++ more.ring_local0
    ring_local1 := t.ring_local1 ++ more.ring_local1
    ring_muxed := t.ring_muxed ++ more.ring_muxed
    local_muxed := t.local_muxed ++ more.local_muxed
    local_out := t.local_out ++ more.local_out }

theorem routed_cycle {p : Flit → Bool} {stream out : List Flit} {turned : Bool} {d : DiiFlit}
    (way : Routed Flit.last p stream out) (follows : turned = headed p (openPacket stream ++ [d.flit]))
    (ready : Bool) :
    Routed Flit.last p (stream ++ d.passed ready) (out ++ if turned then d.passed ready else []) := by
  unfold DiiFlit.passed
  split
  · have next := way.concat d.flit
    rw [← follows] at next
    cases turned <;> simpa using next
  · simpa using way

theorem headed_not (p : Flit → Bool) (part : List Flit) (f : Flit) :
    headed (fun f => !p f) (part ++ [f]) = !headed p (part ++ [f]) := by
  cases part <;> rfl

end Traffic

/-- A multiplexer turns to one input in a cycle: it stays with the owner of an unfinished packet,
and may commit itself to the owner of a flit that has to wait. -/
structure Turns {ι : Type} (owner owner' turned : Option ι) (port : ι → DiiFlit) (ready : Bool) : Prop where
  follows : ∀ i, owner = some i → turned = some i
  moved : ∀ i, turned = some i → ((port i).valid && ready) = true →
    owner' = if (port i).last then none else some i
  stalled : (∀ i, turned = some i → ((port i).valid && ready) = false) →
    owner' = owner ∨ owner = none ∧ ∀ i, owner' = some i → (port i).valid = true

section
variable {ι : Type} {owner owner' turned : Option ι} {port : ι → DiiFlit} {ready : Bool}

/-- Without an owner the multiplexer turns to a valid input and follows it unless the flit shown
is a last one; an owner is left behind its last flit. -/
theorem Turns.of_states (follows : ∀ i, owner = some i → turned = some i)
    (valid : ∀ i, owner = none → turned = some i → (port i).valid = true)
    (free : owner = none → owner' = turned.elim none fun i => if (port i).last then none else some i)
    (worm : ∀ i, owner = some i →
      owner' = if (port i).last && (port i).valid && ready then none else some i) :
    Turns owner owner' turned port ready := by
  constructor
  · exact follows
  · intro i same moves
    cases held : owner with
    | none => rw [free held, same]; rfl
    | some j =>
      obtain rfl : j = i := Option.some.inj ((follows j held).symm.trans same)
      rw [worm j held, Bool.and_assoc, moves, Bool.and_true]
  · intro still
    cases held : owner with
    | none =>
      refine .inr ⟨rfl, fun i next => ?_⟩
      rw [free held] at next
      cases same : turned with
      | none => simp [same] at next
      | some j =>
        simp only [same, Option.elim_some] at next
        split at next
        · cases next
        · cases next
          exact valid _ held same
    | some i =>
      left
      rw [worm i held, Bool.and_assoc, still i (follows i held)]
      simp

theorem Turns.wormStep [DecidableEq ι] (turns : Turns owner owner' turned port ready) :
    WormStep Flit.last owner owner' (fun i => (port i).passed (ready && turned == some i))
      (turned.elim [] fun i => (port i).passed ready) := by
  cases turned with
  | none =>
    refine .wait (fun i => ?_) rfl ((turns.stalled (by simp)).imp_right And.left)
    simp [DiiFlit.passed]
  | some i =>
    cases moves : (port i).valid && ready with
    | false =>
      have still : (port i).passed ready = [] := by simp only [DiiFlit.passed, moves]; rfl
      refine .wait (fun j => ?_) still ((turns.stalled fun j same => ?_).imp_right And.left)
      · by_cases same : i = j
        · subst same
          simpa using still
        · simp [DiiFlit.passed, same]
      · cases same
        exact moves
    | true =>
      have one : (port i).passed ready = [(port i).flit] := by simp only [DiiFlit.passed, moves]; rfl
      refine .pass i (port i).flit ?_ (fun j other => ?_) one ?_ (turns.moved i rfl moves)
      · simpa using one
      · simp [DiiFlit.passed, Ne.symm other]
      · cases held : owner with
        | none => exact .inl rfl
        | some j => exact .inr (turns.follows j held).symm

/-- A worm of `i` is followed after a cycle only where a flit inside its packet has just passed,
or where it was followed before, or where a flit of `i` has to wait. -/
theorem Turns.commits [DecidableEq ι] (turns : Turns owner owner' turned port ready) {i : ι} (held : owner' = some i) :
    (∃ f, (port i).passed (ready && turned == some i) = [f] ∧ f.last = false)
    ∨ ((port i).passed (ready && turned == some i) = [] ∧ (owner = some i ∨ (port i).valid = true)) := by
  by_cases moves : ∃ j, turned = some j ∧ ((port j).valid && ready) = true
  · obtain ⟨j, rfl, moves⟩ := moves
    have next := turns.moved j rfl moves
    rw [held] at next
    cases ends : (port j).last with
    | true => simp [ends] at next
    | false =>
      simp only [ends, Bool.false_eq_true, if_false, Option.some.injEq] at next
      subst next
      left
      exact ⟨(port i).flit, by simp only [beq_self_eq_true, Bool.and_true, DiiFlit.passed, moves]; rfl, ends⟩
  · have still : ∀ j, turned = some j → ((port j).valid && ready) = false := by
      intro j same
      by_contra up
      exact moves ⟨j, same, by simpa using up⟩
    right
    constructor
    · by_cases same : turned = some i
      · simp only [same, beq_self_eq_true, Bool.and_true, DiiFlit.passed, still i same]
        rfl
      · simp [DiiFlit.passed, same]
    · rcases turns.stalled still with same | ⟨-, waits⟩
      · exact .inl (same ▸ held)
      · exact .inr (waits i held)

end

/-- A relation between what has left a link and what has entered it. -/
structure Slack (R : List (List Flit) → List (List Flit) → Prop) : Prop where
  refl : ∀ a, R a a
  trans : ∀ {a b c}, R a b → R b c → R a c
  nil : ∀ {a}, R a [] → a = []
  filter : ∀ {a b} (p : List Flit → Bool), R a b → R (a.filter p) (b.filter p)
  shuffle : ∀ {a b} {ins : Nat → List (List Flit)}, R a b → Shuffle ins b →
    ∃ ins', (∀ s, R (ins' s) (ins s)) ∧ Shuffle ins' a

theorem slack_eq : Slack Eq where
  refl _ := rfl
  trans := Eq.trans
  nil same := same
  filter _ same := by rw [same]
  shuffle same mixed := ⟨_, fun _ => rfl, same ▸ mixed⟩

theorem slack_behind : Slack List.IsPrefix where
  refl := List.prefix_refl
  trans := List.IsPrefix.trans
  nil := List.prefix_nil.mp
  filter p before := before.filter p
  shuffle before mixed := mixed.start before

/-- The wires of neighbouring routers are connected: chain 0 starts empty, and its end is the
start of chain 1. -/
structure Linked (n : Nat) (T : Nat → Traffic) : Prop where
  first : (T 0).ring_in0 = []
  chain0 : ∀ k, k + 1 < n → (T (k + 1)).ring_in0 = (T k).ring_out0
  wrap : (T 0).ring_in1 = (T (n - 1)).ring_out0
  chain1 : ∀ k, k + 1 < n → (T (k + 1)).ring_in1 = (T k).ring_out1

/-- `n` routers in a ring, where `R` relates the two ends of every link. -/
structure Chained (R : List (List Flit) → List (List Flit) → Prop) (n : Nat) (here : Nat → Flit → Bool)
    (T : Nat → Traffic) : Prop where
  positive : 0 < n
  switched : ∀ k, k < n → ∃ owner localOwner, (T k).Switched (here k) owner localOwner
  first : (T 0).ring_in0 = []
  chain0 : ∀ k, k + 1 < n → R (packets (T (k + 1)).ring_in0) (packets (T k).ring_muxed)
  wrap : R (packets (T 0).ring_in1) (packets (T (n - 1)).ring_muxed)
  chain1 : ∀ k, k + 1 < n → R (packets (T (k + 1)).ring_in1) (packets (T k).ring_fwd1)
  out : ∀ k, k < n → R (packets (T k).local_out) (packets (T k).local_muxed)

section
variable {R : List (List Flit) → List (List Flit) → Prop} {n : Nat} {here : Nat → Flit → Bool}
  {T : Nat → Traffic}

def escapes (here : Nat → Flit → Bool) (s k : Nat) (packet : List Flit) : Bool :=
  (List.range k).all fun j => decide (j ≤ s) || headed (fun f => !here j f) packet

def runsPast (here : Nat → Flit → Bool) (k : Nat) (packet : List Flit) : Bool :=
  (List.range k).all fun j => headed (fun f => !here j f) packet

theorem escapes_succ {s k : Nat} (before : s < k) (packet : List Flit) :
    escapes here s (k + 1) packet = (headed (fun f => !here k f) packet && escapes here s k packet) := by
  simp [escapes, List.range_succ, show ¬k ≤ s by omega, Bool.and_comm]

theorem escapes_self (k : Nat) (packet : List Flit) : escapes here k (k + 1) packet = true := by
  simp only [escapes, List.all_eq_true, List.mem_range]
  intro j inside
  simp [show j ≤ k by omega]

theorem runsPast_succ (k : Nat) (packet : List Flit) :
    runsPast here (k + 1) packet = (headed (fun f => !here k f) packet && runsPast here k packet) := by
  simp [runsPast, List.range_succ, Bool.and_comm]

def carried0 (here : Nat → Flit → Bool) (T : Nat → Traffic) (k s : Nat) : List (List Flit) :=
  if s < k then (packets (T s).local_in).filter (escapes here s k) else []

def carried1 (n : Nat) (here : Nat → Flit → Bool) (T : Nat → Traffic) (k s : Nat) : List (List Flit) :=
  if s < n then (packets (T s).local_in).filter fun p => runsPast here k p && escapes here s n p else []

/-- Where a stream holds the packets of each source, up to what is still under way. -/
def Holds (R : List (List Flit) → List (List Flit) → Prop) (expected : Nat → List (List Flit))
    (stream : List (List Flit)) : Prop :=
  ∃ ins, Shuffle ins stream ∧ ∀ s, R (ins s) (expected s)

theorem Holds.link {expected : Nat → List (List Flit)} {a b : List (List Flit)} (slack : Slack R)
    (holds : Holds R expected b) (behind : R a b) : Holds R expected a := by
  obtain ⟨ins, mixed, bound⟩ := holds
  obtain ⟨ins', lag, mixed'⟩ := slack.shuffle behind mixed
  exact ⟨ins', mixed', fun s => slack.trans (lag s) (bound s)⟩

theorem Holds.filter {expected expected' : Nat → List (List Flit)} {stream : List (List Flit)}
    (slack : Slack R) (holds : Holds R expected stream) (p : List Flit → Bool)
    (same : ∀ s, (expected s).filter p = expected' s) : Holds R expected' (stream.filter p) := by
  obtain ⟨ins, mixed, bound⟩ := holds
  exact ⟨_, mixed.filter p, fun s => same s ▸ slack.filter p (bound s)⟩

theorem Chained.muxed (slack : Slack R) (ring : Chained R n here T) {k : Nat} (inside : k < n)
    (arrived : Holds R (carried0 here T k) (packets (T k).ring_in0)) :
    Holds R (carried0 here T (k + 1)) (packets (T k).ring_muxed) := by
  obtain ⟨owner, localOwner, switched⟩ := ring.switched k inside
  have forwarded : Holds R (fun s => if s < k then carried0 here T (k + 1) s else [])
      (packets (T k).ring_fwd0) := by
    rw [packets, switched.fwd0.packets]
    apply arrived.filter slack
    intro s
    by_cases before : s < k
    · simp only [carried0, before, show s < k + 1 by omega, if_true, List.filter_filter]
      exact List.filter_congr fun packet _ => (escapes_succ before packet).symm
    · simp [carried0, before]
  obtain ⟨ins, mixed, bound⟩ := forwarded
  have whole := switched.muxed.packets.merge (a := Source.ring) (b := Source.loc)
    (fun source => by cases source <;> simp) (by decide) mixed (.single k _) (by
      intro s
      by_cases own : k = s
      · subst own
        exact .inl (slack.nil (by simpa using bound k))
      · simp [own])
  refine ⟨_, whole, fun s => ?_⟩
  rcases Nat.lt_trichotomy s k with before | rfl | after
  · simpa [show k ≠ s by omega, before] using bound s
  · have none : ins s = [] := slack.nil (by simpa using bound s)
    have all : carried0 here T (s + 1) s = packets (T s).local_in := by
      simp [carried0, List.filter_eq_self, escapes_self]
    rw [all, none]
    simpa [Traffic.toRing] using slack.refl _
  · have none : ins s = [] := slack.nil (by simpa [show ¬s < k by omega] using bound s)
    simpa [none, carried0, show k ≠ s by omega, show ¬s < k + 1 by omega] using slack.refl _

theorem Chained.arrived0 (slack : Slack R) (ring : Chained R n here T) {k : Nat} (inside : k < n) :
    Holds R (carried0 here T k) (packets (T k).ring_in0) := by
  induction k with
  | zero =>
    rw [ring.first]
    exact ⟨_, .nil, fun s => by simpa [carried0] using slack.refl []⟩
  | succ k ih => exact (ring.muxed slack (by omega) (ih (by omega))).link slack (ring.chain0 k inside)

theorem Chained.arrived1 (slack : Slack R) (ring : Chained R n here T) {k : Nat} (inside : k < n) :
    Holds R (carried1 n here T k) (packets (T k).ring_in1) := by
  induction k with
  | zero =>
    have positive := ring.positive
    have final := ring.muxed slack (k := n - 1) (by omega) (ring.arrived0 slack (by omega))
    have same : carried0 here T (n - 1 + 1) = carried1 n here T 0 := by
      funext s
      simp [carried0, carried1, runsPast, show n - 1 + 1 = n by omega]
    exact (same ▸ final).link slack ring.wrap
  | succ k ih =>
    obtain ⟨owner, localOwner, switched⟩ := ring.switched k (by omega)
    have forwarded : Holds R (carried1 n here T (k + 1)) (packets (T k).ring_fwd1) := by
      rw [packets, switched.fwd1.packets]
      apply (ih (by omega)).filter slack
      intro s
      by_cases before : s < n
      · simp only [carried1, before, if_true, List.filter_filter, runsPast_succ, Bool.and_assoc]
      · simp [carried1, before]
    exact forwarded.link slack (ring.chain1 k inside)

def addressed (n : Nat) (here : Nat → Flit → Bool) (T : Nat → Traffic) (d s : Nat) : List (List Flit) :=
  if s < n then (packets (T s).local_in).filter (headed (here d)) else []

/-- No two routers accept the same header. -/
def Distinct (n : Nat) (here : Nat → Flit → Bool) : Prop :=
  ∀ i j f, i < n → j < n → here i f = true → here j f = true → i = j

theorem headed_elsewhere {d j : Nat} {packet : List Flit} (distinct : Distinct n here) (inside : d < n) (inside' : j < n)
    (other : j ≠ d) (target : headed (here d) packet = true) :
    headed (fun f => !here j f) packet = true := by
  cases packet with
  | nil => cases target
  | cons f rest =>
    rw [headed_cons] at target ⊢
    rw [Bool.not_eq_true', Bool.eq_false_iff]
    intro same
    exact other (distinct j d f inside' inside same target)

theorem not_headed_here {d : Nat} (packet : List Flit) (target : headed (here d) packet = true) :
    headed (fun f => !here d f) packet = false := by
  cases packet with
  | nil => rfl
  | cons f rest =>
    rw [headed_cons] at target ⊢
    simp [target]

/-- The local port of router `d` gives out the packets addressed to it, those of every source in
their order. Packets of a source before `d` come on chain 0, all others on chain 1. -/
theorem Chained.delivered (slack : Slack R) (distinct : Distinct n here) (ring : Chained R n here T)
    {d : Nat} (inside : d < n) :
    Holds R (addressed n here T d) (packets (T d).local_out) := by
  obtain ⟨owner, localOwner, switched⟩ := ring.switched d inside
  -- packets of a source before `d` reach it on chain 0, and no other router takes them
  have direct : Holds R (fun s => if s < d then addressed n here T d s else [])
      (packets (T d).ring_local0) := by
    rw [packets, switched.local0.packets]
    apply (ring.arrived0 slack inside).filter slack
    intro s
    by_cases before : s < d
    · simp only [carried0, addressed, before, show s < n by omega, if_true, List.filter_filter]
      apply List.filter_congr
      intro packet _
      by_cases target : headed (here d) packet = true
      · simp only [target, Bool.true_and, escapes, List.all_eq_true, List.mem_range, Bool.or_eq_true]
        intro j passed
        exact .inr (headed_elsewhere distinct inside (by omega) (by omega) target)
      · simp [target]
    · simp [carried0, before]
  -- those of the others have run past the end of chain 0
  have around : Holds R (fun s => if s < d then [] else addressed n here T d s)
      (packets (T d).ring_local1) := by
    rw [packets, switched.local1.packets]
    apply (ring.arrived1 slack inside).filter slack
    intro s
    by_cases known : s < n
    · simp only [carried1, addressed, known, if_true, List.filter_filter]
      by_cases before : s < d
      · rw [if_pos before, List.filter_eq_nil_iff]
        intro packet _
        simp only [Bool.and_eq_true, not_and, Bool.not_eq_true]
        intro target _
        simp only [escapes, List.all_eq_false, List.mem_range, Bool.or_eq_true, not_or]
        exact ⟨d, inside, by simp; omega, by simp [not_headed_here packet target]⟩
      · rw [if_neg before]
        apply List.filter_congr
        intro packet _
        by_cases target : headed (here d) packet = true
        · simp only [target, Bool.true_and, Bool.and_eq_true, runsPast, escapes, List.all_eq_true,
            List.mem_range, Bool.or_eq_true, decide_eq_true_eq]
          constructor
          · intro j passed
            exact headed_elsewhere distinct inside (by omega) (by omega) target
          · intro j passed
            by_cases early : j ≤ s
            · exact .inl early
            · exact .inr (headed_elsewhere distinct inside passed (by omega) target)
        · simp [target]
    · simp [carried1, addressed, known]
  obtain ⟨ins0, mixed0, bound0⟩ := direct
  obtain ⟨ins1, mixed1, bound1⟩ := around
  have whole := switched.localMuxed.packets.merge (a := 0) (b := 1) (by decide) (by decide) mixed0 mixed1 (by
    intro s
    by_cases before : s < d
    · exact .inr (slack.nil (by simpa [before] using bound1 s))
    · exact .inl (slack.nil (by simpa [before] using bound0 s)))
  have muxed : Holds R (addressed n here T d) (packets (T d).local_muxed) := by
    refine ⟨_, whole, fun s => ?_⟩
    by_cases before : s < d
    · have none : ins1 s = [] := slack.nil (by simpa [before] using bound1 s)
      simpa [before, none] using bound0 s
    · have none : ins0 s = [] := slack.nil (by simpa [before] using bound0 s)
      simpa [before, none] using bound1 s
  exact muxed.link slack (ring.out d inside)

end

end LowRisc.Debug.Interconnect
