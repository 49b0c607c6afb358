import LowRisc.Chisel.Arbiter
import LowRisc.Debug.RingTraffic

/-! The wormhole arbiters `DebugWormholeArbiter` and `DebugWormholeRRArbiter` of the Chisel ring:
a packet multiplexer around a library arbiter. -/

set_option autoImplicit false

namespace LowRisc.Debug.Interconnect

open Lib.Worm Chisel

/-- `chosen` marks the input whose packet is transmitted. -/
structure WormholeArbiter where
  arbiter : HoldArbiter
  chosen : Nat → Bool

namespace WormholeArbiter

section
variable (kind : ArbiterKind) (n : Nat) (w : WormholeArbiter) (ip : Nat → DiiFlit)

def transmitting : Bool := (List.range n).any w.chosen

/-- `arbiter.io.in(i).valid`. -/
def arbiterValid (i : Nat) : Bool := w.chosen i || (!w.transmitting n && (ip i).valid)

def in_ready (out_ready : Bool) (i : Nat) : Bool :=
  w.arbiter.in_ready kind n (w.arbiterValid n ip) out_ready i && w.arbiterValid n ip i

def out : DiiFlit :=
  { ip (w.arbiter.chosen kind n (w.arbiterValid n ip)) with
    valid := (List.range n).any (fun i => (ip i).valid && w.chosen i)
      || (!w.transmitting n && w.arbiter.out_valid kind n (w.arbiterValid n ip)) }

def next (out_ready : Bool) : WormholeArbiter :=
  { arbiter := w.arbiter.next kind n (w.arbiterValid n ip) out_ready
    chosen := fun i =>
      if (ip i).valid && w.in_ready kind n ip out_ready i then !(ip i).last else w.chosen i }

end

def shown (kind : ArbiterKind) (w : WormholeArbiter) (ip : Nat → DiiFlit) : Nat :=
  w.arbiter.chosen kind 2 (w.arbiterValid 2 ip)

/-- The registers of an arbiter with two inputs: one packet at a time, and nothing else is held
while it is transmitted. -/
structure WellFormed (w : WormholeArbiter) : Prop where
  single : ¬(w.chosen 0 = true ∧ w.chosen 1 = true)
  index : w.arbiter.lockIdx < 2
  held : ∀ i, i < 2 → w.chosen i = true → w.arbiter.locked = true → w.arbiter.lockIdx = i

section
variable {ι : Type} (a b : ι)

/-- The name of an input. -/
def label (i : Nat) : ι := if i = 0 then a else b

def owner (w : WormholeArbiter) : Option ι :=
  if w.chosen 0 then some a else if w.chosen 1 then some b else none

/-- The input that fires when the output is ready. -/
def turned (kind : ArbiterKind) (w : WormholeArbiter) (ip : Nat → DiiFlit) : Option ι :=
  if w.arbiterValid 2 ip (w.shown kind ip) then some (label a b (w.shown kind ip)) else none

end

section
variable {kind : ArbiterKind} {w : WormholeArbiter} {ip : Nat → DiiFlit}

theorem transmitting_two (w : WormholeArbiter) : w.transmitting 2 = (w.chosen 0 || w.chosen 1) := by
  simp [transmitting, show List.range 2 = [0, 1] from rfl]

theorem shown_lt_two (wf : w.WellFormed) : w.shown kind ip < 2 := by
  unfold shown HoldArbiter.chosen
  split
  · exact wf.index
  · exact HoldArbiter.choose_lt_two

theorem shown_of_chosen (wf : w.WellFormed) {i : Nat} (inside : i < 2) (busy : w.chosen i = true) :
    w.shown kind ip = i := by
  unfold shown HoldArbiter.chosen
  split
  · rename_i held
    exact wf.held i inside busy held
  · have other : ∀ j, j < 2 → j ≠ i → w.arbiterValid 2 ip j = false := by
      intro j below differ
      have single := wf.single
      have place : i = 0 ∧ j = 1 ∨ i = 1 ∧ j = 0 := by omega
      rcases place with ⟨rfl, rfl⟩ | ⟨rfl, rfl⟩ <;> simp_all [arbiterValid, transmitting_two]
    have own : w.arbiterValid 2 ip i = true := by simp [arbiterValid, busy]
    by_contra differ
    have up : w.arbiterValid 2 ip (w.arbiter.choose kind 2 (w.arbiterValid 2 ip)) = true :=
      HoldArbiter.valid_choose inside own
    rw [other _ HoldArbiter.choose_lt_two differ] at up
    cases up

theorem arbiterValid_free (free : w.transmitting 2 = false) {i : Nat} (inside : i < 2) :
    w.arbiterValid 2 ip i = (ip i).valid := by
  rw [transmitting_two, Bool.or_eq_false_iff] at free
  have place : i = 0 ∨ i = 1 := by omega
  rcases place with rfl | rfl <;> simp [arbiterValid, transmitting_two, free]

theorem in_ready_two (out_ready : Bool) {i : Nat} (inside : i < 2) :
    w.in_ready kind 2 ip out_ready i =
      (out_ready && (w.shown kind ip == i) && w.arbiterValid 2 ip i) := by
  cases up : w.arbiterValid 2 ip i with
  | false => simp [in_ready, up]
  | true =>
    simp only [in_ready, HoldArbiter.in_ready, shown, HoldArbiter.chosen, up, Bool.and_true]
    cases held : w.arbiter.locked with
    | true => simp [Bool.and_comm]
    | false => simp [HoldArbiter.grant_two inside up, Bool.and_comm]

theorem chosen_next (out_ready : Bool) {i : Nat} (inside : i < 2) :
    (w.next kind 2 ip out_ready).chosen i =
      if (ip i).valid && out_ready && (w.shown kind ip == i)
        && w.arbiterValid 2 ip i then !(ip i).last else w.chosen i := by
  simp only [next, in_ready_two out_ready inside, Bool.and_assoc]

theorem chosen_next_of_ne (wf : w.WellFormed) (out_ready : Bool) {i : Nat} (inside : i < 2)
    (other : w.shown kind ip ≠ i) :
    (w.next kind 2 ip out_ready).chosen i = false := by
  rw [chosen_next out_ready inside, if_neg (by simp [other])]
  by_contra busy
  exact other (shown_of_chosen wf inside (by simpa using busy))

theorem WellFormed.next (wf : w.WellFormed) (out_ready : Bool) : (w.next kind 2 ip out_ready).WellFormed := by
  have below : w.shown kind ip < 2 := shown_lt_two wf
  constructor
  · rintro ⟨first, second⟩
    by_cases shown : w.shown kind ip = 0
    · rw [chosen_next_of_ne wf out_ready (by decide) (by omega)] at second
      cases second
    · rw [chosen_next_of_ne wf out_ready (by decide) shown] at first
      cases first
  · simp only [WormholeArbiter.next, HoldArbiter.next]
    split
    · exact below
    · exact wf.index
  · intro i inside busy held
    have shown : w.shown kind ip = i := by
      by_contra other
      rw [chosen_next_of_ne wf out_ready inside other] at busy
      cases busy
    simp only [WormholeArbiter.next, HoldArbiter.next] at held ⊢
    cases locked : w.arbiter.locked with
    | true =>
      simp only [WormholeArbiter.shown, HoldArbiter.chosen, locked, if_true] at shown
      simp [shown]
    | false =>
      rw [locked] at held
      split at held
      · rename_i up
        simpa [up, WormholeArbiter.shown] using shown
      · cases held

/-- An input is held after a cycle only where a flit inside its packet has passed, or where it was
held before, or where a flit of it has to wait. -/
theorem held_next {ready : Bool} {k : Nat} (inside : k < 2)
    (held : (w.next kind 2 ip ready).chosen k = true
      ∨ (w.next kind 2 ip ready).arbiter.locked = true ∧ (w.next kind 2 ip ready).arbiter.lockIdx = k) :
    (∃ f, (ip k).passed (w.in_ready kind 2 ip ready k) = [f] ∧ f.last = false)
    ∨ ((ip k).passed (w.in_ready kind 2 ip ready k) = []
      ∧ ((w.chosen k = true ∨ w.arbiter.locked = true ∧ w.arbiter.lockIdx = k) ∨ (ip k).valid = true)) := by
  cases fires : (ip k).valid && w.in_ready kind 2 ip ready k with
  | true =>
    left
    refine ⟨(ip k).flit, by simp only [DiiFlit.passed, fires]; rfl, ?_⟩
    have taken := (Bool.and_eq_true_iff.mp fires).2
    rw [in_ready_two ready inside] at taken
    simp only [Bool.and_eq_true, beq_iff_eq] at taken
    obtain ⟨⟨rfl, same⟩, up⟩ := taken
    -- the flit that passes is not the last, or the input would be free
    rcases held with busy | ⟨locked, -⟩
    · simp only [next, fires, if_true] at busy
      simpa [DiiFlit.flit] using busy
    -- an arbiter that shows a flit which passes is not locked by it
    · have shows : w.arbiter.out_valid kind 2 (w.arbiterValid 2 ip) = true := by
        rw [HoldArbiter.out_valid, ← shown, same]
        exact up
      simp [next, HoldArbiter.next, shows] at locked
  | false =>
    right
    refine ⟨by simp only [DiiFlit.passed, fires]; rfl, ?_⟩
    rcases held with busy | ⟨locked, index⟩
    · simp only [next, fires] at busy
      exact .inl (.inl busy)
    -- the lock is new only where a flit is shown and has to wait
    · simp only [next, HoldArbiter.next] at locked index
      cases before : w.arbiter.locked with
      | true =>
        simp only [before, Bool.not_true, Bool.and_false, Bool.false_eq_true, if_false] at index
        exact .inl (.inr ⟨rfl, index⟩)
      | false =>
        split at locked
        · rename_i shows
          simp only [before, shows, Bool.not_false, Bool.and_true, if_true] at index
          rw [HoldArbiter.out_valid, index] at shows
          simp only [arbiterValid, Bool.or_eq_true, Bool.and_eq_true] at shows
          rcases shows with busy | ⟨-, up⟩
          · exact .inl (.inl busy)
          · exact .inr up
        · rw [before] at locked
          cases locked

theorem waits_next {ready : Bool} (wf : w.WellFormed) {k : Nat}
    (waits : w.arbiter.locked = true → w.transmitting 2 = false → w.arbiter.lockIdx = k → (ip k).valid = true)
    (locked : (w.next kind 2 ip ready).arbiter.locked = true)
    (free : (w.next kind 2 ip ready).transmitting 2 = false)
    (place : (w.next kind 2 ip ready).arbiter.lockIdx = k) :
    (ip k).valid = true ∧ (ip k).passed (w.in_ready kind 2 ip ready k) = [] := by
  have inside : k < 2 := place ▸ (wf.next ready).index
  -- no packet is under way, so the input holds the arbiter only by its wait
  have idle : (w.next kind 2 ip ready).chosen k = false := by
    rw [transmitting_two, Bool.or_eq_false_iff] at free
    have two : k = 0 ∨ k = 1 := by omega
    rcases two with rfl | rfl
    · exact free.1
    · exact free.2
  rcases held_next inside (.inr ⟨locked, place⟩) with ⟨f, passed, goesOn⟩ | ⟨stays, before⟩
  · unfold DiiFlit.passed at passed
    split at passed
    · rename_i fires
      cases passed
      simp only [next, fires, if_true, Bool.not_eq_false'] at idle
      exact absurd (goesOn.symm.trans idle) (by decide)
    · cases passed
  · have still : ((ip k).valid && w.in_ready kind 2 ip ready k) = false := by
      simpa [DiiFlit.passed] using stays
    simp only [next, still, Bool.false_eq_true, if_false] at idle
    refine ⟨?_, stays⟩
    rcases before with (busy | ⟨held, index⟩) | up
    · rw [idle] at busy
      cases busy
    · have calm : w.transmitting 2 = false := by
        by_contra busy
        obtain ⟨i, below, chosen⟩ : ∃ i, i < 2 ∧ w.chosen i = true := by simpa [transmitting] using busy
        have same := wf.held i below chosen held
        rw [← same, index, idle] at chosen
        cases chosen
      exact waits held calm index
    · exact up

end

section
variable {ι : Type} {a b : ι} {kind : ArbiterKind} {w : WormholeArbiter} {port : ι → DiiFlit}

theorem turned_of_owner (wf : w.WellFormed) {ip : Nat → DiiFlit} {i : ι} (held : w.owner a b = some i) :
    w.turned a b kind ip = some i := by
  unfold owner at held
  split at held
  · rename_i busy
    have shown : w.shown kind ip = 0 := shown_of_chosen wf (by decide) busy
    simpa [turned, shown, arbiterValid, busy, label] using held
  · split at held
    · rename_i busy
      have shown : w.shown kind ip = 1 := shown_of_chosen wf (by decide) busy
      simpa [turned, shown, arbiterValid, busy, label] using held
    · cases held

theorem owner_of_shown {k : Nat} (below : k < 2) {busy : Bool} (own : w.chosen k = busy)
    (other : ∀ j, j < 2 → k ≠ j → w.chosen j = false) :
    w.owner a b = if busy then some (label a b k) else none := by
  have place : k = 0 ∨ k = 1 := by omega
  subst own
  rcases place with rfl | rfl
  · have free := other 1 (by decide) (by decide)
    cases busy : w.chosen 0 <;> simp [owner, busy, free, label]
  · have free := other 0 (by decide) (by decide)
    cases busy : w.chosen 1 <;> simp [owner, busy, free, label]

theorem owner_next_moved (wf : w.WellFormed) {ready : Bool} {i : ι}
    (same : w.turned a b kind (fun k => port (label a b k)) = some i)
    (moves : ((port i).valid && ready) = true) :
    (w.next kind 2 (fun k => port (label a b k)) ready).owner a b =
      if (port i).last then none else some i := by
  unfold turned at same
  split at same
  · rename_i up
    obtain rfl := Option.some.inj same
    have below : w.shown kind (fun k => port (label a b k)) < 2 := shown_lt_two wf
    have own : (w.next kind 2 (fun k => port (label a b k)) ready).chosen
        (w.shown kind fun k => port (label a b k)) = _ := chosen_next ready below
    rw [if_pos (by simp [up, moves])] at own
    rw [owner_of_shown below own fun j inside differ => chosen_next_of_ne wf ready inside differ]
    cases (port _).last <;> rfl
  · cases same

theorem owner_next_stalled {ready : Bool}
    (still : ∀ i, w.turned a b kind (fun k => port (label a b k)) = some i → ((port i).valid && ready) = false) :
    (w.next kind 2 (fun k => port (label a b k)) ready).owner a b = w.owner a b := by
  have kept : ∀ k, k < 2 → (w.next kind 2 (fun k => port (label a b k)) ready).chosen k = w.chosen k := by
    intro k inside
    rw [chosen_next ready inside]
    split
    · rename_i fires
      simp only [Bool.and_eq_true, beq_iff_eq] at fires
      have idle := still (label a b k) (by simp [turned, fires])
      simp [fires] at idle
    · rfl
  simp only [owner, kept 0 (by decide), kept 1 (by decide)]

/-- The arbiter lets packets pass as worms. -/
theorem turns (wf : w.WellFormed) (ready : Bool) :
    Turns (w.owner a b) ((w.next kind 2 (fun k => port (label a b k)) ready).owner a b)
      (w.turned a b kind fun k => port (label a b k)) port ready where
  follows _ held := turned_of_owner wf held
  moved _ same moves := owner_next_moved wf same moves
  stalled still := .inl (owner_next_stalled still)

theorem label_inj (differ : a ≠ b) {j k : Nat} (inside : j < 2) (inside' : k < 2)
    (same : label a b j = label a b k) : j = k := by
  have places : (j = 0 ∨ j = 1) ∧ (k = 0 ∨ k = 1) := by omega
  rcases places with ⟨rfl | rfl, rfl | rfl⟩
  · rfl
  · exact absurd same differ
  · exact absurd same.symm differ
  · rfl

theorem in_ready_label [DecidableEq ι] (differ : a ≠ b) (wf : w.WellFormed) (ready : Bool) {k : Nat}
    (inside : k < 2) :
    w.in_ready kind 2 (fun k => port (label a b k)) ready k =
      (ready && w.turned a b kind (fun k => port (label a b k)) == some (label a b k)) := by
  have below : w.shown kind (fun k => port (label a b k)) < 2 := shown_lt_two wf
  rw [in_ready_two ready inside]
  by_cases own : w.shown kind (fun k => port (label a b k)) = k
  · rw [turned, own]
    cases w.arbiterValid 2 (fun k => port (label a b k)) k <;> simp
  · have other : label a b (w.shown kind fun k => port (label a b k)) ≠ label a b k :=
      fun same => own (label_inj differ below inside same)
    have no : (w.shown kind (fun k => port (label a b k)) == k) = false := by simpa using own
    have no' : (label a b (w.shown kind fun k => port (label a b k)) == label a b k) = false := by
      simpa using other
    unfold turned
    split <;> simp [no, no']

theorem out_valid_of_chosen (wf : w.WellFormed) {ip : Nat → DiiFlit} {k : Nat} (inside : k < 2)
    (busy : w.chosen k = true) : (w.out kind 2 ip).valid = (ip k).valid := by
  have single := wf.single
  have place : k = 0 ∨ k = 1 := by omega
  simp only [out, transmitting_two]
  rcases place with rfl | rfl
  · have free : w.chosen 1 = false := by simpa [busy] using single
    simp [show List.range 2 = [0, 1] from rfl, busy, free]
  · have free : w.chosen 0 = false := by simpa [busy] using single
    simp [show List.range 2 = [0, 1] from rfl, busy, free]

theorem out_valid_of_free {ip : Nat → DiiFlit} (free : w.transmitting 2 = false) :
    (w.out kind 2 ip).valid = w.arbiterValid 2 ip (w.shown kind ip) := by
  have idle := free
  rw [transmitting_two, Bool.or_eq_false_iff] at idle
  simp [out, free, show List.range 2 = [0, 1] from rfl, idle, HoldArbiter.out_valid, shown]

theorem out_passed (wf : w.WellFormed) (ready : Bool) :
    (w.out kind 2 fun k => port (label a b k)).passed ready =
      (w.turned a b kind fun k => port (label a b k)).elim [] fun i => (port i).passed ready := by
  have bits : (w.out kind 2 fun k => port (label a b k)).flit =
      (port (label a b (w.shown kind fun k => port (label a b k)))).flit := rfl
  have below : w.shown kind (fun k => port (label a b k)) < 2 := shown_lt_two wf
  cases busy : w.transmitting 2 with
  | false =>
    have up : w.arbiterValid 2 (fun k => port (label a b k)) _ = _ := arbiterValid_free busy below
    rw [DiiFlit.passed, bits, out_valid_of_free busy, turned]
    cases shows : w.arbiterValid 2 (fun k => port (label a b k)) (w.shown kind fun k => port (label a b k)) with
    | false => simp
    | true =>
      rw [shows] at up
      simp [DiiFlit.passed, ← up]
  | true =>
    obtain ⟨k, inside, chosen⟩ : ∃ k, k < 2 ∧ w.chosen k = true := by
      simpa [transmitting] using busy
    have shows : w.shown kind (fun k => port (label a b k)) = k := shown_of_chosen wf inside chosen
    rw [DiiFlit.passed, bits, out_valid_of_chosen wf inside chosen, turned, shows]
    simp [arbiterValid, chosen, DiiFlit.passed]

theorem wormStep [DecidableEq ι] (kind : ArbiterKind) (a b : ι) (port : ι → DiiFlit) (wf : w.WellFormed)
    (ready : Bool) :
    WormStep Flit.last (w.owner a b) ((w.next kind 2 (fun k => port (label a b k)) ready).owner a b)
      (fun i => (port i).passed (ready && w.turned a b kind (fun k => port (label a b k)) == some i))
      ((w.out kind 2 fun k => port (label a b k)).passed ready) := by
  rw [out_passed wf]
  exact (turns wf ready).wormStep

theorem opens (wf : w.WellFormed) {ready : Bool} {i : ι} [DecidableEq ι]
    (held : (w.next kind 2 (fun k => port (label a b k)) ready).owner a b = some i) :
    (∃ f, (port i).passed (ready && w.turned a b kind (fun k => port (label a b k)) == some i) = [f]
      ∧ f.last = false)
    ∨ ((port i).passed (ready && w.turned a b kind (fun k => port (label a b k)) == some i) = []
      ∧ w.owner a b = some i) := by
  by_cases moves : ∃ j, w.turned a b kind (fun k => port (label a b k)) = some j
      ∧ ((port j).valid && ready) = true
  · rcases (turns wf ready).commits held with passed | ⟨stays, -⟩
    · exact .inl passed
    · obtain ⟨j, same, moves⟩ := moves
      have next := owner_next_moved wf same moves
      rw [held] at next
      split at next
      · cases next
      · cases next
        simp only [Bool.and_eq_true] at moves
        simp [same, moves, DiiFlit.passed] at stays
  · have still : ∀ j, w.turned a b kind (fun k => port (label a b k)) = some j →
        ((port j).valid && ready) = false := by
      intro j same
      by_contra up
      exact moves ⟨j, same, by simpa using up⟩
    have kept := owner_next_stalled still
    rcases (turns wf ready).commits held with passed | ⟨stays, -⟩
    · exact .inl passed
    · exact .inr ⟨stays, kept ▸ held⟩

theorem turned_isSome (wf : w.WellFormed) {ip : Nat → DiiFlit} {k : Nat} (inside : k < 2)
    (up : (ip k).valid = true)
    (waits : w.arbiter.locked = true → w.transmitting 2 = false → (ip w.arbiter.lockIdx).valid = true) :
    ∃ j, j < 2 ∧ w.shown kind ip = j ∧ w.arbiterValid 2 ip j = true := by
  refine ⟨w.shown kind ip, shown_lt_two wf, rfl, ?_⟩
  cases busy : w.transmitting 2 with
  | true =>
    obtain ⟨i, below, chosen⟩ : ∃ i, i < 2 ∧ w.chosen i = true := by simpa [transmitting] using busy
    rw [shown_of_chosen wf below chosen]
    simp [arbiterValid, chosen]
  | false =>
    cases locked : w.arbiter.locked with
    | true =>
      simp only [shown, HoldArbiter.chosen, locked, if_true]
      rw [arbiterValid_free busy wf.index]
      exact waits locked busy
    | false =>
      simp only [shown, HoldArbiter.chosen, locked, Bool.false_eq_true, if_false]
      exact HoldArbiter.valid_choose inside ((arbiterValid_free busy inside).trans up)

end

end WormholeArbiter

end LowRisc.Debug.Interconnect
