import Mathlib.Algebra.GroupWithZero.Nat
import Mathlib.Data.List.Basic
import Mathlib.Data.List.Induction
import Mathlib.Logic.Function.Basic

/-! Streams of packets that are switched as worms.

A stream is a list of flits; a flit marked by `last` ends its packet. A demultiplexer sends
each packet one way, by its first flit, and a multiplexer lets a packet pass as a whole.
-/

set_option autoImplicit false

namespace LowRisc.Lib.Worm

section Streams
variable {α : Type} (last : α → Bool)

/-- The packets that end in a stream, and the flits behind the last of them. -/
def cut (stream : List α) : List (List α) × List α :=
  stream.foldl (fun parts a =>
    if last a then (parts.1 ++ [parts.2 ++ [a]], []) else (parts.1, parts.2 ++ [a])) ([], [])

def completed (stream : List α) : List (List α) := (cut last stream).1

def unfinished (stream : List α) : List α := (cut last stream).2

@[simp] theorem completed_nil : completed last [] = [] := rfl

@[simp] theorem unfinished_nil : unfinished last [] = [] := rfl

@[simp] theorem completed_concat (stream : List α) (a : α) :
    completed last (stream ++ [a]) =
      if last a then completed last stream ++ [unfinished last stream ++ [a]]
      else completed last stream := by
  simp only [completed, unfinished, cut, List.foldl_append, List.foldl_cons, List.foldl_nil]
  split <;> rfl

@[simp] theorem unfinished_concat (stream : List α) (a : α) :
    unfinished last (stream ++ [a]) = if last a then [] else unfinished last stream ++ [a] := by
  simp only [unfinished, cut, List.foldl_append, List.foldl_cons, List.foldl_nil]
  split <;> rfl

theorem completed_mono {first second : List α} (before : first <+: second) :
    completed last first <+: completed last second := by
  obtain ⟨rest, rfl⟩ := before
  induction rest using List.reverseRecOn with
  | nil => simp
  | append_singleton rest a ih =>
    rw [← List.append_assoc, completed_concat]
    split
    · exact ih.trans (List.prefix_append _ _)
    · exact ih

theorem flatten_completed (stream : List α) : (completed last stream).flatten ++ unfinished last stream = stream := by
  induction stream using List.reverseRecOn with
  | nil => rfl
  | append_singleton stream a ih =>
    rw [completed_concat, unfinished_concat]
    split
    · rw [List.flatten_append, List.flatten_singleton, List.append_nil, ← List.append_assoc, ih]
    · rw [← List.append_assoc, ih]

theorem last_of_mem_unfinished {stream : List α} {a : α} (inside : a ∈ unfinished last stream) : last a = false := by
  induction stream using List.reverseRecOn with
  | nil => cases inside
  | append_singleton stream b ih =>
    rw [unfinished_concat] at inside
    split at inside
    · cases inside
    · rename_i more
      rcases List.mem_append.mp inside with before | here
      · exact ih before
      · rw [List.mem_singleton.mp here]
        exact Bool.eq_false_iff.mpr more

/-- A packet has its only last flit at the end. -/
theorem exists_last_of_mem_completed {stream packet : List α} (ended : packet ∈ completed last stream) :
    ∃ body a, packet = body ++ [a] ∧ last a = true ∧ ∀ b ∈ body, last b = false := by
  induction stream using List.reverseRecOn with
  | nil => cases ended
  | append_singleton stream a ih =>
    rw [completed_concat] at ended
    split at ended
    · rename_i ends
      rcases List.mem_append.mp ended with before | here
      · exact ih before
      · exact ⟨_, a, List.mem_singleton.mp here, ends, fun b inside => last_of_mem_unfinished last inside⟩
    · exact ih ended

theorem cut_append_inner (stream : List α) {rest : List α} (inner : ∀ a ∈ rest, last a = false) :
    completed last (stream ++ rest) = completed last stream ∧
      unfinished last (stream ++ rest) = unfinished last stream ++ rest := by
  induction rest using List.reverseRecOn with
  | nil => simp
  | append_singleton rest a ih =>
    have more : last a = false := inner a (by simp)
    obtain ⟨kept, longer⟩ := ih fun b inside => inner b (by simp [inside])
    rw [← List.append_assoc, completed_concat, unfinished_concat, more, if_neg Bool.false_ne_true,
      if_neg Bool.false_ne_true, kept, longer, List.append_assoc]
    exact ⟨rfl, rfl⟩

theorem cut_append_packet (stream : List α) {body : List α} {a : α} (inner : ∀ b ∈ body, last b = false)
    (ends : last a = true) :
    completed last (stream ++ (body ++ [a])) = completed last stream ++ [unfinished last stream ++ (body ++ [a])] ∧
      unfinished last (stream ++ (body ++ [a])) = [] := by
  obtain ⟨kept, longer⟩ := cut_append_inner last stream inner
  rw [← List.append_assoc, completed_concat, unfinished_concat, if_pos ends, if_pos ends, kept, longer,
    List.append_assoc]
  exact ⟨rfl, rfl⟩

/-- Whether the packet, finished or not, starts with a flit that `p` accepts. -/
def headed (p : α → Bool) (packet : List α) : Bool := packet.head?.any p

@[simp] theorem headed_nil (p : α → Bool) : headed p [] = false := rfl

@[simp] theorem headed_cons (p : α → Bool) (a : α) (rest : List α) :
    headed p (a :: rest) = p a := rfl

theorem headed_append (p : α → Bool) {part : List α} (rest : List α) (started : part ≠ []) :
    headed p (part ++ rest) = headed p part := by
  cases part with
  | nil => exact absurd rfl started
  | cons a part => rfl

/-- `out` holds the packets of `stream` that start with a flit accepted by `p`. -/
structure Routed (p : α → Bool) (stream out : List α) : Prop where
  packets : completed last out = (completed last stream).filter (headed p)
  rest : unfinished last out = if headed p (unfinished last stream) then unfinished last stream else []

variable {last}

theorem Routed.nil (p : α → Bool) : Routed last p [] [] := ⟨rfl, rfl⟩

/-- A flit goes where the first flit of its packet went. -/
theorem Routed.concat {p : α → Bool} {stream out : List α} (way : Routed last p stream out) (a : α) :
    Routed last p (stream ++ [a])
      (if headed p (unfinished last stream ++ [a]) then out ++ [a] else out) := by
  have rest := way.rest
  by_cases taken : headed p (unfinished last stream ++ [a]) = true
  · have same : unfinished last out = unfinished last stream := by
      rw [rest]
      split
      · rfl
      · rename_i other
        by_cases started : unfinished last stream = []
        · exact started.symm
        · rw [headed_append p _ started] at taken
          exact absurd taken other
    rw [if_pos taken]
    constructor
    · by_cases ends : last a = true
      · simp [ends, way.packets, same, taken]
      · simp [ends, way.packets]
    · by_cases ends : last a = true
      · simp [ends]
      · simp [ends, same, taken]
  · have other : headed p (unfinished last stream) = false := by
      by_cases started : unfinished last stream = []
      · rw [started, headed_nil]
      · rw [headed_append p _ started] at taken
        exact Bool.eq_false_iff.mpr taken
    rw [other] at rest
    rw [if_neg taken]
    constructor
    · by_cases ends : last a = true
      · simp [ends, way.packets, taken]
      · simp [ends, way.packets]
    · by_cases ends : last a = true
      · simpa [ends] using rest
      · simpa [ends, taken] using rest

theorem Routed.unfinished_source {p : α → Bool} {stream out : List α} (way : Routed last p stream out)
    (started : unfinished last out ≠ []) :
    headed p (unfinished last stream) = true ∧ unfinished last stream ≠ [] := by
  rw [way.rest] at started
  split at started
  · exact ⟨‹_›, started⟩
  · exact absurd rfl started

end Streams

section Shuffles
variable {ι β : Type} [DecidableEq ι]

/-- `out` interleaves the lists of all inputs: some labelling of it gives them back. -/
def Shuffle (ins : ι → List β) (out : List β) : Prop :=
  ∃ labelled : List (ι × β), labelled.map Prod.snd = out
    ∧ ∀ i, (labelled.filter fun entry => entry.1 = i).map Prod.snd = ins i

theorem Shuffle.nil : Shuffle (fun _ : ι => ([] : List β)) [] := ⟨[], rfl, fun _ => rfl⟩

theorem Shuffle.single (i : ι) (out : List β) : Shuffle (fun j => if i = j then out else []) out := by
  refine ⟨out.map fun b => (i, b), ?_, fun j => ?_⟩
  · simp [Function.comp_def]
  · by_cases same : i = j
    · simp [same, List.filter_map, Function.comp_def]
    · simp [same, List.filter_map, Function.comp_def]

theorem Shuffle.concat {ins ins' : ι → List β} {out : List β} (mixed : Shuffle ins out) (i : ι) (b : β)
    (grown : ins' i = ins i ++ [b]) (kept : ∀ j, j ≠ i → ins' j = ins j) : Shuffle ins' (out ++ [b]) := by
  obtain ⟨labelled, erased, projected⟩ := mixed
  refine ⟨labelled ++ [(i, b)], by simp [erased], fun j => ?_⟩
  by_cases same : i = j
  · subst same
    simp [List.filter_append, projected, grown]
  · simp [List.filter_append, projected, same, kept j (Ne.symm same)]

theorem Shuffle.filter {ins : ι → List β} {out : List β} (mixed : Shuffle ins out) (p : β → Bool) :
    Shuffle (fun i => (ins i).filter p) (out.filter p) := by
  obtain ⟨labelled, rfl, projected⟩ := mixed
  refine ⟨labelled.filter fun entry => p entry.2, ?_, fun i => ?_⟩
  · rw [List.filter_map]
    rfl
  · simp only [← projected i, List.filter_map, List.filter_filter]
    congr 1
    apply List.filter_congr
    intro entry _
    simp [Bool.and_comm]

theorem Shuffle.start {ins : ι → List β} {first out : List β} (mixed : Shuffle ins out)
    (before : first <+: out) : ∃ ins', (∀ i, ins' i <+: ins i) ∧ Shuffle ins' first := by
  obtain ⟨labelled, rfl, projected⟩ := mixed
  rw [List.prefix_iff_eq_take] at before
  refine ⟨fun i => ((labelled.take first.length).filter fun entry => entry.1 = i).map Prod.snd,
    fun i => ?_, labelled.take first.length, ?_, fun i => rfl⟩
  · rw [← projected i]
    exact ((List.take_prefix _ _).filter _).map _
  · rw [List.map_take]
    exact before.symm

theorem Shuffle.uncons {ins : ι → List β} {b : β} {out : List β} (mixed : Shuffle ins (b :: out)) :
    ∃ i rest, ins i = b :: rest ∧ Shuffle (fun j => if j = i then rest else ins j) out := by
  obtain ⟨labelled, erased, projected⟩ := mixed
  cases labelled with
  | nil => simp at erased
  | cons entry labelled =>
    obtain ⟨i, b'⟩ := entry
    simp only [List.map_cons, List.cons.injEq] at erased
    obtain ⟨rfl, rfl⟩ := erased
    have first := projected i
    simp only [List.filter_cons, decide_true, if_true, List.map_cons] at first
    refine ⟨i, _, first.symm, labelled, rfl, fun j => ?_⟩
    by_cases same : j = i
    · simp [same]
    · have other := projected j
      rw [List.filter_cons, if_neg (by simpa using Ne.symm same)] at other
      simp [same, other]

theorem Shuffle.cons {ins ins' : ι → List β} {out : List β} (mixed : Shuffle ins out) (i : ι) (b : β)
    (grown : ins' i = b :: ins i) (kept : ∀ j, j ≠ i → ins' j = ins j) : Shuffle ins' (b :: out) := by
  obtain ⟨labelled, erased, projected⟩ := mixed
  refine ⟨(i, b) :: labelled, by simp [erased], fun j => ?_⟩
  by_cases same : i = j
  · subst same
    simp [projected, grown]
  · simp [projected, same, kept j (Ne.symm same)]

theorem Shuffle.merge {κ : Type} [DecidableEq κ] {mid : κ → List β} {a b : κ} {out : List β}
    {insA insB : ι → List β} (mixed : Shuffle mid out) (two : ∀ k, k = a ∨ k = b) (differ : a ≠ b)
    (left : Shuffle insA (mid a)) (right : Shuffle insB (mid b))
    (apart : ∀ i, insA i = [] ∨ insB i = []) : Shuffle (fun i => insA i ++ insB i) out := by
  induction out generalizing mid insA insB with
  | nil =>
    obtain ⟨labelled, erased, projected⟩ := mixed
    rw [List.map_eq_nil_iff] at erased
    subst erased
    obtain ⟨labelledA, erasedA, projectedA⟩ := left
    obtain ⟨labelledB, erasedB, projectedB⟩ := right
    rw [← projected a] at erasedA
    rw [← projected b] at erasedB
    simp only [List.filter_nil, List.map_nil, List.map_eq_nil_iff] at erasedA erasedB
    subst erasedA erasedB
    exact ⟨[], rfl, fun i => by simp [← projectedA, ← projectedB]⟩
  | cons x out ih =>
    obtain ⟨k, rest, first, mixed⟩ := mixed.uncons
    rcases two k with rfl | rfl
    -- the element is of the first half, so the input it comes from is not in the second
    · rw [first] at left
      obtain ⟨i, tail, head, left⟩ := left.uncons
      have free : insB i = [] := (apart i).resolve_left (by simp [head])
      have next := ih mixed (by simpa using left) (by simpa [differ.symm] using right) (by
        intro j
        by_cases same : j = i
        · exact .inr (same ▸ free)
        · simpa [same] using apart j)
      refine next.cons i x ?_ ?_
      · simp [head, free]
      · intro j other
        simp [other]
    · rw [first] at right
      obtain ⟨i, tail, head, right⟩ := right.uncons
      have free : insA i = [] := (apart i).resolve_right (by simp [head])
      have next := ih mixed (by simpa [differ] using left) (by simpa using right) (by
        intro j
        by_cases same : j = i
        · exact .inl (same ▸ free)
        · simpa [same] using apart j)
      refine next.cons i x ?_ ?_
      · simp [head, free]
      · intro j other
        simp [other]

end Shuffles

section Worms
variable {ι α : Type} [DecidableEq ι] (last : α → Bool)

/-- Whole packets of the inputs have passed; behind them at most the worm of the owner. -/
structure Merged (owner : Option ι) (ins : ι → List α) (out : List α) : Prop where
  packets : Shuffle (fun i => completed last (ins i)) (completed last out)
  others : ∀ i, owner ≠ some i → unfinished last (ins i) = []
  worm : ∀ i, owner = some i → unfinished last out = unfinished last (ins i)
  free : owner = none → unfinished last out = []

/-- What a packet multiplexer may do in a cycle: let one flit of the owner pass, or wait and
at most commit itself to an owner. -/
inductive WormStep (owner owner' : Option ι) (moved : ι → List α) (sent : List α) : Prop where
  | wait : (∀ i, moved i = []) → sent = [] → owner' = owner ∨ owner = none →
      WormStep owner owner' moved sent
  | pass (i : ι) (a : α) : moved i = [a] → (∀ j, j ≠ i → moved j = []) → sent = [a] →
      owner = none ∨ owner = some i → owner' = (if last a then none else some i) →
      WormStep owner owner' moved sent

variable {last}

theorem Merged.nil {ins : ι → List α} (empty : ∀ i, ins i = []) : Merged last none ins [] where
  packets := by simpa [empty] using Shuffle.nil
  others := by simp [empty]
  worm := by simp
  free := by simp

theorem Merged.step {owner owner' : Option ι} {ins moved : ι → List α} {out sent : List α}
    (merged : Merged last owner ins out) (cycle : WormStep last owner owner' moved sent) :
    Merged last owner' (fun i => ins i ++ moved i) (out ++ sent) := by
  cases cycle with
  -- a multiplexer that is free may commit itself, but no worm is cut by that
  | wait still none commit =>
    subst none
    simp only [still, List.append_nil]
    rcases commit with rfl | rfl
    · exact merged
    · refine ⟨merged.packets, fun i _ => merged.others i (by simp), fun i _ => ?_, fun _ => merged.free rfl⟩
      rw [merged.free rfl, merged.others i (by simp)]
  | pass i a own others only turned next =>
    subst only next
    -- the worm under way is the one of the input that moves, or there is none
    have same : unfinished last out = unfinished last (ins i) := by
      rcases turned with rfl | rfl
      · rw [merged.free rfl, merged.others i (by simp)]
      · exact merged.worm i rfl
    have rest : ∀ j, j ≠ i → unfinished last (ins j) = [] := by
      intro j other
      apply merged.others
      rcases turned with rfl | rfl
      · simp
      · simpa using Ne.symm other
    constructor
    -- a last flit completes a packet, any other one only lengthens the worm
    · by_cases ends : last a = true
      · simp only [completed_concat, ends, if_true]
        apply merged.packets.concat i
        · simp [own, ends, same]
        · intro j other
          simp [others j other]
      · have kept : (fun j => completed last (ins j ++ moved j)) = fun j => completed last (ins j) := by
          funext j
          by_cases self : j = i
          · simp [self, own, ends]
          · simp [others j self]
        simpa [ends, kept] using merged.packets
    · intro j free
      by_cases self : j = i
      · subst self
        have ends : last a = true := by
          by_contra notLast
          exact free (by simp [notLast])
        simp [own, ends]
      · simp [others j self, rest j self]
    · intro j worm
      by_cases ends : last a = true
      · simp [ends] at worm
      · simp only [ends, Bool.false_eq_true, if_false, Option.some.injEq] at worm
        subst worm
        simp [own, ends, same]
    · intro free
      by_cases ends : last a = true
      · simp [ends]
      · simp [ends] at free

end Worms

end LowRisc.Lib.Worm
