import Mathlib.Algebra.GroupWithZero.Nat
import Mathlib.Data.List.Basic

/-! The Chisel library `Queue` without `pipe` and `flow`, and the list it implements. -/

set_option autoImplicit false

namespace LowRisc.Chisel

structure Queue (α : Type) where
  ram : Nat → α
  enq_ptr : Nat
  deq_ptr : Nat
  maybe_full : Bool

namespace Queue

variable {α : Type}

def ptr_match (q : Queue α) : Bool := q.enq_ptr == q.deq_ptr
def empty (q : Queue α) : Bool := q.ptr_match && !q.maybe_full
def full (q : Queue α) : Bool := q.ptr_match && q.maybe_full

def enq_ready (q : Queue α) : Bool := !q.full
def deq_valid (q : Queue α) : Bool := !q.empty
def deq_bits (q : Queue α) : α := q.ram q.deq_ptr

/-- `Counter.inc`: also a power of two wraps by its width. -/
def inc (entries value : Nat) : Nat := if value = entries - 1 then 0 else value + 1

def next (entries : Nat) (q : Queue α) (enq_valid : Bool) (enq_bits : α) (deq_ready : Bool) : Queue α :=
  let do_enq := q.enq_ready && enq_valid
  let do_deq := deq_ready && q.deq_valid
  { ram := fun i => if do_enq && i == q.enq_ptr then enq_bits else q.ram i
    enq_ptr := if do_enq then inc entries q.enq_ptr else q.enq_ptr
    deq_ptr := if do_deq then inc entries q.deq_ptr else q.deq_ptr
    maybe_full := if do_enq != do_deq then do_enq else q.maybe_full }

/-- Position `i` of the queue that starts at `deq_ptr`. -/
def place (entries start i : Nat) : Nat := if start + i < entries then start + i else start + i - entries

structure Contains (entries : Nat) (q : Queue α) (list : List α) : Prop where
  bound : list.length ≤ entries
  start : q.deq_ptr < entries
  stop : q.enq_ptr = place entries q.deq_ptr list.length
  matched : q.ptr_match = true → q.maybe_full = decide (list.length = entries)
  entry : ∀ i a, list[i]? = some a → q.ram (place entries q.deq_ptr i) = a

section
variable {entries : Nat} {q : Queue α} {list : List α}

theorem place_eq_start_iff {start k : Nat} (inside : start < entries) (bound : k ≤ entries) :
    place entries start k = start ↔ k = 0 ∨ k = entries := by
  unfold place
  split <;> omega

theorem Contains.match_iff (holds : q.Contains entries list) :
    q.ptr_match = true ↔ list.length = 0 ∨ list.length = entries := by
  rw [ptr_match, beq_iff_eq, holds.stop]
  exact place_eq_start_iff holds.start holds.bound

theorem Contains.full_eq (holds : q.Contains entries list) :
    q.full = decide (list.length = entries) := by
  cases same : q.ptr_match with
  | true => simp [full, same, holds.matched same]
  | false =>
    have differ : ¬list.length = entries := fun eq => by
      rw [holds.match_iff.mpr (.inr eq)] at same
      cases same
    simp [full, same, differ]

theorem Contains.empty_eq (positive : 0 < entries) (holds : q.Contains entries list) :
    q.empty = decide (list.length = 0) := by
  cases same : q.ptr_match with
  | true =>
    have ends := holds.match_iff.mp same
    by_cases none : list.length = 0
    · simp [empty, same, holds.matched same, none]
      omega
    · have all : list.length = entries := ends.resolve_left none
      simp [empty, same, holds.matched same, all]
      omega
  | false =>
    have differ : ¬list.length = 0 := fun eq => by
      rw [holds.match_iff.mpr (.inl eq)] at same
      cases same
    simp [empty, same, differ]

theorem Contains.deq_bits_eq {a : α} {rest : List α} (holds : q.Contains entries (a :: rest)) :
    q.deq_bits = a := by
  have first := holds.entry 0 a rfl
  have start := holds.start
  simpa [place, start, deq_bits] using first

theorem inc_place {start k : Nat} (inside : start < entries) (room : k < entries) :
    inc entries (place entries start k) = place entries start (k + 1) := by
  simp only [inc, place]
  repeat' split
  all_goals omega

theorem place_inc {start k : Nat} (inside : start < entries) (room : k < entries) :
    place entries (inc entries start) k = place entries start (k + 1) := by
  simp only [inc, place]
  repeat' split
  all_goals omega

theorem inc_lt {value : Nat} (inside : value < entries) : inc entries value < entries := by
  unfold inc
  split <;> omega

theorem place_ne {start i k : Nat} (below : i < k) (room : k < entries) :
    place entries start i ≠ place entries start k := by
  simp only [place]
  repeat' split
  all_goals omega

theorem Contains.room (holds : q.Contains entries list) {enq_valid : Bool}
    (push : (q.enq_ready && enq_valid) = true) : list.length < entries := by
  have bound := holds.bound
  simp only [enq_ready, holds.full_eq, Bool.and_eq_true, Bool.not_eq_true', decide_eq_false_iff_not] at push
  omega

theorem Contains.nonempty (positive : 0 < entries) (holds : q.Contains entries list) {deq_ready : Bool}
    (pop : (deq_ready && q.deq_valid) = true) : ∃ a rest, list = a :: rest := by
  simp only [deq_valid, holds.empty_eq positive, Bool.and_eq_true, Bool.not_eq_true',
    decide_eq_false_iff_not] at pop
  cases list with
  | nil => exact absurd rfl pop.2
  | cons a rest => exact ⟨a, rest, rfl⟩

theorem Contains.entry_next (holds : q.Contains entries list) (enq_valid : Bool) (enq_bits : α)
    (deq_ready : Bool) {i : Nat} {a : α}
    (found : (list ++ if q.enq_ready && enq_valid then [enq_bits] else [])[i]? = some a) :
    (q.next entries enq_valid enq_bits deq_ready).ram (place entries q.deq_ptr i) = a := by
  cases push : q.enq_ready && enq_valid with
  | false =>
    simp only [push, Bool.false_eq_true, if_false, List.append_nil] at found
    simp only [Queue.next, push, Bool.false_and, Bool.false_eq_true, if_false]
    exact holds.entry i a found
  | true =>
    simp only [push, if_true] at found
    have room := holds.room push
    simp only [Queue.next, push, Bool.true_and, beq_iff_eq, holds.stop]
    by_cases old : i < list.length
    · rw [List.getElem?_append_left old] at found
      rw [if_neg (place_ne old room)]
      exact holds.entry i a found
    · rw [List.getElem?_append_right (by omega)] at found
      have tail : i = list.length := by
        by_contra differ
        rw [List.getElem?_singleton, if_neg (by omega)] at found
        cases found
      subst tail
      simpa using found

theorem Contains.next (positive : 0 < entries) (holds : q.Contains entries list) (enq_valid : Bool)
    (enq_bits : α) (deq_ready : Bool) :
    (q.next entries enq_valid enq_bits deq_ready).Contains entries
      ((if deq_ready && q.deq_valid then list.tail else list)
        ++ if q.enq_ready && enq_valid then [enq_bits] else []) := by
  have bound := holds.bound
  have start := holds.start
  have entry : ∀ i a, _ → _ := fun i a => holds.entry_next enq_valid enq_bits deq_ready (i := i) (a := a)
  cases pop : deq_ready && q.deq_valid with
  | false =>
    cases push : q.enq_ready && enq_valid with
    | false =>
      simp only [push] at entry
      exact ⟨by simpa using bound, by simpa [Queue.next, pop] using start,
        by simpa [Queue.next, pop, push] using holds.stop,
        by simpa [Queue.next, pop, push, ptr_match] using holds.matched,
        by simpa [Queue.next, pop] using entry⟩
    | true =>
      have room := holds.room push
      simp only [push] at entry
      refine ⟨by simpa using Nat.succ_le_of_lt room, by simpa [Queue.next, pop] using start, ?_, ?_,
        by simpa [Queue.next, pop] using entry⟩
      · simp [Queue.next, pop, push, holds.stop, inc_place start room]
      · simp only [Queue.next, pop, push, ptr_match, holds.stop, inc_place start room]
        intro same
        simp only [if_true, Bool.false_eq_true, if_false, beq_iff_eq] at same
        have all := (place_eq_start_iff start (show list.length + 1 ≤ entries by omega)).mp same
        simp
        omega
  | true =>
    obtain ⟨a, rest, rfl⟩ := holds.nonempty positive pop
    simp only [List.length_cons] at bound
    have shifted : ∀ i b, (rest ++ if q.enq_ready && enq_valid then [enq_bits] else [])[i]? = some b →
        (q.next entries enq_valid enq_bits deq_ready).ram (place entries (inc entries q.deq_ptr) i) = b := by
      intro i b found
      have small : i < entries := by
        have inside := (List.getElem?_eq_some_iff.mp found).1
        split at inside
        · rename_i push
          have room := holds.room push
          simp at inside room
          omega
        · simp at inside
          omega
      rw [place_inc start small]
      exact entry (i + 1) b (by simpa using found)
    cases push : q.enq_ready && enq_valid with
    | false =>
      simp only [push] at shifted
      refine ⟨by simp; omega, by simpa [Queue.next, pop] using inc_lt start, ?_, ?_,
        by simpa [Queue.next, pop] using shifted⟩
      · simp [Queue.next, pop, push, holds.stop, place_inc start (show rest.length < entries by omega)]
      · simp only [Queue.next, pop, push]
        intro _
        simp
        omega
    | true =>
      have room := holds.room push
      simp only [List.length_cons] at room
      simp only [push] at shifted
      refine ⟨by simp; omega, by simpa [Queue.next, pop] using inc_lt start, ?_, ?_,
        by simpa [Queue.next, pop] using shifted⟩
      · simp [Queue.next, pop, push, holds.stop, inc_place start room, place_inc start room]
      · -- between empty and full the pointers differ
        simp only [Queue.next, pop, push, ptr_match, holds.stop]
        intro same
        simp only [if_true, beq_iff_eq] at same
        rw [List.length_cons, inc_place start room, ← place_inc start room] at same
        have ends := (place_eq_start_iff (inc_lt start) (by omega)).mp same
        omega

end

end Queue

end LowRisc.Chisel
