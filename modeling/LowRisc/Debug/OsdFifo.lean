import Mathlib.Algebra.GroupWithZero.Nat
import Mathlib.Data.List.Basic

/-! The shift register FIFO `osd_fifo` and the queue it implements. -/

set_option autoImplicit false

namespace LowRisc.Debug

/-- The write pointer is one-hot: bit `n` is set when `n` entries are used. -/
structure OsdFifo (depth : Nat) (α : Type) where
  fifo_data : Nat → α
  fifo_write_ptr : BitVec (depth + 1)

namespace OsdFifo

variable {depth : Nat} {α : Type}

def out_data (f : OsdFifo depth α) : α := f.fifo_data 0
def out_valid (f : OsdFifo depth α) : Bool := !f.fifo_write_ptr.getLsbD 0
def in_ready (f : OsdFifo depth α) : Bool := !f.fifo_write_ptr.getLsbD depth

def next (f : OsdFifo depth α) (in_data : α) (in_valid out_ready : Bool) : OsdFifo depth α :=
  let pop := f.out_valid && out_ready
  let push := in_valid && f.in_ready
  { fifo_write_ptr :=
      if push && !pop then f.fifo_write_ptr <<< 1
      else if !push && pop then f.fifo_write_ptr >>> 1
      else f.fifo_write_ptr
    fifo_data := fun i =>
      if pop then
        if push && f.fifo_write_ptr.getLsbD (i + 1) then in_data
        else if i < depth - 1 then f.fifo_data (i + 1)
        else f.fifo_data i
      else if push && f.fifo_write_ptr.getLsbD i then in_data
      else f.fifo_data i }

structure Contains (f : OsdFifo depth α) (queue : List α) : Prop where
  bound : queue.length ≤ depth
  ptr : f.fifo_write_ptr = BitVec.twoPow (depth + 1) queue.length
  entry : ∀ i (inside : i < queue.length), f.fifo_data i = queue[i]

def queueNext (queue : List α) (in_data : α) (push pop : Bool) : List α :=
  (if pop then queue.tail else queue) ++ if push then [in_data] else []

section
variable {f : OsdFifo depth α} {queue : List α}

theorem Contains.in_ready_eq (holds : f.Contains queue) : f.in_ready = decide (queue.length < depth) := by
  have := holds.bound
  rw [in_ready, holds.ptr, BitVec.getLsbD_twoPow]
  by_cases full : queue.length = depth
  · simp [full]
  · simp [full, show queue.length < depth by omega]

theorem Contains.out_valid_eq (holds : f.Contains queue) : f.out_valid = !queue.isEmpty := by
  have := holds.bound
  rw [out_valid, holds.ptr, BitVec.getLsbD_twoPow]
  cases queue with
  | nil => simp
  | cons a rest => simp

theorem Contains.out_data_eq {a : α} {rest : List α} (holds : f.Contains (a :: rest)) : f.out_data = a :=
  holds.entry 0 (by simp)

theorem twoPow_shiftLeft_one (w n : Nat) : BitVec.twoPow w n <<< 1 = BitVec.twoPow w (n + 1) := by
  apply BitVec.eq_of_getLsbD_eq
  intro i inside
  rw [BitVec.getLsbD_shiftLeft, BitVec.getLsbD_twoPow, BitVec.getLsbD_twoPow]
  by_cases zero : i = 0
  · simp [zero]
  · by_cases next : n + 1 = i
    · subst next
      simp [inside, show n < w by omega]
    · simp [next, show n ≠ i - 1 by omega]

theorem twoPow_shiftRight_one {w n : Nat} (inside : n + 1 < w) :
    BitVec.twoPow w (n + 1) >>> 1 = BitVec.twoPow w n := by
  apply BitVec.eq_of_getLsbD_eq
  intro i _
  rw [BitVec.getLsbD_ushiftRight, BitVec.getLsbD_twoPow, BitVec.getLsbD_twoPow]
  by_cases same : n = i
  · subst same
    simp [show n < w by omega, inside, Nat.add_comm 1 n]
  · simp [same, show n + 1 ≠ 1 + i by omega]

theorem exists_cons_of_pop {out_ready : Bool} (holds : f.Contains queue)
    (pop : (f.out_valid && out_ready) = true) : ∃ a rest, queue = a :: rest := by
  rw [holds.out_valid_eq] at pop
  cases queue with
  | nil => simp at pop
  | cons a rest => exact ⟨a, rest, rfl⟩

theorem room_of_push {in_valid : Bool} (holds : f.Contains queue)
    (push : (in_valid && f.in_ready) = true) : queue.length < depth := by
  rw [holds.in_ready_eq, Bool.and_eq_true] at push
  exact of_decide_eq_true push.2

theorem Contains.next (holds : f.Contains queue) (in_data : α) (in_valid out_ready : Bool) :
    (f.next in_data in_valid out_ready).Contains
      (queueNext queue in_data (in_valid && f.in_ready) (f.out_valid && out_ready)) := by
  have bound := holds.bound
  cases push : in_valid && f.in_ready <;> cases pop : f.out_valid && out_ready <;>
    simp only [queueNext, Bool.false_eq_true, if_false, if_true, List.append_nil]
  -- nothing moves
  · refine ⟨bound, ?_, fun i inside => ?_⟩
    · simp [OsdFifo.next, push, pop, holds.ptr]
    · simp [OsdFifo.next, push, pop, holds.entry i inside]
  -- only out
  · obtain ⟨a, rest, rfl⟩ : ∃ a rest, queue = a :: rest := exists_cons_of_pop holds pop
    simp only [List.length_cons] at bound
    refine ⟨by simp; omega, ?_, fun i inside => ?_⟩
    · simp only [OsdFifo.next, push, pop, holds.ptr]
      simpa using twoPow_shiftRight_one (by omega)
    · simp only [List.tail_cons] at inside ⊢
      have kept := holds.entry (i + 1) (by simp; omega)
      simpa [OsdFifo.next, push, pop, show i < depth - 1 by omega] using kept
  -- only in
  · have room : queue.length < depth := room_of_push holds push
    refine ⟨by simp; omega, ?_, fun i inside => ?_⟩
    · simp only [OsdFifo.next, push, pop, holds.ptr]
      simpa using twoPow_shiftLeft_one _ _
    · simp only [List.length_append, List.length_singleton] at inside
      by_cases old : i < queue.length
      · have kept := holds.entry i old
        have other : queue.length ≠ i := by omega
        simp [OsdFifo.next, push, pop, holds.ptr, BitVec.getLsbD_twoPow, other, kept, old]
      · have tail : i = queue.length := by omega
        subst tail
        simp [OsdFifo.next, push, pop, holds.ptr, BitVec.getLsbD_twoPow]
        omega
  -- in and out
  · obtain ⟨a, rest, rfl⟩ : ∃ a rest, queue = a :: rest := exists_cons_of_pop holds pop
    simp only [List.length_cons] at bound
    refine ⟨by simp; omega, ?_, fun i inside => ?_⟩
    · simp [OsdFifo.next, push, pop, holds.ptr]
    · simp only [List.tail_cons, List.length_append, List.length_singleton] at inside ⊢
      by_cases old : i < rest.length
      · have kept := holds.entry (i + 1) (by simp; omega)
        have other : rest.length ≠ i := by omega
        have more : i < depth - 1 := by omega
        simp only [OsdFifo.next, push, pop, holds.ptr, BitVec.getLsbD_twoPow]
        simpa [other, old, more] using kept
      · have tail : i = rest.length := by omega
        subst tail
        simp only [OsdFifo.next, push, pop, holds.ptr, BitVec.getLsbD_twoPow]
        simp
        omega

end

end OsdFifo

end LowRisc.Debug
