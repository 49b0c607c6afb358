import LowRisc.Chisel.Vec
import Mathlib.Data.List.GetD

/-! The buffer between two widths of the debug memory converter. -/

set_option autoImplicit false

namespace LowRisc.Debug

open LowRisc.Chisel

/-- Lanes of `dw` bits, the first `wp` of them in use. -/
structure SerDesBuffer (dw size : Nat) where
  wp : Nat
  buffer : BitVec (size * dw)

namespace SerDesBuffer

variable {dw size ipw : Nat} (m : SerDesBuffer dw size)

def pointerWidth (size : Nat) : Nat := log2Up size + 1

def in_ready (ipw : Nat) : Bool := decide ((m.wp + ipw) % 2 ^ pointerWidth size ≤ size)

def out_valid (out_size : Nat) : Bool := decide (out_size ≠ 0) && decide (out_size ≤ m.wp)

def out_bits (opw : Nat) : BitVec (opw * dw) := m.buffer.setWidth (opw * dw)

def taken (input : Option (BitVec (ipw * dw))) : Option (BitVec (ipw * dw)) := input.filter fun _ => m.in_ready ipw

def outFire (out_ready : Bool) (out_size : Nat) : Bool := m.out_valid out_size && out_ready

def wp_w (input : Option (BitVec (ipw * dw))) (in_size : Nat) : Nat :=
  if (m.taken input).isSome then (m.wp + in_size) % 2 ^ pointerWidth size else m.wp

def buffer_w (input : Option (BitVec (ipw * dw))) (in_size : Nat) : BitVec ((size + ipw) * dw) :=
  match m.taken input with
  | some x => (x &&& laneMask ipw dw in_size).setWidth _ <<< (m.wp * dw) ||| m.buffer.setWidth _
  | none => m.buffer.setWidth _

def next (input : Option (BitVec (ipw * dw))) (in_size : Nat) (out_ready : Bool) (out_size : Nat) : SerDesBuffer dw size where
  wp :=
    if m.outFire out_ready out_size then (m.wp_w input in_size + 2 ^ pointerWidth size - out_size) % 2 ^ pointerWidth size
    else m.wp_w input in_size
  buffer :=
    (m.buffer_w input in_size).setWidth (size * dw) >>> ((if m.outFire out_ready out_size then out_size else 0) * dw)

structure Contains (l : List (BitVec dw)) (m : SerDesBuffer dw size) : Prop where
  wp : m.wp = l.length
  fits : l.length ≤ size
  buffer : m.buffer = toBits size fun i => l.getD i 0

variable {m} {l : List (BitVec dw)}

theorem contains_nil (wp : m.wp = 0) (buffer : m.buffer = 0) : Contains [] m where
  wp := wp
  fits := Nat.zero_le _
  buffer := by
    rw [buffer]
    apply BitVec.eq_of_getLsbD_eq
    intro j inside
    simp [getLsbD_toBits]

theorem size_lt (size : Nat) : size < 2 ^ pointerWidth size := by
  have room := le_two_pow_log2Up size
  have positive := Nat.two_pow_pos (log2Up size)
  rw [pointerWidth, Nat.pow_succ]
  omega

theorem roomy_of_lt (narrow : ipw < size) : size + ipw < 2 ^ pointerWidth size := by
  have room := le_two_pow_log2Up size
  rw [pointerWidth, Nat.pow_succ]
  omega

/-- The sum of the pointer and the width of the input does not wrap. -/
theorem Contains.in_ready_eq (contains : Contains l m) (roomy : size + ipw < 2 ^ pointerWidth size) :
    m.in_ready ipw = decide (l.length + ipw ≤ size) := by
  have fits := contains.fits
  rw [in_ready, contains.wp, Nat.mod_eq_of_lt (by omega)]

theorem Contains.out_valid_iff (contains : Contains l m) {n : Nat} : m.out_valid n = true ↔ 0 < n ∧ n ≤ l.length := by
  rw [out_valid, contains.wp, Bool.and_eq_true, decide_eq_true_eq, decide_eq_true_eq, Nat.pos_iff_ne_zero]

theorem Contains.lane_out (contains : Contains l m) {opw i : Nat} (inside : i < opw) (stored : i < l.length) :
    lane dw (m.out_bits opw) i = l.getD i 0 := by
  rw [out_bits, contains.buffer]
  by_cases narrow : opw ≤ size
  · rw [setWidth_toBits_le _ narrow, lane_toBits _ inside]
  · rw [setWidth_toBits_any, lane_toBits _ inside, if_pos (Nat.lt_of_lt_of_le stored contains.fits)]

def lanes (dw : Nat) {n : Nat} (x : BitVec n) (count : Nat) : List (BitVec dw) := (List.range count).map (lane dw x)

@[simp] theorem length_lanes {n : Nat} (x : BitVec n) (count : Nat) : (lanes dw x count).length = count := by
  rw [lanes, List.length_map, List.length_range]

theorem Contains.lanes_out (contains : Contains l m) {opw n : Nat} (narrow : n ≤ opw) (stored : n ≤ l.length) :
    lanes dw (m.out_bits opw) n = l.take n := by
  apply List.ext_getElem
  · rw [length_lanes, List.length_take, Nat.min_eq_left stored]
  · intro i inside _
    rw [length_lanes] at inside
    simp only [lanes, List.getElem_map, List.getElem_range, List.getElem_take]
    rw [contains.lane_out (by omega) (by omega), List.getD_eq_getElem _ _ (by omega)]

def pushed (m : SerDesBuffer dw size) (input : Option (BitVec (ipw * dw))) (in_size : Nat) : List (BitVec dw) :=
  match m.taken input with
  | some x => lanes dw x in_size
  | none => []

theorem Contains.pushed_fits (contains : Contains l m) (roomy : size + ipw < 2 ^ pointerWidth size) (input : Option (BitVec (ipw * dw)))
    {in_size : Nat} (small : (m.taken input).isSome → in_size ≤ ipw) : (l ++ m.pushed input in_size).length ≤ size := by
  have fits := contains.fits
  rw [List.length_append, pushed]
  cases took : m.taken input with
  | none => simpa using fits
  | some x =>
    have ready : m.in_ready ipw = true := (Option.filter_eq_some_iff.mp took).2
    rw [contains.in_ready_eq roomy, decide_eq_true_eq] at ready
    have below := small (by rw [took]; rfl)
    rw [length_lanes]
    omega

theorem Contains.wp_w_eq (contains : Contains l m) (roomy : size + ipw < 2 ^ pointerWidth size) (input : Option (BitVec (ipw * dw)))
    {in_size : Nat} (small : (m.taken input).isSome → in_size ≤ ipw) : m.wp_w input in_size = (l ++ m.pushed input in_size).length := by
  have room := size_lt size
  have fits := contains.pushed_fits roomy input small
  rw [List.length_append, pushed] at fits ⊢
  rw [wp_w, contains.wp]
  cases took : m.taken input with
  | none => simp
  | some x =>
    rw [took, length_lanes] at fits
    simp only [Option.isSome_some, ↓reduceIte, length_lanes]
    rw [Nat.mod_eq_of_lt (by omega)]

theorem Contains.buffer_w_eq (contains : Contains l m) {input : Option (BitVec (ipw * dw))} {in_size : Nat}
    (small : (m.taken input).isSome → in_size ≤ ipw) :
    (m.buffer_w input in_size).setWidth (size * dw) = toBits size fun i => (l ++ m.pushed input in_size).getD i 0 := by
  have fits := contains.fits
  rw [buffer_w, pushed]
  cases took : m.taken input with
  | none =>
    simp only [contains.buffer, List.append_nil]
    rw [setWidth_toBits_any, setWidth_toBits_le _ (Nat.le_add_right size ipw)]
    apply toBits_congr
    intro i inside
    rw [if_pos inside]
  | some x =>
    have below := small (by rw [took]; rfl)
    simp only [contains.buffer, contains.wp]
    rw [← toBits_lane x, toBits_and_mask, setWidth_toBits_any, toBits_shiftLeft,
      setWidth_toBits_any, toBits_or, setWidth_toBits_le _ (Nat.le_add_right size ipw)]
    apply toBits_congr
    intro i inside
    rw [if_pos inside]
    by_cases old : i < l.length
    · rw [if_pos old, List.getD_append _ _ _ _ old]
      simp
    · rw [if_neg old, List.getD_append_right _ _ _ _ (by omega), List.getD_eq_default l 0 (by omega)]
      by_cases new : i - l.length < in_size
      · rw [if_pos (by omega), if_pos new, toBits_lane]
        simp [lanes, List.getD_eq_getElem?_getD, new]
      · rw [List.getD_eq_default _ 0 (by simpa using new)]
        simp [new]

theorem Contains.next (contains : Contains l m) (roomy : size + ipw < 2 ^ pointerWidth size) (input : Option (BitVec (ipw * dw))) {in_size : Nat}
    (small : (m.taken input).isSome → in_size ≤ ipw) (out_ready : Bool) (out_size : Nat) :
    Contains ((l ++ m.pushed input in_size).drop (if m.outFire out_ready out_size then out_size else 0))
      (m.next input in_size out_ready out_size) := by
  have room := size_lt size
  have fits := contains.pushed_fits roomy input small
  have pointer := contains.wp_w_eq roomy input small
  have stored : l.length ≤ (l ++ m.pushed input in_size).length := by
    rw [List.length_append]
    exact Nat.le_add_right _ _
  refine ⟨?_, ?_, ?_⟩
  · rw [List.length_drop]
    simp only [SerDesBuffer.next, pointer]
    split
    · rename_i goes
      have below : out_size ≤ l.length := (contains.out_valid_iff.mp (Bool.and_eq_true_iff.mp goes).1).2
      have size' : (l ++ m.pushed input in_size).length < 2 ^ pointerWidth size := by
        have := contains.fits
        omega
      rw [show (l ++ m.pushed input in_size).length + 2 ^ pointerWidth size - out_size =
        (l ++ m.pushed input in_size).length - out_size + 2 ^ pointerWidth size by omega, Nat.add_mod_right]
      exact Nat.mod_eq_of_lt (by omega)
    · rfl
  · rw [List.length_drop]
    omega
  · simp only [SerDesBuffer.next]
    rw [contains.buffer_w_eq small, toBits_ushiftRight]
    apply toBits_congr
    intro i inside
    rw [List.getD_eq_getElem?_getD, List.getD_eq_getElem?_getD, List.getElem?_drop]
    generalize (if m.outFire out_ready out_size then out_size else 0) = skip
    by_cases below : skip + i < size
    · rw [if_pos below]
    · rw [if_neg below, List.getElem?_eq_none (by omega)]
      rfl

theorem Contains.clear (contains : Contains l m) {j : Nat} (above : m.wp * dw ≤ j) : m.buffer.getLsbD j = false := by
  rw [contains.wp] at above
  rw [contains.buffer, getLsbD_toBits]
  by_cases inside : j < size * dw
  · have behind : l.length ≤ j / dw := by
      rwa [Nat.le_div_iff_mul_le (Nat.pos_of_ne_zero fun zero => by simp [zero] at inside)]
    rw [List.getD_eq_default _ _ behind]
    simp
  · simp [inside]

/-! Runs: the elements that entered and those that left. -/

structure Event (dw ipw : Nat) where
  input : Option (BitVec (ipw * dw))
  in_size : Nat
  out_ready : Bool
  out_size : Nat

structure Log (dw size : Nat) where
  regs : SerDesBuffer dw size
  entered : List (BitVec dw)
  left : List (BitVec dw)

def cycle (opw : Nat) (s : Log dw size) (e : Event dw ipw) : Log dw size where
  regs := s.regs.next e.input e.in_size e.out_ready e.out_size
  entered := s.entered ++ s.regs.pushed e.input e.in_size
  left := s.left ++ if s.regs.outFire e.out_ready e.out_size then lanes dw (s.regs.out_bits opw) e.out_size else []

def run (opw : Nat) (s : Log dw size) (es : List (Event dw ipw)) : Log dw size := es.foldl (cycle opw) s

def empty (dw size : Nat) : Log dw size := ⟨⟨0, 0⟩, [], []⟩

/-- The elements leave in the order in which they entered, `count` is the number of those inside, and nothing
stands above them. -/
structure Ordered (s : Log dw size) : Prop where
  elements : ∃ rest, s.entered = s.left ++ rest ∧ s.regs.wp = rest.length
  bounded : s.regs.wp ≤ size
  clear : ∀ j, s.regs.wp * dw ≤ j → s.regs.buffer.getLsbD j = false

def IsFifo (dw size ipw opw : Nat) : Prop :=
  ∀ es : List (Event dw ipw), (∀ e ∈ es, e.in_size ≤ ipw ∧ e.out_size ≤ opw) → Ordered (run opw (empty dw size) es)

/-- The elements inside are those that entered and have not left. -/
def Holds (s : Log dw size) : Prop := ∃ rest, Contains rest s.regs ∧ s.entered = s.left ++ rest

theorem Holds.cycle {s : Log dw size} {opw : Nat} {e : Event dw ipw} (holds : Holds s)
    (roomy : size + ipw < 2 ^ pointerWidth size) (in_size : e.in_size ≤ ipw) (out_size : e.out_size ≤ opw) :
    Holds (cycle opw s e) := by
  obtain ⟨rest, contains, elements⟩ := holds
  refine ⟨_, contains.next roomy e.input (fun _ => in_size) e.out_ready e.out_size, ?_⟩
  simp only [SerDesBuffer.cycle, elements]
  cases out : s.regs.outFire e.out_ready e.out_size with
  | false => simp
  | true =>
    have stored : e.out_size ≤ rest.length := (contains.out_valid_iff.mp (Bool.and_eq_true_iff.mp out).1).2
    rw [if_pos rfl, if_pos rfl, contains.lanes_out out_size stored, List.drop_append_of_le_length stored]
    simp only [List.append_assoc]
    rw [← List.append_assoc (rest.take _), List.take_append_drop]

theorem Holds.run {s : Log dw size} {opw : Nat} (holds : Holds s) (roomy : size + ipw < 2 ^ pointerWidth size)
    (es : List (Event dw ipw)) (legal : ∀ e ∈ es, e.in_size ≤ ipw ∧ e.out_size ≤ opw) : Holds (run opw s es) := by
  induction es generalizing s with
  | nil => exact holds
  | cons e es ih =>
    obtain ⟨inSize, outSize⟩ := legal e List.mem_cons_self
    exact ih (holds.cycle roomy inSize outSize) fun e' later => legal e' (List.mem_cons_of_mem e later)

theorem Holds.ordered {s : Log dw size} (holds : Holds s) : Ordered s := by
  obtain ⟨rest, contains, elements⟩ := holds
  exact ⟨⟨rest, elements, contains.wp⟩, by rw [contains.wp]; exact contains.fits, fun j above => contains.clear above⟩

theorem holds_empty (dw size : Nat) : Holds (empty dw size) := ⟨[], contains_nil rfl rfl, rfl⟩

theorem wp_of_push (ready : m.in_ready ipw = true) (x : BitVec (ipw * dw)) (n k : Nat) :
    (m.next (some x) n false k).wp = (m.wp + n) % 2 ^ pointerWidth size := by
  simp [SerDesBuffer.next, outFire, wp_w, taken, Option.filter, ready]

theorem length_of_push (ready : m.in_ready ipw = true) (x : BitVec (ipw * dw)) (n : Nat) : (m.pushed (some x) n).length = n := by
  simp [pushed, taken, Option.filter, ready]

/-- A buffer as wide as its input that wraps takes a second full word on top of the first and forgets both. -/
theorem not_isFifo_of_wrap {opw : Nat} (fits : ipw ≤ size) (wraps : 2 ^ pointerWidth size ≤ size + ipw) :
    ¬ IsFifo dw size ipw opw := by
  intro fifo
  have below := size_lt size
  have room := le_two_pow_log2Up size
  have power : 2 ^ pointerWidth size = 2 ^ log2Up size * 2 := Nat.pow_succ ..
  have positive := Nat.two_pow_pos (log2Up size)
  -- the write pointer can only wrap when the input fills the whole buffer
  have same : ipw = size := by omega
  have sum : size + ipw = 2 ^ pointerWidth size := by omega
  let word : Event dw ipw := ⟨some 0, ipw, false, 0⟩
  have legal : ∀ e ∈ [word, word], e.in_size ≤ ipw ∧ e.out_size ≤ opw := by
    intro e member
    have single : e = word := by simpa using member
    rw [single]
    exact ⟨Nat.le_refl _, Nat.zero_le _⟩
  obtain ⟨rest, elements, count⟩ := (fifo [word, word] legal).elements
  let first : Log dw size := cycle opw (empty dw size) word
  have open' : (empty dw size).regs.in_ready ipw = true := by
    rw [in_ready, decide_eq_true_eq]
    exact Nat.le_trans (Nat.mod_le _ _) (by simpa [empty] using fits)
  have full : first.regs.wp = size := by
    rw [show first.regs.wp = _ from wp_of_push open' 0 ipw 0, same]
    simpa [empty] using Nat.mod_eq_of_lt below
  -- the sum wraps to 0, so the full buffer seems to have room
  have wrapped : first.regs.in_ready ipw = true := by
    rw [in_ready, full, sum, Nat.mod_self, decide_eq_true_eq]
    exact Nat.zero_le _
  have none' : (run opw (empty dw size) [word, word]).regs.wp = 0 := by
    rw [show (run opw (empty dw size) [word, word]).regs.wp = _ from wp_of_push wrapped 0 ipw 0, full, sum, Nat.mod_self]
  have entered : (run opw (empty dw size) [word, word]).entered.length = 0 + ipw + ipw := by
    have one := length_of_push open' (0 : BitVec (ipw * dw)) ipw
    have two := length_of_push wrapped (0 : BitVec (ipw * dw)) ipw
    have parts : (run opw (empty dw size) [word, word]).entered =
        [] ++ (empty dw size).regs.pushed (some (0 : BitVec (ipw * dw))) ipw ++
          first.regs.pushed (some (0 : BitVec (ipw * dw))) ipw := rfl
    rw [parts, List.length_append, List.length_append, one, two, List.length_nil]
  have left : (run opw (empty dw size) [word, word]).left = [] := by
    simp [run, cycle, outFire, word, empty]
  rw [none'] at count
  rw [left, List.nil_append] at elements
  rw [elements, ← count] at entered
  omega

/-- The buffer is a queue unless its input is as wide as the whole of it and its size a power of two. -/
theorem isFifo_iff {dw size ipw opw : Nat} (in_fits : ipw ≤ size) :
    IsFifo dw size ipw opw ↔ size + ipw < 2 ^ pointerWidth size := by
  constructor
  · intro fifo
    by_contra wraps
    exact not_isFifo_of_wrap in_fits (Nat.not_lt.mp wraps) fifo
  · intro roomy es legal
    exact ((holds_empty dw size).run roomy es legal).ordered

/-- The write buffer between words of two bytes and beats of eight. -/
theorem isFifo_iff_of_converter : 2 ≤ 10 ∧ IsFifo 8 10 2 8 := ⟨by decide, (isFifo_iff (by decide)).mpr (by decide)⟩

/-- Four bytes behind an input of four bytes: the second word is lost with the first. -/
theorem not_isFifo_four : ¬ IsFifo 8 4 4 4 := not_isFifo_of_wrap (by decide) (by decide)

end SerDesBuffer

end LowRisc.Debug
