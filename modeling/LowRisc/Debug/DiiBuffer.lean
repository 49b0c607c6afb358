import LowRisc.Debug.Dii

/-! The flit buffer `dii_buffer` of the ring routers and the queue it implements. -/

set_option autoImplicit false

namespace LowRisc.Debug

/-- Entry `rp` of the shift register is the oldest one, entry 0 the newest. -/
structure DiiBuffer where
  data : Nat → Flit
  rp : Nat
  reg_out_valid : Bool

namespace DiiBuffer

def flit_in_ready (size : Nat) (b : DiiBuffer) : Bool := b.rp != size - 1 || !b.reg_out_valid

def flit_out (b : DiiBuffer) : DiiFlit := ⟨b.reg_out_valid, (b.data b.rp).last, (b.data b.rp).data⟩

def shift (data : Nat → Flit) (f : Flit) : Nat → Flit
  | 0 => f
  | i + 1 => data i

def next (size : Nat) (b : DiiBuffer) (flit_in : DiiFlit) (flit_out_ready : Bool) : DiiBuffer :=
  let flit_in_fire := flit_in.valid && b.flit_in_ready size
  let flit_out_fire := b.flit_out.valid && flit_out_ready
  { reg_out_valid :=
      -- set by any valid flit, also by one that is not taken
      if flit_in.valid then true
      else if flit_out_fire && b.rp == 0 then false
      else b.reg_out_valid
    rp :=
      if flit_in_fire && !flit_out_fire && b.reg_out_valid then b.rp + 1
      else if flit_out_fire && !flit_in_fire && b.rp != 0 then b.rp - 1
      else b.rp
    data := if flit_in_fire then shift b.data flit_in.flit else b.data }

def window (data : Nat → Flit) : Nat → List Flit
  | 0 => [data 0]
  | k + 1 => data (k + 1) :: window data k

theorem window_shift (data : Nat → Flit) (f : Flit) (k : Nat) :
    window (shift data f) (k + 1) = window data k ++ [f] := by
  induction k with
  | zero => rfl
  | succ k ih => rw [window, ih, window]; rfl

theorem window_eq_cons (data : Nat → Flit) (k : Nat) : ∃ rest, window data k = data k :: rest := by
  cases k with
  | zero => exact ⟨[], rfl⟩
  | succ k => exact ⟨window data k, rfl⟩

@[simp] theorem length_window (data : Nat → Flit) (k : Nat) : (window data k).length = k + 1 := by
  induction k with
  | zero => rfl
  | succ k ih => rw [window, List.length_cons, ih]

theorem getElem?_window (data : Nat → Flit) {k j : Nat} (inside : j ≤ k) : (window data k)[j]? = some (data (k - j)) := by
  induction k generalizing j with
  | zero => rw [Nat.le_zero.mp inside]; rfl
  | succ k ih =>
    cases j with
    | zero => rfl
    | succ j =>
      rw [window, List.getElem?_cons_succ, ih (Nat.le_of_succ_le_succ inside), Nat.add_sub_add_right]

theorem mem_window {data : Nat → Flit} {k : Nat} {f : Flit} : f ∈ window data k ↔ ∃ j ≤ k, data j = f := by
  induction k with
  | zero => simp [window, eq_comm]
  | succ k ih =>
    rw [window, List.mem_cons, ih]
    constructor
    · rintro (rfl | ⟨j, inside, same⟩)
      · exact ⟨k + 1, Nat.le_refl _, rfl⟩
      · exact ⟨j, Nat.le_succ_of_le inside, same⟩
    · rintro ⟨j, inside, same⟩
      rcases Nat.le_succ_iff.mp inside with below | rfl
      · exact .inr ⟨j, below, same⟩
      · exact .inl same.symm

/-- What the buffer holds, oldest flit first. -/
def flits (b : DiiBuffer) : List Flit := if b.reg_out_valid then window b.data b.rp else []

structure WellFormed (size : Nat) (b : DiiBuffer) : Prop where
  bound : b.rp < size
  rest : b.reg_out_valid = false → b.rp = 0

section
variable {size : Nat} {b : DiiBuffer}

theorem length_flits_le (wf : b.WellFormed size) : b.flits.length ≤ size := by
  have bound := wf.bound
  unfold flits
  split
  · rw [length_window]
    omega
  · simp

theorem flit_out_of_cons {f : Flit} {rest : List Flit} (holds : b.flits = f :: rest) :
    b.flit_out = .ofFlit f := by
  unfold flits at holds
  split at holds
  · rename_i up
    obtain ⟨rest', eq⟩ := window_eq_cons b.data b.rp
    rw [eq] at holds
    obtain ⟨rfl, -⟩ := List.cons.inj holds
    simp [flit_out, up, DiiFlit.ofFlit]
  · cases holds

theorem valid_iff : b.flit_out.valid = true ↔ b.flits ≠ [] := by
  unfold flits
  split
  · rename_i up
    obtain ⟨rest, eq⟩ := window_eq_cons b.data b.rp
    simp [flit_out, up, eq]
  · rename_i down
    simpa [flit_out] using down

theorem ready_of_empty (empty : b.flits = []) : b.flit_in_ready size = true := by
  have down : ¬b.flit_out.valid = true := fun up => valid_iff.mp up empty
  simpa [flit_in_ready, flit_out] using Or.inr down

/-- A buffer of at least two entries that refuses a flit stays valid, whatever leaves. -/
theorem not_rp_zero_of_full (two : 2 ≤ size) (full : b.flit_in_ready size = false) :
    b.rp ≠ 0 ∧ b.reg_out_valid = true := by
  simp only [flit_in_ready, Bool.or_eq_false_iff, bne_eq_false_iff_eq, Bool.not_eq_false'] at full
  exact ⟨by omega, full.2⟩

theorem WellFormed.next (wf : b.WellFormed size) (flit_in : DiiFlit) (ready : Bool) :
    (b.next size flit_in ready).WellFormed size := by
  have bound := wf.bound
  have rest := wf.rest
  constructor
  · simp only [DiiBuffer.next]
    split
    · rename_i push
      simp only [Bool.and_eq_true, flit_in_ready, Bool.or_eq_true, bne_iff_ne] at push
      have room : b.rp ≠ size - 1 := by
        rcases push.1.1.2 with room | down
        · exact room
        · simp [push.2] at down
      omega
    · split
      · omega
      · exact bound
  · simp only [DiiBuffer.next]
    intro down
    split at down
    · cases down
    · rename_i idle
      simp only [idle, Bool.false_and, Bool.false_eq_true, if_false, Bool.not_false, Bool.and_true]
      split at down
      · rename_i popped
        simp only [Bool.and_eq_true, beq_iff_eq] at popped
        simp [popped.2]
      · simp [flit_out, down, rest down]

/-- No flit is refused in the cycle in which the only held one leaves. -/
def Calm (size : Nat) (b : DiiBuffer) (flit_in : DiiFlit) (ready : Bool) : Prop :=
  flit_in.valid = true → b.flit_in_ready size = false → b.flit_out.valid = true → ready = true → b.rp ≠ 0

theorem calm_of_two (two : 2 ≤ size) (flit_in : DiiFlit) (ready : Bool) : b.Calm size flit_in ready :=
  fun _ full _ _ => (not_rp_zero_of_full two full).1

theorem conserved_of_calm (wf : b.WellFormed size) {flit_in : DiiFlit} {ready : Bool}
    (calm : b.Calm size flit_in ready) :
    b.flit_out.passed ready ++ (b.next size flit_in ready).flits =
      b.flits ++ flit_in.passed (b.flit_in_ready size) := by
  have rest := wf.rest
  cases up : b.reg_out_valid with
  | false =>
    have zero := rest up
    have room : b.flit_in_ready size = true := by simp [flit_in_ready, up]
    cases given : flit_in.valid with
    | false => simp [DiiFlit.passed, DiiBuffer.next, flits, flit_out, up, given]
    | true => simp [DiiFlit.passed, DiiBuffer.next, flits, flit_out, up, given, room, zero, window, shift]
  | true =>
    cases push : flit_in.valid && b.flit_in_ready size with
    | true =>
      obtain ⟨given, room⟩ : flit_in.valid = true ∧ b.flit_in_ready size = true := by simpa using push
      cases ready with
      | false => simp [DiiFlit.passed, DiiBuffer.next, flits, flit_out, up, given, room, window_shift]
      | true =>
        simp only [DiiFlit.passed, DiiBuffer.next, flits, flit_out, up, given, room]
        cases place : b.rp with
        | zero => simp [window, shift, DiiFlit.flit]
        | succ k => simp [window, window_shift, DiiFlit.flit]
    | false =>
      have none : flit_in.passed (b.flit_in_ready size) = [] := by simp [DiiFlit.passed, push]
      rw [none, List.append_nil]
      cases ready with
      | false => simp [DiiFlit.passed, DiiBuffer.next, flits, flit_out, up, push]
      | true =>
        simp only [DiiFlit.passed, DiiBuffer.next, flits, flit_out, up, push]
        cases place : b.rp with
        | zero =>
          -- a buffer that is read empty here has refused no flit
          have given : flit_in.valid = false := by
            by_contra given
            rw [Bool.not_eq_false] at given
            rw [given, Bool.true_and] at push
            exact calm given push up rfl place
          simp [given, window, DiiFlit.flit]
        | succ k => simp [window, DiiFlit.flit]

theorem conserved (two : 2 ≤ size) (wf : b.WellFormed size) (flit_in : DiiFlit) (ready : Bool) :
    b.flit_out.passed ready ++ (b.next size flit_in ready).flits =
      b.flits ++ flit_in.passed (b.flit_in_ready size) :=
  conserved_of_calm wf (calm_of_two two flit_in ready)

theorem flit_out_waits {flit_in : DiiFlit} {ready : Bool} (two : 2 ≤ size) (wf : b.WellFormed size)
    (up : b.flit_out.valid = true) (held : ready = false) :
    (b.next size flit_in ready).flit_out = b.flit_out := by
  have conserved := conserved two wf flit_in ready
  have none : b.flit_out.passed ready = [] := by simp [DiiFlit.passed, held]
  cases holds : b.flits with
  | nil => exact absurd holds (valid_iff.mp up)
  | cons f rest =>
    rw [none, holds, List.nil_append, List.cons_append] at conserved
    rw [flit_out_of_cons holds, flit_out_of_cons conserved]

end

end DiiBuffer

end LowRisc.Debug
