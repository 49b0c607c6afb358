import LowRisc.Debug.DiiBuffer
import Mathlib.Data.Nat.Find

/-! `dii_buffer` with its parameter `FULLPACKET`, as a queue of flits. -/

set_option autoImplicit false

namespace LowRisc.Debug

/-- With `FULLPACKET` the buffer also shifts the last flags. -/
structure PacketBuffer (size : Nat) extends DiiBuffer where
  data_last_buf : BitVec size

namespace PacketBuffer

variable {size : Nat} (full : Bool) (b : PacketBuffer size)

/-- The flags of the flits inside, that of the oldest one on top. -/
def data_last_shifted : BitVec size := b.data_last_buf <<< (size - 1 - b.rp)

/-- The loop of `find_first_one`, from bit `i - 1` down. -/
def firstOneBelow (data : BitVec size) : Nat → Nat
  | 0 => size
  | i + 1 => if data.getLsbD i then i else firstOneBelow data i

def find_first_one (data : BitVec size) : Nat := firstOneBelow data size

def packet_size : Nat := if full then size - find_first_one b.data_last_shifted else 0

/-- `|data_last_shifted`. -/
def anyLast : Bool := b.data_last_shifted != BitVec.ofNat size 0

def flit_out : DiiFlit :=
  ⟨b.reg_out_valid && (!full || b.anyLast), (b.data b.rp).last, (b.data b.rp).data⟩

def flit_in_ready : Bool := b.rp != size - 1 || !b.reg_out_valid

def next (flit_in : DiiFlit) (flit_out_ready : Bool) : PacketBuffer size :=
  let flit_in_fire := flit_in.valid && b.flit_in_ready
  let flit_out_fire := (b.flit_out full).valid && flit_out_ready
  { reg_out_valid :=
      if flit_in.valid then true
      else if flit_out_fire && b.rp == 0 then false
      else b.reg_out_valid
    rp :=
      if flit_in_fire && !flit_out_fire && b.reg_out_valid then b.rp + 1
      else if flit_out_fire && !flit_in_fire && b.rp != 0 then b.rp - 1
      else b.rp
    data := if flit_in_fire then DiiBuffer.shift b.data flit_in.flit else b.data
    data_last_buf :=
      if flit_in_fire then b.data_last_buf <<< 1 ||| (BitVec.ofBool (flit_in.last && flit_in.valid)).setWidth size
      else b.data_last_buf }

/-! The buffer with the flits that entered and left it. -/

structure Log (size : Nat) where
  regs : PacketBuffer size
  entered : List Flit
  left : List Flit

structure Event where
  flit_in : DiiFlit
  flit_out_ready : Bool

def cycle (s : Log size) (e : Event) : Log size where
  regs := s.regs.next full e.flit_in e.flit_out_ready
  entered := s.entered ++ e.flit_in.passed s.regs.flit_in_ready
  left := s.left ++ (s.regs.flit_out full).passed e.flit_out_ready

def run (s : Log size) (es : List Event) : Log size := es.foldl (cycle full) s

structure AfterReset (s : Log size) : Prop where
  reg_out_valid : s.regs.reg_out_valid = false
  rp : s.regs.rp = 0
  data_last_buf : s.regs.data_last_buf = 0
  entered : s.entered = []
  left : s.left = []

/-- Flits of which only the last one is marked. -/
def IsPacket (packet : List Flit) : Prop := ∃ body f, packet = body ++ [f] ∧ f.last = true ∧ ∀ g ∈ body, g.last = false

/-- The buffer as the queue of the flits that entered and have not left. With `FULLPACKET` the first of them
is offered when a last flit is inside, and the size shown is that of the packet it begins. -/
structure Queues (s : Log size) : Prop where
  order : s.left <+: s.entered
  bounded : s.entered.length ≤ s.left.length + size
  accepts : s.regs.flit_in_ready = true ↔ s.entered.length < s.left.length + size
  head : (s.regs.flit_out full).valid = true → s.entered[s.left.length]? = some (s.regs.flit_out full).flit
  offers : full = false → ((s.regs.flit_out full).valid = true ↔ s.left.length < s.entered.length)
  complete : full = true → ((s.regs.flit_out full).valid = true ↔ ∃ f ∈ s.entered.drop s.left.length, f.last = true)
  size : full = true → ∀ packet rest, IsPacket packet → s.entered = s.left ++ packet ++ rest →
    s.regs.packet_size full = packet.length

def IsQueue (size : Nat) (full : Bool) : Prop := ∀ s : Log size, AfterReset s → ∀ es, Queues full (run full s es)

/-- A flit is offered in the cycle in which one leaves. -/
def Clash (e : Event) : Prop := e.flit_in.valid = true ∧ (b.flit_out full).valid = true ∧ e.flit_out_ready = true

variable {full} {b}

/-! With the flags at hand the buffer is the plain one behind a gate. -/

theorem fire_eq (ready : Bool) : ((b.flit_out full).valid && ready) =
    (b.toDiiBuffer.flit_out.valid && (ready && (b.flit_out full).valid)) := by
  simp only [flit_out, DiiBuffer.flit_out]
  cases b.reg_out_valid <;> cases ready <;> simp

theorem toDiiBuffer_next (flit_in : DiiFlit) (ready : Bool) : (b.next full flit_in ready).toDiiBuffer =
    b.toDiiBuffer.next size flit_in (ready && (b.flit_out full).valid) := by
  simp only [next, DiiBuffer.next, fire_eq]
  rfl

theorem passed_eq (ready : Bool) : (b.flit_out full).passed ready =
    b.toDiiBuffer.flit_out.passed (ready && (b.flit_out full).valid) := by
  rw [DiiFlit.passed, fire_eq, DiiFlit.passed]
  rfl

theorem getLsbD_shifted (k : Nat) (inside : k ≤ b.rp) (bound : b.rp < size) :
    b.data_last_shifted.getLsbD (size - 1 - k) = b.data_last_buf.getLsbD (b.rp - k) := by
  rw [data_last_shifted, BitVec.getLsbD_shiftLeft]
  have top : size - 1 - k < size := by omega
  have above : ¬size - 1 - k < size - 1 - b.rp := by omega
  have place : size - 1 - k - (size - 1 - b.rp) = b.rp - k := by omega
  simp [top, above, place]

theorem getLsbD_shifted_low {j : Nat} (low : j < size - 1 - b.rp) : b.data_last_shifted.getLsbD j = false := by
  simp [data_last_shifted, low]

theorem firstOneBelow_eq {data : BitVec size} {i m : Nat} (here : data.getLsbD i = true) (below : i < m)
    (first : ∀ j, i < j → j < m → data.getLsbD j = false) : firstOneBelow data m = i := by
  induction m with
  | zero => omega
  | succ m ih =>
    rw [firstOneBelow]
    rcases Nat.lt_succ_iff_lt_or_eq.mp below with less | rfl
    · rw [first m less (Nat.lt_succ_self m), if_neg Bool.false_ne_true]
      exact ih less fun j above under => first j above (Nat.lt_succ_of_lt under)
    · rw [here, if_pos rfl]

/-- The buffer with its flags, and the flits that entered and have not left. -/
structure Holds (s : Log size) : Prop where
  wf : s.regs.toDiiBuffer.WellFormed size
  flags : s.regs.reg_out_valid = true → ∀ i ≤ s.regs.rp, s.regs.data_last_buf.getLsbD i = (s.regs.data i).last
  same : s.entered = s.left ++ s.regs.flits

theorem holds_reset {s : Log size} (positive : 1 ≤ size) (reset : AfterReset s) : Holds s where
  wf := ⟨by rw [reset.rp]; exact positive, fun _ => reset.rp⟩
  flags up := by simp [reset.reg_out_valid] at up
  same := by rw [reset.entered, reset.left, DiiBuffer.flits, reset.reg_out_valid]; rfl

theorem getLsbD_pushed (data : BitVec size) (last : Bool) (i : Nat) (bound : i < size) :
    (data <<< 1 ||| (BitVec.ofBool last).setWidth size).getLsbD i =
      match i with
      | 0 => last
      | i + 1 => data.getLsbD i := by
  cases i with
  | zero => simp [bound]
  | succ i => simp [bound, BitVec.getLsbD_eq_getElem (Nat.lt_of_succ_lt bound)]

theorem Holds.cycle {s : Log size} (holds : Holds s) {e : Event}
    (calm : s.regs.toDiiBuffer.Calm size e.flit_in (e.flit_out_ready && (s.regs.flit_out full).valid)) :
    Holds (cycle full s e) := by
  have conserved := DiiBuffer.conserved_of_calm holds.wf calm
  have wf : (PacketBuffer.cycle full s e).regs.toDiiBuffer.WellFormed size := by
    rw [PacketBuffer.cycle, toDiiBuffer_next]
    exact holds.wf.next _ _
  refine ⟨wf, fun up i inside => ?_, ?_⟩
  · have below : i < size := Nat.lt_of_le_of_lt inside wf.bound
    simp only [PacketBuffer.cycle, next] at up inside ⊢
    -- a flit comes in and shifts the others
    cases push : e.flit_in.valid && s.regs.flit_in_ready with
    | true =>
      obtain ⟨given, -⟩ : e.flit_in.valid = true ∧ s.regs.flit_in_ready = true := by simpa using push
      simp only [if_true, given, Bool.and_true]
      rw [getLsbD_pushed _ _ _ below]
      cases i with
      | zero => rfl
      | succ i =>
        have held : s.regs.reg_out_valid = true ∧ i ≤ s.regs.rp := by
          simp only [push, Bool.true_and, Bool.not_true, Bool.and_false, Bool.false_and, Bool.false_eq_true,
            if_false] at inside
          split at inside
          · rename_i grows
            simp only [Bool.and_eq_true] at grows
            exact ⟨grows.2, Nat.le_of_succ_le_succ inside⟩
          · refine ⟨?_, Nat.le_of_succ_le inside⟩
            by_contra down
            have := holds.wf.rest (Bool.eq_false_iff.mpr down)
            omega
        exact holds.flags held.1 i held.2
    -- no flit comes in, and the window does not grow
    | false =>
      have held : s.regs.reg_out_valid = true := by
        by_contra down
        simp only [flit_in_ready, Bool.not_eq_true] at down push up
        simp [down] at push up
        simp [push] at up
      refine holds.flags held i (Nat.le_trans inside ?_)
      simp only [push, Bool.false_and, Bool.false_eq_true, if_false]
      split
      · omega
      · exact Nat.le_refl _
  · simp only [PacketBuffer.cycle, toDiiBuffer_next, passed_eq]
    rw [holds.same, List.append_assoc, List.append_assoc, conserved]
    rfl

theorem calm_of_apart {e : Event} (apart : 2 ≤ size ∨ ¬Clash full b e) :
    b.toDiiBuffer.Calm size e.flit_in (e.flit_out_ready && (b.flit_out full).valid) := by
  rcases apart with two | apart
  · exact DiiBuffer.calm_of_two two _ _
  · intro given _ _ leaves
    rw [Bool.and_eq_true] at leaves
    exact absurd ⟨given, leaves.2, leaves.1⟩ apart

theorem anyLast_iff (wf : b.toDiiBuffer.WellFormed size) (up : b.reg_out_valid = true)
    (flags : ∀ i ≤ b.rp, b.data_last_buf.getLsbD i = (b.data i).last) :
    b.anyLast = true ↔ ∃ f ∈ b.flits, f.last = true := by
  have bound := wf.bound
  rw [DiiBuffer.flits, up, if_pos rfl, anyLast, bne_iff_ne]
  constructor
  · intro some'
    by_contra clear
    refine some' (BitVec.eq_of_getLsbD_eq fun j below => ?_)
    rw [BitVec.getLsbD_zero]
    by_cases low : j < size - 1 - b.rp
    · exact getLsbD_shifted_low low
    · have shown := getLsbD_shifted (size - 1 - j) (by omega) bound
      rw [show size - 1 - (size - 1 - j) = j by omega] at shown
      rw [shown, flags _ (Nat.sub_le _ _)]
      by_contra last
      exact clear ⟨_, DiiBuffer.mem_window.mpr ⟨_, Nat.sub_le _ _, rfl⟩, by simpa using last⟩
  · rintro ⟨f, inside, last⟩ zero
    obtain ⟨i, within, rfl⟩ := DiiBuffer.mem_window.mp inside
    have shown := getLsbD_shifted (b.rp - i) (Nat.sub_le _ _) bound
    rw [zero, BitVec.getLsbD_zero, Nat.sub_sub_self within, flags i within, last] at shown
    cases shown

theorem packet_size_eq (wf : b.toDiiBuffer.WellFormed size) (up : b.reg_out_valid = true)
    (flags : ∀ i ≤ b.rp, b.data_last_buf.getLsbD i = (b.data i).last) {packet rest : List Flit}
    (whole : IsPacket packet) (inside : b.flits = packet ++ rest) : b.packet_size true = packet.length := by
  obtain ⟨body, f, rfl, last, inner⟩ := whole
  have bound := wf.bound
  rw [DiiBuffer.flits, up, if_pos rfl] at inside
  have fits : body.length ≤ b.rp := by
    have := congrArg List.length inside
    simp only [DiiBuffer.length_window, List.length_append, List.length_singleton] at this
    omega
  have entry (k : Nat) (within : k ≤ b.rp) : (b.data (b.rp - k)) ∈ ((body ++ [f]) ++ rest)[k]? := by
    rw [← inside, DiiBuffer.getElem?_window _ within]
    rfl
  have first : firstOneBelow b.data_last_shifted size = size - 1 - body.length := by
    refine firstOneBelow_eq ?_ (by omega) fun j above below => ?_
    · rw [getLsbD_shifted _ fits bound, flags _ (Nat.sub_le _ _)]
      have here := entry _ fits
      simp only [List.append_assoc, List.getElem?_append_right (Nat.le_refl _), Nat.sub_self, List.singleton_append,
        List.getElem?_cons_zero, Option.mem_def, Option.some.injEq] at here
      rw [← here, last]
    · have early : size - 1 - j < body.length := by omega
      have shown := getLsbD_shifted (size - 1 - j) (by omega) bound
      rw [show size - 1 - (size - 1 - j) = j by omega] at shown
      rw [shown, flags _ (Nat.sub_le _ _)]
      have here := entry (size - 1 - j) (by omega)
      rw [List.append_assoc, List.getElem?_append_left early] at here
      exact inner _ (List.mem_of_getElem? here)
  rw [packet_size, if_pos rfl, find_first_one, first, List.length_append, List.length_singleton]
  omega

theorem Holds.conserved {s : Log size} (holds : Holds s) {e : Event}
    (calm : s.regs.toDiiBuffer.Calm size e.flit_in (e.flit_out_ready && (s.regs.flit_out full).valid)) :
    (s.regs.flit_out full).passed e.flit_out_ready ++ (PacketBuffer.cycle full s e).regs.flits =
      s.regs.flits ++ e.flit_in.passed s.regs.flit_in_ready := by
  rw [passed_eq, PacketBuffer.cycle, toDiiBuffer_next]
  exact DiiBuffer.conserved_of_calm holds.wf calm

theorem Holds.remaining {s : Log size} (holds : Holds s) : s.entered.drop s.left.length = s.regs.flits := by
  rw [holds.same, List.drop_left]

theorem Holds.queues {s : Log size} (holds : Holds s) : Queues full s := by
  have bound := holds.wf.bound
  have length : s.entered.length = s.left.length + s.regs.flits.length := by rw [holds.same, List.length_append]
  cases up : s.regs.reg_out_valid with
  -- the buffer is empty
  | false =>
    have empty : s.regs.flits = [] := by rw [DiiBuffer.flits, up]; rfl
    have silent : (s.regs.flit_out full).valid = false := by simp [flit_out, up]
    have same := holds.same
    rw [empty, List.append_nil] at same
    rw [empty, List.length_nil, Nat.add_zero] at length
    refine ⟨⟨[], by rw [same, List.append_nil]⟩, by omega, ?_, ?_, ?_, ?_, ?_⟩
    · simp only [flit_in_ready, up, Bool.not_false, Bool.or_true, true_iff]
      omega
    · simp [silent]
    · simp [silent, length]
    · simp [silent, same]
    · rintro - packet rest ⟨body, f, rfl, -, -⟩ split
      have := congrArg List.length split
      simp only [List.length_append, List.length_singleton] at this
      omega
  | true =>
    -- the window up to the read pointer is what the buffer holds
    have filled : s.regs.flits = DiiBuffer.window s.regs.data s.regs.rp := by rw [DiiBuffer.flits, up]; rfl
    rw [filled, DiiBuffer.length_window] at length
    refine ⟨⟨_, holds.same.symm⟩, by omega, ?_, fun _ => ?_, ?_, ?_, ?_⟩
    · simp only [flit_in_ready, up, Bool.not_true, Bool.or_false, bne_iff_ne]
      omega
    · rw [holds.same, List.getElem?_append_right (Nat.le_refl _), Nat.sub_self, filled,
        DiiBuffer.getElem?_window _ (Nat.zero_le _)]
      rfl
    · rintro rfl
      simp [flit_out, up]
      omega
    · rintro rfl
      rw [holds.remaining, ← anyLast_iff holds.wf up (holds.flags up)]
      simp [flit_out, up]
    · rintro rfl packet rest whole split
      have inside : s.regs.flits = packet ++ rest := by
        rw [holds.same, List.append_assoc] at split
        exact List.append_cancel_left split
      exact packet_size_eq holds.wf up (holds.flags up) whole inside

/-- With `FULLPACKET` the output is valid as long as a last flit is inside. -/
theorem Holds.valid_iff {s : Log size} (holds : Holds s) :
    (s.regs.flit_out true).valid = true ↔ ∃ f ∈ s.regs.flits, f.last = true := by
  rw [← holds.remaining]
  exact (holds.queues).complete rfl

theorem flit_of_cons {f : Flit} {rest : List Flit} (inside : b.flits = f :: rest) : (b.flit_out full).flit = f := by
  have shown := DiiBuffer.flit_out_of_cons inside
  have last := congrArg DiiFlit.last shown
  have data := congrArg DiiFlit.data shown
  simp only [DiiBuffer.flit_out, DiiFlit.ofFlit] at last data
  rw [flit_out, DiiFlit.flit, last, data]

theorem exists_cons_of_isPacket {packet : List Flit} (whole : IsPacket packet) : ∃ f tail, packet = f :: tail := by
  obtain ⟨body, g, rfl, -, -⟩ := whole
  cases body with
  | nil => exact ⟨g, [], rfl⟩
  | cons f body => exact ⟨f, body ++ [g], rfl⟩

theorem exists_packet {l : List Flit} (some' : ∃ f ∈ l, f.last = true) : ∃ packet rest, l = packet ++ rest ∧ IsPacket packet := by
  induction l with
  | nil =>
    obtain ⟨f, inside, -⟩ := some'
    cases inside
  | cons f l ih =>
    cases ends : f.last with
    | true => exact ⟨[f], l, rfl, [], f, rfl, ends, fun g inside => absurd inside List.not_mem_nil⟩
    | false =>
      obtain ⟨packet, rest, rfl, body, g, rfl, last, inner⟩ := ih (by
        obtain ⟨g, inside, last⟩ := some'
        rcases List.mem_cons.mp inside with rfl | inside
        · rw [ends] at last
          cases last
        · exact ⟨g, inside, last⟩)
      refine ⟨f :: (body ++ [g]), rest, rfl, f :: body, g, rfl, last, fun h inside => ?_⟩
      rcases List.mem_cons.mp inside with rfl | inside
      · exact ends
      · exact inner h inside

/-- A flit that is refused while the only one leaves marks the empty buffer as filled. -/
theorem not_queues_of_clash {s : Log 1} (holds : Holds s) {e : Event} (clash : Clash full s.regs e) :
    ¬Queues full (cycle full s e) := by
  obtain ⟨given, up, taken⟩ := clash
  have zero : s.regs.rp = 0 := Nat.lt_one_iff.mp holds.wf.bound
  have valid : s.regs.reg_out_valid = true := by
    rw [flit_out, Bool.and_eq_true] at up
    exact up.1
  have refused : s.regs.flit_in_ready = false := by simp [flit_in_ready, zero, valid]
  have stays : ((cycle full s e).regs.flit_out full) = s.regs.flit_out full := by
    simp [cycle, next, flit_out, given, refused, zero, valid, anyLast, data_last_shifted]
  intro queues
  have head := queues.head (by rw [stays]; exact up)
  have gone : (cycle full s e).entered.length = (cycle full s e).left.length := by
    simp [cycle, DiiFlit.passed, given, refused, up, taken, holds.same, DiiBuffer.flits, valid, zero]
  rw [List.getElem?_eq_none (Nat.le_of_eq gone)] at head
  cases head

theorem run_concat (s : Log size) (es : List Event) (e : Event) :
    run full s (es ++ [e]) = cycle full (run full s es) e := by
  simp [run]

theorem Holds.run {s : Log size} (holds : Holds s) {es : List Event}
    (apart : ∀ k e, es[k]? = some e → 2 ≤ size ∨ ¬Clash full (run full s (es.take k)).regs e) :
    Holds (run full s es) := by
  induction es using List.reverseRecOn with
  | nil => exact holds
  | append_singleton es e ih =>
    rw [run_concat]
    have before : Holds (PacketBuffer.run full s es) := by
      refine ih fun k e' here => ?_
      have below : k < es.length := (List.getElem?_eq_some_iff.mp here).1
      have same := apart k e' (by rw [List.getElem?_append_left below, here])
      rwa [List.take_append_of_le_length (Nat.le_of_lt below)] at same
    refine before.cycle (calm_of_apart ?_)
    have last := apart es.length e (by rw [List.getElem?_append_right (Nat.le_refl _), Nat.sub_self]; rfl)
    rwa [List.take_left] at last

/-- From reset on the buffer is a queue of whole packets in every cycle, exactly when it has two entries or no
flit is ever offered in the cycle in which one leaves. -/
theorem queues_iff (positive : 1 ≤ size) {s : Log size} (reset : AfterReset s) (es : List Event) :
    (∀ k, Queues full (run full s (es.take k))) ↔
      2 ≤ size ∨ ∀ k e, es[k]? = some e → ¬Clash full (run full s (es.take k)).regs e := by
  constructor
  · intro queues
    by_contra wrong
    rw [not_or] at wrong
    obtain ⟨small, some'⟩ := wrong
    obtain rfl : size = 1 := by omega
    -- the first clash breaks the queue of the cycle behind it
    have clash : ∃ k, ∃ e, es[k]? = some e ∧ Clash full (run full s (es.take k)).regs e := by
      by_contra never
      exact some' fun k e here bad => never ⟨k, e, here, bad⟩
    classical
    obtain ⟨e, here, bad⟩ := Nat.find_spec clash
    have holds : Holds (run full s (es.take (Nat.find clash))) := by
      refine (holds_reset positive reset).run fun k e' early => .inr fun bad' => ?_
      have below : k < Nat.find clash := by
        have := (List.getElem?_eq_some_iff.mp early).1
        rw [List.length_take] at this
        omega
      rw [List.getElem?_take_of_lt below] at early
      rw [List.take_take, Nat.min_eq_left (Nat.le_of_lt below)] at bad'
      exact Nat.find_min clash below ⟨e', early, bad'⟩
    refine not_queues_of_clash holds bad ?_
    rw [← run_concat]
    have next := queues (Nat.find clash + 1)
    rwa [List.take_add_one, here] at next
  · intro apart k
    refine ((holds_reset positive reset).run fun j e here => ?_).queues
    refine apart.imp id fun apart => ?_
    have below : j < k := by
      have := (List.getElem?_eq_some_iff.mp here).1
      rw [List.length_take] at this
      omega
    rw [List.getElem?_take_of_lt below] at here
    rw [List.take_take, Nat.min_eq_left (Nat.le_of_lt below)]
    exact apart j e here

def started (size : Nat) : Log size := ⟨⟨⟨fun _ => ⟨true, 0⟩, 0, false⟩, 0⟩, [], []⟩

theorem afterReset_started (size : Nat) : AfterReset (started size) := ⟨rfl, rfl, rfl, rfl, rfl⟩

/-- Two packets, the second of which is offered while the first one leaves. -/
def twoPackets : List Event := [⟨.ofFlit ⟨true, 5⟩, false⟩, ⟨.ofFlit ⟨true, 6⟩, true⟩, ⟨.idle, true⟩]

theorem queues_iff_of_two : Queues true (run true (started 2) (twoPackets.take 2)) :=
  (queues_iff (Nat.le_succ 1) (afterReset_started 2) twoPackets).mpr (.inl (Nat.le_refl 2)) 2

/-- A buffer of one entry hands out the first packet a second time. -/
theorem not_isQueue_one : ¬IsQueue 1 false ∧ ¬IsQueue 1 true :=
  ⟨fun queue => absurd (queue (started 1) (afterReset_started 1) twoPackets).order (by decide),
    fun queue => absurd (queue (started 1) (afterReset_started 1) twoPackets).order (by decide)⟩

end PacketBuffer

end LowRisc.Debug
