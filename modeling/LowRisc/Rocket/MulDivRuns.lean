import LowRisc.Rocket.MulDivPhases

/-! Runs of the multiplier and divider.

Whatever comes in, every response is the answer to a request, each request is answered at most once, in
order, and not later than some cycles after it was taken.
-/

set_option autoImplicit false

namespace LowRisc.Rocket.MulDiv

open LowRisc.Lib LowRisc.Chisel LowRisc.Rocket.Decode

variable {c : Config} {s : State c.w}

/-! What comes out. -/

theorem operand_modEq (n : Nat) (signed : Bool) (x : Nat) : operand n signed x ≡ x [ZMOD 2 ^ n] := by
  have size : (2 : Int) ^ n = ((2 ^ n : Nat) : Int) := by push_cast; rfl
  unfold operand
  rw [size]
  cases signed with
  | true => exact Int.bmod_emod
  | false => exact_mod_cast Int.mod_modEq x _

/-- The control signals that are left open have no effect on the answer. -/
theorem outcome_modEq (op : Op) {r : MultiplierReq c.w} (code : r.fn.toNat = op.fn) :
    outcome c r ≡ op.value c.w (operand (size c r.dw) op.lhsSigned r.in1.toNat) (operand (size c r.dw) op.rhsSigned r.in2.toNat)
      [ZMOD 2 ^ size c r.dw] := by
  obtain ⟨isMul, isHi, signs⟩ := control_eq op code
  have left : lhs c r = operand (size c r.dw) (control r.fn).lhsSigned r.in1.toNat := (sext_spec _ _ _).2.1
  have right : rhs c r = operand (size c r.dw) (control r.fn).rhsSigned r.in2.toNat := (sext_spec _ _ _).2.1
  by_cases open' : op = .mul
  · subst open'
    rw [outcome, isMul, isHi, left, right]
    simp only [Op.isMul, Op.isHi, Op.value, if_true, Bool.false_eq_true, if_false]
    exact ((operand_modEq _ _ _).trans (operand_modEq _ _ _).symm).mul ((operand_modEq _ _ _).trans (operand_modEq _ _ _).symm)
  · obtain ⟨lhsSigned, rhsSigned⟩ := signs open'
    rw [outcome, isMul, isHi, left, right, lhsSigned, rhsSigned]
    cases op <;> first | exact absurd rfl open' | rfl

theorem respData_spec (op : Op) (code : s.req.fn.toNat = op.fn) (shows : Shows c s (outcome c s.req)) :
    (respData c s : Int) = answer c op s.req := by
  obtain ⟨halves, half⟩ := half_add_half c
  have same := outcome_modEq op code
  unfold respData answer
  cases whole : s.req.dw with
  | true =>
    rw [whole] at same
    simp only [if_true]
    rw [bits_low _ (w_pos c)]
    push_cast
    exact Eq.trans shows same
  | false =>
    have narrow : size c false = c.w / 2 := rfl
    rw [whole, narrow] at same
    simp only [Bool.false_eq_true, if_false]
    rw [bits_low _ half]
    -- the low half of the register is that of the value
    have low : (s.remainder : Int) ≡ _ [ZMOD 2 ^ (c.w / 2)] :=
      (Int.ModEq.of_dvd (pow_dvd_pow 2 (Nat.div_le_self _ _)) shows).trans same
    have size : (2 : Int) ^ (c.w / 2) = ((2 ^ (c.w / 2) : Nat) : Int) := by push_cast; rfl
    have folded : ∀ v : Int, (s.remainder : Int) ≡ v [ZMOD 2 ^ (c.w / 2)] →
        Int.bmod s.remainder (2 ^ (c.w / 2)) = Int.bmod v (2 ^ (c.w / 2)) := by
      intro v congruent
      rw [size] at congruent
      rw [← Int.emod_bmod, congruent, Int.emod_bmod]
    rw [← folded _ low, bmod_eq half]
    have less : s.remainder % 2 ^ (c.w / 2) < 2 ^ (c.w / 2) := Nat.mod_lt _ (Nat.two_pow_pos _)
    have square : (2 : Int) ^ c.w = 2 ^ (c.w / 2) * 2 ^ (c.w / 2) := by rw [← pow_add, halves]
    have positive : (1 : Int) ≤ 2 ^ (c.w / 2) := by exact_mod_cast Nat.two_pow_pos (c.w / 2)
    have natural : (0 : Int) ≤ (s.remainder % 2 ^ (c.w / 2) : Nat) := Int.natCast_nonneg _
    zify at less natural
    have wide : (2 : Int) ^ (c.w / 2) ≤ 2 ^ c.w := by
      rw [square]
      nlinarith
    cases s.remainder.testBit (c.w / 2 - 1) with
    | true =>
      have one := Nat.two_pow_pos (c.w / 2)
      simp only [if_true]
      rw [← Int.add_emod_right, Int.emod_eq_of_lt (by push_cast; linarith) (by push_cast; linarith), square]
      push_cast [one]
      ring
    | false =>
      simp only [Bool.false_eq_true, if_false, sub_zero]
      rw [Int.emod_eq_of_lt (by push_cast; linarith) (by push_cast; linarith)]
      simp

/-! Runs. -/

theorem work_req (s : State c.w) : (work c s).req = s.req := by
  unfold work
  cases s.state with
  | busy => cases s.isMul <;> rfl
  | ready | negInputs | moveRem | negOutput | done => rfl

/-- The unit is right about a request with a known code. -/
def Sound (c : Config) (s : State c.w) : Prop := ∀ op : Op, s.req.fn.toNat = op.fn → Good c s

theorem next_sound (sound : Sound c s) (i : Input c.w) : Sound c (next c s i) := by
  intro op code
  unfold next at code ⊢
  split at code
  · rename_i taken
    rw [if_pos taken]
    exact accept_good i.bits
  · rename_i left
    rw [if_neg left]
    split at code
    · rename_i freed
      rw [if_pos freed]
      exact .ready rfl
    · rename_i goes
      rw [if_neg goes]
      rw [work_req] at code
      exact work_good op code (sound op code)

theorem Good.shows (good : Good c s) (done : s.state = .done) : Shows c s (outcome c s.req) := by
  cases good with
  | done _ shows => exact shows
  | ready phase | negInputs phase | multiplying phase | dividing phase | moveRem phase | negOutput phase =>
    rw [done] at phase
    cases phase

theorem work_ready_iff (s : State c.w) : (work c s).state = .ready ↔ s.state = .ready := by
  unfold work
  cases phase : s.state with
  | busy =>
    cases s.isMul with
    | true =>
      rw [if_pos rfl]
      simp only [mulStep, phase]
      split
      · split <;> simp
      · simp
    | false =>
      simp only [Bool.false_eq_true, if_false, divStep, phase]
      split
      · split
        · simp
        · split <;> simp
      · simp
  | moveRem => cases s.negOut <;> simp
  | ready | negInputs | negOutput | done => simp [phase, negInputs]

theorem accept_ne_ready (r : MultiplierReq c.w) (k : Control) : (accept c r k).state ≠ .ready := by
  simp only [accept]
  split <;> simp

structure Response (w : Nat) where
  request : Option (MultiplierReq w)
  tag : Nat
  data : Nat

structure Trace (c : Config) where
  unit : State c.w
  requests : List (MultiplierReq c.w)
  pending : Option (MultiplierReq c.w)
  responses : List (Response c.w)

theorem next_of_request {i : Input c.w} (ready : s.state = .ready) (valid : i.valid = true) :
    next c s i = accept c i.bits (control i.bits.fn) := by
  simp [next, valid, reqReady, ready]

namespace Trace

variable (t : Trace c) (i : Input c.w)

def reqFire : Bool := i.valid && reqReady c t.unit

def respFire : Bool := respValid c t.unit && i.ready

def step : Trace c where
  unit := next c t.unit i
  requests := if t.reqFire i then t.requests ++ [i.bits] else t.requests
  pending := if t.reqFire i then some i.bits else if t.respFire i || i.kill then none else t.pending
  responses := if t.respFire i then t.responses ++ [⟨t.pending, t.unit.req.tag, respData c t.unit⟩] else t.responses

theorem step_of_request {t : Trace c} {i : Input c.w} (ready : t.unit.state = .ready) (valid : i.valid = true) :
    t.step i = ⟨accept c i.bits (control i.bits.fn), t.requests ++ [i.bits], some i.bits, t.responses⟩ := by
  simp [step, reqFire, respFire, valid, reqReady, respValid, ready, next_of_request ready valid]

/-- The response belongs to a request and has its tag and its answer. -/
def Right (c : Config) (x : Response c.w) : Prop :=
  ∃ r, x.request = some r ∧ x.tag = r.tag ∧ ∀ op : Op, r.fn.toNat = op.fn → (x.data : Int) = answer c op r

structure Invariant (t : Trace c) : Prop where
  sound : Sound c t.unit
  busy : t.unit.state ≠ .ready → t.pending = some t.unit.req
  free : t.unit.state = .ready → t.pending = none
  right : ∀ x ∈ t.responses, Right c x
  order : (t.responses.filterMap Response.request ++ t.pending.toList).Sublist t.requests

theorem start_invariant (ready : s.state = .ready) : Invariant (c := c) ⟨s, [], none, []⟩ where
  sound _ _ := .ready ready
  busy working := absurd ready working
  free _ := rfl
  right _ inside := (List.not_mem_nil inside).elim
  order := .refl []

variable {t : Trace c} {i : Input c.w}

theorem not_respFire_of_reqFire (taken : t.reqFire i = true) : t.respFire i = false := by
  simp only [reqFire, reqReady, Bool.and_eq_true, decide_eq_true_eq] at taken
  simp [respFire, respValid, taken.2]

theorem unit_of_reqFire (taken : t.reqFire i = true) : (t.step i).unit = accept c i.bits (control i.bits.fn) := if_pos taken

theorem unit_freed (left : t.reqFire i = false) (freed : (t.respFire i || i.kill) = true) : (t.step i).unit.state = .ready := by
  have here : (t.step i).unit = { work c t.unit with state := .ready } :=
    (if_neg (Bool.eq_false_iff.mp left)).trans (if_pos freed)
  rw [here]

theorem unit_goes (left : t.reqFire i = false) (goes : (t.respFire i || i.kill) = false) : (t.step i).unit = work c t.unit :=
  (if_neg (Bool.eq_false_iff.mp left)).trans (if_neg (Bool.eq_false_iff.mp goes))

theorem Invariant.response (inv : Invariant t) (sent : t.respFire i = true) :
    t.pending = some t.unit.req ∧ Right c ⟨t.pending, t.unit.req.tag, respData c t.unit⟩ := by
  simp only [respFire, respValid, Bool.and_eq_true, decide_eq_true_eq] at sent
  have open' : t.pending = some t.unit.req := inv.busy (by rw [sent.1]; decide)
  exact ⟨open', t.unit.req, open', rfl, fun op code => respData_spec op code ((inv.sound op code).shows sent.1)⟩

theorem Invariant.step (inv : Invariant t) (i : Input c.w) : Invariant (t.step i) := by
  have sound : Sound c (t.step i).unit := next_sound inv.sound i
  cases taken : t.reqFire i with
  | true =>
    have quiet := not_respFire_of_reqFire taken
    have unit := unit_of_reqFire taken
    have ready : t.unit.state = .ready := by
      simp only [reqFire, reqReady, Bool.and_eq_true, decide_eq_true_eq] at taken
      exact taken.2
    refine ⟨sound, fun _ => ?_, fun ready' => ?_, ?_, ?_⟩
    · rw [unit]
      simp [Trace.step, taken, accept]
    · rw [unit] at ready'
      exact absurd ready' (accept_ne_ready _ _)
    · simp only [Trace.step, quiet, Bool.false_eq_true, if_false]
      exact inv.right
    · have order := inv.order
      rw [inv.free ready] at order
      simp only [Option.toList_none, List.append_nil] at order
      simp only [Trace.step, taken, quiet, Bool.false_eq_true, if_false, if_true, Option.toList_some]
      exact order.append_right [i.bits]
  | false =>
    cases sent : t.respFire i with
    | true =>
      -- the answer leaves with its request
      have ready := unit_freed taken (by rw [sent, Bool.true_or])
      obtain ⟨open', right⟩ := inv.response sent
      refine ⟨sound, fun working => absurd ready working, fun _ => ?_, ?_, ?_⟩
      · simp [Trace.step, taken, sent]
      · simp only [Trace.step, sent, if_true]
        intro x inside
        rcases List.mem_append.mp inside with before | now
        · exact inv.right x before
        · rw [List.mem_singleton.mp now]
          exact right
      · have order := inv.order
        rw [open', Option.toList_some] at order
        simp only [Trace.step, taken, sent, Bool.false_eq_true, if_false, if_true, Bool.true_or, Option.toList_none, List.append_nil,
          List.filterMap_append, open']
        exact order
    | false =>
      cases killed : i.kill with
      | true =>
        -- a killed request leaves without an answer
        have ready := unit_freed taken (by rw [killed, Bool.or_true])
        refine ⟨sound, fun working => absurd ready working, fun _ => ?_, ?_, ?_⟩
        · simp [Trace.step, taken, killed]
        · simp only [Trace.step, sent, Bool.false_eq_true, if_false]
          exact inv.right
        · simp only [Trace.step, taken, sent, killed, Bool.false_eq_true, if_false, Bool.or_true, if_true, Option.toList_none,
            List.append_nil]
          exact (List.sublist_append_left _ _).trans inv.order
      | false =>
        have unit := unit_goes taken (by rw [sent, killed]; rfl)
        refine ⟨sound, fun working => ?_, fun ready => ?_, ?_, ?_⟩
        · rw [unit, ne_eq, work_ready_iff] at working
          rw [unit, work_req]
          simp only [Trace.step, taken, sent, killed, Bool.false_eq_true, if_false, Bool.or_self]
          exact inv.busy working
        · rw [unit, work_ready_iff] at ready
          simp only [Trace.step, taken, sent, killed, Bool.false_eq_true, if_false, Bool.or_self]
          exact inv.free ready
        · simp only [Trace.step, sent, Bool.false_eq_true, if_false]
          exact inv.right
        · simp only [Trace.step, taken, sent, killed, Bool.false_eq_true, if_false, Bool.or_self]
          exact inv.order

theorem Invariant.run (inv : Invariant t) (inputs : List (Input c.w)) : Invariant (inputs.foldl Trace.step t) := by
  induction inputs generalizing t with
  | nil => exact inv
  | cons i inputs ih => exact ih (inv.step i)

theorem Invariant.complete_step (inv : Invariant t) (calm : i.kill = false)
    (all : t.responses.filterMap Response.request ++ t.pending.toList = t.requests) :
    (t.step i).responses.filterMap Response.request ++ (t.step i).pending.toList = (t.step i).requests := by
  cases taken : t.reqFire i with
  | true =>
    have quiet := not_respFire_of_reqFire taken
    have ready : t.unit.state = .ready := by
      simp only [reqFire, reqReady, Bool.and_eq_true, decide_eq_true_eq] at taken
      exact taken.2
    rw [inv.free ready, Option.toList_none, List.append_nil] at all
    simp only [Trace.step, taken, quiet, Bool.false_eq_true, if_false, if_true, Option.toList_some, all]
  | false =>
    cases sent : t.respFire i with
    | true =>
      have open' := (inv.response sent).1
      rw [open', Option.toList_some] at all
      simp only [Trace.step, taken, sent, calm, Bool.or_false, Bool.false_eq_true, if_false, if_true, Option.toList_none,
        List.append_nil, List.filterMap_append, open']
      exact all
    | false =>
      simp only [Trace.step, taken, sent, calm, Bool.or_false, Bool.false_eq_true, if_false]
      exact all

theorem Invariant.complete_run (inv : Invariant t) (inputs : List (Input c.w)) (calm : ∀ i ∈ inputs, i.kill = false)
    (all : t.responses.filterMap Response.request ++ t.pending.toList = t.requests) :
    (inputs.foldl Trace.step t).responses.filterMap Response.request ++ (inputs.foldl Trace.step t).pending.toList =
      (inputs.foldl Trace.step t).requests := by
  induction inputs generalizing t with
  | nil => exact all
  | cons i inputs ih =>
    apply ih (inv.step i)
    · intro j inside
      exact calm j (List.mem_cons_of_mem i inside)
    · exact inv.complete_step (calm i List.mem_cons_self) all

end Trace

/-- From an idle unit, whatever comes in: every response is the answer to a request, under its tag; the
answered requests are in the order of the requests, each at most once, and none is missing where nothing
is killed. -/
theorem responses_are_right (c : Config) (s : State c.w) (ready : s.state = .ready) (inputs : List (Input c.w)) :
    let t := inputs.foldl Trace.step (⟨s, [], none, []⟩ : Trace c)
    (∀ x ∈ t.responses, Trace.Right c x) ∧
      (t.responses.filterMap Response.request ++ t.pending.toList).Sublist t.requests ∧
      ((∀ i ∈ inputs, i.kill = false) → t.responses.filterMap Response.request ++ t.pending.toList = t.requests) := by
  have start := Trace.start_invariant ready
  have inv := start.run inputs
  exact ⟨inv.right, inv.order, fun calm => start.complete_run inputs calm rfl⟩

def divide : MultiplierReq 64 := ⟨4, true, 100, 7, 1⟩

def afterDivide : Trace (.rocket true) :=
  List.foldl Trace.step ⟨reset 64, [], none, []⟩ (⟨true, divide, false, true⟩ :: List.replicate 80 (idle 64))

/-- The decoder's signals for a division, which do not reduce by evaluation. -/
theorem control_divide : control divide.fn = ⟨false, false, true, true⟩ := by
  obtain ⟨isMul, isHi, signs⟩ := control_eq .div (show divide.fn.toNat = Op.div.fn from rfl)
  obtain ⟨left, right⟩ := signs (by decide)
  cases same : control divide.fn
  simp_all [Op.isMul, Op.isHi, Op.lhsSigned, Op.rhsSigned]

theorem afterDivide_pending : afterDivide.pending = none := by
  rw [afterDivide, List.foldl_cons, Trace.step_of_request rfl rfl, control_divide]
  exact Option.isNone_iff_eq_none.mp (by decide +kernel)

/-- A division of 100 by 7 is answered with 14. -/
theorem responses_are_right_of_div : afterDivide.responses.filterMap Response.request = [divide] ∧
    afterDivide.responses.all (fun x => decide (x.tag = 1 ∧ x.data = 14)) = true := by
  obtain ⟨right, order, all⟩ := responses_are_right (.rocket true) (reset 64) rfl
    (⟨true, divide, false, true⟩ :: List.replicate 80 (idle 64))
  have answered : afterDivide.responses.filterMap Response.request ++ afterDivide.pending.toList = [divide] :=
    all (by decide)
  rw [afterDivide_pending, Option.toList_none, List.append_nil] at answered
  refine ⟨answered, List.all_eq_true.mpr fun x inside => decide_eq_true ?_⟩
  obtain ⟨r, request, tag, data⟩ := right x inside
  have listed := order.subset (List.mem_append_left _ (List.mem_filterMap.mpr ⟨x, inside, request⟩))
  obtain rfl : r = divide := List.mem_singleton.mp listed
  refine ⟨tag, ?_⟩
  have value : answer (.rocket true) .div divide = 14 := by decide
  have data' := data .div rfl
  rw [value] at data'
  exact_mod_cast data'

/-! Time. -/

def rank (c : Config) (s : State c.w) : Nat :=
  match s.state with
  | .ready | .done => 0
  | .negOutput => 1
  | .moveRem => 2
  | .busy => c.w + 1 - s.count + 2
  | .negInputs => c.w + 4

theorem rank_le (c : Config) (s : State c.w) : rank c s ≤ c.w + 4 := by
  unfold rank
  cases s.state <;> dsimp only <;> omega

theorem rank_work (good : Good c s) (working : s.state ≠ .ready) (going : s.state ≠ .done) :
    rank c (work c s) < rank c s := by
  cases good with
  | ready phase => exact absurd phase working
  | done phase => exact absurd phase going
  | negInputs phase loaded =>
    have start : s.count = 0 := by
      rw [loaded]
      rfl
    have later : rank c (work c s) = c.w + 1 - s.count + 2 := by simp [work, phase, rank, negInputs]
    have now : rank c s = c.w + 4 := by simp [rank, phase]
    omega
  | multiplying phase cmd hi f n busy same =>
    have here : work c s = mulStep c s := by simp [work, phase, busy.isMul]
    have now : rank c s = c.w + 1 - s.count + 2 := by simp [rank, phase]
    -- a step takes several places, but at least one
    have below : s.count ≤ s.count * c.unroll := Nat.le_mul_of_pos_right _ c.positive
    have count := busy.count
    rw [here, now]
    obtain ⟨-, -, -, -, ⟨stays, more, -⟩ | ⟨done, -⟩ | ⟨up, -⟩⟩ := mulStep_spec busy
    · have later : rank c (mulStep c s) = c.w + 1 - (mulStep c s).count + 2 := by simp [rank, stays, phase]
      omega
    · have later : rank c (mulStep c s) = 0 := by simp [rank, done]
      omega
    · have later : rank c (mulStep c s) = 2 := by simp [rank, up]
      omega
  | dividing phase cmd hi busy =>
    have here : work c s = divStep c s := by simp [work, phase, busy.isMul]
    have now : rank c s = c.w + 1 - s.count + 2 := by simp [rank, phase]
    have count := busy.count
    rw [here, now]
    obtain ⟨-, -, -, ⟨stays, more, later⟩ | ⟨state, -⟩⟩ := busy.step
    · have rest : rank c (divStep c s) = c.w + 1 - (divStep c s).count + 2 := by simp [rank, stays, phase]
      have inside := later.count
      omega
    -- at most two cycles are left: to move the remainder and to negate it
    · have rest : rank c (divStep c s) ≤ 2 := by
        unfold rank
        rw [state]
        cases s.isHi <;> cases s.negOut <;> simp
      omega
  | moveRem phase =>
    cases sign : s.negOut <;> simp [work, phase, rank, sign]
  | negOutput phase => simp [work, phase, rank]

theorem next_of_working (working : s.state ≠ .ready) (going : s.state ≠ .done) {i : Input c.w} (calm : i.kill = false) :
    next c s i = work c s := by
  simp [next, reqReady, respValid, working, going, calm]

theorem done_in_time (op : Op) (n : Nat) (code : s.req.fn.toNat = op.fn) (good : Good c s) (working : s.state ≠ .ready)
    (left : rank c s ≤ n) (inputs : List (Input c.w)) (enough : n ≤ inputs.length) (calm : ∀ i ∈ inputs, i.kill = false) :
    ∃ m ≤ n, ((inputs.take m).foldl (next c) s).state = .done ∧ ((inputs.take m).foldl (next c) s).req = s.req
      ∧ Good c ((inputs.take m).foldl (next c) s) := by
  induction n generalizing s inputs with
  | zero =>
    refine ⟨0, Nat.le_refl 0, ?_, rfl, good⟩
    by_contra going
    have less := rank_work good working going
    omega
  | succ n ih =>
    by_cases going : s.state = .done
    · exact ⟨0, Nat.zero_le _, going, rfl, good⟩
    · obtain ⟨i, rest, rfl⟩ := List.exists_cons_of_length_pos (Nat.lt_of_lt_of_le (Nat.succ_pos n) enough)
      have step := next_of_working working going (calm i List.mem_cons_self)
      have less := rank_work good working going
      obtain ⟨m, few, done, request, good'⟩ := ih (s := work c s) (by rw [work_req]; exact code) (work_good op code good)
        (mt (work_ready_iff s).mp working) (by omega) rest (by simpa using enough)
        fun j inside => calm j (List.mem_cons_of_mem i inside)
      refine ⟨m + 1, Nat.succ_le_succ few, ?_⟩
      rw [List.take_succ_cons, List.foldl_cons, step]
      exact ⟨done, request.trans (work_req s), good'⟩

/-- A request that is taken and not killed has its answer on the port after at most four cycles more
than the width. -/
theorem answers_in_time (c : Config) (s : State c.w) (ready : s.state = .ready) (i : Input c.w) (valid : i.valid = true) (op : Op)
    (code : i.bits.fn.toNat = op.fn) (inputs : List (Input c.w)) (enough : c.w + 4 ≤ inputs.length)
    (calm : ∀ j ∈ inputs, j.kill = false) :
    ∃ m ≤ c.w + 4, ((inputs.take m).foldl (next c) (next c s i)).state = .done
      ∧ (respData c ((inputs.take m).foldl (next c) (next c s i)) : Int) = answer c op i.bits := by
  have taken := next_of_request (i := i) ready valid
  have request : (next c s i).req = i.bits := by
    rw [taken]
    rfl
  have good : Good c (next c s i) := by
    rw [taken]
    exact accept_good i.bits
  have working : (next c s i).state ≠ .ready := by
    rw [taken]
    exact accept_ne_ready _ _
  obtain ⟨m, few, done, same, good'⟩ := done_in_time op (c.w + 4) (by rw [request]; exact code) good working (rank_le c _) inputs enough calm
  refine ⟨m, few, done, ?_⟩
  have same' := same.trans request
  rw [← same']
  exact respData_spec op (by rw [same']; exact code) (good'.shows done)

/-- The remainder of -100 by 7 is -2. -/
theorem answers_in_time_of_rem : ∃ m ≤ 68, (respData (.rocket true) (((List.replicate 68 (idle 64)).take m).foldl (next (.rocket true))
    (next (.rocket true) (reset 64) ⟨true, ⟨6, true, -100, 7, 1⟩, false, true⟩)) : Int) = 2 ^ 64 - 2 := by
  obtain ⟨m, few, -, data⟩ := answers_in_time (.rocket true) (reset 64) rfl ⟨true, ⟨6, true, -100, 7, 1⟩, false, true⟩ rfl .rem rfl
    (List.replicate 68 (idle 64)) (by decide) (by decide)
  have value : answer (.rocket true) .rem ⟨6, true, -100, 7, 1⟩ = 2 ^ 64 - 2 := by decide
  exact ⟨m, few, data.trans value⟩

end LowRisc.Rocket.MulDiv
