import LowRisc.Socip.NastiLite

/-! The write bridge from a NASTI master to a lite slave. -/

set_option autoImplicit false

namespace LowRisc.Socip

open LowRisc.Lib NastiLite

namespace NastiLiteWriter

variable {I : Type}

structure NastiW (b : Nat) where
  data : Bus b
  strb : BitVec (2 ^ b)

structure LiteAw (I : Type) where
  id : I
  addr : Nat
  deriving DecidableEq

structure LiteW (b : Nat) where
  data : Bus b
  strb : BitVec (2 ^ b)

structure NastiB (I : Type) where
  id : I
  resp : BitVec 2

structure Regs (p : NastiLiteParams) (I : Type) where
  aw_buf : RequestBuffer (NastiReq I)
  xact_req : NastiReq I
  xact_req_valid : Bool
  xact_aw_cnt : Nat
  xact_b_cnt : Nat
  xact_vec : NastiW p.nb
  xact_resp : BitVec 2
  nasti_w_cnt : Nat
  lite_aw_cnt : Nat
  lite_aw_data_valid : Bool
  lite_b_cnt : Nat
  lite_b_data_valid : Bool
  lite_aw_send : Bool
  lite_w_send : Bool

/-- One cycle; `b` is the response of the lite slave. -/
structure Input (p : NastiLiteParams) (I : Type) where
  aw : Option (NastiReq I)
  w : Option (NastiW p.nb)
  b_ready : Bool
  aw_ready : Bool
  w_ready : Bool
  b : Option (BitVec 2)

variable (p : NastiLiteParams)

def wordAt (x : NastiW p.nb) (addr : Nat) : LiteW p.lb where
  data := (x.data >>> (8 * 2 ^ p.lb * p.wordOf addr)).setWidth _
  strb := (x.strb >>> (2 ^ p.lb * p.wordOf addr)).setWidth _

variable (m : Regs p I) (e : Input p I)

def awTaken : Option (NastiReq I) := e.aw.filter fun _ => !m.aw_buf.full

def nasti_w_ready : Bool :=
  m.xact_req_valid && !m.lite_b_data_valid && decide (m.nasti_w_cnt < m.xact_req.len + 1)

def wTaken : Option (NastiW p.nb) := e.w.filter fun _ => nasti_w_ready p m

def lite_aw_addr : Nat := (m.xact_req.addr + m.xact_aw_cnt * lite_step_size p m.xact_req) % 2 ^ p.ab

def lite_b_addr : Nat := (m.xact_req.addr + m.xact_b_cnt * lite_step_size p m.xact_req) % 2 ^ p.ab

def lite_aw_bypass : Bool := m.lite_aw_data_valid && (wordAt p m.xact_vec (lite_aw_addr p m)).strb == 0

def lite_b_bypass : Bool := m.lite_b_data_valid && (wordAt p m.xact_vec (lite_b_addr p m)).strb == 0

def liteAw : Option (LiteAw I) :=
  if m.lite_aw_data_valid && !m.lite_aw_send && !lite_aw_bypass p m then some ⟨m.xact_req.id, lite_aw_addr p m⟩ else none

def liteW : Option (LiteW p.lb) :=
  if m.lite_aw_data_valid && !m.lite_w_send && !lite_aw_bypass p m then some (wordAt p m.xact_vec (lite_aw_addr p m))
  else none

def liteAwTaken : Option (LiteAw I) := (liteAw p m).filter fun _ => e.aw_ready

def liteWTaken : Option (LiteW p.lb) := (liteW p m).filter fun _ => e.w_ready

def lite_req_send : Bool :=
  (m.lite_aw_send || (liteAwTaken p m e).isSome) && (m.lite_w_send || (liteWTaken p m e).isSome)

def liteBTaken : Option (BitVec 2) := e.b.filter fun _ => m.lite_b_data_valid

def nastiB : Option (NastiB I) :=
  if m.xact_req_valid && m.xact_b_cnt == lite_packet_size p m.xact_req then some ⟨m.xact_req.id, m.xact_resp⟩ else none

def nastiBTaken : Option (NastiB I) := (nastiB p m).filter fun _ => e.b_ready

def xact_finish : Bool := (nastiBTaken p m e).isSome

def aw_advances : Bool := lite_req_send p m e || lite_aw_bypass p m

def b_advances : Bool := (liteBTaken p m e).isSome || lite_b_bypass p m

def next : Regs p I where
  aw_buf := m.aw_buf.next p.maxTransaction (awTaken p m e) (xact_finish p m e || !m.xact_req_valid)
  xact_req :=
    if (xact_finish p m e || !m.xact_req_valid) && m.aw_buf.valid then m.aw_buf.buf m.aw_buf.rp else m.xact_req
  xact_req_valid := if xact_finish p m e || !m.xact_req_valid then m.aw_buf.valid else m.xact_req_valid
  xact_aw_cnt :=
    if aw_advances p m e then (m.xact_aw_cnt + 1) % 2 ^ (p.bufLenBits + 9)
    else if xact_finish p m e then 0 else m.xact_aw_cnt
  xact_b_cnt :=
    if b_advances p m e then (m.xact_b_cnt + 1) % 2 ^ (p.bufLenBits + 9)
    else if xact_finish p m e then 0 else m.xact_b_cnt
  xact_vec := (wTaken p m e).getD m.xact_vec
  xact_resp := (liteBTaken p m e).getD m.xact_resp
  nasti_w_cnt :=
    if (wTaken p m e).isSome then (m.nasti_w_cnt + 1) % 2 ^ 9 else if xact_finish p m e then 0 else m.nasti_w_cnt
  lite_aw_cnt :=
    if aw_advances p m e then
      if m.lite_aw_cnt = lite_packet_ratio p m.xact_req - 1 then 0 else (m.lite_aw_cnt + 1) % 2 ^ (p.bufLenBits + 1)
    else m.lite_aw_cnt
  lite_aw_data_valid :=
    if (wTaken p m e).isSome then true
    else if aw_advances p m e && m.lite_aw_cnt == lite_packet_ratio p m.xact_req - 1 then false
    else m.lite_aw_data_valid
  lite_b_cnt :=
    if b_advances p m e then
      if m.lite_b_cnt = lite_packet_ratio p m.xact_req - 1 then 0 else (m.lite_b_cnt + 1) % 2 ^ (p.bufLenBits + 1)
    else m.lite_b_cnt
  lite_b_data_valid :=
    if (wTaken p m e).isSome then true
    else if b_advances p m e && m.lite_b_cnt == lite_packet_ratio p m.xact_req - 1 then false
    else m.lite_b_data_valid
  lite_aw_send := if lite_req_send p m e then false else m.lite_aw_send || (liteAwTaken p m e).isSome
  lite_w_send := if lite_req_send p m e then false else m.lite_w_send || (liteWTaken p m e).isSome

/-! The bridge with what passed on its ports, burst by burst. -/

structure Ledger (p : NastiLiteParams) (I : Type) where
  beats : List (NastiW p.nb)
  aws : List (LiteAw I)
  ws : List (LiteW p.lb)
  bs : List (BitVec 2)
  answers : List (NastiB I)

structure System (p : NastiLiteParams) (I : Type) where
  regs : Regs p I
  accepted : List (NastiReq I)
  done : List (NastiReq I × Ledger p I)
  current : Ledger p I
  /-- The latest response of the lite slave. -/
  latest : Option (BitVec 2)

def record (s : System p I) (e : Input p I) : Ledger p I where
  beats := s.current.beats ++ (wTaken p s.regs e).toList
  aws := s.current.aws ++ (liteAwTaken p s.regs e).toList
  ws := s.current.ws ++ (liteWTaken p s.regs e).toList
  bs := s.current.bs ++ (liteBTaken p s.regs e).toList
  answers := s.current.answers ++ (nastiBTaken p s.regs e).toList

def cycle (s : System p I) (e : Input p I) : System p I where
  regs := next p s.regs e
  accepted := s.accepted ++ (awTaken p s.regs e).toList
  done := s.done ++ if xact_finish p s.regs e then [(s.regs.xact_req, record p s e)] else []
  current := if xact_finish p s.regs e then ⟨[], [], [], [], []⟩ else record p s e
  latest := (liteBTaken p s.regs e).or s.latest

def clock (s : System p I) (e : Input p I) : Option (System p I) := some (cycle p s e)

/-- Behind the reset. The registers without a reset have any value. -/
structure AfterReset (s : System p I) : Prop where
  regs : s.regs.aw_buf.rp = 0 ∧ s.regs.aw_buf.wp = 0 ∧ s.regs.aw_buf.valid = false ∧ s.regs.xact_req_valid = false ∧
    s.regs.xact_aw_cnt = 0 ∧ s.regs.xact_b_cnt = 0 ∧ s.regs.nasti_w_cnt = 0 ∧ s.regs.lite_aw_cnt = 0 ∧
    s.regs.lite_aw_data_valid = false ∧ s.regs.lite_b_cnt = 0 ∧ s.regs.lite_b_data_valid = false ∧
    s.regs.lite_aw_send = false ∧ s.regs.lite_w_send = false
  accepted : s.accepted = []
  done : s.done = []
  current : s.current = ⟨[], [], [], [], []⟩
  latest : s.latest = none

/-- Requests are legal, and the lite slave answers only writes that it has in full. -/
structure Offers (s : System p I) (e : Input p I) : Prop where
  aw : ∀ req, e.aw = some req → Legal p req
  b : e.b.isSome → s.current.bs.length < min s.current.aws.length s.current.ws.length

/-- Lite word `n` of a burst. -/
def wordOfBurst (req : NastiReq I) (beats : List (NastiW p.nb)) (n : Nat) : Option (LiteW p.lb) :=
  beats[n / lite_packet_ratio p req]?.map fun x => wordAt p x (wordAddr p req n)

def written (req : NastiReq I) (beats : List (NastiW p.nb)) (n : Nat) : Bool :=
  (wordOfBurst p req beats n).any fun w => w.strb != 0

/-- The lite words to be written among the first `n`. -/
def writes (req : NastiReq I) (beats : List (NastiW p.nb)) (n : Nat) : List Nat :=
  (List.range n).filter (written p req beats)

/-- Word `r` of beat `k` is to be written. -/
def wants (req : NastiReq I) (k : Nat) (x : NastiW p.nb) (r : Nat) : Bool :=
  (wordAt p x (wordAddr p req (k * lite_packet_ratio p req + r))).strb != 0

/-- No word without strobes lies between two words to be written. -/
def Contiguous (req : NastiReq I) (k : Nat) (x : NastiW p.nb) : Prop :=
  ∀ last < lite_packet_ratio p req, ∀ mid < last, ∀ first < mid,
    wants p req k x first = true → wants p req k x last = true → wants p req k x mid = true

/-- No lite response comes while the response side leaves a word without strobes, and when the master
is ready for the response of a burst, the latest lite response is an error exactly if one of the burst is. -/
structure Served (s : System p I) (e : Input p I) : Prop where
  skip : s.regs.lite_b_data_valid = true → (wordAt p s.regs.xact_vec (lite_b_addr p s.regs)).strb = 0 → e.b = none
  b : s.regs.xact_req_valid = true → s.regs.xact_b_cnt = lite_packet_size p s.regs.xact_req → e.b_ready = true →
    ∃ resp, s.latest = some resp ∧ (isError resp = true ↔ ∃ y ∈ s.current.bs, isError y = true)

structure PartRight (req : NastiReq I) (l : Ledger p I) : Prop where
  inBurst : l.beats.length ≤ req.len + 1
  addresses : l.aws <+: (writes p req l.beats (l.beats.length * lite_packet_ratio p req)).map fun n =>
    ⟨req.id, wordAddr p req n⟩
  words : l.ws <+: (writes p req l.beats (l.beats.length * lite_packet_ratio p req)).filterMap (wordOfBurst p req l.beats)
  open' : l.answers = []

structure BurstRight (req : NastiReq I) (l : Ledger p I) : Prop where
  beats : l.beats.length = req.len + 1
  addresses : l.aws = (writes p req l.beats (lite_packet_size p req)).map fun n => ⟨req.id, wordAddr p req n⟩
  words : l.ws = (writes p req l.beats (lite_packet_size p req)).filterMap (wordOfBurst p req l.beats)
  answered : l.bs.length = l.aws.length
  answer : ∃ resp, l.answers = [⟨req.id, resp⟩] ∧ (isError resp = true ↔ ∃ y ∈ l.bs, isError y = true)

structure Cooperative (s : System p I) (e : Input p I) : Prop where
  aw : e.aw = none
  w : s.current.beats.length ≤ s.regs.xact_req.len → e.w.isSome
  ready : e.aw_ready = true ∧ e.w_ready = true ∧ e.b_ready = true
  b : s.current.bs.length < min s.current.aws.length s.current.ws.length → e.b.isSome

def work (req : NastiReq I) : Nat := 2 * lite_packet_size p req + req.len + 3

def rank (s : System p I) : Nat :=
  ((s.accepted.drop s.done.length).map (work p)).sum + (if s.regs.xact_req_valid then 0 else 1) -
    (s.regs.xact_aw_cnt + s.regs.xact_b_cnt + s.regs.nasti_w_cnt)

/-- No request is lost or repeated, and the bursts are right. -/
structure Intact (s : System p I) : Prop where
  order : ∃ waiting, s.accepted =
    s.done.map Prod.fst ++ (if s.regs.xact_req_valid then [s.regs.xact_req] else []) ++ waiting
  done : ∀ x ∈ s.done, BurstRight p x.1 x.2
  current : if s.regs.xact_req_valid then PartRight p s.regs.xact_req s.current else s.current = ⟨[], [], [], [], []⟩
  progress : ∀ e, Offers p s e → Cooperative p s e → s.accepted = s.done.map Prod.fst ∨ rank p (cycle p s e) < rank p s

/-! One of the counters that walk the words of the beats. `place` is the word it is at, behind `T`
beats of `R` words. -/

structure Walks (R T : Nat) (valid : Bool) (cnt place : Nat) : Prop where
  open' : valid = true → 0 < T ∧ place = (T - 1) * R + cnt ∧ cnt < R
  shut : valid = false → place = T * R ∧ cnt = 0

section
variable {R T cnt place : Nat} {valid : Bool}

theorem Walks.inBeat (walks : Walks R T valid cnt place) (on : valid = true) :
    (T - 1) * R ≤ place ∧ place < T * R ∧ place / R = T - 1 := by
  obtain ⟨some', at', inside⟩ := walks.open' on
  have last : T * R = (T - 1) * R + R := by
    obtain ⟨k, rfl⟩ := Nat.exists_eq_succ_of_ne_zero (Nat.ne_of_gt some')
    rw [Nat.succ_mul]
    rfl
  refine ⟨by omega, by omega, ?_⟩
  rw [at', Nat.mul_comm, Nat.mul_add_div (by omega), Nat.div_eq_of_lt inside, Nat.add_zero]

theorem Walks.le (walks : Walks R T valid cnt place) : place ≤ T * R := by
  cases on : valid
  · exact Nat.le_of_eq (walks.shut on).1
  · exact Nat.le_of_lt (walks.inBeat on).2.1

theorem Walks.advance {M : Nat} (walks : Walks R T valid cnt place) (on : valid = true) (fits : R ≤ M) :
    Walks R T (if cnt == R - 1 then false else valid) (if cnt = R - 1 then 0 else (cnt + 1) % M) (place + 1) := by
  obtain ⟨some', at', inside⟩ := walks.open' on
  have last : T * R = (T - 1) * R + R := by
    obtain ⟨k, rfl⟩ := Nat.exists_eq_succ_of_ne_zero (Nat.ne_of_gt some')
    rw [Nat.succ_mul]
    rfl
  by_cases final : cnt = R - 1
  · refine ⟨fun on => ?_, fun _ => ⟨by omega, if_pos final⟩⟩
    simp [final] at on
  · rw [if_neg final, Nat.mod_eq_of_lt (by omega)]
    refine ⟨fun _ => ⟨some', by omega, by omega⟩, fun off => ?_⟩
    simp [final, on] at off

theorem Walks.load (walks : Walks R T valid cnt place) (off : valid = false) (positive : 0 < R) :
    Walks R (T + 1) true cnt place := by
  obtain ⟨at', zero⟩ := walks.shut off
  exact ⟨fun _ => ⟨Nat.succ_pos _, by rw [Nat.add_sub_cancel]; omega, by omega⟩, fun h => by cases h⟩

end

/-! The words that are written. -/

section
variable {p} {req : NastiReq I} {beats : List (NastiW p.nb)}

theorem wordOfBurst_append {n : Nat} (inside : n < beats.length * lite_packet_ratio p req) (more : List (NastiW p.nb)) :
    wordOfBurst p req (beats ++ more) n = wordOfBurst p req beats n := by
  have beat : n / lite_packet_ratio p req < beats.length := (Nat.div_lt_iff_lt_mul (ratio_pos p req)).mpr inside
  rw [wordOfBurst, wordOfBurst, List.getElem?_append_left beat]

theorem writes_append {n : Nat} (inside : n ≤ beats.length * lite_packet_ratio p req) (more : List (NastiW p.nb)) :
    writes p req (beats ++ more) n = writes p req beats n := by
  apply List.filter_congr
  intro k member
  have below := List.mem_range.mp member
  rw [written, written, wordOfBurst_append (by omega)]

theorem words_append {n : Nat} (inside : n ≤ beats.length * lite_packet_ratio p req) (more : List (NastiW p.nb)) :
    (writes p req (beats ++ more) n).filterMap (wordOfBurst p req (beats ++ more)) =
      (writes p req beats n).filterMap (wordOfBurst p req beats) := by
  rw [writes_append inside]
  apply List.filterMap_congr
  intro k member
  have below := List.mem_range.mp (List.mem_filter.mp member).1
  exact wordOfBurst_append (by omega) more

theorem writes_succ (n : Nat) :
    writes p req beats (n + 1) = writes p req beats n ++ if written p req beats n then [n] else [] := by
  rw [writes, List.range_succ, List.filter_append]
  cases on : written p req beats n <;> simp [writes, on]

variable (p req beats) in
theorem writes_initial {n k : Nat} (le : n ≤ k) : writes p req beats n <+: writes p req beats k := by
  induction le with
  | refl => exact List.prefix_refl _
  | step _ ih =>
    rw [writes_succ]
    exact ih.trans (List.prefix_append _ _)

theorem exists_written {n k : Nat} (more : (writes p req beats n).length < (writes p req beats k).length) :
    ∃ j, n ≤ j ∧ j < k ∧ written p req beats j = true := by
  induction k with
  | zero => exact absurd more (Nat.not_lt_zero _)
  | succ k ih =>
    rw [writes_succ, List.length_append] at more
    cases on : written p req beats k
    · rw [on] at more
      obtain ⟨j, after, below, wanted⟩ := ih (by simpa using more)
      exact ⟨j, after, by omega, wanted⟩
    · by_contra none'
      have behind : k < n := by
        by_contra inside
        exact none' ⟨k, by omega, Nat.lt_succ_self _, on⟩
      have less := (writes_initial p req beats (Nat.succ_le_of_lt behind)).length_le
      rw [writes_succ, List.length_append] at less
      omega

end

/-! A side without data does nothing. -/

theorem aw_shut {m : Regs p I} {e : Input p I} (off : m.lite_aw_data_valid = false) (unsent : m.lite_aw_send = false) :
    liteAwTaken p m e = none ∧ liteWTaken p m e = none ∧ lite_req_send p m e = false ∧ aw_advances p m e = false := by
  have noAw : liteAwTaken p m e = none := by simp [liteAwTaken, liteAw, off]
  have noReq : lite_req_send p m e = false := by simp [lite_req_send, unsent, noAw]
  exact ⟨noAw, by simp [liteWTaken, liteW, off], noReq, by simp [aw_advances, noReq, lite_aw_bypass, off]⟩

theorem b_shut {m : Regs p I} {e : Input p I} (off : m.lite_b_data_valid = false) :
    liteBTaken p m e = none ∧ b_advances p m e = false := by
  have noB : liteBTaken p m e = none := by
    cases given : e.b <;> simp [liteBTaken, given, off, Option.filter_some]
  exact ⟨noB, by simp [b_advances, noB, lite_b_bypass, off]⟩

/-! What the registers of the issuing side stand for. -/

structure Issuing (req : NastiReq I) (m : Regs p I) (beats : List (NastiW p.nb)) (aws : List (LiteAw I))
    (ws : List (LiteW p.lb)) : Prop where
  walks : Walks (lite_packet_ratio p req) beats.length m.lite_aw_data_valid m.lite_aw_cnt m.xact_aw_cnt
  sends : m.lite_aw_send = true ∨ m.lite_w_send = true →
    m.lite_aw_data_valid = true ∧ written p req beats m.xact_aw_cnt = true
  notBoth : (m.lite_aw_send && m.lite_w_send) = false
  addresses : aws = (writes p req beats m.xact_aw_cnt ++ if m.lite_aw_send then [m.xact_aw_cnt] else []).map fun n =>
    ⟨req.id, wordAddr p req n⟩
  words : ws = (writes p req beats m.xact_aw_cnt ++ if m.lite_w_send then [m.xact_aw_cnt] else []).filterMap
    (wordOfBurst p req beats)

section
variable {p} {m : Regs p I} {e : Input p I} {req : NastiReq I} {beats : List (NastiW p.nb)} {aws : List (LiteAw I)}
  {ws : List (LiteW p.lb)}

theorem word_at {cnt place : Nat} {valid : Bool} (latched : 0 < beats.length → beats[beats.length - 1]? = some m.xact_vec)
    (walks : Walks (lite_packet_ratio p req) beats.length valid cnt place) (on : valid = true) :
    wordOfBurst p req beats place = some (wordAt p m.xact_vec (wordAddr p req place)) := by
  rw [wordOfBurst, (walks.inBeat on).2.2, latched (walks.open' on).1]
  rfl

theorem written_at {cnt place : Nat} {valid : Bool} (latched : 0 < beats.length → beats[beats.length - 1]? = some m.xact_vec)
    (walks : Walks (lite_packet_ratio p req) beats.length valid cnt place) (on : valid = true) :
    written p req beats place = ((wordAt p m.xact_vec (wordAddr p req place)).strb != 0) := by
  rw [written, word_at latched walks on]
  rfl

theorem place_lt (legal : Legal p req) {T : Nat} (bound : T ≤ req.len + 1) : T * lite_packet_ratio p req < 2 ^ (p.bufLenBits + 9) := by
  have len := legal.len
  calc T * lite_packet_ratio p req ≤ 256 * 2 ^ p.bufLenBits := Nat.mul_le_mul (by omega) (ratio_le legal)
    _ < 512 * 2 ^ p.bufLenBits := (Nat.mul_lt_mul_right (Nat.two_pow_pos _)).mpr (by decide)
    _ = 2 ^ (p.bufLenBits + 9) := by rw [Nat.pow_add, Nat.mul_comm]

/-- Without a word at hand nothing is offered. -/
theorem Issuing.idle (issuing : Issuing p req m beats aws ws) (noW : wTaken p m e = none)
    (open' : xact_finish p m e = false) (off : m.lite_aw_data_valid = false) :
    Issuing p req (next p m e) beats (aws ++ (liteAwTaken p m e).toList) (ws ++ (liteWTaken p m e).toList) ∧
      (next p m e).xact_aw_cnt = m.xact_aw_cnt + if aw_advances p m e then 1 else 0 := by
  obtain ⟨walks, sends, notBoth, addresses, words⟩ := issuing
  have flags : m.lite_aw_send = false ∧ m.lite_w_send = false := by
    constructor <;> by_contra up <;> simp [off, up] at sends
  obtain ⟨noA, noB, noReq, stays⟩ := aw_shut p (e := e) off flags.1
  have place : (NastiLiteWriter.next p m e).xact_aw_cnt = m.xact_aw_cnt := by
    simp [NastiLiteWriter.next, stays, open']
  refine ⟨⟨?_, ?_, ?_, ?_, ?_⟩, by simp [place, stays]⟩
  · rw [place]
    simpa [NastiLiteWriter.next, stays, noW, off] using walks
  · simp [NastiLiteWriter.next, noReq, flags, noA, noB]
  · simp [NastiLiteWriter.next, noReq, flags, noA, noB]
  · rw [place]
    simpa [NastiLiteWriter.next, noReq, flags, noA] using addresses
  · rw [place]
    simpa [NastiLiteWriter.next, noReq, flags, noB] using words

theorem Issuing.bypass_eq (latched : 0 < beats.length → beats[beats.length - 1]? = some m.xact_vec)
    (request : m.xact_req = req) (issuing : Issuing p req m beats aws ws) (on : m.lite_aw_data_valid = true) :
    lite_aw_bypass p m = !written p req beats m.xact_aw_cnt := by
  have here : lite_aw_addr p m = wordAddr p req m.xact_aw_cnt := by rw [lite_aw_addr, request, wordAddr]
  rw [written_at latched issuing.walks on, lite_aw_bypass, on, here, Bool.true_and, bne, Bool.not_not]

/-- The issuing side leaves the word at hand. -/
theorem Issuing.walks_next (legal : Legal p req) (request : m.xact_req = req) (bound : beats.length ≤ req.len + 1)
    (issuing : Issuing p req m beats aws ws) (noW : wTaken p m e = none) (on : m.lite_aw_data_valid = true)
    (moves : aw_advances p m e = true) :
    (next p m e).xact_aw_cnt = m.xact_aw_cnt + 1 ∧
      Walks (lite_packet_ratio p req) beats.length (next p m e).lite_aw_data_valid (next p m e).lite_aw_cnt
        (m.xact_aw_cnt + 1) := by
  have walks := issuing.walks
  have ratio := ratio_le legal
  have small := place_lt legal bound
  have pow : 2 ^ (p.bufLenBits + 1) = 2 ^ p.bufLenBits * 2 := Nat.pow_succ _ _
  have below := (walks.inBeat on).2.1
  have fits : m.xact_aw_cnt + 1 < 2 ^ (p.bufLenBits + 9) := by omega
  have advance := walks.advance (M := 2 ^ (p.bufLenBits + 1)) on (by omega)
  refine ⟨by simp [NastiLiteWriter.next, moves, Nat.mod_eq_of_lt fits], ?_⟩
  simpa [NastiLiteWriter.next, moves, noW, request, on] using advance

/-- A word without strobes is left at once. -/
theorem Issuing.skip (legal : Legal p req) (request : m.xact_req = req) (bound : beats.length ≤ req.len + 1)
    (latched : 0 < beats.length → beats[beats.length - 1]? = some m.xact_vec) (issuing : Issuing p req m beats aws ws)
    (noW : wTaken p m e = none) (on : m.lite_aw_data_valid = true)
    (zero : written p req beats m.xact_aw_cnt = false) :
    Issuing p req (next p m e) beats (aws ++ (liteAwTaken p m e).toList) (ws ++ (liteWTaken p m e).toList) ∧
      (next p m e).xact_aw_cnt = m.xact_aw_cnt + if aw_advances p m e then 1 else 0 := by
  have bypass := issuing.bypass_eq latched request on
  rw [zero, Bool.not_false] at bypass
  have moves : aw_advances p m e = true := by simp [aw_advances, bypass]
  obtain ⟨place, walks⟩ := issuing.walks_next legal request bound noW on moves
  obtain ⟨-, sends, notBoth, addresses, words⟩ := issuing
  -- neither part of such a word is offered
  have flags : m.lite_aw_send = false ∧ m.lite_w_send = false := by
    constructor <;> by_contra up <;> simp [zero, up] at sends
  have noA : liteAwTaken p m e = none := by simp [liteAwTaken, liteAw, bypass]
  have noB : liteWTaken p m e = none := by simp [liteWTaken, liteW, bypass]
  have noReq : lite_req_send p m e = false := by simp [lite_req_send, flags, noA]
  refine ⟨⟨?_, ?_, ?_, ?_, ?_⟩, by simp [place, moves]⟩
  · rw [place]
    exact walks
  · simp [NastiLiteWriter.next, noReq, flags, noA, noB]
  · simp [NastiLiteWriter.next, noReq, flags, noA, noB]
  · rw [place, writes_succ, zero]
    simpa [NastiLiteWriter.next, noReq, flags, noA] using addresses
  · rw [place, writes_succ, zero]
    simpa [NastiLiteWriter.next, noReq, flags, noB] using words

/-- The address and the data of a word to be written have left, now or before. -/
theorem Issuing.offered (request : m.xact_req = req)
    (latched : 0 < beats.length → beats[beats.length - 1]? = some m.xact_vec) (issuing : Issuing p req m beats aws ws)
    (on : m.lite_aw_data_valid = true) (bypass : lite_aw_bypass p m = false) :
    aws ++ (liteAwTaken p m e).toList = (writes p req beats m.xact_aw_cnt ++
        if m.lite_aw_send || (liteAwTaken p m e).isSome then [m.xact_aw_cnt] else []).map (fun n =>
          ⟨req.id, wordAddr p req n⟩) ∧
      ws ++ (liteWTaken p m e).toList = (writes p req beats m.xact_aw_cnt ++
        if m.lite_w_send || (liteWTaken p m e).isSome then [m.xact_aw_cnt] else []).filterMap (wordOfBurst p req beats) := by
  have here : lite_aw_addr p m = wordAddr p req m.xact_aw_cnt := by rw [lite_aw_addr, request, wordAddr]
  have word := word_at latched issuing.walks on
  constructor
  · rw [issuing.addresses]
    cases sent : m.lite_aw_send <;> cases ready : e.aw_ready <;>
      simp [liteAwTaken, liteAw, on, bypass, sent, ready, here, request, Option.filter_some]
  · rw [issuing.words]
    cases sent : m.lite_w_send <;> cases ready : e.w_ready <;>
      simp [liteWTaken, liteW, on, bypass, sent, ready, here, word, Option.filter_some]

/-- A word to be written is left when both its parts are out. -/
theorem Issuing.send (legal : Legal p req) (request : m.xact_req = req) (bound : beats.length ≤ req.len + 1)
    (latched : 0 < beats.length → beats[beats.length - 1]? = some m.xact_vec) (issuing : Issuing p req m beats aws ws)
    (noW : wTaken p m e = none) (open' : xact_finish p m e = false) (on : m.lite_aw_data_valid = true)
    (some' : written p req beats m.xact_aw_cnt = true) :
    Issuing p req (next p m e) beats (aws ++ (liteAwTaken p m e).toList) (ws ++ (liteWTaken p m e).toList) ∧
      (next p m e).xact_aw_cnt = m.xact_aw_cnt + if aw_advances p m e then 1 else 0 := by
  have bypass := issuing.bypass_eq latched request on
  rw [some', Bool.not_true] at bypass
  obtain ⟨asked, given⟩ := issuing.offered (e := e) request latched on bypass
  -- the address and the data of the word are both out with this cycle
  cases both : lite_req_send p m e with
  | true =>
    have parts := both
    rw [lite_req_send, Bool.and_eq_true] at parts
    have moves : aw_advances p m e = true := by simp [aw_advances, both]
    obtain ⟨place, walks⟩ := issuing.walks_next legal request bound noW on moves
    have flags : (NastiLiteWriter.next p m e).lite_aw_send = false ∧ (NastiLiteWriter.next p m e).lite_w_send = false := by
      simp [NastiLiteWriter.next, both]
    refine ⟨⟨?_, ?_, ?_, ?_, ?_⟩, by simp [place, moves]⟩
    · rw [place]
      exact walks
    · simp [flags]
    · simp [flags]
    · rw [asked, parts.1, place, writes_succ, some', flags.1]
      simp
    · rw [given, parts.2, place, writes_succ, some', flags.2]
      simp
  | false =>
    -- one part is still to go, and the flags remember the other
    have stays : aw_advances p m e = false := by simp [aw_advances, both, bypass]
    have place : (NastiLiteWriter.next p m e).xact_aw_cnt = m.xact_aw_cnt := by
      simp [NastiLiteWriter.next, stays, open']
    have valid : (NastiLiteWriter.next p m e).lite_aw_data_valid = true := by
      simp [NastiLiteWriter.next, stays, noW, on]
    have awFlag : (NastiLiteWriter.next p m e).lite_aw_send = (m.lite_aw_send || (liteAwTaken p m e).isSome) := by
      simp [NastiLiteWriter.next, both]
    have wFlag : (NastiLiteWriter.next p m e).lite_w_send = (m.lite_w_send || (liteWTaken p m e).isSome) := by
      simp [NastiLiteWriter.next, both]
    refine ⟨⟨?_, ?_, ?_, ?_, ?_⟩, by simp [place, stays]⟩
    · rw [place, valid, ← on]
      simpa [NastiLiteWriter.next, stays] using issuing.walks
    · intro _
      rw [place]
      exact ⟨valid, some'⟩
    · rw [awFlag, wFlag]
      exact both
    · rw [asked, place, awFlag]
    · rw [given, place, wFlag]

theorem Issuing.next (legal : Legal p req) (request : m.xact_req = req) (bound : beats.length ≤ req.len + 1)
    (latched : 0 < beats.length → beats[beats.length - 1]? = some m.xact_vec) (issuing : Issuing p req m beats aws ws)
    (noW : wTaken p m e = none) (open' : xact_finish p m e = false) :
    Issuing p req (next p m e) beats (aws ++ (liteAwTaken p m e).toList) (ws ++ (liteWTaken p m e).toList) ∧
      (next p m e).xact_aw_cnt = m.xact_aw_cnt + if aw_advances p m e then 1 else 0 := by
  cases on : m.lite_aw_data_valid with
  | false => exact issuing.idle noW open' on
  | true =>
    cases some' : written p req beats m.xact_aw_cnt with
    | false => exact issuing.skip legal request bound latched noW on some'
    | true => exact issuing.send legal request bound latched noW open' on some'

end

/-! What the registers of the response side stand for. -/

structure Answering (req : NastiReq I) (m : Regs p I) (beats : List (NastiW p.nb)) (bs : List (BitVec 2)) : Prop where
  walks : Walks (lite_packet_ratio p req) beats.length m.lite_b_data_valid m.lite_b_cnt m.xact_b_cnt
  count : bs.length = (writes p req beats m.xact_b_cnt).length

structure Working (req : NastiReq I) (m : Regs p I) (l : Ledger p I) : Prop where
  bound : l.beats.length ≤ req.len + 1
  nasti_w_cnt : m.nasti_w_cnt = l.beats.length
  latched : 0 < l.beats.length → l.beats[l.beats.length - 1]? = some m.xact_vec
  issuing : Issuing p req m l.beats l.aws l.ws
  answering : Answering p req m l.beats l.bs
  behind : m.xact_b_cnt ≤ m.xact_aw_cnt
  open' : l.answers = []

section
variable {p} {m : Regs p I} {e : Input p I} {req : NastiReq I} {beats : List (NastiW p.nb)} {bs : List (BitVec 2)}
  {l : Ledger p I}

theorem valid_of_b_advances (moves : b_advances p m e = true) : m.lite_b_data_valid = true := by
  by_contra off
  rw [(b_shut p (e := e) (by simpa using off)).2] at moves
  cases moves

theorem Answering.b_cnt (legal : Legal p req) (bound : beats.length ≤ req.len + 1)
    (answering : Answering p req m beats bs) (open' : xact_finish p m e = false) :
    (next p m e).xact_b_cnt = m.xact_b_cnt + if b_advances p m e then 1 else 0 := by
  cases moves : b_advances p m e with
  | false => simp [next, moves, open']
  | true =>
    have small := place_lt legal bound
    have below := (answering.walks.inBeat (valid_of_b_advances moves)).2.1
    have fits : m.xact_b_cnt + 1 < 2 ^ (p.bufLenBits + 9) := by omega
    simp [next, moves, Nat.mod_eq_of_lt fits]

theorem Answering.bypass (request : m.xact_req = req)
    (latched : 0 < beats.length → beats[beats.length - 1]? = some m.xact_vec) (answering : Answering p req m beats bs)
    (on : m.lite_b_data_valid = true) : lite_b_bypass p m = !written p req beats m.xact_b_cnt := by
  have here : lite_b_addr p m = wordAddr p req m.xact_b_cnt := by rw [lite_b_addr, request, wordAddr]
  rw [lite_b_bypass, on, here, written_at latched answering.walks on]
  simp [bne]

theorem Answering.next (legal : Legal p req) (request : m.xact_req = req) (bound : beats.length ≤ req.len + 1)
    (latched : 0 < beats.length → beats[beats.length - 1]? = some m.xact_vec) (answering : Answering p req m beats bs)
    (noW : wTaken p m e = none) (open' : xact_finish p m e = false)
    (owed : (liteBTaken p m e).isSome → written p req beats m.xact_b_cnt = true) :
    Answering p req (next p m e) beats (bs ++ (liteBTaken p m e).toList) := by
  have place := answering.b_cnt legal bound (e := e) open'
  have walks := answering.walks
  have ratio := ratio_le legal
  have pow : 2 ^ (p.bufLenBits + 1) = 2 ^ p.bufLenBits * 2 := Nat.pow_succ _ _
  cases moves : b_advances p m e with
  | false =>
    -- without a step no response was taken
    have noB : liteBTaken p m e = none := by
      cases came : liteBTaken p m e with
      | none => rfl
      | some x => simp [b_advances, came] at moves
    rw [moves, if_neg Bool.false_ne_true, Nat.add_zero] at place
    refine ⟨?_, ?_⟩
    · rw [place]
      simpa [NastiLiteWriter.next, moves, noW] using walks
    · rw [place, noB]
      simpa using answering.count
  | true =>
    have on := valid_of_b_advances moves
    have advance := walks.advance (M := 2 ^ (p.bufLenBits + 1)) on (by omega)
    rw [moves, if_pos rfl] at place
    refine ⟨?_, ?_⟩
    · rw [place]
      simpa [NastiLiteWriter.next, moves, noW, request, on] using advance
    · rw [place, writes_succ, List.length_append, List.length_append, answering.count]
      -- a step is a response taken, or a word without strobes that is passed over
      cases came : liteBTaken p m e with
      | none =>
        have zero : written p req beats m.xact_b_cnt = false := by
          simpa [b_advances, came, answering.bypass request latched on] using moves
        simp [zero]
      | some x => simp [owed (by rw [came]; rfl)]

variable (req) in
theorem written_of_beat {k r : Nat} {x : NastiW p.nb} (found : beats[k]? = some x) (inBeat : r < lite_packet_ratio p req) :
    written p req beats (k * lite_packet_ratio p req + r) = wants p req k x r := by
  have beat : (k * lite_packet_ratio p req + r) / lite_packet_ratio p req = k := by
    rw [Nat.mul_comm, Nat.mul_add_div (ratio_pos p req), Nat.div_eq_of_lt inBeat, Nat.add_zero]
  rw [written, wordOfBurst, beat, found]
  rfl

theorem words_length (n : Nat) :
    ((writes p req beats n).filterMap (wordOfBurst p req beats)).length = (writes p req beats n).length := by
  induction n with
  | zero => rfl
  | succ n ih =>
    rw [writes_succ, List.filterMap_append, List.length_append, List.length_append, ih]
    cases on : written p req beats n
    · rfl
    · obtain ⟨w, found⟩ := Option.isSome_iff_exists.mp (show (wordOfBurst p req beats n).isSome from by
        cases word : wordOfBurst p req beats n with
        | none => simp [written, word] at on
        | some w => rfl)
      simp [found]

theorem Working.full (working : Working p req m l) :
    min l.aws.length l.ws.length = (writes p req l.beats m.xact_aw_cnt).length := by
  obtain ⟨_, sends, notBoth, addresses, words⟩ := working.issuing
  rw [addresses, words, List.length_map, List.length_append, List.filterMap_append, List.length_append, words_length]
  cases aw : m.lite_aw_send <;> cases w : m.lite_w_send <;> simp_all

end

section
variable {p} {m : Regs p I} {e : Input p I} {req : NastiReq I} {l : Ledger p I}

theorem Working.issued (working : Working p req m l) (answered : e.b.isSome → l.bs.length < min l.aws.length l.ws.length)
    (came : (liteBTaken p m e).isSome) : m.xact_b_cnt < m.xact_aw_cnt := by
  obtain ⟨x, given⟩ := Option.isSome_iff_exists.mp came
  rw [liteBTaken, Option.filter_eq_some_iff] at given
  have less := answered (by rw [given.1]; rfl)
  rw [working.full, working.answering.count] at less
  obtain ⟨j, after, before, _⟩ := exists_written less
  omega

/-- At one word, the issuing side leaves a word without strobes when the response side does. -/
theorem Working.together (working : Working p req m l) (request : m.xact_req = req) (on : m.lite_b_data_valid = true)
    (same : m.xact_aw_cnt = m.xact_b_cnt) (zero : written p req l.beats m.xact_b_cnt = false) :
    aw_advances p m e = true := by
  have below := (working.answering.walks.inBeat on).2.1
  have awOn : m.lite_aw_data_valid = true := by
    by_contra off
    have shut := (working.issuing.walks.shut (by simpa using off)).1
    omega
  have wanted := written_at working.latched working.issuing.walks awOn
  have here : lite_aw_addr p m = wordAddr p req m.xact_aw_cnt := by rw [lite_aw_addr, request, wordAddr]
  have bypass : lite_aw_bypass p m = true := by
    rw [same, zero, ← same] at wanted
    rw [lite_aw_bypass, awOn, here, Bool.true_and]
    simpa using wanted.symm
  simp [aw_advances, bypass]

/-- A response that comes is the response to the word at hand. -/
def Owed (req : NastiReq I) (m : Regs p I) (l : Ledger p I) (e : Input p I) : Prop :=
  (liteBTaken p m e).isSome → written p req l.beats m.xact_b_cnt = true

theorem Working.next_word (legal : Legal p req) (request : m.xact_req = req) (working : Working p req m l)
    (answered : e.b.isSome → l.bs.length < min l.aws.length l.ws.length) (owed : Owed req m l e)
    (noW : wTaken p m e = none) (open' : xact_finish p m e = false) :
    Working p req (next p m e) ⟨l.beats, l.aws ++ (liteAwTaken p m e).toList, l.ws ++ (liteWTaken p m e).toList,
      l.bs ++ (liteBTaken p m e).toList, l.answers⟩ := by
  obtain ⟨issuing, aw_cnt⟩ := working.issuing.next legal request working.bound working.latched noW open'
  have answering := working.answering.next legal request working.bound working.latched noW open' owed
  have b_cnt := working.answering.b_cnt legal working.bound open'
  have behind := working.behind
  refine ⟨working.bound, ?_, ?_, issuing, answering, ?_, working.open'⟩
  · simpa [next, noW, open'] using working.nasti_w_cnt
  · simpa [next, noW] using working.latched
  · rw [aw_cnt, b_cnt]
    cases moves : b_advances p m e
    · simp only [Bool.false_eq_true, if_false]
      omega
    · cases came : (liteBTaken p m e).isSome
      · have on := valid_of_b_advances moves
        have zero : written p req l.beats m.xact_b_cnt = false := by
          simpa [b_advances, came, working.answering.bypass request working.latched on] using moves
        by_cases same : m.xact_aw_cnt = m.xact_b_cnt
        · rw [working.together request on same zero, same]
        · simp only [if_true]
          omega
      · have less := working.issued answered came
        simp only [if_true]
        omega

/-- A beat comes only when the two sides are through with the last one. -/
theorem Working.shut_of_beat (working : Working p req m l) (request : m.xact_req = req) (came : (wTaken p m e).isSome) :
    l.beats.length < req.len + 1 ∧ m.lite_aw_data_valid = false ∧ m.lite_b_data_valid = false ∧
      m.xact_aw_cnt = m.xact_b_cnt ∧ m.lite_aw_send = false ∧ m.lite_w_send = false ∧ xact_finish p m e = false := by
  obtain ⟨x, came⟩ := Option.isSome_iff_exists.mp came
  have ready : nasti_w_ready p m = true := by
    rw [wTaken, Option.filter_eq_some_iff] at came
    exact came.2
  simp only [nasti_w_ready, Bool.and_eq_true, Bool.not_eq_true', decide_eq_true_iff] at ready
  obtain ⟨⟨busy, bOff⟩, more⟩ := ready
  rw [request, working.nasti_w_cnt] at more
  have bAt := (working.answering.walks.shut bOff).1
  have behind := working.behind
  have stop := working.issuing.walks.le
  have awOff : m.lite_aw_data_valid = false := by
    by_contra on
    have below := (working.issuing.walks.inBeat (by simpa using on)).2.1
    omega
  have sends := working.issuing.sends
  have short : m.xact_b_cnt ≠ lite_packet_size p m.xact_req := by
    rw [bAt, request, lite_packet_size, Nat.mul_comm (lite_packet_ratio p req)]
    intro same
    have equal := Nat.eq_of_mul_eq_mul_right (ratio_pos p req) same
    omega
  refine ⟨more, awOff, bOff, by omega, ?_, ?_, by simp [xact_finish, nastiBTaken, nastiB, short]⟩
  · by_contra up
    simp [awOff, up] at sends
  · by_contra up
    simp [awOff, up] at sends

theorem Working.beat_counts (legal : Legal p req) (working : Working p req m l) (request : m.xact_req = req)
    (came : (wTaken p m e).isSome) : (next p m e).xact_aw_cnt = m.xact_aw_cnt ∧
      (next p m e).xact_b_cnt = m.xact_b_cnt ∧ (next p m e).nasti_w_cnt = l.beats.length + 1 := by
  obtain ⟨more, awOff, bOff, -, awFlag, -, notOver⟩ := working.shut_of_beat request came
  obtain ⟨-, -, -, awStays⟩ := aw_shut p (e := e) awOff awFlag
  obtain ⟨-, bStays⟩ := b_shut p (e := e) bOff
  have len := legal.len
  have fits : l.beats.length + 1 < 2 ^ 9 := by omega
  exact ⟨by simp [next, awStays, notOver], by simp [next, bStays, notOver],
    by simpa [next, came, working.nasti_w_cnt] using Nat.mod_eq_of_lt fits⟩

theorem Working.next_beat {x : NastiW p.nb} (legal : Legal p req) (request : m.xact_req = req) (working : Working p req m l)
    (came : wTaken p m e = some x) :
    Working p req (next p m e) ⟨l.beats ++ [x], l.aws ++ (liteAwTaken p m e).toList, l.ws ++ (liteWTaken p m e).toList,
      -- the master's next beat comes only when both sides are through with the last one
      l.bs ++ (liteBTaken p m e).toList, l.answers⟩ := by
  obtain ⟨more, awOff, bOff, same, flags⟩ := working.shut_of_beat request (e := e) (by rw [came]; rfl)
  obtain ⟨aw_cnt, b_cnt, w_cnt⟩ := working.beat_counts legal request (e := e) (by rw [came]; rfl)
  obtain ⟨noAw, noLw, noReq, awStays⟩ := aw_shut p (e := e) awOff flags.1
  obtain ⟨noB, bStays⟩ := b_shut p (e := e) bOff
  have positive := ratio_pos p req
  have bAt := (working.answering.walks.shut bOff).1
  have behind := working.behind
  have stop := working.issuing.walks.le
  have length : (l.beats ++ [x]).length = l.beats.length + 1 := by rw [List.length_append, List.length_singleton]
  refine ⟨?_, ?_, ?_, ⟨?_, ?_, ?_, ?_, ?_⟩, ⟨?_, ?_⟩, ?_, working.open'⟩
  · rw [length]
    omega
  · rw [length]
    exact w_cnt
  · intro _
    rw [length, Nat.add_sub_cancel, List.getElem?_concat_length]
    simp [next, came]
  · rw [length, aw_cnt]
    have load := working.issuing.walks.load awOff positive
    simpa [next, came, awStays] using load
  · simp [next, noReq, flags, noAw, noLw]
  · simp [next, noReq, flags, noAw, noLw]
  · rw [aw_cnt, writes_append stop, noAw]
    simpa [next, noReq, flags, noAw] using working.issuing.addresses
  · have words := working.issuing.words
    rw [flags.2.1] at words
    have flag : (next p m e).lite_w_send = false := by simp [next, noReq, flags, noLw]
    rw [aw_cnt, noLw, flag]
    simpa [words_append stop] using words
  · rw [length, b_cnt]
    have load := working.answering.walks.load bOff positive
    simpa [next, came, bStays] using load
  · rw [b_cnt, writes_append (Nat.le_of_eq bAt), noB]
    simpa using working.answering.count
  · rw [aw_cnt, b_cnt]
    exact behind

end

/-! Runs. -/

structure Quiet (m : Regs p I) : Prop where
  xact_aw_cnt : m.xact_aw_cnt = 0
  xact_b_cnt : m.xact_b_cnt = 0
  nasti_w_cnt : m.nasti_w_cnt = 0
  lite_aw_cnt : m.lite_aw_cnt = 0
  lite_aw_data_valid : m.lite_aw_data_valid = false
  lite_b_cnt : m.lite_b_cnt = 0
  lite_b_data_valid : m.lite_b_data_valid = false
  lite_aw_send : m.lite_aw_send = false
  lite_w_send : m.lite_w_send = false

structure Inv (waiting : List (NastiReq I)) (s : System p I) : Prop where
  queued : Queued p.maxTransaction s.regs.aw_buf s.regs.xact_req_valid s.regs.xact_req s.accepted (s.done.map Prod.fst) waiting
  legal : ∀ req ∈ s.accepted, Legal p req
  done : ∀ x ∈ s.done, BurstRight p x.1 x.2
  busy : s.regs.xact_req_valid = true → Working p s.regs.xact_req s.regs s.current
  idle : s.regs.xact_req_valid = false → Quiet p s.regs ∧ s.current = ⟨[], [], [], [], []⟩
  latest : ∀ resp, s.latest = some resp → s.regs.xact_resp = resp

section
variable {p} {s : System p I} {e : Input p I} {waiting : List (NastiReq I)}

theorem Quiet.working {m : Regs p I} (quiet : Quiet p m) (req : NastiReq I) : Working p req m ⟨[], [], [], [], []⟩ := by
  obtain ⟨aw, b, w, awCnt, awValid, bCnt, bValid, awSend, wSend⟩ := quiet
  refine ⟨Nat.zero_le _, w, fun some' => absurd some' (Nat.lt_irrefl _), ⟨⟨?_, ?_⟩, ?_, ?_, ?_, ?_⟩, ⟨⟨?_, ?_⟩, ?_⟩, ?_,
    rfl⟩ <;> simp [*, writes]

theorem Inv.reset (reset : AfterReset p s) : Inv p [] s := by
  obtain ⟨⟨rp, wp, valid, idle, rest⟩, accepted, done, current, latest⟩ := reset
  refine ⟨⟨by simp [accepted, done, idle], ?_⟩, by simp [accepted], by simp [done], ?_, ?_, by simp [latest]⟩
  · have empty := RequestBuffer.contains_nil p.maxTransaction p.positive s.regs.aw_buf.buf
    cases buffer : s.regs.aw_buf
    simp_all
  · intro busy
    rw [idle] at busy
    cases busy
  · intro _
    obtain ⟨aw, b, w, awCnt, awValid, bCnt, bValid, awSend, wSend⟩ := rest
    exact ⟨⟨aw, b, w, awCnt, awValid, bCnt, bValid, awSend, wSend⟩, current⟩

theorem Inv.legal_next (inv : Inv p waiting s) (offers : Offers p s e) : ∀ req ∈ (cycle p s e).accepted, Legal p req := by
  intro req member
  rw [show (cycle p s e).accepted = s.accepted ++ (awTaken p s.regs e).toList from rfl, List.mem_append] at member
  rcases member with old | new
  · exact inv.legal req old
  · rw [Option.mem_toList, awTaken, Option.filter_eq_some_iff] at new
    exact offers.aw req new.1

theorem Inv.latest_next (inv : Inv p waiting s) :
    ∀ resp, (cycle p s e).latest = some resp → (cycle p s e).regs.xact_resp = resp := by
  intro resp found
  cases came : liteBTaken p s.regs e with
  | none =>
    simp only [cycle, next, came, Option.none_or, Option.getD_none] at found ⊢
    exact inv.latest resp found
  | some x =>
    simp only [cycle, next, came, Option.some_or, Option.getD_some, Option.some.injEq] at found ⊢
    exact found

theorem Inv.take (inv : Inv p waiting s) (offers : Offers p s e)
    (takes : (xact_finish p s.regs e || !s.regs.xact_req_valid) = true) (quiet : Quiet p (next p s.regs e))
    (current : (cycle p s e).current = ⟨[], [], [], [], []⟩) (done : ∀ x ∈ (cycle p s e).done, BurstRight p x.1 x.2)
    (closed : (cycle p s e).done.map Prod.fst ++ waiting = s.accepted) :
    Inv p (waiting.tail ++ (awTaken p s.regs e).toList) (cycle p s e) := by
  have room : (awTaken p s.regs e).isSome → waiting.length < p.maxTransaction := inv.queued.room p.positive e.aw
  have queued := inv.queued.take room closed
  refine ⟨?_, inv.legal_next offers, done, fun _ => ?_, fun _ => ⟨quiet, current⟩, inv.latest_next⟩
  · simpa only [cycle, next, takes, if_true, Bool.true_and] using queued
  · rw [current]
    exact quiet.working _

theorem Inv.cycle_idle (inv : Inv p waiting s) (offers : Offers p s e) (idle : s.regs.xact_req_valid = false) :
    Inv p (waiting.tail ++ (awTaken p s.regs e).toList) (cycle p s e) := by
  obtain ⟨quiet, current⟩ := inv.idle idle
  have noW : wTaken p s.regs e = none := by
    cases given : e.w <;> simp [wTaken, nasti_w_ready, idle, given, Option.filter_some]
  obtain ⟨noAw, noLw, noReq, awStays⟩ := aw_shut p (e := e) quiet.lite_aw_data_valid quiet.lite_aw_send
  obtain ⟨noB, bStays⟩ := b_shut p (e := e) quiet.lite_b_data_valid
  have noN : nastiBTaken p s.regs e = none := by simp [nastiBTaken, nastiB, idle]
  have open' : xact_finish p s.regs e = false := by simp [xact_finish, noN]
  have same : (cycle p s e).done = s.done := by simp [cycle, open']
  refine inv.take offers (by simp [idle]) ?_ ?_ (by rw [same]; exact inv.done) ?_
  · obtain ⟨aw, b, w, awCnt, awValid, bCnt, bValid, awSend, wSend⟩ := quiet
    constructor <;> simp [next, *]
  · simp [cycle, open', record, noW, noAw, noLw, noB, noN, current]
  · rw [same, inv.queued.accepted, idle]
    simp

theorem Inv.cycle_finish (inv : Inv p waiting s) (offers : Offers p s e) (served : Served p s e)
    (busy : s.regs.xact_req_valid = true) (finish : xact_finish p s.regs e = true) :
    Inv p (waiting.tail ++ (awTaken p s.regs e).toList) (cycle p s e) := by
  have working := inv.busy busy
  have positive := ratio_pos p s.regs.xact_req
  obtain ⟨x, took⟩ := Option.isSome_iff_exists.mp finish
  have shown := took
  rw [nastiBTaken, Option.filter_eq_some_iff, nastiB] at shown
  have all : s.regs.xact_b_cnt = lite_packet_size p s.regs.xact_req ∧ x = ⟨s.regs.xact_req.id, s.regs.xact_resp⟩ := by
    cases full : s.regs.xact_b_cnt == lite_packet_size p s.regs.xact_req
    · simp [full] at shown
    · simp only [busy, full, Bool.true_and, if_true, Option.some.injEq] at shown
      exact ⟨by simpa using full, shown.1.symm⟩
  obtain ⟨full, answer⟩ := all
  have ready : e.b_ready = true := shown.2
  -- both counters are behind the last word of the last beat
  have size : lite_packet_size p s.regs.xact_req = (s.regs.xact_req.len + 1) * lite_packet_ratio p s.regs.xact_req :=
    Nat.mul_comm _ _
  have behind := working.behind
  have stop := working.issuing.walks.le
  have bound := Nat.mul_le_mul_right (lite_packet_ratio p s.regs.xact_req) working.bound
  have awAt : s.regs.xact_aw_cnt = lite_packet_size p s.regs.xact_req := by omega
  have beats : s.current.beats.length = s.regs.xact_req.len + 1 := by
    have less : (s.regs.xact_req.len + 1) * lite_packet_ratio p s.regs.xact_req ≤
        s.current.beats.length * lite_packet_ratio p s.regs.xact_req := by omega
    have count := Nat.le_of_mul_le_mul_right less positive
    have most := working.bound
    omega
  have awOff : s.regs.lite_aw_data_valid = false := by
    by_contra on
    have below := (working.issuing.walks.inBeat (by simpa using on)).2.1
    omega
  have bOff : s.regs.lite_b_data_valid = false := by
    by_contra on
    have below := (working.answering.walks.inBeat (by simpa using on)).2.1
    omega
  have awCnt := (working.issuing.walks.shut awOff).2
  have bCnt := (working.answering.walks.shut bOff).2
  have flags : s.regs.lite_aw_send = false ∧ s.regs.lite_w_send = false := by
    have sends := working.issuing.sends
    constructor <;> by_contra up <;> simp [awOff, up] at sends
  have noW : wTaken p s.regs e = none := by
    cases given : e.w <;> simp [wTaken, nasti_w_ready, given, working.nasti_w_cnt, beats, Option.filter_some]
  obtain ⟨noAw, noLw, noReq, awStays⟩ := aw_shut p (e := e) awOff flags.1
  obtain ⟨noB, bStays⟩ := b_shut p (e := e) bOff
  have ledger : record p s e = ⟨s.current.beats, s.current.aws, s.current.ws, s.current.bs, [x]⟩ := by
    simp [record, noW, noAw, noLw, noB, took, working.open']
  have addresses := working.issuing.addresses
  have words := working.issuing.words
  have count := working.answering.count
  rw [flags.1, awAt] at addresses
  rw [flags.2, awAt] at words
  rw [full] at count
  have right : BurstRight p s.regs.xact_req (record p s e) := by
    rw [ledger]
    refine ⟨beats, by simpa using addresses, by simpa using words, ?_, ?_⟩
    · rw [count, addresses]
      simp
    · obtain ⟨resp, latest, exact'⟩ := served.b busy full ready
      exact ⟨resp, by rw [answer, inv.latest resp latest], exact'⟩
  have done : (cycle p s e).done = s.done ++ [(s.regs.xact_req, record p s e)] := by simp [cycle, finish]
  refine inv.take offers (by simp [finish]) ?_ (by simp [cycle, finish]) ?_ ?_
  · constructor <;> simp [next, noW, noReq, noAw, noLw, awStays, bStays, finish, awOff, bOff, awCnt, bCnt, flags]
  · intro y among
    rw [done, List.mem_append, List.mem_singleton] at among
    rcases among with old | rfl
    · exact inv.done y old
    · exact right
  · rw [done, inv.queued.accepted, busy]
    simp

theorem Served.owed (served : Served p s e) (working : Working p s.regs.xact_req s.regs s.current) :
    Owed s.regs.xact_req s.regs s.current e := by
  intro came
  obtain ⟨x, came⟩ := Option.isSome_iff_exists.mp came
  rw [liteBTaken, Option.filter_eq_some_iff] at came
  obtain ⟨given, on⟩ := came
  rw [written_at working.latched working.answering.walks on, bne_iff_ne]
  intro zero
  rw [served.skip on zero] at given
  cases given

theorem Inv.working_next (inv : Inv p waiting s) (offers : Offers p s e) (served : Served p s e)
    (busy : s.regs.xact_req_valid = true) (open' : xact_finish p s.regs e = false) :
    Working p s.regs.xact_req (next p s.regs e) (record p s e) := by
  have working := inv.busy busy
  have legal := inv.legal s.regs.xact_req (by rw [inv.queued.accepted, busy]; simp)
  have noN : nastiBTaken p s.regs e = none := by
    rw [xact_finish] at open'
    exact Option.not_isSome_iff_eq_none.mp (by simp [open'])
  cases came : wTaken p s.regs e with
  | none =>
    have step := working.next_word legal rfl offers.b (served.owed working) came open'
    simpa [record, came, noN] using step
  | some x =>
    have step := working.next_beat legal rfl came
    simpa [record, came, noN] using step

theorem Inv.cycle_busy (inv : Inv p waiting s) (offers : Offers p s e) (served : Served p s e)
    (busy : s.regs.xact_req_valid = true) (open' : xact_finish p s.regs e = false) :
    Inv p (waiting ++ (awTaken p s.regs e).toList) (cycle p s e) := by
  have working := inv.working_next offers served busy open'
  have valid : (cycle p s e).regs.xact_req_valid = true := by simp [cycle, next, open', busy]
  have request : (cycle p s e).regs.xact_req = s.regs.xact_req := by simp [cycle, next, open', busy]
  have done : (cycle p s e).done = s.done := by simp [cycle, open']
  have current : (cycle p s e).current = record p s e := by simp [cycle, open']
  refine ⟨?_, inv.legal_next offers, by rw [done]; exact inv.done, fun _ => ?_, ?_, inv.latest_next⟩
  · have room : (awTaken p s.regs e).isSome → waiting.length < p.maxTransaction := inv.queued.room p.positive e.aw
    have queued := inv.queued.stay room
    rw [valid, request, done, ← busy]
    simpa only [cycle, next, open', busy, Bool.not_true, Bool.or_self] using queued
  · rw [request, current]
    exact working
  · intro idle
    rw [valid] at idle
    cases idle

theorem Inv.cycle (inv : Inv p waiting s) (offers : Offers p s e) (served : Served p s e) :
    ∃ waiting', Inv p waiting' (cycle p s e) := by
  cases busy : s.regs.xact_req_valid
  · exact ⟨_, inv.cycle_idle offers busy⟩
  · cases open' : xact_finish p s.regs e
    · exact ⟨_, inv.cycle_busy offers served busy open'⟩
    · exact ⟨_, inv.cycle_finish offers served busy open'⟩

end

section
variable {p} {s : System p I} {e : Input p I} {waiting : List (NastiReq I)}

theorem Working.partRight {req : NastiReq I} {m : Regs p I} {l : Ledger p I} (working : Working p req m l) :
    PartRight p req l := by
  obtain ⟨walks, sends, notBoth, addresses, words⟩ := working.issuing
  have sent : ∀ flag : Bool, (flag = true → m.lite_aw_data_valid = true ∧ written p req l.beats m.xact_aw_cnt = true) →
      (writes p req l.beats m.xact_aw_cnt ++ if flag then [m.xact_aw_cnt] else []) <+:
        writes p req l.beats (l.beats.length * lite_packet_ratio p req) := by
    intro flag up
    cases flag
    · simpa using writes_initial p req l.beats walks.le
    · obtain ⟨on, wanted⟩ := up rfl
      have next := writes_initial p req l.beats (Nat.succ_le_of_lt (walks.inBeat on).2.1)
      rwa [writes_succ, wanted] at next
  refine ⟨working.bound, ?_, ?_, working.open'⟩
  · rw [addresses]
    exact (sent _ fun up => sends (.inl up)).map _
  · rw [words]
    exact (sent _ fun up => sends (.inr up)).filterMap _

/-- In each cooperative cycle of a burst a counter moves, or the burst ends. -/
theorem Inv.passes (inv : Inv p waiting s) (cooperative : Cooperative p s e) (busy : s.regs.xact_req_valid = true) :
    xact_finish p s.regs e = true ∨ (wTaken p s.regs e).isSome ∨ aw_advances p s.regs e = true ∨
      b_advances p s.regs e = true := by
  have working := inv.busy busy
  obtain ⟨awReady, wReady, bReady⟩ := cooperative.ready
  have stop := working.issuing.walks.le
  have behind := working.behind
  cases bOn : s.regs.lite_b_data_valid with
  | false =>
    have bAt := (working.answering.walks.shut bOn).1
    rcases Nat.lt_or_eq_of_le working.bound with more | all
    · obtain ⟨x, given⟩ := Option.isSome_iff_exists.mp (cooperative.w (by omega))
      refine .inr (.inl ?_)
      simp [wTaken, nasti_w_ready, given, busy, bOn, working.nasti_w_cnt, more, Option.filter_some]
    · have full : s.regs.xact_b_cnt = lite_packet_size p s.regs.xact_req := by
        rw [bAt, all, lite_packet_size, Nat.mul_comm]
      left
      simp [xact_finish, nastiBTaken, nastiB, busy, full, bReady, Option.filter_some]
  | true =>
    right
    right
    have below := (working.answering.walks.inBeat bOn).2.1
    cases awOn : s.regs.lite_aw_data_valid with
    | true =>
      left
      cases bypass : lite_aw_bypass p s.regs
      · have both : lite_req_send p s.regs e = true := by
          cases aw : s.regs.lite_aw_send <;> cases w : s.regs.lite_w_send <;>
            simp [lite_req_send, liteAwTaken, liteWTaken, liteAw, liteW, aw, w, awOn, bypass, awReady, wReady,
              Option.filter_some]
        simp [aw_advances, both]
      · simp [aw_advances, bypass]
    | false =>
      right
      have awAt := (working.issuing.walks.shut awOn).1
      cases wanted : written p s.regs.xact_req s.current.beats s.regs.xact_b_cnt with
      | false =>
        have word := written_at working.latched working.answering.walks bOn
        rw [wanted] at word
        have bypass : lite_b_bypass p s.regs = true := by
          rw [lite_b_bypass, bOn, Bool.true_and, show lite_b_addr p s.regs = wordAddr p s.regs.xact_req s.regs.xact_b_cnt from rfl]
          simpa using word.symm
        simp [b_advances, bypass]
      | true =>
        -- the word was issued in full, so its response is due
        have due : s.current.bs.length < min s.current.aws.length s.current.ws.length := by
          have more := (writes_initial p s.regs.xact_req s.current.beats
            (show s.regs.xact_b_cnt + 1 ≤ s.regs.xact_aw_cnt by omega)).length_le
          rw [writes_succ, wanted, if_pos rfl, List.length_append, List.length_singleton] at more
          rw [working.full, working.answering.count]
          exact more
        obtain ⟨x, given⟩ := Option.isSome_iff_exists.mp (cooperative.b due)
        simp [b_advances, liteBTaken, given, bOn, Option.filter_some]

theorem Inv.progress (inv : Inv p waiting s) (cooperative : Cooperative p s e) :
    s.accepted = s.done.map Prod.fst ∨ rank p (NastiLiteWriter.cycle p s e) < rank p s := by
  have noReq : awTaken p s.regs e = none := by simp [awTaken, cooperative.aw]
  have accepted : (NastiLiteWriter.cycle p s e).accepted = s.accepted := by simp [NastiLiteWriter.cycle, noReq]
  -- a burst that waits in the buffer becomes the current one
  have pending := inv.queued.pending
  rw [List.length_map] at pending
  cases busy : s.regs.xact_req_valid with
  | false =>
    obtain ⟨quiet, current⟩ := inv.idle busy
    rw [busy] at pending
    cases waiting with
    | nil =>
      left
      rw [inv.queued.accepted, busy]
      simp
    | cons a rest =>
      right
      have nonempty : s.regs.aw_buf.valid = true := inv.queued.buffer.valid
      have open' : xact_finish p s.regs e = false := by simp [xact_finish, nastiBTaken, nastiB, busy]
      have valid : (NastiLiteWriter.cycle p s e).regs.xact_req_valid = true := by
        simp [NastiLiteWriter.cycle, next, busy, nonempty]
      have done : (NastiLiteWriter.cycle p s e).done = s.done := by simp [NastiLiteWriter.cycle, open']
      rw [rank, rank, accepted, done, valid, busy, quiet.xact_aw_cnt, quiet.xact_b_cnt, quiet.nasti_w_cnt]
      simp only [if_true, Bool.false_eq_true, if_false]
      omega
  | true =>
    right
    -- the burst under way comes nearer to its end in each cooperative cycle
    have working := inv.busy busy
    have legal := inv.legal s.regs.xact_req (by rw [inv.queued.accepted, busy]; simp)
    have size : lite_packet_size p s.regs.xact_req = (s.regs.xact_req.len + 1) * lite_packet_ratio p s.regs.xact_req :=
      Nat.mul_comm _ _
    have stop := working.issuing.walks.le
    have behind := working.behind
    have bound := working.bound
    have words := Nat.mul_le_mul_right (lite_packet_ratio p s.regs.xact_req) working.bound
    rw [busy, if_pos rfl] at pending
    have before : rank p s = work p s.regs.xact_req + (waiting.map (work p)).sum -
        (s.regs.xact_aw_cnt + s.regs.xact_b_cnt + s.regs.nasti_w_cnt) := by
      rw [rank, pending, busy]
      simp
    rw [work, working.nasti_w_cnt] at before
    have passes := inv.passes cooperative busy
    cases open' : xact_finish p s.regs e with
    | true =>
      have done : (NastiLiteWriter.cycle p s e).done.length = s.done.length + 1 := by simp [NastiLiteWriter.cycle, open']
      have rest : s.accepted.drop (s.done.length + 1) = waiting := by
        have next := congrArg (List.drop 1) pending
        rwa [List.drop_drop] at next
      have after : rank p (NastiLiteWriter.cycle p s e) ≤ (waiting.map (work p)).sum + 1 := by
        rw [rank, accepted, done, rest]
        refine Nat.le_trans (Nat.sub_le _ _) (Nat.add_le_add_left ?_ _)
        split <;> omega
      omega
    | false =>
      have done : (NastiLiteWriter.cycle p s e).done = s.done := by simp [NastiLiteWriter.cycle, open']
      have valid : (NastiLiteWriter.cycle p s e).regs.xact_req_valid = true := by
        simp [NastiLiteWriter.cycle, next, open', busy]
      have after : rank p (NastiLiteWriter.cycle p s e) = work p s.regs.xact_req + (waiting.map (work p)).sum -
          ((next p s.regs e).xact_aw_cnt + (next p s.regs e).xact_b_cnt + (next p s.regs e).nasti_w_cnt) := by
        rw [rank, accepted, done, pending, valid]
        simp [NastiLiteWriter.cycle]
      rw [work] at after
      cases came : wTaken p s.regs e with
      | none =>
        have aw_cnt := (working.issuing.next legal rfl working.bound working.latched came open').2
        have b_cnt := working.answering.b_cnt legal working.bound open'
        have w_cnt : (next p s.regs e).nasti_w_cnt = s.current.beats.length := by
          simpa [next, came, open'] using working.nasti_w_cnt
        -- one of the two sides moves on
        have moves : aw_advances p s.regs e = true ∨ b_advances p s.regs e = true := by
          simpa [open', came] using passes
        rw [aw_cnt, b_cnt, w_cnt] at after
        rcases moves with moves | moves <;> rw [moves, if_pos rfl] at after <;> omega
      | some x =>
        obtain ⟨aw_cnt, b_cnt, w_cnt⟩ := working.beat_counts legal rfl (e := e) (by rw [came]; rfl)
        rw [aw_cnt, b_cnt, w_cnt] at after
        omega

theorem Inv.intact (inv : Inv p waiting s) : Intact p s := by
  refine ⟨⟨waiting, inv.queued.accepted⟩, inv.done, ?_, fun _ _ cooperative => inv.progress cooperative⟩
  cases busy : s.regs.xact_req_valid
  · exact (inv.idle busy).2
  · exact (inv.busy busy).partRight

end

/-- As long as no response comes while a word is skipped and the latest response of a burst tells whether
one of its writes failed, no request is lost and every burst is right. -/
theorem served_runs_write_once {s t : System p I} (reset : AfterReset p s)
    (run : Steps (clock p) (fun s e => Offers p s e ∧ Served p s e) s t) : Intact p t := by
  have inv : ∃ waiting, Inv p waiting t := by
    refine run.invariant (I := fun t => ∃ waiting, Inv p waiting t) ⟨[], .reset reset⟩ ?_
    rintro t u e ⟨waiting, inv⟩ ⟨offers, served⟩ fired
    cases Option.some.inj fired
    exact inv.cycle offers served
  obtain ⟨waiting, inv⟩ := inv
  exact inv.intact

/-! Beats in which no word without strobes lies between two words with strobes: the response side is not at
such a word when a response is due. -/

section
variable {p} {m : Regs p I} {e : Input p I} {req : NastiReq I} {l : Ledger p I}

/-- The two sides part at a word to be written only. -/
structure Leading (req : NastiReq I) (m : Regs p I) (l : Ledger p I) : Prop where
  lead : m.lite_b_data_valid = true →
    (∀ n, (l.beats.length - 1) * lite_packet_ratio p req ≤ n → n ≤ m.xact_b_cnt → written p req l.beats n = false) →
    m.xact_aw_cnt = m.xact_b_cnt
  contiguous : ∀ k x, l.beats[k]? = some x → Contiguous p req k x

theorem Working.written_latched (working : Working p req m l) (some' : 0 < l.beats.length) {n : Nat}
    (low : (l.beats.length - 1) * lite_packet_ratio p req ≤ n) (high : n < l.beats.length * lite_packet_ratio p req) :
    written p req l.beats n =
      wants p req (l.beats.length - 1) m.xact_vec (n - (l.beats.length - 1) * lite_packet_ratio p req) := by
  have last : l.beats.length * lite_packet_ratio p req =
      (l.beats.length - 1) * lite_packet_ratio p req + lite_packet_ratio p req := by
    obtain ⟨k, same⟩ := Nat.exists_eq_succ_of_ne_zero (Nat.ne_of_gt some')
    rw [same, Nat.succ_mul]
    rfl
  have inBeat := written_of_beat req (working.latched some') (r := n - (l.beats.length - 1) * lite_packet_ratio p req) (by omega)
  rwa [Nat.add_sub_cancel' low] at inBeat

theorem Leading.owed (leading : Leading req m l) (working : Working p req m l)
    (answered : e.b.isSome → l.bs.length < min l.aws.length l.ws.length) : Owed req m l e := by
  intro came
  obtain ⟨x, came⟩ := Option.isSome_iff_exists.mp came
  rw [liteBTaken, Option.filter_eq_some_iff] at came
  obtain ⟨given, on⟩ := came
  have less := answered (by rw [given]; rfl)
  rw [working.full, working.answering.count] at less
  obtain ⟨j, after, before, later⟩ := exists_written less
  obtain ⟨start, _, _⟩ := working.answering.walks.inBeat on
  have some' := (working.answering.walks.open' on).1
  have stop := working.issuing.walks.le
  by_contra zero
  -- all words of the beat up to here are without strobes, so the two sides are at the same word
  have same := leading.lead on fun n low high => by
    by_contra earlier
    have behind : n < m.xact_b_cnt := by
      rcases Nat.lt_or_eq_of_le high with less | rfl
      · exact less
      · exact absurd (by simpa using earlier) zero
    have ahead : m.xact_b_cnt < j := by
      rcases Nat.lt_or_eq_of_le after with less | rfl
      · exact less
      · exact absurd later zero
    have last : l.beats.length * lite_packet_ratio p req =
        (l.beats.length - 1) * lite_packet_ratio p req + lite_packet_ratio p req := by
      obtain ⟨k, same⟩ := Nat.exists_eq_succ_of_ne_zero (Nat.ne_of_gt some')
      rw [same, Nat.succ_mul]
      rfl
    refine zero ?_
    rw [working.written_latched some' start (by omega)]
    refine leading.contiguous _ _ (working.latched some') (j - (l.beats.length - 1) * lite_packet_ratio p req) (by omega)
      _ (by omega) (n - (l.beats.length - 1) * lite_packet_ratio p req) (by omega) ?_ ?_
    · rw [← working.written_latched some' low (by omega)]
      simpa using earlier
    · rw [← working.written_latched some' (by omega) (by omega)]
      exact later
  omega

theorem Leading.next_word (leading : Leading req m l) (legal : Legal p req) (request : m.xact_req = req)
    (working : Working p req m l) (noW : wTaken p m e = none) (open' : xact_finish p m e = false) :
    Leading req (next p m e) ⟨l.beats, l.aws ++ (liteAwTaken p m e).toList, l.ws ++ (liteWTaken p m e).toList,
      l.bs ++ (liteBTaken p m e).toList, l.answers⟩ := by
  have aw_cnt := (working.issuing.next legal request working.bound working.latched noW open').2
  have b_cnt := working.answering.b_cnt legal working.bound open'
  refine ⟨fun onNext zeros => ?_, leading.contiguous⟩
  have on : m.lite_b_data_valid = true := by
    by_contra off
    have off : m.lite_b_data_valid = false := by simpa using off
    simp [next, noW, off] at onNext
  have start := (working.answering.walks.inBeat on).1
  rw [b_cnt] at zeros
  have zero := zeros m.xact_b_cnt start (Nat.le_add_right _ _)
  have moves : b_advances p m e = true := by
    simp [b_advances, working.answering.bypass request working.latched on, zero]
  have same := leading.lead on fun n low high => zeros n low (Nat.le_trans high (Nat.le_add_right _ _))
  rw [aw_cnt, b_cnt, moves, working.together request on same zero, same]

theorem Leading.next_beat {x : NastiW p.nb} (leading : Leading req m l) (legal : Legal p req) (request : m.xact_req = req)
    (working : Working p req m l) (came : wTaken p m e = some x) (contiguous : Contiguous p req l.beats.length x) :
    Leading req (next p m e) ⟨l.beats ++ [x], l.aws ++ (liteAwTaken p m e).toList, l.ws ++ (liteWTaken p m e).toList,
      l.bs ++ (liteBTaken p m e).toList, l.answers⟩ := by
  obtain ⟨-, -, -, same, -⟩ := working.shut_of_beat request (e := e) (by rw [came]; rfl)
  obtain ⟨aw_cnt, b_cnt, -⟩ := working.beat_counts legal request (e := e) (by rw [came]; rfl)
  refine ⟨fun _ _ => by rw [aw_cnt, b_cnt, same], fun k y found => ?_⟩
  by_cases old : k < l.beats.length
  · rw [List.getElem?_append_left old] at found
    exact leading.contiguous k y found
  · have inside : k < (l.beats ++ [x]).length := (List.getElem?_eq_some_iff.mp found).1
    have last : k = l.beats.length := by
      rw [List.length_append, List.length_singleton] at inside
      omega
    rw [last, List.getElem?_concat_length] at found
    cases Option.some.inj found
    rw [last]
    exact contiguous

theorem Working.leading (working : Working p req m l) (none' : l.beats = []) : Leading req m l := by
  refine ⟨fun on _ => ?_, fun k x found => ?_⟩
  · have some' := (working.answering.walks.open' on).1
    rw [none'] at some'
    cases some'
  · rw [none'] at found
    cases found

end

/-- The beats have no holes, and the latest response tells whether a write of the burst failed. -/
structure Gapless (s : System p I) (e : Input p I) : Prop where
  w : ∀ x, wTaken p s.regs e = some x → Contiguous p s.regs.xact_req s.current.beats.length x
  b : s.regs.xact_req_valid = true → s.regs.xact_b_cnt = lite_packet_size p s.regs.xact_req → e.b_ready = true →
    ∃ resp, s.latest = some resp ∧ (isError resp = true ↔ ∃ y ∈ s.current.bs, isError y = true)

section
variable {p} {s : System p I} {e : Input p I} {waiting : List (NastiReq I)}

theorem Gapless.served (gapless : Gapless p s e) (inv : Inv p waiting s) (offers : Offers p s e)
    (leading : s.regs.xact_req_valid = true → Leading s.regs.xact_req s.regs s.current) : Served p s e := by
  refine ⟨fun on zero => ?_, gapless.b⟩
  by_contra came
  obtain ⟨x, given⟩ := Option.ne_none_iff_exists'.mp came
  have busy : s.regs.xact_req_valid = true := by
    by_contra idle
    have shut := (inv.idle (by simpa using idle)).1.lite_b_data_valid
    rw [on] at shut
    cases shut
  have working := inv.busy busy
  have owed := (leading busy).owed (e := e) working offers.b (by simp [liteBTaken, given, on, Option.filter_some])
  rw [written_at working.latched working.answering.walks on, bne_iff_ne] at owed
  exact owed zero

theorem Gapless.leading (gapless : Gapless p s e) (inv : Inv p waiting s)
    {waiting' : List (NastiReq I)} (inv' : Inv p waiting' (cycle p s e))
    (leading : s.regs.xact_req_valid = true → Leading s.regs.xact_req s.regs s.current)
    (busy' : (cycle p s e).regs.xact_req_valid = true) :
    Leading (cycle p s e).regs.xact_req (cycle p s e).regs (cycle p s e).current := by
  by_cases goesOn : s.regs.xact_req_valid = true ∧ xact_finish p s.regs e = false
  · obtain ⟨busy, open'⟩ := goesOn
    have working := inv.busy busy
    have legal := inv.legal s.regs.xact_req (by rw [inv.queued.accepted, busy]; simp)
    have request : (cycle p s e).regs.xact_req = s.regs.xact_req := by simp [cycle, next, open', busy]
    have noN : nastiBTaken p s.regs e = none := by
      rw [xact_finish] at open'
      exact Option.not_isSome_iff_eq_none.mp (by simp [open'])
    rw [request, show (cycle p s e).current = record p s e by simp [cycle, open']]
    cases came : wTaken p s.regs e with
    | none => simpa [record, came, noN, cycle] using (leading busy).next_word legal rfl working came open'
    | some x =>
      simpa [record, came, noN, cycle] using (leading busy).next_beat legal rfl working came (gapless.w x came)
  · refine (inv'.busy busy').leading ?_
    cases finish : xact_finish p s.regs e with
    | true => simp [cycle, finish]
    | false =>
      have idle : s.regs.xact_req_valid = false := by
        by_contra busy
        exact goesOn ⟨by simpa using busy, finish⟩
      have noW : wTaken p s.regs e = none := by
        cases given : e.w <;> simp [wTaken, nasti_w_ready, idle, given, Option.filter_some]
      simp [cycle, finish, record, noW, (inv.idle idle).2]

end

/-- In particular when no beat has a hole between its writes. -/
theorem gapless_runs_write_once {s t : System p I} (reset : AfterReset p s)
    (run : Steps (clock p) (fun s e => Offers p s e ∧ Gapless p s e) s t) : Intact p t := by
  have inv : ∃ waiting, Inv p waiting t ∧
      (t.regs.xact_req_valid = true → Leading t.regs.xact_req t.regs t.current) := by
    refine run.invariant (I := fun t => ∃ waiting, Inv p waiting t ∧
      (t.regs.xact_req_valid = true → Leading t.regs.xact_req t.regs t.current)) ⟨[], .reset reset, fun busy => ?_⟩ ?_
    · rw [reset.regs.2.2.2.1] at busy
      cases busy
    · rintro t u e ⟨waiting, inv, leading⟩ ⟨offers, gapless⟩ fired
      cases Option.some.inj fired
      obtain ⟨waiting', inv'⟩ := inv.cycle offers (gapless.served inv offers leading)
      exact ⟨waiting', inv', gapless.leading inv inv' leading⟩
  obtain ⟨waiting, inv, -⟩ := inv
  exact inv.intact

section
variable {p}

instance (s : System p I) (e : Input p I) : Decidable (Offers p s e) :=
  decidable_of_iff ((∀ req ∈ e.aw, Legal p req) ∧
      (e.b.isSome → s.current.bs.length < min s.current.aws.length s.current.ws.length))
    ⟨fun both => ⟨both.1, both.2⟩, fun offers => ⟨offers.aw, offers.b⟩⟩

instance (s : System p I) (e : Input p I) : Decidable (Served p s e) :=
  decidable_of_iff ((s.regs.lite_b_data_valid = true → (wordAt p s.regs.xact_vec (lite_b_addr p s.regs)).strb = 0 → e.b = none) ∧
      (s.regs.xact_req_valid = true → s.regs.xact_b_cnt = lite_packet_size p s.regs.xact_req → e.b_ready = true →
        ∃ resp ∈ s.latest, (isError resp = true ↔ ∃ y ∈ s.current.bs, isError y = true)))
    ⟨fun both => ⟨both.1, both.2⟩, fun served => ⟨served.skip, served.b⟩⟩

end

def doubleToWord : NastiLiteParams := ⟨1, 3, 2, 8, Nat.one_pos, word_in_double, double_in_block⟩

def started : System doubleToWord Unit :=
  ⟨⟨⟨fun _ => ⟨(), 0, 0, 0⟩, 0, 0, false⟩, ⟨(), 0, 0, 0⟩, false, 0, 0, ⟨0, 0⟩, 0, 0, 0, false, 0, false, false, false⟩,
    [], [], ⟨[], [], [], [], []⟩, none⟩

/-- One double word is written, and the writes of its words are answered so. -/
def writesDouble (first second : BitVec 2) : List (Input doubleToWord Unit) :=
  [⟨some ⟨(), 8, 0, 3⟩, none, false, false, false, none⟩, ⟨none, none, false, false, false, none⟩,
    ⟨none, some ⟨0x0102030405060708, 0xff⟩, false, false, false, none⟩, ⟨none, none, false, true, true, none⟩,
    ⟨none, none, false, true, true, some first⟩, ⟨none, none, false, false, false, some second⟩,
    ⟨none, none, true, false, false, none⟩]

def afterDouble (first second : BitVec 2) : System doubleToWord Unit :=
  (writesDouble first second).foldl (cycle doubleToWord) started

theorem afterReset_started : AfterReset doubleToWord started := ⟨by decide, rfl, rfl, rfl, rfl⟩

/-- The second word fails. -/
theorem served_runs_write_once_of_double : (afterDouble 0 2).done.length = 1 ∧ Intact doubleToWord (afterDouble 0 2) := by
  refine ⟨by decide, served_runs_write_once doubleToWord afterReset_started ?_⟩
  have ran : execGuarded (clock doubleToWord) (fun s e => decide (Offers doubleToWord s e ∧ Served doubleToWord s e)) started
      (writesDouble 0 2) = some (afterDouble 0 2) := rfl
  exact (steps_of_execGuarded ran).mono fun s e => of_decide_eq_true

/-- The first word fails and the second does not, and the master is told that all is well. -/
theorem not_intact_first_write_fails : AfterReset doubleToWord started ∧
    Steps (clock doubleToWord) (Offers doubleToWord) started (afterDouble 2 0) ∧ ¬ Intact doubleToWord (afterDouble 2 0) := by
  have ran : execGuarded (clock doubleToWord) (fun s e => decide (Offers doubleToWord s e)) started (writesDouble 2 0) =
      some (afterDouble 2 0) := rfl
  refine ⟨afterReset_started, (steps_of_execGuarded ran).mono fun s e => of_decide_eq_true, fun intact => ?_⟩
  have burst := intact.done _ (List.mem_of_getElem? (i := 0) rfl)
  obtain ⟨resp, answer, error⟩ := burst.answer
  have told : (0 : BitVec 2) = resp := congrArg NastiB.resp (List.cons.inj answer).1
  rw [← told] at error
  revert error
  decide

end NastiLiteWriter

end LowRisc.Socip
