import LowRisc.Socip.NastiLite

/-! The read bridge from a NASTI master to a lite slave. -/

set_option autoImplicit false

namespace LowRisc.Socip

open LowRisc.Lib NastiLite

namespace NastiLiteReader

variable {I : Type}

structure LiteAr (I : Type) where
  id : I
  addr : Nat
  deriving DecidableEq

structure LiteR (b : Nat) where
  data : Bus b
  resp : BitVec 2

structure NastiR (I : Type) (b : Nat) where
  id : I
  data : Bus b
  resp : BitVec 2
  last : Bool

structure Regs (p : NastiLiteParams) (I : Type) where
  ar_buf : RequestBuffer (NastiReq I)
  xact_req : NastiReq I
  xact_req_valid : Bool
  xact_ar_cnt : Nat
  xact_r_cnt : Nat
  xact_data_vec : Bus p.nb
  xact_resp : BitVec 2
  xact_data_wp : Nat
  lite_ar_addr_accum : Nat
  nasti_r_cnt : Nat
  nasti_r_addr_accum : Nat

/-- One cycle; `r` is the response of the lite slave. -/
structure Input (p : NastiLiteParams) (I : Type) where
  ar : Option (NastiReq I)
  r_ready : Bool
  ar_ready : Bool
  r : Option (LiteR p.lb)

variable (p : NastiLiteParams) (m : Regs p I) (e : Input p I)

def arTaken : Option (NastiReq I) := e.ar.filter fun _ => !m.ar_buf.full

def liteAr : Option (LiteAr I) :=
  if m.xact_req_valid && decide (m.xact_ar_cnt < lite_packet_size p m.xact_req) then
    some ⟨m.xact_req.id, (m.xact_req.addr + m.lite_ar_addr_accum) % 2 ^ p.ab⟩
  else none

def liteArTaken : Option (LiteAr I) := (liteAr p m).filter fun _ => e.ar_ready

def lite_r_ready : Bool :=
  m.xact_req_valid && decide (m.xact_r_cnt < lite_packet_size p m.xact_req) &&
    decide (m.xact_data_wp < lite_packet_ratio p m.xact_req)

def liteRTaken : Option (LiteR p.lb) := e.r.filter fun _ => lite_r_ready p m

def nastiR : Option (NastiR I p.nb) :=
  if m.xact_req_valid && m.xact_data_wp == lite_packet_ratio p m.xact_req then
    some ⟨m.xact_req.id, m.xact_data_vec, m.xact_resp, m.nasti_r_cnt == m.xact_req.len⟩
  else none

def nastiRTaken : Option (NastiR I p.nb) := (nastiR p m).filter fun _ => e.r_ready

def xact_finish : Bool := (nastiRTaken p m e).isSome && m.nasti_r_cnt == m.xact_req.len

def nasti_r_addr : Nat := (m.xact_req.addr + m.nasti_r_addr_accum) % 2 ^ p.ab

def next : Regs p I where
  ar_buf := m.ar_buf.next p.maxTransaction (arTaken p m e) (xact_finish p m e || !m.xact_req_valid)
  xact_req :=
    if (xact_finish p m e || !m.xact_req_valid) && m.ar_buf.valid then m.ar_buf.buf m.ar_buf.rp else m.xact_req
  xact_req_valid := if xact_finish p m e || !m.xact_req_valid then m.ar_buf.valid else m.xact_req_valid
  xact_ar_cnt :=
    if (liteArTaken p m e).isSome then (m.xact_ar_cnt + 1) % 2 ^ (p.bufLenBits + 8)
    else if xact_finish p m e then 0 else m.xact_ar_cnt
  xact_r_cnt :=
    if (liteRTaken p m e).isSome then (m.xact_r_cnt + 1) % 2 ^ (p.bufLenBits + 8)
    else if xact_finish p m e then 0 else m.xact_r_cnt
  xact_data_vec :=
    match liteRTaken p m e with
    | some x =>
      setLane m.xact_data_vec ((m.xact_data_wp + p.wordOf (nasti_r_addr p m)) % 2 ^ (p.bufLenBits + 1)) x.data
    | none => m.xact_data_vec
  xact_resp := ((liteRTaken p m e).map LiteR.resp).getD m.xact_resp
  xact_data_wp :=
    if (liteRTaken p m e).isSome then (m.xact_data_wp + 1) % 2 ^ (p.bufLenBits + 1)
    else if (nastiRTaken p m e).isSome then 0 else m.xact_data_wp
  lite_ar_addr_accum :=
    if (liteArTaken p m e).isSome then (m.lite_ar_addr_accum + lite_step_size p m.xact_req) % 2 ^ p.ab
    else if xact_finish p m e then 0 else m.lite_ar_addr_accum
  nasti_r_cnt :=
    if (nastiRTaken p m e).isSome then
      if m.nasti_r_cnt = m.xact_req.len then 0 else (m.nasti_r_cnt + 1) % 256
    else m.nasti_r_cnt
  nasti_r_addr_accum :=
    if (nastiRTaken p m e).isSome then
      if xact_finish p m e then 0 else (m.nasti_r_addr_accum + nasti_step_size m.xact_req) % 2 ^ p.ab
    else m.nasti_r_addr_accum

/-! The bridge with what passed on its ports, burst by burst. -/

structure Ledger (p : NastiLiteParams) (I : Type) where
  ars : List (LiteAr I)
  rs : List (LiteR p.lb)
  beats : List (NastiR I p.nb)

structure System (p : NastiLiteParams) (I : Type) where
  regs : Regs p I
  accepted : List (NastiReq I)
  done : List (NastiReq I × Ledger p I)
  current : Ledger p I

def record (s : System p I) (e : Input p I) : Ledger p I where
  ars := s.current.ars ++ (liteArTaken p s.regs e).toList
  rs := s.current.rs ++ (liteRTaken p s.regs e).toList
  beats := s.current.beats ++ (nastiRTaken p s.regs e).toList

def cycle (s : System p I) (e : Input p I) : System p I where
  regs := next p s.regs e
  accepted := s.accepted ++ (arTaken p s.regs e).toList
  done := s.done ++ if xact_finish p s.regs e then [(s.regs.xact_req, record p s e)] else []
  current := if xact_finish p s.regs e then ⟨[], [], []⟩ else record p s e

def clock (s : System p I) (e : Input p I) : Option (System p I) := some (cycle p s e)

/-- Behind the reset. The registers without a reset have any value. -/
structure AfterReset (s : System p I) : Prop where
  regs : s.regs.ar_buf.rp = 0 ∧ s.regs.ar_buf.wp = 0 ∧ s.regs.ar_buf.valid = false ∧ s.regs.xact_req_valid = false ∧
    s.regs.xact_ar_cnt = 0 ∧ s.regs.xact_r_cnt = 0 ∧ s.regs.xact_data_wp = 0 ∧ s.regs.lite_ar_addr_accum = 0 ∧
    s.regs.nasti_r_cnt = 0 ∧ s.regs.nasti_r_addr_accum = 0
  accepted : s.accepted = []
  done : s.done = []
  current : s.current = ⟨[], [], []⟩

/-- Requests are legal, and the lite slave answers only what it was asked. -/
structure Offers (s : System p I) (e : Input p I) : Prop where
  ar : ∀ req, e.ar = some req → Legal p req
  r : e.r.isSome → s.current.rs.length < s.current.ars.length

/-- The counters can hold the lite words of the burst, and a beat with a failed read also fails at its
last read. -/
structure Served (s : System p I) (e : Input p I) : Prop where
  ar : ∀ req, e.ar = some req → lite_packet_size p req < 2 ^ (p.bufLenBits + 8)
  r : ∀ x, e.r = some x → (s.current.rs.length + 1) % lite_packet_ratio p s.regs.xact_req = 0 →
    (∃ y ∈ s.current.rs.drop (s.current.rs.length + 1 - lite_packet_ratio p s.regs.xact_req), isError y.resp = true) →
    isError x.resp = true

/-- Beat `k` of a burst, from the answers to its lite reads. -/
structure BeatRight (req : NastiReq I) (rs : List (LiteR p.lb)) (k : Nat) (x : NastiR I p.nb) : Prop where
  inBurst : k ≤ req.len
  id : x.id = req.id
  last : x.last = (k == req.len)
  error : ∀ r < lite_packet_ratio p req, ∀ y, rs[k * lite_packet_ratio p req + r]? = some y → isError y.resp = true →
    isError x.resp = true
  bytes : ∀ a, req.addr + k * nasti_step_size req ≤ a → a < req.addr + (k + 1) * nasti_step_size req →
    ∃ y, rs[wordIndex p req a]? = some y ∧ byteOf x.data (a % 2 ^ p.nb) = byteOf y.data (a % 2 ^ p.lb)

structure PartRight (req : NastiReq I) (l : Ledger p I) : Prop where
  reads : l.ars = (List.range l.ars.length).map fun k => ⟨req.id, wordAddr p req k⟩
  bound : l.ars.length ≤ lite_packet_size p req
  beats : ∀ k x, l.beats[k]? = some x → BeatRight p req l.rs k x

structure BurstRight (req : NastiReq I) (l : Ledger p I) : Prop extends PartRight p req l where
  reads_all : l.ars.length = lite_packet_size p req
  answers_all : l.rs.length = lite_packet_size p req
  beats_all : l.beats.length = req.len + 1

structure Cooperative (s : System p I) (e : Input p I) : Prop where
  ar : e.ar = none
  ready : e.r_ready = true ∧ e.ar_ready = true
  r : s.current.rs.length < s.current.ars.length → e.r.isSome

def work (req : NastiReq I) : Nat := 2 * lite_packet_size p req + req.len + 2

def rank (s : System p I) : Nat :=
  ((s.accepted.drop s.done.length).map (work p)).sum + (if s.regs.xact_req_valid then 0 else 1) -
    (s.current.ars.length + s.current.rs.length + s.current.beats.length)

/-- No request is lost or repeated, and the bursts are right. -/
structure Intact (s : System p I) : Prop where
  order : ∃ waiting, s.accepted =
    s.done.map Prod.fst ++ (if s.regs.xact_req_valid then [s.regs.xact_req] else []) ++ waiting
  done : ∀ x ∈ s.done, BurstRight p x.1 x.2
  current : if s.regs.xact_req_valid then PartRight p s.regs.xact_req s.current else s.current = ⟨[], [], []⟩
  progress : ∀ e, Cooperative p s e → s.accepted = s.done.map Prod.fst ∨ rank p (cycle p s e) < rank p s

/-! What the registers of the issuing and of the collecting side stand for. -/

structure Asking (req : NastiReq I) (m : Regs p I) (ars : List (LiteAr I)) : Prop where
  reads : ars = (List.range ars.length).map fun k => ⟨req.id, wordAddr p req k⟩
  bound : ars.length ≤ lite_packet_size p req
  xact_ar_cnt : m.xact_ar_cnt = ars.length
  accum : m.lite_ar_addr_accum = ars.length * lite_step_size p req % 2 ^ p.ab

structure Collecting (req : NastiReq I) (m : Regs p I) (rs : List (LiteR p.lb)) (beats : List (NastiR I p.nb)) : Prop where
  shown : ∀ k x, beats[k]? = some x → BeatRight p req rs k x
  open' : beats.length ≤ req.len
  xact_r_cnt : m.xact_r_cnt = rs.length
  nasti_r_cnt : m.nasti_r_cnt = beats.length
  accum : m.nasti_r_addr_accum = beats.length * nasti_step_size req % 2 ^ p.ab
  place : rs.length = beats.length * lite_packet_ratio p req + m.xact_data_wp
  bound : m.xact_data_wp ≤ lite_packet_ratio p req
  error : m.xact_data_wp = lite_packet_ratio p req → ∀ r < lite_packet_ratio p req, ∀ y,
    rs[beats.length * lite_packet_ratio p req + r]? = some y → isError y.resp = true → isError m.xact_resp = true
  lanes : ∀ r < m.xact_data_wp, ∀ y, rs[beats.length * lite_packet_ratio p req + r]? = some y → ∀ q < 2 ^ p.lb,
    byteOf m.xact_data_vec ((p.wordOf (req.addr + beats.length * nasti_step_size req) + r) * 2 ^ p.lb + q) = byteOf y.data q

section
variable {p} {m : Regs p I} {e : Input p I} {req : NastiReq I} {ars : List (LiteAr I)} {rs : List (LiteR p.lb)}
  {beats : List (NastiR I p.nb)}

theorem nastiRTaken_some {x : NastiR I p.nb} (took : nastiRTaken p m e = some x) :
    m.xact_data_wp = lite_packet_ratio p m.xact_req ∧
      x = ⟨m.xact_req.id, m.xact_data_vec, m.xact_resp, m.nasti_r_cnt == m.xact_req.len⟩ := by
  cases shown : m.xact_req_valid && m.xact_data_wp == lite_packet_ratio p m.xact_req
  · simp only [nastiRTaken, nastiR, shown] at took
    cases took
  · simp only [nastiRTaken, nastiR, shown, if_true, Option.filter_eq_some_iff, Option.some.injEq] at took
    rw [Bool.and_eq_true, beq_iff_eq] at shown
    exact ⟨shown.2, took.1.symm⟩

theorem liteRTaken_some {x : LiteR p.lb} (came : liteRTaken p m e = some x) :
    e.r = some x ∧ m.xact_r_cnt < lite_packet_size p m.xact_req ∧ m.xact_data_wp < lite_packet_ratio p m.xact_req := by
  simp only [liteRTaken, Option.filter_eq_some_iff, lite_r_ready, Bool.and_eq_true, decide_eq_true_iff] at came
  exact ⟨came.1, came.2.1.2, came.2.2⟩

theorem liteArTaken_some {x : LiteAr I} (sent : liteArTaken p m e = some x) :
    m.xact_ar_cnt < lite_packet_size p m.xact_req ∧
      x = ⟨m.xact_req.id, (m.xact_req.addr + m.lite_ar_addr_accum) % 2 ^ p.ab⟩ := by
  cases shown : m.xact_req_valid && decide (m.xact_ar_cnt < lite_packet_size p m.xact_req)
  · simp only [liteArTaken, liteAr, shown] at sent
    cases sent
  · simp only [liteArTaken, liteAr, shown, if_true, Option.filter_eq_some_iff, Option.some.injEq] at sent
    rw [Bool.and_eq_true, decide_eq_true_iff] at shown
    exact ⟨shown.2, sent.1.symm⟩

theorem Asking.next (asking : Asking p req m ars) (request : m.xact_req = req)
    (small : lite_packet_size p req < 2 ^ (p.bufLenBits + 8)) (open' : xact_finish p m e = false) :
    Asking p req (next p m e) (ars ++ (liteArTaken p m e).toList) := by
  cases sent : liteArTaken p m e with
  | none => exact ⟨by simpa using asking.reads, by simpa using asking.bound,
      by simpa [NastiLiteReader.next, sent, open'] using asking.xact_ar_cnt,
      by simpa [NastiLiteReader.next, sent, open'] using asking.accum⟩
  | some x =>
    obtain ⟨less, rfl⟩ := liteArTaken_some sent
    rw [request, asking.xact_ar_cnt] at less
    refine ⟨?_, by simpa using Nat.succ_le_of_lt less, ?_, ?_⟩
    · have address : (req.addr + m.lite_ar_addr_accum) % 2 ^ p.ab = wordAddr p req ars.length := by
        rw [asking.accum, Nat.add_mod_mod]
        rfl
      simp only [Option.toList_some, List.length_append, List.length_singleton, List.range_succ, List.map_append,
        List.map_singleton, request, address]
      rw [← asking.reads]
    · have fits : ars.length + 1 < 2 ^ (p.bufLenBits + 8) := by omega
      simp [NastiLiteReader.next, sent, asking.xact_ar_cnt, Nat.mod_eq_of_lt fits]
    · simp [NastiLiteReader.next, sent, asking.accum, request, Nat.add_mul]

end

section
variable {p} {m : Regs p I} {e : Input p I} {req : NastiReq I} {rs : List (LiteR p.lb)} {beats : List (NastiR I p.nb)}

theorem BeatRight.append {k : Nat} {x : NastiR I p.nb} (full : (k + 1) * lite_packet_ratio p req ≤ rs.length)
    (right : BeatRight p req rs k x) (more : List (LiteR p.lb)) : BeatRight p req (rs ++ more) k x := by
  rw [Nat.add_mul, Nat.one_mul] at full
  refine ⟨right.inBurst, right.id, right.last, fun r inBeat y found => ?_, fun a low high => ?_⟩
  · rw [List.getElem?_append_left (by omega)] at found
    exact right.error r inBeat y found
  · obtain ⟨y, found, same⟩ := right.bytes a low high
    exact ⟨y, by rw [List.getElem?_append_left (List.getElem?_eq_some_iff.mp found).1, found], same⟩

theorem Collecting.beat (legal : Legal p req) (collecting : Collecting p req m rs beats) (request : m.xact_req = req)
    (full : m.xact_data_wp = lite_packet_ratio p req) :
    BeatRight p req rs beats.length ⟨m.xact_req.id, m.xact_data_vec, m.xact_resp, m.nasti_r_cnt == m.xact_req.len⟩ := by
  refine ⟨collecting.open', by rw [request], by rw [request, collecting.nasti_r_cnt], collecting.error full,
    fun a low high => ?_⟩
  obtain ⟨r, inBeat, word, lane⟩ := byte_place legal low high
  have place := collecting.place
  have there : beats.length * lite_packet_ratio p req + r < rs.length := by omega
  refine ⟨rs[beats.length * lite_packet_ratio p req + r], by rw [word, List.getElem?_eq_getElem there], ?_⟩
  rw [lane]
  exact collecting.lanes r (by omega) _ (List.getElem?_eq_getElem there) _ (Nat.mod_lt _ (Nat.two_pow_pos _))

theorem push_beat {k : Nat} {x : NastiR I p.nb} (shown : ∀ k x, beats[k]? = some x → BeatRight p req rs k x)
    (right : BeatRight p req rs beats.length x) {y : NastiR I p.nb} (found : (beats ++ [x])[k]? = some y) :
    BeatRight p req rs k y := by
  by_cases old : k < beats.length
  · rw [List.getElem?_append_left old] at found
    exact shown k y found
  · rw [List.getElem?_append_right (by omega)] at found
    have tail : k = beats.length := by
      by_contra differ
      rw [List.getElem?_singleton, if_neg (by omega)] at found
      cases found
    rw [tail, Nat.sub_self] at found
    cases Option.some.inj found
    rw [tail]
    exact right

theorem Collecting.collect {x : LiteR p.lb} (legal : Legal p req) (small : lite_packet_size p req < 2 ^ (p.bufLenBits + 8))
    (collecting : Collecting p req m rs beats) (request : m.xact_req = req) (came : liteRTaken p m e = some x)
    (served : (rs.length + 1) % lite_packet_ratio p req = 0 →
      (∃ y ∈ rs.drop (rs.length + 1 - lite_packet_ratio p req), isError y.resp = true) → isError x.resp = true) :
    Collecting p req (next p m e) (rs ++ [x]) beats := by
  obtain ⟨-, less, room⟩ := liteRTaken_some came
  rw [request] at less room
  have count := collecting.xact_r_cnt
  have place := collecting.place
  have ratio := ratio_le legal
  have noN : nastiRTaken p m e = none := by
    cases took : nastiRTaken p m e with
    | none => rfl
    | some z =>
      have full := (nastiRTaken_some took).1
      rw [request] at full
      omega
  obtain ⟨-, inLanes⟩ := wordOf_add legal beats.length room
  have pow : 2 ^ (p.bufLenBits + 1) = 2 * 2 ^ p.bufLenBits := by rw [Nat.pow_succ, Nat.mul_comm]
  have wp : (next p m e).xact_data_wp = m.xact_data_wp + 1 := by
    simp only [next, came, Option.isSome_some, if_true]
    exact Nat.mod_eq_of_lt (by omega)
  have lane : (m.xact_data_wp + p.wordOf (nasti_r_addr p m)) % 2 ^ (p.bufLenBits + 1) =
      p.wordOf (req.addr + beats.length * nasti_step_size req) + m.xact_data_wp := by
    rw [nasti_r_addr, request, collecting.accum, Nat.add_mod_mod, wordOf_mod, Nat.add_comm, Nat.mod_eq_of_lt (by omega)]
  have data : (next p m e).xact_data_vec =
      setLane m.xact_data_vec (p.wordOf (req.addr + beats.length * nasti_step_size req) + m.xact_data_wp) x.data := by
    simp only [next, came, lane]
  have lanes : ∀ w < 2 ^ p.bufLenBits, (w + 1) * 2 ^ p.lb ≤ 2 ^ p.nb := by
    intro w inside
    have whole : 2 ^ p.nb = 2 ^ p.bufLenBits * 2 ^ p.lb := by
      rw [← Nat.pow_add]
      congr 1
      have wider := p.wider
      unfold NastiLiteParams.bufLenBits
      omega
    rw [whole]
    exact Nat.mul_le_mul_right _ inside
  -- the words of the open beat, with the new one
  have words : ∀ r, r < m.xact_data_wp + 1 → ∀ y, (rs ++ [x])[beats.length * lite_packet_ratio p req + r]? = some y →
      (r < m.xact_data_wp ∧ rs[beats.length * lite_packet_ratio p req + r]? = some y) ∨ (r = m.xact_data_wp ∧ y = x) := by
    intro r below y found
    rcases Nat.lt_or_eq_of_le (Nat.le_of_lt_succ below) with earlier | rfl
    · rw [List.getElem?_append_left (by omega)] at found
      exact .inl ⟨earlier, found⟩
    · rw [← place, List.getElem?_concat_length] at found
      exact .inr ⟨rfl, (Option.some.inj found).symm⟩
  refine ⟨fun k z found => ?_, collecting.open', ?_, ?_, ?_, ?_, ?_, ?_, ?_⟩
  · have inside := (List.getElem?_eq_some_iff.mp found).1
    have full : (k + 1) * lite_packet_ratio p req ≤ beats.length * lite_packet_ratio p req := Nat.mul_le_mul_right _ inside
    exact (collecting.shown k z found).append (by omega) _
  · have fits : rs.length + 1 < 2 ^ (p.bufLenBits + 8) := by omega
    simp [next, came, count, Nat.mod_eq_of_lt fits]
  · simpa [next, noN] using collecting.nasti_r_cnt
  · simpa [next, noN] using collecting.accum
  · rw [List.length_append, List.length_singleton, wp]
    omega
  · rw [wp]
    exact room
  · rw [wp]
    intro full r inBeat y found failed
    have resp : (next p m e).xact_resp = x.resp := by simp [next, came]
    rw [resp]
    rcases words r (by omega) y found with ⟨-, old⟩ | ⟨-, rfl⟩
    · refine served ?_ ⟨y, ?_, failed⟩
      · rw [place, Nat.add_assoc, full, ← Nat.succ_mul, Nat.mul_mod_left]
      · rw [show rs.length + 1 - lite_packet_ratio p req = beats.length * lite_packet_ratio p req by omega]
        refine List.mem_of_getElem? (i := r) ?_
        rw [List.getElem?_drop]
        exact old
    · exact failed
  · rw [wp, data]
    intro r below y found q inLane
    rcases words r below y found with ⟨earlier, old⟩ | ⟨rfl, rfl⟩
    · rw [byteOf_setLane_other _ _ (by omega) inLane (lanes _ (by omega))]
      exact collecting.lanes r earlier y old q inLane
    · exact byteOf_setLane_same _ _ inLane (lanes _ inLanes)

theorem Collecting.deliver {x : NastiR I p.nb} (legal : Legal p req) (collecting : Collecting p req m rs beats)
    (request : m.xact_req = req) (took : nastiRTaken p m e = some x) (open' : xact_finish p m e = false) :
    Collecting p req (next p m e) rs (beats ++ [x]) := by
  obtain ⟨full, rfl⟩ := nastiRTaken_some took
  have len := legal.len
  have more := collecting.open'
  have noR : liteRTaken p m e = none := by
    cases came : liteRTaken p m e with
    | none => rfl
    | some z =>
      have room := (liteRTaken_some came).2.2
      omega
  have notLast : m.nasti_r_cnt ≠ req.len := by
    intro last
    simp [xact_finish, took, request, last] at open'
  rw [collecting.nasti_r_cnt] at notLast
  have beat := collecting.beat legal request (request ▸ full)
  have place := collecting.place
  have wp : (next p m e).xact_data_wp = 0 := by simp [next, noR, took]
  refine ⟨fun k y => push_beat collecting.shown beat, ?_, ?_, ?_, ?_, ?_, ?_, ?_, ?_⟩
  · rw [List.length_append, List.length_singleton]
    omega
  · simpa [next, noR, open'] using collecting.xact_r_cnt
  · have small : beats.length + 1 < 256 := by omega
    simp [next, took, collecting.nasti_r_cnt, request, notLast, Nat.mod_eq_of_lt small]
  · simp [next, took, open', collecting.accum, request, Nat.add_mul]
  · rw [wp, place, full, request, List.length_append, List.length_singleton, Nat.add_mul, Nat.one_mul, Nat.add_zero]
  · rw [wp]
    exact Nat.zero_le _
  · rw [wp]
    intro none'
    have positive := ratio_pos p req
    omega
  · rw [wp]
    intro r below
    exact absurd below (Nat.not_lt_zero _)

theorem Collecting.stay (collecting : Collecting p req m rs beats) (noR : liteRTaken p m e = none)
    (noN : nastiRTaken p m e = none) : Collecting p req (next p m e) rs beats := by
  have open' : xact_finish p m e = false := by simp [xact_finish, noN]
  exact ⟨collecting.shown, collecting.open', by simpa [next, noR, open'] using collecting.xact_r_cnt,
    by simpa [next, noN] using collecting.nasti_r_cnt, by simpa [next, noN] using collecting.accum,
    by simpa [next, noR, noN] using collecting.place, by simpa [next, noR, noN] using collecting.bound,
    by simpa [next, noR, noN] using collecting.error, by simpa [next, noR, noN] using collecting.lanes⟩

end

/-! Runs. -/

structure Quiet (m : Regs p I) : Prop where
  xact_ar_cnt : m.xact_ar_cnt = 0
  xact_r_cnt : m.xact_r_cnt = 0
  xact_data_wp : m.xact_data_wp = 0
  lite_ar_addr_accum : m.lite_ar_addr_accum = 0
  nasti_r_cnt : m.nasti_r_cnt = 0
  nasti_r_addr_accum : m.nasti_r_addr_accum = 0

structure Inv (waiting : List (NastiReq I)) (s : System p I) : Prop where
  queued : Queued p.maxTransaction s.regs.ar_buf s.regs.xact_req_valid s.regs.xact_req s.accepted (s.done.map Prod.fst) waiting
  legal : ∀ req ∈ s.accepted, Legal p req ∧ lite_packet_size p req < 2 ^ (p.bufLenBits + 8)
  done : ∀ x ∈ s.done, BurstRight p x.1 x.2
  busy : s.regs.xact_req_valid = true → Asking p s.regs.xact_req s.regs s.current.ars ∧
    Collecting p s.regs.xact_req s.regs s.current.rs s.current.beats ∧ s.current.rs.length ≤ s.current.ars.length
  idle : s.regs.xact_req_valid = false → Quiet p s.regs ∧ s.current = ⟨[], [], []⟩

section
variable {p} {s : System p I} {e : Input p I} {waiting : List (NastiReq I)}

theorem Quiet.asking {m : Regs p I} (quiet : Quiet p m) (req : NastiReq I) : Asking p req m [] :=
  ⟨rfl, Nat.zero_le _, quiet.xact_ar_cnt, by simp [quiet.lite_ar_addr_accum]⟩

theorem Quiet.collecting {m : Regs p I} (quiet : Quiet p m) (req : NastiReq I) : Collecting p req m [] [] := by
  refine ⟨fun k x found => by simp at found, Nat.zero_le _, quiet.xact_r_cnt, quiet.nasti_r_cnt,
    by simp [quiet.nasti_r_addr_accum], by simp [quiet.xact_data_wp], by simp [quiet.xact_data_wp], ?_, ?_⟩
  · intro _ r _ y found
    simp at found
  · intro r _ y found
    simp at found

theorem Inv.reset (reset : AfterReset p s) : Inv p [] s := by
  obtain ⟨⟨rp, wp, valid, idle, ar_cnt, r_cnt, data_wp, accum, nasti_cnt, nasti_accum⟩, accepted, done, current⟩ := reset
  refine ⟨⟨by simp [accepted, done, idle], ?_⟩, by simp [accepted], by simp [done], ?_, ?_⟩
  · have empty := RequestBuffer.contains_nil p.maxTransaction p.positive s.regs.ar_buf.buf
    cases buffer : s.regs.ar_buf
    simp_all
  · intro busy
    rw [idle] at busy
    cases busy
  · intro _
    exact ⟨⟨ar_cnt, r_cnt, data_wp, accum, nasti_cnt, nasti_accum⟩, current⟩

theorem Inv.legal_next (inv : Inv p waiting s) (offers : Offers p s e) (served : Served p s e) :
    ∀ req ∈ (cycle p s e).accepted, Legal p req ∧ lite_packet_size p req < 2 ^ (p.bufLenBits + 8) := by
  intro req member
  rw [show (cycle p s e).accepted = s.accepted ++ (arTaken p s.regs e).toList from rfl, List.mem_append] at member
  rcases member with old | new
  · exact inv.legal req old
  · rw [Option.mem_toList, arTaken, Option.filter_eq_some_iff] at new
    exact ⟨offers.ar req new.1, served.ar req new.1⟩

theorem Inv.take (inv : Inv p waiting s) (offers : Offers p s e) (served : Served p s e)
    (takes : (xact_finish p s.regs e || !s.regs.xact_req_valid) = true) (quiet : Quiet p (next p s.regs e))
    (current : (cycle p s e).current = ⟨[], [], []⟩) (done : ∀ x ∈ (cycle p s e).done, BurstRight p x.1 x.2)
    (closed : (cycle p s e).done.map Prod.fst ++ waiting = s.accepted) :
    Inv p (waiting.tail ++ (arTaken p s.regs e).toList) (cycle p s e) := by
  have room : (arTaken p s.regs e).isSome → waiting.length < p.maxTransaction := inv.queued.room p.positive e.ar
  have queued := inv.queued.take room closed
  refine ⟨?_, inv.legal_next offers served, done, fun _ => ?_, fun _ => ⟨quiet, current⟩⟩
  · simpa only [cycle, next, takes, if_true, Bool.true_and] using queued
  · rw [current]
    exact ⟨quiet.asking _, quiet.collecting _, Nat.le_refl _⟩

theorem Inv.cycle_idle (inv : Inv p waiting s) (offers : Offers p s e) (served : Served p s e)
    (idle : s.regs.xact_req_valid = false) : Inv p (waiting.tail ++ (arTaken p s.regs e).toList) (cycle p s e) := by
  obtain ⟨quiet, current⟩ := inv.idle idle
  have noAr : liteArTaken p s.regs e = none := by simp [liteArTaken, liteAr, idle]
  have noR : liteRTaken p s.regs e = none := by
    cases given : e.r <;> simp [liteRTaken, lite_r_ready, idle, given, Option.filter_some]
  have noN : nastiRTaken p s.regs e = none := by simp [nastiRTaken, nastiR, idle]
  have open' : xact_finish p s.regs e = false := by simp [xact_finish, noN]
  have same : (cycle p s e).done = s.done := by simp [cycle, open']
  refine inv.take offers served (by simp [idle]) ?_ ?_ (by rw [same]; exact inv.done) ?_
  · obtain ⟨ar_cnt, r_cnt, wp, accum, cnt, accum'⟩ := quiet
    constructor <;> simp [next, *]
  · simp [cycle, open', record, noAr, noR, noN, current]
  · rw [same, inv.queued.accepted, idle]
    simp

theorem Inv.cycle_finish (inv : Inv p waiting s) (offers : Offers p s e) (served : Served p s e)
    (busy : s.regs.xact_req_valid = true) (finish : xact_finish p s.regs e = true) :
    Inv p (waiting.tail ++ (arTaken p s.regs e).toList) (cycle p s e) := by
  obtain ⟨asking, collecting, behind⟩ := inv.busy busy
  have member : s.regs.xact_req ∈ s.accepted := by rw [inv.queued.accepted, busy]; simp
  obtain ⟨legal, small⟩ := inv.legal _ member
  rw [xact_finish, Bool.and_eq_true, Option.isSome_iff_exists, beq_iff_eq] at finish
  obtain ⟨⟨x, took⟩, last⟩ := finish
  have finish : xact_finish p s.regs e = true := by simp [xact_finish, took, last]
  obtain ⟨full, beatEq⟩ := nastiRTaken_some took
  have count := collecting.nasti_r_cnt
  have place := collecting.place
  have bound := asking.bound
  -- the last beat needs all lite words, so both sides are through
  have all : s.current.rs.length = lite_packet_size p s.regs.xact_req := by
    rw [place, full, ← count, last, lite_packet_size, Nat.mul_comm (lite_packet_ratio p _), Nat.add_mul, Nat.one_mul]
  have issued : s.current.ars.length = lite_packet_size p s.regs.xact_req := by omega
  have noAr : liteArTaken p s.regs e = none := by
    cases sent : liteArTaken p s.regs e with
    | none => rfl
    | some y =>
      have less := (liteArTaken_some sent).1
      rw [asking.xact_ar_cnt] at less
      omega
  have noR : liteRTaken p s.regs e = none := by
    cases came : liteRTaken p s.regs e with
    | none => rfl
    | some z =>
      have room := (liteRTaken_some came).2.2
      omega
  have ledger : record p s e = ⟨s.current.ars, s.current.rs, s.current.beats ++ [x]⟩ := by
    simp [record, noAr, noR, took]
  have right : BurstRight p s.regs.xact_req (record p s e) := by
    rw [ledger]
    have beat := collecting.beat legal rfl full
    rw [← beatEq] at beat
    exact ⟨⟨asking.reads, asking.bound, fun k y => push_beat collecting.shown beat⟩, issued, all,
      by rw [List.length_append, List.length_singleton, ← count, last]⟩
  have done : (cycle p s e).done = s.done ++ [(s.regs.xact_req, record p s e)] := by simp [cycle, finish]
  refine inv.take offers served (by simp [finish]) ?_ (by simp [cycle, finish]) ?_ ?_
  · constructor <;> simp [next, noAr, noR, took, finish, last]
  · intro y among
    rw [done, List.mem_append, List.mem_singleton] at among
    rcases among with old | rfl
    · exact inv.done y old
    · exact right
  · rw [done, inv.queued.accepted, busy]
    simp

theorem Inv.cycle_busy (inv : Inv p waiting s) (offers : Offers p s e) (served : Served p s e)
    (busy : s.regs.xact_req_valid = true) (open' : xact_finish p s.regs e = false) :
    Inv p (waiting ++ (arTaken p s.regs e).toList) (cycle p s e) := by
  obtain ⟨asking, collecting, behind⟩ := inv.busy busy
  have member : s.regs.xact_req ∈ s.accepted := by rw [inv.queued.accepted, busy]; simp
  obtain ⟨legal, small⟩ := inv.legal _ member
  have valid : (cycle p s e).regs.xact_req_valid = true := by simp [cycle, next, open', busy]
  have request : (cycle p s e).regs.xact_req = s.regs.xact_req := by simp [cycle, next, open', busy]
  have done : (cycle p s e).done = s.done := by simp [cycle, open']
  have current : (cycle p s e).current = record p s e := by simp [cycle, open']
  refine ⟨?_, inv.legal_next offers served, by rw [done]; exact inv.done, fun _ => ?_, ?_⟩
  · have room : (arTaken p s.regs e).isSome → waiting.length < p.maxTransaction := inv.queued.room p.positive e.ar
    have queued := inv.queued.stay room
    rw [valid, request, done, ← busy]
    simpa only [cycle, next, open', busy, Bool.not_true, Bool.or_self] using queued
  · rw [request, current]
    refine ⟨asking.next rfl small open', ?_, ?_⟩
    · show Collecting p s.regs.xact_req (next p s.regs e) (s.current.rs ++ (liteRTaken p s.regs e).toList)
        (s.current.beats ++ (nastiRTaken p s.regs e).toList)
      -- a lite word comes in only while the beat has room, and leaves only when it is full
      cases came : liteRTaken p s.regs e with
      | some x =>
        have noN : nastiRTaken p s.regs e = none := by
          cases took : nastiRTaken p s.regs e with
          | none => rfl
          | some y =>
            have full := (nastiRTaken_some took).1
            have room := (liteRTaken_some came).2.2
            omega
        rw [noN]
        simpa using collecting.collect legal small rfl came (served.r x (liteRTaken_some came).1)
      | none =>
        cases took : nastiRTaken p s.regs e with
        | some x => simpa using collecting.deliver legal rfl took open'
        | none => simpa using collecting.stay came took
    -- a response answers a request that is out
    · have answered := offers.r
      show (s.current.rs ++ (liteRTaken p s.regs e).toList).length ≤ (s.current.ars ++ (liteArTaken p s.regs e).toList).length
      rw [List.length_append, List.length_append]
      cases came : liteRTaken p s.regs e with
      | none =>
        rw [Option.toList_none, List.length_nil]
        omega
      | some x =>
        have less := answered (by rw [(liteRTaken_some came).1]; rfl)
        rw [Option.toList_some, List.length_singleton]
        omega
  · intro idle
    rw [valid] at idle
    cases idle

theorem Inv.cycle (inv : Inv p waiting s) (offers : Offers p s e) (served : Served p s e) :
    ∃ waiting', Inv p waiting' (cycle p s e) := by
  cases busy : s.regs.xact_req_valid
  · exact ⟨_, inv.cycle_idle offers served busy⟩
  · cases open' : xact_finish p s.regs e
    · exact ⟨_, inv.cycle_busy offers served busy open'⟩
    · exact ⟨_, inv.cycle_finish offers served busy open'⟩

end

section
variable {p} {s : System p I} {e : Input p I} {waiting : List (NastiReq I)}

/-- In each cooperative cycle of a burst something passes. -/
theorem Inv.passes (inv : Inv p waiting s) (cooperative : Cooperative p s e) (busy : s.regs.xact_req_valid = true) :
    (liteArTaken p s.regs e).isSome ∨ (liteRTaken p s.regs e).isSome ∨ (nastiRTaken p s.regs e).isSome := by
  obtain ⟨asking, collecting, behind⟩ := inv.busy busy
  have place := collecting.place
  have bound := collecting.bound
  rcases Nat.lt_or_eq_of_le bound with room | full
  · have more : s.current.rs.length < lite_packet_size p s.regs.xact_req := by
      have beats := Nat.mul_le_mul_right (lite_packet_ratio p s.regs.xact_req) collecting.open'
      rw [lite_packet_size, Nat.mul_comm, Nat.add_mul]
      omega
    by_cases asked : s.current.rs.length < s.current.ars.length
    · obtain ⟨x, given⟩ := Option.isSome_iff_exists.mp (cooperative.r asked)
      right
      left
      simp [liteRTaken, lite_r_ready, given, busy, collecting.xact_r_cnt, more, room, Option.filter_some]
    · have less : s.regs.xact_ar_cnt < lite_packet_size p s.regs.xact_req := by
        rw [asking.xact_ar_cnt]
        omega
      left
      simp [liteArTaken, liteAr, busy, less, cooperative.ready.2, Option.filter_some]
  · right
    right
    simp [nastiRTaken, nastiR, busy, full, cooperative.ready.1, Option.filter_some]

theorem Inv.progress (inv : Inv p waiting s) (cooperative : Cooperative p s e) :
    s.accepted = s.done.map Prod.fst ∨ rank p (NastiLiteReader.cycle p s e) < rank p s := by
  have noReq : arTaken p s.regs e = none := by simp [arTaken, cooperative.ar]
  have accepted : (NastiLiteReader.cycle p s e).accepted = s.accepted := by simp [NastiLiteReader.cycle, noReq]
  have pending := inv.queued.pending
  rw [List.length_map] at pending
  cases busy : s.regs.xact_req_valid with
  | false =>
    obtain ⟨quiet, current⟩ := inv.idle busy
    rw [busy] at pending
    cases waiting with
    | nil =>
      left
      rw [inv.queued.accepted, busy]
      simp
    | cons a rest =>
      right
      -- the next request leaves the buffer
      have nonempty : s.regs.ar_buf.valid = true := inv.queued.buffer.valid
      have open' : xact_finish p s.regs e = false := by simp [xact_finish, nastiRTaken, nastiR, busy]
      have valid : (NastiLiteReader.cycle p s e).regs.xact_req_valid = true := by
        simp [NastiLiteReader.cycle, next, busy, nonempty]
      have done : (NastiLiteReader.cycle p s e).done = s.done := by simp [NastiLiteReader.cycle, open']
      rw [rank, rank, accepted, done, valid, busy, current]
      simp only [if_true, Bool.false_eq_true, if_false, List.length_nil]
      omega
  | true =>
    right
    obtain ⟨asking, collecting, behind⟩ := inv.busy busy
    have bound := asking.bound
    have beats := collecting.open'
    rw [busy, if_pos rfl] at pending
    have before : rank p s = work p s.regs.xact_req + (waiting.map (work p)).sum -
        (s.current.ars.length + s.current.rs.length + s.current.beats.length) := by
      rw [rank, pending, busy]
      simp
    cases open' : xact_finish p s.regs e with
    | false =>
      have done : (NastiLiteReader.cycle p s e).done = s.done := by simp [NastiLiteReader.cycle, open']
      have valid : (NastiLiteReader.cycle p s e).regs.xact_req_valid = true := by
        simp [NastiLiteReader.cycle, next, open', busy]
      have current : (NastiLiteReader.cycle p s e).current = record p s e := by simp [NastiLiteReader.cycle, open']
      have after : rank p (NastiLiteReader.cycle p s e) = work p s.regs.xact_req + (waiting.map (work p)).sum -
          (s.current.ars.length + (liteArTaken p s.regs e).toList.length +
            (s.current.rs.length + (liteRTaken p s.regs e).toList.length) +
            (s.current.beats.length + (nastiRTaken p s.regs e).toList.length)) := by
        rw [rank, accepted, done, pending, valid, current]
        simp [record]
      -- something passes, and counts against the work of the burst
      have passes := inv.passes cooperative busy
      simp only [Option.isSome_iff_exists] at passes
      rw [before, after, work]
      rcases passes with ⟨x, some'⟩ | ⟨x, some'⟩ | ⟨x, some'⟩ <;>
        rw [some', Option.toList_some, List.length_singleton] <;> omega
    | true =>
      have done : (NastiLiteReader.cycle p s e).done.length = s.done.length + 1 := by simp [NastiLiteReader.cycle, open']
      have rest : s.accepted.drop (s.done.length + 1) = waiting := by
        have next := congrArg (List.drop 1) pending
        rwa [List.drop_drop] at next
      have after : rank p (NastiLiteReader.cycle p s e) ≤ (waiting.map (work p)).sum + 1 := by
        rw [rank, accepted, done, rest]
        refine Nat.le_trans (Nat.sub_le _ _) (Nat.add_le_add_left ?_ _)
        split <;> omega
      rw [work] at before
      omega

theorem Inv.intact (inv : Inv p waiting s) : Intact p s := by
  refine ⟨⟨waiting, inv.queued.accepted⟩, inv.done, ?_, fun e cooperative => inv.progress cooperative⟩
  cases busy : s.regs.xact_req_valid
  · exact (inv.idle busy).2
  · obtain ⟨asking, collecting, behind⟩ := inv.busy busy
    exact ⟨asking.reads, asking.bound, collecting.shown⟩

end

/-- As long as the counters can hold the bursts and failures reach the last read of their beat, no
request is lost and every burst is right. -/
theorem served_runs_intact {s t : System p I} (reset : AfterReset p s)
    (run : Steps (clock p) (fun s e => Offers p s e ∧ Served p s e) s t) : Intact p t := by
  have inv : ∃ waiting, Inv p waiting t := by
    refine run.invariant (I := fun t => ∃ waiting, Inv p waiting t) ⟨[], .reset reset⟩ ?_
    rintro t u e ⟨waiting, inv⟩ ⟨offers, served⟩ fired
    cases Option.some.inj fired
    exact inv.cycle offers served
  obtain ⟨waiting, inv⟩ := inv
  exact inv.intact

section
variable {p}

instance (s : System p I) (e : Input p I) : Decidable (Offers p s e) :=
  decidable_of_iff ((∀ req ∈ e.ar, Legal p req) ∧ (e.r.isSome → s.current.rs.length < s.current.ars.length))
    ⟨fun both => ⟨both.1, both.2⟩, fun offers => ⟨offers.ar, offers.r⟩⟩

instance (s : System p I) (e : Input p I) : Decidable (Served p s e) :=
  decidable_of_iff ((∀ req ∈ e.ar, lite_packet_size p req < 2 ^ (p.bufLenBits + 8)) ∧
      ∀ x ∈ e.r, (s.current.rs.length + 1) % lite_packet_ratio p s.regs.xact_req = 0 →
        (∃ y ∈ s.current.rs.drop (s.current.rs.length + 1 - lite_packet_ratio p s.regs.xact_req), isError y.resp = true) →
        isError x.resp = true)
    ⟨fun both => ⟨both.1, both.2⟩, fun served => ⟨served.ar, served.r⟩⟩

end

/-- 64 to 32 bits. -/
def doubleToWord : NastiLiteParams := ⟨1, 3, 2, 8, Nat.one_pos, word_in_double, double_in_block⟩

def started : System doubleToWord Unit :=
  ⟨⟨⟨fun _ => ⟨(), 0, 0, 0⟩, 0, 0, false⟩, ⟨(), 0, 0, 0⟩, false, 0, 0, 0, 0, 0, 0, 0, 0⟩, [], [], ⟨[], [], []⟩⟩

def readsDouble (first second : BitVec 2) : List (Input doubleToWord Unit) :=
  [⟨some ⟨(), 8, 0, 3⟩, false, false, none⟩, ⟨none, false, false, none⟩, ⟨none, false, true, none⟩,
    ⟨none, false, true, some ⟨0x11, first⟩⟩, ⟨none, false, false, some ⟨0x22, second⟩⟩, ⟨none, true, false, none⟩]

def afterDouble (first second : BitVec 2) : System doubleToWord Unit :=
  (readsDouble first second).foldl (cycle doubleToWord) started

theorem afterReset_started : AfterReset doubleToWord started := ⟨by decide, rfl, rfl, rfl⟩

/-- Both words fail. -/
theorem served_runs_intact_of_double : (afterDouble 2 2).done.length = 1 ∧ Intact doubleToWord (afterDouble 2 2) := by
  refine ⟨by decide, served_runs_intact doubleToWord afterReset_started ?_⟩
  have ran : execGuarded (clock doubleToWord) (fun s e => decide (Offers doubleToWord s e ∧ Served doubleToWord s e)) started
      (readsDouble 2 2) = some (afterDouble 2 2) := rfl
  exact (steps_of_execGuarded ran).mono fun s e => of_decide_eq_true

/-- Only the first word fails, and the beat does not show it. -/
theorem not_intact_first_fails : AfterReset doubleToWord started ∧
    Steps (clock doubleToWord) (Offers doubleToWord) started (afterDouble 2 0) ∧ ¬ Intact doubleToWord (afterDouble 2 0) := by
  have ran : execGuarded (clock doubleToWord) (fun s e => decide (Offers doubleToWord s e)) started (readsDouble 2 0) =
      some (afterDouble 2 0) := rfl
  refine ⟨afterReset_started, (steps_of_execGuarded ran).mono fun s e => of_decide_eq_true, fun intact => ?_⟩
  have burst := intact.done _ (List.mem_of_getElem? (i := 0) rfl)
  have error := (burst.beats 0 _ rfl).error 0 (by decide) _ rfl (by decide)
  revert error
  decide

end NastiLiteReader

end LowRisc.Socip
