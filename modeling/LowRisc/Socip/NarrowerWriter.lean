import LowRisc.Socip.ByteLanes
import LowRisc.Socip.Narrower

/-! The write half of the NASTI width narrower. -/

set_option autoImplicit false

namespace LowRisc.Socip

open LowRisc.Lib NastiReq

namespace NarrowerWriter

variable {I R : Type}

structure WBeat (b : Nat) where
  data : Bus b
  strb : BitVec (2 ^ b)

structure SlaveW (b : Nat) where
  data : Bus b
  strb : BitVec (2 ^ b)
  last : Bool

structure SlaveAw (I : Type) where
  id : I
  addr : Nat
  len : Nat
  size : Nat

inductive Phase where
  | idle
  | aw
  | w
  | b
  deriving DecidableEq, Repr

structure Regs (I : Type) where
  state : Phase
  request : NastiReq I
  w_cnt : Nat
  w_addr : Nat

/-- One cycle; `b` is the response of the slave. -/
structure Input (p : NarrowParams) (I R : Type) where
  aw : Option (NastiReq I)
  w : Option (WBeat p.master)
  b_ready : Bool
  aw_ready : Bool
  w_ready : Bool
  b : Option R

variable (p : NarrowParams)

def cut (x : WBeat p.master) (addr : Nat) (last : Bool) : SlaveW p.slave where
  data := (x.data >>> (8 * 2 ^ p.slave * laneOf p addr)).setWidth _
  strb := (x.strb >>> (2 ^ p.slave * laneOf p addr)).setWidth _
  last := last

variable (m : Regs I) (e : Input p I R)

def awTaken : Option (NastiReq I) := e.aw.filter fun _ => m.state == .idle

def slaveAw : Option (SlaveAw I) :=
  if m.state = .aw then
    some ⟨m.request.id, m.request.addr, slave_len p m.request % 256, slave_size p m.request⟩
  else none

def slaveW : Option (SlaveW p.slave) :=
  if m.state = .w then e.w.map fun x => cut p x m.w_addr (m.w_cnt == slave_len p m.request) else none

def slaveWTaken : Option (SlaveW p.slave) := (slaveW p m e).filter fun _ => e.w_ready

def masterWTaken : Option (WBeat p.master) :=
  e.w.filter fun _ => fillsBeat p m.request m.w_addr && e.w_ready && m.state == .w

def masterBTaken : Option R := e.b.filter fun _ => m.state == .b && e.b_ready

def next : Regs I where
  state :=
    match m.state with
    | .idle => if (awTaken p m e).isSome then .aw else .idle
    | .aw => if e.aw_ready then .w else .aw
    | .w => if (slaveWTaken p m e).any SlaveW.last then .b else .w
    | .b => if (masterBTaken p m e).isSome then .idle else .b
  request := (awTaken p m e).getD m.request
  w_cnt :=
    if (slaveWTaken p m e).isSome then (m.w_cnt + 1) % 256
    else if (awTaken p m e).isSome then 0 else m.w_cnt
  w_addr :=
    if (slaveWTaken p m e).isSome then stepAddr p m.request m.w_addr
    else ((awTaken p m e).map NastiReq.addr).getD m.w_addr

/-! The bridge with what passed on its ports since the request was taken. -/

structure System (p : NarrowParams) (I R : Type) where
  regs : Regs I
  slaveAw : List (SlaveAw I)
  slaveW : List (SlaveW p.slave)
  masterW : List (WBeat p.master)
  masterB : List R

def cycle (s : System p I R) (e : Input p I R) : System p I R where
  regs := next p s.regs e
  slaveAw := s.slaveAw ++ ((slaveAw p s.regs).filter fun _ => e.aw_ready).toList
  slaveW := s.slaveW ++ (slaveWTaken p s.regs e).toList
  masterW := s.masterW ++ (masterWTaken p s.regs e).toList
  masterB := s.masterB ++ (masterBTaken p s.regs e).toList

def clock (s : System p I R) (e : Input p I R) : Option (System p I R) := some (cycle p s e)

def accepted (m : Regs I) (e : Input p I R) : System p I R where
  regs := next p m e
  slaveAw := []
  slaveW := []
  masterW := []
  masterB := []

/-- The strobes that the protocol allows in beat `k`: bytes from its address to the end of its
aligned size. -/
def InBeat (req : NastiReq I) (stream : Nat → WBeat p.master) : Prop :=
  ∀ k ≤ req.len, ∀ j < 2 ^ p.master, (stream k).strb.getLsbD j = true →
    beatAddr req.size req.addr k ≤ beatAddr req.size req.addr k / 2 ^ p.master * 2 ^ p.master + j ∧
    beatAddr req.size req.addr k / 2 ^ p.master * 2 ^ p.master + j < (req.addr / 2 ^ req.size + k + 1) * 2 ^ req.size

/-- The master offers the beats of its burst in order and no more of them, and the next request is
not taken yet. -/
def Offers (req : NastiReq I) (stream : Nat → WBeat p.master) (s : System p I R) (e : Input p I R) : Prop :=
  awTaken p s.regs e = none ∧
    ∀ x, e.w = some x → s.masterW.length ≤ req.len ∧ x = stream s.masterW.length

def Cooperative (e : Input p I R) : Prop :=
  e.aw_ready = true ∧ e.w_ready = true ∧ e.w.isSome ∧ e.b_ready = true ∧ e.b.isSome

def rank (req : NastiReq I) (s : System p I R) : Nat :=
  match s.regs.state with
  | .idle => 0
  | .b => 1
  | .w => 1 + (slaveWords p req - s.slaveW.length)
  | .aw => 2 + slaveWords p req

structure BurstRight (req : NastiReq I) (stream : Nat → WBeat p.master) (s : System p I R) : Prop where
  address : s.slaveAw =
    if s.regs.state = .aw then [] else [⟨req.id, req.addr, slaveWords p req - 1, slave_size p req⟩]
  consumed : s.masterW = (List.range s.masterW.length).map stream
  running : s.regs.state = .w → s.masterW.length ≤ req.len ∧ s.slaveW.length < slaveWords p req
  finished : s.regs.state = .b ∨ s.regs.state = .idle →
    s.masterW.length = req.len + 1 ∧
    s.slaveW.map SlaveW.last = (List.range (slaveWords p req)).map (· == slaveWords p req - 1) ∧
    burstBytes (slave_size p req) req.addr (s.slaveW.map fun x => (x.data, x.strb)) =
      burstBytes req.size req.addr (s.masterW.map fun x => (x.data, x.strb))
  response : s.masterB.length = if s.regs.state = .idle then 1 else 0
  progress : ∀ e, Offers p req stream s e → Cooperative p e →
    s.regs.state = .idle ∨ rank p req (cycle p s e) < rank p req s

/-- Whatever the idle bridge did before, and whatever the data and the stalls, it does the burst
right. -/
def Transparent (R : Type) (req : NastiReq I) : Prop :=
  ∀ (m : Regs I) (e : Input p I R) (stream : Nat → WBeat p.master), m.state = .idle → e.aw = some req →
    InBeat p req stream → ∀ t, Steps (clock p) (Offers p req stream) (accepted p m e) t → BurstRight p req stream t

/-! Where a run of one burst can be. -/

/-- The slave word that goes out as beat `i`. -/
def sent (req : NastiReq I) (stream : Nat → WBeat p.master) (i : Nat) : SlaveW p.slave :=
  cut p (stream (NastiReq.finished p req i)) (walk p req i) (i == slave_len p req)

def issued (req : NastiReq I) : SlaveAw I := ⟨req.id, req.addr, slave_len p req % 256, slave_size p req⟩

inductive Along (req : NastiReq I) (stream : Nat → WBeat p.master) (s : System p I R) : Prop where
  | aw (regs : s.regs = ⟨.aw, req, 0, req.addr⟩) (slaveAw : s.slaveAw = []) (slaveW : s.slaveW = [])
      (masterW : s.masterW = []) (masterB : s.masterB = [])
  | w (i : Nat) (more : i < beats p req) (regs : s.regs = ⟨.w, req, i, walk p req i⟩)
      (slaveAw : s.slaveAw = [issued p req]) (slaveW : s.slaveW = (List.range i).map (sent p req stream))
      (masterW : s.masterW = (List.range (NastiReq.finished p req i)).map stream) (masterB : s.masterB = [])
  | ended (state : s.regs.state = .b ∨ s.regs.state = .idle) (slaveAw : s.slaveAw = [issued p req])
      (slaveW : s.slaveW = (List.range (beats p req)).map (sent p req stream))
      (masterW : s.masterW = (List.range (NastiReq.finished p req (beats p req))).map stream)
      (masterB : s.masterB.length = if s.regs.state = .idle then 1 else 0)

section
variable {p} {req : NastiReq I} {stream : Nat → WBeat p.master} {s : System p I R} {e : Input p I R}

theorem along_accepted {m : Regs I} (idle : m.state = .idle) (asked : e.aw = some req) :
    Along p req stream (accepted p m e) := by
  have taken : awTaken p m e = some req := by simp [awTaken, asked, idle, Option.filter_some]
  have none' : slaveWTaken p m e = none := by simp [slaveWTaken, slaveW, idle]
  exact .aw (by simp [accepted, next, idle, taken, none']) rfl rfl rfl rfl

theorem masterWTaken_of_state (other : s.regs.state ≠ .w) : masterWTaken p s.regs e = none := by
  cases offered : e.w <;> simp [masterWTaken, offered, other, Option.filter_some]

theorem slaveWTaken_of_state (other : s.regs.state ≠ .w) : slaveWTaken p s.regs e = none := by
  simp [slaveWTaken, slaveW, other]

theorem masterBTaken_of_state (other : s.regs.state ≠ .b) : masterBTaken p s.regs e = none := by
  cases offered : e.b <;> simp [masterBTaken, offered, other, Option.filter_some]

theorem slaveAw_of_state (other : s.regs.state ≠ .aw) : slaveAw p s.regs = none := by
  simp [slaveAw, other]

theorem cycle_beat {i : Nat} (short : slave_len p req < 256) (more : i < beats p req)
    (regs : s.regs = ⟨.w, req, i, walk p req i⟩) (offered : e.w = some (stream (NastiReq.finished p req i)))
    (ready : e.w_ready = true) (quiet : awTaken p s.regs e = none) (slaveAw : s.slaveAw = [issued p req])
    (slaveW : s.slaveW = (List.range i).map (sent p req stream))
    (masterW : s.masterW = (List.range (NastiReq.finished p req i)).map stream) (masterB : s.masterB = []) :
    Along p req stream (cycle p s e) ∧
      (cycle p s e).regs.state = (if i + 1 < beats p req then .w else .b) ∧
      (cycle p s e).slaveW.length = i + 1 := by
  have state : s.regs.state = .w := by rw [regs]
  have request : s.regs.request = req := by rw [regs]
  have w_cnt : s.regs.w_cnt = i := by rw [regs]
  have w_addr : s.regs.w_addr = walk p req i := by rw [regs]
  have beat : slaveWTaken p s.regs e = some (sent p req stream i) := by
    simp [slaveWTaken, NarrowerWriter.slaveW, regs, offered, ready, sent]
  have noAw : NarrowerWriter.slaveAw p s.regs = none := slaveAw_of_state (by rw [state]; decide)
  have noB : masterBTaken p s.regs e = none := masterBTaken_of_state (by rw [state]; decide)
  have words : s.slaveW ++ [sent p req stream i] = (List.range (i + 1)).map (sent p req stream) := by
    rw [slaveW, List.range_succ, List.map_append]
    rfl
  have taken : s.masterW ++ (masterWTaken p s.regs e).toList =
      (List.range (NastiReq.finished p req (i + 1))).map stream := by
    -- the master's beat is taken with the last of its words
    rw [masterW, NastiReq.finished]
    cases fills : fillsBeat p req (walk p req i)
    · simp [masterWTaken, offered, regs, fills, Option.filter_some]
    · simp [masterWTaken, offered, regs, fills, ready, List.range_succ, Option.filter_some]
  have length : (s.slaveW ++ [sent p req stream i]).length = i + 1 := by rw [words]; simp
  have last : beats p req = slave_len p req + 1 := rfl
  -- the last word ends the burst, any other one leads to the next
  by_cases final : i = slave_len p req
  · have nextState : (next p s.regs e).state = .b := by simp [next, state, beat, sent, cut, final]
    refine ⟨.ended (.inl nextState) ?_ ?_ ?_ ?_, ?_, ?_⟩
    · simp [cycle, slaveAw, noAw]
    · rw [last, ← final, ← words]
      simp [cycle, beat]
    · rw [last, ← final, ← taken]
      rfl
    · simp [cycle, masterB, noB, nextState]
    · rw [if_neg (by omega)]
      exact nextState
    · simpa [cycle, beat] using length
  · have nextRegs : next p s.regs e = ⟨.w, req, i + 1, walk p req (i + 1)⟩ := by
      have small : (i + 1) % 256 = i + 1 := Nat.mod_eq_of_lt (by omega)
      simp [next, state, request, w_cnt, w_addr, beat, sent, cut, final, quiet, small, walk]
    refine ⟨.w (i + 1) (by omega) nextRegs ?_ ?_ taken ?_, ?_, ?_⟩
    · simp [cycle, slaveAw, noAw]
    · rw [← words]
      simp [cycle, beat]
    · simp [cycle, masterB, noB]
    · rw [if_pos (by omega)]
      show (next p s.regs e).state = .w
      rw [nextRegs]
    · simpa [cycle, beat] using length

theorem Along.cycle (short : slave_len p req < 256) (inv : Along p req stream s) (offers : Offers p req stream s e) :
    Along p req stream (NarrowerWriter.cycle p s e) := by
  obtain ⟨quiet, order⟩ := offers
  cases inv with
  | aw regs slaveAw slaveW masterW masterB =>
    have state : s.regs.state = .aw := by rw [regs]
    have request : s.regs.request = req := by rw [regs]
    have w_cnt : s.regs.w_cnt = 0 := by rw [regs]
    have w_addr : s.regs.w_addr = req.addr := by rw [regs]
    have noW := slaveWTaken_of_state (s := s) (e := e) (by rw [state]; decide)
    have noM := masterWTaken_of_state (s := s) (e := e) (by rw [state]; decide)
    have noB := masterBTaken_of_state (s := s) (e := e) (by rw [state]; decide)
    cases ready : e.aw_ready
    · have same : next p s.regs e = ⟨.aw, req, 0, req.addr⟩ := by
        simp [next, state, request, w_cnt, w_addr, ready, quiet, noW]
      refine .aw same ?_ ?_ ?_ ?_
      · simp [NarrowerWriter.cycle, slaveAw, ready]
      all_goals simp [NarrowerWriter.cycle, slaveW, masterW, masterB, noW, noM, noB]
    · have moved : next p s.regs e = ⟨.w, req, 0, req.addr⟩ := by
        simp [next, state, request, w_cnt, w_addr, ready, quiet, noW]
      refine .w 0 (Nat.succ_pos _) moved ?_ ?_ ?_ ?_
      · simp [NarrowerWriter.cycle, slaveAw, ready, NarrowerWriter.slaveAw, regs, issued]
      all_goals simp [NarrowerWriter.cycle, slaveW, masterW, masterB, noW, noM, noB, NastiReq.finished]
  | w i more regs slaveAw slaveW masterW masterB =>
    have state : s.regs.state = .w := by rw [regs]
    have noAw : NarrowerWriter.slaveAw p s.regs = none := slaveAw_of_state (by rw [state]; decide)
    have noB := masterBTaken_of_state (s := s) (e := e) (by rw [state]; decide)
    -- without both sides ready nothing passes
    cases passes : e.w_ready && e.w.isSome
    · have stalled : slaveWTaken p s.regs e = none ∧ masterWTaken p s.regs e = none := by
        cases ready : e.w_ready <;> cases offered : e.w <;>
          simp_all [slaveWTaken, NarrowerWriter.slaveW, masterWTaken]
      have same : next p s.regs e = ⟨.w, req, i, walk p req i⟩ := by
        rw [← regs]
        simp [next, quiet, stalled.1, state]
        rw [regs]
      refine .w i more same ?_ ?_ ?_ ?_
      all_goals simp [NarrowerWriter.cycle, slaveAw, slaveW, masterW, masterB, noAw, noB, stalled]
    · simp only [Bool.and_eq_true, Option.isSome_iff_exists] at passes
      obtain ⟨ready, x, offered⟩ := passes
      have here := (order x offered).2
      rw [masterW, List.length_map, List.length_range] at here
      exact (cycle_beat short more regs (here ▸ offered) ready quiet slaveAw slaveW masterW masterB).1
  | ended state slaveAw slaveW masterW masterB =>
    have notW : s.regs.state ≠ .w := by rcases state with h | h <;> rw [h] <;> decide
    have notAw : s.regs.state ≠ .aw := by rcases state with h | h <;> rw [h] <;> decide
    have noAw : NarrowerWriter.slaveAw p s.regs = none := slaveAw_of_state notAw
    have noW := slaveWTaken_of_state (e := e) notW
    have noM := masterWTaken_of_state (e := e) notW
    refine .ended ?_ (by simp [NarrowerWriter.cycle, slaveAw, noAw]) (by simp [NarrowerWriter.cycle, slaveW, noW])
      (by simp [NarrowerWriter.cycle, masterW, noM]) ?_
    · show (next p s.regs e).state = .b ∨ (next p s.regs e).state = .idle
      rcases state with h | h
      · cases done : (masterBTaken p s.regs e).isSome <;> simp [next, h, done]
      · exact .inr (by simp [next, h, quiet])
    · show (s.masterB ++ (masterBTaken p s.regs e).toList).length = if (next p s.regs e).state = .idle then 1 else 0
      rcases state with h | h
      · cases done : masterBTaken p s.regs e <;> simp [next, h, done, masterB]
      · have noB := masterBTaken_of_state (s := s) (e := e) (by rw [h]; decide)
        simp [next, h, quiet, noB, masterB]

theorem along_of_run {m : Regs I} {e : Input p I R} {t : System p I R} (fits : Accepted p req) (idle : m.state = .idle)
    (asked : e.aw = some req) (run : Steps (clock p) (Offers p req stream) (accepted p m e) t) : Along p req stream t :=
  run.invariant (along_accepted idle asked) fun inv offers fired => by
    cases Option.some.inj fired
    exact inv.cycle (slave_len_lt fits) offers

end

/-! The bytes. -/

/-- What the slave stores for the word at place `n` behind the start of the first master beat. -/
def stored (p : NarrowParams) (req : NastiReq I) (stream : Nat → WBeat p.master) (n : Nat) : List (Nat × BitVec 8) :=
  let addr := (req.addr / 2 ^ req.size * ratio p req + n) * slave_step p req
  let x := cut p (stream (n / ratio p req)) addr false
  strobed (addr / 2 ^ p.slave * 2 ^ p.slave) x.data x.strb

section
variable {p} {req : NastiReq I} {stream : Nat → WBeat p.master}

theorem strobed_master (fits : Accepted p req) (inBeat : InBeat p req stream) {k : Nat} (below : k ≤ req.len) :
    strobed (beatAddr req.size req.addr k / 2 ^ p.master * 2 ^ p.master) (stream k).data (stream k).strb =
      (List.range (ratio p req)).flatMap fun r => stored p req stream (k * ratio p req + r) := by
  have narrower := p.narrower
  have positive := ratio_pos p req
  have word := beatAddr_div req.size req.addr k fits.size
  have lanes := lanes_fit fits (req.addr / 2 ^ req.size + k)
  have laneOfPlace := fun r (place : r < ratio p req) => lane_of_place (req.addr / 2 ^ req.size + k) place
  have beatInLanes := fun a => beat_confined p req (req.addr / 2 ^ req.size + k) a
  rw [← master_of_lane p ((req.addr / 2 ^ req.size + k) * 2 ^ req.size)] at word
  generalize (req.addr / 2 ^ req.size + k) * 2 ^ req.size / 2 ^ p.slave = lane at lanes laneOfPlace beatInLanes word
  have base := word_base p lane
  rw [← word] at base
  -- the strobes of a beat stay within its own lanes
  have confined : ∀ j < 2 ^ p.master, (stream k).strb.getLsbD j = true →
      lane % 2 ^ (p.master - p.slave) * 2 ^ p.slave ≤ j ∧
        j < (lane % 2 ^ (p.master - p.slave) + ratio p req) * 2 ^ p.slave := by
    intro j inWord on
    obtain ⟨low, high⟩ := inBeat k below j inWord on
    have start := le_beatAddr req.size req.addr k
    obtain ⟨first, last⟩ := beatInLanes _ (Nat.le_trans start low) high
    rw [Nat.add_mul] at last ⊢
    omega
  rw [strobed_lanes (Nat.le_of_lt narrower) lanes confined]
  apply List.flatMap_congr
  intro r member
  have place := List.mem_range.mp member
  -- the slave's word is the lane of the master's beat with the same address
  have here : (req.addr / 2 ^ req.size * ratio p req + (k * ratio p req + r)) * slave_step p req / 2 ^ p.slave = lane + r := by
    rw [← Nat.add_assoc, ← Nat.add_mul]
    exact laneOfPlace r place
  have beat : (k * ratio p req + r) / ratio p req = k := by
    rw [Nat.mul_comm, Nat.mul_add_div positive, Nat.div_eq_of_lt place, Nat.add_zero]
  have inLanes : (lane + r) % 2 ^ (p.master - p.slave) = lane % 2 ^ (p.master - p.slave) + r := by
    rw [Nat.add_mod, Nat.mod_eq_of_lt (show r < 2 ^ (p.master - p.slave) by omega), Nat.mod_eq_of_lt (by omega)]
  have address : beatAddr req.size req.addr k / 2 ^ p.master * 2 ^ p.master +
      (lane % 2 ^ (p.master - p.slave) + r) * 2 ^ p.slave = (lane + r) * 2 ^ p.slave := by
    rw [Nat.add_mul, Nat.add_mul, ← Nat.add_assoc, base]
  simp only [stored, cut, laneOf, here, beat, inLanes]
  rw [address]

theorem stored_before (fits : Accepted p req) (inBeat : InBeat p req stream) {n : Nat} (before : n < offset p req) :
    stored p req stream n = [] := by
  have narrower := p.narrower
  have wide : p.slave < req.size := by
    by_contra narrow
    have below := offset_lt p req
    rw [show ratio p req = 1 from if_neg narrow] at below
    omega
  have step : slave_step p req = 2 ^ p.slave := if_pos wide
  have small : n < ratio p req := Nat.lt_trans before (offset_lt p req)
  have words := addr_div_step p req
  rw [step] at words
  have start : (req.addr / 2 ^ req.size * ratio p req + n + 1) * 2 ^ p.slave ≤ req.addr := by
    calc (req.addr / 2 ^ req.size * ratio p req + n + 1) * 2 ^ p.slave ≤ req.addr / 2 ^ p.slave * 2 ^ p.slave :=
          Nat.mul_le_mul_right _ (by omega)
      _ ≤ req.addr := Nat.div_mul_le_self _ _
  -- the word is in the same beat as the start address
  have beat : (req.addr / 2 ^ req.size * ratio p req + n) / 2 ^ (p.master - p.slave) = req.addr / 2 ^ p.master := by
    have size := fits.size
    have lanes : 2 ^ (p.master - p.slave) = ratio p req * 2 ^ (p.master - req.size) := by
      rw [show ratio p req = 2 ^ (req.size - p.slave) from if_pos wide, ← Nat.pow_add]
      congr 1
      omega
    rw [lanes, ← Nat.div_div_eq_div_mul, Nat.mul_comm, Nat.mul_add_div (ratio_pos p req), Nat.div_eq_of_lt small, Nat.add_zero,
      Nat.div_div_eq_div_mul, ← Nat.pow_add, Nat.add_sub_cancel' size]
  have base := word_base p (req.addr / 2 ^ req.size * ratio p req + n)
  rw [beat] at base
  rw [stored, step, Nat.div_eq_of_lt small, strobed, List.filterMap_eq_nil_iff]
  intro j member
  have below := List.mem_range.mp member
  simp only [cut, laneOf, BitVec.getLsbD_setWidth, BitVec.getLsbD_ushiftRight, below, decide_true, Bool.true_and,
    Nat.mul_div_cancel _ (Nat.two_pow_pos p.slave)]
  have off : (stream 0).strb.getLsbD
      (2 ^ p.slave * ((req.addr / 2 ^ req.size * ratio p req + n) % 2 ^ (p.master - p.slave)) + j) = false := by
    by_contra on
    have on := Bool.not_eq_false _ ▸ on
    have low := (inBeat 0 (Nat.zero_le _) _ (BitVec.lt_of_getLsbD on) on).1
    rw [Nat.add_mul, Nat.one_mul] at start
    simp only [beatAddr, if_true, Nat.mul_comm (2 ^ p.slave)] at low
    omega
  rw [off]
  rfl

end

section
variable {p} {req : NastiReq I} {stream : Nat → WBeat p.master}

theorem burstBytes_eq (fits : Accepted p req) (right : WalksRight p req) (inBeat : InBeat p req stream) :
    burstBytes (slave_size p req) req.addr
        (((List.range (beats p req)).map (sent p req stream)).map fun x => (x.data, x.strb)) =
      burstBytes req.size req.addr (((List.range (req.len + 1)).map stream).map fun x => (x.data, x.strb)) := by
  have total := beats_add_offset p req
  have master : burstBytes req.size req.addr (((List.range (req.len + 1)).map stream).map fun x => (x.data, x.strb)) =
      (List.range ((req.len + 1) * ratio p req)).flatMap (stored p req stream) := by
    rw [burstBytes, List.map_map, zipIdx_map_range, List.flatMap_map, flatMap_range_mul]
    apply List.flatMap_congr
    intro k member
    exact strobed_master fits inBeat (Nat.le_of_lt_succ (List.mem_range.mp member))
  rw [master, ← total, Nat.add_comm, flatMap_range_drop _ _ _ fun n before => stored_before fits inBeat before,
    burstBytes, List.map_map, zipIdx_map_range, List.flatMap_map]
  apply List.flatMap_congr
  intro i member
  have below := List.mem_range.mp member
  have place : req.addr / slave_step p req + i = req.addr / 2 ^ req.size * ratio p req + (offset p req + i) := by
    rw [addr_div_step, Nat.add_assoc]
  have lane := lane_of_word (right i below)
  have base : beatAddr (slave_size p req) req.addr i / 2 ^ p.slave =
      (req.addr / slave_step p req + i) * slave_step p req / 2 ^ p.slave := by
    rw [beatAddr_div (slave_size p req) req.addr i (slave_size_le p req), slave_step_eq]
  simp only [Function.comp, stored, sent, cut, laneOf, lane, base, place, right.finished (Nat.le_of_lt below)]

end

/-! The burst on a right walk. -/

section
variable {p} {req : NastiReq I} {stream : Nat → WBeat p.master} {s : System p I R} {e : Input p I R}

theorem issued_eq (short : slave_len p req < 256) :
    issued p req = ⟨req.id, req.addr, slaveWords p req - 1, slave_size p req⟩ := by
  rw [issued, Nat.mod_eq_of_lt short, slaveWords_eq]
  rfl

theorem Along.progress (short : slave_len p req < 256) (inv : Along p req stream s)
    (offers : Offers p req stream s e) (cooperative : Cooperative p e) :
    s.regs.state = .idle ∨ rank p req (NarrowerWriter.cycle p s e) < rank p req s := by
  obtain ⟨awReady, wReady, offered, bReady, answered⟩ := cooperative
  obtain ⟨quiet, order⟩ := offers
  have words := slaveWords_eq p req
  cases inv with
  | aw regs slaveAw slaveW masterW masterB =>
    have state : s.regs.state = .aw := by rw [regs]
    have moved : (NarrowerWriter.cycle p s e).regs.state = .w := by simp [NarrowerWriter.cycle, next, state, awReady]
    right
    simp only [rank, moved, state]
    omega
  | w i more regs slaveAw slaveW masterW masterB =>
    have state : s.regs.state = .w := by rw [regs]
    have length : s.slaveW.length = i := by simp [slaveW]
    obtain ⟨x, offered⟩ := Option.isSome_iff_exists.mp offered
    have here := (order x offered).2
    rw [masterW, List.length_map, List.length_range] at here
    obtain ⟨-, moved, longer⟩ := cycle_beat short more regs (here ▸ offered) wReady quiet slaveAw slaveW masterW masterB
    right
    by_cases last : i + 1 < beats p req
    · rw [if_pos last] at moved
      simp only [rank, moved, state, longer, length, words]
      omega
    · rw [if_neg last] at moved
      simp only [rank, moved, state, length, words]
      omega
  | ended state slaveAw slaveW masterW masterB =>
    rcases state with state | state
    · have moved : (NarrowerWriter.cycle p s e).regs.state = .idle := by
        obtain ⟨r, answered⟩ := Option.isSome_iff_exists.mp answered
        simp [NarrowerWriter.cycle, next, state, masterBTaken, answered, bReady, Option.filter_some]
      right
      simp [rank, moved, state]
    · exact .inl state

theorem burstRight_of_along (fits : Accepted p req) (right : WalksRight p req) (inBeat : InBeat p req stream)
    (inv : Along p req stream s) : BurstRight p req stream s := by
  have short := slave_len_lt fits
  have words := slaveWords_eq p req
  have progress := fun e offers cooperative => inv.progress (e := e) short offers cooperative
  cases inv with
  | aw regs slaveAw slaveW masterW masterB =>
    have state : s.regs.state = .aw := by rw [regs]
    refine ⟨by simp [slaveAw, state], by simp [masterW], ?_, ?_, by simp [masterB, state], progress⟩
    · intro running
      rw [state] at running
      cases running
    · intro done
      rw [state] at done
      rcases done with h | h <;> cases h
  | w i more regs slaveAw slaveW masterW masterB =>
    have state : s.regs.state = .w := by rw [regs]
    refine ⟨by simp [slaveAw, state, issued_eq short], by simp [masterW], ?_, ?_, by simp [masterB, state], progress⟩
    · intro _
      refine ⟨?_, ?_⟩
      · rw [masterW, List.length_map, List.length_range]
        exact finished_le right more
      · rw [slaveW, List.length_map, List.length_range, words]
        exact more
    · intro done
      rw [state] at done
      rcases done with h | h <;> cases h
  | ended state slaveAw slaveW masterW masterB =>
    have notAw : s.regs.state ≠ .aw := by rcases state with h | h <;> rw [h] <;> decide
    have notW : s.regs.state ≠ .w := by rcases state with h | h <;> rw [h] <;> decide
    refine ⟨by simp [slaveAw, notAw, issued_eq short], by simp [masterW], fun running => absurd running notW, fun _ => ?_,
      masterB, progress⟩
    rw [masterW, slaveW, words, finished_beats right]
    refine ⟨by simp, ?_, burstBytes_eq fits right inBeat⟩
    rw [List.map_map]
    rfl

/-! The burst on a wrong walk. No strobe is needed to see it. -/

def silent (p : NarrowParams) (_ : Nat) : WBeat p.master := ⟨0, 0⟩

theorem inBeat_silent : InBeat p req (silent p) := by
  intro k below j inWord on
  simp [silent] at on

def before (req : NastiReq I) : Regs I := ⟨.idle, req, 0, 0⟩

def asks (p : NarrowParams) (R : Type) (req : NastiReq I) : Input p I R := ⟨some req, none, false, false, false, none⟩

def passes (p : NarrowParams) (I R : Type) : Input p I R := ⟨none, some (silent p 0), false, true, true, none⟩

/-- As long as the master has a beat to offer, beat `i` of the slave is reached. -/
theorem reaches (short : slave_len p req < 256) {i : Nat} (bound : i ≤ beats p req)
    (offered : ∀ j < i, NastiReq.finished p req j ≤ req.len) :
    ∃ t : System p I R, Steps (clock p) (Offers p req (silent p)) (accepted p (before req) (asks p R req)) t ∧
      Along p req (silent p) t ∧ t.regs.state = (if i < beats p req then .w else .b) ∧ t.slaveW.length = i := by
  have start : Along p req (silent p) (accepted p (before req) (asks p R req)) := along_accepted rfl rfl
  induction i with
  | zero =>
    have offers : Offers p req (silent p) (accepted p (before req) (asks p R req))
        ⟨none, none, false, true, false, none⟩ := ⟨rfl, fun x given => by cases given⟩
    refine ⟨_, .next (.refl _) offers rfl, start.cycle short offers, ?_, rfl⟩
    rw [if_pos (show 0 < beats p req from Nat.succ_pos _)]
    rfl
  | succ i ih =>
    obtain ⟨t, run, inv, state, length⟩ := ih (by omega) fun j below => offered j (by omega)
    rw [if_pos (by omega)] at state
    cases inv with
    | aw regs =>
      rw [regs] at state
      cases state
    | w j more regs slaveAw slaveW masterW masterB =>
      obtain rfl : j = i := by simpa [slaveW] using length
      have quiet : awTaken p t.regs (passes p I R) = none := rfl
      have offers : Offers p req (silent p) t (passes p I R) := by
        refine ⟨quiet, fun x given => ⟨?_, ?_⟩⟩
        · rw [masterW, List.length_map, List.length_range]
          exact offered j (Nat.lt_succ_self _)
        · exact (Option.some.inj given).symm
      obtain ⟨inv, state, length⟩ := cycle_beat short more regs (e := passes p I R) rfl rfl quiet slaveAw slaveW masterW masterB
      exact ⟨_, .next run offers rfl, inv, state, length⟩
    | ended ended' =>
      rw [state] at ended'
      rcases ended' with h | h <;> cases h

theorem finished_of_transparent (short : slave_len p req < 256) (transparent : Transparent p R req) :
    NastiReq.finished p req (beats p req) = req.len + 1 := by
  have right : ∀ t, Steps (clock p) (Offers p req (silent p)) (accepted p (before req) (asks p R req)) t →
      BurstRight p req (silent p) t := transparent (before req) (asks p R req) (silent p) rfl rfl inBeat_silent
  -- the bridge does not wait for a beat that the burst does not have
  have offered : ∀ i < beats p req, NastiReq.finished p req i ≤ req.len := by
    intro i
    induction i using Nat.strong_induction_on with
    | h i ih =>
      intro more
      obtain ⟨t, run, inv, state, length⟩ :=
        reaches (R := R) short (Nat.le_of_lt more) fun j below => ih j below (by omega)
      rw [if_pos more] at state
      cases inv with
      | aw regs =>
        rw [regs] at state
        cases state
      | w j _ _ _ slaveW masterW =>
        obtain rfl : j = i := by simpa [slaveW] using length
        have short := ((right t run).running state).1
        rwa [masterW, List.length_map, List.length_range] at short
      | ended ended' =>
        rw [state] at ended'
        rcases ended' with h | h <;> cases h
  obtain ⟨t, run, inv, state, length⟩ := reaches (R := R) short (Nat.le_refl _) offered
  rw [if_neg (Nat.lt_irrefl _)] at state
  cases inv with
  | aw regs =>
    rw [regs] at state
    cases state
  | w j _ regs =>
    rw [regs] at state
    cases state
  | ended _ _ _ masterW =>
    have done := ((right t run).finished (.inl state)).1
    rwa [masterW, List.length_map, List.length_range] at done

end

/-- The write bridge serves exactly the requests for which the alignment of the running address is
no coarser than its step, or does not matter yet. -/
theorem transparent_iff_aligns {p : NarrowParams} {req : NastiReq I} (fits : Accepted p req) :
    Transparent p R req ↔ Aligns p req := by
  have short := slave_len_lt fits
  constructor
  · intro transparent
    by_contra unaligned
    exact finished_ne_of_not_aligns unaligned (finished_of_transparent short transparent)
  · intro aligns m e stream idle asked inBeat t run
    exact burstRight_of_along fits (walksRight_of_aligns aligns) inBeat (along_of_run fits idle asked run)

/-- 64 to 32 bits. -/
def doubleToWord : NarrowParams := ⟨3, 2, by decide⟩

/-- A burst of two double words at an odd word. -/
theorem transparent_iff_aligns_of_double : Transparent doubleToWord Bool (⟨(), 0x14, 1, 3⟩ : NastiReq Unit) :=
  (transparent_iff_aligns ⟨by decide, by decide, by decide⟩).mpr (.inl (by decide))

/-- 32 to 8 bits. -/
def wordToByte : NarrowParams := ⟨2, 0, Nat.two_pos⟩

/-- Of a word for a bus of bytes, the byte at address 1 goes out three times and the master keeps
its beat. -/
theorem not_transparent_word_to_byte : ¬ Transparent wordToByte Bool (⟨(), 0, 0, 2⟩ : NastiReq Unit) := by
  intro transparent
  have same := finished_of_transparent (by decide) transparent
  revert same
  decide

end NarrowerWriter

end LowRisc.Socip
