import LowRisc.Socip.ByteLanes
import LowRisc.Socip.Narrower

/-! The read half of the NASTI width narrower. -/

set_option autoImplicit false

namespace LowRisc.Socip

open LowRisc.Lib NastiReq

namespace NarrowerReader

variable {I : Type}

structure SlaveAr (I : Type) where
  id : I
  addr : Nat
  len : Nat
  size : Nat

structure MasterR (I : Type) (b : Nat) where
  id : I
  data : Bus b
  last : Bool

inductive Phase where
  | idle
  | ar
  | r
  deriving DecidableEq, Repr

structure Regs (p : NarrowParams) (I : Type) where
  state : Phase
  request : NastiReq I
  r_cnt : Nat
  r_addr : Nat
  master_r_data : Bus p.master
  master_r_last : Bool
  master_r_valid : Bool

/-- One cycle; `r` is the data of the slave. -/
structure Input (p : NarrowParams) (I : Type) where
  ar : Option (NastiReq I)
  r_ready : Bool
  ar_ready : Bool
  r : Option (Bus p.slave)

variable (p : NarrowParams) (m : Regs p I) (e : Input p I)

def arTaken : Option (NastiReq I) := e.ar.filter fun _ => m.state == .idle

def slaveAr : Option (SlaveAr I) :=
  if m.state = .ar then
    some ⟨m.request.id, m.request.addr, slave_len p m.request % 256, slave_size p m.request⟩
  else none

def slave_r_ready : Bool := m.state == .r && (!m.master_r_valid || e.r_ready)

def slaveRTaken : Option (Bus p.slave) := e.r.filter fun _ => slave_r_ready p m e

def masterR : Option (MasterR I p.master) :=
  if m.master_r_valid then some ⟨m.request.id, m.master_r_data, m.master_r_last⟩ else none

def masterRTaken : Option (MasterR I p.master) := (masterR p m).filter fun _ => e.r_ready

def next : Regs p I where
  state :=
    match m.state with
    | .idle => if (arTaken p m e).isSome then .ar else .idle
    | .ar => if e.ar_ready then .r else .ar
    | .r => if (masterRTaken p m e).any MasterR.last then .idle else .r
  request := (arTaken p m e).getD m.request
  r_cnt :=
    if (masterRTaken p m e).isSome then (m.r_cnt + 1) % 256
    else if (arTaken p m e).isSome then 0 else m.r_cnt
  r_addr :=
    if (slaveRTaken p m e).isSome then stepAddr p m.request m.r_addr
    else ((arTaken p m e).map NastiReq.addr).getD m.r_addr
  master_r_data :=
    match slaveRTaken p m e with
    | some x => setLane m.master_r_data (laneOf p m.r_addr) x
    | none => if m.state = .ar ∧ e.ar_ready then 0 else m.master_r_data
  master_r_last := if (slaveRTaken p m e).isSome then m.r_cnt == m.request.len else m.master_r_last
  master_r_valid :=
    if (slaveRTaken p m e).isSome then fillsBeat p m.request m.r_addr
    else m.master_r_valid && !(masterRTaken p m e).isSome

/-! The bridge with what passed on its ports since the request was taken; of the beats of the slave
only their number. -/

structure System (p : NarrowParams) (I : Type) where
  regs : Regs p I
  slaveAr : List (SlaveAr I)
  slaveR : Nat
  masterR : List (MasterR I p.master)

def cycle (s : System p I) (e : Input p I) : System p I where
  regs := next p s.regs e
  slaveAr := s.slaveAr ++ ((slaveAr p s.regs).filter fun _ => e.ar_ready).toList
  slaveR := s.slaveR + (slaveRTaken p s.regs e).toList.length
  masterR := s.masterR ++ (masterRTaken p s.regs e).toList

def clock (s : System p I) (e : Input p I) : Option (System p I) := some (cycle p s e)

def accepted (m : Regs p I) (e : Input p I) : System p I where
  regs := next p m e
  slaveAr := []
  slaveR := 0
  masterR := []

/-- The beats of the slave carry the addressed bytes in their lanes. -/
def Serves (mem : Nat → BitVec 8) (req : NastiReq I) (stream : Nat → Bus p.slave) : Prop :=
  ∀ i < slaveWords p req, ∀ a, beatAddr (slave_size p req) req.addr i ≤ a →
    a < (req.addr / 2 ^ slave_size p req + i + 1) * 2 ^ slave_size p req → byteOf (stream i) (a % 2 ^ p.slave) = mem a

/-- The slave offers the beats of its burst in order and no more of them, and the next request is
not taken yet. -/
def Offers (req : NastiReq I) (stream : Nat → Bus p.slave) (s : System p I) (e : Input p I) : Prop :=
  arTaken p s.regs e = none ∧ ∀ x, e.r = some x → s.slaveR < slaveWords p req ∧ x = stream s.slaveR

def Cooperative (req : NastiReq I) (s : System p I) (e : Input p I) : Prop :=
  e.ar_ready = true ∧ e.r_ready = true ∧ (s.slaveR < slaveWords p req → e.r.isSome)

def rank (req : NastiReq I) (s : System p I) : Nat :=
  match s.regs.state with
  | .idle => 0
  | .r => 1 + 2 * (slaveWords p req - s.slaveR) + if s.regs.master_r_valid then 1 else 0
  | .ar => 3 + 2 * slaveWords p req

/-- A master beat is right as beat `k` of the burst. -/
structure BeatRight (mem : Nat → BitVec 8) (req : NastiReq I) (k : Nat) (x : MasterR I p.master) : Prop where
  inBurst : k ≤ req.len
  id : x.id = req.id
  last : x.last = (k == req.len)
  bytes : ∀ a, beatAddr req.size req.addr k ≤ a → a < (req.addr / 2 ^ req.size + k + 1) * 2 ^ req.size →
    byteOf x.data (a % 2 ^ p.master) = mem a

def Delivered (mem : Nat → BitVec 8) (req : NastiReq I) (beats : List (MasterR I p.master)) : Prop :=
  ∀ k x, beats[k]? = some x → BeatRight p mem req k x

/-- What the slave and the master have seen of the burst. -/
structure BurstRight (mem : Nat → BitVec 8) (req : NastiReq I) (stream : Nat → Bus p.slave) (s : System p I) : Prop where
  address : s.slaveAr =
    if s.regs.state = .ar then [] else [⟨req.id, req.addr, slaveWords p req - 1, slave_size p req⟩]
  delivered : Delivered p mem req s.masterR
  finished : s.regs.state = .idle →
    s.masterR.length = req.len + 1 ∧ s.slaveR = slaveWords p req ∧ s.regs.master_r_valid = false
  progress : ∀ e, Offers p req stream s e → Cooperative p req s e →
    s.regs.state = .idle ∨ rank p req (cycle p s e) < rank p req s

/-- Whatever the idle bridge did before, and whatever the data and the stalls, it does the burst
right. -/
def Transparent (req : NastiReq I) : Prop :=
  ∀ (m : Regs p I) (e : Input p I) (mem : Nat → BitVec 8) (stream : Nat → Bus p.slave), m.state = .idle →
    m.master_r_valid = false → e.ar = some req → Serves p mem req stream →
    ∀ t, Steps (clock p) (Offers p req stream) (accepted p m e) t → BurstRight p mem req stream t

/-! The burst on a right walk. -/

def issued (req : NastiReq I) : SlaveAr I := ⟨req.id, req.addr, slave_len p req % 256, slave_size p req⟩

/-- In the burst, with `i` beats taken from the slave. -/
structure Running (mem : Nat → BitVec 8) (req : NastiReq I) (stream : Nat → Bus p.slave) (i : Nat) (s : System p I) :
    Prop where
  state : s.regs.state = .r
  request : s.regs.request = req
  r_cnt : s.regs.r_cnt = s.masterR.length
  r_addr : s.regs.r_addr = walk p req i
  slaveR : s.slaveR = i
  bound : i ≤ beats p req
  open' : s.masterR.length ≤ req.len
  filled : NastiReq.finished p req i = s.masterR.length + if s.regs.master_r_valid then 1 else 0
  edge : s.regs.master_r_valid = true → ratio p req ∣ offset p req + i
  last : s.regs.master_r_valid = true → s.regs.master_r_last = (s.masterR.length == req.len)
  lanes : ∀ j < i, (offset p req + j) / ratio p req = (offset p req + i - 1) / ratio p req → ∀ q < 2 ^ p.slave,
    byteOf s.regs.master_r_data (laneOf p (walk p req j) * 2 ^ p.slave + q) = byteOf (stream j) q
  slaveAr : s.slaveAr = [issued p req]
  delivered : Delivered p mem req s.masterR

inductive Along (mem : Nat → BitVec 8) (req : NastiReq I) (stream : Nat → Bus p.slave) (s : System p I) : Prop where
  | ar (state : s.regs.state = .ar) (request : s.regs.request = req) (r_cnt : s.regs.r_cnt = 0)
      (r_addr : s.regs.r_addr = req.addr) (valid : s.regs.master_r_valid = false) (slaveAr : s.slaveAr = [])
      (slaveR : s.slaveR = 0) (masterR : s.masterR = [])
  | r (i : Nat) (running : Running p mem req stream i s)
  | idle (state : s.regs.state = .idle) (valid : s.regs.master_r_valid = false) (slaveAr : s.slaveAr = [issued p req])
      (slaveR : s.slaveR = beats p req) (masterR : s.masterR.length = req.len + 1)
      (delivered : Delivered p mem req s.masterR)

section
variable {p} {mem : Nat → BitVec 8} {req : NastiReq I} {stream : Nat → Bus p.slave} {s : System p I} {e : Input p I}

theorem along_accepted {m : Regs p I} (idle : m.state = .idle) (quiet : m.master_r_valid = false) (asked : e.ar = some req) :
    Along p mem req stream (accepted p m e) := by
  have taken : arTaken p m e = some req := by simp [arTaken, asked, idle, Option.filter_some]
  have noM : masterRTaken p m e = none := by simp [masterRTaken, masterR, quiet]
  have noS : slaveRTaken p m e = none := by
    cases offered : e.r <;> simp [slaveRTaken, slave_r_ready, offered, idle, Option.filter_some]
  apply Along.ar <;> simp [accepted, next, idle, taken, noM, noS, quiet]

theorem slaveRTaken_of_state (other : s.regs.state ≠ .r) : slaveRTaken p s.regs e = none := by
  cases offered : e.r <;> simp [slaveRTaken, slave_r_ready, offered, other, Option.filter_some]

theorem masterRTaken_of_valid (quiet : s.regs.master_r_valid = false) : masterRTaken p s.regs e = none := by
  simp [masterRTaken, masterR, quiet]

theorem slaveAr_of_state (other : s.regs.state ≠ .ar) : slaveAr p s.regs = none := by
  simp [slaveAr, other]

theorem Delivered.push {beats : List (MasterR I p.master)} {x : MasterR I p.master} (before : Delivered p mem req beats)
    (beat : BeatRight p mem req beats.length x) : Delivered p mem req (beats ++ [x]) := by
  intro k y found
  rw [List.getElem?_append] at found
  split at found
  · exact before k y found
  · rename_i behind
    have here : k = beats.length := by
      by_contra other
      rw [List.getElem?_eq_none (by rw [List.length_singleton]; omega)] at found
      cases found
    rw [here, Nat.sub_self] at found
    cases Option.some.inj found
    rw [here]
    exact beat

theorem laneOf_lt (a : Nat) : (laneOf p a + 1) * 2 ^ p.slave ≤ 2 ^ p.master := by
  have below : laneOf p a < 2 ^ (p.master - p.slave) := Nat.mod_lt _ (Nat.two_pow_pos _)
  calc (laneOf p a + 1) * 2 ^ p.slave ≤ 2 ^ (p.master - p.slave) * 2 ^ p.slave := Nat.mul_le_mul_right _ below
    _ = 2 ^ p.master := by rw [← Nat.pow_add, Nat.sub_add_cancel (Nat.le_of_lt p.narrower)]

theorem Running.beat {i : Nat} (right : WalksRight p req) (serves : Serves p mem req stream)
    (running : Running p mem req stream i s) (valid : s.regs.master_r_valid = true) :
    BeatRight p mem req s.masterR.length ⟨s.regs.request.id, s.regs.master_r_data, s.regs.master_r_last⟩ := by
  have positive := ratio_pos p req
  refine ⟨running.open', by rw [running.request], running.last valid, fun a low high => ?_⟩
  have start := start_le_beatAddr req.size req.addr s.masterR.length
  have aligned := le_beatAddr req.size req.addr s.masterR.length
  obtain ⟨j, word, beat⟩ := beat_of_address (p := p) (Nat.le_trans start low) (Nat.le_trans aligned low) high
  -- the beat is full: its words have all come
  have filled := running.filled
  rw [right.finished running.bound, valid, if_pos rfl] at filled
  obtain ⟨n, full⟩ := running.edge valid
  rw [full, Nat.mul_div_cancel_left _ positive] at filled
  have before : offset p req + j < offset p req + i := by
    rw [full, filled, Nat.mul_comm]
    exact (Nat.div_lt_iff_lt_mul positive).mp (by omega)
  have latest : (offset p req + i - 1) / ratio p req = s.masterR.length := by
    rw [full, filled, Nat.mul_succ, Nat.add_sub_assoc positive, Nat.mul_add_div positive,
      Nat.div_eq_of_lt (by omega), Nat.add_zero]
  have bound := running.bound
  have data := running.lanes j (by omega) (by rw [beat, latest]) (a % 2 ^ p.slave) (Nat.mod_lt _ (Nat.two_pow_pos _))
  have lane : laneOf p (walk p req j) * 2 ^ p.slave + a % 2 ^ p.slave = a % 2 ^ p.master := by
    have same : walk p req j / 2 ^ p.slave = a / 2 ^ p.slave := by
      rw [lane_of_word (right j (by omega)), lane_of_word word]
    have whole : 2 ^ p.master = 2 ^ p.slave * 2 ^ (p.master - p.slave) := by
      rw [← Nat.pow_add, Nat.add_sub_cancel' (Nat.le_of_lt p.narrower)]
    rw [laneOf, same, whole, Nat.mod_mul, Nat.mul_comm (2 ^ p.slave), Nat.add_comm]
  rw [lane] at data
  rw [data]
  have step := slave_step_pos p req
  refine serves j (by rw [slaveWords_eq]; omega) a ?_ ?_
  · unfold beatAddr
    split
    · exact Nat.le_trans start low
    · rw [← slave_step_eq, ← word]
      exact Nat.div_mul_le_self _ _
  · rw [← slave_step_eq, ← word]
    exact Nat.lt_mul_of_div_lt (Nat.lt_succ_self _) step

end

section
variable {p} {mem : Nat → BitVec 8} {req : NastiReq I} {stream : Nat → Bus p.slave} {s : System p I} {e : Input p I}

theorem Running.lanes_set {i : Nat} (fits : Accepted p req) (right : WalksRight p req)
    (running : Running p mem req stream i s) (more : i < beats p req) : ∀ j < i + 1,
    (offset p req + j) / ratio p req = (offset p req + (i + 1) - 1) / ratio p req → ∀ q < 2 ^ p.slave,
      byteOf (setLane s.regs.master_r_data (laneOf p (walk p req i)) (stream i)) (laneOf p (walk p req j) * 2 ^ p.slave + q) =
        byteOf (stream j) q := by
  intro j below sameBeat q inLane
  rw [← Nat.add_assoc, Nat.add_sub_cancel] at sameBeat
  rcases Nat.lt_or_eq_of_le (Nat.le_of_lt_succ below) with earlier | rfl
  · have different : laneOf p (walk p req j) ≠ laneOf p (walk p req i) := by
      intro same
      rw [right.laneOf fits more, right.laneOf fits (Nat.lt_trans earlier more), sameBeat] at same
      have places : (offset p req + j) % ratio p req = (offset p req + i) % ratio p req := Nat.add_left_cancel same
      have first := Nat.div_add_mod (offset p req + j) (ratio p req)
      have second := Nat.div_add_mod (offset p req + i) (ratio p req)
      rw [sameBeat, places, second] at first
      omega
    rw [byteOf_setLane_other _ _ different inLane (laneOf_lt _)]
    refine running.lanes j earlier ?_ q inLane
    have low := Nat.div_le_div_right (c := ratio p req) (show offset p req + j ≤ offset p req + i - 1 by omega)
    have high := Nat.div_le_div_right (c := ratio p req) (show offset p req + i - 1 ≤ offset p req + i by omega)
    omega
  · exact byteOf_setLane_same _ _ inLane (laneOf_lt _)

/-- Two beats of the slave in a row do not both end a master beat, or the burst has one beat only. -/
theorem fills_once {i : Nat} (right : WalksRight p req) (spaced : p.slave < req.size ∨ req.len = 0) (more : i < beats p req)
    (edge : ratio p req ∣ offset p req + i) (several : req.len ≠ 0) : fillsBeat p req (walk p req i) = false := by
  have wide := spaced.resolve_right several
  have two : 2 ≤ ratio p req := by
    rw [ratio, if_pos wide]
    exact Nat.le_self_pow (by omega) 2
  by_contra fills
  have next := (right.fills_iff more).mp (by simpa using fills)
  have one := (Nat.dvd_add_right edge).mp next
  have small := Nat.le_of_dvd Nat.one_pos one
  omega

theorem slaveRTaken_some {x : Bus p.slave} (came : slaveRTaken p s.regs e = some x) :
    e.r = some x ∧ (s.regs.master_r_valid = true → e.r_ready = true) := by
  simp only [slaveRTaken, Option.filter_eq_some_iff, slave_r_ready] at came
  refine ⟨came.1, fun valid => ?_⟩
  have both : s.regs.state = .r ∧ e.r_ready = true := by simpa [valid] using came.2
  exact both.2

theorem masterRTaken_some {x : MasterR I p.master} (took : masterRTaken p s.regs e = some x) :
    s.regs.master_r_valid = true ∧ x = ⟨s.regs.request.id, s.regs.master_r_data, s.regs.master_r_last⟩ := by
  cases valid : s.regs.master_r_valid
  · rw [masterRTaken_of_valid valid] at took
    cases took
  · simp only [masterRTaken, masterR, valid, if_true, Option.filter_eq_some_iff, Option.some.injEq] at took
    exact ⟨rfl, took.1.symm⟩

theorem masterRTaken_none (took : masterRTaken p s.regs e = none) (ready : e.r_ready = true) :
    s.regs.master_r_valid = false := by
  cases valid : s.regs.master_r_valid
  · rfl
  · simp [masterRTaken, masterR, valid, ready, Option.filter_some] at took

/-! A cycle in the middle of the burst, by the beats that are taken in it. -/

namespace Running

variable {i : Nat}

theorem settled (running : Running p mem req stream i s) (quiet : arTaken p s.regs e = none) :
    (cycle p s e).slaveAr = [issued p req] ∧ (cycle p s e).regs.request = req := by
  have noAr : NarrowerReader.slaveAr p s.regs = none := slaveAr_of_state (by rw [running.state]; decide)
  exact ⟨by simp [cycle, noAr, running.slaveAr], by simp [cycle, next, quiet, running.request]⟩

theorem arrival (running : Running p mem req stream i s) (offers : Offers p req stream s e) {x : Bus p.slave}
    (came : slaveRTaken p s.regs e = some x) : x = stream i ∧ i < beats p req := by
  obtain ⟨less, here⟩ := offers.2 x (slaveRTaken_some came).1
  rw [running.slaveR, slaveWords_eq] at less
  rw [running.slaveR] at here
  exact ⟨here, less⟩

theorem hold (running : Running p mem req stream i s) (quiet : arTaken p s.regs e = none) (took : masterRTaken p s.regs e = none)
    (came : slaveRTaken p s.regs e = none) :
    Running p mem req stream i (cycle p s e) := by
  obtain ⟨address, sameRequest⟩ := running.settled quiet
  have state := running.state
  have sameR : (cycle p s e).masterR = s.masterR := by simp [cycle, took]
  have valid : (cycle p s e).regs.master_r_valid = s.regs.master_r_valid := by simp [cycle, next, took, came]
  refine ⟨?_, sameRequest, ?_, ?_, ?_, running.bound, ?_, ?_, ?_, ?_, ?_, address, ?_⟩
  · simp [cycle, next, state, took]
  · simp [cycle, next, took, quiet, running.r_cnt]
  · simp [cycle, next, came, quiet, running.r_addr]
  · simp [cycle, came, running.slaveR]
  · rw [sameR]
    exact running.open'
  · rw [sameR, valid]
    exact running.filled
  · rw [valid]
    exact running.edge
  · rw [valid, sameR]
    simpa [cycle, next, came] using running.last
  · simpa [cycle, next, came, state] using running.lanes
  · rw [sameR]
    exact running.delivered

theorem gather (running : Running p mem req stream i s) (fits : Accepted p req) (right : WalksRight p req)
    (quiet : arTaken p s.regs e = none) (took : masterRTaken p s.regs e = none) (came : slaveRTaken p s.regs e = some (stream i))
    (more : i < beats p req) :
    Running p mem req stream (i + 1) (cycle p s e) := by
  obtain ⟨address, sameRequest⟩ := running.settled quiet
  have state := running.state
  have request := running.request
  have sameR : (cycle p s e).masterR = s.masterR := by simp [cycle, took]
  have empty : s.regs.master_r_valid = false := by
    cases valid : s.regs.master_r_valid
    · rfl
    · rw [← valid]
      exact masterRTaken_none took ((slaveRTaken_some came).2 valid)
  have valid : (cycle p s e).regs.master_r_valid = fillsBeat p req (walk p req i) := by
    simp [cycle, next, came, request, running.r_addr]
  refine ⟨?_, sameRequest, ?_, ?_, ?_, more, ?_, ?_, ?_, ?_, ?_, address, ?_⟩
  · simp [cycle, next, state, took]
  · simp [cycle, next, took, quiet, running.r_cnt]
  · simp [cycle, next, came, request, running.r_addr, walk]
  · simp [cycle, came, running.slaveR]
  · rw [sameR]
    exact running.open'
  · rw [sameR, valid, NastiReq.finished, running.filled, empty]
    rfl
  · rw [valid]
    exact (right.fills_iff more).mp
  · intro _
    rw [sameR]
    simp [cycle, next, came, running.r_cnt, request]
  · simpa [cycle, next, came, running.r_addr] using running.lanes_set fits right more
  · rw [sameR]
    exact running.delivered

theorem deliver (running : Running p mem req stream i s) (right : WalksRight p req) (serves : Serves p mem req stream)
    {x : MasterR I p.master} (took : masterRTaken p s.regs e = some x) :
    s.regs.master_r_valid = true ∧ Delivered p mem req (cycle p s e).masterR ∧
      (cycle p s e).masterR.length = s.masterR.length + 1 ∧
      s.masterR.length + 1 = (offset p req + i) / ratio p req := by
  obtain ⟨valid, rfl⟩ := masterRTaken_some took
  have moreR : (cycle p s e).masterR = s.masterR ++ [⟨s.regs.request.id, s.regs.master_r_data, s.regs.master_r_last⟩] := by
    simp [cycle, took]
  have filled := running.filled
  rw [valid, if_pos rfl, right.finished running.bound] at filled
  refine ⟨valid, ?_, by simp [moreR], filled.symm⟩
  rw [moreR]
  exact running.delivered.push (running.beat right serves valid)

/-- The last beat leaves: all beats of the slave were taken. -/
theorem leave (running : Running p mem req stream i s) (right : WalksRight p req) (serves : Serves p mem req stream)
    (offers : Offers p req stream s e) {x : MasterR I p.master} (took : masterRTaken p s.regs e = some x)
    (last : s.masterR.length = req.len) : Along p mem req stream (cycle p s e) := by
  obtain ⟨valid, delivered, longer, filled⟩ := running.deliver right serves took
  obtain ⟨-, rfl⟩ := masterRTaken_some took
  have bound := running.bound
  have total := beats_add_offset p req
  have all : i = beats p req := by
    have less := (Nat.le_div_iff_mul_le (ratio_pos p req)).mp (Nat.le_of_eq filled)
    rw [last] at less
    omega
  have noS : slaveRTaken p s.regs e = none := by
    cases came : slaveRTaken p s.regs e with
    | none => rfl
    | some x =>
      have less := (running.arrival offers came).2
      omega
  have lastFlag := running.last valid
  rw [last, beq_self_eq_true] at lastFlag
  refine .idle ?_ ?_ (running.settled offers.1).1 ?_ (by rw [longer, last]) delivered
  · simp [cycle, next, running.state, took, lastFlag]
  · simp [cycle, next, took, noS]
  · simp [cycle, noS, running.slaveR, all]

theorem counted (running : Running p mem req stream i s) (fits : Accepted p req) {x : MasterR I p.master}
    (took : masterRTaken p s.regs e = some x) (more : s.masterR.length < req.len) :
    (cycle p s e).regs.state = .r ∧ (cycle p s e).regs.r_cnt = s.masterR.length + 1 := by
  obtain ⟨valid, rfl⟩ := masterRTaken_some took
  have len := fits.len
  have lastFlag := running.last valid
  rw [beq_eq_false_iff_ne.mpr (Nat.ne_of_lt more)] at lastFlag
  refine ⟨by simp [cycle, next, running.state, took, lastFlag], ?_⟩
  simp only [cycle, next, took, Option.isSome_some, if_true, running.r_cnt]
  exact Nat.mod_eq_of_lt (by omega)

theorem empties (running : Running p mem req stream i s) (fits : Accepted p req) (right : WalksRight p req)
    (serves : Serves p mem req stream) (quiet : arTaken p s.regs e = none) {x : MasterR I p.master}
    (took : masterRTaken p s.regs e = some x) (came : slaveRTaken p s.regs e = none) (last : s.masterR.length < req.len) :
    Running p mem req stream i (cycle p s e) := by
  obtain ⟨address, sameRequest⟩ := running.settled quiet
  obtain ⟨valid, delivered, longer, filled⟩ := running.deliver right serves took
  obtain ⟨sameState, count⟩ := running.counted fits took last
  have quietR : (cycle p s e).regs.master_r_valid = false := by simp [cycle, next, took, came]
  have hidden {P : Prop} (shown : (cycle p s e).regs.master_r_valid = true) : P := by
    rw [quietR] at shown
    cases shown
  refine ⟨sameState, sameRequest, by rw [longer, count], ?_, ?_, running.bound, ?_, ?_, hidden, hidden, ?_, address,
    delivered⟩
  · simp [cycle, next, came, quiet, running.r_addr]
  · simp [cycle, came, running.slaveR]
  · omega
  · rw [longer, quietR, right.finished running.bound, filled]
    rfl
  · simpa [cycle, next, came, running.state] using running.lanes

theorem goOn (running : Running p mem req stream i s) (fits : Accepted p req) (right : WalksRight p req)
    (spaced : p.slave < req.size ∨ req.len = 0) (serves : Serves p mem req stream) (quiet : arTaken p s.regs e = none)
    {x : MasterR I p.master} (took : masterRTaken p s.regs e = some x)
    (came : slaveRTaken p s.regs e = some (stream i)) (more : i < beats p req) (last : s.masterR.length < req.len) :
    Running p mem req stream (i + 1) (cycle p s e) := by
  obtain ⟨address, sameRequest⟩ := running.settled quiet
  obtain ⟨valid, delivered, longer, filled⟩ := running.deliver right serves took
  obtain ⟨sameState, count⟩ := running.counted fits took last
  have starts := fills_once right spaced more (running.edge valid) (by omega)
  have quietR : (cycle p s e).regs.master_r_valid = false := by
    simp [cycle, next, came, running.request, running.r_addr, starts]
  have hidden {P : Prop} (shown : (cycle p s e).regs.master_r_valid = true) : P := by
    rw [quietR] at shown
    cases shown
  refine ⟨sameState, sameRequest, by rw [longer, count], ?_, ?_, more, ?_, ?_, hidden, hidden, ?_, address, delivered⟩
  · simp [cycle, next, came, running.request, running.r_addr, walk]
  · simp [cycle, came, running.slaveR]
  · omega
  · rw [longer, quietR, NastiReq.finished, right.finished running.bound, filled, starts]
  · simpa [cycle, next, came, running.r_addr] using running.lanes_set fits right more

end Running

theorem cycle_running {i : Nat} (fits : Accepted p req) (right : WalksRight p req)
    (spaced : p.slave < req.size ∨ req.len = 0) (serves : Serves p mem req stream)
    (running : Running p mem req stream i s) (offers : Offers p req stream s e) :
    Along p mem req stream (cycle p s e) := by
  have quiet := offers.1
  have open' := running.open'
  cases took : masterRTaken p s.regs e with
  | none =>
    cases came : slaveRTaken p s.regs e with
    | none => exact .r i (running.hold quiet took came)
    | some x =>
      obtain ⟨rfl, more⟩ := running.arrival offers came
      exact .r (i + 1) (running.gather fits right quiet took came more)
  | some x =>
    rcases Nat.lt_or_eq_of_le open' with last | last
    · cases came : slaveRTaken p s.regs e with
      | none => exact .r i (running.empties fits right serves quiet took came last)
      | some x =>
        obtain ⟨rfl, more⟩ := running.arrival offers came
        exact .r (i + 1) (running.goOn fits right spaced serves quiet took came more last)
    · exact running.leave right serves offers took last

theorem Along.cycle (fits : Accepted p req) (right : WalksRight p req) (spaced : p.slave < req.size ∨ req.len = 0)
    (serves : Serves p mem req stream) (inv : Along p mem req stream s) (offers : Offers p req stream s e) :
    Along p mem req stream (NarrowerReader.cycle p s e) := by
  have quiet := offers.1
  cases inv with
  | ar state request r_cnt r_addr valid slaveAr slaveR masterR =>
    have noS := slaveRTaken_of_state (e := e) (s := s) (by rw [state]; decide)
    have noM := masterRTaken_of_valid (e := e) valid
    -- the address waits until the slave takes it
    cases ready : e.ar_ready
    · apply Along.ar <;> simp [NarrowerReader.cycle, next, state, request, r_cnt, r_addr, valid, slaveAr, slaveR, masterR,
        noS, noM, quiet, ready]
    · refine .r 0 ⟨?_, ?_, ?_, ?_, ?_, Nat.zero_le _, ?_, ?_, ?_, ?_, ?_, ?_, ?_⟩
      · simp [NarrowerReader.cycle, next, state, ready]
      · simp [NarrowerReader.cycle, next, quiet, request]
      · simp [NarrowerReader.cycle, next, quiet, noM, r_cnt, masterR]
      · simp [NarrowerReader.cycle, next, quiet, noS, r_addr, walk]
      · simp [NarrowerReader.cycle, noS, slaveR]
      · simp [NarrowerReader.cycle, noM, masterR]
      · simp [NarrowerReader.cycle, next, noS, noM, valid, masterR, NastiReq.finished]
      · simp [NarrowerReader.cycle, next, noS, noM, valid]
      · simp [NarrowerReader.cycle, next, noS, noM, valid]
      · intro j below
        exact absurd below (Nat.not_lt_zero _)
      · simp [NarrowerReader.cycle, slaveAr, NarrowerReader.slaveAr, state, request, ready, issued, Option.filter_some]
      · intro k x found
        simp [NarrowerReader.cycle, noM, masterR] at found
  | r i running => exact cycle_running fits right spaced serves running offers
  -- the burst is over, and nothing moves without another request
  | idle state valid slaveAr slaveR masterR delivered =>
    have noS := slaveRTaken_of_state (e := e) (s := s) (by rw [state]; decide)
    have noM := masterRTaken_of_valid (e := e) valid
    have noAr : NarrowerReader.slaveAr p s.regs = none := slaveAr_of_state (by rw [state]; decide)
    refine .idle ?_ ?_ ?_ ?_ ?_ ?_
    · simp [NarrowerReader.cycle, next, state, quiet]
    · simp [NarrowerReader.cycle, next, noS, noM, valid]
    · simp [NarrowerReader.cycle, noAr, slaveAr]
    · simp [NarrowerReader.cycle, noS, slaveR]
    · simp [NarrowerReader.cycle, noM, masterR]
    · simpa [NarrowerReader.cycle, noM] using delivered

theorem along_of_run {m : Regs p I} {t : System p I} (fits : Accepted p req) (right : WalksRight p req)
    (spaced : p.slave < req.size ∨ req.len = 0) (serves : Serves p mem req stream) (idle : m.state = .idle)
    (quiet : m.master_r_valid = false) (asked : e.ar = some req)
    (run : Steps (clock p) (Offers p req stream) (accepted p m e) t) : Along p mem req stream t :=
  run.invariant (along_accepted idle quiet asked) fun inv offers fired => by
    cases Option.some.inj fired
    exact inv.cycle fits right spaced serves offers

theorem Along.progress (right : WalksRight p req) (inv : Along p mem req stream s) (offers : Offers p req stream s e)
    (cooperative : Cooperative p req s e) : s.regs.state = .idle ∨ rank p req (NarrowerReader.cycle p s e) < rank p req s := by
  obtain ⟨arReady, rReady, answered⟩ := cooperative
  obtain ⟨quiet, order⟩ := offers
  have words := slaveWords_eq p req
  cases inv with
  | ar state request r_cnt r_addr valid slaveAr slaveR masterR =>
    have noS := slaveRTaken_of_state (e := e) (s := s) (by rw [state]; decide)
    have noM := masterRTaken_of_valid (e := e) valid
    have moved : (NarrowerReader.cycle p s e).regs.state = .r := by simp [NarrowerReader.cycle, next, state, arReady]
    have empty : (NarrowerReader.cycle p s e).regs.master_r_valid = false := by
      simp [NarrowerReader.cycle, next, noS, noM, valid]
    have count : (NarrowerReader.cycle p s e).slaveR = 0 := by simp [NarrowerReader.cycle, noS, slaveR]
    right
    simp [rank, moved, state, empty, count]
  | idle state => exact .inl state
  | r i running =>
    right
    have state := running.state
    have bound := running.bound
    have filled := running.filled
    by_cases more : i < beats p req
    · -- a beat comes
      obtain ⟨x, came⟩ := Option.isSome_iff_exists.mp (answered (by rw [running.slaveR, words]; exact more))
      have taken : slaveRTaken p s.regs e = some x := by
        simp [slaveRTaken, slave_r_ready, came, state, rReady, Option.filter_some]
      have count : (NarrowerReader.cycle p s e).slaveR = i + 1 := by simp [NarrowerReader.cycle, taken, running.slaveR]
      have after : rank p req (NarrowerReader.cycle p s e) ≤ 2 + 2 * (beats p req - (i + 1)) := by
        unfold rank
        rw [count, words]
        split
        · omega
        · split <;> omega
        · rename_i moved
          simp only [NarrowerReader.cycle, next, state] at moved
          split at moved <;> cases moved
      have before : 1 + 2 * (beats p req - i) ≤ rank p req s := by
        rw [rank, state, running.slaveR, words]
        exact Nat.le_add_right _ _
      omega
    · -- all beats came, and the last one is shown
      have all : i = beats p req := by omega
      rw [all, finished_beats right] at filled
      have open' := running.open'
      have valid : s.regs.master_r_valid = true := by
        by_contra empty
        rw [if_neg empty] at filled
        omega
      rw [valid, if_pos rfl] at filled
      have last := running.last valid
      rw [show s.masterR.length = req.len by omega, beq_self_eq_true] at last
      have moved : (NarrowerReader.cycle p s e).regs.state = .idle := by
        simp [NarrowerReader.cycle, next, state, masterRTaken, masterR, valid, rReady, last, Option.filter_some]
      simp only [rank, moved, state]
      omega

theorem burstRight_of_along (fits : Accepted p req) (right : WalksRight p req) (inv : Along p mem req stream s) :
    BurstRight p mem req stream s := by
  have progress := fun e offers cooperative => inv.progress (e := e) right offers cooperative
  have address : issued p req = ⟨req.id, req.addr, slaveWords p req - 1, slave_size p req⟩ := by
    rw [issued, Nat.mod_eq_of_lt (slave_len_lt fits), slaveWords_eq]
    rfl
  cases inv with
  | ar state request r_cnt r_addr valid slaveAr slaveR masterR =>
    refine ⟨by simp [slaveAr, state], ?_, ?_, progress⟩
    · intro k x found
      simp [masterR] at found
    · intro done
      rw [state] at done
      cases done
  | r i running =>
    have state := running.state
    refine ⟨by simp [running.slaveAr, state, address], running.delivered, ?_, progress⟩
    intro done
    rw [state] at done
    cases done
  | idle state valid slaveAr slaveR masterR delivered =>
    exact ⟨by simp [slaveAr, state, address], delivered, fun _ => ⟨masterR, by rw [slaveR, slaveWords_eq], valid⟩, progress⟩

end

/-! Where the bridge goes wrong. A memory of zeroes is enough to see it. -/

def zeroes (p : NarrowParams) (_ : Nat) : Bus p.slave := 0

theorem serves_zeroes (req : NastiReq I) : Serves p (fun _ => 0) req (zeroes p) := by
  intro i below a low high
  simp [zeroes, byteOf]

def before (req : NastiReq I) : Regs p I := ⟨.idle, req, 0, 0, 0, false, false⟩

def asks (req : NastiReq I) : Input p I := ⟨some req, false, false, none⟩

/-- A beat comes, and the master takes one if `r_ready`. -/
def comes (I : Type) (r_ready : Bool) : Input p I := ⟨none, r_ready, false, some (zeroes p 0)⟩

def leaves (I : Type) : Input p I := ⟨none, true, true, none⟩

/-- In the burst, with `i` beats of the slave behind it and nothing to show. -/
structure Settled (req : NastiReq I) (i : Nat) (s : System p I) : Prop where
  state : s.regs.state = .r
  request : s.regs.request = req
  r_cnt : s.regs.r_cnt = NastiReq.finished p req i
  r_addr : s.regs.r_addr = walk p req i
  valid : s.regs.master_r_valid = false
  slaveR : s.slaveR = i
  masterR : s.masterR.length = NastiReq.finished p req i
  open' : NastiReq.finished p req i ≤ req.len

section
variable {p} {req : NastiReq I} {s : System p I}

theorem offers_comes {r_ready : Bool} (more : s.slaveR < beats p req) : Offers p req (zeroes p) s (comes p I r_ready) := by
  refine ⟨rfl, fun x given => ?_⟩
  cases Option.some.inj given
  exact ⟨by rw [slaveWords_eq]; exact more, rfl⟩

theorem offers_leaves : Offers p req (zeroes p) s (leaves p I) := ⟨rfl, fun x given => by cases given⟩

variable (p req) in
theorem settled_start : ∃ t : System p I,
    Steps (clock p) (Offers p req (zeroes p)) (accepted p (before p req) (asks p req)) t ∧ Settled p req 0 t := by
  have offers : Offers p req (zeroes p) (accepted p (before p req) (asks p req)) (leaves p I) := offers_leaves
  exact ⟨_, .next (.refl _) offers rfl, rfl, rfl, rfl, rfl, rfl, rfl, rfl, Nat.zero_le _⟩

theorem Settled.beat {i : Nat} (short : req.len < 256) (settled : Settled p req i s) (more : i < beats p req) :
    ∃ t, Steps (clock p) (Offers p req (zeroes p)) s t ∧ t.slaveR = i + 1 ∧
      (Settled p req (i + 1) t ∨ (NastiReq.finished p req (i + 1) = req.len + 1 ∧ t.regs.state = .idle)) := by
  obtain ⟨state, request, r_cnt, r_addr, valid, slaveR, masterR, open'⟩ := settled
  have noM := masterRTaken_of_valid (e := comes p I false) valid
  have came : slaveRTaken p s.regs (comes p I false) = some (zeroes p 0) := by
    simp [slaveRTaken, slave_r_ready, comes, state, valid, Option.filter_some]
  have quiet : arTaken p s.regs (comes p I false) = none := rfl
  have first : clock p s (comes p I false) = some (cycle p s (comes p I false)) := rfl
  have offers : Offers p req (zeroes p) s (comes p I false) := offers_comes (by rw [slaveR]; exact more)
  generalize reached : cycle p s (comes p I false) = u at first
  have stateU : u.regs.state = .r := by simp [← reached, cycle, next, state, noM]
  have requestU : u.regs.request = req := by simp [← reached, cycle, next, quiet, request]
  have r_cntU : u.regs.r_cnt = NastiReq.finished p req i := by simp [← reached, cycle, next, quiet, noM, r_cnt]
  have r_addrU : u.regs.r_addr = walk p req (i + 1) := by simp [← reached, cycle, next, came, request, r_addr, walk]
  have validU : u.regs.master_r_valid = fillsBeat p req (walk p req i) := by
    simp [← reached, cycle, next, came, request, r_addr]
  have lastU : u.regs.master_r_last = (NastiReq.finished p req i == req.len) := by
    simp [← reached, cycle, next, came, request, r_cnt]
  have slaveRU : u.slaveR = i + 1 := by simp [← reached, cycle, came, slaveR]
  have masterRU : u.masterR.length = NastiReq.finished p req i := by simp [← reached, cycle, noM, masterR]
  -- the word does not fill the beat, so the burst goes on with the next one
  cases fills : fillsBeat p req (walk p req i)
  · have same : NastiReq.finished p req (i + 1) = NastiReq.finished p req i := by rw [NastiReq.finished, fills]; rfl
    rw [fills] at validU
    rw [← same] at r_cntU masterRU open'
    exact ⟨u, .next (.refl _) offers first, slaveRU,
      .inl ⟨stateU, requestU, r_cntU, r_addrU, validU, slaveRU, masterRU, open'⟩⟩
  -- the beat is full, and the master takes it in a cycle of its own
  · have more' : NastiReq.finished p req (i + 1) = NastiReq.finished p req i + 1 := by rw [NastiReq.finished, fills]; rfl
    rw [fills] at validU
    have took : masterRTaken p u.regs (leaves p I) = some ⟨u.regs.request.id, u.regs.master_r_data, u.regs.master_r_last⟩ := by
      simp [masterRTaken, NarrowerReader.masterR, validU, leaves, Option.filter_some]
    have noS : slaveRTaken p u.regs (leaves p I) = none := rfl
    have quietU : arTaken p u.regs (leaves p I) = none := rfl
    have run := Steps.next (.next (.refl _) offers first) (offers_leaves (s := u)) (show clock p u (leaves p I) = _ from rfl)
    refine ⟨_, run, by simp [cycle, noS, slaveRU], ?_⟩
    -- the counter ends the burst with the last beat
    by_cases last : NastiReq.finished p req i = req.len
    · right
      rw [last, beq_self_eq_true] at lastU
      exact ⟨by omega, by simp [cycle, next, stateU, took, lastU]⟩
    · left
      rw [beq_eq_false_iff_ne.mpr last] at lastU
      refine ⟨?_, ?_, ?_, ?_, ?_, ?_, ?_, by omega⟩
      · simp [cycle, next, stateU, took, lastU]
      · simp [cycle, next, quietU, requestU]
      · simp only [cycle, next, took, Option.isSome_some, if_true, r_cntU, more']
        exact Nat.mod_eq_of_lt (by omega)
      · simp [cycle, next, noS, quietU, r_addrU]
      · simp [cycle, next, noS, took]
      · simp [cycle, noS, slaveRU]
      · simp [cycle, took, masterRU, more']

end

section
variable {p} {req : NastiReq I}

def Reached (p : NarrowParams) (req : NastiReq I) (t : System p I) : Prop :=
  Steps (clock p) (Offers p req (zeroes p)) (accepted p (before p req) (asks p req)) t

theorem Transparent.right (transparent : Transparent p req) {t : System p I} (run : Reached p req t) :
    BurstRight p (fun _ => 0) req (zeroes p) t :=
  transparent (before p req) (asks p req) (fun _ => 0) (zeroes p) rfl rfl rfl (serves_zeroes p req) t run

theorem settled_of_transparent (short : req.len < 256) (transparent : Transparent p req) {i : Nat} (more : i < beats p req) :
    ∃ t, Reached p req t ∧ Settled p req i t := by
  induction i with
  | zero => exact settled_start p req
  | succ i ih =>
    obtain ⟨t, run, settled⟩ := ih (by omega)
    obtain ⟨u, steps, count, on | ⟨_, idle⟩⟩ := settled.beat short (by omega)
    · exact ⟨u, run.trans steps, on⟩
    · -- the bridge may not be idle before the slave is done
      have all := ((transparent.right (run.trans steps)).finished idle).2.1
      rw [count, slaveWords_eq] at all
      omega

theorem finished_of_transparent (short : req.len < 256) (transparent : Transparent p req) :
    NastiReq.finished p req (beats p req) = req.len + 1 := by
  have positive : 0 < beats p req := Nat.succ_pos _
  obtain ⟨t, run, settled⟩ := settled_of_transparent short transparent (Nat.sub_lt positive Nat.one_pos)
  obtain ⟨u, steps, count, on | ⟨done, -⟩⟩ := settled.beat short (Nat.sub_lt positive Nat.one_pos)
  · -- nothing is left to come and nothing is shown
    rw [Nat.sub_add_cancel positive] at on
    obtain ⟨state, request, r_cnt, r_addr, valid, slaveR, masterR, open'⟩ := on
    have noM := masterRTaken_of_valid (e := leaves p I) valid
    have noS : slaveRTaken p u.regs (leaves p I) = none := rfl
    have noMore : ¬ u.slaveR < slaveWords p req := by
      rw [slaveR, slaveWords_eq]
      exact Nat.lt_irrefl _
    have progress := (transparent.right (run.trans steps)).progress (leaves p I) offers_leaves
      ⟨rfl, rfl, fun more => absurd more noMore⟩
    have same : rank p req (cycle p u (leaves p I)) = rank p req u := by
      have stateV : (cycle p u (leaves p I)).regs.state = .r := by simp [cycle, next, state, noM]
      have validV : (cycle p u (leaves p I)).regs.master_r_valid = false := by simp [cycle, next, noS, noM, valid]
      have countV : (cycle p u (leaves p I)).slaveR = u.slaveR := by simp [cycle, noS]
      simp only [rank, stateV, state, validV, valid, countV]
    rcases progress with idle | less
    · rw [state] at idle
      cases idle
    · omega
  · rwa [Nat.sub_add_cancel positive] at done

/-- The master takes each beat in the cycle in which the next one comes. -/
structure Streaming (p : NarrowParams) (req : NastiReq I) (i : Nat) (s : System p I) : Prop where
  state : s.regs.state = .r
  request : s.regs.request = req
  r_cnt : s.regs.r_cnt = i
  valid : s.regs.master_r_valid = true
  last : s.regs.master_r_last = false
  slaveR : s.slaveR = i + 1
  masterR : s.masterR.length = i

section
variable (narrow : req.size ≤ p.slave) (short : req.len < 256) (several : req.len ≠ 0)
include narrow short several

theorem streaming {i : Nat} (bound : i ≤ req.len) : ∃ t : System p I, Reached p req t ∧ Streaming p req i t := by
  have single : ratio p req = 1 := if_neg (Nat.not_lt.mpr narrow)
  have fills : ∀ a, fillsBeat p req a = true := by
    intro a
    rw [fillsBeat_iff, single, Nat.mod_one]
  have all : req.len < beats p req := by
    have total := beats_add_offset p req
    have first := offset_lt p req
    rw [single] at total first
    omega
  induction i with
  | zero =>
    obtain ⟨t, run, state, request, r_cnt, r_addr, valid, slaveR, masterR, open'⟩ := settled_start p req
    have noM := masterRTaken_of_valid (e := comes p I true) valid
    have came : slaveRTaken p t.regs (comes p I true) = some (zeroes p 0) := by
      simp [slaveRTaken, slave_r_ready, comes, state, valid, Option.filter_some]
    have quiet : arTaken p t.regs (comes p I true) = none := rfl
    refine ⟨cycle p t (comes p I true), .next run (offers_comes (by omega)) rfl, ?_, ?_, ?_, ?_, ?_, ?_, ?_⟩
    · simp [cycle, next, state, noM]
    · simp [cycle, next, quiet, request]
    · simp [cycle, next, quiet, noM, r_cnt, NastiReq.finished]
    · simp [cycle, next, came, request, fills]
    · simp only [cycle, next, came, Option.isSome_some, if_true, r_cnt, request, NastiReq.finished]
      exact beq_eq_false_iff_ne.mpr several.symm
    · simp [cycle, came, slaveR]
    · simp [cycle, noM, masterR, NastiReq.finished]
  | succ i ih =>
    obtain ⟨t, run, state, request, r_cnt, valid, last, slaveR, masterR⟩ := ih (by omega)
    have came : slaveRTaken p t.regs (comes p I true) = some (zeroes p 0) := by
      simp [slaveRTaken, slave_r_ready, comes, state, Option.filter_some]
    have took : masterRTaken p t.regs (comes p I true) = some ⟨t.regs.request.id, t.regs.master_r_data, t.regs.master_r_last⟩ := by
      simp [masterRTaken, NarrowerReader.masterR, valid, comes, Option.filter_some]
    have quiet : arTaken p t.regs (comes p I true) = none := rfl
    refine ⟨cycle p t (comes p I true), .next run (offers_comes (by omega)) rfl, ?_, ?_, ?_, ?_, ?_, ?_, ?_⟩
    · simp [cycle, next, state, took, last]
    · simp [cycle, next, quiet, request]
    · simp only [cycle, next, took, Option.isSome_some, if_true, r_cnt]
      exact Nat.mod_eq_of_lt (by omega)
    · simp [cycle, next, came, request, fills]
    · -- the counter still lacks the beat that leaves
      simp only [cycle, next, came, Option.isSome_some, if_true, r_cnt, request]
      exact beq_eq_false_iff_ne.mpr (by omega)
    · simp [cycle, came, slaveR]
    · simp [cycle, took, masterR]

/-- The last beat does not carry the last flag. -/
theorem not_transparent_of_streaming : ¬ Transparent p req := by
  intro transparent
  obtain ⟨t, run, state, request, r_cnt, valid, last, slaveR, masterR⟩ := streaming narrow short several (Nat.le_refl _)
  have took : masterRTaken p t.regs (leaves p I) = some ⟨t.regs.request.id, t.regs.master_r_data, t.regs.master_r_last⟩ := by
    simp [masterRTaken, NarrowerReader.masterR, valid, leaves, Option.filter_some]
  have found : (cycle p t (leaves p I)).masterR[req.len]? =
      some ⟨t.regs.request.id, t.regs.master_r_data, t.regs.master_r_last⟩ := by
    simp [cycle, took, ← masterR]
  have flag := ((transparent.right (.next run offers_leaves rfl)).delivered _ _ found).last
  rw [beq_self_eq_true] at flag
  rw [show t.regs.master_r_last = true from flag] at last
  cases last

end

/-- The read bridge serves exactly the requests that the running address serves and in which no two
beats in a row end a beat of the master. -/
theorem transparent_iff_spaced (fits : Accepted p req) :
    Transparent p req ↔ Aligns p req ∧ (p.slave < req.size ∨ req.len = 0) := by
  constructor
  · intro transparent
    refine ⟨?_, ?_⟩
    · by_contra unaligned
      exact finished_ne_of_not_aligns unaligned (finished_of_transparent fits.len transparent)
    · by_contra streams
      rw [not_or] at streams
      exact not_transparent_of_streaming (Nat.not_lt.mp streams.1) fits.len streams.2 transparent
  · rintro ⟨aligns, spaced⟩ m e mem stream idle quiet asked serves t run
    have right := walksRight_of_aligns aligns
    exact burstRight_of_along fits right (along_of_run fits right spaced serves idle quiet asked run)

end

/-- 64 to 32 bits, a burst of two double words at an odd word. -/
theorem transparent_iff_spaced_of_double : Transparent ⟨3, 2, by decide⟩ (⟨(), 0x14, 1, 3⟩ : NastiReq Unit) :=
  (transparent_iff_spaced ⟨by decide, by decide, by decide⟩).mpr ⟨.inl (by decide), .inl (by decide)⟩

/-- 64 to 32 bits, a burst of two words. -/
theorem not_transparent_two_words : ¬ Transparent ⟨3, 2, by decide⟩ (⟨(), 0, 1, 2⟩ : NastiReq Unit) :=
  not_transparent_of_streaming (by decide) (by decide) (by decide)

end NarrowerReader

end LowRisc.Socip
