import LowRisc.Lib.Transition
import LowRisc.Socip.NastiRouting
import LowRisc.Socip.ByteLanes

/-! The bridges from a lite master to a NASTI slave, `lite_nasti_reader` and `lite_nasti_writer`.

A bus of `2 ^ b` bytes is given by `b`. A transaction record is a `Slot`; where the source
records an address with it, the address is in the third field. The user and protection fields
are copied and left out.
-/

set_option autoImplicit false

namespace LowRisc.Socip

open LowRisc.Lib NastiMux

/-- `MAX_TRANSACTION` and the two bus widths. -/
structure LiteParams where
  maxTransaction : Nat
  nb : Nat
  lb : Nat

namespace LiteParams

variable (p : LiteParams)

/-- `BUF_DATA_WIDTH`. -/
def bufB : Nat := min p.nb p.lb

/-- `nasti_packet_size`: the beats of a NASTI burst that carry one lite word. -/
def packetSize : Nat := 2 ^ (p.lb - p.bufB)

end LiteParams

/-- `addr[NASTI_W_BITS-1:LITE_W_BITS]`. -/
def LiteParams.lane (p : LiteParams) (addr : Nat) : Nat := addr / 2 ^ p.lb % 2 ^ (p.nb - p.lb)

def nasti_addr (p : LiteParams) (addr : Nat) : Nat :=
  if p.nb = p.bufB then addr else addr / 2 ^ p.nb * 2 ^ p.nb

/-- `conflict_match`, `resp_match`, reduced. -/
def recorded {I : Type} [DecidableEq I] (n : Nat) (vec : Nat → Slot I) (id : I) : Bool :=
  (List.range n).any fun i => (vec i).valid && (vec i).id == id

namespace LiteReader

variable {I : Type} [DecidableEq I]

structure Regs (I : Type) where
  vec : Nat → Slot I
  xact_data_cnt : Nat → Nat
  xact_resp : Nat → BitVec 2

structure RBeat (I : Type) (b : Nat) where
  id : I
  data : Bus b
  resp : BitVec 2
  last : Bool

/-- One cycle. `beyond` is the value of the part-select `[MAX_BURST_SIZE-1:1]` of the data buffer:
it is used when the NASTI side is the narrow one, and there its bounds are reversed. -/
structure Input (p : LiteParams) (I : Type) where
  ar : Option (I × Nat)
  r_ready : Bool
  ar_ready : Bool
  r : Option (RBeat I p.nb)
  beyond : Bus p.lb

structure LiteR (I : Type) (b : Nat) where
  id : I
  data : Bus b
  resp : BitVec 2

def combine_resp (old new : BitVec 2) : BitVec 2 := if old < new then new else old

def lite_data (p : LiteParams) (data : Bus p.nb) (addr : Nat) : Bus p.bufB :=
  if p.nb = p.bufB then data.setWidth _ else (data >>> (8 * 2 ^ p.bufB * p.lane addr)).setWidth _

variable (p : LiteParams) (m : Regs I) (e : Input p I)

/-- An address passes when a record is free and its id is not in use. -/
def nastiAr : Option (I × Nat) :=
  (e.ar.filter fun x => !full p.maxTransaction m.vec && !recorded p.maxTransaction m.vec x.1).map
    fun x => (x.1, nasti_addr p x.2)

/-- The address that both sides see accepted, as the lite side gave it. -/
def arTaken : Option (I × Nat) :=
  e.ar.filter fun x =>
    !full p.maxTransaction m.vec && !recorded p.maxTransaction m.vec x.1 && e.ar_ready

def respIndex (id : I) : Nat := matchIndex p.maxTransaction m.vec id

/-- `nasti_r_ready` is `|resp_match`: it does not look at `lite_r_ready`. -/
def rTaken : Option (RBeat I p.nb) := e.r.filter fun x => recorded p.maxTransaction m.vec x.id

def lite_r_data (x : RBeat I p.nb) : Bus p.lb :=
  if p.packetSize = 1 then (lite_data p x.data (m.vec (respIndex p m x.id)).port).setWidth _
  else e.beyond <<< (8 * 2 ^ p.nb) ||| x.data.setWidth _

def liteR : Option (LiteR I p.lb) :=
  (e.r.filter fun x => recorded p.maxTransaction m.vec x.id &&
      (p.packetSize == 1 || m.xact_data_cnt (respIndex p m x.id) == p.packetSize - 1)).map
    fun x =>
      { id := x.id
        data := lite_r_data p m e x
        resp := if p.packetSize = 1 then x.resp else combine_resp (m.xact_resp (respIndex p m x.id)) x.resp }

def liteRTaken : Option (LiteR I p.lb) := if e.r_ready then liteR p m e else none

/-- The free record indexes the beat count, also when a response is counted. -/
def next : Regs I where
  vec := nextVec p.maxTransaction m.vec ((arTaken p m e).map fun x => (x.2, x.1))
    ((liteRTaken p m e).map LiteR.id)
  xact_data_cnt :=
    let w := wp p.maxTransaction m.vec
    if (rTaken p m e).isSome then upd m.xact_data_cnt w ((m.xact_data_cnt w + 1) % (2 * 2 ^ (p.nb - p.bufB)))
    else if (arTaken p m e).isSome then upd m.xact_data_cnt w 0
    else m.xact_data_cnt
  xact_resp :=
    let cleared := if (arTaken p m e).isSome then upd m.xact_resp (wp p.maxTransaction m.vec) 0 else m.xact_resp
    match rTaken p m e with
    | some x =>
      upd cleared (respIndex p m x.id) (combine_resp (m.xact_resp (respIndex p m x.id)) x.resp)
    | none => cleared

/-! The bridge with the reads that each side still waits for. -/

structure System (I : Type) where
  regs : Regs I
  /-- Accepted lite reads without a response. -/
  liteOpen : List (I × Nat)
  /-- Bursts that the NASTI slave has to answer. -/
  nastiOpen : List (I × Nat)

def cycle (s : System I) (e : Input p I) : System I where
  regs := next p s.regs e
  liteOpen := retired s.liteOpen ((liteRTaken p s.regs e).map LiteR.id) ++ (arTaken p s.regs e).toList
  nastiOpen := retired s.nastiOpen (((rTaken p s.regs e).filter RBeat.last).map RBeat.id)
    ++ ((nastiAr p s.regs e).filter fun _ => e.ar_ready).toList

def clock (s : System I) (e : Input p I) : Option (System I) := some (cycle p s e)

/-- A slave that answers only what it was asked. -/
def Legal (s : System I) (e : Input p I) : Prop :=
  ∀ x, e.r = some x → x.id ∈ s.nastiOpen.map Prod.fst ∧ (p.packetSize = 1 → x.last = true)

/-- The lite master takes a response when it comes, and reads only over a bus that is wide enough. -/
def Prompt (s : System I) (e : Input p I) : Prop :=
  ((liteR p s.regs e).isSome → e.r_ready = true) ∧ (p.lb ≤ p.nb ∨ e.ar = none)

def Starts (s : System I) : Prop := (∀ i, (s.regs.vec i).valid = false) ∧ s.liteOpen = [] ∧ s.nastiOpen = []

/-- No response is lost: the two sides wait for the same reads, one for each id. -/
structure Agrees (s : System I) : Prop where
  same : s.nastiOpen = s.liteOpen.map fun x => (x.1, nasti_addr p x.2)
  distinct : (s.liteOpen.map Prod.fst).Nodup

/-- An answer of the slave is passed on to the read with its id, with the word at the address of
that read: whatever memory the beat shows, the word shows. -/
def PassesOn (s : System I) (e : Input p I) : Prop :=
  ∀ x, e.r = some x → ∃ addr word, (x.id, addr) ∈ s.liteOpen ∧ liteR p s.regs e = some ⟨x.id, word, x.resp⟩ ∧
    ∀ mem : Nat → BitVec 8,
      (∀ j < 2 ^ p.nb, byteOf x.data j = mem (nasti_addr p addr / 2 ^ p.nb * 2 ^ p.nb + j)) →
      ∀ j < 2 ^ p.lb, byteOf word j = mem (addr / 2 ^ p.lb * 2 ^ p.lb + j)

end LiteReader

namespace LiteWriter

variable {I : Type} [DecidableEq I]

structure LiteW (b : Nat) where
  data : Bus b
  strb : BitVec (2 ^ b)

structure NastiW (b : Nat) where
  data : Bus b
  strb : BitVec (2 ^ b)
  last : Bool

/-- The records hold no address here, so their third field is zero. -/
structure Regs (p : LiteParams) (I : Type) where
  vec : Nat → Slot I
  lock : Bool
  xact_addr : Nat
  xact_data : Bus p.lb
  xact_strb : BitVec (2 ^ p.lb)
  xact_data_cnt : Nat

structure Input (p : LiteParams) (I : Type) where
  aw : Option (I × Nat)
  w : Option (LiteW p.lb)
  b_ready : Bool
  aw_ready : Bool
  w_ready : Bool
  b : Option (I × BitVec 2)

def nasti_wmask (p : LiteParams) (mask : BitVec (2 ^ p.lb)) (addr : Nat) : BitVec (2 ^ p.nb) :=
  if p.nb = p.bufB then mask.setWidth _ else mask.setWidth _ <<< (2 ^ p.bufB * p.lane addr)

def nasti_data (p : LiteParams) (data : Bus p.nb) (addr : Nat) : Bus p.nb :=
  if p.nb = p.bufB then data else data <<< (8 * 2 ^ p.bufB * p.lane addr)

variable (p : LiteParams)

/-- Beat `k` of the burst for a lite word: the first comes from the lite bus, the others from the
buffer of the word. -/
def beatOf (addr : Nat) (w : LiteW p.lb) (k : Nat) : NastiW p.nb where
  data :=
    if k = 0 then nasti_data p (w.data.setWidth _) addr
    else (w.data.extractLsb' (8 * 2 ^ p.bufB * k) (8 * 2 ^ p.bufB)).setWidth _
  strb :=
    if k = 0 then nasti_wmask p w.strb addr
    else (w.strb.extractLsb' (2 ^ p.bufB * k) (2 ^ p.bufB)).setWidth _
  last := k == p.packetSize - 1

variable (m : Regs p I) (e : Input p I)

def nastiAw : Option (I × Nat) :=
  (e.aw.filter fun x =>
      !m.lock && !full p.maxTransaction m.vec && !recorded p.maxTransaction m.vec x.1).map
    fun x => (x.1, nasti_addr p x.2)

def awTaken : Option (I × Nat) :=
  e.aw.filter fun x =>
    !m.lock && !full p.maxTransaction m.vec && !recorded p.maxTransaction m.vec x.1 && e.aw_ready

/-- `lite_w_ready` follows the NASTI side, whichever beat of the burst is on the bus. -/
def wTaken : Option (LiteW p.lb) := e.w.filter fun _ => m.lock && e.w_ready

def nastiW : Option (NastiW p.nb) :=
  if !m.lock then none
  else if m.xact_data_cnt = 0 then e.w.map fun w => beatOf p m.xact_addr w 0
  else if m.xact_data_cnt ≠ p.packetSize then
    some (beatOf p m.xact_addr ⟨m.xact_data, m.xact_strb⟩ m.xact_data_cnt)
  else none

def nastiWTaken : Option (NastiW p.nb) := (nastiW p m e).filter fun _ => e.w_ready

/-- `nasti_b_ready` is `|resp_match`: it does not look at `lite_b_ready`. -/
def bTaken : Option (I × BitVec 2) := e.b.filter fun x => recorded p.maxTransaction m.vec x.1

def liteB : Option (I × BitVec 2) := e.b.filter fun x => recorded p.maxTransaction m.vec x.1

def liteBTaken : Option (I × BitVec 2) := (liteB p m e).filter fun _ => e.b_ready

def next : Regs p I where
  vec := nextVec p.maxTransaction m.vec ((awTaken p m e).map fun x => (0, x.1)) ((liteBTaken p m e).map Prod.fst)
  lock :=
    if (awTaken p m e).isSome then true
    else if (nastiWTaken p m e).any NastiW.last then false
    else m.lock
  xact_addr := ((awTaken p m e).map Prod.snd).getD m.xact_addr
  xact_data := ((wTaken p m e).map LiteW.data).getD m.xact_data
  xact_strb := ((wTaken p m e).map LiteW.strb).getD m.xact_strb
  xact_data_cnt :=
    if (awTaken p m e).isSome then 0
    else if (nastiWTaken p m e).isSome && decide (1 < p.packetSize) then
      (m.xact_data_cnt + 1) % (2 * p.packetSize)
    else m.xact_data_cnt

/-! The bridge with what passed on each side. -/

structure System (p : LiteParams) (I : Type) where
  regs : Regs p I
  liteAw : List (I × Nat)
  liteW : List (LiteW p.lb)
  nastiAw : List (I × Nat)
  nastiW : List (NastiW p.nb)
  /-- The ids of accepted lite writes without a response. -/
  liteOpen : List (I × Nat)
  /-- The ids of bursts that the NASTI slave has to answer. -/
  nastiOpen : List (I × Nat)

def cycle (s : System p I) (e : Input p I) : System p I where
  regs := next p s.regs e
  liteAw := s.liteAw ++ (awTaken p s.regs e).toList
  liteW := s.liteW ++ (wTaken p s.regs e).toList
  nastiAw := s.nastiAw ++ ((nastiAw p s.regs e).filter fun _ => e.aw_ready).toList
  nastiW := s.nastiW ++ (nastiWTaken p s.regs e).toList
  liteOpen := retired s.liteOpen ((liteBTaken p s.regs e).map Prod.fst)
    ++ ((awTaken p s.regs e).map fun x => (x.1, 0)).toList
  nastiOpen := retired s.nastiOpen ((bTaken p s.regs e).map Prod.fst)
    ++ (((nastiAw p s.regs e).filter fun _ => e.aw_ready).map fun x => (x.1, 0)).toList

def clock (s : System p I) (e : Input p I) : Option (System p I) := some (cycle p s e)

def Legal (s : System p I) (e : Input p I) : Prop := ∀ x, e.b = some x → x.1 ∈ s.nastiOpen.map Prod.fst

/-- The lite master takes a response when it comes, offers no data while the later beats of a burst
are sent, and addresses the first NASTI word of a lite word. -/
def Prompt (s : System p I) (e : Input p I) : Prop :=
  ((liteB p s.regs e).isSome → e.b_ready = true) ∧
  (s.regs.lock = true → s.regs.xact_data_cnt ≠ 0 → e.w = none) ∧
  ∀ x, e.aw = some x → x.2 % 2 ^ p.lb < 2 ^ p.nb

def Starts (s : System p I) : Prop :=
  (∀ i, (s.regs.vec i).valid = false) ∧ s.regs.lock = false ∧ s.liteAw = [] ∧ s.liteW = [] ∧
    s.nastiAw = [] ∧ s.nastiW = [] ∧ s.liteOpen = [] ∧ s.nastiOpen = []

def liteBytes (addr : Nat) (w : LiteW p.lb) : List (Nat × BitVec 8) :=
  strobed (addr / 2 ^ p.lb * 2 ^ p.lb) w.data w.strb

def nastiBytes (addr : Nat) (beats : List (NastiW p.nb)) : List (Nat × BitVec 8) :=
  beats.zipIdx.flatMap fun x =>
    strobed (addr / 2 ^ p.nb * 2 ^ p.nb + x.2 * 2 ^ p.nb) x.1.data x.1.strb

/-- The beats carry the lite word: as many as the burst has, the last one marked, and the same
bytes at the same addresses. -/
structure Carries (addr : Nat) (w : LiteW p.lb) (beats : List (NastiW p.nb)) : Prop where
  length : beats.length = p.packetSize
  last : beats.map NastiW.last = (List.range p.packetSize).map (· == p.packetSize - 1)
  bytes : nastiBytes p (nasti_addr p addr) beats = liteBytes p addr w

/-- The NASTI side received one burst for each lite write, in order, and waits for the same
responses. -/
structure Agrees (s : System p I) : Prop where
  addresses : s.nastiAw = s.liteAw.map fun x => (x.1, nasti_addr p x.2)
  bursts : ∃ (bursts : List (List (NastiW p.nb))) (rest : List (NastiW p.nb)), s.nastiW = bursts.flatten ++ rest ∧
    (∀ (k : Nat) beats, bursts[k]? = some beats →
      ∃ (a : I × Nat) (w : LiteW p.lb), s.liteAw[k]? = some a ∧ s.liteW[k]? = some w ∧ Carries p a.2 w beats) ∧
    (s.regs.lock = false → rest = [] ∧ s.liteAw.length = bursts.length ∧ s.liteW.length = bursts.length)
  same : s.nastiOpen = s.liteOpen
  distinct : (s.liteOpen.map Prod.fst).Nodup

end LiteWriter

end LowRisc.Socip
