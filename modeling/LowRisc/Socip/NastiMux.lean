import LowRisc.Lib.Transition
import LowRisc.Socip.Arbiter

/-! The NASTI multiplexer: eight master ports share one slave.

Addresses, data and responses pass through unchanged, so a beat is modelled by its id,
its last flag and a payload.
-/

set_option autoImplicit false

namespace LowRisc.Socip

open LowRisc.Lib

structure AddrBeat (I P : Type) where
  id : I
  payload : P
  deriving DecidableEq, Repr

structure DataBeat (P : Type) where
  last : Bool
  payload : P
  deriving DecidableEq, Repr

structure Slot (I : Type) where
  valid : Bool
  id : I
  port : Nat
  deriving DecidableEq, Repr

/-- `LITE_MODE`, `W_MAX` and `R_MAX`. -/
structure MuxParams where
  lite : Bool
  wMax : Nat
  rMax : Nat

structure MuxRegs (I : Type) where
  write_vec : Nat → Slot I
  read_vec : Nat → Slot I
  lock : Bool
  locked_port : Nat
  aw_arb : ArbiterRr
  ar_arb : ArbiterRr

/-- The inputs of one cycle: the valid beats of each master port, the ready signals of
the ports, and the slave. -/
structure MuxInput (I P : Type) where
  aw : Nat → Option (AddrBeat I P)
  w : Nat → Option (DataBeat P)
  ar : Nat → Option (AddrBeat I P)
  b_ready : Nat → Bool
  r_ready : Nat → Bool
  aw_ready : Bool
  w_ready : Bool
  ar_ready : Bool
  b : Option I
  r : Option (I × Bool)

namespace NastiMux

variable {I P : Type} [DecidableEq I]

/-- The lowest index below `n` with the property, zero without one. -/
def lowest (n : Nat) (x : Nat → Bool) : Nat := ((List.range n).find? x).getD 0

def full (n : Nat) (vec : Nat → Slot I) : Bool := (List.range n).all fun i => (vec i).valid

/-- `get_write_wp`, `get_read_wp`: the first free record. -/
def wp (n : Nat) (vec : Nat → Slot I) : Nat := lowest n fun i => !(vec i).valid

/-- `toInt`: the granted port, zero without a grant. -/
def toInt (gnt : Nat → Bool) : Nat := lowest 8 gnt

/-- `write_match_index`, `read_match_index`: the first record with the id of the response. -/
def matchIndex (n : Nat) (vec : Nat → Slot I) (id : I) : Nat :=
  lowest n fun i => (vec i).valid && (vec i).id == id

def awEnable (p : MuxParams) (m : MuxRegs I) : Bool := !m.lock && !full p.wMax m.write_vec

def aw_port_sel (p : MuxParams) (m : MuxRegs I) (e : MuxInput I P) : Nat :=
  if m.lock then m.locked_port
  else toInt (m.aw_arb.gnt 8 (fun i => (e.aw i).isSome) (awEnable p m))

def ar_port_sel (p : MuxParams) (m : MuxRegs I) (e : MuxInput I P) : Nat :=
  toInt (m.ar_arb.gnt 8 (fun i => (e.ar i).isSome) (!full p.rMax m.read_vec))

/-! Beats the master ports see accepted, and beats the slave sees and accepts. -/

def awAccepted (p : MuxParams) (m : MuxRegs I) (e : MuxInput I P) : Option (Nat × AddrBeat I P) :=
  if e.aw_ready then (e.aw (aw_port_sel p m e)).map fun x => (aw_port_sel p m e, x) else none

def awPresented (p : MuxParams) (m : MuxRegs I) (e : MuxInput I P) : Option (Nat × AddrBeat I P) :=
  if !m.lock then awAccepted p m e else none

def wAccepted (p : MuxParams) (m : MuxRegs I) (e : MuxInput I P) : Option (Nat × DataBeat P) :=
  if e.w_ready then (e.w (aw_port_sel p m e)).map fun x => (aw_port_sel p m e, x) else none

def wPresented (p : MuxParams) (m : MuxRegs I) (e : MuxInput I P) : Option (Nat × DataBeat P) :=
  if m.lock then wAccepted p m e else none

def arAccepted (p : MuxParams) (m : MuxRegs I) (e : MuxInput I P) : Option (Nat × AddrBeat I P) :=
  if e.ar_ready then (e.ar (ar_port_sel p m e)).map fun x => (ar_port_sel p m e, x) else none

/-- The read address channel has no lock: both sides see the same handshake. -/
def arPresented (p : MuxParams) (m : MuxRegs I) (e : MuxInput I P) : Option (Nat × AddrBeat I P) :=
  arAccepted p m e

def bPort (p : MuxParams) (m : MuxRegs I) (id : I) : Nat :=
  (m.write_vec (matchIndex p.wMax m.write_vec id)).port

def rPort (p : MuxParams) (m : MuxRegs I) (id : I) : Nat :=
  (m.read_vec (matchIndex p.rMax m.read_vec id)).port

def bTaken (p : MuxParams) (m : MuxRegs I) (e : MuxInput I P) : Option I :=
  e.b.filter fun id => e.b_ready (bPort p m id)

def rTaken (p : MuxParams) (m : MuxRegs I) (e : MuxInput I P) : Option (I × Bool) :=
  e.r.filter fun beat => e.r_ready (rPort p m beat.1)

/-! Next values. -/

/-- The record of an accepted address, then the release by a response. -/
def nextVec (n : Nat) (vec : Nat → Slot I) (accepted : Option (Nat × I)) (released : Option I) :
    Nat → Slot I :=
  let stored := match accepted with
    | some (port, id) => upd vec (wp n vec) ⟨true, id, port⟩
    | none => vec
  match released with
  | some id =>
    let k := matchIndex n vec id
    upd stored k { stored k with valid := false }
  | none => stored

/-- A write data beat that ends its burst. -/
def endsBurst (p : MuxParams) (x : DataBeat P) : Bool := p.lite || x.last

def next (p : MuxParams) (m : MuxRegs I) (e : MuxInput I P) : MuxRegs I where
  write_vec := nextVec p.wMax m.write_vec ((awPresented p m e).map fun x => (x.1, x.2.id)) (bTaken p m e)
  read_vec := nextVec p.rMax m.read_vec ((arPresented p m e).map fun x => (x.1, x.2.id))
    ((rTaken p m e).map Prod.fst)
  lock :=
    if (awAccepted p m e).isSome then true
    else if (wAccepted p m e).any fun x => endsBurst p x.2 then false
    else m.lock
  locked_port := if (awAccepted p m e).isSome then aw_port_sel p m e else m.locked_port
  aw_arb := m.aw_arb.next 8 (fun i => (e.aw i).isSome) (awEnable p m)
  ar_arb := m.ar_arb.next 8 (fun i => (e.ar i).isSome) (!full p.rMax m.read_vec)

end NastiMux

end LowRisc.Socip
