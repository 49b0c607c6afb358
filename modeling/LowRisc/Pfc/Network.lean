import LowRisc.Pfc.Client

/-! Clients and managers of the performance counters on their network.

`BasicCrossbar` has an arbiter for each output. The arbiters of the request network lock to a
client for two transfers; those of the response network do not lock. A cycle takes any choice
that the arbiters may make. Next to the hardware the state keeps the values that the counters
had in every cycle and what each client asked for and read.
-/

set_option autoImplicit false

namespace LowRisc.Pfc

open LowRisc.Chisel LowRisc.Lib LowRisc.Rocket

/-- The latest request of a client and what software read of its answer. -/
structure Ledger where
  /-- requests so far -/
  serial : Nat
  /-- the cycle, the manager and the bitmap of the latest request -/
  sentAt : Nat
  target : Nat
  bitmap : Nat
  /-- the cycle in which the last response cleared the trigger bit -/
  doneAt : Option Nat
  /-- the values read since then, oldest first -/
  values : List Word

structure PfcConfig where
  /-- counters of the manager at each port -/
  nCounters : Nat → Nat
  nCounters_le : ∀ m, nCounters m ≤ 64
  managerIDs : Nat

structure PfcSystem where
  clients : Nat → PfcClient
  managers : Nat → PFCManager
  /-- the client that the request port of a manager is locked to -/
  locks : Nat → Option Nat
  now : Nat
  /-- the counters of a manager in an earlier cycle -/
  history : Nat → Nat → Nat → Word
  ledgers : Nat → Ledger
  /-- the client and the serial number of the request that a manager took last -/
  served : Nat → Nat × Nat

structure PfcInput where
  ports : Nat → CsrPort
  /-- the choice of the arbiter at the request port of a manager -/
  reqFrom : Nat → Option Nat
  /-- the choice of the arbiter at the response port of a client -/
  respFrom : Nat → Option Nat
  update : Nat → Nat → BitVec 2

namespace PfcSystem

variable (cfg : PfcConfig) (s : PfcSystem) (inp : PfcInput)

def request (i : Nat) : PFCReq := (s.clients i).reqBits cfg.managerIDs i

def reqAt (m : Nat) : Option Nat :=
  (inp.reqFrom m).filter fun i => (s.clients i).reqValid (inp.ports i) && (s.request cfg i).dst == m
    && (s.locks m).all (· == i)

def respAt (i : Nat) : Option Nat :=
  (inp.respFrom i).filter fun m => (s.managers m).responding && (s.managers m).reqReg.src == i
    && (s.clients i).respReady (inp.ports i)

def reqFire (i : Nat) : Bool := s.reqAt cfg inp (s.request cfg i).dst == some i
def respFire (m : Nat) : Bool := s.respAt inp (s.managers m).reqReg.src == some m
def resp (i : Nat) : Option PFCResp := (s.respAt inp i).map fun m => (s.managers m).resp (cfg.nCounters m)

def nextLedger (i : Nat) : Ledger :=
  let l := s.ledgers i
  let c := s.clients i
  let asked :=
    if s.reqFire cfg inp i && !c.reqfinish then
      { l with serial := l.serial + 1, sentAt := s.now, target := (s.request cfg i).dst, bitmap := c.regPfcm.toNat }
    else l
  if (inp.ports i).acqbsof then { asked with doneAt := none, values := [] }
  else if c.respdone (s.resp cfg inp i) then { asked with doneAt := some s.now, values := [] }
  else if (inp.ports i).reads then { asked with values := l.values ++ [c.regPfcr] }
  else asked

def cycle : PfcSystem where
  clients i := (s.clients i).next cfg.managerIDs (inp.ports i) (s.reqFire cfg inp i) (s.resp cfg inp i)
  managers m := (s.managers m).next (cfg.nCounters m) ((s.reqAt cfg inp m).map (s.request cfg)) (s.respFire inp m) (inp.update m)
  locks m :=
    match s.reqAt cfg inp m with
    | some i => if (s.locks m).isSome then none else some i
    | none => s.locks m
  now := s.now + 1
  history := upd s.history s.now fun m => (s.managers m).pfcounters
  ledgers := s.nextLedger cfg inp
  served m :=
    match s.reqAt cfg inp m with
    | some i => if (s.clients i).reqfinish then s.served m else (i, (s.ledgers i).serial + 1)
    | none => s.served m

def step : Option PfcSystem := some (s.cycle cfg inp)

structure OnReset : Prop where
  regPfcc : ∀ i, (s.clients i).regPfcc = 0
  reqfired : ∀ i, (s.clients i).reqfired = false
  reqfinish : ∀ i, (s.clients i).reqfinish = false
  responding : ∀ m, (s.managers m).responding = false
  locks : ∀ m, s.locks m = none
  doneAt : ∀ i, (s.ledgers i).doneAt = none

/-- A request that client `i` sends selects a counter of its manager. -/
def selects (i : Nat) : Bool :=
  !(s.reqFire cfg inp i && !(s.clients i).reqfinish)
    || !(selected (cfg.nCounters (s.request cfg i).dst) (s.clients i).regPfcm.toNat).isEmpty

/-- Software of client `i` does not read `pfcr` while its request is on the way. -/
def patient (i : Nat) : Bool := !(inp.ports i).reads || (s.ledgers i).doneAt.isSome || !(s.clients i).trigger

/-- From the start of a request on, only accesses to `pfcr` retire with its number. -/
def undisturbed (i : Nat) : Bool :=
  !(inp.ports i).readEn || (inp.ports i).cpuRen || !((s.ledgers i).doneAt.isSome || (s.clients i).trigger)

end PfcSystem

end LowRisc.Pfc
