import LowRisc.Pfc.Manager
import LowRisc.Rocket.Csr

/-! The client of the performance counters in `CSRFile`.

Software selects counters with `pfcm`, asks with a write of `pfcc`, and reads the values one by
one from `pfcr`. One call of `next` is one clock edge; where the source assigns a register more
than once, the later assignment is the outer case.
-/

set_option autoImplicit false

namespace LowRisc.Pfc

open LowRisc.Chisel LowRisc.Lib LowRisc.Rocket

/-- The instruction at the write back stage, as the register file sees it. -/
structure CsrPort where
  addr : BitVec 12
  cmd : BitVec 3
  wdata : Word
  prv : BitVec 2
  retire : Bool
  deriving DecidableEq

namespace CsrPort

variable (p : CsrPort)

def privSufficient : Bool := decide ((p.addr.extractLsb' 8 2).toNat ≤ p.prv.toNat)
def cpuRen : Bool := p.cmd != CSR.N && p.cmd != CSR.I
def cpuWen : Bool := p.cpuRen && p.cmd != CSR.R && p.privSufficient
def wen : Bool := p.cpuWen && !(p.addr.extractLsb' 10 2 == 3#2)
/-- The value to write, from the value that the addressed register holds. -/
def written (rdata : Word) : Word :=
  if p.cmd == CSR.S then rdata ||| p.wdata else if p.cmd == CSR.C then rdata &&& ~~~p.wdata else p.wdata
def insnCall : Bool := p.privSufficient && p.cmd == CSR.I && p.addr.extractLsb' 0 3 == 0#3

/-- `pfc_acqbsof`: software writes `pfcc`. -/
def acqbsof : Bool := p.wen && p.addr == CSRs.pfcc
/-- `read_en`: a retired instruction with the number of `pfcr` in its upper bits. -/
def readEn : Bool := p.addr == CSRs.pfcr && p.retire
/-- A retired access to `pfcr`. -/
def reads : Bool := p.readEn && p.cpuRen

end CsrPort

structure PfcClient where
  regPfcr : Word
  regPfcc : Word
  regPfcm : Word
  readCoun : Nat
  respCoun : Nat
  respArray : Nat → Word
  reqfired : Bool
  respfired : Bool
  reqfinish : Bool
  programID : Nat
  findst : Nat
  pfcrError : Bool

/-- The control register: mode, type and number of the manager above four flags. -/
def pfccOf (upper : BitVec 60) (readError empty interrupted trigger : Bool) : Word :=
  upper ++ (BitVec.ofBool readError ++ BitVec.ofBool empty ++ BitVec.ofBool interrupted ++ BitVec.ofBool trigger)

namespace PfcClient

variable (managerIDs id : Nat) (c : PfcClient)

def trigger : Bool := c.regPfcc.getLsbD 0
def readErrorFlag : Bool := c.regPfcc.getLsbD 3
def pfcMtype : Nat := (c.regPfcc.extractLsb' 52 8).toNat
def pfcMID : Nat := (c.regPfcc.extractLsb' 10 42).toNat
/-- The port of the manager on the network; there are three types of managers. -/
def reqdst : Nat := c.pfcMtype % 2 ^ log2Up 3 * 2 ^ log2Up managerIDs + c.pfcMID % 2 ^ log2Up managerIDs

def empty : Bool := !c.respfired || decide (c.respCoun < c.readCoun)

def reqValid (p : CsrPort) : Bool := if p.acqbsof then c.reqfinish else (c.trigger && !c.reqfired) || c.reqfinish

def reqBits : PFCReq where
  src := id
  dst := if c.reqfinish then c.findst else c.reqdst managerIDs
  cmd := if c.reqfinish then 1 else 0
  bitmap := c.regPfcm.toNat
  programID := c.programID

def respReady (p : CsrPort) : Bool := if p.acqbsof then false else !c.reqfinish

def pidMatch (r : PFCResp) : Bool := r.programID == c.programID

/-- The response that the client takes, when its program number is right. -/
def stored (resp : Option PFCResp) : Option PFCResp := resp.filter c.pidMatch

def respdone (resp : Option PFCResp) : Bool := (c.stored resp).any PFCResp.last

def readError (p : CsrPort) : Bool := (c.pfcrError && p.readEn) || c.readErrorFlag

/-- The edge behind a cycle in which the request is taken or not and a response is taken. -/
def next (p : CsrPort) (reqFire : Bool) (resp : Option PFCResp) : PfcClient where
  regPfcr :=
    if p.readEn then c.respArray c.readCoun
    else if (c.stored resp).any PFCResp.first then ((c.stored resp).map PFCResp.data).getD 0 else c.regPfcr
  regPfcc :=
    if p.acqbsof then
      let wdata := p.written c.regPfcc
      pfccOf (wdata.extractLsb' 4 60) false true false (wdata.getLsbD 0)
    else pfccOf (c.regPfcc.extractLsb' 4 60) (c.readError p) c.empty p.insnCall
      (if c.respdone resp then false else c.trigger)
  regPfcm :=
    if reqFire && !c.reqfinish then 0
    else match c.stored resp with
      | some r => c.regPfcm ||| 1#64 <<< (r.bitmapUI % 64)
      | none => if p.wen && p.addr == CSRs.pfcm then p.written c.regPfcm else c.regPfcm
  readCoun :=
    if p.readEn then (c.readCoun + 1) % 64 else if (c.stored resp).any PFCResp.first then 0 else c.readCoun
  respCoun :=
    if (c.stored resp).any PFCResp.first then 0
    else if (c.stored resp).isSome then (c.respCoun + 1) % 64 else c.respCoun
  respArray :=
    match c.stored resp with
    | some r => upd c.respArray c.respCoun r.data
    | none => c.respArray
  reqfired := if reqFire then !c.reqfinish else c.reqfired
  respfired := if (c.stored resp).isSome then true else if p.acqbsof then false else c.respfired
  reqfinish :=
    if reqFire && c.reqfinish then false
    else if c.respdone resp then true
    else if p.acqbsof && c.trigger && c.reqfired && !c.reqfinish then true else c.reqfinish
  programID := if reqFire && c.reqfinish then (c.programID + 1) % 16 else c.programID
  findst := if reqFire && !c.reqfinish then c.reqdst managerIDs else c.findst
  pfcrError :=
    if p.readEn then decide (c.respCoun ≤ c.readCoun) else if p.acqbsof then false else c.pfcrError

end PfcClient

end LowRisc.Pfc
