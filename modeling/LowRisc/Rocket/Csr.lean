import LowRisc.Lib.Transition
import LowRisc.Chisel.Util

/-! The control and status registers of the core.

One call of `cycle` is one clock cycle of `CSRFile`. Within a cycle the assignments
follow the order of the source, so a later `when` overrides an earlier one. The
performance counter client, the RoCC unit and the custom registers are seen only
through the values they present on a read.
-/

set_option autoImplicit false

namespace LowRisc.Rocket

open LowRisc.Lib LowRisc.Chisel

namespace PRV

def U : BitVec 2 := 0
def S : BitVec 2 := 1
def M : BitVec 2 := 3

end PRV

namespace CSR

def N : BitVec 3 := 0
def W : BitVec 3 := 1
def S : BitVec 3 := 2
def C : BitVec 3 := 3
def I : BitVec 3 := 4
def R : BitVec 3 := 5

end CSR

namespace Causes

def misaligned_fetch : Nat := 0x0
def fault_fetch : Nat := 0x1
def illegal_instruction : Nat := 0x2
def breakpoint : Nat := 0x3
def misaligned_load : Nat := 0x4
def fault_load : Nat := 0x5
def misaligned_store : Nat := 0x6
def fault_store : Nat := 0x7
def user_ecall : Nat := 0x8
def tag_check_failure : Nat := 0x10

end Causes

namespace CSRs

def fflags : BitVec 12 := 0x001
def frm : BitVec 12 := 0x002
def fcsr : BitVec 12 := 0x003
def cycle : BitVec 12 := 0xc00
def time : BitVec 12 := 0xc01
def instret : BitVec 12 := 0xc02
def sstatus : BitVec 12 := 0x100
def sie : BitVec 12 := 0x104
def stvec : BitVec 12 := 0x105
def sscratch : BitVec 12 := 0x140
def sepc : BitVec 12 := 0x141
def scause : BitVec 12 := 0x142
def sbadaddr : BitVec 12 := 0x143
def sip : BitVec 12 := 0x144
def sptbr : BitVec 12 := 0x180
def sasid : BitVec 12 := 0x181
def mstatus : BitVec 12 := 0x300
def medeleg : BitVec 12 := 0x302
def mideleg : BitVec 12 := 0x303
def mie : BitVec 12 := 0x304
def mtvec : BitVec 12 := 0x305
def mscratch : BitVec 12 := 0x340
def mepc : BitVec 12 := 0x341
def mcause : BitVec 12 := 0x342
def mbadaddr : BitVec 12 := 0x343
def mip : BitVec 12 := 0x344
def mucounteren : BitVec 12 := 0x320
def mscounteren : BitVec 12 := 0x321
def mucycle_delta : BitVec 12 := 0x700
def mutime_delta : BitVec 12 := 0x701
def muinstret_delta : BitVec 12 := 0x702
def mscycle_delta : BitVec 12 := 0x704
def mstime_delta : BitVec 12 := 0x705
def msinstret_delta : BitVec 12 := 0x706
def mcycle : BitVec 12 := 0xf00
def minstret : BitVec 12 := 0xf02
def misa : BitVec 12 := 0xf10
def mvendorid : BitVec 12 := 0xf11
def marchid : BitVec 12 := 0xf12
def mimpid : BitVec 12 := 0xf13
def mhartid : BitVec 12 := 0xf14
def mucycle_deltah : BitVec 12 := 0x780
def mutime_deltah : BitVec 12 := 0x781
def muinstret_deltah : BitVec 12 := 0x782
def mscycle_deltah : BitVec 12 := 0x784
def mstime_deltah : BitVec 12 := 0x785
def msinstret_deltah : BitVec 12 := 0x786
def mcycleh : BitVec 12 := 0xf80
def minstreth : BitVec 12 := 0xf82
def utagctrl : BitVec 12 := 0x8f0
def stagctrl : BitVec 12 := 0x9f0
def mtagctrl : BitVec 12 := 0xbf0
def mutagctrlen : BitVec 12 := 0x7f0
def mstagctrlen : BitVec 12 := 0x7f1
def coretrace : BitVec 12 := 0x8fe
def swtrace : BitVec 12 := 0x8ff
def pfcr : BitVec 12 := 0x402
def pfcc : BitVec 12 := 0x403
def pfcm : BitVec 12 := 0x404

end CSRs

/-- The core parameters `CSRFile` reads. -/
structure CoreParams where
  xLen : Nat
  vaddrBits : Nat
  vaddrBitsExtended : Nat
  paddrBits : Nat
  ppnBits : Nat
  pgLevels : Nat
  tgBits : Nat
  coreInstBytes : Nat
  id : Nat
  usingVM : Bool
  usingFPU : Bool
  usingRoCC : Bool
  useTagMem : Bool
  usingPFC : Bool
  mtvecWritable : Bool
  mtvecInit : Nat
  nCustomMrwCsrs : Nat
  roccCsrs : List (BitVec 12)

/-- The fields of `MStatus` that some assignment of `CSRFile` reaches. The others
keep their reset value, zero. -/
structure MStatus where
  prv : BitVec 2
  vm : BitVec 5
  mxr : Bool
  pum : Bool
  mprv : Bool
  xs : BitVec 2
  fs : BitVec 2
  mpp : BitVec 2
  spp : BitVec 1
  mpie : Bool
  spie : Bool
  mie : Bool
  sie : Bool
  deriving DecidableEq, Repr

namespace MStatus

/-- `toBits`, with `sd` computed and, on a 32-bit core, repeated in bit 31. -/
def toBits (xLen : Nat) (m : MStatus) : BitVec 66 :=
  let sd := m.fs == 3 || m.xs == 3
  m.prv ++ BitVec.ofBool sd ++ 0#31 ++ BitVec.ofBool (xLen == 32 && sd) ++ 0#2 ++ m.vm ++ 0#4
    ++ BitVec.ofBool m.mxr ++ BitVec.ofBool m.pum ++ BitVec.ofBool m.mprv ++ m.xs ++ m.fs
    ++ m.mpp ++ 0#2 ++ m.spp ++ BitVec.ofBool m.mpie ++ 0#1 ++ BitVec.ofBool m.spie ++ 0#1
    ++ BitVec.ofBool m.mie ++ 0#1 ++ BitVec.ofBool m.sie ++ 0#1

def fromBits {w : Nat} (x : BitVec w) : MStatus where
  prv := x.extractLsb' 64 2
  vm := x.extractLsb' 24 5
  mxr := x.getLsbD 19
  pum := x.getLsbD 18
  mprv := x.getLsbD 17
  xs := x.extractLsb' 15 2
  fs := x.extractLsb' 13 2
  mpp := x.extractLsb' 11 2
  spp := x.extractLsb' 8 1
  mpie := x.getLsbD 7
  spie := x.getLsbD 5
  mie := x.getLsbD 3
  sie := x.getLsbD 1

end MStatus

structure MachineRegs (c : CoreParams) where
  mie : BitVec c.xLen
  mideleg : BitVec c.xLen
  medeleg : BitVec c.xLen
  mepc : BitVec c.vaddrBitsExtended
  mepc_tag : BitVec c.tgBits
  mcause : BitVec c.xLen
  mbadaddr : BitVec c.vaddrBitsExtended
  mscratch : BitVec c.xLen
  mscratch_tag : BitVec c.tgBits
  mtvec : BitVec (min c.paddrBits c.xLen)
  mtvec_tag : BitVec c.tgBits
  mucounteren : BitVec 32
  mscounteren : BitVec 32
  coretrace : BitVec 64

structure SupervisorRegs (c : CoreParams) where
  sepc : BitVec c.vaddrBitsExtended
  sepc_tag : BitVec c.tgBits
  scause : BitVec c.xLen
  sbadaddr : BitVec c.vaddrBitsExtended
  sscratch : BitVec c.xLen
  sscratch_tag : BitVec c.tgBits
  stvec : BitVec c.vaddrBits
  stvec_tag : BitVec c.tgBits
  sptbr : BitVec c.ppnBits

structure TagRegs (c : CoreParams) where
  tagctrl : BitVec c.xLen
  mutagctrlen : BitVec c.xLen
  mstagctrlen : BitVec c.xLen

/-- The interrupt pending bits; `irq` and `rocc` come from the inputs. -/
structure Mip where
  meip : Bool
  seip : Bool
  mtip : Bool
  stip : Bool
  msip : Bool
  ssip : Bool
  deriving DecidableEq, Repr

structure CsrState (c : CoreParams) where
  mstatus : MStatus
  machine : MachineRegs c
  supervisor : SupervisorRegs c
  tag : TagRegs c
  mip : Mip
  wfi : Bool
  fflags : BitVec 5
  frm : BitVec 3
  cycle : BitVec 64
  instret : BitVec 64

/-- What the core drives into `CSRFile` in one cycle. `outside` is the value read at an
address whose register is kept by the performance counter client, the RoCC unit or the
custom inputs. -/
structure CsrInput (c : CoreParams) where
  addr : BitVec 12
  cmd : BitVec 3
  wdata : BitVec c.xLen
  wtag : BitVec c.tgBits
  exc : Bool
  cause : BitVec c.xLen
  pc : BitVec c.vaddrBitsExtended
  pc_tag : BitVec c.tgBits
  retire : BitVec 64
  fcsr_flags : Option (BitVec 5)
  irq : Bool
  rocc_interrupt : Bool
  mtip : Bool
  msip : Bool
  meip : Bool
  seip : Bool
  outside : BitVec 12 → BitVec c.xLen

namespace CsrFile

variable {c : CoreParams}

/-- The register value with the bits of the listed positions set. -/
def bitSet (w : Nat) (positions : List Nat) : BitVec w :=
  positions.foldl (fun acc n => acc ||| BitVec.twoPow w n) 0

def supported_interrupts (c : CoreParams) : BitVec c.xLen :=
  bitSet c.xLen ((if c.usingVM then [1, 5, 9] else []) ++ [3, 7, 11]
    ++ (if c.usingRoCC then [12] else []) ++ [13])

def delegable_interrupts (c : CoreParams) : BitVec c.xLen :=
  bitSet c.xLen ((if c.usingVM then [1, 5, 9] else []) ++ (if c.usingRoCC then [12] else []) ++ [13])

def delegable_exceptions (c : CoreParams) : BitVec c.xLen :=
  bitSet c.xLen [Causes.misaligned_fetch, Causes.fault_fetch, Causes.breakpoint, Causes.fault_load,
    Causes.fault_store, Causes.user_ecall, Causes.tag_check_failure]

def isa (c : CoreParams) : BitVec c.xLen :=
  (BitVec.ofNat c.xLen (if c.xLen = 32 then 0 else 2)) <<< (c.xLen - 2)
    ||| bitSet c.xLen ([8, 12, 0] ++ (if c.usingVM then [18] else [])
      ++ (if c.usingFPU then [5, 3] else []) ++ (if c.usingRoCC then [23] else []))

def read_mip (s : CsrState c) (i : CsrInput c) : BitVec c.xLen :=
  let mip := bitSet c.xLen ((if s.mip.ssip then [1] else []) ++ (if s.mip.msip then [3] else [])
    ++ (if s.mip.stip then [5] else []) ++ (if s.mip.mtip then [7] else [])
    ++ (if s.mip.seip then [9] else []) ++ (if s.mip.meip then [11] else [])
    ++ (if i.rocc_interrupt then [12] else []) ++ (if i.irq then [13] else []))
  mip &&& supported_interrupts c

def read_mstatus (s : CsrState c) : BitVec c.xLen := (s.mstatus.toBits c.xLen).setWidth c.xLen

def read_sstatus (s : CsrState c) : BitVec c.xLen :=
  (MStatus.toBits c.xLen
    { s.mstatus with vm := 0, mprv := false, mpp := 0, mpie := false, mie := false }).setWidth c.xLen

abbrev CsrEntry (c : CoreParams) := BitVec 12 × BitVec c.xLen × BitVec c.tgBits

def read_mapping (s : CsrState c) (i : CsrInput c) : List (CsrEntry c) :=
  let m := s.machine
  let v := s.supervisor
  let outside : BitVec 12 → CsrEntry c := fun a => (a, i.outside a, 0)
  let base : List (CsrEntry c) :=
    [ (CSRs.mimpid, 2, 0),
      (CSRs.marchid, 0, 0),
      (CSRs.mvendorid, 0, 0),
      (CSRs.mcycle, s.cycle.setWidth _, 0),
      (CSRs.minstret, s.instret.setWidth _, 0),
      (CSRs.mucounteren, 0, 0),
      (CSRs.mutime_delta, 0, 0),
      (CSRs.mucycle_delta, 0, 0),
      (CSRs.muinstret_delta, 0, 0),
      (CSRs.misa, isa c, 0),
      (CSRs.mstatus, read_mstatus s, 0),
      (CSRs.mtvec, m.mtvec.setWidth _, m.mtvec_tag),
      (CSRs.mip, read_mip s i, 0),
      (CSRs.mie, m.mie, 0),
      (CSRs.mideleg, m.mideleg, 0),
      (CSRs.medeleg, m.medeleg, 0),
      (CSRs.mscratch, m.mscratch, m.mscratch_tag),
      (CSRs.mepc, m.mepc.signExtend _, m.mepc_tag),
      (CSRs.mbadaddr, m.mbadaddr.signExtend _, 0),
      (CSRs.mcause, m.mcause, 0),
      (CSRs.mhartid, BitVec.ofNat _ c.id, 0),
      (CSRs.coretrace, m.coretrace.setWidth _, 0),
      (CSRs.swtrace, 0, 0) ]
  let fpu : List (CsrEntry c) :=
    [ (CSRs.fflags, s.fflags.setWidth _, 0),
      (CSRs.frm, s.frm.setWidth _, 0),
      (CSRs.fcsr, (s.frm ++ s.fflags).setWidth _, 0) ]
  let vm : List (CsrEntry c) :=
    [ (CSRs.sstatus, read_sstatus s, 0),
      (CSRs.sip, read_mip s i &&& m.mideleg, 0),
      (CSRs.sie, m.mie &&& m.mideleg, 0),
      (CSRs.sscratch, v.sscratch, v.sscratch_tag),
      (CSRs.scause, v.scause, 0),
      (CSRs.sbadaddr, v.sbadaddr.signExtend _, 0),
      (CSRs.sptbr, v.sptbr.setWidth _, 0),
      (CSRs.sasid, 0, 0),
      (CSRs.sepc, v.sepc.signExtend _, v.sepc_tag),
      (CSRs.stvec, v.stvec.signExtend _, v.stvec_tag),
      (CSRs.mscounteren, m.mscounteren.setWidth _, 0),
      (CSRs.mstime_delta, 0, 0),
      (CSRs.mscycle_delta, 0, 0),
      (CSRs.msinstret_delta, 0, 0),
      (CSRs.cycle, s.cycle.setWidth _, 0),
      (CSRs.time, s.cycle.setWidth _, 0),
      (CSRs.instret, s.instret.setWidth _, 0) ]
  let tags : List (CsrEntry c) :=
    [ (CSRs.utagctrl, s.tag.tagctrl, 0),
      (CSRs.stagctrl, s.tag.tagctrl, 0),
      (CSRs.mtagctrl, s.tag.tagctrl, 0),
      (CSRs.mutagctrlen, s.tag.mutagctrlen, 0),
      (CSRs.mstagctrlen, s.tag.mstagctrlen, 0) ]
  -- the registers whose values come from outside the file
  let pfc : List (CsrEntry c) := [CSRs.pfcr, CSRs.pfcc, CSRs.pfcm].map outside
  let rv32 : List (CsrEntry c) :=
    [ (CSRs.mcycleh, (s.cycle >>> 32).setWidth _, 0),
      (CSRs.minstreth, (s.instret >>> 32).setWidth _, 0),
      (CSRs.mutime_deltah, 0, 0),
      (CSRs.mucycle_deltah, 0, 0),
      (CSRs.muinstret_deltah, 0, 0) ]
  let rv32vm : List (CsrEntry c) :=
    [ (CSRs.mstime_deltah, 0, 0),
      (CSRs.mscycle_deltah, 0, 0),
      (CSRs.msinstret_deltah, 0, 0) ]
  let custom : List (CsrEntry c) :=
    (List.range c.nCustomMrwCsrs).map fun k => outside (0xff0 + BitVec.ofNat 12 k)
  let given : Bool → List (CsrEntry c) → List (CsrEntry c) := fun b entries => if b then entries else []
  base ++ given c.usingFPU fpu ++ given c.usingVM vm ++ given c.useTagMem tags ++ given c.usingPFC pfc
    ++ given (c.xLen == 32) rv32 ++ given (c.xLen == 32 && c.usingVM) rv32vm ++ custom
    ++ c.roccCsrs.map outside

def addr_valid (s : CsrState c) (i : CsrInput c) : Bool :=
  (read_mapping s i).any fun entry => entry.1 == i.addr

/-- `Mux1H` over the mapping. -/
def rdata (s : CsrState c) (i : CsrInput c) : BitVec c.xLen :=
  ((read_mapping s i).filter fun entry => entry.1 == i.addr).foldl (fun acc entry => acc ||| entry.2.1) 0

/-! The privilege check and the decoded system instructions. -/

def system_insn (i : CsrInput c) : Bool := i.cmd == CSR.I
def cpu_ren (i : CsrInput c) : Bool := i.cmd != CSR.N && !system_insn i
def csr_addr_priv (i : CsrInput c) : BitVec 2 := i.addr.extractLsb' 8 2
def priv_sufficient (s : CsrState c) (i : CsrInput c) : Bool := decide (csr_addr_priv i ≤ s.mstatus.prv)
def read_only (i : CsrInput c) : Bool := i.addr.extractLsb' 10 2 == 3
def cpu_wen (s : CsrState c) (i : CsrInput c) : Bool :=
  cpu_ren i && i.cmd != CSR.R && priv_sufficient s i
def wen (s : CsrState c) (i : CsrInput c) : Bool := cpu_wen s i && !read_only i

def wdata (s : CsrState c) (i : CsrInput c) : BitVec c.xLen :=
  if i.cmd = CSR.S then rdata s i ||| i.wdata
  else if i.cmd = CSR.C then rdata s i &&& ~~~i.wdata
  else i.wdata

def fp_csr (i : CsrInput c) : Bool :=
  c.usingFPU && (i.addr == CSRs.fflags || i.addr == CSRs.frm || i.addr == CSRs.fcsr)

def hpm_csr (i : CsrInput c) : Bool :=
  c.usingVM && decide (CSRs.cycle ≤ i.addr) && decide (i.addr < CSRs.cycle + 3)

def hpm_en (s : CsrState c) (i : CsrInput c) : Bool :=
  let index := (i.addr.extractLsb' 0 8).toNat
  s.mstatus.prv == PRV.M || (s.mstatus.prv == PRV.S && s.machine.mscounteren.getLsbD index)
    || (s.mstatus.prv == PRV.U && s.machine.mucounteren.getLsbD index)

def do_system_insn (s : CsrState c) (i : CsrInput c) : Bool := priv_sufficient s i && system_insn i

/-- A system instruction is told apart by the low three bits of its address field. -/
def insn (s : CsrState c) (i : CsrInput c) (n : Nat) : Bool :=
  do_system_insn s i && (i.addr.extractLsb' 0 3).toNat == n

def insn_call (s : CsrState c) (i : CsrInput c) : Bool := insn s i 0
def insn_break (s : CsrState c) (i : CsrInput c) : Bool := insn s i 1
def insn_ret (s : CsrState c) (i : CsrInput c) : Bool := insn s i 2
def insn_wfi (s : CsrState c) (i : CsrInput c) : Bool := insn s i 5

def csr_xcpt (s : CsrState c) (i : CsrInput c) : Bool :=
  (cpu_wen s i && read_only i)
    || (cpu_ren i && (!priv_sufficient s i || !addr_valid s i || (hpm_csr i && !hpm_en s i)
      || (fp_csr i && s.mstatus.fs == 0)))
    || (system_insn i && !priv_sufficient s i) || insn_call s i || insn_break s i

/-! Traps and returns. -/

def traps (s : CsrState c) (i : CsrInput c) : Bool := i.exc || csr_xcpt s i

def cause (s : CsrState c) (i : CsrInput c) : BitVec c.xLen :=
  if !csr_xcpt s i then i.cause
  else if insn_call s i then s.mstatus.prv.setWidth _ + BitVec.ofNat _ Causes.user_ecall
  else if insn_break s i then BitVec.ofNat _ Causes.breakpoint
  else BitVec.ofNat _ Causes.illegal_instruction

def delegate (s : CsrState c) (i : CsrInput c) : Bool :=
  let lsbs := ((cause s i).extractLsb' 0 (log2Up c.xLen)).toNat
  c.usingVM && decide (s.mstatus.prv < PRV.M)
    && (if (cause s i).getLsbD (c.xLen - 1) then s.machine.mideleg.getLsbD lsbs
        else s.machine.medeleg.getLsbD lsbs)

def trapVector (s : CsrState c) (level : BitVec 2) : BitVec c.vaddrBitsExtended :=
  if level = PRV.S then s.supervisor.stvec.signExtend _ else s.machine.mtvec.setWidth _

def tvec (s : CsrState c) (i : CsrInput c) : BitVec c.vaddrBitsExtended :=
  if delegate s i then s.supervisor.stvec.signExtend _ else s.machine.mtvec.setWidth _

/-- The return instruction selects the supervisor registers. -/
def returnsToS (i : CsrInput c) : Bool := c.usingVM && !(csr_addr_priv i).getLsbD 1

def epc (s : CsrState c) (i : CsrInput c) : BitVec c.vaddrBitsExtended :=
  if returnsToS i then s.supervisor.sepc else s.machine.mepc

def evec (s : CsrState c) (i : CsrInput c) : BitVec c.vaddrBitsExtended :=
  if traps s i then tvec s i else epc s i

/-- Where the core fetches next, when the cycle redirects it. -/
def redirect (s : CsrState c) (i : CsrInput c) : Option (BitVec c.vaddrBitsExtended) :=
  if traps s i || insn_ret s i then some (evec s i) else none

def compressVAddr (c : CoreParams) (addr : BitVec c.xLen) : BitVec c.vaddrBitsExtended :=
  if c.vaddrBitsExtended = c.vaddrBits then addr.setWidth _
  else
    let upper := addr.extractLsb' c.vaddrBits (c.xLen - c.vaddrBits)
    let lower := addr.extractLsb' 0 c.vaddrBits
    let sign := if lower.msb then upper == BitVec.allOnes _ else upper != 0
    (BitVec.ofBool sign ++ lower).setWidth _

def badaddr (s : CsrState c) (i : CsrInput c) : BitVec c.vaddrBitsExtended :=
  let ldst := [Causes.fault_load, Causes.misaligned_load, Causes.fault_store, Causes.misaligned_store]
  if ldst.any fun n => cause s i == BitVec.ofNat _ n then compressVAddr c i.wdata else i.pc

def alignedPc (i : CsrInput c) : BitVec c.vaddrBitsExtended :=
  ~~~(~~~i.pc ||| BitVec.ofNat _ (c.coreInstBytes - 1))

/-- The write of the cycle reaches the register at `addr`. -/
def writes (s : CsrState c) (i : CsrInput c) (addr : BitVec 12) : Bool := wen s i && i.addr == addr

/-! Next values, one function for each group of registers. -/

def trapMstatus (s : CsrState c) (i : CsrInput c) (m : MStatus) : MStatus :=
  let pie := (read_mstatus s).getLsbD s.mstatus.prv.toNat
  if traps s i then
    if delegate s i then
      { m with spie := pie, spp := s.mstatus.prv.setWidth 1, sie := false, prv := PRV.S }
    else
      { m with mpie := pie, mpp := s.mstatus.prv, mie := false, prv := PRV.M }
  else m

def retMstatus (s : CsrState c) (i : CsrInput c) (m : MStatus) : MStatus :=
  let old := s.mstatus
  if insn_ret s i then
    if returnsToS i then
      { m with
        sie := if old.spp = 1 then old.spie else m.sie
        spie := false
        spp := 0
        prv := old.spp.setWidth 2 }
    else
      { m with
        mie := if old.mpp.getLsbD 1 then old.mpie else m.mie
        sie := if old.mpp.getLsbD 0 then old.mpie else m.sie
        mpie := false
        mpp := PRV.U
        prv := old.mpp }
  else m

def fill2 (x : BitVec 2) : BitVec 2 := if x = 0 then 0 else 3

def writeMstatus (s : CsrState c) (i : CsrInput c) (m : MStatus) : MStatus :=
  let new := MStatus.fromBits (wdata s i)
  let vmOn := BitVec.ofNat 5 (6 + c.pgLevels)
  if writes s i CSRs.mstatus then
    { m with
      mie := new.mie
      mpie := new.mpie
      mprv := new.mprv
      mpp := if new.mpp = PRV.M ∨ new.mpp = PRV.U ∨ (c.usingVM ∧ new.mpp = PRV.S) then new.mpp else m.mpp
      mxr := if c.usingVM then new.mxr else m.mxr
      pum := if c.usingVM then new.pum else m.pum
      spp := if c.usingVM then new.spp else m.spp
      spie := if c.usingVM then new.spie else m.spie
      sie := if c.usingVM then new.sie else m.sie
      vm := if c.usingVM ∧ (new.vm = 0 ∨ new.vm = vmOn) then new.vm else m.vm
      fs := if c.usingVM ∨ c.usingFPU then fill2 new.fs else m.fs
      xs := if c.usingRoCC then fill2 new.xs else m.xs }
  else m

def writeSstatus (s : CsrState c) (i : CsrInput c) (m : MStatus) : MStatus :=
  let new := MStatus.fromBits (wdata s i)
  if c.usingVM && writes s i CSRs.sstatus then
    { m with
      sie := new.sie
      spie := new.spie
      spp := new.spp
      pum := new.pum
      fs := fill2 new.fs
      xs := if c.usingRoCC then fill2 new.xs else m.xs }
  else m

def nextMstatus (s : CsrState c) (i : CsrInput c) : MStatus :=
  writeSstatus s i (writeMstatus s i (retMstatus s i (trapMstatus s i s.mstatus)))

def alignTo {w : Nat} (n : Nat) (x : BitVec w) : BitVec w := (x >>> n) <<< n

/-- Only the five low bits and the top bit of a cause are kept. -/
def causeMask (xLen : Nat) : BitVec xLen := bitSet xLen [0, 1, 2, 3, 4, xLen - 1]

def nextMachine (s : CsrState c) (i : CsrInput c) : MachineRegs c :=
  let m := s.machine
  let d := wdata s i
  let trapsToM := traps s i && !delegate s i
  { mie :=
      if c.usingVM && writes s i CSRs.sie then (m.mie &&& ~~~m.mideleg) ||| (d &&& m.mideleg)
      else if writes s i CSRs.mie then d &&& supported_interrupts c else m.mie
    mideleg := if c.usingVM && writes s i CSRs.mideleg then d &&& delegable_interrupts c else m.mideleg
    medeleg := if c.usingVM && writes s i CSRs.medeleg then d &&& delegable_exceptions c else m.medeleg
    mepc :=
      if writes s i CSRs.mepc then (~~~(~~~d ||| BitVec.ofNat _ (c.coreInstBytes - 1))).setWidth _
      else if trapsToM then alignedPc i else m.mepc
    mepc_tag := if writes s i CSRs.mepc then i.wtag else if trapsToM then i.pc_tag else m.mepc_tag
    mcause :=
      if writes s i CSRs.mcause then d &&& causeMask c.xLen
      else if trapsToM then cause s i else m.mcause
    mbadaddr :=
      if writes s i CSRs.mbadaddr then d.setWidth _ else if trapsToM then badaddr s i else m.mbadaddr
    mscratch := if writes s i CSRs.mscratch then d else m.mscratch
    mscratch_tag := if writes s i CSRs.mscratch then i.wtag else m.mscratch_tag
    mtvec := if c.mtvecWritable && writes s i CSRs.mtvec then (alignTo 2 d).setWidth _ else m.mtvec
    mtvec_tag := if c.mtvecWritable && writes s i CSRs.mtvec then i.wtag else m.mtvec_tag
    mucounteren := if c.usingVM && writes s i CSRs.mucounteren then (d &&& 7).setWidth _ else m.mucounteren
    mscounteren := if c.usingVM && writes s i CSRs.mscounteren then (d &&& 7).setWidth _ else m.mscounteren
    coretrace :=
      -- the 47 bits between the trace events and the privilege enables stay zero
      if writes s i CSRs.coretrace then d.setWidth 64 &&& 0xf000000000001fff else m.coretrace }

def nextSupervisor (s : CsrState c) (i : CsrInput c) : SupervisorRegs c :=
  let v := s.supervisor
  let d := wdata s i
  let trapsToS := traps s i && delegate s i
  let written := fun addr => c.usingVM && writes s i addr
  { sepc :=
      if written CSRs.sepc then (alignTo (log2Up c.coreInstBytes) d).setWidth _
      else if trapsToS then alignedPc i else v.sepc
    sepc_tag := if written CSRs.sepc then i.wtag else if trapsToS then i.pc_tag else v.sepc_tag
    scause :=
      if written CSRs.scause then d &&& causeMask c.xLen else if trapsToS then cause s i else v.scause
    sbadaddr := if written CSRs.sbadaddr then d.setWidth _ else if trapsToS then badaddr s i else v.sbadaddr
    sscratch := if written CSRs.sscratch then d else v.sscratch
    sscratch_tag := if written CSRs.sscratch then i.wtag else v.sscratch_tag
    stvec := if written CSRs.stvec then (alignTo 2 d).setWidth _ else v.stvec
    stvec_tag := if written CSRs.stvec then i.wtag else v.stvec_tag
    sptbr := if written CSRs.sptbr then d.setWidth _ else v.sptbr }

def underMask {w : Nat} (data mask old : BitVec w) : BitVec w := (data &&& mask) ||| (old &&& ~~~mask)

def nextTag (s : CsrState c) (i : CsrInput c) : TagRegs c :=
  let t := s.tag
  let d := wdata s i
  let written := fun addr => c.useTagMem && writes s i addr
  { tagctrl :=
      if written CSRs.mtagctrl then d
      else if written CSRs.stagctrl then underMask d t.mstagctrlen t.tagctrl
      else if written CSRs.utagctrl then underMask d t.mutagctrlen t.tagctrl
      else t.tagctrl
    mutagctrlen := if written CSRs.mutagctrlen then d else t.mutagctrlen
    mstagctrlen := if written CSRs.mstagctrlen then d else t.mstagctrlen }

/-- `writeCounter`: on a 32-bit core the two halves have their own address. -/
def nextCounter (s : CsrState c) (i : CsrInput c) (counter inc : BitVec 64) (lo hi : BitVec 12) : BitVec 64 :=
  let d := wdata s i
  if c.xLen = 32 then
    if writes s i hi then (d.setWidth 32 ++ counter.extractLsb' 0 32)
    else if writes s i lo then (counter.extractLsb' 32 32 ++ d.setWidth 32)
    else counter + inc
  else if writes s i lo then d.setWidth 64 else counter + inc

def nextMip (s : CsrState c) (i : CsrInput c) : Mip :=
  let d := wdata s i
  let ssip := if writes s i CSRs.mip then d.getLsbD 1 else s.mip.ssip
  { meip := i.meip
    seip := i.seip
    mtip := i.mtip
    msip := i.msip
    ssip := if !c.usingVM then s.mip.ssip else if writes s i CSRs.sip then d.getLsbD 1 else ssip
    stip := if c.usingVM && writes s i CSRs.mip then d.getLsbD 5 else s.mip.stip }

def nextFflags (s : CsrState c) (i : CsrInput c) : BitVec 5 :=
  if c.usingFPU && (writes s i CSRs.fcsr || writes s i CSRs.fflags) then (wdata s i).setWidth 5
  else s.fflags ||| i.fcsr_flags.getD 0

def nextFrm (s : CsrState c) (i : CsrInput c) : BitVec 3 :=
  if c.usingFPU && writes s i CSRs.fcsr then ((wdata s i) >>> 5).setWidth 3
  else if c.usingFPU && writes s i CSRs.frm then (wdata s i).setWidth 3
  else s.frm

def cycle (s : CsrState c) (i : CsrInput c) : CsrState c where
  mstatus := nextMstatus s i
  machine := nextMachine s i
  supervisor := nextSupervisor s i
  tag := nextTag s i
  mip := nextMip s i
  wfi := if read_mip s i = 0 then s.wfi || insn_wfi s i else false
  fflags := nextFflags s i
  frm := nextFrm s i
  cycle := nextCounter s i s.cycle 1 CSRs.mcycle CSRs.mcycleh
  instret := nextCounter s i s.instret i.retire CSRs.minstret CSRs.minstreth

end CsrFile

end LowRisc.Rocket
