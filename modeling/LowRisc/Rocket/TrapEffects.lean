import LowRisc.Pfc.Client
import LowRisc.Rocket.TagControl

/-! What a trapping instruction does besides trapping.

`csr_xcpt` and the write enable are built from different conditions. Here the register file
is joined with the client of the performance counters, and a cycle that raises `csr_xcpt` is
compared with the cycle in which the core presents no instruction.
-/

set_option autoImplicit false

namespace LowRisc.Rocket

open LowRisc.Lib LowRisc.Chisel LowRisc.Pfc

variable {c : CoreParams}

/-- `CSRFile` with the registers of the performance counter client. -/
structure CoreCsrs (c : CoreParams) where
  csr : CsrState c
  pfc : PfcClient

structure CoreInput (c : CoreParams) where
  csr : CsrInput c
  reqReady : Bool
  resp : Option PFCResp

/-- The write port of the RoCC unit. -/
structure RoccCsrPort (c : CoreParams) where
  waddr : BitVec 12
  wdata : BitVec c.xLen
  wen : Bool

namespace CoreCsrs

open CsrFile

/-- The inputs of the register file, with the counters read from the client. -/
def seen (s : CoreCsrs c) (i : CoreInput c) : CsrInput c :=
  { i.csr with
    outside := fun addr =>
      if addr = CSRs.pfcr then s.pfc.regPfcr.setWidth _
      else if addr = CSRs.pfcc then s.pfc.regPfcc.setWidth _
      else if addr = CSRs.pfcm then s.pfc.regPfcm.setWidth _
      else i.csr.outside addr }

def port (s : CoreCsrs c) (i : CoreInput c) : CsrPort where
  addr := i.csr.addr
  cmd := i.csr.cmd
  wdata := i.csr.wdata.setWidth 64
  prv := s.csr.mstatus.prv
  retire := i.csr.retire != 0

def reqFire (s : CoreCsrs c) (i : CoreInput c) : Bool := s.pfc.reqValid (s.port i) && i.reqReady

def respTaken (s : CoreCsrs c) (i : CoreInput c) : Option PFCResp :=
  i.resp.filter fun _ => s.pfc.respReady (s.port i)

def next (managerIDs : Nat) (s : CoreCsrs c) (i : CoreInput c) : CoreCsrs c where
  csr := CsrFile.cycle s.csr (s.seen i)
  pfc :=
    if c.usingPFC then s.pfc.next managerIDs (s.port i) (s.reqFire i) (s.respTaken i) else s.pfc

def roccCsr (s : CoreCsrs c) (i : CoreInput c) : RoccCsrPort c where
  waddr := i.csr.addr
  wdata := CsrFile.wdata s.csr (s.seen i)
  wen := CsrFile.wen s.csr (s.seen i)

end CoreCsrs

/-- The same cycle when the core presents no instruction. -/
def CoreInput.noInstruction (i : CoreInput c) : CoreInput c :=
  { i with csr := { i.csr with cmd := CSR.N, retire := 0 } }

/-! The registers that a trap into a level does not own. -/

def MStatus.outsideTrap (toS : Bool) (m : MStatus) : MStatus :=
  if toS then { m with spie := false, spp := 0, sie := false, prv := 0 }
  else { m with mpie := false, mpp := 0, mie := false, prv := 0 }

def MachineRegs.outsideTrap (toS : Bool) (m : MachineRegs c) : MachineRegs c :=
  if toS then m else { m with mepc := 0, mepc_tag := 0, mcause := 0, mbadaddr := 0 }

def SupervisorRegs.outsideTrap (toS : Bool) (v : SupervisorRegs c) : SupervisorRegs c :=
  if toS then { v with sepc := 0, sepc_tag := 0, scause := 0, sbadaddr := 0 } else v

/-- The client without the flag of `pfcc` that records a call. -/
def PfcClient.outsideCall (p : PfcClient) : PfcClient := { p with regPfcc := p.regPfcc &&& ~~~2#64 }

/-- The cycle leaves behind what it would leave without an instruction, but for the trap
registers of the level that takes the trap, the call flag and the two counters. -/
structure NoOtherEffect (managerIDs : Nat) (s : CoreCsrs c) (i : CoreInput c) : Prop where
  mstatus : (s.next managerIDs i).csr.mstatus.outsideTrap (CsrFile.delegate s.csr (s.seen i)) =
    (s.next managerIDs i.noInstruction).csr.mstatus.outsideTrap (CsrFile.delegate s.csr (s.seen i))
  machine : (s.next managerIDs i).csr.machine.outsideTrap (CsrFile.delegate s.csr (s.seen i)) =
    (s.next managerIDs i.noInstruction).csr.machine.outsideTrap (CsrFile.delegate s.csr (s.seen i))
  supervisor : (s.next managerIDs i).csr.supervisor.outsideTrap (CsrFile.delegate s.csr (s.seen i)) =
    (s.next managerIDs i.noInstruction).csr.supervisor.outsideTrap (CsrFile.delegate s.csr (s.seen i))
  tag : (s.next managerIDs i).csr.tag = (s.next managerIDs i.noInstruction).csr.tag
  mip : (s.next managerIDs i).csr.mip = (s.next managerIDs i.noInstruction).csr.mip
  wfi : (s.next managerIDs i).csr.wfi = (s.next managerIDs i.noInstruction).csr.wfi
  fflags : (s.next managerIDs i).csr.fflags = (s.next managerIDs i.noInstruction).csr.fflags
  frm : (s.next managerIDs i).csr.frm = (s.next managerIDs i.noInstruction).csr.frm
  pfc : PfcClient.outsideCall (s.next managerIDs i).pfc =
    PfcClient.outsideCall (s.next managerIDs i.noInstruction).pfc
  rocc : (s.roccCsr i).wen = false

namespace CsrFile

/-- A permitted write to a writable address at which no register answers, or to a
floating point register while the unit is off. -/
def strayWrite (s : CsrState c) (i : CsrInput c) : Bool :=
  cpu_ren i && i.cmd != CSR.R && priv_sufficient s i && !read_only i
    && (!addr_valid s i || (fp_csr i && s.mstatus.fs == 0))

variable {s : CsrState c} {i : CsrInput c}

theorem read_only_of_hpm (hpm : hpm_csr i = true) : read_only i = true := by
  simp only [hpm_csr, Bool.and_eq_true, decide_eq_true_eq, CSRs.cycle, BitVec.le_def, BitVec.lt_def] at hpm
  simp only [read_only, beq_iff_eq]
  apply BitVec.eq_of_toNat_eq
  simp only [BitVec.extractLsb'_toNat, Nat.shiftRight_eq_div_pow]
  have high : 3072 ≤ i.addr.toNat := by simpa using hpm.1.2
  have low : i.addr.toNat < 3075 := by simpa using hpm.2
  have quotient : i.addr.toNat / 2 ^ 10 = 3 := by omega
  rw [quotient]
  rfl

/-- Among the ways to trap, only the two of `strayWrite` leave the write enable up. -/
theorem wen_iff_strayWrite (trap : csr_xcpt s i = true) : wen s i = true ↔ strayWrite s i = true := by
  have hpm := read_only_of_hpm (i := i)
  simp only [csr_xcpt, insn_call, insn_break, insn, do_system_insn] at trap
  simp only [wen, cpu_wen, strayWrite]
  cases ren : cpu_ren i
  · simp
  · have system : system_insn i = false := by
      simp only [cpu_ren, Bool.and_eq_true, Bool.not_eq_true'] at ren
      exact ren.2
    cases reads : i.cmd != CSR.R <;> cases priv : priv_sufficient s i <;> cases only : read_only i <;>
      simp_all [cpu_wen]

theorem insn_of_csr_xcpt (trap : csr_xcpt s i = true) {n : Nat} (two : 2 ≤ n) : insn s i n = false := by
  rw [Bool.eq_false_iff]
  intro decoded
  simp only [insn, do_system_insn, Bool.and_eq_true, beq_iff_eq] at decoded
  obtain ⟨⟨priv, system⟩, rfl⟩ := decoded
  have ren : cpu_ren i = false := by simp [cpu_ren, system]
  simp only [csr_xcpt, cpu_wen, ren, priv, system, insn_call, insn_break, insn, do_system_insn, Bool.and_true,
    Bool.false_and, Bool.not_true, Bool.and_false, Bool.or_false, Bool.true_and, Bool.false_or,
    Bool.or_eq_true, beq_iff_eq] at trap
  omega

theorem writes_of_not_wen (silent : wen s i = false) (addr : BitVec 12) : writes s i addr = false := by
  simp [writes, silent]

theorem nextMstatus_of_silent (silent : wen s i = false) (stays : insn_ret s i = false) :
    nextMstatus s i = trapMstatus s i s.mstatus := by
  simp [nextMstatus, writeSstatus, writeMstatus, retMstatus, writes_of_not_wen silent, stays]

theorem outsideTrap_trapMstatus (m : MStatus) :
    (trapMstatus s i m).outsideTrap (delegate s i) = m.outsideTrap (delegate s i) := by
  unfold trapMstatus
  cases traps s i <;> cases delegate s i <;> rfl

theorem outsideTrap_nextMachine (silent : wen s i = false) :
    (nextMachine s i).outsideTrap (delegate s i) = s.machine.outsideTrap (delegate s i) := by
  simp only [nextMachine, writes_of_not_wen silent, Bool.and_false, Bool.false_eq_true, if_false]
  cases traps s i <;> cases delegate s i <;> rfl

theorem outsideTrap_nextSupervisor (silent : wen s i = false) :
    (nextSupervisor s i).outsideTrap (delegate s i) = s.supervisor.outsideTrap (delegate s i) := by
  simp only [nextSupervisor, writes_of_not_wen silent, Bool.and_false, Bool.false_eq_true, if_false]
  cases traps s i <;> cases delegate s i <;> rfl

/-! The cycle without an instruction. -/

theorem nextMachine_of_idle (silent : wen s i = false) (quiet : traps s i = false) :
    nextMachine s i = s.machine := by
  simp [nextMachine, writes_of_not_wen silent, quiet]

theorem nextSupervisor_of_idle (silent : wen s i = false) (quiet : traps s i = false) :
    nextSupervisor s i = s.supervisor := by
  simp [nextSupervisor, writes_of_not_wen silent, quiet]

theorem nextMstatus_of_idle (silent : wen s i = false) (stays : insn_ret s i = false)
    (quiet : traps s i = false) : nextMstatus s i = s.mstatus := by
  rw [nextMstatus_of_silent silent stays, trapMstatus, quiet]
  rfl

theorem idle_of_none (nop : i.cmd = CSR.N) (calm : i.exc = false) :
    wen s i = false ∧ traps s i = false ∧ ∀ n, insn s i n = false := by
  have ren : cpu_ren i = false := by simp [cpu_ren, nop]
  have system : system_insn i = false := by
    rw [system_insn, nop]
    rfl
  refine ⟨?_, ?_, fun n => ?_⟩
  · simp [wen, cpu_wen, ren]
  · simp [traps, calm, csr_xcpt, cpu_wen, ren, system, insn_call, insn_break, insn, do_system_insn]
  · simp [insn, do_system_insn, system]

end CsrFile

namespace CoreCsrs

open CsrFile

variable {s : CoreCsrs c} {i : CoreInput c}

theorem readEn_of_csr_xcpt (client : c.usingPFC = true) (trap : csr_xcpt s.csr (s.seen i) = true) :
    (s.port i).readEn = false := by
  rw [Bool.eq_false_iff]
  intro reads
  simp only [CsrPort.readEn, port, Bool.and_eq_true, beq_iff_eq] at reads
  have addr : (s.seen i).addr = CSRs.pfcr := reads.1
  have priv : priv_sufficient s.csr (s.seen i) = true := by
    simp only [priv_sufficient, csr_addr_priv, addr, decide_eq_true_eq, BitVec.le_def]
    exact Nat.zero_le _
  have valid : addr_valid s.csr (s.seen i) = true := by
    simp [addr_valid, read_mapping, client, addr]
  have only : read_only (s.seen i) = false := by
    rw [read_only, addr]
    rfl
  have hpm : hpm_csr (s.seen i) = false := by
    rw [hpm_csr, addr]
    cases c.usingVM <;> rfl
  have fp : fp_csr (s.seen i) = false := by
    rw [fp_csr, addr]
    cases c.usingFPU <;> rfl
  have low : ((s.seen i).addr.extractLsb' 0 3).toNat = 2 := by
    rw [addr]
    rfl
  simp [csr_xcpt, cpu_wen, insn_call, insn_break, insn, priv, valid, only, hpm, fp, low] at trap

/-- The client moves as in an idle cycle, but for the flag that records the call. -/
theorem outsideCall_next (managerIDs : Nat) (client : PfcClient) {p q : CsrPort} (fire : Bool)
    (silentP : p.wen = false) (silentQ : q.wen = false) (unreadP : p.readEn = false)
    (unreadQ : q.readEn = false) :
    PfcClient.outsideCall (client.next managerIDs p fire none) =
      PfcClient.outsideCall (client.next managerIDs q fire none) := by
  -- only the bit of the interrupting call tells the two values apart
  have mask : ~~~2#64 = BitVec.allOnes 60 ++ 0xd#4 := by decide
  have flag (upper : BitVec 60) (error empty call call' trigger : Bool) :
      pfccOf upper error empty call trigger &&& ~~~2#64 =
        pfccOf upper error empty call' trigger &&& ~~~2#64 := by
    rw [mask, pfccOf, pfccOf, BitVec.and_append, BitVec.and_append]
    congr 1
    cases error <;> cases empty <;> cases call <;> cases call' <;> cases trigger <;> rfl
  simp only [PfcClient.outsideCall, PfcClient.next, PfcClient.readError, CsrPort.acqbsof, silentP, silentQ,
    unreadP, unreadQ, Bool.false_and, Bool.false_eq_true, if_false, Bool.and_false, Bool.false_or,
    flag _ _ _ p.insnCall q.insnCall]

theorem noOtherEffect_of_silent (managerIDs : Nat) (trap : csr_xcpt s.csr (s.seen i) = true)
    (calm : i.csr.exc = false) (answer : i.resp = none) (silent : CsrFile.wen s.csr (s.seen i) = false) :
    NoOtherEffect managerIDs s i := by
  -- a trap stops the return and the wait of the instruction
  obtain ⟨silent', quiet, bare⟩ := idle_of_none (s := s.csr) (i := s.seen i.noInstruction) rfl calm
  have stays : insn_ret s.csr (s.seen i) = false := insn_of_csr_xcpt trap (by decide)
  have awake : insn_wfi s.csr (s.seen i) = false := insn_of_csr_xcpt trap (by decide)
  constructor
  · show MStatus.outsideTrap _ (nextMstatus _ _) = MStatus.outsideTrap _ (nextMstatus _ _)
    rw [nextMstatus_of_silent silent stays, outsideTrap_trapMstatus,
      nextMstatus_of_idle silent' (bare 2) quiet]
  · show MachineRegs.outsideTrap _ (nextMachine _ _) = MachineRegs.outsideTrap _ (nextMachine _ _)
    rw [outsideTrap_nextMachine silent, nextMachine_of_idle silent' quiet]
  · show SupervisorRegs.outsideTrap _ (nextSupervisor _ _) = SupervisorRegs.outsideTrap _ (nextSupervisor _ _)
    rw [outsideTrap_nextSupervisor silent, nextSupervisor_of_idle silent' quiet]
  · simp [next, CsrFile.cycle, nextTag, writes_of_not_wen silent, writes_of_not_wen silent']
  · simp only [next, CsrFile.cycle, nextMip, writes_of_not_wen silent, writes_of_not_wen silent',
      Bool.and_false, Bool.false_eq_true, if_false]
    rfl
  · have pending : read_mip s.csr (s.seen i.noInstruction) = read_mip s.csr (s.seen i) := rfl
    have bare' : insn_wfi s.csr (s.seen i.noInstruction) = false := bare 5
    simp [next, CsrFile.cycle, awake, bare', pending]
  · simp only [next, CsrFile.cycle, nextFflags, writes_of_not_wen silent, writes_of_not_wen silent',
      Bool.or_false, Bool.and_false, Bool.false_eq_true, if_false]
    rfl
  · simp [next, CsrFile.cycle, nextFrm, writes_of_not_wen silent, writes_of_not_wen silent']
  · cases client : c.usingPFC
    · simp [next, client]
    · have unread : (s.port i.noInstruction).readEn = false := by
        simp [CsrPort.readEn, port, CoreInput.noInstruction]
      have portP : (s.port i).wen = false := silent
      have portQ : (s.port i.noInstruction).wen = false := silent'
      -- without a write neither software nor the instruction starts a request
      have fire : s.reqFire i.noInstruction = s.reqFire i := by
        simp only [reqFire, PfcClient.reqValid, CsrPort.acqbsof, portP, portQ]
        rfl
      have taken : s.respTaken i = none := by simp [respTaken, answer]
      have taken' : s.respTaken i.noInstruction = none := by
        simp [respTaken, CoreInput.noInstruction, answer]
      simp only [next, client, if_true, taken, taken', fire]
      exact outsideCall_next managerIDs s.pfc (s.reqFire i) portP portQ (readEn_of_csr_xcpt client trap) unread
  · exact silent

/-- A trapping instruction has no other effect exactly when it is not a stray write. -/
theorem traps_without_other_effect_iff (managerIDs : Nat) (s : CoreCsrs c) (i : CoreInput c)
    (trap : csr_xcpt s.csr (s.seen i) = true) (calm : i.csr.exc = false) (answer : i.resp = none) :
    NoOtherEffect managerIDs s i ↔ strayWrite s.csr (s.seen i) = false := by
  constructor
  · intro clean
    rw [Bool.eq_false_iff, ne_eq, ← wen_iff_strayWrite trap, ← ne_eq, ← Bool.eq_false_iff]
    exact clean.rocc
  · intro straight
    apply noOtherEffect_of_silent managerIDs trap calm answer
    rw [Bool.eq_false_iff, ne_eq, wen_iff_strayWrite trap, straight]
    decide

/-- A user process that owns no counters. -/
def userCore : CoreCsrs defaultCore where
  csr := userState
  pfc := ⟨0, 0, 0, 0, 0, fun _ => 0, false, false, false, 0, 0, false⟩

def userInput (addr : BitVec 12) (cmd : BitVec 3) : CoreInput defaultCore where
  csr := { userWrite with addr := addr, cmd := cmd, retire := 0 }
  reqReady := false
  resp := none

/-- An environment call, and a write to a machine register from user mode. -/
theorem traps_without_other_effect_user :
    NoOtherEffect 1 userCore (userInput 0 CSR.I) ∧ NoOtherEffect 1 userCore (userInput CSRs.mstatus CSR.W) :=
  ⟨(traps_without_other_effect_iff 1 userCore (userInput 0 CSR.I) (by decide +kernel) rfl rfl).2 (by decide +kernel),
    (traps_without_other_effect_iff 1 userCore (userInput CSRs.mstatus CSR.W) (by decide +kernel) rfl rfl).2
      (by decide +kernel)⟩

/-- `csrw fflags` while the floating point unit is off: the instruction traps, and the flags
are overwritten all the same. -/
theorem not_noOtherEffect_fflags :
    csr_xcpt userCore.csr (userCore.seen (userInput CSRs.fflags CSR.W)) = true ∧
    (userCore.next 1 (userInput CSRs.fflags CSR.W)).csr.fflags = 0x1f ∧
    (userCore.next 1 (userInput CSRs.fflags CSR.W).noInstruction).csr.fflags = 0 ∧
    ¬ NoOtherEffect 1 userCore (userInput CSRs.fflags CSR.W) := by
  refine ⟨by decide +kernel, by decide +kernel, by decide +kernel, fun clean => ?_⟩
  have same := clean.fflags
  revert same
  decide +kernel

end CoreCsrs

end LowRisc.Rocket
