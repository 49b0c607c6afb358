import LowRisc.Rocket.Csr

/-! What software below machine mode can do to the tag control registers. -/

set_option autoImplicit false

namespace LowRisc.Rocket.CsrFile

open LowRisc.Lib

variable {c : CoreParams}

/-! Privilege levels along a run. -/

/-- The configuration has the privilege level. -/
def Supported (c : CoreParams) (level : BitVec 2) : Prop :=
  level = PRV.M ∨ level = PRV.U ∨ (c.usingVM = true ∧ level = PRV.S)

/-- The core runs below machine mode, at a level the configuration has. -/
def BelowMachine (s : CsrState c) : Prop :=
  s.mstatus.prv = PRV.U ∨ (c.usingVM = true ∧ s.mstatus.prv = PRV.S)

def systemInsns : List (BitVec 12) :=
  [0x104, 0x000, 0x001, 0x102, 0x302, 0x105]

/-- The decoder passes only the listed system instructions on. -/
def Decoded (i : CsrInput c) : Prop := i.cmd = CSR.I → i.addr ∈ systemInsns

/-- The mode after reset; the registers without a reset value are arbitrary. -/
def OnReset (s : CsrState c) : Prop := s.mstatus.prv = PRV.M ∧ s.mstatus.mpp = PRV.M

def clock (s : CsrState c) (i : CsrInput c) : Option (CsrState c) := some (cycle s i)

@[simp] theorem writeMstatus_prv (s : CsrState c) (i : CsrInput c) (m : MStatus) :
    (writeMstatus s i m).prv = m.prv := by
  unfold writeMstatus
  split <;> rfl

@[simp] theorem writeSstatus_prv (s : CsrState c) (i : CsrInput c) (m : MStatus) :
    (writeSstatus s i m).prv = m.prv := by
  unfold writeSstatus
  split <;> rfl

/-- Only a trap and a return set the privilege level, and the return is assigned last. -/
theorem cycle_prv (s : CsrState c) (i : CsrInput c) :
    (cycle s i).mstatus.prv =
      if insn_ret s i then
        if returnsToS i then s.mstatus.spp.setWidth 2 else s.mstatus.mpp
      else if traps s i then
        if delegate s i then PRV.S else PRV.M
      else s.mstatus.prv := by
  simp only [cycle, nextMstatus, writeMstatus_prv, writeSstatus_prv, retMstatus, trapMstatus]
  split_ifs <;> rfl

/-- The address bits of a written register name a level the core runs at or above. -/
theorem priv_of_writes {s : CsrState c} {i : CsrInput c} {addr : BitVec 12}
    (written : writes s i addr = true) : addr.extractLsb' 8 2 ≤ s.mstatus.prv := by
  simp only [writes, wen, cpu_wen, priv_sufficient, csr_addr_priv, Bool.and_eq_true, beq_iff_eq] at written
  obtain ⟨⟨⟨_, sufficient⟩, _⟩, rfl⟩ := written
  exact of_decide_eq_true sufficient

theorem not_writes_machine {s : CsrState c} {i : CsrInput c} {addr : BitVec 12} (below : BelowMachine s)
    (machine : addr.extractLsb' 8 2 = PRV.M) : writes s i addr = false := by
  rw [Bool.eq_false_iff]
  intro written
  have sufficient := priv_of_writes written
  rw [machine] at sufficient
  rcases below with user | ⟨_, supervisor⟩
  · rw [user] at sufficient; exact absurd sufficient (by decide)
  · rw [supervisor] at sufficient; exact absurd sufficient (by decide)

/-- Below machine mode the only return that takes effect is `SRET` in supervisor mode. -/
theorem returnsToS_of_insn_ret {s : CsrState c} {i : CsrInput c} (below : BelowMachine s)
    (decoded : Decoded i) (ret : insn_ret s i = true) :
    returnsToS i = true ∧ s.mstatus.prv = PRV.S := by
  simp only [insn_ret, insn, do_system_insn, priv_sufficient, system_insn, Bool.and_eq_true, beq_iff_eq,
    decide_eq_true_eq] at ret
  obtain ⟨⟨sufficient, system⟩, low⟩ := ret
  have listed := decoded system
  simp only [systemInsns, List.mem_cons, List.not_mem_nil, or_false] at listed
  rcases listed with same | same | same | same | same | same <;>
    simp only [csr_addr_priv, returnsToS, same] at low sufficient ⊢
  case inr.inr.inr.inl =>
    rcases below with user | ⟨vm, supervisor⟩
    · rw [user] at sufficient; exact absurd sufficient (by decide)
    · rw [vm]; exact ⟨by decide, supervisor⟩
  case inr.inr.inr.inr.inl =>
    rcases below with user | ⟨_, supervisor⟩
    · rw [user] at sufficient; exact absurd sufficient (by decide)
    · rw [supervisor] at sufficient; exact absurd sufficient (by decide)
  all_goals exact absurd low (by decide)

theorem supported_spp (vm : c.usingVM = true) (spp : BitVec 1) :
    spp.setWidth 2 = PRV.U ∨ (c.usingVM = true ∧ spp.setWidth 2 = PRV.S) := by
  have cases : spp = 0 ∨ spp = 1 := by
    have := spp.isLt
    have value : spp.toNat = 0 ∨ spp.toNat = 1 := by omega
    exact value.imp BitVec.eq_of_toNat_eq BitVec.eq_of_toNat_eq
  rcases cases with rfl | rfl
  · exact .inl rfl
  · exact .inr ⟨vm, rfl⟩

theorem usingVM_of_delegate {s : CsrState c} {i : CsrInput c} (delegated : delegate s i = true) :
    c.usingVM = true := by
  simp only [delegate, Bool.and_eq_true] at delegated
  exact delegated.1.1

/-- A core below machine mode stays there or takes a trap into machine mode. -/
theorem BelowMachine.cycle {s : CsrState c} {i : CsrInput c} (below : BelowMachine s) (decoded : Decoded i)
    (outside : (cycle s i).mstatus.prv ≠ PRV.M) : BelowMachine (CsrFile.cycle s i) := by
  unfold BelowMachine
  rw [cycle_prv] at outside ⊢
  by_cases ret : insn_ret s i = true
  · obtain ⟨toS, supervisor⟩ := returnsToS_of_insn_ret below decoded ret
    have vm : c.usingVM = true := by
      simp only [returnsToS, Bool.and_eq_true] at toS
      exact toS.1
    simpa [ret, toS] using supported_spp vm s.mstatus.spp
  · by_cases trap : traps s i = true
    · by_cases delegated : delegate s i = true
      · right
        simp [ret, trap, delegated, usingVM_of_delegate delegated]
      · simp [ret, trap, delegated] at outside
    · simpa [ret, trap, BelowMachine] using below

/-- The level rises only on a trap, which redirects the core to the vector of that level. -/
theorem redirect_of_rise {s : CsrState c} {i : CsrInput c} (below : BelowMachine s) (decoded : Decoded i)
    (rise : s.mstatus.prv < (cycle s i).mstatus.prv) :
    traps s i = true ∧ redirect s i = some (trapVector s (cycle s i).mstatus.prv) := by
  rw [cycle_prv] at rise ⊢
  by_cases ret : insn_ret s i = true
  · obtain ⟨toS, supervisor⟩ := returnsToS_of_insn_ret below decoded ret
    simp only [ret, toS, supervisor, if_true] at rise
    have bound := s.mstatus.spp.isLt
    simp [PRV.S, BitVec.lt_def] at rise
    omega
  · by_cases trap : traps s i = true
    · refine ⟨trap, ?_⟩
      by_cases delegated : delegate s i = true
      · simp [redirect, evec, tvec, trapVector, ret, trap, delegated]
      · simp [redirect, evec, tvec, trapVector, ret, trap, delegated, PRV.M, PRV.S]
    · simp [ret, trap] at rise

/-! The tag control registers. -/

theorem getLsbD_underMask {w : Nat} (data mask old : BitVec w) (b : Nat) (clear : mask.getLsbD b = false) :
    (underMask data mask old).getLsbD b = old.getLsbD b := by
  by_cases inside : b < w
  · rw [underMask, BitVec.getLsbD_or, BitVec.getLsbD_and, BitVec.getLsbD_and, BitVec.getLsbD_not, clear]
    simp [inside]
  · simp [underMask, BitVec.getLsbD_of_ge _ _ (Nat.le_of_not_lt inside)]

theorem cycle_masks {s : CsrState c} {i : CsrInput c} (below : BelowMachine s) :
    (cycle s i).tag.mutagctrlen = s.tag.mutagctrlen ∧ (cycle s i).tag.mstagctrlen = s.tag.mstagctrlen := by
  simp [cycle, nextTag, not_writes_machine below (show CSRs.mutagctrlen.extractLsb' 8 2 = PRV.M by decide),
    not_writes_machine below (show CSRs.mstagctrlen.extractLsb' 8 2 = PRV.M by decide)]

/-- Below machine mode `tagctrl` changes under the supervisor mask, and then in supervisor
mode, or under the user mask. -/
theorem cycle_tagctrl {s : CsrState c} {i : CsrInput c} (below : BelowMachine s) :
    (cycle s i).tag.tagctrl = s.tag.tagctrl
    ∨ (s.mstatus.prv = PRV.S ∧
        (cycle s i).tag.tagctrl = underMask (wdata s i) s.tag.mstagctrlen s.tag.tagctrl)
    ∨ (cycle s i).tag.tagctrl = underMask (wdata s i) s.tag.mutagctrlen s.tag.tagctrl := by
  have machine := not_writes_machine (i := i) below (show CSRs.mtagctrl.extractLsb' 8 2 = PRV.M by decide)
  simp only [cycle, nextTag, machine, Bool.and_false, Bool.false_eq_true, if_false]
  split
  · rename_i written
    rw [Bool.and_eq_true] at written
    have sufficient := priv_of_writes written.2
    rcases below with user | ⟨_, supervisor⟩
    · rw [user] at sufficient; exact absurd sufficient (by decide)
    · exact .inr (.inl ⟨supervisor, rfl⟩)
  · split
    · exact .inr (.inr rfl)
    · exact .inl rfl

theorem getLsbD_cycle_tagctrl {s : CsrState c} {i : CsrInput c} (below : BelowMachine s) {b : Nat}
    (outside : (s.tag.mutagctrlen ||| s.tag.mstagctrlen).getLsbD b = false) :
    (cycle s i).tag.tagctrl.getLsbD b = s.tag.tagctrl.getLsbD b := by
  rw [BitVec.getLsbD_or, Bool.or_eq_false_iff] at outside
  rcases cycle_tagctrl (i := i) below with same | ⟨_, same⟩ | same
  · rw [same]
  · rw [same, getLsbD_underMask _ _ _ _ outside.2]
  · rw [same, getLsbD_underMask _ _ _ _ outside.1]

theorem supervisor_of_change {s : CsrState c} {i : CsrInput c} (below : BelowMachine s) {b : Nat}
    (outside : s.tag.mutagctrlen.getLsbD b = false)
    (change : (cycle s i).tag.tagctrl.getLsbD b ≠ s.tag.tagctrl.getLsbD b) : s.mstatus.prv = PRV.S := by
  rcases cycle_tagctrl (i := i) below with same | ⟨supervisor, _⟩ | same
  · rw [same] at change; exact absurd rfl change
  · exact supervisor
  · rw [same, getLsbD_underMask _ _ _ _ outside] at change; exact absurd rfl change

def lowerCycle (s : CsrState c) (i : CsrInput c) : Prop := s.mstatus.prv ≠ PRV.M ∧ Decoded i

/-- What a run below machine mode has kept of the state it started in. -/
structure TagKept (s t : CsrState c) : Prop where
  below : t.mstatus.prv ≠ PRV.M → BelowMachine t
  mutagctrlen : t.tag.mutagctrlen = s.tag.mutagctrlen
  mstagctrlen : t.tag.mstagctrlen = s.tag.mstagctrlen
  tagctrl : ∀ b, (s.tag.mutagctrlen ||| s.tag.mstagctrlen).getLsbD b = false →
    t.tag.tagctrl.getLsbD b = s.tag.tagctrl.getLsbD b

theorem TagKept.cycle {s t : CsrState c} {i : CsrInput c} (kept : TagKept s t) (lower : lowerCycle t i) :
    TagKept s (CsrFile.cycle t i) := by
  obtain ⟨notMachine, decoded⟩ := lower
  have below := kept.below notMachine
  obtain ⟨sameU, sameS⟩ := cycle_masks (i := i) below
  refine ⟨below.cycle decoded, sameU.trans kept.mutagctrlen, sameS.trans kept.mstagctrlen, ?_⟩
  intro b outside
  have outside' : (t.tag.mutagctrlen ||| t.tag.mstagctrlen).getLsbD b = false := by
    rw [kept.mutagctrlen, kept.mstagctrlen]
    exact outside
  exact (getLsbD_cycle_tagctrl below outside').trans (kept.tagctrl b outside)

theorem tagKept_of_steps {s t : CsrState c} (below : BelowMachine s) (run : Steps clock lowerCycle s t) :
    TagKept s t := by
  refine run.invariant ⟨fun _ => below, rfl, rfl, fun _ _ => rfl⟩ ?_
  intro t u i kept lower fired
  cases Option.some.inj fired
  exact kept.cycle lower

/-- A run that starts below machine mode and has not entered it keeps both masks and
every bit of `tagctrl` outside them. In each of its cycles a bit outside the user mask
changes only in supervisor mode, and the level rises only on a trap to its own vector. -/
theorem lower_privilege_keeps_tag_control {s t : CsrState c} (below : BelowMachine s)
    (run : Steps clock lowerCycle s t) :
    t.tag.mutagctrlen = s.tag.mutagctrlen ∧ t.tag.mstagctrlen = s.tag.mstagctrlen ∧
    (∀ b, (s.tag.mutagctrlen ||| s.tag.mstagctrlen).getLsbD b = false →
      t.tag.tagctrl.getLsbD b = s.tag.tagctrl.getLsbD b) ∧
    ∀ i, lowerCycle t i →
      (∀ b, s.tag.mutagctrlen.getLsbD b = false →
        (cycle t i).tag.tagctrl.getLsbD b ≠ t.tag.tagctrl.getLsbD b → t.mstatus.prv = PRV.S) ∧
      (t.mstatus.prv < (cycle t i).mstatus.prv →
        traps t i = true ∧ redirect t i = some (trapVector t (cycle t i).mstatus.prv)) := by
  have kept := tagKept_of_steps below run
  refine ⟨kept.mutagctrlen, kept.mstagctrlen, kept.tagctrl, ?_⟩
  rintro i ⟨notMachine, decoded⟩
  have belowT := kept.below notMachine
  refine ⟨fun b outside change => ?_, fun rise => redirect_of_rise belowT decoded rise⟩
  rw [← kept.mutagctrlen] at outside
  exact supervisor_of_change belowT outside change

/-- The core of the default configuration. -/
def defaultCore : CoreParams where
  xLen := 64
  vaddrBits := 39
  vaddrBitsExtended := 40
  paddrBits := 32
  ppnBits := 20
  pgLevels := 3
  tgBits := 4
  coreInstBytes := 4
  id := 0
  usingVM := true
  usingFPU := true
  usingRoCC := false
  useTagMem := true
  usingPFC := true
  mtvecWritable := true
  mtvecInit := 0
  nCustomMrwCsrs := 0
  roccCsrs := []

/-- A user process that may change the low byte of `tagctrl`. -/
def userState : CsrState defaultCore where
  mstatus := ⟨PRV.U, 0, false, false, false, 0, 0, 0, 0, false, false, false, false⟩
  machine := ⟨0#64, 0#64, 0#64, 0#40, 0#4, 0#64, 0#40, 0#64, 0#4, 0#32, 0#4, 0#32, 0#32, 0#64⟩
  supervisor := ⟨0#40, 0#4, 0#64, 0#40, 0#64, 0#4, 0#39, 0#4, 0#20⟩
  tag := ⟨0#64, 0xff#64, 0xffff#64⟩
  mip := ⟨false, false, false, false, false, false⟩
  wfi := false
  fflags := 0
  frm := 0
  cycle := 0
  instret := 0

/-- `csrw utagctrl` with all bits set. -/
def userWrite : CsrInput defaultCore where
  addr := CSRs.utagctrl
  cmd := CSR.W
  wdata := 0xffffffffffffffff#64
  wtag := 0#4
  exc := false
  cause := 0#64
  pc := 0#40
  pc_tag := 0#4
  retire := 1
  fcsr_flags := none
  irq := false
  rocc_interrupt := false
  mtip := false
  msip := false
  meip := false
  seip := false
  outside := fun _ => 0#64

/-- The same process under a supervisor that handles its environment calls. -/
def supervisedState : CsrState defaultCore :=
  { userState with machine := { userState.machine with medeleg := 0x100#64 } }

/-- `ecall`. -/
def environmentCall : CsrInput defaultCore := { userWrite with addr := 0x000, cmd := CSR.I }

/-- `csrw stagctrl` with the second byte set. -/
def supervisorWrite : CsrInput defaultCore := { userWrite with addr := CSRs.stagctrl, wdata := 0xff00#64 }

/-- `sret`. -/
def supervisorReturn : CsrInput defaultCore := { userWrite with addr := 0x102, cmd := CSR.I }

def afterCycles (s : CsrState c) : List (CsrInput c) → CsrState c
  | [] => s
  | i :: inputs => afterCycles (cycle s i) inputs

/-- An environment call that the supervisor answers with a write of its own. -/
def supervisedCall : List (CsrInput defaultCore) :=
  [userWrite, environmentCall, supervisorWrite, supervisorReturn, userWrite]

def servedState : CsrState defaultCore := afterCycles supervisedState supervisedCall

theorem steps_supervisedCall : Steps clock lowerCycle supervisedState servedState := by
  unfold servedState supervisedCall afterCycles
  refine .next (.next (.next (.next (.next (.refl _) ?_ rfl) ?_ rfl) ?_ rfl) ?_ rfl) ?_ rfl
  all_goals exact ⟨by decide +kernel, by unfold Decoded; decide +kernel⟩

/-- The user changes the low byte, the supervisor the second one, and the next call of
the user is taken to the vector of the supervisor. -/
theorem lower_privilege_keeps_tag_control_of_userWrite :
    servedState.tag.tagctrl.toNat = 0xffff ∧
    servedState.tag.mutagctrlen = supervisedState.tag.mutagctrlen ∧
    servedState.tag.mstagctrlen = supervisedState.tag.mstagctrlen ∧
    (∀ b, (0xff#64 ||| 0xffff#64 : BitVec 64).getLsbD b = false →
      servedState.tag.tagctrl.getLsbD b = (0#64).getLsbD b) ∧
    servedState.mstatus.prv = PRV.U ∧ (cycle servedState environmentCall).mstatus.prv = PRV.S ∧
    redirect servedState environmentCall = some (trapVector servedState PRV.S) := by
  obtain ⟨sameU, sameS, kept, last⟩ := lower_privilege_keeps_tag_control (.inl rfl) steps_supervisedCall
  have user : servedState.mstatus.prv = PRV.U := by decide +kernel
  have raised : (cycle servedState environmentCall).mstatus.prv = PRV.S := by
    decide +kernel
  have lower : lowerCycle servedState environmentCall :=
    ⟨by rw [user]; decide, by unfold Decoded; decide +kernel⟩
  have vector := ((last environmentCall lower).2 (by rw [user, raised]; decide)).2
  rw [raised] at vector
  exact ⟨by decide +kernel, sameU, sameS, kept, user, raised, vector⟩

/-! Supervisor mode is reached only in a configuration that has it. -/

@[simp] theorem writeSstatus_mpp (s : CsrState c) (i : CsrInput c) (m : MStatus) :
    (writeSstatus s i m).mpp = m.mpp := by
  unfold writeSstatus
  split <;> rfl

theorem supported_writeMstatus {s : CsrState c} {i : CsrInput c} {m : MStatus} (mpp : Supported c m.mpp) :
    Supported c (writeMstatus s i m).mpp := by
  unfold writeMstatus
  split
  · dsimp only
    split
    · assumption
    · exact mpp
  · exact mpp

def SupportedModes (s : CsrState c) : Prop := Supported c s.mstatus.prv ∧ Supported c s.mstatus.mpp

theorem SupportedModes.cycle {s : CsrState c} (i : CsrInput c) (modes : SupportedModes s) :
    SupportedModes (CsrFile.cycle s i) := by
  constructor
  · rw [cycle_prv]
    split_ifs with ret toS trap delegated
    · have vm : c.usingVM = true := by
        simp only [returnsToS, Bool.and_eq_true] at toS
        exact toS.1
      exact .inr (supported_spp vm _)
    · exact modes.2
    · exact .inr (.inr ⟨usingVM_of_delegate delegated, rfl⟩)
    · exact .inl rfl
    · exact modes.1
  · simp only [CsrFile.cycle, nextMstatus, writeSstatus_mpp]
    refine supported_writeMstatus ?_
    unfold retMstatus
    split_ifs
    · unfold trapMstatus
      split_ifs
      · exact modes.2
      · exact modes.1
      · exact modes.2
    · exact .inr (.inl rfl)
    · unfold trapMstatus
      split_ifs
      · exact modes.2
      · exact modes.1
      · exact modes.2

/-- After reset a core that is not in machine mode is below it, at a level it has. -/
theorem belowMachine_of_reset {s t : CsrState c} (reset : OnReset s) (run : Steps clock anyEvent s t)
    (lower : t.mstatus.prv ≠ PRV.M) : BelowMachine t := by
  have modes : SupportedModes t := by
    refine run.invariant ⟨.inl reset.1, .inl reset.2⟩ ?_
    intro t u i modes _ fired
    cases Option.some.inj fired
    exact modes.cycle i
  exact modes.1.resolve_left lower

end LowRisc.Rocket.CsrFile
