import LowRisc.Debug.RegFraming
import LowRisc.Debug.Mam

/-! What a stream of flits makes the memory access module do.

`Leads` follows the state machine flit by flit, without a stall. Every run of the module with
its layer, whatever the stalls, keeps to what `Leads` says of the flits not yet taken.
-/

set_option autoImplicit false

namespace LowRisc.Debug

open LowRisc.Lib

structure MamCore where
  mam : MamRegs
  memory : MamMemory
  sent : List Flit

namespace MamCore

def listening (c : MamCore) : Bool := Mam.dp_in_ready c.mam

def out (p : MamParams) (c : MamCore) (io : MamPorts) : List Flit :=
  (Mam.dp_out p c.mam c.memory io.read_valid).passed io.dp_out_ready

def next (p : MamParams) (c : MamCore) (io : MamPorts) : MamCore :=
  ⟨Mam.next p c.mam io, Mam.memoryNext p c.mam c.memory io, c.sent ++ c.out p io⟩

/-- The cycle in which the flit `f` is taken and nothing stalls. -/
def take (p : MamParams) (c : MamCore) (f : Flit) : MamCore := c.next p ⟨.ofFlit f, true, true, true, true⟩

/-- A cycle of a state machine that takes no flits, when nothing stalls. -/
def go (p : MamParams) (c : MamCore) : MamCore := c.next p ⟨.idle, true, true, true, true⟩

/-- From `c` the flits lead to `d`. -/
inductive Leads (p : MamParams) : MamCore → List Flit → MamCore → Prop where
  | rest (c : MamCore) : Leads p c [] c
  | go {c d : MamCore} {flits : List Flit} : c.listening = false → Leads p (c.go p) flits d → Leads p c flits d
  | take {c d : MamCore} {f : Flit} {flits : List Flit} : c.listening = true →
      Leads p (c.take p f) flits d → Leads p c (f :: flits) d

variable {p : MamParams} {c d e : MamCore} {f : Flit} {flits more : List Flit}

theorem Leads.trans (first : Leads p c flits d) (second : Leads p d more e) :
    Leads p c (flits ++ more) e := by
  induction first with
  | rest => exact second
  | go busy _ ih => exact .go busy (ih second)
  | take ready _ ih => exact .take ready (ih second)

theorem Leads.then_go (run : Leads p c flits d) (busy : d.listening = false) : Leads p c flits (d.go p) := by
  have whole := run.trans (.go busy (.rest _))
  rwa [List.append_nil] at whole

theorem Leads.of_go (run : Leads p c flits d) (settled : d.listening = true) (busy : c.listening = false) :
    Leads p (c.go p) flits d := by
  cases run with
  | rest => rw [busy] at settled; cases settled
  | go _ run => exact run
  | take ready _ => rw [busy] at ready; cases ready

theorem Leads.of_take (run : Leads p c (f :: flits) d) (ready : c.listening = true) :
    Leads p (c.take p f) flits d := by
  cases run with
  | go busy _ => rw [ready] at busy; cases busy
  | take _ run => exact run

theorem Leads.of_nil (run : Leads p c [] d) (ready : c.listening = true) : d = c := by
  cases run with
  | rest => rfl
  | go busy _ => rw [ready] at busy; cases busy

/-! Some registers are overwritten before they are read. -/

def essence (s : MamRegs) : MamRegs :=
  match s.phase with
  | .cmd =>
    { s with in_packet := false, write_strb := 0, req_rw := false, req_burst := false, req_beats := 0 }
  | .addr => { s with in_packet := false, req_addr := upd s.req_addr s.counter 0 }
  | .write | .writeSingle => { s with in_packet := false, write_data_reg := upd s.write_data_reg s.wcounter 0 }
  | .writeWait => s
  | _ => { s with in_packet := false }

/-- The same but for registers that do not matter. -/
structure Alike (c d : MamCore) : Prop where
  mam : essence c.mam = essence d.mam
  memory : c.memory = d.memory
  sent : c.sent = d.sent

theorem Alike.refl (c : MamCore) : Alike c c := ⟨rfl, rfl, rfl⟩

theorem Alike.trans (first : Alike c d) (second : Alike d e) : Alike c e :=
  ⟨first.mam.trans second.mam, first.memory.trans second.memory, first.sent.trans second.sent⟩

theorem Alike.symm (same : Alike c d) : Alike d c := ⟨same.mam.symm, same.memory.symm, same.sent.symm⟩

@[simp] theorem essence_phase (s : MamRegs) : (essence s).phase = s.phase := by
  simp only [essence]
  split <;> rfl

theorem Alike.phase (same : Alike c d) : c.mam.phase = d.mam.phase := by
  rw [← essence_phase c.mam, same.mam, essence_phase]

theorem Alike.listening (same : Alike c d) : c.listening = d.listening := by
  simp only [MamCore.listening, Mam.dp_in_ready, same.phase]

theorem upd_eq_upd {f g : Nat → Word} {i : Nat} {v : Word} (same : upd f i v = upd g i v) (w : Word) :
    upd f i w = upd g i w := by
  funext j
  by_cases here : j = i
  · simp [here]
  · have at_j := congrFun same j
    simpa [here] using at_j

@[simp] theorem upd_upd (f : Nat → Word) (i : Nat) (v w : Word) : upd (upd f i v) i w = upd f i w := by
  funext j
  by_cases here : j = i <;> simp [here]

theorem Alike.take (same : Alike c d) (ready : c.listening = true) (f : Flit) :
    Alike (c.take p f) (d.take p f) := by
  obtain ⟨⟨phase, counter, wcounter, inPacket, isLast, beats, rw, burst, addr, data, strb⟩, memory, sent⟩ := c
  obtain ⟨⟨phase', counter', wcounter', inPacket', isLast', beats', rw', burst', addr', data', strb'⟩,
    memory', sent'⟩ := d
  obtain ⟨mam, memory, sent⟩ := same
  simp only at memory sent
  subst memory sent
  have phases : phase = phase' := by simpa using congrArg MamRegs.phase mam
  subst phases
  cases phase with
  | request | writeWait | readPacket | read | writeSingleWait => simp [MamCore.listening, Mam.dp_in_ready] at ready
  -- registers that a phase does not read may differ, and each flit overwrites some of them
  | inactive | cmdSkip =>
    simp only [essence, MamRegs.mk.injEq, true_and] at mam
    obtain ⟨rfl, rfl, rfl, rfl, rfl, rfl, rfl, rfl, rfl⟩ := mam
    exact ⟨rfl, rfl, rfl⟩
  | writePacket =>
    simp only [essence, MamRegs.mk.injEq, true_and] at mam
    obtain ⟨rfl, rfl, rfl, rfl, rfl, rfl, rfl, rfl, rfl⟩ := mam
    refine ⟨?_, rfl, rfl⟩
    -- the second flit of a packet leads to the first word of data
    by_cases second : counter = 1 <;>
      simp [MamCore.take, MamCore.next, Mam.next, Mam.nextWritePacket, DiiFlit.ofFlit, essence, second]
  | cmd =>
    simp only [essence, MamRegs.mk.injEq, true_and] at mam
    obtain ⟨rfl, rfl, rfl, rfl, rfl, -⟩ := mam
    exact ⟨rfl, rfl, rfl⟩
  | addr =>
    simp only [essence, MamRegs.mk.injEq, true_and] at mam
    obtain ⟨rfl, rfl, rfl, rfl, rfl, rfl, slices, rfl, rfl⟩ := mam
    refine ⟨?_, rfl, rfl⟩
    simp only [MamCore.take, MamCore.next, Mam.next, Mam.nextAddr, upd_eq_upd slices f.data, DiiFlit.ofFlit]
    by_cases complete : (counter == p.addrWords - 1) = true <;> simp [essence, complete]
  | write =>
    simp only [essence, MamRegs.mk.injEq, true_and] at mam
    obtain ⟨rfl, rfl, rfl, rfl, rfl, rfl, rfl, slices, rfl⟩ := mam
    have filled := upd_eq_upd slices f.data
    obtain ⟨last, word⟩ := f
    refine ⟨?_, ?_, rfl⟩
    · simp only [MamCore.take, MamCore.next, Mam.next, Mam.nextWrite, Mam.beatTaken, filled, DiiFlit.ofFlit]
      by_cases complete : wcounter = p.dataWords - 1 <;> by_cases final : beats = 1#14 <;>
        cases last <;> simp [essence, complete, final]
    · simp [MamCore.take, MamCore.next, Mam.memoryNext, Mam.req_valid, Mam.write_valid, Mam.read_ready,
        Mam.write_data, Mam.write_data_m, DiiFlit.ofFlit, filled]
      rfl
  | writeSingle =>
    simp only [essence, MamRegs.mk.injEq, true_and] at mam
    obtain ⟨rfl, rfl, rfl, rfl, rfl, rfl, rfl, slices, rfl⟩ := mam
    have filled := upd_eq_upd slices f.data
    refine ⟨?_, ?_, rfl⟩
    · simp only [MamCore.take, MamCore.next, Mam.next, Mam.nextWriteSingle, filled, DiiFlit.ofFlit]
      by_cases complete : wcounter = p.dataWords - 1 <;> simp [essence, complete]
    · simp [MamCore.take, MamCore.next, Mam.memoryNext, Mam.req_valid, Mam.write_valid, Mam.read_ready,
        Mam.write_data, Mam.write_data_m, DiiFlit.ofFlit, filled]
      rfl

theorem Alike.go (same : Alike c d) (busy : c.listening = false) : Alike (c.go p) (d.go p) := by
  obtain ⟨⟨phase, counter, wcounter, inPacket, isLast, beats, rw, burst, addr, data, strb⟩, memory, sent⟩ := c
  obtain ⟨⟨phase', counter', wcounter', inPacket', isLast', beats', rw', burst', addr', data', strb'⟩,
    memory', sent'⟩ := d
  obtain ⟨mam, memory, sent⟩ := same
  simp only at memory sent
  subst memory sent
  have phases : phase = phase' := by simpa using congrArg MamRegs.phase mam
  subst phases
  cases phase with
  | inactive | cmdSkip | cmd | addr | writePacket | write | writeSingle =>
    simp [MamCore.listening, Mam.dp_in_ready] at busy
  | writeWait =>
    simp only [essence] at mam
    rw [mam]
    exact Alike.refl _
  | request | writeSingleWait =>
    simp only [essence, MamRegs.mk.injEq, true_and] at mam
    obtain ⟨rfl, rfl, rfl, rfl, rfl, rfl, rfl, rfl, rfl⟩ := mam
    exact ⟨rfl, rfl, rfl⟩
  | readPacket =>
    simp only [essence, MamRegs.mk.injEq, true_and] at mam
    obtain ⟨rfl, rfl, rfl, rfl, rfl, rfl, rfl, rfl, rfl⟩ := mam
    refine ⟨?_, rfl, rfl⟩
    by_cases second : counter = 1 <;>
      simp [MamCore.go, MamCore.next, Mam.next, Mam.nextReadPacket, essence, second]
  | read =>
    simp only [essence, MamRegs.mk.injEq, true_and] at mam
    obtain ⟨rfl, rfl, rfl, rfl, rfl, rfl, rfl, rfl, rfl⟩ := mam
    refine ⟨?_, rfl, rfl⟩
    by_cases complete : wcounter = p.dataWords - 1 <;> by_cases final : beats = 1#14 <;>
      by_cases full : counter = p.maxPktLen - 1 <;>
      simp [MamCore.go, MamCore.next, Mam.next, Mam.nextRead, Mam.flitSent, essence, complete, final, full]

theorem alike_noise (ready : c.listening = true) {io : MamPorts} (down : io.dp_in.valid = false) :
    Alike (c.next p io) c := by
  obtain ⟨⟨phase, counter, wcounter, inPacket, isLast, beats, rw, burst, addr, data, strb⟩, memory, sent⟩ := c
  cases phase with
  | request | writeWait | readPacket | read | writeSingleWait => simp [listening, Mam.dp_in_ready] at ready
  | inactive | cmdSkip | cmd | addr | writePacket | write | writeSingle =>
    refine ⟨?_, ?_, ?_⟩
    · simp [MamCore.next, Mam.next, Mam.nextCmd, Mam.nextAddr, Mam.nextWritePacket, Mam.nextWrite,
        Mam.nextWriteSingle, essence, down]
    · simp [MamCore.next, Mam.memoryNext, Mam.req_valid, Mam.write_valid, Mam.read_ready, down]
    · simp [MamCore.next, out, Mam.dp_out, DiiFlit.passed, DiiFlit.idle]

theorem alike_taken (ready : c.listening = true) {io : MamPorts} (up : io.dp_in = .ofFlit f) :
    Alike (c.next p io) (c.take p f)
      ∨ (c.next p io).listening = false ∧ Alike ((c.next p io).go p) (c.take p f) := by
  obtain ⟨⟨phase, counter, wcounter, inPacket, isLast, beats, rw, burst, addr, data, strb⟩, memory, sent⟩ := c
  obtain ⟨dp_in, out_ready, req_ready, write_ready, read_valid⟩ := io
  simp only at up
  subst up
  cases phase with
  | request | writeWait | readPacket | read | writeSingleWait => simp [listening, Mam.dp_in_ready] at ready
  -- these phases use no other port
  | inactive | cmdSkip | cmd | addr | writePacket =>
    left
    refine ⟨rfl, rfl, ?_⟩
    simp [MamCore.take, MamCore.next, out, Mam.dp_out, DiiFlit.passed, DiiFlit.idle]
  | write =>
    -- only the last word of a beat needs the memory, which may let it wait
    by_cases complete : wcounter = p.dataWords - 1
    · cases write_ready with
      | true =>
        left
        exact ⟨rfl, rfl, rfl⟩
      | false =>
        right
        refine ⟨by simp [listening, Mam.dp_in_ready, MamCore.next, Mam.next, Mam.nextWrite, DiiFlit.ofFlit, complete],
          ?_, ?_, ?_⟩
        · by_cases final : beats = 1#14 <;> cases last : f.last <;>
          simp [MamCore.take, MamCore.go, MamCore.next, Mam.next, Mam.nextWrite, Mam.nextWriteWait, Mam.beatTaken,
            DiiFlit.ofFlit, complete, final, essence, last]
        · simp [MamCore.take, MamCore.go, MamCore.next, Mam.next, Mam.nextWrite, Mam.memoryNext, Mam.req_valid,
            Mam.write_valid, Mam.read_ready, Mam.write_data, Mam.write_data_m, DiiFlit.ofFlit, complete]
          rfl
        · simp [MamCore.take, MamCore.go, MamCore.next, Mam.next, Mam.nextWrite, out, Mam.dp_out, DiiFlit.passed,
            DiiFlit.ofFlit, DiiFlit.idle, complete]
    · left
      refine ⟨?_, ?_, rfl⟩
      · simp [MamCore.take, MamCore.next, Mam.next, Mam.nextWrite, DiiFlit.ofFlit, complete]
      · simp [MamCore.take, MamCore.next, Mam.memoryNext, Mam.req_valid, Mam.write_valid, Mam.read_ready,
          DiiFlit.ofFlit, complete]
  | writeSingle =>
    by_cases complete : wcounter = p.dataWords - 1
    -- the same for a single write
    · cases write_ready with
      | true =>
        left
        exact ⟨rfl, rfl, rfl⟩
      | false =>
        right
        refine ⟨by simp [listening, Mam.dp_in_ready, MamCore.next, Mam.next, Mam.nextWriteSingle, DiiFlit.ofFlit,
          complete], ?_, ?_, ?_⟩
        · simp [MamCore.take, MamCore.go, MamCore.next, Mam.next, Mam.nextWriteSingle, DiiFlit.ofFlit, complete,
            essence]
        · simp [MamCore.take, MamCore.go, MamCore.next, Mam.next, Mam.nextWriteSingle, Mam.memoryNext, Mam.req_valid,
            Mam.write_valid, Mam.read_ready, Mam.write_data, Mam.write_data_m, DiiFlit.ofFlit, complete]
          rfl
        · simp [MamCore.take, MamCore.go, MamCore.next, Mam.next, Mam.nextWriteSingle, out, Mam.dp_out, DiiFlit.passed,
            DiiFlit.ofFlit, DiiFlit.idle, complete]
    · left
      refine ⟨?_, ?_, rfl⟩
      · simp [MamCore.take, MamCore.next, Mam.next, Mam.nextWriteSingle, DiiFlit.ofFlit, complete]
      · simp [MamCore.take, MamCore.next, Mam.memoryNext, Mam.req_valid, Mam.write_valid, Mam.read_ready,
          DiiFlit.ofFlit, complete]

/-- While the state machine takes a flit, the way out and the other ports do not count. -/
theorem next_of_listening (ready : c.listening = true) (f : Flit) (out_ready : Bool) :
    c.next p ⟨.ofFlit f, out_ready, true, true, true⟩ = c.take p f := by
  obtain ⟨⟨phase, counter, wcounter, inPacket, isLast, beats, rw, burst, addr, data, strb⟩, memory, sent⟩ := c
  cases phase with
  | request | writeWait | readPacket | read | writeSingleWait => simp [listening, Mam.dp_in_ready] at ready
  | inactive | cmdSkip | cmd | addr | writePacket | write | writeSingle =>
    simp only [MamCore.take, MamCore.next, out, Mam.dp_out, DiiFlit.passed, DiiFlit.idle]
    rfl

def permitted (c : MamCore) (io : MamPorts) : Bool :=
  match c.mam.phase with
  | .request => io.req_ready
  | .writeWait | .writeSingleWait => io.write_ready
  | .readPacket => io.dp_out_ready
  | .read => io.read_valid && io.dp_out_ready
  | _ => false

theorem next_of_busy (busy : c.listening = false) (io : MamPorts) :
    c.next p io = if c.permitted io then c.go p else c := by
  obtain ⟨⟨phase, counter, wcounter, inPacket, isLast, beats, rw, burst, addr, data, strb⟩, memory, sent⟩ := c
  obtain ⟨dp_in, out_ready, req_ready, write_ready, read_valid⟩ := io
  cases phase with
  | inactive | cmdSkip | cmd | addr | writePacket | write | writeSingle =>
    simp [listening, Mam.dp_in_ready] at busy
  | request =>
    cases req_ready <;>
      simp [permitted, MamCore.next, MamCore.go, Mam.next, Mam.nextRequest, Mam.memoryNext, Mam.req_valid,
        Mam.write_valid, Mam.read_ready, out, Mam.dp_out, DiiFlit.passed, DiiFlit.idle]
  | writeWait =>
    cases write_ready <;>
      simp [permitted, MamCore.next, MamCore.go, Mam.next, Mam.nextWriteWait, Mam.memoryNext, Mam.req_valid,
        Mam.write_valid, Mam.read_ready, out, Mam.dp_out, DiiFlit.passed, DiiFlit.idle]
    rfl
  | writeSingleWait =>
    cases write_ready <;>
      simp [permitted, MamCore.next, MamCore.go, Mam.next, Mam.memoryNext, Mam.req_valid,
        Mam.write_valid, Mam.read_ready, out, Mam.dp_out, DiiFlit.passed, DiiFlit.idle]
    rfl
  | readPacket =>
    cases out_ready <;>
      simp [permitted, MamCore.next, MamCore.go, Mam.next, Mam.nextReadPacket, Mam.memoryNext, Mam.req_valid,
        Mam.write_valid, Mam.read_ready, out, Mam.dp_out, DiiFlit.passed]
  | read =>
    cases out_ready <;> cases read_valid <;>
      simp [permitted, MamCore.next, MamCore.go, Mam.next, Mam.nextRead, Mam.memoryNext, Mam.req_valid,
        Mam.write_valid, Mam.read_ready, out, Mam.dp_out, DiiFlit.passed, DiiFlit.idle]

theorem Leads.alike (run : Leads p c flits d) {c' : MamCore} (same : Alike c c') :
    ∃ d', Leads p c' flits d' ∧ Alike d d' := by
  induction run generalizing c' with
  | rest => exact ⟨c', .rest c', same⟩
  | go busy _ ih =>
    obtain ⟨d', run', alike⟩ := ih (same.go busy)
    exact ⟨d', .go (same.listening ▸ busy) run', alike⟩
  | take ready _ ih =>
    obtain ⟨d', run', alike⟩ := ih (same.take ready _)
    exact ⟨d', .take (same.listening ▸ ready) run', alike⟩

end MamCore

/-! The layer hands the packets of the module over and sends its answers. -/

/-- A packet that is not a register access. -/
def IsPlain (packet : List Word) : Prop :=
  ∃ dest type rest, packet = dest :: type :: rest ∧ type.extractLsb' 14 2 ≠ 0#2

def packetStream (packets : List (List Word)) : List Flit := packets.flatMap frame

namespace Layer

variable {r : RegParams} {s : LayerSystem} {io : LayerInput}

def bypassed (s : LayerSystem) (io : LayerInput) : Bool :=
  Demux.out_bypass_valid s.layer.demux (inPort s io) && io.module_out_ready

theorem bypass_boundary (r : RegParams) (io : LayerInput) (boundary : s.layer.demux.worm = false)
    (typed : s.layer.demux.first = true → ∀ f ∈ s.pending.head?, f.data.extractLsb' 14 2 ≠ 0#2) :
    unread (cycle r s io) = (if bypassed s io then (unread s).tail else unread s)
    ∧ (cycle r s io).layer.demux.worm = bypassed s io
    ∧ (bypassed s io = true → (cycle r s io).layer.demux.first = false
        ∧ (cycle r s io).layer.demux.regaccess = false ∧ s.layer.demux.first = true)
    ∧ Demux.out_reg_valid s.layer.demux (inPort s io) = false := by
  obtain ⟨⟨⟨buf, worm, first, regaccess⟩, reg, mux⟩, pending, log, answers⟩ := s
  simp only at boundary typed
  subst boundary
  cases first with
  | false =>
    cases pending with
    | nil => simp [unread, cycle, bypassed, inPort, offered, Demux.next, Demux.active, Demux.out_bypass_valid,
        Demux.out_reg_valid]
    | cons f rest =>
      cases offer : io.offer <;>
        simp [unread, cycle, bypassed, inPort, offered, offer, Demux.next, Demux.active, Demux.out_bypass_valid,
          Demux.out_reg_valid, debug_in_ready, Demux.in_ready, DiiFlit.ofFlit, DiiFlit.flit]
  | true =>
    cases pending with
    | nil => simp [unread, cycle, bypassed, inPort, offered, Demux.next, Demux.active, Demux.out_bypass_valid,
        Demux.out_reg_valid]
    | cons f rest =>
      have plain := typed rfl f rfl
      cases offer : io.offer <;> cases ready : io.module_out_ready <;>
        simp [unread, cycle, bypassed, inPort, offered, offer, ready, plain, Demux.next, Demux.active,
          Demux.out_reg_valid, Demux.out_bypass_valid, Demux.in_is_regaccess, debug_in_ready, Demux.in_ready,
          DiiFlit.ofFlit, DiiFlit.flit]

theorem bypass_worm (r : RegParams) (io : LayerInput) (worm : s.layer.demux.worm = true) (first : s.layer.demux.first = false)
    (bypass : s.layer.demux.regaccess = false) :
    unread (cycle r s io) = (if bypassed s io then (unread s).tail else unread s)
    ∧ (cycle r s io).layer.demux.worm = !(bypassed s io && s.layer.demux.buf.last)
    ∧ ((cycle r s io).layer.demux.worm = true → (cycle r s io).layer.demux.first = false)
    ∧ (cycle r s io).layer.demux.regaccess = false
    ∧ Demux.out_reg_valid s.layer.demux (inPort s io) = false := by
  obtain ⟨⟨⟨buf, _, _, _⟩, reg, mux⟩, pending, log, answers⟩ := s
  simp only at worm first bypass
  subst worm first bypass
  cases pending with
  | nil =>
    cases last : buf.last <;> cases ready : io.module_out_ready <;>
      simp [unread, cycle, bypassed, inPort, offered, last, ready, Demux.next, Demux.active, Demux.out_reg_valid,
        Demux.out_bypass_valid]
  | cons f rest =>
    cases offer : io.offer <;> cases last : buf.last <;> cases ready : io.module_out_ready <;>
      simp [unread, cycle, bypassed, inPort, offered, offer, last, ready, Demux.next, Demux.active,
        Demux.out_reg_valid, Demux.out_bypass_valid, debug_in_ready, Demux.in_ready, DiiFlit.ofFlit,
        DiiFlit.flit]

/-- Only plain packets are under way, and the register access layer is silent. -/
structure Quiet (s : LayerSystem) : Prop where
  reg : s.layer.reg.phase = .idle
  mux : s.layer.mux ≠ .wormRing
  demux : (s.layer.demux.worm = false
      ∧ ∃ packets, (∀ packet ∈ packets, IsPlain packet) ∧ unread s = packetStream packets)
    ∨ (s.layer.demux.worm = true ∧ s.layer.demux.first = false ∧ s.layer.demux.regaccess = false
      ∧ ∃ w ws packets, (∀ packet ∈ packets, IsPlain packet) ∧ unread s = frame (w :: ws) ++ packetStream packets)

theorem frame_cons (w : Word) (ws : List Word) : frame (w :: ws) = ⟨ws.isEmpty, w⟩ :: frame ws := by
  cases ws <;> rfl

theorem plain_typed {packets : List (List Word)} (plain : ∀ packet ∈ packets, IsPlain packet)
    (boundary : unread s = packetStream packets) (first : s.layer.demux.first = true) :
    ∃ dest type rest more, type.extractLsb' 14 2 ≠ 0#2 ∧ (∀ packet ∈ more, IsPlain packet)
      ∧ s.layer.demux.buf = ⟨false, dest⟩ ∧ s.pending = frame (type :: rest) ++ packetStream more := by
  rw [unread_of_active (by simp [Demux.active, first])] at boundary
  cases packets with
  | nil => simp [packetStream] at boundary
  | cons packet more =>
    obtain ⟨dest, type, rest, rfl, typed⟩ := plain packet (by simp)
    simp only [packetStream, List.flatMap_cons, frame_cons_cons, List.cons_append, List.cons.injEq] at boundary
    exact ⟨dest, type, rest, more, typed, fun q member => plain q (by simp [member]), boundary.1, boundary.2⟩

/-- One cycle: the flits go on in order, and what leaves is from the module. -/
structure QuietCycle (r : RegParams) (s : LayerSystem) (io : LayerInput) : Prop where
  quiet : Quiet (cycle r s io)
  unread : unread (cycle r s io) = if bypassed s io then (Layer.unread s).tail else Layer.unread s
  buffered : bypassed s io = true → Layer.unread s = s.layer.demux.buf :: (Layer.unread s).tail
  log : (cycle r s io).log.map Prod.snd = s.log.map Prod.snd ++ io.module_in.passed io.debug_out_ready
  ready : io.module_in.valid = true →
    RingRouterMux.in_ready s.layer.mux (RegAccess.debug_out r s.layer.reg) io.module_in io.debug_out_ready .loc
      = io.debug_out_ready

theorem Quiet.way_out (inv : Quiet s) (r : RegParams) (io : LayerInput) :
    (cycle r s io).layer.mux ≠ .wormRing
    ∧ (cycle r s io).log.map Prod.snd = s.log.map Prod.snd ++ io.module_in.passed io.debug_out_ready
    ∧ (io.module_in.valid = true →
      RingRouterMux.in_ready s.layer.mux (RegAccess.debug_out r s.layer.reg) io.module_in io.debug_out_ready .loc
        = io.debug_out_ready) := by
  have silent : RegAccess.debug_out r s.layer.reg = .idle := by simp [RegAccess.debug_out, inv.reg]
  have mux := inv.mux
  cases turned : s.layer.mux with
  | wormRing => exact absurd turned mux
  | noworm =>
    cases up : io.module_in.valid <;> cases ready : io.debug_out_ready <;> cases last : io.module_in.last <;>
      simp [cycle, silent, turned, RingRouterMux.nxt_state, RingRouterMux.selected, RingRouterMux.out_mux,
        RingRouterMux.port, RingRouterMux.wormState, RingRouterMux.transfer, RingRouterMux.in_ready,
        DiiFlit.idle, DiiFlit.passed, up, ready, last]
  | wormLocal =>
    cases up : io.module_in.valid <;> cases ready : io.debug_out_ready <;> cases last : io.module_in.last <;>
      simp [cycle, turned, RingRouterMux.nxt_state, RingRouterMux.selected, RingRouterMux.out_mux,
        RingRouterMux.port, RingRouterMux.transfer, RingRouterMux.in_ready,
        DiiFlit.passed, up, ready, last]

theorem reg_idle (phase : s.layer.reg.phase = .idle)
    (silent : Demux.out_reg_valid s.layer.demux (inPort s io) = false) :
    (cycle r s io).layer.reg.phase = .idle := by
  simp [cycle, RegAccess.next, phase, Demux.out_reg, silent]

theorem Quiet.cycle (inv : Quiet s) (r : RegParams) (io : LayerInput) : QuietCycle r s io := by
  obtain ⟨mux', log', ready⟩ := inv.way_out r io
  obtain ⟨boundary, packets, plain, rest⟩ | ⟨worm, first, bypass, w, ws, packets, plain, rest⟩ := inv.demux
  -- a packet for the module is told apart by the type in its second flit
  · have typed : s.layer.demux.first = true → ∀ f ∈ s.pending.head?, f.data.extractLsb' 14 2 ≠ 0#2 := by
      intro first
      obtain ⟨dest, type, words, more, typed, -, -, pending⟩ := plain_typed plain rest first
      rw [pending, frame_cons]
      simpa using typed
    obtain ⟨unread', worm', taken, silent⟩ := bypass_boundary r io boundary typed
    refine ⟨⟨reg_idle inv.reg silent, mux', ?_⟩, unread', ?_, log', ready⟩
    · cases moved : bypassed s io with
      | false =>
        left
        rw [worm', unread', moved]
        exact ⟨rfl, packets, plain, by simpa using rest⟩
      | true =>
        right
        obtain ⟨first', bypass', first⟩ := taken moved
        obtain ⟨dest, type, words, more, -, plain', buffer, pending⟩ := plain_typed plain rest first
        refine ⟨by rw [worm', moved], first', bypass', type, words, more, plain', ?_⟩
        rw [unread', moved, if_pos rfl, unread_of_active (by simp [Demux.active, first]), pending, List.tail_cons]
    · intro moved
      obtain ⟨-, -, first⟩ := taken moved
      -- between two packets: a flit that moves opens the next one
      rw [unread_of_active (by simp [Demux.active, first]), List.tail_cons]
  · obtain ⟨unread', worm', first', bypass', silent⟩ := bypass_worm r io worm first bypass
    have head : unread s = s.layer.demux.buf :: s.pending := unread_of_active (by simp [Demux.active, worm])
    have split := rest
    rw [head, frame_cons, List.cons_append, List.cons.injEq] at split
    obtain ⟨buffer, pending⟩ := split
    refine ⟨⟨reg_idle inv.reg silent, mux', ?_⟩, unread', ?_, log', ready⟩
    · cases moved : bypassed s io with
      | false =>
        right
        have worm'' : (Layer.cycle r s io).layer.demux.worm = true := by rw [worm', moved]; rfl
        refine ⟨worm'', first' worm'', bypass', w, ws, packets, plain, ?_⟩
        rw [unread', moved]
        exact rest
      | true =>
        -- inside a packet: the flit that moves may be its last
        cases ws with
        | nil =>
          left
          refine ⟨by rw [worm', moved, buffer]; rfl, packets, plain, ?_⟩
          rw [unread', moved, if_pos rfl, head, List.tail_cons, pending]
          rfl
        | cons v ws =>
          right
          have worm'' : (Layer.cycle r s io).layer.demux.worm = true := by rw [worm', moved, buffer]; rfl
          refine ⟨worm'', first' worm'', bypass', v, ws, packets, plain, ?_⟩
          rw [unread', moved, if_pos rfl, head, List.tail_cons, pending]
    · intro moved
      rw [head, List.tail_cons]

/-- A source that offers its flits reaches a module that is ready: the demultiplexer fills its
buffer in one cycle and passes a flit in every further one. -/
theorem Quiet.passes (inv : Quiet s) (r : RegParams) (io : LayerInput) (waiting : unread s ≠ []) (offer : io.offer = true)
    (ready : io.module_out_ready = true) :
    (Demux.active s.layer.demux = true → bypassed s io = true)
    ∧ (Demux.active s.layer.demux = false → bypassed s io = false
        ∧ Demux.active (Layer.cycle r s io).layer.demux = true) := by
  constructor
  · intro busy
    obtain ⟨boundary, packets, plain, rest⟩ | ⟨worm, first, bypass, w, ws, packets, plain, rest⟩ := inv.demux
    · have first : s.layer.demux.first = true := by simpa [Demux.active, boundary] using busy
      obtain ⟨dest, type, words, more, typed, -, -, pending⟩ := plain_typed plain rest first
      simp [bypassed, Demux.out_bypass_valid, inPort, pending, frame_cons, offered, offer, ready, first,
        DiiFlit.ofFlit, Demux.in_is_regaccess, typed]
    · rw [unread_of_active busy, frame_cons, List.cons_append, List.cons.injEq] at rest
      obtain ⟨buffer, pending⟩ := rest
      cases ahead : s.pending with
      | nil =>
        have ends : ws = [] := by
          cases ws with
          | nil => rfl
          | cons v ws => rw [ahead, frame_cons] at pending; simp at pending
        simp [bypassed, Demux.out_bypass_valid, inPort, ahead, offered, ready, worm, first, bypass, buffer, ends]
      | cons f more =>
        simp [bypassed, Demux.out_bypass_valid, inPort, ahead, offered, offer, ready, worm, first, bypass,
          DiiFlit.ofFlit]
  · intro empty
    have quiet : s.layer.demux.first = false ∧ s.layer.demux.worm = false := by
      simpa [Demux.active] using empty
    obtain ⟨f, more, pending⟩ : ∃ f more, s.pending = f :: more := by
      simp only [unread, empty, Bool.false_eq_true, if_false, List.nil_append] at waiting
      exact List.exists_cons_of_ne_nil waiting
    constructor
    · simp [bypassed, Demux.out_bypass_valid, quiet]
    · simp [Layer.cycle, Demux.next, Demux.active, inPort, pending, offered, offer, quiet, DiiFlit.ofFlit]

end Layer

namespace MamSystem

variable {p : MamParams} {s t : MamSystem} {d : MamCore}

def core (s : MamSystem) : MamCore := ⟨s.mam, s.memory, s.sent⟩

def unread (s : MamSystem) : List Flit := Layer.unread s.layer

theorem core_cycle (quiet : Layer.Quiet s.layer) (e : MamInput) :
    core (cycle p s e) = (core s).next p (ports p s e) := by
  have way := quiet.cycle p.regParams (layerInput p s e)
  have out : (layerInput p s e).module_in.passed (layerInput p s e).debug_out_ready
      = (core s).out p (ports p s e) := by
    show (Mam.dp_out p s.mam s.memory e.read_valid).passed e.debug_out_ready
      = (Mam.dp_out p s.mam s.memory e.read_valid).passed (ports p s e).dp_out_ready
    cases up : (Mam.dp_out p s.mam s.memory e.read_valid).valid with
    | false => simp [DiiFlit.passed, up]
    | true =>
      have same : (ports p s e).dp_out_ready = e.debug_out_ready := way.ready up
      rw [same]
  show MamCore.mk _ _ (sent (cycle p s e)) = MamCore.mk _ _ (s.sent ++ (core s).out p (ports p s e))
  rw [← out]
  exact congrArg _ way.log

/-- Whatever stalls come, the flits to come lead the module to `d`. -/
structure Heads (p : MamParams) (s : MamSystem) (d : MamCore) : Prop where
  quiet : Layer.Quiet s.layer
  settled : d.listening = true
  leads : ∃ d', MamCore.Leads p (core s) (unread s) d' ∧ MamCore.Alike d d'

theorem bypassed_eq (s : MamSystem) (e : MamInput) :
    Layer.bypassed s.layer (layerInput p s e) = ((ports p s e).dp_in.valid && (core s).listening) := rfl

theorem taken_leads {c d : MamCore} {f : Flit} {flits : List Flit} {io : MamPorts} (ready : c.listening = true)
    (up : io.dp_in = .ofFlit f) (run : MamCore.Leads p c (f :: flits) d) :
    ∃ d', MamCore.Leads p (c.next p io) flits d' ∧ MamCore.Alike d d' := by
  obtain same | ⟨busy, same⟩ := MamCore.alike_taken (p := p) ready up
  · exact (run.of_take ready).alike same.symm
  · obtain ⟨d', run', alike⟩ := (run.of_take ready).alike same.symm
    exact ⟨d', .go busy run', alike⟩

theorem Heads.cycle (inv : Heads p s d) (e : MamInput) : Heads p (cycle p s e) d := by
  have way := inv.quiet.cycle p.regParams (layerInput p s e)
  obtain ⟨d', run, alike⟩ := inv.leads
  have unread' : unread (MamSystem.cycle p s e) =
      if Layer.bypassed s.layer (layerInput p s e) then (unread s).tail else unread s := way.unread
  refine ⟨way.quiet, inv.settled, ?_⟩
  rw [core_cycle inv.quiet, unread', bypassed_eq]
  cases ready : (core s).listening with
  | false =>
    rw [Bool.and_false, MamCore.next_of_busy ready]
    by_cases moves : (core s).permitted (ports p s e) = true
    · rw [if_pos moves]
      exact ⟨d', run.of_go (alike.listening ▸ inv.settled) ready, alike⟩
    · rw [if_neg moves]
      exact ⟨d', run, alike⟩
  | true =>
    cases up : (ports p s e).dp_in.valid with
    | false =>
      obtain ⟨d'', run', alike'⟩ := run.alike (MamCore.alike_noise ready up).symm
      exact ⟨d'', run', alike.trans alike'⟩
    | true =>
      have moved : Layer.bypassed s.layer (layerInput p s e) = true := by rw [bypassed_eq, ready, up]; rfl
      have head : unread s = s.layer.layer.demux.buf :: (unread s).tail := way.buffered moved
      rw [head] at run
      have flit : (ports p s e).dp_in = .ofFlit s.layer.layer.demux.buf :=
        congrArg (fun valid => DiiFlit.mk valid s.layer.layer.demux.buf.last s.layer.layer.demux.buf.data) up
      obtain ⟨d'', run', alike'⟩ := taken_leads ready flit run
      exact ⟨d'', run', alike.trans alike'⟩

theorem Heads.run (inv : Heads p s d) (run : Steps (clock p) anyEvent s t) : Heads p t d :=
  run.invariant (I := fun u => Heads p u d) inv fun {_ _ _} kept _ fired => by
    cases Option.some.inj fired
    exact kept.cycle _

/-! A run can be completed. -/

def eager : MamInput := ⟨true, ⟨false, 0⟩, true, true, true, true, ⟨true, false, 0⟩⟩

theorem clocked (s : MamSystem) (e : MamInput) : Steps (clock p) anyEvent s (cycle p s e) :=
  .next (.refl s) trivial rfl

theorem permitted_eager (quiet : Layer.Quiet s.layer) (busy : (core s).listening = false) :
    (core s).permitted (ports p s eager) = true := by
  have way := quiet.cycle p.regParams (layerInput p s eager)
  have ready : (Mam.dp_out p s.mam s.memory true).valid = true → (ports p s eager).dp_out_ready = true := way.ready
  cases phase : s.mam.phase with
  | inactive | cmdSkip | cmd | addr | writePacket | write | writeSingle =>
    simp [MamCore.listening, core, Mam.dp_in_ready, phase] at busy
  | request | writeWait | writeSingleWait =>
    simp [MamCore.permitted, core, phase, ports, eager]
  | readPacket =>
    simpa [MamCore.permitted, core, phase] using ready (by simp [Mam.dp_out, phase, DiiFlit.ofFlit])
  | read =>
    have up := ready (by simp [Mam.dp_out, phase, DiiFlit.ofFlit])
    simp only [MamCore.permitted, core, phase, up, Bool.and_true]
    rfl

/-- When nothing stalls, the module goes the way that the flits lead. -/
theorem follows {c d : MamCore} {flits : List Flit} (run : MamCore.Leads p c flits d) :
    ∀ {s : MamSystem} {more : List Flit}, Layer.Quiet s.layer → MamCore.Alike c (core s) → unread s = flits ++ more →
      ∃ t, Steps (clock p) anyEvent s t ∧ unread t = more ∧ MamCore.Alike d (core t) := by
  induction run with
  | rest c =>
    intro s more _ alike ahead
    exact ⟨s, .refl s, ahead, alike⟩
  | go busy _ ih =>
    intro s more quiet alike ahead
    have way := quiet.cycle p.regParams (layerInput p s eager)
    have busy' : (core s).listening = false := alike.listening ▸ busy
    have unread' : unread (cycle p s eager) = unread s := by
      refine way.unread.trans (if_neg ?_)
      rw [bypassed_eq, busy', Bool.and_false]
      exact Bool.false_ne_true
    obtain ⟨t, steps, done⟩ := ih (s := cycle p s eager) way.quiet
      (by rw [core_cycle quiet, MamCore.next_of_busy busy', if_pos (permitted_eager quiet busy')]
          exact alike.go busy)
      (by rw [unread', ahead])
    exact ⟨t, (clocked s eager).trans steps, done⟩
  | @take c d f flits ready _ ih =>
    have waiting : ∀ {s : MamSystem} {more : List Flit}, unread s = f :: flits ++ more → Layer.unread s.layer ≠ [] := by
      intro s more ahead empty
      exact List.cons_ne_nil f (flits ++ more) (ahead.symm.trans empty)
    -- With the buffer of the demultiplexer filled, one cycle takes the flit.
    have taken : ∀ {s : MamSystem} {more : List Flit}, Layer.Quiet s.layer → MamCore.Alike c (core s) →
        unread s = f :: flits ++ more → Demux.active s.layer.layer.demux = true →
        ∃ t, Steps (clock p) anyEvent s t ∧ unread t = more ∧ MamCore.Alike d (core t) := by
      intro s more quiet alike ahead active
      have way := quiet.cycle p.regParams (layerInput p s eager)
      have ready' : (core s).listening = true := alike.listening ▸ ready
      have moved : Layer.bypassed s.layer (layerInput p s eager) = true :=
        (quiet.passes p.regParams _ (waiting ahead) rfl ready').1 active
      have head : unread s = s.layer.layer.demux.buf :: (unread s).tail := way.buffered moved
      have flit : f = s.layer.layer.demux.buf := by rw [ahead] at head; exact (List.cons.inj head).1
      have up : (ports p s eager).dp_in.valid = true := by
        rw [bypassed_eq, ready', Bool.and_true] at moved
        exact moved
      have port : ports p s eager = ⟨.ofFlit f, (ports p s eager).dp_out_ready, true, true, true⟩ := by
        rw [flit]
        exact congrArg (fun valid => MamPorts.mk ⟨valid, s.layer.layer.demux.buf.last, s.layer.layer.demux.buf.data⟩
          (ports p s eager).dp_out_ready true true true) up
      have core' : core (cycle p s eager) = (core s).take p f := by
        rw [core_cycle quiet, port]
        exact MamCore.next_of_listening ready' f _
      obtain ⟨t, steps, done⟩ := @ih (cycle p s eager) more way.quiet
        (by rw [core']; exact alike.take ready f)
        (way.unread.trans (by
          rw [if_pos moved]
          exact congrArg List.tail ahead))
      exact ⟨t, (clocked s eager).trans steps, done⟩
    intro s more quiet alike ahead
    cases active : Demux.active s.layer.layer.demux with
    | true => exact taken quiet alike ahead active
    | false =>
      have way := quiet.cycle p.regParams (layerInput p s eager)
      have ready' : (core s).listening = true := alike.listening ▸ ready
      obtain ⟨held, active'⟩ := (quiet.passes p.regParams (layerInput p s eager)
        (waiting ahead) rfl ready').2 active
      have down : (ports p s eager).dp_in.valid = false := by
        rw [bypassed_eq, ready', Bool.and_true] at held
        exact held
      obtain ⟨t, steps, done⟩ := taken (s := cycle p s eager) way.quiet
        (by rw [core_cycle quiet]
            exact alike.trans (MamCore.alike_noise ready' down).symm)
        (way.unread.trans (by rw [if_neg (by simp [held])]; exact ahead)) active'
      exact ⟨t, (clocked s eager).trans steps, done⟩

/-- The module has taken every flit and waits for a packet. -/
def Done (s : MamSystem) : Prop := unread s = [] ∧ s.mam.phase = .inactive

theorem Heads.completes (inv : Heads p s d) (ends : d.mam.phase = .inactive) :
    ∃ t, Steps (clock p) anyEvent s t ∧ Done t := by
  obtain ⟨d', run, alike⟩ := inv.leads
  obtain ⟨t, steps, empty, alike'⟩ := follows run inv.quiet (.refl _) (List.append_nil _).symm
  exact ⟨t, steps, empty, (alike.trans alike').phase.symm.trans ends⟩

/-- A run that is done has done what the flits lead to. -/
theorem Heads.done (inv : Heads p s d) (done : Done s) : MamCore.Alike d (core s) := by
  obtain ⟨d', run, alike⟩ := inv.leads
  have run' := run
  rw [done.1] at run'
  have ready : (core s).listening = true := by simp [MamCore.listening, core, Mam.dp_in_ready, done.2]
  cases run'.of_nil ready
  exact alike

theorem OnReset.quiet {packets : List (List Word)} (reset : OnReset p s (packetStream packets))
    (plain : ∀ packet ∈ packets, IsPlain packet) : Layer.Quiet s.layer ∧ unread s = packetStream packets := by
  obtain ⟨worm, first, reg, -, mux, -, -⟩ := reset.layer
  have ahead : Layer.unread s.layer = packetStream packets := by
    simp [Layer.unread, Demux.active, worm, first, reset.pending]
  exact ⟨⟨reg, by simp [mux], .inl ⟨worm, packets, plain, ahead⟩⟩, ahead⟩

/-- After reset the stream of plain packets decides what the module will do. -/
theorem OnReset.heads {packets : List (List Word)} (reset : OnReset p s (packetStream packets))
    (plain : ∀ packet ∈ packets, IsPlain packet)
    (run : MamCore.Leads p (core s) (packetStream packets) d) (settled : d.listening = true) :
    Heads p s d := by
  obtain ⟨quiet, ahead⟩ := reset.quiet plain
  exact ⟨quiet, settled, d, by rwa [ahead], .refl d⟩

theorem updates_grow (run : Steps (clock p) anyEvent s t) : s.memory.updates <+: t.memory.updates := by
  refine run.invariant (I := fun u => s.memory.updates <+: u.memory.updates) (List.prefix_refl _) ?_
  intro t u e before _ fired
  cases Option.some.inj fired
  refine before.trans ?_
  show t.memory.updates <+: (Mam.memoryNext p t.mam t.memory (ports p t e)).updates
  simp only [Mam.memoryNext]
  split
  · exact List.prefix_refl _
  · split
    · exact List.prefix_append _ _
    · split <;> exact List.prefix_refl _

end MamSystem

end LowRisc.Debug
