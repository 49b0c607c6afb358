import LowRisc.Debug.RegAccess

/-! Packet framing of the register access layer: which requests it consumes as a whole
and answers once. -/

set_option autoImplicit false

namespace LowRisc.Debug

open LowRisc.Lib

/-- A register access request packet; `dest` is the first word, `values` is what follows
the address. -/
structure Request where
  dest : Word
  reserved : Bool
  write : Bool
  size : BitVec 2
  source : BitVec 10
  addr : Word
  values : List Word
  deriving DecidableEq, Repr

namespace Request

def header (r : Request) : Word :=
  0#2 ++ BitVec.ofBool r.reserved ++ BitVec.ofBool r.write ++ r.size ++ r.source

def flits (r : Request) : List Flit := frame (r.dest :: r.header :: r.addr :: r.values)

/-- The address belongs to the register file behind `reg_request`. -/
def ext (r : Request) : Bool := RegAccess.isExt r.addr

theorem getLsbD_header (r : Request) (i : Nat) :
    r.header.getLsbD i =
      if i < 10 then r.source.getLsbD i
      else if i < 12 then r.size.getLsbD (i - 10)
      else if i = 12 then r.write
      else if i = 13 then r.reserved else false := by
  unfold header
  change BitVec.getLsbD (w := 2 + 1 + 1 + 2 + 10) _ i = _
  rw [BitVec.getLsbD_append, BitVec.getLsbD_append, BitVec.getLsbD_append, BitVec.getLsbD_append]
  simp only [BitVec.getLsbD_ofBool, BitVec.getLsbD_zero]
  split_ifs <;> first | rfl | omega | simp_all

@[simp] theorem header_type (r : Request) : r.header.extractLsb' 14 2 = 0#2 := by
  apply BitVec.eq_of_getLsbD_eq
  intro i inside
  rw [BitVec.getLsbD_extractLsb', getLsbD_header]
  simp [show ¬14 + i < 10 by omega, show ¬14 + i < 12 by omega, show 14 + i ≠ 12 by omega,
    show 14 + i ≠ 13 by omega]

theorem header_write (r : Request) : r.header.getLsbD 12 = r.write := by
  rw [getLsbD_header]
  rfl

@[simp] theorem header_size (r : Request) : r.header.extractLsb' 10 2 = r.size := by
  apply BitVec.eq_of_getLsbD_eq
  intro i inside
  rw [BitVec.getLsbD_extractLsb', getLsbD_header]
  simp [inside, show 10 + i < 12 by omega]

@[simp] theorem header_source (r : Request) : r.header.extractLsb' 0 10 = r.source := by
  apply BitVec.eq_of_getLsbD_eq
  intro i inside
  rw [BitVec.getLsbD_extractLsb', getLsbD_header]
  simp [inside]

/-- What the registers of the module itself answer: the identification registers are
read, the stall command is written to the control register. -/
def localAnswer (p : RegParams) (r : Request) : RegAnswer :=
  let supported :=
    if r.write then
      r.size == RegAccess.REQ_SIZE_16 && r.addr == RegAccess.REG_CS && p.canStall
        && r.values.any fun v => v.extractLsb' 11 5 == RegAccess.CS_STALL
    else r.addr == RegAccess.REG_MODID || r.addr == RegAccess.REG_VERSION
  ⟨supported, !supported, if r.addr = RegAccess.REG_MODID then p.modid else p.modversion⟩

/-- The response to a request: two words for a write or an error, else the value follows. -/
def response (p : RegParams) (r : Request) (a : RegAnswer) : List Flit :=
  frame ((0#6 ++ r.source) :: (0#4 ++ BitVec.ofBool r.write ++ BitVec.ofBool a.err ++ p.id)
    :: if r.write || a.err then [] else [a.rdata])

/-- The value of the stall register after a request was answered without an error. -/
def stallAfter (r : Request) (a : RegAnswer) (old : Bool) : Bool :=
  if !r.ext && r.write && !a.err then (r.values.head?.map fun v => v.getLsbD 0).getD old else old

/-- The requests the state machine reads to the end before it answers: a read of an
implemented register without a value, a write to the register file with one value, a
write to the module itself that either lacks its value or is a 16-bit write of one
value to the control register. -/
def Framed (r : Request) : Bool :=
  if r.ext then (if r.write then r.values.length == 1 else r.values.isEmpty)
  else if r.write then
    r.values.isEmpty
      || (r.values.length == 1 && r.size == RegAccess.REQ_SIZE_16 && r.addr == RegAccess.REG_CS)
  else r.values.isEmpty && (r.addr == RegAccess.REG_MODID || r.addr == RegAccess.REG_VERSION)

end Request

def stream (rs : List Request) : List Flit := rs.flatMap Request.flits

abbrev Answered := List (Request × RegAnswer)

namespace Answered

def requests (done : Answered) : List Request := done.map Prod.fst

def responses (p : RegParams) (done : Answered) : List Flit := done.flatMap fun d => d.1.response p d.2

def external (done : Answered) : List RegAnswer := (done.filter fun d => d.1.ext).map Prod.snd

def stall (done : Answered) : Bool := done.foldl (fun old d => d.1.stallAfter d.2 old) true

end Answered

namespace Layer

def emitted (s : LayerSystem) : List Flit := (s.log.filter fun sent => sent.1 == .ring).map Prod.snd

/-- The flits the state machine has not read: the buffered one and those to come. -/
def unread (s : LayerSystem) : List Flit :=
  (if Demux.active s.layer.demux then [s.layer.demux.buf] else []) ++ s.pending

def remaining (p : RegParams) (s : RegState) : List Flit :=
  let value := if s.req_write then [] else [RegAccess.valueFlit s]
  match s.phase with
  | .respStart => RegAccess.destFlit s :: RegAccess.srcFlit p s :: value
  | .respSrc => RegAccess.srcFlit p s :: value
  | .respValue => [RegAccess.valueFlit s]
  | _ => []

/-! The demultiplexer hands the unread flits over in order. -/

def passed (s : LayerSystem) (e : LayerInput) : Bool :=
  Demux.out_reg_valid s.layer.demux (inPort s e) && RegAccess.debug_in_ready s.layer.reg

theorem demux_boundary (p : RegParams) {s : LayerSystem} {e : LayerInput}
    (boundary : s.layer.demux.worm = false)
    (typed : s.layer.demux.first = true → ∀ f ∈ s.pending.head?, f.data.extractLsb' 14 2 = 0#2) :
    unread (cycle p s e) = (if passed s e then (unread s).tail else unread s)
    ∧ (cycle p s e).layer.demux.worm = passed s e
    ∧ (passed s e = true → (cycle p s e).layer.demux.first = false
        ∧ (cycle p s e).layer.demux.regaccess = true ∧ s.layer.demux.first = true) := by
  obtain ⟨⟨⟨buf, worm, first, regaccess⟩, reg, mux⟩, pending, log, answers⟩ := s
  simp only at boundary typed
  subst boundary
  cases first with
  | false =>
    cases pending with
    | nil => simp [unread, cycle, passed, inPort, offered, Demux.next, Demux.active, Demux.out_reg_valid]
    | cons f rest =>
      cases offer : e.offer <;>
        simp [unread, cycle, passed, inPort, offered, offer, Demux.next, Demux.active, Demux.out_reg_valid,
          debug_in_ready, Demux.in_ready, DiiFlit.ofFlit, DiiFlit.flit]
  | true =>
    cases pending with
    | nil => simp [unread, cycle, passed, inPort, offered, Demux.next, Demux.active, Demux.out_reg_valid]
    | cons f rest =>
      have isReg := typed rfl f rfl
      cases offer : e.offer <;> cases ready : RegAccess.debug_in_ready reg <;>
        simp [unread, cycle, passed, inPort, offered, offer, ready, isReg, Demux.next, Demux.active,
          Demux.out_reg_valid, Demux.out_bypass_valid, Demux.in_is_regaccess, debug_in_ready, Demux.in_ready,
          DiiFlit.ofFlit, DiiFlit.flit]

theorem demux_worm (p : RegParams) {s : LayerSystem} {e : LayerInput} (worm : s.layer.demux.worm = true)
    (first : s.layer.demux.first = false) (regaccess : s.layer.demux.regaccess = true) :
    unread (cycle p s e) = (if passed s e then (unread s).tail else unread s)
    ∧ (cycle p s e).layer.demux.worm = !(passed s e && s.layer.demux.buf.last)
    ∧ ((cycle p s e).layer.demux.worm = true → (cycle p s e).layer.demux.first = false)
    ∧ (cycle p s e).layer.demux.regaccess = true := by
  obtain ⟨⟨⟨buf, _, _, _⟩, reg, mux⟩, pending, log, answers⟩ := s
  simp only at worm first regaccess
  subst worm first regaccess
  cases pending with
  | nil =>
    cases last : buf.last <;> cases ready : RegAccess.debug_in_ready reg <;>
      simp [unread, cycle, passed, inPort, offered, last, ready, Demux.next, Demux.active, Demux.out_reg_valid,
        Demux.out_bypass_valid]
  | cons f rest =>
    cases offer : e.offer <;> cases last : buf.last <;> cases ready : RegAccess.debug_in_ready reg <;>
      simp [unread, cycle, passed, inPort, offered, offer, last, ready, Demux.next, Demux.active,
        Demux.out_reg_valid, Demux.out_bypass_valid, debug_in_ready, Demux.in_ready, DiiFlit.ofFlit,
        DiiFlit.flit]

def sends (p : RegParams) (s : LayerSystem) (e : LayerInput) : Bool :=
  RingRouterMux.in_ready s.layer.mux (RegAccess.debug_out p s.layer.reg) e.module_in e.debug_out_ready .ring

theorem emitted_cycle (p : RegParams) (s : LayerSystem) (e : LayerInput) :
    emitted (cycle p s e) = emitted s ++
      if (RegAccess.debug_out p s.layer.reg).valid && sends p s e then
        [(RegAccess.debug_out p s.layer.reg).flit] else [] := by
  have moved := RingRouterMux.sent_transfer s.layer.mux (RegAccess.debug_out p s.layer.reg) e.module_in
    e.debug_out_ready .ring
  simp only [emitted, cycle, List.filter_append, List.map_append]
  rw [moved]
  rfl

/-! The invariant of a run over framed requests. -/

structure Sampled (reg : RegState) (r : Request) : Prop where
  write : reg.req_write = r.write
  size : reg.req_size = r.size
  dest : reg.resp_dest = r.source

/-- Where the state machine stands in the stream of the requests to do. -/
def Position (s : LayerSystem) (todo : List Request) : Prop :=
  let reg := s.layer.reg
  match reg.phase with
  | .idle | .respStart | .respSrc | .respValue => unread s = stream todo
  | .start => ∃ r rest, todo = r :: rest ∧ unread s = r.flits.tail ++ stream rest
  | .addr => ∃ r rest, todo = r :: rest ∧ unread s = frame (r.addr :: r.values) ++ stream rest
      ∧ Sampled reg r ∧ (r.ext = false → r.write = false → reg.resp_error = false)
  | .write => ∃ r rest v, todo = r :: rest ∧ r.values = [v] ∧ unread s = ⟨true, v⟩ :: stream rest
      ∧ Sampled reg r ∧ r.write = true ∧ reg.req_addr = r.addr
      ∧ (r.ext = false → r.size = RegAccess.REQ_SIZE_16 ∧ r.addr = RegAccess.REG_CS ∧ reg.resp_error = false)
  | .extStart => ∃ r rest, todo = r :: rest ∧ unread s = stream rest ∧ Sampled reg r ∧ r.ext = true
  | .drop => False

/-- The demultiplexer is inside a packet exactly when the state machine is. -/
def Aligned (s : LayerSystem) : Prop :=
  let demux := s.layer.demux
  match s.layer.reg.phase with
  | .start | .addr | .write => demux.worm = true ∧ demux.first = false ∧ demux.regaccess = true
  | _ => demux.worm = false

/-- Requests `done` are answered or being answered, requests `todo` are not. -/
structure Progress (p : RegParams) (s : LayerSystem) (done : Answered) (todo : List Request) : Prop where
  answers : s.answers = done.external
  locals : ∀ d ∈ done, d.1.ext = false → d.2 = d.1.localAnswer p
  sent : emitted s ++ remaining p s.layer.reg = done.responses p
  stalled : s.layer.reg.mod_cs_stall = done.stall
  position : Position s todo
  aligned : Aligned s
  framed : ∀ r ∈ todo, r.Framed = true

/-- The register file does not answer a read with an error. -/
def readsSucceed (s : LayerSystem) (e : LayerInput) : Prop :=
  answered s.layer e = true → s.layer.reg.req_write = false → e.answer.err = false

variable {p : RegParams} {s : LayerSystem} {e : LayerInput} {done : Answered} {todo : List Request}

def nextReg (p : RegParams) (s : LayerSystem) (e : LayerInput) : RegState :=
  RegAccess.next p s.layer.reg (Demux.out_reg s.layer.demux (inPort s e)) (sends p s e) e.answer

theorem cycle_reg : (cycle p s e).layer.reg = nextReg p s e := rfl

theorem cycle_answers : (cycle p s e).answers = if answered s.layer e then s.answers ++ [e.answer] else s.answers :=
  rfl

def listening : RegPhase → Bool
  | .respStart | .respSrc | .respValue => false
  | _ => true

theorem emitted_of_listening (quiet : listening s.layer.reg.phase = true) :
    emitted (cycle p s e) = emitted s := by
  rw [emitted_cycle]
  cases phase : s.layer.reg.phase <;> simp_all [listening, RegAccess.debug_out, DiiFlit.idle]

theorem remaining_of_listening {reg : RegState} (quiet : listening reg.phase = true) : remaining p reg = [] := by
  cases phase : reg.phase <;> simp_all [listening, remaining]

theorem Progress.wait (inv : Progress p s done todo) (quiet : listening s.layer.reg.phase = true)
    (quiet' : listening (nextReg p s e).phase = true)
    (stall : (nextReg p s e).mod_cs_stall = s.layer.reg.mod_cs_stall) (silent : answered s.layer e = false)
    (position : Position (cycle p s e) todo) (aligned : Aligned (cycle p s e)) :
    Progress p (cycle p s e) done todo where
  answers := by rw [cycle_answers, silent]; exact inv.answers
  locals := inv.locals
  sent := by
    have sent := inv.sent
    rw [remaining_of_listening quiet] at sent
    rw [emitted_of_listening quiet, cycle_reg, remaining_of_listening quiet']
    exact sent
  stalled := stall.trans inv.stalled
  position := position
  aligned := aligned
  framed := inv.framed

theorem Progress.answer {r : Request} {rest : List Request} {a : RegAnswer}
    (inv : Progress p s done (r :: rest)) (quiet : listening s.layer.reg.phase = true)
    (respond : remaining p (nextReg p s e) = r.response p a)
    (answers : (cycle p s e).answers = Answered.external (done ++ [(r, a)]))
    (own : r.ext = false → a = r.localAnswer p)
    (stall : (nextReg p s e).mod_cs_stall = r.stallAfter a s.layer.reg.mod_cs_stall)
    (position : Position (cycle p s e) rest) (aligned : Aligned (cycle p s e)) :
    Progress p (cycle p s e) (done ++ [(r, a)]) rest where
  answers := answers
  locals := by
    intro d member
    rcases List.mem_append.mp member with old | new
    · exact inv.locals d old
    · cases List.mem_singleton.mp new
      exact own
  sent := by
    have sent := inv.sent
    rw [remaining_of_listening quiet, List.append_nil] at sent
    rw [emitted_of_listening quiet, cycle_reg, respond, sent]
    simp [Answered.responses]
  stalled := by
    rw [cycle_reg, stall, inv.stalled]
    simp [Answered.stall]
  position := position
  aligned := aligned
  framed := fun r' member => inv.framed r' (List.mem_cons_of_mem _ member)

theorem not_answered_of_phase (other : s.layer.reg.phase ≠ .extStart) : answered s.layer e = false := by
  simp [answered, RegAccess.reg_request, other]

theorem unread_of_active (busy : Demux.active s.layer.demux = true) :
    unread s = s.layer.demux.buf :: s.pending := by
  simp [unread, busy]

theorem flits_eq (r : Request) :
    r.flits = ⟨false, r.dest⟩ :: ⟨false, r.header⟩ :: frame (r.addr :: r.values) := rfl

theorem stream_cons (r : Request) (rest : List Request) : stream (r :: rest) = r.flits ++ stream rest := rfl

/-- At a packet boundary the flit after the buffered one is a request header. -/
theorem typed_of_stream (boundary : unread s = stream todo) (first : s.layer.demux.first = true) :
    ∀ f ∈ s.pending.head?, f.data.extractLsb' 14 2 = 0#2 := by
  rw [unread_of_active (by simp [Demux.active, first])] at boundary
  cases todo with
  | nil => simp [stream] at boundary
  | cons r rest =>
    rw [stream_cons, flits_eq] at boundary
    simp only [List.cons_append, List.cons.injEq] at boundary
    rw [boundary.2]
    simp

theorem passed_eq (ready : RegAccess.debug_in_ready s.layer.reg = true) :
    passed s e = (Demux.out_reg s.layer.demux (inPort s e)).valid := by
  simp [passed, ready, Demux.out_reg]

theorem Progress.idle (inv : Progress p s done todo) (phase : s.layer.reg.phase = .idle) :
    Progress p (cycle p s e) done todo := by
  have position := inv.position
  have aligned := inv.aligned
  simp only [Position, Aligned, phase] at position aligned
  have ready : RegAccess.debug_in_ready s.layer.reg = true := by simp [RegAccess.debug_in_ready, phase]
  obtain ⟨unread', worm', first'⟩ := demux_boundary p (e := e) aligned (typed_of_stream position)
  have phase' : (nextReg p s e).phase = if passed s e then .start else .idle := by
    simp [nextReg, RegAccess.next, phase, passed_eq ready]
  refine inv.wait (by simp [phase, listening]) ?_ (by simp [nextReg, RegAccess.next, phase])
    (not_answered_of_phase (by simp [phase])) ?_ ?_
  · rw [phase']; split <;> rfl
  · simp only [Position, cycle_reg, phase', unread']
    cases moved : passed s e with
    | false => simpa using position
    | true =>
      obtain ⟨_, _, first⟩ := first' moved
      cases todo with
      | nil =>
        rw [unread_of_active (by simp [Demux.active, first])] at position
        simp [stream] at position
      | cons r rest =>
        refine ⟨r, rest, rfl, ?_⟩
        simp [position, stream_cons, flits_eq]
  · simp only [Aligned, cycle_reg, phase']
    cases moved : passed s e with
    | false => simpa [moved] using worm'
    | true =>
      obtain ⟨first, regaccess, _⟩ := first' moved
      exact ⟨by rw [worm', moved], first, regaccess⟩

/-- The facts every phase inside a packet starts from: the flit on offer and the
demultiplexer after the cycle. -/
theorem inside_packet {f : Flit} {rest : List Flit} (worm : s.layer.demux.worm = true)
    (first : s.layer.demux.first = false) (regaccess : s.layer.demux.regaccess = true)
    (next : unread s = f :: rest) :
    s.layer.demux.buf = f
    ∧ unread (cycle p s e) = (if passed s e then rest else f :: rest)
    ∧ (cycle p s e).layer.demux.worm = !(passed s e && f.last)
    ∧ ((cycle p s e).layer.demux.worm = true →
        (cycle p s e).layer.demux.first = false ∧ (cycle p s e).layer.demux.regaccess = true) := by
  have head := next
  rw [unread_of_active (by simp [Demux.active, worm])] at head
  obtain ⟨same, _⟩ := List.cons.inj head
  obtain ⟨unread', worm', first', regaccess'⟩ := demux_worm p (e := e) worm first regaccess
  refine ⟨same, ?_, ?_, fun up => ⟨first' up, regaccess'⟩⟩
  · rw [unread', next, List.tail_cons]
  · rw [worm', same]

theorem Progress.start (inv : Progress p s done todo) (phase : s.layer.reg.phase = .start) :
    Progress p (cycle p s e) done todo := by
  have position := inv.position
  have aligned := inv.aligned
  simp only [Position, Aligned, phase] at position aligned
  obtain ⟨r, rest, rfl, next⟩ := position
  obtain ⟨worm, first, regaccess⟩ := aligned
  rw [flits_eq, List.tail_cons, List.cons_append] at next
  obtain ⟨buf, unread', worm', flags⟩ := inside_packet (p := p) (e := e) worm first regaccess next
  simp only [Bool.and_false, Bool.not_false] at worm'
  have ready : RegAccess.debug_in_ready s.layer.reg = true := by simp [RegAccess.debug_in_ready, phase]
  have phase' : (nextReg p s e).phase = if passed s e then .addr else .start := by
    simp [nextReg, RegAccess.next, RegAccess.nextStart, phase, passed_eq ready, Demux.out_reg, buf]
  refine inv.wait (by simp [phase, listening]) ?_
    (by simp [nextReg, RegAccess.next, RegAccess.nextStart, phase])
    (not_answered_of_phase (by simp [phase])) ?_ ?_
  · rw [phase']; split <;> rfl
  · simp only [Position, cycle_reg, phase', unread']
    cases moved : passed s e with
    | false => exact ⟨r, rest, rfl, by simp [flits_eq]⟩
    | true =>
      refine ⟨r, rest, rfl, rfl, ?_, fun _ _ => ?_⟩
      · constructor
        · simp only [nextReg, RegAccess.next, phase, RegAccess.nextStart, Demux.out_reg, buf]
          exact r.header_write
        · simp [nextReg, RegAccess.next, phase, RegAccess.nextStart, Demux.out_reg, buf]
        · simp [nextReg, RegAccess.next, phase, RegAccess.nextStart, Demux.out_reg, buf]
      · simp [nextReg, RegAccess.next, phase, RegAccess.nextStart]
  · simp only [Aligned, cycle_reg, phase']
    cases moved : passed s e with
    | false => exact ⟨worm', flags worm'⟩
    | true => exact ⟨worm', flags worm'⟩

theorem framed_cases {r : Request} (framed : r.Framed = true) :
    (r.ext = true ∧ r.write = true ∧ ∃ v, r.values = [v])
    ∨ (r.ext = true ∧ r.write = false ∧ r.values = [])
    ∨ (r.ext = false ∧ r.write = true ∧ r.values = [])
    ∨ (r.ext = false ∧ r.write = true ∧ (∃ v, r.values = [v]) ∧ r.size = RegAccess.REQ_SIZE_16
        ∧ r.addr = RegAccess.REG_CS)
    ∨ (r.ext = false ∧ r.write = false ∧ r.values = []
        ∧ (r.addr = RegAccess.REG_MODID ∨ r.addr = RegAccess.REG_VERSION)) := by
  unfold Request.Framed at framed
  cases ext : r.ext <;> cases write : r.write <;>
    simp [ext, write, List.length_eq_one_iff] at framed <;> grind

theorem addr_flit (r : Request) (rest : List Request) :
    frame (r.addr :: r.values) ++ stream rest
      = ⟨r.values.isEmpty, r.addr⟩ :: (frame r.values ++ stream rest) := by
  cases values : r.values <;> simp [frame]

section
variable {reg : RegState} {inp : DiiFlit}

theorem nextAddr_ext {r : Request} {valid last : Bool} (ext : r.ext = true) :
    RegAccess.nextAddr p reg ⟨valid, last, r.addr⟩ = RegAccess.nextAddrExt reg ⟨valid, last, r.addr⟩ := by
  unfold Request.ext at ext
  simp [RegAccess.nextAddr, ext]

theorem nextAddr_localWrite {r : Request} {valid last : Bool} (loc : r.ext = false)
    (write : reg.req_write = true) :
    RegAccess.nextAddr p reg ⟨valid, last, r.addr⟩
      = RegAccess.nextAddrLocalWrite reg ⟨valid, last, r.addr⟩ := by
  unfold Request.ext at loc
  simp [RegAccess.nextAddr, loc, write]

theorem nextAddr_localRead {r : Request} {valid last : Bool} (loc : r.ext = false)
    (read : reg.req_write = false) :
    RegAccess.nextAddr p reg ⟨valid, last, r.addr⟩
      = RegAccess.nextAddrLocalRead p reg ⟨valid, last, r.addr⟩ := by
  unfold Request.ext at loc
  simp [RegAccess.nextAddr, loc, read]

theorem nextAddr_sampled {r : Request} (sampled : Sampled reg r) : Sampled (RegAccess.nextAddr p reg inp) r := by
  unfold RegAccess.nextAddr RegAccess.nextAddrExt RegAccess.nextAddrLocalWrite RegAccess.nextAddrLocalRead
  split_ifs <;> exact ⟨sampled.write, sampled.size, sampled.dest⟩

theorem nextAddr_stall : (RegAccess.nextAddr p reg inp).mod_cs_stall = reg.mod_cs_stall := by
  unfold RegAccess.nextAddr RegAccess.nextAddrExt RegAccess.nextAddrLocalWrite RegAccess.nextAddrLocalRead
  split_ifs <;> rfl

theorem nextAddr_waits (down : inp.valid = false) : (RegAccess.nextAddr p reg inp).phase = .addr := by
  unfold RegAccess.nextAddr RegAccess.nextAddrExt RegAccess.nextAddrLocalWrite RegAccess.nextAddrLocalRead
  split_ifs <;> simp_all

end

/-- A cycle that starts in the address phase of a request. -/
structure AddrCycle (p : RegParams) (s : LayerSystem) (e : LayerInput) (r : Request) (rest : List Request) :
    Prop where
  quiet : listening s.layer.reg.phase = true
  silent : answered s.layer e = false
  reg : nextReg p s e = RegAccess.nextAddr p s.layer.reg ⟨passed s e, r.values.isEmpty, r.addr⟩
  before : Sampled s.layer.reg r
  sampled : Sampled (nextReg p s e) r
  clean : r.ext = false → r.write = false → s.layer.reg.resp_error = false
  stall : (nextReg p s e).mod_cs_stall = s.layer.reg.mod_cs_stall
  unread : unread (cycle p s e)
    = if passed s e then frame r.values ++ stream rest else frame (r.addr :: r.values) ++ stream rest
  worm : (cycle p s e).layer.demux.worm = !(passed s e && r.values.isEmpty)
  flags : (cycle p s e).layer.demux.worm = true →
    (cycle p s e).layer.demux.first = false ∧ (cycle p s e).layer.demux.regaccess = true

theorem Progress.addrCycle (inv : Progress p s done todo) (phase : s.layer.reg.phase = .addr) (e : LayerInput) :
    ∃ r rest, todo = r :: rest ∧ AddrCycle p s e r rest := by
  have position := inv.position
  have aligned := inv.aligned
  simp only [Position, Aligned, phase] at position aligned
  obtain ⟨r, rest, rfl, next, sampled, clean⟩ := position
  obtain ⟨worm, first, regaccess⟩ := aligned
  have next' := next
  rw [addr_flit] at next'
  obtain ⟨buf, unread', worm', flags⟩ := inside_packet (p := p) (e := e) worm first regaccess next'
  have ready : RegAccess.debug_in_ready s.layer.reg = true := by simp [RegAccess.debug_in_ready, phase]
  have reg' : nextReg p s e = RegAccess.nextAddr p s.layer.reg ⟨passed s e, r.values.isEmpty, r.addr⟩ := by
    simp only [nextReg, RegAccess.next, phase, passed_eq ready, Demux.out_reg, buf]
  refine ⟨r, rest, rfl, ?_⟩
  exact
    { quiet := by simp [phase, listening]
      silent := not_answered_of_phase (by simp [phase])
      reg := reg'
      before := sampled
      sampled := by rw [reg']; exact nextAddr_sampled sampled
      clean := clean
      stall := by rw [reg']; exact nextAddr_stall
      unread := by rw [unread', addr_flit]
      worm := worm'
      flags := flags }

section
variable {r : Request} {rest : List Request}

theorem Progress.addr_waits (inv : Progress p s done (r :: rest)) (c : AddrCycle p s e r rest)
    (still : passed s e = false) : Progress p (cycle p s e) done (r :: rest) := by
  have phase' : (nextReg p s e).phase = .addr := by rw [c.reg]; exact nextAddr_waits still
  have unread' := c.unread
  have worm' := c.worm
  simp only [still, Bool.false_and, Bool.not_false, Bool.false_eq_true, if_false] at worm' unread'
  refine inv.wait c.quiet (by rw [phase']; rfl) c.stall c.silent ?_ ?_
  · simp only [Position, cycle_reg, phase', unread']
    refine ⟨r, rest, rfl, rfl, c.sampled, fun loc read => ?_⟩
    -- the address is on the wires already, and an implemented one leaves the flag alone
    have known : r.addr = RegAccess.REG_MODID ∨ r.addr = RegAccess.REG_VERSION := by
      have kind := framed_cases (inv.framed r (List.mem_cons_self ..))
      simp_all
    rw [c.reg, nextAddr_localRead loc (c.before.write.trans read)]
    simp [RegAccess.nextAddrLocalRead, known, c.clean loc read]
  · simp only [Aligned, cycle_reg, phase']
    exact ⟨worm', c.flags worm'⟩

theorem Progress.addr_ext (inv : Progress p s done (r :: rest)) (c : AddrCycle p s e r rest)
    (moved : passed s e = true) (ext : r.ext = true) : Progress p (cycle p s e) done (r :: rest) := by
  have reg' := c.reg
  have unread' := c.unread
  have worm' := c.worm
  rw [nextAddr_ext ext, moved] at reg'
  simp only [moved, Bool.true_and, if_true] at worm' unread'
  cases write : r.write with
  | true =>
    obtain ⟨v, values⟩ : ∃ v, r.values = [v] := by
      have kind := framed_cases (inv.framed r (List.mem_cons_self ..))
      simp_all
    have phase' : (nextReg p s e).phase = .write := by
      simp [reg', RegAccess.nextAddrExt, c.before.write, write]
    simp only [values, List.isEmpty_cons, Bool.not_false] at worm'
    refine inv.wait c.quiet (by rw [phase']; rfl) c.stall c.silent ?_ ?_
    · simp only [Position, cycle_reg, phase']
      refine ⟨r, rest, v, rfl, values, by rw [unread', values]; rfl, c.sampled, write, ?_, ?_⟩
      · simp [reg', RegAccess.nextAddrExt]
      · simp [ext]
    · simp only [Aligned, cycle_reg, phase']
      exact ⟨worm', c.flags worm'⟩
  | false =>
    have values : r.values = [] := by
      have kind := framed_cases (inv.framed r (List.mem_cons_self ..))
      simp_all
    have phase' : (nextReg p s e).phase = .extStart := by
      simp [reg', RegAccess.nextAddrExt, c.before.write, write]
    simp only [values, List.isEmpty_nil, Bool.not_true] at worm'
    refine inv.wait c.quiet (by rw [phase']; rfl) c.stall c.silent ?_ ?_
    · simp only [Position, cycle_reg, phase']
      exact ⟨r, rest, rfl, by rw [unread', values]; rfl, c.sampled, ext⟩
    · simp only [Aligned, cycle_reg, phase']
      exact worm'

theorem Progress.addr_control (inv : Progress p s done (r :: rest)) (c : AddrCycle p s e r rest)
    (moved : passed s e = true) (loc : r.ext = false) (write : r.write = true) {v : Word}
    (values : r.values = [v]) (size : r.size = RegAccess.REQ_SIZE_16) (cs : r.addr = RegAccess.REG_CS) :
    Progress p (cycle p s e) done (r :: rest) := by
  have reg' := c.reg
  have unread' := c.unread
  have worm' := c.worm
  rw [nextAddr_localWrite loc (c.before.write.trans write), moved, values] at reg'
  simp only [moved, values, Bool.true_and, if_true, List.isEmpty_cons, Bool.not_false] at worm' unread'
  have accepted : RegAccess.localWriteError s.layer.reg ⟨true, false, r.addr⟩ = false := by
    simp [RegAccess.localWriteError, c.before.size, size, cs]
  have phase' : (nextReg p s e).phase = .write := by
    simp [reg', RegAccess.nextAddrLocalWrite, accepted]
  refine inv.wait c.quiet (by rw [phase']; rfl) c.stall c.silent ?_ ?_
  · simp only [Position, cycle_reg, phase']
    refine ⟨r, rest, v, rfl, values, by rw [unread']; rfl, c.sampled, write, ?_, fun _ => ⟨size, cs, ?_⟩⟩
    · simp [reg', RegAccess.nextAddrLocalWrite, c.before.size, size]
    · simp [reg', RegAccess.nextAddrLocalWrite, accepted]
  · simp only [Aligned, cycle_reg, phase']
    exact ⟨worm', c.flags worm'⟩

/-- A request to the module itself without a value is answered from the address phase. -/
theorem Progress.addr_answers (inv : Progress p s done (r :: rest)) (c : AddrCycle p s e r rest)
    (moved : passed s e = true) (loc : r.ext = false) (values : r.values = [])
    (phase' : (nextReg p s e).phase = .respStart)
    (error : (nextReg p s e).resp_error = (r.localAnswer p).err)
    (value : r.write = false → (r.localAnswer p).err = false
      ∧ (nextReg p s e).reqresp_value = (r.localAnswer p).rdata)
    (stall : r.stallAfter (r.localAnswer p) s.layer.reg.mod_cs_stall = s.layer.reg.mod_cs_stall) :
    Progress p (cycle p s e) (done ++ [(r, r.localAnswer p)]) rest := by
  have unread' := c.unread
  have worm' := c.worm
  simp only [moved, values, Bool.true_and, if_true, List.isEmpty_nil, Bool.not_true] at worm' unread'
  refine inv.answer c.quiet ?_ ?_ (fun _ => rfl) (c.stall.trans stall.symm) ?_ ?_
  · cases write : r.write with
    | true =>
      simp [remaining, phase', RegAccess.destFlit, RegAccess.srcFlit, c.sampled.write, c.sampled.dest, write,
        error, Request.response]
    | false =>
      obtain ⟨granted, same⟩ := value write
      simp [remaining, phase', RegAccess.destFlit, RegAccess.srcFlit, RegAccess.valueFlit, c.sampled.write,
        c.sampled.dest, write, error, granted, same, Request.response]
  · rw [cycle_answers, c.silent, inv.answers]
    simp [Answered.external, loc]
  · simp only [Position, cycle_reg, phase']
    rw [unread']
    rfl
  · simp only [Aligned, cycle_reg, phase']
    exact worm'

end

theorem Progress.addr (inv : Progress p s done todo) (phase : s.layer.reg.phase = .addr) :
    ∃ done' todo', done.requests ++ todo = done'.requests ++ todo' ∧ Progress p (cycle p s e) done' todo' := by
  obtain ⟨r, rest, rfl, c⟩ := inv.addrCycle phase e
  cases moved : passed s e with
  | false => exact ⟨done, r :: rest, rfl, inv.addr_waits c moved⟩
  | true =>
    have reg' := c.reg
    rcases framed_cases (inv.framed r (List.mem_cons_self ..)) with ⟨ext, _⟩ | ⟨ext, _⟩
      | ⟨loc, write, values⟩ | ⟨loc, write, ⟨v, values⟩, size, cs⟩ | ⟨loc, write, values, known⟩
    · exact ⟨done, r :: rest, rfl, inv.addr_ext c moved ext⟩
    · exact ⟨done, r :: rest, rfl, inv.addr_ext c moved ext⟩
    · rw [nextAddr_localWrite loc (c.before.write.trans write), moved, values] at reg'
      refine ⟨_, rest, by simp [Answered.requests], inv.addr_answers c moved loc values ?_ ?_ ?_ ?_⟩
      · simp [reg', RegAccess.nextAddrLocalWrite]
      · simp [reg', RegAccess.nextAddrLocalWrite, Request.localAnswer, write, values]
      · simp [write]
      · simp [Request.stallAfter, Request.localAnswer, write, values]
    · exact ⟨done, r :: rest, rfl, inv.addr_control c moved loc write values size cs⟩
    · rw [nextAddr_localRead loc (c.before.write.trans write), moved, values] at reg'
      have granted : (r.localAnswer p).err = false := by
        rcases known with same | same <;> simp [Request.localAnswer, write, same]
      refine ⟨_, rest, by simp [Answered.requests], inv.addr_answers c moved loc values ?_ ?_ ?_ ?_⟩
      · simp [reg', RegAccess.nextAddrLocalRead]
      · simp [reg', RegAccess.nextAddrLocalRead, known, granted, c.clean loc write]
      · refine fun _ => ⟨granted, ?_⟩
        rcases known with same | same <;>
          simp [reg', RegAccess.nextAddrLocalRead, same, Request.localAnswer, RegAccess.REG_MODID,
            RegAccess.REG_VERSION]
      · simp [Request.stallAfter, write]

theorem nextWrite_control {reg : RegState} {v : Word} (control : reg.req_addr = RegAccess.REG_CS) :
    RegAccess.nextWrite p reg ⟨true, true, v⟩ =
      let command := v.extractLsb' 11 5 == RegAccess.CS_STALL && p.canStall
      { reg with
        reqresp_value := v
        mod_cs_stall := if command then v.getLsbD 0 else reg.mod_cs_stall
        resp_error := if command then reg.resp_error else true
        phase := .respStart } := by
  have internal : RegAccess.isExt RegAccess.REG_CS = false := by decide
  cases can : p.canStall <;> by_cases command : v.extractLsb' 11 5 = RegAccess.CS_STALL <;>
    simp [RegAccess.nextWrite, control, internal, can, command]

/-- The value of a write: for the register file it is handed on, for the control
register it is carried out and answered. -/
theorem Progress.write (inv : Progress p s done todo) (phase : s.layer.reg.phase = .write) :
    ∃ done' todo', done.requests ++ todo = done'.requests ++ todo' ∧ Progress p (cycle p s e) done' todo' := by
  have position := inv.position
  have aligned := inv.aligned
  simp only [Position, Aligned, phase] at position aligned
  obtain ⟨r, rest, v, rfl, values, next, sampled, write, addr, own⟩ := position
  obtain ⟨worm, first, regaccess⟩ := aligned
  obtain ⟨buf, unread', worm', flags⟩ := inside_packet (p := p) (e := e) worm first regaccess next
  have ready : RegAccess.debug_in_ready s.layer.reg = true := by simp [RegAccess.debug_in_ready, phase]
  have quiet : listening s.layer.reg.phase = true := by simp [phase, listening]
  have silent : answered s.layer e = false := not_answered_of_phase (by simp [phase])
  have reg' : nextReg p s e = RegAccess.nextWrite p s.layer.reg ⟨passed s e, true, v⟩ := by
    simp only [nextReg, RegAccess.next, phase, passed_eq ready, Demux.out_reg, buf]
  cases moved : passed s e with
  | false =>
    have same : nextReg p s e = s.layer.reg := by rw [reg', moved]; simp [RegAccess.nextWrite]
    simp only [moved, Bool.false_and, Bool.not_false, Bool.false_eq_true, if_false] at worm' unread'
    refine ⟨done, r :: rest, rfl, inv.wait quiet (by rw [same]; exact quiet) (by rw [same]) silent ?_ ?_⟩
    · simp only [Position, cycle_reg, same, phase, unread']
      exact ⟨r, rest, v, rfl, values, rfl, sampled, write, addr, own⟩
    · simp only [Aligned, cycle_reg, same, phase]
      exact ⟨worm', flags worm'⟩
  | true =>
    simp only [moved, Bool.and_true, Bool.not_true, if_true] at worm' unread'
    rw [moved] at reg'
    cases ext : r.ext with
    | true =>
      have external : RegAccess.isExt s.layer.reg.req_addr = true := by rw [addr]; exact ext
      have phase' : (nextReg p s e).phase = .extStart := by simp [reg', RegAccess.nextWrite, external]
      refine ⟨done, r :: rest, rfl, inv.wait quiet (by rw [phase']; rfl)
        (by simp [reg', RegAccess.nextWrite, external]) silent ?_ ?_⟩
      · simp only [Position, cycle_reg, phase', unread']
        refine ⟨r, rest, rfl, rfl, ?_, ext⟩
        constructor <;> simp [reg', RegAccess.nextWrite, external, sampled.write, sampled.size, sampled.dest]
      · simp only [Aligned, cycle_reg, phase']
        exact worm'
    | false =>
      -- only the control register of the module itself is written here
      obtain ⟨size, cs, clean⟩ := own ext
      have internal : RegAccess.isExt s.layer.reg.req_addr = false := by rw [addr]; exact ext
      have control : s.layer.reg.req_addr = RegAccess.REG_CS := addr.trans cs
      have phase' : (nextReg p s e).phase = .respStart := by simp [reg', RegAccess.nextWrite, internal]
      have sampled' : Sampled (nextReg p s e) r := by
        constructor <;> simp [reg', RegAccess.nextWrite, internal, sampled.write, sampled.size, sampled.dest]
      have error : (nextReg p s e).resp_error = (r.localAnswer p).err := by
        rw [reg', nextWrite_control control]
        cases can : p.canStall <;> by_cases command : v.extractLsb' 11 5 = RegAccess.CS_STALL <;>
          simp [Request.localAnswer, write, size, cs, values, clean, can, command]
      have stall : (nextReg p s e).mod_cs_stall = r.stallAfter (r.localAnswer p) s.layer.reg.mod_cs_stall := by
        rw [reg', nextWrite_control control]
        cases can : p.canStall <;> by_cases command : v.extractLsb' 11 5 = RegAccess.CS_STALL <;>
          simp [Request.stallAfter, Request.localAnswer, write, size, cs, values, ext, can, command]
      refine ⟨done ++ [(r, r.localAnswer p)], rest, by simp [Answered.requests],
        inv.answer quiet ?_ ?_ (fun _ => rfl) stall ?_ ?_⟩
      · simp [remaining, phase', RegAccess.destFlit, RegAccess.srcFlit, sampled'.write, sampled'.dest, write,
          error, Request.response]
      · rw [cycle_answers, silent, inv.answers]
        simp [Answered.external, ext]
      · simp only [Position, cycle_reg, phase']
        exact unread'
      · simp only [Aligned, cycle_reg, phase']
        exact worm'

theorem boundary_stays (boundary : s.layer.demux.worm = false) (next : unread s = stream todo)
    (busy : RegAccess.debug_in_ready s.layer.reg = false) :
    unread (cycle p s e) = stream todo ∧ (cycle p s e).layer.demux.worm = false := by
  obtain ⟨unread', worm', _⟩ := demux_boundary p (e := e) boundary (typed_of_stream next)
  have still : passed s e = false := by simp [passed, busy]
  rw [still] at unread' worm'
  exact ⟨unread'.trans next, worm'⟩

theorem Progress.extStart (inv : Progress p s done todo) (phase : s.layer.reg.phase = .extStart)
    (succeeds : readsSucceed s e) :
    ∃ done' todo', done.requests ++ todo = done'.requests ++ todo' ∧ Progress p (cycle p s e) done' todo' := by
  have position := inv.position
  have aligned := inv.aligned
  simp only [Position, Aligned, phase] at position aligned
  obtain ⟨r, rest, rfl, next, sampled, ext⟩ := position
  obtain ⟨unread', worm'⟩ := boundary_stays (p := p) (e := e) aligned next
    (by simp [RegAccess.debug_in_ready, phase])
  have quiet : listening s.layer.reg.phase = true := by simp [phase, listening]
  have reg' : nextReg p s e = RegAccess.nextExtStart s.layer.reg e.answer := by
    -- only the acknowledgement or the error of the outside ends this phase
    simp only [nextReg, RegAccess.next, phase]
  have asked : answered s.layer e = (e.answer.ack || e.answer.err) := by
    simp [answered, RegAccess.reg_request, phase]
  cases given : answered s.layer e with
  | false =>
    have same : nextReg p s e = s.layer.reg := by
      rw [given] at asked
      simp [reg', RegAccess.nextExtStart, ← asked]
    refine ⟨done, r :: rest, rfl, inv.wait quiet (by rw [same]; exact quiet) (by rw [same]) given ?_ ?_⟩
    · simp only [Position, cycle_reg, same, phase, unread']
      exact ⟨r, rest, rfl, rfl, sampled, ext⟩
    · simp only [Aligned, cycle_reg, same, phase]
      exact worm'
  | true =>
    have reg'' : nextReg p s e = { s.layer.reg with
        reqresp_value := e.answer.rdata, resp_error := e.answer.err, phase := .respStart } := by
      rw [given] at asked
      simp [reg', RegAccess.nextExtStart, ← asked]
    refine ⟨done ++ [(r, e.answer)], rest, by simp [Answered.requests],
      inv.answer quiet ?_ ?_ (by simp [ext]) ?_ ?_ ?_⟩
    -- a write is answered without a value, and a read with the one it was given
    · cases write : r.write with
      | true =>
        simp [reg'', remaining, RegAccess.destFlit, RegAccess.srcFlit, sampled.write, sampled.dest, write,
          Request.response]
      | false =>
        have fine := succeeds given (sampled.write.trans write)
        simp [reg'', remaining, RegAccess.destFlit, RegAccess.srcFlit, RegAccess.valueFlit, sampled.write,
          sampled.dest, write, fine, Request.response]
    · rw [cycle_answers, given, inv.answers]
      simp [Answered.external, ext]
    · simp [reg'', Request.stallAfter, ext]
    · simp only [Position, cycle_reg, reg'']
      exact unread'
    · simp only [Aligned, cycle_reg, reg'']
      exact worm'

theorem Progress.respond (inv : Progress p s done todo) (talking : listening s.layer.reg.phase = false) :
    Progress p (cycle p s e) done todo := by
  have position : unread s = stream todo := by
    have position := inv.position
    cases phase : s.layer.reg.phase <;> simp_all [Position, listening]
  have aligned : s.layer.demux.worm = false := by
    have aligned := inv.aligned
    cases phase : s.layer.reg.phase <;> simp_all [Aligned, listening]
  obtain ⟨unread', worm'⟩ := boundary_stays (p := p) (e := e) aligned position
    (by cases phase : s.layer.reg.phase <;> simp_all [RegAccess.debug_in_ready, listening])
  have silent : answered s.layer e = false :=
    not_answered_of_phase (by intro same; simp [same, listening] at talking)
  have sent : emitted (cycle p s e) ++ remaining p (nextReg p s e) = emitted s ++ remaining p s.layer.reg := by
    rw [emitted_cycle]
    cases phase : s.layer.reg.phase <;> simp [phase, listening] at talking <;> cases out : sends p s e <;>
      cases write : s.layer.reg.req_write <;>
      simp [nextReg, RegAccess.next, RegAccess.debug_out, phase, out, write, remaining, DiiFlit.ofFlit,
        DiiFlit.flit, RegAccess.destFlit, RegAccess.srcFlit, RegAccess.valueFlit]
  have phase' : (nextReg p s e).phase = .idle ∨ listening (nextReg p s e).phase = false := by
    cases phase : s.layer.reg.phase <;> simp [phase, listening] at talking <;> cases out : sends p s e <;>
      simp [nextReg, RegAccess.next, phase, out, listening]
    cases write : s.layer.reg.req_write <;> simp
  exact
    { answers := by rw [cycle_answers, silent]; exact inv.answers
      locals := inv.locals
      sent := sent.trans inv.sent
      stalled := by
        rw [cycle_reg, ← inv.stalled]
        cases phase : s.layer.reg.phase <;> simp_all [nextReg, RegAccess.next, listening]
      position := by
        simp only [Position, cycle_reg]
        cases phase : (nextReg p s e).phase <;> simp_all [listening]
      aligned := by
        simp only [Aligned, cycle_reg]
        cases phase : (nextReg p s e).phase <;> simp_all [listening]
      framed := inv.framed }

theorem Progress.cycle (inv : Progress p s done todo) (succeeds : readsSucceed s e) :
    ∃ done' todo', done.requests ++ todo = done'.requests ++ todo'
      ∧ Progress p (Layer.cycle p s e) done' todo' := by
  cases phase : s.layer.reg.phase with
  | idle => exact ⟨done, todo, rfl, inv.idle phase⟩
  | start => exact ⟨done, todo, rfl, inv.start phase⟩
  | addr => exact inv.addr phase
  | write => exact inv.write phase
  | extStart => exact inv.extStart phase succeeds
  | drop => simpa [Position, phase] using inv.position
  | respStart => exact ⟨done, todo, rfl, inv.respond (by simp [phase, listening])⟩
  | respSrc => exact ⟨done, todo, rfl, inv.respond (by simp [phase, listening])⟩
  | respValue => exact ⟨done, todo, rfl, inv.respond (by simp [phase, listening])⟩

end Layer

end LowRisc.Debug
