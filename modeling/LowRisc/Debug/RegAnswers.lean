import LowRisc.Debug.RegFraming

/-! Every framed request is answered, and whole runs of the register access layer. -/

set_option autoImplicit false

namespace LowRisc.Debug.Layer

open LowRisc.Lib

variable {p : RegParams} {s : LayerSystem} {e : LayerInput} {done : Answered} {todo : List Request}

/-! Without stalls every request is answered after finitely many cycles. -/

/-- An environment that stalls nothing: it offers the next flit, takes every response,
acknowledges every request and ends a packet of the module that is under way. -/
def unstalled (s : LayerSystem) : LayerInput where
  offer := true
  noise := ⟨false, 0⟩
  debug_out_ready := true
  module_out_ready := true
  module_in := if s.layer.mux = .wormLocal then ⟨true, true, 0⟩ else .idle
  answer := ⟨true, false, 0⟩

def phaseRank : RegPhase → Nat
  | .extStart => 4
  | .respStart => 3
  | .respSrc => 2
  | .respValue => 1
  | _ => 0

def rank (s : LayerSystem) : Nat :=
  6 * (unread s).length + phaseRank s.layer.reg.phase + (if Demux.active s.layer.demux then 0 else 1)
    + if s.layer.mux = .wormLocal then 1 else 0

def finished (s : LayerSystem) : Prop := s.layer.reg.phase = .idle ∧ unread s = []

theorem readsSucceed_unstalled : readsSucceed s (unstalled s) := fun _ _ => rfl

theorem mux_unstalled : (cycle p s (unstalled s)).layer.mux ≠ .wormLocal := by
  simp only [cycle, unstalled]
  cases mux : s.layer.mux with
  | noworm =>
    cases valid : (RegAccess.debug_out p s.layer.reg).valid <;>
      simp [RingRouterMux.nxt_state, RingRouterMux.selected, RingRouterMux.out_mux, valid, DiiFlit.idle,
        RingRouterMux.wormState]
    split <;> simp
  | wormRing => simp [RingRouterMux.nxt_state]; split <;> simp
  | wormLocal =>
    simp [RingRouterMux.nxt_state, RingRouterMux.out_mux, RingRouterMux.selected, RingRouterMux.port]

theorem sends_unstalled (talking : listening s.layer.reg.phase = false) (free : s.layer.mux ≠ .wormLocal) :
    sends p s (unstalled s) = true := by
  have up : (RegAccess.debug_out p s.layer.reg).valid = true := by
    cases phase : s.layer.reg.phase <;> simp_all [listening, RegAccess.debug_out, DiiFlit.ofFlit]
  cases mux : s.layer.mux <;>
    simp_all [sends, unstalled, RingRouterMux.in_ready, RingRouterMux.selected]

theorem active_boundary (boundary : s.layer.demux.worm = false) (next : unread s = stream todo)
    (still : passed s e = false) :
    Demux.active (cycle p s e).layer.demux = (Demux.active s.layer.demux || (inPort s e).valid) := by
  have typed := typed_of_stream next
  obtain ⟨⟨⟨buf, worm, first, regaccess⟩, reg, mux⟩, pending, log, answers⟩ := s
  simp only at boundary typed
  subst boundary
  cases first with
  | false =>
    simp [cycle, Demux.next, Demux.active]
  | true =>
    cases pending with
    | nil => simp [cycle, Demux.next, Demux.active, inPort, offered]
    | cons f rest =>
      have isReg := typed rfl f rfl
      cases offer : e.offer <;> cases ready : RegAccess.debug_in_ready reg <;>
        simp_all [cycle, passed, inPort, offered, Demux.next, Demux.active, Demux.out_reg_valid,
          Demux.in_is_regaccess, Demux.in_ready, DiiFlit.ofFlit]

theorem rank_boundary (boundary : s.layer.demux.worm = false) (next : unread s = stream todo)
    (busy : RegAccess.debug_in_ready s.layer.reg = false)
    (less : phaseRank (nextReg p s (unstalled s)).phase < phaseRank s.layer.reg.phase
      ∨ (s.layer.mux = .wormLocal ∧ (nextReg p s (unstalled s)).phase = s.layer.reg.phase)) :
    rank (cycle p s (unstalled s)) < rank s := by
  obtain ⟨unread', _⟩ := boundary_stays (p := p) (e := unstalled s) boundary next busy
  have active := active_boundary (p := p) (e := unstalled s) boundary next (by simp [passed, busy])
  have free : (cycle p s (unstalled s)).layer.mux ≠ .wormLocal := mux_unstalled
  have kept : (if Demux.active (cycle p s (unstalled s)).layer.demux then 0 else 1)
      ≤ (if Demux.active s.layer.demux then 0 else 1) := by
    rw [active]
    cases held : Demux.active s.layer.demux with
    | false => simp only [Bool.false_or]; split <;> simp
    | true => simp
  simp only [rank, unread', next, cycle_reg, if_neg free]
  rcases less with less | ⟨mux, same⟩
  · omega
  · rw [if_pos mux, same]
    omega

/-- A flit that is read outweighs whatever the phase it leads to still needs. -/
theorem rank_read {f : Flit} {rest : List Flit} (next : unread s = f :: rest)
    (next' : unread (cycle p s (unstalled s)) = rest) : rank (cycle p s (unstalled s)) < rank s := by
  have free : (cycle p s (unstalled s)).layer.mux ≠ .wormLocal := mux_unstalled
  have bound : phaseRank (cycle p s (unstalled s)).layer.reg.phase ≤ 4 := by
    cases (cycle p s (unstalled s)).layer.reg.phase <;> simp [phaseRank]
  simp only [rank, next, next', if_neg free, List.length_cons]
  split <;> omega

theorem passed_inside {f : Flit} {rest : List Flit} (worm : s.layer.demux.worm = true)
    (regaccess : s.layer.demux.regaccess = true) (ready : RegAccess.debug_in_ready s.layer.reg = true)
    (next : unread s = f :: rest) (more : f.last = false → rest ≠ []) : passed s (unstalled s) = true := by
  rw [unread_of_active (by simp [Demux.active, worm])] at next
  obtain ⟨rfl, rfl⟩ := List.cons.inj next
  cases pending : s.pending with
  | nil =>
    have last : s.layer.demux.buf.last = true := by
      cases last : s.layer.demux.buf.last with
      | true => rfl
      | false => exact absurd pending (more last)
    simp [passed, ready, Demux.out_reg_valid, inPort, offered, pending, worm, regaccess, last]
  | cons g others =>
    simp [passed, ready, Demux.out_reg_valid, inPort, offered, pending, worm, regaccess, unstalled,
      DiiFlit.ofFlit]

theorem rank_idle {r : Request} {rest : List Request} (boundary : s.layer.demux.worm = false)
    (next : unread s = stream (r :: rest)) (phase : s.layer.reg.phase = .idle)
    (still : passed s (unstalled s) = false) : rank (cycle p s (unstalled s)) < rank s := by
  have ready : RegAccess.debug_in_ready s.layer.reg = true := by simp [RegAccess.debug_in_ready, phase]
  have flits := next
  rw [stream_cons, flits_eq] at flits
  have empty : Demux.active s.layer.demux = false := by
    by_contra busy
    rw [Bool.not_eq_false] at busy
    have first : s.layer.demux.first = true := by simpa [Demux.active, boundary] using busy
    have typed := typed_of_stream next first
    rw [unread_of_active busy] at flits
    obtain ⟨_, pending⟩ := List.cons.inj flits
    simp [passed, ready, Demux.out_reg_valid, inPort, offered, pending, first, unstalled, DiiFlit.ofFlit,
      Demux.in_is_regaccess] at still
  have pending : s.pending = stream (r :: rest) := by simpa [unread, empty] using next
  have offers : (inPort s (unstalled s)).valid = true := by
    simp [inPort, pending, stream_cons, flits_eq, offered, unstalled, DiiFlit.ofFlit]
  obtain ⟨unread', _⟩ := demux_boundary p (e := unstalled s) boundary (typed_of_stream next)
  have active := active_boundary (p := p) boundary next still
  have free : (cycle p s (unstalled s)).layer.mux ≠ .wormLocal := mux_unstalled
  have phase' : (nextReg p s (unstalled s)).phase = .idle := by
    simp [nextReg, RegAccess.next, phase, ← passed_eq ready, still]
  rw [still] at unread'
  simp only [rank, unread', cycle_reg, phase', phase, active, empty, offers, if_neg free]
  simp
  omega

theorem Progress.rank_respond (inv : Progress p s done todo) (talking : listening s.layer.reg.phase = false) :
    rank (Layer.cycle p s (unstalled s)) < rank s := by
  have position : unread s = stream todo := by
    have position := inv.position
    cases phase : s.layer.reg.phase <;> simp_all [Position, listening]
  have aligned : s.layer.demux.worm = false := by
    have aligned := inv.aligned
    cases phase : s.layer.reg.phase <;> simp_all [Aligned, listening]
  refine rank_boundary aligned position
    (by cases phase : s.layer.reg.phase <;> simp_all [RegAccess.debug_in_ready, listening]) ?_
  by_cases mux : s.layer.mux = .wormLocal
  · refine .inr ⟨mux, ?_⟩
    have blocked : sends p s (unstalled s) = false := by
      simp [sends, RingRouterMux.in_ready, RingRouterMux.selected, mux]
    cases phase : s.layer.reg.phase <;> simp_all [nextReg, RegAccess.next, listening]
  · refine .inl ?_
    have moves := sends_unstalled (p := p) talking mux
    cases phase : s.layer.reg.phase <;> cases write : s.layer.reg.req_write <;>
      simp_all [nextReg, RegAccess.next, listening, phaseRank]

/-- Every unstalled cycle comes closer to the end. -/
theorem Progress.rank_lt (inv : Progress p s done todo) (open' : ¬finished s) :
    rank (Layer.cycle p s (unstalled s)) < rank s := by
  have position := inv.position
  have aligned := inv.aligned
  cases phase : s.layer.reg.phase with
  | idle =>
    simp only [Position, Aligned, phase] at position aligned
    have ready : RegAccess.debug_in_ready s.layer.reg = true := by simp [RegAccess.debug_in_ready, phase]
    -- the request's first flit is read, or the buffer of the demultiplexer fills
    cases todo with
    | nil => exact absurd ⟨phase, position⟩ open'
    | cons r rest =>
      cases moved : passed s (unstalled s) with
      | true =>
        obtain ⟨unread', _⟩ := demux_boundary p (e := unstalled s) aligned (typed_of_stream position)
        rw [stream_cons, flits_eq] at position
        rw [moved, position] at unread'
        exact rank_read position unread'
      | false => exact rank_idle aligned position phase moved
  | start =>
    simp only [Position, Aligned, phase] at position aligned
    obtain ⟨r, rest, rfl, next⟩ := position
    obtain ⟨worm, first, regaccess⟩ := aligned
    rw [flits_eq, List.tail_cons, List.cons_append] at next
    have moved := passed_inside worm regaccess (by simp [RegAccess.debug_in_ready, phase]) next
      (fun _ empty => frame_ne_nil (List.cons_ne_nil _ _) (List.append_eq_nil_iff.mp empty).1)
    obtain ⟨_, unread', _⟩ := inside_packet (p := p) (e := unstalled s) worm first regaccess next
    rw [moved] at unread'
    exact rank_read next unread'
  | addr =>
    simp only [Position, Aligned, phase] at position aligned
    obtain ⟨r, rest, rfl, next, _⟩ := position
    obtain ⟨worm, first, regaccess⟩ := aligned
    rw [addr_flit] at next
    -- the address is the last flit of a read, and a write has its value behind it
    have moved := passed_inside worm regaccess (by simp [RegAccess.debug_in_ready, phase]) next (by
      intro more empty
      cases values : r.values with
      | nil => simp [values] at more
      | cons v vs => exact frame_ne_nil (List.cons_ne_nil _ _) (values ▸ (List.append_eq_nil_iff.mp empty).1))
    obtain ⟨_, unread', _⟩ := inside_packet (p := p) (e := unstalled s) worm first regaccess next
    rw [moved] at unread'
    exact rank_read next unread'
  | write =>
    simp only [Position, Aligned, phase] at position aligned
    obtain ⟨r, rest, v, rfl, _, next, _⟩ := position
    obtain ⟨worm, first, regaccess⟩ := aligned
    have moved := passed_inside worm regaccess (by simp [RegAccess.debug_in_ready, phase]) next (by simp)
    obtain ⟨_, unread', _⟩ := inside_packet (p := p) (e := unstalled s) worm first regaccess next
    rw [moved] at unread'
    exact rank_read next unread'
  | extStart =>
    simp only [Position, Aligned, phase] at position aligned
    obtain ⟨r, rest, rfl, next, _⟩ := position
    -- the answer is given in this cycle, and the phase goes on
    refine rank_boundary aligned next (by simp [RegAccess.debug_in_ready, phase]) (.inl ?_)
    simp [nextReg, RegAccess.next, RegAccess.nextExtStart, phase, unstalled, phaseRank]
  | drop => simp [Position, phase] at position
  | respStart => exact inv.rank_respond (by simp [phase, listening])
  | respSrc => exact inv.rank_respond (by simp [phase, listening])
  | respValue => exact inv.rank_respond (by simp [phase, listening])

theorem Progress.finish (inv : Progress p s done todo) :
    ∃ t done', Steps (clock p) readsSucceed s t ∧ done'.requests = done.requests ++ todo
      ∧ Progress p t done' [] ∧ finished t := by
  induction bound : rank s using Nat.strong_induction_on generalizing s done todo with
  | _ n ih =>
    by_cases ended : finished s
    · have rest : todo = [] := by
        have position := inv.position
        simp only [Position, ended.1, ended.2] at position
        cases todo with
        | nil => rfl
        | cons r rest => simp [stream_cons, flits_eq] at position
      subst rest
      exact ⟨s, done, .refl s, by simp, inv, ended⟩
    · obtain ⟨done₁, todo₁, same, inv₁⟩ := inv.cycle readsSucceed_unstalled
      obtain ⟨t, done', run, all, inv', ended'⟩ := ih _ (bound ▸ inv.rank_lt ended) inv₁ rfl
      exact ⟨t, done', .head readsSucceed_unstalled rfl run, all.trans same.symm, inv', ended'⟩

/-! Whole runs. -/

/-- What the layer owes for the requests `rs`: the ones done are answered in order, each
with one response, local ones by the rules of the module and the others by the register
file; the stall register follows the commands done; between packets exactly the flits
of the requests done are consumed and their responses are complete. -/
def AnswersOnce (p : RegParams) (rs : List Request) (t : LayerSystem) : Prop :=
  ∃ (done : Answered) (todo : List Request), rs = done.requests ++ todo ∧ t.answers = done.external
    ∧ (∀ d ∈ done, d.1.ext = false → d.2 = d.1.localAnswer p)
    ∧ emitted t <+: done.responses p
    ∧ t.layer.reg.mod_cs_stall = done.stall
    ∧ (t.layer.reg.phase = .idle → unread t = stream todo ∧ emitted t = done.responses p)

theorem Progress.answersOnce (inv : Progress p s done todo) : AnswersOnce p (done.requests ++ todo) s := by
  refine ⟨done, todo, rfl, inv.answers, inv.locals, ⟨_, inv.sent⟩, inv.stalled, fun phase => ⟨?_, ?_⟩⟩
  · have position := inv.position
    simpa only [Position, phase] using position
  · have sent := inv.sent
    rwa [remaining_of_listening (by simp [phase, listening]), List.append_nil] at sent

theorem progress_of_reset {rs : List Request} (reset : OnReset s) (source : s.pending = stream rs)
    (framed : ∀ r ∈ rs, r.Framed = true) : Progress p s [] rs := by
  obtain ⟨worm, first, phase, stall, _, log, answers⟩ := reset
  constructor
  · simp [answers, Answered.external]
  · simp
  · simp [emitted, log, remaining, phase, Answered.responses]
  · simp [stall, Answered.stall]
  · simp [Position, phase, unread, Demux.active, worm, first, source]
  · simp [Aligned, phase, worm]
  · exact framed

/-- The responses and the packets of the module leave as whole packets. -/
theorem mux_follows_of_steps {ok : LayerSystem → LayerInput → Prop} {t : LayerSystem} (reset : OnReset s)
    (run : Steps (clock p) ok s t) : MuxFollows t.layer.mux t.log := by
  refine run.invariant (I := fun t => MuxFollows t.layer.mux t.log) ?_ ?_
  · rw [reset.2.2.2.2.2.1]
    exact RingRouterMux.follows_nil _
  · intro t u e follows _ fired
    cases Option.some.inj fired
    exact RingRouterMux.follows_step follows _ _ _

/-- A run over framed requests, in which the register file grants every read, answers each
request once, never mixes a response with another packet, and can always be completed. -/
theorem framed_requests_answered_once {rs : List Request} {t : LayerSystem} (reset : OnReset s)
    (source : s.pending = stream rs) (framed : ∀ r ∈ rs, r.Framed = true)
    (run : Steps (clock p) readsSucceed s t) :
    AnswersOnce p rs t ∧ Uninterleaved t.log ∧
    ∃ u done, Steps (clock p) readsSucceed t u ∧ Answered.requests done = rs
      ∧ emitted u = done.responses p ∧ unread u = [] := by
  have reached : ∃ done todo, rs = Answered.requests done ++ todo ∧ Progress p t done todo := by
    refine run.invariant (I := fun t => ∃ done todo, rs = Answered.requests done ++ todo ∧ Progress p t done todo)
      ⟨[], rs, rfl, progress_of_reset reset source framed⟩ ?_
    rintro t u e ⟨done, todo, same, inv⟩ succeeds fired
    cases Option.some.inj fired
    obtain ⟨done', todo', same', inv'⟩ := inv.cycle succeeds
    exact ⟨done', todo', same.trans same', inv'⟩
  obtain ⟨done, todo, same, inv⟩ := reached
  obtain ⟨u, done', finish, all, inv', ended⟩ := inv.finish
  refine ⟨same ▸ inv.answersOnce, (mux_follows_of_steps reset run).whole, u, done', finish,
    all.trans same.symm, ?_, ended.2⟩
  have sent := inv'.sent
  rwa [remaining_of_listening (by simp [ended.1, listening]), List.append_nil] at sent

def plainModule : RegParams := ⟨0x5, 0x1, false, 7⟩

def afterReset (rs : List Request) : LayerSystem where
  layer := ⟨⟨⟨false, 0⟩, false, false, false⟩, ⟨.idle, false, 0, 0, 0, 0, false, true⟩, .noworm⟩
  pending := stream rs
  log := []
  answers := []

def runUnstalled (p : RegParams) : Nat → LayerSystem → LayerSystem
  | 0, s => s
  | n + 1, s => runUnstalled p n (cycle p s (unstalled s))

theorem steps_runUnstalled (n : Nat) (s : LayerSystem) :
    Steps (clock p) readsSucceed s (runUnstalled p n s) := by
  induction n generalizing s with
  | zero => exact .refl s
  | succ n ih => exact .head readsSucceed_unstalled rfl (ih _)

/-- A read of the module identification by host 1. -/
def readModid : Request := ⟨7, false, false, RegAccess.REQ_SIZE_16, 1, RegAccess.REG_MODID, []⟩

/-- The host takes the module out of its stall, with the value behind the address. -/
def writeStall : Request := ⟨7, false, true, RegAccess.REQ_SIZE_16, 1, RegAccess.REG_CS, [0x0800]⟩

/-- A write and a read behind `reg_request`. -/
def writeExt : Request := ⟨7, false, true, 1, 2, 0x200, [0xbeef]⟩
def readExt : Request := ⟨7, false, false, 1, 2, 0x201, []⟩

def stallableModule : RegParams := ⟨0x5, 0x1, true, 7⟩

def session : List Request := [readModid, writeStall, writeExt, readExt]

theorem readModid_answered_once :
    emitted (runUnstalled stallableModule 40 (afterReset session)) =
      [⟨false, 0x1⟩, ⟨false, 0x7⟩, ⟨true, 0x5⟩, ⟨false, 0x1⟩, ⟨true, 0x807⟩, ⟨false, 0x2⟩, ⟨true, 0x807⟩,
        ⟨false, 0x2⟩, ⟨false, 0x7⟩, ⟨true, 0x0⟩]
    ∧ (runUnstalled stallableModule 40 (afterReset session)).layer.reg.mod_cs_stall = false
    ∧ AnswersOnce stallableModule session (runUnstalled stallableModule 40 (afterReset session)) :=
  ⟨by decide +kernel, by decide +kernel,
    (framed_requests_answered_once (s := afterReset session)
      ⟨rfl, rfl, rfl, rfl, rfl, rfl, rfl⟩ rfl (by decide) (steps_runUnstalled 40 _)).1⟩

/-- A read of an address no register of the module has. -/
def readUnknown : Request := ⟨7, false, false, RegAccess.REQ_SIZE_16, 1, 0x2, []⟩

/-- The error response to a read ends with its second flit, and a third one follows it. -/
theorem readUnknown_not_answered_once :
    OnReset (afterReset [readUnknown]) ∧
    Steps (clock plainModule) readsSucceed (afterReset [readUnknown])
      (runUnstalled plainModule 7 (afterReset [readUnknown])) ∧
    ¬AnswersOnce plainModule [readUnknown] (runUnstalled plainModule 7 (afterReset [readUnknown])) := by
  refine ⟨⟨rfl, rfl, rfl, rfl, rfl, rfl, rfl⟩, steps_runUnstalled 7 _, ?_⟩
  rintro ⟨done, todo, all, -, own, -, -, between⟩
  obtain ⟨consumed, sent⟩ := between (by decide +kernel)
  have empty : unread (runUnstalled plainModule 7 (afterReset [readUnknown])) = [] := by decide +kernel
  have out : (emitted (runUnstalled plainModule 7 (afterReset [readUnknown]))).length = 3 := by decide +kernel
  rw [empty] at consumed
  cases todo with
  | cons r rest => simp [stream_cons, flits_eq] at consumed
  | nil =>
    match done, all with
    | [(r, a)], all =>
      simp only [Answered.requests, List.map_cons, List.map_nil, List.append_nil, List.cons.injEq, and_true] at all
      subst all
      have answer := own _ (List.mem_singleton_self _) (show readUnknown.ext = false by decide)
      simp only at answer
      rw [sent, answer] at out
      exact absurd out (by decide +kernel)

end LowRisc.Debug.Layer
