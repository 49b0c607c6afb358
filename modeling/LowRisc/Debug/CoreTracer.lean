import LowRisc.Lib.Slots
import LowRisc.Lib.Transition

/-! The core tracer of Rocket and its scoreboard of missed loads.

A memory instruction that commits without its data takes a slot of the scoreboard
with its address and its time. A replay of the data cache fills every slot that
holds its address, and in a cycle without a retiring instruction the lowest filled
slot is traced and freed.
-/

set_option autoImplicit false

namespace LowRisc.Debug.CoreTracer

open LowRisc.Lib

/-- The parameters of the class: its predicates on memory and CSR commands, and `ctmScoreBoardSize`. -/
structure Config where
  isRead : BitVec 5 → Bool
  isWrite : BitVec 5 → Bool
  isCsrRead : BitVec 3 → BitVec 12 → Bool
  isCsrWrite : BitVec 3 → BitVec 12 → Bool
  isCsrTrap : BitVec 3 → BitVec 12 → Bool
  ctmScoreBoardSize : Nat

structure RocketCoreTraceIO where
  wb_valid : Bool
  wb_pc : BitVec 64
  wb_wdata : BitVec 64
  wb_jal : Bool
  wb_jalr : Bool
  wb_br : Bool
  wb_mem : Bool
  wb_mem_cmd : BitVec 5
  wb_xcpt : Bool
  wb_csr : Bool
  wb_csr_cmd : BitVec 3
  wb_csr_addr : BitVec 12
  mem_br_taken : Bool
  mem_npc : BitVec 64
  csr_eret : Bool
  csr_xcpt : Bool
  csr_prv : BitVec 2
  csr_wdata : BitVec 64
  csr_evec : BitVec 64
  csr_time : BitVec 64
  dmem_has_data : Bool
  dmem_replay : Bool
  dmem_rdata : BitVec 64
  dmem_wdata : BitVec 64
  dmem_addr : BitVec 64

structure CoreTrace where
  pc : BitVec 64
  npc : BitVec 64
  jal : Bool
  jalr : Bool
  br : Bool
  load : Bool
  store : Bool
  trap : Bool
  xcpt : Bool
  csr : Bool
  mem : Bool
  taken : Bool
  prv : BitVec 2
  addr : BitVec 64
  rdata : BitVec 64
  wdata : BitVec 64
  time : BitVec 64

/-- The index of the lowest set bit of `n`, and the highest index when none is set. -/
def PriorityEncoder (n : Nat) (bits : Nat → Bool) : Nat :=
  ((List.range n).find? bits).getD (n - 1)

structure Scoreboard where
  availQ : Nat → Bool
  fillQ : Nat → Bool
  addrQ : Nat → BitVec 64
  timeQ : Nat → BitVec 64
  dataQ : Nat → BitVec 64

namespace Scoreboard

def fireQ (sb : Scoreboard) (i : Nat) : Bool := !sb.availQ i && sb.fillQ i

def add_index (n : Nat) (sb : Scoreboard) : Nat := PriorityEncoder n sb.availQ

def fire_index (n : Nat) (sb : Scoreboard) : Nat := PriorityEncoder n sb.fireQ

def fire (n : Nat) (sb : Scoreboard) : Bool := (List.range n).any sb.fireQ

def addr (n : Nat) (sb : Scoreboard) : BitVec 64 := sb.addrQ (sb.fire_index n)

def data (n : Nat) (sb : Scoreboard) : BitVec 64 := sb.dataQ (sb.fire_index n)

def time (n : Nat) (sb : Scoreboard) : BitVec 64 := sb.timeQ (sb.fire_index n)

def add (sb : Scoreboard) (i : Nat) (a t : BitVec 64) : Scoreboard :=
  { sb with
    availQ := upd sb.availQ i false
    fillQ := upd sb.fillQ i false
    addrQ := upd sb.addrQ i a
    timeQ := upd sb.timeQ i t }

def replay (sb : Scoreboard) (a d : BitVec 64) : Scoreboard :=
  { sb with
    fillQ := fun i => sb.addrQ i == a || sb.fillQ i
    dataQ := fun i => if sb.addrQ i = a then d else sb.dataQ i }

def clear (sb : Scoreboard) (i : Nat) : Scoreboard := { sb with availQ := upd sb.availQ i true }

end Scoreboard

/-- The registers: the latched inputs, the two of them that are latched twice, and the scoreboard. -/
structure RocketCoreTracer where
  latch : RocketCoreTraceIO
  wb_br_taken : Bool
  wb_br_npc : BitVec 64
  sb : Scoreboard

variable (p : Config)

namespace RocketCoreTraceIO

def retire_event (l : RocketCoreTraceIO) : Bool :=
  l.wb_valid && (l.wb_jal || l.wb_jalr || l.wb_br || l.wb_xcpt ||
    l.wb_mem && (l.dmem_has_data || !p.isRead l.wb_mem_cmd) || l.wb_csr) || l.csr_xcpt || l.csr_eret

/-- The condition of `sb.add`. -/
def adds (l : RocketCoreTraceIO) : Bool := l.wb_valid && l.wb_mem && !l.dmem_has_data

/-- The condition of `sb.replay`. -/
def replays (l : RocketCoreTraceIO) : Bool := l.dmem_replay && l.dmem_has_data

end RocketCoreTraceIO

namespace RocketCoreTracer

def retired (s : RocketCoreTracer) (io : RocketCoreTraceIO) : CoreTrace where
  pc := s.latch.wb_pc
  npc := if s.latch.wb_xcpt || s.latch.csr_xcpt || s.latch.csr_eret then s.latch.csr_evec else s.wb_br_npc
  jal := s.latch.wb_jal
  jalr := s.latch.wb_jalr
  br := s.latch.wb_br
  load := s.latch.wb_mem && p.isRead s.latch.wb_mem_cmd ||
    s.latch.wb_csr && p.isCsrRead s.latch.wb_csr_cmd s.latch.wb_csr_addr
  store := s.latch.wb_mem && p.isWrite s.latch.wb_mem_cmd ||
    s.latch.wb_csr && p.isCsrWrite s.latch.wb_csr_cmd s.latch.wb_csr_addr
  trap := s.latch.csr_xcpt && p.isCsrTrap s.latch.wb_csr_cmd s.latch.wb_csr_addr
  xcpt := s.latch.wb_xcpt || s.latch.csr_xcpt && !p.isCsrTrap s.latch.wb_csr_cmd s.latch.wb_csr_addr
  csr := s.latch.wb_csr
  mem := s.latch.wb_mem
  taken := s.wb_br_taken
  prv := io.csr_prv
  addr := s.latch.dmem_addr
  rdata := if s.latch.wb_mem then s.latch.dmem_rdata else s.latch.wb_wdata
  wdata := if s.latch.wb_mem then s.latch.dmem_wdata else s.latch.csr_wdata
  time := s.latch.csr_time

/-- `!retire_event && sb.fire` -/
def fires (s : RocketCoreTracer) : Bool :=
  !s.latch.retire_event p && s.sb.fire p.ctmScoreBoardSize

/-- `tracer.io.trace`, when it is valid. -/
def trace (s : RocketCoreTracer) (io : RocketCoreTraceIO) : Option CoreTrace :=
  if s.fires p then
    some { s.retired p io with
      load := true
      mem := true
      addr := s.sb.addr p.ctmScoreBoardSize
      rdata := s.sb.data p.ctmScoreBoardSize
      time := s.sb.time p.ctmScoreBoardSize }
  else if s.latch.retire_event p then some (s.retired p io)
  else none

/-- The scoreboard with the load or the replay of this cycle. Every index is taken from the registers;
the two never meet, since they differ in `dmem_has_data`. -/
def entered (s : RocketCoreTracer) : Scoreboard :=
  if s.latch.adds then s.sb.add (s.sb.add_index p.ctmScoreBoardSize) s.latch.dmem_addr s.latch.csr_time
  else if s.latch.replays then s.sb.replay s.latch.dmem_addr s.latch.dmem_rdata
  else s.sb

/-- The scoreboard at the next edge: the assignments of `clear` stand last. -/
def nextScoreboard (s : RocketCoreTracer) : Scoreboard :=
  if s.fires p then (s.entered p).clear (s.sb.fire_index p.ctmScoreBoardSize) else s.entered p

def next (s : RocketCoreTracer) (io : RocketCoreTraceIO) : RocketCoreTracer where
  latch := io
  wb_br_taken := s.latch.mem_br_taken
  wb_br_npc := s.latch.mem_npc
  sb := s.nextScoreboard p

/-- Reset sets `availQ` to the literal `Bits(1, n)`. The other registers keep what they held. -/
structure AfterReset (s : RocketCoreTracer) : Prop where
  availQ : ∀ i < p.ctmScoreBoardSize, s.sb.availQ i = (BitVec.ofNat p.ctmScoreBoardSize 1).getLsbD i
  fillQ : ∀ i < p.ctmScoreBoardSize, s.sb.fillQ i = false

end RocketCoreTracer

structure Miss where
  addr : BitVec 64
  time : BitVec 64
  deriving DecidableEq

structure Answer where
  addr : BitVec 64
  data : BitVec 64
  time : BitVec 64
  deriving DecidableEq

/-- The tracer with what it should trace. `load i` is set while slot `i` was last taken by a load.
`outstanding` and `answered` do not look at the scoreboard. -/
structure Log where
  regs : RocketCoreTracer
  load : Nat → Bool
  outstanding : List Miss
  answered : List Answer
  events : List Answer

namespace Log

/-- A load commits without its data. -/
def missed (s : Log) : Bool := s.regs.latch.adds && p.isRead s.regs.latch.wb_mem_cmd

/-- A replay answers the first outstanding load of its address. -/
def answeredBy (s : Log) : Option Miss :=
  if s.regs.latch.replays then s.outstanding.find? fun m => m.addr == s.regs.latch.dmem_addr else none

/-- The event of a missed load: what is traced in a cycle without a retiring instruction. -/
def event (s : Log) (io : RocketCoreTraceIO) : Option Answer :=
  if s.regs.latch.retire_event p then none
  else (s.regs.trace p io).map fun t => ⟨t.addr, t.rdata, t.time⟩

def cycle (s : Log) (io : RocketCoreTraceIO) : Log where
  regs := s.regs.next p io
  load := if s.regs.latch.adds
    then upd s.load (s.regs.sb.add_index p.ctmScoreBoardSize) (p.isRead s.regs.latch.wb_mem_cmd) else s.load
  outstanding := match s.answeredBy with
    | some m => s.outstanding.erase m
    | none => s.outstanding ++ if s.missed p then [⟨s.regs.latch.dmem_addr, s.regs.latch.csr_time⟩] else []
  answered := s.answered ++ (s.answeredBy.map fun m => ⟨m.addr, s.regs.latch.dmem_rdata, m.time⟩).toList
  events := s.events ++ (s.event p io).toList

/-- Every answered load has its event, or is one of at most `ctmScoreBoardSize` whose event is still
to come; a cycle without a retiring instruction emits one of these, if there are any. No other
event is emitted. -/
def TracedOnce (s : Log) : Prop :=
  ∃ waiting : List Answer, (s.events ++ waiting).Perm s.answered ∧ waiting.length ≤ p.ctmScoreBoardSize ∧
    ∀ io, (s.event p io).isSome = (!s.regs.latch.retire_event p && !waiting.isEmpty) ∧
      ∀ e ∈ s.event p io, e ∈ waiting

/-- The slot that an `add` takes holds no missed load. -/
def Vacant (s : Log) : Prop :=
  s.regs.latch.adds = true → s.regs.sb.availQ (s.regs.sb.add_index p.ctmScoreBoardSize) = true ∨
    s.load (s.regs.sb.add_index p.ctmScoreBoardSize) = false

/-- Slot `i` is taken, and a `replay` fills it. -/
def marks (s : Log) (i : Nat) : Bool :=
  s.regs.latch.replays && !s.regs.sb.availQ i && s.regs.sb.addrQ i == s.regs.latch.dmem_addr

/-- Among the taken slots a `replay` fills at most one, and this one holds a load without its data. -/
def Matched (s : Log) : Prop :=
  ∀ i < p.ctmScoreBoardSize, s.marks i = true →
    s.load i = true ∧ s.regs.sb.fillQ i = false ∧ ∀ j < p.ctmScoreBoardSize, s.marks j = true → j = i

def Intended (s : Log) : Prop := s.Vacant p ∧ s.Matched p

structure AfterReset (s : Log) : Prop where
  regs : s.regs.AfterReset p
  load : ∀ i < p.ctmScoreBoardSize, s.load i = false
  outstanding : s.outstanding = []
  answered : s.answered = []
  events : s.events = []

def run (s : Log) (ios : List RocketCoreTraceIO) : Log := ios.foldl (cycle p) s

end Log

section
variable {n i : Nat} {bits : Nat → Bool}

theorem priorityEncoder_lt (positive : 0 < n) : PriorityEncoder n bits < n := by
  rw [PriorityEncoder]
  cases found : (List.range n).find? bits with
  | none => exact Nat.sub_lt positive Nat.one_pos
  | some i => exact List.mem_range.mp (List.mem_of_find?_eq_some found)

theorem priorityEncoder_set (inside : i < n) (set : bits i = true) : bits (PriorityEncoder n bits) = true := by
  rw [PriorityEncoder]
  cases found : (List.range n).find? bits with
  | none => exact absurd set (List.find?_eq_none.mp found i (List.mem_range.mpr inside))
  | some j => exact List.find?_some found

theorem fire_iff {sb : Scoreboard} : sb.fire n = true ↔ ∃ i < n, sb.fireQ i = true := by
  simp [Scoreboard.fire]

end

namespace Scoreboard

def unanswered (sb : Scoreboard) (load : Nat → Bool) (i : Nat) : Option Miss :=
  if load i && !sb.availQ i && !sb.fillQ i then some ⟨sb.addrQ i, sb.timeQ i⟩ else none

def filled (sb : Scoreboard) (load : Nat → Bool) (i : Nat) : Option Answer :=
  if load i && sb.fireQ i then some ⟨sb.addrQ i, sb.dataQ i, sb.timeQ i⟩ else none

end Scoreboard

/-- The scoreboard holds the loads that are due: those still outstanding, and those answered whose
event is still to come. -/
structure Holds (n : Nat) (sb : Scoreboard) (load : Nat → Bool) (outstanding : List Miss)
    (answered events : List Answer) : Prop where
  outstanding : outstanding.Perm (entries n (sb.unanswered load))
  answered : (events ++ entries n (sb.filled load)).Perm answered
  loaded : ∀ i < n, sb.fireQ i = true → load i = true

namespace Holds

variable {n : Nat} {sb : Scoreboard} {load : Nat → Bool} {outstanding : List Miss} {answered events : List Answer}

theorem add (holds : Holds n sb load outstanding answered events) {k : Nat} (inside : k < n)
    (vacant : sb.availQ k = true ∨ load k = false) (a t : BitVec 64) (b : Bool) :
    Holds n (sb.add k a t) (upd load k b) (outstanding ++ if b then [⟨a, t⟩] else []) answered events where
  -- the entry that is filled counted for no miss
  outstanding := by
    have before : sb.unanswered load k = none := by
      rcases vacant with free | other
      · simp [Scoreboard.unanswered, free]
      · simp [Scoreboard.unanswered, other]
    have same : ∀ i < n, i ≠ k → (sb.add k a t).unanswered (upd load k b) i = sb.unanswered load i := by
      intro i _ other
      simp [Scoreboard.unanswered, Scoreboard.add, other]
    cases b with
    | false =>
      rw [entries_congr fun i below => ?_]
      · simpa using holds.outstanding
      · by_cases here : i = k
        · rw [here, before]
          simp [Scoreboard.unanswered]
        · exact same i below here
    | true =>
      have more := entries_fill inside before (by simp [Scoreboard.unanswered, Scoreboard.add]; rfl) same
      exact (List.perm_append_singleton _ _).trans ((holds.outstanding.cons _).trans more.symm)
  answered := by
    rw [entries_congr fun i below => ?_]
    · exact holds.answered
    · by_cases here : i = k
      · subst here
        rcases vacant with free | other
        · simp [Scoreboard.filled, Scoreboard.fireQ, Scoreboard.add, free]
        · simp [Scoreboard.filled, Scoreboard.fireQ, Scoreboard.add, other]
      · simp [Scoreboard.filled, Scoreboard.fireQ, Scoreboard.add, here]
  loaded := by
    intro i below fire
    by_cases here : i = k
    · simp [Scoreboard.fireQ, Scoreboard.add, here] at fire
    · rw [upd_of_ne here]
      apply holds.loaded i below
      simpa [Scoreboard.fireQ, Scoreboard.add, here] using fire

theorem replay_other (holds : Holds n sb load outstanding answered events) {a : BitVec 64} (d : BitVec 64)
    (absent : ∀ i < n, sb.availQ i = false → sb.addrQ i ≠ a) :
    Holds n (sb.replay a d) load outstanding answered events := by
  have free : ∀ i < n, sb.addrQ i = a → sb.availQ i = true := by
    intro i below here
    by_contra taken
    exact absent i below (by simpa using taken) here
  refine ⟨?_, ?_, ?_⟩
  · rw [entries_congr fun i below => ?_]
    · exact holds.outstanding
    · by_cases here : sb.addrQ i = a
      · simp [Scoreboard.unanswered, Scoreboard.replay, free i below here]
      · simp [Scoreboard.unanswered, Scoreboard.replay, here]
  · rw [entries_congr fun i below => ?_]
    · exact holds.answered
    · by_cases here : sb.addrQ i = a
      · simp [Scoreboard.filled, Scoreboard.fireQ, Scoreboard.replay, free i below here]
      · simp [Scoreboard.filled, Scoreboard.fireQ, Scoreboard.replay, here]
  · intro i below fire
    apply holds.loaded i below
    by_cases here : sb.addrQ i = a
    · simp [Scoreboard.fireQ, Scoreboard.replay, free i below here] at fire
    · simpa [Scoreboard.fireQ, Scoreboard.replay, here] using fire

theorem find_other (holds : Holds n sb load outstanding answered events) {a : BitVec 64}
    (absent : ∀ i < n, sb.availQ i = false → sb.addrQ i ≠ a) : outstanding.find? (fun m => m.addr == a) = none := by
  apply List.find?_eq_none.mpr
  intro m inside here
  obtain ⟨i, below, held⟩ := mem_entries.mp (holds.outstanding.subset inside)
  simp only [Scoreboard.unanswered, Option.ite_none_right_eq_some, Bool.and_eq_true, Bool.not_eq_true',
    Option.some.injEq] at held
  obtain ⟨⟨⟨-, taken⟩, -⟩, rfl⟩ := held
  exact absent i below taken (by simpa using here)

section
variable {a : BitVec 64} {j : Nat} (inside : j < n) (taken : sb.availQ j = false) (here : sb.addrQ j = a)
  (loaded : load j = true) (empty : sb.fillQ j = false)
  (only : ∀ i < n, sb.availQ i = false → sb.addrQ i = a → i = j)
include inside taken here loaded empty only

/-- The one load whose slot holds the address of a replay is the one that the replay answers. -/
theorem find_here (holds : Holds n sb load outstanding answered events) :
    outstanding.find? (fun m => m.addr == a) = some ⟨a, sb.timeQ j⟩ := by
  have present : (⟨a, sb.timeQ j⟩ : Miss) ∈ outstanding := by
    apply holds.outstanding.symm.subset
    rw [mem_entries]
    exact ⟨j, inside, by simp [Scoreboard.unanswered, loaded, taken, empty, here]⟩
  cases found : outstanding.find? fun m => m.addr == a with
  | none => exact absurd (beq_self_eq_true a) (List.find?_eq_none.mp found _ present)
  | some m =>
    have same := List.find?_some found
    obtain ⟨i, below, held⟩ := mem_entries.mp (holds.outstanding.subset (List.mem_of_find?_eq_some found))
    simp only [Scoreboard.unanswered, Option.ite_none_right_eq_some, Bool.and_eq_true, Bool.not_eq_true',
      Option.some.injEq] at held
    obtain ⟨⟨⟨-, busy⟩, -⟩, rfl⟩ := held
    have place := only i below busy (by simpa using same)
    subst place
    rw [here]

theorem replay_here (holds : Holds n sb load outstanding answered events) (d : BitVec 64) :
    Holds n (sb.replay a d) load (outstanding.erase ⟨a, sb.timeQ j⟩) (answered ++ [⟨a, d, sb.timeQ j⟩]) events := by
  -- the address is in one entry only
  have free : ∀ i < n, i ≠ j → sb.addrQ i = a → sb.availQ i = true := by
    intro i below other same
    by_contra busy
    exact other (only i below (by simpa using busy) same)
  refine ⟨?_, ?_, ?_⟩
  -- the miss leaves those that wait, and joins those that are answered
  · have fewer : (entries n (sb.unanswered load)).Perm
        (⟨a, sb.timeQ j⟩ :: entries n ((sb.replay a d).unanswered load)) := by
      apply entries_empty inside
      · simp [Scoreboard.unanswered, loaded, taken, empty, here]
      · simp [Scoreboard.unanswered, Scoreboard.replay, here]
      · intro i below other
        by_cases same : sb.addrQ i = a
        · simp [Scoreboard.unanswered, Scoreboard.replay, free i below other same]
        · simp [Scoreboard.unanswered, Scoreboard.replay, same]
    have erased := (holds.outstanding.trans fewer).erase ⟨a, sb.timeQ j⟩
    rwa [List.erase_cons_head] at erased
  · have more : (entries n ((sb.replay a d).filled load)).Perm
        (⟨a, d, sb.timeQ j⟩ :: entries n (sb.filled load)) := by
      apply entries_fill inside
      · simp [Scoreboard.filled, Scoreboard.fireQ, empty]
      · simp [Scoreboard.filled, Scoreboard.fireQ, Scoreboard.replay, loaded, taken, here]
      · intro i below other
        by_cases same : sb.addrQ i = a
        · simp [Scoreboard.filled, Scoreboard.fireQ, Scoreboard.replay, free i below other same]
        · simp [Scoreboard.filled, Scoreboard.fireQ, Scoreboard.replay, same]
    refine (more.append_left _).trans (List.perm_middle.trans ?_)
    exact (holds.answered.cons _).trans (List.perm_append_singleton _ _).symm
  · intro i below fire
    by_cases place : i = j
    · rw [place]
      exact loaded
    · apply holds.loaded i below
      by_cases same : sb.addrQ i = a
      · simp [Scoreboard.fireQ, Scoreboard.replay, free i below place same] at fire
      · simpa [Scoreboard.fireQ, Scoreboard.replay, same] using fire

end

theorem clear (holds : Holds n sb load outstanding answered events) {f : Nat} (inside : f < n)
    (fire : sb.fireQ f = true) :
    Holds n (sb.clear f) load outstanding answered (events ++ [⟨sb.addrQ f, sb.dataQ f, sb.timeQ f⟩]) := by
  have loaded := holds.loaded f inside fire
  have filled : sb.fillQ f = true := by
    rw [Scoreboard.fireQ, Bool.and_eq_true] at fire
    exact fire.2
  refine ⟨?_, ?_, ?_⟩
  · rw [entries_congr fun i below => ?_]
    · exact holds.outstanding
    · by_cases place : i = f
      · simp [Scoreboard.unanswered, Scoreboard.clear, place, filled]
      · simp [Scoreboard.unanswered, Scoreboard.clear, place]
  · have fewer : (entries n (sb.filled load)).Perm
        (⟨sb.addrQ f, sb.dataQ f, sb.timeQ f⟩ :: entries n ((sb.clear f).filled load)) := by
      apply entries_empty inside
      · simp [Scoreboard.filled, loaded, fire]
      · simp [Scoreboard.filled, Scoreboard.fireQ, Scoreboard.clear]
      · intro i below other
        simp [Scoreboard.filled, Scoreboard.fireQ, Scoreboard.clear, other]
    rw [List.append_assoc, List.singleton_append]
    exact (fewer.symm.append_left _).trans holds.answered
  · intro i below fire
    by_cases place : i = f
    · simp [Scoreboard.fireQ, Scoreboard.clear, place] at fire
    · apply holds.loaded i below
      simpa [Scoreboard.fireQ, Scoreboard.clear, place] using fire

end Holds

namespace Log

variable {p} {s : Log}

def Inv (p : Config) (s : Log) : Prop :=
  Holds p.ctmScoreBoardSize s.regs.sb s.load s.outstanding s.answered s.events

theorem inv_reset (reset : s.AfterReset p) : s.Inv p := by
  have empty : ∀ i < p.ctmScoreBoardSize, s.regs.sb.fillQ i = false := reset.regs.fillQ
  refine ⟨?_, ?_, ?_⟩
  · rw [reset.outstanding, entries_eq_nil]
    intro i below
    simp [Scoreboard.unanswered, reset.load i below]
  · rw [reset.events, reset.answered, entries_eq_nil]
    · rfl
    · intro i below
      simp [Scoreboard.filled, reset.load i below]
  · intro i below fire
    simp [Scoreboard.fireQ, empty i below] at fire

def fired (p : Config) (s : Log) : Answer :=
  ⟨s.regs.sb.addr p.ctmScoreBoardSize, s.regs.sb.data p.ctmScoreBoardSize, s.regs.sb.time p.ctmScoreBoardSize⟩

theorem event_eq (io : RocketCoreTraceIO) :
    s.event p io = if s.regs.fires p then some (s.fired p) else none := by
  unfold event RocketCoreTracer.trace
  cases retire : s.regs.latch.retire_event p with
  | true => simp [RocketCoreTracer.fires, retire]
  | false =>
    cases fire : s.regs.sb.fire p.ctmScoreBoardSize with
    | true => simp [RocketCoreTracer.fires, retire, fire, fired]
    | false => simp [RocketCoreTracer.fires, retire, fire]

theorem fire_index_spec (fires : s.regs.fires p = true) :
    s.regs.sb.fire_index p.ctmScoreBoardSize < p.ctmScoreBoardSize ∧
      s.regs.sb.fireQ (s.regs.sb.fire_index p.ctmScoreBoardSize) = true := by
  rw [RocketCoreTracer.fires, Bool.and_eq_true] at fires
  obtain ⟨i, below, set⟩ := fire_iff.mp fires.2
  exact ⟨priorityEncoder_lt (by omega), priorityEncoder_set below set⟩

theorem marks_iff {i : Nat} (replays : s.regs.latch.replays = true) :
    s.marks i = true ↔ s.regs.sb.availQ i = false ∧ s.regs.sb.addrQ i = s.regs.latch.dmem_addr := by
  simp [marks, replays]

theorem not_replays (adds : s.regs.latch.adds = true) : s.regs.latch.replays = false := by
  unfold RocketCoreTraceIO.adds at adds
  unfold RocketCoreTraceIO.replays
  rw [Bool.and_eq_true, Bool.not_eq_true'] at adds
  rw [adds.2, Bool.and_false]

theorem Inv.enter (positive : 0 < p.ctmScoreBoardSize) (inv : s.Inv p) (intended : s.Intended p) (io : RocketCoreTraceIO) :
    Holds p.ctmScoreBoardSize (s.regs.entered p) (s.cycle p io).load (s.cycle p io).outstanding (s.cycle p io).answered
      s.events := by
  unfold cycle RocketCoreTracer.entered
  cases adds : s.regs.latch.adds with
  | true =>
    -- a cycle with a new miss answers none
    have silent : s.answeredBy = none := by simp [answeredBy, not_replays adds]
    have inside : s.regs.sb.add_index p.ctmScoreBoardSize < p.ctmScoreBoardSize := priorityEncoder_lt positive
    have more := Holds.add inv inside (intended.1 adds) s.regs.latch.dmem_addr s.regs.latch.csr_time
      (p.isRead s.regs.latch.wb_mem_cmd)
    simpa [silent, missed, adds] using more
  | false =>
    have none' : s.missed p = false := by simp [missed, adds]
    cases replays : s.regs.latch.replays with
    | false =>
      have silent : s.answeredBy = none := by simp [answeredBy, replays]
      simp only [silent, none', Option.map_none, Option.toList_none, List.append_nil, Bool.false_eq_true, if_false]
      exact inv
    | true =>
      -- the entry of the address is the one that waits, or there is none
      by_cases held : ∃ j < p.ctmScoreBoardSize, s.marks j = true
      · obtain ⟨j, inside, marked⟩ := held
        obtain ⟨loaded, empty, alone⟩ := intended.2 j inside marked
        obtain ⟨taken, here⟩ := (marks_iff replays).mp marked
        have only : ∀ i < p.ctmScoreBoardSize, s.regs.sb.availQ i = false →
            s.regs.sb.addrQ i = s.regs.latch.dmem_addr → i = j := by
          intro i below busy same
          exact alone i below ((marks_iff replays).mpr ⟨busy, same⟩)
        have answer : s.answeredBy = some ⟨s.regs.latch.dmem_addr, s.regs.sb.timeQ j⟩ := by
          rw [answeredBy, if_pos replays]
          exact Holds.find_here inside taken here loaded empty only inv
        have moved := Holds.replay_here inside taken here loaded empty only inv s.regs.latch.dmem_rdata
        simpa [answer] using moved
      · have absent : ∀ i < p.ctmScoreBoardSize, s.regs.sb.availQ i = false →
            s.regs.sb.addrQ i ≠ s.regs.latch.dmem_addr := by
          intro i below taken here
          exact held ⟨i, below, (marks_iff replays).mpr ⟨taken, here⟩⟩
        have silent : s.answeredBy = none := by
          rw [answeredBy, if_pos replays]
          exact Holds.find_other inv absent
        simpa [silent, none'] using Holds.replay_other inv s.regs.latch.dmem_rdata absent

theorem entered_fire (inv : s.Inv p) (intended : s.Intended p)
    (fires : s.regs.fires p = true) :
    (s.regs.entered p).fireQ (s.regs.sb.fire_index p.ctmScoreBoardSize) = true ∧
      (⟨(s.regs.entered p).addrQ (s.regs.sb.fire_index p.ctmScoreBoardSize),
        (s.regs.entered p).dataQ (s.regs.sb.fire_index p.ctmScoreBoardSize),
        (s.regs.entered p).timeQ (s.regs.sb.fire_index p.ctmScoreBoardSize)⟩ : Answer) = s.fired p := by
  obtain ⟨inside, fire⟩ := fire_index_spec fires
  generalize slot : s.regs.sb.fire_index p.ctmScoreBoardSize = f at inside fire
  have held : s.regs.sb.availQ f = false ∧ s.regs.sb.fillQ f = true := by
    simpa [Scoreboard.fireQ] using fire
  have same : s.fired p = ⟨s.regs.sb.addrQ f, s.regs.sb.dataQ f, s.regs.sb.timeQ f⟩ := by
    rw [← slot]
    rfl
  rw [same]
  unfold RocketCoreTracer.entered
  split
  next adds =>
    -- the slot taken is free or holds no load, and the one that fires holds one
    have other : f ≠ s.regs.sb.add_index p.ctmScoreBoardSize := by
      rintro rfl
      rcases intended.1 adds with free | vacant
      · rw [held.1] at free
        cases free
      · have loaded := inv.loaded _ inside fire
        rw [vacant] at loaded
        cases loaded
    simp [Scoreboard.fireQ, Scoreboard.add, other, held]
  next =>
    split
    next replays =>
      have other : s.regs.sb.addrQ f ≠ s.regs.latch.dmem_addr := by
        intro here
        have empty := (intended.2 f inside ((marks_iff replays).mpr ⟨held.1, here⟩)).2.1
        rw [held.2] at empty
        cases empty
      simp [Scoreboard.fireQ, Scoreboard.replay, other, held]
    next => exact ⟨fire, rfl⟩

theorem Inv.cycle (positive : 0 < p.ctmScoreBoardSize) (inv : s.Inv p) (intended : s.Intended p) (io : RocketCoreTraceIO) :
    (s.cycle p io).Inv p := by
  have enters := Inv.enter positive inv intended io
  have events : (s.cycle p io).events = s.events ++ (if s.regs.fires p then some (s.fired p) else none).toList := by
    rw [← event_eq io]
    rfl
  have board : (s.cycle p io).regs.sb = s.regs.nextScoreboard p := rfl
  unfold Inv
  rw [events, board, RocketCoreTracer.nextScoreboard]
  cases fires : s.regs.fires p with
  | false => simpa using enters
  | true =>
    obtain ⟨fire, same⟩ := entered_fire inv intended fires
    have leaves := enters.clear (fire_index_spec fires).1 fire
    rw [same] at leaves
    exact leaves

theorem Inv.tracedOnce (inv : s.Inv p) : s.TracedOnce p := by
  refine ⟨entries p.ctmScoreBoardSize (s.regs.sb.filled s.load), inv.answered, length_entries_le, fun io => ?_⟩
  rw [event_eq io]
  cases fires : s.regs.fires p with
  | true =>
    obtain ⟨inside, fire⟩ := fire_index_spec fires
    have present : s.fired p ∈ entries p.ctmScoreBoardSize (s.regs.sb.filled s.load) := by
      apply mem_entries.mpr
      refine ⟨_, inside, ?_⟩
      simp only [Scoreboard.filled, inv.loaded _ inside fire, fire]
      rfl
    rw [RocketCoreTracer.fires, Bool.and_eq_true] at fires
    refine ⟨?_, ?_⟩
    · rw [fires.1]
      simp [List.ne_nil_of_mem present]
    · intro e emitted
      simp only [if_true, Option.mem_some] at emitted
      rw [← emitted]
      exact present
  | false =>
    refine ⟨?_, by simp⟩
    cases retire : s.regs.latch.retire_event p with
    | true => simp
    | false =>
      have none' : entries p.ctmScoreBoardSize (s.regs.sb.filled s.load) = [] := by
        apply entries_eq_nil
        intro i below
        have still : s.regs.sb.fireQ i = false := by
          by_contra fire
          have some' := fire_iff.mpr ⟨i, below, by simpa using fire⟩
          simp [RocketCoreTracer.fires, retire, some'] at fires
        simp [Scoreboard.filled, still]
      rw [none']
      simp

theorem Inv.run (positive : 0 < p.ctmScoreBoardSize) (inv : s.Inv p) {ios : List RocketCoreTraceIO}
    (intended : ∀ k < ios.length, (s.run p (ios.take k)).Intended p) : (s.run p ios).Inv p := by
  induction ios using List.reverseRecOn with
  | nil => exact inv
  | append_singleton ios io ih =>
    have before := ih fun k short => by
      have now := intended k (by rw [List.length_append]; omega)
      rwa [List.take_append_of_le_length (by omega)] at now
    have last := intended ios.length (by simp)
    rw [List.take_left' rfl] at last
    unfold Log.run
    rw [List.foldl_append]
    exact before.cycle positive last io

/-- In a run that never takes the slot of a load that is due, and fills no taken slot but that of the
one load a replay answers, every missed load has one event, and nothing else has any. -/
theorem traces_missed_loads_once (positive : 0 < p.ctmScoreBoardSize) (reset : s.AfterReset p)
    (ios : List RocketCoreTraceIO) (intended : ∀ k < ios.length, (s.run p (ios.take k)).Intended p) :
    (s.run p ios).TracedOnce p :=
  ((inv_reset reset).run positive intended).tracedOnce

end Log

section
variable (cmd : BitVec 5)

def M_XRD : BitVec 5 := 0
def M_XWR : BitVec 5 := 1
def M_XA_SWAP : BitVec 5 := 4
def M_XLR : BitVec 5 := 6
def M_XSC : BitVec 5 := 7

def isAMO : Bool := cmd.getLsbD 3 || cmd == M_XA_SWAP

def isRead : Bool := cmd == M_XRD || cmd == M_XLR || cmd == M_XSC || isAMO cmd

def isWrite : Bool := cmd == M_XWR || cmd == M_XSC || isAMO cmd

end

/-- The tracer as Rocket instantiates it; `CSR.N`, `CSR.I` and `CSR.R` are the commands 0, 4 and 5. -/
def rocket (n : Nat) : Config where
  isRead := isRead
  isWrite := isWrite
  isCsrRead cmd _ := cmd != 0 && cmd != 4
  isCsrWrite cmd addr := cmd != 0 && cmd != 4 && cmd != 5 && !(addr.getLsbD 11 && addr.getLsbD 10)
  isCsrTrap cmd addr := cmd != 4 && (!addr.getLsbD 8 || !addr.getLsbD 1 && !addr.getLsbD 0)
  ctmScoreBoardSize := n

def idle : RocketCoreTraceIO :=
  ⟨false, 0, 0, false, false, false, false, 0, false, false, 0, 0, false, 0, false, false, 0, 0, 0, 0, false, false, 0, 0, 0⟩

def commit (cmd : BitVec 5) (addr time : BitVec 64) : RocketCoreTraceIO :=
  { idle with wb_valid := true, wb_mem := true, wb_mem_cmd := cmd, dmem_addr := addr, csr_time := time }

def replayed (addr data : BitVec 64) : RocketCoreTraceIO :=
  { idle with dmem_has_data := true, dmem_replay := true, dmem_addr := addr, dmem_rdata := data }

def resetLog (n : Nat) : Log where
  regs := ⟨idle, false, 0, ⟨(BitVec.ofNat n 1).getLsbD, fun _ => false, fun _ => 0, fun _ => 0, fun _ => 0⟩⟩
  load := fun _ => false
  outstanding := []
  answered := []
  events := []

namespace Log

theorem resetLog_afterReset (n : Nat) : (resetLog n).AfterReset (rocket n) :=
  ⟨⟨fun _ _ => rfl, fun _ _ => rfl⟩, fun _ _ => rfl, rfl, rfl, rfl⟩

instance (p : Config) (s : Log) : Decidable (s.Vacant p) :=
  inferInstanceAs (Decidable (_ → _ ∨ _))

instance (p : Config) (s : Log) : Decidable (s.Matched p) :=
  inferInstanceAs (Decidable (∀ i < p.ctmScoreBoardSize, _ → _ ∧ _ ∧ ∀ j < p.ctmScoreBoardSize, _ → j = i))

instance (p : Config) (s : Log) : Decidable (s.Intended p) :=
  inferInstanceAs (Decidable (_ ∧ _))

def twoLoads : List RocketCoreTraceIO :=
  [commit M_XRD 64 1, commit M_XRD 128 2, replayed 128 7, replayed 64 9, idle, idle]

theorem traces_missed_loads_once_two : ((resetLog 2).run (rocket 2) twoLoads).TracedOnce (rocket 2) :=
  traces_missed_loads_once Nat.two_pos (resetLog_afterReset 2) twoLoads (by decide)

def storeLoad : List RocketCoreTraceIO :=
  [commit M_XWR 64 1, commit M_XRD 64 2, replayed 64 9, idle, idle, idle]

theorem not_tracedOnce_store :
    (resetLog 2).AfterReset (rocket 2) ∧
      ((List.range 7).all fun k => ((resetLog 2).run (rocket 2) (storeLoad.take k)).outstanding.length ≤ 1) ∧
      ((resetLog 2).run (rocket 2) storeLoad).answered = [⟨64, 9, 2⟩] ∧
      ((resetLog 2).run (rocket 2) storeLoad).events = [⟨64, 9, 1⟩, ⟨64, 9, 2⟩] ∧
      ¬((resetLog 2).run (rocket 2) storeLoad).TracedOnce (rocket 2) := by
  refine ⟨resetLog_afterReset 2, by decide, by decide, by decide, ?_⟩
  rintro ⟨waiting, same, -⟩
  have length := same.length_eq
  rw [List.length_append] at length
  have answered : ((resetLog 2).run (rocket 2) storeLoad).answered.length = 1 := by decide
  have events : ((resetLog 2).run (rocket 2) storeLoad).events.length = 2 := by decide
  omega

end Log

end LowRisc.Debug.CoreTracer
