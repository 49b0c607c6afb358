import Mathlib.Algebra.GroupWithZero.Nat
import Mathlib.Data.List.Basic
import Mathlib.Data.Nat.Find

/-! The log of the core trace module: `ctm_log_handler`. -/

set_option autoImplicit false

namespace LowRisc.Debug.CtmLog

/-- A function of the ELF file; its name is a pointer. -/
structure ElfFunction where
  addr : BitVec 64
  name : Nat
  deriving DecidableEq, Repr

/-- `funcs` is what the memory holds at the table and behind it. `addr_width` is 64, or else 32. -/
structure CtmLogHandle where
  wide : Bool
  num_funcs : Nat
  funcs : Option (Nat → ElfFunction)

inductive Line where
  | missed (count : BitVec 32)
  | raw (timestamp : BitVec 32) (modechange call ret : Bool) (mode : BitVec 2) (pc npc : BitVec 64)
  | changeMode (timestamp : BitVec 32) (mode : BitVec 2)
  | enter (timestamp : BitVec 32) (name : Nat)
  | leave (timestamp : BitVec 32) (name : Nat)
  deriving DecidableEq, Repr

abbrev Packet := Nat → BitVec 16

namespace Packet

variable (packet : Packet)

def overflow : Bool := (packet 2).getLsbD 11
def timestamp : BitVec 32 := packet 4 ++ packet 3

def npc (wide : Bool) : BitVec 64 :=
  if wide then packet 8 ++ packet 7 ++ packet 6 ++ packet 5 else (packet 6 ++ packet 5).setWidth 64

def pc (wide : Bool) : BitVec 64 :=
  if wide then packet 12 ++ packet 11 ++ packet 10 ++ packet 9 else (packet 8 ++ packet 7).setWidth 64

def flags (wide : Bool) : BitVec 16 := if wide then packet 13 else packet 9

def modechange (wide : Bool) : Bool := (packet.flags wide).getLsbD 4
def call (wide : Bool) : Bool := (packet.flags wide).getLsbD 3
def ret (wide : Bool) : Bool := (packet.flags wide).getLsbD 2
def mode (wide : Bool) : BitVec 2 := (packet.flags wide).extractLsb' 0 2

end Packet

/-- What a part of the handler does: the lines it writes and the entries of the table it reads. -/
structure Effect where
  lines : List Line
  reads : List Nat
  deriving DecidableEq, Repr

section
variable (funcs : Nat → ElfFunction) (num_funcs : Nat)

/-- `for (f = 0; f < num_funcs; f++)`, with `todo` rounds to go. -/
def callLoop (timestamp : BitVec 32) (npc : BitVec 64) : Nat → Nat → Effect
  | 0, _ => ⟨[], []⟩
  | todo + 1, f =>
    if (funcs f).addr = npc then ⟨[.enter timestamp (funcs f).name], [f]⟩
    else
      let rest := callLoop timestamp npc todo (f + 1)
      ⟨rest.lines, f :: rest.reads⟩

/-- `for (f = 1; f <= num_funcs; f++)`: the function that is returned to, and the entries read. -/
def toLoop (npc : BitVec 64) : Nat → Nat → Nat → Nat × List Nat
  | 0, _, to' => (to', [])
  | todo + 1, f, to' =>
    if npc < (funcs f).addr then ((funcs (f - 1)).name, [f, f - 1])
    else if f = num_funcs then
      let rest := toLoop npc todo (f + 1) (funcs (num_funcs - 1)).name
      (rest.1, f :: (num_funcs - 1) :: rest.2)
    else
      let rest := toLoop npc todo (f + 1) to'
      (rest.1, f :: rest.2)

def leaveLoop (timestamp : BitVec 32) (pc npc : BitVec 64) (to' : Nat) : Nat → Nat → Effect
  | 0, _ => ⟨[], []⟩
  | todo + 1, f =>
    let leave (g : Nat) : List Line := if (funcs g).name ≠ to' then [.leave timestamp (funcs g).name] else []
    if (funcs f).addr = npc then ⟨[.enter timestamp (funcs f).name], [f]⟩
    else if pc < (funcs f).addr then ⟨leave (f - 1), [f, f - 1]⟩
    else
      let rest := leaveLoop timestamp pc npc to' todo (f + 1)
      if f = num_funcs then ⟨leave (num_funcs - 1) ++ rest.lines, f :: (num_funcs - 1) :: rest.reads⟩
      else ⟨rest.lines, f :: rest.reads⟩

def returned (timestamp : BitVec 32) (pc npc : BitVec 64) : Effect :=
  let first := toLoop funcs num_funcs npc num_funcs 1 0
  let second := leaveLoop funcs num_funcs timestamp pc npc first.1 num_funcs 1
  ⟨second.lines, first.2 ++ second.reads⟩

end

def effect (log : CtmLogHandle) (packet : Packet) : Effect :=
  let timestamp := packet.timestamp
  let pc := packet.pc log.wide
  let npc := packet.npc log.wide
  match log.funcs with
  | none =>
    ⟨[.raw timestamp (packet.modechange log.wide) (packet.call log.wide) (packet.ret log.wide) (packet.mode log.wide)
      pc npc], []⟩
  | some funcs =>
    if packet.modechange log.wide then ⟨[.changeMode timestamp (packet.mode log.wide)], []⟩
    else if packet.call log.wide then callLoop funcs timestamp npc log.num_funcs 0
    else if packet.ret log.wide then returned funcs log.num_funcs timestamp pc npc
    else ⟨[], []⟩

def report (log : CtmLogHandle) (misscount : BitVec 32) (lines : List Line) : BitVec 32 × List Line :=
  if lines = [] ∨ log.funcs = none then (misscount, lines)
  else (0, (if misscount ≠ 0 then [.missed misscount] else []) ++ lines)

def ctm_log_handler (log : CtmLogHandle) (misscount : BitVec 32) (packet : Packet) : BitVec 32 × Effect :=
  if packet.overflow then (misscount + ((packet 3).setWidth 10).setWidth 32, ⟨[], []⟩)
  else
    let done := effect log packet
    let (misscount, lines) := report log misscount done.lines
    (misscount, ⟨lines, done.reads⟩)

/-! The table of functions and what the handler is to find in it. -/

/-- The table: sorted by address, every name a pointer of its own. -/
structure Table (funcs : Nat → ElfFunction) (num_funcs : Nat) : Prop where
  filled : 1 ≤ num_funcs
  sorted : ∀ i j, i ≤ j → j < num_funcs → (funcs i).addr ≤ (funcs j).addr
  names : ∀ i j, i < num_funcs → j < num_funcs → (funcs i).name = (funcs j).name → i = j

/-- Entry `i` is the last one whose address is not above `x`. -/
structure Encloses (funcs : Nat → ElfFunction) (num_funcs : Nat) (x : BitVec 64) (i : Nat) : Prop where
  inside : i < num_funcs
  reached : (funcs i).addr ≤ x
  last : ∀ j, i < j → j < num_funcs → x < (funcs j).addr

structure IsReturn (wide : Bool) (packet : Packet) : Prop where
  overflow : packet.overflow = false
  modechange : packet.modechange wide = false
  call : packet.call wide = false
  ret : packet.ret wide = true

def InBounds (num_funcs : Nat) (reads : List Nat) : Prop := ∀ f ∈ reads, f < num_funcs

/-- A return to no function start is logged exactly where it leaves the function around `pc` for another one. -/
def LeavesRight (funcs : Nat → ElfFunction) (num_funcs : Nat) (timestamp : BitVec 32) (pc npc : BitVec 64)
    (lines : List Line) : Prop :=
  (∀ f < num_funcs, (funcs f).addr ≠ npc) → ∀ name, .leave timestamp name ∈ lines ↔
    ∃ i, Encloses funcs num_funcs pc i ∧ (funcs i).name = name ∧ ¬Encloses funcs num_funcs npc i

structure Resolved (wide : Bool) (funcs : Nat → ElfFunction) (num_funcs : Nat) (misscount : BitVec 32)
    (packet : Packet) : Prop where
  reads : InBounds num_funcs (ctm_log_handler ⟨wide, num_funcs, some funcs⟩ misscount packet).2.reads
  leaves : IsReturn wide packet → LeavesRight funcs num_funcs packet.timestamp (packet.pc wide) (packet.npc wide)
    (ctm_log_handler ⟨wide, num_funcs, some funcs⟩ misscount packet).2.lines

/-- Both searches of a return end at an entry of the table, and the addresses below the table do no harm. -/
structure Found (funcs : Nat → ElfFunction) (num_funcs : Nat) (pc npc : BitVec 64) : Prop where
  npc_below : ∃ f, 1 ≤ f ∧ f < num_funcs ∧ npc < (funcs f).addr
  pc_below : ∃ f, 1 ≤ f ∧ f < num_funcs ∧ ((funcs f).addr = npc ∨ pc < (funcs f).addr)
  -- the first function is taken to reach down to address 0
  pc_first : (∀ f < num_funcs, (funcs f).addr ≠ npc) → pc < (funcs 0).addr → npc < (funcs 1).addr
  npc_first : npc < (funcs 0).addr → pc < (funcs 0).addr ∨ (funcs 1).addr ≤ pc

/-! The loops. -/

section
variable {funcs : Nat → ElfFunction} {num_funcs : Nat} {timestamp : BitVec 32} {pc npc : BitVec 64}

theorem toLoop_found {g todo f to' : Nat} (from' : f ≤ g) (rounds : g < f + todo) (inside : g < num_funcs)
    (above : npc < (funcs g).addr) (first : ∀ j, f ≤ j → j < g → ¬npc < (funcs j).addr) :
    (toLoop funcs num_funcs npc todo f to').1 = (funcs (g - 1)).name ∧
      InBounds num_funcs (toLoop funcs num_funcs npc todo f to').2 := by
  induction todo generalizing f to' with
  | zero => omega
  | succ todo ih =>
    rw [toLoop]
    rcases Nat.eq_or_lt_of_le from' with rfl | later
    · rw [if_pos above]
      refine ⟨rfl, fun j read => ?_⟩
      simp only [List.mem_cons, List.not_mem_nil, or_false] at read
      omega
    · rw [if_neg (first f (Nat.le_refl f) later), if_neg (by omega)]
      have rest := @ih f.succ to' later (by omega) fun j after before => first j (by omega) before
      refine ⟨rest.1, fun j read => ?_⟩
      rcases List.mem_cons.mp read with rfl | read
      · omega
      · exact rest.2 j read

/-- Without such an address it reads the entry behind the table. -/
theorem toLoop_missed {todo f to' : Nat} (from' : f ≤ num_funcs) (rounds : num_funcs < f + todo)
    (below : ∀ j, f ≤ j → j < num_funcs → ¬npc < (funcs j).addr) :
    num_funcs ∈ (toLoop funcs num_funcs npc todo f to').2 := by
  induction todo generalizing f to' with
  | zero => omega
  | succ todo ih =>
    rw [toLoop]
    by_cases ends : f = num_funcs
    · split
      · simp [ends]
      · simp [ends]
    · rw [if_neg (below f (Nat.le_refl f) (by omega)), if_neg ends]
      exact List.mem_cons_of_mem _ (ih (by omega) (by omega) fun j after before => below j (by omega) before)

theorem leaveLoop_found {g todo f to' : Nat} (from' : f ≤ g) (rounds : g < f + todo) (inside : g < num_funcs)
    (stop : (funcs g).addr = npc ∨ pc < (funcs g).addr)
    (first : ∀ j, f ≤ j → j < g → ¬((funcs j).addr = npc ∨ pc < (funcs j).addr)) :
    ((funcs g).addr ≠ npc → (leaveLoop funcs num_funcs timestamp pc npc to' todo f).lines =
        if (funcs (g - 1)).name ≠ to' then [.leave timestamp (funcs (g - 1)).name] else []) ∧
      InBounds num_funcs (leaveLoop funcs num_funcs timestamp pc npc to' todo f).reads := by
  induction todo generalizing f with
  | zero => omega
  | succ todo ih =>
    rw [leaveLoop]
    rcases Nat.eq_or_lt_of_le from' with rfl | later
    · by_cases start : (funcs f).addr = npc
      · rw [if_pos start]
        refine ⟨fun other => absurd start other, fun j read => ?_⟩
        rw [List.mem_singleton.mp read]
        exact inside
      · rw [if_neg start, if_pos (stop.resolve_left start)]
        refine ⟨fun _ => rfl, fun j read => ?_⟩
        simp only [List.mem_cons, List.not_mem_nil, or_false] at read
        omega
    · obtain ⟨start, below⟩ := not_or.mp (first f (Nat.le_refl f) later)
      rw [if_neg start, if_neg below, if_neg (by omega)]
      have rest := ih later (by omega) fun j after before => first j (by omega) before
      refine ⟨rest.1, fun j read => ?_⟩
      rcases List.mem_cons.mp read with rfl | read
      · omega
      · exact rest.2 j read

theorem leaveLoop_missed {todo f to' : Nat} (from' : f ≤ num_funcs) (rounds : num_funcs < f + todo)
    (none' : ∀ j, f ≤ j → j < num_funcs → ¬((funcs j).addr = npc ∨ pc < (funcs j).addr)) :
    num_funcs ∈ (leaveLoop funcs num_funcs timestamp pc npc to' todo f).reads := by
  induction todo generalizing f with
  | zero => omega
  | succ todo ih =>
    rw [leaveLoop]
    by_cases ends : f = num_funcs
    · subst ends
      split
      · exact List.mem_singleton_self _
      · split
        · exact List.mem_cons_self
        · rw [if_pos rfl]
          exact List.mem_cons_self
    · obtain ⟨start, below⟩ := not_or.mp (none' f (Nat.le_refl f) (by omega))
      rw [if_neg start, if_neg below, if_neg ends]
      exact List.mem_cons_of_mem _ (ih (by omega) (by omega) fun j after before => none' j (by omega) before)

theorem callLoop_inBounds {todo f : Nat} (rounds : f + todo = num_funcs) :
    InBounds num_funcs (callLoop funcs timestamp npc todo f).reads := by
  induction todo generalizing f with
  | zero => exact fun j read => absurd read List.not_mem_nil
  | succ todo ih =>
    rw [callLoop]
    split
    · intro j read
      rw [List.mem_singleton.mp read]
      omega
    · intro j read
      rcases List.mem_cons.mp read with rfl | read
      · omega
      · exact ih (by omega) j read

/-- Where the search for `x` ends, one entry above the function around `x`. -/
structure Stops (funcs : Nat → ElfFunction) (num_funcs : Nat) (x : BitVec 64) (g : Nat) : Prop where
  positive : 1 ≤ g
  inside : g < num_funcs
  above : x < (funcs g).addr
  first : ∀ j, 1 ≤ j → j < g → (funcs j).addr ≤ x

theorem Stops.not_above {x : BitVec 64} {g : Nat} (stops : Stops funcs num_funcs x g) (j : Nat) (after : 1 ≤ j)
    (before : j < g) : ¬x < (funcs j).addr :=
  BitVec.not_lt.mpr (stops.first j after before)

theorem exists_stops {x : BitVec 64} (above : ∃ f, 1 ≤ f ∧ f < num_funcs ∧ x < (funcs f).addr) :
    ∃ g, Stops funcs num_funcs x g := by
  obtain ⟨positive, inside, found⟩ := Nat.find_spec above
  refine ⟨Nat.find above, positive, inside, found, fun j from' before => ?_⟩
  apply BitVec.not_lt.mp
  intro wrong
  exact Nat.find_min above before ⟨from', by omega, wrong⟩

theorem Table.encloses_iff (table : Table funcs num_funcs) {x : BitVec 64} {g : Nat}
    (stops : Stops funcs num_funcs x g) (i : Nat) :
    Encloses funcs num_funcs x i ↔ (funcs 0).addr ≤ x ∧ i = g - 1 := by
  have positive := stops.positive
  have inside := stops.inside
  have above := stops.above
  have sorted := table.sorted
  simp only [BitVec.le_def, BitVec.lt_def] at sorted above ⊢
  constructor
  · rintro ⟨bound, reached, last⟩
    simp only [BitVec.le_def, BitVec.lt_def] at reached last
    refine ⟨Nat.le_trans (sorted 0 i (Nat.zero_le i) bound) reached, ?_⟩
    have before : i < g := by
      by_contra behind
      have := sorted g i (by omega) bound
      omega
    by_contra other
    have early := stops.first (i + 1) (by omega) (by omega)
    rw [BitVec.le_def] at early
    have := last (i + 1) (by omega) (by omega)
    omega
  · rintro ⟨reached, rfl⟩
    refine ⟨by omega, ?_, fun j after bound => ?_⟩
    · rw [BitVec.le_def]
      by_cases zero : g - 1 = 0
      · rw [zero]
        exact reached
      · have early := stops.first (g - 1) (by omega) (by omega)
        rwa [BitVec.le_def] at early
    · rw [BitVec.lt_def]
      exact Nat.lt_of_lt_of_le above (sorted g j (by omega) bound)

theorem Stops.below_first {x : BitVec 64} {g : Nat} (stops : Stops funcs num_funcs x g) :
    g = 1 ↔ x < (funcs 1).addr := by
  constructor
  · rintro rfl
    exact stops.above
  · intro below
    have positive := stops.positive
    by_contra later
    exact stops.not_above 1 (Nat.le_refl 1) (by omega) below

end

/-! A return. -/

section
variable {funcs : Nat → ElfFunction} {num_funcs : Nat} (timestamp : BitVec 32) {pc npc : BitVec 64}

/-- The reads of a return stay inside the table exactly when both searches end there. -/
theorem returned_inBounds_iff (filled : 1 ≤ num_funcs) :
    InBounds num_funcs (returned funcs num_funcs timestamp pc npc).reads ↔
      (∃ f, 1 ≤ f ∧ f < num_funcs ∧ npc < (funcs f).addr) ∧
        ∃ f, 1 ≤ f ∧ f < num_funcs ∧ ((funcs f).addr = npc ∨ pc < (funcs f).addr) := by
  have rounds : num_funcs < 1 + num_funcs := by omega
  constructor
  · intro bounds
    constructor
    · by_contra none'
      have missed : num_funcs ∈ (toLoop funcs num_funcs npc num_funcs 1 0).2 :=
        toLoop_missed filled rounds fun j after before below => none' ⟨j, after, before, below⟩
      exact Nat.lt_irrefl _ (bounds _ (List.mem_append_left _ missed))
    · by_contra none'
      have missed : num_funcs ∈ (leaveLoop funcs num_funcs timestamp pc npc
          (toLoop funcs num_funcs npc num_funcs 1 0).1 num_funcs 1).reads :=
        leaveLoop_missed filled rounds fun j after before stop => none' ⟨j, after, before, stop⟩
      exact Nat.lt_irrefl _ (bounds _ (List.mem_append_right _ missed))
  · rintro ⟨npc_below, pc_below⟩ f read
    rcases List.mem_append.mp read with read | read
    · obtain ⟨g, stops⟩ := exists_stops npc_below
      have inside := stops.inside
      exact (toLoop_found stops.positive (by omega) inside stops.above stops.not_above).2 f read
    · obtain ⟨positive, inside, found⟩ := Nat.find_spec pc_below
      refine (leaveLoop_found positive (by omega) inside found fun j after before stop => ?_).2 f read
      exact Nat.find_min pc_below before ⟨after, by omega, stop⟩

theorem returned_lines {g h : Nat} (npc_stops : Stops funcs num_funcs npc g) (pc_stops : Stops funcs num_funcs pc h)
    (other : ∀ f < num_funcs, (funcs f).addr ≠ npc) :
    (returned funcs num_funcs timestamp pc npc).lines =
      if (funcs (h - 1)).name ≠ (funcs (g - 1)).name then [.leave timestamp (funcs (h - 1)).name] else [] := by
  have inside := npc_stops.inside
  have inside' := pc_stops.inside
  have dest : (toLoop funcs num_funcs npc num_funcs 1 0).1 = (funcs (g - 1)).name := by
    exact (toLoop_found npc_stops.positive (by omega) inside npc_stops.above npc_stops.not_above).1
  rw [returned, dest]
  refine (leaveLoop_found pc_stops.positive (by omega) inside' (.inr pc_stops.above) fun j after before stop => ?_).1
    (other h inside')
  rcases stop with start | below
  · exact other j (by omega) start
  · exact pc_stops.not_above j after before below

/-- The line is right when it is there exactly in front of another function around `npc`. -/
theorem leavesRight_iff (table : Table funcs num_funcs) {g h : Nat} (npc_stops : Stops funcs num_funcs npc g)
    (pc_stops : Stops funcs num_funcs pc h) (other : ∀ f < num_funcs, (funcs f).addr ≠ npc) :
    LeavesRight funcs num_funcs timestamp pc npc (returned funcs num_funcs timestamp pc npc).lines ↔
      (h ≠ g ↔ (funcs 0).addr ≤ pc ∧ ¬((funcs 0).addr ≤ npc ∧ h = g)) := by
  have positive := npc_stops.positive
  have positive' := pc_stops.positive
  have inside := npc_stops.inside
  have inside' := pc_stops.inside
  have same : (funcs (h - 1)).name ≠ (funcs (g - 1)).name ↔ h ≠ g := by
    rw [not_iff_not]
    constructor
    · intro names
      have := table.names _ _ (by omega) (by omega) names
      omega
    · rintro rfl
      rfl
  have back : h - 1 = g - 1 ↔ h = g := by omega
  have written (name : Nat) : .leave timestamp name ∈ (returned funcs num_funcs timestamp pc npc).lines ↔
      h ≠ g ∧ name = (funcs (h - 1)).name := by
    rw [returned_lines timestamp npc_stops pc_stops other]
    split
    · rename_i apart
      simp [same.mp apart]
    · rename_i together
      rw [same] at together
      simp [together]
  have wanted (name : Nat) : (∃ i, Encloses funcs num_funcs pc i ∧ (funcs i).name = name ∧
        ¬Encloses funcs num_funcs npc i) ↔
      ((funcs 0).addr ≤ pc ∧ ¬((funcs 0).addr ≤ npc ∧ h = g)) ∧ name = (funcs (h - 1)).name := by
    simp only [table.encloses_iff pc_stops, table.encloses_iff npc_stops]
    constructor
    · rintro ⟨i, ⟨reached, rfl⟩, rfl, apart⟩
      rw [back] at apart
      exact ⟨⟨reached, apart⟩, rfl⟩
    · rintro ⟨⟨reached, apart⟩, rfl⟩
      rw [← back] at apart
      exact ⟨_, ⟨reached, rfl⟩, rfl, apart⟩
  constructor
  · intro leaves
    have line := leaves other (funcs (h - 1)).name
    rw [written, wanted] at line
    simpa using line
  · intro right _ name
    rw [written, wanted, right]

/-- A return is logged as it should be exactly when both searches end inside the table and the addresses below the
table do no harm. -/
theorem returned_right_iff (table : Table funcs num_funcs) :
    (InBounds num_funcs (returned funcs num_funcs timestamp pc npc).reads ∧
        LeavesRight funcs num_funcs timestamp pc npc (returned funcs num_funcs timestamp pc npc).lines) ↔
      Found funcs num_funcs pc npc := by
  have sorted := table.sorted
  simp only [BitVec.le_def] at sorted
  have pc_above (other : ∀ f < num_funcs, (funcs f).addr ≠ npc)
      (pc_below : ∃ f, 1 ≤ f ∧ f < num_funcs ∧ ((funcs f).addr = npc ∨ pc < (funcs f).addr)) :
      ∃ h, Stops funcs num_funcs pc h := by
    obtain ⟨f, positive, inside, stop⟩ := pc_below
    exact exists_stops ⟨f, positive, inside, stop.resolve_left (other f inside)⟩
  rw [returned_inBounds_iff timestamp table.filled]
  constructor
  · rintro ⟨⟨npc_below, pc_below⟩, leaves⟩
    obtain ⟨g, npc_stops⟩ := exists_stops npc_below
    have two : 1 < num_funcs := Nat.lt_of_le_of_lt npc_stops.positive npc_stops.inside
    have first := sorted 0 1 (Nat.zero_le 1) two
    refine ⟨npc_below, pc_below, fun other below => ?_, fun below => ?_⟩
    · obtain ⟨h, pc_stops⟩ := pc_above other pc_below
      rw [leavesRight_iff timestamp table npc_stops pc_stops other] at leaves
      -- the search for `pc` stops at once; where that for `npc` does not, no function was left and one is logged
      have one : h = 1 := by
        rw [pc_stops.below_first, BitVec.lt_def]
        rw [BitVec.lt_def] at below
        omega
      rw [← npc_stops.below_first]
      by_contra later
      have reached := (leaves.mp (by omega)).1
      rw [BitVec.le_def] at reached
      rw [BitVec.lt_def] at below
      omega
    · rw [BitVec.lt_def] at below
      have other (f : Nat) (inside : f < num_funcs) : (funcs f).addr ≠ npc := by
        rintro rfl
        have := sorted 0 f (Nat.zero_le f) inside
        omega
      obtain ⟨h, pc_stops⟩ := pc_above other pc_below
      rw [leavesRight_iff timestamp table npc_stops pc_stops other] at leaves
      -- the search for `npc` stops at once; where that for `pc` does too, nothing is logged
      have one : g = 1 := by
        rw [npc_stops.below_first, BitVec.lt_def]
        omega
      by_cases low : pc < (funcs 0).addr
      · exact .inl low
      · right
        rw [BitVec.lt_def] at low
        have apart : h ≠ g := leaves.mpr ⟨by rw [BitVec.le_def]; omega, fun both => by
          have reached := both.1
          rw [BitVec.le_def] at reached
          omega⟩
        have far : ¬pc < (funcs 1).addr := fun near => apart (by rw [pc_stops.below_first.mpr near, one])
        rw [BitVec.lt_def] at far
        rw [BitVec.le_def]
        omega
  · intro found
    refine ⟨⟨found.npc_below, found.pc_below⟩, fun other => ?_⟩
    obtain ⟨g, npc_stops⟩ := exists_stops found.npc_below
    obtain ⟨h, pc_stops⟩ := pc_above other found.pc_below
    have two : 1 < num_funcs := Nat.lt_of_le_of_lt npc_stops.positive npc_stops.inside
    have first := sorted 0 1 (Nat.zero_le 1) two
    refine (leavesRight_iff timestamp table npc_stops pc_stops other).mpr ?_ other
    have pc_first := found.pc_first other
    have npc_first := found.npc_first
    have g_one := npc_stops.below_first
    have h_one := pc_stops.below_first
    simp only [BitVec.le_def, BitVec.lt_def] at pc_first npc_first g_one h_one ⊢
    omega

end

theorem leave_mem_report {log : CtmLogHandle} {misscount timestamp : BitVec 32} {lines : List Line} {name : Nat} :
    .leave timestamp name ∈ (report log misscount lines).2 ↔ .leave timestamp name ∈ lines := by
  rw [report]
  split
  · exact Iff.rfl
  · split <;> simp

theorem effect_inBounds {wide : Bool} {funcs : Nat → ElfFunction} {num_funcs : Nat} {packet : Packet}
    (quiet : packet.overflow = false) (other : ¬IsReturn wide packet) :
    InBounds num_funcs (effect ⟨wide, num_funcs, some funcs⟩ packet).reads := by
  simp only [effect]
  split
  · exact fun f read => absurd read List.not_mem_nil
  · rename_i mode
    split
    · exact callLoop_inBounds (Nat.zero_add num_funcs)
    · rename_i call
      split
      · rename_i ret
        exact absurd ⟨quiet, Bool.eq_false_iff.mpr mode, Bool.eq_false_iff.mpr call, ret⟩ other
      · exact fun f read => absurd read List.not_mem_nil

/-- The handler reads entries of the table only, and logs a return to no function start as it should, exactly when
each return is found in the table. -/
theorem resolved_iff {funcs : Nat → ElfFunction} {num_funcs : Nat} (table : Table funcs num_funcs) (wide : Bool)
    (misscount : BitVec 32) (packet : Packet) :
    Resolved wide funcs num_funcs misscount packet ↔
      (IsReturn wide packet → Found funcs num_funcs (packet.pc wide) (packet.npc wide)) := by
  by_cases back : IsReturn wide packet
  · have done : effect ⟨wide, num_funcs, some funcs⟩ packet =
        returned funcs num_funcs packet.timestamp (packet.pc wide) (packet.npc wide) := by
      simp [effect, back.modechange, back.call, back.ret]
    have handled : (ctm_log_handler ⟨wide, num_funcs, some funcs⟩ misscount packet).2 =
        ⟨(report ⟨wide, num_funcs, some funcs⟩ misscount
            (returned funcs num_funcs packet.timestamp (packet.pc wide) (packet.npc wide)).lines).2,
          (returned funcs num_funcs packet.timestamp (packet.pc wide) (packet.npc wide)).reads⟩ := by
      rw [ctm_log_handler, if_neg (by rw [back.overflow]; exact Bool.false_ne_true), done]
    constructor
    · rintro ⟨reads, leaves⟩ _
      rw [handled] at reads leaves
      refine (returned_right_iff packet.timestamp table).mp ⟨reads, fun other name => ?_⟩
      rw [← leaves back other name, leave_mem_report]
    · intro found
      obtain ⟨reads, leaves⟩ := (returned_right_iff packet.timestamp table).mpr (found back)
      refine ⟨by rw [handled]; exact reads, fun _ other name => ?_⟩
      rw [handled, leave_mem_report, leaves other name]
  · refine ⟨fun _ back' => absurd back' back, fun _ => ⟨?_, fun back' => absurd back' back⟩⟩
    cases quiet : packet.overflow with
    | true =>
      rw [ctm_log_handler, if_pos quiet]
      exact fun f read => absurd read List.not_mem_nil
    | false =>
      rw [ctm_log_handler, if_neg (by rw [quiet]; exact Bool.false_ne_true)]
      exact effect_inBounds quiet back

end LowRisc.Debug.CtmLog
