import LowRisc.Debug.TraceAccounting

/-! Whole runs of the trace path: the host receives the sampled events in order. -/

set_option autoImplicit false

namespace LowRisc.Debug.Trace

open LowRisc.Lib

variable {width depth : Nat} {id : BitVec 10} {s : TraceSystem width depth}
variable {out queue : List (TraceRecord width)} {events gone : List (BitVec width)}

/-! Without new events and stalls the path runs empty. -/

/-- No event is sampled, nothing is held back and a register response under way ends. -/
def quiet (s : TraceSystem width depth) : TraceInput width where
  sample_valid := false
  sample_data := 0
  response := if s.mux = .wormRing then ⟨true, true, 0⟩ else .idle
  debug_out_ready := true

def noSample (_ : TraceSystem width depth) (e : TraceInput width) : Prop := e.sample_valid = false

def rank (id : BitVec 10) (s : TraceSystem width depth) (queue : List (TraceRecord width)) : Nat :=
  (total id queue - TracePacket.progress s.packet) + (if s.ov_counter = 0#10 then 0 else 4)
    + if s.mux = .wormRing then 1 else 0

theorem mux_quiet (id : BitVec 10) (s : TraceSystem width depth) : (cycle id s (quiet s)).mux ≠ .wormRing := by
  simp only [cycle, quiet]
  cases mux : s.mux with
  | noworm =>
    cases valid : (packetOut id s).valid <;>
      simp [RingRouterMux.nxt_state, RingRouterMux.selected, RingRouterMux.out_mux, valid, DiiFlit.idle,
        RingRouterMux.wormState]
    split <;> simp
  | wormRing => simp [RingRouterMux.nxt_state, RingRouterMux.out_mux, RingRouterMux.selected, RingRouterMux.port]
  | wormLocal =>
    simp only [RingRouterMux.nxt_state]
    generalize RingRouterMux.out_mux _ _ (packetOut id s) = out
    cases out.last && out.valid <;> simp

theorem progress_le_total (positive : 0 < width) (inv : Tracks id s out queue events gone) :
    TracePacket.progress s.packet ≤ total id queue := by
  cases queue with
  | nil =>
    have fits := inv.fits
    cases phase : s.packet.phase <;> simp_all [TracePacket.Fits, TracePacket.progress]
  | cons r rest =>
    obtain ⟨inside, _⟩ := TracePacket.debug_out_next id inv.fits positive
    simp only [total, List.map_cons, List.sum_cons]
    omega

theorem sends_quiet {r : TraceRecord width} {rest : List (TraceRecord width)} (positive : 0 < width)
    (inv : Tracks id s out (r :: rest) events gone) (free : s.mux ≠ .wormRing) :
    sends id s (quiet s) = true := by
  have valid : s.fifo.out_valid = true := by rw [inv.fifo.out_valid_eq]; rfl
  obtain ⟨_, offered, _⟩ := TracePacket.debug_out_next id inv.fits positive
  have up : (packetOut id s).valid = true := by
    simp only [packetOut, valid, inv.fifo.out_data_eq, offered]
  have taken : packetTaken id s (quiet s) = true := by
    cases mux : s.mux <;>
      simp_all [packetTaken, RingRouterMux.in_ready, RingRouterMux.selected, quiet, DiiFlit.idle]
  simp [sends, up, taken]

/-- A quiet cycle pushes the overflow record as soon as there is room for it. -/
theorem stored_quiet (id : BitVec 10) :
    (stored s (quiet s) = [] ∧ (cycle id s (quiet s)).ov_counter = s.ov_counter
      ∧ (s.fifo.in_ready = true → s.ov_counter = 0#10))
    ∨ (total id (stored s (quiet s)) = 3 ∧ s.ov_counter ≠ 0#10 ∧ (cycle id s (quiet s)).ov_counter = 0#10) := by
  by_cases idle : s.ov_counter = 0#10
  · refine .inl ⟨?_, ?_, fun _ => idle⟩
    · simp [stored, push, TraceSample.fifo_valid, TraceSample.passthrough, idle, quiet]
    · simp [cycle, idle, quiet, TraceSample.next, TraceSample.fifo_overflow, TraceSample.passthrough]
  · have losing : TraceSample.fifo_overflow s.ov_counter = true := by
      simp [TraceSample.fifo_overflow, TraceSample.passthrough, idle]
    cases ready : s.fifo.in_ready with
    | false =>
      refine .inl ⟨?_, ?_, fun open' => by simp at open'⟩
      · simp [stored, push, ready]
      · simp [cycle, quiet, ready, TraceSample.next]
    | true =>
      refine .inr ⟨?_, idle, ?_⟩
      · have overflow : (TraceSample.record s.ov_counter (quiet s).sample_data).overflow = true := losing
        simp [stored, push, ready, TraceSample.fifo_valid, TraceSample.passthrough, idle, total,
          TracePacket.length_words_overflow id overflow]
      · simp [cycle, quiet, ready, TraceSample.next, losing]

theorem Tracks.drain (inv : Tracks id s out queue events gone) (wide : 10 ≤ width) (room : 0 < depth) :
    ∃ u out', Steps (clock id) noSample s u ∧ u.sampled = s.sampled ∧ Tracks id u out' [] u.sampled []
      ∧ u.ov_counter = 0#10 ∧ u.packet.phase = .idle := by
  induction bound : rank id s queue using Nat.strong_induction_on
    generalizing s out queue events gone with
  | _ n ih =>
    have le := progress_le_total (by omega) inv
    by_cases ended : queue = [] ∧ s.ov_counter = 0#10
    · obtain ⟨rfl, zero⟩ := ended
      -- the counter says that no event was lost
      have none : gone = [] := List.length_eq_zero_iff.mp (inv.counts.1 (by rw [zero]; decide) |>.trans (by rw [zero]; rfl))
      subst none
      have phase : s.packet.phase = .idle := by
        have fits := inv.fits
        cases phase : s.packet.phase <;> simp_all [TracePacket.Fits]
      refine ⟨s, out, .refl s, rfl, ?_, zero, phase⟩
      have same : s.sampled = events := by simpa using inv.sampled
      rw [same]
      exact inv
    · obtain ⟨out₁, queue₁, events₁, gone₁, inv₁, balanced⟩ := inv.cycle (e := quiet s) wide
      have le₁ := progress_le_total (by omega) inv₁
      have less : rank id (Trace.cycle id s (quiet s)) queue₁ < rank id s queue := by
        unfold Balanced at balanced
        simp only [rank, if_neg (mux_quiet id s)]
        rcases stored_quiet (s := s) id with ⟨none, same, full⟩ | ⟨three, losing, zero⟩
        · have empty : total id (stored s (quiet s)) = 0 := by simp [none, total]
          rw [same]
          -- a response under way ends in this cycle, and the packet waits for it
          by_cases mux : s.mux = .wormRing
          · simp only [if_pos mux]
            split <;> omega
          · simp only [if_neg mux]
            cases queue with
            | nil =>
              have ready : s.fifo.in_ready = true := by
                rw [inv.fifo.in_ready_eq]
                simpa using room
              exact absurd ⟨rfl, full ready⟩ ended
            -- a flit of the head record goes out
            | cons r rest =>
              rw [sends_quiet (by omega) inv mux, Bool.toNat_true] at balanced
              split <;> omega
        · rw [if_pos zero, if_neg losing]
          split <;> omega
      obtain ⟨u, out', run, sampled, final, zero, phase⟩ := ih _ (bound ▸ less) inv₁ rfl
      refine ⟨u, out', .head (show noSample s (quiet s) from rfl) rfl run, sampled.trans ?_, final, zero, phase⟩
      simp [Trace.cycle, quiet]

/-! Whole runs. -/

def received (s : TraceSystem width depth) : List (Option (TraceItem width)) :=
  (packets (traceFlits s)).map (TraceHost.decode width)

theorem Tracks.received_eq (inv : Tracks id s out queue events gone) (positive : 0 < width) :
    received s = out.map fun r => some r.item := by
  have unfinished : packets (TracePacket.current id s.packet queue) = [] := by
    cases queue with
    | nil => rfl
    | cons r rest =>
      obtain ⟨inside, _⟩ := TracePacket.debug_out_next id inv.fits positive
      exact packets_unfinished fun f member => last_of_mem_take_frame inside member
  have nonempty : ∀ ws ∈ out.map (TraceRecord.words id), ws ≠ [] := by
    intro ws member
    obtain ⟨r, _, rfl⟩ := List.mem_map.mp member
    exact r.words_ne_nil id
  rw [received, inv.sent, packets_flatMap_frame _ nonempty, unfinished, List.append_nil, List.map_map]
  exact List.map_congr_left fun r _ => r.decode_words id

/-- The packets received so far stand for the first of the sampled events. -/
def InOrder (s : TraceSystem width depth) : Prop :=
  ∃ items events, received s = items.map some ∧ events <+: s.sampled ∧ Accounts items events

theorem Tracks.inOrder (inv : Tracks id s out queue events gone) (positive : 0 < width) : InOrder s := by
  have accounts := inv.accounts
  rw [List.map_append] at accounts
  obtain ⟨first, inside, accounts⟩ := accounts.prefix
  refine ⟨out.map TraceRecord.item, first, ?_, ?_, accounts⟩
  · rw [inv.received_eq positive, List.map_map]
    rfl
  · rw [inv.sampled]
    exact inside.trans (List.prefix_append _ _)

def Drained (s : TraceSystem width depth) : Prop :=
  s.ov_counter = 0#10 ∧ s.fifo.out_valid = false ∧ s.packet.phase = .idle

def Complete (s : TraceSystem width depth) : Prop :=
  ∃ items, received s = items.map some ∧ Accounts items s.sampled

theorem Tracks.complete (inv : Tracks id s out queue events gone) (positive : 0 < width) (drained : Drained s) :
    Complete s := by
  obtain ⟨zero, empty, _⟩ := drained
  have noQueue : queue = [] := by
    rw [inv.fifo.out_valid_eq] at empty
    simpa using empty
  have noGone : gone = [] := by
    have length := inv.counts.1 (by rw [zero]; decide)
    rw [zero] at length
    exact List.length_eq_zero_iff.mp length
  subst noQueue noGone
  have accounts := inv.accounts
  have sampled := inv.sampled
  rw [List.append_nil] at accounts sampled
  refine ⟨out.map TraceRecord.item, ?_, sampled ▸ accounts⟩
  rw [inv.received_eq positive, List.map_map]
  rfl

theorem tracks_of_reset (reset : OnReset s) : Tracks id s [] [] [] [] := by
  obtain ⟨counter, ptr, packet, _, log, sampled⟩ := reset
  constructor
  · exact ⟨Nat.zero_le _, ptr, fun i inside => absurd inside (Nat.not_lt_zero i)⟩
  · exact .nil
  · rw [counter]
    exact ⟨fun _ => rfl, fun full => absurd full (by decide)⟩
  · simp [sampled]
  · simp [traceFlits, log, TracePacket.current]
  · simp [TracePacket.Fits, packet]

/-- In every run the packets of the trace path stand for the sampled events in order, no
flit of a register response gets between theirs, an empty path has accounted for every
event, and the path runs empty when no more events are sampled. -/
theorem trace_events_in_order_or_counted {s t : TraceSystem width depth} (wide : 10 ≤ width)
    (reset : OnReset s) (run : Steps (clock id) anyEvent s t) :
    InOrder t ∧ Uninterleaved t.log ∧ (Drained t → Complete t) ∧
    (0 < depth → ∃ u, Steps (clock id) noSample t u ∧ u.sampled = t.sampled ∧ Drained u ∧ Complete u) := by
  have tracked : ∃ out queue events gone, Tracks id t out queue events gone := by
    refine run.invariant (I := fun t => ∃ out queue events gone, Tracks id t out queue events gone)
      ⟨[], [], [], [], tracks_of_reset reset⟩ ?_
    rintro t u e ⟨out, queue, events, gone, inv⟩ _ fired
    cases Option.some.inj fired
    obtain ⟨out', queue', events', gone', inv', _⟩ := inv.cycle (e := e) wide
    exact ⟨out', queue', events', gone', inv'⟩
  have follows : MuxFollows t.mux t.log := by
    refine run.invariant (I := fun t => MuxFollows t.mux t.log) ?_ ?_
    · rw [reset.2.2.2.2.1]
      exact RingRouterMux.follows_nil _
    · intro t u e follows _ fired
      cases Option.some.inj fired
      exact RingRouterMux.follows_step follows _ _ _
  obtain ⟨out, queue, events, gone, inv⟩ := tracked
  refine ⟨inv.inOrder (by omega), follows.whole, inv.complete (by omega), fun room => ?_⟩
  obtain ⟨u, out', drains, same, final, zero, phase⟩ := inv.drain wide room
  have drained : Drained u := ⟨zero, by rw [final.fifo.out_valid_eq]; rfl, phase⟩
  exact ⟨u, drains, same, drained, final.complete (by omega) drained⟩

def afterReset (width depth : Nat) : TraceSystem width depth where
  ov_counter := 0
  fifo := ⟨fun _ => ⟨false, 0⟩, BitVec.twoPow (depth + 1) 0⟩
  packet := ⟨.idle, 0⟩
  mux := .noworm
  log := []
  sampled := []

def burst (width : Nat) (events : List (BitVec width)) (wait : Nat) : List (TraceInput width) :=
  events.map (fun d => ⟨true, d, .idle, true⟩) ++ List.replicate wait ⟨false, 0, .idle, true⟩

def runAll (id : BitVec 10) (inputs : List (TraceInput width)) (s : TraceSystem width depth) :
    TraceSystem width depth := inputs.foldl (cycle id) s

theorem steps_runAll (inputs : List (TraceInput width)) (s : TraceSystem width depth) :
    Steps (clock id) anyEvent s (runAll id inputs s) := by
  induction inputs generalizing s with
  | nil => exact .refl s
  | cons e rest ih => exact .head trivial rfl (ih _)

theorem afterReset_onReset : OnReset (afterReset width depth) := ⟨rfl, rfl, rfl, rfl, rfl, rfl⟩

theorem trace_events_in_order_or_counted_of_burst :
    InOrder (runAll 5 (burst 16 [1, 2, 3] 8) (afterReset 16 1)) :=
  (trace_events_in_order_or_counted (by decide) afterReset_onReset (steps_runAll _ _)).1

/-- With one data bit the count of two lost events is cut to zero. -/
theorem narrow_trace_not_complete :
    OnReset (afterReset 1 1) ∧
    Steps (clock 5) anyEvent (afterReset 1 1) (runAll 5 (burst 1 [0, 0, 0] 8) (afterReset 1 1)) ∧
    Drained (runAll 5 (burst 1 [0, 0, 0] 8) (afterReset 1 1)) ∧
    ¬Complete (runAll 5 (burst 1 [0, 0, 0] 8) (afterReset 1 1)) := by
  refine ⟨afterReset_onReset, steps_runAll _ _, ⟨by decide +kernel, by decide +kernel, by decide +kernel⟩, ?_⟩
  rintro ⟨items, seen, accounts⟩
  have packets : received (runAll 5 (burst 1 [0, 0, 0] 8) (afterReset 1 1))
      = [TraceItem.event 0, TraceItem.lost 0].map some := by decide +kernel
  have same : items = [.event 0, .lost 0] :=
    List.map_injective_iff.mpr (fun _ _ => Option.some.inj) (seen.symm.trans packets)
  subst same
  have length := accounts.length_eq (by simp)
  exact absurd length (by decide +kernel)

end LowRisc.Debug.Trace
