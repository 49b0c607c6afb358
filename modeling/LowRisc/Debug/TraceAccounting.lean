import LowRisc.Debug.Trace

/-! Every sampled event leaves the trace path in order or is counted as lost. -/

set_option autoImplicit false

namespace LowRisc.Debug

open LowRisc.Lib

/-! Framing. -/

theorem getElem?_frame (ws : List Word) (k : Nat) :
    (frame ws)[k]? = ws[k]?.map fun w => ⟨decide (k + 1 = ws.length), w⟩ := by
  induction ws using frame.induct generalizing k with
  | case1 => simp [frame]
  | case2 w => cases k <;> simp
  | case3 w v rest ih =>
    cases k with
    | zero => simp
    | succ k => simp [ih]

theorem take_succ_frame {ws : List Word} {k : Nat} (inside : k < ws.length) :
    (frame ws).take (k + 1) = (frame ws).take k ++ [⟨decide (k + 1 = ws.length), ws[k]⟩] := by
  rw [List.take_add_one, getElem?_frame, List.getElem?_eq_getElem inside]
  rfl

theorem packets_frame_append {ws : List Word} (some' : ws ≠ []) (rest : List Flit) :
    packets (frame ws ++ rest) = ws :: packets rest := by
  induction ws using frame.induct with
  | case1 => exact absurd rfl some'
  | case2 w => simp [packets]
  | case3 w v ws ih =>
    rw [frame_cons_cons, List.cons_append, packets, ih (List.cons_ne_nil _ _)]
    simp

theorem packets_unfinished {fs : List Flit} (unfinished : ∀ f ∈ fs, f.last = false) : packets fs = [] := by
  induction fs with
  | nil => rfl
  | cons f fs ih =>
    rw [packets, unfinished f (List.mem_cons_self ..), ih fun g member => unfinished g (List.mem_cons_of_mem _ member)]
    rfl

theorem last_of_mem_take_frame {ws : List Word} {k : Nat} (short : k < ws.length) {f : Flit}
    (member : f ∈ (frame ws).take k) : f.last = false := by
  obtain ⟨i, inside, rfl⟩ := List.mem_iff_getElem.mp member
  have bound : i < k := by simp at inside; omega
  have entry := getElem?_frame ws i
  rw [List.getElem?_eq_getElem (by rw [length_frame]; omega), List.getElem?_eq_getElem (by omega)] at entry
  simp only [Option.map_some, Option.some.injEq] at entry
  rw [List.getElem_take, entry]
  simp
  omega

theorem packets_flatMap_frame (sent : List (List Word)) (nonempty : ∀ ws ∈ sent, ws ≠ []) (rest : List Flit) :
    packets (sent.flatMap frame ++ rest) = sent ++ packets rest := by
  induction sent with
  | nil => rfl
  | cons ws sent ih =>
    rw [List.flatMap_cons, List.append_assoc, packets_frame_append (nonempty ws (List.mem_cons_self ..)),
      ih fun v member => nonempty v (List.mem_cons_of_mem _ member)]
    rfl

/-! The words of a record and what the host reads from them. -/

namespace TraceRecord

variable {width : Nat}

def eventWords (data : BitVec width) : List Word :=
  (List.range (TracePacket.NUM_FLITS width)).map fun k => data.extractLsb' (k * 16) 16

def words (id : BitVec 10) (r : TraceRecord width) : List Word :=
  0 :: TracePacket.sourceWord id r.overflow ::
    if r.overflow then [TracePacket.statusWord r.data] else eventWords r.data

def item (r : TraceRecord width) : TraceItem width :=
  if r.overflow then .lost (r.data.setWidth 10).toNat else .event r.data

theorem words_ne_nil (id : BitVec 10) (r : TraceRecord width) : r.words id ≠ [] := List.cons_ne_nil _ _

theorem eventWord_eq (data : BitVec width) {k : Nat} (inside : k < TracePacket.NUM_FLITS width) :
    TracePacket.eventWord data k = data.extractLsb' (k * 16) 16 := by
  unfold TracePacket.eventWord
  split
  · rfl
  · rename_i last
    have final : k + 1 = TracePacket.NUM_FLITS width := by omega
    split
    · rename_i padded
      unfold TracePacket.FILL_LAST at padded ⊢
      have num : TracePacket.NUM_FLITS width = (width + 15) / 16 := rfl
      apply BitVec.eq_of_getLsbD_eq
      intro i small
      have start : width - (16 - (TracePacket.NUM_FLITS width * 16 - width)) = k * 16 := by omega
      rw [start, BitVec.getLsbD_setWidth, BitVec.getLsbD_extractLsb', BitVec.getLsbD_extractLsb']
      by_cases room : i < 16 - (TracePacket.NUM_FLITS width * 16 - width)
      · simp [room, small]
      · have beyond : width ≤ k * 16 + i := by omega
        simp [room, BitVec.getLsbD_of_ge _ _ beyond]
    · rfl

theorem getLsbD_sourceWord (id : BitVec 10) (overflow : Bool) :
    (TracePacket.sourceWord id overflow).getLsbD 11 = overflow := by
  unfold TracePacket.sourceWord
  change BitVec.getLsbD (w := 2 + 2 + 1 + 1 + 10) _ 11 = _
  rw [BitVec.getLsbD_append, BitVec.getLsbD_append, BitVec.getLsbD_append]
  simp

theorem statusWord_count (data : BitVec width) :
    (TracePacket.statusWord data &&& 0x3ff).toNat = (data.setWidth 10).toNat := by
  have maskBit : ∀ i < 16, (0x3ff : Word).getLsbD i = decide (i < 10) := by decide
  have masked : TracePacket.statusWord data &&& 0x3ff = (data.setWidth 10).setWidth 16 := by
    apply BitVec.eq_of_getLsbD_eq
    intro i small
    unfold TracePacket.statusWord
    rw [BitVec.getLsbD_and, BitVec.getLsbD_setWidth]
    change (BitVec.getLsbD (w := 1 + 5 + 10) _ i && _) = _
    rw [BitVec.getLsbD_append]
    rw [maskBit i small]
    by_cases low : i < 10
    · simp [low, small]
    · simp [low]
  rw [masked, BitVec.toNat_setWidth]
  exact Nat.mod_eq_of_lt (Nat.lt_trans (data.setWidth 10).isLt (by decide))

theorem getLsbD_ofWords (payload : List Word) (i : Nat) (inside : i < width) :
    (TraceHost.ofWords width payload).getLsbD i = (payload[i / 16]?.any fun w => w.getLsbD (i % 16)) := by
  induction payload generalizing i with
  | nil => simp [TraceHost.ofWords]
  | cons w rest ih =>
    have step : TraceHost.ofWords width (w :: rest) = (TraceHost.ofWords width rest <<< 16) ||| w.setWidth width :=
      rfl
    rw [step, BitVec.getLsbD_or, BitVec.getLsbD_shiftLeft, BitVec.getLsbD_setWidth]
    by_cases low : i < 16
    · simp [low, inside, Nat.div_eq_of_lt low, Nat.mod_eq_of_lt low]
    · have high : w.getLsbD i = false := BitVec.getLsbD_of_ge _ _ (by omega)
      have index : i / 16 = (i - 16) / 16 + 1 := by omega
      have offset : i % 16 = (i - 16) % 16 := by omega
      rw [high, ih (i - 16) (by omega), index, offset]
      simp [low, inside]

theorem ofWords_eventWords (data : BitVec width) : TraceHost.ofWords width (eventWords data) = data := by
  apply BitVec.eq_of_getLsbD_eq
  intro i inside
  have num : TracePacket.NUM_FLITS width = (width + 15) / 16 := rfl
  have word : i / 16 < TracePacket.NUM_FLITS width := by omega
  rw [getLsbD_ofWords _ _ inside, eventWords, List.getElem?_map, List.getElem?_range word]
  have split : i / 16 * 16 + i % 16 = i := by omega
  simp [split, Nat.mod_lt]

/-- The host reads back what the record stands for. -/
theorem decode_words (id : BitVec 10) (r : TraceRecord width) :
    TraceHost.decode width (r.words id) = some r.item := by
  simp only [words, item, TraceHost.decode, getLsbD_sourceWord]
  cases r.overflow with
  | true => simp only [if_true, List.head?_cons, Option.map_some, statusWord_count]
  | false => simp [ofWords_eventWords]

end TraceRecord

/-! Accounting for the sampled events. -/

/-- The items stand for the events in order; a saturated count stands for at least as many
lost events. -/
inductive Accounts {width : Nat} : List (TraceItem width) → List (BitVec width) → Prop where
  | nil : Accounts [] []
  | event {items : List (TraceItem width)} {events : List (BitVec width)} (data : BitVec width) :
      Accounts items events → Accounts (items ++ [.event data]) (events ++ [data])
  | lost {items : List (TraceItem width)} {events : List (BitVec width)} (gone : List (BitVec width))
      (count : Nat) : Accounts items events → (count < 1023 → gone.length = count) →
      (count = 1023 → 1023 ≤ gone.length) → Accounts (items ++ [.lost count]) (events ++ gone)

theorem Accounts.prefix {width : Nat} {items more : List (TraceItem width)} {events : List (BitVec width)}
    (all : Accounts (items ++ more) events) : ∃ first, first <+: events ∧ Accounts items first := by
  induction more using List.reverseRecOn generalizing events with
  | nil => exact ⟨events, List.prefix_rfl, by simpa using all⟩
  | append_singleton more last ih =>
    rw [← List.append_assoc] at all
    generalize whole : items ++ more ++ [last] = log at all
    cases all with
    | nil => simp at whole
    | event data before =>
      obtain ⟨same, _⟩ := List.append_inj' whole rfl
      obtain ⟨first, inside, accounts⟩ := ih (same ▸ before)
      exact ⟨first, inside.trans (List.prefix_append _ _), accounts⟩
    | lost gone count before =>
      obtain ⟨same, _⟩ := List.append_inj' whole rfl
      obtain ⟨first, inside, accounts⟩ := ih (same ▸ before)
      exact ⟨first, inside.trans (List.prefix_append _ _), accounts⟩

def TraceItem.size {width : Nat} : TraceItem width → Nat
  | .event _ => 1
  | .lost count => count

theorem Accounts.length_eq {width : Nat} {items : List (TraceItem width)} {events : List (BitVec width)}
    (accounts : Accounts items events) (exact' : ∀ n, TraceItem.lost n ∈ items → n < 1023) :
    events.length = (items.map TraceItem.size).sum := by
  induction accounts with
  | nil => rfl
  | event data _ ih =>
    have before := ih fun n member => exact' n (List.mem_append_left _ member)
    simp [before, TraceItem.size]
  | lost gone count _ length _ ih =>
    have before := ih fun n member => exact' n (List.mem_append_left _ member)
    have same := length (exact' count (by simp))
    simp [before, same, TraceItem.size]

/-- The overflow counter against the events lost since its last record. -/
def Counts {width : Nat} (ov_counter : BitVec 10) (gone : List (BitVec width)) : Prop :=
  (ov_counter.toNat < 1023 → gone.length = ov_counter.toNat) ∧ (ov_counter.toNat = 1023 → 1023 ≤ gone.length)

namespace TraceSample

variable {width : Nat}

def record (ov_counter : BitVec 10) (sample_data : BitVec width) : TraceRecord width :=
  ⟨fifo_overflow ov_counter, fifo_data ov_counter sample_data⟩

theorem item_record_overflow {ov_counter : BitVec 10} (wide : 10 ≤ width) (losing : ov_counter ≠ 0#10)
    (sample_data : BitVec width) : (record ov_counter sample_data).item = .lost ov_counter.toNat := by
  have low : (((sample_data >>> 10) <<< 10) ||| ov_counter.setWidth width).setWidth 10 = ov_counter := by
    apply BitVec.eq_of_getLsbD_eq
    intro i inside
    simp [inside, show i < width by omega]
  have counting : passthrough ov_counter = false := by simp [passthrough, losing]
  have same : record ov_counter sample_data
      = ⟨true, ((sample_data >>> 10) <<< 10) ||| ov_counter.setWidth width⟩ := by
    simp [record, fifo_overflow, fifo_data, counting]
  rw [same, TraceRecord.item, if_pos rfl, low]

theorem item_record_event (sample_data : BitVec width) : (record 0#10 sample_data).item = .event sample_data := rfl

/-- One cycle of the sampling stage: the record that is pushed settles the events lost
before it, and a lost event is counted. -/
theorem accounts_step {items : List (TraceItem width)} {events gone : List (BitVec width)}
    {ov_counter : BitVec 10} (wide : 10 ≤ width) (accounts : Accounts items events)
    (counts : Counts ov_counter gone) (sample_valid : Bool) (sample_data : BitVec width) (fifo_ready : Bool) :
    ∃ events' gone',
      Accounts (items ++ if fifo_valid ov_counter sample_valid && fifo_ready
        then [(record ov_counter sample_data).item] else []) events'
      ∧ Counts (next ov_counter sample_valid fifo_ready) gone'
      ∧ events' ++ gone' = (events ++ gone) ++ if sample_valid then [sample_data] else [] := by
  by_cases idle : ov_counter = 0#10
  · subst idle
    have none : gone = [] := List.length_eq_zero_iff.mp (counts.1 (by decide))
    subst none
    cases sample_valid with
    | false => exact ⟨events, [], by simpa [fifo_valid, passthrough] using accounts, by
        simpa [next, fifo_overflow, passthrough] using counts, by simp⟩
    | true =>
      cases fifo_ready with
      | true =>
        refine ⟨events ++ [sample_data], [], ?_, ?_, by simp⟩
        · simpa [fifo_valid, passthrough, item_record_event] using accounts.event sample_data
        · simpa [next, fifo_overflow, passthrough] using counts
      | false =>
        refine ⟨events, [sample_data], ?_, ?_, by simp⟩
        · simpa [fifo_valid] using accounts
        · have one : next 0#10 true false = 1#10 := by decide
          rw [one]
          exact ⟨fun _ => rfl, fun full => absurd full (by decide)⟩
  · have offers : fifo_valid ov_counter sample_valid = true := by simp [fifo_valid, passthrough, idle]
    have losing : fifo_overflow ov_counter = true := by simp [fifo_overflow, passthrough, idle]
    have bound : ov_counter.toNat < 1024 := ov_counter.isLt
    cases fifo_ready with
    | true =>
      -- the overflow record settles what was lost, and an event of this cycle is lost anew
      have settled := accounts.lost gone ov_counter.toNat counts.1 counts.2
      rw [offers, item_record_overflow wide idle]
      refine ⟨events ++ gone, if sample_valid then [sample_data] else [], by simpa using settled, ?_, rfl⟩
      cases sample_valid with
      | true => simp [next, losing, Counts]
      | false => simp [next, losing, Counts]
    | false =>
      rw [offers]
      refine ⟨events, gone ++ if sample_valid then [sample_data] else [], by simpa using accounts, ?_, by simp⟩
      cases sample_valid with
      | false => simpa [next] using counts
      | true =>
        by_cases full : ov_counter = 1023#10
        -- the counter stops at its greatest value
        · subst full
          have many := counts.2 (by decide)
          have stuck : next 1023#10 true false = 1023#10 := by decide
          rw [stuck]
          exact ⟨fun below => absurd below (by decide), fun _ => by simp; omega⟩
        · have below : ov_counter.toNat < 1023 := by
            have other : ov_counter.toNat ≠ 1023 := fun same => full (BitVec.eq_of_toNat_eq same)
            omega
          have exact' := counts.1 below
          have bumped : next ov_counter true false = ov_counter + 1#10 := by simp [next, full]
          have value : (ov_counter + 1#10).toNat = ov_counter.toNat + 1 := by
            rw [BitVec.toNat_add]
            exact Nat.mod_eq_of_lt (by simp; omega)
          have longer : (gone ++ [sample_data]).length = ov_counter.toNat + 1 := by simp [exact']
          rw [bumped]
          refine ⟨fun _ => longer.trans value.symm, fun top => ?_⟩
          rw [if_pos rfl, longer]
          omega

end TraceSample

/-! The packet that is being sent. -/

namespace TracePacket

variable {width : Nat}

def progress (s : State) : Nat :=
  match s.phase with
  | .idle => 0
  | .source => 1
  | .status => 2
  | .event => 2 + s.counter

/-- The phase fits the record at the head of the buffer. -/
def Fits (s : State) (queue : List (TraceRecord width)) : Prop :=
  match s.phase, queue with
  | .idle, _ => True
  | _, [] => False
  | .source, _ :: _ => True
  | .status, r :: _ => r.overflow = true
  | .event, r :: _ => r.overflow = false ∧ s.counter < NUM_FLITS width

def current (id : BitVec 10) (s : State) : List (TraceRecord width) → List Flit
  | [] => []
  | r :: _ => (frame (r.words id)).take (progress s)

theorem length_words_overflow (id : BitVec 10) {r : TraceRecord width} (overflow : r.overflow = true) :
    (r.words id).length = 3 := by
  simp [TraceRecord.words, overflow]

theorem length_words_event (id : BitVec 10) {r : TraceRecord width} (event : r.overflow = false) :
    (r.words id).length = 2 + NUM_FLITS width := by
  simp [TraceRecord.words, event, TraceRecord.eventWords]
  omega

/-- The flit on offer is the next one of the head record, and it is the last one exactly
when the record is released with it. -/
theorem debug_out_next (id : BitVec 10) {s : State} {r : TraceRecord width} {rest : List (TraceRecord width)}
    (fits : Fits s (r :: rest)) (positive : 0 < width) :
    ∃ inside : progress s < (r.words id).length,
      debug_out id s true r = ⟨true, decide (progress s + 1 = (r.words id).length), (r.words id)[progress s]⟩
      ∧ ∀ taken, trace_ready width s taken = (decide (progress s + 1 = (r.words id).length) && taken) := by
  have num : NUM_FLITS width = (width + 15) / 16 := rfl
  cases phase : s.phase with
  -- a packet has more than its header
  | idle =>
    have short : 1 < (r.words id).length := by
      cases overflow : r.overflow with
      | true => rw [length_words_overflow id overflow]; omega
      | false => rw [length_words_event id overflow]; omega
    refine ⟨by simp only [progress, phase]; omega, ?_, ?_⟩
    · simp [debug_out, progress, phase, TraceRecord.words]
    · intro taken
      simp [trace_ready, progress, phase, show ¬1 = (r.words id).length by omega]
  | source =>
    have short : 2 < (r.words id).length := by
      cases overflow : r.overflow with
      | true => rw [length_words_overflow id overflow]; omega
      | false => rw [length_words_event id overflow]; omega
    refine ⟨by simp only [progress, phase]; omega, ?_, ?_⟩
    · simp [debug_out, progress, phase, show ¬2 = (r.words id).length by omega]
      simp [TraceRecord.words]
    · intro taken
      simp [trace_ready, progress, phase, show ¬2 = (r.words id).length by omega]
  | status =>
    simp only [Fits, phase] at fits
    -- the count of lost events is the third and last flit
    have length := length_words_overflow id fits
    refine ⟨by simp only [progress, phase]; omega, ?_, ?_⟩
    · simp [debug_out, progress, phase, length]
      simp [TraceRecord.words, fits]
    · intro taken
      simp [trace_ready, progress, phase, length]
  | event =>
    simp only [Fits, phase] at fits
    obtain ⟨event, inside⟩ := fits
    have length := length_words_event id event
    refine ⟨by simp only [progress, phase]; omega, ?_, ?_⟩
    -- the counter tells the last flit of an event
    · have last : (!decide (s.counter < NUM_FLITS width - 1))
          = decide (2 + s.counter + 1 = 2 + NUM_FLITS width) := by
        by_cases more : s.counter < NUM_FLITS width - 1
        · simp [more, show 2 + s.counter + 1 ≠ 2 + NUM_FLITS width by omega]
        · simp [more, show 2 + s.counter + 1 = 2 + NUM_FLITS width by omega]
      simp only [debug_out, progress, phase, length, last, TraceRecord.eventWord_eq _ inside]
      simp [TraceRecord.words, event, TraceRecord.eventWords, Nat.add_comm 2]
    · intro taken
      by_cases more : s.counter < NUM_FLITS width - 1
      · simp [trace_ready, progress, phase, length, more,
          show 2 + s.counter + 1 ≠ 2 + NUM_FLITS width by omega]
      · simp [trace_ready, progress, phase, length, more,
          show 2 + s.counter + 1 = 2 + NUM_FLITS width by omega]

theorem progress_next {s : State} {r : TraceRecord width} {rest : List (TraceRecord width)}
    (fits : Fits s (r :: rest)) (positive : 0 < width) (taken : Bool) :
    progress (next s true r taken)
        = (if trace_ready width s taken then 0 else if taken then progress s + 1 else progress s)
    ∧ (trace_ready width s taken = true → (next s true r taken).phase = .idle)
    ∧ (trace_ready width s taken = false → Fits (next s true r taken) (r :: rest)) := by
  have num : NUM_FLITS width = (width + 15) / 16 := rfl
  cases phase : s.phase with
  | idle => cases taken <;> simp [next, phase, trace_ready, progress, Fits]
  | source =>
    cases taken with
    | false => simp [next, phase, trace_ready, progress, Fits]
    | true =>
      cases overflow : r.overflow <;> simp [next, phase, trace_ready, progress, Fits, overflow]
      omega
  | status =>
    simp only [Fits, phase] at fits
    cases taken <;> simp [next, phase, trace_ready, progress, Fits, fits]
  | event =>
    simp only [Fits, phase] at fits
    obtain ⟨event, inside⟩ := fits
    by_cases more : s.counter < NUM_FLITS width - 1
    · cases taken <;> simp [next, phase, trace_ready, progress, Fits, more, event]
      · omega
      · omega
    · cases taken <;> simp [next, phase, trace_ready, progress, Fits, more, event]
      omega

end TracePacket

namespace Trace

variable {width depth : Nat} {id : BitVec 10} {s : TraceSystem width depth} {e : TraceInput width}

/-- The flits of the trace path that have left on the debug port. -/
def traceFlits (s : TraceSystem width depth) : List Flit :=
  (s.log.filter fun sent => sent.1 == .loc).map Prod.snd

theorem traceFlits_cycle (id : BitVec 10) (s : TraceSystem width depth) (e : TraceInput width) :
    traceFlits (cycle id s e) = traceFlits s ++
      if (packetOut id s).valid && packetTaken id s e then [(packetOut id s).flit] else [] := by
  have moved := RingRouterMux.sent_transfer s.mux e.response (packetOut id s) e.debug_out_ready .loc
  simp only [traceFlits, cycle, List.filter_append, List.map_append]
  rw [moved]
  rfl

/-- The records `out` have left, `queue` is in the buffer; `events` are settled by them and
`gone` is what the counter still has to report. -/
structure Tracks (id : BitVec 10) (s : TraceSystem width depth) (out queue : List (TraceRecord width))
    (events gone : List (BitVec width)) : Prop where
  fifo : s.fifo.Contains queue
  accounts : Accounts ((out ++ queue).map TraceRecord.item) events
  counts : Counts s.ov_counter gone
  sampled : s.sampled = events ++ gone
  sent : traceFlits s = (out.map (TraceRecord.words id)).flatMap frame ++ TracePacket.current id s.packet queue
  fits : TracePacket.Fits s.packet queue

def push (s : TraceSystem width depth) (e : TraceInput width) : Bool :=
  TraceSample.fifo_valid s.ov_counter e.sample_valid && s.fifo.in_ready

def pop (id : BitVec 10) (s : TraceSystem width depth) (e : TraceInput width) : Bool :=
  s.fifo.out_valid && TracePacket.trace_ready width s.packet (packetTaken id s e)

def stored (s : TraceSystem width depth) (e : TraceInput width) : List (TraceRecord width) :=
  if push s e then [TraceSample.record s.ov_counter e.sample_data] else []

theorem cycle_fifo (id : BitVec 10) (e : TraceInput width) {queue : List (TraceRecord width)}
    (holds : s.fifo.Contains queue) :
    (cycle id s e).fifo.Contains ((if pop id s e then queue.tail else queue) ++ stored s e) :=
  holds.next _ _ _

def total (id : BitVec 10) (queue : List (TraceRecord width)) : Nat :=
  (queue.map fun r => (r.words id).length).sum

def sends (id : BitVec 10) (s : TraceSystem width depth) (e : TraceInput width) : Bool :=
  (packetOut id s).valid && packetTaken id s e

def Balanced (id : BitVec 10) (s : TraceSystem width depth) (e : TraceInput width)
    (queue queue' : List (TraceRecord width)) : Prop :=
  total id queue' + TracePacket.progress s.packet + (sends id s e).toNat
    = total id queue + total id (stored s e) + TracePacket.progress (cycle id s e).packet

variable {out queue : List (TraceRecord width)} {events gone : List (BitVec width)}

theorem packet_step {r : TraceRecord width} {rest : List (TraceRecord width)} (positive : 0 < width)
    (inv : Tracks id s out (r :: rest) events gone) :
    ∃ out' queue', out' ++ queue' = out ++ r :: rest ∧ (cycle id s e).fifo.Contains (queue' ++ stored s e)
      ∧ traceFlits (cycle id s e) = (out'.map (TraceRecord.words id)).flatMap frame
          ++ TracePacket.current id (cycle id s e).packet (queue' ++ stored s e)
      ∧ TracePacket.Fits (cycle id s e).packet (queue' ++ stored s e)
      ∧ Balanced id s e (r :: rest) (queue' ++ stored s e) := by
  have valid : s.fifo.out_valid = true := by rw [inv.fifo.out_valid_eq]; rfl
  have head := inv.fifo.out_data_eq
  obtain ⟨inside, offered, releases⟩ := TracePacket.debug_out_next id inv.fits positive
  obtain ⟨moved, idle, fits⟩ := TracePacket.progress_next inv.fits positive (packetTaken id s e)
  have packet' : (cycle id s e).packet = TracePacket.next s.packet true r (packetTaken id s e) := by
    simp only [cycle, valid, head]
  have onPort : packetOut id s = ⟨true, decide (TracePacket.progress s.packet + 1 = (r.words id).length),
      (r.words id)[TracePacket.progress s.packet]⟩ := by
    simp only [packetOut, valid, head, offered]
  have popped : pop id s e = TracePacket.trace_ready width s.packet (packetTaken id s e) := by
    simp [pop, valid]
  have contains := cycle_fifo id e inv.fifo
  have flits := traceFlits_cycle id s e
  rw [inv.sent, onPort] at flits
  unfold Balanced
  rw [packet']
  simp only [sends, onPort, Bool.true_and]
  cases taken : packetTaken id s e with
  | false =>
    -- a flit that is not taken stays, and so does its record
    have still : TracePacket.trace_ready width s.packet false = false := by simp [releases]
    rw [taken, still] at moved fits popped
    refine ⟨out, r :: rest, rfl, by simpa [popped] using contains, ?_, ?_, ?_⟩
    · simp only [flits, taken, Bool.and_false, Bool.false_eq_true, if_false, List.append_nil]
      simp [TracePacket.current, moved]
    · have fits' := fits rfl
      unfold TracePacket.Fits at fits' ⊢
      cases phase : (TracePacket.next s.packet true r false).phase <;> simp_all
    · simp [total, moved]
      omega
  | true =>
    rw [taken] at moved fits popped idle
    simp only [taken, Bool.and_true, if_true] at flits
    cases final : decide (TracePacket.progress s.packet + 1 = (r.words id).length) with
    | true =>
      -- with its last flit the record leaves the buffer
      have released : TracePacket.trace_ready width s.packet true = true := by simp [releases, final]
      have phase := idle released
      rw [released] at popped
      refine ⟨out ++ [r], rest, by simp, by simpa [popped] using contains, ?_, ?_, ?_⟩
      · have whole : (frame (r.words id)).take (TracePacket.progress s.packet + 1) = frame (r.words id) := by
          rw [of_decide_eq_true final]
          exact List.take_of_length_le (by rw [length_frame])
        have none : TracePacket.current id (TracePacket.next s.packet true r true) (rest ++ stored s e) = [] := by
          cases rest ++ stored s e <;> simp [TracePacket.current, TracePacket.progress, phase]
        rw [flits, none, DiiFlit.flit, TracePacket.current]
        simp only [List.append_assoc, List.map_append, List.map_cons, List.map_nil, List.flatMap_append,
          List.flatMap_cons, List.flatMap_nil, List.append_nil]
        rw [← take_succ_frame inside, whole]
      · simp [TracePacket.Fits, phase]
      · have length := of_decide_eq_true final
        have restart : TracePacket.progress (TracePacket.next s.packet true r true) = 0 := by
          simp [TracePacket.progress, phase]
        simp only [total, restart, List.map_append, List.map_cons, List.sum_append, List.sum_cons, Bool.toNat_true]
        omega
    | false =>
      have held : TracePacket.trace_ready width s.packet true = false := by simp [releases, final]
      rw [held] at popped moved
      refine ⟨out, r :: rest, rfl, by simpa [popped] using contains, ?_, ?_, ?_⟩
      · rw [flits, DiiFlit.flit]
        simp only [TracePacket.current, List.append_assoc, List.cons_append, moved, Bool.false_eq_true, if_false,
          if_true]
        rw [take_succ_frame inside]
      · have fits' := fits held
        unfold TracePacket.Fits at fits' ⊢
        cases phase : (TracePacket.next s.packet true r true).phase <;> simp_all
      · simp [total, moved]
        omega

theorem Tracks.cycle (inv : Tracks id s out queue events gone) (wide : 10 ≤ width) :
    ∃ out' queue' events' gone', Tracks id (cycle id s e) out' queue' events' gone'
      ∧ Balanced id s e queue queue' := by
  -- the sampling side and the packet side meet in the queue only
  obtain ⟨events', gone', accounts, counts, sampled⟩ :=
    TraceSample.accounts_step wide inv.accounts inv.counts e.sample_valid e.sample_data s.fifo.in_ready
  have packetSide : ∃ out' queue', out' ++ queue' = out ++ queue
      ∧ (Trace.cycle id s e).fifo.Contains (queue' ++ stored s e)
      ∧ traceFlits (Trace.cycle id s e) = (out'.map (TraceRecord.words id)).flatMap frame
          ++ TracePacket.current id (Trace.cycle id s e).packet (queue' ++ stored s e)
      ∧ TracePacket.Fits (Trace.cycle id s e).packet (queue' ++ stored s e)
      ∧ Balanced id s e queue (queue' ++ stored s e) := by
    cases queue with
    | cons r rest => exact packet_step (by omega) inv
    | nil =>
      -- with an empty queue no packet is under way
      have valid : s.fifo.out_valid = false := by rw [inv.fifo.out_valid_eq]; rfl
      have phase : s.packet.phase = .idle := by
        have fits := inv.fits
        cases phase : s.packet.phase <;> simp_all [TracePacket.Fits]
      have packet' : (Trace.cycle id s e).packet = s.packet := by
        simp only [Trace.cycle, TracePacket.next, phase, valid, Bool.false_and, Bool.false_eq_true, if_false]
        rw [← phase]
      have contains := cycle_fifo id e inv.fifo
      have silent : (packetOut id s).valid = false := by simp [packetOut, TracePacket.debug_out, phase, valid]
      refine ⟨out, [], rfl, by simpa [pop, valid] using contains, ?_, ?_, ?_⟩
      · have none : TracePacket.current id s.packet (stored s e) = [] := by
          cases stored s e <;> simp [TracePacket.current, TracePacket.progress, phase]
        rw [traceFlits_cycle, silent, inv.sent, packet', List.nil_append, none]
        simp [TracePacket.current]
      · simp [packet', TracePacket.Fits, phase]
      · simp [Balanced, sends, silent, packet', total]
  obtain ⟨out', queue', same, contains, sent, fits, balanced⟩ := packetSide
  refine ⟨out', queue' ++ stored s e, events', gone', ⟨contains, ?_, counts, ?_, sent, fits⟩, balanced⟩
  · rw [← List.append_assoc, same, List.map_append]
    convert accounts using 2
    unfold stored push
    split <;> rfl
  · rw [sampled, ← inv.sampled]
    simp only [Trace.cycle]
    split <;> simp

end Trace

end LowRisc.Debug
