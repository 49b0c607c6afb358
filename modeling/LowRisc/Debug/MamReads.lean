import LowRisc.Lib.Wormhole
import LowRisc.Debug.MamWrites

/-! Read accesses of the host: the requests of `osd_memory_read`, the packets with which the
module answers and what the host makes of them. -/

set_option autoImplicit false

namespace LowRisc.Debug

open LowRisc.Lib

def responses (p : MamParams) (content : Nat → Byte) (a n : Nat) : List (List Word) :=
  (Memory.payloads (p.maxPktLen - 2) [] (wordsAt content a n)).map fun payload => 0 :: sourceWord p :: payload

theorem emission_eq (p : MamParams) (current : List Word) {rest : List Word} (some : rest ≠ [])
    (room : current.length < p.maxPktLen - 2) :
    (0 :: sourceWord p :: current).map (⟨false, ·⟩) ++ emission p current.length rest =
      packetStream ((Memory.payloads (p.maxPktLen - 2) current rest).map fun payload =>
        0 :: sourceWord p :: payload) := by
  induction rest generalizing current with
  | nil => exact absurd rfl some
  | cons w rest ih =>
    cases rest with
    | nil =>
      have single : Memory.payloads (p.maxPktLen - 2) current [w] = [current ++ [w]] := by
        simp only [Memory.payloads]
        split <;> simp
      rw [single]
      simp only [emission, packetStream, List.map_cons, List.map_nil, List.flatMap_cons, List.flatMap_nil,
        List.append_nil]
      rw [← List.cons_append, ← List.cons_append, frame_append _ (List.cons_ne_nil w [])]
      rfl
    | cons v rest =>
      -- a full packet ends, and the next one begins with its header
      by_cases full : current.length + 1 = p.maxPktLen - 2
      · have whole : Memory.payloads (p.maxPktLen - 2) current (w :: v :: rest) =
            (current ++ [w]) :: Memory.payloads (p.maxPktLen - 2) [] (v :: rest) :=
          if_pos (by simpa using full)
        have next := ih [] (by simp) (by simp only [List.length_nil]; omega)
        have flits : emission p current.length (w :: v :: rest) =
            ⟨true, w⟩ :: ⟨false, 0⟩ :: ⟨false, sourceWord p⟩ :: emission p 0 (v :: rest) := if_pos full
        have head : frame (0 :: sourceWord p :: (current ++ [w])) =
            (0 :: sourceWord p :: current).map (⟨false, ·⟩) ++ [⟨true, w⟩] :=
          frame_append (0 :: sourceWord p :: current) (List.cons_ne_nil w [])
        rw [whole, flits]
        show _ = frame (0 :: sourceWord p :: (current ++ [w])) ++ packetStream (List.map _ _)
        rw [← next, head, List.append_assoc]
        rfl
      · have more : Memory.payloads (p.maxPktLen - 2) current (w :: v :: rest) =
            Memory.payloads (p.maxPktLen - 2) (current ++ [w]) (v :: rest) := if_neg (by simpa using full)
        have next := ih (current ++ [w]) (by simp)
          (by simp only [List.length_append, List.length_singleton]; omega)
        have flits : emission p current.length (w :: v :: rest) =
            ⟨false, w⟩ :: emission p (current.length + 1) (v :: rest) := if_neg full
        rw [more, flits, ← next]
        simp

/-- What a module answers, by the place at which the memory serves requests and its content. -/
abbrev Answer := (Nat → Nat) → (Nat → Byte) → List (List Word)

structure Answers (p : MamParams) (requests : List (List Word)) (answer : Answer) : Prop where
  plain : ∀ packet ∈ requests, IsPlain packet
  whole : ∀ place content, ∀ packet ∈ answer place content, packet ≠ []
  sends : ∀ c : MamCore, c.mam.phase = .inactive → ∃ d, MamCore.Leads p c (packetStream requests) d
    ∧ d.mam.phase = .inactive ∧ d.memory.place = c.memory.place ∧ d.memory.content = c.memory.content
    ∧ d.sent = c.sent ++ packetStream (answer c.memory.place c.memory.content)

theorem Answers.nil (p : MamParams) : Answers p [] fun _ _ => [] :=
  ⟨by simp, by simp, fun c phase => ⟨c, .rest c, phase, rfl, rfl, by simp [packetStream]⟩⟩

theorem Answers.append {p : MamParams} {first second : List (List Word)} {answer more : Answer}
    (before : Answers p first answer) (after : Answers p second more) :
    Answers p (first ++ second) fun place content => answer place content ++ more place content := by
  refine ⟨?_, ?_, fun c phase => ?_⟩
  · intro packet member
    exact (List.mem_append.mp member).elim (before.plain packet) (after.plain packet)
  · intro place content packet member
    exact (List.mem_append.mp member).elim (before.whole place content packet) (after.whole place content packet)
  · obtain ⟨d, run, phase', place', content', sent⟩ := before.sends c phase
    obtain ⟨e, run', phase'', place'', content'', sent'⟩ := after.sends d phase'
    refine ⟨e, ?_, phase'', place''.trans place', content''.trans content', ?_⟩
    · rw [packetStream_append]
      exact run.trans run'
    · rw [sent', sent, packetStream_append, List.append_assoc, place', content']

namespace Memory

variable {p : MamParams} {modaddr : Word} {addr size n : Nat}

theorem readRequest_answers (served : p.Served) (modaddr : Word) (addr : Nat) (some : 0 < n) (fits : n < 2 ^ 14)
    (beats : size / p.dataBytes = n) :
    ∃ request, readRequest (p.descriptor modaddr) addr size = .some request
      ∧ Answers p [request] fun place content =>
        responses p content (place (addr % 2 ^ (16 * p.addrWords))) (n * p.dataWords) := by
  have few := served.few
  have long := served.long
  -- a burst read of as many beats
  let control := 0x4000#16 ||| BitVec.ofNat 16 n
  refine ⟨modaddr :: 0x4000#16 :: control :: (List.range p.addrWords).map (addrSlices addr), ?_, ?_, ?_, ?_⟩
  · have head : packet (p.descriptor modaddr) (control :: (List.range p.addrWords).map (addrSlices addr)) =
        .some (modaddr :: 0x4000#16 :: control :: (List.range p.addrWords).map (addrSlices addr)) :=
      packet_descriptor (by simp only [List.length_cons, List.length_map, List.length_range]; omega)
    simp only [readRequest, blocksize_descriptor, beats, header_descriptor few, Option.bind_eq_bind, Option.bind_some]
    exact head
  · intro packet member
    rw [List.mem_singleton] at member
    subst member
    exact isPlain_packet _ _
  · intro place content packet member
    obtain ⟨payload, -, rfl⟩ := List.mem_map.mp member
    exact List.cons_ne_nil _ _
  · intro c phase
    obtain ⟨d, accepted, run⟩ := MamCore.leads_request (p := p) served.wide phase modaddr 0x4000#16 control addr
    have read : control.getLsbD 15 = false := by
      rw [getLsbD_control _ fits (by omega)]
      decide
    have burst : control.getLsbD 14 = true := by
      rw [getLsbD_control _ fits (by omega)]
      decide
    have count : control.extractLsb' 0 14 = BitVec.ofNat 14 n := beats_control (by decide) n
    have phase' : d.mam.phase = .readPacket := by rw [accepted.phase, read]; rfl
    have words : 0 < p.dataWords := by rcases served.data with one | two | four <;> omega
    have inv : MamCore.Streaming p n d.memory.cursor d.memory d.sent d :=
      ⟨by rw [accepted.beats, burst, if_pos rfl, count], some, fits, by rw [accepted.wcounter]; exact words,
        by rw [accepted.wcounter]; omega, rfl, rfl⟩
    -- there is at least one word, so a response begins
    obtain ⟨r, total⟩ : ∃ r, n * p.dataWords = r + 1 :=
      ⟨n * p.dataWords - 1, by have := Nat.mul_pos some words; omega⟩
    obtain ⟨c₁, opened, phase₁, counter₁, wcounter₁, inv₁⟩ := inv.leads_opening phase' accepted.counter
    obtain ⟨e, run', done, memory', sent'⟩ := inv₁.leads_words (r := r) (k := 0) (by omega) phase₁ counter₁ (by omega)
      (by rw [wcounter₁, accepted.wcounter]; omega)
    have content : d.memory.content = c.memory.content := by rw [accepted.memory]; rfl
    have cursor : d.memory.cursor = c.memory.place (addr % 2 ^ (16 * p.addrWords)) := by
      rw [accepted.memory]
      rfl
    refine ⟨e, ?_, done, ?_, ?_, ?_⟩
    · have whole := run.trans (opened run')
      simpa [packetStream] using whole
    · rw [memory', accepted.memory]
      rfl
    · rw [memory', ← content]
      rfl
    -- the words in the packets of the answer are those of the memory
    · have nonempty : wordsAt d.memory.content d.memory.cursor (r + 1) ≠ [] := by
        intro empty
        have := congrArg List.length empty
        simp at this
      have flits := emission_eq p [] nonempty (by simp only [List.length_nil]; omega)
      rw [sent', List.append_assoc, accepted.sent, responses, total, ← content, ← cursor, ← flits]
      rfl

/-! The host takes the words out of the packets again. -/

def bytesFrom (content : Nat → Byte) (a count : Nat) : List Byte := (List.range count).map fun k => content (a + k)

theorem wordBytes_wordsAt (content : Nat → Byte) (a n : Nat) :
    wordBytes (wordsAt content a n) = bytesFrom content a (2 * n) := by
  induction n generalizing a with
  | zero => rfl
  | succ n ih =>
    rw [wordsAt, wordBytes_cons, ih, highByte_append, lowByte_append, bytesFrom, bytesFrom,
      show 2 * (n + 1) = 2 * n + 1 + 1 by omega, List.range_succ_eq_map, List.range_succ_eq_map]
    simp only [List.map_cons, List.map_map, Nat.add_zero, List.cons.injEq, true_and]
    apply List.map_congr_left
    intro k _
    simp only [Function.comp, Nat.succ_eq_add_one]
    congr 1
    omega

theorem swapBytes_flatMap (ws : List Word) :
    swapBytes (ws.flatMap fun w => [lowByte w, highByte w]) = wordBytes ws := by
  induction ws with
  | nil => rfl
  | cons w ws ih =>
    show highByte w :: lowByte w :: swapBytes (ws.flatMap fun w => [lowByte w, highByte w]) = _
    rw [ih, wordBytes_cons]

theorem length_flatMap_bytes (ws : List Word) : (ws.flatMap fun w => [lowByte w, highByte w]).length = 2 * ws.length := by
  induction ws with
  | nil => rfl
  | cons w ws ih =>
    rw [List.flatMap_cons, List.length_append, ih, List.length_cons]
    simp only [List.length_cons, List.length_nil]
    omega

theorem collect_payloads (dest source : Word) {payloads rest : List (List Word)} {buffer : List Byte}
    (some : payloads ≠ []) (nonempty : ∀ payload ∈ payloads, payload ≠ [])
    (count : buffer.length + 2 * payloads.flatten.length = size) :
    collect size buffer (payloads.map (fun payload => dest :: source :: payload) ++ rest) =
      .some (buffer ++ payloads.flatten.flatMap fun w => [lowByte w, highByte w], rest) := by
  induction payloads generalizing buffer with
  | nil => exact absurd rfl some
  | cons payload more ih =>
    have filled : memory_read_cb buffer (dest :: source :: payload) =
        buffer ++ payload.flatMap fun w => [lowByte w, highByte w] := rfl
    have length : (memory_read_cb buffer (dest :: source :: payload)).length = buffer.length + 2 * payload.length := by
      rw [filled, List.length_append, length_flatMap_bytes]
    simp only [List.flatten_cons, List.length_append] at count
    have inside : ¬ size < buffer.length + 2 * payload.length := by omega
    rw [List.map_cons, List.cons_append, collect]
    simp only [length, if_neg inside]
    cases more with
    | nil =>
      simp only [List.flatten_nil, List.length_nil, Nat.add_zero] at count
      rw [if_pos (by omega), filled]
      simp
    | cons next more =>
      have later := List.length_pos_of_ne_nil (nonempty next (by simp))
      simp only [List.flatten_cons, List.length_append] at count
      rw [if_neg (by omega), ih (by simp) (fun q member => nonempty q (by simp [member]))
        (by rw [length]; simp only [List.flatten_cons, List.length_append]; omega), filled]
      simp

theorem memory_read_bulk_responses (long : 8 ≤ p.maxPktLen) (content : Nat → Byte) (a : Nat) (some : 0 < n)
    (rest : List (List Word)) :
    memory_read_bulk (2 * n) (responses p content a n ++ rest) = .some (bytesFrom content a (2 * n), rest) := by
  have total := flatten_payloads (p.maxPktLen - 2) [] (wordsAt content a n)
  rw [List.nil_append] at total
  have nonempty : payloads (p.maxPktLen - 2) [] (wordsAt content a n) ≠ [] := by
    intro empty
    rw [empty] at total
    have := congrArg List.length total
    simp at this
    omega
  have bounds := payloads_bounds (wordsAt content a n)
    (show ([] : List Word).length < p.maxPktLen - 2 by simp only [List.length_nil]; omega)
  rw [memory_read_bulk, responses, collect_payloads 0 (sourceWord p) nonempty (fun q member => (bounds q member).1)
    (by rw [total, length_wordsAt, List.length_nil, Nat.zero_add]), total]
  simp only [Option.bind_eq_bind, Option.bind_some, List.nil_append, swapBytes_flatMap, wordBytes_wordsAt]
  rfl

@[simp] theorem length_bytesFrom (content : Nat → Byte) (a count : Nat) : (bytesFrom content a count).length = count := by
  simp [bytesFrom]

theorem bytesFrom_slice (content : Nat → Byte) (a : Nat) {i s count : Nat} (inside : i + s ≤ count) :
    ((bytesFrom content a count).drop i).take s = bytesFrom content (a + i) s := by
  apply List.ext_getElem
  · simp only [List.length_take, List.length_drop, length_bytesFrom]
    omega
  · intro k _ _
    simp [bytesFrom, Nat.add_assoc]

/-! The loop over the chunks. -/

def chunkCall (addr size j : Nat) : ReadCall :=
  let s := chunkSize size size (j * BULK_MAX)
  ⟨addr + j * BULK_MAX, s, 0, s, j * BULK_MAX⟩

def chunkResponses (p : MamParams) (addr size k n : Nat) : Answer := fun place content =>
  (List.range' k n).flatMap fun j =>
    responses p content (place (addr + j * BULK_MAX)) (chunkSize size size (j * BULK_MAX) / 2)

theorem chunk_words (served : p.Served) (whole : p.dataBytes ∣ size) {k : Nat} (inside : k * BULK_MAX < size) :
    ∃ s beats, chunkSize size size (k * BULK_MAX) = s ∧ 0 < beats ∧ beats < 2 ^ 14 ∧ s / p.dataBytes = beats
      ∧ s / 2 = beats * p.dataWords ∧ s = 2 * (s / 2) ∧ 0 < s ∧ k * BULK_MAX + s ≤ size
      ∧ (s = BULK_MAX ∨ s = size - k * BULK_MAX) := by
  obtain ⟨s, length, positive, small, fits, kind, -, -⟩ :=
    chunk_split (List.replicate size 0) (i := k * BULK_MAX) (by simpa using inside)
  simp only [List.length_replicate] at length fits kind
  obtain ⟨beats, some, bound, quotient, product⟩ := chunk_beats served positive (dvd_chunk served whole kind) small
  have words : s = 2 * (beats * p.dataWords) := by rw [product, MamParams.dataBytes, Nat.mul_left_comm]
  exact ⟨s, beats, length, some, bound, quotient, by omega, by omega, positive, fits, kind⟩

theorem chunks_answer (served : p.Served) (modaddr : Word) (whole : p.dataBytes ∣ size) (bound : addr + size ≤ 2 ^ (16 * p.addrWords)) {k : Nat}
    (count : k + n = (size + BULK_MAX - 1) / BULK_MAX) :
    ∃ requests, ((List.range' k n).map (chunkCall addr size)).mapM
        (fun call => readRequest (p.descriptor modaddr) call.addr call.size) = some requests
      ∧ Answers p requests (chunkResponses p addr size k n) := by
  induction n generalizing k with
  | zero => exact ⟨[], rfl, .nil p⟩
  | succ n ih =>
    have inside : k * BULK_MAX < size := chunk_inside (by omega)
    obtain ⟨s, beats, length, some, fits, quotient, words, -⟩ := chunk_words served whole inside
    obtain ⟨request, sent, answers⟩ := readRequest_answers served modaddr (addr + k * BULK_MAX) some fits quotient
    obtain ⟨requests, looped, answers'⟩ := ih (k := k + 1) (by omega)
    refine ⟨request :: requests, ?_, ?_⟩
    · have call : readRequest (p.descriptor modaddr) (chunkCall addr size k).addr (chunkCall addr size k).size =
          .some request := by rw [← sent, ← length]; rfl
      rw [List.range'_succ, List.map_cons, List.mapM_cons, call, looped]
      rfl
    · have both := answers.append answers'
      rw [Nat.mod_eq_of_lt (show addr + k * BULK_MAX < 2 ^ (16 * p.addrWords) by omega), ← words, ← length] at both
      exact both

theorem storeBytes_chunk {buffer target : List Byte} {i s : Nat} (same : buffer.length = target.length)
    (sofar : buffer.take i = target.take i) (inside : i + s ≤ target.length) :
    ∃ stored, storeBytes buffer i ((target.drop i).take s) = some stored ∧ stored.length = target.length
      ∧ stored.take (i + s) = target.take (i + s) := by
  have length : ((target.drop i).take s).length = s := by
    rw [List.length_take, List.length_drop]
    omega
  refine ⟨_, if_neg (by rw [length]; omega), ?_, ?_⟩
  · simp only [List.length_append, List.length_take, List.length_drop, length]
    omega
  · have front : (buffer.take i ++ (target.drop i).take s).length = i + s := by
      simp only [List.length_append, length, List.length_take]
      omega
    rw [List.take_left' front, sofar, List.take_add]

theorem runCalls_chunks (served : p.Served) (aligned : p.dataBytes ∣ addr) (whole : p.dataBytes ∣ size)
    {place : Nat → Nat} (serves : ∀ a, p.dataBytes ∣ a → place a = a) (content : Nat → Byte) {k : Nat}
    (count : k + n = (size + BULK_MAX - 1) / BULK_MAX) {buffer : List Byte} (length : buffer.length = size)
    (sofar : buffer.take (k * BULK_MAX) = (bytesFrom content addr size).take (k * BULK_MAX)) :
    runCalls ((List.range' k n).map (chunkCall addr size)) buffer (chunkResponses p addr size k n place content) =
      some (bytesFrom content addr size) := by
  induction n generalizing k buffer with
  | zero =>
    have ended : size ≤ k * BULK_MAX := by
      simp only [BULK_MAX] at count ⊢
      omega
    rw [List.take_of_length_le (by omega), List.take_of_length_le (by simpa using ended)] at sofar
    rw [sofar]
    rfl
  | succ n ih =>
    have inside : k * BULK_MAX < size := chunk_inside (by omega)
    obtain ⟨s, beats, chunk, -, -, -, words, even, positive, fits, kind⟩ := chunk_words served whole inside
    obtain ⟨stored, stores, length', front⟩ := storeBytes_chunk (i := k * BULK_MAX) (s := s)
      (show buffer.length = (bytesFrom content addr size).length by simpa using length) sofar (by simpa using fits)
    rw [length_bytesFrom] at length'
    have later : stored.take ((k + 1) * BULK_MAX) = (bytesFrom content addr size).take ((k + 1) * BULK_MAX) := by
      rw [Nat.succ_mul]
      obtain rfl | rfl := kind
      · exact front
      · rw [Nat.add_sub_cancel' inside.le, List.take_of_length_le (by omega),
          List.take_of_length_le (by simp)] at front
        rw [front]
    have packets : chunkResponses p addr size k (n + 1) place content =
        responses p content (addr + k * BULK_MAX) (s / 2) ++ chunkResponses p addr size (k + 1) n place content := by
      rw [← chunk, ← serves (addr + k * BULK_MAX)
        (Nat.dvd_add aligned (Nat.dvd_mul_left_of_dvd (dvd_BULK_MAX served) k))]
      rfl
    have call : chunkCall addr size k = ⟨addr + k * BULK_MAX, s, 0, s, k * BULK_MAX⟩ := by rw [← chunk]; rfl
    have read := memory_read_bulk_responses (p := p) (n := s / 2) served.long content (addr + k * BULK_MAX) (by omega)
      (chunkResponses p addr size (k + 1) n place content)
    rw [← even, ← bytesFrom_slice content addr fits] at read
    have taken : (((bytesFrom content addr size).drop (k * BULK_MAX)).take s).take s =
        ((bytesFrom content addr size).drop (k * BULK_MAX)).take s := by rw [List.take_take, Nat.min_self]
    rw [List.range'_succ, List.map_cons, packets, runCalls, call]
    simp only [read, Option.bind_eq_bind, Option.bind_some, List.drop_zero, taken, stores]
    exact ih (by omega) length' later

theorem osd_memory_read_answers (served : p.Served) (modaddr : Word) (aligned : p.dataBytes ∣ addr)
    (whole : p.dataBytes ∣ size) (positive : 0 < size) (bound : addr + size ≤ 2 ^ (16 * p.addrWords)) :
    ∃ requests answer, readRequests (p.descriptor modaddr) addr size = some requests ∧ Answers p requests answer
      ∧ ∀ (place : Nat → Nat) (content : Nat → Byte) (buffer : List Byte), (∀ a, p.dataBytes ∣ a → place a = a) →
        buffer.length = size → osd_memory_read (p.descriptor modaddr) addr buffer (answer place content) =
          some (bytesFrom content addr size) := by
  have parts := calculate_parts_aligned served aligned whole positive
  have several : ¬ size = 0 := by omega
  have calls : readCalls (p.descriptor modaddr) addr size =
      (List.range' 0 ((size + BULK_MAX - 1) / BULK_MAX)).map (chunkCall addr size) := by
    simp only [readCalls, blocksize_descriptor, parts, if_true, if_neg several, Nat.add_zero, Nat.zero_add,
      List.nil_append, List.append_nil, chunkStarts, List.map_map, List.range_eq_range']
    rfl
  obtain ⟨requests, sent, answers⟩ := chunks_answer (k := 0) (n := (size + BULK_MAX - 1) / BULK_MAX) served modaddr
    whole bound (by omega)
  refine ⟨requests, _, ?_, answers, fun place content buffer serves length => ?_⟩
  · rw [readRequests, calls]
    exact sent
  · rw [osd_memory_read, length, calls]
    exact runCalls_chunks served aligned whole serves content (by omega) length (by simp)

end Memory

/-! Packets on the way back. -/

def received (flits : List Flit) : List (List Word) := (Worm.completed Flit.last flits).map (List.map Flit.data)

theorem foldl_cut_frame {w : Word} {ws : List Word} (parts : List (List Flit)) (acc : List Flit) :
    (frame (w :: ws)).foldl (fun parts a =>
      if Flit.last a then (parts.1 ++ [parts.2 ++ [a]], []) else (parts.1, parts.2 ++ [a])) (parts, acc) =
      (parts ++ [acc ++ frame (w :: ws)], []) := by
  induction ws generalizing w acc with
  | nil => rfl
  | cons v ws ih =>
    rw [frame_cons_cons, List.foldl_cons]
    simp only [Bool.false_eq_true, if_false, ih, List.append_assoc, List.singleton_append]

theorem cut_packetStream {packets : List (List Word)} (some : ∀ packet ∈ packets, packet ≠ []) :
    Worm.cut Flit.last (packetStream packets) = (packets.map frame, []) := by
  induction packets using List.reverseRecOn with
  | nil => rfl
  | append_singleton packets packet ih =>
    obtain ⟨w, ws, rfl⟩ := List.exists_cons_of_ne_nil (some packet (by simp))
    have before := ih fun q member => some q (by simp [member])
    rw [packetStream_append, Worm.cut, List.foldl_append]
    rw [Worm.cut] at before
    rw [before, show packetStream [w :: ws] = frame (w :: ws) by simp [packetStream], foldl_cut_frame]
    simp

theorem received_packetStream {packets : List (List Word)} (some : ∀ packet ∈ packets, packet ≠ []) :
    received (packetStream packets) = packets := by
  rw [received, Worm.completed, cut_packetStream some, List.map_map]
  conv_rhs => rw [← List.map_id packets]
  apply List.map_congr_left
  intro packet _
  simp

end LowRisc.Debug
