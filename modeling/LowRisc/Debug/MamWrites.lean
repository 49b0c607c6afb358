import LowRisc.Debug.MamTransfer

/-! Write accesses of the host: the packets of `osd_memory_write` and what they make the
module write. -/

set_option autoImplicit false

namespace LowRisc.Debug

open LowRisc.Lib

namespace Memory

variable {p : MamParams} {modaddr : Word}

@[simp] theorem blocksize_descriptor (p : MamParams) (modaddr : Word) :
    blocksize (p.descriptor modaddr) = p.dataBytes := by
  simp only [blocksize, MamParams.descriptor, MamParams.dataBytes, Nat.shiftRight_eq_div_pow]
  omega

@[simp] theorem hlen_descriptor (p : MamParams) (modaddr : Word) :
    hlen (p.descriptor modaddr) = 1 + p.addrWords := by
  simp only [hlen, MamParams.descriptor, Nat.shiftRight_eq_div_pow]
  omega

def addrSlices (addr : Nat) (i : Nat) : Word := BitVec.ofNat 16 (addr >>> (16 * i))

theorem header_descriptor (few : p.addrWords ≤ 4) (control : Word) (addr : Nat) :
    header (p.descriptor modaddr) control addr =
      some (control :: (List.range p.addrWords).map (addrSlices addr)) := by
  have short : ¬ 5 < 1 + p.addrWords := by omega
  rw [header, hlen_descriptor, if_neg short, Nat.add_sub_cancel_left]
  rfl

theorem packet_descriptor {payload : List Word} (fits : payload.length + 2 ≤ p.maxPktLen) :
    packet (p.descriptor modaddr) payload = some (modaddr :: 0x4000#16 :: payload) :=
  if_neg (by simp only [MamParams.descriptor]; omega)

theorem isPlain_packet (modaddr : Word) (payload : List Word) : IsPlain (modaddr :: 0x4000#16 :: payload) :=
  ⟨modaddr, 0x4000#16, payload, rfl, by decide⟩

/-! Words and payloads. -/

@[simp] theorem highByte_append (a b : Byte) : highByte (a ++ b) = a := by
  apply BitVec.eq_of_getLsbD_eq
  intro i below
  rw [highByte, BitVec.getLsbD_extractLsb', BitVec.getLsbD_append]
  simp [below]

@[simp] theorem lowByte_append (a b : Byte) : lowByte (a ++ b) = b := by
  apply BitVec.eq_of_getLsbD_eq
  intro i below
  rw [lowByte, BitVec.getLsbD_extractLsb', BitVec.getLsbD_append]
  simp [below]

theorem wordBytes_words {data : List Byte} (even : data.length % 2 = 0) : wordBytes (words data) = data := by
  induction data using words.induct with
  | case1 a b rest ih =>
    rw [words, wordBytes_cons, ih (by simp only [List.length_cons] at even; omega), highByte_append, lowByte_append]
  | case2 data short =>
    match data with
    | [] => rfl
    | [a] => simp at even
    | a :: b :: rest => exact absurd rfl (short a b rest)

theorem length_words {data : List Byte} (even : data.length % 2 = 0) : 2 * (words data).length = data.length := by
  rw [← length_wordBytes, wordBytes_words even]

theorem flatten_payloads (count : Nat) (current ws : List Word) :
    (payloads count current ws).flatten = current ++ ws := by
  induction ws generalizing current with
  | nil =>
    rw [payloads]
    split
    · rename_i empty
      simp [List.eq_nil_of_length_eq_zero empty]
    · simp
  | cons w ws ih =>
    simp only [payloads]
    split
    · simp [ih]
    · simp [ih]

theorem payloads_bounds {count : Nat} {current : List Word} (ws : List Word) (room : current.length < count) :
    ∀ payload ∈ payloads count current ws, payload ≠ [] ∧ payload.length ≤ count := by
  induction ws generalizing current with
  | nil =>
    intro payload member
    simp only [payloads] at member
    split at member
    · cases member
    · rename_i nonempty
      rw [List.mem_singleton] at member
      subst member
      exact ⟨fun empty => nonempty (by simp [empty]), by omega⟩
  | cons w ws ih =>
    intro payload member
    simp only [payloads] at member
    split at member
    · rename_i full
      rw [List.mem_cons] at member
      obtain rfl | member := member
      · exact ⟨by simp, by omega⟩
      · exact ih (by simp only [List.length_nil]; omega) payload member
    · rename_i other
      have length : (current ++ [w]).length = current.length + 1 := by simp
      exact ih (by omega) payload member

theorem mapM_packet {payloads : List (List Word)} (fits : ∀ payload ∈ payloads, payload.length + 2 ≤ p.maxPktLen) :
    payloads.mapM (packet (p.descriptor modaddr)) =
      some (payloads.map fun payload => modaddr :: 0x4000#16 :: payload) := by
  induction payloads with
  | nil => rfl
  | cons payload rest ih =>
    rw [List.mapM_cons, packet_descriptor (fits payload (by simp)), ih fun q member => fits q (by simp [member])]
    rfl

/-! Control words. -/

theorem getLsbD_control (top : Word) {n : Nat} (fits : n < 2 ^ 14) {i : Nat} (high : 14 ≤ i) :
    (top ||| BitVec.ofNat 16 n).getLsbD i = top.getLsbD i := by
  have clear : n.testBit i = false := Nat.testBit_lt_two_pow (lt_of_lt_of_le fits (Nat.pow_le_pow_right (by omega) high))
  simp [BitVec.getLsbD_or, BitVec.getLsbD_ofNat, clear]

theorem beats_control {top : Word} (clear : ∀ i < 14, top.getLsbD i = false) (n : Nat) :
    (top ||| BitVec.ofNat 16 n).extractLsb' 0 14 = BitVec.ofNat 14 n := by
  apply BitVec.eq_of_getLsbD_eq
  intro i below
  have wide : i < 16 := by omega
  rw [BitVec.getLsbD_extractLsb', BitVec.getLsbD_or, BitVec.getLsbD_ofNat, BitVec.getLsbD_ofNat, Nat.zero_add,
    clear i below]
  simp only [below, wide, decide_true, Bool.true_and, Bool.false_or]

theorem slice_eq {data : List Byte} {offset size : Nat} (inside : offset + size ≤ data.length) :
    slice data offset size = some ((data.drop offset).take size) := if_neg (by omega)

end Memory

/-! Headers of requests. -/

@[simp] theorem map_data_frame (ws : List Word) : (frame ws).map Flit.data = ws := by
  induction ws with
  | nil => rfl
  | cons w ws ih => rw [Layer.frame_cons, List.map_cons, ih]

theorem getLast_frame {ws : List Word} (some : frame ws ≠ []) : ((frame ws).getLast some).last = true := by
  induction ws with
  | nil => exact absurd rfl some
  | cons w ws ih =>
    cases ws with
    | nil => rfl
    | cons v ws =>
      simp only [frame_cons_cons]
      rw [List.getLast_cons (frame_ne_nil (List.cons_ne_nil v ws))]
      exact ih _

theorem frame_append (ws : List Word) {tail : List Word} (some : tail ≠ []) :
    frame (ws ++ tail) = ws.map (⟨false, ·⟩) ++ frame tail := by
  induction ws with
  | nil => rfl
  | cons w ws ih =>
    have more : (ws ++ tail).isEmpty = false := by simp [some]
    rw [List.cons_append, Layer.frame_cons, ih, more]
    rfl

theorem slices_of_data {n : Nat} {slices : Nat → Word} {flits : List Flit}
    (data : flits.map Flit.data = (List.range n).map slices) : ∀ i, ∀ f ∈ flits[i]?, f.data = slices i := by
  intro i f at_i
  have datum : (flits.map Flit.data)[i]? = some f.data := by
    rw [List.getElem?_map, Option.mem_def.mp at_i]
    rfl
  rw [data, List.getElem?_map] at datum
  by_cases inside : i < n
  · rw [List.getElem?_range inside] at datum
    exact (Option.some.inj datum).symm
  · rw [List.getElem?_eq_none (by simp; omega)] at datum
    cases datum

namespace MamCore

variable {p : MamParams} {c : MamCore}

theorem leads_request (wide : 0 < p.addrWords) (phase : c.mam.phase = .inactive) (dest type control : Word)
    (addr : Nat) :
    ∃ d, Accepted p c control (addr % 2 ^ (16 * p.addrWords)) true d
      ∧ Leads p c (frame (dest :: type :: control :: (List.range p.addrWords).map (Memory.addrSlices addr))) d := by
  have nonempty : (List.range p.addrWords).map (Memory.addrSlices addr) ≠ [] := by
    simp only [ne_eq, List.map_eq_nil_iff, List.range_eq_nil]
    omega
  have some := frame_ne_nil nonempty
  have words := slices_of_data (map_data_frame ((List.range p.addrWords).map (Memory.addrSlices addr)))
  obtain ⟨d, accepted, run⟩ := leads_header (p := p) some ⟨false, dest⟩ ⟨false, type⟩ ⟨false, control⟩
    (by simp [length_frame]) words phase
  have value : slicesValue p.addrWords (Memory.addrSlices addr) = addr % 2 ^ (16 * p.addrWords) :=
    slicesValue_ofNat p.addrWords addr
  rw [value, getLast_frame] at accepted
  refine ⟨d, accepted, ?_⟩
  obtain ⟨w, ws, shape⟩ := List.exists_cons_of_ne_nil nonempty
  rw [shape] at run ⊢
  exact run

end MamCore

/-! What packets write. -/

theorem MamMemory.Serves.of_place {p : MamParams} {m m' : MamMemory} (serves : m.Serves p) (same : m'.place = m.place) :
    m'.Serves p := by
  intro a aligned
  rw [same]
  exact serves a aligned

/-- The packets make an inactive module write the bytes from `addr` on. -/
structure Transfers (p : MamParams) (packets : List (List Word)) (addr : Nat) (bytes : List Byte) : Prop where
  plain : ∀ packet ∈ packets, IsPlain packet
  writes : ∀ c : MamCore, c.mam.phase = .inactive → c.memory.Serves p →
    ∃ d, MamCore.Leads p c (packetStream packets) d ∧ d.mam.phase = .inactive ∧ d.memory.place = c.memory.place
      ∧ d.memory.updates = c.memory.updates ++ bytesAt addr bytes

theorem packetStream_append (first second : List (List Word)) :
    packetStream (first ++ second) = packetStream first ++ packetStream second := List.flatMap_append

theorem Transfers.nil (p : MamParams) (addr : Nat) : Transfers p [] addr [] :=
  ⟨by simp, fun c phase _ => ⟨c, .rest c, phase, rfl, by simp [bytesAt]⟩⟩

theorem Transfers.append {p : MamParams} {first second : List (List Word)} {addr : Nat} {bytes more : List Byte}
    (before : Transfers p first addr bytes) (after : Transfers p second (addr + bytes.length) more) :
    Transfers p (first ++ second) addr (bytes ++ more) := by
  refine ⟨?_, fun c phase serves => ?_⟩
  · intro packet member
    exact (List.mem_append.mp member).elim (before.plain packet) (after.plain packet)
  · obtain ⟨d, run, phase', place, updates⟩ := before.writes c phase serves
    obtain ⟨e, run', phase'', place', updates'⟩ := after.writes d phase' (serves.of_place place)
    refine ⟨e, ?_, phase'', place'.trans place, ?_⟩
    · rw [packetStream_append]
      exact run.trans run'
    · rw [updates', updates, bytesAt_append, List.append_assoc]

/-- The shapes of modules that the host can serve. -/
structure MamParams.Served (p : MamParams) : Prop where
  wide : 0 < p.addrWords
  few : p.addrWords ≤ 4
  data : p.dataWords = 1 ∨ p.dataWords = 2 ∨ p.dataWords = 4
  long : 8 ≤ p.maxPktLen

namespace Memory

variable {p : MamParams} {modaddr : Word} {addr offset size : Nat} {data : List Byte}

theorem chunk_beats (served : p.Served) (positive : 0 < size) (whole : p.dataBytes ∣ size)
    (small : size ≤ BULK_MAX) :
    ∃ n, 0 < n ∧ n < 2 ^ 14 ∧ size / p.dataBytes = n ∧ size = n * p.dataBytes := by
  obtain ⟨n, rfl⟩ := whole
  have bytes : 2 ≤ p.dataBytes := by
    rcases served.data with one | two | four <;> simp only [MamParams.dataBytes] <;> omega
  refine ⟨n, ?_, ?_, Nat.mul_div_cancel_left n (by omega), Nat.mul_comm _ _⟩
  · exact Nat.pos_of_ne_zero fun zero => by simp [zero] at positive
  · have double : 2 * n ≤ p.dataBytes * n := Nat.mul_le_mul_right n bytes
    simp only [BULK_MAX] at small
    omega

theorem memory_write_bulk_transfers (served : p.Served) (modaddr : Word) (aligned : p.dataBytes ∣ addr)
    (below : addr < 2 ^ (16 * p.addrWords)) (positive : 0 < size) (whole : p.dataBytes ∣ size)
    (small : size ≤ BULK_MAX) (inside : offset + size ≤ data.length) :
    ∃ packets, memory_write_bulk (p.descriptor modaddr) addr data offset size = some packets
      ∧ Transfers p packets addr ((data.drop offset).take size) := by
  obtain ⟨n, some, fits, quotient, product⟩ := chunk_beats served positive whole small
  have few := served.few
  have long := served.long
  let bytes := (data.drop offset).take size
  have length : bytes.length = size := by
    simp only [bytes, List.length_take, List.length_drop]
    -- every beat has whole words, so no byte is left over
    omega
  have even : bytes.length % 2 = 0 := by
    rw [length, product, MamParams.dataBytes, Nat.mul_left_comm, Nat.mul_mod_right]
  let body := payloads (p.maxPktLen - 2) [] (words bytes)
  have bounds : ∀ payload ∈ body, payload ≠ [] ∧ payload.length ≤ p.maxPktLen - 2 :=
    payloads_bounds _ (by simp only [List.length_nil]; omega)
  let control := 0xc000#16 ||| BitVec.ofNat 16 n
  -- the header goes in a packet of its own, the words behind it fill the others
  let start := modaddr :: 0x4000#16 :: control :: (List.range p.addrWords).map (addrSlices addr)
  refine ⟨start :: body.map fun payload => modaddr :: 0x4000#16 :: payload, ?_, ?_, ?_⟩
  · have head : packet (p.descriptor modaddr) (control :: (List.range p.addrWords).map (addrSlices addr)) = .some start :=
      packet_descriptor (by simp only [List.length_cons, List.length_map, List.length_range]; omega)
    have tail : body.mapM (packet (p.descriptor modaddr)) =
        .some (body.map fun payload => modaddr :: 0x4000#16 :: payload) :=
      mapM_packet fun payload member => by have := (bounds payload member).2; omega
    have buffer : (p.descriptor modaddr).max_pkt_len = p.maxPktLen := rfl
    simp only [memory_write_bulk, if_neg (Nat.not_lt.mpr small), blocksize_descriptor, quotient,
      header_descriptor few, slice_eq inside, Option.bind_eq_bind, Option.bind_some, buffer]
    rw [head, Option.bind_some, tail]
    rfl
  · intro packet member
    rw [List.mem_cons, List.mem_map] at member
    obtain rfl | ⟨payload, -, rfl⟩ := member
    · exact isPlain_packet _ _
    · exact isPlain_packet _ _
  · intro c phase serves
    -- the module takes the header, and then one packet after the other
    obtain ⟨d, accepted, run⟩ := MamCore.leads_request (p := p) served.wide phase modaddr 0x4000#16 control addr
    have write : control.getLsbD 15 = true := by
      rw [getLsbD_control _ fits (by omega)]
      decide
    have burst : control.getLsbD 14 = true := by
      rw [getLsbD_control _ fits (by omega)]
      decide
    have beats : control.extractLsb' 0 14 = BitVec.ofNat 14 n := beats_control (by decide) n
    have phase' : d.mam.phase = .writePacket := by rw [accepted.phase, write, burst]; rfl
    have dataWords : 0 < p.dataWords := by rcases served.data with one | two | four <;> omega
    have inv : MamCore.Bursting p n [] d.memory d.sent d :=
      ⟨by rw [accepted.burst, burst], by rw [accepted.beats, burst, if_pos rfl, beats], some, fits.le,
        accepted.wcounter, dataWords, by simp, rfl, rfl⟩
    have count : body.flatten.length = n * p.dataWords := by
      have half := length_words even
      rw [flatten_payloads, List.nil_append]
      rw [length, product, MamParams.dataBytes, Nat.mul_left_comm] at half
      omega
    obtain ⟨e, run', done⟩ := inv.leads_packets phase' accepted.counter modaddr 0x4000#16
      (fun payload member => (bounds payload member).1) (by simpa using count)
    refine ⟨e, run.trans run', done.phase, ?_, ?_⟩
    · rw [done.memory, accepted.memory]
      rfl
    · rw [done.memory, accepted.memory, List.nil_append, flatten_payloads, List.nil_append]
      simp only [MamMemory.written, MamMemory.request, Nat.mod_eq_of_lt below, serves addr aligned,
        wordBytes_words even]
      rfl

/-! The loop over the chunks. -/

theorem chunk_inside {k : Nat} (more : k < (size + BULK_MAX - 1) / BULK_MAX) : k * BULK_MAX < size := by
  simp only [BULK_MAX] at more ⊢
  omega

theorem chunkSize_whole {i : Nat} (inside : i < size) :
    chunkSize size size i = if size < i + BULK_MAX then size - i else BULK_MAX := by
  rw [chunkSize]
  split
  · rename_i final
    simp only [BULK_MAX] at final
    omega
  · rfl

theorem dvd_BULK_MAX (served : p.Served) : p.dataBytes ∣ BULK_MAX := by
  rcases served.data with one | two | four
  · simp only [MamParams.dataBytes, one, BULK_MAX]; decide
  · simp only [MamParams.dataBytes, two, BULK_MAX]; decide
  · simp only [MamParams.dataBytes, four, BULK_MAX]; decide

theorem dvd_two_pow_64 (served : p.Served) : p.dataBytes ∣ 2 ^ 64 := by
  rcases served.data with one | two | four
  · simp only [MamParams.dataBytes, one]; decide
  · simp only [MamParams.dataBytes, two]; decide
  · simp only [MamParams.dataBytes, four]; decide

theorem chunk_split (data : List Byte) {i : Nat} (inside : i < data.length) :
    ∃ s, chunkSize data.length data.length i = s ∧ 0 < s ∧ s ≤ BULK_MAX ∧ i + s ≤ data.length
      ∧ (s = BULK_MAX ∨ s = data.length - i)
      ∧ data.drop i = (data.drop i).take s ++ data.drop (i + BULK_MAX)
      ∧ (data.drop (i + BULK_MAX) = [] ∨ ((data.drop i).take s).length = BULK_MAX) := by
  rw [chunkSize_whole inside]
  by_cases final : data.length < i + BULK_MAX
  · rw [if_pos final]
    have none : data.drop (i + BULK_MAX) = [] := List.drop_eq_nil_of_le (by omega)
    refine ⟨_, rfl, by omega, by omega, by omega, .inr rfl, ?_, .inl none⟩
    rw [none, List.append_nil, List.take_of_length_le (by simp)]
  · rw [if_neg final]
    refine ⟨_, rfl, by decide, Nat.le_refl _, by omega, .inl rfl, ?_, .inr ?_⟩
    · rw [← List.drop_drop, List.take_append_drop]
    · rw [List.length_take, List.length_drop]
      omega

theorem dvd_chunk (served : p.Served) {k s : Nat} (whole : p.dataBytes ∣ size)
    (length : s = BULK_MAX ∨ s = size - k * BULK_MAX) : p.dataBytes ∣ s := by
  have step := dvd_BULK_MAX served
  obtain rfl | rfl := length
  · exact step
  · exact Nat.dvd_sub whole (Nat.dvd_mul_left_of_dvd step k)

theorem chunks_transfer (served : p.Served) (modaddr : Word) (aligned : p.dataBytes ∣ addr)
    (whole : p.dataBytes ∣ data.length) (bound : addr + data.length ≤ 2 ^ (16 * p.addrWords)) {n k : Nat}
    (count : k + n = (data.length + BULK_MAX - 1) / BULK_MAX) :
    ∃ packets, forEach (fun i => memory_write_bulk (p.descriptor modaddr) (addr + i) data i
        (chunkSize data.length data.length i)) ((List.range' k n).map fun j => j * BULK_MAX) = some packets
      ∧ Transfers p packets (addr + k * BULK_MAX) (data.drop (k * BULK_MAX)) := by
  induction n generalizing k with
  | zero =>
    have ended : data.length ≤ k * BULK_MAX := by
      simp only [BULK_MAX] at count ⊢
      omega
    refine ⟨[], rfl, ?_⟩
    rw [List.drop_eq_nil_of_le ended]
    exact .nil p _
  | succ n ih =>
    have inside : k * BULK_MAX < data.length := chunk_inside (by omega)
    obtain ⟨s, length, positive, small, fits, kind, split, behind⟩ := chunk_split data inside
    obtain ⟨packets, called, transfers⟩ := memory_write_bulk_transfers served modaddr
      (Nat.dvd_add aligned (Nat.dvd_mul_left_of_dvd (dvd_BULK_MAX served) k)) (by omega) positive
      (dvd_chunk served whole kind) small fits
    obtain ⟨rest, looped, transfers'⟩ := ih (k := k + 1) (by omega)
    refine ⟨packets ++ rest, ?_, ?_⟩
    · rw [List.range'_succ, List.map_cons, forEach, length, called, looped]
      rfl
    · rw [split]
      apply transfers.append
      rw [Nat.succ_mul] at transfers'
      obtain none | chunk := behind
      · rw [none] at transfers' ⊢
        have empty := transfers'.writes
        exact ⟨transfers'.plain, empty⟩
      · rwa [chunk, Nat.add_assoc]

theorem calculate_parts_aligned (served : p.Served) (aligned : p.dataBytes ∣ addr) (whole : p.dataBytes ∣ size)
    (positive : 0 < size) : calculate_parts addr size p.dataBytes = ⟨0, size, 0⟩ := by
  have long : ¬ size < p.dataBytes := Nat.not_lt.mpr (Nat.le_of_dvd positive whole)
  have prolog : (p.dataBytes + 2 ^ 64 - addr) % 2 ^ 64 % p.dataBytes = 0 := by
    rw [Nat.mod_mod_of_dvd _ (dvd_two_pow_64 served)]
    exact Nat.mod_eq_zero_of_dvd (Nat.dvd_sub (Nat.dvd_add (Nat.dvd_refl _) (dvd_two_pow_64 served)) aligned)
  have epilog : (addr + size) % p.dataBytes = 0 := Nat.mod_eq_zero_of_dvd (Nat.dvd_add aligned whole)
  simp only [calculate_parts, if_neg long, prolog, epilog, Nat.sub_zero]

theorem osd_memory_write_transfers (served : p.Served) (modaddr : Word) (aligned : p.dataBytes ∣ addr)
    (whole : p.dataBytes ∣ data.length) (positive : 0 < data.length)
    (bound : addr + data.length ≤ 2 ^ (16 * p.addrWords)) :
    ∃ packets, osd_memory_write (p.descriptor modaddr) addr data = some packets ∧ Transfers p packets addr data := by
  have parts := calculate_parts_aligned served aligned whole positive
  obtain ⟨packets, looped, transfers⟩ := chunks_transfer (k := 0)
    (n := (data.length + BULK_MAX - 1) / BULK_MAX) served modaddr aligned whole bound (by omega)
  refine ⟨packets, ?_, by simpa using transfers⟩
  have several : ¬ data.length = 0 := by omega
  simp only [osd_memory_write, blocksize_descriptor, parts, if_true, if_neg several, Nat.add_zero, Nat.zero_add,
    Option.bind_eq_bind, Option.bind_some, chunkStarts, List.range_eq_range', looped]
  simp

end Memory

end LowRisc.Debug
