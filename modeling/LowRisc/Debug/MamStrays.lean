import LowRisc.Debug.MamReads

/-! Accesses that are not of whole words: single writes, which hit lanes that do not hold
their bytes, and chunks without a beat, after which the module takes the next packet for
data. -/

set_option autoImplicit false

namespace LowRisc.Debug

open LowRisc.Lib

namespace MamCore

variable {p : MamParams} {c d : MamCore}

/-! Single writes. -/

theorem leads_singleWords {flits : List Flit} (some : flits ≠ []) (phase : c.mam.phase = .writeSingle)
    (count : c.mam.wcounter + flits.length = p.dataWords) :
    ∃ d, Leads p c flits d ∧ d.mam.phase = .inactive
      ∧ ∃ bytes, d.memory = c.memory.store p (Mam.enabled c.mam) bytes := by
  induction flits generalizing c with
  | nil => exact absurd rfl some
  | cons f rest ih =>
    have ready : c.listening = true := by simp [listening, Mam.dp_in_ready, phase]
    cases rest with
    | nil =>
      have full : c.mam.wcounter = p.dataWords - 1 := by
        simp only [List.length_singleton] at count
        omega
      refine ⟨c.take p f, .take ready (.rest _), ?_, Mam.write_data p c.mam (.ofFlit f), ?_⟩
      · simp [take, next, Mam.next, phase, Mam.nextWriteSingle, DiiFlit.ofFlit, full]
      · simp [take, next, Mam.memoryNext, Mam.req_valid, Mam.write_valid, phase, DiiFlit.ofFlit, full]
    | cons g rest =>
      have more : ¬ c.mam.wcounter = p.dataWords - 1 := by
        simp only [List.length_cons] at count
        omega
      have mam' : (c.take p f).mam =
          { c.mam with
            write_data_reg := upd c.mam.write_data_reg c.mam.wcounter f.data
            wcounter := c.mam.wcounter + 1 } := by
        simp [take, next, Mam.next, phase, Mam.nextWriteSingle, DiiFlit.ofFlit, more]
      have memory' : (c.take p f).memory = c.memory := by
        simp [take, next, Mam.memoryNext, Mam.req_valid, Mam.write_valid, Mam.read_ready, phase, DiiFlit.ofFlit, more]
      have same : Mam.enabled (c.take p f).mam = Mam.enabled c.mam := by
        rw [mam']
        rfl
      obtain ⟨d, run, ends, bytes, stored⟩ := ih (c := c.take p f) (by simp) (by rw [mam']; exact phase)
        (by rw [mam']; simp only [List.length_cons] at count ⊢; omega)
      exact ⟨d, .take ready run, ends, bytes, by rw [stored, memory', same]⟩

theorem leads_single (wide : 0 < p.addrWords) (phase : c.mam.phase = .inactive) (dest type control : Word)
    (addr : Nat) {body : List Word} (some : body ≠ []) (full : body.length = p.dataWords)
    (write : control.getLsbD 15 = true) (single : control.getLsbD 14 = false) :
    ∃ d, Leads p c (frame (dest :: type :: control :: ((List.range p.addrWords).map (Memory.addrSlices addr) ++ body))) d
      ∧ d.mam.phase = .inactive
      ∧ ∃ bytes, d.memory = (c.memory.request (addr % 2 ^ (16 * p.addrWords))).store p control.getLsbD bytes := by
  let flits : List Flit := ((List.range p.addrWords).map (Memory.addrSlices addr)).map (⟨false, ·⟩)
  have nonempty : flits ≠ [] := by
    simp only [flits, ne_eq, List.map_eq_nil_iff, List.range_eq_nil]
    omega
  have data : flits.map Flit.data = (List.range p.addrWords).map (Memory.addrSlices addr) := by simp [flits]
  obtain ⟨d, accepted, run⟩ := leads_header (p := p) nonempty ⟨false, dest⟩ ⟨false, type⟩ ⟨false, control⟩
    (by simp [flits]) (slices_of_data data) phase
  have phase' : d.mam.phase = .writeSingle := by rw [accepted.phase, write, single]; rfl
  obtain ⟨e, run', ends, bytes, stored⟩ := leads_singleWords (c := d) (frame_ne_nil some) phase'
    (by rw [accepted.wcounter, length_frame, full, Nat.zero_add])
  refine ⟨e, ?_, ends, bytes, ?_⟩
  · have flat : frame (dest :: type :: control :: ((List.range p.addrWords).map (Memory.addrSlices addr) ++ body)) =
        (⟨false, dest⟩ :: ⟨false, type⟩ :: ⟨false, control⟩ :: flits) ++ frame body :=
      frame_append (dest :: type :: control :: (List.range p.addrWords).map (Memory.addrSlices addr)) some
    rw [flat]
    exact run.trans run'
  · have lanes : Mam.enabled d.mam = control.getLsbD := by
      funext lane
      rw [Mam.enabled, accepted.burst, accepted.strb, single, Bool.false_or]
    have value : slicesValue p.addrWords (Memory.addrSlices addr) = addr % 2 ^ (16 * p.addrWords) :=
      slicesValue_ofNat p.addrWords addr
    rw [stored, lanes, accepted.memory, value]

end MamCore

theorem mem_store {p : MamParams} (m : MamMemory) {enabled : Nat → Bool} (bytes : Nat → Byte) {k : Nat}
    (inside : k < p.dataBytes) (hit : enabled (MamMemory.laneOf p k) = true) :
    ∃ v, (m.cursor + k, v) ∈ (m.store p enabled bytes).updates := by
  refine ⟨bytes (MamMemory.laneOf p k), ?_⟩
  simp only [MamMemory.store, List.mem_append, List.mem_map, List.mem_filter, List.mem_range]
  exact .inr ⟨k, ⟨inside, hit⟩, rfl⟩

namespace Memory

variable {p : MamParams} {modaddr : Word} {addr offset size : Nat} {data : List Byte} {packets : List (List Word)}

theorem getLsbD_strobe (mem : MemoryDescriptor) (baddr size j : Nat) :
    (strobe mem baddr size).getLsbD j = decide (j < 8 ∧ j < blocksize mem ∧ baddr ≤ j ∧ j < baddr + size) := by
  rw [strobe, BitVec.getLsbD_setWidth]
  by_cases low : j < 8
  · have wide : j < 16 := by omega
    simp only [wide, low, decide_true, Bool.true_and, true_and]
    generalize blocksize mem = n
    induction n with
    | zero => simp
    | succ n ih =>
      rw [List.range_succ, List.foldl_append, List.foldl_cons, List.foldl_nil]
      have bit : (1#8 <<< n).getLsbD j = decide (j = n) := by
        simp only [BitVec.getLsbD_shiftLeft, BitVec.getLsbD_one, low, decide_true, Bool.true_and]
        by_cases here : j = n
        · simp [here]
        · by_cases below : j < n
          · simp [below, here]
          · have above : ¬ j - n = 0 := by omega
            simp [below, here, above]
      split
      · rename_i within
        rw [BitVec.getLsbD_or, ih, bit, ← Bool.decide_or, decide_eq_decide]
        constructor
        · rintro (old | rfl)
          · exact ⟨by omega, old.2⟩
          · exact ⟨by omega, within⟩
        · rintro ⟨below, range⟩
          by_cases here : j = n
          · exact .inr here
          · exact .inl ⟨by omega, range⟩
      · rename_i outside
        rw [ih, decide_eq_decide]
        constructor
        · rintro ⟨below, range⟩
          exact ⟨by omega, range⟩
        · rintro ⟨below, range⟩
          refine ⟨?_, range⟩
          by_contra beyond
          exact outside (by rwa [show n = j by omega])
  · rw [BitVec.getLsbD_of_ge _ _ (by omega), Bool.and_false]
    exact (decide_eq_false fun inside => low inside.1).symm

theorem memory_write_single_eq (served : p.Served)
    (called : memory_write_single (p.descriptor modaddr) addr data offset size = some packets) :
    ∃ body, body ≠ [] ∧ body.length = p.dataWords
      ∧ packets = [modaddr :: 0x4000#16 :: (0x8000#16 ||| strobe (p.descriptor modaddr) (addr % p.dataBytes) size)
        :: ((List.range p.addrWords).map (addrSlices (addr - addr % p.dataBytes)) ++ body)] := by
  have narrow : addr % p.dataBytes % 256 = addr % p.dataBytes := by
    have bytes : p.dataBytes ≤ 8 := by
      rcases served.data with one | two | four <;> simp only [MamParams.dataBytes] <;> omega
    have lane := Nat.mod_lt addr (show 0 < p.dataBytes by
      rcases served.data with one | two | four <;> simp only [MamParams.dataBytes] <;> omega)
    exact Nat.mod_eq_of_lt (by omega)
  simp only [memory_write_single, blocksize_descriptor, narrow, header_descriptor served.few, Option.bind_eq_bind,
    Option.bind_some] at called
  obtain ⟨bytes, -, called⟩ := Option.bind_eq_some_iff.mp called
  obtain ⟨content, blocked, called⟩ := Option.bind_eq_some_iff.mp called
  obtain ⟨sent, packed, called⟩ := Option.bind_eq_some_iff.mp called
  have length : content.length = p.dataBytes := by
    simp only [block, blocksize_descriptor] at blocked
    split at blocked
    · cases blocked
    · cases Option.some.inj blocked
      simp only [List.length_append, List.length_replicate]
      omega
  have half := length_words (show content.length % 2 = 0 by rw [length, MamParams.dataBytes, Nat.mul_mod_right])
  rw [length, MamParams.dataBytes] at half
  have full : (words content).length = p.dataWords := by omega
  refine ⟨words content, ?_, full, ?_⟩
  · intro empty
    rw [empty, List.length_nil] at full
    rcases served.data with one | two | four <;> omega
  · rw [packet] at packed
    split at packed
    · cases packed
    · cases Option.some.inj packed
      cases Option.some.inj called
      rfl

theorem single_strays (served : p.Served) (big : p.endian = true) (below : addr < 2 ^ (16 * p.addrWords))
    (called : memory_write_single (p.descriptor modaddr) addr data offset size = some packets) {k : Nat}
    (inside : k < p.dataBytes) (first : addr % p.dataBytes ≤ p.dataBytes - 1 - k)
    (last : p.dataBytes - 1 - k < addr % p.dataBytes + size) {c : MamCore} (phase : c.mam.phase = .inactive)
    (serves : c.memory.Serves p) :
    ∃ d, MamCore.Leads p c (packetStream packets) d
      ∧ ∃ v, (addr - addr % p.dataBytes + k, v) ∈ d.memory.updates := by
  obtain ⟨body, some, full, rfl⟩ := memory_write_single_eq served called
  have bytes : p.dataBytes ≤ 8 := by
    rcases served.data with one | two | four <;> simp only [MamParams.dataBytes] <;> omega
  have high : (strobe (p.descriptor modaddr) (addr % p.dataBytes) size).getLsbD 14 = false := by
    rw [getLsbD_strobe]
    simp
  obtain ⟨d, run, -, stored, memory⟩ := MamCore.leads_single (p := p) served.wide phase modaddr 0x4000#16
    (0x8000#16 ||| strobe (p.descriptor modaddr) (addr % p.dataBytes) size) (addr - addr % p.dataBytes) some full
    (by rw [BitVec.getLsbD_or]; rfl) (by rw [BitVec.getLsbD_or, high]; rfl)
  have aligned : p.dataBytes ∣ addr - addr % p.dataBytes := Nat.dvd_sub_mod addr
  have cursor : c.memory.place ((addr - addr % p.dataBytes) % 2 ^ (16 * p.addrWords)) =
      addr - addr % p.dataBytes := by
    rw [Nat.mod_eq_of_lt (by omega), serves _ aligned]
  refine ⟨d, by simpa [packetStream] using run, ?_⟩
  -- the lanes of a big-endian module count from the other end, the strobe bits of the host do not
  have lane : MamMemory.laneOf p k = p.dataBytes - 1 - k := by rw [MamMemory.laneOf, big]; rfl
  have hit : (0x8000#16 ||| strobe (p.descriptor modaddr) (addr % p.dataBytes) size).getLsbD (MamMemory.laneOf p k) =
      true := by
    rw [lane, BitVec.getLsbD_or, getLsbD_strobe, blocksize_descriptor,
      decide_eq_true ⟨by omega, by omega, first, last⟩, Bool.or_true]
  obtain ⟨v, member⟩ := mem_store (c.memory.request ((addr - addr % p.dataBytes) % 2 ^ (16 * p.addrWords))) stored inside
    hit
  rw [← memory] at member
  have place : (c.memory.request ((addr - addr % p.dataBytes) % 2 ^ (16 * p.addrWords))).cursor =
      addr - addr % p.dataBytes := cursor
  rw [place] at member
  exact ⟨v, member⟩

/-! Chunks without a beat. -/

/-- A header for no beats leaves the module in a burst, and the packet behind it is taken for
data. -/
theorem empty_chunk_strays (served : p.Served) (modaddr : Word) (aligned : p.dataBytes ∣ addr)
    (below : addr < 2 ^ (16 * p.addrWords)) (payload : List Word) (long : p.dataWords < payload.length)
    (short : payload.length < 2 ^ 14) {c : MamCore} (phase : c.mam.phase = .inactive) (serves : c.memory.Serves p) :
    ∃ d, MamCore.Leads p c (packetStream [modaddr :: 0x4000#16 :: 0xc000#16
          :: (List.range p.addrWords).map (addrSlices addr), modaddr :: 0x4000#16 :: payload]) d
      ∧ ∃ v, (addr + (p.dataBytes - 1), v) ∈ d.memory.updates := by
  have positive : 0 < p.dataWords := by rcases served.data with one | two | four <;> omega
  obtain ⟨d, accepted, run⟩ := MamCore.leads_request (p := p) served.wide phase modaddr 0x4000#16 0xc000#16 addr
  have cursor : d.memory.cursor = addr := by
    have place : c.memory.place (addr % 2 ^ (16 * p.addrWords)) = addr := by
      rw [Nat.mod_eq_of_lt below, serves addr aligned]
    rw [accepted.memory]
    exact place
  have inv : MamCore.Bursting p (2 ^ 14) [] d.memory d.sent d :=
    ⟨accepted.burst, accepted.beats, by decide, Nat.le_refl _, accepted.wcounter, positive, by simp, rfl, rfl⟩
  obtain ⟨c₁, opening, phase₁, inv₁⟩ := inv.leads_opening accepted.phase accepted.counter ⟨false, modaddr⟩
    ⟨false, 0x4000#16⟩
  have nonempty : payload ≠ [] := fun empty => by simp [empty] at long
  have most : 2 ^ 14 ≤ 2 ^ 14 * p.dataWords := Nat.le_mul_of_pos_right _ positive
  obtain ⟨e, run', result⟩ := inv₁.leads_frame phase₁ nonempty (by simp only [List.length_nil]; omega)
  obtain ⟨total, -⟩ | ⟨-, go⟩ := result
  · simp only [List.length_nil] at total
    omega
  · obtain ⟨left, part, full, split, count, inv₂⟩ := go.split
    -- More than one beat has come, so that a whole one is written.
    have lengths : payload.length = full.length + part.length := by simpa using congrArg List.length split
    have beat : p.dataWords ≤ full.length := by
      have room := inv₂.room
      have some : 0 < full.length := by omega
      have multiple : p.dataWords ∣ full.length := by
        rw [← Nat.dvd_add_left (Nat.dvd_mul_left p.dataWords left), count]
        exact Nat.dvd_mul_left _ _
      exact Nat.le_of_dvd some multiple
    refine ⟨e, ?_, ?_⟩
    · obtain ⟨w, ws, rfl⟩ := List.exists_cons_of_ne_nil nonempty
      have whole := run.trans (opening.trans run')
      simpa [packetStream] using whole
    · have size : p.dataBytes - 1 < (wordBytes full).length := by
        rw [length_wordBytes, MamParams.dataBytes]
        omega
      refine ⟨(wordBytes full)[p.dataBytes - 1], ?_⟩
      rw [inv₂.memory]
      simp only [MamMemory.written, List.mem_append]
      right
      rw [mem_bytesAt, cursor]
      exact ⟨_, rfl, List.getElem?_eq_getElem size⟩

/-! Every packet of the host is a plain one. -/

theorem packet_plain {mem : MemoryDescriptor} {payload sent : List Word} (packed : packet mem payload = some sent) :
    IsPlain sent := by
  rw [packet] at packed
  split at packed
  · cases packed
  · cases Option.some.inj packed
    exact isPlain_packet _ _

theorem mapM_packet_plain {mem : MemoryDescriptor} {payloads packets : List (List Word)}
    (packed : payloads.mapM (packet mem) = some packets) : ∀ sent ∈ packets, IsPlain sent := by
  induction payloads generalizing packets with
  | nil =>
    cases Option.some.inj packed
    simp
  | cons payload payloads ih =>
    rw [List.mapM_cons] at packed
    obtain ⟨sent, first, packed⟩ := Option.bind_eq_some_iff.mp packed
    obtain ⟨rest, others, packed⟩ := Option.bind_eq_some_iff.mp packed
    cases Option.some.inj packed
    intro q member
    rw [List.mem_cons] at member
    obtain rfl | member := member
    · exact packet_plain first
    · exact ih others q member

theorem memory_write_single_plain {mem : MemoryDescriptor}
    (called : memory_write_single mem addr data offset size = some packets) : ∀ sent ∈ packets, IsPlain sent := by
  obtain ⟨head, -, called⟩ := Option.bind_eq_some_iff.mp called
  obtain ⟨bytes, -, called⟩ := Option.bind_eq_some_iff.mp called
  obtain ⟨content, -, called⟩ := Option.bind_eq_some_iff.mp called
  obtain ⟨sent, packed, called⟩ := Option.bind_eq_some_iff.mp called
  cases Option.some.inj called
  intro q member
  rw [List.mem_singleton] at member
  subst member
  exact packet_plain packed

theorem memory_write_bulk_plain {mem : MemoryDescriptor}
    (called : memory_write_bulk mem addr data offset size = some packets) : ∀ sent ∈ packets, IsPlain sent := by
  rw [memory_write_bulk] at called
  split at called
  · cases Option.some.inj called
    simp
  · obtain ⟨head, -, called⟩ := Option.bind_eq_some_iff.mp called
    obtain ⟨start, first, called⟩ := Option.bind_eq_some_iff.mp called
    obtain ⟨bytes, -, called⟩ := Option.bind_eq_some_iff.mp called
    obtain ⟨body, others, called⟩ := Option.bind_eq_some_iff.mp called
    cases Option.some.inj called
    intro q member
    rw [List.mem_cons] at member
    obtain rfl | member := member
    · exact packet_plain first
    · exact mapM_packet_plain others q member

theorem forEach_all {α : Type} {P : α → Prop} {call : Nat → Option (List α)} {starts : List Nat} {results : List α}
    (each : ∀ i result, call i = some result → ∀ a ∈ result, P a) (looped : forEach call starts = some results) :
    ∀ a ∈ results, P a := by
  induction starts generalizing results with
  | nil =>
    cases Option.some.inj looped
    simp
  | cons i starts ih =>
    obtain ⟨first, called, looped⟩ := Option.bind_eq_some_iff.mp looped
    obtain ⟨rest, others, looped⟩ := Option.bind_eq_some_iff.mp looped
    cases Option.some.inj looped
    intro a member
    exact (List.mem_append.mp member).elim (each i first called a) (ih others a)

theorem osd_memory_write_parts {mem : MemoryDescriptor} (called : osd_memory_write mem addr data = some packets) :
    ∃ prolog bulk epilog, packets = prolog ++ bulk ++ epilog
      ∧ (let parts := calculate_parts addr data.length (blocksize mem)
        (if parts.prolog = 0 then some [] else memory_write_single mem addr data 0 parts.prolog) = some prolog
        ∧ (if parts.bulk = 0 then some []
          else forEach (fun i => memory_write_bulk mem (addr + parts.prolog + i) data (parts.prolog + i)
            (chunkSize data.length parts.bulk i)) (chunkStarts data.length)) = some bulk
        ∧ (if parts.epilog = 0 then some []
          else memory_write_single mem (addr + parts.prolog + parts.bulk) data (parts.prolog + parts.bulk)
            parts.epilog) = some epilog) := by
  obtain ⟨prolog, first, called⟩ := Option.bind_eq_some_iff.mp called
  obtain ⟨bulk, second, called⟩ := Option.bind_eq_some_iff.mp called
  obtain ⟨epilog, third, called⟩ := Option.bind_eq_some_iff.mp called
  cases Option.some.inj called
  exact ⟨prolog, bulk, epilog, rfl, first, second, third⟩

theorem osd_memory_write_plain {mem : MemoryDescriptor} (called : osd_memory_write mem addr data = some packets) :
    ∀ sent ∈ packets, IsPlain sent := by
  obtain ⟨prolog, bulk, epilog, rfl, first, second, third⟩ := osd_memory_write_parts called
  intro q member
  rw [List.mem_append, List.mem_append] at member
  obtain (member | member) | member := member
  · split at first
    · cases Option.some.inj first
      cases member
    · exact memory_write_single_plain first q member
  · split at second
    · cases Option.some.inj second
      cases member
    · exact forEach_all (P := IsPlain) (fun _ _ each => memory_write_bulk_plain each) second q member
  · split at third
    · cases Option.some.inj third
      cases member
    · exact memory_write_single_plain third q member

/-! The bulk of an access that ends inside of a word. -/

/-- The chunks of the greatest length, whatever the length of the bulk. -/
theorem fullChunks_transfer (served : p.Served) (modaddr : Word) (aligned : p.dataBytes ∣ addr) (bulk : Nat)
    (bound : addr + data.length ≤ 2 ^ (16 * p.addrWords)) {n k : Nat} (inside : (k + n) * BULK_MAX ≤ data.length) :
    ∃ packets, forEach (fun i => memory_write_bulk (p.descriptor modaddr) (addr + i) data i
        (chunkSize data.length bulk i)) ((List.range' k n).map fun j => j * BULK_MAX) = some packets
      ∧ Transfers p packets (addr + k * BULK_MAX) ((data.drop (k * BULK_MAX)).take (n * BULK_MAX)) := by
  induction n generalizing k with
  | zero =>
    refine ⟨[], rfl, ?_⟩
    rw [Nat.zero_mul, List.take_zero]
    exact .nil p _
  | succ n ih =>
    have positive : 0 < BULK_MAX := by decide
    have room : k * BULK_MAX + BULK_MAX + n * BULK_MAX ≤ data.length := by
      rw [Nat.add_mul, Nat.succ_mul] at inside
      omega
    have length : chunkSize data.length bulk (k * BULK_MAX) = BULK_MAX := if_neg (by omega)
    obtain ⟨packets, called, transfers⟩ := memory_write_bulk_transfers served modaddr
      (Nat.dvd_add aligned (Nat.dvd_mul_left_of_dvd (dvd_BULK_MAX served) k)) (by omega) positive
      (dvd_BULK_MAX served) (Nat.le_refl _) (show k * BULK_MAX + BULK_MAX ≤ data.length by omega)
    obtain ⟨rest, looped, transfers'⟩ := ih (k := k + 1)
      (by rw [show k + 1 + n = k + (n + 1) by omega]; exact inside)
    refine ⟨packets ++ rest, ?_, ?_⟩
    · rw [List.range'_succ, List.map_cons, forEach, length, called, looped]
      rfl
    · have whole : ((data.drop (k * BULK_MAX)).take BULK_MAX).length = BULK_MAX := by
        rw [List.length_take, List.length_drop]
        omega
      rw [Nat.succ_mul, Nat.add_comm (n * BULK_MAX), List.take_add, List.drop_drop, ← Nat.succ_mul]
      apply transfers.append
      rwa [whole, Nat.add_assoc, ← Nat.succ_mul]

theorem forEach_append {α : Type} {call : Nat → Option (List α)} {first second : List Nat} {results : List α}
    (looped : forEach call (first ++ second) = some results) :
    ∃ before after, forEach call first = some before ∧ forEach call second = some after ∧ results = before ++ after := by
  induction first generalizing results with
  | nil => exact ⟨[], results, rfl, looped, rfl⟩
  | cons i first ih =>
    obtain ⟨one, called, looped⟩ := Option.bind_eq_some_iff.mp looped
    obtain ⟨rest, others, looped⟩ := Option.bind_eq_some_iff.mp looped
    cases Option.some.inj looped
    obtain ⟨before, after, first', second', rfl⟩ := ih others
    refine ⟨one ++ before, after, ?_, second', (List.append_assoc _ _ _).symm⟩
    rw [forEach, called, first']
    rfl

theorem chunkStarts_split (size : Nat) :
    chunkStarts size = (List.range' 0 (size / BULK_MAX)).map (fun j => j * BULK_MAX)
      ++ if size % BULK_MAX = 0 then [] else [size / BULK_MAX * BULK_MAX] := by
  rw [chunkStarts, ← List.range_eq_range']
  split
  · rename_i none
    have count : (size + BULK_MAX - 1) / BULK_MAX = size / BULK_MAX := by
      simp only [BULK_MAX] at none ⊢
      omega
    rw [count, List.append_nil]
  · rename_i some
    have count : (size + BULK_MAX - 1) / BULK_MAX = size / BULK_MAX + 1 := by
      simp only [BULK_MAX] at some ⊢
      omega
    rw [count, List.range_succ, List.map_append]
    rfl

/-- The host leaves out a chunk whose length is negative. -/
theorem memory_write_bulk_long (mem : MemoryDescriptor) (long : BULK_MAX < size) :
    memory_write_bulk mem addr data offset size = some [] := by
  rw [memory_write_bulk, if_pos long]
  rfl

theorem memory_write_bulk_empty (served : p.Served) (modaddr : Word) (inside : offset ≤ data.length) :
    memory_write_bulk (p.descriptor modaddr) addr data offset 0 =
      some [modaddr :: 0x4000#16 :: 0xc000#16 :: (List.range p.addrWords).map (addrSlices addr)] := by
  have few := served.few
  have long := served.long
  have head : packet (p.descriptor modaddr) (0xc000#16 :: (List.range p.addrWords).map (addrSlices addr)) =
      some (modaddr :: 0x4000#16 :: 0xc000#16 :: (List.range p.addrWords).map (addrSlices addr)) :=
    packet_descriptor (by simp only [List.length_cons, List.length_map, List.length_range]; omega)
  have control : 0xc000#16 ||| BitVec.ofNat 16 (0 / p.dataBytes) = 0xc000#16 := by rw [Nat.zero_div]; rfl
  rw [memory_write_bulk, if_neg (by decide)]
  simp only [blocksize_descriptor, control, header_descriptor few, slice_eq (show offset + 0 ≤ data.length from inside),
    Option.bind_eq_bind, Option.bind_some, head, List.take_zero]
  rfl

variable {bulk : List (List Word)}

/-- Behind the bulk the memory gets a byte beyond the end of the access. -/
theorem epilog_strays (served : p.Served) (big : p.endian = true) (modaddr : Word) (aligned : p.dataBytes ∣ addr)
    (bound : addr + data.length ≤ 2 ^ (16 * p.addrWords)) (long : p.dataBytes ≤ data.length)
    (rest : 0 < data.length % p.dataBytes)
    (looped : forEach (fun i => memory_write_bulk (p.descriptor modaddr) (addr + i) data i
      (chunkSize data.length (data.length - data.length % p.dataBytes) i)) (chunkStarts data.length) = some bulk)
    (called : memory_write_single (p.descriptor modaddr) (addr + (data.length - data.length % p.dataBytes)) data
      (data.length - data.length % p.dataBytes) (data.length % p.dataBytes) = some packets)
    {c : MamCore} (phase : c.mam.phase = .inactive) (serves : c.memory.Serves p) :
    ∃ d, MamCore.Leads p c (packetStream (bulk ++ packets)) d
      ∧ ∃ v, (addr + (data.length - data.length % p.dataBytes) + (p.dataBytes - 1), v) ∈ d.memory.updates := by
  have bytes : 2 ≤ p.dataBytes ∧ p.dataBytes ≤ 8 := by
    rcases served.data with one | two | four <;> simp only [MamParams.dataBytes] <;> omega
  have epilog : data.length % p.dataBytes < p.dataBytes := Nat.mod_lt _ (by omega)
  have whole : p.dataBytes ∣ data.length - data.length % p.dataBytes := Nat.dvd_sub_mod data.length
  have aligned' := Nat.dvd_add aligned whole
  generalize data.length % p.dataBytes = e at *
  generalize total : data.length - e = size at *
  have start : (addr + size) % p.dataBytes = 0 := Nat.mod_eq_zero_of_dvd aligned'
  rw [chunkStarts_split] at looped
  obtain ⟨full, tail, first, last, rfl⟩ := forEach_append looped
  obtain ⟨full', looped', transfers⟩ := fullChunks_transfer (k := 0)
    (n := data.length / BULK_MAX) served modaddr aligned size bound
    (by rw [Nat.zero_add]; exact Nat.div_mul_le_self _ _)
  cases Option.some.inj (looped'.symm.trans first)
  obtain ⟨c₁, run, phase₁, place₁, -⟩ := transfers.writes c phase serves
  have serves₁ := serves.of_place place₁
  -- An inactive module takes the epilog for what it is.
  have single : ∀ {c : MamCore}, c.mam.phase = .inactive → c.memory.Serves p →
      ∃ d, MamCore.Leads p c (packetStream packets) d
        ∧ ∃ v, (addr + size + (p.dataBytes - 1), v) ∈ d.memory.updates := by
    intro c phase serves
    have strays := single_strays served big (by omega) called (k := p.dataBytes - 1) (by omega) (by omega) (by omega)
      phase serves
    rwa [start, Nat.sub_zero] at strays
  have divided := Nat.div_add_mod data.length BULK_MAX
  rw [Nat.mul_comm] at divided
  rw [packetStream_append, packetStream_append, List.append_assoc]
  split at last
  · cases Option.some.inj last
    obtain ⟨d, run', strays⟩ := single phase₁ serves₁
    exact ⟨d, run.trans run', strays⟩
  · rename_i some
    have below : data.length % BULK_MAX < BULK_MAX := Nat.mod_lt _ (by decide)
    have length : chunkSize data.length size (data.length / BULK_MAX * BULK_MAX) =
        (size + 2 ^ 64 - data.length / BULK_MAX * BULK_MAX) % 2 ^ 64 := if_pos (by omega)
    have bulkMax : BULK_MAX = 16128 := rfl
    obtain ⟨one, written, last⟩ := Option.bind_eq_some_iff.mp last
    cases Option.some.inj last
    rw [List.append_nil]
    simp only [length] at written
    obtain less | equal | more := Nat.lt_trichotomy (data.length % BULK_MAX) e
    · -- The difference is negative, and the host sends nothing.
      rw [memory_write_bulk_long _ (by omega)] at written
      cases Option.some.inj written
      obtain ⟨d, run', strays⟩ := single phase₁ serves₁
      exact ⟨d, run.trans run', strays⟩
    · -- The chunk is empty: the epilog becomes the data of the burst.
      have none : (size + 2 ^ 64 - data.length / BULK_MAX * BULK_MAX) % 2 ^ 64 = 0 := by omega
      have place : data.length / BULK_MAX * BULK_MAX = size := by omega
      rw [none, place, memory_write_bulk_empty served modaddr (by omega)] at written
      cases Option.some.inj written
      obtain ⟨body, -, words, rfl⟩ := memory_write_single_eq served called
      have few := served.few
      have narrow : p.dataWords ≤ 4 := by rcases served.data with one | two | four <;> omega
      have size' : ((0x8000#16 ||| strobe (p.descriptor modaddr) ((addr + size) % p.dataBytes) e)
          :: ((List.range p.addrWords).map (addrSlices (addr + size - (addr + size) % p.dataBytes)) ++ body)).length
          = 1 + p.addrWords + p.dataWords := by
        simp only [List.length_cons, List.length_append, List.length_map, List.length_range, words]
        omega
      obtain ⟨d, run', strays⟩ := empty_chunk_strays served modaddr aligned' (by omega) _
        (by rw [size']; omega) (by rw [size']; omega) phase₁ serves₁
      refine ⟨d, run.trans ?_, strays⟩
      rw [← packetStream_append]
      exact run'
    · -- The last chunk is of whole words.
      have rest' : (size + 2 ^ 64 - data.length / BULK_MAX * BULK_MAX) % 2 ^ 64 =
          size - data.length / BULK_MAX * BULK_MAX := by omega
      obtain ⟨chunk, written', transfers'⟩ := memory_write_bulk_transfers served modaddr
        (Nat.dvd_add aligned (Nat.dvd_mul_left_of_dvd (dvd_BULK_MAX served) (data.length / BULK_MAX))) (by omega) (by omega)
        (Nat.dvd_sub whole (Nat.dvd_mul_left_of_dvd (dvd_BULK_MAX served) (data.length / BULK_MAX))) (by omega)
        (show data.length / BULK_MAX * BULK_MAX + (size - data.length / BULK_MAX * BULK_MAX) ≤ data.length by omega)
      rw [rest', written'] at written
      cases Option.some.inj written
      obtain ⟨c₂, run', phase₂, place₂, -⟩ := transfers'.writes c₁ phase₁ serves₁
      obtain ⟨d, run'', strays⟩ := single phase₂ (serves₁.of_place place₂)
      exact ⟨d, run.trans (run'.trans run''), strays⟩

end Memory

end LowRisc.Debug
