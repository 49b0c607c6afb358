import LowRisc.Debug.MamStrays

/-! When host and module agree on a memory access.

The packets of `osd_memory_write` make the module write exactly the given bytes, and
`osd_memory_read` returns exactly the bytes of the memory, if and only if the access is of
whole words: the strobe of a single write counts its bytes from the wrong end of the word,
short reads start at an address between two words, and the loop over the bulk is led by the
size of the whole access.
-/

set_option autoImplicit false

namespace LowRisc.Debug

open LowRisc.Lib

/-- Every update of the memory stores a byte of `data` in its place. -/
def Within (addr : Nat) (data : List Byte) (updates : List (Nat × Byte)) : Prop :=
  ∀ u ∈ updates, ∃ i, u.1 = addr + i ∧ data[i]? = some u.2

/-- No byte of the range is left out. -/
def Covers (addr : Nat) (data : List Byte) (updates : List (Nat × Byte)) : Prop :=
  ∀ i < data.length, ∃ u ∈ updates, u.1 = addr + i

/-- Host and module agree on the access: whatever the stalls, a run can always be completed,
it writes the given bytes and nothing else, and reading stores the bytes of the memory. -/
structure Agrees (p : MamParams) (modaddr : Word) (addr : Nat) (data : List Byte) : Prop where
  write : ∃ packets, Memory.osd_memory_write (p.descriptor modaddr) addr data = some packets
    ∧ ∀ s t : MamSystem, s.OnReset p (packetStream packets) → Steps (MamSystem.clock p) anyEvent s t →
      Within addr data t.memory.updates ∧ (t.Done → Covers addr data t.memory.updates)
      ∧ ∃ u, Steps (MamSystem.clock p) anyEvent t u ∧ u.Done
  read : ∃ requests, Memory.readRequests (p.descriptor modaddr) addr data.length = some requests
    ∧ ∀ (s t : MamSystem) (buffer : List Byte), s.OnReset p (packetStream requests) →
      Steps (MamSystem.clock p) anyEvent s t → buffer.length = data.length →
      (t.Done → Memory.osd_memory_read (p.descriptor modaddr) addr buffer (received t.sent) =
        some (Memory.bytesFrom s.memory.initial addr data.length))
      ∧ ∃ u, Steps (MamSystem.clock p) anyEvent t u ∧ u.Done

variable {p : MamParams} {modaddr : Word} {addr : Nat} {data : List Byte}

theorem bytesAt_within (addr : Nat) (data : List Byte) : Within addr data (bytesAt addr data) :=
  fun _ member => mem_bytesAt.mp member

theorem bytesAt_covers (addr : Nat) (data : List Byte) : Covers addr data (bytesAt addr data) := by
  intro i inside
  exact ⟨(addr + i, data[i]), mem_bytesAt.mpr ⟨i, rfl, List.getElem?_eq_getElem inside⟩, rfl⟩

theorem listening_of_inactive {d : MamCore} (ends : d.mam.phase = .inactive) : d.listening = true := by
  simp [MamCore.listening, Mam.dp_in_ready, ends]

theorem Transfers.agrees {packets : List (List Word)} (transfers : Transfers p packets addr data) {s t : MamSystem}
    (reset : s.OnReset p (packetStream packets)) (run : Steps (MamSystem.clock p) anyEvent s t) :
    Within addr data t.memory.updates ∧ (t.Done → Covers addr data t.memory.updates)
      ∧ ∃ u, Steps (MamSystem.clock p) anyEvent t u ∧ u.Done := by
  obtain ⟨d, leads, ends, -, updates⟩ := transfers.writes s.core reset.phase reset.serves
  have start : s.core.memory.updates = [] := reset.updates
  rw [start, List.nil_append] at updates
  have heads := (reset.heads transfers.plain leads (listening_of_inactive ends)).run run
  have final : ∀ {u : MamSystem}, Steps (MamSystem.clock p) anyEvent t u → u.Done →
      u.memory.updates = bytesAt addr data := by
    intro u more done
    have same := ((heads.run more).done done).memory
    rw [← updates, same]
    rfl
  obtain ⟨u, more, done⟩ := heads.completes ends
  refine ⟨?_, ?_, u, more, done⟩
  · intro update member
    apply bytesAt_within addr data update
    rw [← final more done]
    exact (MamSystem.updates_grow more).subset member
  · intro done'
    rw [final (.refl t) done']
    exact bytesAt_covers addr data

theorem Answers.arrive {requests : List (List Word)} {answer : Answer} (answers : Answers p requests answer)
    {s t : MamSystem} (reset : s.OnReset p (packetStream requests)) (run : Steps (MamSystem.clock p) anyEvent s t) :
    (t.Done → received t.sent = answer s.memory.place s.memory.initial)
      ∧ ∃ u, Steps (MamSystem.clock p) anyEvent t u ∧ u.Done := by
  obtain ⟨d, leads, ends, -, -, sent⟩ := answers.sends s.core reset.phase
  have content : s.core.memory.content = s.memory.initial := by
    have start : s.core.memory.updates = [] := reset.updates
    rw [MamMemory.content, start]
    rfl
  have silent : s.core.sent = [] := by
    have log : s.layer.log = [] := reset.layer.2.2.2.2.2.1
    show s.layer.log.map Prod.snd = []
    rw [log]
    rfl
  have heads := (reset.heads answers.plain leads (listening_of_inactive ends)).run run
  refine ⟨fun done => ?_, heads.completes ends⟩
  have same : t.sent = d.sent := ((heads.done done).sent).symm
  rw [same, sent, silent, List.nil_append, content]
  exact received_packetStream (answers.whole _ _)

theorem agrees_of_aligned (served : p.Served) (modaddr : Word) (some : data ≠ [])
    (bound : addr + data.length ≤ 2 ^ (16 * p.addrWords)) (aligned : p.dataBytes ∣ addr)
    (whole : p.dataBytes ∣ data.length) : Agrees p modaddr addr data := by
  have positive := List.length_pos_of_ne_nil some
  obtain ⟨packets, written, transfers⟩ :=
    Memory.osd_memory_write_transfers served modaddr aligned whole positive bound
  obtain ⟨requests, answer, asked, answers, reads⟩ :=
    Memory.osd_memory_read_answers served modaddr aligned whole positive bound
  refine ⟨⟨packets, written, fun s t reset run => transfers.agrees reset run⟩,
    requests, asked, fun s t buffer reset run length => ?_⟩
  obtain ⟨arrived, completes⟩ := answers.arrive reset run
  refine ⟨fun done => ?_, completes⟩
  rw [arrived done]
  exact reads s.memory.place s.memory.initial buffer reset.serves length

/-! No other access agrees. -/

/-- The module in reset before a memory that ignores the address bits below a word. -/
def resetSystem (p : MamParams) (flits : List Flit) (content : Nat → Byte) : MamSystem where
  layer :=
    { layer :=
        { demux := ⟨⟨false, 0⟩, false, false, false⟩
          reg := ⟨.idle, false, 0, 0, 0, 0, false, true⟩
          mux := .noworm }
      pending := flits
      log := []
      answers := [] }
  mam := ⟨.inactive, 0, 0, false, false, 0, false, false, fun _ => 0, fun _ => 0, 0⟩
  memory := ⟨fun a => a / p.dataBytes * p.dataBytes, content, [], 0⟩

theorem onReset_resetSystem (p : MamParams) (flits : List Flit) (content : Nat → Byte) :
    (resetSystem p flits content).OnReset p flits :=
  ⟨⟨rfl, rfl, rfl, rfl, rfl, rfl, rfl⟩, rfl, rfl, rfl, fun _ aligned => Nat.div_mul_cancel aligned⟩

/-- What the first packets make the module write must lie in the range. -/
theorem Agrees.within {packets first rest : List (List Word)} {a : Nat} (agrees : Agrees p modaddr addr data)
    (called : Memory.osd_memory_write (p.descriptor modaddr) addr data = some packets) (split : packets = first ++ rest)
    (strays : ∀ {c : MamCore}, c.mam.phase = .inactive → c.memory.Serves p →
      ∃ d, MamCore.Leads p c (packetStream first) d ∧ ∃ v, (a, v) ∈ d.memory.updates) :
    addr ≤ a ∧ a < addr + data.length := by
  obtain ⟨packets', called', runs⟩ := agrees.write
  cases Option.some.inj (called.symm.trans called')
  have plain := Memory.osd_memory_write_plain called
  let s := resetSystem p (packetStream packets) fun _ => 0
  have reset : s.OnReset p (packetStream packets) := onReset_resetSystem p _ _
  obtain ⟨quiet, ahead⟩ := reset.quiet plain
  obtain ⟨d, leads, v, member⟩ := strays (c := s.core) rfl reset.serves
  rw [split, packetStream_append] at ahead
  obtain ⟨t, steps, -, alike⟩ := MamSystem.follows leads quiet (.refl _) ahead
  obtain ⟨within, -⟩ := runs s t reset steps
  have memory : d.memory = t.memory := alike.memory
  rw [memory] at member
  obtain ⟨i, place, byte⟩ := within _ member
  obtain ⟨inside, -⟩ := List.getElem?_eq_some_iff.mp byte
  simp only at place
  omega

/-- The host can send its header only for up to four address words. -/
theorem few_of_header {control : Word} {head : List Word}
    (called : Memory.header (p.descriptor modaddr) control addr = some head) : p.addrWords ≤ 4 := by
  rw [Memory.header, Memory.hlen_descriptor] at called
  split at called
  · cases called
  · omega

theorem few_of_single {offset size : Nat} {packets : List (List Word)}
    (called : Memory.memory_write_single (p.descriptor modaddr) addr data offset size = some packets) :
    p.addrWords ≤ 4 := by
  obtain ⟨head, called, -⟩ := Option.bind_eq_some_iff.mp called
  exact few_of_header called

theorem few_of_bulk {offset size : Nat} {packets : List (List Word)} (short : size ≤ Memory.BULK_MAX)
    (called : Memory.memory_write_bulk (p.descriptor modaddr) addr data offset size = some packets) :
    p.addrWords ≤ 4 := by
  rw [Memory.memory_write_bulk, if_neg (Nat.not_lt.mpr short)] at called
  obtain ⟨head, called, -⟩ := Option.bind_eq_some_iff.mp called
  exact few_of_header called

theorem Agrees.few (agrees : Agrees p modaddr addr data) (some : data ≠ []) : p.addrWords ≤ 4 := by
  obtain ⟨packets, called, -⟩ := agrees.write
  have positive := List.length_pos_of_ne_nil some
  obtain ⟨prolog, bulk, epilog, -, first, second, third⟩ := Memory.osd_memory_write_parts called
  split at first
  · rename_i noProlog
    split at second
    · -- Only the epilog is left, and it is not empty.
      rename_i noBulk
      rw [if_neg] at third
      · exact few_of_single third
      · intro noEpilog
        by_cases short : data.length < Memory.blocksize (p.descriptor modaddr)
        · simp only [Memory.calculate_parts, if_pos short] at noProlog
          omega
        · simp only [Memory.calculate_parts, if_neg short] at noProlog noBulk noEpilog
          omega
    · -- The loop over the bulk calls at least once.
      obtain ⟨count, starts⟩ : ∃ count, (data.length + Memory.BULK_MAX - 1) / Memory.BULK_MAX = count + 1 := by
        refine ⟨(data.length + Memory.BULK_MAX - 1) / Memory.BULK_MAX - 1, ?_⟩
        simp only [Memory.BULK_MAX]
        omega
      rw [Memory.chunkStarts, starts, List.range_succ_eq_map, List.map_cons] at second
      obtain ⟨chunk, called, -⟩ := Option.bind_eq_some_iff.mp second
      refine few_of_bulk ?_ called
      simp only [Memory.chunkSize, Memory.calculate_parts]
      split
      · rename_i short
        simp only [Memory.BULK_MAX] at short ⊢
        split <;> simp only <;> omega
      · exact Nat.le_refl _
  · exact few_of_single first

/-- A prolog hits the lowest byte of its word. -/
theorem Agrees.aligned (agrees : Agrees p modaddr addr data) (served : p.Served) (big : p.endian = true)
    (bound : addr + data.length ≤ 2 ^ (16 * p.addrWords)) (long : p.dataBytes ≤ data.length) : p.dataBytes ∣ addr := by
  by_contra between
  have rest : 0 < addr % p.dataBytes := Nat.pos_of_ne_zero fun zero => between (Nat.dvd_of_mod_eq_zero zero)
  have bytes : 2 ≤ p.dataBytes := by rcases served.data with one | two | four <;> simp only [MamParams.dataBytes] <;> omega
  have below : addr % p.dataBytes < p.dataBytes := Nat.mod_lt _ (by omega)
  have range : 2 ^ (16 * p.addrWords) ≤ 2 ^ 64 := Nat.pow_le_pow_right (by omega) (by have := served.few; omega)
  have length : (p.dataBytes + 2 ^ 64 - addr) % 2 ^ 64 % p.dataBytes = p.dataBytes - addr % p.dataBytes := by
    rcases served.data with one | two | four
    · simp only [MamParams.dataBytes, one] at *; omega
    · simp only [MamParams.dataBytes, two] at *; omega
    · simp only [MamParams.dataBytes, four] at *; omega
  obtain ⟨packets, called, -⟩ := agrees.write
  obtain ⟨prolog, bulk, epilog, split, first, -, -⟩ := Memory.osd_memory_write_parts called
  rw [Memory.blocksize_descriptor, Memory.calculate_parts, if_neg (Nat.not_lt.mpr long)] at first
  simp only [length] at first
  rw [if_neg (by omega)] at first
  obtain ⟨low, -⟩ := agrees.within called (split.trans (List.append_assoc _ _ _)) fun phase serves =>
    Memory.single_strays served big (by omega) first (k := 0) (by omega) (by omega) (by omega) phase serves
  have start := Nat.mod_le addr p.dataBytes
  omega

/-- An epilog hits the highest byte of its word. -/
theorem Agrees.whole (agrees : Agrees p modaddr addr data) (served : p.Served) (big : p.endian = true)
    (bound : addr + data.length ≤ 2 ^ (16 * p.addrWords)) (long : p.dataBytes ≤ data.length)
    (aligned : p.dataBytes ∣ addr) : p.dataBytes ∣ data.length := by
  by_contra between
  have rest : 0 < data.length % p.dataBytes := Nat.pos_of_ne_zero fun zero => between (Nat.dvd_of_mod_eq_zero zero)
  have bytes : 2 ≤ p.dataBytes := by rcases served.data with one | two | four <;> simp only [MamParams.dataBytes] <;> omega
  have below : data.length % p.dataBytes < p.dataBytes := Nat.mod_lt _ (by omega)
  have less : data.length % p.dataBytes ≤ data.length := Nat.mod_le _ _
  have prologLength : (p.dataBytes + 2 ^ 64 - addr) % 2 ^ 64 % p.dataBytes = 0 := by
    rw [Nat.mod_mod_of_dvd _ (Memory.dvd_two_pow_64 served)]
    exact Nat.mod_eq_zero_of_dvd (Nat.dvd_sub (Nat.dvd_add (Nat.dvd_refl _) (Memory.dvd_two_pow_64 served)) aligned)
  have epilogLength : (addr + data.length) % p.dataBytes = data.length % p.dataBytes := by
    rw [Nat.add_mod, Nat.mod_eq_zero_of_dvd aligned, Nat.zero_add, Nat.mod_mod]
  obtain ⟨packets, called, -⟩ := agrees.write
  obtain ⟨prolog, bulk, epilog, split, first, second, third⟩ := Memory.osd_memory_write_parts called
  simp only [Memory.blocksize_descriptor, Memory.calculate_parts, if_neg (Nat.not_lt.mpr long), prologLength,
    epilogLength, Nat.sub_zero, Nat.add_zero, Nat.zero_add, if_true] at first second third
  cases Option.some.inj first
  rw [if_neg (by omega)] at second third
  have parts : packets = (bulk ++ epilog) ++ [] := split.trans (by simp)
  obtain ⟨-, high⟩ := agrees.within called parts fun phase serves =>
    Memory.epilog_strays served big modaddr aligned bound long rest second third phase serves
  omega

/-- A short write lies in the middle of its word. -/
theorem Agrees.centred (agrees : Agrees p modaddr addr data) (served : p.Served) (big : p.endian = true)
    (some : data ≠ []) (bound : addr + data.length ≤ 2 ^ (16 * p.addrWords)) (short : data.length < p.dataBytes) :
    2 * (addr % p.dataBytes) + data.length = p.dataBytes := by
  have positive := List.length_pos_of_ne_nil some
  have below : addr % p.dataBytes < p.dataBytes := Nat.mod_lt _ (by omega)
  have start := Nat.mod_le addr p.dataBytes
  obtain ⟨packets, called, -⟩ := agrees.write
  obtain ⟨prolog, bulk, epilog, split, first, -, -⟩ := Memory.osd_memory_write_parts called
  rw [Memory.blocksize_descriptor, Memory.calculate_parts, if_pos short, if_neg (by simp only; omega)] at first
  have hit : ∀ {k : Nat}, k < p.dataBytes → addr % p.dataBytes ≤ p.dataBytes - 1 - k →
      p.dataBytes - 1 - k < addr % p.dataBytes + data.length →
      addr % p.dataBytes ≤ k ∧ k < addr % p.dataBytes + data.length := by
    intro k inside low high
    obtain ⟨above, under⟩ := agrees.within called (split.trans (List.append_assoc _ _ _)) fun phase serves =>
      Memory.single_strays served big (by omega) first inside low high phase serves
    omega
  have lowest := hit (k := p.dataBytes - 1 - addr % p.dataBytes) (by omega) (by omega) (by omega)
  by_cases fits : addr % p.dataBytes + data.length ≤ p.dataBytes
  · have highest := hit (k := p.dataBytes - addr % p.dataBytes - data.length) (by omega) (by omega) (by omega)
    omega
  · have top := hit (k := 0) (by omega) (by omega) (by omega)
    omega

/-- A short read takes the last bytes of the word that the memory returns. -/
theorem Agrees.ending (agrees : Agrees p modaddr addr data) (served : p.Served) (some : data ≠ [])
    (short : data.length < p.dataBytes) : addr % p.dataBytes = p.dataBytes - data.length := by
  have positive := List.length_pos_of_ne_nil some
  have words : 0 < p.dataWords := by rcases served.data with one | two | four <;> omega
  let start := (addr + 2 ^ 64 - p.dataBytes + data.length) % 2 ^ 64
  have calls : Memory.readCalls (p.descriptor modaddr) addr data.length =
      [⟨start, p.dataBytes, p.dataBytes - data.length, data.length, 0⟩] := by
    simp only [Memory.readCalls, Memory.blocksize_descriptor, Memory.calculate_parts, if_pos short, if_true,
      if_neg (show ¬ data.length = 0 by omega), List.append_nil]
    rfl
  obtain ⟨request, asked, answers⟩ := Memory.readRequest_answers (n := 1) served modaddr start
    (by omega) (by decide) (show p.dataBytes / p.dataBytes = 1 from Nat.div_self (by omega))
  obtain ⟨requests, called, runs⟩ := agrees.read
  have list : requests = [request] := by
    rw [Memory.readRequests, calls, List.mapM_cons, asked] at called
    exact (Option.some.inj called).symm
  subst list
  let content : Nat → Byte := fun a => if a = addr then 1 else 0
  let s := resetSystem p (packetStream [request]) content
  have reset : s.OnReset p (packetStream [request]) := onReset_resetSystem p _ _
  obtain ⟨t, steps, done⟩ := (answers.arrive reset (.refl s)).2
  have arrived := (answers.arrive reset steps).1 done
  have read := (runs s t (List.replicate data.length 0) reset steps (by simp)).1 done
  -- What the host stores is taken from the word at `word`.
  generalize word : start % 2 ^ (16 * p.addrWords) / p.dataBytes * p.dataBytes = base at *
  have answer : received t.sent = responses p content base (1 * p.dataWords) := by
    rw [arrived, ← word]
    rfl
  have bulk := Memory.memory_read_bulk_responses (p := p) (n := p.dataWords) served.long content base words []
  rw [List.append_nil] at bulk
  have stored : Memory.storeBytes (List.replicate data.length 0) 0
      (((Memory.bytesFrom content base p.dataBytes).drop (p.dataBytes - data.length)).take data.length) =
      .some (Memory.bytesFrom content (base + (p.dataBytes - data.length)) data.length) := by
    rw [Memory.bytesFrom_slice content base (by omega), Memory.storeBytes, if_neg (by simp)]
    simp
  rw [Memory.osd_memory_read, List.length_replicate, calls, answer, Nat.one_mul] at read
  simp only [Memory.runCalls, MamParams.dataBytes, bulk, Option.bind_eq_bind, Option.bind_some] at read
  simp only [MamParams.dataBytes] at stored
  rw [stored] at read
  have first := congrArg List.head? (Option.some.inj read)
  obtain ⟨count, length⟩ : ∃ count, data.length = count + 1 := ⟨data.length - 1, by omega⟩
  rw [length, Memory.bytesFrom, Memory.bytesFrom, List.range_succ_eq_map, List.map_cons, List.map_cons, List.head?_cons,
    List.head?_cons] at first
  simp only [Nat.add_zero] at first
  have same : base + (2 * p.dataWords - (count + 1)) = addr := by
    by_contra other
    have zero : content (base + (2 * p.dataWords - (count + 1))) = 0 := if_neg other
    have one : s.memory.initial addr = 1 := if_pos rfl
    rw [zero, one] at first
    cases Option.some.inj first
  have multiple : base % p.dataBytes = 0 := by rw [← word]; exact Nat.mul_mod_left _ _
  rw [length, ← same, Nat.add_mod, multiple, Nat.zero_add, Nat.mod_mod]
  exact Nat.mod_eq_of_lt (by simp only [MamParams.dataBytes] at short ⊢; omega)

/-- Host and module agree on exactly the accesses of whole words. -/
theorem host_and_mam_agree_iff (p : MamParams) (modaddr : Word) (addr : Nat) (data : List Byte)
    (wide : 0 < p.addrWords) (widths : p.dataWords = 1 ∨ p.dataWords = 2 ∨ p.dataWords = 4) (big : p.endian = true)
    (long : 8 ≤ p.maxPktLen) (some : data ≠ []) (bound : addr + data.length ≤ 2 ^ (16 * p.addrWords)) :
    Agrees p modaddr addr data ↔ p.addrWords ≤ 4 ∧ p.dataBytes ∣ addr ∧ p.dataBytes ∣ data.length := by
  constructor
  · intro agrees
    have few := agrees.few some
    have served : p.Served := ⟨wide, few, widths, long⟩
    have enough : p.dataBytes ≤ data.length := by
      by_contra short
      have centred := agrees.centred served big some bound (by omega)
      have ending := agrees.ending served some (by omega)
      have positive := List.length_pos_of_ne_nil some
      omega
    have aligned := agrees.aligned served big bound enough
    exact ⟨few, aligned, agrees.whole served big bound enough aligned⟩
  · rintro ⟨few, aligned, whole⟩
    exact agrees_of_aligned ⟨wide, few, widths, long⟩ modaddr some bound aligned whole

def mam32 : MamParams := ⟨2, 2, 8, true, 5⟩

/-- Two words at the address of a word. -/
theorem host_and_mam_agree_two_words : Agrees mam32 5 4 [1, 2, 3, 4, 5, 6, 7, 8] :=
  (host_and_mam_agree_iff mam32 5 4 [1, 2, 3, 4, 5, 6, 7, 8] (by decide) (by decide) rfl (by decide) (by decide)
    (by decide)).mpr ⟨by decide, by decide, by decide⟩

/-- Three bytes across the end of a word: they do not fit the block of the single write. -/
theorem not_agrees_across_words : ¬ Agrees mam32 5 2 [1, 2, 3] := by
  intro agrees
  obtain ⟨packets, called, -⟩ := agrees.write
  have refused : Memory.osd_memory_write (mam32.descriptor 5) 2 [1, 2, 3] = none := by decide
  rw [refused] at called
  cases called

end LowRisc.Debug
