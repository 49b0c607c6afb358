import LowRisc.Debug.MamStrays

/-! How `osd_memory_write` and `osd_memory_read` cut an access into calls.

A call touches the bytes of memory that its packets store, or that it puts into the caller's
buffer. Addresses are those of an `uint64_t`.
-/

set_option autoImplicit false

namespace LowRisc.Debug.Memory

/-- A call of `memory_write_bulk` or `memory_write_single`. -/
structure WriteCall where
  bulk : Bool
  addr : Nat
  offset : Nat
  size : Nat
  deriving DecidableEq, Repr

/-- The calls that `osd_memory_write` makes. -/
def writeCalls (mem : MemoryDescriptor) (addr size : Nat) : List WriteCall :=
  let parts := calculate_parts addr size (blocksize mem)
  (if parts.prolog = 0 then [] else [⟨false, addr, 0, parts.prolog⟩])
  ++ (if parts.bulk = 0 then []
    else (chunkStarts size).map fun i =>
      ⟨true, addr + parts.prolog + i, parts.prolog + i, chunkSize size parts.bulk i⟩)
  ++ (if parts.epilog = 0 then []
    else [⟨false, addr + parts.prolog + parts.bulk, parts.prolog + parts.bulk, parts.epilog⟩])

def WriteCall.send (mem : MemoryDescriptor) (data : List Byte) (call : WriteCall) : Option (List (List Word)) :=
  if call.bulk then memory_write_bulk mem call.addr data call.offset call.size
  else memory_write_single mem call.addr data call.offset call.size

def sendAll (mem : MemoryDescriptor) (data : List Byte) : List WriteCall → Option (List (List Word))
  | [] => some []
  | call :: rest => do return (← call.send mem data) ++ (← sendAll mem data rest)

/-- The bytes from `addr` on. -/
def span (addr size : Nat) : List Nat := (List.range size).map fun i => (addr + i) % 2 ^ 64

/-- The bytes of a block that a single write enables. -/
def lanes (mem : MemoryDescriptor) (baddr size : Nat) : List Nat :=
  (List.range (blocksize mem)).filter fun i => (strobe mem baddr size).getLsbD i

/-- A bulk write above `BULK_MAX` is refused, and data travel in words of two bytes. -/
def WriteCall.touched (mem : MemoryDescriptor) (call : WriteCall) : List Nat :=
  if call.bulk then if BULK_MAX < call.size then [] else span call.addr (2 * (call.size / 2))
  else (lanes mem (call.addr % blocksize mem % 256) call.size).map fun i =>
    (call.addr - call.addr % blocksize mem + i) % 2 ^ 64

def WriteCall.used (call : WriteCall) : List Nat :=
  if call.bulk then
    if BULK_MAX < call.size then [] else (List.range (2 * (call.size / 2))).map (call.offset + ·)
  else (List.range call.size).map (call.offset + ·)

/-- Of the bytes that are copied those that the words of the answer hold. -/
def ReadCall.touched (call : ReadCall) : List Nat :=
  ((List.range call.count).filter fun j => call.skip + j < 2 * (call.size / 2)).map fun j =>
    (call.addr + call.skip + j) % 2 ^ 64

def ReadCall.used (call : ReadCall) : List Nat := (List.range call.count).map (call.offset + ·)

/-- Every byte of the range is touched once and no other, the buffer is used inside its bounds,
and the bulk calls have legal sizes. -/
structure Splits (B addr size : Nat) (touched used bulks : List Nat) : Prop where
  once : touched.Perm (span addr size)
  inside : ∀ k ∈ used, k < size
  legal : ∀ s ∈ bulks, 0 < s ∧ B ∣ s ∧ s ≤ BULK_MAX

structure SplitsAccess (mem : MemoryDescriptor) (addr size : Nat) : Prop where
  write : Splits (blocksize mem) addr size ((writeCalls mem addr size).flatMap (WriteCall.touched mem))
    ((writeCalls mem addr size).flatMap WriteCall.used)
    (((writeCalls mem addr size).filter WriteCall.bulk).map WriteCall.size)
  read : Splits (blocksize mem) addr size ((readCalls mem addr size).flatMap ReadCall.touched)
    ((readCalls mem addr size).flatMap ReadCall.used) ((readCalls mem addr size).map ReadCall.size)

/-- A short access stays inside the first eight bytes of one block. For the others, the strobe
reaches the bytes in front of the first whole block and behind the last one, and the access
ends in the first chunk or the rest of it behind the full chunks is longer than these bytes. -/
def WellCut (B addr size : Nat) : Prop :=
  if size < B then addr % B + size ≤ min B 8
  else (B = 1 → size % 2 = 0) ∧ (addr % B = 0 ∨ B ≤ 8) ∧ (addr + size) % B ≤ 8
    ∧ (size < BULK_MAX ∨ B ≤ 256 ∧
      ((B - addr % B) % B + (addr + size) % B = 0 ∨ (B - addr % B) % B + (addr + size) % B < size % BULK_MAX))

/-! The calls are those of the model of the code. -/

theorem sendAll_append (mem : MemoryDescriptor) (data : List Byte) (first second : List WriteCall) :
    sendAll mem data (first ++ second) =
      (sendAll mem data first).bind fun before => (sendAll mem data second).map (before ++ ·) := by
  induction first with
  | nil => simp [sendAll]
  | cons call first ih =>
    simp only [List.cons_append, sendAll, ih]
    cases call.send mem data with
    | none => rfl
    | some packets =>
      cases sendAll mem data first with
      | none => rfl
      | some before =>
        cases sendAll mem data second with
        | none => rfl
        | some after => simp

theorem sendAll_map {mem : MemoryDescriptor} {data : List Byte} (call : Nat → WriteCall) (starts : List Nat) :
    sendAll mem data (starts.map call) = forEach (fun i => (call i).send mem data) starts := by
  induction starts with
  | nil => rfl
  | cons i starts ih => simp only [List.map_cons, sendAll, forEach, ih]

theorem sendAll_singleton (mem : MemoryDescriptor) (data : List Byte) (call : WriteCall) :
    sendAll mem data [call] = call.send mem data := by
  simp only [sendAll]
  cases call.send mem data with
  | none => rfl
  | some packets => simp

/-- What the host sends is what the calls send, in order. -/
theorem osd_memory_write_eq (mem : MemoryDescriptor) (addr : Nat) (data : List Byte) :
    osd_memory_write mem addr data = sendAll mem data (writeCalls mem addr data.length) := by
  simp only [writeCalls, sendAll_append, osd_memory_write, apply_ite (sendAll mem data), sendAll_singleton,
    sendAll_map, WriteCall.send, if_true, Bool.false_eq_true, if_false]
  simp only [sendAll, Option.bind_eq_bind]
  generalize (if (calculate_parts addr data.length (blocksize mem)).prolog = 0 then some []
    else memory_write_single mem addr data 0 _) = prolog
  generalize (if (calculate_parts addr data.length (blocksize mem)).bulk = 0 then some [] else forEach _ _) = bulk
  generalize (if (calculate_parts addr data.length (blocksize mem)).epilog = 0 then some []
    else memory_write_single mem _ data _ _) = epilog
  cases prolog with
  | none => rfl
  | some prolog =>
    cases bulk with
    | none => rfl
    | some bulk =>
      cases epilog with
      | none => rfl
      | some epilog => rfl

/-! Ranges of bytes. -/

@[simp] theorem span_zero (addr : Nat) : span addr 0 = [] := rfl

@[simp] theorem length_span (addr size : Nat) : (span addr size).length = size := by simp [span]

theorem span_add (addr m n : Nat) : span addr (m + n) = span addr m ++ span (addr + m) n := by
  simp only [span, List.range_add, List.map_append, List.map_map]
  congr 1
  apply List.map_congr_left
  intro i _
  simp only [Function.comp_apply, Nat.add_assoc]

theorem span_chunks (addr m n : Nat) :
    ((List.range' 0 n).map fun j => j * m).flatMap (fun i => span (addr + i) m) = span addr (n * m) := by
  induction n with
  | zero => simp
  | succ n ih =>
    rw [List.range'_1_concat, List.map_append, List.flatMap_append, ih, Nat.succ_mul, span_add]
    simp

theorem filter_range (n b c : Nat) :
    (List.range n).filter (fun i => decide (b ≤ i ∧ i < c)) = List.range' b (min n c - b) := by
  induction n with
  | zero => simp
  | succ n ih =>
    rw [List.range_succ, List.filter_append, ih]
    by_cases inside : b ≤ n ∧ n < c
    · rw [List.filter_cons_of_pos (by simpa using inside), List.filter_nil,
        show min (n + 1) c - b = (min n c - b) + 1 by omega, List.range'_1_concat,
        show b + (min n c - b) = n by omega]
    · rw [List.filter_cons_of_neg (by simpa using inside), List.filter_nil, List.append_nil,
        show min (n + 1) c - b = min n c - b by omega]

theorem lanes_eq (mem : MemoryDescriptor) (baddr size : Nat) :
    lanes mem baddr size = List.range' baddr (min (blocksize mem) (min 8 (baddr + size)) - baddr) := by
  rw [lanes, ← filter_range]
  apply List.filter_congr
  intro i member
  rw [getLsbD_strobe, decide_eq_decide]
  have := List.mem_range.mp member
  omega

/-! The parts of a long access. -/

def front (B addr : Nat) : Nat := (B - addr % B) % B

section Parts
variable {B size : Nat} (addr : Nat) (positive : 0 < B)

include positive in
theorem front_lt : front B addr < B := Nat.mod_lt _ positive

include positive in
theorem front_eq : addr % B = 0 ∧ front B addr = 0 ∨ 0 < addr % B ∧ front B addr = B - addr % B := by
  have below := Nat.mod_lt addr positive
  by_cases zero : addr % B = 0
  · exact .inl ⟨zero, by simp [front, zero]⟩
  · exact .inr ⟨by omega, Nat.mod_eq_of_lt (by omega)⟩

include positive in
theorem dvd_front : B ∣ addr + front B addr := by
  have split := Nat.div_add_mod addr B
  rcases front_eq addr positive with ⟨zero, length⟩ | ⟨some, length⟩
  · rw [length, Nat.add_zero]
    exact Nat.dvd_of_mod_eq_zero zero
  · have below := Nat.mod_lt addr positive
    refine ⟨addr / B + 1, ?_⟩
    rw [length, Nat.mul_add]
    omega

include positive in
theorem parts_fit (long : B ≤ size) : front B addr + (addr + size) % B ≤ size := by
  obtain ⟨t, whole⟩ := dvd_front addr positive
  have split := Nat.div_add_mod (addr + size) B
  have below := front_lt addr positive
  -- the first block border at or behind `addr` is not behind the last one
  have order : t ≤ (addr + size) / B := by
    rw [Nat.le_div_iff_mul_le positive, Nat.mul_comm]
    omega
  have := Nat.mul_le_mul_left B order
  omega

include positive in
theorem dvd_bulk (long : B ≤ size) : B ∣ size - front B addr - (addr + size) % B := by
  have fit := parts_fit addr positive long
  have last : B ∣ addr + size - (addr + size) % B := Nat.dvd_sub_mod _
  have gap := Nat.dvd_sub last (dvd_front addr positive)
  rwa [show addr + size - (addr + size) % B - (addr + front B addr) = size - front B addr - (addr + size) % B by
    omega] at gap

include positive in
theorem calculate_parts_long (power : B ∣ 2 ^ 64) (below : addr < 2 ^ 64) (long : B ≤ size) :
    calculate_parts addr size B =
      ⟨front B addr, size - front B addr - (addr + size) % B, (addr + size) % B⟩ := by
  have prolog : (B + 2 ^ 64 - addr) % 2 ^ 64 % B = front B addr := by
    rw [Nat.mod_mod_of_dvd _ power, front]
    obtain ⟨u, whole⟩ := power
    have split := Nat.div_add_mod addr B
    have lane := Nat.mod_lt addr positive
    have order : addr / B ≤ u := by
      rw [whole] at below
      exact (Nat.div_lt_of_lt_mul below).le
    have spread := Nat.mul_sub B u (addr / B)
    have less := Nat.mul_le_mul_left B order
    rw [show B + 2 ^ 64 - addr = B - addr % B + B * (u - addr / B) by omega, Nat.add_mul_mod_self_left]
  rw [calculate_parts, if_neg (Nat.not_lt.mpr long)]
  simp only [prolog]

end Parts

/-! Single writes. -/

variable {mem : MemoryDescriptor} {addr offset size : Nat}

theorem length_touched_single (mem : MemoryDescriptor) (addr offset size : Nat) :
    (WriteCall.touched mem ⟨false, addr, offset, size⟩).length =
      min (blocksize mem) (min 8 (addr % blocksize mem % 256 + size)) - addr % blocksize mem % 256 := by
  simp [WriteCall.touched, lanes_eq]

theorem touched_single (inside : addr % blocksize mem + size ≤ min (blocksize mem) 8) :
    WriteCall.touched mem ⟨false, addr, offset, size⟩ = span addr size := by
  have narrow : addr % blocksize mem % 256 = addr % blocksize mem := Nat.mod_eq_of_lt (by omega)
  have count : min (blocksize mem) (min 8 (addr % blocksize mem + size)) - addr % blocksize mem = size := by omega
  have below : addr % blocksize mem ≤ addr := Nat.mod_le _ _
  simp only [WriteCall.touched, Bool.false_eq_true, if_false, narrow, lanes_eq, count, span]
  rw [List.range'_eq_map_range, List.map_map]
  apply List.map_congr_left
  intro i _
  simp only [Function.comp_apply]
  congr 1
  omega

/-! The chunks of the bulk. -/

section Chunks
variable {B bulk : Nat}

theorem chunkSize_full {j : Nat} (inside : j < size / BULK_MAX) : chunkSize size bulk (j * BULK_MAX) = BULK_MAX := by
  have fits := (Nat.le_div_iff_mul_le (show 0 < BULK_MAX by decide)).mp (Nat.succ_le_of_lt inside)
  rw [Nat.succ_mul] at fits
  exact if_neg (Nat.not_lt.mpr fits)

theorem chunkSize_last (bound : bulk < 2 ^ 64) (small : size / BULK_MAX * BULK_MAX ≤ bulk) :
    chunkSize size bulk (size / BULK_MAX * BULK_MAX) = bulk - size / BULK_MAX * BULK_MAX := by
  have beyond : size < size / BULK_MAX * BULK_MAX + BULK_MAX := by
    have := Nat.div_add_mod' size BULK_MAX
    have := Nat.mod_lt size (show 0 < BULK_MAX by decide)
    omega
  rw [chunkSize, if_pos beyond]
  omega

theorem mem_chunkStarts {i : Nat} (member : i ∈ chunkStarts size) :
    (∃ j < size / BULK_MAX, i = j * BULK_MAX) ∨ size % BULK_MAX ≠ 0 ∧ i = size / BULK_MAX * BULK_MAX := by
  rw [chunkStarts_split] at member
  rcases List.mem_append.mp member with full | rest
  · obtain ⟨j, inside, rfl⟩ := List.mem_map.mp full
    exact .inl ⟨j, by simpa using inside, rfl⟩
  · split at rest
    · cases rest
    · rename_i some
      exact .inr ⟨some, List.mem_singleton.mp rest⟩

structure Cut (size bulk : Nat) : Prop where
  bound : bulk < 2 ^ 64
  fits : size / BULK_MAX * BULK_MAX ≤ bulk
  most : bulk ≤ size
  rest : size % BULK_MAX ≠ 0 → size / BULK_MAX * BULK_MAX < bulk

theorem Cut.legal (cut : Cut size bulk) (whole : size < BULK_MAX ∨ B ∣ BULK_MAX) (blocks : B ∣ bulk) {i : Nat}
    (member : i ∈ chunkStarts size) :
    0 < chunkSize size bulk i ∧ B ∣ chunkSize size bulk i ∧ chunkSize size bulk i ≤ BULK_MAX
      ∧ i + chunkSize size bulk i ≤ bulk := by
  have split := Nat.div_add_mod' size BULK_MAX
  have short := Nat.mod_lt size (show 0 < BULK_MAX by decide)
  rcases mem_chunkStarts member with ⟨j, inside, rfl⟩ | ⟨some, rfl⟩
  · rw [chunkSize_full inside]
    have fits := Nat.mul_le_mul_right BULK_MAX (Nat.succ_le_of_lt inside)
    rw [Nat.succ_mul] at fits
    refine ⟨by decide, ?_, le_rfl, fits.trans cut.fits⟩
    rcases whole with first | whole
    · rw [Nat.div_eq_of_lt first] at inside
      exact absurd inside (Nat.not_lt_zero j)
    · exact whole
  · have rest := cut.rest some
    have most := cut.most
    rw [chunkSize_last cut.bound cut.fits]
    refine ⟨by omega, ?_, by omega, by omega⟩
    apply Nat.dvd_sub blocks
    rcases whole with first | whole
    · rw [Nat.div_eq_of_lt first, Nat.zero_mul]
      exact Nat.dvd_zero B
    · exact Nat.dvd_mul_left_of_dvd whole _

theorem Cut.flatMap_span (cut : Cut size bulk) (addr : Nat) :
    (chunkStarts size).flatMap (fun i => span (addr + i) (chunkSize size bulk i)) = span addr bulk := by
  have full : ((List.range' 0 (size / BULK_MAX)).map fun j => j * BULK_MAX).flatMap
      (fun i => span (addr + i) (chunkSize size bulk i)) = span addr (size / BULK_MAX * BULK_MAX) := by
    rw [← span_chunks]
    apply List.flatMap_congr
    intro i member
    obtain ⟨j, inside, rfl⟩ := List.mem_map.mp member
    rw [chunkSize_full (by simpa using inside)]
  rw [chunkStarts_split, List.flatMap_append, full]
  have fits := cut.fits
  split
  · rename_i none
    have split := Nat.div_add_mod' size BULK_MAX
    have most := cut.most
    rw [List.flatMap_nil, List.append_nil, show size / BULK_MAX * BULK_MAX = bulk by omega]
  · rw [List.flatMap_singleton, chunkSize_last cut.bound cut.fits, ← span_add, Nat.add_sub_cancel' fits]

theorem touched_bulk {mem : MemoryDescriptor} {addr offset s : Nat} (even : 2 ∣ s) (small : s ≤ BULK_MAX) :
    WriteCall.touched mem ⟨true, addr, offset, s⟩ = span addr s := by
  simp [WriteCall.touched, Nat.not_lt.mpr small, Nat.mul_div_cancel' even]

/-- A read call stores all bytes it copies when its words hold them. -/
theorem touched_read {addr s skip count offset : Nat} (even : 2 ∣ s) (inside : skip + count ≤ s) :
    ReadCall.touched ⟨addr, s, skip, count, offset⟩ = span (addr + skip) count := by
  rw [ReadCall.touched, List.filter_eq_self.mpr]
  · rfl
  · intro j member
    have below : j < count := List.mem_range.mp member
    simp only [Nat.mul_div_cancel' even, decide_eq_true_eq]
    omega

end Chunks

/-- What is used of a block size that is a power of two. -/
structure PowerBlock (B : Nat) : Prop where
  positive : 0 < B
  power : B ∣ 2 ^ 64
  small : B ≤ BULK_MAX
  even : B = 1 ∨ 2 ∣ B
  chunk : B ∣ BULK_MAX ↔ B ≤ 256
  wide : B ≤ 256 ∨ 256 ∣ B

/-- `data_width` is an `uint16_t`. -/
theorem powerBlock {k : Nat} (typed : mem.data_width < 2 ^ 16) (power : blocksize mem = 2 ^ k) :
    PowerBlock (blocksize mem) := by
  have bound : blocksize mem < 2 ^ 13 := by
    rw [blocksize, Nat.shiftRight_eq_div_pow]
    omega
  rw [power] at bound ⊢
  have few : k < 13 := (Nat.pow_lt_pow_iff_right (by decide)).mp bound
  have all : ∀ k < 13, 2 ^ k ≤ BULK_MAX ∧ (2 ^ k = 1 ∨ 2 ∣ 2 ^ k) ∧ (2 ^ k ∣ BULK_MAX ↔ 2 ^ k ≤ 256)
      ∧ (2 ^ k ≤ 256 ∨ 256 ∣ 2 ^ k) := by decide
  obtain ⟨small, even, chunk, wide⟩ := all k few
  exact ⟨Nat.two_pow_pos k, Nat.pow_dvd_pow 2 (by omega), small, even, chunk, wide⟩

section Access
variable (block : PowerBlock (blocksize mem)) (below : addr < 2 ^ 64) (positive : 0 < size)

theorem writeCalls_short (positive : 0 < size) (short : size < blocksize mem) :
    writeCalls mem addr size = [⟨false, addr, 0, size⟩] := by
  have parts : calculate_parts addr size (blocksize mem) = ⟨size, 0, 0⟩ := if_pos short
  simp [writeCalls, parts, positive.ne']

theorem readCalls_short (positive : 0 < size) (short : size < blocksize mem) :
    readCalls mem addr size =
      [⟨(addr + 2 ^ 64 - blocksize mem + size) % 2 ^ 64, blocksize mem, blocksize mem - size, size, 0⟩] := by
  have parts : calculate_parts addr size (blocksize mem) = ⟨size, 0, 0⟩ := if_pos short
  simp [readCalls, parts, positive.ne']

include block in
theorem touched_read_front (inside : size ≤ blocksize mem) (even : 2 ∣ blocksize mem) (offset : Nat) :
    ReadCall.touched
      ⟨(addr + 2 ^ 64 - blocksize mem + size) % 2 ^ 64, blocksize mem, blocksize mem - size, size, offset⟩ =
      span addr size := by
  rw [touched_read even (by omega), span, span]
  apply List.map_congr_left
  intro i _
  have small : blocksize mem ≤ 16128 := block.small
  omega

include block positive in
theorem splits_short (short : size < blocksize mem) (inside : addr % blocksize mem + size ≤ min (blocksize mem) 8) :
    SplitsAccess mem addr size := by
  have even : 2 ∣ blocksize mem := block.even.resolve_left (by omega)
  constructor
  · rw [writeCalls_short positive short]
    constructor
    · rw [List.flatMap_singleton, touched_single inside]
    · simp [WriteCall.used]
    · simp
  · rw [readCalls_short positive short]
    constructor
    · rw [List.flatMap_singleton, touched_read_front block short.le even]
    · simp [ReadCall.used]
    · simpa using ⟨block.positive, block.small⟩

/-! The calls of a longer access, with the bytes in front of and behind its whole blocks. -/

structure Pieces (mem : MemoryDescriptor) (addr size P L E : Nat) : Prop where
  sum : P + L + E = size
  start : blocksize mem ∣ addr + P
  blocks : blocksize mem ∣ L
  lead : addr % blocksize mem = 0 ∧ P = 0 ∨ 0 < addr % blocksize mem ∧ P = blocksize mem - addr % blocksize mem
  behind : E < blocksize mem
  writes : writeCalls mem addr size = (if P = 0 then [] else [⟨false, addr, 0, P⟩])
      ++ (if L = 0 then [] else (chunkStarts size).map fun i => ⟨true, addr + P + i, P + i, chunkSize size L i⟩)
      ++ (if E = 0 then [] else [⟨false, addr + P + L, P + L, E⟩])
  reads : readCalls mem addr size =
      (if P = 0 then []
        else [⟨(addr + 2 ^ 64 - blocksize mem + P) % 2 ^ 64, blocksize mem, blocksize mem - P, P, 0⟩])
      ++ (if L = 0 then []
        else (chunkStarts size).map fun i => ⟨addr + P + i, chunkSize size L i, 0, chunkSize size L i, P + i⟩)
      ++ (if E = 0 then [] else [⟨addr + P + L, blocksize mem, 0, E, P + L⟩])

include block below in
theorem pieces_of_long (long : blocksize mem ≤ size) : ∃ L, Pieces mem addr size (front (blocksize mem) addr) L
    ((addr + size) % blocksize mem) := by
  have fit := parts_fit addr block.positive long
  have parts := calculate_parts_long addr block.positive block.power below long
  refine ⟨size - front (blocksize mem) addr - (addr + size) % blocksize mem, ?_⟩
  exact ⟨by omega, dvd_front addr block.positive, dvd_bulk addr block.positive long, front_eq addr block.positive,
    Nat.mod_lt _ block.positive, by simp only [writeCalls, parts], by simp only [readCalls, parts]⟩

theorem flatMap_parts {α : Type} {f : α → List Nat} {first last : α} {chunks : List α} {P L E : Nat}
    (front : 0 < P → f first = span addr P) (middle : 0 < L → chunks.flatMap f = span (addr + P) L)
    (back : 0 < E → f last = span (addr + P + L) E) :
    (((if P = 0 then [] else [first]) ++ (if L = 0 then [] else chunks)) ++ (if E = 0 then [] else [last])).flatMap f =
      span addr (P + L + E) := by
  have one : (if P = 0 then [] else [first]).flatMap f = span addr P := by
    split
    · simp [*]
    · rw [List.flatMap_singleton, front (by omega)]
  have two : (if L = 0 then [] else chunks).flatMap f = span (addr + P) L := by
    split
    · simp [*]
    · rw [middle (by omega)]
  have three : (if E = 0 then [] else [last]).flatMap f = span (addr + P + L) E := by
    split
    · simp [*]
    · rw [List.flatMap_singleton, back (by omega)]
  rw [List.flatMap_append, List.flatMap_append, one, two, three, span_add, span_add, Nat.add_assoc]

theorem mem_parts {α : Type} {x first last : α} {chunks : List α} {P L E : Nat}
    (member : x ∈ ((if P = 0 then [] else [first]) ++ (if L = 0 then [] else chunks))
      ++ (if E = 0 then [] else [last])) :
    0 < P ∧ x = first ∨ 0 < L ∧ x ∈ chunks ∨ 0 < E ∧ x = last := by
  rcases List.mem_append.mp member with front | back
  · rcases List.mem_append.mp front with front | middle
    · split at front
      · cases front
      · exact .inl ⟨by omega, List.mem_singleton.mp front⟩
    · split at middle
      · cases middle
      · exact .inr (.inl ⟨by omega, middle⟩)
  · split at back
    · cases back
    · exact .inr (.inr ⟨by omega, List.mem_singleton.mp back⟩)

theorem cut_of_rest {P L E : Nat} (bound : size < 2 ^ 64) (sum : P + L + E = size) (some : 0 < L)
    (chunks : size < BULK_MAX ∨ P + E = 0 ∨ P + E < size % BULK_MAX) : Cut size L := by
  have split := Nat.div_add_mod' size BULK_MAX
  have first : size < BULK_MAX → size / BULK_MAX * BULK_MAX = 0 := fun small => by
    rw [Nat.div_eq_of_lt small, Nat.zero_mul]
  constructor <;> omega

/-- The bulk is cut into chunks of whole blocks and whole words. -/
structure WellChunked (mem : MemoryDescriptor) (size L : Nat) : Prop where
  cut : Cut size L
  whole : size < BULK_MAX ∨ blocksize mem ∣ BULK_MAX
  blocks : blocksize mem ∣ L
  even : 2 ∣ L

namespace WellChunked

variable {L i : Nat} (chunked : WellChunked mem size L)

include chunked

theorem legal (member : i ∈ chunkStarts size) :
    0 < chunkSize size L i ∧ blocksize mem ∣ chunkSize size L i ∧ chunkSize size L i ≤ BULK_MAX
      ∧ i + chunkSize size L i ≤ L :=
  chunked.cut.legal chunked.whole chunked.blocks member

theorem evenChunk (member : i ∈ chunkStarts size) : 2 ∣ chunkSize size L i :=
  (chunked.cut.legal (.inr (by decide)) chunked.even member).2.1

theorem flatMap_calls {α : Type} {f : α → List Nat} {call : Nat → α}
    (each : ∀ i ∈ chunkStarts size, f (call i) = span (addr + i) (chunkSize size L i)) :
    ((chunkStarts size).map call).flatMap f = span addr L := by
  rw [List.flatMap_map, ← chunked.cut.flatMap_span]
  exact List.flatMap_congr each

end WellChunked

namespace Pieces

variable {P L E : Nat} (pieces : Pieces mem addr size P L E) (chunked : 0 < L → WellChunked mem size L)

include pieces

theorem front_le : P ≤ blocksize mem := by
  rcases pieces.lead with ⟨-, none⟩ | ⟨-, some⟩
  · exact none ▸ Nat.zero_le _
  · omega

theorem lastBlock : (addr + P + L) % blocksize mem = 0 :=
  Nat.mod_eq_zero_of_dvd (Nat.dvd_add pieces.start pieces.blocks)

include chunked

theorem splits_writes (before : P = 0 ∨ blocksize mem ≤ 8) (after : E ≤ 8) :
    Splits (blocksize mem) addr size ((writeCalls mem addr size).flatMap (WriteCall.touched mem))
      ((writeCalls mem addr size).flatMap WriteCall.used)
      (((writeCalls mem addr size).filter WriteCall.bulk).map WriteCall.size) := by
  have sum := pieces.sum
  have last := pieces.lastBlock
  have behind := pieces.behind
  rw [pieces.writes]
  constructor
  · apply List.Perm.of_eq
    rw [flatMap_parts, sum]
    -- the bytes in front of the first block go in one single write
    · intro some
      rcases pieces.lead with ⟨-, none⟩ | ⟨-, length⟩
      · omega
      · exact touched_single (by omega)
    -- the blocks go in chunks
    · intro some
      apply (chunked some).flatMap_calls
      intro i member
      exact touched_bulk ((chunked some).evenChunk member) ((chunked some).legal member).2.2.1
    -- the bytes behind the last block go in one single write
    · intro some
      exact touched_single (by omega)
  · intro k used
    obtain ⟨call, member, used⟩ := List.mem_flatMap.mp used
    rcases mem_parts member with ⟨some, rfl⟩ | ⟨some, member⟩ | ⟨some, rfl⟩
    · simp only [WriteCall.used, Bool.false_eq_true, if_false, List.mem_map, List.mem_range] at used
      omega
    · obtain ⟨i, start, rfl⟩ := List.mem_map.mp member
      have legal := (chunked some).legal start
      simp only [WriteCall.used, if_true, if_neg (Nat.not_lt.mpr legal.2.2.1), List.mem_map, List.mem_range] at used
      omega
    · simp only [WriteCall.used, Bool.false_eq_true, if_false, List.mem_map, List.mem_range] at used
      omega
  · intro s sized
    obtain ⟨call, kept, rfl⟩ := List.mem_map.mp sized
    obtain ⟨member, isBulk⟩ := List.mem_filter.mp kept
    rcases mem_parts member with ⟨some, rfl⟩ | ⟨some, member⟩ | ⟨some, rfl⟩
    · cases isBulk
    · obtain ⟨i, start, rfl⟩ := List.mem_map.mp member
      have legal := (chunked some).legal start
      exact ⟨legal.1, legal.2.1, legal.2.2.1⟩
    · cases isBulk

theorem splits_reads (block : PowerBlock (blocksize mem)) :
    Splits (blocksize mem) addr size ((readCalls mem addr size).flatMap ReadCall.touched)
      ((readCalls mem addr size).flatMap ReadCall.used) ((readCalls mem addr size).map ReadCall.size) := by
  have sum := pieces.sum
  have behind := pieces.behind
  have front := pieces.front_le
  -- with blocks of one byte nothing is left in front or behind
  have even : 0 < P ∨ 0 < E → 2 ∣ blocksize mem := by
    intro some
    refine block.even.resolve_left fun one => ?_
    rcases pieces.lead with ⟨-, none⟩ | ⟨lane, length⟩
    · omega
    · rw [one, Nat.mod_one] at lane
      omega
  rw [pieces.reads]
  constructor
  · apply List.Perm.of_eq
    rw [flatMap_parts, sum]
    · intro some
      exact touched_read_front block front (even (.inl some)) 0
    · intro some
      apply (chunked some).flatMap_calls
      intro i member
      exact touched_read ((chunked some).evenChunk member) (by omega)
    · intro some
      exact touched_read (even (.inr some)) (by omega)
  · intro k used
    obtain ⟨call, member, used⟩ := List.mem_flatMap.mp used
    rcases mem_parts member with ⟨some, rfl⟩ | ⟨some, member⟩ | ⟨some, rfl⟩
    · simp only [ReadCall.used, List.mem_map, List.mem_range] at used
      omega
    · obtain ⟨i, start, rfl⟩ := List.mem_map.mp member
      have legal := (chunked some).legal start
      simp only [ReadCall.used, List.mem_map, List.mem_range] at used
      omega
    · simp only [ReadCall.used, List.mem_map, List.mem_range] at used
      omega
  · intro s sized
    obtain ⟨call, member, rfl⟩ := List.mem_map.mp sized
    rcases mem_parts member with ⟨some, rfl⟩ | ⟨some, member⟩ | ⟨some, rfl⟩
    · exact ⟨block.positive, Nat.dvd_refl _, block.small⟩
    · obtain ⟨i, start, rfl⟩ := List.mem_map.mp member
      have legal := (chunked some).legal start
      exact ⟨legal.1, legal.2.1, legal.2.2.1⟩
    · exact ⟨block.positive, Nat.dvd_refl _, block.small⟩

omit chunked

theorem length_touched :
    ((writeCalls mem addr size).flatMap (WriteCall.touched mem)).length =
      (if P = 0 then 0
        else min (blocksize mem) (min 8 (addr % blocksize mem % 256 + P)) - addr % blocksize mem % 256)
      + (if L = 0 then 0 else ((chunkStarts size).flatMap fun i =>
          WriteCall.touched mem ⟨true, addr + P + i, P + i, chunkSize size L i⟩).length)
      + min 8 E := by
  have behind := pieces.behind
  have last : (if E = 0 then [] else [(⟨false, addr + P + L, P + L, E⟩ : WriteCall)]).flatMap
      (WriteCall.touched mem) = WriteCall.touched mem ⟨false, addr + P + L, P + L, E⟩ := by
    split
    · rename_i none
      symm
      rw [List.flatMap_nil, ← List.length_eq_zero_iff, length_touched_single, pieces.lastBlock]
      omega
    · exact List.flatMap_singleton _ _
  rw [pieces.writes, List.flatMap_append, List.flatMap_append, List.length_append, List.length_append, last,
    length_touched_single, pieces.lastBlock, apply_ite (List.flatMap _), apply_ite (List.flatMap _), apply_ite List.length,
    apply_ite List.length, List.flatMap_singleton, length_touched_single, List.flatMap_map]
  simp only [List.flatMap_nil, List.length_nil]
  omega

end Pieces

theorem length_touched_chunks (mem : MemoryDescriptor) (addr offset size L : Nat)
    (small : size % BULK_MAX ≠ 0 → chunkSize size L (size / BULK_MAX * BULK_MAX) ≤ BULK_MAX) :
    ((chunkStarts size).flatMap fun i =>
      WriteCall.touched mem ⟨true, addr + i, offset + i, chunkSize size L i⟩).length =
      size / BULK_MAX * BULK_MAX
        + if size % BULK_MAX = 0 then 0 else 2 * (chunkSize size L (size / BULK_MAX * BULK_MAX) / 2) := by
  have full : ((List.range' 0 (size / BULK_MAX)).map fun j => j * BULK_MAX).flatMap
      (fun i => WriteCall.touched mem ⟨true, addr + i, offset + i, chunkSize size L i⟩) =
      span addr (size / BULK_MAX * BULK_MAX) := by
    rw [← span_chunks]
    apply List.flatMap_congr
    intro i member
    obtain ⟨j, inside, rfl⟩ := List.mem_map.mp member
    rw [chunkSize_full (by simpa using inside), touched_bulk (by decide) le_rfl]
  rw [chunkStarts_split, List.flatMap_append, full, List.length_append, length_span]
  congr 1
  split
  · rfl
  · rename_i some
    rw [List.flatMap_singleton]
    simp [WriteCall.touched, Nat.not_lt.mpr (small some)]

namespace Pieces

variable {P L E : Nat} (pieces : Pieces mem addr size P L E)

include pieces

/-- The single write in front of the blocks reaches all of its bytes in small blocks only. -/
theorem front_reached (block : PowerBlock (blocksize mem)) :
    (if P = 0 then 0
      else min (blocksize mem) (min 8 (addr % blocksize mem % 256 + P)) - addr % blocksize mem % 256) ≤ P
    ∧ ((if P = 0 then 0
      else min (blocksize mem) (min 8 (addr % blocksize mem % 256 + P)) - addr % blocksize mem % 256) = P →
      P = 0 ∨ blocksize mem ≤ 8) := by
  have lane := Nat.mod_lt addr block.positive
  have wide := block.wide
  rcases pieces.lead with ⟨-, none⟩ | ⟨some, length⟩
  · simp [none]
  · have front : P ≠ 0 := by omega
    rw [if_neg front]
    constructor <;> omega

theorem mem_bulkCall (some : 0 < L) {i : Nat} (start : i ∈ chunkStarts size) :
    ⟨true, addr + P + i, P + i, chunkSize size L i⟩ ∈ writeCalls mem addr size := by
  rw [pieces.writes, if_neg some.ne']
  apply List.mem_append_left
  apply List.mem_append_right
  exact List.mem_map.mpr ⟨i, start, rfl⟩

theorem wellCut (block : PowerBlock (blocksize mem)) (bound : size + BULK_MAX ≤ 2 ^ 64) (positive : 0 < size)
    (write : Splits (blocksize mem) addr size ((writeCalls mem addr size).flatMap (WriteCall.touched mem))
      ((writeCalls mem addr size).flatMap WriteCall.used)
      (((writeCalls mem addr size).filter WriteCall.bulk).map WriteCall.size)) :
    (blocksize mem = 1 → size % 2 = 0) ∧ (P = 0 ∨ blocksize mem ≤ 8) ∧ E ≤ 8
      ∧ (size < BULK_MAX ∨ blocksize mem ≤ 256 ∧ (P + E = 0 ∨ P + E < size % BULK_MAX)) := by
  have sum := pieces.sum
  have behind := pieces.behind
  have total := write.once.length_eq
  obtain ⟨most, reached⟩ := pieces.front_reached block
  rw [pieces.length_touched, length_span] at total
  have alone : blocksize mem = 1 → P = 0 := by
    intro one
    rcases pieces.lead with ⟨-, none⟩ | ⟨lane, -⟩
    · exact none
    · rw [one, Nat.mod_one] at lane
      omega
  have front := pieces.front_le
  have narrow := block.small
  have chunkMax : BULK_MAX = 16128 := rfl
  generalize (if P = 0 then 0 else _) = reach at total most reached
  by_cases none : L = 0
  · rw [if_pos none] at total
    have lead := reached (by omega)
    refine ⟨?_, lead, by omega, .inl ?_⟩ <;> omega
  · rw [if_neg none] at total
    have some : 0 < L := by omega
    have legal : ∀ i ∈ chunkStarts size, 0 < chunkSize size L i ∧ blocksize mem ∣ chunkSize size L i
        ∧ chunkSize size L i ≤ BULK_MAX := fun i start =>
      write.legal _ (List.mem_map.mpr ⟨_, List.mem_filter.mpr ⟨pieces.mem_bulkCall some start, rfl⟩, rfl⟩)
    have split := Nat.div_add_mod' size BULK_MAX
    have words : 2 ∣ size / BULK_MAX * BULK_MAX := Nat.dvd_mul_left_of_dvd (by decide) _
    have lastStart : size % BULK_MAX ≠ 0 → size / BULK_MAX * BULK_MAX ∈ chunkStarts size := by
      intro rest
      rw [chunkStarts_split, if_neg rest]
      exact List.mem_append_right _ (List.mem_singleton_self _)
    -- the length of the last chunk is not negative
    have last : size % BULK_MAX ≠ 0 →
        chunkSize size L (size / BULK_MAX * BULK_MAX) = L - size / BULK_MAX * BULK_MAX
        ∧ size / BULK_MAX * BULK_MAX < L := by
      intro rest
      obtain ⟨atLeast, -, atMost⟩ := legal _ (lastStart rest)
      have short := Nat.mod_lt size (show 0 < BULK_MAX by decide)
      rw [chunkSize, if_pos (by omega)] at atLeast atMost ⊢
      omega
    rw [length_touched_chunks mem _ _ _ _ fun rest => (legal _ (lastStart rest)).2.2] at total
    have small : size < BULK_MAX ∨ blocksize mem ≤ 256 := by
      by_cases first : size < BULK_MAX
      · exact .inl first
      · have full : 0 < size / BULK_MAX := Nat.div_pos (by omega) (by decide)
        have start : 0 ∈ chunkStarts size := by
          rw [chunkStarts_split]
          exact List.mem_append_left _ (List.mem_map.mpr ⟨0, by simpa using full, Nat.zero_mul _⟩)
        have whole := (legal 0 start).2.1
        rw [← Nat.zero_mul BULK_MAX, chunkSize_full full] at whole
        exact .inr (block.chunk.mp whole)
    by_cases rest : size % BULK_MAX = 0
    · -- the full chunks are as long as the whole access, so nothing may lie in front of them
      rw [if_pos rest] at total
      have many : 0 < size / BULK_MAX := by
        rcases Nat.eq_zero_or_pos (size / BULK_MAX) with zero | many
        · rw [zero, Nat.zero_mul] at split
          omega
        · exact many
      have last : size / BULK_MAX - 1 ∈ List.range' 0 (size / BULK_MAX) := by
        rw [← List.range_eq_range', List.mem_range]
        omega
      have full : (size / BULK_MAX - 1) * BULK_MAX ∈ chunkStarts size := by
        rw [chunkStarts_split]
        exact List.mem_append_left _ (List.mem_map.mpr ⟨size / BULK_MAX - 1, last, rfl⟩)
      have place := Nat.succ_mul (size / BULK_MAX - 1) BULK_MAX
      rw [Nat.succ_eq_add_one, Nat.sub_add_cancel many] at place
      have inside := write.inside (P + (size / BULK_MAX - 1) * BULK_MAX + (BULK_MAX - 1))
        (List.mem_flatMap.mpr ⟨_, pieces.mem_bulkCall some full, by
          simp only [WriteCall.used, if_true, chunkSize_full (show size / BULK_MAX - 1 < size / BULK_MAX by omega),
            lt_irrefl, if_false, List.mem_map, List.mem_range]
          exact ⟨BULK_MAX - 1, by decide, rfl⟩⟩)
      refine ⟨fun _ => ?_, .inl ?_, by omega, small.imp_right fun few => ⟨few, .inl ?_⟩⟩ <;> omega
    · obtain ⟨length, more⟩ := last rest
      rw [if_neg rest, length] at total
      have lead := reached (by omega)
      refine ⟨fun one => ?_, lead, by omega, small.imp_right fun few => ⟨few, .inr ?_⟩⟩
      · have := alone one
        omega
      · omega

end Pieces

end Access

/-- An access shorter than a block is split well only inside the first eight bytes of a block. -/
theorem inside_of_splits (block : PowerBlock (blocksize mem)) (below : addr < 2 ^ 64) (positive : 0 < size)
    (short : size < blocksize mem) (once : (WriteCall.touched mem ⟨false, addr, 0, size⟩).Perm (span addr size)) :
    addr % blocksize mem + size ≤ min (blocksize mem) 8 := by
  have total := once.length_eq
  rw [length_touched_single, length_span] at total
  have first : addr ∈ span addr size := List.mem_map.mpr ⟨0, List.mem_range.mpr positive, Nat.mod_eq_of_lt below⟩
  have touched := once.mem_iff.mpr first
  simp only [WriteCall.touched, Bool.false_eq_true, if_false, lanes_eq, List.mem_map, List.mem_range'_1] at touched
  obtain ⟨i, inside, place⟩ := touched
  have lane := Nat.mod_lt addr block.positive
  have lower := Nat.mod_le addr (blocksize mem)
  have small : blocksize mem ≤ 16128 := block.small
  obtain ⟨u, whole⟩ := block.power
  -- the block of `addr` does not reach beyond the end of the addresses
  have border : addr - addr % blocksize mem + blocksize mem ≤ 2 ^ 64 := by
    have split := Nat.div_add_mod addr (blocksize mem)
    have order : addr / blocksize mem < u := Nat.div_lt_of_lt_mul (whole ▸ below)
    have := Nat.mul_le_mul_left (blocksize mem) (Nat.succ_le_of_lt order)
    rw [Nat.mul_succ] at this
    omega
  omega

/-- The packets of a write are those of its calls, and the calls of both directions cover an access
exactly if and only if it is cut well. `addr` is an `uint64_t`, and the buffer is small enough for the
`size_t` counter of the loop not to wrap. -/
theorem splits_access_iff {k : Nat} (typed : mem.data_width < 2 ^ 16) (power : blocksize mem = 2 ^ k)
    (below : addr < 2 ^ 64) (positive : 1 ≤ size) (object : size + BULK_MAX ≤ 2 ^ 64) :
    (∀ data : List Byte, data.length = size →
      osd_memory_write mem addr data = sendAll mem data (writeCalls mem addr size)) ∧
      (SplitsAccess mem addr size ↔ WellCut (blocksize mem) addr size) := by
  refine ⟨fun data length => length ▸ osd_memory_write_eq mem addr data, ?_⟩
  have block := powerBlock typed power
  -- an access within one block is a single call
  by_cases short : size < blocksize mem
  · rw [WellCut, if_pos short]
    constructor
    · intro splits
      have once := splits.write.once
      rw [writeCalls_short positive short, List.flatMap_singleton] at once
      exact inside_of_splits block below positive short once
    · exact splits_short block positive short
  -- the front, the blocks and the rest
  · rw [WellCut, if_neg short]
    obtain ⟨L, pieces⟩ := pieces_of_long block below (Nat.not_lt.mp short)
    have lead : addr % blocksize mem = 0 ↔ front (blocksize mem) addr = 0 := by
      have lane := Nat.mod_lt addr block.positive
      rcases pieces.lead with ⟨zero, none⟩ | ⟨some, length⟩ <;> omega
    rw [lead]
    constructor
    · intro splits
      exact pieces.wellCut block object positive splits.write
    · rintro ⟨one, before, after, chunks⟩
      have chunked : 0 < L → WellChunked mem size L := by
        intro some
        have bound : size < 2 ^ 64 := by
          simp only [BULK_MAX] at object
          omega
        refine ⟨cut_of_rest bound pieces.sum some (chunks.imp_right And.right),
          chunks.imp_right fun many => block.chunk.mpr many.1, pieces.blocks, ?_⟩
        -- with blocks of one byte the size itself has to be even
        rcases block.even with single | even
        · have sum := pieces.sum
          have behind := pieces.behind
          have alone : front (blocksize mem) addr = 0 := lead.mp (by rw [single, Nat.mod_one])
          have := one single
          omega
        · exact Nat.dvd_trans even pieces.blocks
      exact ⟨pieces.splits_writes chunked before after, pieces.splits_reads chunked block⟩

/-- A descriptor of a module with words of eight bytes. -/
def quadWords : MemoryDescriptor := ⟨32, 64, 1, 16⟩

/-- Nine bytes at the address 7: one in front of the whole block behind it. -/
theorem splits_access_unaligned : SplitsAccess quadWords 7 9 :=
  (splits_access_iff (k := 3) (by decide) (by decide) (by decide) (by decide) (by decide)).2.mpr (by unfold WellCut; decide)

/-- Four bytes at the address 6 straddle two blocks, and only two of them are written. -/
theorem not_splits_access_straddling : ¬ SplitsAccess quadWords 6 4 := by
  intro splits
  have total := splits.write.once.length_eq
  exact absurd total (by decide)

end LowRisc.Debug.Memory
