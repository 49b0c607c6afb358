import LowRisc.Debug.MemoryHost
import LowRisc.Debug.MamStream

/-! The accesses that the packets of one request make: a burst of write beats, a single
write, and a burst of read beats with the packets that carry the words back. -/

set_option autoImplicit false

namespace LowRisc.Debug

open LowRisc.Lib

/-! The number in the slices of an address. -/

theorem slicesValue_congr {n : Nat} {f g : Nat → Word} (same : ∀ i < n, f i = g i) :
    slicesValue n f = slicesValue n g := by
  induction n with
  | zero => rfl
  | succ n ih =>
    simp only [slicesValue]
    rw [ih fun i below => same i (by omega), same n (by omega)]

theorem slicesValue_ofNat (n addr : Nat) :
    slicesValue n (fun i => BitVec.ofNat 16 (addr >>> (16 * i))) = addr % 2 ^ (16 * n) := by
  induction n with
  | zero => simp [slicesValue, Nat.mod_one]
  | succ n ih =>
    rw [slicesValue, ih, BitVec.toNat_ofNat, Nat.shiftRight_eq_div_pow, Nat.mul_succ, Nat.pow_add, Nat.mod_mul]
    rw [Nat.mul_comm (2 ^ (16 * n))]

namespace MamCore

variable {p : MamParams} {c d : MamCore}

/-! The header. -/

/-- The state after the header `control`, `addr` of a request, once the memory has accepted it. -/
structure Accepted (p : MamParams) (c : MamCore) (control : Word) (addr : Nat) (last : Bool) (d : MamCore) :
    Prop where
  phase : d.mam.phase =
    if control.getLsbD 15 then
      (if control.getLsbD 14 then (if last then .writePacket else .write) else .writeSingle)
    else .readPacket
  counter : d.mam.counter = 0
  wcounter : d.mam.wcounter = 0
  strb : d.mam.write_strb = control
  burst : d.mam.req_burst = control.getLsbD 14
  beats : d.mam.req_beats = if control.getLsbD 14 then control.extractLsb' 0 14 else 1
  memory : d.memory = c.memory.request addr
  sent : d.sent = c.sent

theorem leads_addr {slices : Nat → Word} {k : Nat} {flits : List Flit} (some : flits ≠ [])
    (count : k + flits.length = p.addrWords)
    (words : ∀ i, ∀ f ∈ flits[i]?, f.data = slices (k + i)) (phase : c.mam.phase = .addr)
    (counter : c.mam.counter = k) (sofar : ∀ i < k, c.mam.req_addr i = slices i) :
    ∃ held, (∀ i < p.addrWords, held i = slices i) ∧ Leads p c flits
      ⟨{ c.mam with
          phase := .request
          counter := p.addrWords
          req_addr := held
          is_last_flit := (flits.getLast some).last }, c.memory, c.sent⟩ := by
  induction flits generalizing c k with
  | nil => exact absurd rfl some
  | cons f rest ih =>
    have word : f.data = slices k := words 0 f rfl
    -- the slices so far are those of the address
    have filled : ∀ i < k + 1, upd c.mam.req_addr k f.data i = slices i := by
      intro i below
      by_cases here : i = k
      · rw [here, upd_same, word]
      · rw [upd_of_ne here]
        exact sofar i (by omega)
    have ready : c.listening = true := by simp [listening, Mam.dp_in_ready, phase]
    cases rest with
    -- the last slice completes the address
    | nil =>
      have final : k = p.addrWords - 1 := by simp at count; omega
      have positive : 0 < p.addrWords := by simp at count; omega
      refine ⟨upd c.mam.req_addr k f.data, ?_, .take ready ?_⟩
      · intro i below
        exact filled i (by omega)
      · have step : c.take p f =
            ⟨{ c.mam with
                phase := .request
                counter := p.addrWords
                req_addr := upd c.mam.req_addr k f.data
                is_last_flit := f.last }, c.memory, c.sent⟩ := by
          have total : p.addrWords - 1 + 1 = p.addrWords := by omega
          simp [take, next, Mam.next, phase, Mam.nextAddr, DiiFlit.ofFlit, counter, final, total, Mam.memoryNext,
            Mam.req_valid, Mam.write_valid, Mam.read_ready, out, Mam.dp_out, DiiFlit.passed, DiiFlit.idle]
        rw [step]
        exact .rest _
    | cons g rest =>
      have more : ¬ k = p.addrWords - 1 := by simp at count; omega
      have step : c.take p f =
          ⟨{ c.mam with counter := k + 1, req_addr := upd c.mam.req_addr k f.data }, c.memory, c.sent⟩ := by
        obtain ⟨mam, memory, sent⟩ := c
        simp only at phase counter
        simp [take, next, Mam.next, phase, Mam.nextAddr, DiiFlit.ofFlit, counter, more, Mam.memoryNext,
          Mam.req_valid, Mam.write_valid, Mam.read_ready, out, Mam.dp_out, DiiFlit.passed, DiiFlit.idle]
      obtain ⟨held, all, run⟩ := ih (c := c.take p f) (k := k + 1) (by simp)
        (by simp only [List.length_cons] at count ⊢; omega)
        (by
          intro i f' at_i
          rw [Nat.add_assoc, Nat.add_comm 1]
          exact words (i + 1) f' (by simpa using at_i))
        (by rw [step]; exact phase) (by rw [step]) (by rw [step]; exact filled)
      refine ⟨held, all, .take ready ?_⟩
      rw [step] at run ⊢
      simpa using run

theorem leads_header {slices : Nat → Word} {flits : List Flit} (some : flits ≠ []) (dest type control : Flit)
    (count : flits.length = p.addrWords) (words : ∀ i, ∀ f ∈ flits[i]?, f.data = slices i)
    (phase : c.mam.phase = .inactive) :
    ∃ d, Accepted p c control.data (slicesValue p.addrWords slices) (flits.getLast some).last d
      ∧ Leads p c (dest :: type :: control :: flits) d := by
  -- the state behind the three flits in front of the address
  let commanded : MamCore :=
    ⟨{ c.mam with
        phase := .addr
        counter := 0
        write_strb := control.data
        req_rw := control.data.getLsbD 15
        req_burst := control.data.getLsbD 14
        req_beats := if control.data.getLsbD 14 then control.data.extractLsb' 0 14 else 1 }, c.memory, c.sent⟩
  have three : ∀ {d : MamCore} {rest : List Flit}, Leads p commanded rest d →
      Leads p c (dest :: type :: control :: rest) d := by
    intro d rest run
    obtain ⟨mam, memory, sent⟩ := c
    simp only at phase
    refine .take (by simp [listening, Mam.dp_in_ready, phase]) (.take ?_ (.take ?_ ?_))
    · simp [listening, Mam.dp_in_ready, take, next, Mam.next, phase, DiiFlit.ofFlit]
    · simp [listening, Mam.dp_in_ready, take, next, Mam.next, phase, DiiFlit.ofFlit]
    · simpa [commanded, take, next, Mam.next, phase, Mam.nextCmd, DiiFlit.ofFlit, Mam.memoryNext, Mam.req_valid,
        Mam.write_valid, Mam.read_ready, out, Mam.dp_out, DiiFlit.passed, DiiFlit.idle] using run
  obtain ⟨held, all, run⟩ := leads_addr (p := p) (c := commanded) (k := 0) some (by omega)
    (fun i f at_i => by simpa using words i f at_i) rfl rfl (by omega)
  refine ⟨_, ?_, three (run.then_go rfl)⟩
  have same : slicesValue p.addrWords held = slicesValue p.addrWords slices := slicesValue_congr all
  constructor
  · rfl
  · rfl
  · rfl
  · rfl
  · rfl
  · rfl
  · show MamMemory.request (slicesValue p.addrWords held) c.memory = _
    rw [same]
  · simp [go, next, commanded, out, Mam.dp_out, DiiFlit.passed, DiiFlit.idle]

end MamCore

/-! Bytes of words, and bytes written at consecutive addresses. -/

def wordBytes (ws : List Word) : List Byte := ws.flatMap fun w => [highByte w, lowByte w]

@[simp] theorem wordBytes_nil : wordBytes [] = [] := rfl

@[simp] theorem wordBytes_cons (w : Word) (ws : List Word) :
    wordBytes (w :: ws) = highByte w :: lowByte w :: wordBytes ws := rfl

@[simp] theorem wordBytes_append (ws vs : List Word) : wordBytes (ws ++ vs) = wordBytes ws ++ wordBytes vs :=
  List.flatMap_append

@[simp] theorem length_wordBytes (ws : List Word) : (wordBytes ws).length = 2 * ws.length := by
  induction ws with
  | nil => rfl
  | cons w ws ih => simp only [wordBytes_cons, List.length_cons, ih]; omega

def bytesAt : Nat → List Byte → List (Nat × Byte)
  | _, [] => []
  | a, b :: rest => (a, b) :: bytesAt (a + 1) rest

theorem bytesAt_append (a : Nat) (first second : List Byte) :
    bytesAt a (first ++ second) = bytesAt a first ++ bytesAt (a + first.length) second := by
  induction first generalizing a with
  | nil => rfl
  | cons b first ih =>
    simp only [List.cons_append, bytesAt, ih, List.length_cons]
    rw [Nat.add_assoc, Nat.add_comm 1]

theorem mem_bytesAt {a : Nat} {bytes : List Byte} {u : Nat × Byte} :
    u ∈ bytesAt a bytes ↔ ∃ i, u.1 = a + i ∧ bytes[i]? = some u.2 := by
  induction bytes generalizing a with
  | nil => simp [bytesAt]
  | cons b bytes ih =>
    rw [bytesAt, List.mem_cons, ih]
    constructor
    · rintro (rfl | ⟨i, place, byte⟩)
      · exact ⟨0, rfl, rfl⟩
      · exact ⟨i + 1, by omega, by simpa using byte⟩
    · rintro ⟨i, place, byte⟩
      cases i with
      | zero =>
        left
        exact Prod.ext place (Option.some.inj byte).symm
      | succ i => exact .inr ⟨i, by omega, by simpa using byte⟩

/-- Byte `k` of the slices of a data word, in the order of the addresses. -/
def sliceByte (slices : Nat → Word) (k : Nat) : Byte :=
  if k % 2 = 0 then highByte (slices (k / 2)) else lowByte (slices (k / 2))

theorem bytesAt_slices (a : Nat) {slices : Nat → Word} {ws : List Word}
    (same : ∀ i, ∀ w ∈ ws[i]?, slices i = w) :
    bytesAt a (wordBytes ws) = (List.range (2 * ws.length)).map fun k => (a + k, sliceByte slices k) := by
  induction ws generalizing a slices with
  | nil => rfl
  | cons w ws ih =>
    have head : slices 0 = w := same 0 w rfl
    have tail := @ih (a + 2) (fun i => slices (i + 1)) fun i v at_i => same (i + 1) v (by simpa using at_i)
    rw [wordBytes_cons, bytesAt, bytesAt, show a + 1 + 1 = a + 2 from rfl, tail, List.length_cons,
      show 2 * (ws.length + 1) = 2 * ws.length + 1 + 1 by omega, List.range_succ_eq_map, List.range_succ_eq_map]
    simp only [List.map_cons, List.map_map, List.cons.injEq, Prod.mk.injEq, Nat.add_zero]
    refine ⟨⟨trivial, by simp [sliceByte, head]⟩, ⟨by simp, by simp [sliceByte, head]⟩, ?_⟩
    apply List.map_congr_left
    intro k _
    simp only [Function.comp, Prod.mk.injEq]
    refine ⟨by omega, ?_⟩
    simp only [sliceByte, Nat.succ_eq_add_one, show (k + 1 + 1) % 2 = k % 2 by omega,
      show (k + 1 + 1) / 2 = k / 2 + 1 by omega]

namespace MamMemory

def written (m : MamMemory) (bytes : List Byte) : MamMemory :=
  { m with updates := m.updates ++ bytesAt m.cursor bytes, cursor := m.cursor + bytes.length }

@[simp] theorem written_nil (m : MamMemory) : m.written [] = m := by simp [written, bytesAt]

theorem written_written (m : MamMemory) (first second : List Byte) :
    (m.written first).written second = m.written (first ++ second) := by
  simp [written, bytesAt_append, Nat.add_assoc]

/-- The lane of a byte holds it, whatever the byte order of the memory. -/
theorem write_data_laneOf (p : MamParams) (s : MamRegs) (dp_in : DiiFlit) {k : Nat} (inside : k < p.dataBytes) :
    Mam.write_data p s dp_in (laneOf p k) = sliceByte (Mam.write_data_m s dp_in) k := by
  simp only [MamParams.dataBytes] at inside
  have half : p.dataWords - 1 - (2 * p.dataWords - 1 - k) / 2 = k / 2 := by omega
  have reversed : Mam.lane p (Mam.write_data_m s dp_in) (2 * p.dataWords - 1 - k)
      = sliceByte (Mam.write_data_m s dp_in) k := by
    rw [Mam.lane, half]
    by_cases even : k % 2 = 0
    · simp [sliceByte, even, show ¬ (2 * p.dataWords - 1 - k) % 2 = 0 by omega]
    · simp [sliceByte, even, show (2 * p.dataWords - 1 - k) % 2 = 0 by omega]
  cases big : p.endian <;>
    simpa [Mam.write_data, laneOf, Mam.endian_conv, MamParams.dataBytes, big] using reversed

theorem store_all (p : MamParams) (m : MamMemory) {s : MamRegs} {dp_in : DiiFlit} {ws : List Word}
    (all : ∀ lane, Mam.enabled s lane = true) (same : ∀ i, ∀ w ∈ ws[i]?, Mam.write_data_m s dp_in i = w)
    (full : ws.length = p.dataWords) :
    m.store p (Mam.enabled s) (Mam.write_data p s dp_in) = m.written (wordBytes ws) := by
  have bytes : (List.range p.dataBytes).map (fun k => (m.cursor + k, Mam.write_data p s dp_in (laneOf p k)))
      = bytesAt m.cursor (wordBytes ws) := by
    rw [bytesAt_slices m.cursor same, full]
    apply List.map_congr_left
    intro k inside
    rw [write_data_laneOf p s dp_in (List.mem_range.mp inside)]
  have size : (wordBytes ws).length = p.dataBytes := by rw [length_wordBytes, full, MamParams.dataBytes]
  simp only [store, written, all, List.filter_true, size, bytes]

end MamMemory

namespace MamCore

variable {p : MamParams} {c d : MamCore}

/-! A burst of write beats. -/

/-- In a burst with `left` beats to come, `part` of the next of them is there. The register
holds 0 for the full `2 ^ 14` beats. -/
structure Bursting (p : MamParams) (left : Nat) (part : List Word) (m : MamMemory) (sent : List Flit) (c : MamCore) :
    Prop where
  burst : c.mam.req_burst = true
  beats : c.mam.req_beats = BitVec.ofNat 14 left
  waiting : 0 < left
  fits : left ≤ 2 ^ 14
  wcounter : c.mam.wcounter = part.length
  room : part.length < p.dataWords
  slices : ∀ i, ∀ w ∈ part[i]?, c.mam.write_data_reg i = w
  memory : c.memory = m
  sent : c.sent = sent

variable {left : Nat} {part : List Word} {m : MamMemory} {sent : List Flit}

theorem Bursting.filled (inv : Bursting p left part m sent c) (w : Word) :
    ∀ i, ∀ v ∈ (part ++ [w])[i]?, upd c.mam.write_data_reg c.mam.wcounter w i = v := by
  intro i v at_i
  rw [inv.wcounter]
  by_cases here : i = part.length
  · subst here
    simpa using at_i
  · rw [upd_of_ne here]
    apply inv.slices i v
    rwa [List.getElem?_append_left] at at_i
    by_contra beyond
    rw [List.getElem?_eq_none (by simp; omega)] at at_i
    simp at at_i

/-- The phase after a flit of the burst: the packet goes on or has ended. -/
def Between (last : Bool) (c : MamCore) : Prop :=
  if last then c.mam.phase = .writePacket ∧ c.mam.counter = 0 else c.mam.phase = .write

theorem ofNat_eq_one_iff (fits : left ≤ 2 ^ 14) : BitVec.ofNat 14 left = 1#14 ↔ left = 1 := by
  constructor
  · intro one
    have same := congrArg BitVec.toNat one
    rw [BitVec.toNat_ofNat, show (1#14).toNat = 1 from rfl] at same
    omega
  · rintro rfl
    rfl

theorem Bursting.take_part (inv : Bursting p left part m sent c) (phase : c.mam.phase = .write) (f : Flit)
    (more : part.length + 1 < p.dataWords) :
    Bursting p left (part ++ [f.data]) m sent (c.take p f) ∧ Between f.last (c.take p f) := by
  have open' : ¬ c.mam.wcounter = p.dataWords - 1 := by rw [inv.wcounter]; omega
  have next' : Mam.next p c.mam ⟨.ofFlit f, true, true, true, true⟩ =
      { c.mam with
        write_data_reg := upd c.mam.write_data_reg c.mam.wcounter f.data
        wcounter := c.mam.wcounter + 1
        counter := if f.last then 0 else c.mam.counter
        phase := if f.last then .writePacket else .write } := by
    obtain ⟨last, word⟩ := f
    cases last <;> simp [Mam.next, phase, Mam.nextWrite, DiiFlit.ofFlit, open']
  have memory' : Mam.memoryNext p c.mam c.memory ⟨.ofFlit f, true, true, true, true⟩ = c.memory := by
    simp [Mam.memoryNext, Mam.req_valid, Mam.write_valid, Mam.read_ready, phase, open']
  have out' : c.out p ⟨.ofFlit f, true, true, true, true⟩ = [] := by
    simp [out, Mam.dp_out, phase, DiiFlit.passed, DiiFlit.idle]
  constructor
  · constructor
    · simpa [take, next, next'] using inv.burst
    · simpa [take, next, next'] using inv.beats
    · exact inv.waiting
    · exact inv.fits
    · simp [take, next, next', inv.wcounter]
    · simpa using more
    · simpa [take, next, next'] using inv.filled f.data
    · simpa [take, next, memory'] using inv.memory
    · simpa [take, next, out'] using inv.sent
  · cases last : f.last <;> simp [Between, take, next, next', last]

/-- The word that completes a beat: the memory takes it, and the burst ends or goes on. -/
theorem Bursting.take_beat (inv : Bursting p left part m sent c) (phase : c.mam.phase = .write) (f : Flit)
    (complete : part.length + 1 = p.dataWords) :
    (c.take p f).memory = m.written (wordBytes (part ++ [f.data])) ∧ (c.take p f).sent = sent
    ∧ (left = 1 → (c.take p f).mam.phase = .inactive)
    ∧ (1 < left → Bursting p (left - 1) [] (m.written (wordBytes (part ++ [f.data]))) sent (c.take p f)
        ∧ Between f.last (c.take p f)) := by
  -- the word fills the last place of the beat
  have full : c.mam.wcounter = p.dataWords - 1 := by rw [inv.wcounter]; omega
  have next' : Mam.next p c.mam ⟨.ofFlit f, true, true, true, true⟩ =
      Mam.beatTaken { c.mam with
        write_data_reg := upd c.mam.write_data_reg c.mam.wcounter f.data
        wcounter := 0 } !f.last := by
    simp [Mam.next, phase, Mam.nextWrite, DiiFlit.ofFlit, full]
  have memory' : (c.take p f).memory = m.written (wordBytes (part ++ [f.data])) := by
    have stored : (c.take p f).memory =
        c.memory.store p (Mam.enabled c.mam) (Mam.write_data p c.mam (.ofFlit f)) := by
      simp [take, next, Mam.memoryNext, Mam.req_valid, Mam.write_valid, phase, DiiFlit.ofFlit, full]
    rw [stored, inv.memory]
    apply MamMemory.store_all p m
    · intro lane
      simp [Mam.enabled, inv.burst]
    · simpa [Mam.write_data_m, phase, DiiFlit.ofFlit] using inv.filled f.data
    · simpa using complete
  have sent' : (c.take p f).sent = sent := by
    simp [take, next, out, Mam.dp_out, phase, DiiFlit.passed, DiiFlit.idle, inv.sent]
  -- the counter of beats does not wrap, so it tells the last beat
  have final := ofNat_eq_one_iff inv.fits
  refine ⟨memory', sent', ?_, ?_⟩
  · intro one
    simp [take, next, next', Mam.beatTaken, inv.beats, one]
  · intro more
    have several : ¬ left = 1 := by omega
    constructor
    · constructor
      · simpa [take, next, next', Mam.beatTaken] using inv.burst
      · simp only [take, next, next', Mam.beatTaken, inv.beats]
        apply BitVec.eq_of_toNat_eq
        have bound := inv.fits
        rw [BitVec.toNat_sub, BitVec.toNat_ofNat, BitVec.toNat_ofNat, show BitVec.toNat (1 : BitVec 14) = 1 from rfl]
        omega
      · omega
      · have bound := inv.fits
        omega
      · simp [take, next, next', Mam.beatTaken]
      · have room := inv.room
        simp only [List.length_nil]
        omega
      · simp
      · exact memory'
      · exact sent'
    · cases last : f.last <;>
        simp [Between, take, next, next', Mam.beatTaken, inv.beats, final, several, last]

structure Finished (m : MamMemory) (words : List Word) (sent : List Flit) (d : MamCore) : Prop where
  phase : d.mam.phase = .inactive
  memory : d.memory = m.written (wordBytes words)
  sent : d.sent = sent

/-- The packet is over and the burst is not: the words of whole beats are written. -/
structure Continued (p : MamParams) (left : Nat) (words : List Word) (m : MamMemory) (sent : List Flit) (d : MamCore) :
    Prop where
  phase : d.mam.phase = .writePacket
  counter : d.mam.counter = 0
  split : ∃ left' part full, words = full ++ part ∧ full.length + left' * p.dataWords = left * p.dataWords
    ∧ Bursting p left' part (m.written (wordBytes full)) sent d

theorem Bursting.leads_frame (inv : Bursting p left part m sent c) (phase : c.mam.phase = .write)
    {ws : List Word} (some : ws ≠ []) (bound : part.length + ws.length ≤ left * p.dataWords) :
    ∃ d, Leads p c (frame ws) d ∧
      ((part.length + ws.length = left * p.dataWords ∧ Finished m (part ++ ws) sent d)
      ∨ (part.length + ws.length < left * p.dataWords ∧ Continued p left (part ++ ws) m sent d)) := by
  induction ws generalizing c left part m with
  | nil => exact absurd rfl some
  | cons w rest ih =>
    have ready : c.listening = true := by simp [listening, Mam.dp_in_ready, phase]
    have room := inv.room
    have waiting := inv.waiting
    have whole : part ++ w :: rest = (part ++ [w]) ++ rest := by simp
    rw [Layer.frame_cons]
    -- by the place of the word in its beat, and of the beat in the burst
    by_cases complete : part.length + 1 = p.dataWords
    · obtain ⟨memory', sent', ends, goes⟩ := inv.take_beat phase ⟨rest.isEmpty, w⟩ complete
      simp only at memory' ends goes
      by_cases one : left = 1
      · have none : rest = [] := by
          rw [one, Nat.one_mul, List.length_cons] at bound
          exact List.eq_nil_of_length_eq_zero (by omega)
        subst none
        refine ⟨_, .take ready (.rest _), .inl ⟨?_, ends one, memory', sent'⟩⟩
        rw [one, Nat.one_mul, ← complete]
        rfl
      · obtain ⟨k, rfl⟩ : ∃ k, left = k + 2 := ⟨left - 2, by omega⟩
        obtain ⟨inv', between⟩ := goes (by omega)
        have beats : (k + 2) * p.dataWords = (k + 1) * p.dataWords + p.dataWords := Nat.succ_mul _ _
        have least : p.dataWords ≤ (k + 1) * p.dataWords := Nat.le_mul_of_pos_left _ (by omega)
        simp only [List.length_cons] at bound
        rw [show k + 2 - 1 = k + 1 from rfl] at inv'
        cases rest with
        | nil =>
          refine ⟨_, .take ready (.rest _), .inr ⟨?_, ?_, ?_, k + 1, [], part ++ [w], by simp, ?_, inv'⟩⟩
          · simp only [List.length_singleton]; omega
          · exact between.1
          · exact between.2
          · simp only [List.length_append, List.length_singleton]; omega
        | cons v rest =>
          obtain ⟨d, run, result⟩ := ih inv' between (by simp) (by simp only [List.length_nil]; omega)
          refine ⟨d, .take ready run, ?_⟩
          simp only [List.length_nil, Nat.zero_add, List.nil_append] at result
          obtain ⟨total, done⟩ | ⟨total, go⟩ := result
          · left
            refine ⟨by simp only [List.length_cons] at total ⊢; omega, done.phase, ?_, done.sent⟩
            rw [done.memory, MamMemory.written_written, ← wordBytes_append, whole]
          · right
            obtain ⟨left', part', full, split, count, inv''⟩ := go.split
            refine ⟨by simp only [List.length_cons] at total ⊢; omega, go.phase, go.counter, left', part',
              part ++ [w] ++ full, by rw [whole, split]; simp, ?_, ?_⟩
            · simp only [List.length_append, List.length_singleton]; omega
            · rwa [MamMemory.written_written, ← wordBytes_append] at inv''
    · have more : part.length + 1 < p.dataWords := by omega
      obtain ⟨inv', between⟩ := inv.take_part phase ⟨rest.isEmpty, w⟩ more
      have least : p.dataWords ≤ left * p.dataWords := Nat.le_mul_of_pos_left _ waiting
      cases rest with
      | nil =>
        refine ⟨_, .take ready (.rest _), .inr ⟨?_, between.1, between.2, left, part ++ [w], [], by simp, by simp, ?_⟩⟩
        · simp only [List.length_singleton]; omega
        · simpa using inv'
      | cons v rest =>
        obtain ⟨d, run, result⟩ := ih inv' between (by simp)
          (by simp only [List.length_append, List.length_cons, List.length_nil] at bound ⊢; omega)
        refine ⟨d, .take ready run, ?_⟩
        rw [whole, List.length_cons, ← Nat.add_assoc, Nat.add_right_comm]
        simpa [Nat.add_assoc, Nat.add_comm, Nat.add_left_comm] using result

theorem Bursting.leads_opening (inv : Bursting p left part m sent c) (phase : c.mam.phase = .writePacket)
    (counter : c.mam.counter = 0) (first second : Flit) :
    ∃ d, Leads p c [first, second] d ∧ d.mam.phase = .write ∧ Bursting p left part m sent d := by
  obtain ⟨mam, memory, sent'⟩ := c
  simp only at phase counter
  refine ⟨⟨{ mam with counter := 2, phase := .write }, memory, sent'⟩, ?_, rfl, ?_⟩
  · refine .take (by simp [listening, Mam.dp_in_ready, phase]) (.take ?_ ?_)
    · simp [listening, Mam.dp_in_ready, take, next, Mam.next, phase, Mam.nextWritePacket, DiiFlit.ofFlit, counter]
    · have step : ((MamCore.mk mam memory sent').take p first).take p second =
          ⟨{ mam with counter := 2, phase := .write }, memory, sent'⟩ := by
        simp [take, next, Mam.next, phase, Mam.nextWritePacket, DiiFlit.ofFlit, counter, Mam.memoryNext,
          Mam.req_valid, Mam.write_valid, Mam.read_ready, out, Mam.dp_out, DiiFlit.passed, DiiFlit.idle]
      rw [step]
      exact .rest _
  · exact ⟨inv.burst, inv.beats, inv.waiting, inv.fits, inv.wcounter, inv.room, inv.slices, inv.memory, inv.sent⟩

theorem Bursting.leads_packets (inv : Bursting p left part m sent c) (phase : c.mam.phase = .writePacket)
    (counter : c.mam.counter = 0) (dest type : Word) {payloads : List (List Word)}
    (some : ∀ payload ∈ payloads, payload ≠ [])
    (count : part.length + payloads.flatten.length = left * p.dataWords) :
    ∃ d, Leads p c (packetStream (payloads.map fun payload => dest :: type :: payload)) d
      ∧ Finished m (part ++ payloads.flatten) sent d := by
  induction payloads generalizing c left part m with
  | nil =>
    -- without a packet the words of a whole beat are missing
    have room := inv.room
    have least : p.dataWords ≤ left * p.dataWords := Nat.le_mul_of_pos_left _ inv.waiting
    simp at count
    omega
  | cons payload rest ih =>
    have nonempty := some payload (by simp)
    have others : ∀ q ∈ rest, q ≠ [] := fun q member => some q (by simp [member])
    simp only [List.flatten_cons, List.length_append] at count
    obtain ⟨c₁, opening, phase₁, inv₁⟩ := inv.leads_opening phase counter ⟨false, dest⟩ ⟨false, type⟩
    obtain ⟨c₂, run, result⟩ := inv₁.leads_frame phase₁ nonempty (by omega)
    have flits : frame (dest :: type :: payload) = [⟨false, dest⟩, ⟨false, type⟩] ++ frame payload := by
      obtain ⟨w, ws, rfl⟩ := List.exists_cons_of_ne_nil nonempty
      rfl
    obtain ⟨total, done⟩ | ⟨total, go⟩ := result
    -- the burst is over, so no payload is left
    · have none : rest = [] := by
        cases rest with
        | nil => rfl
        | cons q rest =>
          have positive := List.length_pos_of_ne_nil (others q (by simp))
          simp only [List.flatten_cons, List.length_append] at count
          omega
      subst none
      refine ⟨c₂, ?_, by simpa using done⟩
      simpa [packetStream, flits] using opening.trans run
    -- the payload may end within a beat, whose words are kept for the next one
    · obtain ⟨left', part', full, split, size, inv₂⟩ := go.split
      have lengths : part.length + payload.length = full.length + part'.length := by
        simpa using congrArg List.length split
      obtain ⟨d, run', done⟩ := ih inv₂ go.phase go.counter others (by omega)
      refine ⟨d, ?_, done.phase, ?_, done.sent⟩
      · simpa [packetStream, flits] using opening.trans (run.trans run')
      · rw [done.memory, MamMemory.written_written, ← wordBytes_append, ← List.append_assoc, ← split,
          List.flatten_cons, List.append_assoc]

end MamCore

/-! A burst of read beats. -/

def wordsAt (content : Nat → Byte) : Nat → Nat → List Word
  | _, 0 => []
  | a, n + 1 => (content a ++ content (a + 1)) :: wordsAt content (a + 2) n

@[simp] theorem length_wordsAt (content : Nat → Byte) (a n : Nat) : (wordsAt content a n).length = n := by
  induction n generalizing a with
  | zero => rfl
  | succ n ih => rw [wordsAt, List.length_cons, ih]

/-- The second word of every packet with read data. -/
def sourceWord (p : MamParams) : Word := 0b01#2 ++ 0b1111#4 ++ p.id

/-- The flits that carry the words, when `k` of the current packet have left. -/
def emission (p : MamParams) : Nat → List Word → List Flit
  | _, [] => []
  | _, [w] => [⟨true, w⟩]
  | k, w :: v :: rest =>
    if k + 1 = p.maxPktLen - 2 then
      ⟨true, w⟩ :: ⟨false, 0⟩ :: ⟨false, sourceWord p⟩ :: emission p 0 (v :: rest)
    else ⟨false, w⟩ :: emission p (k + 1) (v :: rest)

theorem readSlice_eq (p : MamParams) (m : MamMemory) {w : Nat} (inside : w < p.dataWords) :
    Mam.readSlice p m w = m.content (m.cursor + 2 * w) ++ m.content (m.cursor + 2 * w + 1) := by
  have high : 2 * p.dataWords - 1 - (2 * (p.dataWords - w) - 1) = 2 * w := by omega
  have low : 2 * p.dataWords - 1 - (2 * (p.dataWords - w) - 2) = 2 * w + 1 := by omega
  cases big : p.endian <;>
    simp [Mam.readSlice, MamMemory.read_data, MamMemory.laneOf, Mam.endian_conv, MamParams.dataBytes, big, high, low,
      Nat.add_assoc]

namespace MamCore

/-- In a read burst with `left` beats to come, the next word is at `a`. -/
structure Streaming (p : MamParams) (left a : Nat) (m : MamMemory) (sent : List Flit) (c : MamCore) : Prop where
  beats : c.mam.req_beats = BitVec.ofNat 14 left
  waiting : 0 < left
  fits : left < 2 ^ 14
  inside : c.mam.wcounter < p.dataWords
  address : c.memory.cursor + 2 * c.mam.wcounter = a
  memory : c.memory = { m with cursor := c.memory.cursor }
  sent : c.sent = sent

variable {p : MamParams} {c d : MamCore} {left a k r : Nat} {m : MamMemory} {sent : List Flit}

theorem Streaming.word (inv : Streaming p left a m sent c) :
    Mam.readSlice p c.memory c.mam.wcounter = m.content a ++ m.content (a + 1) := by
  have content : c.memory.content = m.content := by rw [inv.memory]; rfl
  rw [readSlice_eq p c.memory inv.inside, content, inv.address]

theorem Streaming.out_go (inv : Streaming p left a m sent c) (phase : c.mam.phase = .read) :
    (c.go p).sent = sent ++ [⟨c.mam.counter == p.maxPktLen - 1
        || (c.mam.wcounter == p.dataWords - 1 && c.mam.req_beats == 1), m.content a ++ m.content (a + 1)⟩] := by
  simp [go, next, out, Mam.dp_out, phase, DiiFlit.passed, DiiFlit.ofFlit, DiiFlit.flit, Mam.readFlit, inv.word,
    inv.sent]

theorem Streaming.go_final (inv : Streaming p left a m sent c) (phase : c.mam.phase = .read)
    (count : 1 + c.mam.wcounter = left * p.dataWords) :
    (c.go p).mam.phase = .inactive ∧ (c.go p).memory = { m with cursor := (c.go p).memory.cursor }
    ∧ (c.go p).sent = sent ++ [⟨true, m.content a ++ m.content (a + 1)⟩] := by
  have inside := inv.inside
  have one : left = 1 := by
    by_contra other
    obtain ⟨k, rfl⟩ : ∃ k, left = k + 2 := ⟨left - 2, by have := inv.waiting; omega⟩
    have : p.dataWords ≤ (k + 1) * p.dataWords := Nat.le_mul_of_pos_left _ (by omega)
    have : (k + 2) * p.dataWords = (k + 1) * p.dataWords + p.dataWords := Nat.succ_mul _ _
    omega
  subst one
  have full : c.mam.wcounter = p.dataWords - 1 := by omega
  have last : c.mam.req_beats = 1#14 := inv.beats
  refine ⟨?_, ?_, ?_⟩
  · simp [go, next, Mam.next, phase, Mam.nextRead, full, last]
  · have memory' : (c.go p).memory = c.memory.advance p := by
      simp [go, next, Mam.memoryNext, Mam.req_valid, Mam.write_valid, Mam.read_ready, phase, full]
    rw [memory', inv.memory]
    rfl
  · rw [inv.out_go phase]
    simp [full, last]

theorem Streaming.go_slice (inv : Streaming p left a m sent c) (phase : c.mam.phase = .read)
    (count : r + 2 + c.mam.wcounter = left * p.dataWords) :
    (∃ left', Streaming p left' (a + 2) m
        (sent ++ [⟨c.mam.counter == p.maxPktLen - 1, m.content a ++ m.content (a + 1)⟩]) (c.go p)
      ∧ r + 1 + (c.go p).mam.wcounter = left' * p.dataWords)
    ∧ (c.go p).mam.phase = (if c.mam.counter = p.maxPktLen - 1 then .readPacket else .read)
    ∧ (c.go p).mam.counter = (if c.mam.counter = p.maxPktLen - 1 then 0 else c.mam.counter + 1) := by
  have inside := inv.inside
  have waiting := inv.waiting
  have fits := inv.fits
  have sent' := inv.out_go phase
  have address := inv.address
  by_cases full : c.mam.wcounter = p.dataWords - 1
  · -- The beat is complete, and since words remain it is not the last one.
    obtain ⟨k, rfl⟩ : ∃ k, left = k + 2 := by
      refine ⟨left - 2, ?_⟩
      by_contra other
      have one : left = 1 := by omega
      rw [one, Nat.one_mul] at count
      omega
    have beats : (k + 2) * p.dataWords = (k + 1) * p.dataWords + p.dataWords := Nat.succ_mul _ _
    have several : ¬ c.mam.req_beats = 1#14 := by
      rw [inv.beats, ofNat_eq_one_iff fits.le]
      omega
    have mam' : (c.go p).mam = Mam.flitSent p { c.mam with req_beats := c.mam.req_beats - 1, wcounter := 0 } := by
      simp [go, next, Mam.next, phase, Mam.nextRead, full, several]
    have memory' : (c.go p).memory = c.memory.advance p := by
      simp [go, next, Mam.memoryNext, Mam.req_valid, Mam.write_valid, Mam.read_ready, phase, full]
    refine ⟨⟨k + 1, ⟨?_, by omega, by omega, ?_, ?_, ?_, ?_⟩, ?_⟩, ?_, ?_⟩
    · have less : c.mam.req_beats - 1 = BitVec.ofNat 14 (k + 1) := by
        rw [inv.beats]
        apply BitVec.eq_of_toNat_eq
        rw [BitVec.toNat_sub, BitVec.toNat_ofNat, BitVec.toNat_ofNat, show BitVec.toNat (1 : BitVec 14) = 1 from rfl]
        omega
      rw [mam', Mam.flitSent, ← less]
      split <;> rfl
    · rw [mam', Mam.flitSent]
      split <;> simp <;> omega
    · have zero : (c.go p).mam.wcounter = 0 := by rw [mam', Mam.flitSent]; split <;> rfl
      rw [zero, memory', MamMemory.advance, MamParams.dataBytes]
      simp only
      omega
    · rw [memory', inv.memory]
      rfl
    · rw [sent']
      have differs : (c.mam.req_beats == 1) = false := by simpa using several
      rw [differs, Bool.and_false, Bool.or_false]
    · have zero : (c.go p).mam.wcounter = 0 := by rw [mam', Mam.flitSent]; split <;> rfl
      rw [zero]
      omega
    · rw [mam', Mam.flitSent]
      split <;> simp [phase]
    · rw [mam', Mam.flitSent]
      split <;> simp
  · have mam' : (c.go p).mam = Mam.flitSent p { c.mam with wcounter := c.mam.wcounter + 1 } := by
      simp [go, next, Mam.next, phase, Mam.nextRead, full]
    have memory' : (c.go p).memory = c.memory := by
      simp [go, next, Mam.memoryNext, Mam.req_valid, Mam.write_valid, Mam.read_ready, phase, full]
    have wcounter' : (c.go p).mam.wcounter = c.mam.wcounter + 1 := by rw [mam', Mam.flitSent]; split <;> rfl
    refine ⟨⟨left, ⟨?_, waiting, fits, ?_, ?_, ?_, ?_⟩, ?_⟩, ?_, ?_⟩
    · rw [← inv.beats, mam', Mam.flitSent]
      split <;> rfl
    · rw [wcounter']
      omega
    · rw [wcounter', memory']
      omega
    · rw [memory']
      exact inv.memory
    · rw [sent']
      simp [full]
    · rw [wcounter']
      omega
    · rw [mam', Mam.flitSent]
      split <;> simp [phase]
    · rw [mam', Mam.flitSent]
      split <;> simp

theorem Streaming.leads_opening (inv : Streaming p left a m sent c) (phase : c.mam.phase = .readPacket)
    (counter : c.mam.counter = 0) :
    ∃ d, (∀ {e : MamCore}, Leads p d [] e → Leads p c [] e) ∧ d.mam.phase = .read ∧ d.mam.counter = 2
      ∧ d.mam.wcounter = c.mam.wcounter
      ∧ Streaming p left a m (sent ++ [⟨false, 0⟩, ⟨false, sourceWord p⟩]) d := by
  obtain ⟨mam, memory, sent'⟩ := c
  simp only at phase counter
  have step : ((MamCore.mk mam memory sent').go p).go p =
      ⟨{ mam with counter := 2, phase := .read }, memory, sent' ++ [⟨false, 0⟩, ⟨false, sourceWord p⟩]⟩ := by
    simp [go, next, Mam.next, phase, Mam.nextReadPacket, counter, Mam.memoryNext, Mam.req_valid, Mam.write_valid,
      Mam.read_ready, out, Mam.dp_out, DiiFlit.passed, DiiFlit.ofFlit, DiiFlit.flit, Mam.headFlit, sourceWord]
  refine ⟨⟨{ mam with counter := 2, phase := .read }, memory, sent' ++ [⟨false, 0⟩, ⟨false, sourceWord p⟩]⟩,
    ?_, rfl, rfl, rfl, ⟨inv.beats, inv.waiting, inv.fits, inv.inside, inv.address, inv.memory,
    congrArg (· ++ [(⟨false, 0⟩ : Flit), ⟨false, sourceWord p⟩]) inv.sent⟩⟩
  intro e run
  refine .go (by simp [listening, Mam.dp_in_ready, phase]) (.go ?_ (step ▸ run))
  simp [listening, Mam.dp_in_ready, go, next, Mam.next, phase, Mam.nextReadPacket, counter]

/-- The words of a read burst leave in packets of the longest length. -/
theorem Streaming.leads_words (long : 3 ≤ p.maxPktLen) (inv : Streaming p left a m sent c)
    (phase : c.mam.phase = .read) (counter : c.mam.counter = k + 2) (space : k < p.maxPktLen - 2)
    (count : r + 1 + c.mam.wcounter = left * p.dataWords) :
    ∃ d, Leads p c [] d ∧ d.mam.phase = .inactive ∧ d.memory = { m with cursor := d.memory.cursor }
      ∧ d.sent = sent ++ emission p k (wordsAt m.content a (r + 1)) := by
  induction r generalizing c left a k sent with
  | zero =>
    obtain ⟨phase', memory', sent'⟩ := inv.go_final phase (by omega)
    refine ⟨c.go p, .go (by simp [listening, Mam.dp_in_ready, phase]) (.rest _), phase', memory', ?_⟩
    rw [sent']
    rfl
  | succ r ih =>
    obtain ⟨⟨left', inv', count'⟩, phase', counter'⟩ := inv.go_slice phase count
    have busy : c.listening = false := by simp [listening, Mam.dp_in_ready, phase]
    by_cases full : c.mam.counter = p.maxPktLen - 1
    · rw [if_pos full] at phase' counter'
      obtain ⟨c₂, opened, phase₂, counter₂, wcounter₂, inv₂⟩ := inv'.leads_opening phase' counter'
      obtain ⟨d, run, done, memory', sent'⟩ := ih inv₂ phase₂ counter₂ (by omega) (by rw [wcounter₂]; exact count')
      refine ⟨d, .go busy (opened run), done, memory', ?_⟩
      have ends : k + 1 = p.maxPktLen - 2 := by omega
      have flits : emission p k (wordsAt m.content a (r + 1 + 1)) =
          ⟨true, m.content a ++ m.content (a + 1)⟩ :: ⟨false, 0⟩ :: ⟨false, sourceWord p⟩
            :: emission p 0 (wordsAt m.content (a + 2) (r + 1)) := if_pos ends
      rw [sent', flits]
      simp [full]
    · rw [if_neg full] at phase' counter'
      obtain ⟨d, run, done, memory', sent'⟩ := ih (k := k + 1) inv' phase' (by rw [counter', counter]) (by omega) count'
      refine ⟨d, .go busy run, done, memory', ?_⟩
      have goes : ¬ k + 1 = p.maxPktLen - 2 := by omega
      have flits : emission p k (wordsAt m.content a (r + 1 + 1)) =
          ⟨false, m.content a ++ m.content (a + 1)⟩ :: emission p (k + 1) (wordsAt m.content (a + 2) (r + 1)) :=
        if_neg goes
      rw [sent', flits]
      simp [full]

end MamCore

end LowRisc.Debug
