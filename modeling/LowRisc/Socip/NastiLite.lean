import LowRisc.Chisel.Queue
import LowRisc.Lib.Transition
import LowRisc.Socip.ByteLanes
import LowRisc.Socip.Narrower

/-! What the two bridges from a NASTI master to a lite slave share: the functions on a request, the
lite words of a beat, and the ring buffer of requests.
-/

set_option autoImplicit false

namespace LowRisc.Socip

open LowRisc.Lib

/-- `MAX_TRANSACTION`, `NASTI_W_BITS`, `LITE_W_BITS` and `ADDR_WIDTH`. -/
structure NastiLiteParams where
  maxTransaction : Nat
  nb : Nat
  lb : Nat
  ab : Nat
  positive : 0 < maxTransaction
  wider : lb ≤ nb
  addressed : nb ≤ ab

/-! The widths of the double words and words that the examples are about. -/

theorem word_in_double : 2 ≤ 3 := by decide

theorem double_in_block : 3 ≤ 8 := by decide

namespace NastiLiteParams

variable (p : NastiLiteParams)

/-- `BUF_LEN_BITS`. -/
def bufLenBits : Nat := p.nb - p.lb

/-- `addr[NASTI_W_BITS-1:LITE_W_BITS]`, the lite word of an address in the NASTI word. -/
def wordOf (addr : Nat) : Nat := if p.lb < p.nb then addr / 2 ^ p.lb % 2 ^ p.bufLenBits else 0

end NastiLiteParams

/-- `resp` is `SLVERR` or `DECERR`. -/
def isError (resp : BitVec 2) : Bool := resp.getLsbD 1

namespace NastiLite

variable {I : Type} (p : NastiLiteParams) (req : NastiReq I)

def nasti_step_size : Nat := 2 ^ req.size

def nasti_shrink : Bool := decide (2 ^ p.lb < nasti_step_size req)

def lite_step_size : Nat := if nasti_shrink p req then 2 ^ p.lb else nasti_step_size req

def lite_packet_ratio : Nat := if nasti_shrink p req then 2 ^ (req.size - p.lb) else 1

def lite_packet_size : Nat := lite_packet_ratio p req * (req.len + 1)

/-- An INCR request that the ports can carry, with its address aligned to a beat. -/
structure Legal : Prop where
  len : req.len < 256
  size : req.size ≤ p.nb
  aligned : 2 ^ req.size ∣ req.addr

instance : Decidable (Legal p req) :=
  decidable_of_iff (req.len < 256 ∧ req.size ≤ p.nb ∧ 2 ^ req.size ∣ req.addr)
    ⟨fun h => ⟨h.1, h.2.1, h.2.2⟩, fun h => ⟨h.len, h.size, h.aligned⟩⟩

/-- Address of lite word `k` of a burst. -/
def wordAddr (k : Nat) : Nat := (req.addr + k * lite_step_size p req) % 2 ^ p.ab

def wordIndex (a : Nat) : Nat := (a - req.addr) / lite_step_size p req

theorem shrink_iff : nasti_shrink p req = true ↔ p.lb < req.size := by
  rw [nasti_shrink, decide_eq_true_iff, nasti_step_size]
  exact Nat.pow_lt_pow_iff_right (by decide)

theorem step_pos : 0 < lite_step_size p req := by
  unfold lite_step_size nasti_step_size
  split <;> exact Nat.two_pow_pos _

theorem ratio_pos : 0 < lite_packet_ratio p req := by
  unfold lite_packet_ratio
  split
  · exact Nat.two_pow_pos _
  · exact Nat.one_pos

theorem ratio_mul_step : lite_packet_ratio p req * lite_step_size p req = 2 ^ req.size := by
  unfold lite_packet_ratio lite_step_size nasti_step_size
  split
  · rename_i shrink
    rw [← Nat.pow_add, Nat.sub_add_cancel (Nat.le_of_lt ((shrink_iff p req).mp shrink))]
  · rw [Nat.one_mul]

theorem step_dvd : lite_step_size p req ∣ 2 ^ p.lb := by
  unfold lite_step_size
  split
  · exact Nat.dvd_refl _
  · rename_i same
    exact Nat.pow_dvd_pow 2 (Nat.not_lt.mp fun wide => same ((shrink_iff p req).mpr wide))

theorem wordOf_eq (addr : Nat) : p.wordOf addr = addr / 2 ^ p.lb % 2 ^ p.bufLenBits := by
  unfold NastiLiteParams.wordOf
  split
  · rfl
  · have wider := p.wider
    have none' : p.bufLenBits = 0 := by
      unfold NastiLiteParams.bufLenBits
      omega
    rw [none', Nat.pow_zero, Nat.mod_one]

theorem wordOf_mod (addr : Nat) : p.wordOf (addr % 2 ^ p.ab) = p.wordOf addr := by
  have wider := p.wider
  have addressed := p.addressed
  have split' : 2 ^ p.ab = 2 ^ p.lb * (2 ^ p.bufLenBits * 2 ^ (p.ab - p.nb)) := by
    rw [← Nat.pow_add, ← Nat.pow_add]
    congr 1
    unfold NastiLiteParams.bufLenBits
    omega
  rw [wordOf_eq, wordOf_eq, split', Nat.mod_mul_right_div_self, Nat.mod_mul_right_mod]

variable {p req}

theorem ratio_le (legal : Legal p req) : lite_packet_ratio p req ≤ 2 ^ p.bufLenBits := by
  have size := legal.size
  unfold lite_packet_ratio
  split
  · exact Nat.pow_le_pow_right (by decide) (by unfold NastiLiteParams.bufLenBits; omega)
  · exact Nat.two_pow_pos _

theorem wordOf_add (legal : Legal p req) (k : Nat) {r : Nat} (inBeat : r < lite_packet_ratio p req) :
    p.wordOf (req.addr + (k * lite_packet_ratio p req + r) * lite_step_size p req) =
      p.wordOf (req.addr + k * nasti_step_size req) + r ∧
    p.wordOf (req.addr + k * nasti_step_size req) + r < 2 ^ p.bufLenBits := by
  obtain ⟨m, start⟩ := legal.aligned
  have beat : (k * lite_packet_ratio p req + r) * lite_step_size p req =
      k * nasti_step_size req + r * lite_step_size p req := by
    rw [Nat.add_mul, Nat.mul_assoc, ratio_mul_step]
    rfl
  rw [beat, wordOf_eq, wordOf_eq, ← Nat.add_assoc]
  by_cases wide : p.lb < req.size
  · have shrink := (shrink_iff p req).mpr wide
    have step : lite_step_size p req = 2 ^ p.lb := if_pos shrink
    have ratio : lite_packet_ratio p req = 2 ^ (req.size - p.lb) := if_pos shrink
    have size := legal.size
    -- the beat starts at a multiple of the ratio
    have words : (req.addr + k * nasti_step_size req) / 2 ^ p.lb = lite_packet_ratio p req * (m + k) := by
      have whole : req.addr + k * nasti_step_size req = lite_packet_ratio p req * (m + k) * 2 ^ p.lb := by
        rw [start, nasti_step_size, Nat.mul_comm k, ← Nat.mul_add, ← ratio_mul_step p req, step]
        rw [Nat.mul_right_comm]
      rw [whole, Nat.mul_div_cancel _ (Nat.two_pow_pos _)]
    have lanes : 2 ^ p.bufLenBits = lite_packet_ratio p req * 2 ^ (p.nb - req.size) := by
      rw [ratio, ← Nat.pow_add]
      congr 1
      unfold NastiLiteParams.bufLenBits
      omega
    rw [step, Nat.add_mul_div_right _ _ (Nat.two_pow_pos _), words, lanes, Nat.mul_mod_mul_left]
    have below := Nat.mod_lt (m + k) (Nat.two_pow_pos (p.nb - req.size))
    have room : lite_packet_ratio p req * ((m + k) % 2 ^ (p.nb - req.size)) + lite_packet_ratio p req ≤
        lite_packet_ratio p req * 2 ^ (p.nb - req.size) := by
      rw [← Nat.mul_succ]
      exact Nat.mul_le_mul_left _ below
    refine ⟨?_, by omega⟩
    rw [Nat.mod_mul, Nat.mul_add_mod, Nat.mod_eq_of_lt inBeat, Nat.mul_add_div (ratio_pos p req), Nat.div_eq_of_lt inBeat,
      Nat.add_zero, Nat.add_comm]
  · have single : lite_packet_ratio p req = 1 := if_neg (fun shrink => wide ((shrink_iff p req).mp shrink))
    obtain rfl : r = 0 := by omega
    rw [Nat.zero_mul, Nat.add_zero, Nat.add_zero]
    exact ⟨rfl, Nat.mod_lt _ (Nat.two_pow_pos _)⟩

theorem byte_place (legal : Legal p req) {k a : Nat} (low : req.addr + k * nasti_step_size req ≤ a)
    (high : a < req.addr + (k + 1) * nasti_step_size req) :
    ∃ r < lite_packet_ratio p req, wordIndex p req a = k * lite_packet_ratio p req + r ∧
      a % 2 ^ p.nb = (p.wordOf (req.addr + k * nasti_step_size req) + r) * 2 ^ p.lb + a % 2 ^ p.lb := by
  have positive := ratio_pos p req
  have step := step_pos p req
  have size := ratio_mul_step p req
  have wider := p.wider
  -- the place of the byte within its beat names the word
  have inBeat : a - (req.addr + k * nasti_step_size req) < lite_packet_ratio p req * lite_step_size p req := by
    rw [size]
    rw [Nat.add_mul, Nat.one_mul] at high
    show _ < nasti_step_size req
    omega
  have less : (a - (req.addr + k * nasti_step_size req)) / lite_step_size p req < lite_packet_ratio p req :=
    (Nat.div_lt_iff_lt_mul step).mpr inBeat
  generalize place : (a - (req.addr + k * nasti_step_size req)) / lite_step_size p req = r at less
  have word : wordIndex p req a = k * lite_packet_ratio p req + r := by
    have distance : a - req.addr =
        lite_step_size p req * (k * lite_packet_ratio p req) + (a - (req.addr + k * nasti_step_size req)) := by
      have whole : lite_step_size p req * (k * lite_packet_ratio p req) = k * nasti_step_size req := by
        rw [Nat.mul_comm, Nat.mul_assoc, size]
        rfl
      omega
    rw [wordIndex, distance, Nat.mul_add_div step, place]
  refine ⟨r, less, word, ?_⟩
  have address : a = req.addr + (k * lite_packet_ratio p req + r) * lite_step_size p req +
      (a - (req.addr + k * nasti_step_size req)) % lite_step_size p req := by
    have parts := Nat.div_add_mod (a - (req.addr + k * nasti_step_size req)) (lite_step_size p req)
    have beat : k * lite_packet_ratio p req * lite_step_size p req = k * nasti_step_size req := by
      rw [Nat.mul_assoc, size]
      rfl
    rw [place, Nat.mul_comm (lite_step_size p req)] at parts
    rw [Nat.add_mul, beat]
    omega
  -- the burst starts at a multiple of the beat, so the lanes are those of the address
  have lane : a / 2 ^ p.lb = (req.addr + (k * lite_packet_ratio p req + r) * lite_step_size p req) / 2 ^ p.lb := by
    obtain ⟨q, lite⟩ := step_dvd p req
    obtain ⟨m, start⟩ := Nat.dvd_trans ⟨lite_packet_ratio p req, by rw [Nat.mul_comm, size]⟩ legal.aligned
    have word : (req.addr + (k * lite_packet_ratio p req + r) * lite_step_size p req) =
        lite_step_size p req * (m + (k * lite_packet_ratio p req + r)) := by
      rw [start, Nat.mul_add, Nat.mul_comm (k * lite_packet_ratio p req + r)]
    rw [lite, ← Nat.div_div_eq_div_mul, ← Nat.div_div_eq_div_mul, address, word, Nat.mul_add_div step,
      Nat.div_eq_of_lt (Nat.mod_lt _ step), Nat.mul_div_cancel_left _ step, Nat.add_zero]
  have whole : 2 ^ p.nb = 2 ^ p.lb * 2 ^ p.bufLenBits := by
    rw [← Nat.pow_add]
    congr 1
    unfold NastiLiteParams.bufLenBits
    omega
  rw [← (wordOf_add legal k less).1, wordOf_eq, ← lane, whole, Nat.mod_mul, Nat.mul_comm (2 ^ p.lb), Nat.add_comm]

end NastiLite

/-! The ring buffer of requests. One flag tells a full buffer from an empty one. -/

structure RequestBuffer (α : Type) where
  buf : Nat → α
  rp : Nat
  wp : Nat
  valid : Bool

namespace RequestBuffer

variable {α : Type}

def incr (cnt step ub : Nat) : Nat := if ub - step ≤ cnt then 0 else cnt + step

def full (b : RequestBuffer α) : Bool := b.valid && b.wp == b.rp

/-- `push` is an accepted request, `take` that the current transaction ends or there is none. -/
def next (n : Nat) (b : RequestBuffer α) (push : Option α) (take : Bool) : RequestBuffer α where
  buf := match push with
    | some x => upd b.buf b.wp x
    | none => b.buf
  rp := if b.valid && take then incr b.rp 1 n else b.rp
  wp := if push.isSome then incr b.wp 1 n else b.wp
  valid := if push.isSome then true else if take && b.wp == incr b.rp 1 n then false else b.valid

structure Contains (n : Nat) (b : RequestBuffer α) (list : List α) : Prop where
  bound : list.length ≤ n
  start : b.rp < n
  stop : b.wp = Chisel.Queue.place n b.rp list.length
  valid : b.valid = !list.isEmpty
  entry : ∀ i a, list[i]? = some a → b.buf (Chisel.Queue.place n b.rp i) = a

section
variable {n : Nat} {b : RequestBuffer α} {list : List α}

open Chisel.Queue (place place_eq_start_iff place_ne)

theorem incr_eq {cnt : Nat} (inside : cnt < n) : incr cnt 1 n = Chisel.Queue.inc n cnt := by
  unfold incr Chisel.Queue.inc
  split <;> split <;> omega

theorem contains_nil (n : Nat) (positive : 0 < n) (buf : Nat → α) : Contains n ⟨buf, 0, 0, false⟩ [] :=
  ⟨Nat.zero_le _, positive, by simp [place, positive], rfl, fun i a found => by simp at found⟩

theorem Contains.full_eq (holds : Contains n b list) (positive : 0 < n) : b.full = decide (list.length = n) := by
  cases list with
  | nil =>
    have other : ¬ 0 = n := by omega
    simp [full, holds.valid, other]
  | cons a rest =>
    have ends := place_eq_start_iff holds.start holds.bound
    have same : b.wp = b.rp ↔ (a :: rest).length = n := by
      rw [holds.stop, ends]
      simp
    rw [full, holds.valid, Bool.eq_iff_iff]
    simpa using same

theorem Contains.head {a : α} {rest : List α} (holds : Contains n b (a :: rest)) : b.buf b.rp = a := by
  have first := holds.entry 0 a rfl
  simpa [place, holds.start] using first

theorem Contains.push (holds : Contains n b list) (room : list.length < n) (x : α) :
    Contains n ⟨upd b.buf b.wp x, b.rp, incr b.wp 1 n, true⟩ (list ++ [x]) := by
  have inside : b.wp < n := by
    rw [holds.stop]
    have start := holds.start
    unfold place
    split <;> omega
  refine ⟨by simpa using Nat.succ_le_of_lt room, holds.start, ?_, by simp, ?_⟩
  · rw [incr_eq inside, holds.stop, Chisel.Queue.inc_place holds.start room]
    simp
  · intro i a found
    by_cases old : i < list.length
    · rw [List.getElem?_append_left old] at found
      have other : place n b.rp i ≠ b.wp := by
        rw [holds.stop]
        exact place_ne old room
      exact (upd_of_ne other).trans (holds.entry i a found)
    · rw [List.getElem?_append_right (by omega)] at found
      have tail : i = list.length := by
        by_contra differ
        rw [List.getElem?_singleton, if_neg (by omega)] at found
        cases found
      rw [tail, Nat.sub_self] at found
      have same : x = a := Option.some.inj found
      show upd b.buf b.wp x (place n b.rp i) = a
      rw [tail, ← holds.stop, upd_same, same]

theorem Contains.pop {a : α} {rest : List α} (holds : Contains n b (a :: rest)) :
    Contains n ⟨b.buf, incr b.rp 1 n, b.wp, if b.wp == incr b.rp 1 n then false else b.valid⟩ rest := by
  have start := holds.start
  have bound : rest.length + 1 ≤ n := holds.bound
  have head : incr b.rp 1 n = place n b.rp 1 := by
    rw [incr_eq start]
    simp only [Chisel.Queue.inc, place]
    split <;> split <;> omega
  refine ⟨by omega, ?_, ?_, ?_, ?_⟩
  · rw [incr_eq start]
    exact Chisel.Queue.inc_lt start
  · rw [incr_eq start, Chisel.Queue.place_inc start (by omega), holds.stop]
    rfl
  · rw [head, holds.stop, holds.valid]
    cases rest with
    | nil => simp
    | cons c more =>
      have apart : place n b.rp (a :: c :: more).length ≠ place n b.rp 1 := by
        simp only [List.length_cons] at bound ⊢
        unfold place
        split <;> split <;> omega
      simpa using apart
  · intro i x found
    have small : i < rest.length := (List.getElem?_eq_some_iff.mp found).1
    rw [incr_eq start, Chisel.Queue.place_inc start (by omega)]
    exact holds.entry (i + 1) x (by simpa using found)

/-- The buffer follows its list: no request is lost or repeated. -/
theorem Contains.next (holds : Contains n b list) {push : Option α} (room : push.isSome → list.length < n) (take : Bool) :
    Contains n (b.next n push take) ((if take then list.tail else list) ++ push.toList) := by
  cases list with
  | nil =>
    have empty : b.valid = false := holds.valid
    cases push with
    | none =>
      have same : b.next n none take = b := by
        cases b
        cases empty
        simp [RequestBuffer.next]
      rw [same]
      cases take <;> exact holds
    | some x =>
      have same : b.next n (some x) take = ⟨upd b.buf b.wp x, b.rp, incr b.wp 1 n, true⟩ := by
        simp [RequestBuffer.next, empty]
      rw [same]
      cases take <;> exact holds.push (room rfl) x
  | cons a rest =>
    have nonempty : b.valid = true := holds.valid
    cases take with
    | false =>
      cases push with
      | none => simpa [RequestBuffer.next] using holds
      | some x => simpa [RequestBuffer.next] using holds.push (room rfl) x
    | true =>
      cases push with
      | none => simpa [RequestBuffer.next, nonempty] using holds.pop
      | some x =>
        have less : rest.length < n := Nat.lt_trans (Nat.lt_succ_self _) (room rfl)
        simpa [RequestBuffer.next, nonempty] using holds.pop.push less x

end

end RequestBuffer

/-! The requests of a bridge: those whose transaction is over, the current one, and those that wait in
the buffer. -/

structure Queued {α : Type} (n : Nat) (b : RequestBuffer α) (valid : Bool) (req : α) (accepted closed waiting : List α) :
    Prop where
  accepted : accepted = closed ++ (if valid then [req] else []) ++ waiting
  buffer : b.Contains n waiting

namespace Queued

variable {α : Type} {n : Nat} {b : RequestBuffer α} {valid : Bool} {req : α} {accepted closed waiting : List α}

theorem room (queued : Queued n b valid req accepted closed waiting) (positive : 0 < n) (offered : Option α) :
    (offered.filter fun _ => !b.full).isSome → waiting.length < n := by
  intro taken
  obtain ⟨x, taken⟩ := Option.isSome_iff_exists.mp taken
  rw [Option.filter_eq_some_iff, queued.buffer.full_eq positive] at taken
  have bound := queued.buffer.bound
  simp only [Bool.not_eq_true', decide_eq_false_iff_not] at taken
  omega

theorem take (queued : Queued n b valid req accepted closed waiting) {push : Option α}
    (room : push.isSome → waiting.length < n) {closed' : List α} (ended : closed' ++ waiting = accepted) :
    Queued n (b.next n push true) b.valid (if b.valid then b.buf b.rp else req) (accepted ++ push.toList) closed'
      (waiting.tail ++ push.toList) := by
  refine ⟨?_, by simpa using queued.buffer.next room true⟩
  have head : (if b.valid then [if b.valid then b.buf b.rp else req] else []) ++ waiting.tail = waiting := by
    cases waiting with
    | nil =>
      have empty : b.valid = false := queued.buffer.valid
      simp [empty]
    | cons a rest =>
      have nonempty : b.valid = true := queued.buffer.valid
      simp [nonempty, queued.buffer.head]
  calc accepted ++ push.toList = closed' ++ waiting ++ push.toList := by rw [ended]
    _ = closed' ++ ((if b.valid then [if b.valid then b.buf b.rp else req] else []) ++ waiting.tail) ++ push.toList := by
      rw [head]
    _ = _ := by simp only [List.append_assoc]

theorem stay (queued : Queued n b valid req accepted closed waiting) {push : Option α}
    (room : push.isSome → waiting.length < n) :
    Queued n (b.next n push false) valid req (accepted ++ push.toList) closed (waiting ++ push.toList) :=
  ⟨by rw [queued.accepted, List.append_assoc _ waiting], by simpa using queued.buffer.next room false⟩

theorem pending (queued : Queued n b valid req accepted closed waiting) :
    accepted.drop closed.length = (if valid then [req] else []) ++ waiting := by
  rw [queued.accepted, List.append_assoc]
  exact List.drop_left' rfl

end Queued

end LowRisc.Socip
