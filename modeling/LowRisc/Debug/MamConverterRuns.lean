import LowRisc.Debug.MamConverter

/-! The runs of the bridge. -/

set_option autoImplicit false

namespace LowRisc.Debug

open LowRisc.Chisel LowRisc.Lib

namespace MamConverter

variable {p : ConverterParams}

section Range

variable (p) (r : MamReq)

/-- The first byte of the range in beat `k`. -/
def shiftAt (k : Nat) : Nat := if k = 0 then r.addr % p.tlDataBytes else 0

theorem tlDataBytes_pos : 0 < p.tlDataBytes := Nat.two_pow_pos _

theorem roomy (ipw : Nat) : p.tlDataBytes + ipw + ipw < 2 ^ SerDesBuffer.pointerWidth (p.tlDataBytes + ipw) :=
  SerDesBuffer.roomy_of_lt (Nat.lt_add_of_pos_left (tlDataBytes_pos p))

theorem shiftAt_lt (k : Nat) : shiftAt p r k < p.tlDataBytes := by
  unfold shiftAt
  split
  · exact Nat.mod_lt _ (tlDataBytes_pos p)
  · exact tlDataBytes_pos p

theorem covered_zero : covered p r 0 = 0 := by simp [covered]

theorem covered_le (k : Nat) : covered p r k ≤ total p r := Nat.min_le_left _ _

theorem covered_mono {j k : Nat} (before : j ≤ k) : covered p r j ≤ covered p r k := by
  have product := Nat.mul_le_mul_right p.tlDataBytes before
  unfold covered
  omega

variable {r} {k : Nat}

theorem place_eq (more : covered p r k < total p r) :
    r.addr % p.tlDataBytes + covered p r k = k * p.tlDataBytes + shiftAt p r k := by
  have offset := Nat.mod_lt r.addr (tlDataBytes_pos p)
  unfold covered at more ⊢
  unfold shiftAt
  split
  · rename_i first
    rw [first, Nat.zero_mul]
    omega
  · have past : p.tlDataBytes ≤ k * p.tlDataBytes := Nat.le_mul_of_pos_left _ (by omega)
    omega

theorem addr_place (more : covered p r k < total p r) :
    r.addr + covered p r k = (r.addr / p.tlDataBytes + k) * p.tlDataBytes + shiftAt p r k := by
  have split := Nat.div_add_mod' r.addr p.tlDataBytes
  have place := place_eq p more
  rw [Nat.add_mul]
  omega

theorem covered_succ (more : covered p r k < total p r) :
    covered p r (k + 1) = covered p r k + min (total p r - covered p r k) (p.tlDataBytes - shiftAt p r k) := by
  have place := place_eq p more
  have inside := shiftAt_lt p r k
  have next : (k + 1) * p.tlDataBytes = k * p.tlDataBytes + p.tlDataBytes := Nat.succ_mul _ _
  unfold covered at more place ⊢
  omega

theorem covered_lt_iff (some_bytes : 0 < total p r) : covered p r k < total p r ↔ k < pieceCount p r := by
  have positive := tlDataBytes_pos p
  have next : (k + 1) * p.tlDataBytes = k * p.tlDataBytes + p.tlDataBytes := Nat.succ_mul _ _
  have quotient : k < pieceCount p r ↔ (k + 1) * p.tlDataBytes ≤ r.addr % p.tlDataBytes + total p r + p.tlDataBytes - 1 := by
    rw [← Nat.le_div_iff_mul_le positive]
    rfl
  rw [quotient, next]
  unfold covered
  omega

theorem covered_all (some_bytes : 0 < total p r) (done : pieceCount p r ≤ k) : covered p r k = total p r := by
  have limit := covered_le p r k
  have full := (covered_lt_iff p some_bytes (k := k)).not.mpr (by omega)
  omega

theorem Legal.total_pos (legal : Legal p r) : 0 < total p r := Nat.mul_pos legal.some_beats (Nat.two_pow_pos _)

theorem Legal.total_lt (legal : Legal p r) : total p r < 2 ^ p.mamBytesBits := by
  have words : p.mamBytes ≤ 2 ^ log2Up p.mamBytes := le_two_pow_log2Up _
  calc
    total p r ≤ r.beats * 2 ^ log2Up p.mamBytes := Nat.mul_le_mul_left _ words
    _ < 2 ^ p.mamBeatsBits * 2 ^ log2Up p.mamBytes := Nat.mul_lt_mul_of_pos_right legal.beats (Nat.two_pow_pos _)
    _ = 2 ^ p.mamBytesBits := by rw [ConverterParams.mamBytesBits, Nat.pow_add]

end Range

section Lanes

variable (p)

theorem length_flatMap_lanes {α : Type} {k n : Nat} (f : α → BitVec n) (words : List α) :
    (words.flatMap fun w => SerDesBuffer.lanes k (f w) p.mamBytes).length = words.length * p.mamBytes := by
  induction words with
  | nil => simp
  | cons w words ih => rw [List.flatMap_cons, List.length_append, ih, SerDesBuffer.length_lanes, List.length_cons,
      Nat.succ_mul, Nat.add_comm]

theorem length_dataLanes (t : Transaction p) : (dataLanes p t).length = t.words.length * p.mamBytes :=
  length_flatMap_lanes p MamWData.data t.words

theorem length_maskLanes (t : Transaction p) : (maskLanes p t).length = t.words.length * p.mamBytes :=
  length_flatMap_lanes p (maskOf p t.req.burst) t.words

end Lanes

/-- The registers in the middle of a transaction. -/
structure Working (t : Transaction p) (m : Regs p) : Prop where
  legal : Legal p t.req
  fits : Fits p t.req
  req : m.req = { t.req with addr := (t.req.addr + covered p t.req t.grants.length) % 2 ^ p.mamAddrBits }
  byte_cnt : m.byte_cnt = total p t.req - covered p t.req t.grants.length
  sent : t.acquires.length = t.grants.length + m.tl_acq_sent.toNat
  more : m.tl_acq_sent = true → covered p t.req t.grants.length < total p t.req
  bound : t.grants.length ≤ pieceCount p t.req
  acquires : ∀ k a, t.acquires[k]? = some a → AcquireRight p t k a
  words : t.words.length ≤ t.req.beats
  reads : t.req.rw = false → t.words = []
  supplied : t.req.rw = true → covered p t.req t.acquires.length ≤ (dataLanes p t).length
  mam_data : SerDesBuffer.Contains ((dataLanes p t).drop (covered p t.req t.acquires.length)) m.mam_data
  mam_mask : SerDesBuffer.Contains ((maskLanes p t).drop (covered p t.req t.acquires.length)) m.mam_mask

namespace Working

variable {t : Transaction p} {m : Regs p} {e : Input p}

theorem rw_eq (working : Working t m) : m.req.rw = t.req.rw := by rw [working.req]

theorem byteAddrBits (working : Working t m) : p.tlByteAddrBits = p.tlByteBits := log2Up_two_pow working.fits.several

theorem valid_iff (working : Working t m) : tl_valid p m = true ↔ covered p t.req t.grants.length < total p t.req := by
  have limit := covered_le p t.req t.grants.length
  rw [tl_valid, working.byte_cnt, bne_iff_ne]
  omega

theorem addrBits_le (p : ConverterParams) : p.pAddrBits ≤ p.mamAddrBits := p.addr_fits

theorem shift_eq (working : Working t m) (valid : tl_valid p m = true) : tl_shift p m = shiftAt p t.req t.grants.length := by
  have more := working.valid_iff.mp valid
  have wide : p.tlByteBits ≤ p.mamAddrBits := by
    have fits := addrBits_le p
    rw [ConverterParams.pAddrBits, working.byteAddrBits] at fits
    omega
  rw [tl_shift, working.byteAddrBits, working.req, Nat.mod_mod_of_dvd _ (Nat.pow_dvd_pow 2 wide), addr_place p more,
    Nat.mul_comm, Nat.mul_add_mod, Nat.mod_eq_of_lt (shiftAt_lt p t.req t.grants.length)]

theorem count_eq (working : Working t m) (valid : tl_valid p m = true) : tl_count p m =
    min (total p t.req - covered p t.req t.grants.length) (p.tlDataBytes - shiftAt p t.req t.grants.length) := by
  have more := working.valid_iff.mp valid
  have shift := working.shift_eq valid
  have inside := shiftAt_lt p t.req t.grants.length
  have narrow : p.tlDataBytes < 2 ^ (p.tlBlockAddrBits + 1) :=
    Nat.pow_lt_pow_right (by decide) (by have := working.fits.count; omega)
  have sum : m.byte_cnt + tl_shift p m < 2 ^ max p.mamBytesBits p.tlByteAddrBits := by
    have fits := working.fits.sum
    rw [working.byte_cnt, shift]
    unfold shiftAt
    split <;> omega
  rw [tl_count, Nat.mod_eq_of_lt sum, shift, working.byte_cnt]
  split
  · rw [Nat.mod_eq_of_lt (by omega)]
    omega
  · rw [Nat.mod_eq_of_lt (by omega)]
    omega

theorem covered_next (working : Working t m) (valid : tl_valid p m = true) :
    covered p t.req (t.grants.length + 1) = covered p t.req t.grants.length + tl_count p m := by
  rw [working.count_eq valid, covered_succ p (working.valid_iff.mp valid)]

theorem count_pos (working : Working t m) (valid : tl_valid p m = true) : 0 < tl_count p m := by
  have more := working.valid_iff.mp valid
  have inside := shiftAt_lt p t.req t.grants.length
  rw [working.count_eq valid]
  omega

theorem count_le (working : Working t m) (valid : tl_valid p m = true) :
    tl_shift p m + tl_count p m ≤ p.tlDataBytes := by
  have inside := shiftAt_lt p t.req t.grants.length
  rw [working.count_eq valid, working.shift_eq valid]
  omega

theorem beat_count_eq (working : Working t m) (valid : tl_valid p m = true) :
    tl_beat_byte_count p m = tl_count p m := by
  have room := le_two_pow_log2Up (p.tlDataBytes + 1)
  have small := working.count_le valid
  rw [tl_beat_byte_count]
  exact Nat.mod_eq_of_lt (by omega)

theorem beat_eq (working : Working t m) (valid : tl_valid p m = true) :
    (acquire p m).addr_block * 2 ^ p.tlBeatAddrBits + (acquire p m).addr_beat =
      (t.req.addr / p.tlDataBytes + t.grants.length) % 2 ^ (p.tlBlockAddrBits + p.tlBeatAddrBits) := by
  have more := working.valid_iff.mp valid
  have positive := Nat.two_pow_pos p.tlByteBits
  have bits := working.byteAddrBits
  have fits := addrBits_le p
  rw [ConverterParams.pAddrBits, bits] at fits
  have whole : (acquire p m).addr_block * 2 ^ p.tlBeatAddrBits + (acquire p m).addr_beat = tl_addr p m / 2 ^ p.tlByteBits := by
    simp only [acquire, bits]
    rw [Nat.pow_add, Nat.mul_comm (2 ^ p.tlBeatAddrBits), ← Nat.div_div_eq_div_mul, Nat.div_add_mod']
  have beat : m.req.addr / 2 ^ p.tlByteBits % 2 ^ (p.tlBlockAddrBits + p.tlBeatAddrBits) =
      (t.req.addr / p.tlDataBytes + t.grants.length) % 2 ^ (p.tlBlockAddrBits + p.tlBeatAddrBits) := by
    obtain ⟨extra, width⟩ := Nat.exists_eq_add_of_le fits
    rw [working.req]
    simp only
    rw [width, show p.tlBlockAddrBits + p.tlBeatAddrBits + p.tlByteBits + extra =
      p.tlByteBits + (p.tlBlockAddrBits + p.tlBeatAddrBits + extra) by omega, Nat.pow_add 2 p.tlByteBits,
      Nat.mod_mul_right_div_self, Nat.mod_mod_of_dvd _ (Nat.pow_dvd_pow 2 (Nat.le_add_right _ extra)), addr_place p more,
      Nat.mul_comm, Nat.mul_add_div positive, Nat.div_eq_of_lt (shiftAt_lt p t.req _), Nat.add_zero]
  rw [whole, tl_addr, ConverterParams.pAddrBits, bits, Nat.pow_add 2 _ p.tlByteBits, Nat.mul_comm _ (2 ^ p.tlByteBits),
    Nat.mul_comm _ (2 ^ p.tlByteBits), Nat.mod_mul_right_div_self, Nat.mul_div_cancel_left _ positive, beat]

/-- A sub-request goes out only for a part that is not asked for yet, a write with all its bytes. -/
theorem of_acquire (working : Working t m) (goes : acquireFire p m e = true) :
    tl_valid p m = true ∧ m.tl_acq_sent = false ∧ t.acquires.length = t.grants.length ∧
      (t.req.rw = true → covered p t.req (t.grants.length + 1) ≤ (dataLanes p t).length) := by
  simp only [acquireFire, acquire_valid, Bool.and_eq_true, Bool.or_eq_true, Bool.not_eq_true', decide_eq_true_eq] at goes
  obtain ⟨⟨⟨valid, unsent⟩, stored⟩, -⟩ := goes
  have same : t.acquires.length = t.grants.length := by rw [working.sent, unsent, Bool.toNat_false, Nat.add_zero]
  refine ⟨valid, unsent, same, fun write => ?_⟩
  have supply := working.supplied write
  rcases stored with read | stored
  · rw [working.rw_eq, write] at read
    cases read
  · rw [working.mam_data.wp, List.length_drop, same] at stored
    rw [same] at supply
    rw [working.covered_next valid]
    omega

/-- The lanes of a write: what the buffer holds, moved up to the first byte of the part. -/
theorem lane_shifted {dw : Nat} {b : SerDesBuffer dw (p.tlDataBytes + p.mamBytes)} {l : List (BitVec dw)}
    (contains : b.Contains l) {shift j : Nat} (inside : j < p.tlDataBytes) :
    lane dw (b.out_bits p.tlDataBytes <<< (shift * dw)) j = if j < shift then 0 else l.getD (j - shift) 0 := by
  rw [SerDesBuffer.out_bits, contains.buffer, setWidth_toBits_le _ (Nat.le_add_right _ _), toBits_shiftLeft,
    lane_toBits _ inside]

theorem getD_drop {α : Type} (l : List α) (skip i : Nat) (d : α) : (l.drop skip).getD i d = l.getD (skip + i) d := by
  rw [List.getD_eq_getElem?_getD, List.getElem?_drop, ← List.getD_eq_getElem?_getD]

theorem acquire_right (working : Working t m) (goes : acquireFire p m e = true) :
    AcquireRight p t t.grants.length (acquire p m) := by
  obtain ⟨valid, -, same, supply⟩ := working.of_acquire goes
  have more := working.valid_iff.mp valid
  have place := place_eq p more
  have shift := working.shift_eq valid
  have data := working.mam_data
  have mask := working.mam_mask
  rw [same] at data mask
  refine ⟨working.rw_eq, working.beat_eq valid, ?_, ?_⟩
  · intro write j inside
    simp only [acquire, working.rw_eq, write, ↓reduceIte, shift]
    rw [lane_shifted mask inside, getD_drop]
    -- the lanes in front of the address are masked in the first beat only
    by_cases before : j < shiftAt p t.req t.grants.length
    · have first : t.grants.length = 0 := by
        by_contra later
        simp [shiftAt, later] at before
      rw [if_pos before, if_neg]
      rw [first, covered_zero] at place
      rw [first] at before ⊢
      omega
    · rw [if_neg before]
      split
      · congr 1
        omega
      · rename_i outside
        -- behind the words that came there is nothing
        have short : (maskLanes p t).length ≤ total p t.req := by
          rw [length_maskLanes]
          exact Nat.mul_le_mul_right _ working.words
        exact List.getD_eq_default _ _ (by omega)
  · intro write j inside low high
    have reached : shiftAt p t.req t.grants.length ≤ j := by
      unfold shiftAt
      split
      · rename_i first
        rw [first] at low
        omega
      · exact Nat.zero_le j
    simp only [acquire, working.rw_eq, write, ↓reduceIte, shift]
    rw [lane_shifted data inside, getD_drop, if_neg (Nat.not_lt.mpr reached)]
    congr 1
    omega

end Working

theorem AcquireRight.record {t : Transaction p} {m : Regs p} {e : Input p} {k : Nat} {a : SubRequest p}
    (right : AcquireRight p t k a) (stored : t.req.rw = true → covered p t.req (k + 1) ≤ (dataLanes p t).length) :
    AcquireRight p (record p m e t) k a := by
  have data : dataLanes p (MamConverter.record p m e t) = dataLanes p t ++
      (wTaken p m e).toList.flatMap fun w => SerDesBuffer.lanes 8 w.data p.mamBytes := List.flatMap_append
  have mask : maskLanes p (MamConverter.record p m e t) = maskLanes p t ++
      (wTaken p m e).toList.flatMap fun w => SerDesBuffer.lanes 1 (maskOf p t.req.burst w) p.mamBytes :=
    List.flatMap_append
  have next : (k + 1) * p.tlDataBytes = k * p.tlDataBytes + p.tlDataBytes := Nat.succ_mul _ _
  have index {j : Nat} (inside : j < p.tlDataBytes) (high : k * p.tlDataBytes + j < t.req.addr % p.tlDataBytes + total p t.req)
      (low : t.req.addr % p.tlDataBytes ≤ k * p.tlDataBytes + j) (write : t.req.rw = true) :
      k * p.tlDataBytes + j - t.req.addr % p.tlDataBytes < t.words.length * p.mamBytes := by
    have enough := stored write
    rw [length_dataLanes] at enough
    unfold covered at enough
    omega
  refine ⟨right.write, right.addr, ?_, ?_⟩
  · intro write j inside
    rw [right.wmask write j inside, mask]
    apply ite_congr rfl
    · intro ⟨low, high⟩
      rw [List.getD_append]
      · rfl
      · rw [length_maskLanes]
        exact index inside high low write
    · intro _
      rfl
  · intro write j inside low high
    rw [right.data write j inside low high, data, List.getD_append]
    · rfl
    · rw [length_dataLanes]
      exact index inside high low write

structure Allowed (t : Transaction p) (m : Regs p) (e : Input p) : Prop where
  wdata : e.wdata.isSome → t.req.rw = true ∧ t.words.length < t.req.beats
  grant : e.grant.isSome → t.grants.length < t.acquires.length + (acquireTaken p m e).toList.length
  prompt : e.grant.isSome → m.req.rw = true → acquireTaken p m e = none

theorem length_acquireTaken (m : Regs p) (e : Input p) :
    (acquireTaken p m e).toList.length = (acquireFire p m e).toNat := by
  unfold acquireTaken
  cases acquireFire p m e <;> rfl

theorem length_grantTaken (m : Regs p) (e : Input p) :
    (grantTaken p m e).toList.length = (grantTaken p m e).isSome.toNat := by
  cases grantTaken p m e <;> rfl

theorem grantTaken_isSome (m : Regs p) (e : Input p) : (grantTaken p m e).isSome = grantFire p m e := by
  unfold grantTaken grantFire
  cases e.grant with
  | none => rfl
  | some g => cases grant_ready p m <;> simp [Option.filter]

section Step

variable {t : Transaction p} {m : Regs p} {e : Input p}

/-- A grant answers the sub-request that is out, or the one that goes out now. -/
theorem Working.of_grant (working : Working t m) (allowed : Allowed t m e) (came : e.grant.isSome = true) :
    tl_valid p m = true ∧ (m.tl_acq_sent = true ∨ acquireFire p m e = true) := by
  have open' := allowed.grant came
  rw [length_acquireTaken, working.sent] at open'
  cases sent : m.tl_acq_sent with
  | true => exact ⟨working.valid_iff.mpr (working.more sent), .inl rfl⟩
  | false =>
    cases goes : acquireFire p m e with
    | true => exact ⟨(working.of_acquire goes).1, .inr rfl⟩
    | false => simp [sent, goes] at open'

theorem Working.tl_ready_eq (working : Working t m) (allowed : Allowed t m e) :
    tl_ready p m e = (grantTaken p m e).isSome := by
  rw [grantTaken_isSome, tl_ready]
  cases came : e.grant with
  | none => simp [grantFire, came]
  | some g =>
    have some' : e.grant.isSome = true := by rw [came]; rfl
    obtain ⟨valid, owed⟩ := working.of_grant allowed some'
    cases write : m.req.rw with
    | false => simp [valid]
    | true =>
      have quiet : acquireFire p m e = false := by
        have none' := allowed.prompt some' write
        rw [acquireTaken] at none'
        cases goes : acquireFire p m e with
        | false => rfl
        | true => simp [goes] at none'
      have sent : m.tl_acq_sent = true := owed.resolve_right (by simp [quiet])
      simp [valid, grantFire, grant_ready, came, write, sent]

theorem Working.length_acquires (t : Transaction p) (m : Regs p) (e : Input p) :
    (record p m e t).acquires.length = t.acquires.length + (acquireFire p m e).toNat := by
  rw [record, List.length_append, length_acquireTaken]

theorem Working.length_grants (t : Transaction p) (m : Regs p) (e : Input p) :
    (record p m e t).grants.length = t.grants.length + (grantTaken p m e).isSome.toNat := by
  rw [record, List.length_append, length_grantTaken]

theorem Working.covered_grants (working : Working t m) (allowed : Allowed t m e) :
    covered p t.req (record p m e t).grants.length =
      covered p t.req t.grants.length + if tl_ready p m e then tl_count p m else 0 := by
  rw [Working.length_grants, ← working.tl_ready_eq allowed]
  cases ready : tl_ready p m e with
  | false => rfl
  | true =>
    have valid : tl_valid p m = true := (Bool.and_eq_true_iff.mp ready).1
    rw [if_pos rfl, Bool.toNat_true, working.covered_next valid]

theorem Working.buffer_next (working : Working t m) {dw : Nat} {b : SerDesBuffer dw (p.tlDataBytes + p.mamBytes)}
    {l extra : List (BitVec dw)} (contains : b.Contains (l.drop (covered p t.req t.acquires.length)))
    (length : l.length = t.words.length * p.mamBytes) {input : Option (BitVec (p.mamBytes * dw))}
    (pushed : b.pushed input p.mamBytes = extra) (read : t.req.rw = false → extra = []) :
    SerDesBuffer.Contains ((l ++ extra).drop (covered p t.req (t.acquires.length + (acquireFire p m e).toNat)))
      (b.next input p.mamBytes (acquireFire p m e) (tl_beat_byte_count p m)) := by
  have step := contains.next (roomy p _) input (fun _ => Nat.le_refl _) (acquireFire p m e)
    (tl_beat_byte_count p m)
  rw [pushed] at step
  cases write : t.req.rw with
  | false =>
    -- a read has no words to write
    have empty : l = [] := by
      rw [← List.length_eq_zero_iff, length, working.reads write, List.length_nil, Nat.zero_mul]
    rw [read write, empty] at step ⊢
    simpa using step
  | true =>
    have supply := working.supplied write
    rw [length_dataLanes, ← length] at supply
    -- what is sent leaves the buffer, which has it complete
    have goesOut : b.outFire (acquireFire p m e) (tl_beat_byte_count p m) = acquireFire p m e := by
      rw [SerDesBuffer.outFire]
      cases goes : acquireFire p m e with
      | false => rw [Bool.and_false]
      | true =>
        obtain ⟨valid, -, same, enough⟩ := working.of_acquire goes
        have next := enough write
        rw [length_dataLanes, ← length, working.covered_next valid] at next
        rw [Bool.and_true, contains.out_valid_iff, working.beat_count_eq valid, List.length_drop, same]
        exact ⟨working.count_pos valid, by omega⟩
    rw [goesOut] at step
    have places : covered p t.req (t.acquires.length + (acquireFire p m e).toNat) =
        covered p t.req t.acquires.length + if acquireFire p m e then tl_beat_byte_count p m else 0 := by
      cases goes : acquireFire p m e with
      | false => rfl
      | true =>
        obtain ⟨valid, -, same, -⟩ := working.of_acquire goes
        rw [if_pos rfl, Bool.toNat_true, working.beat_count_eq valid, same, working.covered_next valid]
    rwa [places, ← List.drop_drop, List.drop_append_of_le_length supply]

theorem pushed_map {dw : Nat} {b : SerDesBuffer dw (p.tlDataBytes + p.mamBytes)} (wp : b.wp = m.mam_data.wp)
    (f : MamWData p → BitVec (p.mamBytes * dw)) :
    b.pushed (e.wdata.map f) p.mamBytes =
      (wTaken p m e).toList.flatMap fun w => SerDesBuffer.lanes dw (f w) p.mamBytes := by
  have same : b.in_ready p.mamBytes = m.mam_data.in_ready p.mamBytes := by simp [SerDesBuffer.in_ready, wp]
  unfold SerDesBuffer.pushed SerDesBuffer.taken wTaken
  cases e.wdata with
  | none => rfl
  | some w => cases ready : m.mam_data.in_ready p.mamBytes <;> simp [Option.filter, same, ready]


theorem Working.req_next (working : Working t m) (allowed : Allowed t m e) (none' : reqTaken p m e = none) :
    (next p m e).req = { t.req with addr := (t.req.addr + covered p t.req (record p m e t).grants.length) % 2 ^ p.mamAddrBits } := by
  have place := working.covered_grants allowed
  simp only [next, none', place]
  cases tl_ready p m e with
  | false => simpa using working.req
  | true =>
    simp only [↓reduceIte, working.req, Nat.mod_add_mod, Nat.add_assoc]

theorem Working.byte_cnt_next (working : Working t m) (allowed : Allowed t m e) (none' : reqTaken p m e = none) :
    (next p m e).byte_cnt = total p t.req - covered p t.req (record p m e t).grants.length := by
  have place := working.covered_grants allowed
  have limit := covered_le p t.req (record p m e t).grants.length
  have small := working.legal.total_lt
  simp only [next, none', place, working.byte_cnt]
  cases ready : tl_ready p m e with
  | false => simp
  | true =>
    rw [ready, if_pos rfl] at place
    obtain ⟨extra, width⟩ : ∃ extra, max p.mamBytesBits (p.tlBlockAddrBits + 1) = p.mamBytesBits + extra :=
      ⟨_, (Nat.add_sub_of_le (Nat.le_max_left _ _)).symm⟩
    simp only [↓reduceIte, width, Nat.pow_add]
    rw [show total p t.req - covered p t.req t.grants.length + 2 ^ p.mamBytesBits * 2 ^ extra - tl_count p m =
      total p t.req - (covered p t.req t.grants.length + tl_count p m) + 2 ^ p.mamBytesBits * 2 ^ extra by omega,
      Nat.add_mul_mod_self_left]
    exact Nat.mod_eq_of_lt (by omega)

theorem Working.sent_next (working : Working t m) (allowed : Allowed t m e) :
    (record p m e t).acquires.length = (record p m e t).grants.length + (next p m e).tl_acq_sent.toNat := by
  have count := working.sent
  rw [Working.length_acquires, Working.length_grants, ← working.tl_ready_eq allowed]
  simp only [next]
  have apart : acquireFire p m e = true → m.tl_acq_sent = false := fun goes => (working.of_acquire goes).2.1
  have owed : tl_ready p m e = true → m.tl_acq_sent = true ∨ acquireFire p m e = true := by
    intro ready
    rw [working.tl_ready_eq allowed, grantTaken_isSome] at ready
    exact (working.of_grant allowed (Bool.and_eq_true_iff.mp ready).1).2
  cases ready : tl_ready p m e <;> cases goes : acquireFire p m e <;> cases sent : m.tl_acq_sent <;>
    simp_all

theorem Working.more_next (working : Working t m) (allowed : Allowed t m e) (sent : (next p m e).tl_acq_sent = true) :
    covered p t.req (record p m e t).grants.length < total p t.req := by
  simp only [next, Bool.and_eq_true, Bool.not_eq_true', Bool.or_eq_true] at sent
  rw [working.covered_grants allowed, sent.1]
  rcases sent.2 with sent | goes
  · exact working.more sent
  · exact working.valid_iff.mp (working.of_acquire goes).1

theorem Working.acquires_next (working : Working t m) (k : Nat) (a : SubRequest p)
    (found : (record p m e t).acquires[k]? = some a) : AcquireRight p (record p m e t) k a := by
  rw [MamConverter.record, List.getElem?_append] at found
  split at found
  · rename_i old
    refine (working.acquires k a found).record fun write => ?_
    exact Nat.le_trans (covered_mono p t.req old) (working.supplied write)
  · rename_i new
    rw [acquireTaken] at found
    cases goes : acquireFire p m e with
    | false => simp [goes] at found
    | true =>
      obtain ⟨-, -, same, enough⟩ := working.of_acquire goes
      rw [goes, if_pos rfl, Option.toList_some, List.getElem?_singleton] at found
      split at found
      · have place : k = t.grants.length := by omega
        rw [← Option.some.inj found, place]
        exact (working.acquire_right goes).record enough
      · cases found

theorem Working.step (working : Working t m) (allowed : Allowed t m e) (none' : reqTaken p m e = none) :
    Working (record p m e t) (next p m e) := by
  -- only writes bring words
  have reads : t.req.rw = false → (wTaken p m e).toList = [] := by
    intro read
    rw [wTaken]
    cases came : e.wdata with
    | none => rfl
    | some w =>
      have write := (allowed.wdata (by rw [came]; rfl)).1
      rw [read] at write
      cases write
  -- data and mask go through buffers of one shape
  have data := working.buffer_next (e := e) working.mam_data (length_dataLanes p t) (pushed_map rfl MamWData.data)
    fun read => by rw [reads read]; rfl
  have mask := working.buffer_next (e := e) working.mam_mask (length_maskLanes p t)
    (pushed_map (by rw [working.mam_mask.wp, working.mam_data.wp, List.length_drop, List.length_drop, length_dataLanes,
      length_maskLanes]) (maskOf p t.req.burst)) fun read => by rw [reads read]; rfl
  refine ⟨working.legal, working.fits, working.req_next allowed none', working.byte_cnt_next allowed none',
    working.sent_next allowed, working.more_next allowed, ?_, working.acquires_next, ?_, ?_, ?_, ?_, ?_⟩
  · rw [Working.length_grants, ← working.tl_ready_eq allowed]
    cases ready : tl_ready p m e with
    | false => exact working.bound
    | true =>
      have more := working.valid_iff.mp (Bool.and_eq_true_iff.mp ready).1
      exact (covered_lt_iff p working.legal.total_pos).mp more
  · have old := working.words
    rw [record, List.length_append, wTaken]
    cases came : e.wdata with
    | none => simpa using old
    | some w =>
      have room := (allowed.wdata (by rw [came]; rfl)).2
      simp only [Option.filter]
      split <;> simp <;> omega
  · intro read
    rw [record, working.reads read, reads read]
    rfl
  · intro write
    rw [Working.length_acquires]
    have longer : (dataLanes p t).length ≤ (dataLanes p (record p m e t)).length := by
      rw [length_dataLanes, length_dataLanes, record, List.length_append]
      exact Nat.mul_le_mul_right _ (Nat.le_add_right _ _)
    refine Nat.le_trans ?_ longer
    cases goes : acquireFire p m e with
    | false => exact working.supplied write
    | true =>
      obtain ⟨-, -, same, enough⟩ := working.of_acquire goes
      rw [same]
      exact enough write
  · rw [Working.length_acquires, dataLanes, record, List.flatMap_append]
    exact data
  · rw [Working.length_acquires, maskLanes, record, List.flatMap_append]
    simp only [next, working.req]
    exact mask

theorem Working.readLanes_next (working : Working t m) (allowed : Allowed t m e) :
    readLanes p (record p m e t) =
      readLanes p t ++ m.tl_data.pushed (tlDataIn p m e) (tl_beat_byte_count p m) := by
  unfold readLanes
  cases write : t.req.rw with
  | true => simp [record, write, SerDesBuffer.pushed, SerDesBuffer.taken, tlDataIn, working.rw_eq]
  | false =>
    -- of a read every beat is taken, as far as the buffer has room
    have taken : m.tl_data.taken (tlDataIn p m e) =
        (grantTaken p m e).map fun (g : BitVec (p.tlDataBytes * 8)) => g >>> (tl_shift p m * 8) := by
      unfold SerDesBuffer.taken tlDataIn grantTaken grant_ready
      rw [working.rw_eq, write]
      cases e.grant with
      | none => rfl
      | some g => cases m.tl_data.in_ready p.tlDataBytes <;> simp [Option.filter]
    rw [SerDesBuffer.pushed, taken]
    cases came : grantTaken p m e with
    | none => simp [record, write, came]
    | some g =>
      have valid : tl_valid p m = true := (working.of_grant allowed (by
        rw [grantTaken, Option.filter_eq_some_iff] at came
        rw [came.1]
        rfl)).1
      have more := working.valid_iff.mp valid
      have place := place_eq p more
      have shift := working.shift_eq valid
      have small := working.count_le valid
      have grants : (record p m e t).grants = t.grants ++ [g] := by rw [record, came]; rfl
      have req : (record p m e t).req = t.req := rfl
      simp only [req, write, Bool.false_eq_true, ↓reduceIte, Option.map_some, grants, List.length_append, List.length_singleton]
      rw [working.covered_next valid, working.beat_count_eq valid, List.range_add, List.map_append, SerDesBuffer.lanes,
        List.map_map]
      congr 1
      -- the lanes so far lie in earlier beats
      · apply List.map_congr_left
        intro i before
        rw [List.mem_range] at before
        have low : (t.req.addr % p.tlDataBytes + i) / p.tlDataBytes < t.grants.length := by
          rw [Nat.div_lt_iff_lt_mul (tlDataBytes_pos p)]
          unfold shiftAt at place
          split at place
          · rename_i first
            rw [first, covered_zero] at before
            omega
          · omega
        rw [List.getD_append _ _ _ _ low]
      -- the new lanes are those of this beat
      · apply List.map_congr_left
        intro j inside
        rw [List.mem_range] at inside
        have far : tl_shift p m + j < p.tlDataBytes := by omega
        have beat : (t.req.addr % p.tlDataBytes + (covered p t.req t.grants.length + j)) / p.tlDataBytes = t.grants.length := by
          rw [← Nat.add_assoc, place, ← shift, Nat.add_assoc, Nat.mul_comm, Nat.mul_add_div (tlDataBytes_pos p),
            Nat.div_eq_of_lt far, Nat.add_zero]
        have byte : (t.req.addr + (covered p t.req t.grants.length + j)) % p.tlDataBytes = tl_shift p m + j := by
          rw [← Nat.add_assoc, addr_place p more, ← shift, Nat.add_assoc, Nat.mul_comm, Nat.mul_add_mod,
            Nat.mod_eq_of_lt far]
        simp only [Function.comp_apply, beat, byte]
        rw [List.getD_append_right _ _ _ _ (Nat.le_refl _), Nat.sub_self, List.getD_cons_zero]
        conv_rhs => rw [← toBits_lane g, toBits_ushiftRight, lane_toBits _ (by omega), if_pos far]

theorem Working.covered_done (working : Working t m) (ready : req_ready p m = true) :
    covered p t.req t.grants.length = total p t.req := by
  have limit := covered_le p t.req t.grants.length
  rw [req_ready, beq_iff_eq, working.byte_cnt] at ready
  omega

/-- With nothing left to count every part was asked for and answered. -/
theorem Working.complete (working : Working t m) (ready : req_ready p m = true) :
    m.tl_acq_sent = false ∧ t.acquires.length = pieceCount p t.req ∧ t.grants.length = pieceCount p t.req := by
  have whole := working.covered_done ready
  have unsent : m.tl_acq_sent = false := by
    by_contra sent
    have more := working.more (by simpa using sent)
    omega
  have last := (covered_lt_iff p working.legal.total_pos (k := t.grants.length)).not.mp (by omega)
  have bound := working.bound
  have count := working.sent
  rw [unsent, Bool.toNat_false] at count
  exact ⟨unsent, by omega, by omega⟩

theorem Working.inProgress (working : Working t m) : InProgress p t := by
  have count := working.sent
  have bound := working.bound
  have one : m.tl_acq_sent.toNat ≤ 1 := Bool.toNat_le _
  refine ⟨working.acquires, ?_, by omega, by omega⟩
  cases sent : m.tl_acq_sent with
  | false => rw [count, sent]; exact bound
  | true =>
    rw [count, sent]
    exact (covered_lt_iff p working.legal.total_pos).mp (working.more sent)

theorem Working.used (working : Working t m) (ready : req_ready p m = true) :
    (dataLanes p t).drop (covered p t.req t.acquires.length) = [] ∧
      (maskLanes p t).drop (covered p t.req t.acquires.length) = [] := by
  obtain ⟨-, acquired, -⟩ := working.complete ready
  have whole := covered_all p working.legal.total_pos (Nat.le_of_eq acquired.symm)
  have words : t.words.length * p.mamBytes ≤ total p t.req := Nat.mul_le_mul_right _ working.words
  rw [whole]
  refine ⟨List.drop_eq_nil_of_le ?_, List.drop_eq_nil_of_le ?_⟩
  · rwa [length_dataLanes]
  · rwa [length_maskLanes]

theorem Working.silent (working : Working t m) (allowed : Allowed t m e) (ready : req_ready p m = true) :
    e.wdata = none ∧ e.grant = none := by
  obtain ⟨unsent, acquired, answered⟩ := working.complete ready
  constructor
  · cases came : e.wdata with
    | none => rfl
    | some w =>
      obtain ⟨write, room⟩ := allowed.wdata (by rw [came]; rfl)
      have supply := working.supplied write
      rw [covered_all p working.legal.total_pos (Nat.le_of_eq acquired.symm), length_dataLanes] at supply
      have words : t.req.beats ≤ t.words.length := Nat.le_of_mul_le_mul_right supply (Nat.two_pow_pos _)
      omega
  · cases came : e.grant with
    | none => rfl
    | some g =>
      have valid := (working.of_grant allowed (by rw [came]; rfl)).1
      have more := working.valid_iff.mp valid
      have whole := working.covered_done ready
      omega

end Step

/-- No request in hand. -/
structure Resting (m : Regs p) : Prop where
  ready : req_ready p m = true
  unsent : m.tl_acq_sent = false
  mam_data : m.mam_data.Contains []
  mam_mask : m.mam_mask.Contains []

section Rest

variable {t : Transaction p} {m : Regs p} {e : Input p}

theorem Working.resting (working : Working t m) (ready : req_ready p m = true) : Resting m where
  ready := ready
  unsent := (working.complete ready).1
  mam_data := (working.used ready).1 ▸ working.mam_data
  mam_mask := (working.used ready).2 ▸ working.mam_mask

theorem Resting.invalid (resting : Resting m) : tl_valid p m = false := by
  have ready := resting.ready
  rw [req_ready, beq_iff_eq] at ready
  simp [tl_valid, ready]

theorem Resting.quiet (resting : Resting m) : acquireFire p m e = false := by
  simp [acquireFire, acquire_valid, resting.invalid]

theorem empty_next {dw : Nat} {b : SerDesBuffer dw (p.tlDataBytes + p.mamBytes)} (empty : b.Contains []) (in_size out_size : Nat) :
    (b.next (none : Option (BitVec (p.mamBytes * dw))) in_size false out_size).Contains [] := by
  have step : (b.next (none : Option (BitVec (p.mamBytes * dw))) in_size false out_size).Contains _ :=
    empty.next (roomy p _) none (fun came => by cases came) false out_size
  simpa [SerDesBuffer.pushed, SerDesBuffer.taken, SerDesBuffer.outFire] using step

theorem Resting.next (resting : Resting m) (wdata : e.wdata = none) (none' : reqTaken p m e = none) :
    Resting (next p m e) where
  ready := by
    have ready := resting.ready
    simpa [req_ready, MamConverter.next, none', tl_ready, resting.invalid] using ready
  unsent := by simp [MamConverter.next, resting.unsent, resting.quiet]
  mam_data := by
    simp only [MamConverter.next, wdata, resting.quiet, Option.map_none]
    exact empty_next resting.mam_data _ _
  mam_mask := by
    simp only [MamConverter.next, wdata, resting.quiet, Option.map_none]
    exact empty_next resting.mam_mask _ _

theorem Resting.take (resting : Resting m) (wdata : e.wdata = none) {r : MamReq} (took : reqTaken p m e = some r)
    (legal : Legal p r) (fits : Fits p r) : Working ⟨r, [], [], []⟩ (MamConverter.next p m e) where
  legal := legal
  fits := fits
  req := by simp [MamConverter.next, took, covered_zero, Nat.mod_eq_of_lt legal.addr]
  byte_cnt := by
    simp only [MamConverter.next, took, List.length_nil, covered_zero, Nat.sub_zero]
    exact Nat.mod_eq_of_lt legal.total_lt
  sent := by simp [MamConverter.next, resting.unsent, resting.quiet]
  more up := by simp [MamConverter.next, resting.unsent, resting.quiet] at up
  bound := Nat.zero_le _
  acquires k a found := by simp at found
  words := Nat.zero_le _
  reads _ := rfl
  supplied _ := by simp [covered_zero]
  mam_data := by
    simp only [MamConverter.next, wdata, resting.quiet, Option.map_none]
    simpa [dataLanes] using empty_next resting.mam_data _ _
  mam_mask := by
    simp only [MamConverter.next, wdata, resting.quiet, Option.map_none]
    simpa [maskLanes] using empty_next resting.mam_mask _ _

end Rest

structure Inv (s : System p) : Prop where
  done : ∀ t ∈ s.done, Complete p t
  working : ∀ t, s.current = some t → Working t s.regs
  resting : s.current = none → Resting s.regs ∧ s.done = []
  pending : ∃ l, s.regs.tl_data.Contains l ∧ handed p s ++ l = (all p s).flatMap (readLanes p)

section Cycle

variable {s : System p} {e : Input p}

theorem Inv.reset (reset : AfterReset p s) : Inv s where
  done t member := by rw [reset.done] at member; cases member
  working t found := by rw [reset.current] at found; cases found
  resting _ := ⟨⟨by simp [req_ready, reset.byte_cnt], reset.tl_acq_sent,
    SerDesBuffer.contains_nil reset.mam_data.1 reset.mam_data.2,
    SerDesBuffer.contains_nil reset.mam_mask.1 reset.mam_mask.2⟩, reset.done⟩
  pending := ⟨[], SerDesBuffer.contains_nil reset.tl_data.1 reset.tl_data.2, by simp [handed, all, reset.rdata, reset.done, reset.current]⟩

theorem Inv.allowed (offers : Offers p s e) (served : Served p s e) {t : Transaction p} (current : s.current = some t) :
    Allowed t s.regs e where
  wdata came := by
    obtain ⟨t', found, owed⟩ := offers.wdata came
    rw [current, Option.mem_some_iff] at found
    exact found ▸ owed
  grant came := by
    obtain ⟨t', found, owed⟩ := offers.grant came
    rw [current, Option.mem_some_iff] at found
    exact found ▸ owed
  prompt := served.grant

theorem Inv.silent_start (offers : Offers p s e) (none' : s.current = none) : e.wdata = none ∧ e.grant = none := by
  constructor
  · cases came : e.wdata with
    | none => rfl
    | some w =>
      obtain ⟨t, found, -⟩ := offers.wdata (by rw [came]; rfl)
      rw [none'] at found
      cases found
  · cases came : e.grant with
    | none => rfl
    | some g =>
      obtain ⟨t, found, -⟩ := offers.grant (by rw [came]; rfl)
      rw [none'] at found
      cases found

theorem record_silent {t : Transaction p} {m : Regs p} (wdata : e.wdata = none) (grant : e.grant = none)
    (quiet : acquireFire p m e = false) : record p m e t = t := by
  simp [record, wTaken, acquireTaken, grantTaken, wdata, grant, quiet]

theorem pushed_silent {m : Regs p} (grant : e.grant = none) : m.tl_data.pushed (tlDataIn p m e) (tl_beat_byte_count p m) = [] := by
  simp [SerDesBuffer.pushed, SerDesBuffer.taken, tlDataIn, grant]

theorem Inv.pending_next (inv : Inv s) {extra : List (BitVec 8)}
    (small : (s.regs.tl_data.taken (tlDataIn p s.regs e)).isSome → tl_beat_byte_count p s.regs ≤ p.tlDataBytes)
    (pushed : s.regs.tl_data.pushed (tlDataIn p s.regs e) (tl_beat_byte_count p s.regs) = extra)
    (lanes : (all p (cycle p s e)).flatMap (readLanes p) = (all p s).flatMap (readLanes p) ++ extra) :
    ∃ l, (cycle p s e).regs.tl_data.Contains l ∧
      handed p (cycle p s e) ++ l = (all p (cycle p s e)).flatMap (readLanes p) := by
  obtain ⟨l, contains, same⟩ := inv.pending
  have step := contains.next (roomy p _) (tlDataIn p s.regs e) small e.rdata_ready p.mamBytes
  rw [pushed] at step
  refine ⟨_, step, ?_⟩
  rw [lanes, ← same, handed, cycle, List.flatMap_append, ← handed, rdataTaken]
  cases out : s.regs.tl_data.outFire e.rdata_ready p.mamBytes with
  | false => simp
  | true =>
    have stored : p.mamBytes ≤ l.length := (contains.out_valid_iff.mp (Bool.and_eq_true_iff.mp out).1).2
    simp only [↓reduceIte, Option.toList_some, List.flatMap_cons, List.flatMap_nil, List.append_nil]
    rw [contains.lanes_out (Nat.le_refl _) stored, List.drop_append_of_le_length stored, List.append_assoc,
      ← List.append_assoc (l.take _), List.take_append_drop, List.append_assoc]

theorem Inv.cycle (inv : Inv s) (offers : Offers p s e) (served : Served p s e) : Inv (cycle p s e) := by
  cases current : s.current with
  | none =>
    obtain ⟨resting, empty⟩ := inv.resting current
    -- without a request neither words nor answers may come
    obtain ⟨wdata, grant⟩ := Inv.silent_start offers current
    have pushed := pushed_silent (m := s.regs) grant
    have small : (s.regs.tl_data.taken (tlDataIn p s.regs e)).isSome → tl_beat_byte_count p s.regs ≤ p.tlDataBytes := by
      simp [SerDesBuffer.taken, tlDataIn, grant]
    cases took : reqTaken p s.regs e with
    | none =>
      refine ⟨?_, ?_, ?_, inv.pending_next small pushed ?_⟩
      · simpa [MamConverter.cycle, took] using inv.done
      · intro t found
        simp [MamConverter.cycle, took, current] at found
      · intro _
        exact ⟨resting.next wdata took, by simp [MamConverter.cycle, took, empty]⟩
      · simp [all, MamConverter.cycle, took, current]
    | some r =>
      have member : r ∈ e.req := (Option.filter_eq_some_iff.mp took).1
      refine ⟨?_, ?_, ?_, inv.pending_next small pushed ?_⟩
      · simpa [MamConverter.cycle, took, current] using inv.done
      · intro t found
        simp only [MamConverter.cycle, took, Option.some.injEq] at found
        rw [← found]
        exact resting.take wdata took (offers.req r member) (served.req r member)
      · intro none'
        simp [MamConverter.cycle, took] at none'
      · simp [all, MamConverter.cycle, took, current, readLanes, covered_zero]
  | some t =>
    have working := inv.working t current
    have allowed := Inv.allowed offers served current
    cases took : reqTaken p s.regs e with
    | none =>
      have small : (s.regs.tl_data.taken (tlDataIn p s.regs e)).isSome → tl_beat_byte_count p s.regs ≤ p.tlDataBytes := by
        intro came
        have grant : e.grant.isSome = true := by
          cases g : e.grant with
          | none => simp [SerDesBuffer.taken, tlDataIn, g] at came
          | some g => rfl
        have valid := (working.of_grant allowed grant).1
        rw [working.beat_count_eq valid]
        have := working.count_le valid
        omega
      refine ⟨?_, ?_, ?_, inv.pending_next small rfl ?_⟩
      · simpa [MamConverter.cycle, took] using inv.done
      · intro t' found
        simp only [MamConverter.cycle, took, current, Option.map_some, Option.some.injEq] at found
        rw [← found]
        exact working.step allowed took
      · intro none'
        simp [MamConverter.cycle, took, current] at none'
      · simp [all, MamConverter.cycle, took, current, working.readLanes_next allowed]
    | some r =>
      have member : r ∈ e.req := (Option.filter_eq_some_iff.mp took).1
      have ready : req_ready p s.regs = true := (Option.filter_eq_some_iff.mp took).2
      -- a new request comes only when the last one is complete
      have resting := working.resting ready
      obtain ⟨wdata, grant⟩ := working.silent allowed ready
      have same : record p s.regs e t = t := record_silent wdata grant resting.quiet
      have small : (s.regs.tl_data.taken (tlDataIn p s.regs e)).isSome → tl_beat_byte_count p s.regs ≤ p.tlDataBytes := by
        simp [SerDesBuffer.taken, tlDataIn, grant]
      refine ⟨?_, ?_, ?_, inv.pending_next small (pushed_silent grant) ?_⟩
      · intro t' found
        simp only [MamConverter.cycle, took, current, Option.isSome_some, ↓reduceIte, Option.map_some, same,
          Option.toList_some, List.mem_append, List.mem_singleton] at found
        rcases found with old | rfl
        · exact inv.done t' old
        · obtain ⟨-, acquired, answered⟩ := working.complete ready
          exact ⟨working.inProgress, acquired, answered⟩
      · intro t' found
        simp only [MamConverter.cycle, took, Option.some.injEq] at found
        rw [← found]
        exact resting.take wdata took (offers.req r member) (served.req r member)
      · intro none'
        simp [MamConverter.cycle, took] at none'
      · simp [all, MamConverter.cycle, took, current, same, readLanes, covered_zero]

/-! Progress. -/

theorem length_handed (s : System p) : (handed p s).length = s.rdata.length * p.mamBytes :=
  length_flatMap_lanes p id s.rdata

theorem length_readLanes {t : Transaction p} (read : t.req.rw = false) :
    (readLanes p t).length = covered p t.req t.grants.length := by
  rw [readLanes, read]
  simp

theorem whole_words {t : Transaction p} (whole : covered p t.req t.grants.length = total p t.req) :
    p.mamBytes ∣ (readLanes p t).length := by
  cases write : t.req.rw with
  | true => simp [readLanes, write]
  | false =>
    rw [length_readLanes write, whole]
    exact Nat.dvd_mul_left _ _

theorem dvd_flatMap {d : Nat} {ts : List (Transaction p)} (each : ∀ t ∈ ts, d ∣ (readLanes p t).length) :
    d ∣ (ts.flatMap (readLanes p)).length := by
  induction ts with
  | nil => exact Nat.dvd_zero d
  | cons t ts ih =>
    rw [List.flatMap_cons, List.length_append]
    exact Nat.dvd_add (each t List.mem_cons_self) (ih fun t' later => each t' (List.mem_cons_of_mem _ later))

theorem Complete.covered_eq {t : Transaction p} (complete : Complete p t) :
    covered p t.req t.grants.length = total p t.req := by
  rcases Nat.eq_zero_or_pos (total p t.req) with empty | some_bytes
  · have limit := covered_le p t.req t.grants.length
    omega
  · exact covered_all p some_bytes (Nat.le_of_eq complete.answered.symm)

theorem Inv.pending_dvd (inv : Inv s) {d : Nat} {l : List (BitVec 8)} (words : d ∣ p.mamBytes)
    (same : handed p s ++ l = (all p s).flatMap (readLanes p))
    (last : ∀ t, s.current = some t → d ∣ (readLanes p t).length) : d ∣ l.length := by
  have old : d ∣ (handed p s).length := by
    rw [length_handed]
    exact Nat.dvd_trans words (Nat.dvd_mul_left _ _)
  have sum : d ∣ ((all p s).flatMap (readLanes p)).length := by
    apply dvd_flatMap
    intro t member
    rcases List.mem_append.mp member with done | current
    · exact Nat.dvd_trans words (whole_words (inv.done t done).covered_eq)
    · exact last t (by simpa using current)
  rw [← same, List.length_append] at sum
  exact (Nat.dvd_add_right old).mp sum

/-- The read buffer gives a word away when it has no room for a beat. -/
theorem Inv.word_waits (inv : Inv s) {t : Transaction p} {l : List (BitVec 8)} (current : s.current = some t)
    (same : handed p s ++ l = (all p s).flatMap (readLanes p))
    (read : t.req.rw = false) (full : p.tlDataBytes < l.length) : p.mamBytes ≤ l.length := by
  have working := inv.working t current
  rcases working.fits.read with write | narrow | ⟨double, aligned⟩
  · rw [read] at write
    cases write
  · have small : p.mamBytes ≤ p.tlDataBytes := Nat.pow_le_pow_right (by decide) narrow
    omega
  · have twice : p.mamBytes = p.tlDataBytes * 2 := by rw [ConverterParams.mamBytes, double, Nat.pow_succ]
    have beats : p.tlDataBytes ∣ l.length := by
      apply inv.pending_dvd ⟨2, twice⟩ same
      intro t' found
      rw [current] at found
      rw [← Option.some.inj found, length_readLanes read, covered, aligned, Nat.sub_zero]
      rcases Nat.le_total (total p t.req) (t.grants.length * p.tlDataBytes) with whole | part
      · rw [Nat.min_eq_left whole, total, twice]
        exact Nat.dvd_mul_left_of_dvd (Nat.dvd_mul_right _ _) _
      · rw [Nat.min_eq_right part]
        exact Nat.dvd_mul_left _ _
    obtain ⟨k, count⟩ := beats
    have more : 1 < k := by
      by_contra few
      have bound := Nat.mul_le_mul_left p.tlDataBytes (show k ≤ 1 by omega)
      omega
    rw [twice, count]
    exact Nat.mul_le_mul_left _ more

section Cooperation

variable {t : Transaction p} {l : List (BitVec 8)}

theorem Working.rank_cycle (working : Working t s.regs) (allowed : Allowed t s.regs e) (current : s.current = some t)
    (contains : s.regs.tl_data.Contains l) (quiet : e.req = none) :
    rank p s = (p.tlDataBytes + 2) * (pieceCount p t.req - t.grants.length) + (t.req.beats - t.words.length) -
        s.regs.tl_acq_sent.toNat + l.length ∧
      rank p (cycle p s e) =
        (p.tlDataBytes + 2) * (pieceCount p t.req - (t.grants.length + (tl_ready p s.regs e).toNat)) +
          (t.req.beats - (t.words.length + (wTaken p s.regs e).toList.length)) -
          (!tl_ready p s.regs e && (s.regs.tl_acq_sent || acquireFire p s.regs e)).toNat +
          (next p s.regs e).tl_data.wp := by
  have none' : reqTaken p s.regs e = none := by rw [reqTaken, quiet]; rfl
  have grants := Working.length_grants t s.regs e
  rw [← working.tl_ready_eq allowed] at grants
  have words : (record p s.regs e t).words.length = t.words.length + (wTaken p s.regs e).toList.length :=
    List.length_append
  refine ⟨by simp only [rank, current, contains.wp], ?_⟩
  rw [← grants, ← words]
  simp only [rank, cycle, none', current, Option.map_some, record]
  rfl

theorem Working.pieces_left (working : Working t s.regs) (valid : tl_valid p s.regs = true) :
    (p.tlDataBytes + 2) * (pieceCount p t.req - t.grants.length) =
      (p.tlDataBytes + 2) * (pieceCount p t.req - (t.grants.length + 1)) + (p.tlDataBytes + 2) := by
  have below := (covered_lt_iff p working.legal.total_pos).mp (working.valid_iff.mp valid)
  rw [← Nat.mul_succ]
  congr 1
  omega

/-- Answers come only for what is out, so no sub-request goes out beside one. -/
theorem Cooperative.allowed (coop : Cooperative p s e) (offers : Offers p s e) (working : Working t s.regs)
    (current : s.current = some t) : Allowed t s.regs e := by
  have outstanding := coop.grant t current
  refine ⟨fun came => ?_, fun came => ?_, fun came _ => ?_⟩
  · obtain ⟨t', found, owed⟩ := offers.wdata came
    rw [current, Option.mem_some_iff] at found
    exact found ▸ owed
  · exact Nat.lt_add_right _ (outstanding.mp came)
  · have sent := working.sent
    have owed := outstanding.mp came
    cases goes : acquireFire p s.regs e with
    | false => simp [acquireTaken, goes]
    | true =>
      rw [(working.of_acquire goes).2.1, Bool.toNat_false] at sent
      omega

theorem Cooperative.outFire (coop : Cooperative p s e) (contains : s.regs.tl_data.Contains l)
    (stored : p.mamBytes ≤ l.length) : s.regs.tl_data.outFire e.rdata_ready p.mamBytes = true := by
  rw [SerDesBuffer.outFire, coop.rdata, Bool.and_true, contains.out_valid_iff]
  exact ⟨Nat.two_pow_pos _, stored⟩

theorem wp_next (working : Working t s.regs) (allowed : Allowed t s.regs e)
    (contains : s.regs.tl_data.Contains l) :
    (next p s.regs e).tl_data.wp + (if s.regs.tl_data.outFire e.rdata_ready p.mamBytes then p.mamBytes else 0) ≤
      l.length + if tl_ready p s.regs e && !t.req.rw then p.tlDataBytes else 0 := by
  have valid (came : e.grant.isSome = true) := (working.of_grant allowed came).1
  have small : (s.regs.tl_data.taken (tlDataIn p s.regs e)).isSome → tl_beat_byte_count p s.regs ≤ p.tlDataBytes := by
    intro came
    have grant : e.grant.isSome = true := by
      cases g : e.grant with
      | none => simp [SerDesBuffer.taken, tlDataIn, g] at came
      | some g => rfl
    rw [working.beat_count_eq (valid grant)]
    have := working.count_le (valid grant)
    omega
  have step := contains.next (roomy p _) (tlDataIn p s.regs e) small e.rdata_ready p.mamBytes
  have pushed : (s.regs.tl_data.pushed (tlDataIn p s.regs e) (tl_beat_byte_count p s.regs)).length ≤
      if tl_ready p s.regs e && !t.req.rw then p.tlDataBytes else 0 := by
    rw [SerDesBuffer.pushed]
    cases took : s.regs.tl_data.taken (tlDataIn p s.regs e) with
    | none => simp
    | some x =>
      have below := small (by rw [took]; rfl)
      obtain ⟨input, room⟩ := Option.filter_eq_some_iff.mp took
      cases write : t.req.rw with
      | true => simp [tlDataIn, working.rw_eq, write] at input
      | false =>
        have ready : tl_ready p s.regs e = true := by
          rw [tlDataIn, working.rw_eq, write] at input
          rw [working.tl_ready_eq allowed, grantTaken_isSome, grantFire, grant_ready, working.rw_eq, write]
          cases g : e.grant with
          | none => simp [g] at input
          | some g => simpa using room
        rw [ready]
        simpa using below
  have stored : (if s.regs.tl_data.outFire e.rdata_ready p.mamBytes then p.mamBytes else 0) ≤ l.length := by
    split
    · rename_i out
      exact (contains.out_valid_iff.mp (Bool.and_eq_true_iff.mp out).1).2
    · exact Nat.zero_le _
  have length : (next p s.regs e).tl_data.wp = _ := step.wp
  rw [length, List.length_drop, List.length_append]
  omega

/-- With all parts answered, a word is handed over until the read buffer is empty. -/
theorem Inv.rank_complete (inv : Inv s) (current : s.current = some t) (allowed : Allowed t s.regs e)
    (coop : Cooperative p s e) (ready : req_ready p s.regs = true) :
    Settled p s ∨ rank p (MamConverter.cycle p s e) < rank p s := by
  obtain ⟨l, contains, same⟩ := inv.pending
  have working := inv.working t current
  obtain ⟨before, behind⟩ := working.rank_cycle allowed current contains coop.req
  obtain ⟨wdata, grant⟩ := working.silent allowed ready
  have idle : tl_ready p s.regs e = false := by simp [tl_ready, (working.resting ready).invalid]
  have unsent := (working.complete ready).1
  cases l with
  | nil => exact .inl ⟨ready, by rw [← same, List.append_nil]⟩
  | cons b rest =>
    have whole : p.mamBytes ∣ (b :: rest).length := by
      apply inv.pending_dvd (Nat.dvd_refl _) same
      intro t' found
      rw [current] at found
      exact Option.some.inj found ▸ whole_words (working.covered_done ready)
    have goes := coop.outFire contains (Nat.le_of_dvd (Nat.succ_pos _) whole)
    have wp := wp_next working allowed contains
    rw [goes, if_pos rfl, idle, Bool.false_and, if_neg Bool.false_ne_true] at wp
    have mam : 0 < p.mamBytes := Nat.two_pow_pos _
    right
    rw [before, behind]
    simp only [idle, unsent, (working.resting ready).quiet, wTaken, wdata, Option.filter_none, Option.toList_none,
      List.length_nil, Bool.toNat_false, Bool.or_false, Bool.and_false, Nat.add_zero]
    omega

/-- With a sub-request out, its answer is taken, or a word makes room for it. -/
theorem Inv.rank_sent (inv : Inv s) (current : s.current = some t) (allowed : Allowed t s.regs e)
    (coop : Cooperative p s e) (valid : tl_valid p s.regs = true) (sent : s.regs.tl_acq_sent = true) :
    rank p (MamConverter.cycle p s e) < rank p s := by
  obtain ⟨l, contains, same⟩ := inv.pending
  have working := inv.working t current
  obtain ⟨before, behind⟩ := working.rank_cycle allowed current contains coop.req
  have step := working.pieces_left valid
  have wp := wp_next working allowed contains
  have mam : 0 < p.mamBytes := Nat.two_pow_pos _
  have came : e.grant.isSome = true :=
    (coop.grant t current).mpr (by rw [working.sent, sent]; exact Nat.lt_succ_self _)
  rw [before, behind]
  cases write : t.req.rw with
  | true =>
    have goes : tl_ready p s.regs e = true := by simp [tl_ready, valid, working.rw_eq, write, came]
    rw [write, Bool.not_true, Bool.and_false, if_neg Bool.false_ne_true] at wp
    simp only [goes, sent, Bool.toNat_true, Bool.not_true, Bool.false_and, Bool.toNat_false]
    omega
  | false =>
    have fires : tl_ready p s.regs e = s.regs.tl_data.in_ready p.tlDataBytes := by
      simp [tl_ready, valid, working.rw_eq, write, came, grantFire, grant_ready]
    cases room : s.regs.tl_data.in_ready p.tlDataBytes with
    | true =>
      rw [room] at fires
      rw [fires, write, Bool.not_false, Bool.and_true, if_pos rfl] at wp
      simp only [fires, sent, Bool.toNat_true, Bool.not_true, Bool.false_and, Bool.toNat_false]
      omega
    | false =>
      -- no room for the answer, so a word is waiting
      rw [room] at fires
      rw [contains.in_ready_eq (roomy p _), decide_eq_false_iff_not] at room
      have goes := coop.outFire contains (inv.word_waits current same write (by omega))
      rw [goes, if_pos rfl, fires, Bool.false_and, if_neg Bool.false_ne_true] at wp
      simp only [fires, sent, Bool.toNat_false, Bool.not_false, Bool.true_and, Bool.true_or, Bool.toNat_true,
        Nat.add_zero]
      omega

theorem Inv.word_taken (inv : Inv s) (current : s.current = some t) (coop : Cooperative p s e)
    (valid : tl_valid p s.regs = true) (unsent : s.regs.tl_acq_sent = false) (write : t.req.rw = true)
    (short : s.regs.mam_data.wp < tl_count p s.regs) :
    t.words.length < t.req.beats ∧ (wTaken p s.regs e).isSome = true := by
  have working := inv.working t current
  have next := covered_le p t.req (t.grants.length + 1)
  have small := working.count_le valid
  rw [working.covered_next valid] at next
  rw [working.mam_data.wp, List.length_drop, length_dataLanes, working.sent, unsent, Bool.toNat_false,
    Nat.add_zero] at short
  have room : t.words.length < t.req.beats := by
    refine Nat.lt_of_mul_lt_mul_right (a := p.mamBytes) ?_
    rw [total] at next
    omega
  refine ⟨room, ?_⟩
  have offered := coop.wdata t current write room
  have accepts : s.regs.mam_data.in_ready p.mamBytes = true := by
    rw [working.mam_data.in_ready_eq (roomy p _),
      decide_eq_true_eq, List.length_drop, length_dataLanes, working.sent, unsent, Bool.toNat_false, Nat.add_zero]
    omega
  rw [wTaken]
  cases w : e.wdata with
  | none => simp [w] at offered
  | some w => simp [Option.filter, accepts]

/-- With no sub-request out, the next one goes out, or a word comes in for it. -/
theorem Inv.rank_unsent (inv : Inv s) (current : s.current = some t) (allowed : Allowed t s.regs e)
    (coop : Cooperative p s e) (valid : tl_valid p s.regs = true) (unsent : s.regs.tl_acq_sent = false) :
    rank p (MamConverter.cycle p s e) < rank p s := by
  obtain ⟨l, contains, -⟩ := inv.pending
  have working := inv.working t current
  obtain ⟨before, behind⟩ := working.rank_cycle allowed current contains coop.req
  have step := working.pieces_left valid
  have unasked : e.grant.isSome = false := by
    cases came : e.grant.isSome with
    | false => rfl
    | true =>
      have owed := (coop.grant t current).mp came
      rw [working.sent, unsent, Bool.toNat_false] at owed
      omega
  have stays : tl_ready p s.regs e = false := by simp [tl_ready, grantFire, unasked]
  have wp := wp_next working allowed contains
  rw [stays, Bool.false_and, if_neg Bool.false_ne_true] at wp
  rw [before, behind]
  by_cases stored : t.req.rw = true → tl_count p s.regs ≤ s.regs.mam_data.wp
  · have goes : acquireFire p s.regs e = true := by
      cases write : t.req.rw with
      | false => simp [acquireFire, acquire_valid, valid, unsent, working.rw_eq, write, coop.acquire]
      | true => simp [acquireFire, acquire_valid, valid, unsent, coop.acquire, stored write]
    simp only [stays, goes, unsent, Bool.toNat_false, Bool.not_false, Bool.true_and, Bool.false_or, Bool.toNat_true,
      Nat.add_zero]
    omega
  · rw [Classical.not_imp, Nat.not_le] at stored
    obtain ⟨write, short⟩ := stored
    obtain ⟨room, took⟩ := inv.word_taken current coop valid unsent write short
    obtain ⟨w, took⟩ := Option.isSome_iff_exists.mp took
    simp only [stays, took, unsent, Option.toList_some, List.length_singleton, Bool.toNat_false, Bool.not_false,
      Bool.true_and, Bool.false_or, Nat.add_zero]
    omega

end Cooperation

/-- A part goes on or a word is handed over, in every cycle without stalls. -/
theorem Inv.rank_cooperative (inv : Inv s) (offers : Offers p s e) (coop : Cooperative p s e) :
    Settled p s ∨ rank p (MamConverter.cycle p s e) < rank p s := by
  cases current : s.current with
  | none =>
    obtain ⟨l, -, same⟩ := inv.pending
    obtain ⟨resting, empty⟩ := inv.resting current
    refine .inl ⟨resting.ready, ?_⟩
    rw [all, empty, current] at same ⊢
    simp only [Option.toList_none, List.append_nil, List.flatMap_nil, List.append_eq_nil_iff] at same ⊢
    exact same.1
  | some t =>
    have allowed := coop.allowed offers (inv.working t current) current
    cases ready : req_ready p s.regs with
    | true => exact inv.rank_complete current allowed coop ready
    | false =>
      have valid : tl_valid p s.regs = true := by simpa [tl_valid, req_ready] using ready
      cases sent : s.regs.tl_acq_sent with
      | true => exact .inr (inv.rank_sent current allowed coop valid sent)
      | false => exact .inr (inv.rank_unsent current allowed coop valid sent)

theorem Inv.intact (inv : Inv s) : Intact p s where
  done := inv.done
  current t found := by
    have working := inv.working t found
    refine ⟨working.inProgress, fun ready => ?_⟩
    obtain ⟨-, acquired, answered⟩ := working.complete ready
    exact ⟨working.inProgress, acquired, answered⟩
  rdata := by
    obtain ⟨l, -, same⟩ := inv.pending
    exact ⟨l, same⟩
  progress _ offers coop := inv.rank_cooperative offers coop

end Cycle

/-- As long as the requests fit and no write is answered in the cycle in which it is taken, every request
touches exactly its bytes and the bytes that were read come back in order. -/
theorem served_requests_exact {s t : System p} (reset : AfterReset p s)
    (run : Steps (clock p) (fun s e => Offers p s e ∧ Served p s e) s t) : Intact p t := by
  have inv : Inv t := by
    refine run.invariant (.reset reset) ?_
    intro t u e inv ok fired
    cases Option.some.inj fired
    exact inv.cycle ok.1 ok.2
  exact inv.intact

section

instance (r : MamReq) : Decidable (Legal p r) :=
  decidable_of_iff (0 < r.beats ∧ r.beats < 2 ^ p.mamBeatsBits ∧ r.addr < 2 ^ p.mamAddrBits)
    ⟨fun ⟨a, b, c⟩ => ⟨a, b, c⟩, fun legal => ⟨legal.some_beats, legal.beats, legal.addr⟩⟩

instance (r : MamReq) : Decidable (Fits p r) :=
  decidable_of_iff (0 < p.tlByteBits ∧ p.tlByteBits ≤ p.tlBlockAddrBits ∧
      r.addr % p.tlDataBytes + total p r < 2 ^ max p.mamBytesBits p.tlByteAddrBits ∧
      (r.rw = true ∨ p.mamByteBits ≤ p.tlByteBits ∨ p.mamByteBits = p.tlByteBits + 1 ∧ r.addr % p.tlDataBytes = 0))
    ⟨fun ⟨a, b, c, d⟩ => ⟨a, b, c, d⟩, fun fits => ⟨fits.several, fits.count, fits.sum, fits.read⟩⟩

instance (s : System p) (e : Input p) : Decidable (Offers p s e) :=
  decidable_of_iff ((∀ r ∈ e.req, Legal p r) ∧
      (e.wdata.isSome → ∃ t ∈ s.current, t.req.rw = true ∧ t.words.length < t.req.beats) ∧
      (e.grant.isSome → ∃ t ∈ s.current,
        t.grants.length < t.acquires.length + (acquireTaken p s.regs e).toList.length))
    ⟨fun ⟨a, b, c⟩ => ⟨a, b, c⟩, fun offers => ⟨offers.req, offers.wdata, offers.grant⟩⟩

instance (s : System p) (e : Input p) : Decidable (Served p s e) :=
  decidable_of_iff ((∀ r ∈ e.req, Fits p r) ∧
      (e.grant.isSome → s.regs.req.rw = true → (acquireTaken p s.regs e).isNone = true))
    ⟨fun ⟨a, b⟩ => ⟨a, fun came write => Option.isNone_iff_eq_none.mp (b came write)⟩,
      fun served => ⟨served.req, fun came write => by rw [served.grant came write]; rfl⟩⟩

end

/-- Words of two bytes, beats of eight. -/
def wordToBeat : ConverterParams := ⟨1, 3, 14, 39, 26, 3, by decide⟩

def started : System wordToBeat where
  regs := ⟨⟨false, 0, false, 0⟩, 0, false, ⟨0, 0⟩, ⟨0, 0⟩, ⟨0, 0⟩⟩
  done := []
  current := none
  rdata := []

def reads (addr beats : Nat) (grants : List (BitVec (wordToBeat.tlDataBytes * 8))) : List (Input wordToBeat) :=
  ⟨some ⟨false, addr, true, beats⟩, none, true, none, true⟩ ::
    grants.flatMap fun g => [⟨none, none, true, none, true⟩, ⟨none, none, true, some g, true⟩]

def afterReads (addr beats : Nat) (grants : List (BitVec (wordToBeat.tlDataBytes * 8))) : System wordToBeat :=
  (reads addr beats grants).foldl (cycle wordToBeat) started

theorem afterReset_started : AfterReset wordToBeat started := ⟨rfl, rfl, ⟨rfl, rfl⟩, ⟨rfl, rfl⟩, ⟨rfl, rfl⟩, rfl, rfl, rfl⟩

def writesWords (addr : Nat) (words : List (BitVec (wordToBeat.mamBytes * 8))) (pieces : Nat) : List (Input wordToBeat) :=
  ⟨some ⟨true, addr, true, words.length⟩, none, true, none, true⟩ ::
    words.map (fun w => ⟨none, some ⟨w, 3⟩, true, none, true⟩) ++
    (List.replicate pieces [⟨none, none, true, none, true⟩, ⟨none, none, true, some 0, true⟩]).flatten

/-- A word whose bytes lie in two beats is read and handed back, then two words are written behind each
other from the same address on. -/
def readThenWrite : List (Input wordToBeat) :=
  reads 7 1 [0x1122334455667788, 0x99aabbccddeeff00] ++ [⟨none, none, true, none, true⟩]
    ++ writesWords 7 [0xaabb, 0xccdd] 2

def afterReadThenWrite : System wordToBeat := readThenWrite.foldl (cycle wordToBeat) started

theorem served_requests_exact_of_word :
    afterReadThenWrite.rdata.map BitVec.toNat = [0x0011] ∧
      afterReadThenWrite.current.map (fun t => t.acquires.map fun a => (a.addr_beat, a.data.toNat, a.wmask.toNat)) =
        some [(0, 0xbb00000000000000, 0x80), (1, 0xccddaa, 0x7)] ∧
      afterReadThenWrite.regs.byte_cnt = 0 ∧ Intact wordToBeat afterReadThenWrite := by
  refine ⟨by decide +kernel, by decide +kernel, by decide +kernel, served_requests_exact afterReset_started ?_⟩
  have ran : execGuarded (clock wordToBeat) (fun s e => decide (Offers wordToBeat s e ∧ Served wordToBeat s e)) started
      readThenWrite = some afterReadThenWrite := rfl
  exact (steps_of_execGuarded ran).mono fun s e => of_decide_eq_true

/-- The longest burst from byte 2 on ends with its first sub-request. -/
theorem not_intact_longest_burst : AfterReset wordToBeat started ∧
    Steps (clock wordToBeat) (Offers wordToBeat) started (afterReads 2 16383 [0]) ∧
      ¬ Intact wordToBeat (afterReads 2 16383 [0]) := by
  have ran : execGuarded (clock wordToBeat) (fun s e => decide (Offers wordToBeat s e)) started (reads 2 16383 [0]) =
      some (afterReads 2 16383 [0]) := rfl
  refine ⟨afterReset_started, (steps_of_execGuarded ran).mono fun s e => of_decide_eq_true, fun intact => ?_⟩
  have whole := ((intact.current _ rfl).2 (by decide)).acquired
  revert whole
  decide

end MamConverter

end LowRisc.Debug
