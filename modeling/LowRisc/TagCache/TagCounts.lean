import LowRisc.TagCache.TagTracker

/-! The row count of every line.

The count that the metadata keep for a line is the number of its rows with a tag, or one more
when the line was created without any.
-/

set_option autoImplicit false

namespace LowRisc.TagCache

open LowRisc.Chisel LowRisc.Lib

/-! Counting rows. -/

theorem countP_upd {n r : Nat} (line : Line) (v : Row) (inside : r < n) :
    (List.range n).countP (fun i => upd line r v i != 0) + (line r != 0).toNat =
      (List.range n).countP (fun i => line i != 0) + (v != 0).toNat := by
  induction n with
  | zero => exact absurd inside (Nat.not_lt_zero r)
  | succ n ih =>
    simp only [List.range_succ, List.countP_append, List.countP_singleton]
    by_cases last : r = n
    · subst last
      have front : (List.range r).countP (fun i => upd line r v i != 0) = (List.range r).countP (fun i => line i != 0) := by
        apply List.countP_congr
        intro i member
        rw [upd_of_ne (List.mem_range.mp member).ne]
      rw [front, upd_same]
      cases (line r != 0) <;> cases (v != 0) <;> simp
    · have step := ih (by omega)
      rw [upd_of_ne (Ne.symm last)]
      omega

theorem nonzeroRows_upd {r : Nat} (line : Line) (v : Row) (inside : r < Config.outerDataBeats) :
    nonzeroRows (upd line r v) + (line r != 0).toNat = nonzeroRows line + (v != 0).toNat :=
  countP_upd line v inside

theorem nonzeroRows_le (line : Line) : nonzeroRows line ≤ 8 := by
  have bound := List.countP_le_length (p := fun i => line i != 0) (l := List.range Config.outerDataBeats)
  rwa [List.length_range] at bound

theorem nonzeroRows_congr {first second : Line} (same : ∀ i < Config.outerDataBeats, first i = second i) :
    nonzeroRows first = nonzeroRows second := by
  apply List.countP_congr
  intro i member
  rw [same i (List.mem_range.mp member)]

theorem rowOf_lt (addr : Nat) : Config.rowOf addr < Config.outerDataBeats := Nat.mod_lt _ (by decide)

/-! Byte masks. -/

/-- A byte of the mask with a bit is written whole. -/
theorem getLsbD_byteMask {mask : Row} {j : Nat} (bit : mask.getLsbD j = true) : (byteMask mask).getLsbD j = true := by
  have below : j < 64 := BitVec.lt_of_getLsbD bit
  have fold : ∀ n, j < 8 * n → ((List.range n).foldl
      (fun acc i => if mask >>> (8 * i) &&& 255#64 == 0 then acc else acc ||| 255#64 <<< (8 * i)) 0).getLsbD j = true := by
    intro n
    induction n with
    | zero =>
      intro none
      omega
    | succ n ih =>
      intro inside
      rw [List.range_succ, List.foldl_append, List.foldl_cons, List.foldl_nil]
      by_cases here : 8 * n ≤ j
      · have low : (255#64).getLsbD (j - 8 * n) = true := by
          have all : ∀ k < 8, (255#64).getLsbD k = true := by decide
          exact all _ (by omega)
        have byte : ¬ (mask >>> (8 * n) &&& 255#64 == 0) = true := by
          intro zero
          have cleared : (mask >>> (8 * n) &&& 255#64).getLsbD (j - 8 * n) = false := by
            rw [beq_iff_eq.mp zero]
            simp
          rw [BitVec.getLsbD_and, BitVec.getLsbD_ushiftRight, Nat.add_sub_cancel' here, bit, low] at cleared
          cases cleared
        rw [if_neg byte, BitVec.getLsbD_or, BitVec.getLsbD_shiftLeft, low]
        simp [below, here]
      · have earlier := ih (by omega)
        split
        · exact earlier
        · rw [BitVec.getLsbD_or, earlier]
          rfl
  exact fold 8 (by omega)

theorem masked_write (data old mask : Row) :
    ((data &&& mask ||| old &&& ~~~mask) &&& byteMask mask ||| old &&& ~~~byteMask mask) =
      data &&& mask ||| old &&& ~~~mask := by
  apply BitVec.eq_of_getLsbD_eq
  intro j below
  simp only [BitVec.getLsbD_or, BitVec.getLsbD_and, BitVec.getLsbD_not, below, decide_true, Bool.true_and]
  cases bit : mask.getLsbD j with
  | true => simp [getLsbD_byteMask bit]
  | false => cases (byteMask mask).getLsbD j <;> simp

/-- `tcnt` counts `rows`; a line that was created blank may count one too many. -/
structure Counted (rows tcnt : Nat) (blank : Bool) : Prop where
  least : rows ≤ tcnt
  most : tcnt ≤ rows + 1
  exact : blank = false → tcnt = rows

theorem or_bne_zero (x y : Row) : (x ||| y != 0) = ((x != 0) || (y != 0)) := by
  rw [Bool.eq_iff_iff, Bool.or_eq_true, bne_iff_ne, bne_iff_ne, bne_iff_ne, ne_eq, ne_eq, ne_eq, ← not_and_or]
  exact not_congr BitVec.or_eq_zero_iff

theorem bne_zero_split (x mask : Row) : (x != 0) = ((x &&& mask != 0) || (x &&& ~~~mask != 0)) := by
  have parts : x &&& mask ||| x &&& ~~~mask = x := by
    apply BitVec.eq_of_getLsbD_eq
    intro j below
    simp only [BitVec.getLsbD_or, BitVec.getLsbD_and, BitVec.getLsbD_not, below, decide_true, Bool.true_and]
    cases x.getLsbD j <;> cases mask.getLsbD j <;> rfl
  rw [← or_bne_zero, parts]

theorem Counted.dataResp {t : TCTagXactTracker} {line : Line} {blank : Bool}
    (counted : Counted (nonzeroRows line) t.metaTcnt blank) :
    Counted (nonzeroRows (upd line t.row ((t.xact.data &&& t.xact.mask) ||| (line t.row &&& ~~~t.xact.mask))))
      (t.tcntNext (line t.row)) blank := by
  have count := nonzeroRows_upd line ((t.xact.data &&& t.xact.mask) ||| (line t.row &&& ~~~t.xact.mask))
    (rowOf_lt t.xact.addr)
  change nonzeroRows (upd line t.row _) + (line t.row != 0).toNat = _ at count
  have eight := nonzeroRows_le line
  obtain ⟨least, most, exact⟩ := counted
  have whole : (line t.row == 0) = !((line t.row &&& t.xact.mask != 0) || (line t.row &&& ~~~t.xact.mask != 0)) := by
    rw [← bne_zero_split]
    simp [bne]
  rw [or_bne_zero, bne_zero_split (line t.row) t.xact.mask] at count
  rw [TCTagXactTracker.tcntNext, whole]
  have flip : ∀ x : Row, (x == 0) = !(x != 0) := fun x => by simp [bne]
  rw [flip (t.xact.data &&& t.xact.mask), flip (line t.row &&& ~~~t.xact.mask)]
  -- which of the new bits, the old bits under the mask and the other old bits are there
  generalize (t.xact.data &&& t.xact.mask != 0) = new at count ⊢
  generalize (line t.row &&& t.xact.mask != 0) = covered at count ⊢
  generalize (line t.row &&& ~~~t.xact.mask != 0) = other at count ⊢
  cases new <;> cases covered <;> cases other <;>
    simp only [Bool.not_true, Bool.not_false, Bool.and_true, Bool.and_false,
      Bool.or_true, Bool.or_false, Bool.toNat_true, Bool.toNat_false, if_true, Bool.false_eq_true, if_false] at count ⊢ <;>
    exact ⟨by omega, by omega, fun sure => by have same := exact sure; omega⟩

theorem Counted.asserts {t : TCTagXactTracker} {line : Line} {blank : Bool}
    (counted : Counted (nonzeroRows line) t.metaTcnt blank) :
    t.addsToFull (line t.row) = false ∧ t.clearsEmpty (line t.row) = false := by
  have eight := nonzeroRows_le line
  obtain ⟨least, most, -⟩ := counted
  constructor
  · have small : ¬ t.metaTcnt % 16 = 15 := by omega
    simp [TCTagXactTracker.addsToFull, small]
  · by_cases old : line t.row = 0
    · simp [TCTagXactTracker.clearsEmpty, old]
    · have some : 0 < nonzeroRows line := by
        rw [nonzeroRows, List.countP_pos_iff]
        exact ⟨t.row, List.mem_range.mpr (rowOf_lt t.xact.addr), by simpa using old⟩
      have positive : ¬ t.metaTcnt % 16 = 0 := by omega
      simp [TCTagXactTracker.clearsEmpty, positive]

/-- The data response adds the first tag of a row, or clears its last. -/
def TCTagXactTracker.adds (t : TCTagXactTracker) (data : Row) : Bool :=
  (t.xact.data &&& t.xact.mask != 0) && (data == 0)
def TCTagXactTracker.clears (t : TCTagXactTracker) (data : Row) : Bool :=
  (t.xact.data &&& t.xact.mask == 0) && (data &&& t.xact.mask != 0) && (data &&& ~~~t.xact.mask == 0)

/-- The count of four bits moves by one without wrapping. -/
theorem Counted.tcntNext {t : TCTagXactTracker} {line : Line} {blank : Bool}
    (counted : Counted (nonzeroRows line) t.metaTcnt blank) :
    t.tcntNext (line t.row) + (t.clears (line t.row)).toNat = t.metaTcnt + (t.adds (line t.row)).toNat := by
  have eight := nonzeroRows_le line
  have below := counted.most
  have kept := counted.asserts.2
  have next : t.tcntNext (line t.row) = if t.clears (line t.row) then (t.metaTcnt + 15) % 16
      else if t.adds (line t.row) then (t.metaTcnt + 1) % 16 else t.metaTcnt := rfl
  have guard : t.clearsEmpty (line t.row) = (t.clears (line t.row) && decide (t.metaTcnt % 16 = 0)) := rfl
  rw [next]
  cases clear : t.clears (line t.row) with
  | true =>
    have noAdd : t.adds (line t.row) = false := by
      simp only [TCTagXactTracker.clears, Bool.and_eq_true, beq_iff_eq] at clear
      simp [TCTagXactTracker.adds, clear.1.1]
    rw [guard, clear, Bool.true_and, decide_eq_false_iff_not] at kept
    simp only [noAdd, if_true, Bool.toNat_true, Bool.toNat_false]
    omega
  | false =>
    cases t.adds (line t.row) with
    | true =>
      simp only [Bool.false_eq_true, if_false, if_true, Bool.toNat_true, Bool.toNat_false]
      omega
    | false => rfl

namespace TagSystem

variable {c : Config} {s t : TagSystem}

/-! The invariant. -/

def Good (s : TagSystem) (i w : Nat) : Prop :=
  (s.metas i w).isValid = true → Counted (nonzeroRows (s.datas i w)) (s.metas i w).tcnt (s.blank i w)

/-- One way is in use, and no other way of the set holds the tag of the request. -/
structure Chosen (c : Config) (s : TagSystem) : Prop where
  wayEn : s.tracker.wayEn = [s.tracker.way]
  bound : s.tracker.way < c.nWays
  alone : ∀ w < c.nWays, w ≠ s.tracker.way → (s.metas (s.tracker.idx c) w).isValid = true →
    (s.metas (s.tracker.idx c) w).tag ≠ s.tracker.addrTag c

structure Hit (c : Config) (s : TagSystem) : Prop extends Chosen c s where
  hit : s.tracker.hit = true
  isValid : (s.metas (s.tracker.idx c) s.tracker.way).isValid = true

structure Miss (c : Config) (s : TagSystem) : Prop extends Chosen c s where
  hit : s.tracker.hit = false

structure Fetching (s : TagSystem) : Prop where
  few : s.tracker.fetchCnt < Config.outerDataBeats
  created : s.tracker.xact.op.isCreate = true → s.tracker.fetchCnt = 0 ∧ s.tracker.metaTcnt = 1
    ∧ s.tracker.dataBuf = fun i => if i = s.tracker.row then s.tracker.xact.data &&& s.tracker.xact.mask else 0
  fetched : s.tracker.xact.op.isCreate = false →
    s.tracker.metaTcnt = (List.range s.tracker.fetchCnt).countP fun i => s.tracker.dataBuf i != 0

inductive Progress (c : Config) (s : TagSystem) : Prop where
  | resting (state : s.tracker.state = .idle ∨ s.tracker.state = .mr ∨ s.tracker.state = .l)
  | dr (state : s.tracker.state = .dr) (hit : Hit c s)
      (tcnt : s.tracker.metaTcnt = (s.metas (s.tracker.idx c) s.tracker.way).tcnt)
  | dwr (state : s.tracker.state = .dwr) (hit : Hit c s)
      (row : s.tracker.dataBuf s.tracker.row =
        (s.tracker.xact.data &&& s.tracker.xact.mask) ||| (s.line c s.tracker.row &&& ~~~s.tracker.xact.mask))
      (counted : Counted (nonzeroRows (upd (s.line c) s.tracker.row (s.tracker.dataBuf s.tracker.row)))
        s.tracker.metaTcnt (s.blank (s.tracker.idx c) s.tracker.way))
  | mw (state : s.tracker.state = .mw) (chosen : Chosen c s)
      (counted : s.tracker.metaState = .invalid ∨ Counted (nonzeroRows (s.line c)) s.tracker.metaTcnt
        (if s.tracker.hit then s.blank (s.tracker.idx c) s.tracker.way else s.newBlank))
  | wb (state : s.tracker.state = .wb) (miss : Miss c s)
  | f (state : s.tracker.state = .f) (miss : Miss c s) (fetching : Fetching s)
  | dwb (state : s.tracker.state = .dwb) (miss : Miss c s) (few : s.tracker.dataCnt < Config.outerDataBeats)
      (stored : ∀ i < s.tracker.dataCnt, s.line c i = s.tracker.dataBuf i)
      (counted : Counted (nonzeroRows s.tracker.dataBuf) s.tracker.metaTcnt s.newBlank)

def Changing (c : Config) (s : TagSystem) (i w : Nat) : Prop :=
  (s.tracker.state = .dwb ∨ s.tracker.state = .mw) ∧ i = s.tracker.idx c ∧ w = s.tracker.way

structure Sound (c : Config) (s : TagSystem) : Prop where
  good : ∀ i w, ¬ Changing c s i w → Good s i w
  unique : ∀ i, ∀ w < c.nWays, ∀ v < c.nWays, (s.metas i w).isValid = true → (s.metas i v).isValid = true →
    (s.metas i w).tag = (s.metas i v).tag → w = v
  fetchCnt : s.tracker.state ≠ .f → s.tracker.fetchCnt = 0
  dataCnt : s.tracker.state ≠ .dwb → s.tracker.dataCnt = 0
  progress : Progress c s

theorem OnReset.sound (reset : s.OnReset) : Sound c s where
  good i w _ isValid := by
    rw [reset.metas i w] at isValid
    cases isValid
  unique i w _ v _ isValid := by
    rw [reset.metas i w] at isValid
    cases isValid
  fetchCnt _ := reset.fetchCnt
  dataCnt _ := reset.dataCnt
  progress := .resting (.inl reset.state)

theorem Sound.keep (sound : Sound c s) {u : TCTagXactTracker} (before : s.tracker.state ≠ .dwb ∧ s.tracker.state ≠ .mw)
    (fetchCnt : u.state ≠ .f → u.fetchCnt = 0) (dataCnt : u.state ≠ .dwb → u.dataCnt = 0)
    (progress : Progress c { s with tracker := u }) : Sound c { s with tracker := u } where
  good i w _ := sound.good i w fun changing => changing.1.elim before.1 before.2
  unique := sound.unique
  fetchCnt := fetchCnt
  dataCnt := dataCnt
  progress := progress

/-! The metadata read. -/

theorem mem_hitWays {w : Nat} : w ∈ s.hitWays c ↔ w < c.nWays
    ∧ (s.metas (s.tracker.idx c) w).tag = s.tracker.addrTag c ∧ (s.metas (s.tracker.idx c) w).isValid = true := by
  simp [hitWays]

theorem Sound.hitWays_cases (sound : Sound c s) :
    s.hitWays c = [] ∨ ∃ w, s.hitWays c = [w] ∧ w ∈ s.hitWays c := by
  have single : ∀ w ∈ s.hitWays c, ∀ v ∈ s.hitWays c, w = v := by
    intro w first v second
    obtain ⟨bound, tag, isValid⟩ := mem_hitWays.mp first
    obtain ⟨bound', tag', isValid'⟩ := mem_hitWays.mp second
    exact sound.unique _ w bound v bound' isValid isValid' (tag.trans tag'.symm)
  have distinct : (s.hitWays c).Nodup := List.nodup_range.filter _
  cases ways : s.hitWays c with
  | nil => exact .inl rfl
  | cons w rest =>
    rw [ways] at single distinct
    cases rest with
    | nil => exact .inr ⟨w, rfl, List.mem_singleton_self w⟩
    | cons v rest =>
      have same := single w List.mem_cons_self v (List.mem_cons_of_mem w List.mem_cons_self)
      simp [same] at distinct

theorem fetching_enterF {u : TCTagXactTracker} (zero : u.fetchCnt = 0) : Fetching { s with tracker := u.enterF } := by
  have fetchCnt : u.enterF.fetchCnt = 0 := by
    rw [TCTagXactTracker.enterF]
    split <;> exact zero
  have xact : u.enterF.xact = u.xact := by
    rw [TCTagXactTracker.enterF]
    split <;> rfl
  refine ⟨?_, ?_, ?_⟩
  · simp only [fetchCnt]
    decide
  · intro create
    simp only [xact] at create
    refine ⟨fetchCnt, ?_, ?_⟩
    · simp [TCTagXactTracker.enterF, create]
    · simp only [TCTagXactTracker.enterF, create, if_true]
      rfl
  · intro create
    simp only [xact] at create
    simp only [fetchCnt]
    simp [TCTagXactTracker.enterF, create]

theorem miss_enterF {u : TCTagXactTracker} (miss : Miss c { s with tracker := u }) :
    Miss c { s with tracker := u.enterF } := by
  rw [TCTagXactTracker.enterF]
  split
  · exact ⟨⟨miss.wayEn, miss.bound, miss.alone⟩, miss.hit⟩
  · exact ⟨⟨miss.wayEn, miss.bound, miss.alone⟩, miss.hit⟩

theorem state_enterF (u : TCTagXactTracker) : u.enterF.state = .f := by
  rw [TCTagXactTracker.enterF]
  split <;> rfl

theorem counters_enterF (u : TCTagXactTracker) : u.enterF.fetchCnt = u.fetchCnt ∧ u.enterF.dataCnt = u.dataCnt := by
  rw [TCTagXactTracker.enterF]
  split <;> exact ⟨rfl, rfl⟩

theorem Sound.enterF (sound : Sound c s) {u : TCTagXactTracker}
    (before : s.tracker.state ≠ .dwb ∧ s.tracker.state ≠ .mw) (miss : Miss c { s with tracker := u })
    (fetchCnt : u.fetchCnt = 0) (dataCnt : u.dataCnt = 0) : Sound c { s with tracker := u.enterF } := by
  refine sound.keep before ?_ ?_ (.f (state_enterF u) (miss_enterF miss) (fetching_enterF fetchCnt))
  · intro other
    exact absurd (state_enterF u) other
  · intro _
    rw [(counters_enterF u).2, dataCnt]

theorem mrNext_miss (u : TCTagXactTracker) (md : TCMetadata) :
    u.mrNext false md = .l ∨ u.mrNext false md = .wb ∨ u.mrNext false md = .f := by
  simp only [TCTagXactTracker.mrNext, Bool.false_eq_true, if_false]
  split
  · exact .inl rfl
  · split
    · exact .inl rfl
    · split
      · exact .inr (.inl rfl)
      · exact .inr (.inr rfl)

theorem mrNext_hit (u : TCTagXactTracker) (md : TCMetadata) :
    u.mrNext true md = .l ∨ u.mrNext true md = .mw ∨ u.mrNext true md = .dr := by
  simp only [TCTagXactTracker.mrNext, if_true]
  split
  · exact .inl rfl
  · split
    · exact .inr (.inl rfl)
    · split
      · exact .inl rfl
      · exact .inr (.inr rfl)

theorem Sound.metaResp (sound : Sound c s) (state : s.tracker.state = .mr) {victim : Nat} (bound : victim < c.nWays) :
    Sound c { s with tracker := s.metaResp c victim } := by
  have before : s.tracker.state ≠ .dwb ∧ s.tracker.state ≠ .mw := by simp [state]
  have fetchCnt := sound.fetchCnt (by simp [state])
  have dataCnt := sound.dataCnt (by simp [state])
  rcases sound.hitWays_cases with none' | ⟨w, single, member⟩
  · -- a miss: the victim's way is to take the line
    have absent : ∀ v < c.nWays, v ≠ victim → (s.metas (s.tracker.idx c) v).isValid = true →
        (s.metas (s.tracker.idx c) v).tag ≠ s.tracker.addrTag c := by
      intro v inside _ isValid tag
      have found := mem_hitWays.mpr ⟨inside, tag, isValid⟩
      rw [none'] at found
      cases found
    rcases mrNext_miss s.tracker (s.metas (s.tracker.idx c) victim) with next | next | next <;>
      simp only [TagSystem.metaResp, none', List.isEmpty_nil, Bool.not_true, Bool.false_eq_true, if_false,
        ohToUInt_singleton, next]
    · exact sound.keep before (fun _ => fetchCnt) (fun _ => dataCnt) (.resting (.inr (.inr rfl)))
    · exact sound.keep before (fun _ => fetchCnt) (fun _ => dataCnt)
        (.wb rfl ⟨⟨by simp [TCTagXactTracker.way], by simpa [TCTagXactTracker.way] using bound,
          by simpa [TCTagXactTracker.way, TCTagXactTracker.idx, TCTagXactTracker.addrTag] using absent⟩, rfl⟩)
    · apply sound.enterF before ⟨⟨by simp [TCTagXactTracker.way], by simpa [TCTagXactTracker.way] using bound,
        by simpa [TCTagXactTracker.way, TCTagXactTracker.idx, TCTagXactTracker.addrTag] using absent⟩, rfl⟩
      · exact fetchCnt
      · exact dataCnt
  · -- a hit
    obtain ⟨inside, tag, isValid⟩ := mem_hitWays.mp member
    have absent : ∀ v < c.nWays, v ≠ w → (s.metas (s.tracker.idx c) v).isValid = true →
        (s.metas (s.tracker.idx c) v).tag ≠ s.tracker.addrTag c := by
      intro v inside' other isValid' tag'
      exact other (sound.unique _ v inside' w inside isValid' isValid (tag'.trans tag.symm))
    rcases mrNext_hit s.tracker (s.metas (s.tracker.idx c) w) with next | next | next <;>
      simp only [TagSystem.metaResp, single, List.isEmpty_cons, Bool.not_false, if_true, ohToUInt_singleton, next]
    · exact sound.keep before (fun _ => fetchCnt) (fun _ => dataCnt) (.resting (.inr (.inr rfl)))
    · refine ⟨fun i v _ => sound.good i v fun changing => changing.1.elim before.1 before.2, sound.unique,
        fun _ => fetchCnt, fun _ => dataCnt, ?_⟩
      exact .mw rfl ⟨by simp [TCTagXactTracker.way], by simpa [TCTagXactTracker.way] using inside,
        by simpa [TCTagXactTracker.way, TCTagXactTracker.idx, TCTagXactTracker.addrTag] using absent⟩ (.inl rfl)
    · exact sound.keep before (fun _ => fetchCnt) (fun _ => dataCnt)
        (.dr rfl ⟨⟨by simp [TCTagXactTracker.way], by simpa [TCTagXactTracker.way] using inside,
          by simpa [TCTagXactTracker.way, TCTagXactTracker.idx, TCTagXactTracker.addrTag] using absent⟩, rfl,
          by simpa [TCTagXactTracker.way, TCTagXactTracker.idx] using isValid⟩
          (by simp [TCTagXactTracker.way, TCTagXactTracker.idx]))

/-! Reading and writing a row. -/

theorem Sound.counted_line (sound : Sound c s) (hit : Hit c s) (closed : s.tracker.state ≠ .dwb ∧ s.tracker.state ≠ .mw) :
    Counted (nonzeroRows (s.line c)) (s.metas (s.tracker.idx c) s.tracker.way).tcnt
      (s.blank (s.tracker.idx c) s.tracker.way) :=
  sound.good _ _ (fun changing => changing.1.elim closed.1 closed.2) hit.isValid

theorem Sound.dataResp (sound : Sound c s) (state : s.tracker.state = .dr) (hit : Hit c s)
    (tcnt : s.tracker.metaTcnt = (s.metas (s.tracker.idx c) s.tracker.way).tcnt) :
    Sound c { s with tracker := s.tracker.dataResp (s.line c s.tracker.row) } := by
  have before : s.tracker.state ≠ .dwb ∧ s.tracker.state ≠ .mw := by simp [state]
  have fetchCnt := sound.fetchCnt (by simp [state])
  have dataCnt := sound.dataCnt (by simp [state])
  have counted := sound.counted_line hit before
  rw [← tcnt] at counted
  refine sound.keep before (fun _ => fetchCnt) (fun _ => dataCnt) ?_
  by_cases write : s.tracker.xact.op.isWrite = true
  · refine .dwr (by simp [TCTagXactTracker.dataResp, write]) ⟨⟨hit.wayEn, hit.bound, hit.alone⟩, hit.hit, hit.isValid⟩ ?_ ?_
    · exact upd_same _ _ _
    · have merged := counted.dataResp
      simpa [TCTagXactTracker.dataResp, line, TCTagXactTracker.row, TCTagXactTracker.way, TCTagXactTracker.idx] using merged
  · exact .resting (.inr (.inr (by simp [TCTagXactTracker.dataResp, write])))

theorem Sound.good_setLine (sound : Sound c s) {new : Line} {u : TCTagXactTracker} {i w : Nat}
    (other : ¬ (i = s.tracker.idx c ∧ w = s.tracker.way)) :
    Good { s with tracker := u, datas := s.setLine c new } i w := by
  have good := sound.good i w fun changing => other changing.2
  intro isValid
  have same : s.setLine c new i w = s.datas i w := if_neg other
  simpa [same] using good isValid

theorem Sound.writeRow (sound : Sound c s) (state : s.tracker.state = .dwr) (hit : Hit c s)
    (row : s.tracker.dataBuf s.tracker.row =
      (s.tracker.xact.data &&& s.tracker.xact.mask) ||| (s.line c s.tracker.row &&& ~~~s.tracker.xact.mask))
    (counted : Counted (nonzeroRows (upd (s.line c) s.tracker.row (s.tracker.dataBuf s.tracker.row)))
      s.tracker.metaTcnt (s.blank (s.tracker.idx c) s.tracker.way)) : Sound c (s.writeRow c) := by
  have stored : (s.writeRow c).line c = upd (s.line c) s.tracker.row (s.tracker.dataBuf s.tracker.row) := by
    have written := masked_write s.tracker.xact.data (s.line c s.tracker.row) s.tracker.xact.mask
    rw [← row] at written
    simp only [TagSystem.writeRow, written]
    exact if_pos ⟨rfl, rfl⟩
  refine ⟨?_, sound.unique, fun _ => sound.fetchCnt (by simp [state]), fun _ => sound.dataCnt (by simp [state]), ?_⟩
  · intro i w unchanged
    exact sound.good_setLine fun here => unchanged ⟨.inr rfl, here⟩
  · refine .mw rfl ⟨hit.wayEn, hit.bound, hit.alone⟩ (.inr ?_)
    rw [stored, show (s.writeRow c).tracker.hit = true from hit.hit]
    exact counted

theorem Sound.writeLine (sound : Sound c s) (state : s.tracker.state = .dwb) (miss : Miss c s)
    (few : s.tracker.dataCnt < Config.outerDataBeats) (stored : ∀ i < s.tracker.dataCnt, s.line c i = s.tracker.dataBuf i)
    (counted : Counted (nonzeroRows s.tracker.dataBuf) s.tracker.metaTcnt s.newBlank) : Sound c (s.writeLine c) := by
  have row : (s.writeLine c).line c = upd (s.line c) s.tracker.dataCnt (s.tracker.dataBuf s.tracker.dataCnt) :=
    if_pos ⟨rfl, rfl⟩
  -- the row just written, and those before it
  have rows : ∀ i < s.tracker.dataCnt + 1, (s.writeLine c).line c i = s.tracker.dataBuf i := by
    intro i inside
    rw [row]
    by_cases here : i = s.tracker.dataCnt
    · rw [here, upd_same]
    · rw [upd_of_ne here]
      exact stored i (by omega)
  -- other lines are not touched by the write
  have good : ∀ i w, ¬ Changing c (s.writeLine c) i w → Good (s.writeLine c) i w := by
    intro i w unchanged
    refine sound.good_setLine fun here => unchanged ⟨?_, here⟩
    simp only [TagSystem.writeLine]
    split
    · exact .inr rfl
    · exact .inl rfl
  -- with the last row the count of the buffer is the count of the line
  by_cases last : s.tracker.dataCnt + 1 = Config.outerDataBeats
  · have state' : (s.writeLine c).tracker.state = .mw := by simp [TagSystem.writeLine, counterWrap, last]
    have dataCnt : (s.writeLine c).tracker.dataCnt = 0 := by simp [TagSystem.writeLine, counterNext, last]
    refine ⟨good, sound.unique, fun _ => sound.fetchCnt (by simp [state]), fun _ => dataCnt, ?_⟩
    refine .mw state' ⟨miss.wayEn, miss.bound, miss.alone⟩ (.inr ?_)
    have same : nonzeroRows ((s.writeLine c).line c) = nonzeroRows s.tracker.dataBuf :=
      nonzeroRows_congr fun i inside => rows i (by omega)
    rw [same, show (s.writeLine c).tracker.hit = false from miss.hit]
    exact counted
  · have state' : (s.writeLine c).tracker.state = .dwb := by simp [TagSystem.writeLine, counterWrap, last]
    have dataCnt : (s.writeLine c).tracker.dataCnt = s.tracker.dataCnt + 1 := by
      simp [TagSystem.writeLine, counterNext, last]
    refine ⟨good, sound.unique, fun _ => sound.fetchCnt (by simp [state]), fun other => absurd state' other, ?_⟩
    exact .dwb state' ⟨⟨miss.wayEn, miss.bound, miss.alone⟩, miss.hit⟩ (by omega)
      (fun i inside => rows i (by omega)) counted

/-! Writing the metadata. -/

theorem Sound.writeMeta (sound : Sound c s) (state : s.tracker.state = .mw) (chosen : Chosen c s)
    (counted : s.tracker.metaState = .invalid ∨ Counted (nonzeroRows (s.line c)) s.tracker.metaTcnt
      (if s.tracker.hit then s.blank (s.tracker.idx c) s.tracker.way else s.newBlank)) : Sound c (s.writeMeta c) := by
  -- a hit or a victim names one way, and only this one is written
  have only : ∀ w, w ∈ s.tracker.wayEn ↔ w = s.tracker.way := by
    intro w
    rw [chosen.wayEn, List.mem_singleton]
  have there : (s.writeMeta c).metas (s.tracker.idx c) s.tracker.way =
      ⟨s.tracker.addrTag c, s.tracker.metaTcnt, s.tracker.metaState⟩ := if_pos ⟨rfl, (only _).mpr rfl⟩
  have elsewhere : ∀ i w, ¬ (i = s.tracker.idx c ∧ w = s.tracker.way) →
      (s.writeMeta c).metas i w = s.metas i w ∧ (s.writeMeta c).blank i w = s.blank i w := by
    intro i w other
    have out : ¬ (i = s.tracker.idx c ∧ w ∈ s.tracker.wayEn) := by rwa [only]
    exact ⟨if_neg out, if_neg fun inside => out ⟨inside.1, inside.2.1⟩⟩
  refine ⟨?_, ?_, fun _ => sound.fetchCnt (by simp [state]), fun _ => sound.dataCnt (by simp [state]),
    .resting (.inr (.inr rfl))⟩
  -- the line written now has the count of its rows, or is no valid line
  · intro i w _
    by_cases here : i = s.tracker.idx c ∧ w = s.tracker.way
    · obtain ⟨rfl, rfl⟩ := here
      intro isValid
      rw [there] at isValid ⊢
      rcases counted with invalid | counted
      · simp [TCMetadata.isValid, invalid] at isValid
      · have mark : (s.writeMeta c).blank (s.tracker.idx c) s.tracker.way =
            if s.tracker.hit then s.blank (s.tracker.idx c) s.tracker.way else s.newBlank := by
          simp only [TagSystem.writeMeta, only]
          cases s.tracker.hit <;> simp
        rw [mark]
        exact counted
    · intro isValid
      rw [(elsewhere i w here).1] at isValid ⊢
      rw [(elsewhere i w here).2]
      exact sound.good i w (fun changing => here changing.2) isValid
  -- the tag written is in no other way, as no other way hit
  · intro i w bound v bound' isValid isValid' same
    by_cases first : i = s.tracker.idx c ∧ w = s.tracker.way
    · by_cases second : i = s.tracker.idx c ∧ v = s.tracker.way
      · rw [first.2, second.2]
      · obtain ⟨rfl, rfl⟩ := first
        rw [there, (elsewhere _ v second).1] at same
        rw [(elsewhere _ v second).1] at isValid'
        exact absurd same.symm (chosen.alone v bound' (fun eq => second ⟨rfl, eq⟩) isValid')
    · by_cases second : i = s.tracker.idx c ∧ v = s.tracker.way
      · obtain ⟨rfl, rfl⟩ := second
        rw [there, (elsewhere _ w first).1] at same
        rw [(elsewhere _ w first).1] at isValid
        exact absurd same (chosen.alone w bound (fun eq => first ⟨rfl, eq⟩) isValid)
      · rw [(elsewhere i w first).1] at isValid same
        rw [(elsewhere i v second).1] at isValid' same
        exact sound.unique i w bound v bound' isValid isValid' same

/-! Fetching and creating a line. -/

theorem Sound.acquire (sound : Sound c s) (state : s.tracker.state = .f) (miss : Miss c s) (fetching : Fetching s) :
    Sound c { s with tracker := { s.tracker with reqSent := true } } :=
  sound.keep (by simp [state]) sound.fetchCnt sound.dataCnt
    (.f state ⟨⟨miss.wayEn, miss.bound, miss.alone⟩, miss.hit⟩ ⟨fetching.few, fetching.created, fetching.fetched⟩)

/-- A beat is counted when it is not zero. -/
theorem Fetching.metaTcnt_grant (fetching : Fetching s) (data : Row) (fetch : s.tracker.xact.op.isCreate = false) :
    (s.tracker.grant data).metaTcnt =
      s.tracker.metaTcnt + (s.tracker.beatDataUpdate data s.tracker.fetchCnt != 0).toNat := by
  have few : s.tracker.fetchCnt < 8 := fetching.few
  have bound : s.tracker.metaTcnt ≤ s.tracker.fetchCnt := by
    rw [fetching.fetched fetch]
    have length := List.countP_le_length (p := fun i => s.tracker.dataBuf i != 0) (l := List.range s.tracker.fetchCnt)
    rwa [List.length_range] at length
  simp only [TCTagXactTracker.grant]
  cases s.tracker.beatDataUpdate data s.tracker.fetchCnt != 0 with
  | true => exact Nat.mod_eq_of_lt (by omega)
  | false => rfl

theorem Fetching.countP_grant (fetching : Fetching s) (data : Row) (fetch : s.tracker.xact.op.isCreate = false) :
    (s.tracker.grant data).metaTcnt =
      (List.range (s.tracker.fetchCnt + 1)).countP fun i => (s.tracker.grant data).dataBuf i != 0 := by
  have front : (List.range s.tracker.fetchCnt).countP (fun i => (s.tracker.grant data).dataBuf i != 0) =
      s.tracker.metaTcnt := by
    rw [fetching.fetched fetch]
    apply List.countP_congr
    intro i member
    simp only [TCTagXactTracker.grant]
    rw [upd_of_ne (List.mem_range.mp member).ne]
  rw [fetching.metaTcnt_grant data fetch, List.range_succ, List.countP_append, front, List.countP_singleton]
  simp only [TCTagXactTracker.grant, upd_same]
  cases s.tracker.beatDataUpdate data s.tracker.fetchCnt != 0 <;> rfl

theorem Sound.grant (sound : Sound c s) (state : s.tracker.state = .f) (miss : Miss c s) (fetching : Fetching s)
    (fetch : s.tracker.xact.op.isCreate = false) (data : Row) :
    Sound c { s with tracker := s.tracker.grant data } := by
  have before : s.tracker.state ≠ .dwb ∧ s.tracker.state ≠ .mw := by simp [state]
  have dataCnt : (s.tracker.grant data).dataCnt = 0 := sound.dataCnt before.1
  have count := fetching.countP_grant data fetch
  have few := fetching.few
  have kept : Miss c { s with tracker := s.tracker.grant data } := ⟨⟨miss.wayEn, miss.bound, miss.alone⟩, miss.hit⟩
  by_cases last : s.tracker.fetchCnt + 1 = Config.outerDataBeats
  · have state' : (s.tracker.grant data).state = .dwb := by simp [TCTagXactTracker.grant, counterWrap, last]
    have fetchCnt : (s.tracker.grant data).fetchCnt = 0 := by simp [TCTagXactTracker.grant, counterNext, last]
    refine ⟨fun i w _ => sound.good i w fun changing => changing.1.elim before.1 before.2, sound.unique,
      fun _ => fetchCnt, fun _ => dataCnt, .dwb state' kept ?_ ?_ ?_⟩
    · simp only [dataCnt]
      decide
    · intro i inside
      simp only [dataCnt] at inside
      omega
    · rw [last] at count
      exact ⟨count.ge, by simp only [count]; exact Nat.le_succ _, fun _ => count⟩
  · have state' : (s.tracker.grant data).state = .f := by simp [TCTagXactTracker.grant, counterWrap, last]
    have fetchCnt : (s.tracker.grant data).fetchCnt = s.tracker.fetchCnt + 1 := by
      simp [TCTagXactTracker.grant, counterNext, last]
    refine sound.keep before (fun other => absurd state' other) (fun _ => dataCnt) (.f state' kept ⟨?_, ?_, ?_⟩)
    · simp only [fetchCnt]
      omega
    · intro create
      exact absurd create (by simp [TCTagXactTracker.grant, fetch])
    · intro _
      simp only [fetchCnt]
      exact count

theorem nonzeroRows_single {r : Nat} (inside : r < Config.outerDataBeats) (v : Row) :
    nonzeroRows (fun i => if i = r then v else 0) = (v != 0).toNat := by
  have count := nonzeroRows_upd (fun _ => 0) v inside
  have empty : nonzeroRows (fun _ => 0) = 0 := by decide
  rw [empty] at count
  have same : upd (fun _ => (0 : Row)) r v = fun i => if i = r then v else 0 := rfl
  rw [same] at count
  simpa using count

theorem Sound.create (sound : Sound c s) (state : s.tracker.state = .f) (miss : Miss c s) (fetching : Fetching s)
    (create : s.tracker.xact.op.isCreate = true) :
    Sound c { s with tracker := { s.tracker with state := .dwb, reqSent := false } } := by
  have before : s.tracker.state ≠ .dwb ∧ s.tracker.state ≠ .mw := by simp [state]
  have dataCnt := sound.dataCnt before.1
  obtain ⟨fetchCnt, tcnt, buffer⟩ := fetching.created create
  refine ⟨fun i w _ => sound.good i w fun changing => changing.1.elim before.1 before.2, sound.unique,
    fun _ => fetchCnt, fun _ => dataCnt, .dwb rfl ⟨⟨miss.wayEn, miss.bound, miss.alone⟩, miss.hit⟩ ?_ ?_ ?_⟩
  · simp only [dataCnt]
    decide
  · intro i inside
    simp only [dataCnt] at inside
    omega
  · have rows : nonzeroRows s.tracker.dataBuf = (s.tracker.xact.data &&& s.tracker.xact.mask != 0).toNat := by
      rw [buffer]
      exact nonzeroRows_single (rowOf_lt s.tracker.xact.addr) _
    have mark : TagSystem.newBlank { s with tracker := { s.tracker with state := .dwb, reqSent := false } } =
        !(s.tracker.xact.data &&& s.tracker.xact.mask != 0) := by
      simp [newBlank, create, bne]
    rw [mark]
    simp only [rows, tcnt]
    cases (s.tracker.xact.data &&& s.tracker.xact.mask != 0) with
    | true => exact ⟨le_rfl, by decide, fun _ => rfl⟩
    | false => exact ⟨by decide, le_rfl, fun sure => absurd sure (by decide)⟩

/-! Every step keeps the count. -/

theorem Sound.step (sound : Sound c s) {ev : TagEvent} (fired : s.step c ev = some t) : Sound c t := by
  have progress := sound.progress
  cases ev with
  | request req =>
    obtain ⟨state, ⟨⟩⟩ := Option.ite_none_right_eq_some.mp fired
    exact sound.keep (by simp [state]) (fun _ => sound.fetchCnt (by simp [state])) (fun _ => sound.dataCnt (by simp [state]))
      (.resting (.inr (.inl rfl)))
  | metaResp victim =>
    obtain ⟨⟨state, bound⟩, ⟨⟩⟩ := Option.ite_none_right_eq_some.mp fired
    exact sound.metaResp state bound
  | dataResp =>
    obtain ⟨state, ⟨⟩⟩ := Option.ite_none_right_eq_some.mp fired
    cases progress with
    | dr _ hit tcnt => exact sound.dataResp state hit tcnt
    | _ other => simp [state] at other
  -- one event serves the row of a hit and the rows of a new line
  | dataWrite =>
    simp only [TagSystem.step] at fired
    split at fired
    · rename_i state
      cases fired
      cases progress with
      | dwr _ hit row counted => exact sound.writeRow state hit row counted
      | _ other => simp [state] at other
    · obtain ⟨state, ⟨⟩⟩ := Option.ite_none_right_eq_some.mp fired
      cases progress with
      | dwb _ miss few stored counted => exact sound.writeLine state miss few stored counted
      | _ other => simp [state] at other
  | metaWrite =>
    obtain ⟨state, ⟨⟩⟩ := Option.ite_none_right_eq_some.mp fired
    cases progress with
    | mw _ chosen counted => exact sound.writeMeta state chosen counted
    | _ other => simp [state] at other
  | wbResp =>
    obtain ⟨state, ⟨⟩⟩ := Option.ite_none_right_eq_some.mp fired
    cases progress with
    | wb _ miss => exact sound.enterF (by simp [state]) miss (sound.fetchCnt (by simp [state])) (sound.dataCnt (by simp [state]))
    | _ other => simp [state] at other
  | acquire =>
    obtain ⟨⟨state, -, -⟩, ⟨⟩⟩ := Option.ite_none_right_eq_some.mp fired
    cases progress with
    | f _ miss fetching => exact sound.acquire state miss fetching
    | _ other => simp [state] at other
  | grant data =>
    obtain ⟨⟨state, fetch, -⟩, ⟨⟩⟩ := Option.ite_none_right_eq_some.mp fired
    cases progress with
    | f _ miss fetching => exact sound.grant state miss fetching fetch data
    | _ other => simp [state] at other
  | create =>
    obtain ⟨⟨state, create⟩, ⟨⟩⟩ := Option.ite_none_right_eq_some.mp fired
    cases progress with
    | f _ miss fetching => exact sound.create state miss fetching create
    | _ other => simp [state] at other
  | lock =>
    obtain ⟨state, ⟨⟩⟩ := Option.ite_none_right_eq_some.mp fired
    exact sound.keep (by simp [state]) (fun _ => sound.fetchCnt (by simp [state])) (fun _ => sound.dataCnt (by simp [state]))
      (.resting (.inl rfl))

theorem sound_of_steps (run : Steps (TagSystem.step c) anyEvent s t) (reset : s.OnReset) : Sound c t :=
  run.invariant reset.sound fun sound _ fired => sound.step fired

/-! The row count along every run. -/

/-- What the count of rows is good for, in one state of a run. -/
structure CountsRight (c : Config) (t : TagSystem) : Prop where
  /-- between requests the count of a valid line is right -/
  counted : t.tracker.state = .idle → ∀ i w, (t.metas i w).isValid = true →
    Counted (nonzeroRows (t.datas i w)) (t.metas i w).tcnt (t.blank i w)
  /-- a hit that is answered without the data array is answered with the row -/
  shortcut : ∀ {victim : Nat} {u : TagSystem}, t.step c (.metaResp victim) = some u → u.tracker.state = .l →
    u.tracker.hit = true → t.tracker.xact.op ≠ .u → t.tracker.xact.op ≠ .l →
    u.tracker.dataBuf u.tracker.row = u.line c u.tracker.row
  /-- the two assertions hold -/
  asserts : t.tracker.state = .dr → t.tracker.addsToFull (t.line c t.tracker.row) = false
    ∧ t.tracker.clearsEmpty (t.line c t.tracker.row) = false
  /-- the count steps without wrapping -/
  updated : t.tracker.state = .dr →
    t.tracker.tcntNext (t.line c t.tracker.row) + (t.tracker.clears (t.line c t.tracker.row)).toNat =
      t.tracker.metaTcnt + (t.tracker.adds (t.line c t.tracker.row)).toNat
  fetched : ∀ data, t.tracker.state = .f → t.tracker.xact.op.isCreate = false → (t.tracker.grant data).metaTcnt =
    t.tracker.metaTcnt + (t.tracker.beatDataUpdate data t.tracker.fetchCnt != 0).toNat

theorem row_eq_zero {line : Line} {r : Nat} (inside : r < Config.outerDataBeats) (empty : nonzeroRows line = 0) :
    line r = 0 := by
  have all := List.countP_eq_zero.mp empty r (List.mem_range.mpr inside)
  simpa using all

/-- A read of a line without tags finds the row empty. -/
theorem Sound.shortcut (sound : Sound c s) (state : s.tracker.state = .mr) {victim : Nat}
    (next : (s.metaResp c victim).state = .l) (hit : (s.metaResp c victim).hit = true)
    (notU : s.tracker.xact.op ≠ .u) (notL : s.tracker.xact.op ≠ .l) :
    (s.metaResp c victim).dataBuf (s.metaResp c victim).row =
      s.datas ((s.metaResp c victim).idx c) (s.metaResp c victim).way (s.metaResp c victim).row := by
  have closed : s.tracker.state ≠ .dwb ∧ s.tracker.state ≠ .mw := by simp [state]
  rcases sound.hitWays_cases with none' | ⟨w, single, member⟩
  · -- without a hit way no edge sets the flag
    rcases mrNext_miss s.tracker (s.metas (s.tracker.idx c) victim) with after | after | after <;>
      simp only [TagSystem.metaResp, none', List.isEmpty_nil, Bool.not_true, Bool.false_eq_true, if_false,
        ohToUInt_singleton, after, TCTagXactTracker.enterF] at hit
    split at hit <;> cases hit
  · obtain ⟨-, -, isValid⟩ := mem_hitWays.mp member
    have counted := sound.good _ w (fun changing => changing.1.elim closed.1 closed.2) isValid
    have zero : (s.metas (s.tracker.idx c) w).tcnt = 0 := by
      by_contra some'
      have other : s.tracker.mrNext true (s.metas (s.tracker.idx c) w) = .mw
          ∨ s.tracker.mrNext true (s.metas (s.tracker.idx c) w) = .dr := by
        simp only [TCTagXactTracker.mrNext, notU, notL, or_self, if_false, if_true]
        split
        · exact .inl rfl
        · simp [some']
      rcases other with after | after <;>
        simp [TagSystem.metaResp, single, after] at next
    have empty : nonzeroRows (s.datas (s.tracker.idx c) w) = 0 := by
      have least := counted.least
      omega
    have row := row_eq_zero (rowOf_lt s.tracker.xact.addr) empty
    rcases mrNext_hit s.tracker (s.metas (s.tracker.idx c) w) with after | after | after <;>
      simp [TagSystem.metaResp, single, after] at next ⊢
    simpa [TCTagXactTracker.row, TCTagXactTracker.idx, TCTagXactTracker.way] using row.symm

/-- The counts are right in every state that any requests, answers and beats lead to. -/
theorem counts_right (reset : s.OnReset) (run : Steps (TagSystem.step c) anyEvent s t) : CountsRight c t := by
  have sound := sound_of_steps run reset
  have dr : t.tracker.state = .dr → Counted (nonzeroRows (t.line c)) t.tracker.metaTcnt
      (t.blank (t.tracker.idx c) t.tracker.way) := by
    intro state
    cases sound.progress with
    | dr _ hit tcnt =>
      rw [tcnt]
      exact sound.counted_line hit (by simp [state])
    | _ other => simp [state] at other
  refine ⟨?_, ?_, fun state => (dr state).asserts, fun state => (dr state).tcntNext, ?_⟩
  · intro state i w
    exact sound.good i w fun changing => by simp [Changing, state] at changing
  · intro victim u fired next hit notU notL
    obtain ⟨⟨state, -⟩, ⟨⟩⟩ := Option.ite_none_right_eq_some.mp fired
    exact sound.shortcut state next hit notU notL
  · intro data state fetch
    cases sound.progress with
    | f _ _ fetching => exact fetching.metaTcnt_grant data fetch
    | _ other => simp [state] at other

def tableExample : Config := ⟨⟨2, 512, 2 ^ 27, 2 ^ 30, 64⟩, 1, 1, 2, 1⟩

def requestExample (op : TCTagOp) (data : Row) : TCTagRequest := ⟨0, data, 3, 2 ^ 30, op, 0⟩

def resetExample : TagSystem :=
  ⟨⟨.idle, requestExample .r 0, false, [], 0, .invalid, 0, 0, fun _ => 0, 0, false⟩, fun _ _ => .onReset,
    fun _ _ _ => 0, fun _ _ => false⟩

def eventsExample : List TagEvent :=
  [.request (requestExample .c 0), .metaResp 0, .create] ++ List.replicate 8 .dataWrite ++ [.metaWrite, .lock]
    ++ [.request (requestExample .w 1), .metaResp 0, .dataResp, .dataWrite, .metaWrite, .lock]

theorem counts_right_blank : ∃ t : TagSystem, t.tracker.state = .idle ∧ (t.metas 0 0).tcnt = 2
    ∧ nonzeroRows (t.datas 0 0) = 1 ∧ CountsRight tableExample t := by
  have ran : (exec (TagSystem.step tableExample) resetExample eventsExample).map
      (fun t => (t.tracker.state, (t.metas 0 0).tcnt, nonzeroRows (t.datas 0 0))) = some (.idle, 2, 1) := by decide +kernel
  obtain ⟨t, ran, result⟩ := Option.map_eq_some_iff.mp ran
  simp only [Prod.mk.injEq] at result
  exact ⟨t, result.1, result.2.1, result.2.2,
    counts_right (s := resetExample) ⟨rfl, rfl, rfl, fun _ _ => rfl⟩ (steps_of_exec ran)⟩

end TagSystem

end LowRisc.TagCache
