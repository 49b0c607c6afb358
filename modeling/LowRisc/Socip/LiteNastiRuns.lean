import LowRisc.Socip.LiteNasti

/-! Runs of the bridges from a lite master to a NASTI slave. -/

set_option autoImplicit false

namespace LowRisc.Socip

open LowRisc.Lib NastiMux

/-! Where a lite word lies in a NASTI word. -/

section
variable {p : LiteParams}

theorem packetSize_of_wide (wide : p.lb ≤ p.nb) : p.packetSize = 1 := by
  simp [LiteParams.packetSize, LiteParams.bufB, wide]

theorem nasti_addr_div (addr : Nat) : nasti_addr p addr / 2 ^ p.nb = addr / 2 ^ p.nb := by
  unfold nasti_addr
  split
  · rfl
  · exact Nat.mul_div_cancel _ (Nat.two_pow_pos _)

theorem word_base (wide : p.lb ≤ p.nb) (addr : Nat) :
    addr / 2 ^ p.nb * 2 ^ p.nb + 2 ^ p.lb * p.lane addr = addr / 2 ^ p.lb * 2 ^ p.lb := by
  have split' : 2 ^ p.nb = 2 ^ p.lb * 2 ^ (p.nb - p.lb) := by
    rw [← Nat.pow_add, Nat.add_sub_cancel' wide]
  have parts := Nat.div_add_mod (addr / 2 ^ p.lb) (2 ^ (p.nb - p.lb))
  rw [Nat.div_div_eq_div_mul, ← split'] at parts
  calc addr / 2 ^ p.nb * 2 ^ p.nb + 2 ^ p.lb * p.lane addr
      = 2 ^ p.lb * (2 ^ (p.nb - p.lb) * (addr / 2 ^ p.nb) + addr / 2 ^ p.lb % 2 ^ (p.nb - p.lb)) := by
        rw [LiteParams.lane, Nat.mul_add, split', Nat.mul_comm (addr / _), Nat.mul_assoc]
    _ = addr / 2 ^ p.lb * 2 ^ p.lb := by rw [parts, Nat.mul_comm]

theorem lane_lt (wide : p.lb ≤ p.nb) (addr : Nat) : 2 ^ p.lb * p.lane addr + 2 ^ p.lb ≤ 2 ^ p.nb := by
  have split' : 2 ^ p.nb = 2 ^ p.lb * 2 ^ (p.nb - p.lb) := by
    rw [← Nat.pow_add, Nat.add_sub_cancel' wide]
  have below : p.lane addr < 2 ^ (p.nb - p.lb) := Nat.mod_lt _ (Nat.two_pow_pos _)
  rw [split', ← Nat.mul_succ]
  exact Nat.mul_le_mul_left _ below

end

section
variable {I : Type} [DecidableEq I] {n : Nat} {vec : Nat → Slot I} {outstanding : List (I × Nat)}

theorem recorded_iff (inv : Recorded n vec outstanding) (id : I) :
    recorded n vec id = true ↔ id ∈ outstanding.map Prod.fst := by
  have ports : waiting outstanding id ≠ [] ↔ id ∈ outstanding.map Prod.fst := by
    simp [waiting, List.filter_eq_nil_iff]
  rw [← ports, ← inv id, ne_eq, portsOf, List.filterMap_eq_nil_iff]
  simp only [recorded, List.any_eq_true, portFor]
  constructor
  · rintro ⟨i, inside, hit⟩ none'
    simpa [hit] using none' i inside
  · intro some'
    by_contra none'
    apply some'
    intro i inside
    have miss : ((vec i).valid && (vec i).id == id) = false := by
      rw [Bool.eq_false_iff]
      exact fun hit => none' ⟨i, inside, hit⟩
    simp [miss]

theorem recorded_of_reset (empty : ∀ i, (vec i).valid = false) : Recorded n vec [] := by
  intro id
  simp [portsOf, portFor, empty, waiting]

theorem room_of_fresh {port : Nat} {id : I} (fresh : recorded n vec id = false) :
    ∀ i, wp n vec < i → i < n → (vec i).valid = true → (vec i).id = id → (vec i).port = port := by
  intro i _ inside valid same
  simp only [recorded, List.any_eq_false, List.mem_range, Bool.not_eq_true] at fresh
  have miss := fresh i inside
  simp [valid, same] at miss

theorem map_retired (f : Nat → Nat) (open' : List (I × Nat)) (gone : Option I) :
    (retired open' gone).map (fun x => (x.1, f x.2)) = retired (open'.map fun x => (x.1, f x.2)) gone := by
  cases gone with
  | none => rfl
  | some id =>
    simp only [retired]
    induction open' with
    | nil => rfl
    | cons x rest ih =>
      by_cases same : x.1 = id
      · simp [same]
      · simp [same, ih]

theorem nodup_retired {open' : List (I × Nat)} (distinct : (open'.map Prod.fst).Nodup) (gone : Option I) :
    ((retired open' gone).map Prod.fst).Nodup := by
  cases gone with
  | none => exact distinct
  | some id => exact distinct.sublist ((List.eraseP_sublist).map _)

theorem mem_retired {open' : List (I × Nat)} {gone : Option I} {id : I}
    (member : id ∈ (retired open' gone).map Prod.fst) : id ∈ open'.map Prod.fst := by
  cases gone with
  | none => exact member
  | some other => exact ((List.eraseP_sublist).map Prod.fst).subset member

end

namespace LiteReader

variable {I : Type} [DecidableEq I] {p : LiteParams}

theorem byteOf_lite_data (wide : p.lb ≤ p.nb) (data : Bus p.nb) (addr j : Nat) (inside : j < 2 ^ p.lb) :
    byteOf ((lite_data p data addr).setWidth (8 * 2 ^ p.lb)) j = byteOf data (2 ^ p.lb * p.lane addr + j) := by
  have buf : p.bufB = p.lb := by simp [LiteParams.bufB, wide]
  have shifted : lite_data p data addr = (data >>> (8 * 2 ^ p.bufB * p.lane addr)).setWidth _ := by
    unfold lite_data
    split
    · rename_i equal
      have zero : p.lane addr = 0 := by
        rw [LiteParams.lane, equal, buf, Nat.sub_self]
        exact Nat.mod_one _
      rw [zero, Nat.mul_zero, BitVec.ushiftRight_zero]
    · rfl
  rw [shifted, buf]
  apply BitVec.eq_of_getLsbD_eq
  intro i low
  simp only [byteOf, BitVec.getLsbD_extractLsb', BitVec.getLsbD_setWidth, BitVec.getLsbD_ushiftRight]
  have bit : 8 * 2 ^ p.lb * p.lane addr + (8 * j + i) = 8 * (2 ^ p.lb * p.lane addr + j) + i := by
    rw [Nat.mul_assoc, Nat.mul_add]
    omega
  have bound : 8 * j + i < 8 * 2 ^ p.lb := by omega
  rw [bit]
  simp [low, bound]

structure Kept (p : LiteParams) (s : System I) : Prop where
  recorded : Recorded p.maxTransaction s.regs.vec s.liteOpen
  agrees : Agrees p s
  wide : p.lb ≤ p.nb ∨ s.liteOpen = []

section
variable {s : System I} {e : Input p I}

theorem Kept.wide_of_answer (inv : Kept p s) (legal : Legal p s e) {x : RBeat I p.nb} (answer : e.r = some x) :
    p.lb ≤ p.nb ∧ x.id ∈ s.liteOpen.map Prod.fst := by
  have member := (legal x answer).1
  rw [inv.agrees.same, List.map_map] at member
  refine ⟨?_, by simpa using member⟩
  rcases inv.wide with wide | empty
  · exact wide
  · rw [empty] at member
    cases member

theorem Kept.passesOn (inv : Kept p s) (legal : Legal p s e) : PassesOn p s e := by
  intro x answer
  obtain ⟨wide, member⟩ := inv.wide_of_answer legal answer
  have single := packetSize_of_wide wide
  have hit := (recorded_iff inv.recorded x.id).mpr member
  have port := inv.recorded.port_eq member
  obtain ⟨⟨id, addr⟩, found, same⟩ := Option.map_eq_some_iff.mp port
  have inside := List.mem_of_find?_eq_some found
  have key : id = x.id := by simpa using List.find?_some found
  subst key
  refine ⟨addr, lite_r_data p s.regs e x, inside, ?_, fun mem shows j below => ?_⟩
  · simp [liteR, answer, hit, single, Option.filter_some]
  · have at' : (s.regs.vec (respIndex p s.regs x.id)).port = addr := same.symm
    rw [lite_r_data, if_pos single, at', byteOf_lite_data wide _ _ _ below,
      shows _ (by have := lane_lt wide addr; omega), nasti_addr_div, ← word_base wide addr, Nat.add_assoc]

theorem Kept.same_response (inv : Kept p s) (legal : Legal p s e) (prompt : Prompt p s e) :
    (liteRTaken p s.regs e).map LiteR.id = ((rTaken p s.regs e).filter RBeat.last).map RBeat.id := by
  cases answer : e.r with
  | none => simp [liteRTaken, liteR, rTaken, answer]
  | some x =>
    obtain ⟨wide, member⟩ := inv.wide_of_answer legal answer
    have single := packetSize_of_wide wide
    have hit := (recorded_iff inv.recorded x.id).mpr member
    have last := (legal x answer).2 single
    have shown : (liteR p s.regs e).isSome := by simp [liteR, answer, hit, single, Option.filter_some]
    have ready := prompt.1 shown
    simp [liteRTaken, liteR, rTaken, answer, hit, single, ready, last, Option.filter_some]

theorem nastiAr_taken : ((nastiAr p s.regs e).filter fun _ => e.ar_ready) =
    (arTaken p s.regs e).map fun x => (x.1, nasti_addr p x.2) := by
  cases asked : e.ar with
  | none => simp [nastiAr, arTaken, asked]
  | some x =>
    cases room : (!full p.maxTransaction s.regs.vec && !LowRisc.Socip.recorded p.maxTransaction s.regs.vec x.1) <;>
      cases ready : e.ar_ready <;> simp [nastiAr, arTaken, asked, room, ready, Option.filter_some]

theorem arTaken_fresh {x : I × Nat} (taken : arTaken p s.regs e = some x) :
    e.ar = some x ∧ full p.maxTransaction s.regs.vec = false ∧
      LowRisc.Socip.recorded p.maxTransaction s.regs.vec x.1 = false := by
  obtain ⟨asked, room⟩ := Option.filter_eq_some_iff.mp taken
  simp only [Bool.and_eq_true, Bool.not_eq_true'] at room
  exact ⟨asked, room.1.1, room.1.2⟩

theorem Kept.cycle (inv : Kept p s) (legal : Legal p s e) (prompt : Prompt p s e) :
    Kept p (LiteReader.cycle p s e) := by
  -- a response is taken on both sides in one cycle, so it answers what is open
  have given := inv.same_response legal prompt
  have open' : ∀ id, (liteRTaken p s.regs e).map LiteR.id = some id → id ∈ s.liteOpen.map Prod.fst := by
    intro id taken
    rw [given] at taken
    obtain ⟨x, found, rfl⟩ := Option.map_eq_some_iff.mp taken
    have answer := (Option.filter_eq_some_iff.mp (Option.filter_eq_some_iff.mp found).1).1
    exact (inv.wide_of_answer legal answer).2
  refine ⟨?_, ⟨?_, ?_⟩, ?_⟩
  · have step := inv.recorded.nextVec ((arTaken p s.regs e).map fun x => (x.2, x.1))
      ((liteRTaken p s.regs e).map LiteR.id)
      (fun port id taken => by
        obtain ⟨x, accepted, same⟩ := Option.map_eq_some_iff.mp taken
        obtain ⟨_, notFull, fresh⟩ := arTaken_fresh accepted
        cases same
        exact ⟨notFull, room_of_fresh fresh⟩)
      open'
    simpa [LiteReader.cycle, next, Function.comp_def] using step
  · show retired s.nastiOpen _ ++ ((nastiAr p s.regs e).filter fun _ => e.ar_ready).toList =
      (retired s.liteOpen _ ++ (arTaken p s.regs e).toList).map _
    rw [← given, nastiAr_taken, inv.agrees.same, List.map_append, map_retired]
    cases arTaken p s.regs e <;> rfl
  · show ((retired s.liteOpen _ ++ (arTaken p s.regs e).toList).map Prod.fst).Nodup
    cases taken : arTaken p s.regs e with
    | none => simpa using nodup_retired inv.agrees.distinct _
    | some x =>
      obtain ⟨_, _, fresh⟩ := arTaken_fresh taken
      -- a request is only taken when no other one of its number is open
      have new : x.1 ∉ s.liteOpen.map Prod.fst := fun member => by
        rw [(recorded_iff inv.recorded x.1).mpr member] at fresh
        cases fresh
      rw [List.map_append, List.nodup_append]
      refine ⟨nodup_retired inv.agrees.distinct _, by simp, ?_⟩
      intro a old b last same
      rw [same] at old
      cases List.mem_singleton.mp last
      exact new (mem_retired old)
  -- data are wide, or nothing is open and no request is taken
  · rcases prompt.2 with wide | silent
    · exact .inl wide
    · rcases inv.wide with wide | empty
      · exact .inl wide
      · refine .inr ?_
        show retired s.liteOpen _ ++ (arTaken p s.regs e).toList = []
        have untaken : arTaken p s.regs e = none := by simp [arTaken, silent]
        rw [empty, untaken]
        cases (liteRTaken p s.regs e).map LiteR.id <;> rfl

theorem kept_of_starts (starts : Starts s) : Kept p s := by
  obtain ⟨empty, lite, nasti⟩ := starts
  refine ⟨by rw [lite]; exact recorded_of_reset empty, ⟨by rw [lite, nasti]; rfl, by rw [lite]; exact .nil⟩, .inr lite⟩

theorem kept_of_run {t : System I} (starts : Starts s)
    (run : Steps (clock p) (fun s e => Legal p s e ∧ Prompt p s e) s t) : Kept p t :=
  run.invariant (kept_of_starts starts) fun inv admitted fired => by
    cases Option.some.inj fired
    exact inv.cycle admitted.1 admitted.2

end

end LiteReader

namespace LiteWriter

variable {I : Type} [DecidableEq I] {p : LiteParams}

/-! The bytes of a burst are those of its lite word. -/

theorem carries_bytes_wide (wide : p.lb ≤ p.nb) (addr : Nat) (w : LiteW p.lb) :
    nastiBytes p (nasti_addr p addr) [beatOf p addr w 0] = liteBytes p addr w := by
  have buf : p.bufB = p.lb := by simp [LiteParams.bufB, wide]
  have fits := lane_lt wide addr
  have larger : 2 ^ p.lb ≤ 2 ^ p.nb := Nat.pow_le_pow_right (by decide) wide
  -- with equal widths the lane is zero and the shift does nothing
  have zero (equal : p.nb = p.bufB) : p.lane addr = 0 := by
    rw [LiteParams.lane, equal, buf, Nat.sub_self]
    exact Nat.mod_one _
  have data : (beatOf p addr w 0).data = w.data.setWidth _ <<< (8 * (2 ^ p.lb * p.lane addr)) := by
    simp only [beatOf, if_true, nasti_data]
    split
    · rename_i equal
      rw [zero equal, Nat.mul_zero, Nat.mul_zero, BitVec.shiftLeft_zero]
    · rw [buf, Nat.mul_assoc]
  have strb : (beatOf p addr w 0).strb = w.strb.setWidth _ <<< (2 ^ p.lb * p.lane addr) := by
    simp only [beatOf, if_true, nasti_wmask]
    split
    · rename_i equal
      rw [zero equal, Nat.mul_zero, BitVec.shiftLeft_zero]
    · rw [buf]
  simp only [nastiBytes, List.zipIdx_singleton, List.flatMap_singleton, nasti_addr_div, Nat.zero_mul, Nat.add_zero,
    liteBytes]
  rw [strobed_window (2 ^ p.lb * p.lane addr) w.data w.strb fits, word_base wide addr]
  · intro j below outside
    rw [strb, BitVec.getLsbD_shiftLeft, BitVec.getLsbD_setWidth]
    rcases outside with low | high
    · simp [low]
    · rw [BitVec.getLsbD_of_ge w.strb (j - 2 ^ p.lb * p.lane addr) (by omega)]
      simp
  · intro j below
    refine ⟨?_, ?_⟩
    · have bit : 2 ^ p.lb * p.lane addr + j - 2 ^ p.lb * p.lane addr = j := by omega
      have inside : 2 ^ p.lb * p.lane addr + j < 2 ^ p.nb := by omega
      have above : ¬ 2 ^ p.lb * p.lane addr + j < 2 ^ p.lb * p.lane addr := by omega
      rw [strb, BitVec.getLsbD_shiftLeft, BitVec.getLsbD_setWidth, bit]
      simp [inside, above, show j < 2 ^ p.nb by omega]
    · rw [data, byteOf_shiftLeft _ _ _ (by omega), byteOf_setWidth _ _ (by omega)]

theorem carries_bytes_narrow (narrow : p.nb ≤ p.lb) (addr : Nat) (first : addr % 2 ^ p.lb < 2 ^ p.nb) (w : LiteW p.lb) :
    nastiBytes p (nasti_addr p addr) ((List.range p.packetSize).map (beatOf p addr w)) = liteBytes p addr w := by
  have buf : p.bufB = p.nb := by simp [LiteParams.bufB, narrow]
  have size : p.packetSize * 2 ^ p.nb = 2 ^ p.lb := by
    rw [LiteParams.packetSize, buf, ← Nat.pow_add, Nat.sub_add_cancel narrow]
  have base : addr / 2 ^ p.nb * 2 ^ p.nb = addr / 2 ^ p.lb * 2 ^ p.lb := by
    have whole := Nat.div_add_mod addr (2 ^ p.lb)
    have low := Nat.div_add_mod addr (2 ^ p.nb)
    have exact' : addr / 2 ^ p.nb = 2 ^ (p.lb - p.nb) * (addr / 2 ^ p.lb) := by
      have split' : 2 ^ p.lb = 2 ^ p.nb * 2 ^ (p.lb - p.nb) := by
        rw [← Nat.pow_add, Nat.add_sub_cancel' narrow]
      rw [← whole]
      nth_rewrite 1 [split']
      rw [Nat.mul_assoc, Nat.mul_add_div (Nat.two_pow_pos _), Nat.div_eq_of_lt first, Nat.add_zero, whole]
    rw [exact', Nat.mul_comm, ← Nat.mul_assoc, ← Nat.pow_add, Nat.add_sub_cancel' narrow, Nat.mul_comm]
  simp only [nastiBytes, zipIdx_map_range, List.flatMap_map, nasti_addr_div, base]
  have whole : List.range (2 ^ p.lb) = List.range (p.packetSize * 2 ^ p.nb) := congrArg List.range size.symm
  rw [liteBytes, strobed, whole,
    strobed_chunks _ p.packetSize w.data w.strb fun k => ((beatOf p addr w k).data, (beatOf p addr w k).strb)]
  intro k below j inside
  have same : (beatOf p addr w k).data = (w.data.extractLsb' (8 * (2 ^ p.nb * k)) (8 * 2 ^ p.nb)).setWidth _ ∧
      (beatOf p addr w k).strb = (w.strb.extractLsb' (2 ^ p.nb * k) (2 ^ p.nb)).setWidth _ := by
    by_cases zero : k = 0
    · subst zero
      simp only [beatOf, nasti_data, nasti_wmask, buf, if_true]
      constructor <;> apply BitVec.eq_of_getLsbD_eq <;> intro i low <;> simp [low]
    · simp only [beatOf, zero, if_false]
      constructor <;> apply BitVec.eq_of_getLsbD_eq <;> intro i low <;> simp [low, buf, Nat.mul_assoc]
  rw [same.1, same.2, byteOf_setWidth _ _ (by omega), byteOf_extract _ _ _ _ (by omega), Nat.mul_comm k]
  refine ⟨?_, rfl⟩
  simp [inside]

theorem carries_range (addr : Nat) (first : addr % 2 ^ p.lb < 2 ^ p.nb) (w : LiteW p.lb) :
    Carries p addr w ((List.range p.packetSize).map (beatOf p addr w)) where
  length := by simp
  last := by simp [beatOf, Function.comp_def]
  bytes := by
    rcases Nat.le_total p.lb p.nb with wide | narrow
    · rw [packetSize_of_wide wide]
      exact carries_bytes_wide wide addr w
    · exact carries_bytes_narrow narrow addr first w

def Done (liteAw : List (I × Nat)) (liteW : List (LiteW p.lb)) (bursts : List (List (NastiW p.nb))) : Prop :=
  ∀ (k : Nat) beats, bursts[k]? = some beats →
    ∃ (a : I × Nat) (w : LiteW p.lb), liteAw[k]? = some a ∧ liteW[k]? = some w ∧ Carries p a.2 w beats

omit [DecidableEq I] in
theorem Done.append {liteAw : List (I × Nat)} {liteW : List (LiteW p.lb)} {bursts : List (List (NastiW p.nb))}
    (done : Done liteAw liteW bursts) (aw : List (I × Nat)) (w : List (LiteW p.lb)) :
    Done (liteAw ++ aw) (liteW ++ w) bursts := by
  intro k beats found
  obtain ⟨a, word, atA, atW, carries⟩ := done k beats found
  refine ⟨a, word, ?_, ?_, carries⟩
  · rw [List.getElem?_append_left (List.getElem?_eq_some_iff.mp atA).1]
    exact atA
  · rw [List.getElem?_append_left (List.getElem?_eq_some_iff.mp atW).1]
    exact atW

omit [DecidableEq I] in
theorem Done.finish {front : List (I × Nat)} {older : List (LiteW p.lb)} {bursts : List (List (NastiW p.nb))} {a : I × Nat}
    {w : LiteW p.lb} {beats : List (NastiW p.nb)} (done : Done (front ++ [a]) (older ++ [w]) bursts)
    (addresses : front.length = bursts.length) (words : older.length = bursts.length) (carries : Carries p a.2 w beats) :
    Done (front ++ [a]) (older ++ [w]) (bursts ++ [beats]) := by
  intro k found here
  by_cases old : k < bursts.length
  · rw [List.getElem?_append_left old] at here
    exact done k found here
  · rw [List.getElem?_append_right (by omega)] at here
    have same : k = bursts.length := by
      have bound := (List.getElem?_eq_some_iff.mp here).1
      simp only [List.length_singleton] at bound
      omega
    subst same
    rw [Nat.sub_self, List.getElem?_cons_zero] at here
    cases Option.some.inj here
    refine ⟨a, w, ?_, ?_, carries⟩
    · rw [← addresses, List.getElem?_append_right (Nat.le_refl _), Nat.sub_self]
      rfl
    · rw [← words, List.getElem?_append_right (Nat.le_refl _), Nat.sub_self]
      rfl

/-- The write data against the writes: the finished bursts, and the open one if the lock is set. -/
inductive Stage (p : LiteParams) (m : Regs p I) (liteAw : List (I × Nat)) (liteW : List (LiteW p.lb))
    (nastiW : List (NastiW p.nb)) : Prop where
  | idle (bursts : List (List (NastiW p.nb))) (free : m.lock = false) (sent : nastiW = bursts.flatten)
      (addresses : liteAw.length = bursts.length) (words : liteW.length = bursts.length)
      (done : Done liteAw liteW bursts)
  | first (bursts : List (List (NastiW p.nb))) (front : List (I × Nat)) (id : I) (busy : m.lock = true)
      (sent : nastiW = bursts.flatten) (last : liteAw = front ++ [(id, m.xact_addr)])
      (aligned : m.xact_addr % 2 ^ p.lb < 2 ^ p.nb) (start : m.xact_data_cnt = 0)
      (addresses : front.length = bursts.length) (words : liteW.length = bursts.length)
      (done : Done liteAw liteW bursts)
  | later (bursts : List (List (NastiW p.nb))) (front : List (I × Nat)) (id : I) (older : List (LiteW p.lb))
      (busy : m.lock = true)
      (sent : nastiW = bursts.flatten ++
        (List.range m.xact_data_cnt).map (beatOf p m.xact_addr ⟨m.xact_data, m.xact_strb⟩))
      (last : liteAw = front ++ [(id, m.xact_addr)]) (word : liteW = older ++ [⟨m.xact_data, m.xact_strb⟩])
      (aligned : m.xact_addr % 2 ^ p.lb < 2 ^ p.nb) (started : m.xact_data_cnt ≠ 0)
      (open' : m.xact_data_cnt < p.packetSize)
      (addresses : front.length = bursts.length) (words : older.length = bursts.length)
      (done : Done liteAw liteW bursts)

theorem packetSize_pos : 0 < p.packetSize := Nat.two_pow_pos _

omit [DecidableEq I] in
theorem stage_of_beat {m : Regs p I} {bursts : List (List (NastiW p.nb))} {front : List (I × Nat)} {id : I}
    {older : List (LiteW p.lb)} {addr n : Nat} {w : LiteW p.lb} {nastiW : List (NastiW p.nb)}
    (sent : nastiW = bursts.flatten ++ (List.range n).map (beatOf p addr w)) (aligned : addr % 2 ^ p.lb < 2 ^ p.nb)
    (open' : n < p.packetSize) (addresses : front.length = bursts.length) (words : older.length = bursts.length)
    (done : Done (front ++ [(id, addr)]) (older ++ [w]) bursts) (same : m.xact_addr = addr) (data : m.xact_data = w.data)
    (strb : m.xact_strb = w.strb) (lock : m.lock = !(n == p.packetSize - 1))
    (count : n ≠ p.packetSize - 1 → m.xact_data_cnt = n + 1) :
    Stage p m (front ++ [(id, addr)]) (older ++ [w]) (nastiW ++ [beatOf p addr w n]) := by
  have more : nastiW ++ [beatOf p addr w n] = bursts.flatten ++ (List.range (n + 1)).map (beatOf p addr w) := by
    rw [sent, List.range_succ, List.map_append, List.append_assoc]
    rfl
  by_cases final : n = p.packetSize - 1
  · have size : n + 1 = p.packetSize := by omega
    refine .idle (bursts ++ [(List.range p.packetSize).map (beatOf p addr w)]) (by simp [lock, final]) ?_ (by simp [addresses])
      (by simp [words]) (done.finish addresses words (carries_range addr aligned w))
    rw [more, size]
    simp
  · have current : (⟨m.xact_data, m.xact_strb⟩ : LiteW p.lb) = w := by rw [data, strb]
    refine .later bursts front id older (by simp [lock, final]) ?_ (by rw [same]) (by rw [current]) (by rw [same]; exact aligned)
      (by rw [count final]; omega) (by rw [count final]; omega) addresses words done
    rw [more, count final, current, same]

section
variable {s : System p I} {e : Input p I}

theorem awTaken_fresh {x : I × Nat} (taken : awTaken p s.regs e = some x) :
    e.aw = some x ∧ s.regs.lock = false ∧ full p.maxTransaction s.regs.vec = false ∧
      LowRisc.Socip.recorded p.maxTransaction s.regs.vec x.1 = false := by
  obtain ⟨asked, room⟩ := Option.filter_eq_some_iff.mp taken
  simp only [Bool.and_eq_true, Bool.not_eq_true'] at room
  exact ⟨asked, room.1.1.1, room.1.1.2, room.1.2⟩

theorem awTaken_of_busy (busy : s.regs.lock = true) : awTaken p s.regs e = none := by
  cases asked : e.aw <;> simp [awTaken, asked, busy, Option.filter_some]

theorem stage_idle (prompt : Prompt p s e) (free : s.regs.lock = false) {bursts : List (List (NastiW p.nb))}
    (sent : s.nastiW = bursts.flatten) (addresses : s.liteAw.length = bursts.length)
    (words : s.liteW.length = bursts.length) (done : Done s.liteAw s.liteW bursts) :
    Stage p (next p s.regs e) (cycle p s e).liteAw (cycle p s e).liteW (cycle p s e).nastiW := by
  have noW : wTaken p s.regs e = none := by
    cases offered : e.w <;> simp [wTaken, offered, free, Option.filter_some]
  have noBeat : nastiWTaken p s.regs e = none := by simp [nastiWTaken, nastiW, free]
  simp only [cycle, noW, noBeat, Option.toList_none, List.append_nil]
  cases taken : awTaken p s.regs e with
  | none =>
    refine .idle bursts (by simp [next, taken, noBeat, free]) sent ?_ words ?_
    · simpa using addresses
    · simpa using done
  | some x =>
    obtain ⟨asked, _⟩ := awTaken_fresh taken
    refine .first bursts s.liteAw x.1 (by simp [next, taken]) sent (by simp [next, taken])
      (by simpa [next, taken] using prompt.2.2 x asked) (by simp [next, taken]) addresses words ?_
    simpa using done.append [x] []

theorem stage_first (busy : s.regs.lock = true) {bursts : List (List (NastiW p.nb))} {front : List (I × Nat)} {id : I}
    (sent : s.nastiW = bursts.flatten) (last : s.liteAw = front ++ [(id, s.regs.xact_addr)])
    (aligned : s.regs.xact_addr % 2 ^ p.lb < 2 ^ p.nb) (start : s.regs.xact_data_cnt = 0)
    (addresses : front.length = bursts.length) (words : s.liteW.length = bursts.length)
    (done : Done s.liteAw s.liteW bursts) :
    Stage p (next p s.regs e) (cycle p s e).liteAw (cycle p s e).liteW (cycle p s e).nastiW := by
  have noAw := awTaken_of_busy (e := e) busy
  have positive := packetSize_pos (p := p)
  simp only [cycle, noAw, Option.toList_none, List.append_nil]
  cases ready : e.w_ready
  · have noW : wTaken p s.regs e = none := by
      cases offered : e.w <;> simp [wTaken, offered, ready, Option.filter_some]
    have noBeat : nastiWTaken p s.regs e = none := by
      cases nastiW p s.regs e <;> simp [nastiWTaken, ready]
    refine .first bursts front id ?_ ?_ ?_ ?_ ?_ addresses ?_ ?_ <;> simp_all [next]
  · cases offered : e.w with
    | none =>
      have noW : wTaken p s.regs e = none := by simp [wTaken, offered]
      have noBeat : nastiWTaken p s.regs e = none := by simp [nastiWTaken, nastiW, offered, busy, start]
      refine .first bursts front id ?_ ?_ ?_ ?_ ?_ addresses ?_ ?_ <;> simp_all [next]
    | some w =>
      have gotW : wTaken p s.regs e = some w := by simp [wTaken, offered, busy, ready, Option.filter_some]
      have gotBeat : nastiWTaken p s.regs e = some (beatOf p s.regs.xact_addr w 0) := by
        simp [nastiWTaken, nastiW, offered, busy, start, ready, Option.filter_some]
      simp only [gotW, gotBeat, Option.toList_some, last]
      refine stage_of_beat (by simpa using sent) aligned positive addresses words
        (by simpa [last] using done.append [] [w]) (by simp [next, noAw]) (by simp [next, gotW]) (by simp [next, gotW])
        ?_ fun more => ?_
      · cases final : (0 == p.packetSize - 1) <;> simp [next, noAw, gotBeat, beatOf, final, busy]
      · have several : 1 < p.packetSize := by omega
        simp only [next, noAw, gotBeat, Option.isSome_none, Option.isSome_some, Bool.true_and, several, decide_true,
          if_true, start, Bool.false_eq_true, if_false]
        exact Nat.mod_eq_of_lt (by omega)

theorem stage_later (prompt : Prompt p s e) (busy : s.regs.lock = true) {bursts : List (List (NastiW p.nb))}
    {front : List (I × Nat)} {id : I} {older : List (LiteW p.lb)}
    (sent : s.nastiW = bursts.flatten ++
      (List.range s.regs.xact_data_cnt).map (beatOf p s.regs.xact_addr ⟨s.regs.xact_data, s.regs.xact_strb⟩))
    (last : s.liteAw = front ++ [(id, s.regs.xact_addr)])
    (word : s.liteW = older ++ [⟨s.regs.xact_data, s.regs.xact_strb⟩])
    (aligned : s.regs.xact_addr % 2 ^ p.lb < 2 ^ p.nb) (started : s.regs.xact_data_cnt ≠ 0)
    (open' : s.regs.xact_data_cnt < p.packetSize) (addresses : front.length = bursts.length)
    (words : older.length = bursts.length) (done : Done s.liteAw s.liteW bursts) :
    Stage p (next p s.regs e) (cycle p s e).liteAw (cycle p s e).liteW (cycle p s e).nastiW := by
  have noAw := awTaken_of_busy (e := e) busy
  have silent := prompt.2.1 busy started
  have noW : wTaken p s.regs e = none := by simp [wTaken, silent]
  have unfinished : s.regs.xact_data_cnt ≠ p.packetSize := by omega
  simp only [cycle, noAw, noW, Option.toList_none, List.append_nil]
  cases ready : e.w_ready
  · have noBeat : nastiWTaken p s.regs e = none := by
      cases nastiW p s.regs e <;> simp [nastiWTaken, ready]
    have same : next p s.regs e = { s.regs with vec := (next p s.regs e).vec } := by
      simp [next, noAw, noW, noBeat]
    rw [same]
    exact .later bursts front id older busy (by simpa [noBeat] using sent) last word aligned started open' addresses words done
  · have gotBeat : nastiWTaken p s.regs e =
        some (beatOf p s.regs.xact_addr ⟨s.regs.xact_data, s.regs.xact_strb⟩ s.regs.xact_data_cnt) := by
      simp [nastiWTaken, nastiW, busy, started, unfinished, ready, Option.filter_some]
    rw [last, word] at done
    simp only [gotBeat, Option.toList_some, last, word]
    refine stage_of_beat sent aligned open' addresses words done (by simp [next, noAw]) (by simp [next, noW])
      (by simp [next, noW]) ?_ fun more => ?_
    · cases final : (s.regs.xact_data_cnt == p.packetSize - 1) <;> simp [next, noAw, gotBeat, beatOf, final, busy]
    · have several : 1 < p.packetSize := by omega
      simp only [next, noAw, gotBeat, Option.isSome_none, Option.isSome_some, Bool.true_and, several, decide_true,
        if_true, Bool.false_eq_true, if_false]
      exact Nat.mod_eq_of_lt (by omega)

theorem Stage.cycle (stage : Stage p s.regs s.liteAw s.liteW s.nastiW) (prompt : Prompt p s e) :
    Stage p (next p s.regs e) (LiteWriter.cycle p s e).liteAw (LiteWriter.cycle p s e).liteW
      (LiteWriter.cycle p s e).nastiW := by
  cases stage with
  | idle bursts free sent addresses words done => exact stage_idle prompt free sent addresses words done
  | first bursts front id busy sent last aligned start addresses words done =>
    exact stage_first busy sent last aligned start addresses words done
  | later bursts front id older busy sent last word aligned started open' addresses words done =>
    exact stage_later prompt busy sent last word aligned started open' addresses words done

/-- The records, the addresses, the write data and the responses. -/
structure Kept (p : LiteParams) (s : System p I) : Prop where
  recorded : Recorded p.maxTransaction s.regs.vec s.liteOpen
  addresses : s.nastiAw = s.liteAw.map fun x => (x.1, nasti_addr p x.2)
  stage : Stage p s.regs s.liteAw s.liteW s.nastiW
  same : s.nastiOpen = s.liteOpen
  distinct : (s.liteOpen.map Prod.fst).Nodup

theorem nastiAw_taken : ((nastiAw p s.regs e).filter fun _ => e.aw_ready) =
    (awTaken p s.regs e).map fun x => (x.1, nasti_addr p x.2) := by
  cases asked : e.aw with
  | none => simp [nastiAw, awTaken, asked]
  | some x =>
    cases room : (!s.regs.lock && !full p.maxTransaction s.regs.vec &&
        !LowRisc.Socip.recorded p.maxTransaction s.regs.vec x.1) <;>
      cases ready : e.aw_ready <;> simp [nastiAw, awTaken, asked, room, ready, Option.filter_some]

theorem Kept.shows_response (inv : Kept p s) (legal : Legal p s e) {x : I × BitVec 2} (answer : e.b = some x) :
    liteB p s.regs e = some x := by
  have member := legal x answer
  rw [inv.same] at member
  simp [liteB, answer, (recorded_iff inv.recorded x.1).mpr member, Option.filter_some]

theorem Kept.same_response (inv : Kept p s) (legal : Legal p s e) (prompt : Prompt p s e) :
    liteBTaken p s.regs e = bTaken p s.regs e := by
  cases answer : e.b with
  | none => simp [liteBTaken, liteB, bTaken, answer]
  | some x =>
    have shown := inv.shows_response legal answer
    have ready := prompt.1 (by rw [shown]; rfl)
    have taken : bTaken p s.regs e = some x := shown
    rw [taken, liteBTaken, shown, ready]
    rfl

theorem Kept.cycle (inv : Kept p s) (legal : Legal p s e) (prompt : Prompt p s e) :
    Kept p (LiteWriter.cycle p s e) := by
  have given := inv.same_response legal prompt
  have open' : ∀ id, (liteBTaken p s.regs e).map Prod.fst = some id → id ∈ s.liteOpen.map Prod.fst := by
    intro id taken
    rw [given] at taken
    obtain ⟨x, found, rfl⟩ := Option.map_eq_some_iff.mp taken
    rw [← inv.same]
    exact legal x (Option.filter_eq_some_iff.mp found).1
  refine ⟨?_, ?_, inv.stage.cycle prompt, ?_, ?_⟩
  · have step := inv.recorded.nextVec ((awTaken p s.regs e).map fun x => (0, x.1))
      ((liteBTaken p s.regs e).map Prod.fst)
      (fun port id taken => by
        obtain ⟨x, accepted, same⟩ := Option.map_eq_some_iff.mp taken
        obtain ⟨_, _, notFull, fresh⟩ := awTaken_fresh accepted
        cases same
        exact ⟨notFull, room_of_fresh fresh⟩)
      open'
    simpa [LiteWriter.cycle, next, Function.comp_def] using step
  · show s.nastiAw ++ ((nastiAw p s.regs e).filter fun _ => e.aw_ready).toList =
      (s.liteAw ++ (awTaken p s.regs e).toList).map _
    rw [nastiAw_taken, inv.addresses, List.map_append]
    cases awTaken p s.regs e <;> rfl
  · show retired s.nastiOpen _ ++ (((nastiAw p s.regs e).filter fun _ => e.aw_ready).map _).toList =
      retired s.liteOpen _ ++ ((awTaken p s.regs e).map _).toList
    rw [given, inv.same, nastiAw_taken, Option.map_map]
    rfl
  · show ((retired s.liteOpen _ ++ ((awTaken p s.regs e).map _).toList).map Prod.fst).Nodup
    cases taken : awTaken p s.regs e with
    | none => simpa using nodup_retired inv.distinct _
    | some x =>
      -- the record keeps a second write of one number out
      obtain ⟨_, _, _, fresh⟩ := awTaken_fresh taken
      have new : x.1 ∉ s.liteOpen.map Prod.fst := fun member => by
        rw [(recorded_iff inv.recorded x.1).mpr member] at fresh
        cases fresh
      rw [List.map_append, List.nodup_append]
      refine ⟨nodup_retired inv.distinct _, by simp, ?_⟩
      intro a old b last same
      rw [same] at old
      cases List.mem_singleton.mp last
      exact new (mem_retired old)

theorem kept_of_starts (starts : Starts p s) : Kept p s := by
  obtain ⟨empty, free, liteAw, liteW, nastiAw, nastiW, liteOpen, nastiOpen⟩ := starts
  refine ⟨by rw [liteOpen]; exact recorded_of_reset empty, by rw [liteAw, nastiAw]; rfl, ?_,
    by rw [liteOpen, nastiOpen], by rw [liteOpen]; exact .nil⟩
  exact .idle [] free (by simp [nastiW]) (by simp [liteAw]) (by simp [liteW]) fun k beats found => by simp at found

theorem kept_of_run {t : System p I} (starts : Starts p s)
    (run : Steps (clock p) (fun s e => Legal p s e ∧ Prompt p s e) s t) : Kept p t :=
  run.invariant (kept_of_starts starts) fun inv admitted fired => by
    cases Option.some.inj fired
    exact inv.cycle admitted.1 admitted.2

theorem Kept.agrees (inv : Kept p s) : Agrees p s := by
  refine ⟨inv.addresses, ?_, inv.same, inv.distinct⟩
  cases inv.stage with
  | idle bursts free sent addresses words done =>
    exact ⟨bursts, [], by simpa using sent, done, fun _ => ⟨rfl, addresses, words⟩⟩
  | first bursts front id busy sent last aligned start addresses words done =>
    exact ⟨bursts, [], by simpa using sent, done, fun free => by rw [busy] at free; cases free⟩
  | later bursts front id older busy sent last word aligned started open' addresses words done =>
    exact ⟨bursts, _, sent, done, fun free => by rw [busy] at free; cases free⟩

end

end LiteWriter

section
variable {I : Type} [DecidableEq I] {p : LiteParams}

/-- In runs with a prompt lite master, both bridges pass every transaction on and lose no response. -/
theorem prompt_runs_lose_nothing {r r' : LiteReader.System I} {w w' : LiteWriter.System p I}
    (readerStarts : LiteReader.Starts r) (writerStarts : LiteWriter.Starts p w)
    (reads : Steps (LiteReader.clock p) (fun s e => LiteReader.Legal p s e ∧ LiteReader.Prompt p s e) r r')
    (writes : Steps (LiteWriter.clock p) (fun s e => LiteWriter.Legal p s e ∧ LiteWriter.Prompt p s e) w w') :
    LiteReader.Agrees p r' ∧ (∀ e, LiteReader.Legal p r' e → LiteReader.PassesOn p r' e) ∧
      LiteWriter.Agrees p w' ∧
      ∀ e, LiteWriter.Legal p w' e → ∀ x, e.b = some x → LiteWriter.liteB p w'.regs e = some x := by
  have reader := LiteReader.kept_of_run readerStarts reads
  have writer := LiteWriter.kept_of_run writerStarts writes
  exact ⟨reader.agrees, fun e legal => reader.passesOn legal, writer.agrees,
    fun e legal x answer => writer.shows_response legal answer⟩

end

/-! One read of a 32-bit word over a 64-bit bus, and one write of it. -/

def wordOverDouble : LiteParams := ⟨2, 3, 2⟩

namespace LiteReader

def afterReset : System Nat := ⟨⟨fun _ => ⟨false, 0, 0⟩, fun _ => 0, fun _ => 0⟩, [], []⟩

def asks : Input wordOverDouble Nat := ⟨some (1, 0x14), false, true, none, 0⟩

def answers (ready : Bool) : Input wordOverDouble Nat :=
  ⟨none, ready, true, some ⟨1, 0x0123456789abcdef#64, 0, true⟩, 0⟩

def asked : System Nat := cycle wordOverDouble afterReset asks

theorem legal_asks : Legal wordOverDouble afterReset asks := fun x answer => by cases answer

theorem legal_answers (ready : Bool) : Legal wordOverDouble asked (answers ready) := by
  intro x answer
  cases Option.some.inj answer
  exact ⟨by decide, fun _ => rfl⟩

end LiteReader

namespace LiteWriter

def afterReset : System wordOverDouble Nat :=
  ⟨⟨fun _ => ⟨false, 0, 0⟩, false, 0, 0#32, 0#4, 0⟩, [], [], [], [], [], []⟩

def asks : Input wordOverDouble Nat := ⟨some (1, 0x14), some ⟨0x89abcdef#32, 0xf#4⟩, true, true, true, none⟩

theorem prompt_asks : Legal wordOverDouble afterReset asks ∧ Prompt wordOverDouble afterReset asks := by
  refine ⟨fun x answer => (by cases answer), fun _ => rfl, fun busy => (by cases busy), fun x offered => ?_⟩
  cases Option.some.inj offered
  decide

def word : LiteW wordOverDouble.lb := ⟨0x89abcdef#32, 0xf#4⟩

def sends : Input wordOverDouble Nat := ⟨none, some word, true, true, true, none⟩

def acknowledged : Input wordOverDouble Nat := ⟨none, none, true, true, true, some (1, 0)⟩

def asked : System wordOverDouble Nat := cycle wordOverDouble afterReset asks
def sent : System wordOverDouble Nat := cycle wordOverDouble asked sends
def finished : System wordOverDouble Nat := cycle wordOverDouble sent acknowledged

theorem prompt_sends : Legal wordOverDouble asked sends ∧ Prompt wordOverDouble asked sends :=
  ⟨fun x answer => (by cases answer), fun shown => (by cases shown), fun _ busy => absurd rfl busy,
    fun x offered => (by cases offered)⟩

theorem prompt_acknowledged : Legal wordOverDouble sent acknowledged ∧ Prompt wordOverDouble sent acknowledged := by
  refine ⟨fun x answer => ?_, fun _ => rfl, fun _ _ => rfl, fun x offered => (by cases offered)⟩
  cases Option.some.inj answer
  decide

end LiteWriter

/-- The read is answered; the write is sent in the upper half of the bus and acknowledged. -/
theorem prompt_runs_lose_nothing_of_word :
    (LiteReader.cycle wordOverDouble LiteReader.asked (LiteReader.answers true)).liteOpen = [] ∧
    LiteReader.Agrees wordOverDouble (LiteReader.cycle wordOverDouble LiteReader.asked (LiteReader.answers true)) ∧
    LiteWriter.sent.liteOpen = [(1, 0)] ∧ LiteWriter.finished.liteOpen = [] ∧
    LiteWriter.finished.nastiW.map (fun beat => (beat.data.toNat, beat.strb.toNat)) = [(0x89abcdef00000000, 0xf0)] ∧
    LiteWriter.Agrees wordOverDouble LiteWriter.finished := by
  have reads : Steps (LiteReader.clock wordOverDouble)
      (fun s e => LiteReader.Legal wordOverDouble s e ∧ LiteReader.Prompt wordOverDouble s e) LiteReader.afterReset
      (LiteReader.cycle wordOverDouble LiteReader.asked (LiteReader.answers true)) :=
    .next (.next (.refl _) ⟨LiteReader.legal_asks, fun shown => (by cases shown), .inl (by decide)⟩ rfl)
      ⟨LiteReader.legal_answers true, fun _ => rfl, .inl (by decide)⟩ rfl
  have writes : Steps (LiteWriter.clock wordOverDouble)
      (fun s e => LiteWriter.Legal wordOverDouble s e ∧ LiteWriter.Prompt wordOverDouble s e) LiteWriter.afterReset
      LiteWriter.finished :=
    .next (.next (.next (.refl _) LiteWriter.prompt_asks rfl) LiteWriter.prompt_sends rfl)
      LiteWriter.prompt_acknowledged rfl
  obtain ⟨reader, _, writer, _⟩ := prompt_runs_lose_nothing ⟨fun _ => rfl, rfl, rfl⟩
    ⟨fun _ => rfl, rfl, rfl, rfl, rfl, rfl, rfl, rfl⟩ reads writes
  exact ⟨by decide, reader, by decide +kernel, by decide +kernel, by decide +kernel, writer⟩

/-- The lite master is not ready when the answer comes: the slave is done, the read is not. -/
theorem not_agrees_late_master :
    Steps (LiteReader.clock wordOverDouble) (LiteReader.Legal wordOverDouble) LiteReader.afterReset
      (LiteReader.cycle wordOverDouble LiteReader.asked (LiteReader.answers false)) ∧
    (LiteReader.cycle wordOverDouble LiteReader.asked (LiteReader.answers false)).nastiOpen = [] ∧
    (LiteReader.cycle wordOverDouble LiteReader.asked (LiteReader.answers false)).liteOpen = [(1, 0x14)] ∧
    ¬ LiteReader.Agrees wordOverDouble
      (LiteReader.cycle wordOverDouble LiteReader.asked (LiteReader.answers false)) := by
  refine ⟨.next (.next (.refl _) LiteReader.legal_asks rfl) (LiteReader.legal_answers false) rfl, by decide, by decide,
    fun agrees => ?_⟩
  have same := agrees.same
  revert same
  decide

end LowRisc.Socip
