import LowRisc.TagCache.TagLocks

/-! The banks of the tag cache, and copies of a block.

The demultiplexers give a request to the bank that the low bits of its block number name. The
initiators count blocks from the start of the top map instead. The two agree if and only if the
top map starts at a block of bank 0.
-/

set_option autoImplicit false

namespace LowRisc.TagCache

open LowRisc.Chisel LowRisc.Lib

variable {c : Config}

namespace Arrays

variable {a : Arrays} {idx tag : Nat}

/-- No two ways of a set hold one block. -/
def Unique (c : Config) (a : Arrays) (idx : Nat) : Prop :=
  ∀ w < c.nWays, ∀ w' < c.nWays, (a.metas idx w).isValid = true → (a.metas idx w').isValid = true →
    (a.metas idx w).tag = (a.metas idx w').tag → w = w'

theorem mem_hitWays {w : Nat} : w ∈ a.hitWays c idx tag ↔ w < c.nWays ∧ (a.metas idx w).tag = tag
    ∧ (a.metas idx w).isValid = true := by
  simp only [hitWays, List.mem_filter, List.mem_range, Bool.and_eq_true, beq_iff_eq]

theorem Unique.hitWays_cases (unique : a.Unique c idx) (tag : Nat) : a.hitWays c idx tag = []
    ∨ ∃ w < c.nWays, a.hitWays c idx tag = [w] ∧ (a.metas idx w).tag = tag ∧ (a.metas idx w).isValid = true := by
  cases ways : a.hitWays c idx tag with
  | nil => exact .inl rfl
  | cons w rest =>
    have distinct : (a.hitWays c idx tag).Nodup := List.nodup_range.filter _
    have member : ∀ v ∈ w :: rest, v < c.nWays ∧ (a.metas idx v).tag = tag ∧ (a.metas idx v).isValid = true := by
      intro v found
      rw [← ways] at found
      exact mem_hitWays.mp found
    obtain ⟨bound, same, valid⟩ := member w (List.mem_cons_self ..)
    rw [ways, List.nodup_cons] at distinct
    have alone : rest = [] := by
      refine List.eq_nil_iff_forall_not_mem.mpr fun v found => distinct.1 ?_
      obtain ⟨bound', same', valid'⟩ := member v (List.mem_cons_of_mem w found)
      rw [unique w bound v bound' valid valid' (same.trans same'.symm)]
      exact found
    exact .inr ⟨w, bound, by rw [alone], same, valid⟩

end Arrays

namespace TagXactTracker

variable {a a' : Arrays} {t t' : TagXactTracker} {victim : Nat}

def Holds (c : Config) (a : Arrays) (t : TagXactTracker) : Prop :=
  ∃ w < c.nWays, t.wayEn = [w] ∧ (a.metas (t.idx c) w).tag = t.addrTag c ∧ (a.metas (t.idx c) w).isValid = true

/-- The way in use is to be filled, and no way holds the block of the request. -/
def Lacks (c : Config) (a : Arrays) (t : TagXactTracker) : Prop :=
  (∃ w < c.nWays, t.wayEn = [w]) ∧ a.hitWays c (t.idx c) (t.addrTag c) = []

def Placed (c : Config) (a : Arrays) (t : TagXactTracker) : Prop :=
  match t.state with
  | .dr | .dwr => t.Holds c a
  | .wb | .f | .dwb => t.Lacks c a
  | .mw => t.Holds c a ∨ t.Lacks c a
  | .idle | .mr | .l => True

theorem Placed.congr (placed : t.Placed c a) (same : a'.metas (t.idx c) = a.metas (t.idx c)) : t.Placed c a' := by
  have ways : a'.hitWays c (t.idx c) (t.addrTag c) = a.hitWays c (t.idx c) (t.addrTag c) := by
    simp only [Arrays.hitWays, same]
  simp only [Placed, Holds, Lacks, same, ways] at placed ⊢
  exact placed

@[simp] theorem enterF_state (t : TagXactTracker) : t.enterF.state = .f := by
  unfold enterF
  split <;> rfl

@[simp] theorem enterF_xact (t : TagXactTracker) : t.enterF.xact = t.xact := by
  unfold enterF
  split <;> rfl

@[simp] theorem enterF_wayEn (t : TagXactTracker) : t.enterF.wayEn = t.wayEn := by
  unfold enterF
  split <;> rfl

theorem Placed.enterF (placed : t.Placed c a) (state : t.state = .wb) : t.enterF.Placed c a := by
  simp only [Placed, state, Lacks, idx, addrTag, enterF_state, enterF_xact, enterF_wayEn] at placed ⊢
  exact placed

theorem mrNext_of_miss (t : TagXactTracker) (md : TCMetadata) :
    t.mrNext false md = .l ∨ t.mrNext false md = .wb ∨ t.mrNext false md = .f := by
  unfold mrNext
  split
  · exact .inl rfl
  · simp only [Bool.false_eq_true, if_false]
    split
    · exact .inl rfl
    · split
      · exact .inr (.inl rfl)
      · exact .inr (.inr rfl)

theorem mrNext_of_hit (t : TagXactTracker) (md : TCMetadata) :
    t.mrNext true md = .l ∨ t.mrNext true md = .mw ∨ t.mrNext true md = .dr := by
  unfold mrNext
  split
  · exact .inl rfl
  · simp only [if_true]
    split
    · exact .inr (.inl rfl)
    · split
      · exact .inl rfl
      · exact .inr (.inr rfl)

/-- The metadata response finds the block, or names a way for it. -/
theorem placed_metaResp (unique : a.Unique c (t.idx c)) (bound : victim < c.nWays) :
    (t.metaResp c a victim).Placed c a ∧ (t.metaResp c a victim).xact = t.xact
      ∧ (t.metaResp c a victim).state ≠ .idle := by
  rcases unique.hitWays_cases (t.addrTag c) with none' | ⟨w, inside, ways, same, valid⟩
  · have lacks : ∀ u : TagXactTracker, u.xact = t.xact → u.wayEn = [victim] → u.Lacks c a := by
      intro u xact wayEn
      simp only [Lacks, idx, addrTag, xact, wayEn]
      exact ⟨⟨victim, bound, rfl⟩, none'⟩
    simp only [metaResp, none', List.isEmpty_nil, Bool.not_true, Bool.false_eq_true, if_false]
    rcases t.mrNext_of_miss (a.metas (t.idx c) (ohToUInt [victim])) with next | next | next
    · simp only [next, Placed]
      exact ⟨trivial, trivial, by simp⟩
    · simp only [next, Placed]
      exact ⟨lacks _ rfl rfl, trivial, by simp⟩
    · simp only [next, Placed, enterF_state, enterF_xact]
      exact ⟨lacks _ (enterF_xact _) (enterF_wayEn _), trivial, by simp⟩
  · have holds : ∀ u : TagXactTracker, u.xact = t.xact → u.wayEn = [w] → u.Holds c a := by
      intro u xact wayEn
      simp only [Holds, idx, addrTag, xact, wayEn]
      exact ⟨w, inside, rfl, same, valid⟩
    simp only [metaResp, ways, List.isEmpty_cons, Bool.not_false, if_true]
    rcases t.mrNext_of_hit (a.metas (t.idx c) (ohToUInt [w])) with next | next | next
    · simp only [next, Placed]
      exact ⟨trivial, trivial, by simp⟩
    · simp only [next, Placed]
      exact ⟨.inl (holds _ rfl rfl), trivial, by simp⟩
    · simp only [next, Placed]
      exact ⟨holds _ rfl rfl, trivial, by simp⟩

theorem way_eq (unique : a.Unique c (t.idx c)) {w : Nat} (wayEn : t.wayEn = [w]) (known : t.Holds c a ∨ t.Lacks c a)
    {v : Nat} (bound : v < c.nWays) (valid : (a.metas (t.idx c) v).isValid = true)
    (same : (a.metas (t.idx c) v).tag = t.addrTag c) : v = w := by
  rcases known with ⟨w', bound', wayEn', same', valid'⟩ | ⟨-, none'⟩
  · obtain rfl : w' = w := by simpa [wayEn] using wayEn'.symm
    exact unique v bound w' bound' valid valid' (same.trans same'.symm)
  · have member := Arrays.mem_hitWays.mpr ⟨bound, same, valid⟩
    rw [none'] at member
    cases member

/-- The new entry is the only one with its tag. -/
theorem unique_writeMeta (unique : a.Unique c (t.idx c)) (known : t.Holds c a ∨ t.Lacks c a) (tcnt : Nat)
    (state : LineState) : (a.writeMeta (t.idx c) t.wayEn ⟨t.addrTag c, tcnt, state⟩).Unique c (t.idx c) := by
  obtain ⟨w, wayEn⟩ : ∃ w, t.wayEn = [w] := by
    rcases known with ⟨w, -, wayEn, -⟩ | ⟨⟨w, -, wayEn⟩, -⟩ <;> exact ⟨w, wayEn⟩
  intro v bound v' bound' valid valid' same
  simp only [Arrays.writeMeta, wayEn, List.mem_singleton, true_and] at valid valid' same
  by_cases new : v = w
  · by_cases new' : v' = w
    · rw [new, new']
    · rw [if_neg new'] at valid'
      rw [if_pos new, if_neg new'] at same
      exact absurd (way_eq unique wayEn known bound' valid' same.symm) new'
  · rw [if_neg new] at valid
    by_cases new' : v' = w
    · rw [if_neg new, if_pos new'] at same
      exact absurd (way_eq unique wayEn known bound valid same) new
    · rw [if_neg new'] at valid'
      rw [if_neg new, if_neg new'] at same
      exact unique v bound v' bound' valid valid' same

theorem placed_visit (unique : a.Unique c (t.idx c)) (placed : t.Placed c a) (visited : t.visit c a victim = some (t', a')) :
    t'.Placed c a' ∧ a'.Unique c (t.idx c) ∧ (∀ s ≠ t.idx c, a'.metas s = a.metas s)
      ∧ t'.xact = t.xact ∧ t.state ≠ .idle := by
  cases state : t.state with
  | idle | wb | l => simp [visit, state] at visited
  | mr =>
    simp only [visit, state] at visited
    split at visited
    · rename_i bound
      cases visited
      obtain ⟨placed', xact, -⟩ := placed_metaResp (t := t) unique bound
      exact ⟨placed', unique, fun _ _ => rfl, xact, by simp⟩
    · cases visited
  | dr =>
    simp only [visit, state] at visited
    cases visited
    refine ⟨?_, unique, fun _ _ => rfl, rfl, by simp⟩
    simp only [Placed, state] at placed
    -- a write has its row ready, a read is done with the arrays
    cases write : t.xact.op.isWrite with
    | true =>
      simp only [Placed, dataResp, write, if_true]
      exact placed
    | false => simp [Placed, dataResp, write]
  | dwr =>
    simp only [visit, state] at visited
    cases visited
    simp only [Placed, state] at placed
    exact ⟨.inl placed, unique, fun _ _ => rfl, rfl, by simp⟩
  | mw =>
    simp only [visit, state] at visited
    cases visited
    simp only [Placed, state] at placed
    -- the way written is the one the tracker was placed on, so the tag stays unique
    refine ⟨trivial, unique_writeMeta unique placed _ _, fun s other => ?_, rfl, by simp⟩
    simp [Arrays.writeMeta, other]
  | f =>
    simp only [visit, state] at visited
    simp only [Placed, state] at placed
    -- a create and a fetch end up on the same way
    split at visited
    · cases visited
      exact ⟨placed, unique, fun _ _ => rfl, rfl, by simp⟩
    · split at visited
      · cases visited
        exact ⟨placed, unique, fun _ _ => rfl, rfl, by simp⟩
      · cases visited
        refine ⟨?_, unique, fun _ _ => rfl, rfl, by simp⟩
        simp only [Placed]
        exact placed
  | dwb =>
    simp only [visit, state] at visited
    cases visited
    simp only [Placed, state] at placed
    exact ⟨.inr placed, unique, fun _ _ => rfl, rfl, by simp⟩

end TagXactTracker

/-! Which bank serves a set. -/

theorem Config.Admissible.idxOf_mod (admissible : c.Admissible) (addr : Nat) :
    c.idxOf addr % c.nTagTransactors = c.bankOf (Config.blockOf addr) := by
  have dvd : c.nTagTransactors ∣ 2 ^ c.idxBits := by
    obtain ⟨j, banks⟩ := admissible.tagTransactors
    obtain ⟨k, sets⟩ := admissible.sets
    have order : j ≤ k := by
      have least := admissible.sets_ge
      rw [banks, sets] at least
      exact (Nat.pow_le_pow_iff_right (by decide)).mp least
    rw [banks]
    refine Nat.pow_dvd_pow 2 ?_
    rw [Config.idxBits, sets]
    cases k with
    | zero => exact order.trans (Nat.zero_le _)
    | succ k => rwa [log2Up_two_pow (Nat.succ_pos k)]
  exact Nat.mod_mod_of_dvd _ dvd

theorem Config.blockOf_initAddr (i k : Nat) :
    Config.blockOf (c.initAddr i k) = Config.blockOf c.topMapBase + i + k * c.nTagTransactors := by
  have sum : c.initAddr i k = c.topMapBase + (i + k * c.nTagTransactors) * Config.blockBytes := by
    simp only [Config.initAddr]
    ring
  rw [sum, Config.blockOf, Nat.add_mul_div_right _ _ (by decide), Nat.add_assoc]
  rfl

theorem Config.bankOf_initAddr (aligned : c.nTagTransactors ∣ Config.blockOf c.topMapBase) {i : Nat}
    (bound : i < c.nTagTransactors) (k : Nat) : c.bankOf (Config.blockOf (c.initAddr i k)) = i := by
  obtain ⟨q, base⟩ := aligned
  rw [Config.blockOf_initAddr, base, Config.bankOf, Nat.add_mul_mod_self_right, Nat.mul_add_mod, Nat.mod_eq_of_lt bound]

namespace State

variable {s s' : State c}

/-- Every request is in its bank, no two banks work on one set, and no set holds a block twice. -/
structure OneCopy (s : State c) : Prop where
  routed : ∀ i < c.nTagTransactors, (s.tag i).state ≠ .idle → c.bankOf (s.tag i).block = i
  sets : ∀ i < c.nTagTransactors, ∀ j < c.nTagTransactors, (s.tag i).state ≠ .idle → (s.tag j).state ≠ .idle →
    (s.tag i).idx c = (s.tag j).idx c → i = j
  copies : ∀ idx, s.arrays.Unique c idx

structure Banked (s : State c) : Prop where
  routed : ∀ i, (s.tag i).state ≠ .idle → i < c.nTagTransactors ∧ c.bankOf (s.tag i).block = i
  placed : ∀ i, (s.tag i).Placed c s.arrays
  unique : ∀ idx, s.arrays.Unique c idx

theorem OnReset.banked (reset : s.OnReset) : Banked s := by
  refine ⟨fun i busy => absurd (reset.tag i) busy, fun i => ?_, fun idx w _ w' _ valid => ?_⟩
  · simp [TagXactTracker.Placed, reset.tag i]
  · simp [reset.metas, TCMetadata.onReset, TCMetadata.isValid] at valid

theorem Banked.bank_eq (admissible : c.Admissible) (banked : Banked s) {i : Nat} (busy : (s.tag i).state ≠ .idle) :
    (s.tag i).idx c % c.nTagTransactors = i :=
  (admissible.idxOf_mod _).trans (banked.routed i busy).2

theorem Banked.oneCopy (admissible : c.Admissible) (banked : Banked s) : OneCopy s where
  routed i _ busy := (banked.routed i busy).2
  sets i _ j _ busy busy' same := by
    rw [← banked.bank_eq admissible busy, same, banked.bank_eq admissible busy']
  copies := banked.unique

theorem Banked.frame (banked : Banked s) (tag : s'.tag = s.tag) (arrays : s'.arrays.metas = s.arrays.metas) :
    Banked s' := by
  refine ⟨?_, fun i => ?_, fun idx w bound w' bound' => ?_⟩
  · rw [tag]
    exact banked.routed
  · rw [tag]
    exact (banked.placed i).congr (by rw [arrays])
  · rw [arrays]
    exact banked.unique idx w bound w' bound'

theorem Banked.update (banked : Banked s) {i : Nat} {t : TagXactTracker}
    (tag : s'.tag = upd s.tag i t) (arrays : s'.arrays.metas = s.arrays.metas) (placed : t.Placed c s.arrays)
    (routed : t.state ≠ .idle → i < c.nTagTransactors ∧ c.bankOf t.block = i) : Banked s' := by
  refine ⟨fun j busy => ?_, fun j => ?_, fun idx w bound w' bound' => ?_⟩
  · rw [tag] at busy ⊢
    by_cases same : j = i
    · subst same
      rw [upd_same] at busy ⊢
      exact routed busy
    · rw [upd_of_ne same] at busy ⊢
      exact banked.routed j busy
  · rw [tag]
    by_cases same : j = i
    · subst same
      rw [upd_same]
      exact placed.congr (by rw [arrays])
    · rw [upd_of_ne same]
      exact (banked.placed j).congr (by rw [arrays])
  · rw [arrays]
    exact banked.unique idx w bound w' bound'

@[simp] theorem deliver_tag (s : State c) (i : Nat) (resp : TCTagResp) : (s.deliver i resp).tag = s.tag := by
  unfold deliver
  split <;> rfl

@[simp] theorem deliver_arrays (s : State c) (i : Nat) (resp : TCTagResp) : (s.deliver i resp).arrays = s.arrays := by
  unfold deliver
  split <;> rfl

@[simp] theorem deliver_wb (s : State c) (i : Nat) (resp : TCTagResp) : (s.deliver i resp).wb = s.wb := by
  unfold deliver
  split <;> rfl

theorem lockTable_kept {req : TCTagRequest} (locked : s.lockTable req = some s') :
    s'.tag = s.tag ∧ s'.arrays = s.arrays ∧ s'.wb = s.wb := by
  unfold lockTable at locked
  split at locked
  · split at locked
    · obtain ⟨j, -, rfl⟩ := Option.map_eq_some_iff.mp locked
      exact ⟨rfl, rfl, rfl⟩
    · cases locked
      exact ⟨rfl, rfl, rfl⟩
  · cases locked
    exact ⟨rfl, rfl, rfl⟩

theorem Banked.accept (banked : Banked s) (aligned : c.nTagTransactors ∣ Config.blockOf c.topMapBase) {i : Nat}
    (fired : s.stepAccept i = some s') : Banked s' := by
  have taken : ∀ {t : State c} {req : TCTagRequest}, t.tag = upd s.tag i ((s.tag i).accept req) →
      t.arrays = s.arrays → i < c.nTagTransactors → c.bankOf (Config.blockOf req.addr) = i → Banked t := by
    intro t req tag arrays bound bank
    exact banked.update tag (by rw [arrays]) (by simp [TagXactTracker.Placed, TagXactTracker.accept])
      fun _ => ⟨bound, bank⟩
  unfold stepAccept at fired
  split at fired
  · rename_i ready
    split at fired
    · cases fired
      exact taken rfl rfl ready.1 (Config.bankOf_initAddr aligned ready.1 _)
    · split at fired
      · rename_i presented
        cases fired
        simp only [presents, Bool.and_eq_true, decide_eq_true_eq] at presented
        exact taken rfl rfl ready.1 presented.2
      · cases fired
  · cases fired

theorem Banked.lock (banked : Banked s) {i : Nat} (fired : s.stepLock i = some s') : Banked s' := by
  obtain ⟨locked, table, result⟩ := Option.map_eq_some_iff.mp fired
  obtain ⟨tag, arrays, -⟩ := lockTable_kept table
  have done : Banked (locked.setTag i { s.tag i with state := .idle }) := by
    refine banked.update (i := i) (t := { s.tag i with state := .idle }) ?_ ?_ ?_ fun busy => ?_
    · simp only [setTag, tag]
    · simp only [setTag, arrays]
    · simp [TagXactTracker.Placed]
    · exact absurd rfl busy
  split at result
  · rw [← result]
    exact done
  · rw [← result]
    exact done.frame (deliver_tag ..) (by rw [deliver_arrays])

/-- Another tracker works on another set, so a visit leaves it what it knows. -/
theorem Banked.visit (admissible : c.Admissible) (banked : Banked s) {i way : Nat}
    (fired : s.stepVisit i way = some s') : Banked s' := by
  obtain ⟨⟨t, a⟩, visited, result⟩ := Option.map_eq_some_iff.mp fired
  obtain ⟨placed, unique, others, xact, busy⟩ := TagXactTracker.placed_visit (banked.unique _) (banked.placed i) visited
  have moved : Banked { s.setTag i t with arrays := a } := by
    refine ⟨fun j busy' => ?_, fun j => ?_, fun idx => ?_⟩
    · by_cases same : j = i
      · subst same
        simp only [setTag, upd_same, TagXactTracker.block, xact]
        exact banked.routed j busy
      · simp only [setTag, upd_of_ne same] at busy' ⊢
        exact banked.routed j busy'
    · by_cases same : j = i
      · subst same
        simp only [setTag, upd_same]
        exact placed
      · simp only [setTag, upd_of_ne same]
        by_cases idle : (s.tag j).state = .idle
        · simp [TagXactTracker.Placed, idle]
        · refine (banked.placed j).congr (others _ fun sets => same ?_)
          rw [← banked.bank_eq admissible idle, sets, banked.bank_eq admissible busy]
    · by_cases same : idx = (s.tag i).idx c
      · rw [same]
        exact unique
      · intro w bound w' bound'
        rw [others idx same]
        exact banked.unique idx w bound w' bound'
  simp only at result
  split at result
  · rw [← result]
    exact moved.frame (deliver_tag ..) (by rw [deliver_arrays])
  · rw [← result]
    exact moved

theorem Banked.wb (banked : Banked s) (fired : s.stepWb = some s') : Banked s' := by
  unfold stepWb at fired
  split at fired
  · cases fired
  · cases fired
    exact banked.frame rfl rfl
  · cases fired
    exact banked.frame rfl rfl
  · split at fired
    · rename_i waits
      cases fired
      refine banked.update rfl rfl ((banked.placed s.wb.id).enterF waits) fun _ => ?_
      simp only [TagXactTracker.block, TagXactTracker.enterF_xact]
      exact banked.routed s.wb.id (by simp [waits])
    · cases fired
      exact banked.frame rfl rfl
  · cases fired
    exact banked.frame rfl rfl

theorem Banked.step (admissible : c.Admissible) (aligned : c.nTagTransactors ∣ Config.blockOf c.topMapBase)
    (banked : Banked s) {e : Event c} (fired : s.step e = some s') : Banked s' := by
  have mt : ∀ {m source target}, s.stepMt m source target = some s' → Banked s' := by
    intro m source target moved
    unfold stepMt at moved
    split at moved
    · cases moved
      exact banked.frame rfl rfl
    · cases moved
  cases e with
  | acquire m req order =>
    simp only [State.step, stepAcquire] at fired
    split at fired
    · cases fired
      exact banked.frame rfl rfl
    · cases fired
  | outerAcquire m => exact mt fired
  | outerGrant m => exact mt fired
  | innerGrant m => exact mt fired
  | accept i => exact banked.accept aligned fired
  | tag i way =>
    simp only [State.step, stepTag] at fired
    split at fired
    · split at fired
      · exact banked.lock fired
      · exact banked.visit admissible fired
    · cases fired
  | wbReq i =>
    simp only [State.step, stepWbReq] at fired
    split at fired
    · rename_i ready
      cases fired
      have placed := banked.placed i
      simp only [TagXactTracker.Placed, ready.2.1] at placed
      refine banked.update rfl rfl ?_ fun _ => banked.routed i (by simp [ready.2.1])
      simp only [TagXactTracker.Placed, ready.2.1]
      exact placed
    · cases fired
  | wb => exact banked.wb fired

/-! The first request of bank 0. -/

/-- A state after reset. -/
def blank (c : Config) : State c where
  mem _ := ⟨.idle, .idle, false, false, 0, 0, 0, false, false, true, true, true⟩
  tag _ := ⟨.idle, ⟨0, 0, 0, 0, .r, 0⟩, false, [], 0, .invalid, 0, fun _ => 0, false, false⟩
  rstCnt _ := 0
  lastGrant _ := 0
  wb := ⟨.idle, 0, 0, [], 0, fun _ => 0⟩
  locks _ := ⟨0, 0, 0, false⟩
  arrays := ⟨fun _ _ => .onReset, fun _ _ _ => 0, fun _ _ => 0⟩

theorem blank_onReset (c : Config) : (blank c).OnReset :=
  ⟨fun _ => ⟨rfl, rfl, rfl, rfl, rfl, rfl⟩, fun _ => rfl, fun _ => rfl, fun _ => rfl, rfl, fun _ => rfl, fun _ _ => rfl⟩

theorem nBlocks_pos (admissible : c.Admissible) : 0 < c.nBlocks 0 := by
  have blocks : 0 < c.nTopMapBlocks := by
    obtain ⟨t, m, b, A, S, geo⟩ := admissible.exists_geometry
    have positive := geo.positive
    simp only [Config.nTopMapBlocks, Config.map1Blocks, geo.map1, Config.blockBytes]
    split <;> omega
  unfold Config.nBlocks
  split
  · exact Nat.succ_pos _
  · rename_i whole
    rw [Nat.add_zero, Nat.div_pos_iff]
    obtain ⟨k, banks⟩ := admissible.tagTransactors
    have dvd : c.nTagTransactors ∣ c.nTopMapBlocks := Nat.dvd_of_mod_eq_zero (by omega)
    exact ⟨by rw [banks]; exact Nat.two_pow_pos k, Nat.le_of_dvd blocks dvd⟩

theorem aligned_of_oneCopy (admissible : c.Admissible) (always : ∀ s, Reaches c anyEvent s → OneCopy s) :
    c.nTagTransactors ∣ Config.blockOf c.topMapBase := by
  have banks : 0 < c.nTagTransactors := by
    obtain ⟨k, banks⟩ := admissible.tagTransactors
    rw [banks]
    exact Nat.two_pow_pos k
  have busy : (blank c).initialising 0 = true := by
    have positive := nBlocks_pos admissible
    exact decide_eq_true positive.ne
  have fired : (blank c).step (.accept 0) = some { (blank c).setTag 0 (((blank c).tag 0).accept ((blank c).initReq 0)) with
      rstCnt := upd (blank c).rstCnt 0 ((blank c).rstCnt 0 + 1) } := by
    have ready : 0 < c.nTagTransactors ∧ ((blank c).tag 0).state = .idle := ⟨banks, rfl⟩
    rw [State.step, stepAccept, if_pos ready, if_pos busy]
  have copies := always _ ⟨blank c, blank_onReset c, .next (.refl _) trivial fired⟩
  have bank := copies.routed 0 banks (by simp [setTag, TagXactTracker.accept])
  have block : Config.blockOf (c.initAddr 0 0) = Config.blockOf c.topMapBase := by
    rw [Config.blockOf_initAddr, Nat.zero_mul]
    rfl
  simp only [setTag, upd_same, TagXactTracker.block, TagXactTracker.accept, initReq] at bank
  rw [show (blank c).rstCnt 0 = 0 by rfl, block] at bank
  exact Nat.dvd_of_mod_eq_zero bank

/-- Demultiplexers and initiators agree exactly on top maps that start in bank 0. -/
theorem one_copy_iff_aligned (admissible : c.Admissible) :
    (∀ s, Reaches c anyEvent s → OneCopy s) ↔ c.nTagTransactors ∣ Config.blockOf c.topMapBase := by
  constructor
  · exact aligned_of_oneCopy admissible
  · rintro aligned s ⟨start, reset, run⟩
    have banked : Banked s := run.invariant reset.banked fun banked _ fired => banked.step admissible aligned fired
    exact banked.oneCopy admissible

/-- One gigabyte with two banks: the top map has two blocks and starts in bank 0. -/
def evenConfig : Config := ⟨⟨2, 512, 2 ^ 30, 2 ^ 30, 64⟩, 4, 2, 64, 8⟩

theorem evenConfig_admissible : evenConfig.Admissible where
  required := ⟨⟨30, rfl⟩, ⟨9, rfl⟩, by decide⟩
  tagBits_ge := by decide
  tagBits_le := by decide
  block := rfl
  mapRatio := rfl
  memSize := by decide
  memBase := by decide
  memTransactors := by decide
  tagTransactors := ⟨1, rfl⟩
  sets := ⟨6, rfl⟩
  sets_ge := by decide
  ways := by decide

theorem one_copy_two_banks : evenConfig.Admissible ∧ ∀ s, Reaches evenConfig anyEvent s → OneCopy s :=
  ⟨evenConfig_admissible, (one_copy_iff_aligned evenConfig_admissible).mpr (by decide)⟩

/-- The smallest memory with four banks: the only block of the top map is the last of the memory,
which belongs to bank 3 and is created by bank 0. -/
theorem not_one_copy_smallest : ¬ ∀ c : Config, c.Admissible → ∀ s : State c, Reaches c anyEvent s → OneCopy s := by
  intro always
  have aligned := aligned_of_oneCopy smallConfig_admissible (always smallConfig smallConfig_admissible)
  exact absurd aligned (by decide)

end State

end LowRisc.TagCache
