import LowRisc.TagCache.Requests

/-! The lines as a bank will leave them.

A request has its effect when its metadata are read. From then on the rest of it can be foreseen,
whatever happens to the sets of the other banks.
-/

set_option autoImplicit false

namespace LowRisc.TagCache

open LowRisc.Chisel LowRisc.Lib

variable {c : Config}

theorem Config.Admissible.setOf_mod (admissible : c.Admissible) (b : Nat) :
    c.setOf b % c.nTagTransactors = c.bankOf b := by
  have bank := admissible.idxOf_mod (b * Config.blockBytes)
  simpa [Config.idxOf, Config.blockOf, Config.blockBytes, Config.setOf] using bank

theorem Counted.mono {rows tcnt : Nat} {blank blank' : Bool} (counted : Counted rows tcnt blank)
    (grown : blank = true → blank' = true) : Counted rows tcnt blank' := by
  refine ⟨counted.least, counted.most, fun full => counted.exact ?_⟩
  cases blank with
  | false => rfl
  | true => rw [grown rfl] at full; cases full

theorem Arrays.Intact.mono {a : Arrays} {blank blank' : Nat → Bool} {idx : Nat} (intact : a.Intact c blank idx)
    (grown : ∀ b, blank b = true → blank' b = true) : a.Intact c blank' idx :=
  ⟨intact.unique, intact.clean, fun b here w found => (intact.counted b here w found).mono (grown b)⟩

theorem Arrays.Intact.recount {a : Arrays} {blank blank' : Nat → Bool} {idx : Nat} (intact : a.Intact c blank idx)
    (same : ∀ b, c.setOf b = idx → blank' b = blank b) : a.Intact c blank' idx :=
  ⟨intact.unique, intact.clean, fun b here w found => (same b here) ▸ intact.counted b here w found⟩

/-- The lines as the banks will leave them, the blocks that are in the cache, and those that were created blank. -/
structure View where
  content : Nat → Line
  copied : Nat → Prop
  blank : Nat → Bool

namespace View

variable (v : View) (req : TCTagRequest) (v' : View)

structure Agree (b : Nat) : Prop where
  content : v'.content b = v.content b
  copied : v'.copied b ↔ v.copied b
  blank : v'.blank b = v.blank b

theorem Agree.refl (v : View) (b : Nat) : v.Agree v b := ⟨rfl, .rfl, rfl⟩

structure Takes : Prop where
  others : ∀ b, b ≠ req.block → v'.content b = v.content b
  copies : ∀ b, b ≠ req.block → v'.copied b → v.copied b
  effect : req.Effect (v.content req.block) (v'.content req.block)
  stays : req.op = .r ∨ req.op = .l ∨ req.op = .u → v'.copied req.block → v.copied req.block
  drops : req.op = .i → ¬v'.copied req.block
  fresh : req.op = .c → ¬v.copied req.block → v'.content req.block = upd (fun _ => 0) req.row (req.data &&& req.mask)
  blank : v'.blank = upd v.blank req.block (v.blank req.block || req.blank)

structure Answer (resp : TCTagResp) : Prop where
  right : req.Answer (v.content req.block) (v.blank req.block) resp
  found : req.op = .r → resp.hit = true → v.copied req.block

end View

theorem TCTagRequest.Effect.same {req : TCTagRequest} {line line' : Line} (effect : req.Effect line line')
    (read : req.op.isWrite = false) : line' = line := by
  cases effect with
  | read => rfl
  | create op | fill op | drop _ op =>
    rw [op] at read
    cases read
  | merge op =>
    rcases op with op | op
    all_goals
      rw [op] at read
      cases read

theorem or_masked {old data mask : Row} (there : old &&& (data &&& ~~~mask) = data &&& ~~~mask) :
    (old &&& ~~~mask) ||| data = masked old data mask := by
  apply BitVec.eq_of_getLsbD_eq
  intro j inside
  have bit := congrArg (fun x => x.getLsbD j) there
  simp only [masked, BitVec.getLsbD_or, BitVec.getLsbD_and, BitVec.getLsbD_not, inside, decide_true, Bool.true_and] at bit ⊢
  revert bit
  cases old.getLsbD j <;> cases data.getLsbD j <;> cases mask.getLsbD j <;> simp

theorem TCTagRequest.Effect.write {req : TCTagRequest} {line line' : Line} (effect : req.Effect line line')
    (op : req.op = .w)
    (there : line req.row &&& (req.data &&& ~~~req.mask) = req.data &&& ~~~req.mask) :
    line' = upd line req.row (masked (line req.row) req.data req.mask) := by
  cases effect with
  | read quiet =>
    rw [op] at quiet
    cases quiet
  | create other | drop _ other =>
    rw [op] at other
    cases other
  | fill => rw [or_masked there]
  | merge => rfl

theorem View.Takes.same {v v' : View} {req : TCTagRequest} (takes : v.Takes req v') (read : req.op.isWrite = false) :
    v'.content req.block = v.content req.block := takes.effect.same read

namespace TagXactTracker

variable {t t' : TagXactTracker} {a a' : Arrays} {v : View} {i victim : Nat}

def Serving (t : TagXactTracker) : Prop := t.state ≠ .idle ∧ t.state ≠ .mr

instance (t : TagXactTracker) : Decidable t.Serving := inferInstanceAs (Decidable (_ ∧ _))

def stage (t : TagXactTracker) : Option (TCTagRequest × Bool) :=
  if t.state = .idle then none else some (t.xact, decide (t.state ≠ .mr))

theorem stage_eq_some_iff {req : TCTagRequest} {loaded : Bool} : t.stage = some (req, loaded) ↔
    t.state ≠ .idle ∧ t.xact = req ∧ decide (t.state ≠ .mr) = loaded := by
  unfold stage
  split <;> simp [*]

theorem complete_of_waiting (waiting : ¬t.Serving) : t.complete c a = (t, a) := by
  refine complete_of_rest ?_
  by_cases idle : t.state = .idle
  · exact .inl idle
  · by_cases mr : t.state = .mr
    · exact .inr (.inl mr)
    · exact absurd ⟨idle, mr⟩ waiting

theorem mrNext_cases (t : TagXactTracker) (hit : Bool) (md : TCMetadata) :
    t.mrNext hit md = .l ∨ t.mrNext hit md = .mw ∨ t.mrNext hit md = .dr ∨ t.mrNext hit md = .wb ∨
      t.mrNext hit md = .f := by
  cases hit with
  | true => rcases t.mrNext_of_hit md with next | next | next <;> simp [next]
  | false => rcases t.mrNext_of_miss md with next | next | next <;> simp [next]

theorem serving_metaResp (t : TagXactTracker) (a : Arrays) (victim : Nat) :
    (t.metaResp c a victim).xact = t.xact ∧ (t.metaResp c a victim).Serving := by
  simp only [metaResp]
  rcases t.mrNext_cases (!(a.hitWays c (t.idx c) (t.addrTag c)).isEmpty) (a.metas (t.idx c)
    (ohToUInt (if (!(a.hitWays c (t.idx c) (t.addrTag c)).isEmpty) = true then a.hitWays c (t.idx c) (t.addrTag c)
      else [victim]))) with next | next | next | next | next
  all_goals
    rw [next]
    simp [Serving]

theorem serving_visit (visited : t.visit c a victim = some (t', a')) : t'.xact = t.xact ∧ t'.Serving := by
  cases state : t.state with
  | idle | wb | l => simp [visit, state] at visited
  | mr =>
    simp only [visit, state] at visited
    split at visited
    · cases visited
      exact serving_metaResp t a victim
    · cases visited
  | dr =>
    simp only [visit, state, Option.some.injEq, Prod.mk.injEq] at visited
    rw [← visited.1]
    refine ⟨rfl, ?_⟩
    simp only [Serving, dataResp]
    split <;> simp
  | dwr | mw | dwb =>
    simp only [visit, state, Option.some.injEq, Prod.mk.injEq] at visited
    rw [← visited.1]
    exact ⟨rfl, by simp [Serving]⟩
  | f =>
    simp only [visit, state] at visited
    split at visited
    · cases visited
      exact ⟨rfl, by simp [Serving]⟩
    · split at visited
      · cases visited
        exact ⟨rfl, by simp [Serving, fetched]⟩
      · cases visited
        exact ⟨rfl, by simp [Serving]⟩

/-- What the tracker of bank `i` will leave is in view, and its response to a read is right. -/
structure Bank (c : Config) (v : View) (i : Nat) (t : TagXactTracker) (a : Arrays) : Prop where
  intact : ∀ idx, idx % c.nTagTransactors = i → (t.complete c a).2.Intact c v.blank idx
  content : ∀ b, c.bankOf b = i → (t.complete c a).2.content c b = v.content b
  copied : ∀ b, c.bankOf b = i → ((t.complete c a).2.Copied c b ↔ v.copied b)
  answer : t.Serving → t.xact.op.isWrite = false → v.Answer t.xact (t.complete c a).1.resp

theorem Bank.move (bank : Bank c v i t a) (same : (t'.complete c a').2 = (t.complete c a).2)
    (resp : (t'.complete c a').1.resp = (t.complete c a).1.resp) (xact : t'.xact = t.xact) (serving : t.Serving) :
    Bank c v i t' a' := by
  refine ⟨?_, ?_, ?_, fun _ => ?_⟩
  · rw [same]
    exact bank.intact
  · rw [same]
    exact bank.content
  · rw [same]
    exact bank.copied
  · rw [resp, xact]
    exact bank.answer serving

theorem Bank.visit (bank : Bank c v i t a) (visited : t.visit c a victim = some (t', a')) (serving : t.Serving) :
    Bank c v i t' a' := by
  have same := complete_visit visited serving.2
  exact bank.move (by rw [same]) (by rw [same]) (serving_visit visited).1 serving

theorem Bank.wbReq (bank : Bank c v i t a) (state : t.state = .wb) : Bank c v i { t with wbSent := true } a := by
  have enter : enterF { t with wbSent := true } = { t.enterF with wbSent := true } := by
    unfold enterF
    split <;> rfl
  have same : (complete c { t with wbSent := true } a).2 = (t.complete c a).2 ∧
      (complete c { t with wbSent := true } a).1.resp = (t.complete c a).1.resp := by
    rw [complete_of_wb (by exact state), complete_of_wb state, enter]
    simp only [complete, enterF_state, fromF]
    split <;> exact ⟨rfl, rfl⟩
  exact bank.move same.1 same.2 rfl (by simp [Serving, state])

theorem Bank.writeBack (bank : Bank c v i t a) (state : t.state = .wb) :
    Bank c v i t.enterF (a.writeMemory (t.wbBlock c) (a.datas (t.idx c) t.way)) := by
  have same := complete_of_wb (c := c) (a := a) state
  exact bank.move (by rw [same]) (by rw [same]) (enterF_xact t) (by simp [Serving, state])

theorem Bank.rest (bank : Bank c v i t a) (rest : t.state = .idle ∨ t.state = .mr ∨ t.state = .l)
    (waiting : ¬t'.Serving) :
    Bank c v i t' a := by
  obtain ⟨intact, content, copied, -⟩ := bank
  rw [complete_of_rest rest] at intact content copied
  refine ⟨?_, ?_, ?_, fun serving => absurd serving waiting⟩
  · rw [complete_of_waiting waiting]
    exact intact
  · rw [complete_of_waiting waiting]
    exact content
  · rw [complete_of_waiting waiting]
    exact copied

theorem bank_iff (rest : t.state = .idle ∨ t.state = .mr) : Bank c v i t a ↔
    (∀ idx, idx % c.nTagTransactors = i → a.Intact c v.blank idx) ∧ (∀ b, c.bankOf b = i → a.content c b = v.content b) ∧
      ∀ b, c.bankOf b = i → (a.Copied c b ↔ v.copied b) := by
  have waiting : ¬t.Serving := fun serving => rest.elim serving.1 serving.2
  have none' := complete_of_waiting (c := c) (a := a) waiting
  constructor
  · rintro ⟨intact, content, copied, -⟩
    rw [none'] at intact content copied
    exact ⟨intact, content, copied⟩
  · rintro ⟨intact, content, copied⟩
    refine ⟨?_, ?_, ?_, fun serving => absurd serving waiting⟩
    · rwa [none']
    · rwa [none']
    · rwa [none']

/-- The metadata are read: the request has its effect. -/
theorem Bank.load (bank : Bank c v i t a) (admissible : c.Admissible) (state : t.state = .mr) (own : c.bankOf t.block = i)
    (bound : victim < c.nWays) (quiet : t.xact.Quiet) :
    ∃ v' : View, v.Takes t.xact v' ∧ (∀ b, c.bankOf b ≠ i → v.Agree v' b) ∧ Bank c v' i (t.metaResp c a victim) a := by
  have rest := complete_of_rest (c := c) (a := a) (.inr (.inl state))
  obtain ⟨xact, -⟩ := serving_metaResp (c := c) t a victim
  obtain ⟨intact, content, copied, -⟩ := bank
  rw [rest] at intact content copied
  generalize now : t.metaResp c a victim = u at xact
  have set : u.idx c = t.idx c := by rw [TagXactTracker.idx, xact, TagXactTracker.idx]
  have here : t.idx c % c.nTagTransactors = i := (admissible.idxOf_mod _).trans own
  -- The view is the content that the bank has once the request is drained.
  let v' : View := {
    content := fun b => if c.bankOf b = i then (u.complete c a).2.content c b else v.content b
    copied := fun b => if c.bankOf b = i then (u.complete c a).2.Copied c b else v.copied b
    blank := upd v.blank t.xact.block (v.blank t.xact.block || t.xact.blank) }
  have grown : ∀ b, v.blank b = true → v'.blank b = true := by
    intro b before
    by_cases same : b = t.xact.block
    · subst same
      simp only [v', upd_same, before, Bool.true_or]
    · simp only [v', upd_of_ne same, before]
  have served : Served c v'.blank t.xact a (u.complete c a).2 := by
    rw [← now]
    refine TagXactTracker.served ((intact _ here).mono grown) bound fun blank => ?_
    have marked : v'.blank t.xact.block = true := by simp only [v', upd_same, blank, Bool.or_true]
    exact marked
  have answered := TagXactTracker.answered (intact _ here) bound quiet
  rw [now] at answered
  have bank : c.bankOf t.xact.block = i := own
  have old := content _ bank
  have copy := copied _ bank
  have new : v'.content t.xact.block = (u.complete c a).2.content c t.xact.block := if_pos bank
  have copy' : v'.copied t.xact.block = (u.complete c a).2.Copied c t.xact.block := if_pos bank
  -- Other sets of the bank stay as they are.
  have apart : ∀ b, c.bankOf b = i → c.setOf b ≠ t.idx c → Arrays.AgreeOn c a (u.complete c a).2 (c.setOf b) :=
    fun b _ other => agree_complete (by rwa [set])
  have takes : v.Takes t.xact v' := by
    refine ⟨fun b other => ?_, fun b other => ?_, ?_, ?_, ?_, ?_, rfl⟩
    · by_cases there : c.bankOf b = i
      · simp only [v', there, if_true]
        rw [← content b there]
        by_cases same : c.setOf b = t.idx c
        · exact served.others b other same
        · exact Arrays.content_congr (apart b there same)
      · simp only [v', there, if_false]
    · by_cases there : c.bankOf b = i
      · simp only [v', there, if_true]
        rw [← copied b there]
        by_cases same : c.setOf b = t.idx c
        · exact served.copies b other same
        · exact (Arrays.copied_congr (apart b there same)).mp
      · simp only [v', there, if_false, imp_self]
    · rw [← old, new]
      exact served.effect
    · rw [copy', ← copy]
      exact served.stays
    · rw [copy']
      exact served.drops
    · rw [← copy, new]
      exact served.fresh
  refine ⟨v', takes, fun b other => ⟨if_neg other, ?_, ?_⟩, fun idx there => ?_, fun b there => ?_, fun b there => ?_, ?_⟩
  · simp only [v', other, if_false]
  · refine upd_of_ne ?_
    rintro rfl
    exact other bank
  · by_cases same : idx = t.idx c
    · rw [same]
      exact served.intact
    · exact ((intact idx there).mono grown).congr (agree_complete (by rwa [set]))
  · exact (if_pos there).symm
  · simp only [v', there, if_true]
  · intro _ read
    rw [xact] at read ⊢
    have line : v'.content t.xact.block = v.content t.xact.block := takes.same read
    have blank : v'.blank t.xact.block = v.blank t.xact.block := by
      have no : t.xact.blank = false := by
        cases op : t.xact.op <;> simp [op, TCTagOp.isWrite] at read <;> simp [TCTagRequest.blank, op, TCTagOp.isCreate]
      simp only [v', upd_same, no, Bool.or_false]
    refine ⟨?_, fun op hit => ?_⟩
    · rw [line, blank, ← old]
      exact answered.1
    · have before := answered.2 op hit
      rw [copy']
      have kept : (u.complete c a).2 = a := by
        rw [← now]
        exact complete_r (intact _ here) op
      rw [kept]
      exact before

def Owned (c : Config) (i : Nat) (t : TagXactTracker) : Prop := t.state = .idle ∨ c.bankOf t.block = i

theorem Bank.congr (bank : Bank c v i t a) (admissible : c.Admissible) (owned : t.Owned c i)
    (agree : ∀ idx, idx % c.nTagTransactors = i → Arrays.AgreeOn c a a' idx) : Bank c v i t a' := by
  have same : (t.complete c a').1 = (t.complete c a).1 ∧
      ∀ idx, idx % c.nTagTransactors = i → Arrays.AgreeOn c (t.complete c a).2 (t.complete c a').2 idx := by
    rcases owned with idle | own
    · rw [complete_of_rest (.inl idle), complete_of_rest (.inl idle)]
      exact ⟨rfl, agree⟩
    · have here : t.idx c % c.nTagTransactors = i := (admissible.idxOf_mod _).trans own
      obtain ⟨tracker, set⟩ := congr_complete (agree _ here)
      refine ⟨tracker, fun idx there => ?_⟩
      by_cases own : idx = t.idx c
      · rw [own]
        exact set
      · exact (agree_complete own).symm.trans ((agree idx there).trans (agree_complete own))
  obtain ⟨tracker, arrays⟩ := same
  have sets : ∀ b, c.bankOf b = i → Arrays.AgreeOn c (t.complete c a).2 (t.complete c a').2 (c.setOf b) :=
    fun b there => arrays _ ((admissible.setOf_mod b).trans there)
  refine ⟨fun idx there => (bank.intact idx there).congr (arrays idx there), fun b there => ?_, fun b there => ?_, ?_⟩
  · rw [Arrays.content_congr (sets b there)]
    exact bank.content b there
  · rw [Arrays.copied_congr (sets b there)]
    exact bank.copied b there
  · rw [tracker]
    exact bank.answer

/-- A request of another bank. -/
theorem Bank.other {v' : View} (bank : Bank c v i t a) (admissible : c.Admissible) (owned : t.Owned c i)
    (agree : ∀ b, c.bankOf b = i → v.Agree v' b) : Bank c v' i t a := by
  refine ⟨fun idx here => (bank.intact idx here).recount fun b there => ?_, fun b here => ?_, fun b here => ?_,
    fun serving read => ?_⟩
  · exact (agree b ((admissible.setOf_mod b).symm.trans (there ▸ here))).blank
  · exact (bank.content b here).trans (agree b here).content.symm
  · exact (bank.copied b here).trans (agree b here).copied.symm
  · have own : c.bankOf t.xact.block = i := owned.resolve_left serving.1
    obtain ⟨right, found⟩ := bank.answer serving read
    refine ⟨?_, fun op hit => (agree _ own).copied.mpr (found op hit)⟩
    rw [(agree _ own).content, (agree _ own).blank]
    exact right

end TagXactTracker

end LowRisc.TagCache
