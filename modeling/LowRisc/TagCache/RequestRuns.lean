import LowRisc.TagCache.Views

/-! Tag requests are atomic.

However the trackers of the banks, the write-back unit and the memory trackers take turns, the tag
requests of a run are answered as by a store that serves them one after the other.
-/

set_option autoImplicit false

namespace LowRisc.TagCache

open LowRisc.Chisel LowRisc.Lib

variable {c : Config}

/-- A run with the requests that are over, and what their trackers drive as response at the end. -/
structure RequestLog (c : Config) where
  state : State c
  history : List (TCTagRequest × TCTagResp)

namespace RequestLog

def finished (s : State c) : Event c → List (TCTagRequest × TCTagResp)
  | .tag i _ => if (s.tag i).state = .l then [((s.tag i).xact, (s.tag i).resp)] else []
  | _ => []

def step (r : RequestLog c) (e : Event c) : Option (RequestLog c) :=
  (r.state.step e).map fun s => ⟨s, r.history ++ finished r.state e⟩

end RequestLog

namespace State

variable {s s' : State c} {v v' : View} {store : RowStore} {i : Nat} {req : TCTagRequest}

/-- The store of the requests that are over, and the view with the effects of those that are served. -/
structure Link (s : State c) (v : View) (store : RowStore) : Prop where
  rest : ∀ b, (∀ i req, (s.tag i).stage = some (req, true) → req.block ≠ b) →
    v.content b = store.line b ∧ v.blank b = store.blank b
  served : ∀ i req, (s.tag i).stage = some (req, true) → req.Effect (store.line req.block) (v.content req.block) ∧
    v.blank req.block = (store.blank req.block || req.blank)

/-- A block is served by its own bank only. -/
theorem Banked.of_stage (banked : Banked s) {loaded : Bool} (stage : (s.tag i).stage = some (req, loaded)) :
    c.bankOf req.block = i := by
  obtain ⟨busy, rfl, -⟩ := TagXactTracker.stage_eq_some_iff.mp stage
  exact (banked.routed i busy).2

theorem Link.keep (link : s.Link v store)
    (same : ∀ i req, (s'.tag i).stage = some (req, true) → (s.tag i).stage = some (req, true))
    (back : ∀ i req, (s.tag i).stage = some (req, true) → (s'.tag i).stage = some (req, true)) : s'.Link v store :=
  ⟨fun b apart => link.rest b fun i req stage => apart i req (back i req stage),
    fun i req stage => link.served i req (same i req stage)⟩

theorem Link.load (link : s.Link v store) (banked : Banked s) (stage : (s.tag i).stage = some (req, false))
    (after : ∀ j, (s'.tag j).stage = if j = i then some (req, true) else (s.tag j).stage) (takes : v.Takes req v') :
    s'.Link v' store := by
  have alone : ∀ j req', (s.tag j).stage = some (req', true) → req'.block ≠ req.block := by
    intro j req' other same
    obtain rfl : j = i := by rw [← banked.of_stage other, same, banked.of_stage stage]
    rw [stage] at other
    cases other
  obtain ⟨line, blank⟩ := link.rest req.block alone
  refine ⟨fun b apart => ?_, fun j req' served => ?_⟩
  · have other : b ≠ req.block := fun same => apart i req (by rw [after, if_pos rfl]) same.symm
    have before := link.rest b fun j req' stage' => apart j req' ?_
    · rw [takes.others b other, takes.blank, upd_of_ne other]
      exact before
    · rw [after, if_neg, stage']
      rintro rfl
      rw [stage] at stage'
      cases stage'
  · rw [after] at served
    split at served
    · cases served
      rw [← line, ← blank, takes.blank, upd_same]
      exact ⟨takes.effect, rfl⟩
    · have other := alone j req' served
      rw [takes.others _ other, takes.blank, upd_of_ne other]
      exact link.served j req' served

theorem Link.finish (link : s.Link v store) (banked : Banked s) (stage : (s.tag i).stage = some (req, true))
    (after : ∀ j, (s'.tag j).stage = if j = i then none else (s.tag j).stage) :
    s'.Link v (store.after req (v.content req.block)) := by
  have blank := (link.served i req stage).2
  refine ⟨fun b apart => ?_, fun j req' served => ?_⟩
  · by_cases same : b = req.block
    · subst same
      simp only [RowStore.after, upd_same, true_and]
      exact blank
    · simp only [RowStore.after, upd_of_ne same]
      refine link.rest b fun j req' stage' => ?_
      by_cases own : j = i
      · subst own
        rw [stage] at stage'
        cases stage'
        exact fun eq => same eq.symm
      · exact apart j req' (by rw [after, if_neg own, stage'])
  · rw [after] at served
    split at served
    · cases served
    · rename_i other
      have apart : req'.block ≠ req.block := fun same => other (by rw [← banked.of_stage served, same, banked.of_stage stage])
      simp only [RowStore.after, upd_of_ne apart]
      exact link.served j req' served

end State

namespace RequestLog

open State

variable {r r' : RequestLog c}

/-- A store that has served the history, and the view that follows from it. -/
def Explained (memory : Nat → Line) (r : RequestLog c) : Prop :=
  ∃ store v, RowStore.Serves memory r.history store ∧ r.state.Tracks v ∧ r.state.Link v store

theorem answer_of_last {s : State c} {v : View} {store : RowStore} {i : Nat} (tracks : s.Tracks v) (link : s.Link v store)
    (bound : i < c.nTagTransactors) (state : (s.tag i).state = .l) :
    (s.tag i).xact.Answer (store.line (s.tag i).xact.block) (store.blank (s.tag i).xact.block) (s.tag i).resp := by
  have stage : (s.tag i).stage = some ((s.tag i).xact, true) := by simp [TagXactTracker.stage, state]
  obtain ⟨effect, blank⟩ := link.served i _ stage
  cases write : (s.tag i).xact.op.isWrite with
  | true =>
    constructor
    · intro op
      rw [op] at write
      cases write
    · rintro (op | op)
      all_goals
        rw [op] at write
        cases write
  | false =>
    have answer := (tracks.banks i bound).answer (by simp [TagXactTracker.Serving, state]) write
    rw [TagXactTracker.complete_of_rest (.inr (.inr state))] at answer
    have none' : (s.tag i).xact.blank = false := by
      cases op : (s.tag i).xact.op <;> simp [op, TCTagOp.isWrite] at write <;> simp [TCTagRequest.blank, op, TCTagOp.isCreate]
    have right := answer.right
    rwa [effect.same write, blank, none', Bool.or_false] at right

theorem Explained.step {memory : Nat → Line} (explained : r.Explained memory) (admissible : c.Admissible)
    (aligned : c.nTagTransactors ∣ Config.blockOf c.topMapBase) {e : Event c} (fired : r.step e = some r') :
    r'.Explained memory := by
  obtain ⟨store, v, serves, tracks, link⟩ := explained
  obtain ⟨s', stepped, rfl⟩ := Option.map_eq_some_iff.mp fired
  have stages := stage_step stepped
  -- Most events neither read metadata nor end a request.
  have kept : (∀ i way, e = .tag i way → (r.state.tag i).state ≠ .mr ∧ (r.state.tag i).state ≠ .l) →
      s'.Link v store := by
    intro other
    refine link.keep (fun i req stage => ?_) fun i req stage => ?_
    · rw [stages] at stage
      cases e with
      | accept j =>
        simp only [nextStage] at stage
        split at stage
        · cases stage
        · exact stage
      | tag j way =>
        obtain ⟨mr, l⟩ := other j way rfl
        simp only [nextStage, mr, l, if_false] at stage
        split at stage
        · rename_i same
          rwa [same]
        · exact stage
      | _ => exact stage
    · rw [stages]
      cases e with
      | accept j =>
        simp only [nextStage]
        split
        · rename_i same
          have idle : (r.state.tag j).state = .idle := (stage_accept stepped).2
          subst same
          simp [TagXactTracker.stage, idle] at stage
        · exact stage
      | tag j way =>
        obtain ⟨mr, l⟩ := other j way rfl
        simp only [nextStage, mr, l, if_false]
        split
        · rename_i same
          rwa [← same]
        · exact stage
      | _ => exact stage
  have quiet : finished r.state e = [] → s'.Link v store → s'.Tracks v →
      Explained memory ⟨s', r.history ++ finished r.state e⟩ := by
    intro none' link' tracks'
    refine ⟨store, v, ?_, tracks', link'⟩
    rw [none', List.append_nil]
    exact serves
  rcases tracks.step admissible aligned stepped with ⟨none', tracks'⟩ | ⟨req, v', load, takes, tracks'⟩
  · cases e with
    | tag i way =>
      have unread : (r.state.tag i).state ≠ .mr := by
        intro state
        simp [loads, state] at none'
      by_cases state : (r.state.tag i).state = .l
      · have bound : i < c.nTagTransactors := by
          by_contra outside
          simp [State.step, stepTag, outside] at stepped
        have stage : (r.state.tag i).stage = some ((r.state.tag i).xact, true) := by simp [TagXactTracker.stage, state]
        have after : s'.Link v _ := link.finish tracks.banked stage fun j => by
          rw [stages]
          simp [nextStage, state]
        refine ⟨_, v, ?_, tracks', after⟩
        simp only [finished, state, if_true]
        exact .next serves (link.served i _ stage).1 (answer_of_last tracks link bound state)
      · refine quiet (by simp [finished, state]) (kept ?_) tracks'
        rintro j _ ⟨⟩
        exact ⟨unread, state⟩
    | _ => exact quiet rfl (kept fun _ _ other => by cases other) tracks'
  · cases e with
    | tag i way =>
      simp only [loads] at load
      split at load
      · rename_i state
        cases load
        have stage : (r.state.tag i).stage = some ((r.state.tag i).xact, false) := by simp [TagXactTracker.stage, state]
        have after : s'.Link v' store := link.load tracks.banked stage (fun j => by rw [stages]; simp [nextStage, state]) takes
        refine ⟨store, v', ?_, tracks', after⟩
        simpa [finished, state] using serves
      · cases load
    | _ => cases load

/-- The tag requests of a run are served as one after the other, and a bank at rest holds what they
have left. -/
theorem requests_are_atomic (admissible : c.Admissible) (aligned : c.nTagTransactors ∣ Config.blockOf c.topMapBase)
    {start : State c} (reset : start.OnReset) (run : Steps step anyEvent ⟨start, []⟩ r) :
    ∃ store, RowStore.Serves start.arrays.memory r.history store ∧
      ∀ b, (r.state.tag (c.bankOf b)).state = .idle → r.state.arrays.content c b = store.line b := by
  have unserved : ∀ i req, (start.tag i).stage ≠ some (req, true) := by
    intro i req stage
    simp [TagXactTracker.stage, reset.tag i] at stage
  have first : Explained start.arrays.memory ⟨start, []⟩ :=
    ⟨_, _, .start, reset.tracks, fun _ _ => ⟨rfl, rfl⟩, fun i req stage => absurd stage (unserved i req)⟩
  have explained : r.Explained start.arrays.memory :=
    run.invariant first fun explained _ fired => explained.step admissible aligned fired
  obtain ⟨store, v, serves, tracks, link⟩ := explained
  refine ⟨store, serves, fun b idle => ?_⟩
  have banks : 0 < c.nTagTransactors := by
    obtain ⟨k, banks⟩ := admissible.tagTransactors
    rw [banks]
    exact Nat.two_pow_pos k
  have content := ((TagXactTracker.bank_iff (.inl idle)).mp (tracks.banks _ (Nat.mod_lt b banks))).2.1 b rfl
  rw [content]
  refine (link.rest b fun i req stage same => ?_).1
  have own := tracks.banked.of_stage stage
  rw [same] at own
  subst own
  simp [TagXactTracker.stage, idle] at stage

/-- Both banks create their block of the top map, and a read looks up its bit there. -/
def readAfterCreates : List (Event evenConfig) :=
  [.accept 0, .accept 1] ++ (List.replicate 5 [.tag 0 0, .tag 1 0]).flatten ++
    [.acquire 0 ⟨false, 2 ^ 30 / 64, 0, 0⟩ .topDown, .accept 0] ++ List.replicate 3 (.tag 0 0)

theorem requests_are_atomic_of_read : ∃ r : RequestLog evenConfig,
    r.history.map (fun served => served.1.op) = [.c, .c, .fr] ∧ ∃ store, RowStore.Serves (fun _ _ => 0) r.history store ∧
      ∀ b, (r.state.tag (evenConfig.bankOf b)).state = .idle → r.state.arrays.content evenConfig b = store.line b := by
  have ran : (exec step ⟨blank evenConfig, []⟩ readAfterCreates).map (fun r => r.history.map fun served => served.1.op) =
      some [.c, .c, .fr] := by decide +kernel
  obtain ⟨r, ran, served⟩ := Option.map_eq_some_iff.mp ran
  exact ⟨r, served, requests_are_atomic evenConfig_admissible (by decide) (blank_onReset evenConfig) (steps_of_exec ran)⟩

end RequestLog

end LowRisc.TagCache
