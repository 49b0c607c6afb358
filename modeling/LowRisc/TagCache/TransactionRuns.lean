import LowRisc.TagCache.TopMapCreation

/-! Tags as a flat memory.

With the transactions one after the other, a transaction that reads gets the tags that were last
written, from the caches or from the memory, in any order of the search: the maps above the tag
table are always right about what they leave out.
-/

set_option autoImplicit false

namespace LowRisc.TagCache

open LowRisc.Chisel LowRisc.Lib

variable {c : Config}

def AcquireReq.update (req : AcquireReq c) (tags : Nat → BlockTags c) : Nat → BlockTags c :=
  if req.rw then upd tags req.addrBlock (masked (tags req.addrBlock) req.tag req.tmask) else tags

/-- The tags of all blocks behind the transactions of a history, each with the tags that it ends with. -/
inductive FlatServes : List (AcquireReq c × BlockTags c) → (Nat → BlockTags c) → Prop where
  | start : FlatServes [] fun _ => 0
  | next {history : List (AcquireReq c × BlockTags c)} {tags : Nat → BlockTags c} {req : AcquireReq c}
      {result : BlockTags c} :
      FlatServes history tags → (req.rw = false → result = tags req.addrBlock) →
        FlatServes (history ++ [(req, result)]) (req.update tags)

structure TagLog (c : Config) where
  state : State c
  current : Option (Nat × AcquireReq c)
  history : List (AcquireReq c × BlockTags c)

namespace TagLog

def start (s : State c) : TagLog c := ⟨s, none, []⟩

/-- A transaction is over when the tag state of its tracker is idle again. -/
def follow (l : TagLog c) (s : State c) : Event c → TagLog c
  | .acquire m req _ => ⟨s, some (m, req), l.history⟩
  | _ =>
    match l.current with
    | none => { l with state := s }
    | some (m, req) =>
      if (s.mem m).tcState = .idle then ⟨s, none, l.history ++ [(req, (s.mem m).memData)]⟩ else { l with state := s }

def step (l : TagLog c) (e : Event c) : Option (TagLog c) := (l.state.step e).map fun s => l.follow s e

/-- A transaction waits for the one before it, and for the initiators and the banks. -/
def Alone (l : TagLog c) : Event c → Prop
  | .acquire .. => l.current = none ∧
    ∀ i < c.nTagTransactors, l.state.initialising i = false ∧ (l.state.tag i).state = .idle
  | _ => True

instance (l : TagLog c) (e : Event c) : Decidable (l.Alone e) := by
  cases e <;> unfold Alone <;> infer_instance

end TagLog

theorem MemXactTracker.goal_acquire {m : MemXactTracker c} {d : DataBlock c} (req : AcquireReq c)
    (order : SearchOrder) (tags : Nat → BlockTags c) (own : d.val = req.addrBlock) :
    (m.acquire req order).goal (fun e => tags e.val) d = fun e => req.update tags e.val := by
  have bits : req.tag &&& req.tmask &&& req.tmask = req.tag &&& req.tmask := by
    rw [BitVec.and_assoc, BitVec.and_self]
  funext e
  cases write : req.rw with
  | false =>
    simp only [goal, want, acquire, AcquireReq.update, write, Bool.false_eq_true, if_false]
    split
    · rename_i same
      rw [same]
    · rfl
  | true =>
    simp only [goal, want, acquire, AcquireReq.update, write, if_true]
    split
    · rename_i same
      rw [same, own, upd_same]
      simp only [masked, bits]
    · rename_i other
      rw [upd_of_ne]
      rw [← own]
      exact fun same => other (Subtype.ext same)

namespace TagLog

open State

variable {l l' : TagLog c}

/-- In front of the first transaction, between two of them, or in the middle of one. -/
inductive Inv (l : TagLog c) : Prop where
  | fresh {v : View} (current : l.current = none) (history : l.history = []) (tracks : l.state.Tracks v)
      (fresh : l.state.Fresh v)
  | rest {v : View} {tags : Nat → BlockTags c} (current : l.current = none) (tracks : l.state.Tracks v) (plain : Plain c v)
      (ready : l.state.Ready) (rest : l.state.AtRest v fun e => tags e.val) (serves : FlatServes l.history tags)
  | active {v : View} {tags : Nat → BlockTags c} {m : Nat} {req : AcquireReq c} {d : DataBlock c}
      (current : l.current = some (m, req)) (tracks : l.state.Tracks v) (plain : Plain c v) (ready : l.state.Ready)
      (working : l.state.Working v (fun e => tags e.val) m d) (own : d.val = req.addrBlock)
      (goal : (l.state.mem m).goal (fun e => tags e.val) d = fun e => req.update tags e.val)
      (rw : (l.state.mem m).rw = req.rw) (serves : FlatServes l.history tags)

theorem follow_of_none {e : Event c} {s : State c} (current : l.current = none)
    (other : ∀ m req order, e ≠ .acquire m req order) :
    l.follow s e = ⟨s, none, l.history⟩ := by
  cases e with
  | acquire m req order => exact absurd rfl (other m req order)
  | _ => simp only [follow, current]

theorem follow_of_some {e : Event c} {s : State c} {m : Nat} {req : AcquireReq c} (current : l.current = some (m, req))
    (other : ∀ m req order, e ≠ .acquire m req order) : l.follow s e =
      if (s.mem m).tcState = .idle then ⟨s, none, l.history ++ [(req, (s.mem m).memData)]⟩
      else ⟨s, some (m, req), l.history⟩ := by
  cases e with
  | acquire m req order => exact absurd rfl (other m req order)
  | _ => simp only [follow, current]

theorem inv_acquire {v : View} {tags : Nat → BlockTags c} {s s' : State c} {m : Nat} {req : AcquireReq c}
    {order : SearchOrder}
    {history : List (AcquireReq c × BlockTags c)} (tracks : s.Tracks v) (plain : Plain c v) (ready : s.Ready)
    (idle : ∀ i, (s.tag i).state = .idle) (rest : s.AtRest v fun e => tags e.val) (serves : FlatServes history tags)
    (fired : s.step (.acquire m req order) = some s') : Inv ⟨s', some (m, req), history⟩ := by
  obtain ⟨d, own, tag, arrays, wb, mem, working⟩ := rest.acquire idle fired
  refine .active rfl (tracks.frame tag arrays wb) plain (ready.step fired) working own ?_ ?_ serves
  · simp only [mem]
    exact MemXactTracker.goal_acquire req order tags own
  · simp only [mem]
    rfl

theorem Inv.step {e : Event c} (inv : l.Inv) (admissible : c.Admissible)
    (aligned : c.nTagTransactors ∣ Config.blockOf c.topMapBase)
    (alone : l.Alone e) (fired : l.step e = some l') : l'.Inv := by
  obtain ⟨s', stepped, rfl⟩ := Option.map_eq_some_iff.mp fired
  by_cases first : ∃ m req order, e = .acquire m req order
  · obtain ⟨m, req, order, rfl⟩ := first
    obtain ⟨none', apart⟩ := alone
    have idle : ∀ {v : View}, l.state.Tracks v → ∀ i, (l.state.tag i).state = .idle := by
      intro v tracks i
      by_contra busy
      exact busy (apart i (tracks.banked.routed i busy).1).2
    have ready : l.state.Ready := fun i bound => (apart i bound).1
    cases inv with
    -- The first transaction finds no tags at all.
    | fresh current history tracks fresh =>
      have stored := fresh.stored admissible (idle tracks) ready
      have stale : ∀ i, l.state.Stale i := fun i req loaded here => by
        simp [TagXactTracker.stage, idle tracks i] at here
      have rest : l.state.AtRest _ fun _ => 0 := ⟨fresh.idle, stale, _, _, stored⟩
      rw [follow, history]
      refine inv_acquire tracks fresh.plain ready (idle tracks) ?_ .start stepped
      exact rest
    | rest current tracks plain ready rest serves => exact inv_acquire tracks plain ready (idle tracks) rest serves stepped
    | active current =>
      rw [current] at none'
      cases none'
  · have other : ∀ m req order, e ≠ .acquire m req order := fun m req order same => first ⟨m, req, order, same⟩
    cases inv with
    | fresh current history tracks fresh =>
      obtain ⟨v', tracks', fresh'⟩ := fresh.step tracks admissible aligned stepped other
      rw [follow_of_none current other]
      exact .fresh rfl history tracks' fresh'
    | rest current tracks plain ready rest serves =>
      obtain ⟨tracks', rest'⟩ := rest.step tracks ready admissible aligned stepped other
      rw [follow_of_none current other]
      exact .rest rfl tracks' plain (ready.step stepped) rest' serves
    | active current tracks plain ready working own goal rw' serves =>
      obtain ⟨v', tracks', plain', goes⟩ := working.step tracks plain ready admissible aligned stepped other
      rw [follow_of_some current other]
      cases goes with
      | on working' goal' rw'' =>
        rw [if_neg working'.phase.busy]
        exact .active rfl tracks' plain' (ready.step stepped) working' own (goal'.trans goal) (rw''.trans rw') serves
      | ends idle rest data =>
        rw [if_pos idle]
        rw [goal] at rest
        refine .rest rfl tracks' plain' (ready.step stepped) rest (serves.next fun read => ?_)
        rw [data (rw'.trans read), own]

/-- In every run whose transactions wait for one another, each of them gets or leaves the tags that its
request says, whatever the order of its search and wherever the tags are. -/
theorem transactions_keep_tags (admissible : c.Admissible) (aligned : c.nTagTransactors ∣ Config.blockOf c.topMapBase)
    {s : State c} (reset : s.OnReset) (run : Steps step Alone (start s) l) :
    ∃ tags, FlatServes l.history tags := by
  have first : (start s).Inv := .fresh rfl rfl reset.tracks reset.fresh
  have inv : l.Inv := run.invariant first fun inv alone fired => inv.step admissible aligned alone fired
  cases inv with
  | fresh current history =>
    refine ⟨fun _ => 0, ?_⟩
    rw [history]
    exact .start
  | rest current tracks plain ready rest serves => exact ⟨_, serves⟩
  | active current tracks plain ready working own goal rw' serves => exact ⟨_, serves⟩

/-- A request that bank 0 serves in some visits, and one that writes a line back first. -/
def served (visits : Nat) : List (Event evenConfig) := .accept 0 :: List.replicate visits (.tag 0 0)
def evicting (visits : Nat) : List (Event evenConfig) :=
  [.accept 0, .tag 0 0, .wbReq 0, .wb, .wb, .wb] ++ List.replicate visits (.tag 0 0)

/-- Behind the initiators, a write creates a block of the tag table and one of tag map 0 that drives it
out; the read that follows fetches it again. -/
def readBehindWrite : List (Event evenConfig) :=
  served 5 ++ .accept 1 :: List.replicate 5 (.tag 1 0) ++
    .acquire 0 ⟨true, 2 ^ 30 / 64, BitVec.allOnes _, BitVec.allOnes _⟩ .topDown ::
    served 3 ++ served 3 ++ served 2 ++ served 2 ++ served 5 ++ evicting 4 ++ served 5 ++
    [.wb, .outerAcquire 0, .outerGrant 0, .innerGrant 0, .acquire 0 ⟨false, 2 ^ 30 / 64, 0, 0⟩ .bottomUp] ++
    served 2 ++ served 3 ++ evicting 5

theorem transactions_keep_tags_of_read : ∃ l : TagLog evenConfig,
    l.history.map (fun ended => (ended.1.rw, ended.2)) = [(true, BitVec.allOnes _), (false, BitVec.allOnes _)] ∧
      ∃ tags, FlatServes l.history tags := by
  have ran : (execGuarded step (fun l e => decide (l.Alone e)) (start (blank evenConfig)) readBehindWrite).map (fun l =>
      l.history.map fun ended => (ended.1.rw, ended.2)) = some [(true, BitVec.allOnes _), (false, BitVec.allOnes _)] := by
    decide +kernel
  obtain ⟨l, ran, tags⟩ := Option.map_eq_some_iff.mp ran
  have run : Steps step Alone (start (blank evenConfig)) l :=
    (steps_of_execGuarded ran).mono fun _ _ admitted => of_decide_eq_true admitted
  exact ⟨l, tags, transactions_keep_tags evenConfig_admissible (by decide) (blank_onReset evenConfig) run⟩

end TagLog

end LowRisc.TagCache
