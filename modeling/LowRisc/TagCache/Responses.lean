import LowRisc.TagCache.Banks

/-! Requests and responses between the memory trackers and the banks.

A response carries no more than the identifier of a tracker. Next to the hardware a log keeps, for
every bank, whose request it took last and how often this request has been answered. The requests
of an initiator are nobody's, but they bear the identifier on the output of the arbiter.
-/

set_option autoImplicit false

namespace LowRisc.TagCache

open LowRisc.Chisel LowRisc.Lib

variable {c : Config}

namespace TagXactTracker

/-- `io.xact.resp.valid` in the step that leaves the state: writes answer with their metadata, the
other requests at the end. -/
def responds (t : TagXactTracker) : Bool := decide (t.state = if t.xact.op.isWrite then .mr else .l)

def Awaits (t : TagXactTracker) : Prop := t.state ≠ .idle ∧ (t.xact.op.isWrite = true → t.state = .mr)

theorem awaits_of_responds {t : TagXactTracker} (responds : t.responds = true) : t.Awaits := by
  unfold TagXactTracker.responds at responds
  cases write : t.xact.op.isWrite with
  | true =>
    have state : t.state = .mr := by simpa [write] using responds
    exact ⟨by simp [state], fun _ => state⟩
  | false =>
    have state : t.state = .l := by simpa [write] using responds
    exact ⟨by simp [state], fun is => by simp [write] at is⟩

theorem mrNext_ne (t : TagXactTracker) (hit : Bool) (md : TCMetadata) : t.mrNext hit md ≠ .idle ∧ t.mrNext hit md ≠ .mr := by
  cases hit with
  | false => rcases t.mrNext_of_miss md with next | next | next <;> simp [next]
  | true => rcases t.mrNext_of_hit md with next | next | next <;> simp [next]

/-- A visit keeps the request, and leads neither out of it nor back to its metadata. -/
theorem visit_spec {t t' : TagXactTracker} {a a' : Arrays} {victim : Nat} (visited : t.visit c a victim = some (t', a')) :
    t'.xact = t.xact ∧ t'.state ≠ .idle ∧ t'.state ≠ .mr ∧ t.state ≠ .idle ∧ t.state ≠ .l := by
  cases state : t.state with
  -- these states do not visit the arrays
  | idle | wb | l => simp [visit, state] at visited
  | mr =>
    simp only [visit, state] at visited
    split at visited
    · simp only [Option.some.injEq, Prod.mk.injEq] at visited
      rw [← visited.1, metaResp]
      simp only
      split
      -- the tracker leaves `MR`, whatever the metadata are
      · simp
      · simp
      · rename_i next
        obtain ⟨busy, other⟩ := t.mrNext_ne (!(a.hitWays c (t.idx c) (t.addrTag c)).isEmpty) (a.metas (t.idx c)
          (ohToUInt (if !(a.hitWays c (t.idx c) (t.addrTag c)).isEmpty then a.hitWays c (t.idx c) (t.addrTag c) else [victim])))
        exact ⟨rfl, busy, other, by simp, by simp⟩
    · cases visited
  | dr =>
    simp only [visit, state, Option.some.injEq, Prod.mk.injEq] at visited
    rw [← visited.1]
    cases write : t.xact.op.isWrite <;> simp [dataResp, write]
  | dwr | mw | dwb =>
    simp only [visit, state, Option.some.injEq, Prod.mk.injEq] at visited
    rw [← visited.1]
    simp
  | f =>
    -- a victim that is written back or not, the request stays
    simp only [visit, state] at visited
    split at visited
    · simp only [Option.some.injEq, Prod.mk.injEq] at visited
      rw [← visited.1]
      simp
    · split at visited
      all_goals
        simp only [Option.some.injEq, Prod.mk.injEq] at visited
        rw [← visited.1]
        simp [fetched]

theorem awaits_visit {t t' : TagXactTracker} {a a' : Arrays} {victim : Nat} (visited : t.visit c a victim = some (t', a')) :
    t'.Awaits ↔ t.Awaits ∧ t.responds = false := by
  obtain ⟨xact, busy, other, busy', before⟩ := visit_spec visited
  unfold Awaits responds
  rw [xact]
  cases write : t.xact.op.isWrite with
  | true => simp [other]
  | false => simp [busy, busy', before]

end TagXactTracker

namespace MemXactTracker

@[simp] theorem tcReq_id (m : MemXactTracker c) (id : Nat) : (m.tcReq id).id = id := by
  cases state : m.tcState <;> simp [tcReq, state]

theorem tcReqSent_tcResp (m : MemXactTracker c) (resp : TCTagResp) :
    (m.tcResp resp).tcState = .idle ∨ (m.tcResp resp).tcReqSent = false := by
  unfold tcResp
  split
  · rename_i idle
    exact .inl idle
  · exact .inr rfl

theorem tcResp_of_idle {m : MemXactTracker c} (idle : m.tcState = .idle) (resp : TCTagResp) : m.tcResp resp = m := by
  simp [tcResp, idle]

end MemXactTracker

namespace State

variable (s : State c)

/-- A memory tracker waits for the response to the request that it has made. -/
def Sent (m : Nat) : Prop := (s.mem m).tcState ≠ .idle ∧ (s.mem m).tcReqSent = true

def delivers : Event c → Option Nat
  | .tag i _ => if (s.tag i).responds && !s.initialising i then some i else none
  | _ => none

end State

structure Log (c : Config) where
  state : State c
  origin : Nat → Option Nat
  answers : Nat → Nat

namespace Log

variable (l : Log c)

def taken (i : Nat) : Option Nat := if l.state.initialising i then none else some (l.state.chosen i)

def step (e : Event c) : Option (Log c) :=
  (l.state.step e).map fun s =>
    match e with
    | .accept i => ⟨s, upd l.origin i (l.taken i), upd l.answers i 0⟩
    | _ =>
      match l.state.delivers e with
      | some i => ⟨s, l.origin, upd l.answers i (l.answers i + 1)⟩
      | none => ⟨s, l.origin, l.answers⟩

/-- The tracker with the identifier of the request in a bank. -/
def target (i : Nat) : MemXactTracker c := l.state.mem (l.state.tag i).xact.id

/-- A bank works on a request of a tracker that it has not answered. -/
def Open (i m : Nat) : Prop := i < c.nTagTransactors ∧ (l.state.tag i).state ≠ .idle ∧ l.origin i = some m ∧ l.answers i = 0

/-- Every request that a tracker has made and that is not answered is in one bank. A bank answers a
request at most once, and is not done with it before. -/
structure OnceEach : Prop where
  outstanding : ∀ m, l.state.Sent m ↔ ∃ i, l.Open i m
  one : ∀ m i j, l.Open i m → l.Open j m → i = j
  most : ∀ i m, l.origin i = some m → l.answers i ≤ 1
  done : ∀ i m, l.origin i = some m → (l.state.tag i).state = .idle → l.answers i = 1

/-- The response of a step, where it reaches a tracker that has not finished its tag transaction,
answers the one request that this tracker has outstanding. -/
def Answers (e : Event c) : Prop :=
  ∀ i ∈ l.state.delivers e, (l.target i).tcState ≠ .idle →
    l.Open i (l.state.tag i).xact.id ∧ l.state.Sent (l.state.tag i).xact.id
      ∧ (l.state.tag i).xact = l.state.tcReq (l.state.tag i).xact.id

/-- The step answers the last create of an initiator to a tracker with a tag transaction. -/
def misleads (e : Event c) : Bool :=
  match l.state.delivers e with
  | some i => (l.origin i).isNone && decide ((l.target i).tcState ≠ .idle)
  | none => false

structure OnReset : Prop where
  state : l.state.OnReset
  origin : ∀ i, l.origin i = none

def Reaches (ok : Log c → Event c → Prop) (l : Log c) : Prop :=
  ∃ start : Log c, start.OnReset ∧ Steps Log.step ok start l

variable {l l' : Log c} {s' : State c}

structure Inv (l : Log c) : Prop where
  ready : ∀ i m, l.origin i = some m → l.state.initialising i = false
  bank : ∀ i m, l.origin i = some m → i < c.nTagTransactors
  counted : ∀ i m, l.origin i = some m →
    (l.state.tag i).Awaits ∧ l.answers i = 0 ∨ ¬(l.state.tag i).Awaits ∧ l.answers i = 1
  asked : ∀ i m, l.origin i = some m → (l.state.tag i).Awaits → l.state.Sent m ∧ (l.state.tag i).xact = l.state.tcReq m
  one : ∀ m i j, l.origin i = some m → (l.state.tag i).Awaits → l.origin j = some m → (l.state.tag j).Awaits → i = j
  held : ∀ m, l.state.Sent m → ∃ i, l.origin i = some m ∧ (l.state.tag i).Awaits

theorem OnReset.inv (reset : l.OnReset) : l.Inv := by
  have nobody : ∀ i m, l.origin i ≠ some m := by
    intro i m own
    rw [reset.origin i] at own
    cases own
  refine ⟨?_, ?_, ?_, ?_, ?_, ?_⟩
  · exact fun i m own => absurd own (nobody i m)
  · exact fun i m own => absurd own (nobody i m)
  · exact fun i m own => absurd own (nobody i m)
  · exact fun i m own => absurd own (nobody i m)
  · exact fun m i j own => absurd own (nobody i m)
  · exact fun m sent => absurd (reset.state.mem m).2.1 sent.1

theorem Inv.frame (inv : l.Inv) {answers : Nat → Nat} (ready : s'.rstCnt = l.state.rstCnt)
    (tag : ∀ i m, l.origin i = some m →
      ((s'.tag i).Awaits ↔ (l.state.tag i).Awaits) ∧ (s'.tag i).xact = (l.state.tag i).xact ∧ answers i = l.answers i)
    (sent : ∀ m, s'.Sent m ↔ l.state.Sent m) (req : ∀ m, l.state.Sent m → s'.tcReq m = l.state.tcReq m) :
    Inv ⟨s', l.origin, answers⟩ where
  ready i m own := by
    have before := inv.ready i m own
    unfold State.initialising at before ⊢
    rwa [ready]
  bank := inv.bank
  counted i m own := by
    obtain ⟨awaits, -, count⟩ := tag i m own
    show (s'.tag i).Awaits ∧ answers i = 0 ∨ ¬(s'.tag i).Awaits ∧ answers i = 1
    rw [awaits, count]
    exact inv.counted i m own
  asked i m own awaits := by
    obtain ⟨same, xact, -⟩ := tag i m own
    obtain ⟨asked, request⟩ := inv.asked i m own (same.mp awaits)
    refine ⟨(sent m).mpr asked, ?_⟩
    show (s'.tag i).xact = s'.tcReq m
    rw [xact, req m asked, request]
  one m i j own awaits own' awaits' := inv.one m i j own ((tag i m own).1.mp awaits) own' ((tag j m own').1.mp awaits')
  held m asked := by
    obtain ⟨i, own, awaits⟩ := inv.held m ((sent m).mp asked)
    exact ⟨i, own, (tag i m own).1.mpr awaits⟩

theorem Inv.answer (inv : l.Inv) {i m : Nat} (own : l.origin i = some m) (awaits : (l.state.tag i).Awaits)
    (ready : s'.rstCnt = l.state.rstCnt) (tag : ∀ j, j ≠ i → s'.tag j = l.state.tag j) (done : ¬(s'.tag i).Awaits)
    (unsent : ¬s'.Sent m) (mem : ∀ n, n ≠ m → s'.mem n = l.state.mem n) :
    Inv ⟨s', l.origin, upd l.answers i (l.answers i + 1)⟩ where
  ready j n own' := by
    have before := inv.ready j n own'
    unfold State.initialising at before ⊢
    rwa [ready]
  bank := inv.bank
  -- only the answered bank counts, and it has answered nothing before
  counted j n own' := by
    show (s'.tag j).Awaits ∧ upd l.answers i (l.answers i + 1) j = 0 ∨
      ¬(s'.tag j).Awaits ∧ upd l.answers i (l.answers i + 1) j = 1
    by_cases same : j = i
    · subst same
      rcases inv.counted j m own with before | before
      · rw [upd_same, before.2]
        exact .inr ⟨done, rfl⟩
      · exact absurd awaits before.1
    · rw [tag j same, upd_of_ne same]
      exact inv.counted j n own'
  asked j n own' awaits' := by
    have other : j ≠ i := by
      rintro rfl
      exact done awaits'
    replace awaits' : (l.state.tag j).Awaits := by rwa [← tag j other]
    -- a tracker waits for one bank at a time
    have apart : n ≠ m := by
      rintro rfl
      exact other (inv.one n j i own' awaits' own awaits)
    obtain ⟨asked, request⟩ := inv.asked j n own' awaits'
    unfold State.Sent State.tcReq at *
    simp only [mem n apart, tag j other]
    exact ⟨asked, request⟩
  one n j k own' awaits' own'' awaits'' := by
    have other : j ≠ i := by
      rintro rfl
      exact done awaits'
    have other' : k ≠ i := by
      rintro rfl
      exact done awaits''
    simp only [tag j other] at awaits'
    simp only [tag k other'] at awaits''
    exact inv.one n j k own' awaits' own'' awaits''
  held n asked := by
    have apart : n ≠ m := by
      rintro rfl
      exact unsent asked
    have before : l.state.Sent n := by
      unfold State.Sent at *
      rwa [← mem n apart]
    -- the bank that holds the request of another tracker is another one
    obtain ⟨j, own', awaits'⟩ := inv.held n before
    have other : j ≠ i := by
      rintro rfl
      rw [own] at own'
      exact apart (Option.some.inj own').symm
    refine ⟨j, own', ?_⟩
    simp only [tag j other]
    exact awaits'

theorem Inv.create (inv : l.Inv) {i : Nat} (idle : (l.state.tag i).state = .idle)
    (ready : ∀ j, j ≠ i → s'.rstCnt j = l.state.rstCnt j) (tag : ∀ j, j ≠ i → s'.tag j = l.state.tag j)
    (mem : s'.mem = l.state.mem) : Inv ⟨s', upd l.origin i none, upd l.answers i 0⟩ := by
  -- the create belongs to no tracker, so the bank drops out of the log
  have other : ∀ {j m}, upd l.origin i none j = some m → j ≠ i ∧ l.origin j = some m := by
    intro j m own
    by_cases same : j = i
    · rw [same, upd_same] at own
      cases own
    · rw [upd_of_ne same] at own
      exact ⟨same, own⟩
  refine ⟨fun j m own => ?_, fun j m own => ?_, fun j m own => ?_, fun j m own awaits => ?_,
    fun m j k own awaits own' awaits' => ?_, fun m asked => ?_⟩
  · obtain ⟨apart, own⟩ := other own
    have before := inv.ready j m own
    unfold State.initialising at before ⊢
    simpa only [ready j apart] using before
  · exact inv.bank j m (other own).2
  · obtain ⟨apart, own⟩ := other own
    simp only [tag j apart, upd_of_ne apart]
    exact inv.counted j m own
  · obtain ⟨apart, own⟩ := other own
    unfold State.Sent State.tcReq
    simp only [tag j apart, mem] at awaits ⊢
    exact inv.asked j m own awaits
  · obtain ⟨apart, own⟩ := other own
    obtain ⟨apart', own'⟩ := other own'
    simp only [tag j apart] at awaits
    simp only [tag k apart'] at awaits'
    exact inv.one m j k own awaits own' awaits'
  · unfold State.Sent at asked
    simp only [mem] at asked
    obtain ⟨j, own, awaits⟩ := inv.held m asked
    -- the bank was idle, so it held nobody's request
    have apart : j ≠ i := by
      rintro rfl
      exact awaits.1 idle
    refine ⟨j, ?_, ?_⟩
    · rw [← own]
      exact upd_of_ne apart
    · simp only [tag j apart]
      exact awaits

theorem Inv.take (inv : l.Inv) {i m : Nat} (bound : i < c.nTagTransactors) (past : l.state.initialising i = false)
    (idle : (l.state.tag i).state = .idle) (unsent : ¬l.state.Sent m) (ready : s'.rstCnt = l.state.rstCnt)
    (tag : ∀ j, j ≠ i → s'.tag j = l.state.tag j) (mem : ∀ n, n ≠ m → s'.mem n = l.state.mem n) (awaits : (s'.tag i).Awaits)
    (sent : s'.Sent m) (request : (s'.tag i).xact = s'.tcReq m) :
    Inv ⟨s', upd l.origin i (some m), upd l.answers i 0⟩ := by
  -- a bank of the log is the one that has just taken the request, or an old one
  have cases' : ∀ {j n}, upd l.origin i (some m) j = some n → (j = i ∧ n = m) ∨ (j ≠ i ∧ l.origin j = some n) := by
    intro j n own
    by_cases same : j = i
    · rw [same, upd_same] at own
      exact .inl ⟨same, (Option.some.inj own).symm⟩
    · rw [upd_of_ne same] at own
      exact .inr ⟨same, own⟩
  -- the tracker had sent nothing, so no other bank works for it
  have apart : ∀ {j n}, j ≠ i → l.origin j = some n → (l.state.tag j).Awaits → n ≠ m := by
    rintro j n - own awaits' rfl
    exact unsent (inv.asked j n own awaits').1
  refine ⟨fun j n own => ?_, fun j n own => ?_, fun j n own => ?_, fun j n own awaits' => ?_,
    fun n j k own awaits' own' awaits'' => ?_, fun n asked => ?_⟩
  · unfold State.initialising
    rw [ready]
    rcases cases' own with ⟨rfl, -⟩ | ⟨-, own⟩
    · exact past
    · exact inv.ready j n own
  · rcases cases' own with ⟨rfl, -⟩ | ⟨-, own⟩
    · exact bound
    · exact inv.bank j n own
  · rcases cases' own with ⟨rfl, -⟩ | ⟨other, own⟩
    · exact .inl ⟨awaits, upd_same _ _ _⟩
    · simp only [tag j other, upd_of_ne other]
      exact inv.counted j n own
  · rcases cases' own with ⟨rfl, rfl⟩ | ⟨other, own⟩
    · exact ⟨sent, request⟩
    · simp only [tag j other] at awaits' ⊢
      unfold State.Sent State.tcReq
      simp only [mem n (apart other own awaits')]
      exact inv.asked j n own awaits'
  · rcases cases' own with ⟨rfl, rfl⟩ | ⟨other, inner⟩
    · rcases cases' own' with ⟨rfl, -⟩ | ⟨other', own'⟩
      · rfl
      · simp only [tag k other'] at awaits''
        exact absurd rfl (apart other' own' awaits'')
    · simp only [tag j other] at awaits'
      rcases cases' own' with ⟨rfl, rfl⟩ | ⟨other', inner'⟩
      · exact absurd rfl (apart other inner awaits')
      · simp only [tag k other'] at awaits''
        exact inv.one n j k inner awaits' inner' awaits''
  · by_cases same : n = m
    · subst same
      exact ⟨i, upd_same _ _ _, awaits⟩
    · unfold State.Sent at asked
      simp only [mem n same] at asked
      -- the tracker was served before, and not by the bank that was idle
      obtain ⟨j, own, awaits'⟩ := inv.held n asked
      have other : j ≠ i := by
        rintro rfl
        exact awaits'.1 idle
      refine ⟨j, ?_, ?_⟩
      · rw [← own]
        exact upd_of_ne other
      · simp only [tag j other]
        exact awaits'

end Log

namespace State

variable {s s' : State c}

theorem lockTable_rest {req : TCTagRequest} (locked : s.lockTable req = some s') :
    s'.mem = s.mem ∧ s'.rstCnt = s.rstCnt := by
  unfold lockTable at locked
  split at locked
  · split at locked
    · obtain ⟨j, -, rfl⟩ := Option.map_eq_some_iff.mp locked
      exact ⟨rfl, rfl⟩
    · cases locked
      exact ⟨rfl, rfl⟩
  · cases locked
    exact ⟨rfl, rfl⟩

def memAfter (s : State c) (i : Nat) : Nat → MemXactTracker c :=
  if (s.tag i).responds && !s.initialising i then
    upd s.mem (s.tag i).xact.id ((s.mem (s.tag i).xact.id).tcResp (s.tag i).resp)
  else s.mem

theorem deliver_eq {t : State c} {i : Nat} (init : t.initialising i = s.initialising i) (mem : t.mem = s.mem)
    (responds : (s.tag i).responds = true) :
    (t.deliver i (s.tag i).resp).mem = s.memAfter i ∧ (t.deliver i (s.tag i).resp).rstCnt = t.rstCnt := by
  unfold deliver memAfter
  rw [init, responds]
  cases s.initialising i with
  | true => simp [mem]
  | false => simp [setMem, mem, TagXactTracker.resp]

theorem stepTag_cases {i way : Nat} (fired : s.stepTag i way = some s') :
    (∃ t : TagXactTracker, s'.tag = upd s.tag i t ∧ t.xact = (s.tag i).xact ∧
      (t.Awaits ↔ (s.tag i).Awaits ∧ (s.tag i).responds = false)) ∧ s'.rstCnt = s.rstCnt ∧ s'.mem = s.memAfter i := by
  unfold stepTag at fired
  split at fired
  · split at fired
    · rename_i state
      obtain ⟨locked, table, result⟩ := Option.map_eq_some_iff.mp fired
      obtain ⟨tag, -, -⟩ := lockTable_kept table
      obtain ⟨mem, rstCnt⟩ := lockTable_rest table
      -- the bank is idle behind this step, so it awaits nothing
      have idle : ¬({ s.tag i with state := .idle } : TagXactTracker).Awaits := fun awaits => awaits.1 rfl
      have none' : ¬((s.tag i).Awaits ∧ (s.tag i).responds = false) := by
        rintro ⟨⟨-, early⟩, silent⟩
        cases write : (s.tag i).xact.op.isWrite with
        | true => simp [state] at early; simp [early] at write
        | false => simp [TagXactTracker.responds, state, write] at silent
      simp only at result
      split at result
      -- a write was answered at its metadata, and the lock stage is silent
      · rename_i write
        have silent : (s.tag i).responds = false := by simp [TagXactTracker.responds, state, write]
        cases result
        refine ⟨⟨{ s.tag i with state := .idle }, by simp only [setTag, tag], rfl, iff_of_false idle none'⟩, rstCnt, ?_⟩
        simp [memAfter, silent, setTag, mem]
      -- a read is answered here
      · rename_i read
        have responds : (s.tag i).responds = true := by simp [TagXactTracker.responds, state, read]
        obtain ⟨mem', rstCnt'⟩ := deliver_eq (s := s) (t := locked.setTag i { s.tag i with state := .idle }) (i := i)
          (by simp [initialising, setTag, rstCnt]) (by simp [setTag, mem]) responds
        cases result
        refine ⟨⟨{ s.tag i with state := .idle }, ?_, rfl, iff_of_false idle none'⟩, ?_, mem'⟩
        · rw [deliver_tag]
          simp only [setTag, tag]
        · rw [rstCnt']
          exact rstCnt
    · rename_i state
      obtain ⟨⟨t, a⟩, visited, result⟩ := Option.map_eq_some_iff.mp fired
      have xact := (TagXactTracker.visit_spec visited).1
      have awaits := TagXactTracker.awaits_visit visited
      simp only at result
      split at result
      -- a write is answered at its metadata, the rest of the visits is silent
      · rename_i early
        have responds : (s.tag i).responds = true := by simp [TagXactTracker.responds, early]
        obtain ⟨mem', rstCnt'⟩ := deliver_eq (s := s) (t := { s.setTag i t with arrays := a }) (i := i) rfl rfl responds
        cases result
        exact ⟨⟨t, deliver_tag _ _ _, xact, awaits⟩, rstCnt', mem'⟩
      · rename_i late
        have silent : (s.tag i).responds = false := by
          unfold TagXactTracker.responds
          cases write : (s.tag i).xact.op.isWrite with
          | true => simpa [write] using late
          | false => simpa using state
        cases result
        refine ⟨⟨t, rfl, xact, awaits⟩, rfl, ?_⟩
        simp [memAfter, silent, setTag]
  · cases fired

end State

namespace Log

variable {l l' : Log c}

theorem Inv.tag (inv : l.Inv) {i way : Nat} (calm : l.misleads (.tag i way) = false)
    (fired : l.step (.tag i way) = some l') : l'.Inv := by
  obtain ⟨s', moved, result⟩ := Option.map_eq_some_iff.mp fired
  obtain ⟨⟨t, tag, xact, awaits⟩, rstCnt, mem⟩ := State.stepTag_cases (s := l.state) moved
  have others : ∀ j, j ≠ i → s'.tag j = l.state.tag j := by
    intro j other
    rw [tag, upd_of_ne other]
  have here : s'.tag i = t := by rw [tag, upd_same]
  by_cases answer : (l.state.tag i).responds = true ∧ l.state.initialising i = false
  · have given : l.state.delivers (.tag i way) = some i := by simp [State.delivers, answer]
    simp only [given] at result
    simp only [State.memAfter, answer, Bool.not_false, Bool.and_self, if_true] at mem
    cases own : l.origin i with
    | none =>
      -- the last create of an initiator: its answer reaches a tracker that ignores it
      have idle : (l.target i).tcState = .idle := by simpa [misleads, given, own] using calm
      have same : s'.mem = l.state.mem := by
        rw [mem]
        funext n
        by_cases target : n = (l.state.tag i).xact.id
        · rw [target, upd_same]
          exact MemXactTracker.tcResp_of_idle idle _
        · rw [upd_of_ne target]
      rw [← result]
      apply inv.frame rstCnt
      · intro j m own'
        have other : j ≠ i := by
          rintro rfl
          rw [own] at own'
          cases own'
        rw [others j other, upd_of_ne other]
        exact ⟨Iff.rfl, rfl, rfl⟩
      · intro m
        unfold State.Sent
        rw [same]
      · intro m _
        unfold State.tcReq
        rw [same]
    | some m =>
      have waits := TagXactTracker.awaits_of_responds answer.1
      have name : (l.state.tag i).xact.id = m := by
        rw [(inv.asked i m own waits).2]
        exact MemXactTracker.tcReq_id _ _
      rw [name] at mem
      rw [← result]
      apply inv.answer own waits rstCnt others
      · rw [here, awaits, answer.1]
        simp
      · rintro ⟨busy, sent⟩
        rw [mem, upd_same] at busy sent
        rcases (l.state.mem m).tcReqSent_tcResp (l.state.tag i).resp with idle | unsent
        · exact busy idle
        · rw [unsent] at sent
          cases sent
      · intro n other
        rw [mem, upd_of_ne other]
  · have silent : l.state.delivers (.tag i way) = none := by
      simp only [State.delivers]
      rw [if_neg]
      simpa using answer
    have same : s'.mem = l.state.mem := by
      rw [mem, State.memAfter, if_neg]
      simpa using answer
    simp only [silent] at result
    rw [← result]
    apply inv.frame rstCnt
    · intro j m own
      by_cases there : j = i
      · subst there
        have quiet : (l.state.tag j).responds = false := by
          by_contra responds
          exact answer ⟨by simpa using responds, inv.ready j m own⟩
        rw [here]
        exact ⟨by simp [awaits, quiet], xact, rfl⟩
      · rw [others j there]
        exact ⟨Iff.rfl, rfl, rfl⟩
    · intro m
      unfold State.Sent
      rw [same]
    · intro m _
      unfold State.tcReq
      rw [same]

theorem Inv.aside (inv : l.Inv) {e : Event c} (fired : l.step e = some l') (other : ∀ i, e ≠ .accept i)
    (silent : l.state.delivers e = none) (rstCnt : l'.state.rstCnt = l.state.rstCnt)
    (tag : ∀ i, ((l'.state.tag i).Awaits ↔ (l.state.tag i).Awaits) ∧ (l'.state.tag i).xact = (l.state.tag i).xact)
    (sent : ∀ m, l'.state.Sent m ↔ l.state.Sent m) (req : ∀ m, l.state.Sent m → l'.state.tcReq m = l.state.tcReq m) :
    l'.Inv := by
  obtain ⟨s', -, result⟩ := Option.map_eq_some_iff.mp fired
  have same : l' = ⟨s', l.origin, l.answers⟩ := by
    rw [← result]
    cases e with
    | accept i => exact absurd rfl (other i)
    | _ => simp only [silent]
  subst same
  exact inv.frame rstCnt (fun i _ _ => ⟨(tag i).1, (tag i).2, rfl⟩) sent req

theorem step_state {e : Event c} (fired : l.step e = some l') : l.state.step e = some l'.state := by
  obtain ⟨s', moved, result⟩ := Option.map_eq_some_iff.mp fired
  rw [moved, ← result]
  split
  · rfl
  · split <;> rfl

theorem Inv.acquire (inv : l.Inv) {m : Nat} {req : AcquireReq c} {order : SearchOrder}
    (fired : l.step (.acquire m req order) = some l') : l'.Inv := by
  have moved := step_state fired
  simp only [State.step, State.stepAcquire] at moved
  split at moved
  · rename_i ready
    have free := List.find?_some ready.2.2
    simp only [State.acquireReady, Bool.and_eq_true, decide_eq_true_eq] at free
    rw [Option.some.injEq] at moved
    have unsent : ¬l.state.Sent m := fun sent => sent.1 free.2
    refine inv.aside fired (fun i => by simp) rfl (by rw [← moved]; rfl) (fun i => by rw [← moved]; exact ⟨Iff.rfl, rfl⟩)
      (fun n => ?_) fun n sent => ?_
    · rw [← moved]
      by_cases same : n = m
      · subst same
        refine iff_of_false ?_ unsent
        simp [State.Sent, State.setMem, MemXactTracker.acquire]
      · simp [State.Sent, State.setMem, same]
    · have other : n ≠ m := by
        rintro rfl
        exact unsent sent
      rw [← moved]
      simp [State.tcReq, State.setMem, other]
  · cases moved

theorem Inv.memory (inv : l.Inv) {e : Event c} {m : Nat} {source target : MtState} (fired : l.step e = some l')
    (other : ∀ i, e ≠ .accept i) (silent : l.state.delivers e = none)
    (moved : l.state.stepMt m source target = some l'.state) : l'.Inv := by
  unfold State.stepMt at moved
  split at moved
  · rw [Option.some.injEq] at moved
    refine inv.aside fired other silent (by rw [← moved]; rfl) (fun i => by rw [← moved]; exact ⟨Iff.rfl, rfl⟩)
      (fun n => ?_) fun n _ => ?_
    · rw [← moved]
      by_cases same : n = m
      · simp [State.Sent, State.setMem, same]
      · simp [State.Sent, State.setMem, same]
    · rw [← moved]
      by_cases same : n = m
      · subst same
        simp only [State.tcReq, State.setMem, upd_same]
        rfl
      · simp [State.tcReq, State.setMem, same]
  · cases moved

theorem Inv.moved (inv : l.Inv) {e : Event c} {i : Nat} {t : TagXactTracker} (fired : l.step e = some l')
    (other : ∀ i, e ≠ .accept i) (silent : l.state.delivers e = none) (rstCnt : l'.state.rstCnt = l.state.rstCnt)
    (mem : l'.state.mem = l.state.mem) (tag : l'.state.tag = upd l.state.tag i t)
    (awaits : t.Awaits ↔ (l.state.tag i).Awaits) (xact : t.xact = (l.state.tag i).xact) : l'.Inv := by
  refine inv.aside fired other silent rstCnt (fun j => ?_) (fun n => ?_) fun n _ => ?_
  · rw [tag]
    by_cases same : j = i
    · rw [same, upd_same]
      exact ⟨awaits, xact⟩
    · rw [upd_of_ne same]
      exact ⟨Iff.rfl, rfl⟩
  · unfold State.Sent
    rw [mem]
  · unfold State.tcReq
    rw [mem]

theorem Inv.still (inv : l.Inv) {e : Event c} (fired : l.step e = some l') (other : ∀ i, e ≠ .accept i)
    (silent : l.state.delivers e = none) (rstCnt : l'.state.rstCnt = l.state.rstCnt) (mem : l'.state.mem = l.state.mem)
    (tag : l'.state.tag = l.state.tag) : l'.Inv := by
  refine inv.aside fired other silent rstCnt (fun j => ?_) (fun n => ?_) fun n _ => ?_
  · rw [tag]
    exact ⟨Iff.rfl, rfl⟩
  · unfold State.Sent
    rw [mem]
  · unfold State.tcReq
    rw [mem]

theorem Inv.writeBack (inv : l.Inv) (fired : l.step .wb = some l') : l'.Inv := by
  have moved := step_state fired
  simp only [State.step, State.stepWb] at moved
  split at moved
  · cases moved
  · rw [Option.some.injEq] at moved
    exact inv.still fired (fun i => by simp) rfl (by rw [← moved]) (by rw [← moved]) (by rw [← moved])
  · rw [Option.some.injEq] at moved
    exact inv.still fired (fun i => by simp) rfl (by rw [← moved]) (by rw [← moved]) (by rw [← moved])
  · split at moved
    · rename_i waits
      rw [Option.some.injEq] at moved
      have awaits : (l.state.tag l.state.wb.id).enterF.Awaits ↔ (l.state.tag l.state.wb.id).Awaits := by
        simp [TagXactTracker.Awaits, waits]
      exact inv.moved fired (fun i => by simp) rfl (by rw [← moved]; rfl) (by rw [← moved]; rfl) (by rw [← moved]; rfl) awaits
        (TagXactTracker.enterF_xact _)
    · rw [Option.some.injEq] at moved
      exact inv.still fired (fun i => by simp) rfl (by rw [← moved]) (by rw [← moved]) (by rw [← moved])
  · rw [Option.some.injEq] at moved
    exact inv.still fired (fun i => by simp) rfl (by rw [← moved]) (by rw [← moved]) (by rw [← moved])

theorem Inv.accept (inv : l.Inv) {i : Nat} (fired : l.step (.accept i) = some l') : l'.Inv := by
  obtain ⟨s', moved, result⟩ := Option.map_eq_some_iff.mp fired
  rw [← result]
  simp only [State.step, State.stepAccept] at moved
  split at moved
  · rename_i free
    cases init : l.state.initialising i with
    -- the initiator has its creates accepted first
    | true =>
      rw [if_pos init, Option.some.injEq] at moved
      simp only [taken, init, if_true]
      apply inv.create free.2
      · intro j other
        rw [← moved]
        exact upd_of_ne other
      · intro j other
        rw [← moved]
        exact upd_of_ne other
      · rw [← moved]
        rfl
    | false =>
      rw [if_neg (by simp [init])] at moved
      split at moved
      · rename_i presented
        rw [Option.some.injEq] at moved
        -- a tracker presents only what it has not sent
        simp only [State.presents, MemXactTracker.tcReqValid, Bool.and_eq_true, decide_eq_true_eq, Bool.not_eq_true']
          at presented
        obtain ⟨⟨⟨busy, fresh⟩, -⟩, -⟩ := presented
        have unsent : ¬l.state.Sent (l.state.chosen i) := fun sent => by simp [sent.2] at fresh
        simp only [taken, init, Bool.false_eq_true, if_false]
        apply inv.take free.1 init free.2 unsent
        · rw [← moved]
          rfl
        · intro j other
          rw [← moved]
          exact upd_of_ne other
        · intro n other
          rw [← moved]
          exact upd_of_ne other
        · rw [← moved]
          simp [State.setMem, State.setTag, TagXactTracker.accept, TagXactTracker.Awaits]
        · rw [← moved]
          simp [State.setMem, State.setTag, State.Sent, busy]
        · rw [← moved]
          simp only [State.setMem, State.setTag, upd_same, State.tcReq]
          rfl
      · cases moved
  · cases moved

theorem Inv.step (inv : l.Inv) {e : Event c} (calm : l.misleads e = false) (fired : l.step e = some l') : l'.Inv := by
  cases e with
  | acquire m req order => exact inv.acquire fired
  | outerAcquire m => exact inv.memory fired (fun i => by simp) rfl (step_state fired)
  | outerGrant m => exact inv.memory fired (fun i => by simp) rfl (step_state fired)
  | innerGrant m => exact inv.memory fired (fun i => by simp) rfl (step_state fired)
  | accept i => exact inv.accept fired
  | tag i way => exact inv.tag calm fired
  | wbReq i =>
    have moved := step_state fired
    simp only [State.step, State.stepWbReq] at moved
    split at moved
    · rw [Option.some.injEq] at moved
      have awaits : ({ l.state.tag i with wbSent := true } : TagXactTracker).Awaits ↔ (l.state.tag i).Awaits := Iff.rfl
      exact inv.moved fired (fun i => by simp) rfl (by rw [← moved]; rfl) (by rw [← moved]; rfl) (by rw [← moved]; rfl)
        awaits rfl
    · cases moved
  | wb => exact inv.writeBack fired

theorem Inv.open_iff (inv : l.Inv) (i m : Nat) : l.Open i m ↔ l.origin i = some m ∧ (l.state.tag i).Awaits := by
  constructor
  · rintro ⟨-, -, own, fresh⟩
    rcases inv.counted i m own with ⟨awaits, -⟩ | ⟨-, once⟩
    · exact ⟨own, awaits⟩
    · omega
  · rintro ⟨own, awaits⟩
    rcases inv.counted i m own with ⟨-, fresh⟩ | ⟨done, -⟩
    · exact ⟨inv.bank i m own, awaits.1, own, fresh⟩
    · exact absurd awaits done

theorem Inv.onceEach (inv : l.Inv) : l.OnceEach where
  outstanding m := by
    simp only [inv.open_iff]
    constructor
    · exact inv.held m
    · rintro ⟨i, own, awaits⟩
      exact (inv.asked i m own awaits).1
  one m i j opened opened' := by
    rw [inv.open_iff] at opened opened'
    exact inv.one m i j opened.1 opened.2 opened'.1 opened'.2
  most i m own := by
    rcases inv.counted i m own with ⟨-, count⟩ | ⟨-, count⟩ <;> omega
  done i m own idle := by
    rcases inv.counted i m own with ⟨awaits, -⟩ | ⟨-, once⟩
    · exact absurd idle awaits.1
    · exact once

theorem Inv.answers_iff (inv : l.Inv) (e : Event c) : l.Answers e ↔ l.misleads e = false := by
  unfold Answers misleads
  cases given : l.state.delivers e with
  | none => simp
  | some i =>
    have responds : (l.state.tag i).responds = true := by
      cases e with
      | tag j way =>
        simp only [State.delivers] at given
        split at given
        · rename_i right
          cases given
          rw [Bool.and_eq_true] at right
          exact right.1
        · cases given
      | _ => cases given
    cases own : l.origin i with
    | none => simp [Open, own]
    | some m =>
      have waits := TagXactTracker.awaits_of_responds responds
      obtain ⟨sent, request⟩ := inv.asked i m own waits
      have name : (l.state.tag i).xact.id = m := by
        rw [request]
        exact MemXactTracker.tcReq_id _ _
      refine iff_of_true ?_ (by simp [own])
      rintro j same -
      obtain rfl := Option.some.inj same
      rw [name]
      exact ⟨(inv.open_iff i m).mpr ⟨own, waits⟩, sent, request⟩

/-- As long as no initiator misleads a tracker every request is answered once, by the one bank that
has it, and not a step longer. -/
theorem responses_answer_requests (reaches : Reaches (fun l e => l.misleads e = false) l) :
    l.OnceEach ∧ ∀ e l', l.step e = some l' → (l.Answers e ↔ l.misleads e = false) := by
  obtain ⟨start, reset, run⟩ := reaches
  have inv : l.Inv := run.invariant reset.inv fun inv calm fired => inv.step calm fired
  exact ⟨inv.onceEach, fun e _ _ => inv.answers_iff e⟩

/-! One memory tracker and two banks with a block of the top map each. -/

open State (evenConfig evenConfig_admissible)

def soloConfig : Config := { evenConfig with nMemTransactors := 1 }

theorem soloConfig_admissible : soloConfig.Admissible :=
  { evenConfig_admissible with memTransactors := Nat.le_refl 1 }

def start (c : Config) : Log c := ⟨State.blank c, fun _ => none, fun _ => 0⟩

theorem start_onReset (c : Config) : (start c).OnReset := ⟨State.blank_onReset c, fun _ => rfl⟩

def firstRead : Event soloConfig := .acquire 0 ⟨false, 2 ^ 30 / 64, 0, 0⟩ .topDown

/-- Both banks create their block before the read arrives, whose first request is then answered. -/
def readBehindCreates : List (Event soloConfig) :=
  .accept 0 :: .accept 1 :: (List.replicate 5 [.tag 0 0, .tag 1 0]).flatten ++ firstRead :: .accept 0 ::
    List.replicate 3 (.tag 0 0)

theorem responses_answer_requests_of_create : ∃ l : Log soloConfig, l.origin 0 = some 0 ∧ l.answers 0 = 1 ∧ l.OnceEach ∧
    ∀ e l', l.step e = some l' → (l.Answers e ↔ l.misleads e = false) := by
  have ran : (execGuarded Log.step (fun l e => !l.misleads e) (start soloConfig) readBehindCreates).map
      (fun l => (l.origin 0, l.answers 0)) = some (some 0, 1) := by decide +kernel
  obtain ⟨l, ran, result⟩ := Option.map_eq_some_iff.mp ran
  obtain ⟨own, once⟩ := Prod.mk.inj result
  have run := (steps_of_execGuarded ran).mono fun _ _ calm => Bool.not_eq_true' _ ▸ calm
  exact ⟨l, own, once, responses_answer_requests ⟨start soloConfig, start_onReset _, run⟩⟩

/-- Both banks take their creates in the first cycle, with the only identifier there is. The read
arrives before the first of them is answered. -/
theorem not_answers_first_read :
    ¬ ∀ c : Config, c.Admissible → ∀ l : Log c, Reaches anyEvent l → ∀ e l', l.step e = some l' → l.Answers e := by
  intro always
  have ran : (exec Log.step (start soloConfig) [.accept 0, .accept 1, firstRead]).map (fun l =>
      (l.state.delivers (.tag 0 0), (l.target 0).tcState, l.origin 0, (l.step (.tag 0 0)).isSome))
        = some (some 0, .tm1f, none, true) := by decide +kernel
  obtain ⟨l, ran, result⟩ := Option.map_eq_some_iff.mp ran
  simp only [Prod.mk.injEq] at result
  obtain ⟨given, searching, nobody, enabled⟩ := result
  obtain ⟨l', fired⟩ := Option.isSome_iff_exists.mp enabled
  have right := always soloConfig soloConfig_admissible l ⟨_, start_onReset _, steps_of_exec ran⟩ (.tag 0 0) l' fired
  obtain ⟨⟨-, -, own, -⟩, -⟩ := right 0 given (by rw [searching]; exact TcState.noConfusion)
  rw [nobody] at own
  cases own

end Log

end LowRisc.TagCache
