import Mathlib.Algebra.GroupWithZero.Nat
import Mathlib.Data.List.Chain

/-! Flits of the debug interconnect, packets of flits and the two-input packet
multiplexer `ring_router_mux`. -/

set_option autoImplicit false

namespace LowRisc.Debug

abbrev Word := BitVec 16

/-- What a `dii_flit` carries besides its valid bit. -/
structure Flit where
  last : Bool
  data : Word
  deriving DecidableEq, Repr

/-- The wires of a `dii_flit`; without `valid` the other two are arbitrary. -/
structure DiiFlit where
  valid : Bool
  last : Bool
  data : Word
  deriving DecidableEq, Repr

namespace DiiFlit

def flit (d : DiiFlit) : Flit := ⟨d.last, d.data⟩

def idle : DiiFlit := ⟨false, false, 0⟩

def ofFlit (f : Flit) : DiiFlit := ⟨true, f.last, f.data⟩

def passed (d : DiiFlit) (ready : Bool) : List Flit := if d.valid && ready then [d.flit] else []

end DiiFlit

/-- The flits of a packet with the given words: the last one is marked. -/
def frame : List Word → List Flit
  | [] => []
  | [w] => [⟨true, w⟩]
  | w :: v :: rest => ⟨false, w⟩ :: frame (v :: rest)

@[simp] theorem frame_singleton (w : Word) : frame [w] = [⟨true, w⟩] := rfl

@[simp] theorem frame_cons_cons (w v : Word) (rest : List Word) :
    frame (w :: v :: rest) = ⟨false, w⟩ :: frame (v :: rest) := rfl

theorem length_frame (ws : List Word) : (frame ws).length = ws.length := by
  induction ws using frame.induct with
  | case1 => rfl
  | case2 w => rfl
  | case3 w v rest ih => simp [ih]

theorem frame_ne_nil {ws : List Word} (some : ws ≠ []) : frame ws ≠ [] := by
  rw [← List.length_pos_iff, length_frame]
  exact List.length_pos_iff.mpr some

def offered (offer : Bool) (noise : Flit) : List Flit → DiiFlit
  | f :: _ => if offer then .ofFlit f else ⟨false, noise.last, noise.data⟩
  | [] => ⟨false, noise.last, noise.data⟩

/-! The packet multiplexer. -/

inductive Source where
  | ring
  | loc
  deriving DecidableEq, Repr

inductive MuxState where
  | noworm
  | wormLocal
  | wormRing
  deriving DecidableEq, Repr

namespace RingRouterMux

def selected (s : MuxState) (inRing inLocal : DiiFlit) : Option Source :=
  match s with
  | .noworm => if inRing.valid then some .ring else if inLocal.valid then some .loc else none
  | .wormRing => some .ring
  | .wormLocal => some .loc

def port (inRing inLocal : DiiFlit) : Source → DiiFlit
  | .ring => inRing
  | .loc => inLocal

def out_mux (s : MuxState) (inRing inLocal : DiiFlit) : DiiFlit :=
  match selected s inRing inLocal with
  | some source => port inRing inLocal source
  | none => .idle

def in_ready (s : MuxState) (inRing inLocal : DiiFlit) (out_mux_ready : Bool) (source : Source) : Bool :=
  out_mux_ready && selected s inRing inLocal == some source

def wormState : Source → MuxState
  | .ring => .wormRing
  | .loc => .wormLocal

/-- Without a worm the state follows the presented flit, also when it is not taken. -/
def nxt_state (s : MuxState) (inRing inLocal : DiiFlit) (out_mux_ready : Bool) : MuxState :=
  let out := out_mux s inRing inLocal
  match s with
  | .noworm =>
    match selected s inRing inLocal with
    | some source => if out.last then .noworm else wormState source
    | none => .noworm
  | _ => if out.last && out.valid && out_mux_ready then .noworm else s

/-- The flit that leaves in this cycle, with the input it comes from. -/
def transfer (s : MuxState) (inRing inLocal : DiiFlit) (out_mux_ready : Bool) : Option (Source × Flit) :=
  match selected s inRing inLocal with
  | some source =>
    let d := port inRing inLocal source
    if d.valid && out_mux_ready then some (source, d.flit) else none
  | none => none

end RingRouterMux

/-- After a flit that does not end its packet the next one is of the same source. -/
def Uninterleaved (log : List (Source × Flit)) : Prop :=
  log.IsChain fun a b => a.2.last = false → b.1 = a.1

/-- The source whose packet is unfinished at the end of the log. -/
def openSource (log : List (Source × Flit)) : Option Source :=
  match log.getLast? with
  | some (source, f) => if f.last then none else some source
  | none => none

@[simp] theorem openSource_concat (log : List (Source × Flit)) (source : Source) (f : Flit) :
    openSource (log ++ [(source, f)]) = if f.last then none else some source := by
  simp [openSource]

theorem Uninterleaved.concat {log : List (Source × Flit)} {source : Source} {f : Flit}
    (whole : Uninterleaved log) (fits : openSource log = none ∨ openSource log = some source) :
    Uninterleaved (log ++ [(source, f)]) := by
  rw [Uninterleaved, List.isChain_append]
  refine ⟨whole, List.isChain_singleton _, ?_⟩
  rintro ⟨source', f'⟩ final ⟨source'', f''⟩ head unfinished
  simp only [List.head?_cons, Option.mem_def, Option.some.injEq, Prod.mk.injEq] at head
  obtain ⟨rfl, rfl⟩ := head
  rw [Option.mem_def] at final
  simp only at unfinished
  simp [openSource, final, unfinished] at fits
  exact fits.symm

/-- The log holds whole packets, and the worm the multiplexer follows is the open one. -/
structure MuxFollows (s : MuxState) (log : List (Source × Flit)) : Prop where
  whole : Uninterleaved log
  worm : ∀ source, openSource log = some source → s = RingRouterMux.wormState source

namespace RingRouterMux

theorem follows_nil (s : MuxState) : MuxFollows s [] :=
  ⟨List.isChain_nil, fun _ unfinished => by simp [openSource] at unfinished⟩

theorem selected_wormState (source : Source) (inRing inLocal : DiiFlit) :
    selected (wormState source) inRing inLocal = some source := by
  cases source <;> rfl

theorem transfer_eq_some {s : MuxState} {inRing inLocal : DiiFlit} {ready : Bool} {source : Source}
    {f : Flit} (taken : transfer s inRing inLocal ready = some (source, f)) :
    selected s inRing inLocal = some source ∧ (port inRing inLocal source).valid = true ∧ ready = true
      ∧ f = (port inRing inLocal source).flit := by
  unfold transfer at taken
  split at taken
  · rename_i source' turned
    simp only at taken
    split at taken
    · rename_i moves
      simp only [Bool.and_eq_true] at moves
      simp only [Option.some.injEq, Prod.mk.injEq] at taken
      obtain ⟨rfl, rfl⟩ := taken
      exact ⟨turned, moves.1, moves.2, rfl⟩
    · cases taken
  · cases taken

theorem sent_transfer (s : MuxState) (inRing inLocal : DiiFlit) (ready : Bool) (source : Source) :
    ((transfer s inRing inLocal ready).toList.filter fun sent => sent.1 == source).map Prod.snd =
      if (port inRing inLocal source).valid && in_ready s inRing inLocal ready source then
        [(port inRing inLocal source).flit] else [] := by
  unfold transfer in_ready
  generalize selected s inRing inLocal = turned
  cases turned with
  | none => simp
  | some other =>
    by_cases same : other = source
    · subst same
      by_cases moves : ((port inRing inLocal other).valid && ready) = true
      · simp [moves]
      · simp [moves]
    · simp only [Option.some_beq_some, beq_eq_false_iff_ne.mpr same]
      split <;> simp [same]

/-- Inside a packet the multiplexer stays on its source until the last flit has left. -/
theorem nxt_state_wormState (source : Source) (inRing inLocal : DiiFlit) (ready : Bool) :
    nxt_state (wormState source) inRing inLocal ready =
      if (transfer (wormState source) inRing inLocal ready).any (fun t => t.2.last) then .noworm
      else wormState source := by
  cases source with
  | ring =>
    simp only [nxt_state, transfer, wormState, out_mux, selected, port]
    by_cases moves : (inRing.valid && ready) = true
    · simp [moves, Bool.and_assoc, DiiFlit.flit]
    · simp [moves, Bool.and_assoc]
  | loc =>
    simp only [nxt_state, transfer, wormState, out_mux, selected, port]
    by_cases moves : (inLocal.valid && ready) = true
    · simp [moves, Bool.and_assoc, DiiFlit.flit]
    · simp [moves, Bool.and_assoc]

theorem follows_step {s : MuxState} {log : List (Source × Flit)} (inv : MuxFollows s log)
    (inRing inLocal : DiiFlit) (ready : Bool) :
    MuxFollows (nxt_state s inRing inLocal ready)
      (log ++ (transfer s inRing inLocal ready).toList) := by
  cases moved : transfer s inRing inLocal ready with
  | none =>
    simp only [Option.toList_none, List.append_nil]
    refine ⟨inv.whole, fun source unfinished => ?_⟩
    have worm := inv.worm source unfinished
    rw [worm] at moved ⊢
    simp [nxt_state_wormState, moved]
  | some sent =>
    obtain ⟨source, f⟩ := sent
    obtain ⟨turned, up, rfl, rfl⟩ := transfer_eq_some moved
    -- the state keeps the multiplexer at the packet under way, so the flit belongs to it
    have fits : openSource log = none ∨ openSource log = some source := by
      cases unfinished : openSource log with
      | none => exact .inl rfl
      | some other =>
        rw [inv.worm other unfinished, selected_wormState] at turned
        exact .inr turned
    refine ⟨inv.whole.concat fits, fun source' unfinished => ?_⟩
    simp only [Option.toList_some, openSource_concat] at unfinished
    split at unfinished
    · cases unfinished
    · rename_i notLast
      cases Option.some.inj unfinished
      cases s with
      | noworm => simp_all [nxt_state, out_mux, DiiFlit.flit]
      | wormLocal =>
        cases Option.some.inj turned
        exact (nxt_state_wormState .loc inRing inLocal true).trans (by
          rw [show wormState .loc = .wormLocal from rfl, moved]; simp [notLast])
      | wormRing =>
        cases Option.some.inj turned
        exact (nxt_state_wormState .ring inRing inLocal true).trans (by
          rw [show wormState .ring = .wormRing from rfl, moved]; simp [notLast])

end RingRouterMux

end LowRisc.Debug
