import LowRisc.Debug.RegAccess
import LowRisc.Lib.Wormhole

/-! `osd_regaccess_demux` splits a stream of packets without loss. -/

set_option autoImplicit false

namespace LowRisc.Debug.Demux

open Lib.Worm

def out_bypass (d : DemuxState) (inp : DiiFlit) : DiiFlit := ⟨out_bypass_valid d inp, d.buf.last, d.buf.data⟩

structure Log where
  demux : DemuxState
  entered : List Flit
  out_reg : List Flit
  out_bypass : List Flit

structure Event where
  inp : DiiFlit
  out_reg_ready : Bool
  out_bypass_ready : Bool

def cycle (s : Log) (e : Event) : Log where
  demux := next s.demux e.inp e.out_reg_ready e.out_bypass_ready
  entered := s.entered ++ e.inp.passed (in_ready s.demux e.inp e.out_reg_ready e.out_bypass_ready)
  out_reg := s.out_reg ++ (out_reg s.demux e.inp).passed e.out_reg_ready
  out_bypass := s.out_bypass ++ (out_bypass s.demux e.inp).passed e.out_bypass_ready

def run (s : Log) (es : List Event) : Log := es.foldl cycle s

structure AfterReset (s : Log) : Prop where
  worm : s.demux.worm = false
  first : s.demux.first = false
  entered : s.entered = []
  out_reg : s.out_reg = []
  out_bypass : s.out_bypass = []

/-- The output of the packets that are register accesses, or of the others. -/
def Log.out (s : Log) (regaccess : Bool) : List Flit := if regaccess then s.out_reg else s.out_bypass

/-- The two type bits of the second flit are 0. -/
def isAccess (packet : List Flit) : Bool := packet[1]?.any fun f => f.data.extractLsb' 14 2 == 0

def routed (regaccess : Bool) (stream : List Flit) : List Flit :=
  ((completed Flit.last stream).filter fun packet => isAccess packet == regaccess).flatten

/-- The part of an unfinished packet that goes one way; with one flit its way is open. -/
def begun (regaccess : Bool) (part : List Flit) : List Flit :=
  if 2 ≤ part.length ∧ isAccess part = regaccess then part else []

/-- All packets that have ended have two flits or more. -/
def TwoFlits (stream : List Flit) : Prop := ∀ packet ∈ completed Flit.last stream, 2 ≤ packet.length

def held (d : DemuxState) (regaccess : Bool) : List Flit := if d.worm && d.regaccess == regaccess then [d.buf] else []

/-- What has left one way, and the flit that is held, are what has to go this way. A flit that is held for no way
is the first one of its packet. Behind the end of a packet everything leaves without a further flit. -/
structure Splits (s : Log) : Prop where
  ways : ∀ way, s.out way ++ held s.demux way = routed way s.entered ++ begun way (unfinished Flit.last s.entered)
  first : s.demux.first = true → s.demux.worm = false ∧ unfinished Flit.last s.entered = [s.demux.buf]
  drained : unfinished Flit.last s.entered = [] → ∀ e : Event, e.inp.valid = false → e.out_reg_ready = true →
    e.out_bypass_ready = true → (cycle s e).entered = s.entered ∧ ∀ way, (cycle s e).out way = routed way s.entered

/-! How the parts of a stream grow with it. -/

section
variable {stream : List Flit} {f : Flit} (way : Bool)

theorem TwoFlits.started (two : TwoFlits (stream ++ [f])) (boundary : unfinished Flit.last stream = []) :
    f.last = false := by
  by_contra ends
  rw [Bool.not_eq_false] at ends
  have short := two [f] (by rw [completed_concat, if_pos ends, boundary]; simp)
  simp at short

theorem routed_first (boundary : unfinished Flit.last stream = []) (more : f.last = false) :
    routed way (stream ++ [f]) ++ begun way (unfinished Flit.last (stream ++ [f])) =
      routed way stream ++ begun way (unfinished Flit.last stream) := by
  simp [routed, begun, more, boundary]

theorem isAccess_append {part : List Flit} (two : 2 ≤ part.length) (rest : List Flit) :
    isAccess (part ++ rest) = isAccess part := by
  rw [isAccess, isAccess, List.getElem?_append_left (by omega)]

theorem routed_second {b : Flit} (one : unfinished Flit.last stream = [b]) :
    routed way (stream ++ [f]) ++ begun way (unfinished Flit.last (stream ++ [f])) =
      routed way stream ++ if isAccess [b, f] = way then [b, f] else [] := by
  by_cases ends : f.last = true
  · simp only [routed, completed_concat, unfinished_concat, if_pos ends, one, List.filter_append, List.flatten_append]
    by_cases same : isAccess [b, f] = way
    · simp [begun, same]
    · simp [begun, same]
  · simp [routed, begun, ends, one]

theorem routed_later (two : 2 ≤ (unfinished Flit.last stream).length) :
    routed way (stream ++ [f]) ++ begun way (unfinished Flit.last (stream ++ [f])) =
      routed way stream ++ begun way (unfinished Flit.last stream) ++
        if isAccess (unfinished Flit.last stream) = way then [f] else [] := by
  have kept := isAccess_append two [f]
  by_cases ends : f.last = true
  · simp only [routed, completed_concat, unfinished_concat, if_pos ends, List.filter_append, List.flatten_append]
    by_cases same : isAccess (unfinished Flit.last stream) = way
    · simp [begun, same, kept, two]
    · simp [begun, same, kept]
  · simp only [routed, completed_concat, unfinished_concat, if_neg ends]
    by_cases same : isAccess (unfinished Flit.last stream) = way
    · simp [begun, same, kept, two, Nat.le_succ_of_le two]
    · simp [begun, same, kept]

end

/-! One cycle from each of the three states. -/

def Event.ready (e : Event) (way : Bool) : Bool := if way then e.out_reg_ready else e.out_bypass_ready

def out_valid (d : DemuxState) (inp : DiiFlit) (way : Bool) : Bool :=
  if way then out_reg_valid d inp else out_bypass_valid d inp

theorem out_cycle (s : Log) (e : Event) (way : Bool) : (cycle s e).out way =
    s.out way ++ if out_valid s.demux e.inp way && e.ready way then [s.demux.buf] else [] := by
  cases way <;> rfl

section
variable {s : Log} {e : Event}

theorem idle_cycle (worm : s.demux.worm = false) (first : s.demux.first = false) :
    (cycle s e).entered = s.entered ++ (if e.inp.valid then [e.inp.flit] else []) ∧
      (∀ way, (cycle s e).out way = s.out way) ∧
      (cycle s e).demux = ⟨if e.inp.valid then e.inp.flit else s.demux.buf, false, e.inp.valid, s.demux.regaccess⟩ := by
  have ready : in_ready s.demux e.inp e.out_reg_ready e.out_bypass_ready = true := by
    simp [in_ready, active, worm, first]
  refine ⟨?_, fun way => ?_, ?_⟩
  · rw [cycle, DiiFlit.passed, ready, Bool.and_true]
  · rw [out_cycle]
    cases way <;> simp [out_valid, out_reg_valid, out_bypass_valid, worm, first]
  · simp [cycle, next, ready, active, worm, first]

theorem first_cycle (worm : s.demux.worm = false) (first : s.demux.first = true) :
    let access := in_is_regaccess e.inp
    let go := e.inp.valid && e.ready access
    (cycle s e).entered = s.entered ++ (if go then [e.inp.flit] else []) ∧
      (∀ way, (cycle s e).out way = s.out way ++ if go && access == way then [s.demux.buf] else []) ∧
      (cycle s e).demux = ⟨if go then e.inp.flit else s.demux.buf, go, !go, access⟩ := by
  have ready : in_ready s.demux e.inp e.out_reg_ready e.out_bypass_ready = e.ready (in_is_regaccess e.inp) := by
    simp [in_ready, active, worm, first, Event.ready]
  refine ⟨?_, fun way => ?_, ?_⟩
  · rw [cycle, DiiFlit.passed, ready]
  · rw [out_cycle]
    cases access : in_is_regaccess e.inp <;> cases way <;>
      simp [out_valid, out_reg_valid, out_bypass_valid, worm, first, access]
  · simp [cycle, next, ready, active, worm, first]

theorem worm_cycle (worm : s.demux.worm = true) (first : s.demux.first = false) :
    let access := s.demux.regaccess
    let ready := e.ready access
    (cycle s e).entered = s.entered ++ (if e.inp.valid && ready then [e.inp.flit] else []) ∧
      (∀ way, (cycle s e).out way =
        s.out way ++ if (e.inp.valid || s.demux.buf.last) && ready && access == way then [s.demux.buf] else []) ∧
      (cycle s e).demux = ⟨if e.inp.valid && ready then e.inp.flit else s.demux.buf, !(s.demux.buf.last && ready),
        e.inp.valid && ready && s.demux.buf.last, access⟩ := by
  have ready : in_ready s.demux e.inp e.out_reg_ready e.out_bypass_ready = e.ready s.demux.regaccess := by
    simp [in_ready, active, worm, first, Event.ready]
  refine ⟨?_, fun way => ?_, ?_⟩
  · rw [cycle, DiiFlit.passed, ready]
  · rw [out_cycle]
    cases given : e.inp.valid <;> cases access : s.demux.regaccess <;> cases way <;>
      simp [out_valid, out_reg_valid, out_bypass_valid, worm, first, access, given]
  · have leaves : (out_reg_valid s.demux e.inp && e.out_reg_ready || out_bypass_valid s.demux e.inp && e.out_bypass_ready) =
        ((e.inp.valid || s.demux.buf.last) && e.ready s.demux.regaccess) := by
      cases given : e.inp.valid <;> cases access : s.demux.regaccess <;>
        simp [out_reg_valid, out_bypass_valid, Event.ready, worm, first, access, given]
    simp only [cycle, next, ready, leaves, active, worm, first]
    cases s.demux.buf.last <;> simp

end

inductive Stage (d : DemuxState) (part : List Flit) : Prop
  | idle (worm : d.worm = false) (first : d.first = false) (boundary : part = [])
  | first (worm : d.worm = false) (first : d.first = true) (one : part = [d.buf])
  | last (worm : d.worm = true) (first : d.first = false) (last : d.buf.last = true) (boundary : part = [])
  | inner (worm : d.worm = true) (first : d.first = false) (more : d.buf.last = false) (two : 2 ≤ part.length)
    (kind : isAccess part = d.regaccess)

structure Inv (s : Log) : Prop where
  stage : Stage s.demux (unfinished Flit.last s.entered)
  ways : ∀ way, s.out way ++ held s.demux way = routed way s.entered ++ begun way (unfinished Flit.last s.entered)

theorem inv_reset {s : Log} (reset : AfterReset s) : Inv s where
  stage := .idle reset.worm reset.first (by rw [reset.entered]; rfl)
  ways way := by
    have empty : s.out way = [] := by cases way <;> simp [Log.out, reset.out_reg, reset.out_bypass]
    simp [empty, held, reset.worm, reset.entered, routed, begun]

section
variable {s : Log} {e : Event}

/-- The register is empty. -/
theorem Inv.cycle_idle (inv : Inv s) (two : TwoFlits (Demux.cycle s e).entered) (worm : s.demux.worm = false)
    (first : s.demux.first = false) (boundary : unfinished Flit.last s.entered = []) : Inv (Demux.cycle s e) := by
  obtain ⟨entered, out, demux⟩ := idle_cycle (e := e) worm first
  cases given : e.inp.valid with
  | false =>
    simp only [given, Bool.false_eq_true, if_false, List.append_nil] at entered demux
    refine ⟨.idle (by rw [demux]) (by rw [demux]) (by rw [entered, boundary]), fun way => ?_⟩
    have kept := inv.ways way
    rw [held, worm, Bool.false_and, if_neg Bool.false_ne_true] at kept
    rw [out, entered, held, demux, Bool.false_and, if_neg Bool.false_ne_true, kept]
  | true =>
    simp only [given, if_true] at entered demux
    rw [entered] at two
    have more := two.started boundary
    refine ⟨.first (by rw [demux]) (by rw [demux]) (by rw [entered, demux]; simp [more, boundary]), fun way => ?_⟩
    have kept := inv.ways way
    rw [held, worm, Bool.false_and, if_neg Bool.false_ne_true] at kept
    rw [out, entered, held, demux, Bool.false_and, if_neg Bool.false_ne_true, kept, routed_first way boundary more]

/-- The register holds the first flit of a packet. -/
theorem Inv.cycle_first (inv : Inv s) (worm : s.demux.worm = false) (first : s.demux.first = true)
    (one : unfinished Flit.last s.entered = [s.demux.buf]) : Inv (Demux.cycle s e) := by
  obtain ⟨entered, out, demux⟩ := first_cycle (e := e) worm first
  -- the first flit is held for no way yet
  have kept (way : Bool) : s.out way = routed way s.entered := by
    have kept := inv.ways way
    rw [held, worm, Bool.false_and, if_neg Bool.false_ne_true, one] at kept
    simpa [begun] using kept
  cases go : e.inp.valid && e.ready (in_is_regaccess e.inp) with
  | false =>
    simp only [go, Bool.false_and, Bool.false_eq_true, if_false, List.append_nil] at entered out demux
    refine ⟨.first (by rw [demux]) (by rw [demux]; rfl) (by rw [entered, demux, one]), fun way => ?_⟩
    rw [out, entered, held, demux, Bool.false_and, if_neg Bool.false_ne_true, kept way, one]
    simp [begun]
  | true =>
    simp only [go, Bool.true_and, if_true] at entered out demux
    -- the type is in the second flit
    have kind : isAccess [s.demux.buf, e.inp.flit] = in_is_regaccess e.inp := rfl
    constructor
    · cases ends : e.inp.flit.last with
      | true => exact .last (by rw [demux]) (by rw [demux]; rfl) (by rw [demux, ends]) (by rw [entered]; simp [ends])
      | false =>
        have part : unfinished Flit.last (Demux.cycle s e).entered = [s.demux.buf, e.inp.flit] := by
          rw [entered]
          simp [ends, one]
        exact .inner (by rw [demux]) (by rw [demux]; rfl) (by rw [demux, ends]) (by rw [part]; exact Nat.le_refl 2)
          (by rw [part, demux, kind])
    · intro way
      rw [out, entered, routed_second way one, kind, held, demux, kept way]
      by_cases same : in_is_regaccess e.inp = way
      · simp [same]
      · simp [same]

/-- The register holds the last flit of a packet. -/
theorem Inv.cycle_last (inv : Inv s) (two : TwoFlits (Demux.cycle s e).entered) (worm : s.demux.worm = true)
    (first : s.demux.first = false) (last : s.demux.buf.last = true) (boundary : unfinished Flit.last s.entered = []) :
    Inv (Demux.cycle s e) := by
  obtain ⟨entered, out, demux⟩ := worm_cycle (e := e) worm first
  have kept (way : Bool) : s.out way ++ (if s.demux.regaccess == way then [s.demux.buf] else []) =
      routed way s.entered ++ begun way (unfinished Flit.last s.entered) := by
    rw [← inv.ways way, held, worm, Bool.true_and]
  simp only [last, Bool.or_true, Bool.true_and, Bool.and_true] at entered out demux
  cases ready : e.ready s.demux.regaccess with
  | false =>
    simp only [ready, Bool.and_false, Bool.false_and, Bool.false_eq_true, if_false, List.append_nil, Bool.not_false]
      at entered out demux
    refine ⟨.last (by rw [demux]) (by rw [demux]) (by rw [demux, last]) (by rw [entered, boundary]), fun way => ?_⟩
    rw [out, entered, held, demux, Bool.true_and, kept way]
  | true =>
    simp only [ready, Bool.and_true, Bool.true_and, Bool.not_true] at entered out demux
    cases given : e.inp.valid with
    | false =>
      simp only [given, Bool.false_eq_true, if_false, List.append_nil] at entered demux
      refine ⟨.idle (by rw [demux]) (by rw [demux]) (by rw [entered, boundary]), fun way => ?_⟩
      rw [out, entered, held, demux, Bool.false_and, if_neg Bool.false_ne_true, List.append_nil, kept way]
    | true =>
      simp only [given, if_true] at entered demux
      rw [entered] at two
      have more := two.started boundary
      refine ⟨.first (by rw [demux]) (by rw [demux]) (by rw [entered, demux]; simp [more, boundary]), fun way => ?_⟩
      rw [out, entered, routed_first way boundary more, held, demux, Bool.false_and, if_neg Bool.false_ne_true,
        List.append_nil, kept way]

/-- The register holds a flit inside a packet whose way is known. -/
theorem Inv.cycle_inner (inv : Inv s) (worm : s.demux.worm = true) (first : s.demux.first = false)
    (more : s.demux.buf.last = false) (two' : 2 ≤ (unfinished Flit.last s.entered).length)
    (kind : isAccess (unfinished Flit.last s.entered) = s.demux.regaccess) : Inv (Demux.cycle s e) := by
  obtain ⟨entered, out, demux⟩ := worm_cycle (e := e) worm first
  have kept (way : Bool) : s.out way ++ (if s.demux.regaccess == way then [s.demux.buf] else []) =
      routed way s.entered ++ begun way (unfinished Flit.last s.entered) := by
    rw [← inv.ways way, held, worm, Bool.true_and]
  simp only [more, Bool.or_false, Bool.false_and, Bool.and_false, Bool.not_false] at entered out demux
  cases go : e.inp.valid && e.ready s.demux.regaccess with
  | false =>
    simp only [go, Bool.false_and, Bool.false_eq_true, if_false, List.append_nil] at entered out demux
    refine ⟨.inner (by rw [demux]) (by rw [demux]) (by rw [demux, more]) (by rw [entered]; exact two')
      (by rw [entered, demux, kind]), fun way => ?_⟩
    rw [out, entered, held, demux, Bool.true_and, kept way]
  | true =>
    simp only [go, Bool.true_and, if_true] at entered out demux
    constructor
    · cases ends : e.inp.flit.last with
      | true => exact .last (by rw [demux]) (by rw [demux]) (by rw [demux, ends]) (by rw [entered]; simp [ends])
      | false =>
        have part : unfinished Flit.last (Demux.cycle s e).entered =
            unfinished Flit.last s.entered ++ [e.inp.flit] := by
          rw [entered]
          simp [ends]
        refine .inner (by rw [demux]) (by rw [demux]) (by rw [demux, ends]) ?_ ?_
        · rw [part, List.length_append]
          exact Nat.le_add_right_of_le two'
        · rw [part, isAccess_append two', demux, kind]
    · intro way
      rw [out, entered, routed_later way two', ← kept way, held, demux, kind, Bool.true_and]
      by_cases same : s.demux.regaccess = way
      · simp [same]
      · simp [same]

theorem Inv.cycle (inv : Inv s) (two : TwoFlits (cycle s e).entered) : Inv (cycle s e) := by
  cases inv.stage with
  | idle worm first boundary => exact inv.cycle_idle two worm first boundary
  | first worm first one => exact inv.cycle_first worm first one
  | last worm first last boundary => exact inv.cycle_last two worm first last boundary
  | inner worm first more two' kind => exact inv.cycle_inner worm first more two' kind

end

theorem entered_mono (s : Log) (es : List Event) : s.entered <+: (run s es).entered := by
  induction es generalizing s with
  | nil => exact List.prefix_refl _
  | cons e es ih => exact (List.prefix_append _ _).trans (ih (cycle s e))

theorem TwoFlits.mono {first second : List Flit} (two : TwoFlits second) (before : first <+: second) :
    TwoFlits first := fun packet ended => two packet ((completed_mono Flit.last before).subset ended)

theorem Inv.run {s : Log} (inv : Inv s) {es : List Event} (two : TwoFlits (run s es).entered) : Inv (run s es) := by
  induction es generalizing s with
  | nil => exact inv
  | cons e es ih => exact ih (inv.cycle (two.mono (entered_mono _ es))) two

theorem Inv.drained {s : Log} (inv : Inv s) (boundary : unfinished Flit.last s.entered = []) {e : Event}
    (silent : e.inp.valid = false) (reg : e.out_reg_ready = true) (bypass : e.out_bypass_ready = true) :
    (Demux.cycle s e).entered = s.entered ∧ ∀ way, (Demux.cycle s e).out way = routed way s.entered := by
  have ways := inv.ways
  have ready (way : Bool) : e.ready way = true := by cases way <;> simp [Event.ready, reg, bypass]
  have none' (way : Bool) : begun way (unfinished Flit.last s.entered) = [] := by simp [begun, boundary]
  cases inv.stage with
  | idle worm first =>
    obtain ⟨entered, out, -⟩ := idle_cycle (e := e) worm first
    refine ⟨by rw [entered, silent]; simp, fun way => ?_⟩
    have kept := ways way
    rw [held, worm, Bool.false_and, if_neg Bool.false_ne_true, none', List.append_nil, List.append_nil] at kept
    rw [out, kept]
  | first worm first one =>
    rw [boundary] at one
    cases one
  | last worm first last =>
    obtain ⟨entered, out, -⟩ := worm_cycle (e := e) worm first
    refine ⟨by rw [entered, silent]; simp, fun way => ?_⟩
    have kept := ways way
    rw [held, worm, Bool.true_and, none', List.append_nil] at kept
    rw [out, ready, last, Bool.or_true, Bool.true_and, Bool.true_and, kept]
  | inner worm first more two' =>
    rw [boundary] at two'
    cases two'

def started : Log := ⟨⟨⟨true, 0⟩, false, false, true⟩, [], [], []⟩

/-- A packet for the module and a register access, with a stall in between. -/
def twoPackets : List Event :=
  [⟨.ofFlit ⟨false, 1⟩, true, true⟩, ⟨.ofFlit ⟨true, 0x4002⟩, true, false⟩, ⟨.ofFlit ⟨true, 0x4002⟩, false, true⟩,
    ⟨.ofFlit ⟨false, 3⟩, true, true⟩, ⟨.ofFlit ⟨true, 4⟩, true, true⟩]

end LowRisc.Debug.Demux
