import LowRisc.Lib.Transition
import LowRisc.Socip.NastiRouting

/-! The NASTI demultiplexer: one master reaches eight slave ports by address.

A beat of an address channel is its address and a payload. The parts of a beat that the
demultiplexer only copies stay in the payload.
-/

set_option autoImplicit false

namespace LowRisc.Socip

open LowRisc.Lib

/-- `LITE_MODE`, `ESCAPE_ENABLE` and the map. -/
structure DemuxParams (k : Nat) where
  lite : Bool
  escape : Bool
  base : Nat → BitVec k
  mask : Nat → BitVec k

structure RoutedBeat (k : Nat) (P : Type) where
  addr : BitVec k
  payload : P
  deriving DecidableEq, Repr

structure DemuxRegs where
  lock : Bool
  locked_port : Nat
  b_arb : ArbiterRr
  r_arb : ArbiterRr

/-- The inputs of one cycle: the beats the master offers and its ready signals, then those of
the slave ports. -/
structure DemuxInput (k : Nat) (P : Type) where
  aw : Option (RoutedBeat k P)
  w : Option (DataBeat P)
  ar : Option (RoutedBeat k P)
  b_ready : Bool
  r_ready : Bool
  aw_ready : Nat → Bool
  w_ready : Nat → Bool
  ar_ready : Nat → Bool
  b : Nat → Option P
  r : Nat → Option (DataBeat P)

namespace NastiDemux

open NastiMux (lowest lowest_spec)

variable {k : Nat} {P : Type}

/-- The range of port `i` holds the address. -/
def holds (p : DemuxParams k) (i : Nat) (addr : BitVec k) : Bool :=
  p.mask i != 0 && addr &&& ~~~p.mask i == p.base i

def port_match (p : DemuxParams k) (addr : BitVec k) : Nat := lowest 8 fun i => holds p i addr

def port_enable (p : DemuxParams k) (i : Nat) : Bool := p.mask i != 0 || (i == 0 && p.escape)

def aw_port_sel (p : DemuxParams k) (m : DemuxRegs) (addr : BitVec k) : Nat :=
  if m.lock then m.locked_port else port_match p addr

/-! The request channels. A beat that port `i` sees is `some`. -/

def slaveAw (p : DemuxParams k) (m : DemuxRegs) (e : DemuxInput k P) (i : Nat) : Option (RoutedBeat k P) :=
  e.aw.filter fun x => port_enable p i && !m.lock && aw_port_sel p m x.addr == i

/-- While a burst is open the selection is the locked port, whatever the address. -/
def slaveW (p : DemuxParams k) (m : DemuxRegs) (e : DemuxInput k P) (i : Nat) : Option (DataBeat P) :=
  e.w.filter fun _ => port_enable p i && m.lock && m.locked_port == i

def slaveAr (p : DemuxParams k) (e : DemuxInput k P) (i : Nat) : Option (RoutedBeat k P) :=
  e.ar.filter fun x => port_enable p i && port_match p x.addr == i

def awTaken (p : DemuxParams k) (m : DemuxRegs) (e : DemuxInput k P) : Option (RoutedBeat k P) :=
  e.aw.filter fun x => !m.lock && e.aw_ready (aw_port_sel p m x.addr)

def wTaken (m : DemuxRegs) (e : DemuxInput k P) : Option (DataBeat P) :=
  e.w.filter fun _ => m.lock && e.w_ready m.locked_port

def arTaken (p : DemuxParams k) (e : DemuxInput k P) : Option (RoutedBeat k P) :=
  e.ar.filter fun x => e.ar_ready (port_match p x.addr)

/-! A response channel; the write responses and the read data go through equal code. -/

section
variable {Q : Type}

/-- `b_valid`, `r_valid`. -/
def offers (p : DemuxParams k) (beats : Nat → Option Q) (i : Nat) : Bool := port_enable p i && (beats i).isSome

def respGnt (p : DemuxParams k) (arb : ArbiterRr) (beats : Nat → Option Q) : Nat → Bool :=
  arb.gnt 8 (offers p beats) true

/-- `b_port_sel`, `r_port_sel`. -/
def respSel (p : DemuxParams k) (arb : ArbiterRr) (beats : Nat → Option Q) : Nat :=
  lowest 8 (respGnt p arb beats)

/-- The beat the master sees. -/
def masterResp (p : DemuxParams k) (arb : ArbiterRr) (beats : Nat → Option Q) : Option Q :=
  beats (respSel p arb beats)

/-- The beat that port `i` sees accepted. -/
def respTaken (p : DemuxParams k) (arb : ArbiterRr) (beats : Nat → Option Q) (ready : Bool) (i : Nat) : Option Q :=
  (beats i).filter fun _ => ready && respGnt p arb beats i

end

def endsBurst (p : DemuxParams k) (x : DataBeat P) : Bool := p.lite || x.last

def next (p : DemuxParams k) (m : DemuxRegs) (e : DemuxInput k P) : DemuxRegs where
  lock :=
    if (awTaken p m e).isSome then true
    else if (wTaken m e).any (endsBurst p) then false
    else m.lock
  locked_port :=
    match awTaken p m e with
    | some x => aw_port_sel p m x.addr
    | none => m.locked_port
  b_arb := m.b_arb.next 8 (offers p e.b) true
  r_arb := m.r_arb.next 8 (offers p e.r) true

def onReset : DemuxRegs := ⟨false, 0, .onReset, .onReset⟩

/-! What each side has seen, beside the registers. -/

/-- `sent` are the beats the master saw accepted, `seen i` the beats port `i` accepted. -/
structure Passed (Q : Type) where
  sent : List Q
  seen : Nat → List Q

/-- One response channel: what the ports gave, what the master got, and the offers of the last
cycle that were not taken. -/
structure Answered (Q : Type) where
  given : Nat → List Q
  got : List Q
  held : Nat → Option Q
  waits : Option Q

structure DemuxSystem (k : Nat) (P : Type) where
  regs : DemuxRegs
  aw : Passed (RoutedBeat k P)
  w : Passed (DataBeat P)
  ar : Passed (RoutedBeat k P)
  b : Answered P
  r : Answered (DataBeat P)

def Passed.log {Q : Type} (h : Passed Q) (sent : Option Q) (seen : Nat → Option Q) : Passed Q where
  sent := h.sent ++ sent.toList
  seen := fun i => h.seen i ++ (seen i).toList

def Answered.log {Q : Type} (h : Answered Q) (p : DemuxParams k) (arb : ArbiterRr) (beats : Nat → Option Q)
    (ready : Bool) : Answered Q where
  given := fun i => h.given i ++ (respTaken p arb beats ready i).toList
  got := h.got ++ ((masterResp p arb beats).filter fun _ => ready).toList
  held := fun i => if (respTaken p arb beats ready i).isSome then none else beats i
  waits := (masterResp p arb beats).filter fun _ => !ready

def cycle (p : DemuxParams k) (s : DemuxSystem k P) (e : DemuxInput k P) : DemuxSystem k P where
  regs := next p s.regs e
  aw := s.aw.log (awTaken p s.regs e) fun i => (slaveAw p s.regs e i).filter fun _ => e.aw_ready i
  w := s.w.log (wTaken s.regs e) fun i => (slaveW p s.regs e i).filter fun _ => e.w_ready i
  ar := s.ar.log (arTaken p e) fun i => (slaveAr p e i).filter fun _ => e.ar_ready i
  b := s.b.log p s.regs.b_arb e.b e.b_ready
  r := s.r.log p s.regs.r_arb e.r e.r_ready

def clock (p : DemuxParams k) (s : DemuxSystem k P) (e : DemuxInput k P) : Option (DemuxSystem k P) :=
  some (cycle p s e)

/-- Slaves that keep the protocol: an offer stays until it is taken, a write response answers a
burst that the port received in full, and read data answer an address that it received. -/
structure Legal (p : DemuxParams k) (s : DemuxSystem k P) (e : DemuxInput k P) : Prop where
  b_stays : ∀ i < 8, ∀ x, s.b.held i = some x → e.b i = some x
  r_stays : ∀ i < 8, ∀ x, s.r.held i = some x → e.r i = some x
  b_answers : ∀ i < 8, (e.b i).isSome → (s.b.given i).length < (s.w.seen i).countP (endsBurst p)
  r_answers : ∀ i < 8, (e.r i).isSome → (s.r.given i).countP (endsBurst p) < (s.ar.seen i).length

def Starts (s : DemuxSystem k P) : Prop :=
  s.regs = onReset ∧ s.aw = ⟨[], fun _ => []⟩ ∧ s.w = ⟨[], fun _ => []⟩ ∧ s.ar = ⟨[], fun _ => []⟩ ∧
  s.b = ⟨fun _ => [], [], fun _ => none, none⟩ ∧ s.r = ⟨fun _ => [], [], fun _ => none, none⟩

/-! The specification. -/

/-- No two ranges share an address. -/
def Disjoint (p : DemuxParams k) : Prop :=
  ∀ i < 8, ∀ j < 8, ∀ addr, holds p i addr = true → holds p j addr = true → i = j

/-- The beats up to the first that ends its burst, and the beats behind it. -/
def splitBurst (ends : DataBeat P → Bool) : List (DataBeat P) → List (DataBeat P) × List (DataBeat P)
  | [] => ([], [])
  | x :: rest => if ends x then ([x], rest) else ((x :: (splitBurst ends rest).1), (splitBurst ends rest).2)

/-- The bursts for port `i`, when the bursts in the stream belong to the ports in turn. -/
def burstsFor (ends : DataBeat P → Bool) : List (Option Nat) → List (DataBeat P) → Nat → List (DataBeat P)
  | [], _, _ => []
  | port :: ports, beats, i =>
    (if port = some i then (splitBurst ends beats).1 else [])
      ++ burstsFor ends ports (splitBurst ends beats).2 i

def reached (p : DemuxParams k) (addr : BitVec k) : Option Nat :=
  if port_enable p (port_match p addr) then some (port_match p addr) else none

/-- The master's stream of responses interleaves the streams of the ports. -/
def Interleaves {Q : Type} (got : List Q) (given : Nat → List Q) : Prop :=
  ∃ tagged : List (Nat × Q), tagged.map Prod.snd = got ∧
    (∀ t ∈ tagged, t.1 < 8) ∧
    ∀ i < 8, (tagged.filter fun t => t.1 == i).map Prod.snd = given i

/-- What the two sides have seen agrees. -/
structure Intact (p : DemuxParams k) (s : DemuxSystem k P) : Prop where
  aw : ∀ i < 8, s.aw.seen i = s.aw.sent.filter fun x => reached p x.addr == some i
  ar : ∀ i < 8, s.ar.seen i = s.ar.sent.filter fun x => reached p x.addr == some i
  w : ∀ i < 8, s.w.seen i =
    burstsFor (endsBurst p) (s.aw.sent.map fun x => reached p x.addr) s.w.sent i
  b : Interleaves s.b.got s.b.given
  r : Interleaves s.r.got s.r.given

/-- What the two sides see in one cycle agrees: an address goes to the port that holds it, an
offered response is passed on, and a response that waits is seen again unchanged. -/
structure Faithful (p : DemuxParams k) (s : DemuxSystem k P) (e : DemuxInput k P) : Prop where
  aw : ∀ x, e.aw = some x → ∀ i < 8, holds p i x.addr = true →
    ∀ j < 8, slaveAw p s.regs e j = if j = i ∧ s.regs.lock = false then some x else none
  ar : ∀ x, e.ar = some x → ∀ i < 8, holds p i x.addr = true →
    ∀ j < 8, slaveAr p e j = if j = i then some x else none
  b_offered : (∃ i < 8, (e.b i).isSome) → (masterResp p s.regs.b_arb e.b).isSome
  r_offered : (∃ i < 8, (e.r i).isSome) → (masterResp p s.regs.r_arb e.r).isSome
  b_stable : ∀ x, s.b.waits = some x → masterResp p s.regs.b_arb e.b = some x
  r_stable : ∀ x, s.r.waits = some x → masterResp p s.regs.r_arb e.r = some x

/-! Routing of the addresses. -/

section
variable {p : DemuxParams k}

theorem port_match_of_holds (map : Disjoint p) {i : Nat} (bound : i < 8) {addr : BitVec k}
    (inside : holds p i addr = true) : port_match p addr = i := by
  obtain ⟨below, hit, _⟩ := lowest_spec (x := fun i => holds p i addr) bound inside
  exact map _ below i bound addr hit inside

theorem enable_of_holds {i : Nat} {addr : BitVec k} (inside : holds p i addr = true) :
    port_enable p i = true := by
  simp only [holds, Bool.and_eq_true] at inside
  simp only [port_enable, inside.1, Bool.true_or]

theorem reached_of_holds (map : Disjoint p) {i : Nat} (bound : i < 8) {addr : BitVec k}
    (inside : holds p i addr = true) : reached p addr = some i := by
  rw [reached, port_match_of_holds map bound inside, enable_of_holds inside]
  rfl

theorem reached_eq_some {addr : BitVec k} {i : Nat} :
    reached p addr = some i ↔ port_enable p i = true ∧ port_match p addr = i := by
  unfold reached
  split
  · rename_i enabled
    constructor
    · intro same
      cases Option.some.inj same
      exact ⟨enabled, rfl⟩
    · rintro ⟨_, rfl⟩
      rfl
  · rename_i disabled
    constructor
    · intro same
      cases same
    · rintro ⟨enabled, rfl⟩
      exact absurd enabled disabled

theorem slaveAw_of_holds (map : Disjoint p) {m : DemuxRegs} {e : DemuxInput k P} {x : RoutedBeat k P}
    (offered : e.aw = some x) {i : Nat} (bound : i < 8) (inside : holds p i x.addr = true) (j : Nat) :
    slaveAw p m e j = if j = i ∧ m.lock = false then some x else none := by
  rw [slaveAw, offered, Option.filter_some]
  by_cases same : j = i
  · subst same
    cases lock : m.lock <;> simp [aw_port_sel, lock, port_match_of_holds map bound inside, enable_of_holds inside]
  · cases lock : m.lock <;> simp [aw_port_sel, lock, port_match_of_holds map bound inside, same, Ne.symm same]

theorem slaveAr_of_holds (map : Disjoint p) {e : DemuxInput k P} {x : RoutedBeat k P}
    (offered : e.ar = some x) {i : Nat} (bound : i < 8) (inside : holds p i x.addr = true) (j : Nat) :
    slaveAr p e j = if j = i then some x else none := by
  rw [slaveAr, offered, Option.filter_some]
  by_cases same : j = i
  · subst same
    simp [port_match_of_holds map bound inside, enable_of_holds inside]
  · simp [port_match_of_holds map bound inside, same, Ne.symm same]

end

/-! The stream of write data against the order of the addresses. -/

section
variable {ends : DataBeat P → Bool}

theorem splitBurst_of_none {beats : List (DataBeat P)} (none' : beats.countP ends = 0) :
    splitBurst ends beats = (beats, []) := by
  induction beats with
  | nil => rfl
  | cons x rest ih =>
    rw [List.countP_eq_zero] at none'
    have stays : ends x = false := by simpa using none' x (by simp)
    have ih' := ih (List.countP_eq_zero.mpr fun y member => none' y (by simp [member]))
    simp [splitBurst, stays, ih']

theorem countP_splitBurst {beats : List (DataBeat P)} {n : Nat} (more : beats.countP ends = n + 1) :
    (splitBurst ends beats).2.countP ends = n := by
  induction beats with
  | nil => cases more
  | cons x rest ih =>
    cases last : ends x
    · rw [List.countP_cons_of_neg (by simp [last])] at more
      simpa [splitBurst, last] using ih more
    · rw [List.countP_cons_of_pos last] at more
      simpa [splitBurst, last] using more

theorem splitBurst_append {beats : List (DataBeat P)} {n : Nat} (more : beats.countP ends = n + 1)
    (x : DataBeat P) :
    splitBurst ends (beats ++ [x]) = ((splitBurst ends beats).1, (splitBurst ends beats).2 ++ [x]) := by
  induction beats with
  | nil => cases more
  | cons y rest ih =>
    cases last : ends y
    · rw [List.countP_cons_of_neg (by simp [last])] at more
      simp [splitBurst, last, ih more]
    · simp [splitBurst, last]

/-- A stream that does not stop inside a burst. -/
def Whole (ends : DataBeat P → Bool) (beats : List (DataBeat P)) : Prop :=
  ∀ x, beats.getLast? = some x → ends x = true

theorem Whole.splitBurst {beats : List (DataBeat P)} (whole : Whole ends beats) :
    Whole ends (splitBurst ends beats).2 := by
  induction beats with
  | nil => exact whole
  | cons y rest ih =>
    have tail : Whole ends rest := fun x found => whole x (by
      rw [List.getLast?_cons, found]
      rfl)
    cases last : ends y
    · simpa [NastiDemux.splitBurst, last] using ih tail
    · simpa [NastiDemux.splitBurst, last] using tail

theorem Whole.eq_nil {beats : List (DataBeat P)} (whole : Whole ends beats) (none' : beats.countP ends = 0) :
    beats = [] := by
  rw [← List.getLast?_eq_none_iff]
  cases found : beats.getLast? with
  | none => rfl
  | some x =>
    have member := List.mem_of_getLast? found
    exact absurd (whole x found) (List.countP_eq_zero.mp none' x member)

theorem burstsFor_append_port {ports : List (Option Nat)} {beats : List (DataBeat P)} (port : Option Nat)
    (closed : beats.countP ends = ports.length) (whole : Whole ends beats) (i : Nat) :
    burstsFor ends (ports ++ [port]) beats i = burstsFor ends ports beats i := by
  induction ports generalizing beats with
  | nil =>
    rw [whole.eq_nil closed]
    simp [burstsFor, splitBurst]
  | cons q rest ih =>
    have fewer := countP_splitBurst closed
    simp only [List.cons_append, burstsFor, ih fewer whole.splitBurst]

theorem burstsFor_append_beat {front : List (Option Nat)} {beats : List (DataBeat P)} (port : Option Nat)
    (open' : beats.countP ends = front.length) (x : DataBeat P) (i : Nat) :
    burstsFor ends (front ++ [port]) (beats ++ [x]) i =
      burstsFor ends (front ++ [port]) beats i ++ if port = some i then [x] else [] := by
  induction front generalizing beats with
  | nil =>
    have whole := splitBurst_of_none open'
    have first : (splitBurst ends (beats ++ [x])).1 = beats ++ [x] := by
      clear whole
      induction beats with
      | nil => cases last : ends x <;> simp [splitBurst, last]
      | cons y rest ih =>
        have none' := List.countP_eq_zero.mp open'
        have stays : ends y = false := by simpa using none' y (by simp)
        have ih' := ih (List.countP_eq_zero.mpr fun z member => none' z (by simp [member]))
        simp [splitBurst, stays, ih']
    simp only [List.nil_append, burstsFor, first, whole, List.append_nil]
    split <;> simp
  | cons q rest ih =>
    have fewer := countP_splitBurst open'
    simp only [List.cons_append, burstsFor, splitBurst_append open', ih fewer, List.append_assoc]

end

/-! One response channel. -/

section
variable {Q : Type} {p : DemuxParams k} {arb : ArbiterRr} {beats : Nat → Option Q} {q : Nat}

theorem respSel_eq {g : Nat} (grant : ArbiterRr.OneHot 8 (respGnt p arb beats) g) : respSel p arb beats = g := by
  obtain ⟨below, hit, _⟩ := lowest_spec grant.1 grant.up
  exact grant.eq below hit

/-- Either no port offers a beat, or the master sees the beat of the granted port. -/
theorem resp_cases (hot : ArbiterRr.OneHot 8 arb.p q)
    (enabled : ∀ i < 8, (beats i).isSome → port_enable p i = true) :
    (masterResp p arb beats = none ∧ ∀ i < 8, beats i = none) ∨
      ∃ g x, ArbiterRr.OneHot 8 (respGnt p arb beats) g ∧ beats g = some x ∧ masterResp p arb beats = some x := by
  rcases ArbiterRr.gnt_spec (offers p beats) hot with ⟨idle, down⟩ | ⟨g, grant, wants⟩
  · have silent : ∀ i < 8, beats i = none := fun i bound => by
      have off := ArbiterRr.orReduce_eq_false.mp idle i bound
      by_contra some'
      have up := Option.isSome_iff_ne_none.mpr some'
      rw [offers, enabled i bound up, up] at off
      cases off
    have below : respSel p arb beats < 8 := by
      rw [respSel, lowest]
      cases found : (List.range 8).find? (respGnt p arb beats) with
      | none => decide
      | some i => exact List.mem_range.mp (List.mem_of_find?_eq_some found)
    exact .inl ⟨silent _ below, silent⟩
  · simp only [offers, Bool.and_eq_true, Option.isSome_iff_exists] at wants
    obtain ⟨_, x, offered⟩ := wants
    exact .inr ⟨g, x, grant, offered, by rw [masterResp, respSel_eq grant, offered]⟩

structure Channel (p : DemuxParams k) (arb : ArbiterRr) (h : Answered Q) : Prop where
  pointer : ∃ q, ArbiterRr.OneHot 8 arb.p q
  interleaves : Interleaves h.got h.given
  -- a response that waits is held by a port that the arbiter will grant again
  waits : ∀ x, h.waits = some x → ∃ g < 8, h.held g = some x ∧
    ∀ beats : Nat → Option Q, offers p beats g = true → ArbiterRr.OneHot 8 (respGnt p arb beats) g

theorem interleaves_of_none {h : Answered Q} {ready : Bool} (before : Interleaves h.got h.given)
    (silent : masterResp p arb beats = none) (none' : ∀ i < 8, beats i = none) :
    Interleaves (h.log p arb beats ready).got (h.log p arb beats ready).given := by
  obtain ⟨tagged, same, bounds, parts⟩ := before
  refine ⟨tagged, by simp [Answered.log, silent, same], bounds, fun i bound => ?_⟩
  simp [Answered.log, respTaken, none' i bound, parts i bound]

theorem interleaves_of_grant {h : Answered Q} {ready : Bool} (before : Interleaves h.got h.given) {g : Nat} {x : Q}
    (grant : ArbiterRr.OneHot 8 (respGnt p arb beats) g) (offered : beats g = some x)
    (shown : masterResp p arb beats = some x) :
    Interleaves (h.log p arb beats ready).got (h.log p arb beats ready).given := by
  obtain ⟨tagged, same, bounds, parts⟩ := before
  cases ready
  · refine ⟨tagged, by simp [Answered.log, shown, same], bounds, fun i bound => ?_⟩
    have untaken : respTaken p arb beats false i = none := by simp [respTaken]
    simp [Answered.log, untaken, parts i bound]
  · refine ⟨tagged ++ [(g, x)], by simp [Answered.log, shown, same, Option.filter_some], ?_, fun i bound => ?_⟩
    · intro t member
      rcases List.mem_append.mp member with old | new
      · exact bounds t old
      · cases List.mem_singleton.mp new
        exact grant.1
    · rw [List.filter_append, List.map_append, parts i bound]
      by_cases here : i = g
      · subst here
        simp [Answered.log, respTaken, offered, grant.up, Option.filter_some]
      · have down : respGnt p arb beats i = false := by
          rw [grant.2 i bound]
          simpa using here
        simp [Answered.log, respTaken, down, Ne.symm here]

theorem Channel.log {h : Answered Q} (inv : Channel p arb h) (ready : Bool)
    (enabled : ∀ i < 8, (beats i).isSome → port_enable p i = true) :
    Channel p (arb.next 8 (offers p beats) true) (h.log p arb beats ready) := by
  obtain ⟨q, hot⟩ := inv.pointer
  refine ⟨hot.next, ?_, fun x waits => ?_⟩
  · rcases resp_cases hot enabled with ⟨silent, none'⟩ | ⟨g, x, grant, offered, shown⟩
    · exact interleaves_of_none inv.interleaves silent none'
    · exact interleaves_of_grant inv.interleaves grant offered shown
  · rcases resp_cases hot enabled with ⟨silent, _⟩ | ⟨g, y, grant, offered, shown⟩
    · simp [Answered.log, silent] at waits
    · cases ready
      · have same : y = x := by simpa [Answered.log, shown] using waits
        subst same
        refine ⟨g, grant.1, by simp [Answered.log, respTaken, offered], fun beats' up => ?_⟩
        exact ArbiterRr.gnt_stable grant up
      · simp [Answered.log, shown] at waits

theorem Channel.stable {h : Answered Q} (inv : Channel p arb h)
    (stays : ∀ i < 8, ∀ x, h.held i = some x → beats i = some x)
    (enabled : ∀ i < 8, (beats i).isSome → port_enable p i = true) {x : Q} (waits : h.waits = some x) :
    masterResp p arb beats = some x := by
  obtain ⟨g, bound, held, again⟩ := inv.waits x waits
  have offered := stays g bound x held
  have up : offers p beats g = true := by
    rw [offers, enabled g bound (by rw [offered]; rfl), offered]
    rfl
  rw [masterResp, respSel_eq (again beats up), offered]

theorem Channel.offered {h : Answered Q} (inv : Channel p arb h)
    (enabled : ∀ i < 8, (beats i).isSome → port_enable p i = true) (some' : ∃ i < 8, (beats i).isSome) :
    (masterResp p arb beats).isSome := by
  obtain ⟨q, hot⟩ := inv.pointer
  rcases resp_cases hot enabled with ⟨_, none'⟩ | ⟨_, x, _, _, shown⟩
  · obtain ⟨i, bound, up⟩ := some'
    rw [none' i bound] at up
    cases up
  · rw [shown]
    rfl

end

/-! What holds along every run. -/

structure Kept (p : DemuxParams k) (s : DemuxSystem k P) : Prop where
  aw : ∀ i < 8, s.aw.seen i = s.aw.sent.filter fun x => reached p x.addr == some i
  ar : ∀ i < 8, s.ar.seen i = s.ar.sent.filter fun x => reached p x.addr == some i
  w : ∀ i < 8, s.w.seen i =
    burstsFor (endsBurst p) (s.aw.sent.map fun x => reached p x.addr) s.w.sent i
  quiet : ∀ i < 8, port_enable p i = false → s.w.seen i = [] ∧ s.ar.seen i = []
  unlocked : s.regs.lock = false →
    s.w.sent.countP (endsBurst p) = s.aw.sent.length ∧ Whole (endsBurst p) s.w.sent
  -- the last address has an open burst, and the locked port is where it went
  locked : s.regs.lock = true → ∃ front x, s.aw.sent = front ++ [x] ∧
    s.w.sent.countP (endsBurst p) = front.length ∧ port_match p x.addr = s.regs.locked_port
  b : Channel p s.regs.b_arb s.b
  r : Channel p s.regs.r_arb s.r

section
variable {p : DemuxParams k} {s : DemuxSystem k P} {e : DemuxInput k P}

theorem seen_aw (m : DemuxRegs) (e : DemuxInput k P) (i : Nat) :
    (slaveAw p m e i).filter (fun _ => e.aw_ready i) =
      (awTaken p m e).filter fun x => reached p x.addr == some i := by
  cases offered : e.aw with
  | none => simp [slaveAw, awTaken, offered]
  | some x =>
    cases lock : m.lock
    · by_cases here : port_match p x.addr = i
      · subst here
        cases enabled : port_enable p (port_match p x.addr) <;> cases ready : e.aw_ready (port_match p x.addr) <;>
          simp [slaveAw, awTaken, offered, lock, aw_port_sel, reached, enabled, ready, Option.filter_some]
      · have elsewhere : (reached p x.addr == some i) = false := by
          rw [beq_eq_false_iff_ne, ne_eq, reached_eq_some]
          exact fun both => here both.2
        cases ready : e.aw_ready (port_match p x.addr) <;>
          simp [slaveAw, awTaken, offered, lock, aw_port_sel, here, elsewhere, ready, Option.filter_some]
    · simp [slaveAw, awTaken, offered, lock, Option.filter_some]

theorem seen_ar (e : DemuxInput k P) (i : Nat) :
    (slaveAr p e i).filter (fun _ => e.ar_ready i) = (arTaken p e).filter fun x => reached p x.addr == some i := by
  cases offered : e.ar with
  | none => simp [slaveAr, arTaken, offered]
  | some x =>
    by_cases here : port_match p x.addr = i
    · subst here
      cases enabled : port_enable p (port_match p x.addr) <;> cases ready : e.ar_ready (port_match p x.addr) <;>
        simp [slaveAr, arTaken, offered, reached, enabled, ready, Option.filter_some]
    · have elsewhere : (reached p x.addr == some i) = false := by
        rw [beq_eq_false_iff_ne, ne_eq, reached_eq_some]
        exact fun both => here both.2
      cases ready : e.ar_ready (port_match p x.addr) <;>
        simp [slaveAr, arTaken, offered, here, elsewhere, ready, Option.filter_some]

theorem seen_w (m : DemuxRegs) (e : DemuxInput k P) (i : Nat) :
    (slaveW p m e i).filter (fun _ => e.w_ready i) =
      (wTaken m e).filter fun _ => port_enable p i && m.locked_port == i := by
  cases offered : e.w with
  | none => simp [slaveW, wTaken, offered]
  | some x =>
    cases lock : m.lock
    · simp [slaveW, wTaken, offered, lock, Option.filter_some]
    · by_cases here : m.locked_port = i
      · subst here
        cases enabled : port_enable p m.locked_port <;> cases ready : e.w_ready m.locked_port <;>
          simp [slaveW, wTaken, offered, lock, enabled, ready, Option.filter_some]
      · cases ready : e.w_ready m.locked_port <;>
          simp [slaveW, wTaken, offered, lock, here, ready, Option.filter_some]

theorem filter_append_toList {Q : Type} (sent : List Q) (taken : Option Q) (pick : Q → Bool) :
    (sent ++ taken.toList).filter pick = sent.filter pick ++ (taken.filter pick).toList := by
  rw [List.filter_append]
  cases taken with
  | none => rfl
  | some x => cases picked : pick x <;> simp [picked, Option.filter_some]

theorem wTaken_of_unlocked (lock : s.regs.lock = false) : wTaken s.regs e = none := by
  cases offered : e.w <;> simp [wTaken, offered, lock, Option.filter_some]

theorem awTaken_of_locked (lock : s.regs.lock = true) : awTaken p s.regs e = none := by
  cases offered : e.aw <;> simp [awTaken, offered, lock, Option.filter_some]

theorem Kept.enabled_b (inv : Kept p s) (legal : Legal p s e) (i : Nat) (bound : i < 8)
    (up : (e.b i).isSome) : port_enable p i = true := by
  by_contra off
  have none' := (inv.quiet i bound (by simpa using off)).1
  have some' := legal.b_answers i bound up
  rw [none'] at some'
  exact absurd some' (Nat.not_lt_zero _)

theorem Kept.enabled_r (inv : Kept p s) (legal : Legal p s e) (i : Nat) (bound : i < 8)
    (up : (e.r i).isSome) : port_enable p i = true := by
  by_contra off
  have none' := (inv.quiet i bound (by simpa using off)).2
  have some' := legal.r_answers i bound up
  rw [none'] at some'
  exact absurd some' (Nat.not_lt_zero _)

theorem Kept.w_cycle (inv : Kept p s) (i : Nat) (bound : i < 8) :
    (cycle p s e).w.seen i = burstsFor (endsBurst p)
      ((cycle p s e).aw.sent.map fun x => reached p x.addr) (cycle p s e).w.sent i := by
  show s.w.seen i ++ ((slaveW p s.regs e i).filter fun _ => e.w_ready i).toList =
    burstsFor (endsBurst p) ((s.aw.sent ++ (awTaken p s.regs e).toList).map fun x => reached p x.addr)
      (s.w.sent ++ (wTaken s.regs e).toList) i
  rw [seen_w, inv.w i bound]
  cases lock : s.regs.lock
  · obtain ⟨closed, whole⟩ := inv.unlocked lock
    rw [wTaken_of_unlocked lock]
    cases taken : awTaken p s.regs e with
    | none => simp
    | some x =>
      rw [Option.toList_some, List.map_append, List.map_singleton, Option.toList_none, List.append_nil,
        burstsFor_append_port _ (by rw [closed, List.length_map]) whole]
      simp
  · obtain ⟨front, x, same, open', port⟩ := inv.locked lock
    rw [awTaken_of_locked lock]
    cases taken : wTaken s.regs e with
    | none => simp
    | some y =>
      have shown : (reached p x.addr = some i) ↔ (port_enable p i && s.regs.locked_port == i) = true := by
        rw [reached_eq_some, port]
        simp
      rw [Option.toList_none, List.append_nil, Option.toList_some, same, List.map_append, List.map_singleton,
        burstsFor_append_beat _ (by rw [open', List.length_map]), Option.filter_some]
      congr 1
      by_cases here : reached p x.addr = some i
      · rw [if_pos here, if_pos (shown.mp here)]
        rfl
      · rw [if_neg here, if_neg fun both => here (shown.mpr both)]
        rfl

theorem Kept.unlocked_cycle (inv : Kept p s) (open' : (cycle p s e).regs.lock = false) :
    (cycle p s e).w.sent.countP (endsBurst p) = (cycle p s e).aw.sent.length ∧
      Whole (endsBurst p) (cycle p s e).w.sent := by
  have nextLock : (next p s.regs e).lock = false := open'
  show (s.w.sent ++ (wTaken s.regs e).toList).countP (endsBurst p)
    = (s.aw.sent ++ (awTaken p s.regs e).toList).length ∧ Whole (endsBurst p) (s.w.sent ++ (wTaken s.regs e).toList)
  cases lock : s.regs.lock
  · have none' : awTaken p s.regs e = none := by
      cases taken : awTaken p s.regs e with
      | none => rfl
      | some x => simp [next, taken] at nextLock
    rw [wTaken_of_unlocked lock, none']
    simpa using inv.unlocked lock
  · obtain ⟨front, x, same, count, _⟩ := inv.locked lock
    have none' := awTaken_of_locked (p := p) (e := e) lock
    cases taken : wTaken s.regs e with
    | none => simp [next, none', taken, lock] at nextLock
    | some y =>
      have ends : endsBurst p y = true := by
        by_contra stays
        simp [next, none', taken, lock, stays] at nextLock
      rw [none', same]
      refine ⟨by simp [count, ends], fun z found => ?_⟩
      have last : y = z := by simpa using found
      exact last ▸ ends

theorem Kept.locked_cycle (inv : Kept p s) (closed : (cycle p s e).regs.lock = true) :
    ∃ front x, (cycle p s e).aw.sent = front ++ [x] ∧
      (cycle p s e).w.sent.countP (endsBurst p) = front.length ∧
      port_match p x.addr = (cycle p s e).regs.locked_port := by
  have nextLock : (next p s.regs e).lock = true := closed
  show ∃ front x, s.aw.sent ++ (awTaken p s.regs e).toList = front ++ [x] ∧
    (s.w.sent ++ (wTaken s.regs e).toList).countP (endsBurst p) = front.length ∧
    port_match p x.addr = (next p s.regs e).locked_port
  cases lock : s.regs.lock
  · obtain ⟨count, _⟩ := inv.unlocked lock
    have none' := wTaken_of_unlocked (e := e) lock
    cases taken : awTaken p s.regs e with
    | none => simp [next, taken, none', lock] at nextLock
    | some x =>
      refine ⟨s.aw.sent, x, rfl, by rw [none']; simpa using count, ?_⟩
      simp [next, taken, aw_port_sel, lock]
  · obtain ⟨front, x, same, count, port⟩ := inv.locked lock
    have none' := awTaken_of_locked (p := p) (e := e) lock
    refine ⟨front, x, by simp [none', same], ?_, by simpa [next, none'] using port⟩
    cases taken : wTaken s.regs e with
    | none => simpa using count
    | some y =>
      have stays : endsBurst p y = false := by
        by_contra ends
        simp [next, none', taken, ends] at nextLock
      simp [count, stays]

theorem Kept.cycle (inv : Kept p s) (legal : Legal p s e) : Kept p (NastiDemux.cycle p s e) where
  aw := fun i bound => by
    show s.aw.seen i ++ ((slaveAw p s.regs e i).filter fun _ => e.aw_ready i).toList =
      List.filter _ (s.aw.sent ++ (awTaken p s.regs e).toList)
    rw [seen_aw, inv.aw i bound, filter_append_toList]
  ar := fun i bound => by
    show s.ar.seen i ++ ((slaveAr p e i).filter fun _ => e.ar_ready i).toList =
      List.filter _ (s.ar.sent ++ (arTaken p e).toList)
    rw [seen_ar, inv.ar i bound, filter_append_toList]
  w := inv.w_cycle
  quiet := fun i bound off => by
    obtain ⟨noW, noAr⟩ := inv.quiet i bound off
    refine ⟨?_, ?_⟩
    · show s.w.seen i ++ ((slaveW p s.regs e i).filter fun _ => e.w_ready i).toList = []
      rw [noW, seen_w, off]
      cases wTaken s.regs e <;> rfl
    · show s.ar.seen i ++ _ = []
      rw [noAr]
      cases offered : e.ar <;> simp [slaveAr, offered, off, Option.filter_some]
  unlocked := inv.unlocked_cycle
  locked := inv.locked_cycle
  b := inv.b.log e.b_ready (inv.enabled_b legal)
  r := inv.r.log e.r_ready (inv.enabled_r legal)

theorem channel_of_reset {Q : Type} :
    Channel p ArbiterRr.onReset (⟨fun _ => [], [], fun _ => none, none⟩ : Answered Q) where
  pointer := ⟨0, by decide, fun i _ => rfl⟩
  interleaves := ⟨[], rfl, by simp, by simp⟩
  waits := fun x waits => by cases waits

theorem kept_of_starts (starts : Starts s) : Kept p s := by
  obtain ⟨regs, aw, w, ar, b, r⟩ := starts
  refine ⟨?_, ?_, ?_, ?_, ?_, ?_, ?_, ?_⟩
  · simp [aw]
  · simp [ar]
  · simp [aw, w, burstsFor]
  · simp [w, ar]
  · intro _
    rw [w, aw]
    exact ⟨rfl, fun x found => by cases found⟩
  · intro locked
    rw [regs] at locked
    cases locked
  · rw [regs, b]
    exact channel_of_reset
  · rw [regs, r]
    exact channel_of_reset

end

/-- Two ports of sixteen bytes each. -/
def twoPorts : DemuxParams 8 where
  lite := false
  escape := false
  base := fun i => if i = 1 then 0x10 else 0
  mask := fun i => if i ≤ 1 then 0x0f else 0

def afterReset : DemuxSystem 8 Nat where
  regs := onReset
  aw := ⟨[], fun _ => []⟩
  w := ⟨[], fun _ => []⟩
  ar := ⟨[], fun _ => []⟩
  b := ⟨fun _ => [], [], fun _ => none, none⟩
  r := ⟨fun _ => [], [], fun _ => none, none⟩

def exchange (aw : Option (RoutedBeat 8 Nat)) (w : Option (DataBeat Nat)) (ar : Option (RoutedBeat 8 Nat))
    (b : Nat → Option Nat) (b_ready : Bool) (r : Nat → Option (DataBeat Nat)) (r_ready : Bool) :
    DemuxInput 8 Nat where
  aw := aw
  w := w
  ar := ar
  b_ready := b_ready
  r_ready := r_ready
  aw_ready := fun _ => true
  w_ready := fun _ => true
  ar_ready := fun _ => true
  b := b
  r := r

def fromPort {Q : Type} (i : Nat) (x : Q) : Nat → Option Q := fun j => if j = i then some x else none

def silent {Q : Type} : Nat → Option Q := fun _ => none

theorem disjoint_twoPorts : Disjoint twoPorts := by
  intro i _ j _ addr first second
  simp only [holds, twoPorts, Bool.and_eq_true, bne_iff_ne, ne_eq, ite_eq_right_iff, beq_iff_eq] at first second
  by_cases i1 : i ≤ 1
  · by_cases j1 : j ≤ 1
    · rw [if_pos i1] at first
      rw [if_pos j1] at second
      have same := first.2.symm.trans second.2
      revert same
      obtain rfl | rfl : i = 0 ∨ i = 1 := by omega
      all_goals
        obtain rfl | rfl : j = 0 ∨ j = 1 := by omega
        all_goals decide
    · exact absurd (fun below => absurd below j1) second.1
  · exact absurd (fun below => absurd below i1) first.1

instance (s : DemuxSystem 8 Nat) (e : DemuxInput 8 Nat) : Decidable (Legal twoPorts s e) :=
  decidable_of_iff ((∀ i < 8, ∀ x ∈ s.b.held i, e.b i = some x) ∧ (∀ i < 8, ∀ x ∈ s.r.held i, e.r i = some x) ∧
      (∀ i < 8, (e.b i).isSome → (s.b.given i).length < (s.w.seen i).countP (endsBurst twoPorts)) ∧
      ∀ i < 8, (e.r i).isSome → (s.r.given i).countP (endsBurst twoPorts) < (s.ar.seen i).length)
    ⟨fun ⟨a, b, c, d⟩ => ⟨a, b, c, d⟩,
      fun legal => ⟨legal.b_stays, legal.r_stays, legal.b_answers, legal.r_answers⟩⟩

/-- A burst to the second port and a read of the first one; the master lets both responses wait for
a cycle, and a burst to the first port follows. -/
def readAndWrites : List (DemuxInput 8 Nat) :=
  [exchange (some ⟨0x14, 7⟩) (some ⟨true, 9⟩) (some ⟨0x04, 3⟩) silent false silent false,
    exchange none (some ⟨true, 9⟩) none silent false (fromPort 0 ⟨true, 8⟩) false,
    exchange (some ⟨0x02, 4⟩) none none (fromPort 1 5) false (fromPort 0 ⟨true, 8⟩) true,
    exchange none (some ⟨true, 2⟩) none (fromPort 1 5) true silent true,
    exchange none none none (fromPort 0 6) true silent true]

def afterAll : DemuxSystem 8 Nat := readAndWrites.foldl (cycle twoPorts) afterReset

end NastiDemux

end LowRisc.Socip
