import LowRisc.Socip.ArbiterRuns
import LowRisc.Socip.NastiMux
import Mathlib.Tactic.MkIffOfInductiveProp

/-! When the NASTI multiplexer loses nothing and routes every response to its issuer. -/

set_option autoImplicit false

namespace LowRisc.Socip

open LowRisc.Lib

/-! The records of one direction against the outstanding transactions. -/

namespace NastiMux

section
variable {I : Type} [DecidableEq I]

/-- The port of the record when it is in use for the id. -/
def portFor (vec : Nat → Slot I) (id : I) (i : Nat) : Option Nat :=
  if (vec i).valid && (vec i).id == id then some (vec i).port else none

/-- The ports of the records of an id, by index. -/
def portsOf (n : Nat) (vec : Nat → Slot I) (id : I) : List Nat := (List.range n).filterMap (portFor vec id)

/-- The ports that wait for a response with the id, oldest first. -/
def waiting (outstanding : List (I × Nat)) (id : I) : List Nat :=
  (outstanding.filter fun t => t.1 == id).map Prod.snd

/-- The records of every id are those of its outstanding transactions, in order. -/
def Recorded (n : Nat) (vec : Nat → Slot I) (outstanding : List (I × Nat)) : Prop :=
  ∀ id, portsOf n vec id = waiting outstanding id

theorem range_split {n k : Nat} (inside : k < n) :
    List.range n = List.range k ++ k :: (List.range' (k + 1) (n - (k + 1))) := by
  rw [List.range_eq_range', List.range_eq_range', ← List.range'_succ]
  conv_lhs => rw [show n = k + (n - (k + 1) + 1) by omega, ← List.range'_append_1]
  simp

theorem portsOf_split {n k : Nat} (vec : Nat → Slot I) (id : I) (inside : k < n) :
    portsOf n vec id = (List.range k).filterMap (portFor vec id) ++ (portFor vec id k).toList
      ++ (List.range' (k + 1) (n - (k + 1))).filterMap (portFor vec id) := by
  rw [portsOf, range_split inside, List.filterMap_append, List.append_assoc]
  congr 1
  cases found : portFor vec id k with
  | none => simp [found]
  | some q => simp [found]

theorem portFor_upd_of_ne {vec : Nat → Slot I} {k i : Nat} {slot : Slot I} (id : I) (other : i ≠ k) :
    portFor (upd vec k slot) id i = portFor vec id i := by
  simp [portFor, other]

theorem filterMap_upd {vec : Nat → Slot I} {k : Nat} {slot : Slot I} (id : I) {l : List Nat}
    (absent : k ∉ l) : l.filterMap (portFor (upd vec k slot) id) = l.filterMap (portFor vec id) := by
  apply List.filterMap_congr
  intro i member
  exact portFor_upd_of_ne id fun same => absent (same ▸ member)

theorem portsOf_upd {n k : Nat} (vec : Nat → Slot I) (slot : Slot I) (id : I) (inside : k < n) :
    portsOf n (upd vec k slot) id = (List.range k).filterMap (portFor vec id)
      ++ (if slot.valid && slot.id == id then [slot.port] else [])
      ++ (List.range' (k + 1) (n - (k + 1))).filterMap (portFor vec id) := by
  rw [portsOf_split _ _ inside, filterMap_upd id (by simp),
    filterMap_upd id (by rw [List.mem_range'_1]; omega)]
  congr 2
  simp only [portFor, upd_same]
  split <;> rfl

theorem lowest_spec {n k : Nat} {x : Nat → Bool} (inside : k < n) (up : x k = true) :
    lowest n x < n ∧ x (lowest n x) = true ∧ ∀ i < lowest n x, x i = false := by
  cases found : (List.range n).find? x with
  | none =>
    have down := List.find?_eq_none.mp found k (List.mem_range.mpr inside)
    exact absurd up down
  | some i =>
    have same : lowest n x = i := by simp [lowest, found]
    rw [same]
    obtain ⟨here, below⟩ := List.find?_range_eq_some.mp found
    exact ⟨List.mem_range.mp below.1, here, fun j less => by simpa using below.2 j less⟩

theorem waiting_eraseP_same (outstanding : List (I × Nat)) (id : I) :
    waiting (outstanding.eraseP fun t => t.1 == id) id = (waiting outstanding id).tail := by
  induction outstanding with
  | nil => rfl
  | cons t rest ih =>
    by_cases same : t.1 = id
    · simp [waiting, same]
    · simpa [waiting, same] using ih

theorem waiting_eraseP_of_ne {id other : I} (outstanding : List (I × Nat)) (different : other ≠ id) :
    waiting (outstanding.eraseP fun t => t.1 == id) other = waiting outstanding other := by
  induction outstanding with
  | nil => rfl
  | cons t rest ih =>
    by_cases same : t.1 = id
    · simp [waiting, same, different.symm]
    · rw [List.eraseP_cons_of_neg (by simpa using same)]
      by_cases here : t.1 = other
      · simpa [waiting, here] using ih
      · simpa [waiting, here] using ih

theorem head?_waiting (outstanding : List (I × Nat)) (id : I) :
    (waiting outstanding id).head? = (outstanding.find? fun t => t.1 == id).map Prod.snd := by
  rw [waiting, List.head?_map, List.head?_filter]

variable {n : Nat} {vec : Nat → Slot I} {outstanding : List (I × Nat)}

theorem Recorded.matchIndex (recorded : Recorded n vec outstanding) {id : I}
    (open' : id ∈ outstanding.map Prod.fst) :
    let k := NastiMux.matchIndex n vec id
    k < n ∧ (vec k).valid = true ∧ (vec k).id = id ∧ ∀ i < k, portFor vec id i = none := by
  have some' : portsOf n vec id ≠ [] := by
    rw [recorded id]
    obtain ⟨t, member, same⟩ := List.mem_map.mp open'
    have inside : t.2 ∈ waiting outstanding id :=
      List.mem_map.mpr ⟨t, List.mem_filter.mpr ⟨member, by simp [same]⟩, rfl⟩
    exact List.ne_nil_of_mem inside
  obtain ⟨q, member⟩ := List.exists_mem_of_ne_nil _ some'
  obtain ⟨i, inside, found⟩ := List.mem_filterMap.mp member
  have up : ((vec i).valid && (vec i).id == id) = true := by
    by_contra down
    simp [portFor, down] at found
  obtain ⟨bound, hit, before⟩ := lowest_spec (x := fun i => (vec i).valid && (vec i).id == id)
    (List.mem_range.mp inside) up
  simp only [Bool.and_eq_true, beq_iff_eq] at hit
  refine ⟨bound, hit.1, hit.2, fun i less => ?_⟩
  have down := before i less
  simp only [portFor, down]
  rfl

theorem Recorded.port_eq (recorded : Recorded n vec outstanding) {id : I}
    (open' : id ∈ outstanding.map Prod.fst) :
    (outstanding.find? fun t => t.1 == id).map Prod.snd
      = some (vec (NastiMux.matchIndex n vec id)).port := by
  obtain ⟨bound, valid, same, before⟩ := recorded.matchIndex open'
  have first : (List.range (NastiMux.matchIndex n vec id)).filterMap (portFor vec id) = [] :=
    List.filterMap_eq_nil_iff.mpr fun i member => before i (List.mem_range.mp member)
  rw [← head?_waiting, ← recorded id, portsOf_split _ _ bound, first]
  simp [portFor, valid, same]

theorem Recorded.release (recorded : Recorded n vec outstanding) {id : I}
    (open' : id ∈ outstanding.map Prod.fst) :
    let k := NastiMux.matchIndex n vec id
    Recorded n (upd vec k { vec k with valid := false }) (outstanding.eraseP fun t => t.1 == id) := by
  obtain ⟨bound, valid, same, before⟩ := recorded.matchIndex open'
  intro k other
  rw [portsOf_upd _ _ _ bound]
  have whole := recorded other
  rw [portsOf_split _ _ bound] at whole
  by_cases here : other = id
  · subst here
    have first : (List.range k).filterMap (portFor vec other) = [] :=
      List.filterMap_eq_nil_iff.mpr fun i member => before i (List.mem_range.mp member)
    rw [waiting_eraseP_same, ← whole]
    simp [first, portFor, valid, same, k]
  · rw [waiting_eraseP_of_ne _ here, ← whole]
    have elsewhere : portFor vec other k = none := by
      simp [portFor, k, same, Ne.symm here]
    simp [elsewhere, k]

/-- A free record takes a transaction that no younger record of its id on another port
would overtake. -/
theorem Recorded.accept (recorded : Recorded n vec outstanding) (w port : Nat) (id : I) (bound : w < n)
    (free : (vec w).valid = false)
    (above : ∀ i, w < i → i < n → (vec i).valid = true → (vec i).id = id → (vec i).port = port) :
    Recorded n (upd vec w ⟨true, id, port⟩) (outstanding ++ [(id, port)]) := by
  intro other
  rw [portsOf_upd _ _ _ bound]
  have whole := recorded other
  rw [portsOf_split _ _ bound] at whole
  have empty : portFor vec other w = none := by simp [portFor, free]
  rw [empty, Option.toList_none, List.append_nil] at whole
  have longer : waiting (outstanding ++ [(id, port)]) other
      = waiting outstanding other ++ if id = other then [port] else [] := by
    simp only [waiting, List.filter_append, List.map_append]
    by_cases same : id = other <;> simp [same]
  rw [longer, ← whole]
  by_cases same : id = other
  · subst same
    have alike : ∀ q ∈ (List.range' (w + 1) (n - (w + 1))).filterMap (portFor vec id), q = port := by
      intro q member
      obtain ⟨i, inside, found⟩ := List.mem_filterMap.mp member
      rw [List.mem_range'_1] at inside
      unfold portFor at found
      split at found
      · rename_i hit
        simp only [Bool.and_eq_true, beq_iff_eq] at hit
        rw [← Option.some.inj found]
        exact above i (by omega) (by omega) hit.1 hit.2
      · cases found
    rw [List.eq_replicate_of_mem alike]
    simp [← List.replicate_succ, List.replicate_succ']
  · simp [same]

def retired (outstanding : List (I × Nat)) : Option I → List (I × Nat)
  | some id => outstanding.eraseP fun t => t.1 == id
  | none => outstanding

theorem Recorded.nextVec (recorded : Recorded n vec outstanding) (accepted : Option (Nat × I))
    (released : Option I)
    (room : ∀ port id, accepted = some (port, id) → full n vec = false
      ∧ ∀ i, wp n vec < i → i < n → (vec i).valid = true → (vec i).id = id → (vec i).port = port)
    (open' : ∀ id, released = some id → id ∈ outstanding.map Prod.fst) :
    Recorded n (NastiMux.nextVec n vec accepted released)
      (retired outstanding released ++ (accepted.map fun a => (a.2, a.1)).toList) := by
  cases accepted with
  | none =>
    cases released with
    | none => simpa [NastiMux.nextVec, retired] using recorded
    | some id => simpa [NastiMux.nextVec, retired] using recorded.release (open' id rfl)
  | some a =>
    obtain ⟨port, id⟩ := a
    obtain ⟨notFull, above⟩ := room port id rfl
    have spot : wp n vec < n ∧ (vec (wp n vec)).valid = false := by
      have some' : ∃ k, k < n ∧ (!(vec k).valid) = true := by
        by_contra none
        simp only [not_exists, not_and, Bool.not_eq_true, Bool.not_eq_false'] at none
        simp [full] at notFull
        obtain ⟨k, inside, down⟩ := notFull
        rw [none k inside] at down
        cases down
      obtain ⟨k, inside, free⟩ := some'
      obtain ⟨bound, hit, _⟩ := lowest_spec (x := fun i => !(vec i).valid) inside free
      exact ⟨bound, by simpa [wp] using hit⟩
    cases released with
    | none => simpa [NastiMux.nextVec, retired] using recorded.accept _ _ _ spot.1 spot.2 above
    | some gone =>
      obtain ⟨_, valid, _⟩ := recorded.matchIndex (open' gone rfl)
      -- the record given back is in use and the one taken is free, so their order does not matter
      have apart : NastiMux.matchIndex n vec gone ≠ wp n vec := by
        intro same
        rw [same, spot.2] at valid
        cases valid
      have first := recorded.release (open' gone rfl)
      have second := first.accept (wp n vec) port id spot.1
        (by rw [upd_of_ne apart.symm]; exact spot.2)
        (by
          intro i higher inside up same
          by_cases here : i = NastiMux.matchIndex n vec gone
          · subst here; simp at up
          · rw [upd_of_ne here] at up same ⊢
            exact above i higher inside up same)
      have swap : NastiMux.nextVec n vec (some (port, id)) (some gone)
          = upd (upd vec (NastiMux.matchIndex n vec gone)
              { vec (NastiMux.matchIndex n vec gone) with valid := false }) (wp n vec) ⟨true, id, port⟩ := by
        funext i
        by_cases atW : i = wp n vec
        · subst atW
          simp [NastiMux.nextVec, upd, apart.symm]
        · simp [NastiMux.nextVec, upd, atW, apart]
      rw [swap]
      simpa [retired] using second

end

/-! The multiplexer with what both sides have seen. -/

/-- What has been accepted from the ports and presented to the slave, the outstanding
transactions, and for each beat that was routed its port with the port it is owed. -/
structure MuxSystem (I P : Type) where
  regs : MuxRegs I
  awFromPorts : List (Nat × AddrBeat I P)
  awToSlave : List (Nat × AddrBeat I P)
  wFromPorts : List (Nat × DataBeat P)
  wToSlave : List (Nat × DataBeat P)
  arFromPorts : List (Nat × AddrBeat I P)
  arToSlave : List (Nat × AddrBeat I P)
  writes : List (I × Nat)
  reads : List (I × Nat)
  wRouted : List (Nat × Option Nat)
  bRouted : List (Nat × Option Nat)
  rRouted : List (Nat × Option Nat)

section
variable {I P : Type} [DecidableEq I]

def issuer (outstanding : List (I × Nat)) (id : I) : Option Nat :=
  (outstanding.find? fun t => t.1 == id).map Prod.snd

/-- The write bursts the slave has seen the end of. -/
def endedBursts (p : MuxParams) (s : MuxSystem I P) : Nat := (s.wToSlave.filter fun x => endsBurst p x.2).length

def cycle (p : MuxParams) (s : MuxSystem I P) (e : MuxInput I P) : MuxSystem I P :=
  let m := s.regs
  { regs := next p m e
    awFromPorts := s.awFromPorts ++ (awAccepted p m e).toList
    awToSlave := s.awToSlave ++ (awPresented p m e).toList
    wFromPorts := s.wFromPorts ++ (wAccepted p m e).toList
    wToSlave := s.wToSlave ++ (wPresented p m e).toList
    arFromPorts := s.arFromPorts ++ (arAccepted p m e).toList
    arToSlave := s.arToSlave ++ (arPresented p m e).toList
    writes := retired s.writes (bTaken p m e) ++ ((awPresented p m e).map fun x => (x.2.id, x.1)).toList
    -- a read is answered with the last beat of its burst
    reads := retired s.reads (((rTaken p m e).filter fun x => p.lite || x.2).map Prod.fst)
      ++ ((arPresented p m e).map fun x => (x.2.id, x.1)).toList
    -- the n-th burst belongs to the n-th address
    wRouted := s.wRouted ++ ((wPresented p m e).map fun x =>
      (x.1, (s.awToSlave[endedBursts p s]?).map Prod.fst)).toList
    bRouted := s.bRouted ++ ((bTaken p m e).map fun id => (bPort p m id, issuer s.writes id)).toList
    rRouted := s.rRouted ++ ((rTaken p m e).map fun x => (rPort p m x.1, issuer s.reads x.1)).toList }

def clock (p : MuxParams) (s : MuxSystem I P) (e : MuxInput I P) : Option (MuxSystem I P) := some (cycle p s e)

end

section
variable {I P : Type}

/-- After `rstn` no record is in use and no port is locked. -/
structure OnReset (s : MuxSystem I P) : Prop where
  write_vec : ∀ i, (s.regs.write_vec i).valid = false
  read_vec : ∀ i, (s.regs.read_vec i).valid = false
  lock : s.regs.lock = false
  aw_arb : s.regs.aw_arb = .onReset
  ar_arb : s.regs.ar_arb = .onReset
  aw : s.awFromPorts = [] ∧ s.awToSlave = []
  w : s.wFromPorts = [] ∧ s.wToSlave = []
  ar : s.arFromPorts = [] ∧ s.arToSlave = []
  outstanding : s.writes = [] ∧ s.reads = []
  routed : s.wRouted = [] ∧ s.bRouted = [] ∧ s.rRouted = []

/-- The slave answers only what is outstanding. -/
def LegalSlave (s : MuxSystem I P) (e : MuxInput I P) : Prop :=
  (∀ id ∈ e.b, id ∈ s.writes.map Prod.fst) ∧ ∀ x ∈ e.r, x.1 ∈ s.reads.map Prod.fst

instance [DecidableEq I] (s : MuxSystem I P) (e : MuxInput I P) : Decidable (LegalSlave s e) :=
  inferInstanceAs (Decidable (_ ∧ _))

/-- Every accepted beat is presented once, write bursts follow their addresses, and every
routed beat is at the port it is owed. -/
structure LosesNothing (s : MuxSystem I P) : Prop where
  aw : s.awToSlave = s.awFromPorts
  w : s.wToSlave = s.wFromPorts
  ar : s.arToSlave = s.arFromPorts
  order : ∀ x ∈ s.wRouted, x.2 = some x.1
  b : ∀ x ∈ s.bRouted, x.2 = some x.1
  r : ∀ x ∈ s.rRouted, x.2 = some x.1

/-- The port that the multiplexer turns to when no port is locked: the one in turn, and port 0 without
a request or a free record. -/
def Faces (n : Nat) (vec : Nat → Slot I) (arb : ArbiterRr) (valid : Nat → Bool) (port : Nat) : Prop :=
  if full n vec = true ∨ ArbiterRr.orReduce 8 valid = false then port = 0 else arb.InTurn 8 valid port

instance (n : Nat) (vec : Nat → Slot I) (arb : ArbiterRr) (valid : Nat → Bool) (port : Nat) :
    Decidable (Faces n vec arb valid port) := by
  unfold Faces
  infer_instance

/-- There is a free record, and those below every record of the id on another port are in use. -/
def HasPlace (n : Nat) (vec : Nat → Slot I) (port : Nat) (id : I) : Prop :=
  full n vec = false ∧
    ∀ i < n, (vec i).valid = true → (vec i).id = id → (vec i).port ≠ port → ∀ k < i, (vec k).valid = true

instance [DecidableEq I] (n : Nat) (vec : Nat → Slot I) (port : Nat) (id : I) : Decidable (HasPlace n vec port id) :=
  inferInstanceAs (Decidable (_ ∧ _))

/-- An address at the port that is faced has a place among the records. -/
def FitsRecords (n : Nat) (vec : Nat → Slot I) (arb : ArbiterRr) (beats : Nat → Option (AddrBeat I P)) : Prop :=
  ∀ port < 8, Faces n vec arb (fun i => (beats i).isSome) port → ∀ x ∈ beats port, HasPlace n vec port x.id

instance [DecidableEq I] (n : Nat) (vec : Nat → Slot I) (arb : ArbiterRr) (beats : Nat → Option (AddrBeat I P)) :
    Decidable (FitsRecords n vec arb beats) := by
  unfold FitsRecords
  infer_instance

/-- The cycles in which the multiplexer keeps its books. With a ready slave the port that holds the
lock offers no further address, and without a lock the port that is faced offers no data. Addresses
fit the records, and every read data beat ends its burst. -/
@[mk_iff]
structure Orderly (p : MuxParams) (s : MuxSystem I P) (e : MuxInput I P) : Prop where
  legal : LegalSlave s e
  locked : s.regs.lock = true → e.aw_ready = true → e.aw s.regs.locked_port = none
  unlocked : s.regs.lock = false → e.w_ready = true → ∀ port < 8,
    Faces p.wMax s.regs.write_vec s.regs.aw_arb (fun i => (e.aw i).isSome) port → e.w port = none
  writes : s.regs.lock = false → e.aw_ready = true → FitsRecords p.wMax s.regs.write_vec s.regs.aw_arb e.aw
  reads : e.ar_ready = true → FitsRecords p.rMax s.regs.read_vec s.regs.ar_arb e.ar
  single : ∀ x ∈ e.r, (p.lite || x.2) = true

instance [DecidableEq I] (p : MuxParams) (s : MuxSystem I P) (e : MuxInput I P) : Decidable (Orderly p s e) :=
  decidable_of_iff _ (orderly_iff p s e).symm

structure Clean (p : MuxParams) (s : MuxSystem I P) (e : MuxInput I P) : Prop where
  legal : LegalSlave s e
  locked : s.regs.lock = true → awAccepted p s.regs e = none
  unlocked : s.regs.lock = false → wAccepted p s.regs e = none
  writes : ∀ port x, awPresented p s.regs e = some (port, x) → full p.wMax s.regs.write_vec = false ∧
    ∀ i, wp p.wMax s.regs.write_vec < i → i < p.wMax → (s.regs.write_vec i).valid = true →
      (s.regs.write_vec i).id = x.id → (s.regs.write_vec i).port = port
  reads : ∀ port x, arPresented p s.regs e = some (port, x) → full p.rMax s.regs.read_vec = false ∧
    ∀ i, wp p.rMax s.regs.read_vec < i → i < p.rMax → (s.regs.read_vec i).valid = true →
      (s.regs.read_vec i).id = x.id → (s.regs.read_vec i).port = port
  single : ∀ x ∈ e.r, (p.lite || x.2) = true

theorem toInt_eq_zero {gnt : Nat → Bool} (none' : ∀ i < 8, gnt i = false) : toInt gnt = 0 := by
  have unfound : (List.range 8).find? gnt = none :=
    List.find?_eq_none.mpr fun i bound => by simp [none' i (List.mem_range.mp bound)]
  rw [toInt, lowest, unfound, Option.getD_none]

theorem faces_toInt {q : Nat} {arb : ArbiterRr} (n : Nat) (vec : Nat → Slot I) (valid : Nat → Bool)
    (hot : ArbiterRr.OneHot 8 arb.p q) :
    toInt (arb.gnt 8 valid (!full n vec)) < 8 ∧ Faces n vec arb valid (toInt (arb.gnt 8 valid (!full n vec))) := by
  cases room : full n vec with
  | true =>
    rw [toInt_eq_zero fun i _ => by simp [ArbiterRr.gnt]]
    exact ⟨by decide, by rw [Faces, if_pos (.inl room)]⟩
  | false =>
    rw [Bool.not_false]
    rcases ArbiterRr.gnt_spec valid hot with ⟨idle, none'⟩ | ⟨g, grant, wants⟩
    · rw [toInt_eq_zero (ArbiterRr.orReduce_eq_false.mp none')]
      exact ⟨by decide, by rw [Faces, if_pos (.inr idle)]⟩
    · obtain ⟨bound, up, -⟩ := lowest_spec grant.1 grant.up
      have same : toInt (arb.gnt 8 valid true) = g := grant.eq bound up
      rw [same]
      refine ⟨grant.1, ?_⟩
      rw [Faces, if_neg]
      · exact hot.inTurn grant
      · rintro (up | none')
        · rw [room] at up
          cases up
        · rw [ArbiterRr.orReduce_eq_false.mp none' g grant.1] at wants
          cases wants

theorem FitsRecords.above {n port : Nat} {vec : Nat → Slot I} {arb : ArbiterRr} {beats : Nat → Option (AddrBeat I P)}
    {x : AddrBeat I P} (fits : FitsRecords n vec arb beats) (bound : port < 8)
    (faces : Faces n vec arb (fun i => (beats i).isSome) port) (offered : beats port = some x) :
    full n vec = false ∧ ∀ i, wp n vec < i → i < n → (vec i).valid = true → (vec i).id = x.id → (vec i).port = port := by
  obtain ⟨room, order⟩ := fits port bound faces x offered
  refine ⟨room, fun i higher inside up same => ?_⟩
  by_contra other
  have used := order i inside up same other (wp n vec) higher
  have free : ∃ k < n, (!(vec k).valid) = true := by
    have some' : ¬∀ k ∈ List.range n, (vec k).valid = true := by
      rw [← List.all_eq_true]
      exact Bool.not_eq_true _ ▸ room
    simpa using some'
  obtain ⟨k, below, down⟩ := free
  obtain ⟨-, hit, -⟩ := lowest_spec (x := fun i => !(vec i).valid) below down
  rw [wp] at used
  simp [used] at hit

theorem Orderly.clean {p : MuxParams} {s : MuxSystem I P} {e : MuxInput I P} (orderly : Orderly p s e)
    (aw : ∃ q, ArbiterRr.OneHot 8 s.regs.aw_arb.p q) (ar : ∃ q, ArbiterRr.OneHot 8 s.regs.ar_arb.p q) : Clean p s e := by
  obtain ⟨aw, awHot⟩ := aw
  obtain ⟨ar, arHot⟩ := ar
  have awFaces := faces_toInt p.wMax s.regs.write_vec (fun i => (e.aw i).isSome) awHot
  have arFaces := faces_toInt p.rMax s.regs.read_vec (fun i => (e.ar i).isSome) arHot
  have free : s.regs.lock = false → aw_port_sel p s.regs e =
      toInt (s.regs.aw_arb.gnt 8 (fun i => (e.aw i).isSome) (!full p.wMax s.regs.write_vec)) := by
    intro lock
    simp [aw_port_sel, awEnable, lock]
  refine ⟨orderly.legal, fun lock => ?_, fun lock => ?_, fun port x presented => ?_, fun port x presented => ?_, orderly.single⟩
  · unfold awAccepted
    split
    · rename_i ready
      -- the lock names the port, which offers no address
      rw [aw_port_sel, if_pos lock, orderly.locked lock ready]
      rfl
    · rfl
  · unfold wAccepted
    split
    · rename_i ready
      -- the port that is faced offers no data
      rw [free lock, orderly.unlocked lock ready _ awFaces.1 awFaces.2]
      rfl
    · rfl
  · unfold awPresented at presented
    split at presented
    · rename_i open'
      have lock : s.regs.lock = false := by simpa using open'
      unfold awAccepted at presented
      split at presented
      · rename_i ready
        obtain ⟨beat, offered, same⟩ := Option.map_eq_some_iff.mp presented
        obtain ⟨rfl, rfl⟩ := Prod.mk.inj same
        rw [free lock] at offered ⊢
        exact (orderly.writes lock ready).above awFaces.1 awFaces.2 offered
      · cases presented
    · cases presented
  · unfold arPresented arAccepted at presented
    split at presented
    · rename_i ready
      obtain ⟨beat, offered, same⟩ := Option.map_eq_some_iff.mp presented
      obtain ⟨rfl, rfl⟩ := Prod.mk.inj same
      exact (orderly.reads ready).above arFaces.1 arFaces.2 offered
    · cases presented

/-- In a clean cycle both sides see the same write beats. -/
theorem awPresented_eq {p : MuxParams} {s : MuxSystem I P} {e : MuxInput I P} (clean : Clean p s e) :
    awPresented p s.regs e = awAccepted p s.regs e := by
  cases lock : s.regs.lock with
  | false => simp [awPresented, lock]
  | true => simp [awPresented, lock, clean.locked lock]

theorem wPresented_eq {p : MuxParams} {s : MuxSystem I P} {e : MuxInput I P} (clean : Clean p s e) :
    wPresented p s.regs e = wAccepted p s.regs e := by
  cases lock : s.regs.lock with
  | false => simp [wPresented, lock, clean.unlocked lock]
  | true => simp [wPresented, lock]

end

section
variable {I P : Type} [DecidableEq I]

structure Booked (p : MuxParams) (s : MuxSystem I P) : Prop where
  nothing : LosesNothing s
  writes : Recorded p.wMax s.regs.write_vec s.writes
  reads : Recorded p.rMax s.regs.read_vec s.reads
  free : s.regs.lock = false → s.awToSlave.length = endedBursts p s
  held : s.regs.lock = true → s.awToSlave.length = endedBursts p s + 1
    ∧ (s.awToSlave[endedBursts p s]?).map Prod.fst = some s.regs.locked_port
  aw_arb : ∃ q, ArbiterRr.OneHot 8 s.regs.aw_arb.p q
  ar_arb : ∃ q, ArbiterRr.OneHot 8 s.regs.ar_arb.p q

variable {p : MuxParams} {s : MuxSystem I P} {e : MuxInput I P}

theorem mem_routed {routed : List (Nat × Option Nat)} {new : Option (Nat × Option Nat)}
    (old : ∀ x ∈ routed, x.2 = some x.1) (here : ∀ x, new = some x → x.2 = some x.1) :
    ∀ x ∈ routed ++ new.toList, x.2 = some x.1 := by
  intro x member
  rcases List.mem_append.mp member with before | now
  · exact old x before
  · exact here x (Option.mem_toList.mp now)

theorem bTaken_eq {id : I} (taken : bTaken p s.regs e = some id) : e.b = some id :=
  (Option.filter_eq_some_iff.mp taken).1

theorem rTaken_eq {x : I × Bool} (taken : rTaken p s.regs e = some x) : e.r = some x :=
  (Option.filter_eq_some_iff.mp taken).1

theorem Booked.losesNothing (inv : Booked p s) (clean : Clean p s e) : LosesNothing (cycle p s e) where
  aw := by simp only [cycle, inv.nothing.aw, awPresented_eq clean]
  w := by simp only [cycle, inv.nothing.w, wPresented_eq clean]
  ar := by simp only [cycle, inv.nothing.ar, arPresented]
  order := by
    refine mem_routed inv.nothing.order fun x routed => ?_
    obtain ⟨beat, presented, rfl⟩ := Option.map_eq_some_iff.mp routed
    cases lock : s.regs.lock with
    | false => simp [wPresented, lock] at presented
    | true =>
      have port : beat.1 = s.regs.locked_port := by
        simp only [wPresented, lock, if_true, wAccepted] at presented
        split at presented
        · obtain ⟨_, _, rfl⟩ := Option.map_eq_some_iff.mp presented
          simp [aw_port_sel, lock]
        · cases presented
      rw [port]
      exact (inv.held lock).2
  b := by
    refine mem_routed inv.nothing.b fun x routed => ?_
    obtain ⟨id, taken, rfl⟩ := Option.map_eq_some_iff.mp routed
    exact inv.writes.port_eq (clean.legal.1 id (bTaken_eq taken))
  r := by
    refine mem_routed inv.nothing.r fun x routed => ?_
    obtain ⟨⟨id, last⟩, taken, rfl⟩ := Option.map_eq_some_iff.mp routed
    exact inv.reads.port_eq (clean.legal.2 _ (rTaken_eq taken))

theorem Booked.recordedWrites (inv : Booked p s) (clean : Clean p s e) :
    Recorded p.wMax (cycle p s e).regs.write_vec (cycle p s e).writes := by
  have step := inv.writes.nextVec ((awPresented p s.regs e).map fun x => (x.1, x.2.id))
    (bTaken p s.regs e)
    (by
      intro port id accepted
      obtain ⟨x, presented, same⟩ := Option.map_eq_some_iff.mp accepted
      obtain ⟨rfl, rfl⟩ := Prod.mk.inj same
      exact clean.writes x.1 x.2 presented)
    (fun id taken => clean.legal.1 id (bTaken_eq taken))
  simpa only [cycle, next, Option.map_map, Function.comp_def] using step

theorem Booked.recordedReads (inv : Booked p s) (clean : Clean p s e) :
    Recorded p.rMax (cycle p s e).regs.read_vec (cycle p s e).reads := by
  have step := inv.reads.nextVec ((arPresented p s.regs e).map fun x => (x.1, x.2.id))
    ((rTaken p s.regs e).map Prod.fst)
    (by
      intro port id accepted
      obtain ⟨x, presented, same⟩ := Option.map_eq_some_iff.mp accepted
      obtain ⟨rfl, rfl⟩ := Prod.mk.inj same
      exact clean.reads x.1 x.2 presented)
    (by
      intro id released
      obtain ⟨⟨id', last⟩, taken, rfl⟩ := Option.map_eq_some_iff.mp released
      exact clean.legal.2 _ (rTaken_eq taken))
  have whole : (rTaken p s.regs e).filter (fun x => p.lite || x.2) = rTaken p s.regs e := by
    cases taken : rTaken p s.regs e with
    | none => rfl
    | some x =>
      have ends := clean.single x (rTaken_eq taken)
      simp [Option.filter, ends]
  simpa only [cycle, next, whole, Option.map_map, Function.comp_def] using step

theorem endedBursts_cycle : endedBursts p (cycle p s e)
    = endedBursts p s + ((wPresented p s.regs e).toList.filter fun x => endsBurst p x.2).length := by
  simp [endedBursts, cycle]

/-- An unlocked multiplexer takes an address, and then holds the lock for its port. -/
theorem Booked.lock_unlocked (inv : Booked p s) (clean : Clean p s e) (lock : s.regs.lock = false) :
    ((cycle p s e).regs.lock = false → (cycle p s e).awToSlave.length = endedBursts p (cycle p s e)) ∧
    ((cycle p s e).regs.lock = true → (cycle p s e).awToSlave.length = endedBursts p (cycle p s e) + 1 ∧
      ((cycle p s e).awToSlave[endedBursts p (cycle p s e)]?).map Prod.fst
        = some (cycle p s e).regs.locked_port) := by
  have same : endedBursts p (cycle p s e) = endedBursts p s := by
    simp [endedBursts_cycle, wPresented, lock]
  have length := inv.free lock
  rw [same]
  cases accepted : awAccepted p s.regs e with
  | none =>
    have noData := clean.unlocked lock
    refine ⟨fun _ => ?_, fun up => ?_⟩
    · simp [cycle, awPresented, accepted, lock, length]
    · simp [cycle, next, accepted, noData, lock] at up
  | some x =>
    have port : x.1 = aw_port_sel p s.regs e := by
      unfold awAccepted at accepted
      split at accepted
      · obtain ⟨_, _, rfl⟩ := Option.map_eq_some_iff.mp accepted
        rfl
      · cases accepted
    refine ⟨fun down => ?_, fun _ => ⟨?_, ?_⟩⟩
    · simp [cycle, next, accepted] at down
    · simp [cycle, awPresented, accepted, lock, length]
    · simp [cycle, next, awPresented, accepted, lock, ← length, port]

/-- A locked multiplexer holds the lock until the last beat of the burst. -/
theorem Booked.lock_locked (inv : Booked p s) (clean : Clean p s e) (lock : s.regs.lock = true) :
    ((cycle p s e).regs.lock = false → (cycle p s e).awToSlave.length = endedBursts p (cycle p s e)) ∧
    ((cycle p s e).regs.lock = true → (cycle p s e).awToSlave.length = endedBursts p (cycle p s e) + 1 ∧
      ((cycle p s e).awToSlave[endedBursts p (cycle p s e)]?).map Prod.fst
        = some (cycle p s e).regs.locked_port) := by
  obtain ⟨length, port⟩ := inv.held lock
  have noAddr := clean.locked lock
  have addrs : (cycle p s e).awToSlave = s.awToSlave := by simp [cycle, awPresented, noAddr]
  have held : (cycle p s e).regs.locked_port = s.regs.locked_port := by simp [cycle, next, noAddr]
  rw [endedBursts_cycle, addrs, held, wPresented_eq clean]
  cases accepted : wAccepted p s.regs e with
  | none =>
    refine ⟨fun down => ?_, fun _ => ?_⟩
    · simp [cycle, next, noAddr, accepted, lock] at down
    · simp only [Option.toList_none, List.filter_nil, List.length_nil, Nat.add_zero]
      exact ⟨length, port⟩
  | some x =>
    cases ends : endsBurst p x.2 with
    | true =>
      refine ⟨fun _ => by simpa [ends] using length, fun up => ?_⟩
      simp [cycle, next, noAddr, accepted, ends] at up
    | false =>
      refine ⟨fun down => ?_, fun _ => ?_⟩
      · simp [cycle, next, noAddr, accepted, ends, lock] at down
      · simp only [Option.toList_some, List.filter_cons, ends, Bool.false_eq_true, if_false, List.filter_nil,
          List.length_nil, Nat.add_zero]
        exact ⟨length, port⟩

theorem Booked.arbiters (inv : Booked p s) :
    (∃ q, ArbiterRr.OneHot 8 (cycle p s e).regs.aw_arb.p q) ∧ ∃ q, ArbiterRr.OneHot 8 (cycle p s e).regs.ar_arb.p q := by
  obtain ⟨aw, awHot⟩ := inv.aw_arb
  obtain ⟨ar, arHot⟩ := inv.ar_arb
  exact ⟨awHot.next_any, arHot.next_any⟩

theorem Booked.cycle (inv : Booked p s) (orderly : Orderly p s e) : Booked p (NastiMux.cycle p s e) := by
  have clean := orderly.clean inv.aw_arb inv.ar_arb
  obtain ⟨aw, ar⟩ := inv.arbiters (e := e)
  cases lock : s.regs.lock with
  | false =>
    obtain ⟨free, held⟩ := inv.lock_unlocked clean lock
    exact ⟨inv.losesNothing clean, inv.recordedWrites clean, inv.recordedReads clean, free, held, aw, ar⟩
  | true =>
    obtain ⟨free, held⟩ := inv.lock_locked clean lock
    exact ⟨inv.losesNothing clean, inv.recordedWrites clean, inv.recordedReads clean, free, held, aw, ar⟩

theorem booked_of_reset (reset : OnReset s) : Booked p s := by
  obtain ⟨noWrites, noReads, lock, aw, ar, ⟨awF, awT⟩, ⟨wF, wT⟩, ⟨arF, arT⟩, ⟨writes, reads⟩, ⟨wR, bR, rR⟩⟩ := reset
  have empty : ∀ {n : Nat} {vec : Nat → Slot I}, (∀ i, (vec i).valid = false) → Recorded n vec [] := by
    intro n vec none id
    simp [portsOf, portFor, none, waiting]
  have first : ArbiterRr.OneHot 8 ArbiterRr.onReset.p 0 := ⟨by decide, fun _ _ => rfl⟩
  refine ⟨⟨by rw [awF, awT], by rw [wF, wT], by rw [arF, arT], by simp [wR], by simp [bR], by simp [rR]⟩,
    by rw [writes]; exact empty noWrites, by rw [reads]; exact empty noReads, fun _ => ?_, fun up => ?_,
    ⟨0, by rw [aw]; exact first⟩, ⟨0, by rw [ar]; exact first⟩⟩
  · simp [awT, endedBursts, wT]
  · rw [lock] at up
    cases up

/-- In every run of orderly cycles the multiplexer loses nothing and routes every beat to
its port. -/
theorem orderly_runs_lose_nothing {t : MuxSystem I P} (reset : OnReset s)
    (run : Steps (clock p) (Orderly p) s t) : LosesNothing t := by
  have booked : Booked p t := by
    refine run.invariant (booked_of_reset reset) ?_
    intro t u e inv orderly fired
    cases Option.some.inj fired
    exact inv.cycle orderly
  exact booked.nothing

end

def afterReset : MuxSystem Nat Nat where
  regs := ⟨fun _ => ⟨false, 0, 0⟩, fun _ => ⟨false, 0, 0⟩, false, 0, .onReset, .onReset⟩
  awFromPorts := []
  awToSlave := []
  wFromPorts := []
  wToSlave := []
  arFromPorts := []
  arToSlave := []
  writes := []
  reads := []
  wRouted := []
  bRouted := []
  rRouted := []

theorem afterReset_onReset : OnReset afterReset :=
  ⟨fun _ => rfl, fun _ => rfl, rfl, rfl, rfl, ⟨rfl, rfl⟩, ⟨rfl, rfl⟩, ⟨rfl, rfl⟩, ⟨rfl, rfl⟩, ⟨rfl, rfl, rfl⟩⟩

def fullMode : MuxParams := ⟨false, 2, 2⟩

def noBeat : MuxInput Nat Nat where
  aw := fun _ => none
  w := fun _ => none
  ar := fun _ => none
  b_ready := fun _ => true
  r_ready := fun _ => true
  aw_ready := true
  w_ready := true
  ar_ready := true
  b := none
  r := none

def address (port id payload : Nat) : Nat → Option (AddrBeat Nat Nat) := fun i => if i = port then some ⟨id, payload⟩ else none

def data (port : Nat) (last : Bool) (payload : Nat) : Nat → Option (DataBeat Nat) :=
  fun i => if i = port then some ⟨last, payload⟩ else none

/-- Port 0 writes a burst of two beats while port 1 reads, and then port 1 writes with the same id. -/
def writesAndRead : List (MuxInput Nat Nat) := [
  { noBeat with aw := address 0 1 10 },
  { noBeat with w := data 0 false 20, ar := address 1 2 11, aw := address 1 1 12 },
  { noBeat with w := data 0 true 21, aw := address 1 1 12, r := some (2, true) },
  { noBeat with aw := address 1 1 12 },
  { noBeat with w := data 1 true 22, b := some 1 },
  { noBeat with b := some 1 }]

def orderlyRun : Option (MuxSystem Nat Nat) :=
  execGuarded (clock fullMode) (fun s e => decide (Orderly fullMode s e)) afterReset writesAndRead

theorem orderly_runs_lose_nothing_of_writes : ∃ t, orderlyRun = some t ∧
    t.awToSlave = [(0, ⟨1, 10⟩), (1, ⟨1, 12⟩)] ∧
    t.wToSlave = [(0, ⟨false, 20⟩), (0, ⟨true, 21⟩), (1, ⟨true, 22⟩)] ∧
    t.bRouted = [(0, some 0), (1, some 1)] ∧ t.rRouted = [(1, some 1)] ∧ LosesNothing t := by
  have ran : orderlyRun.isSome = true := by decide +kernel
  obtain ⟨t, final⟩ := Option.isSome_iff_exists.mp ran
  have steps := (steps_of_execGuarded final).mono fun _ _ ok => of_decide_eq_true ok
  have shown : orderlyRun.map (fun t => (t.awToSlave, t.wToSlave)) =
      some ([(0, ⟨1, 10⟩), (1, ⟨1, 12⟩)], [(0, ⟨false, 20⟩), (0, ⟨true, 21⟩), (1, ⟨true, 22⟩)]) := by decide +kernel
  have routed : orderlyRun.map (fun t => (t.bRouted, t.rRouted)) =
      some ([(0, some 0), (1, some 1)], [(1, some 1)]) := by decide +kernel
  rw [final, Option.map_some, Option.some.injEq, Prod.mk.injEq] at shown routed
  exact ⟨t, final, shown.1, shown.2, routed.1, routed.2, orderly_runs_lose_nothing afterReset_onReset steps⟩

/-- Port 0 offers an address and the first data beat together, and a slave takes both. -/
def addressWithData : MuxInput Nat Nat := { noBeat with aw := address 0 1 10, w := data 0 true 20 }

/-- The data beat is accepted from the port while the slave is not shown it. -/
theorem addressWithData_loses_beat :
    OnReset afterReset ∧ LegalSlave afterReset addressWithData ∧
    clock fullMode afterReset addressWithData = some (cycle fullMode afterReset addressWithData) ∧
    ¬LosesNothing (cycle fullMode afterReset addressWithData) := by
  refine ⟨afterReset_onReset, ⟨by simp [addressWithData, noBeat], by simp [addressWithData, noBeat]⟩, rfl, fun nothing => ?_⟩
  exact absurd nothing.w (by decide +kernel)

end NastiMux

end LowRisc.Socip
