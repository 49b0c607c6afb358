import LowRisc.Debug.PacketBuffer
import LowRisc.Lib.Wormhole

/-! The host interface module `osd_him`: its two directions and the words on the host link. -/

set_option autoImplicit false

namespace LowRisc.Debug.HostInterface

open Lib.Worm

/-- `{data[7:0], data[15:8]}`. -/
def swapped (data : Word) : Word := data.extractLsb' 0 8 ++ data.extractLsb' 8 8

/-! The way out: `u_egress_buffer` and the words that have left. -/

structure Egress (size : Nat) where
  buffer : PacketBuffer.Log size
  egress_active : Bool
  sent : List Word

structure EgressEvent where
  dii_in : DiiFlit
  glip_out_ready : Bool

namespace Egress

variable {size : Nat} (s : Egress size)

def dii_egress : DiiFlit := s.buffer.regs.flit_out true

def dii_in_ready : Bool := s.buffer.regs.flit_in_ready

def egress_data_be : Word :=
  if !s.egress_active then BitVec.ofNat 16 (s.buffer.regs.packet_size true) else s.dii_egress.data

def glip_out_valid : Bool := s.dii_egress.valid

def glip_out_data : Word := swapped s.egress_data_be

def cycle (e : EgressEvent) : Egress size where
  buffer := PacketBuffer.cycle true s.buffer ⟨e.dii_in, s.egress_active && e.glip_out_ready⟩
  egress_active :=
    if !s.egress_active then s.dii_egress.valid && e.glip_out_ready
    else !(s.dii_egress.valid && e.glip_out_ready && s.dii_egress.last)
  sent := s.sent ++ if s.glip_out_valid && e.glip_out_ready then [s.glip_out_data] else []

def run (es : List EgressEvent) : Egress size := es.foldl cycle s

structure AfterReset : Prop where
  buffer : PacketBuffer.AfterReset s.buffer
  egress_active : s.egress_active = false
  sent : s.sent = []

end Egress

/-! The way in: `u_ingress_buffer` and the words taken. -/

structure Ingress (size : Nat) where
  buffer : PacketBuffer.Log size
  ingress_active : Bool
  ingress_size : BitVec 5
  received : List Word

structure IngressEvent where
  glip_in_valid : Bool
  glip_in_data : Word
  dii_out_ready : Bool

namespace Ingress

variable {size : Nat} (s : Ingress size)

def dii_out : DiiFlit := s.buffer.regs.flit_out true

def glip_in_ready : Bool := !s.ingress_active || s.buffer.regs.flit_in_ready

def dii_ingress (e : IngressEvent) : DiiFlit :=
  ⟨s.ingress_active && e.glip_in_valid, s.ingress_active && s.ingress_size == 0, swapped e.glip_in_data⟩

def cycle (e : IngressEvent) : Ingress size :=
  let transfer := e.glip_in_valid && s.glip_in_ready
  { buffer := PacketBuffer.cycle true s.buffer ⟨s.dii_ingress e, e.dii_out_ready⟩
    ingress_active :=
      if !s.ingress_active then transfer
      else if transfer && s.ingress_size == 0 then false else true
    ingress_size :=
      if transfer then
        if !s.ingress_active then (swapped e.glip_in_data).extractLsb' 0 5 - 1 else s.ingress_size - 1
      else s.ingress_size
    received := s.received ++ if transfer then [e.glip_in_data] else [] }

def run (es : List IngressEvent) : Ingress size := es.foldl cycle s

structure AfterReset : Prop where
  buffer : PacketBuffer.AfterReset s.buffer
  ingress_active : s.ingress_active = false
  received : s.received = []

end Ingress

/-! What stands on the link. -/

def packetWords (packet : List Flit) : List Word :=
  swapped (BitVec.ofNat 16 packet.length) :: packet.map fun f => swapped f.data

def link (packets : List (List Flit)) : List Word := packets.flatMap packetWords

abbrev packets (stream : List Flit) : List (List Flit) := completed Flit.last stream

abbrev openPacket (stream : List Flit) : List Flit := unfinished Flit.last stream

/-- No packet of the stream has more than `size` flits, and the last one can still be ended. -/
structure Short (size : Nat) (stream : List Flit) : Prop where
  packets : ∀ packet ∈ packets stream, packet.length ≤ size
  rest : (openPacket stream).length < size

structure RoundTrip {size : Nat} (egress : Egress size) (ingress : Ingress size) : Prop where
  -- each packet goes out behind its number of flits
  framed : egress.sent <+: link (packets egress.buffer.entered)
  same : ingress.buffer.left <+: (packets egress.buffer.entered).flatten
  -- nothing is held back: what is complete inside is offered, and a direction that takes nothing offers something
  egress_offers : egress.glip_out_valid = true ↔ ∃ f ∈ egress.buffer.entered.drop egress.buffer.left.length, f.last = true
  egress_room : egress.dii_in_ready = false → egress.glip_out_valid = true
  ingress_offers : ingress.dii_out.valid = true ↔
    ∃ f ∈ ingress.buffer.entered.drop ingress.buffer.left.length, f.last = true
  ingress_room : ingress.glip_in_ready = false → ingress.dii_out.valid = true
  -- at rest every complete packet has arrived
  sent_all : egress.glip_out_valid = false → egress.sent = link (packets egress.buffer.entered)
  arrived : egress.glip_out_valid = false → ingress.received = egress.sent → ingress.dii_out.valid = false →
    ingress.buffer.left = (packets egress.buffer.entered).flatten

theorem link_concat (ps : List (List Flit)) (packet : List Flit) :
    link (ps ++ [packet]) = link ps ++ packetWords packet := by
  simp [link]

theorem link_mono {first second : List (List Flit)} (before : first <+: second) : link first <+: link second := by
  obtain ⟨rest, rfl⟩ := before
  rw [link, link, List.flatMap_append]
  exact List.prefix_append _ _

/-! The way out. -/

inductive Egress.Stage {size : Nat} (s : Egress size) : Prop
  | idle (inactive : s.egress_active = false) (boundary : openPacket s.buffer.left = [])
    (sent : s.sent = link (packets s.buffer.left))
  | sending (active : s.egress_active = true) (f : Flit) (tail rest : List Flit)
    (inside : s.buffer.regs.flits = f :: tail ++ rest)
    (whole : PacketBuffer.IsPacket (openPacket s.buffer.left ++ f :: tail))
    (sent : s.sent = link (packets s.buffer.left) ++
      swapped (BitVec.ofNat 16 (openPacket s.buffer.left ++ f :: tail).length) ::
        (openPacket s.buffer.left).map fun f => swapped f.data)

structure Egress.Inv {size : Nat} (s : Egress size) : Prop where
  holds : PacketBuffer.Holds s.buffer
  stage : s.Stage

section
variable {size : Nat}

theorem Egress.inv_reset {s : Egress size} (two : 2 ≤ size) (reset : s.AfterReset) : s.Inv where
  holds := PacketBuffer.holds_reset (Nat.le_of_succ_le two) reset.buffer
  stage := by
    have left := reset.buffer.left
    exact .idle reset.egress_active (by rw [left]; rfl) (by rw [left, reset.sent]; rfl)

theorem tail_of_isPacket {part : List Flit} {f : Flit} {tail : List Flit}
    (whole : PacketBuffer.IsPacket (part ++ f :: tail)) : f.last = true ↔ tail = [] := by
  obtain ⟨body, g, same, last, inner⟩ := whole
  cases tail using List.reverseRecOn with
  | nil =>
    obtain ⟨-, here⟩ := List.append_inj' same rfl
    rw [(List.cons.inj here).1, last]
    simp
  | append_singleton tail h =>
    rw [← List.cons_append, ← List.append_assoc] at same
    obtain ⟨rfl, -⟩ := List.append_inj' same rfl
    have more := inner f (by simp)
    simp [more]

theorem last_mem_of_isPacket {part : List Flit} {f : Flit} {tail : List Flit}
    (whole : PacketBuffer.IsPacket (part ++ f :: tail)) : ∃ g ∈ f :: tail, g.last = true := by
  obtain ⟨body, g, same, last, -⟩ := whole
  refine ⟨g, ?_, last⟩
  have final := congrArg List.getLast? same
  rw [List.getLast?_append, List.getLast?_concat] at final
  cases ends : (f :: tail).getLast? with
  | none => cases List.getLast?_eq_none_iff.mp ends
  | some h =>
    rw [ends, Option.some_or, Option.some.injEq] at final
    rw [← final]
    exact List.mem_of_getLast? ends

/-- No packet is under way: its length goes out once the packet is there. -/
theorem Egress.Inv.cycle_idle {s : Egress size} {e : EgressEvent} (two : 2 ≤ size) (inv : s.Inv)
    (inactive : s.egress_active = false) (boundary : openPacket s.buffer.left = [])
    (sent : s.sent = link (packets s.buffer.left)) : (s.cycle e).Stage := by
  have calm := @PacketBuffer.calm_of_apart size true s.buffer.regs ⟨e.dii_in, s.egress_active && e.glip_out_ready⟩
    (.inl two)
  have moves := inv.holds.conserved calm
  have valid := inv.holds.valid_iff
  have stays : (s.cycle e).buffer.left = s.buffer.left := by
    simp [Egress.cycle, PacketBuffer.cycle, DiiFlit.passed, inactive]
  cases go : s.dii_egress.valid && e.glip_out_ready with
  | false =>
    refine .idle ?_ (by rw [stays, boundary]) ?_
    · simp [Egress.cycle, inactive, go]
    · rw [stays, ← sent]
      simp [Egress.cycle, glip_out_valid, go]
  | true =>
    rw [Bool.and_eq_true] at go
    -- the buffer is valid with a whole packet only, and then shows its length
    obtain ⟨packet, rest, inside, whole⟩ := PacketBuffer.exists_packet (valid.mp go.1)
    have shown : s.buffer.regs.packet_size true = packet.length :=
      inv.holds.queues.size rfl packet rest whole (by rw [inv.holds.same, inside, List.append_assoc])
    obtain ⟨f, tail, rfl⟩ := PacketBuffer.exists_cons_of_isPacket whole
    have inside' : (s.cycle e).buffer.regs.flits =
        f :: tail ++ (rest ++ e.dii_in.passed s.buffer.regs.flit_in_ready) := by
      rw [inside, List.append_assoc] at moves
      rw [← moves]
      simp [Egress.cycle, DiiFlit.passed, inactive]
    refine .sending ?_ f tail _ inside' (by rw [stays, boundary]; exact whole) ?_
    · simp [Egress.cycle, inactive, go.1, go.2]
    · rw [stays, boundary, ← sent, List.nil_append, ← shown]
      simp [Egress.cycle, glip_out_valid, glip_out_data, egress_data_be, inactive, go.1, go.2]

/-- A packet is under way. -/
theorem Egress.Inv.cycle_sending {s : Egress size} {e : EgressEvent} (two : 2 ≤ size) (inv : s.Inv)
    (active : s.egress_active = true) {f : Flit} {tail rest : List Flit} (inside : s.buffer.regs.flits = f :: tail ++ rest)
    (whole : PacketBuffer.IsPacket (openPacket s.buffer.left ++ f :: tail))
    (sent : s.sent = link (packets s.buffer.left) ++
      swapped (BitVec.ofNat 16 (openPacket s.buffer.left ++ f :: tail).length) ::
        (openPacket s.buffer.left).map fun f => swapped f.data) : (s.cycle e).Stage := by
  have calm := @PacketBuffer.calm_of_apart size true s.buffer.regs ⟨e.dii_in, s.egress_active && e.glip_out_ready⟩
    (.inl two)
  have moves := inv.holds.conserved calm
  have valid := inv.holds.valid_iff
  -- the last flit of the packet is still inside, so the buffer stays valid
  have up : s.dii_egress.valid = true := by
    obtain ⟨g, here, last⟩ := last_mem_of_isPacket whole
    exact valid.mpr ⟨g, by rw [inside]; exact List.mem_append_left rest here, last⟩
  have head : s.dii_egress.flit = f := PacketBuffer.flit_of_cons (by rw [inside]; rfl)
  cases ready : e.glip_out_ready with
  | false =>
    have stays : (s.cycle e).buffer.left = s.buffer.left := by
      simp [Egress.cycle, PacketBuffer.cycle, DiiFlit.passed, ready]
    have inside' : (s.cycle e).buffer.regs.flits =
        f :: tail ++ (rest ++ e.dii_in.passed s.buffer.regs.flit_in_ready) := by
      rw [inside, List.append_assoc] at moves
      rw [← moves]
      simp [Egress.cycle, DiiFlit.passed, ready]
    refine .sending ?_ f tail _ inside' (by rw [stays]; exact whole) ?_
    · simp [Egress.cycle, active, ready]
    · rw [stays, ← sent]
      simp [Egress.cycle, ready]
  | true =>
    have left : (s.cycle e).buffer.left = s.buffer.left ++ [f] := by
      show s.buffer.left ++ s.dii_egress.passed (s.egress_active && e.glip_out_ready) = s.buffer.left ++ [f]
      rw [DiiFlit.passed, up, active, ready, head]
      rfl
    have data : s.dii_egress.data = f.data := congrArg Flit.data head
    have last : s.dii_egress.last = f.last := congrArg Flit.last head
    have written : (s.cycle e).sent = s.sent ++ [swapped f.data] := by
      simp [Egress.cycle, glip_out_valid, glip_out_data, egress_data_be, active, ready, up, data]
    have inside' : (s.cycle e).buffer.regs.flits = tail ++ (rest ++ e.dii_in.passed s.buffer.regs.flit_in_ready) := by
      have leaves : (s.buffer.regs.flit_out true).passed (s.egress_active && e.glip_out_ready) = [f] := by
        rw [← head, DiiFlit.passed]
        show (if s.dii_egress.valid && (s.egress_active && e.glip_out_ready) then _ else _) = _
        rw [up, active, ready]
        rfl
      rw [leaves, inside, List.append_assoc] at moves
      exact (List.cons.inj moves).2
    cases tail with
    | nil =>
      have ends : f.last = true := (tail_of_isPacket whole).mpr rfl
      refine .idle ?_ ?_ ?_
      · simp [Egress.cycle, active, ready, up, last, ends]
      · rw [left]
        simp [ends]
      · have ended : packets (s.buffer.left ++ [f]) = packets s.buffer.left ++ [openPacket s.buffer.left ++ [f]] := by
          rw [packets, completed_concat, if_pos ends]
        rw [left, written, sent, ended, link_concat, packetWords]
        simp
    | cons g tail =>
      have more : f.last = false := by
        rw [Bool.eq_false_iff]
        intro ends
        cases (tail_of_isPacket whole).mp ends
      have longer : openPacket (s.cycle e).buffer.left = openPacket s.buffer.left ++ [f] := by
        rw [left]
        simp [more]
      have kept : packets (s.cycle e).buffer.left = packets s.buffer.left := by
        rw [left]
        simp [more]
      refine .sending ?_ g tail _ inside' ?_ ?_
      · simp [Egress.cycle, active, ready, up, last, more]
      · rw [longer, List.append_assoc]
        exact whole
      · rw [longer, kept, written, sent]
        simp

theorem Egress.Inv.cycle {s : Egress size} (two : 2 ≤ size) (inv : s.Inv) (e : EgressEvent) : (s.cycle e).Inv := by
  have calm := @PacketBuffer.calm_of_apart size true s.buffer.regs ⟨e.dii_in, s.egress_active && e.glip_out_ready⟩
    (.inl two)
  refine ⟨inv.holds.cycle calm, ?_⟩
  cases inv.stage with
  | idle inactive boundary sent => exact inv.cycle_idle two inactive boundary sent
  | sending active f tail rest inside whole sent => exact inv.cycle_sending two active inside whole sent

theorem Egress.Inv.run {s : Egress size} (two : 2 ≤ size) (inv : s.Inv) (es : List EgressEvent) : (s.run es).Inv := by
  induction es generalizing s with
  | nil => exact inv
  | cons e es ih => exact ih (inv.cycle two e)

theorem completed_sending {left rest : List Flit} {tail : List Flit} (more : tail ≠ [])
    (whole : PacketBuffer.IsPacket (openPacket left ++ tail)) :
    packets left ++ [openPacket left ++ tail] <+: packets (left ++ (tail ++ rest)) := by
  obtain ⟨body, g, same, last, inner⟩ := whole
  cases tail using List.reverseRecOn with
  | nil => exact absurd rfl more
  | append_singleton tail h =>
    rw [← List.append_assoc] at same
    obtain ⟨rfl, here⟩ := List.append_inj' same rfl
    obtain rfl := (List.cons.inj here).1
    have ended := (cut_append_packet Flit.last left (fun b inside => inner b (List.mem_append_right _ inside)) last).1
    rw [packets, packets, ← ended]
    exact completed_mono Flit.last ⟨rest, by simp⟩

theorem Egress.Inv.framed {s : Egress size} (inv : s.Inv) : s.sent <+: link (packets s.buffer.entered) := by
  have same := inv.holds.same
  cases inv.stage with
  | idle inactive boundary sent =>
    rw [sent, same]
    exact link_mono (completed_mono Flit.last (List.prefix_append _ _))
  | sending active f tail rest inside whole sent =>
    rw [same, inside]
    refine List.IsPrefix.trans ?_ (link_mono (completed_sending (List.cons_ne_nil f tail) whole))
    rw [sent, link_concat, packetWords, List.map_append, ← List.cons_append, ← List.append_assoc]
    exact List.prefix_append _ _

/-- Without a last flit inside, all packets that have ended are out. -/
theorem Egress.Inv.sent_all {s : Egress size} (inv : s.Inv) (silent : s.glip_out_valid = false) :
    s.sent = link (packets s.buffer.entered) := by
  have inner : ∀ f ∈ s.buffer.regs.flits, f.last = false := by
    intro f inside
    rw [Bool.eq_false_iff]
    intro last
    rw [show s.glip_out_valid = true from inv.holds.valid_iff.mpr ⟨f, inside, last⟩] at silent
    cases silent
  cases inv.stage with
  | idle inactive boundary sent =>
    rw [sent, inv.holds.same, packets, packets, (cut_append_inner Flit.last _ inner).1]
  | sending active f tail rest inside whole sent =>
    obtain ⟨g, here, last⟩ := last_mem_of_isPacket whole
    rw [inner g (by rw [inside]; exact List.mem_append_left rest here)] at last
    cases last

/-- A full buffer of short packets has a last flit inside. -/
theorem valid_of_full {buffer : PacketBuffer.Log size} (holds : PacketBuffer.Holds buffer)
    (short : (openPacket buffer.entered).length < size) (full : buffer.regs.flit_in_ready = false) :
    (buffer.regs.flit_out true).valid = true := by
  have queues : PacketBuffer.Queues true buffer := holds.queues
  have length : ¬buffer.entered.length < buffer.left.length + size := by
    rw [← queues.accepts, full]
    exact Bool.false_ne_true
  rw [holds.valid_iff]
  by_contra none'
  have inner : ∀ f ∈ buffer.regs.flits, f.last = false := fun f inside =>
    Bool.eq_false_iff.mpr fun last => none' ⟨f, inside, last⟩
  rw [holds.same, openPacket, (cut_append_inner Flit.last _ inner).2, List.length_append] at short
  rw [holds.same, List.length_append] at length
  omega

end

/-! The way in. -/

/-- What the words received so far have become, of those that the link holds for `ps`. -/
inductive Ingress.Stage {size : Nat} (s : Ingress size) (ps : List (List Flit)) : Prop
  | idle (inactive : s.ingress_active = false) (done todo : List (List Flit)) (split : ps = done ++ todo)
    (received : s.received = link done) (entered : s.buffer.entered = done.flatten)
  | receiving (active : s.ingress_active = true) (done todo : List (List Flit)) (part : List Flit) (f : Flit)
    (tail : List Flit) (split : ps = done ++ (part ++ f :: tail) :: todo)
    (received : s.received = link done ++
      swapped (BitVec.ofNat 16 (part ++ f :: tail).length) :: part.map fun f => swapped f.data)
    (entered : s.buffer.entered = done.flatten ++ part) (count : s.ingress_size = BitVec.ofNat 5 tail.length)

structure Ingress.Inv {size : Nat} (s : Ingress size) (ps : List (List Flit)) : Prop where
  holds : PacketBuffer.Holds s.buffer
  stage : s.Stage ps

theorem swapped_swapped (data : Word) : swapped (swapped data) = data := by
  have low : (swapped data).extractLsb' 0 8 = data.extractLsb' 8 8 := BitVec.extractLsb'_append_eq_right
  have high : (swapped data).extractLsb' 8 8 = data.extractLsb' 0 8 := BitVec.extractLsb'_append_eq_left
  rw [swapped, low, high]
  refine BitVec.eq_of_getLsbD_eq fun i below => ?_
  rw [BitVec.getLsbD_append]
  by_cases half : i < 8
  · simp [half]
  · simp [half, show i - 8 < 8 by omega, show 8 + (i - 8) = i by omega]

theorem count_of_length (n : Nat) : (BitVec.ofNat 16 (n + 1)).extractLsb' 0 5 - 1 = BitVec.ofNat 5 n := by
  apply BitVec.eq_of_toNat_eq
  simp
  omega

theorem next_word {before rest : List Word} {w x : Word} (inside : before ++ [w] <+: before ++ x :: rest) : w = x := by
  rw [List.prefix_append_right_inj, List.cons_prefix_cons] at inside
  exact inside.1

/-- Packets that the length word can count. -/
def Counted (ps : List (List Flit)) : Prop := ∀ packet ∈ ps, PacketBuffer.IsPacket packet ∧ packet.length ≤ 32

section
variable {size : Nat} {ps : List (List Flit)}

theorem Ingress.inv_reset {s : Ingress size} (two : 2 ≤ size) (reset : s.AfterReset) : s.Inv ps where
  holds := PacketBuffer.holds_reset (Nat.le_of_succ_le two) reset.buffer
  stage := .idle reset.ingress_active [] ps rfl reset.received reset.buffer.entered

/-- Between two packets: the next word is a length. -/
theorem Ingress.Stage.cycle_idle {s : Ingress size} {e : IngressEvent} (counted : Counted ps)
    (sent : (s.cycle e).received <+: link ps) (inactive : s.ingress_active = false) {done todo : List (List Flit)}
    (split : ps = done ++ todo) (received : s.received = link done) (entered : s.buffer.entered = done.flatten) :
    (s.cycle e).Stage ps := by
  have entered' : (s.cycle e).buffer.entered = s.buffer.entered ++ (s.dii_ingress e).passed s.buffer.regs.flit_in_ready :=
    rfl
  have kept : (s.cycle e).buffer.entered = s.buffer.entered := by
    rw [entered']
    simp [DiiFlit.passed, dii_ingress, inactive]
  cases given : e.glip_in_valid with
  | false =>
    refine .idle ?_ done todo split ?_ (by rw [kept, entered])
    · simp [Ingress.cycle, inactive, given]
    · rw [← received]
      simp [Ingress.cycle, given]
  | true =>
    have word : (s.cycle e).received = s.received ++ [e.glip_in_data] := by
      simp [Ingress.cycle, glip_in_ready, inactive, given]
    rw [word, received, split] at sent
    cases todo with
    | nil =>
      have longer := sent.length_le
      rw [List.append_nil, List.length_append, List.length_singleton] at longer
      omega
    | cons packet todo =>
      obtain ⟨whole, -⟩ := counted packet (by rw [split]; simp)
      obtain ⟨f, tail, rfl⟩ := PacketBuffer.exists_cons_of_isPacket whole
      have length : e.glip_in_data = swapped (BitVec.ofNat 16 (f :: tail).length) := by
        rw [link, link, List.flatMap_append, List.flatMap_cons, packetWords, List.cons_append] at sent
        exact next_word sent
      refine .receiving ?_ done todo [] f tail split ?_ (by rw [kept, entered, List.append_nil]) ?_
      · simp [Ingress.cycle, glip_in_ready, inactive, given]
      · rw [word, received, length]
        rfl
      · simp only [Ingress.cycle, glip_in_ready, inactive, given, Bool.not_false, Bool.true_or, Bool.and_self, if_true]
        rw [length, swapped_swapped]
        exact count_of_length tail.length

/-- Inside a packet: the next word is a flit of it. -/
theorem Ingress.Stage.cycle_receiving {s : Ingress size} {e : IngressEvent} (counted : Counted ps)
    (sent : (s.cycle e).received <+: link ps) (active : s.ingress_active = true) {done todo : List (List Flit)}
    {part : List Flit} {f : Flit} {tail : List Flit} (split : ps = done ++ (part ++ f :: tail) :: todo)
    (received : s.received = link done ++
      swapped (BitVec.ofNat 16 (part ++ f :: tail).length) :: part.map fun f => swapped f.data)
    (entered : s.buffer.entered = done.flatten ++ part) (count : s.ingress_size = BitVec.ofNat 5 tail.length) :
    (s.cycle e).Stage ps := by
  have entered' : (s.cycle e).buffer.entered = s.buffer.entered ++ (s.dii_ingress e).passed s.buffer.regs.flit_in_ready :=
    rfl
  obtain ⟨whole, short⟩ := counted (part ++ f :: tail) (by rw [split]; simp)
  -- the counter says which flit is the last one
  have zero : (s.ingress_size == 0#5) = f.last := by
    rw [Bool.eq_iff_iff, tail_of_isPacket whole, beq_iff_eq, count, ← List.length_eq_zero_iff]
    rw [List.length_append, List.length_cons] at short
    constructor
    · intro same
      have value := congrArg BitVec.toNat same
      simp only [BitVec.toNat_ofNat] at value
      omega
    · intro same
      rw [same]
  cases go : e.glip_in_valid && s.buffer.regs.flit_in_ready with
  | false =>
    have kept : (s.cycle e).buffer.entered = s.buffer.entered := by
      rw [entered', DiiFlit.passed]
      simp [dii_ingress, active, go]
    refine .receiving ?_ done todo part f tail split ?_ (by rw [kept, entered]) ?_
    · simp [Ingress.cycle, glip_in_ready, active, go]
    · rw [← received]
      simp [Ingress.cycle, glip_in_ready, active, go]
    · rw [← count]
      simp [Ingress.cycle, glip_in_ready, active, go]
  | true =>
    have word : (s.cycle e).received = s.received ++ [e.glip_in_data] := by
      simp [Ingress.cycle, glip_in_ready, active, go]
    have data : e.glip_in_data = swapped f.data := by
      rw [word, received, split] at sent
      have link' : link (done ++ (part ++ f :: tail) :: todo) = (link done ++
          swapped (BitVec.ofNat 16 (part ++ f :: tail).length) :: part.map fun f => swapped f.data) ++
            swapped f.data :: ((tail.map fun f => swapped f.data) ++ link todo) := by
        simp [link, packetWords]
      rw [link'] at sent
      exact next_word sent
    have flit : (s.cycle e).buffer.entered = s.buffer.entered ++ [f] := by
      rw [entered', DiiFlit.passed]
      simp [dii_ingress, active, go, DiiFlit.flit, zero, data, swapped_swapped]
    cases tail with
    | nil =>
      have ends : f.last = true := (tail_of_isPacket whole).mpr rfl
      refine .idle ?_ (done ++ [part ++ [f]]) todo (by rw [split]; simp) ?_ ?_
      · simp [Ingress.cycle, glip_in_ready, active, go, zero, ends]
      · rw [word, received, data, link_concat, packetWords]
        simp
      · rw [flit, entered]
        simp
    | cons g tail =>
      have more : f.last = false := by
        rw [Bool.eq_false_iff]
        intro ends
        cases (tail_of_isPacket whole).mp ends
      refine .receiving ?_ done todo (part ++ [f]) g tail (by rw [split]; simp) ?_ ?_ ?_
      · simp [Ingress.cycle, glip_in_ready, active, go, zero, more]
      · rw [word, received, data]
        simp
      · rw [flit, entered, List.append_assoc]
      · simp only [Ingress.cycle, glip_in_ready, active, go, Bool.not_true, Bool.false_or, if_true,
          Bool.false_eq_true, if_false, count]
        rw [List.length_cons, BitVec.ofNat_add]
        exact BitVec.add_sub_cancel _ _

theorem Ingress.Inv.cycle {s : Ingress size} (two : 2 ≤ size) (counted : Counted ps) (inv : s.Inv ps) (e : IngressEvent)
    (sent : (s.cycle e).received <+: link ps) : (s.cycle e).Inv ps := by
  have calm := @PacketBuffer.calm_of_apart size true s.buffer.regs ⟨s.dii_ingress e, e.dii_out_ready⟩ (.inl two)
  refine ⟨inv.holds.cycle calm, ?_⟩
  cases inv.stage with
  | idle inactive done todo split received entered => exact .cycle_idle counted sent inactive split received entered
  | receiving active done todo part f tail split received entered count =>
    exact .cycle_receiving counted sent active split received entered count

theorem received_mono (s : Ingress size) (es : List IngressEvent) : s.received <+: (s.run es).received := by
  induction es generalizing s with
  | nil => exact List.prefix_refl _
  | cons e es ih => exact (List.prefix_append _ _).trans (ih (s.cycle e))

theorem Ingress.Inv.run {s : Ingress size} (two : 2 ≤ size) (counted : Counted ps) (inv : s.Inv ps)
    {es : List IngressEvent} (sent : (s.run es).received <+: link ps) : (s.run es).Inv ps := by
  induction es generalizing s with
  | nil => exact inv
  | cons e es ih => exact ih (inv.cycle two counted e ((received_mono (s.cycle e) es).trans sent)) sent

theorem openPacket_flatten {done : List (List Flit)} (counted : Counted done) : openPacket done.flatten = [] := by
  induction done using List.reverseRecOn with
  | nil => rfl
  | append_singleton done packet ih =>
    obtain ⟨⟨body, f, rfl, last, inner⟩, -⟩ := counted packet (by simp)
    rw [List.flatten_append, List.flatten_singleton]
    exact (cut_append_packet Flit.last _ inner last).2

theorem Ingress.Inv.same {s : Ingress size} (inv : s.Inv ps) : s.buffer.entered <+: ps.flatten := by
  cases inv.stage with
  | idle inactive done todo split received entered =>
    rw [entered, split, List.flatten_append]
    exact List.prefix_append _ _
  | receiving active done todo part f tail split received entered count =>
    rw [entered, split, List.flatten_append, List.flatten_cons]
    exact ⟨f :: tail ++ todo.flatten, by simp⟩

theorem Ingress.Inv.entered_all {s : Ingress size} (inv : s.Inv ps) (all : s.received = link ps) :
    s.buffer.entered = ps.flatten := by
  cases inv.stage with
  | idle inactive done todo split received entered =>
    cases todo with
    | nil => rw [entered, split, List.append_nil]
    | cons packet todo =>
      rw [received, split] at all
      have length := congrArg List.length all
      simp only [link, List.flatMap_append, List.flatMap_cons, List.length_append, packetWords, List.length_cons] at length
      omega
  | receiving active done todo part f tail split received entered count =>
    rw [received, split] at all
    have length := congrArg List.length all
    simp only [link, List.flatMap_append, List.flatMap_cons, List.length_append, packetWords, List.length_cons,
      List.length_map] at length
    omega

theorem Ingress.Inv.short {s : Ingress size} (counted : Counted ps) (bounded : ∀ packet ∈ ps, packet.length ≤ size)
    (positive : 0 < size) (inv : s.Inv ps) : (openPacket s.buffer.entered).length < size := by
  cases inv.stage with
  | idle inactive done todo split received entered =>
    rw [entered, openPacket_flatten fun packet inside => counted packet (by rw [split]; simp [inside])]
    exact positive
  | receiving active done todo part f tail split received entered count =>
    have inside : part ++ f :: tail ∈ ps := by rw [split]; simp
    have inner : ∀ g ∈ part, g.last = false := by
      obtain ⟨body, g, same, -, inner⟩ := (counted _ inside).1
      intro h here
      refine inner h ?_
      cases tail using List.reverseRecOn with
      | nil =>
        obtain ⟨rfl, -⟩ := List.append_inj' same rfl
        exact here
      | append_singleton tail k =>
        rw [← List.cons_append, ← List.append_assoc] at same
        obtain ⟨rfl, -⟩ := List.append_inj' same rfl
        exact List.mem_append_left _ here
    have before : Counted done := fun packet inside => counted packet (by rw [split]; simp [inside])
    have boundary := openPacket_flatten before
    have length := bounded _ inside
    rw [List.length_append, List.length_cons] at length
    rw [entered, openPacket, (cut_append_inner Flit.last _ inner).2, show unfinished Flit.last done.flatten = [] from boundary,
      List.nil_append]
    omega

theorem Ingress.Inv.left_all {s : Ingress size} (counted : Counted ps) (inv : s.Inv ps) (all : s.received = link ps)
    (silent : s.dii_out.valid = false) : s.buffer.left = ps.flatten := by
  have inner : ∀ f ∈ s.buffer.regs.flits, f.last = false := by
    intro f inside
    rw [Bool.eq_false_iff]
    intro last
    rw [show s.dii_out.valid = true from inv.holds.valid_iff.mpr ⟨f, inside, last⟩] at silent
    cases silent
  have boundary := openPacket_flatten counted
  rw [← inv.entered_all all, inv.holds.same, openPacket, (cut_append_inner Flit.last _ inner).2,
    List.append_eq_nil_iff] at boundary
  rw [← inv.entered_all all, inv.holds.same, boundary.2, List.append_nil]

/-- Packets of up to `size` flits go over the link and come back as they were, however the two directions stall. -/
theorem round_trip (two : 2 ≤ size) (max : size ≤ 32) {egress : Egress size} {ingress : Ingress size}
    (reset : egress.AfterReset) (reset' : ingress.AfterReset) (es : List EgressEvent) (es' : List IngressEvent)
    (short : Short size (egress.run es).buffer.entered) (joined : (ingress.run es').received <+: (egress.run es).sent) :
    RoundTrip (egress.run es) (ingress.run es') := by
  have out := (Egress.inv_reset two reset).run two es
  have counted : Counted (packets (egress.run es).buffer.entered) := fun packet ended =>
    ⟨exists_last_of_mem_completed Flit.last ended, Nat.le_trans (short.packets packet ended) max⟩
  have back := (Ingress.inv_reset two reset').run two counted (joined.trans out.framed)
  constructor
  · exact out.framed
  · refine List.IsPrefix.trans ?_ back.same
    rw [back.holds.same]
    exact List.prefix_append _ _
  · rw [out.holds.remaining]
    exact out.holds.valid_iff
  · exact valid_of_full out.holds short.rest
  · rw [back.holds.remaining]
    exact back.holds.valid_iff
  · intro busy
    rw [Ingress.glip_in_ready, Bool.or_eq_false_iff] at busy
    exact valid_of_full back.holds (back.short counted short.packets (Nat.lt_of_lt_of_le Nat.zero_lt_two two)) busy.2
  · exact out.sent_all
  · intro silent all silent'
    exact back.left_all counted (by rw [all, out.sent_all silent]) silent'

end

def egressStart : Egress 2 := ⟨PacketBuffer.started 2, false, []⟩

def ingressStart : Ingress 2 := ⟨PacketBuffer.started 2, false, 0, []⟩

/-- A packet of two flits goes out behind its length. -/
def sending : List EgressEvent :=
  [⟨.ofFlit ⟨false, 5⟩, true⟩, ⟨.ofFlit ⟨true, 6⟩, true⟩, ⟨.idle, true⟩, ⟨.idle, true⟩, ⟨.idle, true⟩]

def receiving : List IngressEvent :=
  [⟨true, 0x200, true⟩, ⟨true, 0x500, true⟩, ⟨true, 0x600, true⟩, ⟨false, 0, true⟩, ⟨false, 0, true⟩]

theorem round_trip_of_two : RoundTrip (egressStart.run sending) (ingressStart.run receiving) :=
  round_trip (Nat.le_refl 2) (by decide) ⟨PacketBuffer.afterReset_started 2, rfl, rfl⟩
    ⟨PacketBuffer.afterReset_started 2, rfl, rfl⟩ sending receiving ⟨by decide, by decide⟩ (by decide)

end LowRisc.Debug.HostInterface
