import LowRisc.Coherence.RightsRuns

/-! Where the block's current value is.

The manager has a value of its own, in the array, in a buffer or one level below; it is the current one
unless a client is dirty. A copy that a client holds is current.
-/

set_option autoImplicit false

namespace LowRisc.Coherence

open LowRisc.Lib MESICoherence

variable {n : Nat} {V U : Type}

/-! The manager. -/

def Xact.value (x : Xact n V) (resident : Option (Meta n)) (array outer : V) : V :=
  if x.pending_writes then x.data_buffer.getD array
  else if resident.isSome || x.data_buffer.isSome then array
  else outer

def Writeback.value (w : Writeback n V) (array outer : V) : V :=
  match w.state with
  | .outerGrant | .wbResp => outer
  | _ => w.data_buffer.getD array

def Writeback.Kept (w : Writeback n V) (below : Prop) : Prop :=
  match w.state with
  | .innerProbe => below ∧ (w.coh.dirty = false → w.data_buffer = none)
  | .metaRead => below ∧ w.data_buffer = none
  | _ => True

namespace Manager

def value (m : Manager n V) : V :=
  match m.acq, m.vol, m.evict with
  | some x, _, _ => x.value m.resident m.array m.outer
  | none, some v, _ => if v.pending_writes then v.xact.data else m.array
  | none, none, .wb w => w.value m.array m.outer
  | none, none, .refill => m.outer
  | none, none, _ => if m.resident.isSome then m.array else m.outer

/-- The level below has the value of a block that is not dirty. -/
def Below (m : Manager n V) : Prop := ∀ coh, m.resident = some coh → coh.dirty = false → m.outer = m.array

def Kept (m : Manager n V) : Prop :=
  match m.acq, m.vol, m.evict with
  | some x, _, _ =>
    (x.pending_coh.dirty = false → m.outer = x.value m.resident m.array m.outer) ∧
      if x.pending_writes then x.data_buffer.isSome = true else ∀ d, x.data_buffer = some d → d = m.array
  | none, some _, _ => True
  | none, none, .wb w => w.Kept m.Below
  | none, none, .wbReq old => m.Below ∧ (old.sharers = 0#n → m.resident = some old)
  | none, none, .refill => True
  | none, none, .none => m.Below

end Manager

/-! The clients. -/

namespace Client

/-- The copy that the client has, or will have when the grant under way has come in. -/
def copy (c : Client V U) : V :=
  match c.mshr, c.grant with
  | .refillResp _, some g => if g.g_type.hasData then g.data else c.data
  | _, _ => c.data

def Dirty (c : Client V U) : Prop := c.view.held = .clientExclusiveDirty ∨ c.view.carries = true

/-- A store that is added to a miss that asks for the permission to write but is no write: the block is
granted clean. -/
def spoils (c : Client V U) : ClientAction U → Bool
  | .join a =>
    match c.mshr with
    | .beforeRefill req | .refillReq req | .refillResp req =>
      a.cmd.isWrite && req.cmd.isWriteIntent && !req.cmd.isWrite
    | _ => false
  | _ => false

def HasWrites (rpq : List (Access U)) : Prop := ∃ a ∈ rpq, a.cmd.isWrite = true

/-- The writes of the replay queue find a dirty block. -/
def Ready (c : Client V U) : Prop :=
  match c.mshr with
  | .beforeRefill req | .refillReq req | .refillResp req => HasWrites req.rpq → req.cmd.isWrite = true
  | .metaWriteReq coh rpq => HasWrites rpq → coh = .clientExclusiveDirty
  | .metaWriteResp rpq | .drainRpq rpq => HasWrites rpq → c.state = .clientExclusiveDirty
  | _ => True

structure Current (c : Client V U) (v : V) : Prop where
  copy : c.held ≠ .clientInvalid → c.copy = v
  release : ∀ r, c.release = some r → r.r_type.hasData = true → r.data = v
  ready : c.Ready

end Client

structure System.Current (s : System n V U) (v : V) : Prop where
  clients : ∀ i, (s.clients i).Current v
  manager : (∀ i, ¬(s.clients i).Dirty) → s.manager.value = v
  kept : s.manager.Kept

end LowRisc.Coherence
