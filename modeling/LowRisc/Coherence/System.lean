import LowRisc.Coherence.Manager
import LowRisc.Lib.Family
import LowRisc.Lib.Transition

/-! The caches, the manager and the messages between them.

A step is one action of one cache or of the manager. The log of a run keeps what the cores have read and
written, in the order in which they did.
-/

set_option autoImplicit false

namespace LowRisc.Coherence

open LowRisc.Lib

variable {n : Nat} {V U : Type}

structure System (n : Nat) (V U : Type) where
  clients : Fin n → Client V U
  manager : Manager n V

inductive Action (n : Nat) (V U : Type) where
  | client (i : Fin n) (a : ClientAction U)
  | manager (a : ManagerAction n V)
  deriving DecidableEq, Repr

/-- A message is taken from the client's side or put there. -/
def Client.receive (c : Client V U) : Effect V → Client V U
  | .takeAcquire => { c with acquire := none }
  | .takeRelease => { c with release := none }
  | .takeFinish => { c with finish := false }
  | .probe p => { c with probe := some p }
  | .grant g => { c with grant := some g }

namespace System

def onReset (v : V) : System n V U := ⟨fun _ => .onReset v, .onReset v⟩

def step (act : U → V → V) (s : System n V U) : Action n V U → Option (System n V U × Event V U)
  | .client i a => ((s.clients i).step act a).map fun (c, e) => ({ s with clients := put s.clients i c }, e)
  | .manager a => (s.manager.step s.clients a).map fun (m, effect) =>
      match effect with
      | some (i, f) => (⟨put s.clients i ((s.clients i).receive f), m⟩, .silent)
      | none => ({ s with manager := m }, .silent)

end System

structure Log (n : Nat) (V U : Type) where
  system : System n V U
  events : List (Event V U)

namespace Log

def onReset (v : V) : Log n V U := ⟨.onReset v, []⟩

def step (act : U → V → V) (l : Log n V U) (a : Action n V U) : Option (Log n V U) :=
  (l.system.step act a).map fun (s, e) => ⟨s, l.events ++ [e]⟩

end Log

end LowRisc.Coherence
