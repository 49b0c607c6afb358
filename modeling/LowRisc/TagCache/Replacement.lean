import LowRisc.TagCache.PseudoLRU
import LowRisc.TagCache.System

/-! The tag cache with the victims that its metadata array names.

`TCMetadataArray` reads the replacer with the metadata, and updates it for some requests only.
Reset leaves the states of the replacer as they are.
-/

set_option autoImplicit false

namespace LowRisc.TagCache

open LowRisc.Chisel LowRisc.Lib

variable {c : Config}

namespace TCMetadataArray

def update_replacer (op : TCTagOp) (hit : Bool) : Bool :=
  match op with
  | .fr | .fl => true
  | .r | .l => hit
  | .w | .c => !hit
  | .u | .i => false

def s1_hit_way (ways : List Nat) : Nat := ways.getLast?.getD 0

end TCMetadataArray

structure Replacing (c : Config) where
  state : State c
  replacer : SeqPLRU c.nWays

namespace Replacing

open TCMetadataArray

/-- What the metadata read of a bank does to the replacer. -/
def update (r : Replacing c) (i : Nat) : SeqPLRU.Update c.nWays :=
  let t := r.state.tag i
  let ways := r.state.arrays.hitWays c (t.idx c) (t.addrTag c)
  { valid := update_replacer t.xact.op (!ways.isEmpty)
    hit := !ways.isEmpty
    set := t.idx c
    way := BitVec.ofNat _ (s1_hit_way ways) }

/-- The victim of a metadata read is the way that the replacer names. -/
def step (r : Replacing c) (e : Event c) : Option (Replacing c) :=
  match e with
  | .tag i way =>
    if (r.state.tag i).state = .mr then
      if way = (r.replacer.plru_way ((r.state.tag i).idx c)).toNat then
        (r.state.step e).map fun s => ⟨s, r.replacer.update (r.update i)⟩
      else none
    else (r.state.step e).map fun s => ⟨s, r.replacer⟩
  | _ => (r.state.step e).map fun s => ⟨s, r.replacer⟩

theorem state_step {r r' : Replacing c} {e : Event c} (fired : r.step e = some r') : r.state.step e = some r'.state := by
  have same : ∀ {replacer}, (r.state.step e).map (fun s => (⟨s, replacer⟩ : Replacing c)) = some r' →
      r.state.step e = some r'.state := by
    intro replacer moved
    obtain ⟨s, stepped, rfl⟩ := Option.map_eq_some_iff.mp moved
    exact stepped
  cases e with
  | tag i way =>
    simp only [step] at fired
    split at fired
    · split at fired
      · exact same fired
      · cases fired
    · exact same fired
  | _ => exact same fired

/-- Its runs are runs of the tag cache with victims of any choice. -/
theorem run_state (ok : State c → Event c → Prop) {r r' : Replacing c} (run : Steps step (fun r e => ok r.state e) r r') :
    Steps State.step ok r.state r'.state := by
  induction run with
  | refl => exact .refl _
  | next _ admitted fired ih => exact .next ih admitted (state_step fired)

end Replacing

end LowRisc.TagCache
