import Mathlib.Data.BitVec
import Mathlib.Algebra.Order.Ring.Int

/-! Dynamic choice of the search order, `TCSearchOrderSelector`.

The selector counts accesses and, once they exceed `order_select_period`, picks a new order.
Its wires `tt`, `tm0` and `tm1` are reassigned in the very cycle in which the choice reads
them: the last connection of a wire holds for all of its readers.
-/

set_option autoImplicit false

namespace LowRisc.TagCache

structure OrderEvents where
  serveTT : BitVec 2
  serveTM0 : BitVec 2
  serveTM1 : BitVec 2
  accessTC : BitVec 2
  readTT : Bool
  readTT_miss : Bool
  readTM0 : Bool
  readTM0_miss : Bool
  readTM1 : Bool
  readTM1_miss : Bool
  deriving DecidableEq, Repr

structure SearchOrderSelector where
  ttserve : BitVec 10
  tm0serve : BitVec 10
  tm1serve : BitVec 10
  ttread : BitVec 10
  tm0read : BitVec 10
  tm1read : BitVec 10
  ttmiss : BitVec 10
  tm0miss : BitVec 10
  tm1miss : BitVec 10
  access : BitVec 11
  order : BitVec 2
  deriving DecidableEq, Repr

def orderSelectPeriod : Nat := 1000

namespace SearchOrderSelector

def onReset : SearchOrderSelector := ⟨0, 0, 0, 0, 0, 0, 0, 0, 0, 0, 0⟩

variable (s : SearchOrderSelector)

def update : Bool := decide (orderSelectPeriod < s.access.toNat)

/-- The wires as the last connection leaves them, for three levels and `consider_miss`. -/
def tt : BitVec 10 := if s.update then 0 else s.ttread - s.ttmiss
def tm0 : BitVec 10 := if s.update then 0 else s.tm0read - s.tm0miss - (if s.order ≠ 1 then s.tt else 0)
def tm1 : BitVec 10 := if s.update then 0 else s.tm1read - (if s.order = 0 then s.tm0 else 0)

def count (event : Bool) : BitVec 10 := if event then 1 else 0

def cycle (e : OrderEvents) : SearchOrderSelector where
  ttserve := s.ttserve + e.serveTT.setWidth 10
  tm0serve := s.tm0serve + e.serveTM0.setWidth 10
  tm1serve := s.tm1serve + e.serveTM1.setWidth 10
  ttread := s.ttread + count e.readTT
  tm0read := s.tm0read + count e.readTM0
  tm1read := s.tm1read + count e.readTM1
  ttmiss := s.ttmiss + count e.readTT_miss
  tm0miss := s.tm0miss + count e.readTM0_miss
  tm1miss := s.tm1miss + count e.readTM1_miss
  access := if s.update then 0 else s.access + e.accessTC.setWidth 11
  order :=
    if s.update then
      if s.tm0 + s.tm1 < s.tt then 1
      else if s.tt + s.tm0 < s.tm1 then 0
      else 2
    else s.order

end SearchOrderSelector

/-! What the counters are meant to measure: the events of a period, counted without wrapping. -/

namespace Period

variable (order : BitVec 2) (events : List OrderEvents)

def tt : Int := events.countP OrderEvents.readTT - events.countP OrderEvents.readTT_miss

def tm0 : Int :=
  events.countP OrderEvents.readTM0 - events.countP OrderEvents.readTM0_miss - if order ≠ 1 then tt events else 0

def tm1 : Int := events.countP OrderEvents.readTM1 - if order = 0 then tm0 order events else 0

/-- The order that the period calls for. -/
def order' : BitVec 2 :=
  if tm0 order events + tm1 order events < tt events then 1
  else if tt events + tm0 order events < tm1 order events then 0
  else 2

/-- Neither the tag table nor tag map 1 served more than the other two together. -/
def Even : Prop :=
  tt events ≤ tm0 order events + tm1 order events ∧ tm1 order events ≤ tt events + tm0 order events

instance : Decidable (Even order events) := inferInstanceAs (Decidable (_ ∧ _))

theorem order'_eq_two_iff : order' order events = 2 ↔ Even order events := by
  rw [order', Even]
  split
  · rename_i table
    simp only [show ¬ (1 : BitVec 2) = 2 by decide, false_iff, not_and_or]
    exact .inl (not_le.mpr table)
  · rename_i table
    split
    · rename_i top
      simp only [show ¬ (0 : BitVec 2) = 2 by decide, false_iff, not_and_or]
      exact .inr (not_le.mpr top)
    · rename_i top
      exact ⟨fun _ => ⟨not_lt.mp table, not_lt.mp top⟩, fun _ => rfl⟩

end Period

structure WatchedSelector where
  selector : SearchOrderSelector
  period : List OrderEvents
  deriving DecidableEq, Repr

namespace WatchedSelector

def onReset : WatchedSelector := ⟨.onReset, []⟩

def cycle (w : WatchedSelector) (e : OrderEvents) : WatchedSelector :=
  ⟨w.selector.cycle e, if w.selector.update then [] else w.period ++ [e]⟩

def after (events : List OrderEvents) : WatchedSelector := events.foldl cycle onReset

@[simp] theorem after_nil : after [] = onReset := rfl

@[simp] theorem after_concat (events : List OrderEvents) (e : OrderEvents) :
    after (events ++ [e]) = (after events).cycle e := by
  simp [after]

/-- In a cycle with an update the new order is the one that the period calls for. -/
def Follows (w : WatchedSelector) (e : OrderEvents) : Prop :=
  w.selector.update = true → (w.cycle e).selector.order = Period.order' w.selector.order w.period

def accesses (events : List OrderEvents) : Nat := (events.map fun e => e.accessTC.toNat).sum

/-- The access counter counts the accesses of the period and never wraps. -/
theorem access_eq (events : List OrderEvents) :
    (after events).selector.access.toNat = accesses (after events).period
      ∧ (after events).selector.access.toNat ≤ orderSelectPeriod + 3 := by
  induction events using List.reverseRecOn with
  | nil => simp [onReset, SearchOrderSelector.onReset, accesses]
  | append_singleton events e ih =>
    obtain ⟨counted, bound⟩ := ih
    rw [after_concat, cycle]
    by_cases update : (after events).selector.update = true
    · simp [SearchOrderSelector.cycle, update, accesses]
    · have below : (after events).selector.access.toNat ≤ orderSelectPeriod := by
        simpa [SearchOrderSelector.update] using update
      have few : e.accessTC.toNat < 4 := e.accessTC.isLt
      have exact : ((after events).selector.access + e.accessTC.setWidth 11).toNat =
          (after events).selector.access.toNat + e.accessTC.toNat := by
        rw [BitVec.toNat_add, BitVec.toNat_setWidth, Nat.mod_eq_of_lt (show e.accessTC.toNat < 2 ^ 11 by omega)]
        apply Nat.mod_eq_of_lt
        simp only [orderSelectPeriod] at below
        omega
      simp only [SearchOrderSelector.cycle, update, Bool.false_eq_true, if_false]
      constructor
      · rw [exact, counted]
        simp [accesses]
      · rw [exact]
        omega

/-- The choice reads the cleared wires: every update picks the middle-up order. -/
theorem order_of_update {s : SearchOrderSelector} (update : s.update = true) (e : OrderEvents) :
    (s.cycle e).order = 2 := by
  simp [SearchOrderSelector.cycle, SearchOrderSelector.tt, SearchOrderSelector.tm0, SearchOrderSelector.tm1, update]

theorem follows_iff (w : WatchedSelector) (e : OrderEvents) :
    w.Follows e ↔ (w.selector.update = true → Period.Even w.selector.order w.period) := by
  rw [Follows]
  refine imp_congr_right fun update => ?_
  rw [← Period.order'_eq_two_iff, show (w.cycle e).selector.order = 2 from order_of_update update e]
  exact eq_comm

/-- A run follows the measured periods if and only if no period that ends in it has a
majority of tag-table hits or of tag-map-1 services. -/
theorem follows_periods_iff (events : List OrderEvents) :
    (∀ past e, past ++ [e] <+: events → (after past).Follows e) ↔
      ∀ past e, past ++ [e] <+: events → (after past).selector.update = true →
        Period.Even (after past).selector.order (after past).period := by
  constructor
  · intro follows past e inside
    exact (follows_iff _ e).mp (follows past e inside)
  · intro even past e inside
    exact (follows_iff _ e).mpr (even past e inside)

/-- A cycle with three accesses and a hit in the tag table. -/
def tableHit : OrderEvents := ⟨0, 0, 0, 3, true, false, false, false, false, false⟩

/-- After 334 such cycles the tag table has served everything, yet the order becomes
middle-up. -/
theorem not_follows_tableHits : ¬ (after (List.replicate 334 tableHit)).Follows tableHit := by
  rw [follows_iff]
  decide +kernel

end WatchedSelector

end LowRisc.TagCache
