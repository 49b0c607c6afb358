import LowRisc.Chisel.Util
import LowRisc.Lib.PointerTree
import Mathlib.Data.List.Induction
import Mathlib.Data.Nat.Basic

/-! The replacement policies `PseudoLRU` and `SeqPLRU`. -/

set_option autoImplicit false

namespace LowRisc.TagCache

open Chisel Lib

def cat (idx : Nat) (bit : Bool) : Nat := idx * 2 + bit.toNat

namespace PseudoLRU

variable {n : Nat}

/-- The loop of `get_next_state` with `i` levels to go. -/
def nextLoop (way : BitVec (log2Up n)) : Nat → Nat → BitVec n → BitVec n
  | 0, _, next_state => next_state
  | i + 1, idx, next_state =>
    let bit := way.getLsbD i
    let mask : BitVec n := 1#n <<< idx
    nextLoop way i (cat idx bit) (next_state &&& ~~~mask ||| if bit then 0#n else mask)

def get_next_state (state : BitVec n) (way : BitVec (log2Up n)) : BitVec n := nextLoop way (log2Up n) 1 state

/-- The loop of `get_replace_way` with `i` levels to go. -/
def replaceLoop (state : BitVec n) : Nat → Nat → Nat
  | 0, idx => idx
  | i + 1, idx => replaceLoop state i (cat idx (state.getLsbD idx))

def get_replace_way (state : BitVec n) : BitVec (log2Up n) := BitVec.ofNat _ (replaceLoop state (log2Up n) 1)

def replaceStep (state : BitVec n) : BitVec n := get_next_state state (get_replace_way state)

/-- The victims of `m` accesses, each of the victim of that moment. -/
def victims : Nat → BitVec n → List (BitVec (log2Up n))
  | 0, _ => []
  | m + 1, state => get_replace_way state :: victims m (replaceStep state)

end PseudoLRU

/-- The states of all sets, without their bit 0. -/
structure SeqPLRU (n_ways : Nat) where
  state : Nat → BitVec (n_ways - 1)

namespace SeqPLRU

variable {n_ways : Nat}

def extended (row : BitVec (n_ways - 1)) : BitVec n_ways := (row ++ 0#1).setWidth n_ways

def current_state (s : SeqPLRU n_ways) (set : Nat) : BitVec n_ways := extended (s.state set)

def plru_way (s : SeqPLRU n_ways) (set : Nat) : BitVec (log2Up n_ways) :=
  PseudoLRU.get_replace_way (s.current_state set)

def stored (state : BitVec n_ways) : BitVec (n_ways - 1) := state.extractLsb' 1 (n_ways - 1)

structure Update (n_ways : Nat) where
  valid : Bool
  hit : Bool
  set : Nat
  way : BitVec (log2Up n_ways)

def update_way (s : SeqPLRU n_ways) (u : Update n_ways) : BitVec (log2Up n_ways) :=
  if u.hit then u.way else s.plru_way u.set

def next_state (s : SeqPLRU n_ways) (u : Update n_ways) : BitVec n_ways :=
  PseudoLRU.get_next_state (s.current_state u.set) (s.update_way u)

def update (s : SeqPLRU n_ways) (u : Update n_ways) : SeqPLRU n_ways :=
  ⟨fun set => if u.valid && set == u.set then stored (s.next_state u) else s.state set⟩

/-- The same update where all bits of the states are kept. -/
def updateWhole (states : Nat → BitVec n_ways) (u : Update n_ways) : Nat → BitVec n_ways :=
  fun set => if u.valid && set == u.set then
      PseudoLRU.get_next_state (states set) (if u.hit then u.way else PseudoLRU.get_replace_way (states set))
    else states set

end SeqPLRU

/-! The indices of the loops are the paths of a tree: the root has index 1. -/

def walk (idx : Nat) (path : List Bool) : Nat := path.foldl cat idx

@[simp] theorem walk_nil (idx : Nat) : walk idx [] = idx := rfl

@[simp] theorem walk_cons (idx : Nat) (b : Bool) (path : List Bool) :
    walk idx (b :: path) = walk (cat idx b) path := rfl

@[simp] theorem walk_concat (idx : Nat) (path : List Bool) (b : Bool) :
    walk idx (path ++ [b]) = cat (walk idx path) b := by
  simp [walk]

theorem cat_div (idx : Nat) (b : Bool) : cat idx b / 2 = idx := by
  unfold cat
  cases b
  · simp
  · rw [Bool.toNat_true]
    omega

theorem cat_inj {i j : Nat} {b c : Bool} (same : cat i b = cat j c) : i = j ∧ b = c := by
  have half : i = j := by rw [← cat_div i b, same, cat_div]
  subst half
  refine ⟨rfl, ?_⟩
  simp only [cat] at same
  cases b <;> cases c <;> simp at same ⊢

theorem lt_cat {idx : Nat} (positive : 1 ≤ idx) (b : Bool) : idx < cat idx b := by
  unfold cat
  omega

theorem le_walk (idx : Nat) (path : List Bool) : idx ≤ walk idx path := by
  induction path generalizing idx with
  | nil => exact Nat.le_refl _
  | cons b path ih =>
    refine Nat.le_trans ?_ (ih (cat idx b))
    unfold cat
    omega

theorem walk_below_ne {idx : Nat} (positive : 1 ≤ idx) (b : Bool) (path : List Bool) : walk (cat idx b) path ≠ idx :=
  Nat.ne_of_gt (Nat.lt_of_lt_of_le (lt_cat positive b) (le_walk _ _))

theorem walk_sides {idx : Nat} (positive : 1 ≤ idx) {b c : Bool} {p q : List Bool}
    (same : walk (cat idx b) p = walk (cat idx c) q) : b = c := by
  induction p using List.reverseRecOn generalizing q with
  | nil =>
    cases q using List.reverseRecOn with
    | nil => exact (cat_inj same).2
    | append_singleton q y =>
      rw [walk_nil, walk_concat] at same
      exact absurd (cat_inj same).1.symm (walk_below_ne positive c q)
  | append_singleton p x ih =>
    rw [walk_concat] at same
    cases q using List.reverseRecOn with
    | nil => exact absurd (cat_inj same).1 (walk_below_ne positive b p)
    | append_singleton q y =>
      rw [walk_concat] at same
      exact ih (cat_inj same).1

theorem walk_div (idx : Nat) (path : List Bool) : walk idx path / 2 ^ path.length = idx := by
  induction path generalizing idx with
  | nil => simp
  | cons b path ih => rw [walk_cons, List.length_cons, Nat.pow_succ, ← Nat.div_div_eq_div_mul, ih, cat_div]

def pathFrom (way : Nat → Bool) : Nat → List Bool
  | 0 => []
  | i + 1 => way i :: pathFrom way i

@[simp] theorem length_pathFrom (way : Nat → Bool) (i : Nat) : (pathFrom way i).length = i := by
  induction i with
  | zero => rfl
  | succ i ih => rw [pathFrom, List.length_cons, ih]

theorem pathFrom_walk (idx : Nat) (path : List Bool) : pathFrom (walk idx path).testBit path.length = path := by
  induction path generalizing idx with
  | nil => rfl
  | cons b path ih =>
    rw [List.length_cons, pathFrom, walk_cons, ih]
    congr 1
    rw [Nat.testBit_eq_decide_div_mod_eq, walk_div]
    cases b <;> simp [cat]

theorem pathFrom_congr {f g : Nat → Bool} {i : Nat} : pathFrom f i = pathFrom g i ↔ ∀ j < i, f j = g j := by
  induction i with
  | zero => simp [pathFrom]
  | succ i ih =>
    rw [pathFrom, pathFrom, List.cons.injEq, ih]
    constructor
    · rintro ⟨top, rest⟩ j below
      rcases Nat.lt_succ_iff_lt_or_eq.mp below with less | rfl
      · exact rest j less
      · exact top
    · exact fun all => ⟨all i (Nat.lt_succ_self i), fun j less => all j (Nat.lt_succ_of_lt less)⟩

namespace PseudoLRU

variable {n : Nat}

def path (way : BitVec (log2Up n)) : List Bool := pathFrom way.getLsbD (log2Up n)

theorem path_injective : Function.Injective (path (n := n)) := by
  intro a b same
  exact BitVec.eq_of_getLsbD_eq fun j below => pathFrom_congr.mp same j below

@[simp] theorem length_path (way : BitVec (log2Up n)) : (path way).length = log2Up n := length_pathFrom _ _

def pointers (idx : Nat) (state : BitVec n) : Pointers := fun p => state.getLsbD (walk idx p)

theorem below_pointers (idx : Nat) (state : BitVec n) (b : Bool) :
    (pointers idx state).below b = pointers (cat idx b) state := rfl

theorem replaceLoop_eq (state : BitVec n) (i idx : Nat) :
    replaceLoop state i idx = walk idx ((pointers idx state).target i) := by
  induction i generalizing idx with
  | zero => rfl
  | succ i ih =>
    rw [replaceLoop, ih, Pointers.target, below_pointers, walk_cons]
    rfl

theorem path_replace_way (state : BitVec n) :
    path (get_replace_way state) = (pointers 1 state).target (log2Up n) := by
  have loop := replaceLoop_eq state (log2Up n) 1
  have back := pathFrom_walk 1 ((pointers 1 state).target (log2Up n))
  rw [← loop, Pointers.length_target] at back
  rw [path, ← back, pathFrom_congr]
  intro j below
  rw [get_replace_way, BitVec.getLsbD_ofNat]
  simp [below]

def setBit (state : BitVec n) (idx : Nat) (bit : Bool) : BitVec n :=
  let mask : BitVec n := 1#n <<< idx
  state &&& ~~~mask ||| if bit then 0#n else mask

theorem getLsbD_setBit (state : BitVec n) {idx : Nat} (inside : idx < n) (bit : Bool) (j : Nat) :
    (setBit state idx bit).getLsbD j = if j = idx then !bit else state.getLsbD j := by
  have masked : (1#n <<< idx).getLsbD j = decide (j = idx) := by
    rw [BitVec.getLsbD_shiftLeft, BitVec.getLsbD_one]
    by_cases same : j = idx
    · subst same
      simp [inside, Nat.zero_lt_of_lt inside]
    · simp only [same, decide_false]
      by_cases below : j < idx
      · simp [below]
      · simp [below, show j - idx ≠ 0 by omega]
  have kept : (state &&& ~~~(1#n <<< idx)).getLsbD j = (state.getLsbD j && !decide (j = idx)) := by
    rw [BitVec.getLsbD_and, BitVec.getLsbD_not, masked]
    cases up : state.getLsbD j
    · simp
    · simp [BitVec.lt_of_getLsbD up]
  rw [setBit, BitVec.getLsbD_or, kept]
  by_cases same : j = idx
  · cases bit
    · subst same
      simp [masked]
    · simp [same]
  · cases bit
    · simp [same, masked]
    · simp [same]

theorem cat_fits {i idx : Nat} (fits : (idx + 1) * 2 ^ (i + 1) ≤ 2 * n) (b : Bool) :
    idx < n ∧ (cat idx b + 1) * 2 ^ i ≤ 2 * n := by
  rw [Nat.pow_succ, ← Nat.mul_assoc] at fits
  have positive := Nat.two_pow_pos i
  have once : (idx + 1) * 1 ≤ (idx + 1) * 2 ^ i := Nat.mul_le_mul_left _ positive
  refine ⟨by omega, Nat.le_trans (Nat.mul_le_mul_right _ (show cat idx b + 1 ≤ (idx + 1) * 2 from ?_)) ?_⟩
  · have := Bool.toNat_le b
    unfold cat
    omega
  · rw [Nat.mul_right_comm]
    exact fits

theorem nextLoop_outside (way : BitVec (log2Up n)) {i idx j : Nat} (fits : (idx + 1) * 2 ^ i ≤ 2 * n)
    (outside : ∀ p, j ≠ walk idx p) (state : BitVec n) : (nextLoop way i idx state).getLsbD j = state.getLsbD j := by
  induction i generalizing idx state with
  | zero => rfl
  | succ i ih =>
    have inner := cat_fits fits (way.getLsbD i)
    rw [nextLoop, ih inner.2 fun p => outside (way.getLsbD i :: p)]
    exact (getLsbD_setBit state inner.1 _ j).trans (if_neg (outside []))

theorem pointers_nextLoop (way : BitVec (log2Up n)) {i idx : Nat} (positive : 1 ≤ idx)
    (fits : (idx + 1) * 2 ^ i ≤ 2 * n) (state : BitVec n) :
    pointers idx (nextLoop way i idx state) = Pointers.turnAway (pathFrom way.getLsbD i) (pointers idx state) := by
  induction i generalizing idx state with
  | zero => rfl
  | succ i ih =>
    have inner := cat_fits fits (way.getLsbD i)
    have kept (b : Bool) (p : List Bool) :
        (setBit state idx (way.getLsbD i)).getLsbD (walk (cat idx b) p) = state.getLsbD (walk (cat idx b) p) :=
      (getLsbD_setBit state inner.1 _ _).trans (if_neg (walk_below_ne positive b p))
    funext path
    cases path with
    | nil =>
      rw [pathFrom, Pointers.turnAway_root]
      refine (nextLoop_outside way inner.2 (fun p => (walk_below_ne positive _ p).symm) _).trans ?_
      exact (getLsbD_setBit state inner.1 _ idx).trans (if_pos rfl)
    | cons c path =>
      by_cases side : c = way.getLsbD i
      · have walked := congrFun (ih (by have := lt_cat positive (way.getLsbD i); omega) inner.2
          (setBit state idx (way.getLsbD i))) path
        have unchanged : pointers (cat idx (way.getLsbD i)) (setBit state idx (way.getLsbD i)) =
            (pointers idx state).below (way.getLsbD i) := funext fun p => kept _ p
        rw [unchanged, ← Pointers.below_turnAway] at walked
        rw [side]
        exact walked
      · have other := congrFun (Pointers.below_turnAway_other side (pathFrom way.getLsbD i) (pointers idx state)) path
        refine Eq.trans ?_ other.symm
        refine (nextLoop_outside way inner.2 (fun p same => side (walk_sides positive same)) _).trans ?_
        exact kept c path

/-- An access turns the tree away from the way. -/
theorem pointers_next {k : Nat} (power : n = 2 ^ k) (inner : 1 ≤ k) (state : BitVec n) (way : BitVec (log2Up n)) :
    pointers 1 (get_next_state state way) = Pointers.turnAway (path way) (pointers 1 state) := by
  have levels : log2Up n = k := power ▸ log2Up_two_pow inner
  refine pointers_nextLoop way (Nat.le_refl 1) ?_ state
  rw [levels, ← power]

theorem map_path_victims {k : Nat} (power : n = 2 ^ k) (inner : 1 ≤ k) (m : Nat) (state : BitVec n) :
    (victims m state).map path = Pointers.targets (log2Up n) m (pointers 1 state) := by
  induction m generalizing state with
  | zero => rfl
  | succ m ih =>
    rw [victims, List.map_cons, ih, replaceStep, pointers_next power inner, path_replace_way]
    rfl

/-! Bit 0 of a state is not looked at. -/

def Agree (state state' : BitVec n) : Prop := ∀ j, 1 ≤ j → state.getLsbD j = state'.getLsbD j

theorem Agree.setBit {state state' : BitVec n} (agree : Agree state state') (idx : Nat) (bit : Bool) :
    Agree (setBit state idx bit) (setBit state' idx bit) := by
  intro j positive
  simp only [PseudoLRU.setBit, BitVec.getLsbD_or, BitVec.getLsbD_and, agree j positive]

theorem Agree.nextLoop {state state' : BitVec n} (agree : Agree state state') (way : BitVec (log2Up n)) (i idx : Nat) :
    Agree (nextLoop way i idx state) (nextLoop way i idx state') := by
  induction i generalizing idx state state' with
  | zero => exact agree
  | succ i ih => exact ih (agree.setBit idx (way.getLsbD i)) _

theorem Agree.next {state state' : BitVec n} (agree : Agree state state') (way : BitVec (log2Up n)) :
    Agree (get_next_state state way) (get_next_state state' way) :=
  agree.nextLoop way _ 1

theorem Agree.foldl {state state' : BitVec n} (agree : Agree state state') (ways : List (BitVec (log2Up n))) :
    Agree (ways.foldl get_next_state state) (ways.foldl get_next_state state') := by
  induction ways generalizing state state' with
  | nil => exact agree
  | cons way ways ih => exact ih (agree.next way)

theorem Agree.replace_way {state state' : BitVec n} (agree : Agree state state') :
    get_replace_way state = get_replace_way state' := by
  have same : pointers 1 state = pointers 1 state' := funext fun p => agree _ (le_walk 1 p)
  exact path_injective (by rw [path_replace_way, path_replace_way, same])

end PseudoLRU

namespace SeqPLRU

open PseudoLRU

variable {n_ways : Nat}

theorem agree_extended_stored (state : BitVec n_ways) : Agree (extended (stored state)) state := by
  intro j positive
  simp only [extended, stored, BitVec.getLsbD_setWidth, BitVec.getLsbD_append, BitVec.getLsbD_extractLsb']
  by_cases inside : j < n_ways
  · simp [inside, show ¬j < 1 by omega, show 1 + (j - 1) = j by omega, show j - 1 < n_ways - 1 by omega]
  · simp [inside, BitVec.getLsbD_of_ge state _ (Nat.le_of_not_lt inside)]

theorem stored_congr {state state' : BitVec n_ways} (agree : Agree state state') : stored state = stored state' := by
  refine BitVec.eq_of_getLsbD_eq fun j below => ?_
  rw [stored, stored, BitVec.getLsbD_extractLsb', BitVec.getLsbD_extractLsb',
    agree _ (Nat.le_add_right 1 j)]

/-- The rows are the states without bit 0. -/
def Stores (s : SeqPLRU n_ways) (states : Nat → BitVec n_ways) : Prop := ∀ set, s.state set = stored (states set)

theorem Stores.agree {s : SeqPLRU n_ways} {states : Nat → BitVec n_ways} (stores : Stores s states) (set : Nat) :
    Agree (s.current_state set) (states set) := by
  rw [current_state, stores set]
  exact agree_extended_stored _

theorem Stores.update {s : SeqPLRU n_ways} {states : Nat → BitVec n_ways} (stores : Stores s states)
    (u : Update n_ways) : Stores (s.update u) (updateWhole states u) := by
  intro set
  simp only [SeqPLRU.update, updateWhole]
  split
  · rename_i written
    rw [Bool.and_eq_true, beq_iff_eq] at written
    rw [next_state, update_way, plru_way, (stores.agree u.set).replace_way, written.2]
    exact stored_congr ((stores.agree u.set).next _)
  · exact stores set

theorem Stores.run {s : SeqPLRU n_ways} {states : Nat → BitVec n_ways} (stores : Stores s states)
    (us : List (Update n_ways)) : Stores (us.foldl SeqPLRU.update s) (us.foldl updateWhole states) := by
  induction us generalizing s states with
  | nil => exact stores
  | cons u us ih => exact ih (stores.update u)

end SeqPLRU

namespace PseudoLRU

open SeqPLRU

/-- With a power of two of ways the policy never replaces the way just used, replaces every way once in as many
steps as there are ways, and works as well on the states without bit 0. -/
theorem replaces_every_way_once {n k : Nat} (power : n = 2 ^ k) (inner : 1 ≤ k) :
    (∀ (state : BitVec n) (way : BitVec (log2Up n)), get_replace_way (get_next_state state way) ≠ way) ∧
      (∀ (state : BitVec n) (way : BitVec (log2Up n)), (victims n state).count way = 1) ∧
      (∀ (state : BitVec n) (ways : List (BitVec (log2Up n))),
        get_replace_way (ways.foldl get_next_state (extended (stored state))) =
          get_replace_way (ways.foldl get_next_state state)) ∧
      (∀ (s : SeqPLRU n) (states : Nat → BitVec n), Stores s states → ∀ (us : List (Update n)) (set : Nat),
        (us.foldl SeqPLRU.update s).plru_way set = get_replace_way (us.foldl updateWhole states set)) := by
  have levels : log2Up n = k := power ▸ log2Up_two_pow inner
  refine ⟨fun state way same => ?_, fun state way => ?_, fun state ways => ?_, fun s states stores us set => ?_⟩
  · have inner' : path way ≠ [] := List.ne_nil_of_length_pos (by rw [length_path, levels]; exact inner)
    refine Pointers.target_turnAway_ne inner' (pointers 1 state) ?_
    rw [← pointers_next power inner, length_path, ← path_replace_way, same]
  · rw [← List.count_map_of_injective _ path path_injective, map_path_victims power inner]
    have all := Pointers.count_targets_all (log2Up n) (pointers 1 state) (length_path way)
    rwa [levels, ← power, ← levels] at all
  · exact ((agree_extended_stored state).foldl ways).replace_way
  · exact ((stores.run us).agree set).replace_way

theorem replaces_every_way_once_four :
    get_replace_way (get_next_state (6 : BitVec 4) 3) ≠ 3 ∧ (victims 4 (6 : BitVec 4)).count 3 = 1 :=
  ⟨(replaces_every_way_once (k := 2) rfl (by decide)).1 6 3, (replaces_every_way_once (k := 2) rfl (by decide)).2.1 6 3⟩

end PseudoLRU

end LowRisc.TagCache
