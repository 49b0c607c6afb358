import LowRisc.Socip.Arbiter

/-! Runs of the round-robin arbiter: stable grants, fairness, and the masks of the two branches
of `ifdef VERILATOR`. -/

set_option autoImplicit false

namespace LowRisc.Socip.ArbiterRr

/-! The branch for Verilator. -/

def p_or (n : Nat) (p : Nat → Bool) (i : Nat) : Bool := orReduce i fun k => k < n && p k

def req_and (n : Nat) (p req : Nat → Bool) (i : Nat) : Bool := req (i % n) && p_or n p i

def maskVerilator (n : Nat) (p req : Nat → Bool) (i : Nat) : Bool :=
  i != 0 && (!orReduce i (req_and n p req) && req_and n p req i)

def gntVerilator (n : Nat) (a : ArbiterRr) (req : Nat → Bool) (enable : Bool) (i : Nat) : Bool :=
  enable && if locked n a req then a.p i else req i && (maskVerilator n a.p req i || maskVerilator n a.p req (i + n))

/-! The arbiter in all cycles from reset on. -/

structure Input where
  req : Nat → Bool
  enable : Bool

def stateAt (n : Nat) (ins : Nat → Input) : Nat → ArbiterRr
  | 0 => onReset
  | t + 1 => (stateAt n ins t).next n (ins t).req (ins t).enable

def granted (n : Nat) (ins : Nat → Input) (t : Nat) : Nat → Bool :=
  gnt n (stateAt n ins t) (ins t).req (ins t).enable

/-- What is expected of the arbiter. -/
structure Arbitrates (n : Nat) (ins : Nat → Input) : Prop where
  pointer : ∀ t, ∃ q, OneHot n (stateAt n ins t).p q
  asked : ∀ t, ∀ i < n, granted n ins t i = true → (ins t).req i = true
  single : ∀ t, ∀ i < n, ∀ j < n, granted n ins t i = true → granted n ins t j = true → i = j
  grants : ∀ t, (ins t).enable = true → (∃ i < n, (ins t).req i = true) → ∃ i < n, granted n ins t i = true
  -- a grant lasts as long as its request
  keeps : ∀ t u, ∀ i < n, t ≤ u → granted n ins t i = true → (∀ v, t ≤ v → v ≤ u → (ins v).req i = true) →
    (ins u).enable = true → OneHot n (granted n ins u) i
  -- two grants of another port belong to one request of it, while port `i` waits for its grant
  once : ∀ t u, ∀ i < n, ∀ j < n, j ≠ i → t ≤ u → granted n ins t j = true → granted n ins u j = true →
    (∀ v, t ≤ v → v ≤ u → (ins v).req i = true ∧ granted n ins v i = false) →
    ∀ v, t ≤ v → v ≤ u → (ins v).req j = true
  verilator : ∀ t, ∀ i < n, gntVerilator n (stateAt n ins t) (ins t).req (ins t).enable i = granted n ins t i

section
variable {n q : Nat} {a : ArbiterRr} {req : Nat → Bool} {enable : Bool}

theorem p_or_iff (hot : OneHot n a.p q) (i : Nat) : p_or n a.p i = true ↔ q < i := by
  rw [p_or, orReduce_eq_true]
  constructor
  · rintro ⟨k, below, up⟩
    rw [Bool.and_eq_true, decide_eq_true_eq] at up
    rwa [← hot.eq up.1 up.2]
  · intro after
    refine ⟨q, after, ?_⟩
    rw [Bool.and_eq_true, decide_eq_true_eq]
    exact ⟨hot.1, hot.up⟩

/-- Among the requests both masks agree: no request stands between the pointer and the index. -/
theorem maskVerilator_eq (hot : OneHot n a.p q) {j : Nat} (here : req (j % n) = true) :
    maskVerilator n a.p req j = mask n a.p req j := by
  rw [Bool.eq_iff_iff, mask_iff hot, maskVerilator]
  simp only [Bool.and_eq_true, bne_iff_ne, Bool.not_eq_true', orReduce_eq_false, req_and, here, true_and, p_or_iff hot]
  constructor
  · rintro ⟨-, clear, after⟩
    refine ⟨after, fun k above below => ?_⟩
    have quiet := clear k below
    rwa [(p_or_iff hot k).mpr above, Bool.and_true] at quiet
  · rintro ⟨after, clear⟩
    refine ⟨by omega, fun k below => ?_, after⟩
    by_cases above : q < k
    · rw [clear k above below, Bool.false_and]
    · rw [Bool.eq_false_iff.mpr fun up => above ((p_or_iff hot k).mp up), Bool.and_false]

theorem gntVerilator_eq (hot : OneHot n a.p q) {i : Nat} (bound : i < n) :
    gntVerilator n a req enable i = gnt n a req enable i := by
  rw [gntVerilator, gnt]
  cases here : req i with
  | false => simp
  | true =>
    rw [maskVerilator_eq hot (by rw [Nat.mod_eq_of_lt bound, here]),
      maskVerilator_eq hot (by rw [Nat.add_mod_right, Nat.mod_eq_of_lt bound, here])]

theorem OneHot.gnt_of_granted (hot : OneHot n a.p q) {i : Nat} (bound : i < n)
    (up : gnt n a req enable i = true) : enable = true ∧ OneHot n (gnt n a req true) i ∧ req i = true := by
  cases enable with
  | false => simp [gnt] at up
  | true =>
    rcases gnt_spec req hot with ⟨_, idle⟩ | ⟨g, grant, wants⟩
    · rw [orReduce_eq_false.mp idle i bound] at up
      cases up
    · rw [grant.eq bound up]
      exact ⟨rfl, grant, wants⟩

theorem next_disabled : a.next n req false =
    ⟨a.p, a.lock && orReduce n fun i => a.p i && req i⟩ := by
  have none' : orReduce n (gnt n a req false) = false := orReduce_eq_false.mpr fun i _ => by rw [gnt, Bool.false_and]
  rw [next, none']
  cases a.lock <;> cases (orReduce n fun i => a.p i && req i) <;> simp

theorem OneHot.next_any (hot : OneHot n a.p q) : ∃ q', OneHot n (a.next n req enable).p q' := by
  cases enable with
  | true => exact hot.next
  | false => exact ⟨q, by rw [next_disabled]; exact hot⟩

/-- A port holds the grant: the pointer is on it and locked. -/
structure Held (n : Nat) (a : ArbiterRr) (g : Nat) : Prop where
  pointer : OneHot n a.p g
  lock : a.lock = true

theorem Held.locked {g : Nat} (held : Held n a g) (wants : req g = true) : locked n a req = true := by
  rw [ArbiterRr.locked, held.lock, Bool.true_and, orReduce_eq_true]
  exact ⟨g, held.pointer.1, by rw [held.pointer.up, wants]; rfl⟩

theorem Held.gnt {g : Nat} (held : Held n a g) (wants : req g = true) : OneHot n (gnt n a req true) g := by
  refine ⟨held.pointer.1, fun i bound => ?_⟩
  rw [ArbiterRr.gnt, held.locked wants, Bool.true_and, if_pos rfl]
  exact held.pointer.2 i bound

theorem Held.next {g : Nat} (held : Held n a g) (wants : req g = true) : Held n (a.next n req enable) g := by
  have fixed := held.locked wants
  have both := fixed
  rw [ArbiterRr.locked, Bool.and_eq_true] at both
  constructor
  · simp only [ArbiterRr.next, fixed, Bool.not_true, Bool.false_and, Bool.false_eq_true, if_false]
    exact held.pointer
  · simp only [ArbiterRr.next, both.1, both.2, Bool.not_true, Bool.or_self, Bool.false_eq_true, if_false]

theorem held_of_gnt {g : Nat} (grant : OneHot n (gnt n a req true) g) : Held n (a.next n req true) g := by
  have some' : orReduce n (gnt n a req true) = true := orReduce_eq_true.mpr ⟨g, grant.1, grant.up⟩
  cases fixed : locked n a req with
  | true =>
    have same (i : Nat) (_ : i < n) : gnt n a req true i = a.p i := by
      rw [gnt, fixed, Bool.true_and, if_pos rfl]
    have both := fixed
    rw [locked, Bool.and_eq_true] at both
    refine Held.next ⟨⟨grant.1, fun i bound => by rw [← same i bound, grant.2 i bound]⟩, both.1⟩ ?_
    obtain ⟨i, bound, up⟩ := orReduce_eq_true.mp both.2
    rw [Bool.and_eq_true] at up
    rw [← same i bound] at up
    rw [← grant.eq bound up.1]
    exact up.2
  | false =>
    constructor
    · simp only [next, fixed, some', Bool.not_false, Bool.and_self, if_true]
      exact grant
    · simp only [next, some']
      rw [locked] at fixed
      cases free : a.lock with
      | false => simp
      | true =>
        rw [free, Bool.true_and] at fixed
        simp [fixed]

/-- Port `j` has lost its grant and comes behind port `i`. -/
structure Behind (n : Nat) (a : ArbiterRr) (i j q : Nat) : Prop where
  pointer : OneHot n a.p q
  order : turn n q i < turn n q j
  free : q = j → a.lock = false

variable {i j : Nat}

theorem lt_turn (hot : q < n) (i : Nat) : q < turn n q i := by
  unfold turn
  split <;> omega

theorem turn_lt_turn {g : Nat} (inside : i < n) (inside' : j < n) (early : turn n q g < turn n q i)
    (order : turn n q i < turn n q j) : turn n g i < turn n g j := by
  grind [turn]

theorem turn_le_of_gnt {g : Nat} (hot : OneHot n a.p q) (unlocked : locked n a req = false)
    (up : gnt n a req true g = true) (inside : i < n) (wants : req i = true) : turn n q g ≤ turn n q i := by
  rw [gnt, unlocked, Bool.true_and, if_neg Bool.false_ne_true] at up
  obtain ⟨-, first⟩ := (unlocked_iff hot).mp up
  by_contra later
  have quiet := first (turn n q i) (lt_turn hot.1 i) (Nat.lt_of_not_le later)
  rw [turn_mod inside, wants] at quiet
  cases quiet

/-- The request whose turn it is: the arbiter keeps to the pointer as long as it holds a grant there,
and otherwise takes the first request behind the pointer. -/
def InTurn (n : Nat) (a : ArbiterRr) (req : Nat → Bool) (g : Nat) : Prop :=
  req g = true ∧ ∃ q < n, a.p q = true ∧
    if a.lock = true ∧ req q = true then g = q else ∀ k < n, req k = true → turn n q g ≤ turn n q k

instance (n : Nat) (a : ArbiterRr) (req : Nat → Bool) (g : Nat) : Decidable (InTurn n a req g) :=
  inferInstanceAs (Decidable (_ ∧ _))

theorem OneHot.inTurn {g : Nat} (hot : OneHot n a.p q) (grant : OneHot n (gnt n a req true) g) : InTurn n a req g := by
  obtain ⟨-, -, wants⟩ := hot.gnt_of_granted grant.1 grant.up
  refine ⟨wants, q, hot.1, hot.up, ?_⟩
  have held : locked n a req = true ↔ a.lock = true ∧ req q = true := by
    rw [locked, Bool.and_eq_true, orReduce_eq_true]
    refine and_congr_right fun _ => ⟨?_, fun there => ⟨q, hot.1, by rw [hot.up, there]; rfl⟩⟩
    rintro ⟨k, bound, both⟩
    rw [Bool.and_eq_true] at both
    exact hot.eq bound both.1 ▸ both.2
  split
  · rename_i holds
    have pointed := grant.up
    rw [ArbiterRr.gnt, held.mpr holds, Bool.true_and, if_pos rfl] at pointed
    exact hot.eq grant.1 pointed
  · rename_i free
    have unlocked : locked n a req = false := by
      rw [Bool.eq_false_iff]
      exact fun holds => free (held.mp holds)
    exact fun k bound there => turn_le_of_gnt hot unlocked grant.up bound there

/-- While port `i` waits, an unlocked arbiter grants a port in front of it. -/
theorem grants_ahead (hot : OneHot n a.p q) (unlocked : locked n a req = false) (order : turn n q i < turn n q j)
    (inside : i < n) (bound : j < n) (wants : req i = true) (waits : gnt n a req true i = false) :
    ∃ g, OneHot n (gnt n a req true) g ∧ g ≠ j ∧ turn n g i < turn n g j := by
  rcases gnt_spec req hot with ⟨idle, _⟩ | ⟨g, grant, _⟩
  · rw [orReduce_eq_false.mp idle i inside] at wants
    cases wants
  · have early := turn_le_of_gnt hot unlocked grant.up inside wants
    have other : g ≠ i := by
      rintro rfl
      rw [grant.up] at waits
      cases waits
    have before : turn n q g < turn n q i := by
      refine Nat.lt_of_le_of_ne early fun same => other ?_
      rw [← turn_mod (q := q) grant.1, same, turn_mod inside]
    refine ⟨g, grant, ?_, turn_lt_turn inside bound before order⟩
    rintro rfl
    omega

theorem Held.behind (held : Held n a j) (drops : req j = false) (inside : i < n) (other : j ≠ i)
    (wants : req i = true) (waits : ArbiterRr.gnt n a req enable i = false) :
    ∃ q, Behind n (a.next n req enable) i j q := by
  have hot := held.pointer
  have lost : (orReduce n fun k => a.p k && req k) = false := by
    refine orReduce_eq_false.mpr fun k bound => ?_
    cases up : a.p k
    · rfl
    · rw [hot.eq bound up, drops]
      rfl
  have unlocked : ArbiterRr.locked n a req = false := by rw [ArbiterRr.locked, lost, Bool.and_false]
  have far : turn n j i < turn n j j := by
    have := hot.1
    unfold turn
    split <;> split <;> omega
  cases enable with
  | false =>
    refine ⟨j, ?_, far, fun _ => ?_⟩
    · rw [next_disabled]
      exact hot
    · rw [next_disabled, lost, Bool.and_false]
  | true =>
    obtain ⟨g, grant, different, order⟩ := grants_ahead hot unlocked far inside hot.1 wants waits
    exact ⟨g, (held_of_gnt grant).pointer, order, fun same => absurd same different⟩

/-- While port `i` waits, the port behind it is not granted and stays behind. -/
theorem Behind.next (behind : Behind n a i j q) (inside : i < n) (bound : j < n) (wants : req i = true)
    (waits : gnt n a req enable i = false) :
    gnt n a req enable j = false ∧ ∃ q', Behind n (a.next n req enable) i j q' := by
  cases enable with
  | false =>
    refine ⟨by rw [gnt, Bool.false_and], q, ?_⟩
    rw [next_disabled]
    exact ⟨behind.pointer, behind.order, fun same => by rw [behind.free same, Bool.false_and]⟩
  | true =>
    cases fixed : locked n a req with
    | true =>
      have both := fixed
      rw [locked, Bool.and_eq_true] at both
      have different : q ≠ j := by
        intro same
        rw [behind.free same] at both
        cases both.1
      refine ⟨?_, q, ?_, behind.order, fun same => absurd same different⟩
      · rw [gnt, fixed, Bool.true_and, if_pos rfl, behind.pointer.2 j bound]
        exact beq_eq_false_iff_ne.mpr different.symm
      · simp only [ArbiterRr.next, fixed, Bool.not_true, Bool.false_and, Bool.false_eq_true, if_false]
        exact behind.pointer
    | false =>
      obtain ⟨g, grant, different, order⟩ := grants_ahead behind.pointer fixed behind.order inside bound wants waits
      refine ⟨?_, g, (held_of_gnt grant).pointer, order, fun same => absurd same different⟩
      rw [grant.2 j bound]
      exact beq_eq_false_iff_ne.mpr different.symm

end

section
variable {n : Nat} (positive : 0 < n) (ins : Nat → Input)
include positive

theorem exists_pointer (t : Nat) : ∃ q, OneHot n (stateAt n ins t).p q := by
  induction t with
  | zero => exact ⟨0, positive, fun i _ => rfl⟩
  | succ t ih =>
    obtain ⟨q, hot⟩ := ih
    exact hot.next_any

theorem granted_spec {t i : Nat} (bound : i < n) (up : granted n ins t i = true) :
    (ins t).enable = true ∧ OneHot n (granted n ins t) i ∧ (ins t).req i = true ∧ Held n (stateAt n ins (t + 1)) i := by
  obtain ⟨q, hot⟩ := exists_pointer positive ins t
  obtain ⟨enabled, grant, wants⟩ := hot.gnt_of_granted bound up
  refine ⟨enabled, ?_, wants, ?_⟩
  · rw [granted, enabled]
    exact grant
  · rw [stateAt, enabled]
    exact held_of_gnt grant

theorem held_run {t i d : Nat} (bound : i < n) (up : granted n ins t i = true)
    (wants : ∀ v, t ≤ v → v ≤ t + d → (ins v).req i = true) : Held n (stateAt n ins (t + d + 1)) i := by
  induction d with
  | zero => exact (granted_spec positive ins bound up).2.2.2
  | succ d ih =>
    exact (ih fun v after before => wants v after (by omega)).next (wants (t + (d + 1)) (by omega) (Nat.le_refl _))

theorem held_or_behind {t i j d : Nat} (inside : i < n) (bound : j < n) (other : j ≠ i)
    (up : granted n ins t j = true)
    (waiting : ∀ v, t ≤ v → v ≤ t + d → (ins v).req i = true ∧ granted n ins v i = false) :
    (∀ v, t ≤ v → v ≤ t + d → (ins v).req j = true) ∨ ∃ q, Behind n (stateAt n ins (t + d + 1)) i j q := by
  induction d with
  | zero =>
    refine .inl fun v after before => ?_
    rw [show v = t by omega]
    exact (granted_spec positive ins bound up).2.2.1
  | succ d ih =>
    obtain ⟨wants, waits⟩ := waiting (t + (d + 1)) (by omega) (Nat.le_refl _)
    rcases ih fun v after before => waiting v after (by omega) with asks | ⟨q, behind⟩
    · have held := held_run positive ins bound up asks
      cases here : (ins (t + (d + 1))).req j with
      | true =>
        refine .inl fun v after before => ?_
        by_cases last : v = t + (d + 1)
        · rw [last, here]
        · exact asks v after (by omega)
      | false => exact .inr (held.behind here inside other wants waits)
    · exact .inr (behind.next inside bound wants waits).2

/-- With any number of ports and any requests the arbiter works as expected from reset on. -/
theorem arbitrates : Arbitrates n ins where
  pointer := exists_pointer positive ins
  asked t i bound up := (granted_spec positive ins bound up).2.2.1
  single t i inside j bound up up' := ((granted_spec positive ins bound up').2.1.eq inside up)
  grants t enabled some' := by
    obtain ⟨q, hot⟩ := exists_pointer positive ins t
    rw [granted, enabled]
    rcases gnt_spec (ins t).req hot with ⟨idle, _⟩ | ⟨g, grant, _⟩
    · rw [orReduce_eq_true.mpr some'] at idle
      cases idle
    · exact ⟨g, grant.1, grant.up⟩
  -- a port that asks on keeps its grant while the arbiter is held
  keeps t u i bound order up wants enabled := by
    rcases Nat.eq_or_lt_of_le order with rfl | later
    · exact (granted_spec positive ins bound up).2.1
    · obtain ⟨d, rfl⟩ := Nat.exists_eq_add_of_lt later
      have held := held_run positive ins (d := d) bound up fun v after before => wants v after (by omega)
      rw [granted, enabled]
      exact held.gnt (wants _ order (Nat.le_refl _))
  -- a second grant of port `j` while `i` waits belongs to the same request
  once t u i inside j bound other order up up' waiting v after before := by
    have last := (granted_spec positive ins bound up').2.2.1
    rcases Nat.eq_or_lt_of_le order with rfl | later
    · rw [show v = t by omega]
      exact last
    · obtain ⟨d, rfl⟩ := Nat.exists_eq_add_of_lt later
      rcases held_or_behind positive ins (d := d) inside bound other up
        (fun w from' to' => waiting w from' (by omega)) with asks | ⟨q, behind⟩
      · by_cases final : v = t + d + 1
        · rw [final]
          exact last
        · exact asks v after (by omega)
      · obtain ⟨wants, waits⟩ := waiting (t + d + 1) order (Nat.le_refl _)
        have refused := (behind.next inside bound wants waits).1
        rw [granted, refused] at up'
        cases up'
  verilator t i bound := by
    obtain ⟨q, hot⟩ := exists_pointer positive ins t
    exact gntVerilator_eq hot bound

end

theorem arbitrates_three : Arbitrates 3 fun t => ⟨fun i => t % 2 == i % 2, true⟩ := arbitrates (by decide) _

end LowRisc.Socip.ArbiterRr
