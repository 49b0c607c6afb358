import LowRisc.Rocket.DecodeSums

/-! Decode tables are preserved.

Every bit of the value that the table or its default gives is the bit of the generated logic, at
every address, and the assertions of the generator hold.
-/

set_option autoImplicit false

namespace LowRisc.Rocket.Decode

/-! Patterns. -/

namespace BitPat

variable (p : BitPat)

theorem value_le_mask (i : Nat) (set : p.value.testBit i = true) : p.mask.testBit i = true := by
  rw [← p.value_and_mask, Nat.testBit_and, Bool.and_eq_true] at set
  exact set.2

theorem value_lt : p.value < 2 ^ p.width := by
  rw [← p.value_and_mask]
  exact Nat.and_lt_two_pow _ p.mask_lt

theorem testBit_term (i : Nat) : (DecodeLogic.term p).mask.testBit i = (decide (i < p.width) && !p.mask.testBit i) :=
  testBit_complement p.mask_lt i

theorem bit_eq (i : Nat) : p.bit i = if (DecodeLogic.term p).mask.testBit i then none else some (p.value.testBit i) := by
  unfold bit
  rw [testBit_term]
  by_cases low : i < p.width
  · cases given : p.mask.testBit i <;> simp [low]
  · simp [low]

theorem term_fits {width : Nat} (narrow : p.width ≤ width) : (DecodeLogic.term p).Fits width where
  free i free := by
    by_contra set
    rw [Bool.not_eq_false] at set
    rw [testBit_term, p.value_le_mask i set] at free
    simp at free
  value_lt := Nat.lt_of_lt_of_le p.value_lt (Nat.pow_le_pow_right (by decide) narrow)
  mask_lt := Nat.lt_of_lt_of_le (complement_lt _ _) (Nat.pow_le_pow_right (by decide) narrow)

theorem term_holds_iff (addr : Nat) : (DecodeLogic.term p).Holds addr ↔ p.holds addr := by
  constructor
  · intro holds
    have small : addr < 2 ^ p.width := by
      apply Nat.lt_pow_two_of_testBit
      intro i high
      have given : (DecodeLogic.term p).mask.testBit i = false := by
        rw [testBit_term, decide_eq_false (Nat.not_lt.mpr high), Bool.false_and]
      rw [holds i given]
      exact testBit_of_le p.value_lt high
    refine ⟨small, ?_⟩
    apply Nat.eq_of_testBit_eq
    intro i
    rw [Nat.testBit_and]
    cases given : p.mask.testBit i with
    | true =>
      rw [holds i (by rw [testBit_term, given]; simp), Bool.and_true]
      rfl
    | false =>
      rw [Bool.and_false]
      cases zero : p.value.testBit i with
      | true => rw [← given, p.value_le_mask i zero]
      | false => rfl
  · rintro ⟨small, same⟩ i given
    show addr.testBit i = p.value.testBit i
    rw [testBit_term] at given
    by_cases low : i < p.width
    · have one : p.mask.testBit i = true := by simpa [low] using given
      rw [← same, Nat.testBit_and, one, Bool.and_true]
    · rw [testBit_of_le small (Nat.le_of_not_lt low), testBit_of_le p.value_lt (Nat.le_of_not_lt low)]

end BitPat

namespace DecodeLogic

theorem intersects_eq_false_iff (p q : BitPat) :
    (term p).intersects (term q) = false ↔ ∀ addr, p.holds addr → ¬q.holds addr := by
  rw [Bool.eq_false_iff, ne_eq, Term.intersects_iff]
  simp only [BitPat.term_holds_iff, not_exists, not_and]

theorem apart_iff {mapping : List (BitPat × BitPat)} :
    apart mapping ↔ mapping.Pairwise fun m n => ∀ addr, m.1.holds addr → ¬n.1.holds addr := by
  unfold apart
  simp only [intersects_eq_false_iff]

theorem le_foldl_max (l : List Nat) (n : Nat) : n ≤ l.foldl max n ∧ ∀ k ∈ l, k ≤ l.foldl max n := by
  induction l generalizing n with
  | nil => exact ⟨Nat.le_refl n, fun k inside => (List.not_mem_nil inside).elim⟩
  | cons m l ih =>
    obtain ⟨first, others⟩ := ih (max n m)
    rw [List.foldl_cons]
    refine ⟨Nat.le_trans (Nat.le_max_left n m) first, fun k inside => ?_⟩
    rcases List.mem_cons.mp inside with rfl | later
    · exact Nat.le_trans (Nat.le_max_right n k) first
    · exact others k later

variable {default : BitPat} {mapping : List (BitPat × BitPat)} {i : Nat}

theorem key_fits {m : BitPat × BitPat} (listed : m ∈ mapping) : (term m.1).Fits (addrWidth mapping) :=
  m.1.term_fits ((le_foldl_max _ 0).2 _ (List.mem_map_of_mem listed))

def given (mapping : List (BitPat × BitPat)) (i : Nat) (b : Bool) : List Term :=
  ((mapping.map fun m => (term m.1, term m.2)).filter fun m => !m.2.mask.testBit i && m.2.value.testBit i == b).map Prod.fst

def dontcares (mapping : List (BitPat × BitPat)) (i : Nat) : List Term :=
  ((mapping.map fun m => (term m.1, term m.2)).filter fun m => m.2.mask.testBit i).map Prod.fst

theorem plane_eq (default : BitPat) (mapping : List (BitPat × BitPat)) (width i : Nat) : plane default mapping width i =
    if (term default).mask.testBit i then
      (SimplifyDC.apply (given mapping i true) (given mapping i false) width).map fun terms => ⟨terms, false⟩
    else (Simplify.apply (given mapping i (!defbit default i)) (dontcares mapping i) width).map fun terms =>
      ⟨terms, defbit default i⟩ := by
  unfold plane given dontcares
  cases defbit default i <;> simp

theorem mem_given {b : Bool} {t : Term} : t ∈ given mapping i b ↔ ∃ m ∈ mapping, term m.1 = t ∧ m.2.bit i = some b := by
  simp only [given, List.mem_map, List.mem_filter, Bool.and_eq_true, Bool.not_eq_true', beq_iff_eq, BitPat.bit_eq]
  constructor
  · rintro ⟨_, ⟨⟨m, listed, rfl⟩, fixed, value⟩, rfl⟩
    refine ⟨m, listed, rfl, ?_⟩
    rw [fixed, ← value]
    rfl
  · rintro ⟨m, listed, rfl, value⟩
    refine ⟨(term m.1, term m.2), ⟨⟨m, listed, rfl⟩, ?_⟩, rfl⟩
    cases free : (term m.2).mask.testBit i with
    | true => simp [free] at value
    | false =>
      simp only [free, Bool.false_eq_true, if_false, Option.some.injEq] at value
      exact ⟨rfl, value⟩

theorem mem_dontcares {t : Term} : t ∈ dontcares mapping i ↔ ∃ m ∈ mapping, term m.1 = t ∧ m.2.bit i = none := by
  simp only [dontcares, List.mem_map, List.mem_filter, BitPat.bit_eq]
  constructor
  · rintro ⟨_, ⟨⟨m, listed, rfl⟩, free⟩, rfl⟩
    exact ⟨m, listed, rfl, if_pos free⟩
  · rintro ⟨m, listed, rfl, value⟩
    refine ⟨(term m.1, term m.2), ⟨⟨m, listed, rfl⟩, ?_⟩, rfl⟩
    by_contra fixed
    rw [if_neg fixed] at value
    cases value

theorem fits_of_mem_given {b : Bool} {t : Term} (inside : t ∈ given mapping i b) : t.Fits (addrWidth mapping) := by
  obtain ⟨m, listed, rfl, -⟩ := mem_given.mp inside
  exact key_fits listed

theorem fits_of_mem_dontcares {t : Term} (inside : t ∈ dontcares mapping i) : t.Fits (addrWidth mapping) := by
  obtain ⟨m, listed, rfl, -⟩ := mem_dontcares.mp inside
  exact key_fits listed

theorem holds_of_covered {terms : List Term} {b : Bool} (covered : Covered terms (given mapping i b)) {addr : Nat} :
    ∀ m ∈ mapping, m.2.bit i = some b → m.1.holds addr → ∃ t ∈ terms, t.Holds addr := by
  intro m listed value holds
  obtain ⟨t, inside, covers⟩ := covered (term m.1) (mem_given.mpr ⟨m, listed, rfl, value⟩)
  exact ⟨t, inside, ((m.1.term_holds_iff addr).mpr holds).of_covers covers⟩

theorem unique_key (disjoint : apart mapping) {addr : Nat} {m n : BitPat × BitPat} (first : m ∈ mapping) (second : n ∈ mapping)
    (holds : m.1.holds addr) (holds' : n.1.holds addr) : m = n := by
  by_contra differ
  have swap : Std.Symm fun m n : BitPat × BitPat => ∀ addr, m.1.holds addr → ¬n.1.holds addr :=
    ⟨fun m n apart addr second first => apart addr first second⟩
  exact (apart_iff.mp disjoint).forall first second differ addr holds holds'

/-- The bit that an address has in the table, or in the default where it has no key. -/
structure Serves (default : BitPat) (mapping : List (BitPat × BitPat)) (i addr : Nat) (out : Bool) : Prop where
  row : ∀ m ∈ mapping, m.1.holds addr → ∀ b, m.2.bit i = some b → out = b
  rest : (∀ m ∈ mapping, ¬m.1.holds addr) → ∀ b, default.bit i = some b → out = b

/-- A plane whose terms have the addresses of the keys with the other bit, and no address of a key with
the default's own. -/
theorem serves_of_terms {d : Bool} {terms : List Term} {addr : Nat} (fits : ∀ t ∈ terms, t.Fits (addrWidth mapping))
    (small : addr < 2 ^ addrWidth mapping)
    (on : ∀ m ∈ mapping, m.2.bit i = some (!d) → m.1.holds addr → ∃ t ∈ terms, t.Holds addr)
    (off : ∀ m ∈ mapping, m.2.bit i = some d → m.1.holds addr → ∀ t ∈ terms, ¬t.Holds addr)
    (rest : (∀ m ∈ mapping, ¬m.1.holds addr) → ∀ b, default.bit i = some b → b = d ∧ ∀ t ∈ terms, ¬t.Holds addr) :
    Serves default mapping i addr (Plane.eval ⟨terms, d⟩ addr (addrWidth mapping)) := by
  have low : (∀ t ∈ terms, ¬t.Holds addr) → Plane.eval ⟨terms, d⟩ addr (addrWidth mapping) = d := by
    intro none'
    have zero : logic addr (addrWidth mapping) terms = false := by
      rw [Bool.eq_false_iff, ne_eq, logic_iff fits small]
      rintro ⟨t, listed, holds⟩
      exact none' t listed holds
    simp [Plane.eval, zero]
  constructor
  · intro m listed holds b value
    by_cases same : b = d
    · subst same
      exact low (off m listed value holds)
    · obtain rfl : b = !d := Bool.eq_not.mpr same
      have one := (logic_iff fits small).mpr (on m listed value holds)
      simp [Plane.eval, one]
  · intro none' b value
    obtain ⟨rfl, outside⟩ := rest none' b value
    exact low outside

theorem spared_given (disjoint : apart mapping) :
    ∀ t ∈ given mapping i true, ∀ a, t.Holds a → Spared (given mapping i false) a := by
  intro t one a holds u zero holds'
  obtain ⟨m, listed, rfl, value⟩ := mem_given.mp one
  obtain ⟨n, listed', rfl, value'⟩ := mem_given.mp zero
  obtain rfl := unique_key disjoint listed listed' ((m.1.term_holds_iff a).mp holds) ((n.1.term_holds_iff a).mp holds')
  rw [value] at value'
  cases value'

theorem plane_serves (default : BitPat) (i : Nat) (disjoint : apart mapping) :
    ∃ p, plane default mapping (addrWidth mapping) i = some p ∧
      (default.value.testBit (i % 32) = default.value.testBit i →
        ∀ addr < 2 ^ addrWidth mapping, Serves default mapping i addr (p.eval addr (addrWidth mapping))) := by
  rw [plane_eq]
  by_cases dont : (term default).mask.testBit i = true
  · obtain ⟨terms, made, covered, sound⟩ :=
      SimplifyDC.apply_spec (fun t => fits_of_mem_given) (spared_given (i := i) disjoint)
    rw [if_pos dont, made]
    refine ⟨⟨terms, false⟩, rfl, fun _ addr small => ?_⟩
    apply serves_of_terms (fun t listed => (sound t listed).1) small (holds_of_covered covered)
    · intro m listed value holds t inside holds'
      exact (sound t inside).2 addr holds' (term m.1) (mem_given.mpr ⟨m, listed, rfl, value⟩) ((m.1.term_holds_iff addr).mpr holds)
    · intro _ b value
      rw [default.bit_eq, if_pos dont] at value
      cases value
  · have fits : ∀ t ∈ given mapping i (!defbit default i) ++ dontcares mapping i, t.Fits (addrWidth mapping) := by
      intro t inside
      rcases List.mem_append.mp inside with other | free
      · exact fits_of_mem_given other
      · exact fits_of_mem_dontcares free
    obtain ⟨terms, made, covered, sound⟩ := Simplify.apply_spec fits
    rw [if_neg dont, made]
    refine ⟨⟨terms, defbit default i⟩, rfl, fun agrees addr small => ?_⟩
    -- a point of the cover has a key whose bit is not the default's
    have key : ∀ t ∈ terms, t.Holds addr → ∃ m ∈ mapping, m.1.holds addr ∧ m.2.bit i ≠ some (defbit default i) := by
      intro t inside holds
      obtain ⟨u, listed, holds'⟩ := (sound t inside).2 addr holds
      rcases List.mem_append.mp listed with other | free
      · obtain ⟨m, key, rfl, value⟩ := mem_given.mp other
        refine ⟨m, key, (m.1.term_holds_iff addr).mp holds', ?_⟩
        rw [value]
        simp
      · obtain ⟨m, key, rfl, value⟩ := mem_dontcares.mp free
        refine ⟨m, key, (m.1.term_holds_iff addr).mp holds', ?_⟩
        rw [value]
        simp
    apply serves_of_terms (fun t listed => (sound t listed).1) small (holds_of_covered covered)
    · intro m listed value holds t inside holds'
      obtain ⟨n, listed', holds'', differ⟩ := key t inside holds'
      obtain rfl := unique_key disjoint listed listed' holds holds''
      exact differ value
    · intro none' b value
      rw [default.bit_eq, if_neg dont] at value
      refine ⟨?_, fun t inside holds => ?_⟩
      · rw [← Option.some.inj value, defbit, agrees]
      · obtain ⟨m, listed, holds', -⟩ := key t inside holds
        exact none' m listed holds'

/-! Whole tables. -/

theorem mapM_total {α β : Type} {f : α → Option β} {good : α → β → Prop} (l : List α)
    (right : ∀ a ∈ l, ∃ b, f a = some b ∧ good a b) : ∃ bs, l.mapM f = some bs ∧ List.Forall₂ good l bs := by
  induction l with
  | nil => exact ⟨[], rfl, .nil⟩
  | cons a l ih =>
    obtain ⟨b, made, here⟩ := right a List.mem_cons_self
    obtain ⟨bs, made', there⟩ := ih fun a' inside => right a' (List.mem_cons_of_mem a inside)
    refine ⟨b :: bs, ?_, .cons here there⟩
    rw [List.mapM_cons, made, made']
    rfl

theorem getElem?_forall₂ {α β : Type} {good : α → β → Prop} {l : List α} {bs : List β} (all : List.Forall₂ good l bs) {i : Nat}
    {b : β} (found : bs[i]? = some b) : ∃ a, l[i]? = some a ∧ good a b := by
  induction all generalizing i with
  | nil => cases found
  | cons here _ ih =>
    cases i with
    | zero =>
      cases found
      exact ⟨_, rfl, here⟩
    | succ i => exact ih found

theorem apply_serves (default : BitPat) (some' : mapping ≠ []) (disjoint : apart mapping) (wide : 0 < dataWidth default mapping) :
    ∃ planes, apply default mapping = some planes ∧ planes.length = dataWidth default mapping ∧
      ∀ i p, planes[i]? = some p → default.value.testBit (i % 32) = default.value.testBit i →
        ∀ addr < 2 ^ addrWidth mapping, Serves default mapping i addr (p.eval addr (addrWidth mapping)) := by
  obtain ⟨planes, made, all⟩ := mapM_total (List.range (dataWidth default mapping)) fun i _ => plane_serves default i disjoint
  refine ⟨planes, ?_, ?_, fun i p found => ?_⟩
  · unfold apply
    rw [guard_eq_some some', guard_eq_some disjoint, guard_eq_some wide]
    exact made
  · rw [← all.length_eq, List.length_range]
  · obtain ⟨j, there, serves⟩ := getElem?_forall₂ all found
    have low := (List.getElem?_eq_some_iff.mp there).1
    rw [List.length_range] at low
    rw [List.getElem?_range low] at there
    cases there
    exact serves

/-- The generator fails on no table but an empty one, one without data and one with an address that
has two keys. -/
theorem accepts_iff (default : BitPat) (mapping : List (BitPat × BitPat)) : (apply default mapping).isSome = true ↔
    mapping ≠ [] ∧ (mapping.Pairwise fun m n => ∀ addr, m.1.holds addr → ¬n.1.holds addr) ∧ 0 < dataWidth default mapping := by
  rw [← apart_iff]
  constructor
  · intro accepted
    obtain ⟨planes, made⟩ := Option.isSome_iff_exists.mp accepted
    unfold apply at made
    obtain ⟨_, first, made⟩ := Option.bind_eq_some_iff.mp made
    obtain ⟨_, second, made⟩ := Option.bind_eq_some_iff.mp made
    obtain ⟨_, third, -⟩ := Option.bind_eq_some_iff.mp made
    exact ⟨of_guard first, of_guard second, of_guard third⟩
  · rintro ⟨some', disjoint, wide⟩
    obtain ⟨planes, made, -⟩ := apply_serves default some' disjoint wide
    rw [made]
    rfl

theorem column_disjoint {mappingIn : List (BitPat × List BitPat)}
    (disjoint : mappingIn.Pairwise fun m n => ∀ addr, m.1.holds addr → ¬n.1.holds addr) (s : Nat) : apart (column mappingIn s) := by
  rw [apart_iff, column, List.pairwise_filterMap]
  apply disjoint.imp
  intro m n apart' m' first n' second addr
  obtain ⟨v, -, rfl⟩ := Option.map_eq_some_iff.mp first
  obtain ⟨w, -, rfl⟩ := Option.map_eq_some_iff.mp second
  exact apart' addr

/-- Every signal of a table has, at every address, the bits that the row of the address gives, and
where there is no row those of its default. -/
theorem signals_are_kept (default : List BitPat) (mappingIn : List (BitPat × List BitPat))
    (short : ∀ row ∈ mappingIn, row.2.length ≤ default.length) (used : ∀ s < default.length, column mappingIn s ≠ [])
    (disjoint : mappingIn.Pairwise fun m n => ∀ addr, m.1.holds addr → ¬n.1.holds addr)
    (narrow : ∀ s d, default[s]? = some d → 0 < d.width ∧ dataWidth d (column mappingIn s) ≤ 32) :
    ∃ signals, applySeq default mappingIn = some signals ∧ signals.length = default.length ∧
      ∀ s planes, signals[s]? = some planes → ∃ d, default[s]? = some d ∧ planes.length = dataWidth d (column mappingIn s) ∧
        ∀ i p, planes[i]? = some p → ∀ addr < 2 ^ addrWidth (column mappingIn s),
          Serves d (column mappingIn s) i addr (p.eval addr (addrWidth (column mappingIn s))) := by
  have wide : ∀ d ∈ default.zipIdx, 0 < dataWidth d.1 (column mappingIn d.2) := fun d inside =>
    Nat.lt_of_lt_of_le (narrow d.2 d.1 (List.mem_zipIdx_iff_getElem?.mp inside)).1 (le_foldl_max _ d.1.width).1
  obtain ⟨signals, made, all⟩ := mapM_total default.zipIdx fun d inside =>
    apply_serves d.1 (used d.2 (List.snd_lt_of_mem_zipIdx inside)) (column_disjoint disjoint d.2) (wide d inside)
  refine ⟨signals, ?_, ?_, fun s planes found => ?_⟩
  · have all' : (mappingIn.all fun row => decide (row.2.length ≤ default.length)) = true := by
      simp only [List.all_eq_true, decide_eq_true_eq]
      exact short
    unfold applySeq
    rw [guard_eq_some all']
    exact made
  · rw [← all.length_eq, List.length_zipIdx]
  · obtain ⟨⟨d, s'⟩, there, length, serves⟩ := getElem?_forall₂ all found
    rw [List.getElem?_zipIdx, Option.map_eq_some_iff] at there
    obtain ⟨d', there, same⟩ := there
    rw [Nat.zero_add] at same
    cases same
    refine ⟨d, there, length, fun i p listed => serves i p listed ?_⟩
    -- no bit is asked for above the width of the data
    have low : i < 32 := by
      have bound := (List.getElem?_eq_some_iff.mp listed).1
      rw [length] at bound
      exact Nat.lt_of_lt_of_le bound (narrow s d there).2
    rw [Nat.mod_eq_of_lt low]

/-- Two keys, `1?` and `00`, and two signals; the address `11` has the values of the first key. -/
theorem signals_are_kept_of_two_rows : ∃ signals, applySeq [.ofDigits [none], .ofDigits [some false, none]]
      [(.ofDigits [some true, none], [.ofDigits [some true], .ofDigits [some true, none]]),
        (.ofDigits [some false, some false], [.ofDigits [some false], .ofDigits [none, some true]])] = some signals ∧
    signals.length = 2 ∧ ∀ planes, signals[1]? = some planes → ∀ p, planes[1]? = some p → p.eval 3 2 = true := by
  have disjoint : List.Pairwise (fun m n : BitPat × List BitPat => ∀ addr, m.1.holds addr → ¬n.1.holds addr)
      [(.ofDigits [some true, none], [.ofDigits [some true], .ofDigits [some true, none]]),
        (.ofDigits [some false, some false], [.ofDigits [some false], .ofDigits [none, some true]])] := by
    simp only [← intersects_eq_false_iff]
    decide
  have narrow : ∀ (s : Nat) d, [BitPat.ofDigits [none], .ofDigits [some false, none]][s]? = some d → 0 < d.width ∧ dataWidth d (column
      [(.ofDigits [some true, none], [.ofDigits [some true], .ofDigits [some true, none]]),
        (.ofDigits [some false, some false], [.ofDigits [some false], .ofDigits [none, some true]])] s) ≤ 32 := by
    intro s d found
    match s, found with
    | 0, rfl => decide
    | 1, rfl => decide
  obtain ⟨signals, made, length, serves⟩ := signals_are_kept _ _ (by decide) (by decide) disjoint narrow
  refine ⟨signals, made, length, fun planes found p listed => ?_⟩
  obtain ⟨d, -, -, right⟩ := serves 1 planes found
  exact (right 1 p listed 3 (by decide)).row (.ofDigits [some true, none], .ofDigits [some true, none])
    List.mem_cons_self (by decide) true rfl

end DecodeLogic

end LowRisc.Rocket.Decode
