import LowRisc.Rocket.DecodeCovers

/-! Sums of products.

The choice among the primes never fails and leaves a cover: essential terms first, then the cheapest
of all choices of one term for each minterm that is left.
-/

set_option autoImplicit false

namespace LowRisc.Rocket.Decode

def Covered (terms minterms : List Term) : Prop := ∀ m ∈ minterms, ∃ p ∈ terms, p.covers m = true

theorem guard_eq_some {p : Prop} [Decidable p] (right : p) : (guard p : Option Unit) = some () := if_pos right

theorem of_guard {p : Prop} [Decidable p] {u : Unit} (passed : (guard p : Option Unit) = some u) : p := by
  by_contra wrong
  rw [guard, if_neg wrong] at passed
  cases passed

namespace Simplify

variable {prime minterms : List Term}

theorem covered_without (covered : Covered prime minterms) {q : Term} (found : dominated prime minterms = some q) :
    Covered (without prime q) minterms := by
  obtain ⟨p, inside, -, more, better⟩ := mem_of_dominated found
  have apart : p ≠ q := by
    rintro rfl
    exact Nat.lt_irrefl _ more
  intro m listed
  obtain ⟨r, inside', covers⟩ := covered m listed
  by_cases same : r = q
  · rw [same] at covers
    exact ⟨p, List.mem_filter.mpr ⟨inside, by simpa using apart⟩, better m listed covers⟩
  · exact ⟨r, List.mem_filter.mpr ⟨inside', by simpa using same⟩, covers⟩

theorem covered_nonessential (covered : Covered prime minterms) :
    Covered (nonessential prime minterms) (uncovered prime minterms) := by
  intro m listed
  obtain ⟨listed, free⟩ := List.mem_filter.mp listed
  obtain ⟨p, inside, covers⟩ := covered m listed
  refine ⟨p, List.mem_filter.mpr ⟨inside, ?_⟩, covers⟩
  simp only [Bool.not_eq_true', List.any_eq_false, decide_eq_false_iff_not] at free ⊢
  exact fun essential => free p essential covers

theorem covered_or_uncovered (m : Term) (listed : m ∈ minterms) :
    (∃ p ∈ essential prime minterms, p.covers m = true) ∨ m ∈ uncovered prime minterms := by
  by_cases done : ∃ p ∈ essential prime minterms, p.covers m = true
  · exact .inl done
  · refine .inr (List.mem_filter.mpr ⟨listed, ?_⟩)
    simp only [Bool.not_eq_true', List.any_eq_false]
    exact fun p inside covers => done ⟨p, inside, covers⟩

/-- What is not covered by the essential terms is covered by the others. -/
structure Split (prime minterms : List Term) (parts : List Term × List Term × List Term) : Prop where
  essential : ∀ p ∈ parts.1, p ∈ prime
  others : ∀ p ∈ parts.2.1, p ∈ prime
  either : ∀ m ∈ minterms, (∃ p ∈ parts.1, p.covers m = true) ∨ m ∈ parts.2.2
  rest : Covered parts.2.1 parts.2.2

theorem getEssentialPrimeImplicants_split (covered : Covered prime minterms) :
    Split prime minterms (getEssentialPrimeImplicants prime minterms) := by
  induction prime, minterms using getEssentialPrimeImplicants.induct with
  -- a term that another one dominates is dropped
  | case1 prime minterms q found ih =>
    have split := ih (covered_without covered found)
    rw [getEssentialPrimeImplicants]
    split
    · rename_i q' found'
      obtain rfl : q' = q := by
        rw [found] at found'
        exact (Option.some.inj found').symm
      exact ⟨fun p inside => (List.mem_filter.mp (split.essential p inside)).1,
        fun p inside => (List.mem_filter.mp (split.others p inside)).1, split.either, split.rest⟩
    · rename_i none'
      rw [found] at none'
      cases none'
  -- nothing is essential, or everything is covered
  | case2 prime minterms none' final =>
    rw [getEssentialPrimeImplicants]
    split
    · rename_i found
      rw [none'] at found
      cases found
    · rw [dif_pos final]
      exact ⟨fun p inside => (List.mem_filter.mp inside).1, fun p inside => (List.mem_filter.mp inside).1,
        covered_or_uncovered, covered_nonessential covered⟩
  -- the essential terms are set aside, and the others have to cover the rest
  | case3 prime minterms none' more a b c parts ih =>
    have split := ih (covered_nonessential covered)
    rw [getEssentialPrimeImplicants]
    split
    · rename_i found
      rw [none'] at found
      cases found
    · rw [dif_neg more]
      refine ⟨fun p inside => ?_, fun p inside => (List.mem_filter.mp (split.others p inside)).1, fun m listed => ?_, split.rest⟩
      · rcases List.mem_append.mp inside with now | later
        · exact (List.mem_filter.mp now).1
        · exact (List.mem_filter.mp (split.essential p later)).1
      · rcases @covered_or_uncovered prime minterms m listed with ⟨p, inside, covers⟩ | left
        · exact .inl ⟨p, List.mem_append_left _ inside, covers⟩
        · rcases split.either m left with ⟨p, inside, covers⟩ | still
          · exact .inl ⟨p, List.mem_append_right _ inside, covers⟩
          · exact .inr still

/-! Choices. -/

theorem reduceLeft_some {α : Type} (f : α → α → α) {l : List α} (some' : l ≠ []) : ∃ a, reduceLeft f l = some a := by
  cases l with
  | nil => exact absurd rfl some'
  | cons a l => exact ⟨_, rfl⟩

theorem mem_of_reduceLeft {α : Type} {f : α → α → α} (picks : ∀ a b, f a b = a ∨ f a b = b) {l : List α} {a : α}
    (reduced : reduceLeft f l = some a) : a ∈ l := by
  have fold : ∀ (l : List α) (b : α), l.foldl f b = b ∨ l.foldl f b ∈ l := by
    intro l
    induction l with
    | nil => exact fun b => .inl rfl
    | cons c l ih =>
      intro b
      rw [List.foldl_cons]
      rcases ih (f b c) with same | inside
      · rw [same]
        rcases picks b c with left | right
        · exact .inl left
        · exact .inr (by rw [right]; exact List.mem_cons_self)
      · exact .inr (List.mem_cons_of_mem c inside)
  cases l with
  | nil => cases reduced
  | cons b l =>
    cases reduced
    rcases fold l b with same | inside
    · rw [same]
      exact List.mem_cons_self
    · exact List.mem_cons_of_mem b inside

/-- A set of terms that takes in one of the sets of each choice, and nothing else. -/
structure Chosen (choices : List (List (List Term))) (set : List Term) : Prop where
  hits : ∀ c ∈ choices, ∃ s ∈ c, s ⊆ set
  only : ∀ t ∈ set, ∃ c ∈ choices, ∃ s ∈ c, t ∈ s

theorem chosen_product (c : List (List Term)) (rest : List (List (List Term))) (inhabited : c ≠ [] ∧ ∀ d ∈ rest, d ≠ []) :
    let all := rest.foldl (fun c0 c1 => c0.flatMap fun a => c1.map fun b => b ∪ a) c
    all ≠ [] ∧ ∀ set ∈ all, Chosen (c :: rest) set := by
  induction rest generalizing c with
  | nil =>
    refine ⟨inhabited.1, fun set inside => ⟨fun d listed => ?_, fun t member => ⟨c, List.mem_singleton_self c, set, inside, member⟩⟩⟩
    rw [List.mem_singleton] at listed
    exact ⟨set, by rw [listed]; exact inside, List.Subset.refl set⟩
  | cons d rest ih =>
    obtain ⟨first, others⟩ := inhabited
    have second := others d List.mem_cons_self
    obtain ⟨a, c', rfl⟩ := List.exists_cons_of_ne_nil first
    obtain ⟨b, d', rfl⟩ := List.exists_cons_of_ne_nil second
    have product := ih ((a :: c').flatMap fun a => (b :: d').map fun b => b ∪ a)
      ⟨by simp, fun e listed => others e (List.mem_cons_of_mem _ listed)⟩
    refine ⟨product.1, fun set inside => ?_⟩
    obtain ⟨hits, only⟩ := product.2 set inside
    obtain ⟨s, pair, within⟩ := hits _ List.mem_cons_self
    obtain ⟨x, left, pair⟩ := List.mem_flatMap.mp pair
    obtain ⟨y, right, rfl⟩ := List.mem_map.mp pair
    refine ⟨fun e listed => ?_, fun t member => ?_⟩
    · simp only [List.mem_cons] at listed
      rcases listed with rfl | rfl | later
      · exact ⟨x, left, fun t member => within (List.mem_union_iff.mpr (.inr member))⟩
      · exact ⟨y, right, fun t member => within (List.mem_union_iff.mpr (.inl member))⟩
      · exact hits e (List.mem_cons_of_mem _ later)
    · obtain ⟨e, listed, s, inside', member'⟩ := only t member
      rcases List.mem_cons.mp listed with rfl | later
      · obtain ⟨x, left, pair⟩ := List.mem_flatMap.mp inside'
        obtain ⟨y, right, rfl⟩ := List.mem_map.mp pair
        rcases List.mem_union_iff.mp member' with here | here
        · exact ⟨_, List.mem_cons_of_mem _ List.mem_cons_self, y, right, here⟩
        · exact ⟨_, List.mem_cons_self, x, left, here⟩
      · exact ⟨e, List.mem_cons_of_mem _ (List.mem_cons_of_mem _ later), s, inside', member'⟩

theorem getCover_spec {implicants minterms : List Term} (bits : Nat) (covered : Covered implicants minterms) :
    ∃ cover, getCover implicants minterms bits = some cover ∧ (∀ p ∈ cover, p ∈ implicants) ∧ Covered cover minterms := by
  unfold getCover
  by_cases none' : minterms = []
  · rw [if_pos none', none']
    exact ⟨[], rfl, fun p inside => (List.not_mem_nil inside).elim, fun m listed => (List.not_mem_nil listed).elim⟩
  · rw [if_neg none']
    obtain ⟨m, ms, rfl⟩ := List.exists_cons_of_ne_nil none'
    have inhabited : ∀ m' ∈ m :: ms, ((implicants.filter fun i => i.covers m').map fun i => [i]) ≠ [] := by
      intro m' listed empty
      obtain ⟨p, inside, covers⟩ := covered m' listed
      rw [List.map_eq_nil_iff, List.filter_eq_nil_iff] at empty
      exact empty p inside covers
    have product := chosen_product ((implicants.filter fun i => i.covers m).map fun i => [i])
      (ms.map fun m' => (implicants.filter fun i => i.covers m').map fun i => [i])
      ⟨inhabited m List.mem_cons_self, fun d listed => by
        obtain ⟨m', inside, rfl⟩ := List.mem_map.mp listed
        exact inhabited m' (List.mem_cons_of_mem m inside)⟩
    obtain ⟨cover, reduced⟩ := reduceLeft_some (fun a b => if cheaper a b bits then a else b) product.1
    have chosen := product.2 cover (mem_of_reduceLeft (fun a b => by by_cases less : cheaper a b bits <;> simp [less]) reduced)
    refine ⟨cover, reduced, fun p inside => ?_, fun m' listed => ?_⟩
    · obtain ⟨c, listed, s, inside', member⟩ := chosen.only p inside
      rw [← List.map_cons (f := fun m' => (implicants.filter fun i => i.covers m').map fun i => [i])] at listed
      obtain ⟨m', -, rfl⟩ := List.mem_map.mp listed
      obtain ⟨i, kept, rfl⟩ := List.mem_map.mp inside'
      rw [List.mem_singleton] at member
      rw [member]
      exact (List.mem_filter.mp kept).1
    · have choice : ((implicants.filter fun i => i.covers m').map fun i => [i]) ∈
          (m :: ms).map fun m' => (implicants.filter fun i => i.covers m').map fun i => [i] := List.mem_map_of_mem listed
      obtain ⟨s, inside, within⟩ := chosen.hits _ choice
      obtain ⟨i, kept, rfl⟩ := List.mem_map.mp inside
      exact ⟨i, within (List.mem_singleton_self i), (List.mem_filter.mp kept).2⟩

theorem guard_covered {terms minterms : List Term} (covered : Covered terms minterms) :
    (guard (minterms.all fun t => terms.any fun p => p.covers t) : Option Unit) = some () := by
  have all : (minterms.all fun t => terms.any fun p => p.covers t) = true := by
    simp only [List.all_eq_true, List.any_eq_true]
    exact covered
  exact guard_eq_some all

/-- The cover that the primes leave after both steps. -/
theorem cover_spec {prime minterms : List Term} (bits : Nat) (covered : Covered prime minterms) :
    ∃ rest, getCover (getEssentialPrimeImplicants prime minterms).2.1 (getEssentialPrimeImplicants prime minterms).2.2 bits = some rest
      ∧ (∀ p ∈ (getEssentialPrimeImplicants prime minterms).1 ++ rest, p ∈ prime)
      ∧ Covered ((getEssentialPrimeImplicants prime minterms).1 ++ rest) minterms := by
  have split := getEssentialPrimeImplicants_split covered
  obtain ⟨rest, chosen, inside, covers⟩ := getCover_spec bits split.rest
  refine ⟨rest, chosen, fun p listed => ?_, fun m listed => ?_⟩
  · rcases List.mem_append.mp listed with left | right
    · exact split.essential p left
    · exact split.others p (inside p right)
  · rcases split.either m listed with ⟨p, inside', covers'⟩ | left
    · exact ⟨p, List.mem_append_left _ inside', covers'⟩
    · obtain ⟨p, inside', covers'⟩ := covers m left
      exact ⟨p, List.mem_append_right _ inside', covers'⟩

/-- The sum of products covers the minterms and nothing outside the minterms and don't-cares. -/
theorem apply_spec {minterms dontcares : List Term} {bits : Nat} (fits : ∀ t ∈ minterms ++ dontcares, t.Fits bits) :
    ∃ cover, apply minterms dontcares bits = some cover ∧ Covered cover minterms ∧
      ∀ p ∈ cover, p.Fits bits ∧ ∀ a, p.Holds a → ∃ t ∈ minterms ++ dontcares, t.Holds a := by
  have still : ∀ row s, sweep bits bits row s = s := by
    intro row s
    simp [sweep]
  have good : (∀ p ∈ getPrimeImplicants (minterms ++ dontcares) bits,
        p.Fits bits ∧ ∀ a, p.Holds a → ∃ t ∈ minterms ++ dontcares, t.Holds a) ∧
      Covered (getPrimeImplicants (minterms ++ dontcares) bits) (minterms ++ dontcares) :=
    primes_spec (fun t listed => ⟨fits t listed, fun a holds => ⟨t, listed, holds⟩⟩)
      (fun members _ s => extends_sweep members s) still
  obtain ⟨sound, complete⟩ := good
  have covered : Covered (getPrimeImplicants (minterms ++ dontcares) bits) minterms :=
    fun m listed => complete m (List.mem_append_left _ listed)
  obtain ⟨rest, chosen, inside, covers⟩ := cover_spec bits covered
  refine ⟨_, ?_, covers, fun p listed => sound p (inside p listed)⟩
  unfold apply
  simp only [Option.bind_eq_bind, pure]
  rw [chosen, guard_covered covered, Option.bind_some, Option.bind_some, guard_covered covers]
  rfl

end Simplify

namespace SimplifyDC

/-- The sum of products covers the minterms and meets no maxterm. -/
theorem apply_spec {minterms maxterms : List Term} {bits : Nat} (fits : ∀ t ∈ minterms, t.Fits bits)
    (spared : ∀ t ∈ minterms, ∀ a, t.Holds a → Spared maxterms a) :
    ∃ cover, apply minterms maxterms bits = some cover ∧ Covered cover minterms ∧
      ∀ p ∈ cover, p.Fits bits ∧ ∀ a, p.Holds a → Spared maxterms a := by
  have still : ∀ row s, sweep maxterms bits bits row s = s := by
    intro row s
    simp [sweep, sweepImplicit, Simplify.sweep]
  have good : (∀ p ∈ getPrimeImplicants minterms maxterms bits, p.Fits bits ∧ ∀ a, p.Holds a → Spared maxterms a) ∧
      Covered (getPrimeImplicants minterms maxterms bits) minterms :=
    primes_spec (fun t listed => ⟨fits t listed, spared t listed⟩) (fun members _ s => extends_sweep members s) still
  obtain ⟨sound, complete⟩ := good
  obtain ⟨rest, chosen, inside, covers⟩ := Simplify.cover_spec bits complete
  refine ⟨_, ?_, covers, fun p listed => sound p (inside p listed)⟩
  have verified : verify ((Simplify.getEssentialPrimeImplicants (getPrimeImplicants minterms maxterms bits) minterms).1 ++ rest)
      minterms maxterms = true := by
    simp only [verify, Bool.and_eq_true, List.all_eq_true, List.any_eq_true, Bool.not_eq_true', List.any_eq_false]
    refine ⟨covers, fun m listed p kept meets => ?_⟩
    obtain ⟨a, holds, holds'⟩ := Term.intersects_iff.mp meets
    exact (sound p (inside p kept)).2 a holds m listed holds'
  unfold apply
  simp only [Option.bind_eq_bind, pure]
  rw [chosen, Option.bind_some, verified]
  rfl

end SimplifyDC

/-! The logic of a cover. -/

theorem testBit_complement {width mask : Nat} (small : mask < 2 ^ width) (i : Nat) :
    (2 ^ width - (mask + 1)).testBit i = (decide (i < width) && !mask.testBit i) :=
  Nat.testBit_two_pow_sub_succ small i

theorem complement_lt (width mask : Nat) : 2 ^ width - (mask + 1) < 2 ^ width :=
  Nat.sub_lt (Nat.two_pow_pos width) (Nat.succ_pos mask)

theorem testBit_of_le {n width i : Nat} (small : n < 2 ^ width) (high : width ≤ i) : n.testBit i = false :=
  Nat.testBit_lt_two_pow (Nat.lt_of_lt_of_le small (Nat.pow_le_pow_right (by decide) high))

theorem Term.holds_iff {t : Term} {width addr : Nat} (fits : t.Fits width) (small : addr < 2 ^ width) :
    t.Holds addr ↔ addr &&& (2 ^ width - (t.mask + 1)) = t.value := by
  constructor
  · intro holds
    apply Nat.eq_of_testBit_eq
    intro i
    rw [Nat.testBit_and, testBit_complement fits.mask_lt]
    cases free : t.mask.testBit i with
    | true => simp [fits.free i free]
    | false =>
      by_cases low : i < width
      · simp [low, holds i free]
      · rw [testBit_of_le small (Nat.le_of_not_lt low), testBit_of_le fits.value_lt (Nat.le_of_not_lt low), Bool.false_and]
  · intro same i given
    rw [← same, Nat.testBit_and, testBit_complement fits.mask_lt, given]
    by_cases low : i < width
    · simp [low]
    · rw [testBit_of_le small (Nat.le_of_not_lt low), Bool.false_and]

theorem DecodeLogic.logic_iff {terms : List Term} {addr addrWidth : Nat} (fits : ∀ t ∈ terms, t.Fits addrWidth)
    (small : addr < 2 ^ addrWidth) : DecodeLogic.logic addr addrWidth terms = true ↔ ∃ t ∈ terms, t.Holds addr := by
  simp only [DecodeLogic.logic, List.any_eq_true, decide_eq_true_eq]
  apply exists_congr
  intro t
  apply and_congr_right
  intro listed
  rw [Term.holds_iff (fits t listed) small]
  split
  · rename_i full
    have whole : addr &&& (2 ^ addrWidth - (t.mask + 1)) = addr := by
      apply Nat.eq_of_testBit_eq
      intro i
      rw [Nat.testBit_and, testBit_complement (fits t listed).mask_lt, full, Nat.zero_testBit]
      by_cases low : i < addrWidth
      · simp [low]
      · rw [testBit_of_le small (Nat.le_of_not_lt low), Bool.false_and]
    rw [whole]
  · rfl

end LowRisc.Rocket.Decode
