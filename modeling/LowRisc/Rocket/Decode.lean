import LowRisc.Lib.Transition
import Mathlib.Data.List.Dedup
import Mathlib.Data.Nat.Bitwise
import Mathlib.Data.Nat.Digits.Defs

/-! Decode tables as two-level logic.

A table maps bit patterns of an address to values with don't-cares. For each bit of the value the
generator looks for a cheap sum of products: it merges the patterns into prime implicants, keeps
those that are essential and picks the cheapest cover of what is left.
-/

set_option autoImplicit false

namespace LowRisc.Rocket.Decode

open LowRisc.Lib

def andNot (a b : Nat) : Nat := a ^^^ (a &&& b)

def bitCount (x : Nat) : Nat := (Nat.digits 2 x).sum

/-- A product term: the bits in the mask are free. -/
structure Term where
  value : Nat
  mask : Nat
  deriving DecidableEq, Repr

namespace Term

variable (t x : Term)

def covers : Bool := decide (andNot (t.value ^^^ x.value) t.mask ||| andNot x.mask t.mask = 0)

def intersects : Bool := decide (andNot (andNot (t.value ^^^ x.value) t.mask) x.mask = 0)

def lt : Bool := decide (t.value < x.value) || decide (t.value = x.value) && decide (t.mask < x.mask)

def similar : Bool :=
  let diff := t.value - x.value
  decide (t.mask = x.mask) && decide (x.value < t.value) && decide (diff &&& (diff - 1) = 0)

def merge : Term :=
  let bit := t.value - x.value
  ⟨andNot t.value bit, t.mask ||| bit⟩

end Term

def sorted (l : List Term) : List Term := l.mergeSort fun a b => !b.lt a

/-- One column of the table while it is merged into the next: the sets of the next column and the
terms whose flag `prime` is down. -/
structure Sweep where
  next : Nat → List Term
  merged : List Term

namespace Sweep

def prime (s : Sweep) (t : Term) : Bool := !decide (t ∈ s.merged)

/-- A merged term goes to set `j` of the next column. -/
def add (j : Nat) (s : Sweep) (m : Term × List Term) : Sweep := ⟨upd s.next j ((s.next j).insert m.1), m.2 ++ s.merged⟩

end Sweep

/-- The sets of column `i`, by the number of ones. -/
def cols (implicants : List Term) (i j : Nat) : List Term :=
  (implicants.filter fun t => decide (bitCount t.mask = i) && decide (bitCount t.value = j)).dedup

/-- The columns from `i` on; the terms that are prime leave the table. -/
def primes (implicants : List Term) (bits : Nat) (sweep : Nat → (Nat → List Term) → Sweep → Sweep) :
    Nat → Nat → (Nat → List Term) → List Term
  | 0, _, _ => []
  | n + 1, i, row =>
    let s := sweep i row ⟨cols implicants (i + 1), []⟩
    ((List.range (bits + 1)).flatMap row).filter s.prime ++ primes implicants bits sweep n (i + 1) s.next

namespace Simplify

/-- The merges of set `j` with set `j + 1`. -/
def similarTerms (row : Nat → List Term) (j : Nat) : List (Term × List Term) :=
  (row j).flatMap fun a => ((row (j + 1)).filter fun b => b.similar a).map fun b => (b.merge a, [b, a])

def sweep (bits i : Nat) (row : Nat → List Term) (s : Sweep) : Sweep :=
  (List.range (bits - i)).foldl (fun s j => (similarTerms row j).foldl (Sweep.add j) s) s

def getPrimeImplicants (implicants : List Term) (bits : Nat) : List Term :=
  sorted (primes implicants bits (sweep bits) (bits + 1) 0 (cols implicants 0))

/-- The first term whose minterms another term covers along with more of them. -/
def dominated (prime minterms : List Term) : Option Term :=
  prime.findSome? fun p => prime.find? fun q =>
    let icover := minterms.filter p.covers
    let jcover := minterms.filter q.covers
    decide (jcover.length < icover.length) && jcover.all p.covers

theorem mem_of_dominated {prime minterms : List Term} {q : Term} (found : dominated prime minterms = some q) :
    ∃ p ∈ prime, q ∈ prime ∧ (minterms.filter q.covers).length < (minterms.filter p.covers).length
      ∧ ∀ m ∈ minterms, q.covers m = true → p.covers m = true := by
  obtain ⟨p, inside, found⟩ := List.exists_of_findSome?_eq_some found
  have test := List.find?_some found
  simp only [Bool.and_eq_true, decide_eq_true_eq, List.all_eq_true, List.mem_filter] at test
  exact ⟨p, inside, List.mem_of_find?_eq_some found, test.1, fun m listed covered => test.2 m ⟨listed, covered⟩⟩

/-- `prime.filter(_ != q)`. -/
def without (prime : List Term) (q : Term) : List Term := prime.filter fun p => decide (p ≠ q)

/-- The terms that alone cover some minterm. -/
def essential (prime minterms : List Term) : List Term :=
  let essentiallyCovered := minterms.filter fun t => decide (prime.countP (fun p => p.covers t) = 1)
  prime.filter fun p => essentiallyCovered.any p.covers

def nonessential (prime minterms : List Term) : List Term := prime.filter fun p => !decide (p ∈ essential prime minterms)

def uncovered (prime minterms : List Term) : List Term :=
  minterms.filter fun t => !(essential prime minterms).any fun p => p.covers t

theorem length_without_lt {prime : List Term} {q : Term} (inside : q ∈ prime) : (without prime q).length < prime.length := by
  unfold without
  rw [List.length_filter_lt_length_iff_exists]
  exact ⟨q, inside, by simp⟩

theorem length_nonessential_lt {prime minterms : List Term} (some' : essential prime minterms ≠ []) :
    (nonessential prime minterms).length < prime.length := by
  obtain ⟨p, rest, list⟩ := List.exists_cons_of_ne_nil some'
  have listed : p ∈ essential prime minterms := by
    rw [list]
    exact List.mem_cons_self
  unfold nonessential
  rw [List.length_filter_lt_length_iff_exists]
  exact ⟨p, (List.mem_filter.mp listed).1, by simp [listed]⟩

/-- Essential terms, the other terms and the minterms that are left for them. -/
def getEssentialPrimeImplicants (prime minterms : List Term) : List Term × List Term × List Term :=
  match found : dominated prime minterms with
  | some q => getEssentialPrimeImplicants (without prime q) minterms
  | none =>
    if final : essential prime minterms = [] ∨ uncovered prime minterms = [] then
      (essential prime minterms, nonessential prime minterms, uncovered prime minterms)
    else
      let (a, b, c) := getEssentialPrimeImplicants (nonessential prime minterms) (uncovered prime minterms)
      (essential prime minterms ++ a, b, c)
termination_by prime.length
decreasing_by
  · obtain ⟨-, -, inside, -⟩ := mem_of_dominated found
    exact length_without_lt inside
  · exact length_nonessential_lt (not_or.mp final).1

def getCost (cover : List Term) (bits : Nat) : Nat := (cover.map fun t => bits - bitCount t.mask).sum

def listLess : List Term → List Term → Bool
  | _, [] => false
  | [], _ :: _ => true
  | a :: as, b :: bs => a.lt b || decide (a = b) && listLess as bs

def cheaper (a b : List Term) (bits : Nat) : Bool :=
  decide (getCost a bits < getCost b bits) || decide (getCost a bits = getCost b bits) && listLess (sorted a) (sorted b)

/-- `reduceLeft`, which fails on the empty list. -/
def reduceLeft {α : Type} (f : α → α → α) : List α → Option α
  | [] => none
  | a :: rest => some (rest.foldl f a)

/-- All choices of one implicant for each minterm, of which the cheapest is taken. -/
def getCover (implicants minterms : List Term) (bits : Nat) : Option (List Term) :=
  if minterms = [] then some []
  else do
    let cover := minterms.map fun m => (implicants.filter fun i => i.covers m).map fun i => [i]
    let all ← reduceLeft (fun c0 c1 => c0.flatMap fun a => c1.map fun b => b ∪ a) cover
    reduceLeft (fun a b => if cheaper a b bits then a else b) all

/-- The sum of products; the assertions fail with `none`. -/
def apply (minterms dontcares : List Term) (bits : Nat) : Option (List Term) := do
  let prime := getPrimeImplicants (minterms ++ dontcares) bits
  guard (minterms.all fun t => prime.any fun p => p.covers t)
  let (eprime, prime2, uncovered) := getEssentialPrimeImplicants prime minterms
  let rest ← getCover prime2 uncovered bits
  let cover := eprime ++ rest
  guard (minterms.all fun t => cover.any fun p => p.covers t)
  return cover

end Simplify

namespace SimplifyDC

/-- A neighbour of the term, with one bit more or one bit less, that no maxterm meets. -/
def getImplicitDC (maxterms : List Term) (term : Term) (bits : Nat) (above : Bool) : Option Term :=
  (List.range bits).findSome? fun i =>
    let t := if above && decide ((term.value ||| term.mask) &&& 2 ^ i = 0) then some ⟨term.value ||| 2 ^ i, term.mask⟩
      else if !above && decide (term.value &&& 2 ^ i ≠ 0) then some ⟨andNot term.value (2 ^ i), term.mask⟩
      else none
    t.bind fun t => if maxterms.any fun m => m.intersects t then none else some t

def implicitAbove (maxterms : List Term) (bits : Nat) (set : List Term) : List (Term × List Term) :=
  set.filterMap fun a => (getImplicitDC maxterms a bits true).map fun dc => (dc.merge a, [a])

def implicitBelow (maxterms : List Term) (bits : Nat) (set : List Term) : List (Term × List Term) :=
  set.filterMap fun a => (getImplicitDC maxterms a bits false).map fun dc => (a.merge dc, [a])

/-- Terms that are still prime are merged with neighbours outside the maxterms. -/
def sweepImplicit (maxterms : List Term) (bits i : Nat) (row : Nat → List Term) (s : Sweep) : Sweep :=
  (List.range (bits - i)).foldl (fun s j =>
    let s := (implicitAbove maxterms bits ((row j).filter s.prime)).foldl (Sweep.add j) s
    (implicitBelow maxterms bits ((row (j + 1)).filter s.prime)).foldl (Sweep.add j) s) s

def sweep (maxterms : List Term) (bits i : Nat) (row : Nat → List Term) (s : Sweep) : Sweep :=
  sweepImplicit maxterms bits i row (Simplify.sweep bits i row s)

def getPrimeImplicants (minterms maxterms : List Term) (bits : Nat) : List Term :=
  sorted (primes minterms bits (sweep maxterms bits) (bits + 1) 0 (cols minterms 0))

def verify (cover minterms maxterms : List Term) : Bool :=
  (minterms.all fun t => cover.any fun p => p.covers t) && maxterms.all fun t => !cover.any fun p => p.intersects t

def apply (minterms maxterms : List Term) (bits : Nat) : Option (List Term) := do
  let prime := getPrimeImplicants minterms maxterms bits
  let (eprime, prime2, uncovered) := Simplify.getEssentialPrimeImplicants prime minterms
  let rest ← Simplify.getCover prime2 uncovered bits
  let cover := eprime ++ rest
  guard (verify cover minterms maxterms)
  return cover

end SimplifyDC

/-- A bit pattern: the bits in the mask are given, the others are `?`. -/
structure BitPat where
  value : Nat
  mask : Nat
  width : Nat
  value_and_mask : value &&& mask = value
  mask_lt : mask < 2 ^ width

namespace BitPat

theorem snoc_value_and_mask (p : BitPat) (d : Option Bool) :
    (2 * p.value + (d == some true).toNat) &&& (2 * p.mask + d.isSome.toNat) = 2 * p.value + (d == some true).toNat := by
  have digit : ∀ n b, 2 * n + b.toNat = Nat.bit b n := by
    intro n b
    cases b <;> simp [Nat.bit]
  rw [digit, digit, Nat.land_bit, p.value_and_mask]
  cases d with
  | none => rfl
  | some b => simp

theorem snoc_mask_lt (p : BitPat) (d : Option Bool) : 2 * p.mask + d.isSome.toNat < 2 ^ (p.width + 1) := by
  have low := Bool.toNat_lt d.isSome
  have high := p.mask_lt
  rw [Nat.pow_succ]
  omega

/-- One more digit, `none` for `?`. -/
def snoc (p : BitPat) (d : Option Bool) : BitPat where
  value := 2 * p.value + (d == some true).toNat
  mask := 2 * p.mask + d.isSome.toNat
  width := p.width + 1
  value_and_mask := snoc_value_and_mask p d
  mask_lt := snoc_mask_lt p d

theorem zero_lt : 0 < 2 ^ 0 := Nat.one_pos

theorem zero_and : 0 &&& 0 = 0 := Nat.zero_and 0

def ofDigits (l : List (Option Bool)) : BitPat := l.foldl snoc ⟨0, 0, 0, zero_and, zero_lt⟩

def holds (p : BitPat) (addr : Nat) : Prop := addr < 2 ^ p.width ∧ addr &&& p.mask = p.value

instance (p : BitPat) (addr : Nat) : Decidable (p.holds addr) := inferInstanceAs (Decidable (_ ∧ _))

/-- Bit `i` of the pattern, if it is given; above its width a pattern is zero. -/
def bit (p : BitPat) (i : Nat) : Option Bool :=
  if i < p.width ∧ p.mask.testBit i = false then none else some (p.value.testBit i)

end BitPat

/-- The logic for one bit of the value. -/
structure Plane where
  terms : List Term
  negated : Bool
  deriving DecidableEq, Repr

namespace DecodeLogic

def term (lit : BitPat) : Term := ⟨lit.value, 2 ^ lit.width - (lit.mask + 1)⟩

/-- Without the memo table `caches`, which only shares the logic of equal terms. -/
def logic (addr addrWidth : Nat) (terms : List Term) : Bool :=
  terms.any fun t => decide ((if t.mask = 0 then addr else addr &&& (2 ^ addrWidth - (t.mask + 1))) = t.value)

/-- The default is a number of 32 bits here, and a shift takes the distance modulo 32. -/
def defbit (default : BitPat) (i : Nat) : Bool := default.value.testBit (i % 32)

def plane (default : BitPat) (mapping : List (BitPat × BitPat)) (addrWidth i : Nat) : Option Plane :=
  let dterm := term default
  let termvalues := mapping.map fun m => (term m.1, term m.2)
  let mint := (termvalues.filter fun m => !m.2.mask.testBit i && m.2.value.testBit i).map Prod.fst
  let maxt := (termvalues.filter fun m => !m.2.mask.testBit i && !m.2.value.testBit i).map Prod.fst
  let dc := (termvalues.filter fun m => m.2.mask.testBit i).map Prod.fst
  if dterm.mask.testBit i then (SimplifyDC.apply mint maxt addrWidth).map fun terms => ⟨terms, false⟩
  else (Simplify.apply (if defbit default i then maxt else mint) dc addrWidth).map fun terms => ⟨terms, defbit default i⟩

def addrWidth (mapping : List (BitPat × BitPat)) : Nat := (mapping.map fun m => m.1.width).foldl max 0

def dataWidth (default : BitPat) (mapping : List (BitPat × BitPat)) : Nat :=
  (mapping.map fun m => m.2.width).foldl max default.width

/-- The keys overlap nowhere, as the generator asserts. -/
def apart (mapping : List (BitPat × BitPat)) : Prop :=
  mapping.Pairwise fun m n => (term m.1).intersects (term n.1) = false

instance (mapping : List (BitPat × BitPat)) : Decidable (apart mapping) :=
  inferInstanceAs (Decidable (mapping.Pairwise _))

/-- The planes from bit 0 on; `max` and `reduceRight` fail where there is nothing. -/
def apply (default : BitPat) (mapping : List (BitPat × BitPat)) : Option (List Plane) := do
  guard (mapping ≠ [])
  guard (apart mapping)
  guard (0 < dataWidth default mapping)
  (List.range (dataWidth default mapping)).mapM (plane default mapping (addrWidth mapping))

def column (mappingIn : List (BitPat × List BitPat)) (i : Nat) : List (BitPat × BitPat) :=
  mappingIn.filterMap fun row => (row.2[i]?).map fun value => (row.1, value)

/-- Several signals, one table for each; a row may not have more values than there are signals. -/
def applySeq (default : List BitPat) (mappingIn : List (BitPat × List BitPat)) : Option (List (List Plane)) := do
  guard (mappingIn.all fun row => decide (row.2.length ≤ default.length))
  default.zipIdx.mapM fun d => apply d.1 (column mappingIn d.2)

end DecodeLogic

def Plane.eval (p : Plane) (addr addrWidth : Nat) : Bool := DecodeLogic.logic addr addrWidth p.terms ^^ p.negated

end LowRisc.Rocket.Decode
