import LowRisc.Chisel.Util
import Mathlib.Data.Nat.Bitwise

/-! The performance counters of a tile, a cache bank or the tag cache.

A manager answers a request with one beat for each counter that the bitmap of the request
selects, in ascending order. Bitmaps are numbers, with bit `i` for counter `i`. The register
`counterID`, which nothing reads, is left out.
-/

set_option autoImplicit false

namespace LowRisc.Pfc

open LowRisc.Chisel

abbrev Word := BitVec 64

structure PFCReq where
  src : Nat
  dst : Nat
  cmd : Nat
  bitmap : Nat
  programID : Nat

structure PFCResp where
  dst : Nat
  first : Bool
  last : Bool
  data : Word
  bitmapUI : Nat
  programID : Nat

structure PFCManager where
  /-- in `s_RESP`, not in `s_IDLE` -/
  responding : Bool
  reqReg : PFCReq
  firstresp : Bool
  bitmap : Nat
  pfcounters : Nat → Word

def selected (n bitmap : Nat) : List Nat := (List.range n).filter bitmap.testBit

def raddr (n bitmap : Nat) : Nat := ((List.range n).find? bitmap.testBit).getD n

def rmleastO (n bitmap : Nat) : Nat :=
  if n = 1 then 0 else bitmap &&& ((2 ^ n - 2) <<< (raddr n bitmap % 2 ^ log2Up n))

def popCount (n bitmap : Nat) : Nat := (List.range n).countP bitmap.testBit

namespace PFCManager

variable (n : Nat) (m : PFCManager)

def resp : PFCResp where
  dst := m.reqReg.src
  first := m.firstresp
  last := decide (popCount n m.bitmap ≤ 1)
  data := m.pfcounters (raddr n m.bitmap)
  bitmapUI := raddr n m.bitmap % 2 ^ log2Up n
  programID := m.reqReg.programID

/-- The edge behind a cycle in which a request is taken or not, and the response is or not. -/
def next (req : Option PFCReq) (respFire : Bool) (update : Nat → BitVec 2) : PFCManager where
  responding :=
    if m.responding && respFire && (m.resp n).last then false
    else match req with
      | some r => r.cmd == 0
      | none => m.responding
  reqReg := req.getD m.reqReg
  firstresp := if respFire then false else if req.isSome then true else m.firstresp
  bitmap :=
    if respFire then rmleastO n m.bitmap
    else match req with
      | some r => r.bitmap % 2 ^ n
      | none => m.bitmap
  pfcounters i := m.pfcounters i + (update i).setWidth 64

end PFCManager

/-! The selected counters, one by one. -/

theorem raddr_of_cons {n bitmap c : Nat} {rest : List Nat} (chosen : selected n bitmap = c :: rest) :
    raddr n bitmap = c := by
  have head := congrArg List.head? chosen
  rw [selected, List.head?_filter] at head
  rw [raddr, head]
  rfl

theorem popCount_eq (n bitmap : Nat) : popCount n bitmap = (selected n bitmap).length :=
  List.countP_eq_length_filter

theorem mem_selected {n bitmap i : Nat} : i ∈ selected n bitmap ↔ i < n ∧ bitmap.testBit i = true := by
  simp [selected]

theorem testBit_rmleastO {n bitmap c i : Nat} {rest : List Nat} (chosen : selected n bitmap = c :: rest) (inside : i < n) :
    (rmleastO n bitmap).testBit i = (bitmap.testBit i && decide (c < i)) := by
  have member : c ∈ selected n bitmap := by simp [chosen]
  have below : c < n := (mem_selected.mp member).1
  rw [rmleastO]
  split
  · have none' : ¬ c < i := by omega
    simp [none']
  · have power : 1 < 2 ^ n := Nat.one_lt_two_pow (by omega)
    rw [raddr_of_cons chosen, Nat.mod_eq_of_lt (lt_of_lt_of_le below (le_two_pow_log2Up n)), Nat.testBit_and,
      Nat.testBit_shiftLeft, Nat.testBit_two_pow_sub_succ power]
    have one : Nat.testBit 1 (i - c) = decide (i - c = 0) := by
      rw [Bool.eq_iff_iff, Nat.testBit_one_eq_true_iff_self_eq_zero, decide_eq_true_iff]
    rw [one]
    congr 1
    by_cases above : c < i
    · have le : c ≤ i := by omega
      have ne : ¬ i - c = 0 := by omega
      have lt : i - c < n := by omega
      simp [above, le, ne, lt]
    · by_cases same : c = i
      · simp [same]
      · have not : ¬ c ≤ i := by omega
        simp [above, not]

theorem selected_rmleastO {n bitmap c : Nat} {rest : List Nat} (chosen : selected n bitmap = c :: rest) :
    selected n (rmleastO n bitmap) = rest := by
  have ascending : (selected n bitmap).Pairwise (· < ·) := List.pairwise_lt_range.filter _
  rw [chosen, List.pairwise_cons] at ascending
  calc selected n (rmleastO n bitmap)
    _ = (List.range n).filter (fun i => decide (c < i) && bitmap.testBit i) := by
      apply List.filter_congr
      intro i member
      rw [testBit_rmleastO chosen (List.mem_range.mp member), Bool.and_comm]
    _ = (selected n bitmap).filter (fun i => decide (c < i)) := by
      rw [selected, List.filter_filter]
    _ = rest := by
      rw [chosen, List.filter_cons_of_neg (by simp)]
      exact List.filter_eq_self.mpr fun i member => by simpa using ascending.1 i member

theorem selected_mod (n bitmap : Nat) : selected n (bitmap % 2 ^ n) = selected n bitmap := by
  apply List.filter_congr
  intro i member
  simp [Nat.testBit_mod_two_pow, List.mem_range.mp member]

end LowRisc.Pfc
