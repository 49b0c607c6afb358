import LowRisc.Debug.CtmLog
import Mathlib.Data.List.GetD
import Mathlib.Data.List.Perm.Basic

/-! The function table that `osd_ctm_log` sorts for the handler. -/

set_option autoImplicit false

namespace LowRisc.Debug.CtmLog

/-- `-1`, where `min` starts and what marks the symbols already taken. -/
def taken : BitVec 64 := -1

theorem eq_taken {addr : BitVec 64} (top : taken ≤ addr) : addr = taken := by
  have bound := addr.isLt
  have value : taken.toNat = 2 ^ 64 - 1 := rfl
  rw [BitVec.le_def, value] at top
  exact BitVec.eq_of_toNat_eq (by rw [value]; omega)

/-- The inner loop, over the symbols from index `j` on. -/
def minLoop (min : BitVec 64) (minp : Option Nat) (j : Nat) : List ElfFunction → Option Nat
  | [] => minp
  | e :: tab => if e.addr < min then minLoop e.addr (some j) (j + 1) tab else minLoop min minp (j + 1) tab

/-- The outer loop, with `n` entries of the table to go. Without a minimum `minp` is the null pointer. -/
def sortLoop : Nat → List ElfFunction → Option (List ElfFunction)
  | 0, _ => some []
  | n + 1, tab => do
    let minp ← minLoop taken none 0 tab
    let e ← tab[minp]?
    let funcs ← sortLoop n (tab.set minp { e with addr := taken })
    some (e :: funcs)

def sortTable (tab : List ElfFunction) : Option (List ElfFunction) := sortLoop tab.length tab

/-- The loop ends with the symbols in the order of their addresses. -/
def Sorts (tab : List ElfFunction) : Prop :=
  ∃ funcs, sortTable tab = some funcs ∧ funcs.Perm tab ∧ funcs.Pairwise fun a b => a.addr ≤ b.addr

/-- The symbols not yet taken. -/
def live (tab : List ElfFunction) : List ElfFunction := tab.filter fun e => e.addr ≠ taken

theorem minLoop_spec (min : BitVec 64) (minp : Option Nat) (j : Nat) (tab : List ElfFunction) :
    ((∀ e ∈ tab, min ≤ e.addr) ∧ minLoop min minp j tab = minp) ∨
      ∃ k e, tab[k]? = some e ∧ minLoop min minp j tab = some (j + k) ∧ e.addr < min ∧ ∀ e' ∈ tab, e.addr ≤ e'.addr := by
  induction tab generalizing min minp j with
  | nil => exact .inl ⟨fun e inside => absurd inside List.not_mem_nil, rfl⟩
  | cons e tab ih =>
    rw [minLoop]
    split
    · rename_i below
      right
      rcases ih e.addr (some j) (j + 1) with ⟨least, found⟩ | ⟨k, e', here, found, less, least⟩
      · refine ⟨0, e, rfl, found, below, fun e' inside => ?_⟩
        rcases List.mem_cons.mp inside with rfl | inside
        · exact BitVec.le_refl _
        · exact least e' inside
      · refine ⟨k + 1, e', here, ?_, BitVec.lt_trans less below, fun e'' inside => ?_⟩
        · rw [found]
          congr 1
          omega
        · rcases List.mem_cons.mp inside with rfl | inside
          · exact BitVec.le_of_lt less
          · exact least e'' inside
    · rename_i above
      rcases ih min minp (j + 1) with ⟨least, found⟩ | ⟨k, e', here, found, less, least⟩
      · refine .inl ⟨fun e' inside => ?_, found⟩
        rcases List.mem_cons.mp inside with rfl | inside
        · exact BitVec.not_lt.mp above
        · exact least e' inside
      · refine .inr ⟨k + 1, e', here, ?_, less, fun e'' inside => ?_⟩
        · rw [found]
          congr 1
          omega
        · rcases List.mem_cons.mp inside with rfl | inside
          · exact BitVec.le_trans (BitVec.le_of_lt less) (BitVec.not_lt.mp above)
          · exact least e'' inside

theorem live_set {tab : List ElfFunction} {k : Nat} {e : ElfFunction} (here : tab[k]? = some e)
    (alive : e.addr ≠ taken) : (live tab).Perm (e :: live (tab.set k { e with addr := taken })) := by
  induction tab generalizing k with
  | nil => cases here
  | cons e' tab ih =>
    cases k with
    | zero =>
      rw [List.getElem?_cons_zero, Option.some.injEq] at here
      subst here
      simp [live, alive]
    | succ k =>
      rw [List.getElem?_cons_succ] at here
      rw [List.set_cons_succ]
      have rest := ih here
      by_cases alive' : e'.addr = taken
      · simpa [live, alive'] using rest
      · simp only [live, List.filter_cons, alive', ne_eq, not_false_eq_true, decide_true, if_true]
        exact (List.Perm.cons e' rest).trans (List.Perm.swap e e' _)

/-- As many rounds as there are live symbols sort them. -/
theorem sortLoop_live {n : Nat} {tab : List ElfFunction} (length : (live tab).length = n) :
    ∃ funcs, sortLoop n tab = some funcs ∧ funcs.Perm (live tab) ∧ funcs.Pairwise fun a b => a.addr ≤ b.addr := by
  induction n generalizing tab with
  | zero =>
    rw [List.length_eq_zero_iff] at length
    exact ⟨[], rfl, by rw [length], List.Pairwise.nil⟩
  | succ n ih =>
    rcases minLoop_spec taken none 0 tab with ⟨least, -⟩ | ⟨k, e, here, found, less, least⟩
    · have gone : live tab = [] := by
        refine List.filter_eq_nil_iff.mpr fun e inside => ?_
        simp [eq_taken (least e inside)]
      rw [gone] at length
      cases length
    · have alive : e.addr ≠ taken := by
        rintro same
        rw [same] at less
        exact absurd less (BitVec.lt_irrefl _)
      have perm := live_set here alive
      have fewer := perm.length_eq
      rw [length, List.length_cons] at fewer
      obtain ⟨funcs, sorted, perm', order⟩ := ih (Nat.succ.inj fewer).symm
      rw [Nat.zero_add] at found
      refine ⟨e :: funcs, ?_, (perm'.cons e).trans perm.symm, List.pairwise_cons.mpr ⟨fun e' inside => ?_, order⟩⟩
      · simp [sortLoop, found, here, sorted]
      · have inside' := (perm.symm.subset) (List.mem_cons_of_mem e (perm'.subset inside))
        exact least e' (List.mem_of_mem_filter inside')

/-- Beyond them the null pointer is used. -/
theorem sortLoop_beyond {n : Nat} {tab : List ElfFunction} (more : (live tab).length < n) : sortLoop n tab = none := by
  induction n generalizing tab with
  | zero => omega
  | succ n ih =>
    rcases minLoop_spec taken none 0 tab with ⟨-, found⟩ | ⟨k, e, here, found, less, least⟩
    · simp [sortLoop, found]
    · have alive : e.addr ≠ taken := by
        rintro same
        rw [same] at less
        exact absurd less (BitVec.lt_irrefl _)
      have fewer := (live_set here alive).length_eq
      rw [List.length_cons] at fewer
      rw [Nat.zero_add] at found
      have rest : sortLoop n (tab.set k { e with addr := taken }) = none := ih (by omega)
      simp [sortLoop, found, here, rest]

theorem sorts_iff (tab : List ElfFunction) : Sorts tab ↔ ∀ e ∈ tab, e.addr ≠ taken := by
  constructor
  · rintro ⟨funcs, sorted, -⟩ e inside same
    have fewer : (live tab).length < tab.length := by
      refine List.length_filter_lt_length_iff_exists.mpr ⟨e, inside, ?_⟩
      simp [same]
    rw [sortTable, sortLoop_beyond fewer] at sorted
    cases sorted
  · intro all
    have same : live tab = tab := List.filter_eq_self.mpr fun e inside => by simpa using all e inside
    have whole : (live tab).length = tab.length := by rw [same]
    obtain ⟨funcs, sorted, perm, order⟩ := sortLoop_live whole
    rw [same] at perm
    exact ⟨funcs, sorted, perm, order⟩

/-- The sorted symbols are a table for the handler, whatever lies behind it. -/
theorem table_of_sorted {funcs : List ElfFunction} (filled : funcs ≠ [])
    (order : funcs.Pairwise fun a b => a.addr ≤ b.addr) (names : (funcs.map ElfFunction.name).Nodup)
    (behind : ElfFunction) : Table (fun i => funcs.getD i behind) funcs.length where
  filled := List.length_pos_iff.mpr filled
  sorted i j before inside := by
    rw [List.getD_eq_getElem _ _ (Nat.lt_of_le_of_lt before inside), List.getD_eq_getElem _ _ inside]
    rcases Nat.eq_or_lt_of_le before with rfl | before
    · exact BitVec.le_refl _
    · exact List.pairwise_iff_getElem.mp order i j _ inside before
  names i j inside inside' same := by
    rw [List.getD_eq_getElem _ _ inside, List.getD_eq_getElem _ _ inside'] at same
    refine (List.getElem?_inj (by rwa [List.length_map]) names).mp ?_
    rw [List.getElem?_map, List.getElem?_map, List.getElem?_eq_getElem inside, List.getElem?_eq_getElem inside',
      Option.map_some, Option.map_some, same]

/-- The handler and the sort do what is expected of them exactly when each return is found in the table and no symbol
has the address of the mark. -/
theorem functions_resolved_iff {funcs : Nat → ElfFunction} {num_funcs : Nat} (table : Table funcs num_funcs)
    (wide : Bool) (misscount : BitVec 32) (packet : Packet) (tab : List ElfFunction) :
    (Resolved wide funcs num_funcs misscount packet ∧ Sorts tab) ↔
      (IsReturn wide packet → Found funcs num_funcs (packet.pc wide) (packet.npc wide)) ∧ ∀ e ∈ tab, e.addr ≠ taken := by
  rw [resolved_iff table, sorts_iff]

def threeFunctions : List ElfFunction := [⟨0x100, 1⟩, ⟨0x200, 2⟩, ⟨0x300, 3⟩]

def memory (f : Nat) : ElfFunction := threeFunctions.getD f ⟨0, 0⟩

def returnPacket (pc npc : BitVec 16) : Packet
  | 5 => npc
  | 7 => pc
  | 9 => 4
  | _ => 0

theorem table_memory : Table memory 3 :=
  have order : threeFunctions.Pairwise fun a b => a.addr ≤ b.addr := by decide
  table_of_sorted (by decide) order (by decide) ⟨0, 0⟩

theorem functions_resolved_iff_three :
    Resolved false memory 3 0 (returnPacket 0x210 0x110) ∧ Sorts threeFunctions.reverse :=
  (functions_resolved_iff table_memory false 0 (returnPacket 0x210 0x110) threeFunctions.reverse).mpr
    ⟨fun _ => ⟨⟨1, by decide⟩, ⟨2, by decide⟩, fun _ => by decide, by decide⟩, by decide⟩

/-- A return into the last function reads the entry behind the table, and a symbol at the top address has no place in
the sorted table. -/
theorem not_resolved_last : ¬Resolved false memory 3 0 (returnPacket 0x110 0x310) ∧ ¬Sorts [⟨-1, 1⟩] := by
  constructor
  · intro resolved
    exact absurd (resolved.reads 3 (by decide)) (by decide)
  · rintro ⟨funcs, sorted, -⟩
    cases sorted

end LowRisc.Debug.CtmLog
