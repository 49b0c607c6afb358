import LowRisc.Lib.SparseTable
import LowRisc.TagCache.TagCounts

/-! The tag cache as a store of lines.

What the cache is for, without ways, states and a memory behind it: a line for each block, and
requests that are served one after the other.
-/

set_option autoImplicit false

namespace LowRisc.TagCache

open LowRisc.Lib

theorem masked_zero (old : Row) : masked old 0 0 = old := by
  have whole : old &&& ~~~0 = old := BitVec.and_allOnes
  rw [masked, whole]
  exact BitVec.zero_or

namespace TCTagRequest

variable (req : TCTagRequest)

def block : Nat := Config.blockOf req.addr
def row : Nat := Config.rowOf req.addr

/-- A create that sets no bit leaves a line without tags that is counted as one with tags. -/
def blank : Bool := req.op.isCreate && req.data &&& req.mask == 0

def Quiet : Prop := req.op = .r ∨ req.op = .fr ∨ req.op = .fl → req.data = 0 ∧ req.mask = 0

/-- What a request may leave of the line of its block. A line that is dropped may be any, for the
memory holds what was last written back. -/
inductive Effect (line : Line) : Line → Prop where
  | read : req.op.isWrite = false → Effect line line
  /-- the line was not in the cache -/
  | create : req.op = .c → Effect line (upd (fun _ => 0) req.row (req.data &&& req.mask))
  | fill : req.op = .w → Effect line (upd line req.row ((line req.row &&& ~~~req.mask) ||| req.data))
  /-- the line was in the cache -/
  | merge : req.op = .c ∨ req.op = .w → Effect line (upd line req.row (masked (line req.row) req.data req.mask))
  | drop (line' : Line) : req.op = .i → Effect line line'

/-- The response to a read: the row, and how many rows of the line are not zero. -/
structure Answer (line : Line) (blank : Bool) (resp : TCTagResp) : Prop where
  hit : req.op = .r → resp.hit = true → resp.data = line req.row
  row : req.op = .fr ∨ req.op = .fl → resp.data = line req.row ∧ Counted (nonzeroRows line) resp.tcnt blank

end TCTagRequest

/-- The lines, and the blocks that were created blank. -/
structure RowStore where
  line : Nat → Line
  blank : Nat → Bool

namespace RowStore

variable (store : RowStore) (req : TCTagRequest)

def after (line : Line) : RowStore :=
  ⟨upd store.line req.block line, upd store.blank req.block (store.blank req.block || req.blank)⟩

/-- The requests of a history, one after the other, on a memory of lines. -/
inductive Serves (memory : Nat → Line) : List (TCTagRequest × TCTagResp) → RowStore → Prop where
  | start : Serves memory [] ⟨memory, fun _ => false⟩
  | next {history : List (TCTagRequest × TCTagResp)} {store : RowStore} {req : TCTagRequest} {resp : TCTagResp}
      {line : Line} : Serves memory history store → req.Effect (store.line req.block) line →
      req.Answer (store.line req.block) (store.blank req.block) resp →
      Serves memory (history ++ [(req, resp)]) (store.after req line)

end RowStore

end LowRisc.TagCache
