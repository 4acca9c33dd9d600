import Andsifr.Frontend.Lower
import Andsifr.Lib.Flow

namespace Andsifr.Frontend

open Wasm Lib.Flow

/-- A block that encloses an instruction of the source: only whether it is a loop and whether it is
a `try_table` with catch clauses matters. -/
structure Construct where
  isLoop : Bool
  catching : Bool
  deriving DecidableEq, Repr

/-- The constructs around what follows the instruction. -/
def nestingStep (nesting : List Construct) : Instruction → List Construct
  | .block _ | .ifOp _ => ⟨false, false⟩ :: nesting
  | .loop _ => ⟨true, false⟩ :: nesting
  | .tryTable _ catches => ⟨false, catches ≠ []⟩ :: nesting
  | .endOp => nesting.tail
  | _ => nesting

/-- The constructs around the instruction at `pc`, innermost first; the outermost is the
function. -/
def nesting (body : List Instruction) (pc : Nat) : List Construct :=
  (body.take pc).foldl nestingStep [⟨false, false⟩]

/-- The number of `try_table` blocks with catch clauses around the instruction at `pc`. -/
def enclosing (body : List Instruction) (pc : Nat) : Nat :=
  (nesting body pc).countP (·.catching)

/-- The instruction at `pc` is a `br_table` that has only a default label, and the branch leaves a
`try_table` with catch clauses. -/
def defaultExits (body : List Instruction) (pc : Nat) : Bool :=
  match body[pc]? with
  | some (.brTable [] label) => ((nesting body pc).take (label + 1)).any (·.catching)
  | _ => false

/-- What holds when control is at a point of the emitted code: how many handlers the function has
pushed, which locals the save area does not mirror, which locals are not those of the source until
they are reloaded, and whether the point is the start of a label's block, is before the check of a
loop header, or comes after a termination check. -/
@[ext]
structure Facts where
  depth : Nat
  dirty : Set Nat := ∅
  stale : Set Nat := ∅
  label : Bool := false
  header : Bool := false
  checked : Bool := false

def Facts.Clean (a : Facts) : Prop :=
  a.dirty = ∅ ∧ a.stale = ∅

/-- Control may go to a block with the facts `b`. -/
structure Facts.Enters (a b : Facts) : Prop where
  depth : b.depth = a.depth
  dirty : b.dirty = a.dirty
  stale : b.stale = a.stale
  checked : b.checked = true → a.checked = true

def Inst.isSourceOffset : Inst → Bool
  | sourceOffset _ => true
  | _ => false

section

variable (c : Compiler) (body : List Instruction) (facts : BlockID → Facts)

/-- Whether the instruction may stand at a point. A jump of a `br_table` without labels that leaves
handlers arrives at its label with too many of them. -/
def Facts.Allows (a : Facts) : Inst → Prop
  | .sourceOffset pc => a.depth = enclosing body pc ∧ a.Clean
  | .plain | .callListener | .terminationCheck | .checkModuleExitCode | .exit => True
  | .defineVariable _ => a.Clean
  | .storeLocal index => 0 < a.depth ∧ a.stale = ∅ ∧ index < c.numLocals
  | .reloadLocal index => index ∈ a.stale
  | .call _ | .throw => a.Clean
  | .tailCall callee => a.depth = 0 ∧ a.Clean ∧
      (callee = .function c.functionIndex → c.ensureTermination = true →
        c.importFunctionCount = 0 → a.checked = true)
  | .tryTableEnter info handlers bodyBlk => a.Clean ∧
      info.numLocals = c.numLocals ∧ info.reuseLocals = decide (0 < a.depth) ∧
      info.catchClauses.length = handlers.length ∧
      (∀ b ∈ handlers, facts b = { depth := a.depth, stale := { x | x < c.numLocals } }) ∧
      facts bodyBlk = { depth := a.depth + 1, dirty := { x | x < c.numLocals } }
  | .tryTableLeave => 0 < a.depth ∧ a.Clean
  | .jump target pc =>
    if defaultExits body pc then
      a.Clean ∧ (facts target).Clean ∧ (facts target).depth < a.depth ∧
        (facts target).checked = false ∧
        ((facts target).label = true ∨ target = .returnBlock)
    else a.Enters (facts target)
  | .brz target _ | .brnz target _ => a.Enters (facts target)
  | .brTable targets _ => ∀ b ∈ targets, a.Enters (facts b)
  | .ret => a.depth = 0

def Facts.after (a : Facts) : Inst → Option Facts
  | .sourceOffset _ => some { a with label := false }
  | .plain | .callListener | .checkModuleExitCode | .call _ | .tailCall _ | .brz _ _ | .brnz _ _ =>
    some a
  | .terminationCheck => some { a with header := false, checked := true }
  | .defineVariable index =>
    some (if 0 < a.depth then { a with dirty := insert index a.dirty } else a)
  | .storeLocal index => some { a with dirty := a.dirty \ {index} }
  | .reloadLocal index => some { a with stale := a.stale \ {index} }
  | .tryTableLeave => some { a with depth := a.depth - 1 }
  | .throw | .tryTableEnter _ _ _ | .jump _ _ | .brTable _ _ | .ret | .exit => none

/-- Whether the instruction may stand at a point of the code. A label's block begins with its source
offset, and a loop header goes on with its check. -/
def Facts.Ok (a : Facts) (i : Inst) : Prop :=
  (a.label = true → i.isSourceOffset = true) ∧
    (a.header = true → i.isSourceOffset = true ∨ i = .terminationCheck) ∧
    a.Allows c body facts i

end

end Andsifr.Frontend
