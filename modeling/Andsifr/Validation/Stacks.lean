import Andsifr.Wasm.Instruction
import Andsifr.Wasm.TypeEquiv

namespace Andsifr.Validation

open Lib Wasm

/-- The type of an operand in code that is not reached. -/
def unknown : ValueType := .ofByte 0xff

/-- What opened a control block. The outermost block of a function is a plain block. -/
inductive BlockKind where
  | block | loop | ifOp | elseOp | tryTable
  deriving DecidableEq, Repr

def BlockKind.name : BlockKind → String
  | block => ""
  | loop => "loop"
  | ifOp => "if"
  | elseOp => "else"
  | tryTable => "try_table"

/-- A control block. A nil map of initialised locals is `none`. The positions of the block in the
body are left out: `elseAt` is set exactly when the kind becomes `elseOp`, so no check depends on
them. -/
structure ControlBlock where
  kind : BlockKind
  type : BlockType
  savedInitLocals : Option (List Index)
  deriving DecidableEq, Repr

def ControlBlock.labelTypes (b : ControlBlock) : List ValueType :=
  if b.kind = .loop then b.type.params else b.type.results

/-- `stacks`: the operand types, the heights at which the open blocks start and the open blocks,
innermost first, and the locals known to be initialised. -/
structure Stacks where
  stack : List ValueType
  stackLimits : List Nat
  maximumStackPointer : Nat
  controlBlocks : List ControlBlock
  initLocals : Option (List Index)
  deriving DecidableEq, Repr

def writeValueTypes (types : List ValueType) : String :=
  ", ".intercalate (types.map ValueType.name)

def typeMismatchError (isParam : Bool) (context : String) (have_ want : ValueType) (i : Nat) :
    String :=
  s!"cannot use {have_.name}" ++ (if context = "" then "" else s!" in {context} block") ++
    (if isParam then " as param" else " as result") ++ s!"[{i}] type {want.name}"

def typeCountError (isParam : Bool) (context : String) (have_ want : List ValueType) : String :=
  (if want.length < have_.length then "too many " else "not enough ") ++
    (if isParam then "params" else "results") ++
    (if context = "" then "" else (if isParam then " for " else " in ") ++ context ++ " block") ++
    s!"\n\thave ({writeValueTypes have_})\n\twant ({writeValueTypes want})"

namespace Stacks

def reset (functionType : FunctionType) : Stacks :=
  ⟨[], [], 0, [⟨.block, functionType.blockType, none⟩], some []⟩

def limit (s : Stacks) : Nat :=
  s.stackLimits.headD 0

def setStack (s : Stacks) (stack : List ValueType) : Stacks :=
  ⟨stack, s.stackLimits, s.maximumStackPointer, s.controlBlocks, s.initLocals⟩

/-- Only an unknown type is left above the limit: it stands for any number of operands. -/
def polymorphic (s : Stacks) : Bool :=
  s.stack.length == s.limit + 1 && s.stack.head? == some unknown

def tryPop (s : Stacks) : Option (ValueType × Stacks) :=
  if s.stack.length ≤ s.limit then none
  else if s.polymorphic then some (unknown, s)
  else
    match s.stack with
    | [] => none
    | t :: rest => some (t, s.setStack rest)

def pop (s : Stacks) : Check (ValueType × Stacks) :=
  match s.tryPop with
  | some result => pure result
  | none => Check.fail
      s!"invalid operation: trying to pop at {s.stack.length} with limit {s.limit}"

def matchesType (types : List FunctionType) (actual expected : ValueType) : Check Bool :=
  if actual = unknown ∨ expected = unknown then pure true
  else isRefSubtypeOf types actual expected

def popAndVerifyType (types : List FunctionType) (s : Stacks) (expected : ValueType) :
    Check Stacks :=
  match s.tryPop with
  | none => Check.fail s!"{expected.name} missing"
  | some (have_, s') => do
    if ← matchesType types have_ expected then return s'
    else Check.fail s!"type mismatch: expected {expected.name}, but was {have_.name}"

def push (s : Stacks) (v : ValueType) : Stacks :=
  ⟨v :: s.stack, s.stackLimits, max s.maximumStackPointer (s.stack.length + 1), s.controlBlocks,
    s.initLocals⟩

def pushAll (s : Stacks) (types : List ValueType) : Stacks :=
  types.foldl push s

def resetAtStackLimit (s : Stacks) : Stacks :=
  s.setStack (s.stack.drop (s.stack.length - s.limit))

def unreachable (s : Stacks) : Stacks :=
  let s := s.resetAtStackLimit
  s.setStack (unknown :: s.stack)

def popStackLimit (s : Stacks) : Stacks :=
  ⟨s.stack, s.stackLimits.tail, s.maximumStackPointer, s.controlBlocks, s.initLocals⟩

def pushStackLimit (s : Stacks) (params : Nat) : Stacks :=
  ⟨s.stack, (s.stack.length - params) :: s.stackLimits, s.maximumStackPointer, s.controlBlocks,
    s.initLocals⟩

/-- Pops `n` types into the list of those popped before, the first popped first, or reports what
could be popped. -/
def tryPops : Nat → List ValueType → Stacks → Except (List ValueType) (List ValueType × Stacks)
  | 0, popped, s => .ok (popped, s)
  | n + 1, popped, s =>
    match s.tryPop with
    | none => .error popped
    | some (t, s') => tryPops n (popped.concat t) s'

/-- Compares popped types, the first popped first, with the wanted ones in the same order. -/
def verifyTypes (types : List FunctionType) (isParam : Bool) (context : String) :
    (i : Nat) → List (ValueType × ValueType) → Check Unit
  | _, [] => pure ()
  | i, (v, want) :: rest => do
    if ← matchesType types v want then verifyTypes types isParam context (i + 1) rest
    else Check.fail (typeMismatchError isParam context v want i)

def requireStackValues (types : List FunctionType) (isParam : Bool) (context : String)
    (want : List ValueType) (checkAboveLimit : Bool) (s : Stacks) : Check Stacks :=
  match tryPops want.length [] s with
  | .error popped => Check.fail (typeCountError isParam context popped want)
  | .ok (popped, s') => do
    if checkAboveLimit ∧ ¬ (s'.limit = s'.stack.length ∨ s'.polymorphic) then
      Check.fail (typeCountError isParam context (s'.stack.reverse ++ want) want)
    else
      verifyTypes types isParam context 0 (popped.zip want.reverse)
      return s'

/-- Pops the given types. The text of an error may depend on how many are left after the type. -/
def popAll (types : List FunctionType) (wrap : Nat → String → String) :
    List ValueType → Stacks → Check Stacks
  | [], s => pure s
  | t :: rest, s => do
    let s ← Check.mapErr (wrap rest.length) (popAndVerifyType types s t)
    popAll types wrap rest s

/-- An instruction that only pops and pushes operands. -/
def applySignature (types : List FunctionType) (wrap : Nat → String → String) (sig : Signature)
    (s : Stacks) : Check Stacks := do
  let s ← popAll types wrap sig.pops s
  return s.pushAll sig.pushes

def pushBlock (s : Stacks) (b : ControlBlock) : Stacks :=
  ⟨s.stack, s.stackLimits, s.maximumStackPointer, b :: s.controlBlocks, s.initLocals⟩

def setInitLocals (s : Stacks) (initLocals : Option (List Index)) : Stacks :=
  ⟨s.stack, s.stackLimits, s.maximumStackPointer, s.controlBlocks, initLocals⟩

/-- A label is counted from the innermost block. -/
def label (s : Stacks) (message : String) (i : Index) : Check ControlBlock :=
  match s.controlBlocks[i]? with
  | some b => pure b
  | none => Check.fail message

/-- Enters a block: its parameters are popped and pushed again, above a new limit. -/
def enter (types : List FunctionType) (s : Stacks) (kind : BlockKind) (context : String)
    (type : BlockType) (saved : Option (List Index)) : Check Stacks := do
  let s := s.pushBlock ⟨kind, type, saved⟩
  let s ← requireStackValues types true context type.params false s
  return (s.pushAll type.params).pushStackLimit type.params.length

end Stacks

end Andsifr.Validation
