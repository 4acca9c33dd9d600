import Andsifr.Validation.Context
import Andsifr.Validation.Stacks

namespace Andsifr.Validation.FunctionContext

open Lib Wasm

variable (ctx : FunctionContext)

def inputLen : Nat :=
  len32 ctx.functionType.params

def localType (name : String) (index : Index) : Check ValueType :=
  let l := (len32 ctx.localTypes + ctx.inputLen) % 2 ^ 32
  if l ≤ index then
    Check.fail s!"invalid local index for {name} {index} >= {l}(=len(locals)+len(parameters))"
  else if index < ctx.inputLen then
    Check.index ctx.functionType.params index
  else
    Check.index ctx.localTypes (index - ctx.inputLen)

/-- A local, not a parameter, of a non-nullable reference type. -/
def needsInit (index : Index) : Bool :=
  ctx.inputLen ≤ index &&
    match ctx.localTypes[index - ctx.inputLen]? with
    | some lt => lt.isRef && !lt.isNullable
    | none => false

def requireLocalInit (s : Stacks) (index : Index) : Check Unit :=
  Check.require (!ctx.needsInit index || (s.initLocals.getD []).contains index)
    s!"uninitialized local {index}"

def markLocalInit (s : Stacks) (index : Index) : Check Stacks :=
  if ctx.needsInit index then
    match s.initLocals with
    | some set => pure (s.setInitLocals (some (index :: set)))
    | none => Check.raise "assignment to entry in nil map"
  else
    pure s

def checkLocalGet (s : Stacks) (index : Index) : Check Stacks := do
  let t ← ctx.localType "local.get" index
  ctx.requireLocalInit s index
  return s.push t

def checkLocalSet (s : Stacks) (index : Index) : Check Stacks := do
  let t ← ctx.localType "local.set" index
  let s ← s.popAndVerifyType ctx.types t
  ctx.markLocalInit s index

def checkLocalTee (s : Stacks) (index : Index) : Check Stacks := do
  let t ← ctx.localType "local.tee" index
  let s ← s.popAndVerifyType ctx.types t
  ctx.markLocalInit (s.push t) index

def checkBlock (s : Stacks) (type : BlockType) : Check Stacks :=
  s.enter ctx.types .block "block" type s.initLocals

def checkLoop (s : Stacks) (type : BlockType) : Check Stacks :=
  s.enter ctx.types .loop "loop" type s.initLocals

def checkIf (s : Stacks) (type : BlockType) : Check Stacks := do
  let saved := s.initLocals
  let s ← Check.mapErr (s!"cannot pop the operand for 'if': {·}")
    (s.popAndVerifyType ctx.types .i32)
  s.enter ctx.types .ifOp "if" type saved

def checkElse (s : Stacks) : Check Stacks :=
  match s.controlBlocks with
  | [] => Check.raise "runtime error: index out of range [-1]"
  | b :: outer =>
    if b.kind ≠ .ifOp then
      Check.fail "else instruction must be used in if block"
    else do
      let s ← s.requireStackValues ctx.types false "if" b.type.results true
      let s : Stacks := ⟨s.stack, s.stackLimits, s.maximumStackPointer,
        ⟨.elseOp, b.type, b.savedInitLocals⟩ :: outer, b.savedInitLocals⟩
      return s.resetAtStackLimit.pushAll b.type.params

def checkEnd (s : Stacks) : Check Stacks :=
  match s.controlBlocks with
  | [] => Check.raise "runtime error: index out of range [-1]"
  | b :: outer => do
    -- the locals initialised in the block are forgotten, except at the end of the function
    let initLocals := if outer = [] then s.initLocals else b.savedInitLocals
    let s : Stacks := ⟨s.stack, s.stackLimits, s.maximumStackPointer, outer, initLocals⟩
    Check.require (b.kind ≠ .ifOp ∨ b.type.results = b.type.params)
      (typeCountError false "else" b.type.params b.type.results)
    let s ← s.requireStackValues ctx.types false b.kind.name b.type.results true
    return (s.resetAtStackLimit.pushAll b.type.results).popStackLimit

def checkBr (s : Stacks) (label : Index) : Check Stacks := do
  let target ← s.label "invalid br operation: index out of range" label
  let s ← s.requireStackValues ctx.types false "br" target.labelTypes false
  return s.unreachable

def checkBrIf (s : Stacks) (label : Index) : Check Stacks := do
  let target ← s.label
      (s!"invalid ln param given for br_if: index={label} with {s.controlBlocks.length} for " ++
        "the current label stack length") label
  let s ← Check.mapErr (fun _ => "cannot pop the required operand for br_if")
    (s.popAndVerifyType ctx.types .i32)
  let s ← s.requireStackValues ctx.types false "br_if" target.labelTypes false
  return s.pushAll target.labelTypes

/-- Pops the operands of `br_table` against the types of the default label, both last first. An
operand of unknown type makes the label's type unknown. -/
def popDefaults : (i : Nat) → List ValueType → Stacks → Check (List ValueType × Stacks)
  | _, [], s => return ([], s)
  | i, exp :: rest, s => do
    let (actual, s) ← s.pop
    if actual = unknown then
      let (found, s) ← popDefaults (i + 1) rest s
      return (unknown :: found, s)
    else if ← isRefSubtypeOf ctx.types actual exp then
      let (found, s) ← popDefaults (i + 1) rest s
      return (exp :: found, s)
    else
      Check.fail (typeMismatchError true "br_table" actual exp i)

/-- The operands of `br_table`, checked against the default label. -/
def popDefaultLabel (s : Stacks) (labelTypes : List ValueType) :
    Check (List ValueType × Stacks) := do
  if ctx.features.isEnabled .referenceTypes then
    let (found, s) ← popDefaults ctx 0 labelTypes.reverse s
    return (found.reverse, s)
  else
    let s ← s.requireStackValues ctx.types false "br_table" labelTypes false
    return (labelTypes, s)

/-- Compares a label's types with the default label's, in either direction. -/
def checkCompatible (label : Index) : List (ValueType × ValueType) → Check Unit
  | [] => pure ()
  | (expected, actual) :: rest => do
    if expected = unknown then checkCompatible label rest
    else if ← areRefTypesCompatible ctx.types expected actual then checkCompatible label rest
    else Check.fail s!"inconsistent block type for br_table at {label}"

def checkTableLabel (s : Stacks) (defaultLabel : Index) (defaultTypes : List ValueType)
    (label : Index) : Check Unit := do
  let target ← s.label "invalid l param given for br_table" label
  let words (ts : List ValueType) := " ".intercalate (ts.map (toString ·.word))
  Check.require (defaultTypes.length = target.labelTypes.length) <|
    s!"inconsistent block type length for br_table at {label}; [{words defaultTypes}] " ++
      s!"(ln={defaultLabel}) != [{words target.labelTypes}] (l={label})"
  checkCompatible ctx label (defaultTypes.zip target.labelTypes)

def checkBrTable (s : Stacks) (labels : List Index) (defaultLabel : Index) : Check Stacks := do
  let target ← s.label
      (s!"invalid ln param given for br_table: ln={defaultLabel} with " ++
        s!"{s.controlBlocks.length} for the current label stack length") defaultLabel
  let s ← Check.mapErr (fun _ => "cannot pop the required operand for br_table")
    (s.popAndVerifyType ctx.types .i32)
  let (defaultTypes, s) ← ctx.popDefaultLabel s target.labelTypes
  Check.forEach (fun _ label => ctx.checkTableLabel s defaultLabel defaultTypes label) 0 labels
  return s.unreachable

/-- Pops an operand of a reference type, or of unknown type. -/
def popRef (s : Stacks) (name suffix : String) : Check (ValueType × Stacks) := do
  let (tp, s) ← Check.mapErr (s!"cannot pop the operand for {name}: {·}") s.pop
  Check.require (tp.isRef || tp = unknown)
    s!"type mismatch: expected reference type but was {tp.name}{suffix}"
  return (tp, s)

def nonNull (tp : ValueType) : ValueType :=
  if tp = unknown then tp else tp.asNonNullable

def checkBrOnNull (s : Stacks) (label : Index) : Check Stacks := do
  ctx.requireFeature .typedFunctionReferences (s!"br_on_null invalid as {·}")
  let target ← s.label "invalid br_on_null operation: index out of range" label
  let (tp, s) ← popRef s "br_on_null" " for br_on_null"
  let s ← s.requireStackValues ctx.types false "br_on_null" target.labelTypes false
  return (s.pushAll target.labelTypes).push (nonNull tp)

/-- The reference that `br_on_non_null` delivers as the last value of its label. -/
def checkDeliveredRef (nonNullTp lastTarget : ValueType) : Check Unit :=
  if nonNullTp = unknown then pure ()
  else do
    if ← isRefSubtypeOf ctx.types nonNullTp lastTarget then return ()
    else
      Check.fail (s!"type mismatch on br_on_non_null: ref type {nonNullTp.name} is not a subtype " ++
        s!"of label's last result {lastTarget.name}")

def checkBrOnNonNull (s : Stacks) (label : Index) : Check Stacks := do
  ctx.requireFeature .typedFunctionReferences (s!"br_on_non_null invalid as {·}")
  let target ← s.label "invalid br_on_non_null operation: index out of range" label
  let (tp, s) ← popRef s "br_on_non_null" " for br_on_non_null"
  match target.labelTypes.getLast? with
  | none =>
    Check.fail "type mismatch on br_on_non_null: label has no results but needs a ref type"
  | some lastTarget => do
    ctx.checkDeliveredRef (nonNull tp) lastTarget
    let remaining := target.labelTypes.dropLast
    let s ← s.requireStackValues ctx.types false "br_on_non_null" remaining false
    return s.pushAll remaining

def tagType (message : String) (tag : Index) : Check FunctionType :=
  if len32 ctx.tags ≤ tag then Check.fail message
  else do
    let typeIndex ← Check.index ctx.tags tag
    Check.index ctx.types typeIndex

def checkThrow (s : Stacks) (tag : Index) : Check Stacks := do
  ctx.requireFeature .exceptionHandling (s!"throw invalid as {·}")
  let tagType ← ctx.tagType s!"invalid tag index for throw: {tag}" tag
  let s ← s.popAll ctx.types (fun _ => (s!"type mismatch on throw operation: {·}"))
    tagType.params.reverse
  return s.unreachable

def checkThrowRef (s : Stacks) : Check Stacks := do
  ctx.requireFeature .exceptionHandling (s!"throw_ref invalid as {·}")
  let s ← Check.mapErr (s!"type mismatch on throw_ref: {·}")
    (s.popAndVerifyType ctx.types .exnref)
  return s.unreachable

/-- The types of the values that a catch clause delivers to its label. -/
def catchTypes : CatchClause → Check (List ValueType)
  | .catchTag tag _ =>
    FunctionType.params <$> ctx.tagType s!"invalid tag index in catch clause: {tag}" tag
  | .catchRef tag _ => do
    let tagType ← ctx.tagType s!"invalid tag index in catch clause: {tag}" tag
    return tagType.params ++ [ValueType.exnref.asNonNullable]
  | .catchAll _ => return []
  | .catchAllRef _ => return [ValueType.exnref.asNonNullable]

def checkDelivered (mismatch : Nat → ValueType → ValueType → String) :
    (j : Nat) → List (ValueType × ValueType) → Check Unit
  | _, [] => pure ()
  | j, (delivered, expected) :: rest => do
    if ← isRefSubtypeOf ctx.types delivered expected then checkDelivered mismatch (j + 1) rest
    else Check.fail (mismatch j delivered expected)

/-- The name of a catch clause, and how the type of a value that its label does not take is
reported. -/
def describeCatch : CatchClause → String × (Nat → ValueType → ValueType → String)
  | .catchTag _ _ | .catchRef _ _ => ("catch clause", fun j delivered expected =>
    s!"catch clause type mismatch at index {j}: {delivered.word} is not a subtype of " ++
      s!"{expected.word}")
  | .catchAll _ | .catchAllRef _ => ("catch_all clause", fun j _ _ =>
    s!"catch_all clause type mismatch at index {j}")

def checkCatch (s : Stacks) (clause : CatchClause) : Check Unit := do
  let (name, mismatch) := describeCatch clause
  let delivered ← ctx.catchTypes clause
  let target ← s.label s!"invalid label index in {name}: {clause.label}" clause.label
  Check.require (delivered.length = target.labelTypes.length) <|
    s!"{name} type mismatch: catch delivers {delivered.length} values but label expects " ++
      s!"{target.labelTypes.length}"
  checkDelivered ctx mismatch 0 (delivered.zip target.labelTypes)

/-- The block of `try_table` is the only one that is pushed without the initialised locals. -/
def checkTryTable (s : Stacks) (type : BlockType) (catches : List CatchClause) : Check Stacks := do
  ctx.requireFeature .exceptionHandling (s!"try_table invalid as {·}")
  Check.forEach (fun _ clause => ctx.checkCatch s clause) 0 catches
  s.enter ctx.types .tryTable "try_table" type none

def callSignature (ft : FunctionType) : Signature :=
  ⟨ft.params.reverse, ft.results⟩

def validateCallSignature (s : Stacks) (opName : String) (ft : FunctionType) : Check Stacks :=
  s.applySignature ctx.types
    (fun _ => (s!"type mismatch on {opName} operation param type: {·}")) (callSignature ft)

def validateReturnCall (s : Stacks) (opName : String) (callee : FunctionType) : Check Stacks := do
  ctx.requireFeature .tailCall (s!"{opName} invalid as {·}")
  Check.require (callee.results.length = ctx.functionType.results.length)
    (s!"type mismatch on {opName}: caller returns {ctx.functionType.results.length} values " ++
      s!"but callee returns {callee.results.length}")
  let s ← s.requireStackValues ctx.types false "" ctx.functionType.results false
  return s.unreachable

/-- The type of a function. Its index is in range, but not necessarily its type index: the type
index of a function is checked when the function's own body is validated. -/
def typeOfCallee (function : Index) : Check FunctionType := do
  match ctx.functions[function]? with
  | none => Check.fail "invalid function index"
  | some typeIndex => Check.index ctx.types typeIndex

def checkCall (s : Stacks) (function : Index) : Check Stacks := do
  let ft ← ctx.typeOfCallee function
  ctx.validateCallSignature s "call" ft

def checkReturnCall (s : Stacks) (function : Index) : Check Stacks := do
  let ft ← ctx.typeOfCallee function
  let s ← ctx.validateCallSignature s "return_call" ft
  ctx.validateReturnCall s "return_call" ft

/-- The type given to an indirect call, after the checks of its table. -/
def indirectType (s : Stacks) (name : String) (type table : Index) :
    Check (FunctionType × Stacks) := do
  Check.require (type < ctx.types.length) s!"invalid type index at {name}: {type}"
  Check.require (table = 0 || ctx.features.isEnabled .referenceTypes)
    s!"table index must be zero but was {table}: {CoreFeatures.disabled .referenceTypes}"
  Check.require (table < len32 ctx.tables) s!"unknown table index: {table}"
  let t ← Check.index ctx.tables table
  Check.require (t.type = .funcref ||
      (t.type.isConcreteRef && ctx.features.isEnabled .typedFunctionReferences))
    s!"table is not funcref type but was {t.type.name} for {name}"
  let s ← Check.mapErr (fun _ => s!"cannot pop the offset in table for {name}")
    (s.popAndVerifyType ctx.types .i32)
  let ft ← Check.index ctx.types type
  return (ft, s)

def checkCallIndirect (s : Stacks) (type table : Index) : Check Stacks := do
  let (ft, s) ← ctx.indirectType s "call_indirect" type table
  ctx.validateCallSignature s "call_indirect" ft

def checkReturnCallIndirect (s : Stacks) (type table : Index) : Check Stacks := do
  let (ft, s) ← ctx.indirectType s "return_call_indirect" type table
  let s ← ctx.validateCallSignature s "return_call_indirect" ft
  ctx.validateReturnCall s "return_call_indirect" ft

/-- The type of the function reference that is called. -/
def referencedType (s : Stacks) (name : String) (type : Index) : Check (FunctionType × Stacks) := do
  ctx.requireFeature .typedFunctionReferences (s!"{name} invalid as {·}")
  Check.require (type < ctx.types.length) s!"invalid type index at {name}: {type}"
  let s ← Check.mapErr (s!"type mismatch on {name} operation: {·}")
    (s.popAndVerifyType ctx.types (.concreteRef type true))
  let ft ← Check.index ctx.types type
  return (ft, s)

def checkCallRef (s : Stacks) (type : Index) : Check Stacks := do
  let (ft, s) ← ctx.referencedType s "call_ref" type
  ctx.validateCallSignature s "call_ref" ft

def checkReturnCallRef (s : Stacks) (type : Index) : Check Stacks := do
  let (ft, s) ← ctx.referencedType s "return_call_ref" type
  let s ← ctx.validateCallSignature s "return_call_ref" ft
  ctx.validateReturnCall s "return_call_ref" ft

def checkReturn (s : Stacks) : Check Stacks := do
  let s ← s.requireStackValues ctx.types false "" ctx.functionType.results false
  return s.unreachable

def checkDrop (s : Stacks) : Check Stacks := do
  let (_, s) ← Check.mapErr (s!"invalid drop: {·}") s.pop
  return s

/-- The type left by `select`: the wider of the two operand types. The type that a typed `select`
declares plays no part. -/
def selectType (v1 v2 : ValueType) : Check ValueType :=
  if v1 = unknown then return v2
  else if v2 = unknown then return v1
  else do
    if ← areRefTypesCompatible ctx.types v1 v2 then
      return if ← isRefSubtypeOf ctx.types v1 v2 then v2 else v1
    else Check.fail "type mismatch on 1st and 2nd select operands"

def checkSelect (s : Stacks) (typed : Bool) : Check Stacks := do
  let s ← Check.mapErr (s!"type mismatch on 3rd select operand: {·}")
    (s.popAndVerifyType ctx.types .i32)
  let (v1, s) ← Check.mapErr (s!"invalid select: {·}") s.pop
  let (v2, s) ← Check.mapErr (s!"invalid select: {·}") s.pop
  Check.require (!typed || ctx.features.isEnabled .referenceTypes)
    s!"typed_select is invalid as {CoreFeatures.disabled .referenceTypes}"
  Check.require (typed || !(v1.isRef || v2.isRef))
    "reference types cannot be used for non typed select instruction"
  let t ← ctx.selectType v1 v2
  return s.push t

def checkRefIsNull (s : Stacks) : Check Stacks := do
  ctx.requireFeature .referenceTypes (s!"ref.is_null invalid as {·}")
  let (_, s) ← popRef s "ref.is_null" ""
  return s.push .i32

def checkRefAsNonNull (s : Stacks) : Check Stacks := do
  ctx.requireFeature .typedFunctionReferences (s!"ref.as_non_null invalid as {·}")
  let (tp, s) ← popRef s "ref.as_non_null" " for ref.as_non_null"
  return s.push (nonNull tp)

/-- Which operand of a numeric instruction is missing, if `left` operands are popped after it. -/
def numericOperand (op : UInt8) (left : Nat) : String :=
  let pops := ((findClass numericClasses op).map (·.pops)).getD []
  let type := String.join ((pops.take 1).map (·.name ++ " "))
  if 0x6a ≤ op ∧ op ≤ 0x78 then if left = 1 then "1st " else "2nd "
  else if pops.length = 2 then (if left = 1 then "1st " else "2nd ") ++ type
  else if 0x8b ≤ op ∧ op ≤ 0x9f then "1st " ++ type
  else if op ∈ [0x45, 0x50, 0xa7, 0xb6, 0xbb] ∨ 0xbc ≤ op then ""
  else type

/-- How the missing or mistyped operand of a plain instruction is reported. -/
def popError : Instruction → Nat → String → String
  | .numeric op, left => cannotPop (numericOperand op left) (instructionName op)
  | .tableGet _, _ => cannotPop "" "table.get"
  | .tableSet _, _ => cannotPop "" "table.set"
  | .truncSat op, _ => cannotPop "" (miscInstructionName op)
  | .memoryInit _, _ => cannotPop "" "memory.init"
  | .memoryCopy, _ => cannotPop "" "memory.copy"
  | .memoryFill, _ => cannotPop "" "memory.fill"
  | .tableInit _ _, _ => cannotPop "" "table.init"
  | .tableCopy _ _, _ => cannotPop "" "table.copy"
  | .tableGrow _, _ => cannotPop "" "table.grow"
  | .tableFill _, _ => cannotPop "" "table.fill"
  | .vec op, _ | .vecMemory op _ _ _, _ | .vecLane op _, _ =>
    cannotPop "" (vectorInstructionName op)
  | .vecShuffle _, _ => cannotPop "" "v128.shuffle"
  | _, _ => id
where
  cannotPop (operand name m : String) : String :=
    s!"cannot pop the {operand}operand for {name}: {m}"

def checkPlain (s : Stacks) (instr : Instruction) : Check Stacks := do
  let sig ← ctx.plainSignature instr
  s.applySignature ctx.types (popError instr) sig

/-- One round of the loop over the body, on the instruction that was read. -/
def checkInstruction (s : Stacks) : Instruction → Check Stacks
  | .unreachable => return s.unreachable
  | .block type => ctx.checkBlock s type
  | .loop type => ctx.checkLoop s type
  | .ifOp type => ctx.checkIf s type
  | .elseOp => ctx.checkElse s
  | .tryTable type catches => ctx.checkTryTable s type catches
  | .throw tag => ctx.checkThrow s tag
  | .throwRef => ctx.checkThrowRef s
  | .endOp => ctx.checkEnd s
  | .br label => ctx.checkBr s label
  | .brIf label => ctx.checkBrIf s label
  | .brTable labels defaultLabel => ctx.checkBrTable s labels defaultLabel
  | .brOnNull label => ctx.checkBrOnNull s label
  | .brOnNonNull label => ctx.checkBrOnNonNull s label
  | .returnOp => ctx.checkReturn s
  | .call function => ctx.checkCall s function
  | .callIndirect type table => ctx.checkCallIndirect s type table
  | .callRef type => ctx.checkCallRef s type
  | .returnCall function => ctx.checkReturnCall s function
  | .returnCallIndirect type table => ctx.checkReturnCallIndirect s type table
  | .returnCallRef type => ctx.checkReturnCallRef s type
  | .drop => checkDrop s
  | .select => ctx.checkSelect s false
  | .typedSelect _ => ctx.checkSelect s true
  | .localGet index => ctx.checkLocalGet s index
  | .localSet index => ctx.checkLocalSet s index
  | .localTee index => ctx.checkLocalTee s index
  | .refIsNull => ctx.checkRefIsNull s
  | .refAsNonNull => ctx.checkRefAsNonNull s
  | instr => ctx.checkPlain s instr

end Andsifr.Validation.FunctionContext
