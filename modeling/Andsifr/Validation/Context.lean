import Andsifr.Wasm.Instruction
import Andsifr.Wasm.InstructionName
import Andsifr.Wasm.Opcode
import Andsifr.Wasm.TypeEquiv

namespace Andsifr.Validation

open Lib Wasm

def len32 {α : Type} (xs : List α) : Nat :=
  xs.length % 2 ^ 32

/-- What the validation of a function reads: the module with its declarations, imports included,
and the type and locals of the function. -/
structure FunctionContext where
  module : Module
  features : CoreFeatures
  functions : List Index
  globals : List GlobalType
  memory : Option Memory
  tables : List Table
  tags : List Index
  declaredFunctionIndexes : List Index
  functionType : FunctionType
  localTypes : List ValueType

namespace FunctionContext

variable (ctx : FunctionContext)

def types : List FunctionType :=
  ctx.module.typeSection

def requireFeature (feature : CoreFeatures) (wrap : String → String) : Check Unit :=
  Check.require (ctx.features.isEnabled feature) (wrap feature.disabled)

def requireMemory (name : String) : Check Unit :=
  Check.require ctx.memory.isSome s!"memory must exist for {name}"

/-- An instruction of a table of opcodes. -/
def classSignature (classes : List OpcodeClass) (message : String) (op : UInt8) :
    Check Signature :=
  match findClass classes op with
  | some c => return c.signature
  | none => Check.fail message

/-- An access to memory, whose alignment may not exceed that of its opcode. -/
def memorySignature (classes : List OpcodeClass) (message alignment : String) (op : UInt8)
    (align : Nat) : Check Signature :=
  match findClass classes op with
  | some c => do
    Check.require (2 ^ align ≤ c.alignMax) alignment
    return c.signature
  | none => Check.fail message

def constSignature (op : UInt8) : Check Signature :=
  if op = Opcode.i32Const then return ⟨[], [.i32]⟩
  else if op = Opcode.i64Const then return ⟨[], [.i64]⟩
  else if op = Opcode.f32Const then return ⟨[], [.f32]⟩
  else return ⟨[], [.f64]⟩

def numericSignature (op : UInt8) : Check Signature := do
  if 0xc0 ≤ op then
    ctx.requireFeature .signExtensionOps (s!"{instructionName op} invalid as {·}")
  classSignature numericClasses s!"invalid numeric instruction {hex op.toNat}" op

def tableType (table : Index) : Check ValueType :=
  if len32 ctx.tables ≤ table then Check.fail s!"table of index {table} not found"
  else Table.type <$> Check.index ctx.tables table

/-- A table index other than zero needs the reference types. -/
def requireTableIndex (name : String) (table : Index) : Check Unit :=
  Check.require (table = 0 || ctx.features.isEnabled .referenceTypes)
    s!"{name} as {CoreFeatures.disabled .referenceTypes}"

def globalSetType (index : Index) : Check ValueType :=
  if len32 ctx.globals ≤ index then Check.fail "invalid global index"
  else do
    let g ← Check.index ctx.globals index
    Check.require g.isMutable "global.set when not mutable"
    return g.valType

def globalGetType (index : Index) : Check ValueType :=
  if len32 ctx.globals ≤ index then Check.fail "invalid index for global.get"
  else GlobalType.valType <$> Check.index ctx.globals index

def refFuncType (index : Index) : Check ValueType :=
  if len32 ctx.functions ≤ index then Check.fail s!"unknown function index {index} for ref.func"
  else do
    Check.require (ctx.declaredFunctionIndexes.contains index)
      s!"undeclared function index {index} for ref.func"
    let typeIndex ← Check.index ctx.functions index
    return if ctx.features.isEnabled .typedFunctionReferences then .concreteRef typeIndex false
      else .funcref

def requireDataIndex (index : Index) : Check Unit :=
  Check.require (index < ctx.module.dataSection.length)
    s!"index {index} out of range of data section(len={ctx.module.dataSection.length})"

def elementType (index : Index) : Check ValueType :=
  if ctx.module.elementSection.length ≤ index then
    Check.fail
      s!"index {index} out of range of element section(len={ctx.module.elementSection.length})"
  else ElementSegment.type <$> Check.index ctx.module.elementSection index

/-- Elements may be copied only into a table of a wider type. -/
def requireElementSubtype (src dst : ValueType) (message : String) : Check Unit := do
  if ← isRefSubtypeOf ctx.types src dst then return () else Check.fail message

def requireBulkMemory (name : String) : Check Unit :=
  ctx.requireFeature .bulkMemoryOperations (s!"{name} invalid as {·}")

def requireDataCount (name : String) : Check Unit :=
  Check.require ctx.module.dataCountSection.isSome s!"{name} requires data count section"

def threeI32 : Signature :=
  ⟨[.i32, .i32, .i32], []⟩

/-- The bulk operations on memories and tables. -/
def bulkSignature : Instruction → Check Signature
  | .memoryInit data => do
    ctx.requireBulkMemory "memory.init"
    ctx.requireMemory "memory.init"
    ctx.requireDataCount "memory.init"
    ctx.requireDataIndex data
    return threeI32
  | .dataDrop data => do
    ctx.requireBulkMemory "data.drop"
    ctx.requireDataCount "data.drop"
    ctx.requireDataIndex data
    return ⟨[], []⟩
  | .memoryCopy => do
    ctx.requireBulkMemory "memory.copy"
    ctx.requireMemory "memory.copy"
    return threeI32
  | .memoryFill => do
    ctx.requireBulkMemory "memory.fill"
    ctx.requireMemory "memory.fill"
    return threeI32
  | .tableInit element table => do
    ctx.requireBulkMemory "table.init"
    let src ← ctx.elementType element
    ctx.requireTableIndex "source table index must be zero for table.init" table
    let dst ← ctx.tableType table
    ctx.requireElementSubtype src dst
      s!"type mismatch for table.init: element type {src.name} does not match table type {dst.name}"
    return threeI32
  | .elemDrop element => do
    ctx.requireBulkMemory "elem.drop"
    let _ ← ctx.elementType element
    return ⟨[], []⟩
  | .tableCopy dst src => do
    ctx.requireBulkMemory "table.copy"
    ctx.requireTableIndex "destination table index must be zero for table.copy" dst
    let dstType ← ctx.tableType dst
    ctx.requireTableIndex "source table index must be zero for table.copy" src
    let srcType ← ctx.tableType src
    ctx.requireElementSubtype srcType dstType
      s!"table type mismatch for table.copy: {srcType.name} (src) != {dstType.name} (dst)"
    return threeI32
  | .tableGrow table => do
    ctx.requireFeature .referenceTypes (s!"table.grow invalid as {·}")
    let t ← ctx.tableType table
    return ⟨[.i32, t], [.i32]⟩
  | .tableSize table => do
    ctx.requireFeature .referenceTypes (s!"table.size invalid as {·}")
    let _ ← ctx.tableType table
    return ⟨[], [.i32]⟩
  | .tableFill table => do
    ctx.requireFeature .referenceTypes (s!"table.fill invalid as {·}")
    let t ← ctx.tableType table
    return ⟨[.i32, t, .i32], []⟩
  | _ => Check.fail ""

def requireSimd (name : String) : Check Unit :=
  ctx.requireFeature .simd (s!"{name} invalid as {·}")

def requireLane (classes : List OpcodeClass) (op lane : UInt8) : Check Unit :=
  let laneCeil := 16 / ((findClass classes op).map (·.alignMax)).getD 16
  Check.require (lane.toNat < laneCeil)
    s!"invalid lane index {lane} >= {laneCeil} for {vectorInstructionName op}"

def vecSignature : Instruction → Check Signature
  | .v128Const => do
    ctx.requireSimd "v128.const"
    return ⟨[], [.v128]⟩
  | .vec op => do
    ctx.requireSimd (vectorInstructionName op)
    classSignature vecClasses s!"unknown SIMD instruction {vectorInstructionName op}" op
  | .vecMemory op align _ none => do
    ctx.requireSimd (vectorInstructionName op)
    ctx.requireMemory (vectorInstructionName op)
    memorySignature vecMemoryClasses ""
      s!"invalid memory alignment {align} for {vectorInstructionName op}" op align
  | .vecMemory op align _ (some lane) => do
    ctx.requireSimd (vectorInstructionName op)
    ctx.requireMemory (vectorInstructionName op)
    let sig ← memorySignature vecMemoryLaneClasses ""
      s!"invalid memory alignment {align} for {vectorInstructionName op}" op align
    requireLane vecMemoryLaneClasses op lane
    return sig
  | .vecLane op lane => do
    ctx.requireSimd (vectorInstructionName op)
    requireLane vecLaneClasses op lane
    classSignature vecLaneClasses "" op
  | .vecShuffle lanes => do
    ctx.requireSimd "v128.shuffle"
    Check.forEach (fun i lane => Check.require (lane < 32)
      s!"invalid lane index[{i}] {lane} >= 32 for v128.shuffle") 0 lanes
    return ⟨[.v128, .v128], [.v128]⟩
  | _ => Check.fail ""

/-- The instructions that only pop and push operands, after checks that do not depend on them. -/
def plainSignature : Instruction → Check Signature
  | .nop => return ⟨[], []⟩
  | .globalGet index => do
    let t ← ctx.globalGetType index
    return ⟨[], [t]⟩
  | .globalSet index => do
    let t ← ctx.globalSetType index
    return ⟨[t], []⟩
  | .tableGet table => do
    ctx.requireFeature .referenceTypes (s!"table.get is invalid as {·}")
    let t ← ctx.tableType table
    return ⟨[.i32], [t]⟩
  | .tableSet table => do
    ctx.requireFeature .referenceTypes (s!"table.set is invalid as {·}")
    let t ← ctx.tableType table
    return ⟨[t, .i32], []⟩
  | .refNull t => do
    ctx.requireFeature .referenceTypes (s!"ref.null invalid as {·}")
    return ⟨[], [t]⟩
  | .refFunc index => do
    ctx.requireFeature .referenceTypes (s!"ref.func invalid as {·}")
    let t ← ctx.refFuncType index
    return ⟨[], [t]⟩
  | .const op => constSignature op
  | .numeric op => ctx.numericSignature op
  | .memory op align _ => do
    ctx.requireMemory (instructionName op)
    memorySignature memoryClasses "" "invalid memory alignment" op align
  | .memorySize => do
    ctx.requireMemory "memory.size"
    return ⟨[], [.i32]⟩
  | .memoryGrow => do
    ctx.requireMemory "memory.grow"
    return ⟨[.i32], [.i32]⟩
  | .truncSat op => do
    ctx.requireFeature .nonTrappingFloatToIntConversion
      (s!"{miscInstructionName op} invalid as {·}")
    classSignature truncSatClasses "" op
  | .atomicFence => do
    ctx.requireFeature .threads (s!"atomic.fence invalid as {·}")
    return ⟨[], []⟩
  | .atomic op align _ => do
    ctx.requireFeature .threads (s!"{atomicInstructionName op} invalid as {·}")
    ctx.requireMemory (atomicInstructionName op)
    memorySignature atomicClasses s!"invalid atomic opcode: {hex op.toNat}"
      "invalid memory alignment" op align
  | .v128Const => ctx.vecSignature .v128Const
  | .vec op => ctx.vecSignature (.vec op)
  | .vecMemory op align offset lane => ctx.vecSignature (.vecMemory op align offset lane)
  | .vecLane op lane => ctx.vecSignature (.vecLane op lane)
  | .vecShuffle lanes => ctx.vecSignature (.vecShuffle lanes)
  | instr => ctx.bulkSignature instr

end FunctionContext

end Andsifr.Validation
