import Andsifr.Binary.ConstExpr

namespace Andsifr.Binary

open Lib Leb128 Wasm Parser

variable (features : CoreFeatures)

def decodeFunctionType : Parser FunctionType := do
  let b ← readByte.mapErr (s!"read leading byte: {·}")
  require (b = 0x60) s!"{errInvalidByte}: {hex b.toNat} != 0x60"
  let (paramCount, _) ← decodeUint32.mapErr (s!"could not read parameter count: {·}")
  let params ← (decodeValueTypes paramCount features).mapErr
    (s!"could not read parameter types: {·}")
  let (resultCount, _) ← decodeUint32.mapErr (s!"could not read result count: {·}")
  require (resultCount ≤ 1 || features.isEnabled .multiValue)
    s!"multiple result types invalid as {CoreFeatures.multiValue.disabled}"
  let results ← (decodeValueTypes resultCount features).mapErr
    (s!"could not read result types: {·}")
  return { params, results, string := FunctionType.key params results 0 0 }

/-- The reference type of a table, whose first byte has been read. -/
def decodeTableType (b : UInt8) : Parser ValueType :=
  if isRefPrefix b then decodeRefType (b == refPrefixNullable) else pure (.ofByte b)

/-- The type byte of a table and whether an initialiser follows the limits. -/
def decodeTablePrefix : Parser (UInt8 × Bool) := do
  let b ← readByte.mapErr (s!"read leading byte: {·}")
  if b = 0x40 then
    let reserved ← readByte.mapErr (s!"read reserved byte after 0x40: {·}")
    require (reserved = 0x00) <| "expected 0x00 after 0x40 table prefix, got 0x" ++
      (if reserved < 16 then "0" else "") ++ String.ofList (Nat.toDigits 16 reserved.toNat)
    let b ← readByte.mapErr (s!"read table ref type: {·}")
    return (b, true)
  else
    return (b, false)

def decodeTableInit (hasInitExpr : Bool) :
    Parser (Option ConstantExpression) :=
  if hasInitExpr then do
    let initExpr ← (decodeConstantExpression features).mapErr (s!"read table init expr: {·}")
    return some initExpr
  else
    return none

def decodeTable : Parser Table := do
  let (b, hasInitExpr) ← decodeTablePrefix
  let type ← decodeTableType b
  require type.isRef s!"invalid table element type: {type.name} ({hex b.toNat})"
  require (type = .funcref || features.isEnabled .referenceTypes)
    s!"table type funcref is invalid: {CoreFeatures.referenceTypes.disabled}"
  let limits ← decodeLimitsType.mapErr (s!"read limits: {·}")
  require (limits.min ≤ maximumFunctionIndex) s!"table min must be at most {maximumFunctionIndex}"
  require (limits.max.all (limits.min ≤ ·))
    "table size minimum must not be greater than maximum"
  require (!limits.shared) "tables cannot be marked as shared"
  let initExpr ← decodeTableInit features hasInitExpr
  return ⟨limits.min, limits.max, type, initExpr⟩

/-- `ret[0]` of a slice that may be empty. -/
def head {α : Type} : List α → Parser α
  | [] => raise "runtime error: index out of range [0] with length 0"
  | a :: _ => pure a

/-- `vt[0]` of the value types decoded with count one. -/
def decodeOneValueType : Parser ValueType := do
  let types ← (decodeValueTypes 1 features).mapErr (s!"read value type: {·}")
  head types

def decodeGlobalType : Parser GlobalType := do
  let valType ← decodeOneValueType features
  let b ← readByte.mapErr (s!"read mutablity: {·}")
  if b = 0x00 then return ⟨valType, false⟩
  else if b = 0x01 then return ⟨valType, true⟩
  else fail s!"{errInvalidByte} for mutability: {hex b.toNat} != 0x00 or 0x01"

def decodeGlobal : Parser Global := do
  let type ← decodeGlobalType features
  let init ← decodeConstantExpression features
  return ⟨type, init⟩

def decodeExport : Parser Export := do
  let (name, _) ← decodeUTF8 "export name"
  let b ← readByte.mapErr (s!"error decoding export kind: {·}")
  match ExternType.ofByte b with
  | some type => do
    let (index, _) ← decodeUint32.mapErr (s!"error decoding export index: {·}")
    return ⟨type, name, index⟩
  | none => fail s!"{errInvalidByte}: invalid byte for exportdesc: {hex b.toNat}"

def externTypeName (b : UInt8) : String :=
  match ExternType.ofByte b with
  | some type => type.name
  | none => hex b.toNat

def decodeImportDesc (sizer : Nat → Option Nat → Nat × Nat × Nat) (limitPages : Nat)
    (features : CoreFeatures) (b : UInt8) : Parser ImportDesc :=
  match ExternType.ofByte b with
  | some .func => do
    let (descFunc, _) ← decodeUint32
    return .func descFunc
  | some .table => do
    let descTable ← decodeTable features
    return .table descTable
  | some .memory => do
    let descMem ← decodeMemory features sizer limitPages
    return .memory descMem
  | some .global => do
    let descGlobal ← decodeGlobalType features
    return .global descGlobal
  | some .tag => do
    requireEnabled features .exceptionHandling
      (s!"tag imports require exception handling feature: {·}")
    let attr ← readByte
    require (attr = 0x00) s!"invalid tag attribute: {hex attr.toNat}"
    let (descTag, _) ← decodeUint32
    return .tag descTag
  | none => fail s!"{errInvalidByte}: invalid byte for importdesc: {hex b.toNat}"

/-- An import without its index per type, which the import section assigns. -/
def decodeImport (idx : Nat) (sizer : Nat → Option Nat → Nat × Nat × Nat) (limitPages : Nat)
    (features : CoreFeatures) : Parser (String × String × ImportDesc) := do
  let (module, _) ← (decodeUTF8 "import module").mapErr
    (s!"import[{idx}] error decoding module: {·}")
  let (name, _) ← (decodeUTF8 "import name").mapErr (s!"import[{idx}] error decoding name: {·}")
  let b ← readByte.mapErr (s!"import[{idx}] error decoding type: {·}")
  let desc ← (decodeImportDesc sizer limitPages features b).mapErr
    (s!"import[{idx}] {externTypeName b}[{module}.{name}]: {·}")
  return (module, name, desc)

def ensureElementKindFuncRef : Parser Unit := do
  let elemKind ← readByte.mapErr (s!"read element prefix: {·}")
  require (elemKind = 0x0) s!"element kind must be zero but was {hex elemKind.toNat}"

/-- `NewConstantExpressionFromOpcode(OpcodeRefFunc, EncodeUint32(index))`. -/
def refFuncExpression (index : Index) : ConstantExpression :=
  ⟨Opcode.refFunc :: encodeUint32 index ++ [Opcode.opEnd]⟩

def decodeElementInitValue : Parser ConstantExpression := do
  let (u32, _) ← decodeUint32.mapErr (s!"read function index: {·}")
  require (u32 < maximumFunctionIndex) s!"too large function index in Element init: {u32}"
  return refFuncExpression u32

def decodeElementInitValueVector : Parser (List ConstantExpression) := do
  let (vs, _) ← decodeUint32.mapErr (s!"get size of vector: {·}")
  times vs fun _ => decodeElementInitValue

def decodeElementConstExprVector : Parser (List ConstantExpression) := do
  let (vs, _) ← decodeUint32.mapErr (s!"failed to get the size of constexpr vector: {·}")
  times vs fun _ => decodeConstantExpression features

def decodeElementRefType : Parser ValueType := do
  let b ← readByte.mapErr (s!"read element ref type: {·}")
  if isRefPrefix b then
    decodeRefType (b == refPrefixNullable)
  else if b ≠ ValueType.funcref.kind ∧ b ≠ ValueType.externref.kind then
    fail s!"invalid ref type for element: {hex b.toNat}"
  else
    return .ofByte b

def decodeOffset : Parser ConstantExpression :=
  (decodeConstantExpression features).mapErr (s!"read expr for offset: {·}")

def decodeTableIndex : Parser Index := do
  let (tableIndex, _) ← decodeUint32.mapErr (s!"get size of vector: {·}")
  require (tableIndex = 0 || features.isEnabled .referenceTypes)
    s!"table index must be zero but was {tableIndex}: {CoreFeatures.referenceTypes.disabled}"
  return tableIndex

def decodeElementSegment (features : CoreFeatures) : Parser ElementSegment := do
  let (segmentPrefix, _) ← decodeUint32.mapErr (s!"read element prefix: {·}")
  require (segmentPrefix = 0 || features.isEnabled .bulkMemoryOperations)
    ("non-zero prefix for element segment is invalid as " ++
      s!"{CoreFeatures.bulkMemoryOperations.disabled}")
  match segmentPrefix with
  | 0 => do
    let offsetExpr ← decodeOffset features
    let init ← decodeElementInitValueVector
    return { offsetExpr, init, type := ValueType.funcref.asNonNullable, mode := .active }
  | 1 => do
    ensureElementKindFuncRef
    let init ← decodeElementInitValueVector
    return { init, type := ValueType.funcref.asNonNullable, mode := .passive }
  | 2 => do
    let tableIndex ← decodeTableIndex features
    let offsetExpr ← decodeOffset features
    ensureElementKindFuncRef
    let init ← decodeElementInitValueVector
    return {
      offsetExpr, tableIndex, init, type := ValueType.funcref.asNonNullable, mode := .active }
  | 3 => do
    ensureElementKindFuncRef
    let init ← decodeElementInitValueVector
    return { init, type := ValueType.funcref.asNonNullable, mode := .declarative }
  | 4 => do
    let offsetExpr ← decodeOffset features
    let init ← decodeElementConstExprVector features
    return { offsetExpr, init, type := .funcref, mode := .active }
  | 5 => do
    let type ← decodeElementRefType
    let init ← decodeElementConstExprVector features
    return { init, type, mode := .passive }
  | 6 => do
    let tableIndex ← decodeTableIndex features
    let offsetExpr ← decodeOffset features
    let type ← decodeElementRefType
    let init ← decodeElementConstExprVector features
    return { offsetExpr, tableIndex, init, type, mode := .active }
  | 7 => do
    let type ← decodeElementRefType
    let init ← decodeElementConstExprVector features
    return { init, type, mode := .declarative }
  | other => fail s!"invalid element segment prefix: {hex other}"

/-- The offset of an active data segment, whose prefix has been read. -/
def decodeDataOffset (features : CoreFeatures) (segmentPrefix : Nat) :
    Parser (ConstantExpression × Bool) :=
  match segmentPrefix with
  | 0 => do
    let offset ← (decodeConstantExpression features).mapErr (s!"read offset expression: {·}")
    return (offset, false)
  | 1 => return ({}, true)
  | 2 => do
    let (d, _) ← decodeUint32.mapErr (s!"read memory index: {·}")
    require (d = 0) s!"memory index must be zero but was {d}"
    let offset ← (decodeConstantExpression features).mapErr (s!"read offset expression: {·}")
    return (offset, false)
  | other => fail s!"invalid data segment prefix: {hex other}"

def decodeDataSegment : Parser DataSegment := do
  let (segmentPrefix, _) ← decodeUint32.mapErr (s!"read data segment prefix: {·}")
  require (segmentPrefix = 0 || features.isEnabled .bulkMemoryOperations)
    s!"non-zero prefix for data segment is invalid as {CoreFeatures.bulkMemoryOperations.disabled}"
  let (offset, passive) ← decodeDataOffset features segmentPrefix
  let (vs, _) ← decodeUint32.mapErr (s!"get the size of vector: {·}")
  let init ← (readFull vs).mapErr (s!"read bytes for init: {·}")
  return ⟨offset, init, passive⟩

instance tame_decodeFunctionType :
    (decodeFunctionType features).Tame 0 := by
  unfold decodeFunctionType
  infer_instance

instance tame_decodeTablePrefix : decodeTablePrefix.Tame 0 := by
  unfold decodeTablePrefix
  infer_instance

instance tame_decodeTableInit (hasInitExpr : Bool) :
    (decodeTableInit features hasInitExpr).Tame 0 := by
  unfold decodeTableInit
  infer_instance

instance tame_decodeTableType (b : UInt8) : (decodeTableType b).Tame 0 := by
  unfold decodeTableType
  infer_instance

set_option synthInstance.maxSize 400 in
instance tame_decodeTable : (decodeTable features).Tame 0 := by
  unfold decodeTable
  infer_instance

theorem decodeValueTypes_one {features : CoreFeatures} {types : List ValueType} {r r' : Reader}
    (h : decodeValueTypes 1 features r = .ok types r') : ∃ t, types = [t] := by
  obtain ⟨s, r₁, hs, h⟩ := bind_inv h
  obtain ⟨t, r₂, -, hs⟩ := bind_inv hs
  cases hs
  cases h
  exact ⟨t, rfl⟩

instance tame_decodeOneValueType :
    (decodeOneValueType features).Tame 0 := by
  have htypes := (tame_decodeValueTypes 1 features).mapErr (s!"read value type: {·}")
  refine ⟨fun r h => ?_, htypes.moves.bind fun types => ?_⟩
  · rcases crashes_bind.mp h with h | ⟨types, r₁, hr₁, h⟩
    · exact htypes.safe r h
    · obtain ⟨t, rfl⟩ := decodeValueTypes_one (mapErr_inv hr₁)
      exact (tame_pure t).safe r₁ h
  · cases types with
    | nil => exact moves_crash _
    | cons t ts => exact (tame_pure t).moves

instance tame_decodeGlobalType : (decodeGlobalType features).Tame 0 := by
  unfold decodeGlobalType
  infer_instance

instance tame_decodeGlobal : (decodeGlobal features).Tame 0 := by
  unfold decodeGlobal
  infer_instance

instance tame_decodeExport : decodeExport.Tame 0 := by
  refine Tame.bind inferInstance fun _ => Tame.bind inferInstance fun b => ?_
  cases ExternType.ofByte b <;> infer_instance

instance tame_decodeImportDesc (sizer : Nat → Option Nat → Nat × Nat × Nat) (limitPages : Nat)
    (features : CoreFeatures) (b : UInt8) :
    (decodeImportDesc sizer limitPages features b).Tame 0 := by
  unfold decodeImportDesc
  split <;> infer_instance

instance tame_decodeImport (idx : Nat) (sizer : Nat → Option Nat → Nat × Nat × Nat)
    (limitPages : Nat) (features : CoreFeatures) :
    (decodeImport idx sizer limitPages features).Tame 0 := by
  unfold decodeImport
  infer_instance

instance tame_ensureElementKindFuncRef : ensureElementKindFuncRef.Tame 0 := by
  unfold ensureElementKindFuncRef
  infer_instance

instance tame_decodeElementInitValueVector : decodeElementInitValueVector.Tame 0 := by
  unfold decodeElementInitValueVector decodeElementInitValue
  infer_instance

instance tame_decodeElementConstExprVector :
    (decodeElementConstExprVector features).Tame 0 := by
  unfold decodeElementConstExprVector
  infer_instance

instance tame_decodeElementRefType : decodeElementRefType.Tame 0 := by
  unfold decodeElementRefType
  infer_instance

instance tame_decodeOffset : (decodeOffset features).Tame 0 := by
  unfold decodeOffset
  infer_instance

instance tame_decodeTableIndex : (decodeTableIndex features).Tame 0 := by
  unfold decodeTableIndex
  infer_instance

instance tame_decodeElementSegment :
    (decodeElementSegment features).Tame 0 := by
  refine Tame.bind inferInstance fun ⟨segmentPrefix, _⟩ => Tame.bind inferInstance fun _ => ?_
  split <;> infer_instance

instance tame_decodeDataOffset (segmentPrefix : Nat) :
    (decodeDataOffset features segmentPrefix).Tame 0 := by
  unfold decodeDataOffset
  split <;> infer_instance

instance tame_decodeDataSegment : (decodeDataSegment features).Tame 0 := by
  unfold decodeDataSegment
  infer_instance

end Andsifr.Binary
