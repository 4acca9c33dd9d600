import Andsifr.Validation.Function
import Andsifr.Wasm.ConstExpr

namespace Andsifr.Validation

open Lib Wasm Check

/-- All declarations of a module, the imported ones first. -/
structure Declarations where
  functions : List Index
  globals : List GlobalType
  memory : Option Memory
  tables : List Table
  tags : List Index

namespace Module

def importedFunctions (m : Module) : List Index :=
  m.importSection.filterMap fun imp => match imp.desc with | .func t => some t | _ => none

def importedGlobals (m : Module) : List GlobalType :=
  m.importSection.filterMap fun imp => match imp.desc with | .global g => some g | _ => none

def importedMemories (m : Module) : List Memory :=
  m.importSection.filterMap fun imp => match imp.desc with | .memory mem => some mem | _ => none

def importedTables (m : Module) : List Table :=
  m.importSection.filterMap fun imp => match imp.desc with | .table t => some t | _ => none

def importedTags (m : Module) : List Index :=
  m.importSection.filterMap fun imp => match imp.desc with | .tag t => some t | _ => none

/-- The last imported memory is taken if there are several. -/
def allDeclarations (m : Module) : Check Declarations := do
  let memory := (importedMemories m).getLast?
  require (m.memorySection.isNone || memory.isNone) "at most one table allowed in module"
  return ⟨importedFunctions m ++ m.functionSection,
    importedGlobals m ++ m.globalSection.map Global.type, memory <|> m.memorySection,
    importedTables m ++ m.tableSection, importedTags m ++ m.tagSection⟩

def typeIndexOfFunction (m : Module) (funcIdx : Index) : Option Index :=
  let inRange (t : Index) := if len32 m.typeSection ≤ t then none else some t
  match if funcIdx < m.importFunctionCount then (importedFunctions m)[funcIdx]? else none with
  | some descFunc => inRange descFunc
  | none => do
    let i := sub32 funcIdx m.importFunctionCount
    if len32 m.functionSection ≤ i then none
    else
      let t ← m.functionSection[i]?
      inRange t

def validateConcreteRefTypes (m : Module) : Check Unit := do
  let known (what : String) (vt : ValueType) : Check Unit :=
    require (!(vt.isConcreteRef && len32 m.typeSection ≤ vt.typeIndex))
      s!"unknown type {vt.typeIndex} in {what}"
  forEach (fun i g => known s!"global[{i}]" g.type.valType) 0 m.globalSection
  forEach (fun i t => known s!"table[{i}]" t.type) 0 m.tableSection
  forEach (fun i c => forEach (fun j lt => known s!"func[{i}].local[{j}]" lt) 0
    c.localTypes) 0 (m.codeSection.getD [])
  forEach (fun i e => known s!"element[{i}]" e.type) 0 m.elementSection

def validateStartSection (m : Module) : Check Unit :=
  match m.startSection with
  | none => pure ()
  | some startIndex =>
    match typeIndexOfFunction m startIndex with
    | none => fail s!"invalid start function: func[{startIndex}] has an invalid type"
    | some t => do
      let ft ← index m.typeSection t
      require (ft.params = [] ∧ ft.results = [])
        (s!"invalid start function: func[{startIndex}] must have an empty (nullary) " ++
          s!"signature: {ft.string}")

/-- The resolvers of `validateConstExpression`. -/
def constResolvers (globals : List GlobalType) (numFuncs : Nat) : Resolvers where
  global i :=
    if len32 globals ≤ i then fail "global index out of range"
    else do
      let g ← index globals i
      return (g.valType, 0, 0)
  funcRef i :=
    if numFuncs ≤ i then
      fail s!"ref.func index out of range [{i}] with length {sub32 numFuncs 1}"
    else return 0

/-- A function reference is given the type of the function that was resolved last, or of function
zero if there was none. -/
def validateConstExpression (m : Module) (globals : List GlobalType) (numFuncs : Nat)
    (expr : ConstantExpression) (expectedType : ValueType) : Check Unit := do
  let (result, state) := evaluateConstExpr expr (constResolvers globals numFuncs)
  let (_, typ) ← result
  let typ :=
    if typ = .funcref then
      match typeIndexOfFunction m (state.funcRefs.getLastD 0) with
      | some t => .concreteRef t false
      | none => typ
    else typ
  if ← isRefSubtypeOf m.typeSection typ expectedType then return ()
  else fail s!"const expression type mismatch expected {expectedType.name} but got {typ.name}"

def validateTableInit (m : Module) (imported : List GlobalType) (numFuncs i : Nat) (t : Table) :
    Check Unit := do
  require (t.type.isNullable || t.initExpr.isSome)
    s!"type mismatch: non-nullable table[{i}] requires an init expression"
  match t.initExpr with
  | none => return ()
  | some e =>
    mapErr (s!"table[{i}] init: {·}")
      (validateConstExpression m imported numFuncs e t.type)

def validateTableInitExprs (m : Module) (globals : List GlobalType) (numFuncs : Nat) :
    Check Unit := do
  let imported ← sliceTo globals m.importGlobalCount
  forEach (validateTableInit m imported numFuncs) 0 m.tableSection

def validateImport (m : Module) (features : CoreFeatures) (i : Nat) (imp : Import) :
    Check Unit := do
  require (imp.module ≠ "") s!"import[{i}] has an empty module name"
  match imp.desc with
  | .func t =>
    require (t < m.typeSection.length)
      s!"invalid import[\"{imp.module}\".\"{imp.name}\"] function: type index out of range"
  | .global g =>
    require (!g.isMutable || features.isEnabled .mutableGlobal)
      (s!"invalid import[\"{imp.module}\".\"{imp.name}\"] global: " ++
        s!"{CoreFeatures.disabled .mutableGlobal}")
  | .tag t => do
    require (t < m.typeSection.length)
      s!"invalid import[\"{imp.module}\".\"{imp.name}\"] tag: type index out of range"
    let ft ← index m.typeSection t
    require (ft.results = [])
      s!"invalid import[\"{imp.module}\".\"{imp.name}\"] tag: tag types must have no results"
  | _ => pure ()

def validateImports (m : Module) (features : CoreFeatures) : Check Unit :=
  forEach (validateImport m features) 0 m.importSection

def validateGlobals (m : Module) (globals : List GlobalType) (numFuncs : Nat) : Check Unit := do
  require (len32 globals ≤ maximumGlobals) "too many globals in a module"
  let imported ← sliceTo globals m.importGlobalCount
  forEach (fun _ g => validateConstExpression m imported numFuncs g.init g.type.valType) 0
    m.globalSection

def validateMemory (m : Module) (memory : Option Memory) (globals : List GlobalType) :
    Check Unit := do
  require (!(m.dataSection.any (!·.passive) && memory.isNone)) "unknown memory"
  let imported ← sliceTo globals m.importGlobalCount
  forEach (fun _ d =>
    if d.passive then pure ()
    else mapErr (s!"calculate offset: {·}")
      (validateConstExpression m imported 0 d.offsetExpression .i32)) 0 m.dataSection

def validateExport (features : CoreFeatures) (d : Declarations) (exp : Export) : Check Unit :=
  match exp.type with
  | .func => require (exp.index < len32 d.functions) s!"unknown function for export[\"{exp.name}\"]"
  | .global =>
    if len32 d.globals ≤ exp.index then fail s!"unknown global for export[\"{exp.name}\"]"
    else do
      let g ← index d.globals exp.index
      require (!g.isMutable || features.isEnabled .mutableGlobal)
        (s!"invalid export[\"{exp.name}\"] global[{exp.index}]: " ++
          s!"{CoreFeatures.disabled .mutableGlobal}")
  | .memory =>
    require (exp.index = 0 && d.memory.isSome)
      s!"memory for export[\"{exp.name}\"] out of range"
  | .table =>
    require (exp.index < len32 d.tables) s!"table for export[\"{exp.name}\"] out of range"
  | .tag => require (exp.index < len32 d.tags) s!"tag for export[\"{exp.name}\"] out of range"

def validateExports (m : Module) (features : CoreFeatures) (d : Declarations) : Check Unit :=
  forEach (fun _ exp => validateExport features d exp) 0 m.exportSection

def validateTagSection (m : Module) : Check Unit :=
  forEach (fun i t =>
    if len32 m.typeSection ≤ t then fail s!"tag[{i}] type index out of range"
    else do
      let ft ← index m.typeSection t
      require (ft.results = []) s!"tag[{i}] type must have empty results") 0 m.tagSection

def sectionIDGlobal : Nat := 6

def mutableGlobalError (section_ : String) (sectionIdx idx : Nat) : String :=
  (s!"{section_}[{sectionIdx}] (global.get {idx}): constant expression cannot reference a " ++
    "mutable global")

def resolveConstExprGlobalType (m : Module) (features : CoreFeatures) (section_ : String)
    (sectionIdx idx : Index) : Check ValueType :=
  if idx < m.importGlobalCount then
    match (importedGlobals m)[idx]? with
    | some g =>
      if g.isMutable then fail (mutableGlobalError section_ sectionIdx idx)
      else return g.valType
    | none => fail s!"index {idx} not found in imported globals"
  else if ¬ features.isEnabled .extendedConst then
    fail s!"{section_}[{sectionIdx}] (global.get {idx}): out of range of imported globals"
  else
    let i := sub32 idx m.importGlobalCount
    -- the index of the global is compared with the id of the section
    if sectionIdx = sectionIDGlobal ∧ sectionIdx ≤ i then
      fail s!"{section_}[{sectionIdx}] global {i} out of range of initialized globals"
    else if len32 m.globalSection ≤ i then
      fail s!"{section_}[{sectionIdx}] (global.get {i}): out of range of initialized globals"
    else do
      let g ← index m.globalSection i
      if g.type.isMutable then fail (mutableGlobalError section_ sectionIdx i)
      else return g.type.valType

def declaringResolvers (m : Module) (features : CoreFeatures) (section_ : String) (i : Nat) :
    Resolvers where
  global idx := do
    let t ← resolveConstExprGlobalType m features section_ i idx
    return (t, 0, 0)
  funcRef _ := return 0

/-- The functions that the initialisers of the globals refer to. -/
def declaredByGlobals (m : Module) (features : CoreFeatures) : Check (List Index) :=
  fold (fun i declared g => do
    let (result, state) := evaluateConstExpr g.init (declaringResolvers m features "global" i)
    let _ ← mapErr (s!"global[{i}] failed to initialize: {·}") result
    return declared ++ state.funcRefs) 0 [] m.globalSection

/-- The functions that the elements refer to. An error in an element is not reported here. -/
def declaredByElements (m : Module) (features : CoreFeatures) : Check (List Index) :=
  fold (fun i declared elem =>
    fold (fun _ declared init => do
      let (result, state) := evaluateConstExpr init (declaringResolvers m features "element" i)
      let _ ← recover ([], ValueType.i32) result
      return declared ++ state.funcRefs) 0 declared elem.init) 0 [] m.elementSection

def declaredFunctionIndexes (m : Module) (features : CoreFeatures) : Check (List Index) := do
  let exported := (m.exportSection.filter (·.type = .func)).map Export.index
  let globals ← declaredByGlobals m features
  let elements ← declaredByElements m features
  return exported ++ globals ++ elements

def funcDesc (m : Module) (i : Nat) : String :=
  let names := (m.exportSection.filter fun exp =>
    exp.index = (i + m.importFunctionCount) % 2 ^ 32 && exp.type = .func).map (s!"\"{·.name}\"")
  let listed := ",".intercalate (names.mergeSort (· ≤ ·))
  if names = [] then s!"function[{i}]" else s!"function[{i}] export[{listed}]"

/-- What the body of a function of the given type is validated with. -/
def functionContext (m : Module) (features : CoreFeatures) (d : Declarations)
    (declared : List Index) (ft : FunctionType) (localTypes : List ValueType) : FunctionContext :=
  ⟨m, features, d.functions, d.globals, d.memory, d.tables, d.tags, declared, ft, localTypes⟩

def validateFunctionAt (m : Module) (features : CoreFeatures) (d : Declarations)
    (declared : List Index) (i : Nat) (typeIndex : Index) : Check Unit := do
  require (typeIndex < len32 m.typeSection)
    s!"invalid {funcDesc m i}: type section index {typeIndex} out of range"
  let code ← index (m.codeSection.getD []) i
  let ft ← index m.typeSection typeIndex
  mapErr (s!"invalid {funcDesc m i}: {·}")
    ((functionContext m features d declared ft code.localTypes).validateFunction code.body)

/-- The checks before the loop over the functions, which need not run if there are none. -/
def validateFunctionCounts (m : Module) (features : CoreFeatures) (d : Declarations) :
    Check (Option (List Index)) := do
  require (len32 d.functions ≤ maximumFunctionIndex)
    s!"too many functions ({d.functions.length}) in a module"
  let functionCount := len32 m.functionSection
  let codeCount := len32 (m.codeSection.getD [])
  if functionCount = 0 ∧ codeCount = 0 then
    return none
  else
    require (codeCount = functionCount)
      s!"code count ({codeCount}) != function count ({functionCount})"
    some <$> declaredFunctionIndexes m features

def validateFunctions (m : Module) (features : CoreFeatures) (d : Declarations) : Check Unit := do
  match ← validateFunctionCounts m features d with
  | none => pure ()
  | some declared =>
    forEach (validateFunctionAt m features d declared) 0 m.functionSection

def checkSegmentBounds (min requireMin idx : Nat) : Check Unit :=
  require (requireMin ≤ min) s!"element[{idx}].init exceeds min table size"

/-- The resolvers for the initialisers of an element segment. -/
def elementResolvers (m : Module) (features : CoreFeatures) (idx ei : Nat) : Resolvers where
  global i :=
    if (m.importGlobalCount + len32 m.globalSection) % 2 ^ 32 ≤ i then
      fail s!"element[{idx}].init[{ei}] global index {i} out of range"
    else do
      let t ← resolveConstExprGlobalType m features "element" idx i
      return (t, 0, 0)
  funcRef i :=
    if (m.importFunctionCount + len32 m.functionSection) % 2 ^ 32 ≤ i then
      fail s!"element[{idx}].init[{ei}] func index {i} out of range"
    else return 0

/-- The resolvers for the offset of an element segment. -/
def offsetResolvers (m : Module) (features : CoreFeatures) (idx : Nat) : Resolvers where
  global i :=
    if (m.importGlobalCount + len32 m.globalSection) % 2 ^ 32 ≤ i then
      fail s!"element[{idx}] global index {i} out of range"
    else do
      let t ← resolveConstExprGlobalType m features "element" idx i
      require (t = .i32)
        s!"element[{idx}] (global.get {i}): import[{idx}].global.ValType != i32"
      return (t, 0, 0)
  funcRef _ := return 0

def validateElementInit (m : Module) (features : CoreFeatures) (elemType : ValueType)
    (idx ei : Nat) (init : ConstantExpression) : Check Unit := do
  let (_, initType) ← (evaluateConstExpr init (elementResolvers m features idx ei)).1
  if elemType = .funcref then
    require (initType = .funcref)
      s!"element[{idx}].init[{ei}] must be funcref but was {initType.name}"
  else if elemType = .externref then
    require (initType = .externref)
      s!"element[{idx}].init[{ei}] must be externref but was {initType.name}"
  else
    let subtype ← isRefSubtypeOf m.typeSection initType elemType
    require (subtype || initType = .funcref)
      s!"element[{idx}].init[{ei}] must be {elemType.name} but was {initType.name}"

def validateActiveElement (m : Module) (features : CoreFeatures) (tables : List Table)
    (idx : Nat) (elem : ElementSegment) : Check Unit :=
  if tables.length ≤ elem.tableIndex then
    fail s!"unknown table {elem.tableIndex} as active element target"
  else do
    let t ← index tables elem.tableIndex
    let subtype ← isRefSubtypeOf m.typeSection elem.type t.type
    require subtype
      s!"element type mismatch: table has {t.type.name} but element has {elem.type.name}"
    let (result, state) := evaluateConstExpr elem.offsetExpr (offsetResolvers m features idx)
    let (values, offsetType) ← mapErr
      (s!"element[{idx}] couldn't evaluate offset expression: {·}") result
    require (offsetType = .i32)
      s!"element[{idx}] offset expression must return i32 but was {offsetType.name}"
    if ¬ features.isEnabled .referenceTypes ∧ state.globals = [] ∧
        m.importTableCount ≤ elem.tableIndex then
      let offset ← index values 0
      checkSegmentBounds t.min (len32 elem.init + offset % 2 ^ 32) idx
    else
      return ()

def validateElement (m : Module) (features : CoreFeatures) (tables : List Table) (idx : Nat)
    (elem : ElementSegment) : Check Unit := do
  forEach (validateElementInit m features elem.type idx) 0 elem.init
  if elem.mode = .active then validateActiveElement m features tables idx elem else return ()

def validateTable (m : Module) (features : CoreFeatures) (tables : List Table) : Check Unit := do
  require (tables.length ≤ maximumTableIndex)
    s!"too many tables in a module: {tables.length} given with limit {maximumTableIndex}"
  forEach (validateElement m features tables) 0 m.elementSection

def validateDataCountSection (m : Module) : Check Unit :=
  require (m.dataCountSection.all (· = m.dataSection.length))
    (s!"data count section ({m.dataCountSection.getD 0}) doesn't match the length of data " ++
      s!"section ({m.dataSection.length})")

/-- The checks that come before those of the functions. -/
def validateDeclarations (m : Module) (features : CoreFeatures) : Check Declarations := do
  validateConcreteRefTypes m
  validateStartSection m
  let d ← allDeclarations m
  validateTableInitExprs m d.globals (len32 d.functions)
  validateImports m features
  validateGlobals m d.globals (len32 d.functions)
  validateMemory m d.memory d.globals
  validateExports m features d
  validateTagSection m
  return d

/-- Without a code section there are no functions to validate. -/
def validateCode (m : Module) (features : CoreFeatures) (d : Declarations) : Check Unit :=
  if m.codeSection.isSome then validateFunctions m features d else pure ()

def validate (m : Module) (features : CoreFeatures) : Check Unit := do
  let d ← validateDeclarations m features
  validateCode m features d
  validateTable m features d.tables
  validateDataCountSection m

end Module

end Andsifr.Validation
