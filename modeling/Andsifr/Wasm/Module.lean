import Mathlib.Tactic.Ring

namespace Andsifr.Wasm

/-- The verb `%#x`. -/
def hex (n : Nat) : String :=
  "0x" ++ String.ofList (Nat.toDigits 16 n)

/-- `api.CoreFeatures`. -/
abbrev CoreFeatures := BitVec 64

namespace CoreFeatures

def bulkMemoryOperations : CoreFeatures := 1#64 <<< 0
def multiValue : CoreFeatures := 1#64 <<< 1
def mutableGlobal : CoreFeatures := 1#64 <<< 2
def nonTrappingFloatToIntConversion : CoreFeatures := 1#64 <<< 3
def referenceTypes : CoreFeatures := 1#64 <<< 4
def signExtensionOps : CoreFeatures := 1#64 <<< 5
def simd : CoreFeatures := 1#64 <<< 6
def threads : CoreFeatures := 1#64 <<< 7
def tailCall : CoreFeatures := 1#64 <<< 8
def extendedConst : CoreFeatures := 1#64 <<< 9
def exceptionHandling : CoreFeatures := 1#64 <<< 10
def typedFunctionReferences : CoreFeatures := 1#64 <<< 11

def isEnabled (f feature : CoreFeatures) : Bool :=
  f &&& feature != 0

def featureName (f : CoreFeatures) : String :=
  if f = mutableGlobal then "mutable-global"
  else if f = signExtensionOps then "sign-extension-ops"
  else if f = multiValue then "multi-value"
  else if f = nonTrappingFloatToIntConversion then "nontrapping-float-to-int-conversion"
  else if f = bulkMemoryOperations then "bulk-memory-operations"
  else if f = referenceTypes then "reference-types"
  else if f = simd then "simd"
  else if f = threads then "threads"
  else if f = tailCall then "tail-call"
  else if f = extendedConst then "extended-const"
  else if f = exceptionHandling then "exception-handling"
  else if f = typedFunctionReferences then "typed-function-references"
  else ""

def string (f : CoreFeatures) : String :=
  let names := (List.range 64).map fun i =>
    if f.isEnabled (1#64 <<< i) then featureName (1#64 <<< i) else ""
  "|".intercalate (names.filter (· ≠ ""))

/-- The message of `RequireEnabled`'s error. -/
def disabled (feature : CoreFeatures) : String :=
  s!"feature \"{feature.string}\" is disabled"

end CoreFeatures

abbrev Index := Nat

/-- The fields of the packed `ValueType`: the kind byte, the non-nullable flag and, for a concrete
reference, the type index. -/
structure ValueType where
  kind : UInt8
  nonNullable : Bool
  concrete : Option Index
  deriving DecidableEq, Repr

namespace ValueType

def ofByte (b : UInt8) : ValueType := ⟨b, false, none⟩

def i32 : ValueType := ofByte 0x7f
def i64 : ValueType := ofByte 0x7e
def f32 : ValueType := ofByte 0x7d
def f64 : ValueType := ofByte 0x7c
def v128 : ValueType := ofByte 0x7b
def funcref : ValueType := ofByte 0x70
def externref : ValueType := ofByte 0x6f
def exnref : ValueType := ofByte 0x69

def isConcreteRef (v : ValueType) : Bool :=
  v.concrete.isSome

def isRef (v : ValueType) : Bool :=
  v.kind == funcref.kind || v.kind == externref.kind || v.kind == exnref.kind || v.isConcreteRef

def isNullable (v : ValueType) : Bool :=
  v.isRef && !v.nonNullable

def typeIndex (v : ValueType) : Index :=
  v.concrete.getD 0

def asNonNullable (v : ValueType) : ValueType :=
  ⟨v.kind, true, v.concrete⟩

def asNullable (v : ValueType) : ValueType :=
  ⟨v.kind, false, v.concrete⟩

/-- `ValueTypeConcreteRef`. -/
def concreteRef (typeIndex : Index) (nullable : Bool) : ValueType :=
  ⟨funcref.kind, !nullable, some typeIndex⟩

/-- The types that a module can declare. -/
def Proper (t : ValueType) : Prop :=
  t.isRef = true ∨ t ∈ [i32, i64, f32, f64, v128]

instance (t : ValueType) : Decidable t.Proper :=
  inferInstanceAs (Decidable (_ ∨ _))

/-- The number by which the source has the type. -/
def word (v : ValueType) : Nat :=
  v.kind.toNat + (if v.nonNullable then 2 ^ 8 else 0) + v.concrete.elim 0 (2 ^ 9 + · * 2 ^ 32)

/-- `ValueTypeName`. -/
def name (t : ValueType) : String :=
  if t.isConcreteRef then
    if t.isNullable then s!"(ref null {t.typeIndex})" else s!"(ref {t.typeIndex})"
  else if t.asNullable = i32 then "i32"
  else if t.asNullable = i64 then "i64"
  else if t.asNullable = f32 then "f32"
  else if t.asNullable = f64 then "f64"
  else if t.asNullable = v128 then "v128"
  else if t.asNullable = funcref then if t.isNullable then "funcref" else "(ref func)"
  else if t.asNullable = externref then if t.isNullable then "externref" else "(ref extern)"
  else if t.asNullable = exnref then if t.isNullable then "exnref" else "(ref exn)"
  else "unknown"

end ValueType

def refPrefixNullable : UInt8 := 0x63

def refPrefixNonNullable : UInt8 := 0x64

def heapTypeFunc : Int := -16

def heapTypeExtern : Int := -17

def heapTypeExn : Int := -23

structure FunctionType where
  params : List ValueType
  results : List ValueType
  /-- The text of the type, cached when the type is decoded. -/
  string : String
  recGroupSize : Nat := 0
  recGroupPosition : Nat := 0
  deriving DecidableEq, Repr

namespace FunctionType

def key (params results : List ValueType) (recGroupSize recGroupPosition : Nat) : String :=
  String.join (params.map ValueType.name) ++ (if params = [] then "v_" else "_") ++
    String.join (results.map ValueType.name) ++ (if results = [] then "v" else "") ++
    (if 1 < recGroupSize then s!"|rec{recGroupPosition}/{recGroupSize}" else "")

end FunctionType

structure ConstantExpression where
  data : List UInt8 := []
  deriving DecidableEq, Repr

structure Memory where
  min : Nat
  cap : Nat
  max : Nat
  isMaxEncoded : Bool
  isShared : Bool
  deriving DecidableEq, Repr

structure GlobalType where
  valType : ValueType
  isMutable : Bool
  deriving DecidableEq, Repr

structure Table where
  min : Nat
  max : Option Nat
  type : ValueType
  initExpr : Option ConstantExpression
  deriving DecidableEq, Repr

inductive ExternType where
  | func | table | memory | global | tag
  deriving DecidableEq, Repr

namespace ExternType

def ofByte (b : UInt8) : Option ExternType :=
  if b = 0 then some func
  else if b = 1 then some table
  else if b = 2 then some memory
  else if b = 3 then some global
  else if b = 4 then some tag
  else none

def name : ExternType → String
  | func => "func"
  | table => "table"
  | memory => "memory"
  | global => "global"
  | tag => "tag"

end ExternType

/-- What an import describes, by its extern type. -/
inductive ImportDesc where
  | func (descFunc : Index)
  | table (descTable : Table)
  | memory (descMem : Memory)
  | global (descGlobal : GlobalType)
  | tag (descTag : Index)
  deriving DecidableEq, Repr

structure Import where
  module : String
  name : String
  desc : ImportDesc
  indexPerType : Index
  deriving DecidableEq, Repr

structure Export where
  type : ExternType
  name : String
  index : Index
  deriving DecidableEq, Repr

structure Global where
  type : GlobalType
  init : ConstantExpression
  deriving DecidableEq, Repr

inductive ElementMode where
  | active | passive | declarative
  deriving DecidableEq, Repr

structure ElementSegment where
  offsetExpr : ConstantExpression := {}
  tableIndex : Index := 0
  init : List ConstantExpression
  type : ValueType
  mode : ElementMode
  deriving DecidableEq, Repr

structure Code where
  localTypes : List ValueType
  body : List UInt8
  bodyOffsetInCodeSection : Nat
  deriving DecidableEq, Repr

structure DataSegment where
  offsetExpression : ConstantExpression
  init : List UInt8
  passive : Bool
  deriving DecidableEq, Repr

structure NameAssoc where
  index : Index
  name : String
  deriving DecidableEq, Repr

structure NameMapAssoc where
  index : Index
  nameMap : List NameAssoc
  deriving DecidableEq, Repr

structure NameSection where
  moduleName : String := ""
  functionNames : List NameAssoc := []
  localNames : List NameMapAssoc := []
  deriving DecidableEq, Repr

structure CustomSection where
  name : String
  data : List UInt8
  deriving DecidableEq, Repr

/-- The decoded module. A section that is a nil slice or pointer when absent and is tested for it
is an `Option`; a tag is its type index. -/
structure Module where
  typeSection : List FunctionType := []
  importSection : List Import := []
  importPerModule : List (String × List Import) := []
  importFunctionCount : Nat := 0
  importGlobalCount : Nat := 0
  importMemoryCount : Nat := 0
  importTableCount : Nat := 0
  importTagCount : Nat := 0
  functionSection : List Index := []
  tableSection : List Table := []
  memorySection : Option Memory := none
  tagSection : List Index := []
  globalSection : List Global := []
  exportSection : List Export := []
  startSection : Option Index := none
  elementSection : List ElementSegment := []
  codeSection : Option (List Code) := none
  dataSection : List DataSegment := []
  dataCountSection : Option Nat := none
  nameSection : Option NameSection := none
  customSections : List CustomSection := []
  deriving DecidableEq, Repr

def maximumGlobals : Nat := 2 ^ 27

def maximumFunctionIndex : Nat := 2 ^ 27

def maximumTableIndex : Nat := 2 ^ 27

def memoryLimitPages : Nat := 65536

def pagesToUnitOfBytes (pages : Nat) : String :=
  let k := pages * 64 % 2 ^ 32
  let m := k / 1024
  let g := m / 1024
  if k < 1024 then s!"{k} Ki"
  else if m < 1024 then s!"{m} Mi"
  else if g < 1024 then s!"{g} Gi"
  else s!"{g / 1024} Ti"

def Memory.validate (m : Memory) (limit : Nat) : Except String Unit :=
  let pages (n : Nat) := s!"{n} pages ({pagesToUnitOfBytes n})"
  if m.max > limit then .error s!"max {pages m.max} over limit of {pages limit}"
  else if m.min > limit then .error s!"min {pages m.min} over limit of {pages limit}"
  else if m.min > m.max then .error s!"min {pages m.min} > max {pages m.max}"
  else if m.cap < m.min then .error s!"capacity {pages m.cap} less than minimum {pages m.min}"
  else if m.cap > limit then .error s!"capacity {pages m.cap} over limit of {pages limit}"
  else .ok ()

theorem Memory.le_of_validate {m : Memory} {limit : Nat} (h : m.validate limit = .ok ()) :
    m.max ≤ limit ∧ m.min ≤ m.max ∧ m.min ≤ m.cap ∧ m.cap ≤ limit := by
  unfold Memory.validate at h
  split_ifs at h
  omega

end Andsifr.Wasm
