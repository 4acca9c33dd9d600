import Andsifr.Execution.ConstTyping
import Andsifr.Validation.ConstGlobals

namespace Andsifr.Execution

open Lib Wasm Validation Validation.Module Check

structure GlobalInstance where
  type : GlobalType
  val : Nat
  valHi : Nat
  deriving DecidableEq, Repr

/-- The words that `global.get` pushes. -/
def GlobalInstance.words (g : GlobalInstance) : List Nat :=
  if g.type.valType = .v128 then [g.val, g.valHi] else [g.val]

/-- The resolvers at instantiation, from the globals, nil where they are not built yet, and the
references of the functions. -/
def instanceResolvers (globals : List (Option GlobalInstance)) (functions : List Nat) :
    Resolvers where
  global i := do
    match ← index globals i with
    | none => raise "runtime error: invalid memory address or nil pointer dereference"
    | some g => return (g.type.valType, g.val, g.valHi)
  funcRef i := index functions i

/-- An error of the evaluation is dropped, and the global keeps its zero value. -/
def initializeGlobal (importedGlobals : List GlobalInstance) (functions : List Nat) (gs : Global) :
    Check GlobalInstance :=
  match (evaluateConstExpr gs.init
    (instanceResolvers (importedGlobals.map some) functions)).1 with
  | .ok ([val], _) => return ⟨gs.type, val, 0⟩
  | .ok ([val, valHi], _) => return ⟨gs.type, val, valHi⟩
  | .error (.crash c) => .error (.crash c)
  | _ => return ⟨gs.type, 0, 0⟩

/-- What linking has given the instance. -/
structure Linked where
  globals : List GlobalInstance
  functions : List Nat
  deriving DecidableEq, Repr

def buildGlobals (m : Module) (l : Linked) : Check (List GlobalInstance) :=
  m.globalSection.mapM (initializeGlobal l.globals l.functions)

/-- The globals while the tables are built, which is before the globals are. -/
def globalsBefore (m : Module) (l : Linked) : List (Option GlobalInstance) :=
  l.globals.map some ++ List.replicate m.globalSection.length none

def functionTypeIndexes (m : Module) : List Index :=
  importedFunctions m ++ m.functionSection

/-- The global holds a value of the declared type. The type that it was defined with belongs to the
module that defines it. -/
def GlobalInstance.Holds (refs : References) (types : List FunctionType) (g : GlobalInstance)
    (declared : GlobalType) : Prop :=
  SameSort declared.valType g.type.valType ∧ WordsHaveType refs types g.words declared.valType

structure Linked.TypeCorrect (m : Module) (refs : References) (l : Linked) : Prop where
  globals : List.Forall₂ (GlobalInstance.Holds refs m.typeSection) l.globals (importedGlobalTypes m)
  functions : List.Forall₂
    (fun w f => HasType m.typeSection (refs.referent w) (.concreteRef f false))
    l.functions (functionTypeIndexes m)

def Yields (refs : References) (types : List FunctionType) (e : ConstantExpression)
    (globals : List (Option GlobalInstance)) (functions : List Nat) (t : ValueType) : Prop :=
  ∃ words t', (evaluateConstExpr e (instanceResolvers globals functions)).1 = .ok (words, t') ∧
    WordsHaveType refs types words t

/-- Where the instantiation evaluates the expression, it gets a value of the type. Without the
feature for reference types the offsets of the elements are also evaluated while the tables are
built. -/
def SoundIn (m : Module) (features : CoreFeatures) (refs : References) (l : Linked)
    (c : CheckedExpression) : Prop :=
  match c.kind with
  | .global => Yields refs m.typeSection c.expr (l.globals.map some) l.functions c.type
  | .table => Yields refs m.typeSection c.expr (globalsBefore m l) l.functions c.type
  | .data | .elementItem => ∃ built, buildGlobals m l = .ok built ∧
      Yields refs m.typeSection c.expr ((l.globals ++ built).map some) l.functions c.type
  | .elementOffset =>
    (features.isEnabled .referenceTypes = false →
      Yields refs m.typeSection c.expr (globalsBefore m l) l.functions c.type) ∧
    ∃ built, buildGlobals m l = .ok built ∧
      Yields refs m.typeSection c.expr ((l.globals ++ built).map some) l.functions c.type

/-- Every value of the one type is a value of the other. -/
def TypeWithin (types : List FunctionType) (t t' : ValueType) : Prop :=
  ∀ v, HasType types v t → HasType types v t'

/-- Every reference that the instruction can give has the type. -/
def InstructionFits (m : Module) (t : ValueType) : ConstInstruction → Prop
  | .const _ t' => t'.isRef = true → t.isNullable = true
  | .refFunc j => ∀ f, (functionTypeIndexes m)[j]? = some f → HasType m.typeSection (.func f) t
  | .globalGet i => ∀ g, (importedGlobalTypes m)[i]? = some g → g.valType.isRef = true →
      TypeWithin m.typeSection g.valType t
  | .binary .. => True

def ExpressionFits (m : Module) (t : ValueType) (e : ConstantExpression) : Prop :=
  ∀ instr, e.instructions = some [instr] → InstructionFits m t instr

/-- A `ref.null`, a `ref.func` or a `global.get` of an imported global gives only references of the
type that is asked for, also where it initialises a global that the expression reads. -/
def Fits (m : Module) (c : CheckedExpression) : Prop :=
  ExpressionFits m c.type c.expr ∧
    ∀ i g, c.expr.instructions = some [.globalGet i] → m.importGlobalCount ≤ i →
      m.globalSection[i - m.importGlobalCount]? = some g → ExpressionFits m c.type g.init

/-- The offset of an element segment that is evaluated before the globals are built reads only
imported ones. -/
def OffsetReadsImported (m : Module) (features : CoreFeatures) (c : CheckedExpression) : Prop :=
  c.kind = .elementOffset → features.isEnabled .referenceTypes = false →
    ∀ i ∈ c.expr.globalGets, i < m.importGlobalCount

end Andsifr.Execution
