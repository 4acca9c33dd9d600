import Andsifr.Validation.CheckInstruction

namespace Andsifr.Execution

open Lib Wasm Validation

/-- A value as far as its type goes. A function reference has the type index of its function. -/
inductive Value where
  | num (kind : UInt8)
  | null
  | func (type : Index)
  | external
  | exn
  deriving DecidableEq, Repr

def Value.isRef : Value → Bool
  | num _ => false
  | _ => true

/-- The value of a local that is not a parameter when the function is entered. -/
def Value.default (t : ValueType) : Value :=
  if t.isRef then null else num t.kind

def Value.i32 : Value :=
  num ValueType.i32.kind

def HasType (types : List FunctionType) : Value → ValueType → Prop
  | .num kind, t => t.isRef = false ∧ t = .ofByte kind
  | .null, t => t.isNullable = true
  | .func f, t =>
    match t.concrete with
    | some j => TypeEquiv types f j
    | none => t.kind = ValueType.funcref.kind
  | .external, t => t.concrete = none ∧ t.kind = ValueType.externref.kind
  | .exn, t => t.concrete = none ∧ t.kind = ValueType.exnref.kind

/-- Values and types in the same order. -/
def Typed (types : List FunctionType) : List Value → List ValueType → Prop :=
  List.Forall₂ (HasType types)

/-- The operands on top have the given types, the topmost first. -/
def Top (types : List FunctionType) (values : List Value) (want : List ValueType) : Prop :=
  ∃ args below, values = args ++ below ∧ Typed types args want

/-- A block that has been entered: its type, the operands below it, its catch clauses if it is a
`try_table`, and the code that a branch to it continues with. -/
structure Label where
  isLoop : Bool
  type : BlockType
  height : Nat
  catches : List CatchClause
  cont : List Instruction
  deriving DecidableEq, Repr

def Label.types (l : Label) : List ValueType :=
  if l.isLoop then l.type.params else l.type.results

/-- The state of a function: the code left, the operands and the labels, innermost first, and the
locals. -/
structure State where
  rest : List Instruction
  values : List Value
  labels : List Label
  locals : List Value
  deriving DecidableEq, Repr

/-- The code after the `end` that closes the block and `depth` blocks inside it. -/
def afterEnd : (depth : Nat) → List Instruction → Option (List Instruction)
  | _, [] => none
  | depth, .endOp :: rest =>
    match depth with
    | 0 => some rest
    | depth + 1 => afterEnd depth rest
  | depth, .block _ :: rest | depth, .loop _ :: rest | depth, .ifOp _ :: rest
  | depth, .tryTable _ _ :: rest => afterEnd (depth + 1) rest
  | depth, _ :: rest => afterEnd depth rest

/-- The code that an `if` continues with when its condition does not hold: after its `else`, or at
its `end`. -/
def elseOrEnd : (depth : Nat) → List Instruction → Option (List Instruction)
  | _, [] => none
  | depth, .endOp :: rest =>
    match depth with
    | 0 => some (.endOp :: rest)
    | depth + 1 => elseOrEnd depth rest
  | depth, .elseOp :: rest => if depth = 0 then some rest else elseOrEnd depth rest
  | depth, .block _ :: rest | depth, .loop _ :: rest | depth, .ifOp _ :: rest
  | depth, .tryTable _ _ :: rest => elseOrEnd (depth + 1) rest
  | depth, _ :: rest => elseOrEnd depth rest

/-- Leaves the blocks inside the label with the operands that the label takes. -/
def branch (values : List Value) (labels : List Label) (locals : List Value) (l : Nat) :
    Option State :=
  labels[l]?.map fun target =>
    ⟨target.cont,
      values.take target.types.length ++ values.drop (values.length - target.height),
      labels.drop (if target.isLoop then l else l + 1), locals⟩

/-- The declared types of an instruction that takes operands and leaves results. -/
def signature (ctx : FunctionContext) : Instruction → Check Signature
  | .call f => FunctionContext.callSignature <$> ctx.typeOfCallee f
  | .callIndirect type _ => do
    let ft ← Check.index ctx.types type
    return ⟨.i32 :: ft.params.reverse, ft.results⟩
  | .callRef type => do
    let ft ← Check.index ctx.types type
    return ⟨.concreteRef type true :: ft.params.reverse, ft.results⟩
  | instr => ctx.plainSignature instr

/-- The results that the instruction may leave. What comes from outside the body, from calls,
globals, tables and memories, has the declared type. -/
def Produces (ctx : FunctionContext) : Instruction → Signature → List Value → Prop
  | .refNull _, _, results => results = [.null]
  | .refFunc f, _, results => ∃ t, ctx.functions[f]? = some t ∧ results = [.func t]
  | _, sig, results => Typed ctx.types results sig.pushes.reverse

def tailCallee (ctx : FunctionContext) : Instruction → Check (List ValueType × FunctionType)
  | .returnCall f => do
    let ft ← ctx.typeOfCallee f
    return (ft.params.reverse, ft)
  | .returnCallIndirect type _ => do
    let ft ← Check.index ctx.types type
    return (.i32 :: ft.params.reverse, ft)
  | .returnCallRef type => do
    let ft ← Check.index ctx.types type
    return (.concreteRef type true :: ft.params.reverse, ft)
  | _ => Check.fail ""

def mayThrow : Instruction → Bool
  | .call _ | .callIndirect _ _ | .callRef _ | .throw _ | .throwRef => true
  | _ => false

def localTypes (ctx : FunctionContext) : List ValueType :=
  ctx.functionType.params ++ ctx.localTypes

/-- One step of a function. Conditions and indexes of numeric type choose freely. -/
inductive Step (ctx : FunctionContext) : State → State → Prop where
  | simple {instr rest args below labels locals sig results}
      (hsig : signature ctx instr = .ok sig) (hargs : args.length = sig.pops.length)
      (hresults : Produces ctx instr sig results) :
      Step ctx ⟨instr :: rest, args ++ below, labels, locals⟩
        ⟨rest, results ++ below, labels, locals⟩
  | drop {rest v below labels locals} :
      Step ctx ⟨.drop :: rest, v :: below, labels, locals⟩ ⟨rest, below, labels, locals⟩
  | select {instr rest c v₁ v₂ v below labels locals}
      (hinstr : instr = .select ∨ ∃ t, instr = .typedSelect t) (hv : v = v₁ ∨ v = v₂) :
      Step ctx ⟨instr :: rest, c :: v₁ :: v₂ :: below, labels, locals⟩
        ⟨rest, v :: below, labels, locals⟩
  | localGet {i rest v values labels locals} (hv : locals[i]? = some v) :
      Step ctx ⟨.localGet i :: rest, values, labels, locals⟩ ⟨rest, v :: values, labels, locals⟩
  | localSet {i rest v below labels locals} :
      Step ctx ⟨.localSet i :: rest, v :: below, labels, locals⟩
        ⟨rest, below, labels, locals.set i v⟩
  | localTee {i rest v below labels locals} :
      Step ctx ⟨.localTee i :: rest, v :: below, labels, locals⟩
        ⟨rest, v :: below, labels, locals.set i v⟩
  | refIsNull {rest v below labels locals} :
      Step ctx ⟨.refIsNull :: rest, v :: below, labels, locals⟩
        ⟨rest, .i32 :: below, labels, locals⟩
  | refAsNonNull {rest v below labels locals} (hv : v ≠ .null) :
      Step ctx ⟨.refAsNonNull :: rest, v :: below, labels, locals⟩
        ⟨rest, v :: below, labels, locals⟩
  | block {type rest cont args below labels locals} (hargs : args.length = type.params.length)
      (hcont : afterEnd 0 rest = some cont) :
      Step ctx ⟨.block type :: rest, args ++ below, labels, locals⟩
        ⟨rest, args ++ below, ⟨false, type, below.length, [], cont⟩ :: labels, locals⟩
  | loop {type rest args below labels locals} (hargs : args.length = type.params.length) :
      Step ctx ⟨.loop type :: rest, args ++ below, labels, locals⟩
        ⟨rest, args ++ below, ⟨true, type, below.length, [], rest⟩ :: labels, locals⟩
  | tryTable {type catches rest cont args below labels locals}
      (hargs : args.length = type.params.length) (hcont : afterEnd 0 rest = some cont) :
      Step ctx ⟨.tryTable type catches :: rest, args ++ below, labels, locals⟩
        ⟨rest, args ++ below, ⟨false, type, below.length, catches, cont⟩ :: labels, locals⟩
  | ifTrue {type rest cont c args below labels locals} (hargs : args.length = type.params.length)
      (hcont : afterEnd 0 rest = some cont) :
      Step ctx ⟨.ifOp type :: rest, c :: (args ++ below), labels, locals⟩
        ⟨rest, args ++ below, ⟨false, type, below.length, [], cont⟩ :: labels, locals⟩
  | ifFalse {type rest rest' cont c args below labels locals}
      (hargs : args.length = type.params.length) (hcont : afterEnd 0 rest = some cont)
      (hrest : elseOrEnd 0 rest = some rest') :
      Step ctx ⟨.ifOp type :: rest, c :: (args ++ below), labels, locals⟩
        ⟨rest', args ++ below, ⟨false, type, below.length, [], cont⟩ :: labels, locals⟩
  | elseOp {rest values label labels locals} :
      Step ctx ⟨.elseOp :: rest, values, label :: labels, locals⟩
        ⟨label.cont, values, labels, locals⟩
  | endOp {rest values label labels locals} :
      Step ctx ⟨.endOp :: rest, values, label :: labels, locals⟩ ⟨rest, values, labels, locals⟩
  | br {l rest values labels locals st} (hst : branch values labels locals l = some st) :
      Step ctx ⟨.br l :: rest, values, labels, locals⟩ st
  | brIfTaken {l rest c values labels locals st} (hst : branch values labels locals l = some st) :
      Step ctx ⟨.brIf l :: rest, c :: values, labels, locals⟩ st
  | brIfNot {l rest c values labels locals} :
      Step ctx ⟨.brIf l :: rest, c :: values, labels, locals⟩ ⟨rest, values, labels, locals⟩
  | brTable {ls d l rest c values labels locals st} (hl : l ∈ d :: ls)
      (hst : branch values labels locals l = some st) :
      Step ctx ⟨.brTable ls d :: rest, c :: values, labels, locals⟩ st
  | brOnNullTaken {l rest values labels locals st}
      (hst : branch values labels locals l = some st) :
      Step ctx ⟨.brOnNull l :: rest, .null :: values, labels, locals⟩ st
  | brOnNullNot {l rest v values labels locals} (hv : v ≠ .null) :
      Step ctx ⟨.brOnNull l :: rest, v :: values, labels, locals⟩
        ⟨rest, v :: values, labels, locals⟩
  | brOnNonNullTaken {l rest v values labels locals st} (hv : v ≠ .null)
      (hst : branch (v :: values) labels locals l = some st) :
      Step ctx ⟨.brOnNonNull l :: rest, v :: values, labels, locals⟩ st
  | brOnNonNullNot {l rest values labels locals} :
      Step ctx ⟨.brOnNonNull l :: rest, .null :: values, labels, locals⟩
        ⟨rest, values, labels, locals⟩
  | returnOp {rest values labels locals} :
      Step ctx ⟨.returnOp :: rest, values, labels, locals⟩
        ⟨[], values.take ctx.functionType.results.length, [], locals⟩
  | tailCall {instr rest values labels locals operands callee results}
      (hcallee : tailCallee ctx instr = .ok (operands, callee))
      (hresults : Typed ctx.types results callee.results.reverse) :
      Step ctx ⟨instr :: rest, values, labels, locals⟩ ⟨[], results, [], locals⟩
  | caught {instr rest values labels locals j label clause types payload st}
      (hthrow : mayThrow instr = true) (hlabel : labels[j]? = some label)
      (hclause : clause ∈ label.catches) (htypes : ctx.catchTypes clause = .ok types)
      (hpayload : Typed ctx.types payload types.reverse)
      (hst : branch (payload ++ values.drop (values.length - label.height)) (labels.drop (j + 1))
        locals clause.label = some st) :
      Step ctx ⟨instr :: rest, values, labels, locals⟩ st

/-- A function is entered with its arguments in the first locals. -/
def State.initial (ctx : FunctionContext) (code : List Instruction) (args : List Value) : State :=
  ⟨code, [], [⟨false, ctx.functionType.blockType, 0, [], []⟩],
    args ++ ctx.localTypes.map Value.default⟩

def Run (ctx : FunctionContext) : State → State → Prop :=
  Relation.ReflTransGen (Step ctx)

/-- The operands on top have the types that a branch to the label delivers. -/
def Delivers (ctx : FunctionContext) (values : List Value) (labels : List Label) (l : Nat) : Prop :=
  ∃ target, labels[l]? = some target ∧ Top ctx.types values target.types.reverse

/-- The operands of a tail call have the types of the callee, and its results those of the
function. -/
def ConsumesTail (ctx : FunctionContext) (values : List Value) (instr : Instruction) : Prop :=
  ∃ operands callee, tailCallee ctx instr = .ok (operands, callee) ∧
    Top ctx.types values operands ∧ ∀ results, Typed ctx.types results callee.results.reverse →
      Typed ctx.types results ctx.functionType.results.reverse

/-- The values that the instruction consumes, or delivers to a label, have the types that it
declares. -/
def Consumes (ctx : FunctionContext) (values : List Value) (labels : List Label)
    (locals : List Value) : Instruction → Prop
  | .unreachable => True
  | .block type | .loop type | .tryTable type _ => Top ctx.types values type.params.reverse
  | .ifOp type => Top ctx.types values (.i32 :: type.params.reverse)
  | .elseOp | .endOp => ∃ label outer, labels = label :: outer ∧
      Top ctx.types values label.type.results.reverse ∧
      values.length = label.type.results.length + label.height
  | .throw tag => ∃ ft, ctx.tagType s!"invalid tag index for throw: {tag}" tag = .ok ft ∧
      Top ctx.types values ft.params.reverse
  | .throwRef => Top ctx.types values [.exnref]
  | .br l => Delivers ctx values labels l
  | .brIf l => ∃ c below, values = c :: below ∧ HasType ctx.types c .i32 ∧
      Delivers ctx below labels l
  | .brTable ls d => ∃ c below, values = c :: below ∧ HasType ctx.types c .i32 ∧
      ∀ l ∈ d :: ls, Delivers ctx below labels l
  | .brOnNull l => ∃ v below, values = v :: below ∧ v.isRef = true ∧ Delivers ctx below labels l
  | .brOnNonNull l => ∃ v below, values = v :: below ∧ v.isRef = true ∧
      (v ≠ .null → Delivers ctx values labels l)
  | .returnOp => Top ctx.types values ctx.functionType.results.reverse
  | .returnCall f => ConsumesTail ctx values (.returnCall f)
  | .returnCallIndirect type table => ConsumesTail ctx values (.returnCallIndirect type table)
  | .returnCallRef type => ConsumesTail ctx values (.returnCallRef type)
  | .drop => values ≠ []
  | .select => ∃ t, t.isRef = false ∧ Top ctx.types values [.i32, t, t]
  | .typedSelect declared => Top ctx.types values [.i32, declared, declared]
  | .localGet i => ∃ t v, (localTypes ctx)[i]? = some t ∧ locals[i]? = some v ∧
      HasType ctx.types v t
  | .localSet i | .localTee i => ∃ t, (localTypes ctx)[i]? = some t ∧ Top ctx.types values [t]
  | .refIsNull | .refAsNonNull => ∃ v below, values = v :: below ∧ v.isRef = true
  | instr => ∃ sig, signature ctx instr = .ok sig ∧ Top ctx.types values sig.pops

/-- The property of a state: what the next instruction consumes or delivers has the declared types,
and so has the payload that a clause of an enclosing `try_table` would deliver. At the end the
results have the types of the function. -/
structure Ready (ctx : FunctionContext) (st : State) : Prop where
  consumes : ∀ instr rest, st.rest = instr :: rest →
    Consumes ctx st.values st.labels st.locals instr
  catches : ∀ j label clause types payload, st.labels[j]? = some label → clause ∈ label.catches →
    ctx.catchTypes clause = .ok types → Typed ctx.types payload types.reverse →
    Delivers ctx payload (st.labels.drop (j + 1)) clause.label
  returns : st.rest = [] → Typed ctx.types st.values ctx.functionType.results.reverse

end Andsifr.Execution
