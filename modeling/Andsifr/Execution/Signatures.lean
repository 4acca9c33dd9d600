import Andsifr.Execution.Typing

namespace Andsifr.Validation.FunctionContext

open Lib Wasm Check

/-- The types of the module's declarations are types that a module can declare. -/
structure Proper (ctx : FunctionContext) : Prop where
  wellFormed : WellFormedTypes ctx.types
  types : ∀ ft ∈ ctx.types, ∀ t ∈ ft.params ++ ft.results, t.Proper
  functionType : ctx.functionType ∈ ctx.types
  paramCount : ctx.functionType.params.length < 2 ^ 32
  locals : ∀ t ∈ ctx.localTypes, t.Proper
  globals : ∀ g ∈ ctx.globals, g.valType.Proper
  tables : ∀ t ∈ ctx.tables, t.type.Proper

end Andsifr.Validation.FunctionContext

namespace Andsifr.Execution

open Lib Wasm Validation Check FunctionContext

def ProperSignature (sig : Signature) : Prop :=
  ∀ t ∈ sig.pops ++ sig.pushes, t.Proper

instance (sig : Signature) : Decidable (ProperSignature sig) :=
  inferInstanceAs (Decidable (∀ t ∈ _, _))

theorem properSignature_cons {t : ValueType} {pops pushes : List ValueType} (ht : t.Proper)
    (h : ProperSignature ⟨pops, pushes⟩) : ProperSignature ⟨t :: pops, pushes⟩ := by
  intro u hu
  rcases List.mem_cons.mp hu with rfl | hu
  · exact ht
  · exact h u hu

variable {ctx : FunctionContext} {classes : List OpcodeClass}

section

variable (hclasses : ∀ c ∈ classes, ProperSignature c.signature)

include hclasses

theorem proper_findClass {op : UInt8} {c : OpcodeClass}
    (h : findClass classes op = some c) : ProperSignature c.signature :=
  hclasses c (List.mem_of_find?_eq_some h)

theorem proper_classSignature (m : String) (op : UInt8) :
    Ensures ProperSignature (classSignature classes m op) := by
  unfold classSignature
  split
  next h => exact ensures_pure (proper_findClass hclasses h)
  · exact ensures_fail _

theorem proper_memorySignature (m m' : String) (op : UInt8)
    (align : Nat) : Ensures ProperSignature (memorySignature classes m m' op align) := by
  unfold memorySignature
  split
  next h => exact ensures_bind fun _ => ensures_pure (proper_findClass hclasses h)
  · exact ensures_fail _

end

theorem proper_tableType (hctx : ctx.Proper) (table : Nat) :
    Ensures ValueType.Proper (ctx.tableType table) := by
  refine Ensures.ite (ensures_fail _) fun t h => ?_
  obtain ⟨table, htable, h⟩ := bind_inv h
  cases h
  exact hctx.tables table (List.mem_of_getElem? (index_eq_ok_iff.mp htable))

theorem proper_globalGetType (hctx : ctx.Proper) (index : Nat) :
    Ensures ValueType.Proper (ctx.globalGetType index) := by
  refine Ensures.ite (ensures_fail _) fun t h => ?_
  obtain ⟨g, hg, h⟩ := bind_inv h
  cases h
  exact hctx.globals g (List.mem_of_getElem? (index_eq_ok_iff.mp hg))

theorem proper_globalSetType (hctx : ctx.Proper) (index : Nat) :
    Ensures ValueType.Proper (ctx.globalSetType index) := by
  refine Ensures.ite (ensures_fail _) fun t h => ?_
  obtain ⟨g, hg, h⟩ := bind_inv h
  obtain ⟨_, -, h⟩ := bind_inv h
  cases h
  exact hctx.globals g (List.mem_of_getElem? (index_eq_ok_iff.mp hg))

theorem proper_concreteRef (type : Nat) (nullable : Bool) :
    (ValueType.concreteRef type nullable).Proper :=
  .inl (by simp [ValueType.concreteRef, ValueType.isRef])

theorem proper_refFuncType (index : Nat) : Ensures ValueType.Proper (ctx.refFuncType index) := by
  refine Ensures.ite (ensures_fail _) (ensures_bind₂ fun _ type => ?_)
  refine ensures_pure ?_
  split
  · exact proper_concreteRef _ _
  · decide

theorem proper_bulkSignature (hctx : ctx.Proper) (instr : Instruction) :
    Ensures ProperSignature (ctx.bulkSignature instr) := by
  have hthree : ProperSignature threeI32 := by decide
  have hnone : ProperSignature ⟨[], []⟩ := by decide
  cases instr with
  | memoryInit data =>
    exact ensures_bind₂ fun _ _ => ensures_bind₂ fun _ _ =>
      ensures_pure hthree
  | dataDrop data =>
    exact ensures_bind₂ fun _ _ => ensures_bind fun _ => ensures_pure hnone
  | memoryCopy | memoryFill =>
    exact ensures_bind₂ fun _ _ => ensures_pure hthree
  | tableInit element table =>
    exact ensures_bind₂ fun _ _ => ensures_bind₂ fun _ _ =>
      ensures_bind fun _ => ensures_pure hthree
  | elemDrop element => exact ensures_bind₂ fun _ _ => ensures_pure hnone
  | tableCopy dst src =>
    exact ensures_bind₂ fun _ _ => ensures_bind₂ fun _ _ =>
      ensures_bind₂ fun _ _ => ensures_pure hthree
  | tableGrow table =>
    refine ensures_bind fun _ => (proper_tableType hctx table).bind fun t ht => ensures_pure ?_
    exact properSignature_cons (by decide) (properSignature_cons ht (by decide))
  | tableSize table => exact ensures_bind₂ fun _ _ => ensures_pure (by decide)
  | tableFill table =>
    refine ensures_bind fun _ => (proper_tableType hctx table).bind fun t ht => ensures_pure ?_
    exact properSignature_cons (by decide) (properSignature_cons ht (by decide))
  | _ => exact ensures_fail _

theorem proper_vecSignature (instr : Instruction) :
    Ensures ProperSignature (ctx.vecSignature instr) := by
  cases instr with
  | v128Const => exact ensures_bind fun _ => ensures_pure (by decide)
  | vec op => exact ensures_bind fun _ => proper_classSignature (by decide) _ _
  | vecMemory op align offset lane =>
    cases lane with
    | none =>
      exact ensures_bind₂ fun _ _ => proper_memorySignature (by decide) _ _ _ _
    | some lane =>
      refine ensures_bind₂ fun _ _ => ?_
      exact (proper_memorySignature (by decide) _ _ _ _).bind fun _ hsig =>
        ensures_bind fun _ => ensures_pure hsig
  | vecLane op lane =>
    exact ensures_bind₂ fun _ _ => proper_classSignature (by decide) _ _
  | vecShuffle lanes =>
    exact ensures_bind₂ fun _ _ => ensures_pure (by decide)
  | _ => exact ensures_fail _

theorem proper_numericSignature (op : UInt8) :
    Ensures ProperSignature (ctx.numericSignature op) := by
  unfold numericSignature
  split
  · exact ensures_bind fun _ => proper_classSignature (by decide) _ _
  · exact proper_classSignature (by decide) _ _

theorem proper_constSignature (op : UInt8) : Ensures ProperSignature (constSignature op) :=
  Ensures.ite (ensures_pure (by decide)) (Ensures.ite (ensures_pure (by decide))
    (Ensures.ite (ensures_pure (by decide)) (ensures_pure (by decide))))

variable {instr : Instruction}

theorem proper_plainSignature (hctx : ctx.Proper) (hinstr : instr.Proper) :
    Ensures ProperSignature (ctx.plainSignature instr) := by
  have hbulk := proper_bulkSignature hctx instr
  have hvec := @proper_vecSignature ctx instr
  cases instr with
  | nop => exact ensures_pure (by decide)
  | globalGet index =>
    refine (proper_globalGetType hctx index).bind fun t ht => ensures_pure ?_
    exact fun u hu => by simpa using (List.mem_singleton.mp hu) ▸ ht
  | globalSet index =>
    refine (proper_globalSetType hctx index).bind fun t ht => ensures_pure ?_
    exact properSignature_cons ht (by decide)
  | tableGet table =>
    refine ensures_bind fun _ => (proper_tableType hctx table).bind fun t ht => ensures_pure ?_
    exact properSignature_cons (by decide) fun u hu => List.mem_singleton.mp hu ▸ ht
  | tableSet table =>
    refine ensures_bind fun _ => (proper_tableType hctx table).bind fun t ht => ensures_pure ?_
    exact properSignature_cons ht (by decide)
  | refNull t =>
    refine ensures_bind fun _ => ensures_pure fun u hu => ?_
    exact List.mem_singleton.mp hu ▸ .inl (isRef_of_isNullable hinstr)
  | refFunc index =>
    refine ensures_bind fun _ => (proper_refFuncType index).bind fun t ht => ensures_pure ?_
    exact fun u hu => List.mem_singleton.mp hu ▸ ht
  | const op => exact proper_constSignature op
  | numeric op => exact proper_numericSignature op
  | memory op align offset =>
    exact ensures_bind fun _ => proper_memorySignature (by decide) _ _ _ _
  | memorySize | memoryGrow | atomicFence => exact ensures_bind fun _ => ensures_pure (by decide)
  | truncSat op => exact ensures_bind fun _ => proper_classSignature (by decide) _ _
  | atomic op align offset =>
    exact ensures_bind₂ fun _ _ => proper_memorySignature (by decide) _ _ _ _
  | v128Const | vec _ | vecMemory _ _ _ _ | vecLane _ _ | vecShuffle _ => exact hvec
  | _ => exact hbulk

theorem proper_index (hctx : ctx.Proper) (type : Nat) :
    Ensures (fun ft => ∀ t ∈ ft.params ++ ft.results, t.Proper) (index ctx.types type) :=
  fun ft h => hctx.types ft (List.mem_of_getElem? (index_eq_ok_iff.mp h))

theorem proper_typeOfCallee (hctx : ctx.Proper) (f : Nat) :
    Ensures (fun ft => ∀ t ∈ ft.params ++ ft.results, t.Proper) (ctx.typeOfCallee f) := by
  unfold typeOfCallee
  split
  · exact ensures_fail _
  · exact proper_index hctx _

theorem proper_callSignature {ft : FunctionType} (h : ∀ t ∈ ft.params ++ ft.results, t.Proper) :
    ProperSignature (callSignature ft) := by
  intro t ht
  simp only [callSignature, List.mem_append, List.mem_reverse] at ht
  exact h t (List.mem_append.mpr ht)

theorem proper_signature (hctx : ctx.Proper) (hinstr : instr.Proper) :
    Ensures ProperSignature (signature ctx instr) := by
  have hplain := proper_plainSignature hctx hinstr
  cases instr with
  | call f =>
    refine (proper_typeOfCallee hctx f).bind fun ft hft => ensures_pure ?_
    exact proper_callSignature hft
  | callIndirect type table =>
    refine (proper_index hctx type).bind fun ft hft => ensures_pure ?_
    exact properSignature_cons (by decide) (proper_callSignature hft)
  | callRef type =>
    refine (proper_index hctx type).bind fun ft hft => ensures_pure ?_
    exact properSignature_cons (proper_concreteRef _ _) (proper_callSignature hft)
  | _ => exact hplain

theorem hasType_refFunc {index t : Nat} (hindex : ctx.functions[index]? = some t) :
    Ensures (HasType ctx.types (.func t)) (ctx.refFuncType index) := by
  refine Ensures.ite (ensures_fail _) (ensures_bind fun _ type h => ?_)
  obtain ⟨t', ht', h⟩ := bind_inv h
  rw [index_eq_ok_iff, hindex] at ht'
  cases ht'
  cases h
  split
  · exact TypeEquiv.refl t
  · rfl

theorem typed_of_produces (hinstr : instr.Proper) {sig : Signature}
    (hsig : signature ctx instr = .ok sig) {results : List Value}
    (h : Produces ctx instr sig results) : Typed ctx.types results sig.pushes.reverse := by
  cases instr with
  | refNull t =>
    obtain ⟨_, -, hsig⟩ := bind_inv hsig
    cases hsig
    cases h
    exact .cons hinstr .nil
  | refFunc f =>
    obtain ⟨t, hindex, rfl⟩ := h
    obtain ⟨_, -, hsig⟩ := bind_inv hsig
    obtain ⟨type, htype, hsig⟩ := bind_inv hsig
    cases hsig
    exact .cons (hasType_refFunc hindex type htype) .nil
  | _ => exact h

end Andsifr.Execution
