import Andsifr.Validation.CheckInstruction

namespace Andsifr.Validation

open Lib Wasm Check

namespace Stacks

variable {types : List FunctionType}

@[simp] theorem returns_pop (s : Stacks) : Returns s.pop := by
  unfold pop
  split <;> simp

@[simp] theorem returns_label (s : Stacks) (m : String) (i : Index) : Returns (s.label m i) := by
  unfold label
  split <;> simp

section

variable (h : WellFormedTypes types)

include h

@[simp] theorem returns_matchesType (actual expected : ValueType) :
    Returns (matchesType types actual expected) := by
  simp [matchesType, returns_isRefSubtypeOf h]

@[simp] theorem returns_popAndVerifyType (s : Stacks) (t : ValueType) :
    Returns (s.popAndVerifyType types t) := by
  unfold popAndVerifyType
  split <;> simp [h]

@[simp] theorem returns_verifyTypes (isParam : Bool) (context : String)
    (i : Nat) (pairs : List (ValueType × ValueType)) :
    Returns (verifyTypes types isParam context i pairs) := by
  induction pairs generalizing i with
  | nil => exact returns_pure ()
  | cons pair rest ih => simp [verifyTypes, h, ih]

@[simp] theorem returns_requireStackValues (isParam : Bool) (context : String)
    (want : List ValueType) (above : Bool) (s : Stacks) :
    Returns (s.requireStackValues types isParam context want above) := by
  unfold requireStackValues
  split <;> simp [h]

@[simp] theorem returns_popAll (wrap : Nat → String → String)
    (ts : List ValueType) (s : Stacks) : Returns (s.popAll types wrap ts) := by
  induction ts generalizing s with
  | nil => exact returns_pure s
  | cons t ts ih => simp [popAll, h, ih]

@[simp] theorem returns_applySignature (wrap : Nat → String → String)
    (sig : Signature) (s : Stacks) : Returns (s.applySignature types wrap sig) := by
  simp [applySignature, h]

@[simp] theorem returns_enter (s : Stacks) (kind : BlockKind)
    (context : String) (type : BlockType) (saved : Option (List Index)) :
    Returns (s.enter types kind context type saved) := by
  simp [enter, h]

end

theorem tryPop_initLocals {s s' : Stacks} {t : ValueType} (h : s.tryPop = some (t, s')) :
    s'.initLocals = s.initLocals := by
  unfold tryPop at h
  split_ifs at h
  · cases h
    rfl
  · split at h
    · cases h
    · cases h
      rfl

theorem popAndVerifyType_initLocals {s s' : Stacks} {t : ValueType}
    (h : s.popAndVerifyType types t = .ok s') : s'.initLocals = s.initLocals := by
  unfold popAndVerifyType at h
  split at h
  · cases h
  next t' s₁ hpop =>
    obtain ⟨b, -, h⟩ := bind_inv h
    split at h
    · cases h
      exact tryPop_initLocals hpop
    · cases h

end Stacks

open Stacks

namespace FunctionContext

/-- What is known of a module when its functions are validated: its types are well formed and its
tags have been checked. -/
structure WellFormed (ctx : FunctionContext) : Prop where
  types : WellFormedTypes ctx.types
  tags : ∀ t ∈ ctx.tags, t < ctx.types.length

variable {ctx : FunctionContext}

@[simp] theorem returns_requireFeature (feature : CoreFeatures) (wrap : String → String) :
    Returns (ctx.requireFeature feature wrap) :=
  returns_require _ _

theorem len32_le {α : Type} (xs : List α) : len32 xs ≤ xs.length :=
  Nat.mod_le _ _

@[simp] theorem returns_localType (name : String) (i : Nat) : Returns (ctx.localType name i) := by
  refine Returns.ite (fun _ => returns_fail _) fun hlt => ?_
  refine Returns.ite (fun hparam => ?_) fun hlocal => ?_
  · have := len32_le ctx.functionType.params
    exact returns_index (lt_of_lt_of_le hparam this)
  · have hlt' : i < (len32 ctx.localTypes + ctx.inputLen) % 2 ^ 32 := Nat.lt_of_not_le hlt
    have hge : ctx.inputLen ≤ i := Nat.le_of_not_lt hlocal
    have := len32_le ctx.localTypes
    exact returns_index (by omega)

@[simp] theorem returns_classSignature (classes : List OpcodeClass) (m : String) (op : UInt8) :
    Returns (classSignature classes m op) := by
  unfold classSignature
  split <;> simp

@[simp] theorem returns_memorySignature (classes : List OpcodeClass) (m m' : String) (op : UInt8)
    (align : Nat) : Returns (memorySignature classes m m' op align) := by
  unfold memorySignature
  split <;> simp

/-- A lookup that is guarded by the length as a `uint32`. -/
theorem returns_guarded {α β : Type} (xs : List α) (i : Nat) (m : String) {f : α → Check β}
    (hf : ∀ a, Returns (f a)) :
    Returns (if len32 xs ≤ i then fail m else index xs i >>= f) := by
  refine Returns.ite (fun _ => returns_fail _) fun hlt => ?_
  have := len32_le xs
  exact (returns_index (by omega)).bind fun a _ => hf a

@[simp] theorem returns_tableType (i : Nat) : Returns (ctx.tableType i) :=
  returns_guarded ctx.tables i _ fun _ => returns_pure _

@[simp] theorem returns_globalGetType (i : Nat) : Returns (ctx.globalGetType i) :=
  returns_guarded ctx.globals i _ fun _ => returns_pure _

@[simp] theorem returns_globalSetType (i : Nat) : Returns (ctx.globalSetType i) :=
  returns_guarded ctx.globals i _ fun _ => by simp

@[simp] theorem returns_refFuncType (i : Nat) : Returns (ctx.refFuncType i) := by
  refine Returns.ite (fun _ => returns_fail _) fun hlt => ?_
  have := len32_le ctx.functions
  exact returns_require_bind _ _ ((returns_index (by omega)).bind fun _ _ => returns_pure _)

@[simp] theorem returns_elementType (i : Nat) : Returns (ctx.elementType i) := by
  refine Returns.ite (fun _ => returns_fail _) fun hlt => ?_
  exact (returns_index (by omega)).bind fun _ _ => returns_pure _

@[simp] theorem returns_requireElementSubtype (h : ctx.WellFormed) (src dst : ValueType)
    (m : String) :
    Returns (ctx.requireElementSubtype src dst m) := by
  simp [requireElementSubtype, returns_isRefSubtypeOf h.types]

theorem returns_bulkSignature (h : ctx.WellFormed) (instr : Instruction) :
    Returns (ctx.bulkSignature instr) := by
  cases instr <;> simp [bulkSignature, requireBulkMemory, requireMemory, requireDataCount,
    requireDataIndex, requireTableIndex, h]

theorem returns_vecSignature (instr : Instruction) : Returns (ctx.vecSignature instr) := by
  cases instr with
  | vecMemory op align offset lane =>
    cases lane <;> simp [vecSignature, requireSimd, requireMemory, requireLane]
  | vecShuffle lanes =>
    refine returns_require_bind _ _ ?_
    exact (returns_forEach 0 fun _ _ _ => returns_require _ _).bind fun _ _ => returns_pure _
  | _ => simp [vecSignature, requireSimd, requireLane]

@[simp] theorem returns_numericSignature (op : UInt8) : Returns (ctx.numericSignature op) := by
  unfold numericSignature
  split <;> simp

@[simp] theorem returns_constSignature (op : UInt8) : Returns (constSignature op) := by
  simp [constSignature]

section

variable (h : ctx.WellFormed)

include h

@[simp] theorem returns_plainSignature (instr : Instruction) :
    Returns (ctx.plainSignature instr) := by
  have hbulk := returns_bulkSignature h instr
  have hvec := @returns_vecSignature ctx instr
  cases instr with
  | v128Const | vec _ | vecMemory _ _ _ _ | vecLane _ _ | vecShuffle _ => exact hvec
  | nop | globalGet _ | globalSet _ | tableGet _ | tableSet _ | refNull _ | refFunc _ | const _
  | numeric _ | memory _ _ _ | memorySize | memoryGrow | atomicFence | truncSat _ | atomic _ _ _ =>
    unfold plainSignature
    simp [requireMemory]
  | _ => exact hbulk

theorem returns_checkElse {s : Stacks} (hs : s.controlBlocks ≠ []) : Returns (ctx.checkElse s) := by
  unfold checkElse
  split
  next hnil => exact absurd hnil hs
  next => simp [h.types]

theorem returns_checkEnd {s : Stacks} (hs : s.controlBlocks ≠ []) : Returns (ctx.checkEnd s) := by
  unfold checkEnd
  split
  next hnil => exact absurd hnil hs
  next => simp [h.types]

@[simp] theorem returns_popDefaults (i : Nat) (ts : List ValueType) (s : Stacks) :
    Returns (ctx.popDefaults i ts s) := by
  induction ts generalizing i s with
  | nil => exact returns_pure _
  | cons t ts ih => simp [popDefaults, ih, returns_isRefSubtypeOf h.types]

@[simp] theorem returns_checkCompatible (label : Index)
    (pairs : List (ValueType × ValueType)) : Returns (ctx.checkCompatible label pairs) := by
  induction pairs with
  | nil => exact returns_pure ()
  | cons pair rest ih => simp [checkCompatible, ih, returns_areRefTypesCompatible h.types]

theorem returns_checkBrTable (s : Stacks) (labels : List Index) (d : Index) :
    Returns (ctx.checkBrTable s labels d) := by
  have hlabels (s : Stacks) (ts : List ValueType) :
      Returns (forEach (fun _ label => ctx.checkTableLabel s d ts label) 0 labels) :=
    returns_forEach 0 fun _ _ _ => by simp [checkTableLabel, h]
  simp [checkBrTable, popDefaultLabel, hlabels, h, h.types]

end

@[simp] theorem returns_popRef (s : Stacks) (name suffix : String) :
    Returns (popRef s name suffix) := by
  simp [popRef]

section

variable (h : ctx.WellFormed)

include h

theorem returns_checkBrOnNonNull (s : Stacks) (label : Index) :
    Returns (ctx.checkBrOnNonNull s label) := by
  refine returns_bind (returns_requireFeature _ _) fun _ =>
    returns_bind (returns_label _ _ _) fun target => ?_
  refine returns_bind (returns_popRef _ _ _) fun ⟨tp, s'⟩ => ?_
  cases hlast : target.labelTypes.getLast? with
  | none => exact returns_fail _
  | some lastTarget => simp [checkDeliveredRef, returns_isRefSubtypeOf h.types, h.types]

@[simp] theorem returns_tagType (m : String) (tag : Nat) : Returns (ctx.tagType m tag) := by
  refine Returns.ite (fun _ => returns_fail _) fun hlt => ?_
  have := len32_le ctx.tags
  refine (returns_index (by omega)).bind fun typeIndex htag => ?_
  exact returns_index (h.tags typeIndex (List.mem_of_getElem? (index_eq_ok_iff.mp htag)))

@[simp] theorem returns_catchTypes (clause : CatchClause) : Returns (ctx.catchTypes clause) := by
  cases clause <;> simp [catchTypes, h]

@[simp] theorem returns_checkDelivered (f : Nat → ValueType → ValueType → String) (j : Nat)
    (pairs : List (ValueType × ValueType)) : Returns (ctx.checkDelivered f j pairs) := by
  induction pairs generalizing j with
  | nil => exact returns_pure ()
  | cons pair rest ih => simp [checkDelivered, ih, returns_isRefSubtypeOf h.types]

theorem returns_checkTryTable (s : Stacks) (type : BlockType)
    (catches : List CatchClause) : Returns (ctx.checkTryTable s type catches) := by
  have hcatches : Returns (forEach (fun _ clause => ctx.checkCatch s clause) 0 catches) :=
    returns_forEach 0 fun _ _ _ => by simp [checkCatch, h]
  simp [checkTryTable, hcatches, h.types]

@[simp] theorem returns_validateReturnCall (s : Stacks) (name : String)
    (callee : FunctionType) : Returns (ctx.validateReturnCall s name callee) := by
  simp [validateReturnCall, h.types]

@[simp] theorem returns_indirectType (s : Stacks) (name : String) (type table : Nat) :
    Returns (ctx.indirectType s name type table) := by
  refine (returns_require _ _).bind fun _ htype => returns_require_bind _ _ ?_
  refine (returns_require _ _).bind fun _ htable => ?_
  have htype : type < ctx.types.length := of_decide_eq_true (require_eq_ok_iff.mp htype)
  have htable : table < len32 ctx.tables := of_decide_eq_true (require_eq_ok_iff.mp htable)
  have := len32_le ctx.tables
  refine returns_bind (returns_index (by omega)) fun _ => ?_
  simp [returns_index htype, h.types]

@[simp] theorem returns_referencedType (s : Stacks) (name : String) (type : Nat) :
    Returns (ctx.referencedType s name type) := by
  refine returns_bind (returns_requireFeature _ _) fun _ =>
    (returns_require _ _).bind fun _ htype => ?_
  have htype := of_decide_eq_true (require_eq_ok_iff.mp htype)
  simp [returns_index htype, h.types]

theorem returns_checkSelect (s : Stacks) (typed : Bool) : Returns (ctx.checkSelect s typed) := by
  simp [checkSelect, selectType, returns_areRefTypesCompatible h.types,
    returns_isRefSubtypeOf h.types, h.types]

end

/-- The instructions on which validation panics: a call of a function whose type index is not
checked yet and out of range, and the initialisation of a non-nullable local when the set of
initialised locals has been lost. -/
def Faults (ctx : FunctionContext) (s : Stacks) : Instruction → Prop
  | .call f | .returnCall f => ∃ t, ctx.functions[f]? = some t ∧ ctx.types.length ≤ t
  | .localSet i | .localTee i =>
    ctx.needsInit i ∧ s.initLocals = none ∧
      ∃ t s', ctx.localType "" i = .ok t ∧ s.popAndVerifyType ctx.types t = .ok s'
  | _ => False

variable {s : Stacks}

theorem crashes_markLocalInit {i : Nat} :
    Crashes (ctx.markLocalInit s i) ↔ ctx.needsInit i ∧ s.initLocals = none := by
  unfold markLocalInit
  split
  next hneeds =>
    cases hinit : s.initLocals with
    | none => simp [hneeds, Crashes, raise]
    | some set => exact iff_of_false (returns_pure _) (by simp)
  next hneeds => exact iff_of_false (returns_pure _) (by simp [hneeds])

theorem crashes_typeOfCallee {f : Nat} :
    Crashes (ctx.typeOfCallee f) ↔ ∃ t, ctx.functions[f]? = some t ∧ ctx.types.length ≤ t := by
  unfold typeOfCallee
  cases hf : ctx.functions[f]? with
  | none => exact iff_of_false (returns_fail _) (by simp)
  | some t => simpa using crashes_index

theorem localType_eq_ok_iff {name name' : String} {i : Nat} {t : ValueType} :
    ctx.localType name i = .ok t ↔ ctx.localType name' i = .ok t := by
  unfold localType
  simp only
  split
  · simp [fail]
  · rfl

/-- Setting a local: the operand is popped, and then the local is marked as initialised. -/
theorem crashes_setLocal {i : Nat} {name : String} (h : ctx.WellFormed)
    (next : ValueType → Stacks → Stacks) (hnext : ∀ t s, (next t s).initLocals = s.initLocals) :
    Crashes (do
      let t ← ctx.localType name i
      let s ← s.popAndVerifyType ctx.types t
      ctx.markLocalInit (next t s) i) ↔
    ctx.needsInit i ∧ s.initLocals = none ∧
      ∃ t s', ctx.localType "" i = .ok t ∧ s.popAndVerifyType ctx.types t = .ok s' := by
  rw [crashes_bind, or_iff_right (returns_localType name i)]
  constructor
  · rintro ⟨t, ht, hcrash⟩
    rw [crashes_bind, or_iff_right (returns_popAndVerifyType h.types s t)] at hcrash
    obtain ⟨s', hs', hcrash⟩ := hcrash
    obtain ⟨hneeds, hinit⟩ := crashes_markLocalInit.mp hcrash
    rw [hnext, popAndVerifyType_initLocals hs'] at hinit
    exact ⟨hneeds, hinit, t, s', localType_eq_ok_iff.mp ht, hs'⟩
  · rintro ⟨hneeds, hinit, t, s', ht, hs'⟩
    refine ⟨t, localType_eq_ok_iff.mp ht, ?_⟩
    rw [crashes_bind, or_iff_right (returns_popAndVerifyType h.types s t)]
    refine ⟨s', hs', crashes_markLocalInit.mpr ⟨hneeds, ?_⟩⟩
    rw [hnext, popAndVerifyType_initLocals hs', hinit]

theorem returns_checkInstruction (h : ctx.WellFormed) (hs : s.controlBlocks ≠ [])
    (instr : Instruction) (hcall : ∀ f, instr ≠ .call f ∧ instr ≠ .returnCall f)
    (hlocal : ∀ i, instr ≠ .localSet i ∧ instr ≠ .localTee i) :
    Returns (ctx.checkInstruction s instr) := by
  cases instr with
  | block _ | loop _ | ifOp _ => simp [checkInstruction, checkBlock, checkLoop, checkIf, h.types]
  | elseOp => exact returns_checkElse h hs
  | endOp => exact returns_checkEnd h hs
  | tryTable type catches => exact returns_checkTryTable h s type catches
  | unreachable | throw _ | throwRef =>
    simp [checkInstruction, checkThrow, checkThrowRef, h, h.types]
  | br _ | brIf _ | brOnNull _ | returnOp =>
    simp [checkInstruction, checkBr, checkBrIf, checkBrOnNull, checkReturn, h.types]
  | brTable labels d => exact returns_checkBrTable h s labels d
  | brOnNonNull label => exact returns_checkBrOnNonNull h s label
  | call f => exact absurd rfl (hcall f).1
  | returnCall f => exact absurd rfl (hcall f).2
  | callIndirect _ _ | callRef _ | returnCallIndirect _ _ | returnCallRef _ =>
    simp [checkInstruction, checkCallIndirect, checkCallRef, checkReturnCallIndirect,
      checkReturnCallRef, validateCallSignature, h, h.types]
  | select | typedSelect _ => exact returns_checkSelect h s _
  | localGet i => simp [checkInstruction, checkLocalGet, requireLocalInit]
  | localSet i => exact absurd rfl (hlocal i).1
  | localTee i => exact absurd rfl (hlocal i).2
  | drop | refIsNull | refAsNonNull =>
    simp [checkInstruction, checkDrop, checkRefIsNull, checkRefAsNonNull]
  | _ =>
    exact returns_bind (returns_plainSignature h _) fun _ => returns_applySignature h.types _ _ _

theorem crashes_checkInstruction_iff (h : ctx.WellFormed) (hs : s.controlBlocks ≠ [])
    (instr : Instruction) : Crashes (ctx.checkInstruction s instr) ↔ ctx.Faults s instr := by
  have hcall (f : Nat) (rest : FunctionType → Check Stacks) (hrest : ∀ ft, Returns (rest ft)) :
      Crashes (ctx.typeOfCallee f >>= rest) ↔
        ∃ t, ctx.functions[f]? = some t ∧ ctx.types.length ≤ t := by
    rw [crashes_bind, crashes_typeOfCallee, or_iff_left]
    rintro ⟨ft, -, hcrash⟩
    exact hrest ft hcrash
  by_cases hfaulty : ∃ i, instr = .call i ∨ instr = .returnCall i ∨ instr = .localSet i ∨
      instr = .localTee i
  · obtain ⟨i, rfl | rfl | rfl | rfl⟩ := hfaulty
    · exact hcall i _ fun _ => returns_applySignature h.types _ _ _
    · exact hcall i _ fun _ => by simp [validateCallSignature, h, h.types]
    · exact crashes_setLocal h (fun _ s => s) fun _ _ => rfl
    · exact crashes_setLocal h (fun t s => s.push t) fun _ _ => rfl
  push Not at hfaulty
  have hreturns := returns_checkInstruction h hs instr
    (fun f => ⟨(hfaulty f).1, (hfaulty f).2.1⟩) fun i => ⟨(hfaulty i).2.2.1, (hfaulty i).2.2.2⟩
  refine ⟨fun hcrash => absurd hcrash hreturns, fun hfault => ?_⟩
  unfold Faults at hfault
  split at hfault
  · exact absurd rfl (hfaulty _).1
  · exact absurd rfl (hfaulty _).2.1
  · exact absurd rfl (hfaulty _).2.2.1
  · exact absurd rfl (hfaulty _).2.2.2
  · exact hfault.elim

end FunctionContext

end Andsifr.Validation
