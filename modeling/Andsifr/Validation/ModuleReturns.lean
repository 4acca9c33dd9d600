import Andsifr.Validation.Module

namespace Andsifr.Validation.Module

open Lib Wasm FunctionContext List Check

/-- What validation relies on in a decoded module. -/
structure Decoded (m : Module) : Prop where
  types : WellFormedTypes m.typeSection
  importedGlobals : m.importGlobalCount ≤ (importedGlobals m).length
  tables : ∀ t ∈ m.tableSection, ∀ e, t.initExpr = some e → e.Closed
  globals : ∀ g ∈ m.globalSection, g.init.Closed
  elements : ∀ elem ∈ m.elementSection,
    (∀ e ∈ elem.init, e.Closed) ∧ (elem.mode = .active → elem.offsetExpr.Closed)
  data : ∀ d ∈ m.dataSection, d.passive = false → d.offsetExpression.Closed
  bodies : ∀ c ∈ m.codeSection.getD [], c.body.getLast? = some Opcode.opEnd
  functionCount : m.functionSection.length < 2 ^ 32
  codeCount : (m.codeSection.getD []).length < 2 ^ 32

variable {m : Module}

theorem typeIndexOfFunction_lt {i t : Nat} (h : typeIndexOfFunction m i = some t) :
    t < m.typeSection.length := by
  have hrange : ∀ u : Nat, (if len32 m.typeSection ≤ u then none else some u) = some t →
      t < m.typeSection.length := by
    intro u hu
    have := len32_le m.typeSection
    split at hu
    · cases hu
    · cases hu
      omega
  unfold typeIndexOfFunction at h
  simp only at h
  split at h
  · exact hrange _ h
  · split at h
    · cases h
    · obtain ⟨u, -, hu⟩ := Option.bind_eq_some_iff.mp h
      exact hrange u hu

theorem returns_validateConcreteRefTypes : Returns (validateConcreteRefTypes m) := by
  refine returns_bind (returns_forEach _ fun _ _ _ => returns_require _ _) fun _ =>
    returns_bind (returns_forEach _ fun _ _ _ => returns_require _ _) fun _ =>
    returns_bind (returns_forEach _ fun _ _ _ => ?_) fun _ => returns_forEach _ fun _ _ _ =>
      returns_require _ _
  exact returns_forEach _ fun _ _ _ => returns_require _ _

theorem returns_validateStartSection : Returns (validateStartSection m) := by
  unfold validateStartSection
  split
  · exact returns_pure _
  · split
    · exact returns_fail _
    next t ht =>
      exact (returns_index (typeIndexOfFunction_lt ht)).bind fun _ _ => returns_require _ _

theorem returns_allDeclarations : Returns (allDeclarations m) :=
  (returns_require _ _).bind fun _ _ => returns_pure _

theorem total_constResolvers (globals : List GlobalType) (numFuncs : Nat) :
    (constResolvers globals numFuncs).Total :=
  ⟨fun i => returns_guarded globals i _ fun _ => returns_pure _, fun _ => by simp [constResolvers]⟩

theorem returns_validateConstExpression (h : Decoded m) (globals : List GlobalType) (numFuncs : Nat)
    {e : ConstantExpression} (he : e.Closed) (t : ValueType) :
    Returns (validateConstExpression m globals numFuncs e t) := by
  simp [validateConstExpression, returns_evaluateConstExpr he
    (total_constResolvers globals numFuncs),
    returns_isRefSubtypeOf h.types]

theorem returns_validateTableInitExprs (h : Decoded m) {globals : List GlobalType}
    (hglobals : m.importGlobalCount ≤ globals.length) (numFuncs : Nat) :
    Returns (validateTableInitExprs m globals numFuncs) := by
  refine (returns_sliceTo hglobals).bind fun imported _ => returns_forEach _ fun i t ht => ?_
  refine (returns_require _ _).bind fun _ _ => ?_
  split
  · exact returns_pure _
  next e he => exact (returns_validateConstExpression h _ _ (h.tables t ht e he) _).mapErr _

variable (features : CoreFeatures)

theorem returns_validateImports :
    Returns (validateImports m features) := by
  refine returns_forEach _ fun i imp _ => (returns_require _ _).bind fun _ _ => ?_
  split
  · exact returns_require _ _
  · exact returns_require _ _
  · refine (returns_require _ _).bind fun _ ht => ?_
    have ht := of_decide_eq_true (require_eq_ok_iff.mp ht)
    exact (returns_index ht).bind fun _ _ => returns_require _ _
  · exact returns_pure _

theorem returns_validateGlobals (h : Decoded m) {globals : List GlobalType}
    (hglobals : m.importGlobalCount ≤ globals.length) (numFuncs : Nat) :
    Returns (validateGlobals m globals numFuncs) :=
  (returns_require _ _).bind fun _ _ => (returns_sliceTo hglobals).bind fun _ _ =>
    returns_forEach _ fun _ g hg => returns_validateConstExpression h _ _ (h.globals g hg) _

theorem returns_validateMemory (h : Decoded m) (memory : Option Memory) {globals : List GlobalType}
    (hglobals : m.importGlobalCount ≤ globals.length) :
    Returns (validateMemory m memory globals) := by
  refine (returns_require _ _).bind fun _ _ => (returns_sliceTo hglobals).bind fun _ _ =>
    returns_forEach _ fun _ d hd => Returns.ite (fun _ => returns_pure _) fun hpassive => ?_
  have hclosed := h.data d hd (Bool.eq_false_iff.mpr hpassive)
  exact (returns_validateConstExpression h _ _ hclosed _).mapErr _

theorem returns_validateExports (d : Declarations) :
    Returns (validateExports m features d) := by
  refine returns_forEach _ fun _ exp _ => ?_
  unfold validateExport
  split
  case h_2 => exact returns_guarded d.globals exp.index _ fun _ => returns_require _ _
  all_goals exact returns_require _ _

theorem returns_validateTagSection : Returns (validateTagSection m) :=
  returns_forEach _ fun _ t _ =>
    returns_guarded m.typeSection t _ fun _ => returns_require _ _

theorem returns_validateDeclarations (h : Decoded m) (features : CoreFeatures) :
    Returns (validateDeclarations m features) := by
  refine returns_validateConcreteRefTypes.bind fun _ _ => returns_validateStartSection.bind
    fun _ _ => returns_allDeclarations.bind fun d hd => ?_
  have hglobals : m.importGlobalCount ≤ d.globals.length := by
    obtain ⟨_, -, hd⟩ := bind_inv hd
    cases hd
    have := h.importedGlobals
    simp only [length_append]
    omega
  exact (returns_validateTableInitExprs h hglobals _).bind fun _ _ =>
    (returns_validateImports features).bind fun _ _ =>
    (returns_validateGlobals h hglobals _).bind fun _ _ =>
    (returns_validateMemory h _ hglobals).bind fun _ _ =>
    (returns_validateExports features d).bind fun _ _ =>
    returns_validateTagSection.bind fun _ _ => returns_pure _

theorem validateDeclarations_eq_ok {features : CoreFeatures} {d : Declarations}
    (h : validateDeclarations m features = .ok d) : allDeclarations m = .ok d ∧
      validateImports m features = .ok () ∧ validateTagSection m = .ok () := by
  simp only [validateDeclarations, bind_eq_ok_iff] at h
  obtain ⟨_, -, _, -, d, hd, _, -, _, himports, _, -, _, -, _, -, _, htags, ⟨⟩⟩ := h
  exact ⟨hd, himports, htags⟩

theorem tags_lt_of_validateDeclarations {features : CoreFeatures} {d : Declarations}
    (hd : validateDeclarations m features = .ok d) : ∀ t ∈ d.tags, t < m.typeSection.length := by
  obtain ⟨hall, himports, htags⟩ := validateDeclarations_eq_ok hd
  obtain ⟨_, -, hall⟩ := bind_inv hall
  cases hall
  intro t ht
  simp only [mem_append] at ht
  rcases ht with ht | ht
  · obtain ⟨imp, himp, hdesc⟩ := mem_filterMap.mp ht
    obtain ⟨j, hj⟩ := of_forEach_eq_ok himports himp
    obtain ⟨_, -, hj⟩ := bind_inv hj
    split at hdesc
    next t' htag =>
      cases hdesc
      rw [htag] at hj
      obtain ⟨_, hlt, -⟩ := bind_inv hj
      exact of_decide_eq_true (require_eq_ok_iff.mp hlt)
    next => cases hdesc
  · obtain ⟨j, hj⟩ := of_forEach_eq_ok htags ht
    have := len32_le m.typeSection
    split at hj
    next => cases hj
    next hlt => exact Nat.lt_of_lt_of_le (Nat.lt_of_not_le hlt) this

theorem wellFormed_functionContext (h : Decoded m) {features : CoreFeatures} {d : Declarations}
    (hd : validateDeclarations m features = .ok d) (declared : List Index) (ft : FunctionType)
    (localTypes : List ValueType) :
    (functionContext m features d declared ft localTypes).WellFormed :=
  ⟨h.types, tags_lt_of_validateDeclarations hd⟩

theorem returns_resolveConstExprGlobalType (name : String) (i idx : Nat) :
    Returns (resolveConstExprGlobalType m features name i idx) := by
  refine Returns.ite (fun _ => ?_) fun _ => Returns.ite (fun _ => returns_fail _) fun _ =>
    Returns.ite (fun _ => returns_fail _) fun _ => ?_
  · split <;> simp
  · exact returns_guarded m.globalSection _ _ fun _ => by simp

theorem total_declaringResolvers (name : String) (i : Nat) :
    (declaringResolvers m features name i).Total :=
  ⟨fun idx => returns_bind (returns_resolveConstExprGlobalType features name i idx) fun _ =>
    returns_pure _,
    fun _ => returns_pure _⟩

section

variable (h : Decoded m)

include h

theorem returns_declaredFunctionIndexes (features : CoreFeatures) :
    Returns (declaredFunctionIndexes m features) := by
  have hglobals : Returns (declaredByGlobals m features) :=
    returns_fold 0 [] fun i _ g hg =>
      ((returns_evaluateConstExpr (h.globals g hg) (total_declaringResolvers _ _ i)).mapErr _).bind
        fun _ _ => returns_pure _
  have helements : Returns (declaredByElements m features) :=
    returns_fold 0 [] fun i _ elem helem => returns_fold 0 _ fun _ _ e he =>
      ((returns_evaluateConstExpr ((h.elements elem helem).1 e he)
        (total_declaringResolvers _ _ i)).recover _).bind fun _ _ => returns_pure _
  exact hglobals.bind fun _ _ => helements.bind fun _ _ => returns_pure _

theorem returns_validateFunctionCounts (features : CoreFeatures)
    (d : Declarations) : Returns (validateFunctionCounts m features d) := by
  simp [validateFunctionCounts, returns_declaredFunctionIndexes h features]

theorem returns_validateElementInit (features : CoreFeatures) (t : ValueType)
    (idx ei : Nat) {e : ConstantExpression} (he : e.Closed) :
    Returns (validateElementInit m features t idx ei e) := by
  have htotal : (elementResolvers m features idx ei).Total := by
    constructor <;> simp [elementResolvers, returns_resolveConstExprGlobalType]
  simp [validateElementInit, returns_evaluateConstExpr he htotal, returns_isRefSubtypeOf h.types]

theorem returns_validateActiveElement (features : CoreFeatures)
    (tables : List Table) (idx : Nat) {elem : ElementSegment} (he : elem.offsetExpr.Closed) :
    Returns (validateActiveElement m features tables idx elem) := by
  have htotal : (offsetResolvers m features idx).Total := by
    constructor <;> simp [offsetResolvers, returns_resolveConstExprGlobalType]
  refine Returns.ite (fun _ => returns_fail _) fun hlt => ?_
  refine (returns_index (Nat.lt_of_not_le hlt)).bind fun _ _ =>
    (returns_isRefSubtypeOf h.types _ _).bind fun _ _ => (returns_require _ _).bind fun _ _ =>
    ((returns_evaluateConstExpr he htotal).mapErr _).bind fun ⟨values, t⟩ hvalues =>
    (returns_require _ _).bind fun _ _ => Returns.ite (fun _ => ?_) fun _ => returns_pure _
  -- the offset has a value, so that the first one can be looked at
  have hne : values ≠ [] := evaluateLoop_ne_nil (le_refl _) (mapErr_inv hvalues)
  exact (returns_index (length_pos_iff.mpr hne)).bind fun _ _ => returns_require _ _

theorem returns_validateTable (features : CoreFeatures) (tables : List Table) :
    Returns (validateTable m features tables) := by
  refine (returns_require _ _).bind fun _ _ => returns_forEach _ fun idx elem helem => ?_
  obtain ⟨hinit, hoffset⟩ := h.elements elem helem
  refine (returns_forEach _ fun ei e he =>
    returns_validateElementInit h features _ idx ei (hinit e he)).bind fun _ _ => ?_
  exact Returns.ite (fun hactive => returns_validateActiveElement h features tables idx
    (hoffset hactive)) fun _ => returns_pure _

end

/-- Validation of the module comes to the body of the `i`-th function: the declarations and the
functions before it have been accepted. -/
def ReachesBody (m : Module) (features : CoreFeatures) (i : Nat) (ctx : FunctionContext)
    (body : List UInt8) : Prop :=
  ∃ d declared typeIndex code ft, validateDeclarations m features = .ok d ∧
    m.codeSection.isSome ∧ validateFunctionCounts m features d = .ok (some declared) ∧
    forEach (validateFunctionAt m features d declared) 0 (m.functionSection.take i) = .ok () ∧
    m.functionSection[i]? = some typeIndex ∧ typeIndex < len32 m.typeSection ∧
    (m.codeSection.getD [])[i]? = some code ∧ m.typeSection[typeIndex]? = some ft ∧
    ctx = functionContext m features d declared ft code.localTypes ∧ body = code.body

theorem crashes_validateFunctionAt_iff {features : CoreFeatures} {d : Declarations}
    (hcounts : (m.codeSection.getD []).length = m.functionSection.length) {declared : List Index}
    {i : Nat} (hi : i < m.functionSection.length) {typeIndex : Nat} :
    Crashes (validateFunctionAt m features d declared i typeIndex) ↔
      ∃ code ft, typeIndex < len32 m.typeSection ∧ (m.codeSection.getD [])[i]? = some code ∧
        m.typeSection[typeIndex]? = some ft ∧
        Crashes ((functionContext m features d declared ft code.localTypes).validateFunction
          code.body) := by
  have hle := len32_le m.typeSection
  rw [validateFunctionAt, crashes_bind, or_iff_right (returns_require _ _)]
  constructor
  · rintro ⟨_, hlt, hcrash⟩
    have hlt : typeIndex < len32 m.typeSection := of_decide_eq_true (require_eq_ok_iff.mp hlt)
    rw [crashes_bind, or_iff_right (returns_index (by omega))] at hcrash
    obtain ⟨code, hcode, hcrash⟩ := hcrash
    rw [crashes_bind, or_iff_right (returns_index (by omega))] at hcrash
    obtain ⟨ft, hft, hcrash⟩ := hcrash
    exact ⟨code, ft, hlt, index_eq_ok_iff.mp hcode, index_eq_ok_iff.mp hft,
      crashes_mapErr.mp hcrash⟩
  · rintro ⟨code, ft, hlt, hcode, hft, hcrash⟩
    refine ⟨(), require_eq_ok_iff.mpr (decide_eq_true hlt), ?_⟩
    rw [index_eq_ok_iff.mpr hcode, index_eq_ok_iff.mpr hft]
    exact crashes_mapErr.mpr hcrash

theorem codeCount_eq_functionCount (h : Decoded m) {features : CoreFeatures} {d : Declarations}
    {declared : List Index} (hd : validateFunctionCounts m features d = .ok (some declared)) :
    (m.codeSection.getD []).length = m.functionSection.length := by
  obtain ⟨_, -, hd⟩ := bind_inv hd
  simp only at hd
  split at hd
  next => cases hd
  obtain ⟨_, heq, -⟩ := bind_inv hd
  have heq : len32 (m.codeSection.getD []) = len32 m.functionSection :=
    of_decide_eq_true (require_eq_ok_iff.mp heq)
  unfold len32 at heq
  rwa [Nat.mod_eq_of_lt h.codeCount, Nat.mod_eq_of_lt h.functionCount] at heq

theorem crashes_validate_iff (h : Decoded m) (features : CoreFeatures) :
    Crashes (validate m features) ↔
      ∃ i ctx body, ReachesBody m features i ctx body ∧ Crashes (ctx.validateFunction body) := by
  have hrest (d : Declarations) : Returns (do
      validateTable m features d.tables
      validateDataCountSection m) :=
    (returns_validateTable h features _).bind fun _ _ => returns_require _ _
  rw [validate, crashes_bind, or_iff_right (returns_validateDeclarations h features)]
  constructor
  · rintro ⟨d, hd, hcrash⟩
    rcases crashes_bind.mp hcrash with hcrash | ⟨_, -, hcrash⟩
    · unfold validateCode at hcrash
      split at hcrash
      next hcode =>
        rcases crashes_bind.mp hcrash with hcrash | ⟨result, hresult, hcrash⟩
        · exact absurd hcrash (returns_validateFunctionCounts h features d)
        cases result with
        | none => exact absurd hcrash (returns_pure _)
        | some declared =>
          obtain ⟨i, hi, hpre, hcrash⟩ := crashes_forEach_iff.mp hcrash
          rw [zero_add] at hcrash
          obtain ⟨code, ft, hlt, hcode', hft, hcrash⟩ := (crashes_validateFunctionAt_iff
            (codeCount_eq_functionCount h hresult) hi).mp hcrash
          exact ⟨i, _, _, ⟨d, declared, _, code, ft, hd, hcode, hresult, hpre,
            getElem?_eq_getElem hi, hlt, hcode', hft, rfl, rfl⟩, hcrash⟩
      next => exact absurd hcrash (returns_pure _)
    · exact absurd hcrash (hrest d)
  · rintro ⟨i, _, _, ⟨d, declared, typeIndex, code, ft, hd, hcode, hresult, hpre, htype, hlt,
      hcode', hft, rfl, rfl⟩, hcrash⟩
    refine ⟨d, hd, crashes_bind.mpr (.inl ?_)⟩
    rw [validateCode, if_pos hcode, validateFunctions, hresult]
    obtain ⟨hi, htype⟩ := List.getElem?_eq_some_iff.mp htype
    refine crashes_forEach_iff.mpr ⟨i, hi, hpre, ?_⟩
    rw [zero_add, htype]
    exact (crashes_validateFunctionAt_iff (codeCount_eq_functionCount h hresult) hi).mpr
      ⟨code, ft, hlt, hcode', hft, hcrash⟩

theorem crashes_validate_iff_faults (h : Decoded m) (features : CoreFeatures) :
    Crashes (validate m features) ↔
      ∃ i ctx body instrs s instr, ReachesBody m features i ctx body ∧
        FunctionContext.ComesTo ctx body instrs s instr ∧ FunctionContext.Faults ctx s instr := by
  have hiff {i : Nat} {ctx : FunctionContext} {body : List UInt8}
      (hreach : ReachesBody m features i ctx body) : Crashes (ctx.validateFunction body) ↔
        ∃ instrs s instr, FunctionContext.ComesTo ctx body instrs s instr ∧
          FunctionContext.Faults ctx s instr := by
    obtain ⟨d, declared, _, code, ft, hd, -, -, -, -, -, hcode, -, rfl, rfl⟩ := hreach
    exact crashes_validateFunction_iff (wellFormed_functionContext h hd declared ft code.localTypes)
      (h.bodies code (mem_of_getElem? hcode))
  rw [crashes_validate_iff h features]
  constructor
  · rintro ⟨i, ctx, body, hreach, hcrash⟩
    obtain ⟨instrs, s, instr, hcomes⟩ := (hiff hreach).mp hcrash
    exact ⟨i, ctx, body, instrs, s, instr, hreach, hcomes⟩
  · rintro ⟨i, ctx, body, instrs, s, instr, hreach, hcomes⟩
    exact ⟨i, ctx, body, hreach, (hiff hreach).mpr ⟨instrs, s, instr, hcomes⟩⟩

end Andsifr.Validation.Module
