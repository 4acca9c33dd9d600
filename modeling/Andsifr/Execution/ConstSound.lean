import Andsifr.Execution.Instantiation

namespace Andsifr.Execution

open Lib Wasm Validation Validation.Module List Check

variable {m : Module} {features : CoreFeatures} {refs : References} {l : Linked}

/-- The globals that an expression of the kind may read. -/
def readable (m : Module) : ExpressionKind → List GlobalType
  | .global | .table | .data => importedGlobalTypes m
  | .elementOffset | .elementItem => globalTypes m

/-- What validation has found of an expression: it has a value with resolvers of the declared types,
and its type is a reference if and only if the wanted one is. -/
structure Declares (m : Module) (c : CheckedExpression) (resolvers : Resolvers)
    (values : List Nat) (t : ValueType) : Prop where
  value : (evaluateConstExpr c.expr resolvers).1 = .ok (values, t)
  global : ∀ i value, resolvers.global i = .ok value →
    ∃ g, (readable m c.kind)[i]? = some g ∧ value.1 = g.valType
  funcRef : c.kind ≠ .elementOffset → ∀ j ref, resolvers.funcRef j = .ok ref →
    ∃ f, (functionTypeIndexes m)[j]? = some f
  isRef : t.isRef = c.type.isRef
  number : t.isRef = false → t = c.type

variable {types : List FunctionType}

theorem isRef_of_isRefSubtypeOf (hwf : WellFormedTypes types) {a b : ValueType}
    (h : isRefSubtypeOf types a b = .ok true) : a.isRef = b.isRef ∧ (a.isRef = false → a = b) := by
  rcases (isRefSubtypeOf_iff hwf).mp h with rfl | ⟨hkind, hconcrete, hnull⟩ |
    ⟨i, j, hi, hj, -, -⟩ | ⟨⟨i, hi⟩, -, hkind, -⟩
  · exact ⟨rfl, fun _ => rfl⟩
  · have heq : a.isRef = b.isRef := by
      simp only [ValueType.isRef, ValueType.isConcreteRef, hkind, hconcrete]
    refine ⟨heq, fun ha => ?_⟩
    rw [heq, isRef_of_isNullable hnull] at ha
    cases ha
  · rw [isRef_of_concrete hi, isRef_of_concrete hj]
    exact ⟨rfl, fun h => by cases h⟩
  · have hb : b.isRef = true := by simp [ValueType.isRef, hkind]
    rw [isRef_of_concrete hi, hb]
    exact ⟨rfl, fun h => by cases h⟩

theorem constResolvers_funcRef_eq_ok {globals : List GlobalType} {j : Index} {ref : Nat}
    (h : (constResolvers globals (len32 (functionTypeIndexes m))).funcRef j = .ok ref) :
    ∃ f, (functionTypeIndexes m)[j]? = some f := by
  simp only [constResolvers] at h
  split at h
  · cases h
  next hlt =>
    have hle := FunctionContext.len32_le (functionTypeIndexes m)
    have hlt := Nat.lt_of_not_le hlt
    exact ⟨_, getElem?_eq_getElem (Nat.lt_of_lt_of_le hlt hle)⟩

theorem declares_of_validateConstExpression (hdecoded : Decoded m) {c : CheckedExpression}
    {numFuncs : Nat} (hkind : readable m c.kind = importedGlobalTypes m)
    (hfuncs : ∀ j ref, (constResolvers (importedGlobalTypes m) numFuncs).funcRef j = .ok ref →
      ∃ f, (functionTypeIndexes m)[j]? = some f)
    (h : validateConstExpression m (importedGlobalTypes m) numFuncs c.expr c.type = .ok ()) :
    ∃ resolvers values t, Declares m c resolvers values t := by
  obtain ⟨⟨values, t⟩, heval, h⟩ := bind_inv h
  obtain ⟨subtype, hsubtype, h⟩ := bind_inv h
  have hsub : subtype = true := by
    by_contra hfalse
    rw [if_neg hfalse] at h
    cases h
  rw [hsub] at hsubtype
  obtain ⟨hisRef, hnumber⟩ := isRef_of_isRefSubtypeOf hdecoded.types hsubtype
  refine ⟨_, values, t, heval, fun i value hvalue => ?_, fun _ => hfuncs, ?_, ?_⟩
  · obtain ⟨-, g, hg, rfl⟩ := constResolvers_global_eq_ok hvalue
    exact ⟨g, hkind ▸ hg, rfl⟩
  · split at hisRef
    next hfuncref =>
      rw [← hisRef, hfuncref]
      split <;> rfl
    next => exact hisRef
  · intro ht
    rw [if_neg (by rintro rfl; cases ht)] at hnumber
    exact hnumber ht

theorem declares_of_passes (hdecoded : Decoded m) (hcounted : Binary.Counted m)
    {c : CheckedExpression} (hc : c ∈ checkedExpressions m) (h : c.Passes m features) :
    ∃ resolvers values t, Declares m c resolvers values t := by
  have hranged (section_ : String) (idx : Nat) {i : Nat} {t : ValueType} (hlt : i < 2 ^ 32)
      (h : resolveConstExprGlobalType m features section_ idx i = .ok t) :
      ∃ g, (globalTypes m)[i]? = some g ∧ t = g.valType := by
    obtain ⟨g, hg, ht, -⟩ := resolveConstExprGlobalType_eq_ok hdecoded hlt h
    exact ⟨g, hg, ht.symm⟩
  rcases c with ⟨kind, expr, type⟩
  cases kind with
  | global | table =>
    exact declares_of_validateConstExpression hdecoded rfl
      (fun _ _ => constResolvers_funcRef_eq_ok) h
  | data =>
    refine declares_of_validateConstExpression hdecoded rfl (fun j ref href => ?_) h
    cases href
  | elementOffset =>
    obtain ⟨idx, values, heval⟩ := h
    refine ⟨_, values, _, heval, fun i value hvalue => ?_, fun hne => absurd rfl hne, rfl,
      fun _ => rfl⟩
    obtain ⟨hlt, hvalue⟩ := lt_of_ranged hvalue
    obtain ⟨t, ht, hvalue⟩ := bind_inv hvalue
    obtain ⟨_, -, hvalue⟩ := bind_inv hvalue
    cases hvalue
    exact hranged _ _ hlt ht
  | elementItem =>
    obtain ⟨idx, ei, hitem⟩ := h
    obtain ⟨elem, helem, -, rfl⟩ := stands_of_mem hc
    have htype := hcounted.elements elem helem
    obtain ⟨⟨values, t⟩, heval, hitem⟩ := bind_inv hitem
    have hisRef : t.isRef = true := by
      simp only at hitem
      split at hitem
      · rw [show t = .funcref from of_decide_eq_true (require_eq_ok_iff.mp hitem)]
        rfl
      split at hitem
      · rw [show t = .externref from of_decide_eq_true (require_eq_ok_iff.mp hitem)]
        rfl
      · obtain ⟨subtype, hsubtype, hitem⟩ := bind_inv hitem
        rcases Bool.or_eq_true_iff.mp (require_eq_ok_iff.mp hitem) with rfl | hfunc
        · rw [(isRef_of_isRefSubtypeOf hdecoded.types hsubtype).1, htype]
        · rw [show t = .funcref from of_decide_eq_true hfunc]
          rfl
    refine ⟨_, values, t, heval, fun i value hvalue => ?_, fun _ j ref href => ?_, ?_, ?_⟩
    · obtain ⟨hlt, hvalue⟩ := lt_of_ranged hvalue
      obtain ⟨t, ht, hvalue⟩ := bind_inv hvalue
      cases hvalue
      exact hranged _ _ hlt ht
    · simp only [elementResolvers] at href
      split at href
      · cases href
      next hlt =>
        refine ⟨_, getElem?_eq_getElem ?_⟩
        have hle := FunctionContext.len32_le m.functionSection
        rw [functionTypeIndexes, length_append, ← hcounted.functions]
        exact Nat.lt_of_lt_of_le (Nat.lt_of_not_le hlt) (by omega)
    · rw [hisRef]
      exact htype.symm
    · intro hfalse
      rw [hisRef] at hfalse
      cases hfalse

/-- The instance holds, at the index, a value of the declared type. -/
def HoldsAt (refs : References) (types : List FunctionType)
    (globals : List (Option GlobalInstance)) (i : Nat) (declared : GlobalType) : Prop :=
  ∃ g, globals[i]? = some (some g) ∧ g.Holds refs types declared

variable {i : Nat}

theorem holdsAt_of_forall₂ {gs : List GlobalInstance} {declared : List GlobalType}
    (h : List.Forall₂ (GlobalInstance.Holds refs types) gs declared) {d : GlobalType}
    (hd : declared[i]? = some d) : HoldsAt refs types (gs.map some) i d := by
  obtain ⟨hi, rfl⟩ := List.getElem?_eq_some_iff.mp hd
  have hlength := h.length_eq
  refine ⟨gs[i], by simp [hlength, hi], ?_⟩
  exact h.get (by omega) hi

theorem HoldsAt.append {globals : List (Option GlobalInstance)} {d : GlobalType}
    (h : HoldsAt refs types globals i d) (rest : List (Option GlobalInstance)) :
    HoldsAt refs types (globals ++ rest) i d := by
  obtain ⟨g, hg, hholds⟩ := h
  exact ⟨g, by rw [getElem?_append_left (List.getElem?_eq_some_iff.mp hg).1, hg], hholds⟩

theorem func_of_hasType_concreteRef {v : Value} {f : Index}
    (h : HasType types v (.concreteRef f false)) : ∃ f', v = .func f' ∧ TypeEquiv types f' f := by
  cases v with
  | num kind => cases h.1
  | null => cases h
  | func f' => exact ⟨f', rfl, h⟩
  | external | exn => cases h.1

theorem HasType.of_equiv {f f' : Index} {t : ValueType} (hequiv : TypeEquiv types f' f)
    (h : HasType types (.func f) t) : HasType types (.func f') t := by
  cases hconcrete : t.concrete with
  | none =>
    simp only [HasType, hconcrete] at h ⊢
    exact h
  | some j =>
    simp only [HasType, hconcrete] at h ⊢
    exact hequiv.trans h

theorem exists_function (hl : l.TypeCorrect m refs) {j f : Nat}
    (hf : (functionTypeIndexes m)[j]? = some f) :
    ∃ w f', l.functions[j]? = some w ∧ refs.referent w = .func f' ∧
      TypeEquiv m.typeSection f' f := by
  obtain ⟨hj, rfl⟩ := List.getElem?_eq_some_iff.mp hf
  have hlength := hl.functions.length_eq
  have htype := hl.functions.get (by omega) hj
  obtain ⟨f', hf', hequiv⟩ := func_of_hasType_concreteRef htype
  exact ⟨_, f', getElem?_eq_getElem (by omega), hf', hequiv⟩

theorem instanceResolvers_global {globals : List (Option GlobalInstance)}
    {functions : List Nat} {g : GlobalInstance} (h : globals[i]? = some (some g)) :
    (instanceResolvers globals functions).global i = .ok (g.type.valType, g.val, g.valHi) := by
  rw [instanceResolvers]
  simp only [index_eq_ok_iff.mpr h, bind_ok]
  rfl

section

variable {c : CheckedExpression} {resolvers : Resolvers} {values : List Nat} {t : ValueType}
  {globals : List (Option GlobalInstance)}

/-- The resolvers of an instance of the declared types agree with those of validation. -/
theorem Declares.agree (h : Declares m c resolvers values t) (hl : l.TypeCorrect m refs)
    (hoffset : c.kind = .elementOffset → c.type.isRef = false)
    (hglobals : ∀ i ∈ c.expr.globalGets, ∀ g, (readable m c.kind)[i]? = some g →
      HoldsAt refs m.typeSection globals i g)
    (instrs : List ConstInstruction) (hinstrs : c.expr.instructions = some instrs) :
    Agree refs m.typeSection resolvers (instanceResolvers globals l.functions) instrs := by
  refine ⟨fun i hi t' lo hi' hresolved => ?_, fun j hj ref hresolved => ?_⟩
  · obtain ⟨g, hg, rfl⟩ := h.global i _ hresolved
    obtain ⟨inst, hinst, hsort, hwords⟩ :=
      hglobals i ((ConstantExpression.mem_globalGets hinstrs).mpr hi) g hg
    exact ⟨_, _, _, instanceResolvers_global hinst, hsort, hwords⟩
  · by_cases hkind : c.kind = .elementOffset
    · -- the value of an offset is a number, so there is no `ref.func` in it
      obtain ⟨instrs', s, hinstrs', hrun, htypes, -⟩ := evaluateConstExpr_eq_ok_iff.mp h.value
      cases hinstrs.symm.trans hinstrs'
      have hpush : ∀ instr ∈ instrs, PushesTyped refs m.typeSection instr :=
        pushesTyped_decodeAll hinstrs
      refine absurd hj (refFunc_notMem hpush hrun ?_ j)
      intro t' ht'
      rw [htypes, mem_singleton] at ht'
      rw [ht', h.isRef, hoffset hkind]
    · obtain ⟨f, hf⟩ := h.funcRef hkind j ref hresolved
      obtain ⟨w, f', hw, hreferent, -⟩ := exists_function hl hf
      refine ⟨w, index_eq_ok_iff.mpr hw, ?_⟩
      rw [hreferent]
      rfl

theorem Declares.single (refs : References) (h : Declares m c resolvers values t)
    (ht : t.isRef = true) :
    ∃ instr, c.expr.instructions = some [instr] ∧ PushesTyped refs m.typeSection instr ∧
      ∃ s, instr.apply resolvers {} = .ok s ∧ s.typeStack = [t] := by
  obtain ⟨instrs, s, hinstrs, hrun, htypes, -⟩ := evaluateConstExpr_eq_ok_iff.mp h.value
  have hpush : ∀ instr ∈ instrs, PushesTyped refs m.typeSection instr :=
    pushesTyped_decodeAll hinstrs
  obtain ⟨instr, rfl⟩ := single_of_isRef hpush hrun htypes ht
  obtain ⟨s', happly, hrun⟩ := bind_inv hrun
  cases hrun
  exact ⟨instr, hinstrs, hpush instr (mem_singleton_self _), s, happly, htypes⟩

variable {e : ConstantExpression}

theorem evaluate_single {instr : ConstInstruction}
    (he : e.instructions = some [instr]) {s : ConstState} (h : instr.apply resolvers {} = .ok s)
    (ht : s.typeStack = [t]) : (evaluateConstExpr e resolvers).1 = .ok (s.stack.reverse, t) :=
  evaluateConstExpr_eq_ok_iff.mpr ⟨[instr], s, he, bind_eq_ok_iff.mpr ⟨s, h, rfl⟩, ht, rfl⟩

theorem evaluate_const {words : List Nat} (he : e.instructions = some [.const words t]) :
    (evaluateConstExpr e resolvers).1 = .ok (words, t) := by
  rw [evaluate_single he rfl rfl]
  simp [ConstState.push]

theorem evaluate_refFunc {functions : List Nat} {j w : Nat}
    (he : e.instructions = some [.refFunc j]) (hw : functions[j]? = some w) :
    (evaluateConstExpr e (instanceResolvers globals functions)).1 = .ok ([w], .funcref) :=
  evaluate_single he (bind_eq_ok_iff.mpr ⟨w, index_eq_ok_iff.mpr hw, rfl⟩) rfl

theorem evaluate_globalGet {functions : List Nat} {i : Nat}
    {g : GlobalInstance} (he : e.instructions = some [.globalGet i])
    (hg : globals[i]? = some (some g)) :
    (evaluateConstExpr e (instanceResolvers globals functions)).1 = .ok
    (g.words, g.type.valType) := by
  rw [evaluate_single he (bind_eq_ok_iff.mpr ⟨_, instanceResolvers_global hg, rfl⟩) rfl]
  simp [ConstState.push, GlobalInstance.words]

/-- An expression that reads only imported globals gives a reference of every type that it fits. -/
theorem Declares.yields_ref (h : Declares m c resolvers values t) (ht : t.isRef = true)
    (hkind : c.kind ≠ .elementOffset) (hl : l.TypeCorrect m refs)
    (hglobals : ∀ i ∈ c.expr.globalGets, ∀ g, (readable m c.kind)[i]? = some g →
      (importedGlobalTypes m)[i]? = some g ∧ HoldsAt refs m.typeSection globals i g)
    {wanted : ValueType} (hfits : ExpressionFits m wanted c.expr) :
    Yields refs m.typeSection c.expr globals l.functions wanted := by
  obtain ⟨instr, hinstr, hpush, s, happly, htypes⟩ := h.single refs ht
  have hfits := hfits instr hinstr
  cases instr with
  | const words t' =>
    cases happly
    cases htypes
    refine ⟨words, t, evaluate_const hinstr, ?_⟩
    rw [hpush.2 ht]
    exact hasType_null (hfits ht)
  | refFunc j =>
    obtain ⟨ref, href, happly⟩ := bind_inv happly
    obtain ⟨f, hf⟩ := h.funcRef hkind j ref href
    obtain ⟨w, f', hw, hreferent, hequiv⟩ := exists_function hl hf
    refine ⟨[w], _, evaluate_refFunc hinstr hw, _, .ref w, ?_⟩
    rw [hreferent]
    exact (hfits f hf).of_equiv hequiv
  | globalGet i =>
    obtain ⟨value, hvalue, happly⟩ := bind_inv happly
    cases happly
    cases htypes
    obtain ⟨g, hg, hvaltype⟩ := h.global i value hvalue
    obtain ⟨himported, inst, hinst, -, hwords⟩ := hglobals i
      ((ConstantExpression.mem_globalGets hinstr).mpr (mem_singleton_self _)) g hg
    obtain ⟨v, hv, htype⟩ := hwords
    exact ⟨_, _, evaluate_globalGet hinstr hinst, v, hv, hfits g himported (hvaltype ▸ ht) v htype⟩
  | binary name t' op =>
    cases happly

theorem Declares.yields_number (h : Declares m c resolvers values t) (ht : t.isRef = false)
    (hl : l.TypeCorrect m refs)
    (hglobals : ∀ i ∈ c.expr.globalGets, ∀ g, (readable m c.kind)[i]? = some g →
      HoldsAt refs m.typeSection globals i g) :
    Yields refs m.typeSection c.expr globals l.functions c.type := by
  obtain ⟨words, t', heval, hwords⟩ := evaluateConstExpr_typed h.value
    (h.agree hl (fun _ => by rw [← h.isRef, ht]) hglobals)
  exact ⟨words, t', heval, h.number ht ▸ hwords⟩

end

theorem pair_of_wordsHaveType {words : List Nat} (h : WordsHaveType refs types words .v128) :
    ∃ lo hi, words = [lo, hi] := by
  obtain ⟨v, hv, htype⟩ := h
  have hnum := exists_num_of_hasType rfl htype
  cases hv with
  | word32 hw hkind =>
    cases hnum
    rcases hkind with hkind | hkind <;> cases hkind
  | word64 hw hkind =>
    cases hnum
    rcases hkind with hkind | hkind <;> cases hkind
  | v128 => exact ⟨_, _, rfl⟩
  | ref w =>
    have hisRef := refs.isRef w
    rw [hnum] at hisRef
    cases hisRef

theorem initializeGlobal_of_yields {gs : Global}
    (h : Yields refs m.typeSection gs.init (l.globals.map some) l.functions gs.type.valType) :
    ∃ g t, initializeGlobal l.globals l.functions gs = .ok g ∧
      g.Holds refs m.typeSection gs.type ∧ (evaluateConstExpr gs.init
        (instanceResolvers (l.globals.map some) l.functions)).1 = .ok (g.words, t) := by
  obtain ⟨words, t, heval, hwords⟩ := h
  by_cases hv128 : gs.type.valType = .v128
  · obtain ⟨lo, hi, rfl⟩ := pair_of_wordsHaveType (hv128 ▸ hwords)
    have hg : (GlobalInstance.mk gs.type lo hi).words = [lo, hi] := by
      simp [GlobalInstance.words, hv128]
    refine ⟨⟨gs.type, lo, hi⟩, t, by simp only [initializeGlobal, heval]; rfl,
      ⟨sameSort_self _, hg ▸ hwords⟩, by rw [hg]; exact heval⟩
  · obtain ⟨w, rfl⟩ := singleton_of_wordsHaveType hv128 hwords
    have hg : (GlobalInstance.mk gs.type w 0).words = [w] := by
      simp [GlobalInstance.words, hv128]
    refine ⟨⟨gs.type, w, 0⟩, t, by simp only [initializeGlobal, heval]; rfl,
      ⟨sameSort_self _, hg ▸ hwords⟩, by rw [hg]; exact heval⟩

theorem buildGlobals_of_yields (h : ∀ gs ∈ m.globalSection,
      Yields refs m.typeSection gs.init (l.globals.map some) l.functions gs.type.valType) :
    ∃ built, buildGlobals m l = .ok built ∧
      List.Forall₂ (GlobalInstance.Holds refs m.typeSection) built
        (m.globalSection.map Global.type) := by
  unfold buildGlobals
  generalize m.globalSection = gss at h
  induction gss with
  | nil => exact ⟨[], rfl, .nil⟩
  | cons gs gss ih =>
    obtain ⟨g, t, hg, hholds, -⟩ := initializeGlobal_of_yields (h gs (mem_cons_self ..))
    obtain ⟨built, hbuilt, hrest⟩ := ih fun gs' hgs' => h gs' (mem_cons_of_mem _ hgs')
    refine ⟨g :: built, ?_, .cons hholds hrest⟩
    rw [mapM_eq_ok_iff] at hbuilt ⊢
    exact .cons hg hbuilt

/-- What validation has established of the module. -/
structure ModuleChecked (m : Module) (features : CoreFeatures) : Prop where
  decoded : Decoded m
  counted : Binary.Counted m
  passes : ∀ c ∈ checkedExpressions m, c.Passes m features

theorem length_importedGlobalTypes (hdecoded : Decoded m) :
    (importedGlobalTypes m).length = m.importGlobalCount := by
  rw [importedGlobalTypes, length_take, min_eq_left hdecoded.importedGlobals]

theorem getElem?_importedGlobalTypes (hdecoded : Decoded m)
    (hi : i < m.importGlobalCount) : (importedGlobalTypes m)[i]? = (globalTypes m)[i]? := by
  rw [globalTypes, getElem?_append_left (by rw [length_importedGlobalTypes hdecoded]; exact hi)]

theorem getElem?_globalSection (hdecoded : Decoded m) (hi : m.importGlobalCount ≤ i)
    {g : GlobalType} (hg : (globalTypes m)[i]? = some g) :
    ∃ gs, m.globalSection[i - m.importGlobalCount]? = some gs ∧ gs.type = g := by
  have hlength := length_importedGlobalTypes hdecoded
  rw [globalTypes, getElem?_append_right (by omega), hlength, getElem?_map] at hg
  exact Option.map_eq_some_iff.mp hg

theorem mem_checkedExpressions_global {gs : Global} (hgs : gs ∈ m.globalSection) :
    ⟨.global, gs.init, gs.type.valType⟩ ∈ checkedExpressions m := by
  simp only [checkedExpressions, mem_append, mem_map]
  exact .inl (.inl (.inl (.inl ⟨gs, hgs, rfl⟩)))

theorem holdsAt_built (hl : l.TypeCorrect m refs) {built : List GlobalInstance}
    (hbuilt : List.Forall₂ (GlobalInstance.Holds refs m.typeSection) built
      (m.globalSection.map Global.type)) {g : GlobalType}
    (hg : (globalTypes m)[i]? = some g) :
    HoldsAt refs m.typeSection ((l.globals ++ built).map some) i g := by
  exact holdsAt_of_forall₂ (rel_append hl.globals hbuilt) hg

theorem getElem?_built (hdecoded : Decoded m) (hl : l.TypeCorrect m refs)
    {built : List GlobalInstance} (hbuilt : buildGlobals m l = .ok built)
    (hge : m.importGlobalCount ≤ i) {gs : Global}
    (hgs : m.globalSection[i - m.importGlobalCount]? = some gs) {g : GlobalInstance}
    (hg : initializeGlobal l.globals l.functions gs = .ok g) :
    ((l.globals ++ built).map some)[i]? = some (some g) := by
  have hlength := hl.globals.length_eq
  rw [length_importedGlobalTypes hdecoded] at hlength
  obtain ⟨hlt, hgs⟩ := List.getElem?_eq_some_iff.mp hgs
  have hforall := mapM_eq_ok_iff.mp hbuilt
  have hlength' := hforall.length_eq
  have hget := hforall.get hlt (by omega)
  simp only [get_eq_getElem, hgs, hg] at hget
  rw [getElem?_map, getElem?_append_right (by omega), hlength,
    getElem?_eq_getElem (by omega), Option.map_some, Except.ok.inj hget]

section Sufficient

variable (hchecked : ModuleChecked m features) (hl : l.TypeCorrect m refs)

include hchecked hl

variable {c : CheckedExpression}

theorem yields_imported (hc : c ∈ checkedExpressions m)
    (hread : readable m c.kind = importedGlobalTypes m) (hkind : c.kind ≠ .elementOffset)
    {globals : List (Option GlobalInstance)}
    (hglobals : ∀ i g, (importedGlobalTypes m)[i]? = some g →
      HoldsAt refs m.typeSection globals i g)
    (hfits : ExpressionFits m c.type c.expr) :
    Yields refs m.typeSection c.expr globals l.functions c.type := by
  obtain ⟨resolvers, values, t, hdeclares⟩ :=
    declares_of_passes hchecked.decoded hchecked.counted hc (hchecked.passes c hc)
  cases ht : t.isRef with
  | false =>
    exact hdeclares.yields_number ht hl fun i _ g hg => hglobals i g (hread ▸ hg)
  | true =>
    refine hdeclares.yields_ref ht hkind hl (fun i _ g hg => ?_) hfits
    rw [hread] at hg
    exact ⟨hg, hglobals i g hg⟩

theorem yields_globalInit {gs : Global} (hgs : gs ∈ m.globalSection)
    (hfits : ExpressionFits m gs.type.valType gs.init) :
    Yields refs m.typeSection gs.init (l.globals.map some) l.functions gs.type.valType :=
  yields_imported hchecked hl (mem_checkedExpressions_global hgs) rfl (by simp)
    (fun _ _ hg => holdsAt_of_forall₂ hl.globals hg) hfits

theorem yields_item_of_global {i : Nat}
    (hi : c.expr.instructions = some [.globalGet i]) (hge : m.importGlobalCount ≤ i)
    {gs : Global} (hgs : m.globalSection[i - m.importGlobalCount]? = some gs)
    (hisRef : gs.type.valType.isRef = true)
    (hinit : ExpressionFits m gs.type.valType gs.init) (hfits : ExpressionFits m c.type gs.init)
    {built : List GlobalInstance} (hbuilt : buildGlobals m l = .ok built) :
    Yields refs m.typeSection c.expr ((l.globals ++ built).map some) l.functions c.type := by
  have hmem := mem_of_getElem? hgs
  obtain ⟨g, t', hg, -, heval⟩ :=
    initializeGlobal_of_yields (yields_globalInit hchecked hl hmem hinit)
  have hlookup := getElem?_built hchecked.decoded hl hbuilt hge hgs hg
  have hc' := mem_checkedExpressions_global hmem
  obtain ⟨resolvers, values, t, hdeclares⟩ :=
    declares_of_passes hchecked.decoded hchecked.counted hc' (hchecked.passes _ hc')
  obtain ⟨words, t'', heval', hwords⟩ := hdeclares.yields_ref
    (by rw [hdeclares.isRef]; exact hisRef)
    (by simp) hl (fun i _ g hg => ⟨hg, holdsAt_of_forall₂ hl.globals hg⟩) hfits
  cases heval.symm.trans heval'
  exact ⟨_, _, evaluate_globalGet hi hlookup, hwords⟩

theorem yields_item (hc : c ∈ checkedExpressions m)
    (hkind : c.kind = .elementItem) (hfits : ∀ c ∈ checkedExpressions m, Fits m c)
    {built : List GlobalInstance} (hbuilt : buildGlobals m l = .ok built)
    (hholds : List.Forall₂ (GlobalInstance.Holds refs m.typeSection) built
      (m.globalSection.map Global.type)) :
    Yields refs m.typeSection c.expr ((l.globals ++ built).map some) l.functions c.type := by
  obtain ⟨resolvers, values, t, hdeclares⟩ :=
    declares_of_passes hchecked.decoded hchecked.counted hc (hchecked.passes c hc)
  have ht : t.isRef = true := by
    have hstands := stands_of_mem hc
    rw [CheckedExpression.Stands, hkind] at hstands
    obtain ⟨elem, helem, -, htype⟩ := hstands
    rw [hdeclares.isRef, ← htype]
    exact hchecked.counted.elements elem helem
  by_cases hlocal : ∃ i, c.expr.instructions = some [.globalGet i] ∧ m.importGlobalCount ≤ i
  · obtain ⟨i, hi, hge⟩ := hlocal
    obtain ⟨instr, hinstr, -, s, happly, htypes⟩ := hdeclares.single refs ht
    cases hi.symm.trans hinstr
    obtain ⟨value, hvalue, happly⟩ := bind_inv happly
    cases happly
    cases htypes
    obtain ⟨g, hg, hvaltype⟩ := hdeclares.global i value hvalue
    rw [hkind] at hg
    obtain ⟨gs, hgs, rfl⟩ := getElem?_globalSection hchecked.decoded hge hg
    have hmem := mem_of_getElem? hgs
    exact yields_item_of_global hchecked hl hi hge hgs (hvaltype ▸ ht)
      (hfits _ (mem_checkedExpressions_global hmem)).1 ((hfits c hc).2 i gs hi hge hgs) hbuilt
  · refine hdeclares.yields_ref ht (by simp [hkind]) hl (fun i hi g hg => ?_) (hfits c hc).1
    obtain ⟨instr, hinstr, -⟩ := hdeclares.single refs ht
    have hlt : i < m.importGlobalCount := by
      by_contra hge
      have hmem := (ConstantExpression.mem_globalGets hinstr).mp hi
      rw [mem_singleton] at hmem
      exact hlocal ⟨i, hmem ▸ hinstr, Nat.le_of_not_lt hge⟩
    rw [hkind] at hg
    exact ⟨(getElem?_importedGlobalTypes hchecked.decoded hlt).trans hg, holdsAt_built hl hholds hg⟩

theorem soundIn_of_fits (hfits : ∀ c ∈ checkedExpressions m, Fits m c)
    (hoffsets : ∀ c ∈ checkedExpressions m, OffsetReadsImported m features c)
    (hc : c ∈ checkedExpressions m) : SoundIn m features refs l c := by
  obtain ⟨built, hbuilt, hholds⟩ := buildGlobals_of_yields fun gs hgs =>
    yields_globalInit hchecked hl hgs (hfits _ (mem_checkedExpressions_global hgs)).1
  have himported (rest : List (Option GlobalInstance)) (i : Nat) (g : GlobalType)
      (hg : (importedGlobalTypes m)[i]? = some g) :
      HoldsAt refs m.typeSection (l.globals.map some ++ rest) i g :=
    (holdsAt_of_forall₂ hl.globals hg).append rest
  rw [SoundIn]
  cases hkind : c.kind with
  | global =>
    refine yields_imported hchecked hl hc (by rw [hkind]; rfl) (by simp [hkind]) ?_ (hfits c hc).1
    exact fun _ _ hg => holdsAt_of_forall₂ hl.globals hg
  | table =>
    exact yields_imported hchecked hl hc (by rw [hkind]; rfl) (by simp [hkind]) (himported _)
      (hfits c hc).1
  | data =>
    refine ⟨built, hbuilt, ?_⟩
    rw [map_append]
    exact yields_imported hchecked hl hc (by rw [hkind]; rfl) (by simp [hkind]) (himported _)
      (hfits c hc).1
  | elementOffset =>
    obtain ⟨resolvers, values, t, hdeclares⟩ :=
      declares_of_passes hchecked.decoded hchecked.counted hc (hchecked.passes c hc)
    have ht : t.isRef = false := by
      have hstands := stands_of_mem hc
      rw [CheckedExpression.Stands, hkind] at hstands
      obtain ⟨_, -, -, -, htype⟩ := hstands
      rw [hdeclares.isRef, htype]
      rfl
    refine ⟨fun hfeature => ?_, built, hbuilt, ?_⟩
    · refine hdeclares.yields_number ht hl fun i hi g hg => himported _ i g ?_
      rw [hkind] at hg
      rw [getElem?_importedGlobalTypes hchecked.decoded (hoffsets c hc hkind hfeature i hi)]
      exact hg
    · refine hdeclares.yields_number ht hl fun i _ g hg => ?_
      rw [hkind] at hg
      exact holdsAt_built hl hholds hg
  | elementItem =>
    exact ⟨built, hbuilt, yields_item hchecked hl hc hkind hfits hbuilt hholds⟩

end Sufficient

end Andsifr.Execution
