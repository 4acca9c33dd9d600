import Andsifr.Execution.Checks

namespace Andsifr.Execution

open Lib Wasm Validation List Check Stacks FunctionContext

variable {ctx : FunctionContext} {s s' : Stacks}

theorem applySignature_known (hs : Known s) {wrap : Nat → String → String} {sig : Signature}
    (hsig : ProperSignature sig) (h : s.applySignature ctx.types wrap sig = .ok s') :
    ∃ s₁, Takes ctx.types s s₁ sig.pops ∧ s' = s₁.pushAll sig.pushes := by
  obtain ⟨s₁, hpops, h⟩ := bind_inv h
  cases h
  refine ⟨s₁, takes_popAll hs.stack ?_ hpops, rfl⟩
  exact unknown_notMem fun t ht => hsig t (mem_append_left _ ht)

variable {instr : Instruction}

theorem checkPlain_known (hctx : ctx.Proper) (hs : Known s) (hinstr : instr.Proper)
    (h : ctx.checkPlain s instr = .ok s') :
    ∃ sig s₁, ctx.plainSignature instr = .ok sig ∧ Takes ctx.types s s₁ sig.pops ∧
      s' = s₁.pushAll sig.pushes := by
  obtain ⟨sig, hsig, h⟩ := bind_inv h
  obtain ⟨s₁, htakes, heq⟩ :=
    applySignature_known hs (proper_plainSignature hctx hinstr sig hsig) h
  exact ⟨sig, s₁, hsig, htakes, heq⟩

variable {name : String} {ft : FunctionType}

theorem indirectType_known (hs : Known s) {type table : Nat}
    (h : ctx.indirectType s name type table = .ok (ft, s')) :
    index ctx.types type = .ok ft ∧ Takes ctx.types s s' [.i32] := by
  simp only [indirectType, bind_eq_ok_iff] at h
  obtain ⟨_, -, _, -, _, -, _, -, _, -, s₁, hpop, ft, hft, ⟨⟩⟩ := h
  exact ⟨hft, takes_popAndVerifyType hs.stack i32_ne_unknown (mapErr_inv hpop)⟩

theorem referencedType_known (hs : Known s) {type : Nat}
    (h : ctx.referencedType s name type = .ok (ft, s')) :
    index ctx.types type = .ok ft ∧ Takes ctx.types s s' [.concreteRef type true] := by
  simp only [referencedType, bind_eq_ok_iff] at h
  obtain ⟨_, -, _, -, s₁, hpop, ft, hft, ⟨⟩⟩ := h
  exact ⟨hft, takes_popAndVerifyType hs.stack (ne_unknown_of_proper (proper_concreteRef _ _))
    (mapErr_inv hpop)⟩

theorem validateCallSignature_known (hs : Known s) {s₁ : Stacks} {selector : List ValueType}
    (htakes : Takes ctx.types s s₁ selector)
    (hft : ∀ t ∈ ft.params ++ ft.results, t.Proper)
    (h : ctx.validateCallSignature s₁ name ft = .ok s') :
    ∃ s₂, Takes ctx.types s s₂ (selector ++ ft.params.reverse) ∧ s' = s₂.pushAll ft.results := by
  obtain ⟨s₂, hparams, heq⟩ :=
    applySignature_known (hs.of_takes htakes) (proper_callSignature hft) h
  exact ⟨s₂, htakes.trans hparams, heq⟩

theorem signature_known (hctx : ctx.Proper) (hs : Known s) (hinstr : instr.Proper) {sig : Signature}
    (hsig : signature ctx instr = .ok sig) (h : ctx.checkInstruction s instr = .ok s') :
    ∃ s₁, Takes ctx.types s s₁ sig.pops ∧ s' = s₁.pushAll sig.pushes := by
  have hplain := @checkPlain_known ctx s s' instr hctx hs hinstr
  cases instr with
  | call f =>
    obtain ⟨ft, hft, hsig⟩ := bind_inv hsig
    cases hsig
    obtain ⟨ft', hft', h⟩ := bind_inv h
    rw [hft] at hft'
    cases hft'
    exact validateCallSignature_known hs (.refl hs.stack) (proper_typeOfCallee hctx f ft hft) h
  | callIndirect type table =>
    obtain ⟨ft, hft, hsig⟩ := bind_inv hsig
    cases hsig
    obtain ⟨⟨ft', s₁⟩, hindirect, h⟩ := bind_inv h
    obtain ⟨hft', htakes⟩ := indirectType_known hs hindirect
    rw [hft] at hft'
    cases hft'
    exact validateCallSignature_known hs htakes (proper_index hctx type ft hft) h
  | callRef type =>
    obtain ⟨ft, hft, hsig⟩ := bind_inv hsig
    cases hsig
    obtain ⟨⟨ft', s₁⟩, href, h⟩ := bind_inv h
    obtain ⟨hft', htakes⟩ := referencedType_known hs href
    rw [hft] at hft'
    cases hft'
    exact validateCallSignature_known hs htakes (proper_index hctx type ft hft) h
  | unreachable | block | loop | ifOp | elseOp | tryTable | throw | throwRef | endOp | br | brIf
  | brTable | brOnNull | brOnNonNull | returnOp | returnCall | returnCallIndirect | returnCallRef
  | drop | select | typedSelect | localGet | localSet | localTee | refIsNull | refAsNonNull =>
    cases hsig
  | _ =>
    obtain ⟨sig', s₁, hsig', htakes, heq⟩ := hplain h
    cases hsig.symm.trans hsig'
    exact ⟨s₁, htakes, heq⟩

theorem Known.pushAll (hs : Known s) {types : List ValueType} (htypes : unknown ∉ types) :
    Known (s.pushAll types) :=
  ⟨by simp [htypes, hs.stack], by rw [pushAll_blocks]; exact hs.blocks⟩

section

variable (hctx : ctx.Proper)

include hctx

theorem functionType_proper : ∀ t ∈ ctx.functionType.params ++ ctx.functionType.results, t.Proper :=
  hctx.types _ hctx.functionType

theorem results_known : unknown ∉ ctx.functionType.results :=
  unknown_notMem fun t ht => functionType_proper hctx t (mem_append_right _ ht)

theorem checkReturn_known (hs : Known s) (h : ctx.checkReturn s = .ok s') :
    ∃ s₁, Takes ctx.types s s₁ ctx.functionType.results.reverse := by
  obtain ⟨s₁, hreq, -⟩ := bind_inv h
  exact ⟨s₁, (takes_requireStackValues hs.stack (results_known hctx) hreq).1⟩

theorem validateReturnCall_known (hs : Known s) {callee : FunctionType}
    (hcallee : ∀ t ∈ callee.params ++ callee.results, t.Proper)
    (h : ctx.validateReturnCall (s.pushAll callee.results) name callee = .ok s') :
    Subtypes ctx.types callee.results.reverse ctx.functionType.results.reverse := by
  obtain ⟨_, -, h⟩ := bind_inv h
  obtain ⟨_, hlength, h⟩ := bind_inv h
  have hlength : callee.results.length = ctx.functionType.results.length :=
    of_decide_eq_true (require_eq_ok_iff.mp hlength)
  obtain ⟨s₁, hreq, -⟩ := bind_inv h
  have hresults : unknown ∉ callee.results :=
    unknown_notMem fun t ht => hcallee t (mem_append_right _ ht)
  obtain ⟨htakes, -⟩ :=
    takes_requireStackValues (hs.pushAll hresults).stack (results_known hctx) hreq
  obtain ⟨found, hfound, hsub⟩ := htakes.stack
  rw [pushAll_stack] at hfound
  have heq := append_inj_left hfound (by
    rw [hsub.length_eq, length_reverse, length_reverse, hlength])
  rwa [heq]

theorem tailCall_known (hs : Known s) {s₀ : Stacks} {selector : List ValueType}
    (hselector : Takes ctx.types s s₀ selector) (hft : ∀ t ∈ ft.params ++ ft.results, t.Proper)
    (h : (ctx.validateCallSignature s₀ name ft >>= (ctx.validateReturnCall · name ft)) = .ok s') :
    ∃ s₁, Takes ctx.types s s₁ (selector ++ ft.params.reverse) ∧
      Subtypes ctx.types ft.results.reverse ctx.functionType.results.reverse := by
  obtain ⟨s₂, hcall, h⟩ := bind_inv h
  obtain ⟨s₁, htakes, rfl⟩ := validateCallSignature_known hs hselector hft hcall
  exact ⟨s₁, htakes, validateReturnCall_known hctx (hs.of_takes htakes) hft h⟩

theorem tailCallee_known (hs : Known s)
    (hinstr : (∃ f, instr = .returnCall f) ∨
      (∃ type table, instr = .returnCallIndirect type table) ∨
      ∃ type, instr = .returnCallRef type) (h : ctx.checkInstruction s instr = .ok s') :
    ∃ operands callee s₁, tailCallee ctx instr = .ok (operands, callee) ∧
      Takes ctx.types s s₁ operands ∧
      Subtypes ctx.types callee.results.reverse ctx.functionType.results.reverse := by
  rcases hinstr with ⟨f, rfl⟩ | ⟨type, table, rfl⟩ | ⟨type, rfl⟩
  · obtain ⟨ft, hft, h⟩ := bind_inv h
    obtain ⟨s₁, h⟩ := tailCall_known hctx hs (.refl hs.stack) (proper_typeOfCallee hctx f ft hft) h
    exact ⟨_, ft, s₁, by rw [tailCallee, hft]; rfl, h⟩
  · obtain ⟨⟨ft, s₀⟩, hindirect, h⟩ := bind_inv h
    obtain ⟨hft, hselector⟩ := indirectType_known hs hindirect
    obtain ⟨s₁, h⟩ := tailCall_known hctx hs hselector (proper_index hctx type ft hft) h
    exact ⟨_, ft, s₁, by rw [tailCallee, hft]; rfl, h⟩
  · obtain ⟨⟨ft, s₀⟩, href, h⟩ := bind_inv h
    obtain ⟨hft, hselector⟩ := referencedType_known hs href
    obtain ⟨s₁, h⟩ := tailCall_known hctx hs hselector (proper_index hctx type ft hft) h
    exact ⟨_, ft, s₁, by rw [tailCallee, hft]; rfl, h⟩

theorem checkThrow_known (hs : Known s) {tag : Nat} (h : ctx.checkThrow s tag = .ok s') :
    ∃ ft s₁, ctx.tagType s!"invalid tag index for throw: {tag}" tag = .ok ft ∧
      Takes ctx.types s s₁ ft.params.reverse := by
  obtain ⟨_, -, h⟩ := bind_inv h
  obtain ⟨ft, hft, h⟩ := bind_inv h
  obtain ⟨s₁, hpops, -⟩ := bind_inv h
  refine ⟨ft, s₁, hft, takes_popAll hs.stack ?_ hpops⟩
  unfold tagType at hft
  split at hft
  · cases hft
  · obtain ⟨type, -, hft⟩ := bind_inv hft
    have hproper := proper_index hctx type ft hft
    exact unknown_notMem fun t ht => hproper t (mem_append_left _ (mem_reverse.mp ht))

end

theorem checkThrowRef_known (hs : Known s) (h : ctx.checkThrowRef s = .ok s') :
    ∃ s₁, Takes ctx.types s s₁ [.exnref] := by
  obtain ⟨_, -, h⟩ := bind_inv h
  obtain ⟨s₁, hpop, -⟩ := bind_inv h
  exact ⟨s₁, takes_popAndVerifyType hs.stack (by decide) (mapErr_inv hpop)⟩

theorem checkDrop_known (hs : Known s) (h : checkDrop s = .ok s') :
    ∃ t, Takes ctx.types s s' [t] := by
  obtain ⟨⟨t, s₁⟩, hpop, h⟩ := bind_inv h
  cases h
  exact ⟨t, (takes_pop hs.stack (mapErr_inv hpop)).1⟩

theorem selectType_eq_ok {v₁ v₂ t : ValueType} (h₁ : v₁ ≠ unknown) (h₂ : v₂ ≠ unknown)
    (h : ctx.selectType v₁ v₂ = .ok t) :
    (t = v₁ ∨ t = v₂) ∧ isRefSubtypeOf ctx.types v₁ t = .ok true ∧
      isRefSubtypeOf ctx.types v₂ t = .ok true := by
  rw [selectType, if_neg h₁, if_neg h₂] at h
  obtain ⟨compatible, hcompatible, h⟩ := bind_inv h
  cases compatible with
  | false => cases h
  | true =>
    obtain ⟨sub, hsub, h⟩ := bind_inv h
    cases sub with
    | true =>
      cases h
      exact ⟨.inr rfl, hsub, isRefSubtypeOf_self _ _⟩
    | false =>
      cases h
      obtain ⟨sub', hsub', hcompatible⟩ := bind_inv hcompatible
      cases hsub.symm.trans hsub'
      exact ⟨.inl rfl, isRefSubtypeOf_self _ _, hcompatible⟩

theorem checkSelect_known (hs : Known s) {typed : Bool} (h : ctx.checkSelect s typed = .ok s') :
    ∃ v₁ v₂ t s₁, Takes ctx.types s s₁ [.i32, v₁, v₂] ∧ Subtypes ctx.types [v₁, v₂] [t, t] ∧
      t ≠ unknown ∧ (typed = false → t.isRef = false) ∧ s' = s₁.push t := by
  simp only [checkSelect, bind_eq_ok_iff] at h
  obtain ⟨s₁, hpop, ⟨v₁, s₂⟩, hpop₁, ⟨v₂, s₃⟩, hpop₂, _, -, _, href, t, ht, ⟨⟩⟩ := h
  have hpop := takes_popAndVerifyType hs.stack i32_ne_unknown (mapErr_inv hpop)
  obtain ⟨htakes₁, hne₁⟩ := takes_pop hpop.known (mapErr_inv hpop₁)
  obtain ⟨htakes₂, hne₂⟩ := takes_pop htakes₁.known (mapErr_inv hpop₂)
  obtain ⟨hwhich, hsub₁, hsub₂⟩ := selectType_eq_ok hne₁ hne₂ ht
  have href := require_eq_ok_iff.mp href
  refine ⟨v₁, v₂, t, s₃, hpop.trans (htakes₁.trans htakes₂), .cons hsub₁ (.cons hsub₂ .nil), ?_,
    fun htyped => ?_, rfl⟩
  · rcases hwhich with rfl | rfl
    · exact hne₁
    · exact hne₂
  · simp only [htyped, Bool.false_or, Bool.not_eq_true', Bool.or_eq_false_iff] at href
    rcases hwhich with rfl | rfl
    · exact href.1
    · exact href.2

theorem localType_eq_ok (hctx : ctx.Proper) {i : Nat} {t : ValueType}
    (h : ctx.localType name i = .ok t) : (localTypes ctx)[i]? = some t ∧ t.Proper := by
  have hinput : ctx.inputLen = ctx.functionType.params.length :=
    Nat.mod_eq_of_lt hctx.paramCount
  have hindex : (localTypes ctx)[i]? = some t := by
    unfold localType at h
    unfold localTypes
    simp only [hinput] at h
    split at h
    · cases h
    split at h
    next hparam =>
      rw [getElem?_append_left hparam]
      exact index_eq_ok_iff.mp h
    next hlocal =>
      rw [getElem?_append_right (Nat.le_of_not_lt hlocal)]
      exact index_eq_ok_iff.mp h
  refine ⟨hindex, ?_⟩
  rcases mem_append.mp (mem_of_getElem? hindex) with hmem | hmem
  · exact functionType_proper hctx t (mem_append_left _ hmem)
  · exact hctx.locals t hmem

/-- The locals that may be read: those that need no initialisation or have been initialised. -/
def Readable (ctx : FunctionContext) (init : Option (List Index)) (i : Nat) : Prop :=
  ctx.needsInit i = false ∨ i ∈ init.getD []

theorem checkLocalGet_known (hctx : ctx.Proper) {i : Nat} (h : ctx.checkLocalGet s i = .ok s') :
    ∃ t, (localTypes ctx)[i]? = some t ∧ t.Proper ∧ Readable ctx s.initLocals i ∧
      s' = s.push t := by
  obtain ⟨t, ht, h⟩ := bind_inv h
  obtain ⟨_, hinit, h⟩ := bind_inv h
  cases h
  obtain ⟨hindex, hproper⟩ := localType_eq_ok hctx ht
  refine ⟨t, hindex, hproper, ?_, rfl⟩
  simpa [Readable] using require_eq_ok_iff.mp hinit

theorem markLocalInit_eq_ok {i : Nat} (h : ctx.markLocalInit s i = .ok s') :
    ∃ init, s' = s.setInitLocals init ∧
      ∀ j, Readable ctx init j → j = i ∨ Readable ctx s.initLocals j := by
  unfold markLocalInit at h
  split at h
  next =>
    cases hinit : s.initLocals with
    | none =>
      rw [hinit] at h
      cases h
    | some set =>
      rw [hinit] at h
      cases h
      refine ⟨_, rfl, fun j hj => ?_⟩
      rcases hj with hj | hj
      · exact .inr (.inl hj)
      · rcases mem_cons.mp hj with rfl | hj
        · exact .inl rfl
        · exact .inr (.inr hj)
  next =>
    cases h
    exact ⟨s.initLocals, rfl, fun j hj => .inr hj⟩

theorem localAssign_known (hctx : ctx.Proper) (hs : Known s) {i : Nat}
    {kept : ValueType → List ValueType} (hinstr : (instr = .localSet i ∧ kept = fun _ => []) ∨
      (instr = .localTee i ∧ kept = fun t => [t])) (h : ctx.checkInstruction s instr = .ok s') :
    ∃ t s₁, (localTypes ctx)[i]? = some t ∧ t.Proper ∧ Takes ctx.types s s₁ [t] ∧
      s'.stack = kept t ++ s₁.stack ∧
      ∀ j, Readable ctx s'.initLocals j → j = i ∨ Readable ctx s.initLocals j := by
  rcases hinstr with ⟨rfl, rfl⟩ | ⟨rfl, rfl⟩
  · obtain ⟨t, ht, h⟩ := bind_inv h
    obtain ⟨s₁, hpop, h⟩ := bind_inv h
    obtain ⟨hindex, hproper⟩ := localType_eq_ok hctx ht
    have htakes := takes_popAndVerifyType hs.stack (ne_unknown_of_proper hproper) hpop
    obtain ⟨init, rfl, hinit⟩ := markLocalInit_eq_ok h
    rw [htakes.only.initLocals] at hinit
    exact ⟨t, s₁, hindex, hproper, htakes, rfl, hinit⟩
  · obtain ⟨t, ht, h⟩ := bind_inv h
    obtain ⟨s₁, hpop, h⟩ := bind_inv h
    obtain ⟨hindex, hproper⟩ := localType_eq_ok hctx ht
    have htakes := takes_popAndVerifyType hs.stack (ne_unknown_of_proper hproper) hpop
    obtain ⟨init, rfl, hinit⟩ := markLocalInit_eq_ok h
    rw [show (s₁.push t).initLocals = s₁.initLocals from rfl, htakes.only.initLocals] at hinit
    exact ⟨t, s₁, hindex, hproper, htakes, rfl, hinit⟩

theorem checkRefIsNull_known (hs : Known s) (h : ctx.checkRefIsNull s = .ok s') :
    ∃ tp s₁, Takes ctx.types s s₁ [tp] ∧ tp.isRef = true ∧ s' = s₁.push .i32 := by
  obtain ⟨_, -, h⟩ := bind_inv h
  obtain ⟨⟨tp, s₁⟩, hpop, h⟩ := bind_inv h
  cases h
  obtain ⟨htakes, href, -⟩ := popRef_known hs hpop
  exact ⟨tp, s₁, htakes, href, rfl⟩

theorem checkRefAsNonNull_known (hs : Known s) (h : ctx.checkRefAsNonNull s = .ok s') :
    ∃ tp s₁, Takes ctx.types s s₁ [tp] ∧ tp.isRef = true ∧ s' = s₁.push tp.asNonNullable := by
  obtain ⟨_, -, h⟩ := bind_inv h
  obtain ⟨⟨tp, s₁⟩, hpop, h⟩ := bind_inv h
  obtain ⟨htakes, href, hnonNull⟩ := @popRef_known ctx _ _ hs _ _ _ hpop
  cases h
  exact ⟨tp, s₁, htakes, href, by rw [hnonNull]⟩

end Andsifr.Execution
