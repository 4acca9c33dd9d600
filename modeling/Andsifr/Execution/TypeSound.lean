import Andsifr.Execution.Body

namespace Andsifr.Execution

open Lib Wasm Validation List Check FunctionContext Validation.Module

variable {m : Module} {features : CoreFeatures} {i : Nat} {ctx : FunctionContext}
  {body : List UInt8}

theorem proper_of_reachesBody (hdecoded : Decoded m) (hproper : Binary.ProperModule m)
    (h : ReachesBody m features i ctx body) : ctx.Proper := by
  obtain ⟨d, declared, typeIndex, code, ft, hd, -, -, -, -, -, hcode, hft, rfl, -⟩ := h
  obtain ⟨_, -, hdeclarations⟩ := bind_inv (validateDeclarations_eq_ok hd).1
  cases hdeclarations
  have hmem := mem_of_getElem? hft
  refine ⟨hdecoded.types, fun ft hft => (hproper.types ft hft).1, hmem, (hproper.types ft hmem).2,
    hproper.locals code (mem_of_getElem? hcode), fun g hg => ?_, fun t ht => ?_⟩
  · rcases mem_append.mp hg with hg | hg
    · exact Binary.proper_importedGlobals hproper hg
    · obtain ⟨g', hg', rfl⟩ := mem_map.mp hg
      exact hproper.globals g' hg'
  · rcases mem_append.mp ht with ht | ht
    · obtain ⟨imp, himp, hdesc⟩ := mem_filterMap.mp ht
      have hthis := hproper.imports imp himp
      split at hdesc
      next heq =>
        cases hdesc
        rwa [heq] at hthis
      next => cases hdesc
    · exact hproper.tables t ht

theorem validateFunction_of_validate (hvalid : validate m features = .ok ())
    (h : ReachesBody m features i ctx body) : ctx.validateFunction body = .ok () := by
  obtain ⟨d, declared, typeIndex, code, ft, hd, hcode, hresult, -, htype, -, hcode', hft, rfl,
    rfl⟩ := h
  obtain ⟨d', hd', hvalid⟩ := bind_inv hvalid
  cases hd.symm.trans hd'
  obtain ⟨_, hfunctions, -⟩ := bind_inv hvalid
  rw [validateCode, if_pos hcode, validateFunctions, hresult] at hfunctions
  have hat := forEach_eq_ok hfunctions htype
  rw [zero_add] at hat
  obtain ⟨_, -, hat⟩ := bind_inv hat
  rw [index_eq_ok_iff.mpr hcode', index_eq_ok_iff.mpr hft] at hat
  exact mapErr_inv hat

theorem reachesBody_of_validate (hdecoded : Decoded m) (hvalid : validate m features = .ok ())
    (hcode : m.codeSection.isSome) (hi : i < m.functionSection.length) :
    ∃ ctx body, ReachesBody m features i ctx body := by
  obtain ⟨d, hd, hvalid⟩ := bind_inv hvalid
  obtain ⟨_, hfunctions, -⟩ := bind_inv hvalid
  rw [validateCode, if_pos hcode] at hfunctions
  obtain ⟨result, hresult, hfunctions⟩ := bind_inv hfunctions
  have htype := getElem?_eq_getElem hi
  cases result with
  | none =>
    obtain ⟨_, -, hnone⟩ := bind_inv hresult
    have hcount : len32 m.functionSection = m.functionSection.length :=
      Nat.mod_eq_of_lt hdecoded.functionCount
    rw [if_neg (by omega)] at hnone
    obtain ⟨_, -, hnone⟩ := bind_inv hnone
    obtain ⟨declared, -, hnone⟩ := bind_inv hnone
    cases hnone
  | some declared =>
    have hat := forEach_eq_ok hfunctions htype
    rw [zero_add] at hat
    obtain ⟨_, hlt, hat⟩ := bind_inv hat
    obtain ⟨code, hcode', hat⟩ := bind_inv hat
    obtain ⟨ft, hft, -⟩ := bind_inv hat
    exact ⟨_, _, d, declared, _, code, ft, hd, hcode, hresult, forEach_take hfunctions i, htype,
      of_decide_eq_true (require_eq_ok_iff.mp hlt), index_eq_ok_iff.mp hcode',
      index_eq_ok_iff.mp hft, rfl, rfl⟩

/-- In every function of a decoded and accepted module, if validation comes only to instructions
that are strict, then in every state of every run each value that is consumed or delivered has the
declared type. -/
theorem validated_functions_typeSound (cfg : Binary.Config) (binary : List UInt8) (m : Module)
    (r : Reader) (hdecode : Binary.decodeModule cfg binary = .ok m r) (features : CoreFeatures)
    (hvalid : validate m features = .ok ()) (i : Nat) (hi : i < m.functionSection.length) :
    ∃ ctx body code, ReachesBody m features i ctx body ∧ ctx.instructions body = .ok code ∧
      ((∀ instrs s instr, ctx.ComesTo body instrs s instr → ctx.Strict s instr) →
        ∀ args st, Typed ctx.types args ctx.functionType.params →
          Run ctx (.initial ctx code args) st → Ready ctx st) := by
  have hdecoded := Binary.decoded_of_decodeModule cfg hdecode
  obtain ⟨ctx, body, hreach⟩ :=
    reachesBody_of_validate hdecoded hvalid (Binary.isSome_codeSection cfg hdecode hi) hi
  have hctx := proper_of_reachesBody hdecoded (Binary.proper_of_decodeModule cfg hdecode) hreach
  obtain ⟨code, sf, r', hcode, hsf, hrounds⟩ :=
    rounds_of_validateFunction (validateFunction_of_validate hvalid hreach)
  refine ⟨ctx, body, code, hreach, hcode, fun hstrict args st hargs hrun => ?_⟩
  have hpasses := passes_of_rounds hctx hstrict (.nil _ _) hrounds
  exact ready_of_wellTyped hctx hsf
    (wellTyped_run hctx (wellTyped_initial hctx hpasses hargs) hrun)

/-- The instructions that validation comes to from here on are strict. -/
def StrictFrom (ctx : FunctionContext) (r : Reader) (s : Stacks) : Prop :=
  ∀ instrs r₁ s₁ op instr r₂, ctx.Rounds r s instrs r₁ s₁ → r₁.bytes[r₁.pos]? = some op →
    readInstruction ctx.types ctx.features op (r₁.advance 1) = .ok instr r₂ → ctx.Strict s₁ instr

theorem strictFrom_of_round {r r₁ : Reader} {s s₁ : Stacks} {op : UInt8} {instr : Instruction}
    (hop : r.bytes[r.pos]? = some op)
    (hread : readInstruction ctx.types ctx.features op (r.advance 1) = .ok instr r₁)
    (hcheck : ctx.checkInstruction s instr = .ok s₁) (hstrict : ctx.Strict s instr)
    (hrest : StrictFrom ctx r₁ s₁) : StrictFrom ctx r s := by
  intro instrs r₂ s₂ op₂ instr₂ r₃ hrounds hop₂ hread₂
  cases hrounds with
  | nil =>
    cases hop.symm.trans hop₂
    cases hread.symm.trans hread₂
    exact hstrict
  | cons hop' _ hread' hcheck' hrest' =>
    cases hop.symm.trans hop'
    cases hread.symm.trans hread'
    cases hcheck.symm.trans hcheck'
    exact hrest _ _ _ _ _ _ hrest' hop₂ hread₂

theorem strictFrom_end {r : Reader} {s : Stacks} (hop : r.bytes[r.pos]? = none) :
    StrictFrom ctx r s := by
  intro instrs r₁ s₁ op instr r₂ hrounds hop₁
  cases hrounds with
  | nil => cases hop.symm.trans hop₁
  | cons hop' => cases hop.symm.trans hop'

theorem strict_of_strictFrom (h : StrictFrom ctx ⟨body, 0⟩ (.reset ctx.functionType)) :
    ∀ instrs s instr, ctx.ComesTo body instrs s instr → ctx.Strict s instr := by
  rintro instrs s instr ⟨r, op, r', hrounds, hop, -, hread⟩
  exact h instrs r s op instr r' hrounds hop hread

/-- Both blocks give a `(ref func)`, which `br_table` takes to either of them and which is stored in
a local. -/
def brTableBody : List UInt8 :=
  [0x02, 0x64, 0x70, 0x02, 0x64, 0x70, 0x20, 0x01, 0x20, 0x00, 0x0e, 0x01, 0x01, 0x00, 0x0b, 0x0b,
    0x21, 0x02, 0x0b]

def brTableModule : List UInt8 :=
  [0x00, 0x61, 0x73, 0x6d, 0x01, 0x00, 0x00, 0x00, 0x01, 0x07, 0x01, 0x60, 0x02, 0x7f, 0x64,
    0x70, 0x00,
    0x03, 0x02, 0x01, 0x00, 0x0a, 0x19, 0x01, 0x17, 0x01, 0x01, 0x64, 0x70] ++ brTableBody

theorem strict_brTableBody (d : Declarations) (declared : List Index) (string : String) :
    StrictFrom (functionContext m (BitVec.allOnes 64) d declared
      ⟨[.i32, ValueType.funcref.asNonNullable], [], string, 0, 0⟩ [ValueType.funcref.asNonNullable])
      ⟨brTableBody, 0⟩ (.reset ⟨[.i32, ValueType.funcref.asNonNullable], [], string, 0, 0⟩) := by
  iterate 4 refine strictFrom_of_round rfl rfl rfl trivial ?_
  have hreferenceTypes : CoreFeatures.isEnabled (BitVec.allOnes 64) .referenceTypes = true := rfl
  refine strictFrom_of_round rfl rfl (bind_eq_ok_iff.mpr ⟨_, rfl, bind_eq_ok_iff.mpr ⟨_, rfl,
    bind_eq_ok_iff.mpr ⟨_, (if_pos hreferenceTypes).trans rfl, rfl⟩⟩⟩) ⟨_, rfl, ?_⟩ ?_
  · intro label hlabel
    rcases mem_cons.mp hlabel with rfl | hlabel
    · exact ⟨_, rfl⟩
    · cases mem_singleton.mp hlabel
      exact ⟨_, rfl⟩
  iterate 4 refine strictFrom_of_round rfl rfl rfl trivial ?_
  exact strictFrom_end rfl

theorem validated_functions_typeSound_brTable :
    ∃ m r, Binary.decodeModule ⟨BitVec.allOnes 64, 65536, false, false, false⟩ brTableModule =
        .ok m r ∧
      validate m (BitVec.allOnes 64) = .ok () ∧ 0 < m.functionSection.length ∧
      ∃ ctx code, ReachesBody m (BitVec.allOnes 64) 0 ctx brTableBody ∧
        ctx.instructions brTableBody = .ok code ∧
        (∃ st, Run ctx (.initial ctx code [.i32, .func 0]) st ∧ st.rest = [.localSet 2, .endOp] ∧
          st.values = [.func 0]) ∧
        ∀ args st, Typed ctx.types args ctx.functionType.params →
          Run ctx (.initial ctx code args) st → Ready ctx st := by
  refine ⟨_, _, rfl, rfl, one_pos, ?_⟩
  obtain ⟨ctx, body, code, hreach, hcode, hsound⟩ :=
    validated_functions_typeSound ⟨BitVec.allOnes 64, 65536, false, false, false⟩ brTableModule _ _
      rfl (BitVec.allOnes 64) rfl 0 one_pos
  have hreach' := hreach
  obtain ⟨d, declared, typeIndex, fn, ft, hd, -, -, -, htype, -, hfn, hft, rfl, rfl⟩ := hreach'
  cases hd
  cases htype
  cases hfn
  cases hft
  refine ⟨_, code, hreach, hcode, ?_,
    hsound (strict_of_strictFrom (strict_brTableBody _ declared _))⟩
  cases hcode
  refine ⟨_, .head (@Step.block _ _ _ _ [] [] _ _ rfl rfl)
    (.head (@Step.block _ _ _ _ [] [] _ _ rfl rfl) (.head (.localGet rfl) (.head (.localGet rfl)
      (.single (.brTable (l := 1) (mem_of_getElem? (i := 1) rfl) rfl))))), rfl, rfl⟩

/-- The inner block gives a `funcref` and the outer one a `(ref func)`. The `br_table` with the
labels of both takes null to the outer one, and `local.set` stores it in a local of type `(ref
func)`. -/
theorem br_table_delivers_null :
    ∃ m r, Binary.decodeModule ⟨BitVec.allOnes 64, 65536, false, false, false⟩
        [0x00, 0x61, 0x73, 0x6d, 0x01, 0x00, 0x00, 0x00,
          0x01, 0x05, 0x01, 0x60, 0x01, 0x7f, 0x00,
          0x03, 0x02, 0x01, 0x00,
          0x0a, 0x1a, 0x01, 0x18, 0x01, 0x01, 0x64, 0x70, 0x02, 0x64, 0x70, 0x02, 0x70, 0xd0, 0x70,
          0x20, 0x00, 0x0e, 0x01, 0x01, 0x00, 0x0b, 0x1a, 0x00, 0x0b, 0x21, 0x01, 0x0b] = .ok m r ∧
      validate m (BitVec.allOnes 64) = .ok () ∧
      ∃ ctx body code, ReachesBody m (BitVec.allOnes 64) 0 ctx body ∧
        ctx.instructions body = .ok code ∧
        ∃ args st, Typed ctx.types args ctx.functionType.params ∧
          Run ctx (.initial ctx code args) st ∧ ¬ Ready ctx st := by
  refine ⟨_, _, rfl, rfl, _, _, _, ⟨_, _, _, _, _, rfl, rfl, rfl, rfl, rfl, by decide, rfl,
    rfl, rfl,
    rfl⟩, rfl, [.i32], ⟨[.localSet 1, .endOp], [.null], [⟨false, ⟨[.i32], []⟩, 0, [], []⟩],
    [.i32, .null]⟩, .cons ⟨rfl, rfl⟩ .nil, ?_, fun hready => ?_⟩
  · refine .head (@Step.block _ _ _ _ [] [] _ _ rfl rfl) ?_
    refine .head (@Step.block _ _ _ _ [] [] _ _ rfl rfl) ?_
    refine .head (@Step.simple _ _ _ [] [] _ _ _ _ rfl rfl rfl) ?_
    refine .head (.localGet rfl) ?_
    exact .single (.brTable (l := 1) (by decide) rfl)
  · obtain ⟨t, ht, args, below, hvalues, htyped⟩ := hready.consumes _ _ rfl
    cases ht
    cases htyped with
    | cons hnull hnil =>
      obtain ⟨rfl, -⟩ := List.cons.inj hvalues
      cases hnull

end Andsifr.Execution
