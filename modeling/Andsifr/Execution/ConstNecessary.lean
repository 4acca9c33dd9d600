import Andsifr.Execution.ConstSound

namespace Andsifr.Execution

open Lib Wasm Validation Validation.Module List Check

variable {m : Module} {features : CoreFeatures} {refs : References} {l : Linked}

/-- References by which every value can be given. -/
def sampleReferences : References where
  referent
    | 0 => .null
    | 1 => .external
    | 2 => .exn
    | f + 3 => .func f
  isRef := by rintro (_ | _ | _ | f) <;> rfl
  null_iff := by rintro (_ | _ | _ | f) <;> simp

def sampleWord : Value → Nat
  | .num _ | .null => 0
  | .external => 1
  | .exn => 2
  | .func f => f + 3

variable {v : Value}

theorem referent_sampleWord (hv : v.isRef = true) :
    sampleReferences.referent (sampleWord v) = v := by
  cases v with
  | num kind => cases hv
  | null | external | exn | func f => rfl

def sampleValue (t : ValueType) : Value :=
  if t.isRef = false then .num t.kind
  else if t.isNullable then .null
  else match t.concrete with
    | some j => .func j
    | none =>
      if t.kind = ValueType.funcref.kind then .func 0
      else if t.kind = ValueType.externref.kind then .external
      else .exn

variable {t : ValueType}

theorem hasType_sampleValue (types : List FunctionType) (ht : t.Proper) :
    HasType types (sampleValue t) t := by
  unfold sampleValue
  split
  next hnum =>
    rcases ht with ht | ht
    · rw [hnum] at ht
      cases ht
    · simp only [mem_cons, not_mem_nil, or_false] at ht
      rcases ht with rfl | rfl | rfl | rfl | rfl <;> exact ⟨rfl, rfl⟩
  next href =>
    split
    next hnull => exact hnull
    split
    next j hj =>
      simp only [HasType, hj]
      exact .refl j
    next hnone =>
      have href : t.isRef = true := by simpa using href
      simp only [ValueType.isRef, ValueType.isConcreteRef, hnone, Option.isSome_none,
        Bool.or_false, Bool.or_eq_true, beq_iff_eq] at href
      split
      next hfunc =>
        simp only [HasType, hnone]
        exact hfunc
      next hfunc =>
        split
        next hextern => exact ⟨hnone, hextern⟩
        next hextern => exact ⟨hnone, (href.resolve_left fun h => h.elim hfunc hextern)⟩

/-- Linking that gives the value to the imported global of index `i`. -/
def sampleLinked (m : Module) (i : Nat) (v : Value) : Linked where
  globals := (importedGlobalTypes m).mapIdx fun j g =>
    ⟨g, sampleWord (if j = i then v else sampleValue g.valType), 0⟩
  functions := (functionTypeIndexes m).map (· + 3)

theorem holds_sample {types : List FunctionType} {g : GlobalType} (hproper : g.valType.Proper)
    (hv : HasType types v g.valType) :
    (GlobalInstance.mk g (sampleWord v) 0).Holds sampleReferences types g := by
  refine ⟨sameSort_self _, ?_⟩
  rcases hproper with href | hnum
  · refine ⟨v, ?_, hv⟩
    have hisRef : v.isRef = true := by
      cases v with
      | num kind =>
        rw [hv.1] at href
        cases href
      | null | external | exn | func f => rfl
    have hne : g.valType ≠ .v128 := by
      intro heq
      rw [heq] at href
      cases href
    rw [GlobalInstance.words, if_neg hne]
    nth_rewrite 2 [← referent_sampleWord hisRef]
    exact .ref _
  · simp only [mem_cons, not_mem_nil, or_false] at hnum
    have hnot : g.valType.isRef = false := by
      rcases hnum with h | h | h | h | h <;> rw [h] <;> rfl
    obtain rfl := exists_num_of_hasType hnot hv
    refine ⟨_, ?_, hv⟩
    rw [GlobalInstance.words]
    rcases hnum with h | h | h | h | h <;> simp only [h, sampleWord]
    · exact .word32 (Nat.two_pow_pos 32) (.inl rfl)
    · exact .word64 (Nat.two_pow_pos 64) (.inl rfl)
    · exact .word32 (Nat.two_pow_pos 32) (.inr rfl)
    · exact .word64 (Nat.two_pow_pos 64) (.inr rfl)
    · exact .v128 (Nat.two_pow_pos 64) (Nat.two_pow_pos 64)

theorem typeCorrect_sampleLinked (hproper : ∀ g ∈ importedGlobalTypes m, g.valType.Proper) {i : Nat}
    (hv : ∀ g, (importedGlobalTypes m)[i]? = some g → HasType m.typeSection v g.valType) :
    (sampleLinked m i v).TypeCorrect m sampleReferences := by
  constructor
  · rw [forall₂_iff_get]
    refine ⟨by simp [sampleLinked], fun j hj hj' => ?_⟩
    simp only [sampleLinked, get_eq_getElem, getElem_mapIdx]
    refine holds_sample (hproper _ (getElem_mem _)) ?_
    split
    next heq => exact hv _ (heq ▸ getElem?_eq_getElem hj')
    next => exact hasType_sampleValue _ (hproper _ (getElem_mem _))
  · rw [sampleLinked, forall₂_map_left_iff]
    exact forall₂_same.mpr fun f _ => TypeEquiv.refl f

theorem exists_typeCorrect (hproper : ∀ g ∈ importedGlobalTypes m, g.valType.Proper) :
    ∃ l : Linked, l.TypeCorrect m sampleReferences ∧
      l.functions = (functionTypeIndexes m).map (· + 3) :=
  ⟨sampleLinked m (importedGlobalTypes m).length .null,
    typeCorrect_sampleLinked hproper (by simp), rfl⟩

/-- The word that a single instruction gives, if it reads no global of the module itself. -/
def Linked.word (l : Linked) : ConstInstruction → Option Nat
  | .const words _ => words.head?
  | .refFunc j => l.functions[j]?
  | .globalGet i => l.globals[i]?.map GlobalInstance.val
  | .binary .. => none

variable {instr : ConstInstruction}

theorem evaluate_word {e : ConstantExpression}
    (he : e.instructions = some [instr]) {w : Nat} (hw : l.word instr = some w)
    {globals : List (Option GlobalInstance)}
    (hglobals : ∀ (i : Nat) g, l.globals[i]? = some g → globals[i]? = some (some g)) :
    ∃ words t, (evaluateConstExpr e (instanceResolvers globals l.functions)).1 = .ok (words, t) ∧
      words.head? = some w := by
  cases instr with
  | const words t => exact ⟨words, t, evaluate_const he, hw⟩
  | refFunc j => exact ⟨[w], _, evaluate_refFunc he hw, rfl⟩
  | globalGet i =>
    obtain ⟨g, hg, rfl⟩ := Option.map_eq_some_iff.mp hw
    refine ⟨g.words, _, evaluate_globalGet he (hglobals i g hg), ?_⟩
    rw [GlobalInstance.words]
    split <;> rfl
  | binary name t op => cases hw

theorem hasType_of_head? {types : List FunctionType} {words : List Nat}
    (ht : t.isRef = true) (h : WordsHaveType refs types words t) {w : Nat}
    (hw : words.head? = some w) : HasType types (refs.referent w) t := by
  obtain ⟨w', rfl, htype⟩ := (wordsHaveType_ref_iff ht).mp h
  cases hw
  exact htype

/-- An instruction fits a type if all references that it gives under some linking have the type. -/
theorem instructionFits_of_words (hproper : ∀ g ∈ importedGlobalTypes m, g.valType.Proper)
    {wanted : ValueType}
    (hpush : PushesTyped sampleReferences m.typeSection instr)
    (h : ∀ l : Linked, l.TypeCorrect m sampleReferences → ∀ w, l.word instr = some w →
      HasType m.typeSection (sampleReferences.referent w) wanted) :
    InstructionFits m wanted instr := by
  cases instr with
  | const words t' =>
    intro ht
    obtain ⟨l, hl, -⟩ := exists_typeCorrect hproper
    exact h l hl 0 (by rw [hpush.2 ht]; rfl)
  | refFunc j =>
    intro f hf
    obtain ⟨l, hl, hfunctions⟩ := exists_typeCorrect hproper
    refine h l hl (f + 3) ?_
    simp [Linked.word, hfunctions, hf]
  | globalGet i =>
    intro g hg ht v hv
    have hisRef : v.isRef = true := by
      cases v with
      | num kind =>
        rw [hv.1] at ht
        cases ht
      | null | external | exn | func f => rfl
    have hlinked := typeCorrect_sampleLinked hproper fun g' hg' => by
      cases hg.symm.trans hg'
      exact hv
    rw [← referent_sampleWord hisRef]
    refine h _ hlinked (sampleWord v) ?_
    simp [Linked.word, sampleLinked, hg]
  | binary name t' op => trivial

theorem readable_of_imported {i : Nat} {g : GlobalType} (h : (importedGlobalTypes m)[i]? = some g)
    {kind : ExpressionKind} : (readable m kind)[i]? = some g := by
  cases kind with
  | global | table | data => exact h
  | elementOffset | elementItem => exact getElem?_globalTypes_of_imported h

theorem Declares.instructionFits {c : CheckedExpression} {resolvers : Resolvers} {values : List Nat}
    (h : Declares m c resolvers values t) (ht : t.isRef = false)
    (hinstr : c.expr.instructions = some [instr]) (wanted : ValueType) :
    InstructionFits m wanted instr := by
  obtain ⟨instrs, s, hinstrs, hrun, htypes, -⟩ := evaluateConstExpr_eq_ok_iff.mp h.value
  cases hinstr.symm.trans hinstrs
  obtain ⟨s', happly, hrun⟩ := bind_inv hrun
  cases hrun
  cases instr with
  | const words t' =>
    cases happly
    cases htypes
    intro hisRef
    rw [ht] at hisRef
    cases hisRef
  | refFunc j =>
    obtain ⟨ref, -, happly⟩ := bind_inv happly
    cases happly
    cases htypes
    cases ht
  | globalGet i =>
    obtain ⟨value, hvalue, happly⟩ := bind_inv happly
    cases happly
    cases htypes
    obtain ⟨g, hg, hvaltype⟩ := h.global i value hvalue
    intro g' hg' hisRef
    cases hg.symm.trans (readable_of_imported hg')
    rw [← hvaltype, ht] at hisRef
    cases hisRef
  | binary name t' op => trivial

section Necessary

variable (hchecked : ModuleChecked m features)
  (hproper : ∀ g ∈ importedGlobalTypes m, g.valType.Proper)
  (hsound : ∀ refs l, l.TypeCorrect m refs →
    ∀ c ∈ checkedExpressions m, SoundIn m features refs l c)
  {c : CheckedExpression}

theorem yields_of_soundIn (h : SoundIn m features refs l c) :
    ∃ globals, (∀ (i : Nat) g, l.globals[i]? = some g → globals[i]? = some (some g)) ∧
      Yields refs m.typeSection c.expr globals l.functions c.type := by
  have hmap (rest : List (Option GlobalInstance)) (i : Nat) (g : GlobalInstance)
      (hg : l.globals[i]? = some g) : (l.globals.map some ++ rest)[i]? = some (some g) := by
    obtain ⟨hi, rfl⟩ := List.getElem?_eq_some_iff.mp hg
    simp [getElem?_append, hi]
  rw [SoundIn] at h
  cases hkind : c.kind <;> rw [hkind] at h
  case global => exact ⟨_, by simp, h⟩
  case table => exact ⟨_, hmap _, h⟩
  case data | elementItem =>
    obtain ⟨built, -, h⟩ := h
    rw [map_append] at h
    exact ⟨_, hmap _, h⟩
  case elementOffset =>
    obtain ⟨-, built, -, h⟩ := h
    rw [map_append] at h
    exact ⟨_, hmap _, h⟩

/-- An expression that reads a global of the module itself is the offset or an item of an element
segment. -/
theorem Declares.of_local (hdecoded : Decoded m) {resolvers : Resolvers}
    {values : List Nat} {t : ValueType} (h : Declares m c resolvers values t) {i : Nat}
    (hi : c.expr.instructions = some [.globalGet i]) (hge : m.importGlobalCount ≤ i) {gs : Global}
    (hgs : m.globalSection[i - m.importGlobalCount]? = some gs) :
    (c.kind = .elementOffset ∨ c.kind = .elementItem) ∧ t = gs.type.valType := by
  obtain ⟨instrs, s, hinstrs, hrun, htypes, -⟩ := evaluateConstExpr_eq_ok_iff.mp h.value
  cases hi.symm.trans hinstrs
  obtain ⟨s', happly, hrun⟩ := bind_inv hrun
  cases hrun
  obtain ⟨value, hvalue, happly⟩ := bind_inv happly
  cases happly
  cases htypes
  obtain ⟨g, hg, hvaltype⟩ := h.global i value hvalue
  have hlength := length_importedGlobalTypes hdecoded
  have houtside : (importedGlobalTypes m)[i]? = none := getElem?_eq_none (by omega)
  cases hkind : c.kind with
  | global | table | data =>
    rw [hkind] at hg
    cases houtside.symm.trans hg
  | elementOffset | elementItem =>
    rw [hkind] at hg
    obtain ⟨gs', hgs', rfl⟩ := getElem?_globalSection hdecoded hge hg
    cases hgs.symm.trans hgs'
    exact ⟨by simp, hvaltype⟩

include hchecked hproper hsound

section

variable (hc : c ∈ checkedExpressions m)

include hc

theorem expressionFits_of_sound : ExpressionFits m c.type c.expr := by
  intro instr hinstr
  obtain ⟨resolvers, values, t, hdeclares⟩ :=
    declares_of_passes hchecked.decoded hchecked.counted hc (hchecked.passes c hc)
  cases ht : t.isRef with
  | false => exact hdeclares.instructionFits ht hinstr c.type
  | true =>
    refine instructionFits_of_words hproper
      (pushesTyped_decodeAll hinstr instr (mem_singleton_self _)) fun l hl w hw => ?_
    obtain ⟨globals, hglobals, words, t', heval, hwords⟩ :=
      yields_of_soundIn (hsound sampleReferences l hl c hc)
    obtain ⟨words', t'', heval', hhead⟩ := evaluate_word hinstr hw hglobals
    cases heval.symm.trans heval'
    exact hasType_of_head? (hdeclares.isRef ▸ ht) hwords hhead

/-- The value of a global that an item reads is the value of its initialiser. -/
theorem initFits_of_sound {i : Nat}
    {gs : Global} (hi : c.expr.instructions = some [.globalGet i]) (hge : m.importGlobalCount ≤ i)
    (hgs : m.globalSection[i - m.importGlobalCount]? = some gs) :
    ExpressionFits m c.type gs.init := by
  intro instr hinstr
  have hc' := mem_checkedExpressions_global (mem_of_getElem? hgs)
  obtain ⟨resolvers', values', t', hdeclares'⟩ :=
    declares_of_passes hchecked.decoded hchecked.counted hc' (hchecked.passes _ hc')
  cases ht' : t'.isRef with
  | false => exact hdeclares'.instructionFits ht' hinstr c.type
  | true =>
    obtain ⟨resolvers, values, t, hdeclares⟩ :=
      declares_of_passes hchecked.decoded hchecked.counted hc (hchecked.passes c hc)
    obtain ⟨hkind, rfl⟩ := hdeclares.of_local hchecked.decoded hi hge hgs
    have hctype : c.type.isRef = true := by rw [← hdeclares.isRef, ← ht', hdeclares'.isRef]
    have hitem : c.kind = .elementItem := by
      refine hkind.resolve_left fun hoffset => ?_
      have hstands := stands_of_mem hc
      rw [CheckedExpression.Stands, hoffset] at hstands
      obtain ⟨_, -, -, -, htype⟩ := hstands
      rw [htype] at hctype
      cases hctype
    refine instructionFits_of_words hproper
      (pushesTyped_decodeAll hinstr instr (mem_singleton_self _)) fun l hl w hw => ?_
    obtain ⟨g, _, hg, -, heval⟩ := initializeGlobal_of_yields (hsound sampleReferences l hl _ hc')
    have hmap (i : Nat) (g : GlobalInstance) (hg : l.globals[i]? = some g) :
        (l.globals.map some)[i]? = some (some g) := by simp [hg]
    obtain ⟨words', _, heval', hhead⟩ := evaluate_word hinstr hw hmap
    cases heval.symm.trans heval'
    have hsoundc := hsound sampleReferences l hl c hc
    rw [SoundIn, hitem] at hsoundc
    obtain ⟨built, hbuilt, words, _, hevalc, hwords⟩ := hsoundc
    have hlookup := getElem?_built hchecked.decoded hl hbuilt hge hgs hg
    cases (evaluate_globalGet hi hlookup).symm.trans hevalc
    exact hasType_of_head? hctype hwords hhead

theorem offsetReadsImported_of_sound : OffsetReadsImported m features c := by
  intro hkind hfeature i hi
  obtain ⟨l, hl, -⟩ := exists_typeCorrect hproper
  have hsoundc := hsound sampleReferences l hl c hc
  rw [SoundIn, hkind] at hsoundc
  obtain ⟨words, t, heval, -⟩ := hsoundc.1 hfeature
  obtain ⟨value, hvalue⟩ := exists_global_of_mem_globalGets heval hi
  obtain ⟨g, hg, hvalue⟩ := bind_inv hvalue
  have hlength := hl.globals.length_eq
  rw [length_importedGlobalTypes hchecked.decoded] at hlength
  -- beyond the imported globals there is only nil
  by_contra hlt
  have hge : m.importGlobalCount ≤ i := Nat.le_of_not_lt hlt
  rw [index_eq_ok_iff, globalsBefore, getElem?_append_right (by simp; omega),
    getElem?_replicate] at hg
  split at hg
  · cases hg
    cases hvalue
  · cases hg

end

end Necessary

/-- In an accepted module every constant expression has, under every linking of the declared types,
a value of the wanted type exactly if each `ref.null`, `ref.func` and `global.get` of an imported
global gives only references of that type, and an offset that is evaluated while the tables are
built reads only imported globals. -/
theorem constantExpressions_sound_iff (cfg : Binary.Config) (binary : List UInt8) (m : Module)
    (r : Reader) (hdecode : Binary.decodeModule cfg binary = .ok m r) (features : CoreFeatures)
    (hvalid : validate m features = .ok ()) :
    (∀ refs l, l.TypeCorrect m refs → ∀ c ∈ checkedExpressions m, SoundIn m features refs l c) ↔
      ∀ c ∈ checkedExpressions m, Fits m c ∧ OffsetReadsImported m features c := by
  have hdecoded := Binary.decoded_of_decodeModule cfg hdecode
  obtain ⟨d, haccepted⟩ := accepted_of_validate hvalid
  have hchecked : ModuleChecked m features := ⟨hdecoded, Binary.counted_of_decodeModule cfg hdecode,
    fun c hc => passes_of_accepted hdecoded haccepted hc⟩
  have hproper : ∀ g ∈ importedGlobalTypes m, g.valType.Proper := fun g hg =>
    Binary.proper_importedGlobals (Binary.proper_of_decodeModule cfg hdecode) (mem_of_mem_take hg)
  constructor
  · intro hsound c hc
    exact ⟨⟨expressionFits_of_sound hchecked hproper hsound hc,
      fun i gs => initFits_of_sound hchecked hproper hsound hc⟩,
      offsetReadsImported_of_sound hchecked hproper hsound hc⟩
  · intro hfits refs l hl c hc
    exact soundIn_of_fits hchecked hl (fun c hc => (hfits c hc).1) (fun c hc => (hfits c hc).2) hc

theorem constantExpressions_sound_iff_ref_func :
    ∃ m r, Binary.decodeModule ⟨BitVec.allOnes 64, 65536, false, false, false⟩
        [0x00, 0x61, 0x73, 0x6d, 0x01, 0x00, 0x00, 0x00, 0x01, 0x04, 0x01, 0x60, 0x00, 0x00,
          0x03, 0x02, 0x01, 0x00, 0x06, 0x07, 0x01, 0x64, 0x70, 0x00, 0xd2, 0x00, 0x0b,
          0x0a, 0x04, 0x01, 0x02, 0x00, 0x0b] = .ok m r ∧
      validate m (BitVec.allOnes 64) = .ok () ∧
      ((∀ refs l, l.TypeCorrect m refs →
          ∀ c ∈ checkedExpressions m, SoundIn m (BitVec.allOnes 64) refs l c) ↔
        ∀ c ∈ checkedExpressions m, Fits m c ∧ OffsetReadsImported m (BitVec.allOnes 64) c) := by
  refine ⟨?_, ?_, ?decoded, ?valid, constantExpressions_sound_iff _ _ _ _ ?decoded _ ?valid⟩
  case decoded => rfl
  case valid => rfl

/-- The module has one function and one global of type `(ref func)`, initialised with `ref.null
func`: its value is null. -/
theorem nonnullable_global_is_null :
    ∃ m r, Binary.decodeModule ⟨BitVec.allOnes 64, 65536, false, false, false⟩
        [0x00, 0x61, 0x73, 0x6d, 0x01, 0x00, 0x00, 0x00, 0x01, 0x04, 0x01, 0x60, 0x00, 0x00,
          0x03, 0x02, 0x01, 0x00, 0x06, 0x07, 0x01, 0x64, 0x70, 0x00, 0xd0, 0x70, 0x0b,
          0x0a, 0x04, 0x01, 0x02, 0x00, 0x0b] = .ok m r ∧
      validate m (BitVec.allOnes 64) = .ok () ∧
      ∃ refs l, l.TypeCorrect m refs ∧ ∃ c ∈ checkedExpressions m,
        buildGlobals m l = .ok [⟨⟨ValueType.funcref.asNonNullable, false⟩, 0, 0⟩] ∧
          ¬ SoundIn m (BitVec.allOnes 64) refs l c := by
  refine ⟨_, _, rfl, rfl, sampleReferences, ⟨[], [3]⟩, ⟨.nil, .cons (TypeEquiv.refl 0) .nil⟩,
    ⟨.global, ⟨[0xd0, 0x70, 0x0b]⟩, ValueType.funcref.asNonNullable⟩, by decide, rfl, ?_⟩
  rintro ⟨words, t, heval, hwords⟩
  cases heval
  obtain ⟨w, hw, htype⟩ := (wordsHaveType_ref_iff rfl).mp hwords
  cases hw
  cases htype

end Andsifr.Execution
