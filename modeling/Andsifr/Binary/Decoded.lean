import Andsifr.Binary.DeclaredTypes

namespace Andsifr.Binary

open Lib Lib.Parser Leb128 Wasm Ensures Reader List

variable {features : CoreFeatures} {r r' : Reader}

theorem closed_of_decodeConstantExpressionLoop {lenAtStart startPos fuel : Nat}
    {e : ConstantExpression} (hstart : startPos + lenAtStart = r.bytes.length)
    (hpos : startPos ≤ r.pos)
    (h : decodeConstantExpressionLoop features lenAtStart startPos fuel r = .ok e r') :
    e.Closed := by
  induction fuel generalizing r with
  | zero => cases h
  | succ fuel ih =>
    obtain ⟨opcode, r₁, hopcode, h⟩ := bind_inv h
    obtain ⟨hb, rfl⟩ := readByte_eq_ok (mapErr_inv hopcode)
    split at h
    next hend =>
      obtain ⟨_, _, hreader, h⟩ := bind_inv h
      cases hreader
      obtain ⟨n, r₂, hn, h⟩ := bind_inv h
      obtain ⟨-, hcount, rfl⟩ := makeSlice_eq_ok_iff.mp hn
      obtain ⟨data, r₃, hdata, h⟩ := bind_inv h
      cases h
      obtain ⟨hslice, hlength⟩ := readAt_eq_ok (mapErr_inv hdata)
      have hlt := (List.getElem?_eq_some_iff.mp hb).1
      simp only [len, advance_bytes, advance_pos] at hcount
      -- the last byte copied is the one that was read last
      have hlast : data[data.length - 1]? = r.bytes[r.pos]? := by
        have hindex : startPos + (n - 1) = r.pos := by omega
        rw [hlength, hslice, getElem?_slice _ (by omega), hindex, advance_bytes]
      rw [ConstantExpression.Closed, getLast?_eq_getElem?, hlast, hb, hend]
    next =>
      obtain ⟨u, r₂, hoperand, h⟩ := bind_inv h
      obtain ⟨hbytes, hpos₂⟩ :=
        (tame_decodeConstOperand features opcode).moves _ _ (.inl ⟨u, hoperand⟩)
      simp only [advance_bytes, advance_pos] at hbytes hpos₂
      exact ih (by rw [hbytes]; exact hstart) (by omega) h

theorem closed_decodeConstantExpression (features : CoreFeatures) :
    (decodeConstantExpression features).Ensures ConstantExpression.Closed := by
  intro r e r' h
  obtain ⟨_, _, hreader, h⟩ := bind_inv h
  cases hreader
  exact closed_of_decodeConstantExpressionLoop (by simp only [len]; omega)
    (by simp only [len]; omega) h

theorem ensures_decodeVector {α : Type} {P : α → Prop} (what : String) {item : Nat → Parser α}
    (hitem : ∀ i, (item i).Ensures P) :
    (decodeVector what item).Ensures fun items => items.length < 2 ^ 32 ∧ ∀ a ∈ items, P a := by
  have hsize : vectorSize.Ensures (· < 2 ^ 32) :=
    (decodeUint32_ensures.mapErr _).bind fun _ hv => ensures_pure hv
  refine hsize.bind fun vs hvs => ensures_bind fun _ r items r' h => ?_
  obtain ⟨hlength, hitems⟩ := ensures_times hitem vs r items r' h
  exact ⟨by omega, hitems⟩

theorem decodeTable_ensures (features : CoreFeatures) : (decodeTable features).Ensures fun t =>
    t.type.Proper ∧ ∀ e, t.initExpr = some e → e.Closed := by
  have hinit (hasInitExpr : Bool) : (decodeTableInit features hasInitExpr).Ensures
      fun init => ∀ e, init = some e → e.Closed :=
    ite (((closed_decodeConstantExpression features).mapErr _).bind fun e he =>
      ensures_pure fun e' he' => by cases he'; exact he) (ensures_pure nofun)
  refine ensures_bind fun ⟨b, hasInitExpr⟩ => ensures_bind fun type r t r' h => ?_
  obtain ⟨u, r₁, href, h⟩ := bind_inv h
  have hproper : type.Proper := .inl (require_eq_ok_iff.mp href).1
  exact (ensures_bind₂ fun _ _ => ensures_bind₂ fun _ _ =>
    ensures_bind fun _ => (hinit hasInitExpr).bind fun init hclosed =>
    ensures_pure ⟨hproper, hclosed⟩ :
    Ensures (fun t => t.type.Proper ∧ ∀ e, t.initExpr = some e → e.Closed) _) _ _ _ h

theorem proper_decodeGlobalType (features : CoreFeatures) :
    (decodeGlobalType features).Ensures fun g => g.valType.Proper := by
  have hone : (decodeOneValueType features).Ensures ValueType.Proper := by
    refine ((proper_decodeValueTypes 1 features).mapErr _).bind fun types h => ?_
    cases types with
    | nil =>
      rintro r t r' ⟨⟩
    | cons t rest => exact ensures_pure (h.2 t (by simp))
  exact hone.bind fun t ht => ensures_bind fun b =>
    ite (ensures_pure ht) (ite (ensures_pure ht) (ensures_fail _))

theorem decodeGlobal_ensures (features : CoreFeatures) :
    (decodeGlobal features).Ensures fun g => g.type.valType.Proper ∧ g.init.Closed :=
  (proper_decodeGlobalType features).bind fun _ htype =>
    (closed_decodeConstantExpression features).bind fun _ he => ensures_pure ⟨htype, he⟩

theorem closed_refFuncExpression (index : Index) : (refFuncExpression index).Closed := by
  rw [ConstantExpression.Closed, refFuncExpression, getLast?_concat]

theorem isRef_decodeElementRefType : decodeElementRefType.Ensures fun t => t.isRef = true := by
  refine ensures_bind fun b => ite (isRef_decodeRefType _) ?_
  split
  · exact ensures_fail _
  next hb =>
    refine ensures_pure ?_
    simp only [not_and, not_not] at hb
    by_cases hfunc : b = ValueType.funcref.kind
    · rw [hfunc]
      rfl
    · rw [hb hfunc]
      rfl

theorem decodeElementSegment_ensures (features : CoreFeatures) :
    (decodeElementSegment features).Ensures fun elem => elem.type.isRef = true ∧
      (∀ e ∈ elem.init, e.Closed) ∧ (elem.mode = .active → elem.offsetExpr.Closed) := by
  have hoffset : (decodeOffset features).Ensures ConstantExpression.Closed :=
    (closed_decodeConstantExpression features).mapErr _
  have hvalue : decodeElementInitValue.Ensures ConstantExpression.Closed :=
    ensures_bind₂ fun u32 _ => ensures_pure (closed_refFuncExpression u32.1)
  have hinit : decodeElementInitValueVector.Ensures fun init => ∀ e ∈ init, e.Closed :=
    ensures_bind fun vs r init r' h => (ensures_times (fun _ => hvalue) vs.1 r init r' h).2
  have hexprs : (decodeElementConstExprVector features).Ensures fun init => ∀ e ∈ init, e.Closed :=
    ensures_bind fun vs r init r' h =>
      (ensures_times (fun _ => closed_decodeConstantExpression features) vs.1 r init r' h).2
  refine ensures_bind₂ fun segmentPrefix _ => ?_
  split
  · exact hoffset.bind fun _ ho => hinit.bind fun _ hi => ensures_pure ⟨rfl, hi, fun _ => ho⟩
  · exact ensures_bind fun _ => hinit.bind fun _ hi => ensures_pure ⟨rfl, hi, by simp⟩
  · exact ensures_bind fun _ => hoffset.bind fun _ ho => ensures_bind fun _ =>
      hinit.bind fun _ hi =>
      ensures_pure ⟨rfl, hi, fun _ => ho⟩
  · exact ensures_bind fun _ => hinit.bind fun _ hi => ensures_pure ⟨rfl, hi, by simp⟩
  · exact hoffset.bind fun _ ho => hexprs.bind fun _ hi => ensures_pure ⟨rfl, hi, fun _ => ho⟩
  · exact isRef_decodeElementRefType.bind fun _ ht => hexprs.bind fun _ hi =>
      ensures_pure ⟨ht, hi, by simp⟩
  · exact ensures_bind fun _ => hoffset.bind fun _ ho => isRef_decodeElementRefType.bind fun _ ht =>
      hexprs.bind fun _ hi => ensures_pure ⟨ht, hi, fun _ => ho⟩
  · exact isRef_decodeElementRefType.bind fun _ ht => hexprs.bind fun _ hi =>
      ensures_pure ⟨ht, hi, by simp⟩
  · exact ensures_fail _

theorem closed_decodeDataSegment (features : CoreFeatures) : (decodeDataSegment features).Ensures
      fun d => d.passive = false → d.offsetExpression.Closed := by
  have hexpr := closed_decodeConstantExpression features
  have hoffset (segmentPrefix : Nat) : (decodeDataOffset features segmentPrefix).Ensures
      fun o => o.2 = false → o.1.Closed := by
    unfold decodeDataOffset
    split
    · exact (hexpr.mapErr _).bind fun _ he => ensures_pure fun _ => he
    · exact ensures_pure (by simp)
    · exact ensures_bind₂ fun _ _ => (hexpr.mapErr _).bind fun _ he =>
        ensures_pure fun _ => he
    · exact ensures_fail _
  exact ensures_bind₂ fun segmentPrefix _ => (hoffset segmentPrefix.1).bind
    fun _ ho => ensures_bind₂ fun _ _ => ensures_pure ho

/-- The type of an imported table or global can be declared. -/
def ProperImport : ImportDesc → Prop
  | .table t => t.type.Proper
  | .global g => g.valType.Proper
  | _ => True

theorem proper_decodeImportDesc (sizer : Nat → Option Nat → Nat × Nat × Nat) (limitPages : Nat)
    (features : CoreFeatures) (b : UInt8) :
    (decodeImportDesc sizer limitPages features b).Ensures ProperImport := by
  unfold decodeImportDesc
  split
  · exact ensures_bind fun _ => ensures_pure trivial
  · exact (decodeTable_ensures features).bind fun t ht => ensures_pure ht.1
  · exact ensures_bind fun _ => ensures_pure trivial
  · exact (proper_decodeGlobalType features).bind fun g hg => ensures_pure hg
  · exact ensures_bind₂ fun _ _ => ensures_bind₂ fun _ _ =>
      ensures_pure trivial
  · exact ensures_fail _

/-- What is imported is counted, and has types that can be declared. -/
structure ImportsCounted (s : Imports) : Prop where
  functions : s.funcCount =
    (s.all.filterMap fun imp => match imp.desc with | .func t => some t | _ => none).length
  memories : s.memoryCount =
    (s.all.filterMap fun imp => match imp.desc with | .memory mem => some mem | _ => none).length
  globals : s.globalCount =
    (s.all.filterMap fun imp => match imp.desc with | .global g => some g | _ => none).length
  tables : s.tableCount =
    (s.all.filterMap fun imp => match imp.desc with | .table t => some t | _ => none).length
  tags : s.tagCount =
    (s.all.filterMap fun imp => match imp.desc with | .tag t => some t | _ => none).length
  proper : ∀ imp ∈ s.all, ProperImport imp.desc

theorem ImportsCounted.add {s : Imports} (h : ImportsCounted s) (module name : String)
    {desc : ImportDesc} (hdesc : ProperImport desc) : ImportsCounted (s.add module name desc) := by
  obtain ⟨hfunctions, hmemories, hglobals, htables, htags, hproper⟩ := h
  cases desc <;> constructor <;>
    simp [Imports.add, Imports.push, hfunctions, hmemories, hglobals, htables, htags]
  all_goals
    rintro imp (himp | rfl)
    · exact hproper imp himp
    · exact hdesc

theorem counted_decodeImportSection (sizer : Nat → Option Nat → Nat × Nat × Nat)
    (limitPages : Nat) (features : CoreFeatures) :
    (decodeImportSection sizer limitPages features).Ensures ImportsCounted := by
  refine ensures_bind fun vs => ensures_bind fun _ r s r' h => ?_
  refine iterate_invariant (P := fun _ s _ => ImportsCounted s) ?_
    ⟨rfl, rfl, rfl, rfl, rfl, by simp⟩ h
  intro i s r s' r' hs hstep
  obtain ⟨⟨module, name, desc⟩, r₁, himport, hstep⟩ := bind_inv hstep
  cases hstep
  have hproper : (decodeImport i sizer limitPages features).Ensures fun x => ProperImport x.2.2 :=
    ensures_bind fun ⟨_, _⟩ => ensures_bind fun ⟨_, _⟩ => ensures_bind fun b =>
      ((proper_decodeImportDesc sizer limitPages features b).mapErr _).bind
        fun desc hdesc => ensures_pure hdesc
  exact hs.add module name (hproper _ _ _ himport)

theorem decodeCode_ensures (start : Nat) : (decodeCode start).Ensures fun c =>
    (∀ t ∈ c.localTypes, t.Proper) ∧ c.body.getLast? = some Opcode.opEnd := by
  refine ensures_bind₂ fun ss ls => ensures_bind fun _ => ?_
  intro r c r' h
  obtain ⟨⟨checked, sum⟩, r₁, hcheck, h⟩ := bind_inv h
  obtain ⟨_, r₂, hreq, h⟩ := bind_inv h
  obtain ⟨_, r₃, hreq', h⟩ := bind_inv h
  obtain ⟨_, r₄, hseek, h⟩ := bind_inv h
  obtain ⟨⟨remaining, types⟩, r₅, hdecode, hbody⟩ := bind_inv h
  rw [(require_eq_ok_iff.mp hreq').2, (require_eq_ok_iff.mp hreq).2, checkLocals_counts hcheck,
    seekBack_advance] at hseek
  cases hseek
  obtain ⟨-, -, -, -, -, -, hproper⟩ := declaresLocals_of_loops hcheck hdecode
  obtain ⟨_, _, -, hbody⟩ := bind_inv hbody
  obtain ⟨_, _, -, hbody⟩ := bind_inv hbody
  obtain ⟨body, _, -, hbody⟩ := bind_inv hbody
  obtain ⟨_, _, hend, hbody⟩ := bind_inv hbody
  cases hbody
  exact ⟨hproper (by simp), of_decide_eq_true (require_eq_ok_iff.mp hend).1⟩

theorem min_le_decodeMemory (features : CoreFeatures) (sizer : Nat → Option Nat → Nat × Nat × Nat)
    (limitPages : Nat) :
    (decodeMemory features sizer limitPages).Ensures fun mem =>
      mem.min ≤ mem.cap ∧ mem.min ≤ mem.max := by
  refine ensures_bind₂ fun limits _ => ensures_bind fun _ => ?_
  simp only
  split
  next => exact ensures_fail _
  next hvalid =>
    obtain ⟨-, hmax, hcap, -⟩ := Memory.le_of_validate hvalid
    exact ensures_pure ⟨hcap, hmax⟩

theorem min_le_decodeMemorySection (features : CoreFeatures)
    (sizer : Nat → Option Nat → Nat × Nat × Nat) (limitPages : Nat) :
    (decodeMemorySection features sizer limitPages).Ensures fun memory =>
      ∀ mem, memory = some mem → mem.min ≤ mem.cap ∧ mem.min ≤ mem.max := by
  refine ensures_bind₂ fun _ _ => ite (ensures_pure (by simp)) ?_
  refine (min_le_decodeMemory features sizer limitPages).bind fun mem hmem => ensures_pure ?_
  rintro _ ⟨⟩
  exact hmem

/-- The types that a decoded module declares. -/
structure ProperModule (m : Module) : Prop where
  types : ∀ ft ∈ m.typeSection, ProperType ft
  imports : ∀ imp ∈ m.importSection, ProperImport imp.desc
  tables : ∀ t ∈ m.tableSection, t.type.Proper
  globals : ∀ g ∈ m.globalSection, g.type.valType.Proper
  locals : ∀ c ∈ m.codeSection.getD [], ∀ t ∈ c.localTypes, t.Proper

section

open Validation.Module

theorem proper_importedGlobals {m : Module} (hm : ProperModule m) {g : GlobalType}
    (hg : g ∈ importedGlobals m) : g.valType.Proper := by
  obtain ⟨imp, himp, hdesc⟩ := mem_filterMap.mp hg
  have hproper := hm.imports imp himp
  split at hdesc
  next heq =>
    cases hdesc
    rwa [heq] at hproper
  next => cases hdesc

/-- The functions are counted as they are imported, and elements are references. -/
structure Counted (m : Module) : Prop where
  functions : m.importFunctionCount = (importedFunctions m).length
  elements : ∀ elem ∈ m.elementSection, elem.type.isRef = true

/-- What instantiation relies on in a decoded module, apart from its constant expressions. -/
structure InstanceDecoded (m : Module) : Prop where
  memories : m.importMemoryCount = (importedMemories m).length
  limits : ∀ mem, m.memorySection = some mem → mem.min ≤ mem.cap ∧ mem.min ≤ mem.max

/-- What the decoders of the sections keep. -/
structure DeclaredModule (m : Module) : Prop extends Decoded m where
  properTypes : ∀ ft ∈ m.typeSection, ProperType ft
  imports : ∀ imp ∈ m.importSection, ProperImport imp.desc
  functions : m.importFunctionCount = (importedFunctions m).length
  memories : m.importMemoryCount = (importedMemories m).length
  globalCount : m.importGlobalCount = (Validation.Module.importedGlobals m).length
  tableCount : m.importTableCount = (importedTables m).length
  tagCount : m.importTagCount = (importedTags m).length
  properTables : ∀ t ∈ m.tableSection, t.type.Proper
  limits : ∀ mem, m.memorySection = some mem → mem.min ≤ mem.cap ∧ mem.min ≤ mem.max
  properGlobals : ∀ g ∈ m.globalSection, g.type.valType.Proper
  references : ∀ elem ∈ m.elementSection, elem.type.isRef = true
  locals : ∀ c ∈ m.codeSection.getD [], ∀ t ∈ c.localTypes, t.Proper

/-- What the decoder of a section of fewer than `2 ^ 32` bytes returns is kept. -/
def Keeps (x : Parser Module) : Prop :=
  ∀ r m r', r.len - r'.len < 2 ^ 32 → x r = .ok m r' → DeclaredModule m

theorem Keeps.ite {p : Prop} [Decidable p] {x y : Parser Module} (hx : Keeps x) (hy : Keeps y) :
    Keeps (if p then x else y) := by
  split
  · exact hx
  · exact hy

theorem keeps_of_ensures {x : Parser Module} (hx : x.Ensures DeclaredModule) : Keeps x :=
  fun r m r' _ h => hx r m r' h

theorem ensures_decodeInto {α : Type} {P : α → Prop} {x : Parser α}
    (hx : x.Ensures P) (id : UInt8) {set : α → Module} (hset : ∀ a, P a → DeclaredModule (set a)) :
    (decodeInto id x set).Ensures DeclaredModule :=
  (hx.mapErr _).bind fun a ha => ensures_pure (hset a ha)

theorem ensures_true {α : Type} (x : Parser α) : x.Ensures fun _ => True :=
  fun _ _ _ _ => trivial

variable {m : Module} (cfg : Config)

section

variable (hm : DeclaredModule m)

include hm

theorem declared_decodeCustom (size : Nat) : (decodeCustom cfg m size).Ensures DeclaredModule := by
  refine ensures_bind fun ⟨name, nameSize⟩ => ensures_bind₂ fun _ _ =>
    ite ?_ (ite ?_ ?_)
  · exact ensures_bind fun _ => ensures_pure { hm with }
  · exact ensures_bind fun _ => ensures_pure { hm with }
  · exact ensures_bind fun _ => ensures_pure hm

theorem keeps_decodeTypes (id : UInt8) :
    Keeps (decodeInto id (decodeTypeSection cfg.features) fun types =>
      { m with typeSection := types }) := by
  intro r m' r' hsize h
  obtain ⟨types, r₁, htypes, h⟩ := bind_inv h
  cases h
  have happends := decodeTypeSection_appends (mapErr_inv htypes)
  have hlength : types.length < 2 ^ 32 := by
    have := happends.len
    simp only [length_nil] at this
    omega
  obtain ⟨_, rfl, hproper⟩ := happends.added
  exact { hm with
    types := happends.wellFormed hlength ⟨by simp, by simp, by simp⟩
    properTypes := hproper }

theorem keeps_decodeSwitch (id : UInt8) (size : Nat) : Keeps (decodeSwitch cfg m id size) := by
  have hcodes : decodeCodeSection.Ensures fun codes => codes.length < 2 ^ 32 ∧
      ∀ c ∈ codes, (∀ t ∈ c.localTypes, t.Proper) ∧ c.body.getLast? = some Opcode.opEnd :=
    ensures_bind fun _ => ensures_decodeVector _ fun _ => (decodeCode_ensures _).mapErr _
  have htables : (decodeTableSection cfg.features).Ensures fun tables =>
      ∀ t ∈ tables, t.type.Proper ∧ ∀ e, t.initExpr = some e → e.Closed :=
    ensures_bind₂ fun vs _ => ensures_bind fun _ r tables r' h =>
      (ensures_times (fun _ => decodeTable_ensures cfg.features) vs.1 r tables r' h).2
  refine Keeps.ite (keeps_of_ensures (ensures_decodeInto hcodes id fun _ h => { hm with
    codeCount := h.1, locals := fun c hc => (h.2 c hc).1, bodies := fun c hc => (h.2 c hc).2 })) ?_
  refine Keeps.ite (keeps_of_ensures (declared_decodeCustom cfg hm size)) ?_
  refine Keeps.ite (keeps_decodeTypes cfg hm id) (keeps_of_ensures ?_)
  refine ite ((counted_decodeImportSection _ _ _).bind fun s hs => ensures_pure { hm with
    importedGlobals := le_of_eq hs.globals, imports := hs.proper, functions := hs.functions,
    memories := hs.memories, globalCount := hs.globals, tableCount := hs.tables,
    tagCount := hs.tags }) ?_
  refine ite (ensures_decodeInto (ensures_decodeVector _ fun _ => ensures_true _) id
    fun _ h => { hm with functionCount := h.1 }) ?_
  refine ite (ensures_decodeInto htables id fun _ h => { hm with
    properTables := fun t ht => (h t ht).1, tables := fun t ht => (h t ht).2 }) ?_
  refine ite (ensures_decodeInto (min_le_decodeMemorySection _ _ _) id
    fun _ h => { hm with limits := h }) ?_
  refine ite (ensures_bind fun _ => ensures_decodeInto (ensures_true _) id
    fun _ _ => { hm with }) ?_
  refine ite ((ensures_decodeVector _ fun _ => (decodeGlobal_ensures _).mapErr _).bind
    fun _ h => ensures_pure { hm with
      properGlobals := fun g hg => (h.2 g hg).1, globals := fun g hg => (h.2 g hg).2 }) ?_
  refine ite (ensures_decodeInto (ensures_true _) id fun _ _ => { hm with }) ?_
  refine ite (ensures_decodeInto (ensures_true _) id fun _ _ => { hm with }) ?_
  refine ite (ensures_decodeInto (ensures_decodeVector _
    fun _ => (decodeElementSegment_ensures _).mapErr _) id fun _ h => { hm with
      references := fun e he => (h.2 e he).1, elements := fun e he => (h.2 e he).2 }) ?_
  refine ite (ensures_decodeInto (ensures_decodeVector _
    fun _ => (closed_decodeDataSegment _).mapErr _) id fun _ h => { hm with data := h.2 }) ?_
  exact ite (ensures_bind fun _ => ensures_decodeInto (ensures_true _) id
    fun _ _ => { hm with }) ((ensures_fail _).mapErr _)

end

theorem declared_of_decodeSection {s s' : DecodeState} {id : UInt8} (hs : DeclaredModule s.module)
    (h : decodeSection cfg s id r = .ok s' r') : DeclaredModule s'.module := by
  obtain ⟨size, r₁, hheader, h⟩ := bind_inv h
  obtain ⟨_, _, hreader, h⟩ := bind_inv h
  cases hreader
  obtain ⟨m, r₂, hm, h⟩ := bind_inv h
  obtain ⟨_, _, hreader, h⟩ := bind_inv h
  cases hreader
  obtain ⟨u, r₃, hreq, h⟩ := bind_inv h
  cases h
  obtain ⟨⟨v, n⟩, r₄, hv, hheader⟩ := bind_inv hheader
  obtain ⟨_, _, -, hheader⟩ := bind_inv hheader
  cases hheader
  have hsize := decodeUint32_lt (mapErr_inv hv)
  have hlen := of_decide_eq_true (require_eq_ok_iff.mp (mapErr_inv hreq)).1
  exact keeps_decodeSwitch cfg hs id _ r₁ m r₂ (by omega) hm

theorem declared_decodeSections (fuel : Nat) {s : DecodeState} (hs : DeclaredModule s.module) :
    (decodeSections cfg fuel s).Ensures fun s' => DeclaredModule s'.module := by
  induction fuel generalizing s with
  | zero =>
    rintro r s' r' ⟨⟩
  | succ fuel ih =>
    refine ensures_bind fun id => ?_
    cases id with
    | none => exact ensures_pure hs
    | some id =>
      exact bind (fun _ _ _ h => declared_of_decodeSection cfg hs h) fun s' hs' => ih hs'

variable {binary : List UInt8}

section

variable (h : decodeModule cfg binary = .ok m r)

include h

theorem declared_of_decodeModule : DeclaredModule m := by
  have hempty : DeclaredModule {} := by
    refine ⟨⟨⟨?_, ?_, ?_⟩, ?_, ?_, ?_, ?_, ?_, ?_, ?_, ?_⟩, ?_, ?_, rfl, rfl, rfl, rfl, rfl,
      ?_, ?_, ?_, ?_, ?_⟩ <;> simp
  exact (ensures_bind₂ fun _ _ => (declared_decodeSections cfg _ hempty).bind
    fun s hs => ensures_bind fun _ => ensures_pure hs :
    (decodeModuleParser cfg).Ensures DeclaredModule) _ m r h

theorem decoded_of_decodeModule : Decoded m :=
  (declared_of_decodeModule cfg h).toDecoded

theorem proper_of_decodeModule : ProperModule m :=
  have hm := declared_of_decodeModule cfg h
  ⟨hm.properTypes, hm.imports, hm.properTables, hm.properGlobals, hm.locals⟩

theorem counted_of_decodeModule : Counted m :=
  have hm := declared_of_decodeModule cfg h
  ⟨hm.functions, hm.references⟩

theorem instanceDecoded_of_decodeModule : InstanceDecoded m :=
  { declared_of_decodeModule cfg h with }

end

theorem length_codeSection (hdecode : decodeModule cfg binary = .ok m r) :
    (m.codeSection.getD []).length = m.functionSection.length := by
  have hdecoded := decoded_of_decodeModule cfg hdecode
  obtain ⟨_, _, -, h⟩ := bind_inv hdecode
  obtain ⟨_, _, -, h⟩ := bind_inv h
  obtain ⟨s, _, -, h⟩ := bind_inv h
  obtain ⟨_, _, hreq, h⟩ := bind_inv h
  cases h
  have hcounts := of_decide_eq_true (require_eq_ok_iff.mp hreq).1
  rw [Nat.mod_eq_of_lt hdecoded.functionCount, Nat.mod_eq_of_lt hdecoded.codeCount] at hcounts
  exact hcounts.symm

theorem isSome_codeSection (hdecode : decodeModule cfg binary = .ok m r)
    {i : Nat} (hi : i < m.functionSection.length) : m.codeSection.isSome := by
  have hlength := length_codeSection cfg hdecode
  cases hcode : m.codeSection with
  | none =>
    rw [hcode, Option.getD_none, length_nil] at hlength
    omega
  | some codes => rfl

/-- A module is decoded only if it is well formed and has a body for each function it declares. -/
theorem decodeModule_wellFormed (h : decodeModule cfg binary = .ok m r) :
    DeclaredModule m ∧ (m.codeSection.getD []).length = m.functionSection.length :=
  ⟨declared_of_decodeModule cfg h, length_codeSection cfg h⟩

/-- A module that imports a function and declares another one. -/
theorem decodeModule_wellFormed_twoFunctions :
    ∃ m r, decodeModule ⟨0, 0, false, false, false⟩ (magic ++ version ++
        [1, 4, 1, 0x60, 0, 0, 2, 7, 1, 1, 0x61, 1, 0x62, 0, 0, 3, 2, 1, 0, 10, 4, 1, 2, 0, 0x0b]) =
        .ok m r ∧ m.importFunctionCount = 1 ∧ m.functionSection = [0] ∧ DeclaredModule m ∧
      (m.codeSection.getD []).length = m.functionSection.length := by
  refine ⟨?_, ?_, ?decoded, ?imported, ?declared, decodeModule_wellFormed _ ?decoded⟩
  case decoded => rfl
  case imported => rfl
  case declared => rfl

end

end Andsifr.Binary
