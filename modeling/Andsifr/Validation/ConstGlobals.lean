import Andsifr.Validation.ConstExprs

namespace Andsifr.Validation.Module

open Lib Wasm List Check

variable {m : Module} {features : CoreFeatures} {d : Declarations}

def ReadsImmutable (m : Module) (e : ConstantExpression) : Prop :=
  ∀ i ∈ e.globalGets, ∃ g, (globalTypes m)[i]? = some g ∧ g.isMutable = false

/-- The expressions whose check does not ask whether a global is mutable. The initialisers of the
globals are evaluated again, with that question, when the functions are validated. -/
def CheckedExpression.Unguarded (m : Module) (c : CheckedExpression) : Prop :=
  c.kind = .table ∨ c.kind = .data ∨ c.kind = .global ∧ m.functionSection = []

/-- The initialisers that are given with imported tables. They are decoded, and no check reads
them. -/
def importedInitialisers (m : Module) : List ConstantExpression :=
  (importedTables m).filterMap Table.initExpr

def constantExpressions (m : Module) : List ConstantExpression :=
  (checkedExpressions m).map CheckedExpression.expr ++ importedInitialisers m

/-- No global that the expression reads is imported as a mutable one. -/
def AvoidsMutableImports (m : Module) (e : ConstantExpression) : Prop :=
  ∀ i ∈ e.globalGets, ∀ g, (importedGlobals m)[i]? = some g → g.isMutable = false

theorem lt_of_ranged {α : Type} {n i : Nat} {message : String} {x : Check α} {a : α}
    (h : (if n % 2 ^ 32 ≤ i then fail message else x) = .ok a) : i < 2 ^ 32 ∧ x = .ok a := by
  split at h
  · cases h
  · exact ⟨by omega, h⟩

variable {i : Index} {numFuncs : Nat}

theorem constResolvers_global_eq_ok {globals : List GlobalType}
    {value : ValueType × Nat × Nat} (h : (constResolvers globals numFuncs).global i = .ok value) :
    i < 2 ^ 32 ∧ ∃ g, globals[i]? = some g ∧ value = (g.valType, 0, 0) := by
  obtain ⟨hlt, h⟩ := lt_of_ranged h
  obtain ⟨g, hg, h⟩ := bind_inv h
  cases h
  exact ⟨hlt, g, index_eq_ok_iff.mp hg, rfl⟩

theorem getElem?_globalTypes_of_imported {g : GlobalType}
    (h : (importedGlobalTypes m)[i]? = some g) : (globalTypes m)[i]? = some g := by
  rw [globalTypes, getElem?_append_left (List.getElem?_eq_some_iff.mp h).1, h]

theorem getElem?_importedGlobals {g : GlobalType}
    (h : (importedGlobalTypes m)[i]? = some g) : (importedGlobals m)[i]? = some g := by
  rw [importedGlobalTypes, getElem?_take] at h
  split at h
  · exact h
  · cases h

variable {t : ValueType} {idx : Nat}

theorem resolveConstExprGlobalType_eq_ok (hdecoded : Decoded m) {section_ : String}
    {sectionIdx : Nat} (hidx : idx < 2 ^ 32)
    (h : resolveConstExprGlobalType m features section_ sectionIdx idx = .ok t) :
    ∃ g, (globalTypes m)[idx]? = some g ∧ g.valType = t ∧ g.isMutable = false := by
  have hlength : (importedGlobalTypes m).length = m.importGlobalCount := by
    rw [importedGlobalTypes, length_take, min_eq_left hdecoded.importedGlobals]
  unfold resolveConstExprGlobalType at h
  split at h
  next hlt =>
    split at h
    next g hg =>
      split at h
      · cases h
      next hmutable =>
        cases h
        refine ⟨g, getElem?_globalTypes_of_imported ?_, rfl, by simpa using hmutable⟩
        rwa [importedGlobalTypes, getElem?_take_of_lt hlt]
    next => cases h
  next hge =>
    have hge : m.importGlobalCount ≤ idx := Nat.le_of_not_lt hge
    have hsub : sub32 idx m.importGlobalCount = idx - m.importGlobalCount := by
      rw [sub32]
      omega
    simp only [hsub] at h
    split at h
    · cases h
    split at h
    · cases h
    split at h
    · cases h
    obtain ⟨g, hg, h⟩ := bind_inv h
    split at h
    · cases h
    next hmutable =>
      cases h
      refine ⟨g.type, ?_, rfl, by simpa using hmutable⟩
      rw [globalTypes, getElem?_append_right (by omega), hlength, getElem?_map,
        index_eq_ok_iff.mp hg]
      rfl

variable {e : ConstantExpression}

theorem readsImmutable_of_resolver (hdecoded : Decoded m) (features : CoreFeatures)
    (section_ : String) (sectionIdx : Nat)
    (h : ∀ i ∈ e.globalGets, i < 2 ^ 32 ∧
      ∃ t, resolveConstExprGlobalType m features section_ sectionIdx i = .ok t) :
    ReadsImmutable m e := by
  intro i hi
  obtain ⟨hlt, t, ht⟩ := h i hi
  obtain ⟨g, hg, -, hmutable⟩ := resolveConstExprGlobalType_eq_ok hdecoded hlt ht
  exact ⟨g, hg, hmutable⟩

theorem readsImmutable_elementOffset (hdecoded : Decoded m) {values : List Nat}
    (h : (evaluateConstExpr e (offsetResolvers m features idx)).1 = .ok (values, t)) :
    ReadsImmutable m e := by
  refine readsImmutable_of_resolver hdecoded features "element" idx fun i hi => ?_
  obtain ⟨value, hvalue⟩ := exists_global_of_mem_globalGets h hi
  obtain ⟨hlt, hvalue⟩ := lt_of_ranged hvalue
  obtain ⟨t, ht, -⟩ := bind_inv hvalue
  exact ⟨hlt, t, ht⟩

theorem readsImmutable_elementItem (hdecoded : Decoded m) {elemType : ValueType} {ei : Nat}
    (h : validateElementInit m features elemType idx ei e = .ok ()) :
    ReadsImmutable m e := by
  obtain ⟨⟨values, t⟩, heval, -⟩ := bind_inv h
  refine readsImmutable_of_resolver hdecoded features "element" idx fun i hi => ?_
  obtain ⟨value, hvalue⟩ := exists_global_of_mem_globalGets heval hi
  obtain ⟨hlt, hvalue⟩ := lt_of_ranged hvalue
  obtain ⟨t, ht, -⟩ := bind_inv hvalue
  exact ⟨hlt, t, ht⟩

theorem reads_imported {globals : List GlobalType}
    (h : validateConstExpression m globals numFuncs e t = .ok ())
    (hi : i ∈ e.globalGets) : i < 2 ^ 32 ∧ ∃ g, globals[i]? = some g := by
  obtain ⟨⟨values, typ⟩, heval, -⟩ := bind_inv h
  obtain ⟨value, hvalue⟩ := exists_global_of_mem_globalGets heval hi
  obtain ⟨hlt, g, hg, -⟩ := constResolvers_global_eq_ok hvalue
  exact ⟨hlt, g, hg⟩

theorem readsImmutable_iff_avoids
    (h : validateConstExpression m (importedGlobalTypes m) numFuncs e t = .ok ()) :
    ReadsImmutable m e ↔ AvoidsMutableImports m e := by
  constructor
  · intro himmutable i hi g hg
    obtain ⟨g', hg', hmutable⟩ := himmutable i hi
    obtain ⟨-, g'', hg''⟩ := reads_imported h hi
    rw [getElem?_importedGlobals hg''] at hg
    rw [getElem?_globalTypes_of_imported hg''] at hg'
    cases hg
    cases hg'
    exact hmutable
  · intro havoids i hi
    obtain ⟨-, g, hg⟩ := reads_imported h hi
    exact ⟨g, getElem?_globalTypes_of_imported hg, havoids i hi g (getElem?_importedGlobals hg)⟩

/-- Where the functions are validated, the initialisers of the globals have been evaluated to find
the functions that they declare. -/
theorem evaluate_of_validateFunctions (hdecoded : Decoded m) (h : Accepted m features d)
    (hcode : m.codeSection.isSome) (hfunctions : m.functionSection ≠ []) {g : Global}
    (hg : g ∈ m.globalSection) : ∃ i values t,
      (evaluateConstExpr g.init (declaringResolvers m features "global" i)).1 = .ok
      (values, t) := by
  have hvalid := h.code
  rw [validateCode, if_pos hcode] at hvalid
  obtain ⟨declared, hcounts, -⟩ := bind_inv hvalid
  obtain ⟨_, -, hcounts⟩ := bind_inv hcounts
  have hcount : len32 m.functionSection = m.functionSection.length :=
    Nat.mod_eq_of_lt hdecoded.functionCount
  have hpos := length_pos_iff.mpr hfunctions
  rw [if_neg (by omega)] at hcounts
  obtain ⟨_, -, hcounts⟩ := bind_inv hcounts
  obtain ⟨indexes, hindexes, -⟩ := bind_inv hcounts
  obtain ⟨_, hglobals, -⟩ := bind_inv hindexes
  obtain ⟨i, c, c', hg⟩ := of_fold_eq_ok hglobals hg
  obtain ⟨⟨values, t⟩, heval, -⟩ := bind_inv hg
  exact ⟨i, values, t, mapErr_inv heval⟩

theorem readsImmutable_globalInit (hdecoded : Decoded m) (h : Accepted m features d)
    (hcode : m.codeSection.isSome) (hfunctions : m.functionSection ≠ []) {c : CheckedExpression}
    (hc : c ∈ checkedExpressions m) (hkind : c.kind = .global) : ReadsImmutable m c.expr := by
  have hpasses := passes_of_accepted hdecoded h hc
  rw [CheckedExpression.Passes, hkind] at hpasses
  have hstands := stands_of_mem hc
  rw [CheckedExpression.Stands, hkind] at hstands
  obtain ⟨g, hg, hexpr, -⟩ := hstands
  obtain ⟨i, values, t, heval⟩ := evaluate_of_validateFunctions hdecoded h hcode hfunctions hg
  rw [hexpr] at heval
  refine readsImmutable_of_resolver hdecoded features "global" i fun j hj => ?_
  obtain ⟨value, hvalue⟩ := exists_global_of_mem_globalGets heval hj
  obtain ⟨t, ht, -⟩ := bind_inv hvalue
  exact ⟨(reads_imported hpasses hj).1, t, ht⟩

theorem checkedExpressions_readImmutable_iff (hdecoded : Decoded m) (h : Accepted m features d)
    (hcode : m.functionSection ≠ [] → m.codeSection.isSome) :
    (∀ c ∈ checkedExpressions m, ReadsImmutable m c.expr) ↔
      ∀ c ∈ checkedExpressions m, c.Unguarded m → AvoidsMutableImports m c.expr := by
  have hunguarded (c : CheckedExpression) (hc : c ∈ checkedExpressions m) (hkind : c.Unguarded m) :
      ReadsImmutable m c.expr ↔ AvoidsMutableImports m c.expr := by
    have hpasses := passes_of_accepted hdecoded h hc
    rw [CheckedExpression.Passes] at hpasses
    rcases hkind with hkind | hkind | ⟨hkind, -⟩ <;> rw [hkind] at hpasses <;>
      exact readsImmutable_iff_avoids hpasses
  constructor
  · intro himmutable c hc hkind
    exact (hunguarded c hc hkind).mp (himmutable c hc)
  · intro havoids c hc
    by_cases hkind : c.Unguarded m
    · exact (hunguarded c hc hkind).mpr (havoids c hc hkind)
    have hpasses := passes_of_accepted hdecoded h hc
    rw [CheckedExpression.Passes] at hpasses
    cases hk : c.kind with
    | global =>
      have hfunctions : m.functionSection ≠ [] := fun hnil => hkind (.inr (.inr ⟨hk, hnil⟩))
      exact readsImmutable_globalInit hdecoded h (hcode hfunctions) hfunctions hc hk
    | table => exact absurd (.inl hk) hkind
    | data => exact absurd (.inr (.inl hk)) hkind
    | elementOffset =>
      rw [hk] at hpasses
      obtain ⟨idx, values, heval⟩ := hpasses
      exact readsImmutable_elementOffset hdecoded heval
    | elementItem =>
      rw [hk] at hpasses
      obtain ⟨idx, ei, hitem⟩ := hpasses
      exact readsImmutable_elementItem hdecoded hitem

/-- In an accepted module all constant expressions read only immutable globals exactly if no table
initialiser, no offset of a data segment and, in a module without functions, no initialiser of a
global reads a mutable imported global, and the initialisers of imported tables read only immutable
globals. -/
theorem constantExpressions_readImmutable_iff (cfg : Binary.Config) (binary : List UInt8)
    (m : Module) (r : Reader) (hdecode : Binary.decodeModule cfg binary = .ok m r)
    (features : CoreFeatures) (hvalid : validate m features = .ok ()) :
    (∀ e ∈ constantExpressions m, ReadsImmutable m e) ↔
      (∀ c ∈ checkedExpressions m, c.Unguarded m → AvoidsMutableImports m c.expr) ∧
        ∀ e ∈ importedInitialisers m, ReadsImmutable m e := by
  obtain ⟨d, h⟩ := accepted_of_validate hvalid
  have hchecked := checkedExpressions_readImmutable_iff (Binary.decoded_of_decodeModule cfg hdecode)
    h fun hfunctions =>
      Binary.isSome_codeSection cfg hdecode (length_pos_iff.mpr hfunctions)
  rw [constantExpressions, forall_mem_append, forall_mem_map, hchecked]

theorem constantExpressions_readImmutable_iff_data_offset :
    ∃ m r, Binary.decodeModule ⟨BitVec.allOnes 64, 65536, false, false, false⟩
        [0x00, 0x61, 0x73, 0x6d, 0x01, 0x00, 0x00, 0x00,
          0x02, 0x15, 0x02, 0x01, 0x6d, 0x01, 0x67, 0x03, 0x7f, 0x00,
          0x01, 0x6d, 0x01, 0x74, 0x01, 0x40, 0x00, 0x70, 0x00, 0x00, 0x23, 0x00, 0x0b,
          0x05, 0x03, 0x01, 0x00, 0x01, 0x0b, 0x06, 0x01, 0x00, 0x23, 0x00, 0x0b, 0x00] = .ok m r ∧
      validate m (BitVec.allOnes 64) = .ok () ∧
      constantExpressions m = [⟨[0x23, 0x00, 0x0b]⟩, ⟨[0x23, 0x00, 0x0b]⟩] ∧
      ((∀ e ∈ constantExpressions m, ReadsImmutable m e) ↔
        (∀ c ∈ checkedExpressions m, c.Unguarded m → AvoidsMutableImports m c.expr) ∧
          ∀ e ∈ importedInitialisers m, ReadsImmutable m e) := by
  refine ⟨?_, ?_, ?decoded, ?valid, ?expressions,
    constantExpressions_readImmutable_iff _ _ _ _ ?decoded _ ?valid⟩
  case decoded => rfl
  case valid => rfl
  case expressions => rfl

/-- The module imports a mutable global of type `i32` and has one data segment, whose offset is
`global.get 0`. -/
theorem data_offset_reads_mutable_global :
    ∃ m r, Binary.decodeModule ⟨CoreFeatures.mutableGlobal, 65536, false, false, false⟩
        [0x00, 0x61, 0x73, 0x6d, 0x01, 0x00, 0x00, 0x00,
          0x02, 0x08, 0x01, 0x01, 0x6d, 0x01, 0x67, 0x03, 0x7f, 0x01,
          0x05, 0x03, 0x01, 0x00, 0x01, 0x0b, 0x06, 0x01, 0x00, 0x23, 0x00, 0x0b, 0x00] = .ok m r ∧
      validate m CoreFeatures.mutableGlobal = .ok () ∧
      ∃ e ∈ constantExpressions m, ¬ ReadsImmutable m e := by
  refine ⟨_, _, rfl, rfl, ⟨[0x23, 0x00, 0x0b]⟩, by decide, fun himmutable => ?_⟩
  obtain ⟨g, hg, hmutable⟩ := himmutable 0 (by decide)
  cases hg
  cases hmutable

end Andsifr.Validation.Module
