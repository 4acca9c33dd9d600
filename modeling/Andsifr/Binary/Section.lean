import Andsifr.Binary.Entity

namespace Andsifr.Binary

open Lib Leb128 Wasm Parser

def vectorSize : Parser Nat := do
  let (vs, _) ← decodeUint32.mapErr (s!"get size of vector: {·}")
  return vs

/-- A vector whose count is checked against the remaining bytes before it is allocated. -/
def decodeVector {α : Type} (what : String) (item : Nat → Parser α) : Parser (List α) := do
  let vs ← vectorSize
  ensureVectorCountFits vs what
  times vs item

/-- The first concrete reference whose type index is not below `maxTypeIndex`, with its position. -/
def firstForwardRef (types : List ValueType) (maxTypeIndex : Nat) : Option (Nat × Index) :=
  types.zipIdx.findSome? fun (vt, i) =>
    if vt.isConcreteRef && maxTypeIndex ≤ vt.typeIndex then some (i, vt.typeIndex) else none

def validateTypeForwardRefs (ft : FunctionType) (maxTypeIndex : Nat) : Parser Unit :=
  match firstForwardRef ft.params maxTypeIndex, firstForwardRef ft.results maxTypeIndex with
  | some (i, t), _ => fail s!"unknown type index {t} in param[{i}]"
  | none, some (i, t) => fail s!"unknown type index {t} in result[{i}]"
  | none, none => pure ()

variable (features : CoreFeatures)

def decodeRecGroupMember (recCount j : Nat)
    (result : List FunctionType) : Parser (List FunctionType) := do
  let ft ← (decodeFunctionType features).mapErr (s!"read {j}-th type in rec group: {·}")
  return result.concat { ft with recGroupSize := recCount, recGroupPosition := j }

/-- The check of `result[startIdx+j]`, with the index computed as a `uint32`. -/
def checkRecGroupMember (result : List FunctionType) (startIdx recCount j : Nat) : Parser Unit :=
  match result[(startIdx + j) % 2 ^ 32]? with
  | none => raise "runtime error: index out of range"
  | some ft => validateTypeForwardRefs ft ((startIdx + recCount) % 2 ^ 32)

def decodeRecGroup (result : List FunctionType) :
    Parser (List FunctionType) := do
  let (recCount, _) ← decodeUint32.mapErr (s!"read rec group count: {·}")
  let startIdx := result.length % 2 ^ 32
  let result ← iterate (decodeRecGroupMember features recCount) 0 recCount result
  iterate (fun j _ => checkRecGroupMember result startIdx recCount j) 0 recCount ()
  return result

def decodeType (i : Nat) (result : List FunctionType) :
    Parser (List FunctionType) := do
  let b ← readByte.mapErr (s!"read {i}-th type: {·}")
  if b = 0x4e then
    decodeRecGroup features result
  else
    unreadByte
    let ft ← (decodeFunctionType features).mapErr (s!"read {i}-th type: {·}")
    validateTypeForwardRefs ft (result.length % 2 ^ 32)
    return result.concat ft

def decodeTypeSection : Parser (List FunctionType) := do
  let vs ← vectorSize
  iterate (decodeType features) 0 vs []

/-- The imports so far, by position and by module, with the count of each extern type. -/
structure Imports where
  all : List Import := []
  perModule : List (String × List Import) := []
  funcCount : Nat := 0
  globalCount : Nat := 0
  memoryCount : Nat := 0
  tableCount : Nat := 0
  tagCount : Nat := 0

namespace Imports

def insertPerModule (imp : Import) : List (String × List Import) → List (String × List Import)
  | [] => [(imp.module, [imp])]
  | (key, imports) :: rest =>
    if key = imp.module then (key, imports.concat imp) :: rest
    else (key, imports) :: insertPerModule imp rest

def push (s : Imports) (module name : String) (desc : ImportDesc) (indexPerType : Nat) : Imports :=
  let imp : Import := ⟨module, name, desc, indexPerType⟩
  { s with all := s.all.concat imp, perModule := insertPerModule imp s.perModule }

def add (s : Imports) (module name : String) : ImportDesc → Imports
  | .func t => { s.push module name (.func t) s.funcCount with funcCount := s.funcCount + 1 }
  | .global t =>
    { s.push module name (.global t) s.globalCount with globalCount := s.globalCount + 1 }
  | .memory t =>
    { s.push module name (.memory t) s.memoryCount with memoryCount := s.memoryCount + 1 }
  | .table t => { s.push module name (.table t) s.tableCount with tableCount := s.tableCount + 1 }
  | .tag t => { s.push module name (.tag t) s.tagCount with tagCount := s.tagCount + 1 }

end Imports

def decodeImportSection (sizer : Nat → Option Nat → Nat × Nat × Nat) (limitPages : Nat)
    (features : CoreFeatures) : Parser Imports := do
  let vs ← vectorSize
  ensureVectorCountFits vs "import"
  iterate (fun i s => do
    let (module, name, desc) ← decodeImport i sizer limitPages features
    return s.add module name desc) 0 vs {}

def decodeFunctionSection : Parser (List Index) :=
  decodeVector "function" fun _ => do
    let (index, _) ← decodeUint32.mapErr (s!"get type index: {·}")
    return index

def decodeTableSection : Parser (List Table) := do
  let (vs, _) ← decodeUint32.mapErr fun _ => "error reading size"
  require (vs ≤ 1 || features.isEnabled .referenceTypes)
    s!"at most one table allowed in module as {CoreFeatures.referenceTypes.disabled}"
  ensureVectorCountFits vs "table"
  times vs fun _ => decodeTable features

def decodeMemorySection (sizer : Nat → Option Nat → Nat × Nat × Nat)
    (limitPages : Nat) : Parser (Option Memory) := do
  let (vs, _) ← decodeUint32.mapErr fun _ => "error reading size"
  require (vs ≤ 1) s!"at most one memory allowed in module, but read {vs}"
  if vs = 0 then
    return none
  else
    let mem ← decodeMemory features sizer limitPages
    return some mem

def decodeGlobalSection : Parser (List Global) :=
  decodeVector "global" fun i => (decodeGlobal features).mapErr (s!"global[{i}]: {·}")

def decodeExportSection : Parser (List Export) := do
  let vs ← vectorSize
  ensureVectorCountFits vs "export"
  iterate (fun i exports => do
    let exp ← decodeExport.mapErr (s!"read export: {·}")
    require (!exports.any (·.name == exp.name)) s!"export[{i}] duplicates name \"{exp.name}\""
    return exports.concat exp) 0 vs []

def decodeStartSection : Parser Index := do
  let (vs, _) ← decodeUint32.mapErr (s!"get function index: {·}")
  return vs

def decodeElementSection : Parser (List ElementSegment) :=
  decodeVector "element" fun _ => (decodeElementSegment features).mapErr (s!"read element: {·}")

def decodeDataSection : Parser (List DataSegment) :=
  decodeVector "data" fun _ => (decodeDataSegment features).mapErr (s!"read data segment: {·}")

def decodeTag (i : Nat) : Parser Index := do
  let attr ← readByte.mapErr (s!"read tag[{i}] attribute: {·}")
  require (attr = 0x00) s!"tag[{i}] has invalid attribute: {hex attr.toNat}"
  let (type, _) ← decodeUint32.mapErr (s!"read tag[{i}] type index: {·}")
  return type

def decodeTagSection : Parser (List Index) :=
  decodeVector "tag" decodeTag

/-- The data count is optional, so that the end of the input counts as zero. -/
def decodeDataCountSection : Parser Nat := do
  let (v, _) ← decodeUint32.recoverEOF (0, 0)
  return v

def decodeCustomSection (name : String) (limit : Nat) : Parser CustomSection := do
  let buf ← read limit
  return ⟨name, buf ++ List.replicate (limit - buf.length) 0⟩

def decodeFunctionNames : Parser (List NameAssoc) := do
  let (functionCount, _) ← decodeUint32.mapErr
    (s!"failed to read the function count of subsection[1]: {·}")
  times functionCount fun _ => do
    let (functionIndex, _) ← decodeUint32.mapErr
      (s!"failed to read a function index in subsection[1]: {·}")
    let (name, _) ← decodeUTF8 s!"function[{functionIndex}] name"
    return ⟨functionIndex, name⟩

def decodeLocalName (functionIndex : Index) : Parser NameAssoc := do
  let (localIndex, _) ← decodeUint32.mapErr
    (s!"failed to read a local index of function[{functionIndex}]: {·}")
  let (name, _) ← decodeUTF8 s!"function[{functionIndex}] local[{localIndex}] name"
  return ⟨localIndex, name⟩

def decodeLocalNames : Parser (List NameMapAssoc) := do
  let (functionCount, _) ← decodeUint32.mapErr
    (s!"failed to read the function count of subsection[2]: {·}")
  times functionCount fun _ => do
    let (functionIndex, _) ← decodeUint32.mapErr
      (s!"failed to read a function index in subsection[2]: {·}")
    let (localCount, _) ← decodeUint32.mapErr
      (s!"failed to read the local count for function[{functionIndex}]: {·}")
    let locals ← times localCount fun _ => decodeLocalName functionIndex
    return ⟨functionIndex, locals⟩

def decodeNameSubsection (result : NameSection) (subsectionID : UInt8) (subsectionSize : Nat) :
    Parser NameSection :=
  if subsectionID = 0 then do
    let (moduleName, _) ← decodeUTF8 "module name"
    return { result with moduleName }
  else if subsectionID = 1 then do
    let functionNames ← decodeFunctionNames
    return { result with functionNames }
  else if subsectionID = 2 then do
    let localNames ← decodeLocalNames
    return { result with localNames }
  else do
    (skip subsectionSize).mapErr (s!"failed to skip subsection[{subsectionID}]: {·}")
    return result

def sub64 (a b : Nat) : Nat :=
  (a + 2 ^ 64 - b) % 2 ^ 64

def decodeNameSectionLoop : (fuel limit : Nat) → NameSection → Parser NameSection
  | 0, _, _ => outOfFuel
  | fuel + 1, limit, result =>
    if limit = 0 then
      return result
    else do
      match ← readByteOrEOF with
      | none => return result
      | some subsectionID => do
        let (subsectionSize, bytesRead) ← decodeUint32.mapErr
          (s!"failed to read the size of subsection[{subsectionID}]: {·}")
        let result ← decodeNameSubsection result subsectionID subsectionSize
        decodeNameSectionLoop fuel (sub64 (sub64 (limit - 1) bytesRead) subsectionSize) result

/-- Every round reads a subsection id, so the unread bytes bound the rounds. -/
def decodeNameSection (limit : Nat) : Parser NameSection := do
  let r ← reader
  decodeNameSectionLoop (r.len + 1) limit {}

instance tame_vectorSize : vectorSize.Tame 0 := by
  unfold vectorSize
  infer_instance

instance tame_decodeVector {α : Type} (what : String) {item : Nat → Parser α}
    [∀ i, (item i).Tame 0] :
    (decodeVector what item).Tame 0 := by
  unfold decodeVector
  infer_instance

theorem moves_decodeVector {α : Type} (what : String) {item : Nat → Parser α}
    (hitem : ∀ i, (item i).Moves 0) : (decodeVector what item).Moves 0 :=
  tame_vectorSize.moves.bind fun _ => (tame_ensureVectorCountFits _ _).moves.bind fun _ =>
    moves_times hitem _

theorem crashes_decodeVector_iff {α : Type} {what : String} {item : Nat → Parser α} {r : Reader} :
    (decodeVector what item).Crashes r ↔ ∃ vs r₁, vectorSize r = .ok vs r₁ ∧ vs ≤ r₁.len ∧
      ∃ j r', Reads item 0 vs r₁ j r' ∧ (item j).Crashes r' := by
  unfold decodeVector
  rw [Tame.crashes_bind]
  refine exists_congr fun vs => exists_congr fun r₁ => and_congr_right fun _ => ?_
  rw [← crashes_times_iff, Tame.crashes_bind]
  constructor
  · rintro ⟨u, r₂, hfits, h⟩
    obtain ⟨_, _, hreader, hreq⟩ := bind_inv hfits
    cases hreader
    obtain ⟨hle, rfl⟩ := require_eq_ok_iff.mp hreq
    exact ⟨of_decide_eq_true hle, h⟩
  · rintro ⟨hle, h⟩
    exact ⟨(), r₁, bind_eq_ok_iff.mpr ⟨_, _, rfl, require_eq_ok_iff.mpr
      ⟨decide_eq_true hle, rfl⟩⟩, h⟩

instance tame_validateTypeForwardRefs (ft : FunctionType) (maxTypeIndex : Nat) :
    (validateTypeForwardRefs ft maxTypeIndex).Tame 0 := by
  unfold validateTypeForwardRefs
  split <;> infer_instance

instance tame_decodeRecGroupMember (recCount j : Nat)
    (result : List FunctionType) : (decodeRecGroupMember features recCount j result).Tame 0 := by
  unfold decodeRecGroupMember
  infer_instance

theorem length_of_decodeRecGroupMember {features : CoreFeatures} {recCount : Nat}
    {result result' : List FunctionType} {r r' : Reader}
    (h : iterate (decodeRecGroupMember features recCount) 0 recCount result r = .ok result' r') :
    result'.length = result.length + recCount := by
  have := iterate_invariant (P := fun i s _ => s.length = result.length + i)
    (fun i s r s' r' hs hstep => ?_) rfl h
  · simpa using this
  · obtain ⟨ft, r₁, -, hstep⟩ := bind_inv hstep
    cases hstep
    simp only [List.length_concat, hs]
    omega

theorem tame_checkRecGroup {result : List FunctionType} {n recCount : Nat}
    (hlength : result.length = n + recCount) (hrec : recCount < 2 ^ 32) :
    (iterate (fun j (_ : Unit) => checkRecGroupMember result (n % 2 ^ 32) recCount j) 0 recCount
      ()).Tame 0 := by
  suffices ∀ k j, j + k ≤ recCount →
      (iterate (fun j (_ : Unit) => checkRecGroupMember result (n % 2 ^ 32) recCount j) j k
        ()).Tame 0
    from this recCount 0 (by omega)
  intro k
  induction k with
  | zero => exact fun j _ => tame_pure _
  | succ k ih =>
    intro j hj
    refine Tame.bind ?_ fun _ => ih (j + 1) (by omega)
    have hlt : (n % 2 ^ 32 + j) % 2 ^ 32 < result.length := by omega
    simp only [checkRecGroupMember, List.getElem?_eq_getElem hlt]
    exact tame_validateTypeForwardRefs _ _

instance tame_decodeRecGroup (result : List FunctionType) :
    (decodeRecGroup features result).Tame 0 := by
  have hmembers (recCount : Nat) :
      (iterate (decodeRecGroupMember features recCount) 0 recCount result).Tame 0 := inferInstance
  have hcheck (startIdx recCount : Nat) (result : List FunctionType) :
      (iterate (fun j (_ : Unit) => checkRecGroupMember result startIdx recCount j) 0 recCount
        ()).Moves 0 := by
    refine moves_iterate (fun j _ => ?_) _ _ _
    unfold checkRecGroupMember
    split
    · exact moves_crash _
    · exact (tame_validateTypeForwardRefs _ _).moves
  refine ⟨fun r h => ?_, ?_⟩
  · rcases crashes_bind.mp h with h | ⟨⟨recCount, k⟩, r₁, hr₁, h⟩
    · exact (tame_decodeUint32.mapErr _).safe r h
    have hrec := decodeUint32_lt (mapErr_inv hr₁)
    rcases crashes_bind.mp h with h | ⟨result', r₂, hr₂, h⟩
    · exact (hmembers recCount).safe r₁ h
    have hlength := length_of_decodeRecGroupMember hr₂
    exact ((tame_checkRecGroup hlength hrec).bind fun _ => tame_pure _).safe r₂ h
  · exact (tame_decodeUint32.mapErr _).moves.bind fun ⟨recCount, _⟩ =>
      (hmembers recCount).moves.bind
      fun _ => (hcheck _ _ _).bind fun _ => (tame_pure _).moves

instance tame_decodeType (i : Nat) (result : List FunctionType) :
    (decodeType features i result).Tame 0 := by
  refine Tame.readByte_bind fun b => Tame.ite ((tame_decodeRecGroup features result).mono
    (by omega)) ?_
  exact tame_unreadByte.bind_add (k := 0) fun _ => inferInstance

instance tame_decodeTypeSection : (decodeTypeSection features).Tame 0 := by
  unfold decodeTypeSection
  infer_instance

instance tame_decodeImportSection (sizer : Nat → Option Nat → Nat × Nat × Nat) (limitPages : Nat)
    (features : CoreFeatures) : (decodeImportSection sizer limitPages features).Tame 0 := by
  unfold decodeImportSection
  infer_instance

instance tame_decodeFunctionSection : decodeFunctionSection.Tame 0 := by
  unfold decodeFunctionSection
  infer_instance

instance tame_decodeTableSection : (decodeTableSection features).Tame 0 := by
  unfold decodeTableSection
  infer_instance

instance tame_decodeMemorySection
    (sizer : Nat → Option Nat → Nat × Nat × Nat) (limitPages : Nat) :
    (decodeMemorySection features sizer limitPages).Tame 0 := by
  unfold decodeMemorySection
  infer_instance

instance tame_decodeGlobalSection : (decodeGlobalSection features).Tame 0 := by
  unfold decodeGlobalSection
  infer_instance

instance tame_decodeExportSection : decodeExportSection.Tame 0 := by
  unfold decodeExportSection
  infer_instance

instance tame_decodeStartSection : decodeStartSection.Tame 0 := by
  unfold decodeStartSection
  infer_instance

instance tame_decodeElementSection :
    (decodeElementSection features).Tame 0 := by
  unfold decodeElementSection
  infer_instance

instance tame_decodeDataSection : (decodeDataSection features).Tame 0 := by
  unfold decodeDataSection
  infer_instance

instance tame_decodeTagSection : decodeTagSection.Tame 0 := by
  unfold decodeTagSection decodeTag
  infer_instance

instance tame_decodeDataCountSection : decodeDataCountSection.Tame 0 := by
  unfold decodeDataCountSection
  infer_instance

instance tame_decodeCustomSection (name : String) (limit : Nat) :
    (decodeCustomSection name limit).Tame 0 := by
  unfold decodeCustomSection
  infer_instance

instance tame_decodeNameSubsection (result : NameSection) (subsectionID : UInt8)
    (subsectionSize : Nat) : (decodeNameSubsection result subsectionID subsectionSize).Tame 0 := by
  unfold decodeNameSubsection decodeFunctionNames decodeLocalNames decodeLocalName
  infer_instance

theorem moves_decodeNameSectionLoop (fuel limit : Nat) (result : NameSection) :
    (decodeNameSectionLoop fuel limit result).Moves 0 := by
  induction fuel generalizing limit result with
  | zero => exact moves_outOfFuel
  | succ fuel ih =>
    refine Moves.ite (tame_pure _).moves (tame_readByteOrEOF.moves.bind fun b => ?_)
    cases b with
    | none => exact (tame_pure _).moves
    | some subsectionID =>
      exact (tame_decodeUint32.mapErr _).moves.bind fun _ =>
        (tame_decodeNameSubsection _ _ _).moves.bind fun _ => ih _ _

theorem not_crashes_decodeNameSectionLoop (fuel limit : Nat) (result : NameSection) (r : Reader)
    (hfuel : r.len < fuel) : ¬ (decodeNameSectionLoop fuel limit result).Crashes r := by
  induction fuel generalizing limit result r with
  | zero => omega
  | succ fuel ih =>
    intro h
    rw [decodeNameSectionLoop] at h
    split at h
    · exact (tame_pure _).safe r h
    rcases crashes_bind.mp h with h | ⟨b, r₁, hb, h⟩
    · exact tame_readByteOrEOF.safe r h
    cases b with
    | none => exact (tame_pure _).safe r₁ h
    | some subsectionID =>
      have hlen₁ := readByte_len (readByteOrEOF_eq_ok hb)
      have hsize := tame_decodeUint32.mapErr
        (s!"failed to read the size of subsection[{subsectionID}]: {·}")
      rcases crashes_bind.mp h with h | ⟨⟨size, n⟩, r₂, hr₂, h⟩
      · exact hsize.safe r₁ h
      have hlen₂ := hsize.moves.len_le (.inl ⟨_, hr₂⟩)
      rcases crashes_bind.mp h with h | ⟨result', r₃, hr₃, h⟩
      · exact (tame_decodeNameSubsection _ _ _).safe r₂ h
      have hlen₃ := (tame_decodeNameSubsection _ _ _).moves.len_le (.inl ⟨_, hr₃⟩)
      exact ih _ result' r₃ (by omega) h

instance tame_decodeNameSection (limit : Nat) : (decodeNameSection limit).Tame 0 := by
  refine ⟨fun r h => ?_, tame_reader.moves.bind fun r => moves_decodeNameSectionLoop _ _ _⟩
  rcases crashes_bind.mp h with h | ⟨_, _, hreader, h⟩
  · exact tame_reader.safe r h
  cases hreader
  exact not_crashes_decodeNameSectionLoop _ _ _ r (by omega) h

end Andsifr.Binary
