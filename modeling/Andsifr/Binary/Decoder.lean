import Andsifr.Binary.Code

namespace Andsifr.Binary

open Lib Leb128 Wasm Parser

namespace SectionID

def custom : UInt8 := 0
def type : UInt8 := 1
def import_ : UInt8 := 2
def function : UInt8 := 3
def table : UInt8 := 4
def memory : UInt8 := 5
def global : UInt8 := 6
def export_ : UInt8 := 7
def start : UInt8 := 8
def element : UInt8 := 9
def code : UInt8 := 10
def data : UInt8 := 11
def dataCount : UInt8 := 12
def tag : UInt8 := 13

def name (id : UInt8) : String :=
  ["custom", "type", "import", "function", "table", "memory", "global", "export", "start",
    "element", "code", "data", "data_count", "tag"].getD id.toNat "unknown"

end SectionID

def magic : List UInt8 := [0x00, 0x61, 0x73, 0x6d]

def version : List UInt8 := [0x01, 0x00, 0x00, 0x00]

structure Config where
  features : CoreFeatures
  memoryLimitPages : Nat
  memoryCapacityFromMax : Bool
  dwarfEnabled : Bool
  storeCustomSections : Bool

def checkSectionOrder (current previous : UInt8) : UInt8 × Bool :=
  if current = SectionID.custom then (previous, true)
  else if current = SectionID.tag then (current, previous ≤ SectionID.memory)
  else if previous = SectionID.tag then (current, current ≥ SectionID.global)
  else if current > SectionID.dataCount then (current, false)
  else if current = SectionID.dataCount then (current, previous ≤ SectionID.element)
  else if previous = SectionID.dataCount then (current, current ≥ SectionID.code)
  else (current, current > previous)

variable (cfg : Config)

def Config.sizer : Nat → Option Nat → Nat × Nat × Nat :=
  memorySizer cfg.memoryLimitPages cfg.memoryCapacityFromMax

def wrapSection {α : Type} (id : UInt8) (x : Parser α) : Parser α :=
  x.mapErr (s!"section {SectionID.name id}: {·}")

/-- A custom section other than the name section: stored or skipped. -/
def decodeOtherCustom (m : Module) (name : String) (limit : Nat) : Parser Module :=
  if cfg.storeCustomSections || cfg.dwarfEnabled then do
    let c ← (decodeCustomSection name limit).mapErr
      (s!"failed to read custom section name[{name}]: {·}")
    return { m with customSections := m.customSections.concat c }
  else do
    (skip limit).mapErr (s!"failed to skip name[{name}]: {·}")
    return m

def decodeCustom (m : Module) (sectionSize : Nat) : Parser Module := do
  let (name, nameSize) ← wrapSection SectionID.custom (decodeUTF8 "custom section name")
  wrapSection SectionID.custom
    (require (nameSize ≤ sectionSize) s!"malformed custom section {name}")
  wrapSection SectionID.custom
    (require (name ≠ "name" || m.nameSection.isNone) s!"redundant custom section {name}")
  if name = "name" then
    let names ← wrapSection SectionID.custom (decodeNameSection (sectionSize - nameSize))
    return { m with nameSection := some names }
  else
    decodeOtherCustom cfg m name (sectionSize - nameSize)

/-- A section whose decoder's errors are wrapped with the section's name. -/
def decodeInto {α : Type} (id : UInt8) (x : Parser α) (set : α → Module) : Parser Module := do
  let a ← wrapSection id x
  return set a

/-- The body of the section loop's switch for the sections other than the code section. -/
def decodeContent (m : Module) (id : UInt8) (sectionSize : Nat) : Parser Module :=
  if id = SectionID.custom then
    decodeCustom cfg m sectionSize
  else if id = SectionID.type then
    decodeInto id (decodeTypeSection cfg.features) fun types => { m with typeSection := types }
  else if id = SectionID.import_ then do
    let s ← decodeImportSection cfg.sizer cfg.memoryLimitPages cfg.features
    return { m with
      importSection := s.all
      importPerModule := s.perModule
      importFunctionCount := s.funcCount
      importGlobalCount := s.globalCount
      importMemoryCount := s.memoryCount
      importTableCount := s.tableCount
      importTagCount := s.tagCount }
  else if id = SectionID.function then
    decodeInto id decodeFunctionSection fun types => { m with functionSection := types }
  else if id = SectionID.table then
    decodeInto id (decodeTableSection cfg.features) fun tables => { m with tableSection := tables }
  else if id = SectionID.memory then
    decodeInto id (decodeMemorySection cfg.features cfg.sizer cfg.memoryLimitPages)
      fun mem => { m with memorySection := mem }
  else if id = SectionID.tag then do
    requireEnabled cfg.features .exceptionHandling (s!"tag section not supported as {·}")
    decodeInto id decodeTagSection fun tags => { m with tagSection := tags }
  else if id = SectionID.global then do
    let globals ← decodeGlobalSection cfg.features
    return { m with globalSection := globals }
  else if id = SectionID.export_ then
    decodeInto id decodeExportSection fun exports => { m with exportSection := exports }
  else if id = SectionID.start then
    decodeInto id decodeStartSection fun index => { m with startSection := some index }
  else if id = SectionID.element then
    decodeInto id (decodeElementSection cfg.features)
      fun segments => { m with elementSection := segments }
  else if id = SectionID.data then
    decodeInto id (decodeDataSection cfg.features) fun segments =>
      { m with dataSection := segments }
  else if id = SectionID.dataCount then do
    requireEnabled cfg.features .bulkMemoryOperations (s!"data count section not supported as {·}")
    decodeInto id decodeDataCountSection fun count => { m with dataCountSection := some count }
  else
    wrapSection id (fail "invalid section id")

def decodeSwitch (m : Module) (id : UInt8) (sectionSize : Nat) : Parser Module :=
  if id = SectionID.code then
    decodeInto id decodeCodeSection fun codes => { m with codeSection := some codes }
  else
    decodeContent cfg m id sectionSize

/-- What the section loop carries from one section to the next. -/
structure DecodeState where
  module : Module := {}
  lastSectionID : UInt8 := 0

/-- The size of a section, read after its id, when the section may come here. -/
def decodeHeader (s : DecodeState) (id : UInt8) : Parser Nat := do
  let (sectionSize, _) ← decodeUint32.mapErr (s!"get size of section {SectionID.name id}: {·}")
  require (checkSectionOrder id s.lastSectionID).2 "invalid section order"
  return sectionSize

/-- One round of the section loop after the section id. -/
def decodeSection (s : DecodeState) (id : UInt8) : Parser DecodeState := do
  let sectionSize ← decodeHeader s id
  let start ← reader
  let m ← decodeSwitch cfg s.module id sectionSize
  let after ← reader
  wrapSection id (require ((sectionSize : Int) = start.len - after.len)
    (s!"invalid section length: expected to be {sectionSize} but got " ++
      s!"{(start.len - after.len : Int)}"))
  return ⟨m, (checkSectionOrder id s.lastSectionID).1⟩

def decodeSections (cfg : Config) : Nat → DecodeState → Parser DecodeState
  | 0, _ => outOfFuel
  | fuel + 1, s => do
    match ← readByteOrEOF with
    | none => return s
    | some id => do
      let s ← decodeSection cfg s id
      decodeSections cfg fuel s

def decodePreamble : Parser Unit := do
  let buf ← (readFull 4).mapErr fun _ => "invalid magic number"
  require (buf = magic) "invalid magic number"
  let buf ← (readFull 4).mapErr fun _ => "invalid version header"
  require (buf = version) "invalid version header"

/-- Every round of the section loop reads a section id, so the unread bytes bound the rounds. -/
def decodeModuleParser : Parser Module := do
  decodePreamble
  let r ← reader
  let s ← decodeSections cfg (r.len + 1) {}
  let functionCount := s.module.functionSection.length % 2 ^ 32
  let codeCount := (s.module.codeSection.getD []).length % 2 ^ 32
  require (functionCount = codeCount)
    s!"function and code section have inconsistent lengths: {functionCount} != {codeCount}"
  return s.module

def decodeModule (binary : List UInt8) : Result Module :=
  decodeModuleParser cfg ⟨binary, 0⟩

instance tame_wrapSection {α : Type} {x : Parser α} [x.Tame 0] (id : UInt8) :
    (wrapSection id x).Tame 0 := by
  unfold wrapSection
  infer_instance

instance tame_decodeInto {α : Type} {x : Parser α} [x.Tame 0] (id : UInt8) (set : α → Module) :
    (decodeInto id x set).Tame 0 := by
  unfold decodeInto
  infer_instance

instance tame_decodeCustom (m : Module) (sectionSize : Nat) :
    (decodeCustom cfg m sectionSize).Tame 0 := by
  unfold decodeCustom decodeOtherCustom
  infer_instance

instance tame_decodeContent (m : Module) (id : UInt8) (sectionSize : Nat) :
    (decodeContent cfg m id sectionSize).Tame 0 := by
  unfold decodeContent
  infer_instance

theorem moves_decodeSwitch (m : Module) (id : UInt8) (sectionSize : Nat) :
    (decodeSwitch cfg m id sectionSize).Moves 0 := by
  refine Moves.ite ?_ (tame_decodeContent cfg m id sectionSize).moves
  refine (Moves.mapErr ?_ _).bind fun _ => (tame_pure _).moves
  exact tame_reader.moves.bind fun _ => moves_decodeVector _ fun _ => (moves_decodeCode _).mapErr _

instance tame_decodeHeader (s : DecodeState) (id : UInt8) : (decodeHeader s id).Tame 0 := by
  unfold decodeHeader
  infer_instance

theorem moves_decodeSection (s : DecodeState) (id : UInt8) : (decodeSection cfg s id).Moves 0 :=
  (tame_decodeHeader s id).moves.bind fun _ => tame_reader.moves.bind fun _ =>
    (moves_decodeSwitch cfg _ id _).bind fun _ => tame_reader.moves.bind fun _ =>
    (tame_wrapSection id).moves.bind fun _ => (tame_pure _).moves

instance tame_decodePreamble : decodePreamble.Tame 0 := by
  unfold decodePreamble
  infer_instance

/-- The section loop, in the state `s` at `r`, decodes some sections and is then in the state `s'`
at `r'`. -/
inductive DecodesSections (cfg : Config) :
    DecodeState → Reader → DecodeState → Reader → Prop where
  | done (s : DecodeState) (r : Reader) : DecodesSections cfg s r s r
  | next {s s₁ s' : DecodeState} {r r₁ r₂ r' : Reader} {id : UInt8} (hid : readByte r = .ok id r₁)
      (hsection : decodeSection cfg s id r₁ = .ok s₁ r₂) (hrest : DecodesSections cfg s₁ r₂ s' r') :
      DecodesSections cfg s r s' r'

/-- Decoding the binary comes to a code entry at `entry`: the sections before the code section, its
header and the entries before this one are accepted. -/
def ReachesCodeEntry (binary : List UInt8) (entry : Reader) : Prop :=
  ∃ r₀ s r r₁ size r₂ vs r₃ j, decodePreamble ⟨binary, 0⟩ = .ok () r₀ ∧
    DecodesSections cfg {} r₀ s r ∧ readByte r = .ok SectionID.code r₁ ∧
    decodeHeader s SectionID.code r₁ = .ok size r₂ ∧ vectorSize r₂ = .ok vs r₃ ∧ vs ≤ r₃.len ∧
    Reads (fun _ => decodeCode r₂.len) 0 vs r₃ j entry

variable {r : Reader}

theorem reads_mapErr_iff {α : Type} {item : Nat → Parser α}
    {f : Nat → String → String} {i n j : Nat}
    {r' : Reader} :
    Reads (fun i => (item i).mapErr (f i)) i n r j r' ↔ Reads item i n r j r' := by
  constructor
  · intro h
    induction h with
    | here i n r => exact .here i n r
    | next ha _ ih => exact .next (mapErr_inv ha) ih
  · intro h
    induction h with
    | here i n r => exact .here i n r
    | next ha _ ih => exact .next (mapErr_eq_ok_iff.mpr ha) ih

theorem crashes_decodeCodeSection_iff :
    decodeCodeSection.Crashes r ↔ ∃ vs r₁ j entry, vectorSize r = .ok vs r₁ ∧ vs ≤ r₁.len ∧
      Reads (fun _ => decodeCode r.len) 0 vs r₁ j entry ∧ EndsInsideHeapType entry := by
  unfold decodeCodeSection
  rw [Tame.crashes_bind]
  simp only [reader_run, Result.ok.injEq]
  constructor
  · rintro ⟨_, _, ⟨rfl, rfl⟩, h⟩
    obtain ⟨vs, r₁, hvs, hle, j, entry, hreads, h⟩ := crashes_decodeVector_iff.mp h
    exact ⟨vs, r₁, j, entry, hvs, hle, reads_mapErr_iff.mp hreads,
      crashes_decodeCode_iff.mp (crashes_mapErr.mp h)⟩
  · rintro ⟨vs, r₁, j, entry, hvs, hle, hreads, h⟩
    exact ⟨r, r, ⟨rfl, rfl⟩, crashes_decodeVector_iff.mpr ⟨vs, r₁, hvs, hle, j, entry,
      reads_mapErr_iff.mpr hreads, crashes_mapErr.mpr (crashes_decodeCode_iff.mpr h)⟩⟩

variable {cfg : Config}

theorem crashes_decodeSwitch_iff {m : Module} {id : UInt8} {size : Nat} :
    (decodeSwitch cfg m id size).Crashes r ↔ id = SectionID.code ∧ decodeCodeSection.Crashes r := by
  unfold decodeSwitch
  split
  next h =>
    simp only [h, true_and, decodeInto, crashes_bind, wrapSection, crashes_mapErr]
    refine or_iff_left ?_
    rintro ⟨codes, r₁, -, hpure⟩
    exact (tame_pure _).safe r₁ hpure
  next h =>
    exact ⟨fun hc => absurd hc ((tame_decodeContent cfg m id size).safe r), fun hc => absurd hc.1 h⟩

theorem crashes_decodeSection_iff {s : DecodeState} {id : UInt8} :
    (decodeSection cfg s id).Crashes r ↔ ∃ size r₁, decodeHeader s id r = .ok size r₁ ∧
      id = SectionID.code ∧ decodeCodeSection.Crashes r₁ := by
  unfold decodeSection
  rw [Tame.crashes_bind]
  refine exists_congr fun size => exists_congr fun r₁ => and_congr_right fun _ => ?_
  rw [← crashes_decodeSwitch_iff, Tame.crashes_bind]
  constructor
  · rintro ⟨_, _, hreader, h⟩
    cases hreader
    rcases crashes_bind.mp h with h | ⟨m, r₂, -, h⟩
    · exact h
    · exact absurd h (Tame.safe 0 r₂)
  · exact fun h => ⟨r₁, r₁, rfl, crashes_bind.mpr (.inl h)⟩

/-- With more fuel than unread bytes, the section loop crashes only in a section it comes to. -/
theorem crashes_decodeSections_iff {fuel : Nat} {s : DecodeState} (hfuel : r.len < fuel) :
    (decodeSections cfg fuel s).Crashes r ↔ ∃ s' r' id r₁, DecodesSections cfg s r s' r' ∧
      readByte r' = .ok id r₁ ∧ (decodeSection cfg s' id).Crashes r₁ := by
  induction fuel generalizing s r with
  | zero => omega
  | succ fuel ih =>
    rw [decodeSections, Tame.crashes_bind]
    have hshrinks {id : UInt8} {s₁ : DecodeState} {r₁ r₂ : Reader} (hid : readByte r = .ok id r₁)
        (hs : decodeSection cfg s id r₁ = .ok s₁ r₂) : r₂.len < fuel := by
      have := readByte_len hid
      have := (moves_decodeSection cfg s id).len_le (.inl ⟨s₁, hs⟩)
      omega
    constructor
    · rintro ⟨b, r₁, hb, h⟩
      cases b with
      | none => exact absurd h ((tame_pure _).safe r₁)
      | some id =>
        have hid := readByteOrEOF_eq_ok hb
        rcases crashes_bind.mp h with h | ⟨s₁, r₂, hs, h⟩
        · exact ⟨s, r, id, r₁, .done s r, hid, h⟩
        · obtain ⟨s', r', id', r₁', hrest, hid', h⟩ := (ih (hshrinks hid hs)).mp h
          exact ⟨s', r', id', r₁', .next hid hs hrest, hid', h⟩
    · rintro ⟨s', r', id', r₁', hrest, hid', h⟩
      cases hrest with
      | done => exact ⟨some id', r₁', readByteOrEOF_of_readByte hid', crashes_bind.mpr (.inl h)⟩
      | @next _ s₁ _ _ r₁ r₂ _ id hid hs hrest =>
        refine ⟨some id, r₁, readByteOrEOF_of_readByte hid, crashes_bind.mpr (.inr ?_)⟩
        exact ⟨s₁, r₂, hs, (ih (hshrinks hid hs)).mpr ⟨s', r', id', r₁', hrest, hid', h⟩⟩

theorem crashes_decodeModuleParser_iff :
    (decodeModuleParser cfg).Crashes r ↔ ∃ r₀ s r' id r₁, decodePreamble r = .ok () r₀ ∧
      DecodesSections cfg {} r₀ s r' ∧ readByte r' = .ok id r₁ ∧
      (decodeSection cfg s id).Crashes r₁ := by
  unfold decodeModuleParser
  rw [Tame.crashes_bind]
  constructor
  · rintro ⟨⟨⟩, r₀, hpre, h⟩
    obtain ⟨_, _, hreader, h₁⟩ := Tame.crashes_bind.mp h
    cases hreader
    rcases crashes_bind.mp h₁ with h₂ | ⟨s, r₂, -, h₂⟩
    · obtain ⟨s, r', id, r₁, hrest⟩ := (crashes_decodeSections_iff (by omega)).mp h₂
      exact ⟨r₀, s, r', id, r₁, hpre, hrest⟩
    · exact absurd h₂ (Tame.safe 0 r₂)
  · rintro ⟨r₀, s, r', id, r₁, hpre, hrest⟩
    refine ⟨(), r₀, hpre, Tame.crashes_bind.mpr ⟨r₀, r₀, rfl, ?_⟩⟩
    exact crashes_bind.mpr (.inl ((crashes_decodeSections_iff (by omega)).mpr
      ⟨s, r', id, r₁, hrest⟩))

/-- `DecodeModule` returns a module or an error exactly when it comes to no code entry whose
declared size ends inside the heap type of its last local declaration. -/
theorem decodeModule_returns_iff (cfg : Config) (binary : List UInt8) :
    ((∃ m r, decodeModule cfg binary = .ok m r) ∨ ∃ e r, decodeModule cfg binary = .err e r) ↔
      ∀ entry, ReachesCodeEntry cfg binary entry → ¬ EndsInsideHeapType entry := by
  unfold decodeModule
  rw [← not_crashes_iff, crashes_decodeModuleParser_iff]
  simp only [crashes_decodeSection_iff, crashes_decodeCodeSection_iff]
  constructor
  · rintro h entry ⟨r₀, s, r, r₁, size, r₂, vs, r₃, j, hpre, hsections, hid, hheader, hvs,
      hle, hreads⟩
      hentry
    exact h ⟨r₀, s, r, _, r₁, hpre, hsections, hid, size, r₂, hheader, rfl, vs, r₃, j, entry,
      hvs, hle, hreads, hentry⟩
  · rintro h ⟨r₀, s, r, _, r₁, hpre, hsections, hid, size, r₂, hheader, rfl, vs, r₃, j, entry,
      hvs, hle, hreads, hentry⟩
    exact h entry ⟨r₀, s, r, r₁, size, r₂, vs, r₃, j, hpre, hsections, hid, hheader, hvs,
      hle, hreads⟩
      hentry

/-- A code section whose only entry has size 3 and one local of type `(ref null func)`: the size
covers the count, the number of locals and the prefix of the type, but not the heap type. -/
theorem decodeModule_panics_inside_heapType :
    decodeModule ⟨.bulkMemoryOperations, 65536, false, false, false⟩
      [0x00, 0x61, 0x73, 0x6d, 0x01, 0x00, 0x00, 0x00, 0x0a, 0x06, 0x01, 0x03, 0x01,
        0x01, 0x63, 0x70] =
      .crash (.panic "runtime error: makeslice: len out of range") := by
  rfl

end Andsifr.Binary
