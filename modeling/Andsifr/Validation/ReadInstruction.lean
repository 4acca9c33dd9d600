import Andsifr.Leb128
import Andsifr.Lib.Check
import Andsifr.Wasm.Instruction
import Andsifr.Wasm.InstructionName
import Andsifr.Wasm.Opcode

namespace Andsifr.Validation

open Lib Leb128 Wasm ValueType Parser

variable (wrap : String → String)

def readIndex : Parser Nat := do
  let (v, _) ← (sliced decodeUint32).mapErr wrap
  return v

def readImmediate : Parser Nat :=
  readIndex (s!"read immediate: {·}")

def readMemArg : Parser (Nat × Nat) := do
  let align ← readIndex (s!"read memory align: {·}")
  require (align < 32) "invalid memory alignment"
  let offset ← readIndex (s!"read memory offset: {·}")
  return (align, offset)

/-- A memory index, which is a reserved byte. -/
def readReserved (message : String) : Parser Unit := do
  let (val, num) ← (sliced decodeUint32).mapErr wrap
  require (val = 0 ∧ num = 1) message

variable (types : List FunctionType)

/-- The reference type with the given heap type in an inline block type. -/
def blockRefType (nullable : Bool) (ht : Int) : Check ValueType :=
  if ht = heapTypeExn then return ⟨exnref.kind, !nullable, none⟩
  else if ht = heapTypeFunc then return ⟨funcref.kind, !nullable, none⟩
  else if ht = heapTypeExtern then return ⟨externref.kind, !nullable, none⟩
  else if ht < 0 then Check.fail s!"unknown abstract heap type in block: {ht}"
  else if (types.length : Int) ≤ ht then Check.fail "unknown type"
  else return .concreteRef ht.toNat nullable

def decodeBlockRefType (nullable : Bool) : Parser BlockType := do
  let (ht, _) ← decodeInt33AsInt64.mapErr (s!"read ref heap type in block: {·}")
  let vt ← lift (blockRefType types nullable ht)
  return ⟨[], [vt]⟩

def blockTypeOfIndex (features : CoreFeatures) (raw : Int) :
    Check BlockType :=
  if features.isEnabled .multiValue then
    if raw < 0 ∨ (types.length : Int) ≤ raw then Check.fail s!"type index out of range: {raw}"
    else FunctionType.blockType <$> Check.index types raw.toNat
  else
    Check.fail s!"block with function type return invalid as {CoreFeatures.disabled .multiValue}"

def decodeBlockType (types : List FunctionType) (features : CoreFeatures) : Parser BlockType := do
  let (raw, _) ← decodeInt33AsInt64.mapErr (s!"decode int33: {·}")
  match raw with
  | -64 => return ⟨[], []⟩
  | -1 => return ⟨[], [.i32]⟩
  | -2 => return ⟨[], [.i64]⟩
  | -3 => return ⟨[], [.f32]⟩
  | -4 => return ⟨[], [.f64]⟩
  | -5 => return ⟨[], [.v128]⟩
  | -16 => return ⟨[], [.funcref]⟩
  | -17 => return ⟨[], [.externref]⟩
  | -23 => return ⟨[], [.exnref]⟩
  | -29 => decodeBlockRefType types true
  | -28 => decodeBlockRefType types false
  | _ => lift (blockTypeOfIndex types features raw)

def readBlockType (features : CoreFeatures) : Parser BlockType :=
  (sliced (decodeBlockType types features)).mapErr (s!"read block: {·}")

def readCatchClause : Parser CatchClause := do
  let catchKind ← readByte.mapErr fun _ => "unexpected end of function reading catch clause"
  if catchKind = 0x00 ∨ catchKind = 0x01 then do
    let tag ← readIndex (s!"read catch tag index: {·}")
    let label ← readIndex (s!"read catch label index: {·}")
    return if catchKind = 0x00 then .catchTag tag label else .catchRef tag label
  else if catchKind = 0x02 ∨ catchKind = 0x03 then do
    let label ← readIndex (s!"read catch_all label index: {·}")
    return if catchKind = 0x02 then .catchAll label else .catchAllRef label
  else
    fail s!"invalid catch kind: {hex catchKind.toNat}"

def readTryTable (features : CoreFeatures) : Parser Instruction := do
  let bt ← readBlockType types features
  let catchCount ← readIndex (s!"read catch count: {·}")
  let catches ← times catchCount fun _ => readCatchClause
  return .tryTable bt catches

def readBrTable : Parser Instruction := do
  let nl ← readImmediate
  let labels ← times nl fun _ => readImmediate
  let ln ← readImmediate
  return .brTable labels ln

def readCallIndirect (make : Index → Index → Instruction) : Parser Instruction := do
  let type ← readImmediate
  let table ← readIndex (s!"read table index: {·}")
  return make type table

/-- The heap type of `ref.null`, given its first byte. -/
def readNullType (features : CoreFeatures) (b : UInt8) :
    Parser Instruction :=
  if b = externref.kind ∨ b = funcref.kind ∨ b = exnref.kind then do
    let _ ← readByte
    return .refNull (.ofByte b)
  else do
    require (features.isEnabled .typedFunctionReferences)
      s!"ref.null with concrete type invalid as {CoreFeatures.disabled .typedFunctionReferences}"
    let typeIdx ← readIndex fun _ => s!"unknown type for ref.null: {hex b.toNat}"
    require (typeIdx < types.length)
      s!"unknown type for ref.null: type index {typeIdx} out of range"
    return .refNull (.concreteRef typeIdx true)

/-- The byte after `ref.null` is looked at before it is read. -/
def readRefNull (types : List FunctionType) (features : CoreFeatures) : Parser Instruction := do
  match ← peek with
  | none => raise "runtime error: index out of range"
  | some b => readNullType types features b

/-- The declared type of a typed `select` whose immediate starts with a reference prefix. -/
def selectRefType (nullable : Bool) (ht : Int) : Check ValueType :=
  if ht = heapTypeFunc then return ⟨funcref.kind, !nullable, none⟩
  else if ht = heapTypeExtern then return ⟨externref.kind, !nullable, none⟩
  else if ht = heapTypeExn then return ⟨exnref.kind, !nullable, none⟩
  else if ht < 0 then Check.fail s!"invalid heap type for typed_select: {ht}"
  else if (types.length : Int) ≤ ht then
    Check.fail s!"unknown type for typed_select: type index {ht} out of range"
  else return .concreteRef ht.toNat nullable

def readTypedSelect : Parser Instruction := do
  let numTypeImmediates ← indexByte
  require (numTypeImmediates = 1) "too many type immediates for typed_select"
  let b ← indexByte
  if b = refPrefixNullable ∨ b = refPrefixNonNullable then do
    let (ht, _) ← (sliced decodeInt33AsInt64).mapErr (s!"read heap type for typed_select: {·}")
    let declared ← lift (selectRefType types (b = refPrefixNullable) ht)
    return .typedSelect declared
  else do
    let tp := ofByte b
    require ([i32, .i64, .f32, .f64, .externref, .funcref, .v128].contains tp)
      s!"invalid type {tp.name} for typed_select"
    return .typedSelect tp

def readMemoryInit : Parser Instruction := do
  let data ← readIndex (s!"failed to read data segment index for memory.init: {·}")
  readReserved (s!"failed to read memory index for memory.init: {·}")
    "memory.init reserved byte must be zero encoded with 1 byte"
  return .memoryInit data

def readMemoryCopy : Parser Instruction := do
  readReserved (s!"failed to read memory index for memory.copy: {·}")
    "memory.copy reserved byte must be zero encoded with 1 byte"
  readReserved (s!"failed to read memory index for memory.copy: {·}")
    "memory.copy reserved byte must be zero encoded with 1 byte"
  return .memoryCopy

def readMisc : Parser Instruction := do
  let op ← readIndex (s!"failed to read misc opcode: {·}")
  match op with
  | 0x00 | 0x01 | 0x02 | 0x03 | 0x04 | 0x05 | 0x06 | 0x07 => return .truncSat (UInt8.ofNat op)
  | 0x08 => readMemoryInit
  | 0x09 => .dataDrop <$> readIndex (s!"failed to read data segment index for data.drop: {·}")
  | 0x0a => readMemoryCopy
  | 0x0b => do
    readReserved (s!"failed to read memory index for memory.fill: {·}")
      "memory.fill reserved byte must be zero encoded with 1 byte"
    return .memoryFill
  | 0x0c => do
    let element ← readIndex (s!"failed to read element segment index for table.init: {·}")
    let table ← readIndex (s!"failed to read source table index for table.init: {·}")
    return .tableInit element table
  | 0x0d => .elemDrop <$> readIndex (s!"failed to read element segment index for elem.drop: {·}")
  | 0x0e => do
    let dst ← readIndex (s!"failed to read destination table index for table.copy: {·}")
    let src ← readIndex (s!"failed to read source table index for table.copy: {·}")
    return .tableCopy dst src
  | 0x0f => .tableGrow <$> readIndex (s!"failed to read table index for table.grow: {·}")
  | 0x10 => .tableSize <$> readIndex (s!"failed to read table index for table.size: {·}")
  | 0x11 => .tableFill <$> readIndex (s!"failed to read table index for table.fill: {·}")
  | op =>
    if op < 256 then fail s!"unknown misc opcode {hex op}"
    else fail s!"invalid misc opcode: {hex op}"

def readVec : Parser Instruction := do
  let op ← indexByte
  if op = Opcode.vecV128Const then do
    let _ ← (readFull 16).mapErr fun _ => "cannot read constant vector value for v128.const"
    return .v128Const
  else if (findClass vecMemoryClasses op).isSome then do
    let (align, offset) ← readMemArg
    return .vecMemory op align offset none
  else if (findClass vecMemoryLaneClasses op).isSome then do
    let (align, offset) ← readMemArg
    -- the loads of every width are reported as `v128.load64_lane`
    let lane ← readByte.mapErr fun _ =>
      s!"lane for {vectorInstructionName (if op < 0x58 then 0x57 else op)} not found"
    return .vecMemory op align offset (some lane)
  else if (findClass vecLaneClasses op).isSome then do
    let lane ← readByte.mapErr fun _ => s!"lane for {vectorInstructionName op} not found"
    return .vecLane op lane
  else if op = 0x0d then do
    let lanes ← (readFull 16).mapErr fun _ => "16 lane indexes for v128.shuffle not found"
    return .vecShuffle lanes
  else
    return .vec op

def readAtomic : Parser Instruction := do
  let op ← indexByte
  if op = 0x03 then do
    let imm ← indexByte
    require (imm = 0x00) "invalid immediate value for atomic.fence"
    return .atomicFence
  else do
    let (align, offset) ← readMemArg
    return .atomic op align offset

def readInstruction (types : List FunctionType) (features : CoreFeatures) (op : UInt8) :
    Parser Instruction :=
  match op.toNat with
  | 0x00 => return .unreachable
  | 0x01 => return .nop
  | 0x02 => .block <$> readBlockType types features
  | 0x03 => .loop <$> readBlockType types features
  | 0x04 => .ifOp <$> readBlockType types features
  | 0x05 => return .elseOp
  | 0x08 => .throw <$> readImmediate
  | 0x0a => return .throwRef
  | 0x0b => return .endOp
  | 0x0c => .br <$> readImmediate
  | 0x0d => .brIf <$> readImmediate
  | 0x0e => readBrTable
  | 0x0f => return .returnOp
  | 0x10 => .call <$> readImmediate
  | 0x11 => readCallIndirect .callIndirect
  | 0x12 => .returnCall <$> readImmediate
  | 0x13 => readCallIndirect .returnCallIndirect
  | 0x14 => .callRef <$> readImmediate
  | 0x15 => .returnCallRef <$> readImmediate
  | 0x1a => return .drop
  | 0x1b => return .select
  | 0x1c => readTypedSelect types
  | 0x1f => readTryTable types features
  | 0x20 => .localGet <$> readImmediate
  | 0x21 => .localSet <$> readImmediate
  | 0x22 => .localTee <$> readImmediate
  | 0x23 => .globalGet <$> readImmediate
  | 0x24 => .globalSet <$> readImmediate
  | 0x25 => .tableGet <$> readImmediate
  | 0x26 => .tableSet <$> readImmediate
  | 0x3f => do
    readReserved (s!"read immediate: {·}") "memory instruction reserved bytes not zero with 1 byte"
    return .memorySize
  | 0x40 => do
    readReserved (s!"read immediate: {·}") "memory instruction reserved bytes not zero with 1 byte"
    return .memoryGrow
  | 0x41 => do
    let _ ← (sliced decodeInt32).mapErr (s!"read i32 immediate: {·}")
    return .const op
  | 0x42 => do
    let _ ← (sliced decodeInt64).mapErr (s!"read i64 immediate: {·}")
    return .const op
  -- the floating-point constants are skipped without looking at them, if need be past the end
  | 0x43 => do
    jump 4
    return .const op
  | 0x44 => do
    jump 8
    return .const op
  | 0xd0 => readRefNull types features
  | 0xd1 => return .refIsNull
  | 0xd2 => .refFunc <$> readIndex (s!"failed to read function index for ref.func: {·}")
  | 0xd4 => return .refAsNonNull
  | 0xd5 => .brOnNull <$> readImmediate
  | 0xd6 => .brOnNonNull <$> readImmediate
  | 0xfc => readMisc
  | 0xfd => readVec
  | 0xfe => readAtomic
  | n =>
    if 0x28 ≤ n ∧ n ≤ 0x3e then do
      let (align, offset) ← readMemArg
      return .memory op align offset
    else if 0x45 ≤ n ∧ n ≤ 0xc4 then
      return .numeric op
    else if features.isEnabled .exceptionHandling ∧ n ∈ [0x06, 0x07, 0x09, 0x18, 0x19] then
      fail (s!"legacy exception handling instruction {hex n} not supported; recompile with " ++
        "wasm-opt --translate-to-exnref")
    else
      fail s!"invalid instruction {hex n}"

/-- Reading at a position before the last byte of a body, which is `end`, does not panic. -/
def Follows {α : Type} (x : Parser α) : Prop :=
  ∀ r : Reader, r.bytes.getLast? = some Opcode.opEnd → r.pos < r.bytes.length →
    ¬ x.Crashes r ∧ ∀ a r', x r = .ok a r' → r'.bytes = r.bytes ∧ r.pos ≤ r'.pos

variable {α : Type}

theorem Follows.of_fits {x : Parser α} (hx : x.Fits) : Follows x := by
  intro r _ hr
  refine ⟨hx.returns r (by omega), fun a r' h => ?_⟩
  obtain ⟨hbytes, hpos, -⟩ := hx.inside r a r' (by omega) h
  exact ⟨hbytes, hpos⟩

theorem Follows.ite {p : Prop} [Decidable p] {x y : Parser α} (hx : Follows x)
    (hy : Follows y) : Follows (if p then x else y) := by
  split
  · exact hx
  · exact hy

theorem lt_of_ne_end {bytes : List UInt8} (hclosed : bytes.getLast? = some Opcode.opEnd) {i : Nat}
    {b : UInt8} (hb : bytes[i]? = some b) (hend : b ≠ Opcode.opEnd) : i + 1 < bytes.length := by
  have hlt := (List.getElem?_eq_some_iff.mp hb).1
  by_contra hge
  rw [List.getLast?_eq_getElem?, show bytes.length - 1 = i by omega, hb] at hclosed
  exact hend (Option.some.inj hclosed)

theorem Follows.indexByte_bind {f : UInt8 → Parser α} (hf : ∀ b, (f b).Fits) :
    Follows (indexByte >>= f) := by
  intro r _ hr
  constructor
  · intro h
    rcases crashes_bind.mp h with h | ⟨b, r₁, hb, h⟩
    · have := crashes_indexByte.mp h
      omega
    · obtain ⟨-, rfl⟩ := indexByte_eq_ok_iff.mp hb
      exact (hf b).returns (r.advance 1) hr h
  · intro a r' h
    obtain ⟨b, r₁, hb, h⟩ := bind_inv h
    obtain ⟨-, rfl⟩ := indexByte_eq_ok_iff.mp hb
    obtain ⟨hbytes, hpos, -⟩ := (hf b).inside (r.advance 1) a r' hr h
    exact ⟨hbytes, by simp only [Reader.advance_pos] at hpos; omega⟩

/-- Two index expressions: the first byte is checked against a value other than `end`. -/
theorem Follows.indexByte_bind_of_ne {f : UInt8 → Parser α}
    (hne : ∀ b, b ≠ Opcode.opEnd → Follows (f b)) (hend : (f Opcode.opEnd).Fits) :
    Follows (indexByte >>= f) := by
  intro r hclosed hr
  have hstep : ∀ b, r.bytes[r.pos]? = some b → ¬ (f b).Crashes (r.advance 1) ∧
        ∀ a r', f b (r.advance 1) = .ok a r' → r'.bytes = r.bytes ∧ r.pos ≤ r'.pos := by
    intro b hb
    have hmoves : ∀ r' : Reader, r'.bytes = (r.advance 1).bytes ∧ (r.advance 1).pos ≤ r'.pos →
        r'.bytes = r.bytes ∧ r.pos ≤ r'.pos := by
      rintro r' ⟨hbytes, hpos⟩
      exact ⟨hbytes, by simp only [Reader.advance_pos] at hpos; omega⟩
    by_cases hb' : b = Opcode.opEnd
    · subst hb'
      refine ⟨hend.returns (r.advance 1) hr, fun a r' h => hmoves r' ?_⟩
      obtain ⟨hbytes, hpos, -⟩ := hend.inside (r.advance 1) a r' hr h
      exact ⟨hbytes, hpos⟩
    · obtain ⟨hsafe, hok⟩ := hne b hb' (r.advance 1) hclosed (lt_of_ne_end hclosed hb hb')
      exact ⟨hsafe, fun a r' h => hmoves r' (hok a r' h)⟩
  constructor
  · intro h
    rcases crashes_bind.mp h with h | ⟨b, r₁, hb, h⟩
    · have := crashes_indexByte.mp h
      omega
    · obtain ⟨hbyte, rfl⟩ := indexByte_eq_ok_iff.mp hb
      exact (hstep b hbyte).1 h
  · intro a r' h
    obtain ⟨b, r₁, hb, h⟩ := bind_inv h
    obtain ⟨hbyte, rfl⟩ := indexByte_eq_ok_iff.mp hb
    exact (hstep b hbyte).2 a r' h

theorem Follows.peek_bind {f : Option UInt8 → Parser α} (hf : ∀ b, (f (some b)).Fits) :
    Follows (peek >>= f) := by
  intro r hclosed hr
  have hrun : (peek >>= f) r = f (some r.bytes[r.pos]) r := by
    rw [bind_run, peek, List.getElem?_eq_getElem hr]
  have := Follows.of_fits (hf r.bytes[r.pos]) r hclosed hr
  rwa [Crashes, ← hrun] at this

theorem Follows.require_bind {f : Unit → Parser α} (hf : Follows (f ())) (holds : Bool)
    (m : String) : Follows (require holds m >>= f) := by
  cases holds
  · exact .of_fits (fits_fail m)
  · exact hf

instance fits_readIndex : (readIndex wrap).Fits := by
  unfold readIndex
  infer_instance

instance fits_readImmediate : readImmediate.Fits :=
  fits_readIndex _

instance fits_readMemArg : readMemArg.Fits := by
  unfold readMemArg
  infer_instance

instance fits_readReserved (m : String) : (readReserved wrap m).Fits := by
  unfold readReserved
  infer_instance

theorem returns_blockRefType (nullable : Bool) (ht : Int) :
    Check.Returns (blockRefType types nullable ht) := by
  unfold blockRefType
  split_ifs
  all_goals first | exact Check.returns_pure _ | exact Check.returns_fail _

theorem returns_selectRefType (nullable : Bool) (ht : Int) :
    Check.Returns (selectRefType types nullable ht) := by
  unfold selectRefType
  split_ifs
  all_goals first | exact Check.returns_pure _ | exact Check.returns_fail _

theorem returns_blockTypeOfIndex (features : CoreFeatures) (raw : Int) :
    Check.Returns (blockTypeOfIndex types features raw) := by
  unfold blockTypeOfIndex
  split_ifs with hfeature hrange
  · exact Check.returns_fail _
  · rw [Check.index_of_lt (by omega)]
    exact Check.returns_ok _
  · exact Check.returns_fail _

instance fits_decodeBlockType (features : CoreFeatures) :
    (decodeBlockType types features).Fits := by
  have href (nullable : Bool) (ht : Int) := fits_lift (returns_blockRefType types nullable ht)
  have hindex (raw : Int) := fits_lift (returns_blockTypeOfIndex types features raw)
  unfold decodeBlockType decodeBlockRefType
  refine Fits.bind inferInstance fun raw => ?_
  split
  split <;> infer_instance

instance fits_readBlockType (features : CoreFeatures) :
    (readBlockType types features).Fits := by
  unfold readBlockType
  infer_instance

instance fits_readCatchClause : readCatchClause.Fits := by
  unfold readCatchClause
  infer_instance

instance fits_readTryTable (features : CoreFeatures) :
    (readTryTable types features).Fits := by
  unfold readTryTable
  infer_instance

instance fits_readBrTable : readBrTable.Fits := by
  unfold readBrTable
  infer_instance

instance fits_readCallIndirect (make : Index → Index → Instruction) :
    (readCallIndirect make).Fits := by
  unfold readCallIndirect
  infer_instance

instance fits_readMisc : readMisc.Fits := by
  unfold readMisc readMemoryInit readMemoryCopy
  refine Fits.bind inferInstance fun op => ?_
  split <;> infer_instance

instance fits_readNullType (features : CoreFeatures) (b : UInt8) :
    (readNullType types features b).Fits := by
  unfold readNullType
  infer_instance

theorem follows_readRefNull (features : CoreFeatures) : Follows (readRefNull types features) :=
  Follows.peek_bind fun b => fits_readNullType types features b

theorem follows_readTypedSelect : Follows (readTypedSelect types) := by
  have hlift (nullable : Bool) (ht : Int) := fits_lift (returns_selectRefType types nullable ht)
  refine Follows.indexByte_bind_of_ne (fun b _ => ?_) (fits_fail _)
  exact Follows.require_bind (Follows.indexByte_bind fun b => inferInstance) _ _

theorem follows_readVec : Follows readVec :=
  Follows.indexByte_bind fun _ => inferInstance

theorem follows_readAtomic : Follows readAtomic := by
  refine Follows.indexByte_bind_of_ne (fun op _ => ?_) (inferInstanceAs (Fits (do
    let (align, offset) ← readMemArg
    return Instruction.atomic Opcode.opEnd align offset)))
  exact Follows.ite (Follows.indexByte_bind fun imm => inferInstance) (.of_fits inferInstance)

theorem follows_jump (n : Nat) (instr : Instruction) :
    Follows (do jump n; return instr : Parser Instruction) := by
  intro r _ _
  constructor
  · rintro ⟨c, h⟩
    cases h
  · rintro a r' ⟨⟩
    exact ⟨rfl, by simp⟩

/-- The immediates of every instruction but the last `end` are read without a panic. -/
theorem follows_readInstruction (features : CoreFeatures) (op : UInt8) :
    Follows (readInstruction types features op) := by
  unfold readInstruction decodeInt32 decodeInt64
  split
  all_goals first
    | exact .of_fits inferInstance
    | exact follows_jump _ _
    | exact follows_readTypedSelect _
    | exact follows_readRefNull _ _
    | exact follows_readVec
    | exact follows_readAtomic

end Andsifr.Validation
