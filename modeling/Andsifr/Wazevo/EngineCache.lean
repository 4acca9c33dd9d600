import Andsifr.Lib.Check
import Andsifr.Lib.LittleEndian

namespace Andsifr.Wazevo

open Lib Parser

structure SourceMap where
  executableOffsets : List UInt64 := []
  wasmBinaryOffsets : List UInt64 := []
  deriving DecidableEq, Repr

structure CatchClauseInstance where
  kind : UInt8
  tagIndex : UInt32
  deriving DecidableEq, Repr

structure TryTableInfo where
  catchClauses : List CatchClauseInstance
  numLocals : Nat
  reuseLocals : Bool
  deriving DecidableEq, Repr

/-- A compiled module as far as the cache stores it. `executableAddr` is the address of the first
byte of the executable; the executable offsets of the source map are absolute addresses. -/
structure CompiledModule where
  functionOffsets : List Int64
  executable : List UInt8
  executableAddr : UInt64
  sourceMap : SourceMap
  tryTableInfo : List TryTableInfo
  deriving DecidableEq, Repr

/-- The system calls that map a code segment of the given size, at the address that is returned, and
make it executable. -/
structure Platform where
  mmapCodeSegment : Int64 → Except String UInt64
  mprotectCodeSegment : UInt64 → Except String Unit

/-- The remainder of a byte in the Castagnoli polynomial. -/
def crcByte : (bits : Nat) → UInt32 → UInt32
  | 0, crc => crc
  | bits + 1, crc => crcByte bits (if crc &&& 1 = 1 then (crc >>> 1) ^^^ 0x82f63b78 else crc >>> 1)

def checksum (bytes : List UInt8) : UInt32 :=
  ~~~ bytes.foldl (fun crc b => crcByte 8 (crc ^^^ b.toUInt32)) (~~~ 0)

def magic : List UInt8 := [87, 65, 90, 69, 86, 79]

def maxCachedFunctions : Nat := 2 ^ 24

/-- The entries of the source map, by the index of the loop. -/
def serializeEntries (addr : UInt64) : (wasmBinaryOffsets executableOffsets : List UInt64) →
    Check (List UInt8)
  | [], _ => return []
  | _ :: _, [] => Check.raise "runtime error: index out of range"
  | w :: ws, e :: es => do
    let rest ← serializeEntries addr ws es
    return leBytes 8 w.toNat ++ leBytes 8 (e - addr).toNat ++ rest

def serializeSourceMap (cm : CompiledModule) : Check (List UInt8) :=
  if 0 < cm.sourceMap.executableOffsets.length then do
    let _ ← Check.index cm.executable 0
    let entries ← serializeEntries cm.executableAddr cm.sourceMap.wasmBinaryOffsets
      cm.sourceMap.executableOffsets
    return 1 :: (leBytes 8 cm.sourceMap.wasmBinaryOffsets.length ++ entries)
  else return [0]

def CatchClauseInstance.serialize (c : CatchClauseInstance) : List UInt8 :=
  c.kind :: leBytes 4 c.tagIndex.toNat

def TryTableInfo.serialize (info : TryTableInfo) : List UInt8 :=
  leBytes 4 info.numLocals ++ ((if info.reuseLocals then 1 else 0) ::
    (leBytes 4 info.catchClauses.length ++ info.catchClauses.flatMap CatchClauseInstance.serialize))

def serializeHeader (version : List UInt8) (cm : CompiledModule) : List UInt8 :=
  magic ++ .ofNat version.length :: (version ++ leBytes 4 cm.functionOffsets.length)

def serializeExecutable (cm : CompiledModule) : List UInt8 :=
  leBytes 8 cm.executable.length ++ (cm.executable ++ leBytes 4 (checksum cm.executable).toNat)

def serializeCompiledModule (version : List UInt8) (cm : CompiledModule) : Check (List UInt8) := do
  let sourceMap ← serializeSourceMap cm
  return serializeHeader version cm ++
    (cm.functionOffsets.flatMap (fun offset => leBytes 8 offset.toUInt64.toNat) ++
      (serializeExecutable cm ++ (sourceMap ++ (leBytes 4 cm.tryTableInfo.length ++
        cm.tryTableInfo.flatMap TryTableInfo.serialize))))

def readUint64 : Parser UInt64 := do
  let s ← read 8
  if s.length < 8 then fail "EOF" else return .ofNat (leNat s)

def asText (bytes : List UInt8) : String :=
  String.ofList (bytes.map fun b => Char.ofNat b.toNat)

def checkFunctionsNum (functionsNum : Nat) : Check (Option Nat) := do
  Check.require (functionsNum ≤ maxCachedFunctions)
    s!"compilationcache: invalid function count {functionsNum}"
  return some functionsNum

/-- The number of functions, or nothing if the entry was written by another version. -/
def checkVersion (version header : List UInt8) (versionSize : Nat) : Check (Option Nat) :=
  if magic.length + 1 + versionSize ≥ header.length then return none
  else if (header.drop (magic.length + 1)).take versionSize ≠ version then return none
  else checkFunctionsNum (leNat (header.drop (header.length - 4)))

def checkHeader (version header : List UInt8) : Check (Option Nat) := do
  Check.require (header.length = magic.length + 1 + version.length + 4)
    s!"compilationcache: invalid header length: {header.length}"
  Check.require (header.take magic.length = magic)
    (s!"compilationcache: invalid magic number: got {asText magic} but want " ++
      s!"{asText (header.take magic.length)}")
  let versionSize ← Check.index header magic.length
  checkVersion version header versionSize.toNat

def readHeader (version : List UInt8) : Parser (Option Nat) := do
  let header ← (read (magic.length + 1 + version.length + 4)).mapErr fun e =>
    s!"compilationcache: error reading header: {e}"
  lift (checkHeader version header)

def readFunctionOffset (i : Nat) : Parser Int64 := do
  let offset ← readUint64.mapErr fun e =>
    s!"compilationcache: error reading func[{i}] executable offset: {e}"
  return offset.toInt64

def Platform.mapCode (p : Platform) (executableLen : UInt64) : Check UInt64 :=
  match p.mmapCodeSegment executableLen.toInt64 with
  | .ok addr => pure addr
  | .error e =>
    Check.fail s!"compilationcache: error mmapping executable (len={executableLen}): {e}"

def Platform.protectCode (p : Platform) (addr : UInt64) : Check Unit :=
  match p.mprotectCodeSegment addr with
  | .ok u => pure u
  | .error e => Check.fail e

/-- The executable and the address that it is mapped at. -/
def readExecutable (p : Platform) : Parser (UInt64 × List UInt8) := do
  let executableLen ← readUint64.mapErr fun e =>
    s!"compilationcache: error reading executable size: {e}"
  if executableLen > 0 then do
    let addr ← lift (p.mapCode executableLen)
    let executable ← (readFull executableLen.toNat).mapErr fun e =>
      s!"compilationcache: error reading executable (len={executableLen}): {e}"
    let stored ← (readFull 4).mapErr fun e => s!"compilationcache: could not read checksum: {e}"
    require ((checksum executable).toNat = leNat stored)
      s!"compilationcache: checksum mismatch (expected {checksum executable}, got {leNat stored})"
    lift (p.protectCode addr)
    return (addr, executable)
  else return (0, [])

def readSourceMapEntry (addr : UInt64) (i : Nat) : Parser (UInt64 × UInt64) := do
  let wasmBinaryOffset ← readUint64.mapErr fun e =>
    s!"compilationcache: error reading source map[{i}] wasm binary offset: {e}"
  let executableRelativeOffset ← readUint64.mapErr fun e =>
    s!"compilationcache: error reading source map[{i}] executable offset: {e}"
  return (wasmBinaryOffset, executableRelativeOffset + addr)

def readSourceMap (addr : UInt64) (executable : List UInt8) : Parser SourceMap := do
  let presence ← (readFull 1).mapErr fun e =>
    s!"compilationcache: error reading source map presence: {e}"
  if presence = [1] then do
    let sourceMapLen ← readUint64.mapErr fun e =>
      s!"compilationcache: error reading source map length: {e}"
    let _ ← lift (Check.index executable 0)
    let entries ← times sourceMapLen.toNat (readSourceMapEntry addr)
    return ⟨entries.map Prod.snd, entries.map Prod.fst⟩
  else return {}

def readCatchClause (i j : Nat) : Parser CatchClauseInstance := do
  let b ← (readFull 5).mapErr fun e =>
    s!"compilationcache: error reading catch clause[{i}][{j}]: {e}"
  return ⟨b.headD 0, .ofNat (leNat b.tail)⟩

def readTryTableInfo (i : Nat) : Parser TryTableInfo := do
  let b ← (readFull 5).mapErr fun e =>
    s!"compilationcache: error reading try_table[{i}] header: {e}"
  let numLocals := leNat (b.take 4)
  let reuseLocals := b.getD 4 0 ≠ 0
  let count ← (readFull 4).mapErr fun e =>
    s!"compilationcache: error reading catch clause count for try_table[{i}]: {e}"
  let clauses ← times (leNat count) (readCatchClause i)
  return ⟨clauses, numLocals, reuseLocals⟩

/-- The function offsets, the address of the executable and the executable. -/
def readCode (p : Platform) (version : List UInt8) :
    Parser (Option (List Int64 × UInt64 × List UInt8)) := do
  match ← readHeader version with
  | none => return none
  | some functionsNum =>
    let functionOffsets ← times functionsNum readFunctionOffset
    let executable ← readExecutable p
    return some (functionOffsets, executable)

/-- The try-table info, or nothing if the entry ends before it. -/
def readTryTables : Parser (Option (List TryTableInfo)) := do
  match ← attempt (readFull 4) with
  | none => return none
  | some tableLen =>
    let tryTableInfo ← times (leNat tableLen) readTryTableInfo
    return some tryTableInfo

/-- The module, or nothing if the entry is stale. -/
def deserializeCompiledModule (p : Platform) (version : List UInt8) :
    Parser (Option CompiledModule) := do
  match ← readCode p version with
  | none => return none
  | some (functionOffsets, addr, executable) =>
    let sourceMap ← readSourceMap addr executable
    let tryTables ← readTryTables
    return tryTables.map (⟨functionOffsets, executable, addr, sourceMap, ·⟩)

end Andsifr.Wazevo
