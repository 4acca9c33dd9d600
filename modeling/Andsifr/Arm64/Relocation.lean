import Andsifr.Lib.Search
import Andsifr.Wazevo.Relocator

namespace Andsifr.Arm64

open Lib Wazevo

def maxSignedInt26 : Int := 2 ^ 25 - 1
def minSignedInt26 : Int := -2 ^ 25

/-- Four instructions and a 32-bit immediate. -/
def trampolineCallSize : Nat := 4 * 4 + 4

def maxUnconditionalBranchOffset : Int := maxSignedInt26 * 4
def minUnconditionalBranchOffset : Int := minSignedInt26 * 4

def trampolineIslandInterval : Nat := ((maxUnconditionalBranchOffset - 1) / 2).toNat
def maxNumFunctions : Nat := trampolineIslandInterval >>> 6
def maxFunctionExecutableSize : Nat := trampolineIslandInterval >>> 2

def callTrampolineIslandInfo (numFunctions : Nat) : Check (Nat × Nat) :=
  if numFunctions > maxNumFunctions then
    Check.fail s!"too many functions: {numFunctions} > {maxNumFunctions}"
  else pure (trampolineIslandInterval, trampolineCallSize * numFunctions)

/-! ## Encoders -/

def encodeAdr (rd offset : BitVec 32) : Check (BitVec 32) :=
  if offset.toNat ≥ 1 <<< 20 then Check.raise "BUG: too large adr instruction"
  else pure ((offset &&& 0b11#32) <<< 29 ||| 0b1#32 <<< 28 |||
    (offset &&& 0b11111111111111111100#32) <<< 3 ||| rd)

/-- `encodeLoadOrStore` of a signed 32-bit load with an unsigned immediate that is zero. -/
def encodeSLoad32 (rt rn : BitVec 32) : BitVec 32 :=
  0b1011100010#32 <<< 22 ||| 0b1#32 <<< 24 ||| 0#32 <<< 10 ||| rn <<< 5 ||| rt

/-- `encodeAluRRR` of a 64-bit addition of registers other than the stack pointer. -/
def encodeAdd64 (rd rn rm : BitVec 32) : BitVec 32 :=
  (0b00001011000#32 ||| 0b1#32 <<< 10) <<< 21 ||| rm <<< 16 ||| 0#32 <<< 10 ||| rn <<< 5 ||| rd

def encodeUnconditionalBranchReg (rn : BitVec 32) (link : Bool) : BitVec 32 :=
  let opc : BitVec 32 := if link then 0b0001 else 0
  0b1101011#32 <<< 25 ||| opc <<< 21 ||| 0b11111#32 <<< 16 ||| rn <<< 5

def encodeUnconditionalBranch (link : Bool) (imm26 : Int) : Check (BitVec 32) :=
  if imm26 % 4 ≠ 0 then Check.raise "imm26 for branch must be a multiple of 4"
  else
    let ret := BitVec.ofInt 32 (imm26 / 4) &&& 0b11111111111111111111111111#32
    let ret := ret ||| 0b101#32 <<< 26
    pure (if link then ret ||| 0b1#32 <<< 31 else ret)

/-! ## Relocation -/

/-- The registers `x27` and `x11`. -/
def tmpReg : BitVec 32 := 27
def tmpReg2 : BitVec 32 := 11

/-- `binary.LittleEndian.PutUint32(executable[lo:], w)`. -/
def putUint32 (executable : Slice UInt8) (lo : Nat) (w : BitVec 32) : Check (Slice UInt8) :=
  executable.putAt lo (leBytes 4 w.toNat)

/-- `binary.LittleEndian.PutUint32(executable[lo:lo+4], w)`. -/
def patchUint32 (executable : Slice UInt8) (lo : Nat) (w : BitVec 32) : Check (Slice UInt8) := do
  let t ← executable.slice lo (lo + 4)
  let _ ← t.index 3
  return executable.overwrite lo (leBytes 4 w.toNat)

/-- The distance from the immediate of a trampoline to its function. -/
def trampolineDiff (islandOffset i fnOffset : Nat) : Int :=
  (fnOffset : Int) - (islandOffset + trampolineCallSize * i + 16 : Nat)

def encodeTrampoline (islandOffset : Nat) (i : Nat) (executable : Slice UInt8) (fnOffset : Nat) :
    Check (Slice UInt8) := do
  let trampolineOffset := islandOffset + trampolineCallSize * i
  let diff := trampolineDiff islandOffset i fnOffset
  if diff > 2 ^ 31 - 1 ∨ diff < -2 ^ 31 then
    -- This case even amd64 can't handle. 4GB is too big.
    Check.raise "too big binary"
  else
    -- adr tmpReg, PC+16: load the address of #diff into tmpReg.
    let executable ← putUint32 executable trampolineOffset (← encodeAdr tmpReg 16)
    -- ldrsw tmpReg2, [tmpReg]: Load #diff into tmpReg2.
    let executable ← putUint32 executable (trampolineOffset + 4) (encodeSLoad32 tmpReg2 tmpReg)
    -- add tmpReg, tmpReg2, tmpReg: the absolute address of the function.
    let executable ← putUint32 executable (trampolineOffset + 8) (encodeAdd64 tmpReg tmpReg tmpReg2)
    -- br tmpReg: branch to the function without overwriting the link register.
    let executable ←
      putUint32 executable (trampolineOffset + 12) (encodeUnconditionalBranchReg tmpReg false)
    putUint32 executable (trampolineOffset + 16) (BitVec.ofInt 32 diff)

/-- The trampolines of the local functions. -/
def encodeCallTrampolineIsland (refToBinaryOffset : List Nat) (importedFns islandOffset : Nat)
    (executable : Slice UInt8) : Check (Slice UInt8) :=
  Check.fold (encodeTrampoline islandOffset) 0 executable (refToBinaryOffset.drop importedFns)

def searchTrampolineIsland (callTrampolineIslandOffsets : List Nat) (offset : Nat) : Check Nat :=
  let l := callTrampolineIslandOffsets.length
  let n := search l fun i => callTrampolineIslandOffsets[i]?.any (decide <| offset ≤ ·)
  Check.index callTrampolineIslandOffsets (if n = l then l - 1 else n)

def outOfBranchRange (diff : Int) : Bool :=
  diff < minUnconditionalBranchOffset ∨ diff > maxUnconditionalBranchOffset

/-- The distance from a call to its callee, or to the trampoline for it. -/
def branchDiff (refToBinaryOffset : List Nat) (importedFns : Nat)
    (callTrampolineIslandOffsets : List Nat)
    (r : RelocationInfo) : Check Int := do
  let calleeFnOffset ← Check.index refToBinaryOffset r.funcRef
  let diff := (calleeFnOffset : Int) - r.offset
  if outOfBranchRange diff then
    let islandOffset ← searchTrampolineIsland callTrampolineIslandOffsets r.offset
    let funcOffset := (r.funcRef : Int) - importedFns
    let islandTargetOffset := (islandOffset : Int) + trampolineCallSize * funcOffset
    let diff := islandTargetOffset - r.offset
    if outOfBranchRange diff then Check.raise "BUG in trampoline placement" else pure diff
  else pure diff

def resolveRelocation (refToBinaryOffset : List Nat) (importedFns : Nat)
    (callTrampolineIslandOffsets : List Nat) (executable : Slice UInt8) (r : RelocationInfo) :
    Check (Slice UInt8) := do
  let diff ← branchDiff refToBinaryOffset importedFns callTrampolineIslandOffsets r
  patchUint32 executable r.offset (← encodeUnconditionalBranch (!r.isTailCall) diff)

def resolveRelocations (refToBinaryOffset : List Nat) (importedFns : Nat) (executable : Slice UInt8)
    (relocations : List RelocationInfo) (callTrampolineIslandOffsets : List Nat) :
    Check (Slice UInt8) := do
  let executable ← Check.fold (fun _ executable islandOffset =>
    encodeCallTrampolineIsland refToBinaryOffset importedFns islandOffset executable) 0 executable
    callTrampolineIslandOffsets
  Check.fold (fun _ executable r =>
    resolveRelocation refToBinaryOffset importedFns callTrampolineIslandOffsets executable r) 0
    executable relocations

def linkerMachine : LinkerMachine := ⟨callTrampolineIslandInfo, resolveRelocations⟩

end Andsifr.Arm64
