import Andsifr.Lib.Slice

namespace Andsifr.Wazevo

open Lib

/-- A call instruction whose target is not known yet. -/
structure RelocationInfo where
  offset : Nat
  funcRef : Nat
  isTailCall : Bool
  deriving DecidableEq, Repr

/-- The machine code of a function, with the calls relative to its start. -/
structure FunctionCode where
  body : List UInt8
  rels : List RelocationInfo
  deriving DecidableEq, Repr

/-- What the engine needs of a backend to link the functions of a module. -/
structure LinkerMachine where
  callTrampolineIslandInfo : (numFunctions : Nat) → Check (Nat × Nat)
  resolveRelocations : (refToBinaryOffset : List Nat) → (importedFns : Nat) → Slice UInt8 →
    List RelocationInfo → (callTrampolineIslandOffsets : List Nat) → Check (Slice UInt8)

/-- The relocator, with the offsets of the functions of the compiled module. -/
structure EngineRelocator where
  bodies : List (List UInt8)
  functionOffsets : List Nat
  refToBinaryOffset : List Nat
  rels : List RelocationInfo
  totalSize : Nat
  trampolineInterval : Nat
  callTrampolineIslandSize : Nat
  callTrampolineIslandOffsets : List Nat
  deriving DecidableEq, Repr

def newEngineRelocator (machine : LinkerMachine) (importedFns localFns : Nat) :
    Check EngineRelocator := do
  let (interval, size) ← machine.callTrampolineIslandInfo localFns
  return {
    bodies := []
    functionOffsets := List.replicate localFns 0
    refToBinaryOffset := List.replicate (importedFns + localFns) 0
    rels := []
    totalSize := 0
    trampolineInterval := interval
    callTrampolineIslandSize := size
    callTrampolineIslandOffsets := [] }

/-- Align 16-bytes boundary. -/
def align16 (n : Nat) : Nat :=
  (n + 15) / 16 * 16

namespace EngineRelocator

/-- An island after the function, if the total size has passed one more interval. -/
def addIsland (r : EngineRelocator) : EngineRelocator :=
  if r.callTrampolineIslandSize > 0 ∧
      r.totalSize / r.trampolineInterval > r.callTrampolineIslandOffsets.length then
    { r with
      callTrampolineIslandOffsets := r.callTrampolineIslandOffsets ++ [r.totalSize]
      totalSize := r.totalSize + r.callTrampolineIslandSize }
  else r

/-- The function is placed at the next boundary, and its calls are taken relative to the
executable. -/
def placeFunction (r : EngineRelocator) (fnum fidx : Nat) (f : FunctionCode) : EngineRelocator :=
  let offset := align16 r.totalSize
  { r with
    functionOffsets := r.functionOffsets.set fnum offset
    refToBinaryOffset := r.refToBinaryOffset.set fidx offset
    rels := r.rels ++ f.rels.map fun rel => { rel with offset := rel.offset + offset }
    totalSize := offset + f.body.length
    bodies := r.bodies ++ [f.body] }

def appendFunction (r : EngineRelocator) (fnum fidx : Nat) (f : FunctionCode) : EngineRelocator :=
  (r.placeFunction fnum fidx f).addIsland

def appendFunctions (importedFns : Nat) :
    (i : Nat) → EngineRelocator → List FunctionCode → EngineRelocator
  | _, r, [] => r
  | i, r, f :: fs => appendFunctions importedFns (i + 1) (r.appendFunction i (i + importedFns) f) fs

def copyBodies (r : EngineRelocator) (executable : Slice UInt8) : Check (Slice UInt8) :=
  Check.fold (fun i executable body => do
    let offset ← Check.index r.functionOffsets i
    executable.copyAt offset body) 0 executable r.bodies

def resolve (r : EngineRelocator) (machine : LinkerMachine) (executable : Slice UInt8)
    (importedFns : Nat) : Check (Slice UInt8) :=
  if r.rels.length > 0 then
    machine.resolveRelocations r.refToBinaryOffset importedFns executable r.rels
      r.callTrampolineIslandOffsets
  else pure executable

end EngineRelocator

def mmapCodeSegment (size : Nat) : Check (Slice UInt8) :=
  if size = 0 then Check.raise "BUG: MmapCodeSegment with zero length"
  else pure (.ofList (List.replicate size 0))

/-- The part of `compileModule` after the functions have been compiled. -/
def linkModule (machine : LinkerMachine) (importedFns : Nat) (functions : List FunctionCode) :
    Check (EngineRelocator × Slice UInt8) := do
  let relocator ← newEngineRelocator machine importedFns functions.length
  let relocator := relocator.appendFunctions importedFns 0 functions
  let executable ← mmapCodeSegment relocator.totalSize
  let executable ← relocator.copyBodies executable
  let executable ← relocator.resolve machine executable importedFns
  return (relocator, executable)

end Andsifr.Wazevo
