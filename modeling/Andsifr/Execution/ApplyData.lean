import Andsifr.Execution.Instantiation
import Andsifr.Wasm.ConstReferences
import Andsifr.Wasm.MemoryInstance

namespace Andsifr.Execution

open Lib Wasm

/-- The SHA-256 of the binary of a module and of how it is compiled. -/
abbrev ModuleID := List UInt8

/-- The memory that an allocator backs. It may declare that the contents it gives include the active
data segments of a module. -/
structure LinearMemory where
  reallocate : Nat → Slice UInt8
  preappliedDataFor : Option (ModuleID → Bool) := none

/-- The capacity and the maximum are in bytes. -/
abbrev MemoryAllocator := (cap max : Nat) → LinearMemory

/-- A memory with what its allocator gave, if there was one. -/
structure AllocatedMemory extends MemoryInstance where
  min : Nat
  expBuffer : Option LinearMemory := none

def memoryPagesToBytesNum (pages : Nat) : Nat :=
  pages <<< 16

def memoryBytesNumToPages (bytesNum : Nat) : UInt32 :=
  .ofNat (bytesNum >>> 16)

/-- `make([]byte, len, cap)`. -/
def makeBytes (len cap : Nat) : Check (Slice UInt8) :=
  if h : len ≤ cap then return ⟨List.replicate cap 0, len, by rwa [List.length_replicate]⟩
  else Check.raise "runtime error: makeslice: cap out of range"

theorem memoryPagesToBytesNum_eq (n : Nat) : memoryPagesToBytesNum n = n * 65536 :=
  Nat.shiftLeft_eq n 16

theorem memoryPagesToBytesNum_le {n k : Nat} (h : n ≤ k) :
    memoryPagesToBytesNum n ≤ memoryPagesToBytesNum k := by
  rw [memoryPagesToBytesNum_eq, memoryPagesToBytesNum_eq]
  exact Nat.mul_le_mul_right _ h

theorem makeBytes_eq_ok {len cap : Nat} (h : len ≤ cap) :
    ∃ b, makeBytes len cap = .ok b ∧ b.len = len ∧ b.array = List.replicate cap 0 :=
  ⟨_, dif_pos h, rfl, rfl⟩

def AllocatedMemory.ofBuffer (memSec : Memory) (buffer : Slice UInt8)
    (expBuffer : Option LinearMemory) : AllocatedMemory where
  buffer := buffer
  min := memSec.min
  cap := memoryBytesNumToPages buffer.array.length
  max := .ofNat memSec.max
  shared := memSec.isShared
  expBuffer := expBuffer

def newMemoryInstance (memSec : Memory) (allocator : Option MemoryAllocator) :
    Check AllocatedMemory :=
  let minBytes := memoryPagesToBytesNum memSec.min
  let capBytes := memoryPagesToBytesNum memSec.cap
  let maxBytes := memoryPagesToBytesNum memSec.max
  match allocator with
  | some allocate => do
    let expBuffer := allocate capBytes maxBytes
    let buffer := expBuffer.reallocate minBytes
    let _ ← buffer.slice 0 minBytes
    return .ofBuffer memSec buffer (some expBuffer)
  | none => do
    let buffer ← makeBytes minBytes (if memSec.isShared then maxBytes else capBytes)
    return .ofBuffer memSec buffer none

/-- A module without a memory of its own has the one that it imports, if any. -/
def buildMemory (m : Module) (imported : Option AllocatedMemory)
    (allocator : Option MemoryAllocator) :
    Check (Option AllocatedMemory) :=
  match m.memorySection with
  | some memSec => do
    let memory ← newMemoryInstance memSec allocator
    return some memory
  | none => return imported

/-- An error gives no value. -/
def evaluateConstExprInModuleInstance (e : ConstantExpression)
    (globals : List (Option GlobalInstance))
    (functions : List Nat) : Check (List Nat) :=
  match (evaluateConstExpr e (instanceResolvers globals functions)).1 with
  | .ok (v, _) => return v
  | .error (.err _) => return []
  | .error (.crash c) => .error (.crash c)

/-- The conversion of a `uint64` to an `int`, and the sum of two of these. -/
def toInt (v : Int) : Int :=
  Int.bmod v (2 ^ 64)

/-- What a module instance has when the data segments are applied. -/
structure DataContext where
  source : Module
  id : ModuleID
  willRunStartFunctions : Bool
  globals : List GlobalInstance
  functions : List Nat

structure DataState where
  memory : Option AllocatedMemory
  dataInstances : List (List UInt8)

def hasImportDependentDataOffsets (data : List DataSegment) : Bool :=
  data.any fun d => !d.passive && constExprReferencesGlobal d.offsetExpression

def dataOffset (c : DataContext) (d : DataSegment) : Check Int := do
  let results ← evaluateConstExprInModuleInstance d.offsetExpression
    (c.globals.map some) c.functions
  let result ← Check.index results 0
  return toInt result

def dataOutOfBounds (i : Nat) : String :=
  s!"data[{i}]: out of bounds memory access"

inductive AfterSegment where
  | next (s : DataState)
  | done (s : DataState) (error : String)

/-- What is done with an active segment, of which the data instance is already set. -/
def applyActive (c : DataContext) (skipCopy : Bool) (i : Nat) (d : DataSegment) (s : DataState) :
    Check AfterSegment := do
  let offset ← dataOffset c d
  if offset < 0 then return .done s (dataOutOfBounds i)
  else
    match s.memory with
    | none => Check.raise "runtime error: invalid memory address or nil pointer dereference"
    | some memory =>
      if memory.buffer.len < toInt (offset + d.init.length) then
        return .done s (dataOutOfBounds i)
      else if skipCopy then return .next s
      else do
        let buffer ← memory.buffer.copyAt offset.toNat d.init
        return .next { s with memory := some { memory with buffer } }

/-- The loop of `applyData` from the segment `i` on, with the error it ends with. -/
def applySegments (c : DataContext) (skipCopy : Bool) :
    (i : Nat) → List DataSegment → DataState → Check (DataState × Option String)
  | _, [], s => return (s, none)
  | i, d :: data, s =>
    let s := { s with dataInstances := s.dataInstances.set i d.init }
    if d.passive then applySegments c skipCopy (i + 1) data s
    else do
      match ← applyActive c skipCopy i d s with
      | .next s => applySegments c skipCopy (i + 1) data s
      | .done s error => return (s, some error)

def clear (s : Slice UInt8) : Slice UInt8 :=
  s.overwrite 0 (List.replicate s.len 0)

/-- Whether an image that the allocator declares is used, if there is one. -/
def usesImage (c : DataContext) (memory : AllocatedMemory) : Option Bool :=
  match memory.expBuffer.bind (·.preappliedDataFor) with
  | some preappliedDataFor =>
    if !memory.shared ∧ c.source.importMemoryCount = 0 then
      some (!hasImportDependentDataOffsets c.source.dataSection && c.source.startSection.isNone &&
        !c.willRunStartFunctions && preappliedDataFor c.id)
    else none
  | none => none

/-- An image that is refused is cleared. -/
def applyData (c : DataContext) (memory : Option AllocatedMemory) :
    Check (DataState × Option String) :=
  let dataInstances := List.replicate c.source.dataSection.length []
  match memory.bind (usesImage c) with
  | some true => applySegments c true 0 c.source.dataSection { memory, dataInstances }
  | some false =>
    let memory := memory.map fun memory => { memory with buffer := clear memory.buffer }
    applySegments c false 0 c.source.dataSection { memory, dataInstances }
  | none => applySegments c false 0 c.source.dataSection { memory, dataInstances }

/-- What is visible of the state: the contents of the memory, the data instances and the error. -/
structure DataOutcome where
  contents : Option (List UInt8)
  dataInstances : List (List UInt8)
  error : Option String
  deriving DecidableEq, Repr

def DataState.outcome (s : DataState) (error : Option String) : DataOutcome :=
  ⟨s.memory.map (·.buffer.toList), s.dataInstances, error⟩

/-- What becomes of the data segments of a module, with the memory that it imports and the allocator
of its own. -/
def dataOutcome (c : DataContext) (imported : Option AllocatedMemory)
    (allocator : Option MemoryAllocator) : Check DataOutcome := do
  let memory ← buildMemory c.source imported allocator
  let (s, error) ← applyData c memory
  return s.outcome error

end Andsifr.Execution
