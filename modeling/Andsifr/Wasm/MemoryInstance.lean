import Andsifr.Lib.Slice

namespace Andsifr.Wasm

open Lib

/-- A linear memory; `cap` and `max` are in pages. -/
structure MemoryInstance where
  buffer : Slice UInt8
  cap : UInt32
  max : UInt32
  shared : Bool
  deriving DecidableEq, Repr

structure F32 where
  bits : UInt32
  deriving DecidableEq, Repr

structure F64 where
  bits : UInt64
  deriving DecidableEq, Repr

/-- A byte slice or string that is passed in; its length is an `int`. -/
abbrev ByteData := { bytes : List UInt8 // bytes.length < 2 ^ 63 }

namespace MemoryInstance

variable (m : MemoryInstance)

def hasSize (offset : UInt32) (byteCount : UInt64) : Bool :=
  offset.toUInt64 + byteCount ≤ UInt64.ofNat m.buffer.len

def readByte (offset : UInt32) : Check (UInt8 × Bool) :=
  if !m.hasSize offset 1 then return (0, false)
  else do
    let b ← m.buffer.index offset.toNat
    return (b, true)

/-- The end of the slice is computed in 32 bits. -/
def readUint16Le (offset : UInt32) : Check (UInt16 × Bool) :=
  if !m.hasSize offset 2 then return (0, false)
  else do
    let s ← m.buffer.slice offset.toNat (offset + 2).toNat
    let v ← s.leUint 2
    return (.ofNat v, true)

/-- The body of `readUint32Le` and `readUint64Le`. -/
def readUintLe (offset : UInt32) (n : Nat) : Check (Nat × Bool) :=
  if !m.hasSize offset (.ofNat n) then return (0, false)
  else do
    let s ← m.buffer.sliceFrom offset.toNat
    let v ← s.leUint n
    return (v, true)

def readUint32Le (offset : UInt32) : Check (UInt32 × Bool) := do
  let (v, ok) ← m.readUintLe offset 4
  return (.ofNat v, ok)

def readUint64Le (offset : UInt32) : Check (UInt64 × Bool) := do
  let (v, ok) ← m.readUintLe offset 8
  return (.ofNat v, ok)

def readFloat32Le (offset : UInt32) : Check (F32 × Bool) := do
  let (v, ok) ← m.readUint32Le offset
  if !ok then return (⟨0⟩, false)
  else return (⟨v⟩, true)

def readFloat64Le (offset : UInt32) : Check (F64 × Bool) := do
  let (v, ok) ← m.readUint64Le offset
  if !ok then return (⟨0⟩, false)
  else return (⟨v⟩, true)

/-- The end of the slice, and its capacity, are computed in 32 bits. -/
def read (offset byteCount : UInt32) : Check (List UInt8 × Bool) :=
  if !m.hasSize offset byteCount.toUInt64 then return ([], false)
  else do
    let s ← m.buffer.slice3 offset.toNat (offset + byteCount).toNat (offset + byteCount).toNat
    return (s.toList, true)

def writeByte (offset : UInt32) (v : UInt8) : Check (Bool × MemoryInstance) :=
  if !m.hasSize offset 1 then return (false, m)
  else do
    let _ ← m.buffer.index offset.toNat
    return (true, { m with buffer := m.buffer.overwrite offset.toNat [v] })

/-- The body of `WriteUint16Le`, `writeUint32Le` and `writeUint64Le`. -/
def writeUintLe (offset : UInt32) (n v : Nat) :
    Check (Bool × MemoryInstance) :=
  if !m.hasSize offset (.ofNat n) then return (false, m)
  else do
    let buffer ← m.buffer.putAt offset.toNat (leBytes n v)
    return (true, { m with buffer })

def writeUint16Le (offset : UInt32) (v : UInt16) :
    Check (Bool × MemoryInstance) :=
  m.writeUintLe offset 2 v.toNat

def writeUint32Le (offset : UInt32) (v : UInt32) :
    Check (Bool × MemoryInstance) :=
  m.writeUintLe offset 4 v.toNat

def writeUint64Le (offset : UInt32) (v : UInt64) :
    Check (Bool × MemoryInstance) :=
  m.writeUintLe offset 8 v.toNat

def writeFloat32Le (offset : UInt32) (v : F32) :
    Check (Bool × MemoryInstance) :=
  m.writeUint32Le offset v.bits

def writeFloat64Le (offset : UInt32) (v : F64) :
    Check (Bool × MemoryInstance) :=
  m.writeUint64Le offset v.bits

def write (offset : UInt32) (val : ByteData) : Check (Bool × MemoryInstance) :=
  if !m.hasSize offset (.ofNat val.1.length) then return (false, m)
  else do
    let buffer ← m.buffer.copyAt offset.toNat val
    return (true, { m with buffer })

def writeString (offset : UInt32) (val : ByteData) :
    Check (Bool × MemoryInstance) :=
  m.write offset val

end MemoryInstance

/-- A value that an accessor reads. -/
inductive MemoryValue where
  | byte (v : UInt8)
  | uint16 (v : UInt16)
  | uint32 (v : UInt32)
  | float32 (v : F32)
  | uint64 (v : UInt64)
  | float64 (v : F64)
  | bytes (v : List UInt8)
  deriving DecidableEq, Repr

inductive MemoryAccess where
  | readByte (offset : UInt32)
  | readUint16Le (offset : UInt32)
  | readUint32Le (offset : UInt32)
  | readFloat32Le (offset : UInt32)
  | readUint64Le (offset : UInt32)
  | readFloat64Le (offset : UInt32)
  | read (offset byteCount : UInt32)
  | writeByte (offset : UInt32) (v : UInt8)
  | writeUint16Le (offset : UInt32) (v : UInt16)
  | writeUint32Le (offset : UInt32) (v : UInt32)
  | writeFloat32Le (offset : UInt32) (v : F32)
  | writeUint64Le (offset : UInt32) (v : UInt64)
  | writeFloat64Le (offset : UInt32) (v : F64)
  | write (offset : UInt32) (val : ByteData)
  | writeString (offset : UInt32) (val : ByteData)
  deriving DecidableEq, Repr

/-- What an accessor returns: the value, of a read, and whether it succeeded. -/
structure AccessResult where
  value : Option MemoryValue
  ok : Bool
  deriving DecidableEq, Repr

namespace MemoryAccess

variable {α : Type}

def reading (m : MemoryInstance) (value : α → MemoryValue) (x : Check (α × Bool)) :
    Check (AccessResult × MemoryInstance) := do
  let (v, ok) ← x
  return (⟨some (value v), ok⟩, m)

def writing (x : Check (Bool × MemoryInstance)) : Check (AccessResult × MemoryInstance) := do
  let (ok, m) ← x
  return (⟨none, ok⟩, m)

def run (m : MemoryInstance) : MemoryAccess → Check (AccessResult × MemoryInstance)
  | readByte offset => reading m .byte (m.readByte offset)
  | readUint16Le offset => reading m .uint16 (m.readUint16Le offset)
  | readUint32Le offset => reading m .uint32 (m.readUint32Le offset)
  | readFloat32Le offset => reading m .float32 (m.readFloat32Le offset)
  | readUint64Le offset => reading m .uint64 (m.readUint64Le offset)
  | readFloat64Le offset => reading m .float64 (m.readFloat64Le offset)
  | read offset byteCount => reading m .bytes (m.read offset byteCount)
  | writeByte offset v => writing (m.writeByte offset v)
  | writeUint16Le offset v => writing (m.writeUint16Le offset v)
  | writeUint32Le offset v => writing (m.writeUint32Le offset v)
  | writeFloat32Le offset v => writing (m.writeFloat32Le offset v)
  | writeUint64Le offset v => writing (m.writeUint64Le offset v)
  | writeFloat64Le offset v => writing (m.writeFloat64Le offset v)
  | write offset val => writing (m.write offset val)
  | writeString offset val => writing (m.writeString offset val)

def runAll (m : MemoryInstance) : List MemoryAccess → Check (List AccessResult × MemoryInstance)
  | [] => return ([], m)
  | a :: as => do
    let (result, m) ← a.run m
    let (results, m) ← runAll m as
    return (result :: results, m)

end MemoryAccess

end Andsifr.Wasm
