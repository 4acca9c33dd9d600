import Andsifr.Sys.Errno
import Andsifr.Wasm.MemoryAccess

namespace Andsifr.Wasi

open Lib Wasm Sys

/-- What the underlying file does with a buffer: the bytes it puts at its start, the count it
returns, which may be negative, and the error. -/
structure Response where
  bytes : List UInt8
  n : Int
  errno : Errno
  deriving DecidableEq, Repr

/-- A call of the underlying file, with the range of the memory that was its buffer. -/
structure Transfer where
  offset : UInt32
  len : UInt32
  response : Response
  deriving DecidableEq, Repr

/-- The behaviour of the underlying file: its answer to a buffer, after the calls so far. -/
abbrev File := List Transfer → List UInt8 → Response

/-- The variables of the loop: the memory, the calls so far and the sum of their counts. -/
structure Transferring where
  mem : MemoryInstance
  calls : List Transfer := []
  count : UInt32 := 0
  deriving DecidableEq, Repr

/-- How an iteration of the loop ends. -/
inductive Iteration where
  | next (s : Transferring)
  | done (s : Transferring) (count : UInt32) (errno : Errno)
  deriving DecidableEq, Repr

/-- The memory after a call, which can only change its buffer. -/
def Transfer.apply (t : Transfer) (mem : MemoryInstance) : MemoryInstance :=
  mem.store t.offset.toNat (t.response.bytes.take t.len.toNat)

/-- Only positive counts represent bytes transferred. -/
def Transferring.push (s : Transferring) (t : Transfer) : Transferring where
  mem := t.apply s.mem
  calls := s.calls ++ [t]
  count := if 0 < t.response.n then s.count + .ofNat t.response.n.toNat else s.count

/-- What follows a call: an error after progress is a success with fewer bytes, and so is a count
that is less than the length of the buffer. -/
def afterCall (s : Transferring) (t : Transfer) : Iteration :=
  if t.response.errno ≠ .success then
    if 0 < s.count then .done s s.count .success
    else if t.response.errno = .ENOSYS then .done s 0 .EBADF
    else .done s 0 t.response.errno
  else if t.response.n < t.len.toNat then .done s s.count .success
  else .next s

/-- What `readv` and `writev` do with an entry of the list. -/
def transferEntry (file : File) (s : Transferring) (offset l : UInt32) : Check Iteration := do
  let (b, ok) ← s.mem.read offset l
  if !ok then return .done s 0 .EFAULT
  let t : Transfer := ⟨offset, l, file s.calls b⟩
  return afterCall (s.push t) t

/-- A zero length entry could be ahead of another. -/
def readvEntry (file : File) (s : Transferring) (offset l : UInt32) : Check Iteration :=
  if l = 0 then return .next s
  else transferEntry file s offset l

def writevEntry (file : File) (s : Transferring) (offset l : UInt32) : Check Iteration :=
  transferEntry file s offset l

/-- The number at `pos` of the list, which is a part of the memory. -/
def iovsUint32 (mem : MemoryInstance) (iovs iovsStop : UInt32) (pos : Nat) : Check UInt32 := do
  let iovsBuf ← mem.buffer.slice3 iovs.toNat (iovs + iovsStop).toNat (iovs + iovsStop).toNat
  let s ← iovsBuf.sliceFrom pos
  let v ← s.leUint 4
  return .ofNat v

/-- The loop over the remaining entries, the first of them at `pos`. -/
def transferAll (entry : Transferring → UInt32 → UInt32 → Check Iteration)
    (iovs iovsStop : UInt32) :
    (remaining pos : Nat) → Transferring → Check (Transferring × UInt32 × Errno)
  | 0, _, s => return (s, s.count, .success)
  | remaining + 1, pos, s => do
    let offset ← iovsUint32 s.mem iovs iovsStop pos
    let l ← iovsUint32 s.mem iovs iovsStop (pos + 4)
    match ← entry s offset l with
    | .next s => transferAll entry iovs iovsStop remaining (pos + 8) s
    | .done s count errno => return (s, count, errno)

/-- What `readv` and `writev` do around their entries. -/
def vectored (entry : Transferring → UInt32 → UInt32 → Check Iteration) (mem : MemoryInstance)
    (iovs iovsCount : UInt32) : Check (Transferring × UInt32 × Errno) := do
  let iovsStop := iovsCount <<< 3
  let (_, ok) ← mem.read iovs iovsStop
  if !ok then return ({ mem }, 0, .EFAULT)
  transferAll entry iovs iovsStop (iovsStop.toNat / 8) 0 { mem }

def readv (mem : MemoryInstance) (iovs iovsCount : UInt32) (reader : File) :
    Check (Transferring × UInt32 × Errno) :=
  vectored (readvEntry reader) mem iovs iovsCount

def writev (mem : MemoryInstance) (iovs iovsCount : UInt32) (writer : File) :
    Check (Transferring × UInt32 × Errno) :=
  vectored (writevEntry writer) mem iovs iovsCount

end Andsifr.Wasi
