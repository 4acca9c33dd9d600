import Andsifr.Sys.DirentCache
import Andsifr.Wasm.MemoryAccess

namespace Andsifr.Wasi

open Lib Wasm Sys

def direntSize : Nat := 24

/-- A larger entry, with its name, is refused. -/
def largestDirent : Nat := 2 ^ 32 - 1 - direntSize

def filetypeUnknown : UInt8 := 0

def filetypeBlockDevice : UInt8 := 1

def filetypeCharacterDevice : UInt8 := 2

def filetypeDirectory : UInt8 := 3

def filetypeRegularFile : UInt8 := 4

def filetypeSymbolicLink : UInt8 := 7

def modeSymlink : UInt32 := 0x08000000

def modeDevice : UInt32 := 0x04000000

def modeNamedPipe : UInt32 := 0x02000000

def modeSocket : UInt32 := 0x01000000

def modeCharDevice : UInt32 := 0x00200000

def modeIrregular : UInt32 := 0x00080000

/-- The bits of a `fs.FileMode` of which none is set in that of a regular file. -/
def modeType : UInt32 :=
  modeDir ||| modeSymlink ||| modeNamedPipe ||| modeSocket ||| modeDevice ||| modeCharDevice |||
    modeIrregular

def getWasiFiletype (fm : UInt32) : UInt8 :=
  if fm &&& modeType = 0 then filetypeRegularFile
  else if fm &&& modeDir ≠ 0 then filetypeDirectory
  else if fm &&& modeSymlink ≠ 0 then filetypeSymbolicLink
  else if fm &&& modeDevice ≠ 0 then
    if fm &&& modeCharDevice ≠ 0 then filetypeCharacterDevice else filetypeBlockDevice
  else filetypeUnknown

/-- The entries to write: the bytes they need, their number, and how many of these bytes are of a
last one that is truncated. -/
structure DirentsFit where
  bufToWrite : UInt32 := 0
  direntCount : Nat := 0
  truncatedLen : UInt32 := 0
  deriving DecidableEq, Repr

/-- The loop of `maxDirents` over the entries that remain. -/
def maxDirentsFrom : List Dirent → (lenRemaining : UInt32) → DirentsFit → Check DirentsFit
  | [], _, s => return s
  | d :: dirents, lenRemaining, s =>
    if lenRemaining = 0 then return s
    else
      let direntCount := s.direntCount + 1
      let el := direntSize + d.name.length
      if largestDirent < el then Check.raise "invalid filename: too large"
      else
        let entryLen := UInt32.ofNat el
        if lenRemaining < entryLen then
          -- Only the header is written, which tells the caller what to resize to.
          let truncatedLen := if 24 ≤ lenRemaining then 24 else lenRemaining
          return { bufToWrite := s.bufToWrite + truncatedLen, direntCount, truncatedLen }
        else
          maxDirentsFrom dirents (lenRemaining - entryLen)
            { s with bufToWrite := s.bufToWrite + entryLen, direntCount }

def maxDirents (dirents : List Dirent) (bufLen : UInt32) : Check DirentsFit :=
  maxDirentsFrom dirents bufLen {}

def writeDirent (buf : Slice UInt8) (pos : Nat) (dNext ino : UInt64) (dNamlen dType : UInt32) :
    Check (Slice UInt8) := do
  let buf ← buf.putAt pos (leBytes 8 dNext.toNat)
  let buf ← buf.putAt (pos + 8) (leBytes 8 ino.toNat)
  let buf ← buf.putAt (pos + 16) (leBytes 4 dNamlen.toNat)
  buf.putAt (pos + 20) (leBytes 4 (getWasiFiletype dType).toNat)

/-- The loop of `writeDirents` from the entry `i` on, which goes to `pos`. -/
def writeDirentsFrom (dirents : List Dirent) (skipNameI : Int) :
    (remaining i : Nat) → (pos : UInt32) → (dNext : UInt64) → Slice UInt8 → Check (Slice UInt8)
  | 0, _, _, _, buf => return buf
  | remaining + 1, i, pos, dNext, buf => do
    let e ← Check.index dirents i
    let nameLen := UInt32.ofNat e.name.length
    let buf ← writeDirent buf pos.toNat dNext e.ino nameLen e.type
    let pos := pos + 24
    if (i : Int) ≠ skipNameI then
      let buf ← buf.copyAt pos.toNat e.name
      writeDirentsFrom dirents skipNameI remaining (i + 1) (pos + nameLen) (dNext + 1) buf
    else
      writeDirentsFrom dirents skipNameI remaining (i + 1) pos (dNext + 1) buf

/-- A last entry that is truncated is skipped, or it is written without its name. -/
def writeDirents (buf : Slice UInt8) (dirents : List Dirent) (dNext : UInt64) (direntCount : Nat)
    (truncatedLen : UInt32) : Check (Slice UInt8) :=
  if 0 < truncatedLen then
    if truncatedLen < 24 then writeDirentsFrom dirents (-1) (direntCount - 1) 0 0 dNext buf
    else writeDirentsFrom dirents (direntCount - 1) direntCount 0 0 dNext buf
  else writeDirentsFrom dirents (-1) direntCount 0 0 dNext buf

variable {σ : Type}

/-- Lazily opens the cache of an open file. -/
def direntCache (m : FileMethods σ) (f : Option (OpenDirectory σ)) : Except Errno (DirentCache σ) :=
  match f with
  | none => .error .EBADF
  | some f =>
    match f.getDirentCache m with
    | .ok dir => .ok dir
    | .error errno => if errno = .ENOTDIR then .error .EBADF else .error errno

def writeBufused (mem : MemoryInstance) (resultBufused bufused : UInt32) :
    Check (MemoryInstance × Errno) := do
  let (ok, mem) ← mem.writeUint32Le resultBufused bufused
  return (mem, if ok then .success else .EFAULT)

/-- What a call does to the memory, once the entries have been read. -/
def writeReaddir (mem : MemoryInstance) (buf bufLen : UInt32) (cookie : UInt64)
    (resultBufused : UInt32) (dirents : List Dirent) : Check (MemoryInstance × Errno) := do
  let fit ← maxDirents dirents bufLen
  let bufused := if 0 < fit.truncatedLen then bufLen else fit.bufToWrite
  if 0 < fit.bufToWrite then
    let (bytes, ok) ← mem.read buf fit.bufToWrite
    if !ok then return (mem, .EFAULT)
    let written ← writeDirents (.ofList bytes) dirents (cookie + 1) fit.direntCount fit.truncatedLen
    writeBufused (mem.store buf.toNat written.toList) resultBufused bufused
  else writeBufused mem resultBufused bufused

/-- The argument `f` is the open file of the descriptor, if there is one. -/
def fdReaddir (m : FileMethods σ) (f : Option (OpenDirectory σ)) (mem : MemoryInstance)
    (buf bufLen : UInt32) (cookie : UInt64) (resultBufused : UInt32) :
    Check (Option (OpenDirectory σ) × MemoryInstance × Errno) :=
  if bufLen < 24 then return (f, mem, .EINVAL)
  else
    match direntCache m f with
    | .error errno => return (f, mem, errno)
    | .ok dir => do
      -- One more than fit, to know whether this is the end of the directory.
      let maxDirEntries := bufLen / 24 + 1 + 1
      let (dir, dirents, errno) := dir.read m cookie maxDirEntries
      let f := f.map fun f => { f with direntCache := some dir }
      if errno ≠ .success then return (f, mem, errno)
      else
        let (mem, errno) ← writeReaddir mem buf bufLen cookie resultBufused dirents
        return (f, mem, errno)

end Andsifr.Wasi
