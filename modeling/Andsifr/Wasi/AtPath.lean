import Andsifr.Lib.Utf8
import Andsifr.Sysfs.DirFS
import Andsifr.Wasm.MemoryAccess

namespace Andsifr.Wasi

open Lib Wasm Sys Sysfs

def colon : UInt8 := 0x3a

/-- The elements of a path, as Go's packages `path` and `fs` see them. -/
def slashElements (p : Path) : List Path :=
  p.splitOn slash

/-- One element for `path.Clean`, which keeps the elements so far, the last one first. -/
def cleanElement (rooted : Bool) (elements : List Path) (e : Path) : List Path :=
  if e = [] ∨ e = [dot] then elements
  else if e = [dot, dot] then
    match elements with
    | [] => if rooted then [] else [e]
    | last :: rest => if last = [dot, dot] then e :: elements else rest
  else e :: elements

/-- `path.Clean`, by its documented rules. -/
def clean (p : Path) : Path :=
  let rooted := p.head? = some slash
  let elements := (slashElements p).foldl (cleanElement rooted) []
  let cleaned := [slash].intercalate elements.reverse
  if rooted then slash :: cleaned else if cleaned = [] then [dot] else cleaned

/-- `fs.ValidPath`. -/
def validPath (p : Path) : Bool :=
  validString p && (p == [dot] ||
    (slashElements p).all fun e => e != [] && e != [dot] && e != [dot, dot])

def asciiUpper (c : UInt8) : UInt8 :=
  if 0x61 ≤ c ∧ c ≤ 0x7a then c - 0x20 else c

def windowsDeviceNames : List Path :=
  ["CON", "PRN", "AUX", "NUL",
    "COM1", "COM2", "COM3", "COM4", "COM5", "COM6", "COM7", "COM8", "COM9",
    "LPT1", "LPT2", "LPT3", "LPT4", "LPT5", "LPT6", "LPT7", "LPT8", "LPT9"].map ascii

/-- No character outside of ASCII has one of the letters of these names as its upper case. -/
def isWindowsReservedDeviceName (name : Path) : Bool :=
  windowsDeviceNames.contains (name.map asciiUpper)

def windowsPathNeedsEscape (p : Path) : Bool :=
  p.any (fun c => c == backslash || c == colon) ||
    (slashElements p).any fun e => isWindowsReservedDeviceName (e.takeWhile (· != dot))

def pathEscapesOnWindows (host : Host) (p : Path) : Bool :=
  host.windows && windowsPathNeedsEscape p

/-- The path of a guest in a file system. The file answers with `isDir` whether it is a
directory. -/
def atPath (host : Host) (fsc : FSContext) (mem : MemoryInstance) (fd : Int) (p pathLen : UInt32)
    (isDir : Bool × Errno) : Check (Option Nat × Path × Errno) := do
  let (b, ok) ← mem.read p pathLen
  if !ok then return (none, [], .EFAULT)
  let hasTrailingSlash := b.getLast? = some slash
  let pathName := clean b
  if !validPath pathName || pathEscapesOnWindows host pathName then
    return (none, [], .EPERM)
  let pathName := if hasTrailingSlash then pathName ++ [slash] else pathName
  match fsc.lookupFile fd with
  | none => return (none, [], .EBADF)
  | some f =>
    if isDir.2 ≠ .success then return (none, [], isDir.2)
    if !isDir.1 then return (none, [], .ENOTDIR)
    if f.isPreopen then return (f.fs, pathName, .success)
    return (f.fs, f.name ++ [slash] ++ pathName, .success)

def oCreat : UInt16 := 1

def oDirectory : UInt16 := 2

/-- What the file systems and files answer while a path is opened. -/
structure OpenAnswers where
  isDir : Bool × Errno
  opened : Errno
  openedIsDir : Bool × Errno
  closed : Errno
  deriving DecidableEq, Repr

def pathOpen (host : Host) (fsc : FSContext) (mem : MemoryInstance) (fd : Int) (p pathLen : UInt32)
    (oflags : UInt16) (resultOpenedFD : UInt32) (answers : OpenAnswers) :
    Check (FSContext × MemoryInstance × Errno) := do
  let (preopen, pathName, errno) ← atPath host fsc mem fd p pathLen answers.isDir
  if errno ≠ .success then return (fsc, mem, errno)
  if pathLen = 0 then return (fsc, mem, .EINVAL)
  let isDir := oflags &&& oDirectory ≠ 0
  if isDir ∧ oflags &&& oCreat ≠ 0 then return (fsc, mem, .EINVAL)
  let (fsc, newFD, errno) ← fsc.openFile preopen pathName answers.opened
  if errno ≠ .success then return (fsc, mem, errno)
  if isDir ∧ fsc.lookupFile newFD = none then return (fsc, mem, .EBADF)
  if isDir ∧ answers.openedIsDir.2 ≠ .success then
    return ((fsc.closeFile newFD answers.closed).1, mem, answers.openedIsDir.2)
  if isDir ∧ !answers.openedIsDir.1 then
    return ((fsc.closeFile newFD answers.closed).1, mem, .ENOTDIR)
  let (ok, mem) ← mem.writeUint32Le resultOpenedFD (.ofNat newFD.toNat)
  if !ok then return ((fsc.closeFile newFD answers.closed).1, mem, .EFAULT)
  return (fsc, mem, .success)

def sockAccept (fsc : FSContext) (mem : MemoryInstance) (fd : Int) (resultFd : UInt32)
    (accepted : Option Errno) (nonblock closed : Errno) :
    Check (FSContext × MemoryInstance × Errno) := do
  let (fsc, connFD, errno) ← fsc.sockAccept fd accepted nonblock
  if errno ≠ .success then return (fsc, mem, errno)
  let (ok, mem) ← mem.writeUint32Le resultFd (.ofNat connFD.toNat)
  if !ok then return ((fsc.closeFile connFD closed).1, mem, .EFAULT)
  return (fsc, mem, .success)

/-- The calls that change which files are open, with the answers of the files. -/
inductive Operation where
  | pathOpen (mem : MemoryInstance) (fd : Int) (p pathLen : UInt32) (oflags : UInt16)
      (resultOpenedFD : UInt32) (answers : OpenAnswers)
  | fdRenumber (source target : Int)
  | fdClose (fd : Int) (closed : Errno)
  | sockAccept (mem : MemoryInstance) (fd : Int) (resultFd : UInt32) (accepted : Option Errno)
      (nonblock closed : Errno)
  | close

/-- The open files after a call. A call that panics leaves them as they are. -/
def Operation.apply (host : Host) (fsc : FSContext) : Operation → Check FSContext
  | pathOpen mem fd p pathLen oflags resultOpenedFD answers => do
    let (fsc, _, _) ← Wasi.pathOpen host fsc mem fd p pathLen oflags resultOpenedFD answers
    return fsc
  | fdRenumber source target => .ok (fsc.renumber source target).1
  | fdClose fd closed => .ok (fsc.closeFile fd closed).1
  | sockAccept mem fd resultFd accepted nonblock closed => do
    let (fsc, _, _) ← Wasi.sockAccept fsc mem fd resultFd accepted nonblock closed
    return fsc
  | close => .ok fsc.close

/-- The file systems that are mounted, with the directories of the host behind them, and the number
of listeners. -/
structure FSConfig (host : Host) where
  mounts : List (Option (DirFS host) × Path)
  tcpListeners : Nat

/-- The open files that a guest can bring about. -/
inductive Reachable {host : Host} (config : FSConfig host) : FSContext → Prop
  | init {fsc : FSContext}
      (h : initFSContext (config.mounts.map Prod.snd) config.tcpListeners = .ok fsc) :
      Reachable config fsc
  | step {fsc fsc' : FSContext} (op : Operation) (h : Reachable config fsc)
      (hstep : op.apply host fsc = .ok fsc') : Reachable config fsc'

end Andsifr.Wasi
