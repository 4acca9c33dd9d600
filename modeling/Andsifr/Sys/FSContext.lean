import Andsifr.Descriptor.Table
import Andsifr.Sys.Errno

namespace Andsifr.Sys

open Lib Descriptor

/-- A path is a string, which is any sequence of bytes. -/
abbrev Path := List UInt8

def slash : UInt8 := 0x2f

def dot : UInt8 := 0x2e

def ascii (s : String) : Path :=
  s.toList.map fun c => .ofNat c.toNat

/-- An open file. The file system is an index into those that are mounted, and nil for the standard
streams and for sockets. -/
structure FileEntry where
  name : Path
  isPreopen : Bool := false
  fs : Option Nat := none
  deriving DecidableEq, Repr, Inhabited

structure FSContext where
  openedFiles : Table FileEntry
  deriving DecidableEq, Repr

def maxFileDescriptor : Nat := 2 ^ 20

namespace FSContext

def lookupFile (c : FSContext) (fd : Int) : Option FileEntry :=
  c.openedFiles.lookup fd

/-- Opens a file, where `opened` is the error of the file system. -/
def openFile (c : FSContext) (fs : Option Nat) (path : Path) (opened : Errno) :
    Check (FSContext × Int × Errno) :=
  if maxFileDescriptor ≤ c.openedFiles.len then .ok (c, 0, .EMFILE)
  else match fs with
    | none => Check.raise "runtime error: invalid memory address or nil pointer dereference"
    | some fs =>
      if opened ≠ .success then .ok (c, 0, opened)
      else do
        let name := if path = [slash] ∨ path = [dot] then [] else path
        let (newFD, ok, openedFiles) ← c.openedFiles.insert { name, fs := some fs }
        if !ok then return (⟨openedFiles⟩, 0, .EBADF)
        return (⟨openedFiles⟩, newFD, .success)

/-- Assigns the file of the descriptor `source` to `target`. A file that is open there is closed,
and its error ignored. -/
def renumber (c : FSContext) (source target : Int) : FSContext × Errno :=
  match c.openedFiles.lookup source with
  | none => (c, .EBADF)
  | some fromFile =>
    if target < 0 ∨ (maxFileDescriptor : Int) < target then (c, .EBADF)
    else if fromFile.isPreopen then (c, .ENOTSUP)
    else if target ≠ source ∧
        ((c.openedFiles.lookup target).map FileEntry.isPreopen).getD false then (c, .ENOTSUP)
    else
      let (ok, openedFiles) := (c.openedFiles.delete source).insertAt fromFile target
      if !ok then (⟨openedFiles⟩, .EBADF) else (⟨openedFiles⟩, .success)

/-- Closes a file, where `closed` is the error of the file. -/
def closeFile (c : FSContext) (fd : Int) (closed : Errno) : FSContext × Errno :=
  match c.openedFiles.lookup fd with
  | none => (c, .EBADF)
  | some _ => if closed ≠ .success then (c, closed) else (⟨c.openedFiles.delete fd⟩, .success)

/-- Accepts a connection. The socket answers with `accepted`, if the file is one, and the connection
answers with `nonblock` when it is set to be non-blocking. -/
def sockAccept (c : FSContext) (sockFD : Int) (accepted : Option Errno) (nonblock : Errno) :
    Check (FSContext × Int × Errno) :=
  match c.openedFiles.lookup sockFD, accepted with
  | none, _ | _, none => .ok (c, 0, .EBADF)
  | some e, some accepted =>
    if !e.isPreopen then .ok (c, 0, .EBADF)
    else if accepted ≠ .success then .ok (c, 0, accepted)
    else if maxFileDescriptor ≤ c.openedFiles.len then .ok (c, 0, .EMFILE)
    else if nonblock ≠ .success then .ok (c, 0, nonblock)
    else do
      let (newFD, ok, openedFiles) ← c.openedFiles.insert { name := [] }
      if !ok then return (⟨openedFiles⟩, 0, .EBADF)
      return (⟨openedFiles⟩, newFD, .success)

def close (_ : FSContext) : FSContext :=
  ⟨Table.empty⟩

end FSContext

/-- Skips any leading `./` or `/`. -/
def stripPrefixes : Path → Path
  | [] => []
  | [c] => if c = slash ∨ c = dot then [] else [c]
  | c :: c' :: path =>
    if c = slash then stripPrefixes (c' :: path)
    else if c = dot ∧ c' = slash then stripPrefixes path
    else c :: c' :: path

def stripPrefixesAndTrailingSlash (path : Path) : Path :=
  stripPrefixes (path.reverse.dropWhile (· = slash)).reverse

def stdioNames : List Path :=
  ["stdin", "stdout", "stderr"].map ascii

/-- The entries of the initial files: the standard streams, the directories at the guest paths, and
the listeners. -/
def initialEntries (guestPaths : List Path) (tcpListeners : Nat) : List FileEntry :=
  stdioNames.map (fun name => { name, isPreopen := true }) ++
    guestPaths.mapIdx (fun i guestPath =>
      { name := if stripPrefixesAndTrailingSlash guestPath = [] then [slash] else guestPath
        isPreopen := true
        fs := some i }) ++
    List.replicate tcpListeners { name := [], isPreopen := true }

def insertAll : Table FileEntry → List FileEntry → Check (Table FileEntry)
  | t, [] => .ok t
  | t, e :: es => do
    let (_, _, t) ← t.insert e
    insertAll t es

def initFSContext (guestPaths : List Path) (tcpListeners : Nat) : Check FSContext := do
  let openedFiles ← insertAll Table.empty (initialEntries guestPaths tcpListeners)
  return ⟨openedFiles⟩

end Andsifr.Sys
