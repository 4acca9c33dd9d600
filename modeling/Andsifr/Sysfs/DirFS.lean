import Andsifr.Sys.FSContext
import Andsifr.Lib.LexicalPath

namespace Andsifr.Sysfs

open Lib Sys

def backslash : UInt8 := 0x5c

/-- The host, as far as its operating system matters for paths. -/
structure Host where
  windows : Bool
  deriving DecidableEq, Repr

namespace Host

/-- `os.PathSeparator`. -/
def pathSeparator (host : Host) : UInt8 :=
  if host.windows then backslash else slash

def isPathSeparator (host : Host) (c : UInt8) : Bool :=
  c == slash || host.windows && c == backslash

end Host

structure DirFS (host : Host) where
  dir : Path
  dir_ne_nil : dir ≠ []

namespace DirFS

variable {host : Host}

/-- The directory with a separator at its end. -/
def cleanedDir (d : DirFS host) : Path :=
  if host.isPathSeparator (d.dir.getLast d.dir_ne_nil) then d.dir else d.dir ++ [host.pathSeparator]

def join (d : DirFS host) (path : Path) : Path :=
  if path = [] ∨ path = [dot] ∨ path = [slash] then
    if d.cleanedDir = [slash] then [slash] else d.cleanedDir.dropLast
  else d.cleanedDir ++ path

end DirFS

end Andsifr.Sysfs
