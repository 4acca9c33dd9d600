namespace Andsifr.Sys

/-- An error number. Zero is success; a file may also answer with a number that has no name. -/
structure Errno where
  code : UInt16
  deriving DecidableEq, Repr

namespace Errno

def success : Errno := ⟨0⟩

def EBADF : Errno := ⟨3⟩

def EFAULT : Errno := ⟨5⟩

def EINVAL : Errno := ⟨7⟩

def ENOENT : Errno := ⟨12⟩

def ENOSYS : Errno := ⟨13⟩

def ENOTDIR : Errno := ⟨14⟩

def ENOTSUP : Errno := ⟨18⟩

def EPERM : Errno := ⟨19⟩

def EMFILE : Errno := ⟨21⟩

end Errno

end Andsifr.Sys
