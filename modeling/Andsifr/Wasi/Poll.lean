import Andsifr.Sys.Errno
import Andsifr.Wasm.MemoryAccess

namespace Andsifr.Wasi

open Lib Wasm Sys

/-- What `poll_oneoff` asks of an open file: whether it is in non-blocking mode, and whether it can
be polled. -/
structure PollFile where
  nonblock : Bool
  pollable : Bool
  deriving DecidableEq, Repr

/-- The answer to a poll, and the time in nanoseconds that it took. -/
structure PollAnswer where
  ready : Bool
  errno : Errno
  elapsed : Nat
  deriving DecidableEq, Repr

structure PollCall where
  fd : UInt32
  timeoutMillis : Int
  answer : PollAnswer
  deriving DecidableEq, Repr

/-- The open files, and how the polls are answered, after those so far. -/
structure PollHost where
  lookupFile : UInt32 → Option PollFile
  poll : List PollCall → UInt32 → Int → PollAnswer

/-- An event of which the user data is still in the subscription, at the given address. -/
structure Event where
  eventType : UInt8
  userData : Nat
  errno : UInt8
  deriving DecidableEq, Repr

def errnoSuccess : UInt8 := 0

def errnoBadf : UInt8 := 8

def errnoNotsup : UInt8 := 58

def eventTypeClock : UInt8 := 0

def eventTypeFdRead : UInt8 := 1

def eventTypeFdWrite : UInt8 := 2

/-- A subscription to a file in blocking mode, which is polled after the others are answered. -/
structure BlockingSub where
  evt : Event
  fd : UInt32
  file : PollFile
  deriving DecidableEq, Repr

/-- The variables of the loop over the subscriptions. -/
structure Polling where
  mem : MemoryInstance
  nevents : Nat := 0
  timeout : Int := 2 ^ 63 - 1
  blockingPollSubs : List BlockingSub := []
  deriving DecidableEq, Repr

/-- What comes of a call: the error, the memory, the argument of `Nanosleep` and the polls. -/
structure PollResult where
  errno : Errno
  mem : MemoryInstance
  slept : Option Int := none
  polls : List PollCall := []
  deriving DecidableEq, Repr

def numberAt (mem : MemoryInstance) (address n : Nat) : Nat :=
  leNat (mem.buffer.extract address n)

theorem numberAt_store {mem : MemoryInstance} {i v : Nat} (h : i + 4 ≤ mem.buffer.len)
    (hv : v < 2 ^ 32) :
    numberAt (mem.store i (leBytes 4 v)) i 4 = v := by
  have hextract : (mem.store i (leBytes 4 v)).buffer.extract i (leBytes 4 v).length = _ :=
    MemoryInstance.extract_store_self (by rwa [length_leBytes])
  rw [length_leBytes] at hextract
  rw [numberAt, hextract, leNat_leBytes]
  exact Nat.mod_eq_of_lt hv

/-- A `time.Duration` of so many nanoseconds, which is signed. -/
def duration (nanos : UInt64) : Int :=
  if nanos.toNat < 2 ^ 63 then nanos.toNat else nanos.toNat - 2 ^ 64

/-- Only relative timeouts are supported. The argument is the address of the contents. -/
def processClockEvent (mem : MemoryInstance) (argBuf : Nat) : Except Errno Int :=
  let timeout := UInt64.ofNat (numberAt mem (argBuf + 8) 8)
  let flags := numberAt mem (argBuf + 24) 2
  if flags = 0 then .ok (duration timeout)
  else if flags = 1 then .error .ENOTSUP
  else .error .EINVAL

/-- Writes the event; the other bytes of it have been cleared. -/
def writeEvent (mem : MemoryInstance) (outBuf : Nat) (evt : Event) : MemoryInstance :=
  mem.store outBuf (mem.buffer.extract evt.userData 8 ++ [evt.errno, 0] ++
    leBytes 4 evt.eventType.toNat)

def Polling.write (s : Polling) (out : Nat) (evt : Event) : Polling :=
  { s with mem := writeEvent s.mem (out + s.nevents * 32) evt, nevents := s.nevents + 1 }

/-- The type of the subscription at an address, past its user data. -/
def eventTypeAt (mem : MemoryInstance) (address : Nat) : UInt8 :=
  .ofNat (numberAt mem (address + 8) 1)

def pollSubscription (lookupFile : UInt32 → Option PollFile) (out address : Nat) (s : Polling) :
    Except Errno Polling :=
  let eventType := eventTypeAt s.mem address
  let argBuf := address + 16
  let evt : Event := ⟨eventType, address, errnoSuccess⟩
  let fd := UInt32.ofNat (numberAt s.mem argBuf 4)
  if eventType = eventTypeClock then do
    let newTimeout ← processClockEvent s.mem argBuf
    let timeout := if newTimeout < s.timeout then newTimeout else s.timeout
    return { s with timeout }.write out evt
  else if eventType = eventTypeFdRead then
    if 2 ^ 31 ≤ fd.toNat then .error .EBADF
    else match lookupFile fd with
      | none => .ok (s.write out { evt with errno := errnoBadf })
      | some file =>
        if fd ≠ 0 ∧ file.nonblock then .ok (s.write out evt)
        else .ok { s with blockingPollSubs := s.blockingPollSubs ++ [⟨evt, fd, file⟩] }
  else if eventType = eventTypeFdWrite then
    if 2 ^ 31 ≤ fd.toNat then .error .EBADF
    else match lookupFile fd with
      | none => .ok (s.write out { evt with errno := errnoBadf })
      | some _ => .ok (s.write out { evt with errno := errnoNotsup })
  else .error .EINVAL

/-- The loop over the subscriptions, with the error of the first one that is not supported. -/
def pollSubscriptions (lookupFile : UInt32 → Option PollFile) (out : Nat) :
    (remaining address : Nat) → Polling → Polling × Errno
  | 0, _, s => (s, .success)
  | remaining + 1, address, s =>
    match pollSubscription lookupFile out address s with
    | .error errno => (s, errno)
    | .ok s => pollSubscriptions lookupFile out remaining (address + 48) s

/-- The timeout of a poll: the remaining milliseconds, as an `int32`. -/
def pollMillis (remaining : Int) : Int :=
  let ms := remaining.tdiv 1000000
  Int.bmod (if 2 ^ 31 - 1 < ms then 2 ^ 31 - 1 else ms) (2 ^ 32)

/-- The loop over the files in blocking mode. -/
def pollBlocking (poll : List PollCall → UInt32 → Int → PollAnswer) (out : Nat) :
    List BlockingSub → (remaining : Int) → Polling → List PollCall → PollResult × Nat
  | [], _, s, polls => (⟨.success, s.mem, none, polls⟩, s.nevents)
  | sub :: subs, remaining, s, polls =>
    if !sub.file.pollable then
      pollBlocking poll out subs remaining (s.write out { sub.evt with errno := errnoNotsup }) polls
    else
      let ms := pollMillis remaining
      let answer := poll polls sub.fd ms
      let polls := polls ++ [⟨sub.fd, ms, answer⟩]
      let remaining := if answer.elapsed < remaining then remaining - answer.elapsed else 0
      if answer.errno = .success then
        if answer.ready then
          pollBlocking poll out subs remaining (s.write out { sub.evt with errno := errnoSuccess })
            polls
        else pollBlocking poll out subs remaining s polls
      else if answer.errno = .ENOSYS ∨ answer.errno = .ENOTSUP then
        pollBlocking poll out subs remaining
          (s.write out { sub.evt with errno := errnoNotsup }) polls
      else (⟨answer.errno, s.mem, none, polls⟩, s.nevents)

def pollOneoff (host : PollHost) (mem : MemoryInstance)
    (inn out nsubscriptions resultNevents : UInt32) :
    Check PollResult := do
  if nsubscriptions = 0 then return ⟨.EINVAL, mem, none, []⟩
  -- the sizes below must not wrap
  if (2 ^ 32 - 1) / 48 < nsubscriptions.toNat then return ⟨.EINVAL, mem, none, []⟩
  let (_, ok) ← mem.read inn (nsubscriptions * 48)
  if !ok then return ⟨.EFAULT, mem, none, []⟩
  let (_, ok) ← mem.read out (nsubscriptions * 32)
  if !ok then return ⟨.EFAULT, mem, none, []⟩
  let mem := mem.store out.toNat (List.replicate (nsubscriptions * 32).toNat 0)
  let (ok, mem) ← mem.writeUint32Le resultNevents nsubscriptions
  if !ok then return ⟨.EFAULT, mem, none, []⟩
  let (s, errno) :=
    pollSubscriptions host.lookupFile out.toNat nsubscriptions.toNat inn.toNat { mem }
  if errno ≠ .success then return ⟨errno, s.mem, none, []⟩
  if s.nevents = nsubscriptions.toNat then
    return ⟨.success, s.mem, if 0 < s.timeout then some s.timeout else none, []⟩
  let (r, nevents) := pollBlocking host.poll out.toNat s.blockingPollSubs s.timeout s []
  if r.errno = .success ∧ nevents ≠ nsubscriptions.toNat then
    let (ok, mem) ← r.mem.writeUint32Le resultNevents (.ofNat nevents)
    return { r with errno := if ok then .success else .EFAULT, mem }
  return r

end Andsifr.Wasi
