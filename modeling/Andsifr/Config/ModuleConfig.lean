import Andsifr.Lib.KeyedList

namespace Andsifr.Config

open Lib

structure TCPAddress where
  host : String
  port : Nat
  deriving DecidableEq

/-- The `fsConfig` of the source. Its slices and its map belong to one configuration alone, because
`clone` copies all three. -/
structure FSConfig (F : Type) where
  fs : List (Option F)
  guestPaths : List String
  guestPathToFS : String → Option Nat

/-- The `moduleConfig` of the source, with the fields that decide what a module sees: `environ` is
the address of a backing array with the length of the slice, `environKeys` the address of a map and
`fsConfig` of a file system configuration. -/
structure ModuleConfig where
  args : List String
  environ : Nat
  environLen : Nat
  environKeys : Nat
  fsConfig : Option Nat
  sockConfig : Option (List TCPAddress)

/-- Every object made so far, each kind at the addresses from zero on. -/
structure Heap (F : Type) where
  arrays : List (List String)
  maps : List (String → Option Nat)
  fsConfigs : List (FSConfig F)
  configs : List ModuleConfig

/-- The file system that is handed to `WithSysFSMount`; `mount none` is nil. -/
inductive SysFS (F : Type) where
  | unimplementedFS
  | mount (fs : Option F)

inductive WithCall where
  | withArgs (args : List String)
  | withEnv (key value : String)
  | withFSConfig (config : Option Nat)
  /-- `WithName`, `WithStdin`, `WithWalltime` and the others that start with `clone`. -/
  | onClone
  /-- `WithNanosleep` and `WithOsyield`, which copy the struct only. -/
  | onCopy

inductive Op (F : Type) where
  | newModuleConfig
  | newFSConfig
  | withCall (config : Nat) (call : WithCall)
  | withSysFSMount (config : Nat) (fs : SysFS F) (guestPath : String)
  | instantiateModule (config : Nat) (isHostModule : Bool) (sockConfig : Option (List TCPAddress))

section Source

variable {F : Type}

/-- `strip` is `sys.StripPrefixesAndTrailingSlash`. -/
def FSConfig.withSysFSMount (strip : String → String) (c : FSConfig F) (fs : Option F)
    (guestPath : String) : FSConfig F :=
  let cleaned := strip guestPath
  match c.guestPathToFS cleaned with
  | some i => { c with fs := c.fs.set i fs, guestPaths := c.guestPaths.set i guestPath }
  | none =>
    if fs.isSome then
      { fs := c.fs ++ [fs], guestPaths := c.guestPaths ++ [guestPath],
        guestPathToFS := Function.update c.guestPathToFS cleaned (some c.fs.length) }
    else c

/-- Copies the map, and the array at exactly the length of the slice. -/
def Heap.clone (h : Heap F) (c : ModuleConfig) : Option (Heap F × ModuleConfig) := do
  let keys ← h.maps[c.environKeys]?
  let array ← h.arrays[c.environ]?
  return ({ h with maps := h.maps ++ [keys], arrays := h.arrays ++ [array.take c.environLen] },
    { c with environKeys := h.maps.length, environ := h.arrays.length })

/-- `append` of the language: in place while the backing array has room, and otherwise into a new
array that has `spare n` places more than the `n` it needs. -/
def Heap.append (spare : Nat → Nat) (h : Heap F) (array len : Nat) (xs : List String) :
    Option (Heap F × Nat) := do
  let old ← h.arrays[array]?
  let all := old.take len ++ xs
  if all.length ≤ old.length then
    return ({ h with arrays := h.arrays.set array (all ++ old.drop all.length) }, array)
  else
    return ({ h with arrays := h.arrays ++ [all ++ List.replicate (spare all.length) ""] },
      h.arrays.length)

def Heap.withEnv (spare : Nat → Nat) (h : Heap F) (c : ModuleConfig) (key value : String) :
    Option (Heap F × ModuleConfig) := do
  let (h, ret) ← h.clone c
  let keys ← h.maps[ret.environKeys]?
  match keys key with
  | some i =>
    let array ← h.arrays[ret.environ]?
    return ({ h with arrays := h.arrays.set ret.environ (array.set (i + 1) value) }, ret)
  | none =>
    let keys := Function.update keys key (some ret.environLen)
    let h := { h with maps := h.maps.set ret.environKeys keys }
    let (h, array) ← h.append spare ret.environ ret.environLen [key, value]
    return (h, { ret with environ := array, environLen := ret.environLen + 2 })

/-- A pointer to a file system configuration is one to an object that exists. -/
def Heap.withCall (spare : Nat → Nat) (h : Heap F) (c : ModuleConfig) :
    WithCall → Option (Heap F × ModuleConfig)
  | .withArgs args => do
    let (h, ret) ← h.clone c
    return (h, { ret with args := args })
  | .withEnv key value => h.withEnv spare c key value
  | .withFSConfig config => do
    guard (∀ f ∈ config, f < h.fsConfigs.length)
    let (h, ret) ← h.clone c
    return (h, { ret with fsConfig := config })
  | .onClone => h.clone c
  | .onCopy => some (h, c)

/-- The result of a step that makes an object is the object at the next address. -/
def Heap.step (strip : String → String) (spare : Nat → Nat) (h : Heap F) : Op F → Option (Heap F)
  | .newModuleConfig =>
    some { h with
      arrays := h.arrays ++ [[]]
      maps := h.maps ++ [fun _ => none]
      configs := h.configs ++ [⟨[], h.arrays.length, 0, h.maps.length, none, none⟩] }
  | .newFSConfig => some { h with fsConfigs := h.fsConfigs ++ [⟨[], [], fun _ => none⟩] }
  | .withCall config call => do
    let c ← h.configs[config]?
    let (h, ret) ← h.withCall spare c call
    return { h with configs := h.configs ++ [ret] }
  | .withSysFSMount config fs guestPath => do
    let c ← h.fsConfigs[config]?
    match fs with
    | .unimplementedFS => return h
    | .mount fs =>
      return { h with fsConfigs := h.fsConfigs ++ [c.withSysFSMount strip fs guestPath] }
  | .instantiateModule config isHostModule sockConfig => do
    let c ← h.configs[config]?
    if !isHostModule && sockConfig.isSome then
      return { h with configs := h.configs.set config { c with sockConfig := sockConfig } }
    else
      return h

def Heap.run (strip : String → String) (spare : Nat → Nat) (h : Heap F) (ops : List (Op F)) :
    Option (Heap F) :=
  ops.foldlM (Heap.step strip spare) h

/-- What `toSysContext` reads from a configuration: the arguments, the environment in pairs, the
mounts with their paths and the addresses to listen on. -/
structure Yield (F : Type) where
  args : List String
  environ : List String
  fs : List (Option F)
  guestPaths : List String
  tcpAddresses : List TCPAddress

def Heap.preopens (h : Heap F) : Option Nat → Option (List (Option F) × List String)
  | none => some ([], [])
  | some f => h.fsConfigs[f]?.map fun c => (c.fs, c.guestPaths)

def Heap.yields (h : Heap F) (c : ModuleConfig) : Option (Yield F) := do
  let array ← h.arrays[c.environ]?
  let (fs, guestPaths) ← h.preopens c.fsConfig
  return ⟨c.args, array.take c.environLen, fs, guestPaths, c.sockConfig.getD []⟩

end Source

end Andsifr.Config
