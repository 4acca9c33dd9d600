import Mathlib.Data.BitVec
import Andsifr.Lib.Lists

namespace Andsifr.Wazevo.FunctionReference

open Lib List Option

structure Buffer where
  address : Nat
  length : Nat
  deriving DecidableEq, Repr

/-- The memory of an instance: one of its own, or that of another instance. -/
inductive Memory where
  | own (buffer : Buffer)
  | imported (owner : Nat)

/-- A global of an instance: its own, with its two words, or one of another instance. -/
inductive Global where
  | own (val valHi : BitVec 64)
  | imported (me index : Nat)

/-- What a module instance has besides its functions. Tables and tags are named by their numbers in
the store. -/
structure ModuleInstance where
  memory : Option Memory := none
  globals : List Global := []
  typeIDs : List (BitVec 32) := []
  tables : List Nat := []
  tags : List Nat := []

def ModuleInstance.ownMemory (inst : ModuleInstance) : Option Buffer :=
  match inst.memory with
  | some (.own buffer) => some buffer
  | _ => none

def ModuleInstance.memoryOwner (inst : ModuleInstance) : Option Nat :=
  match inst.memory with
  | some (.imported owner) => some owner
  | _ => none

/-- `moduleContextOpaque`, behind its first word, without the records of the imported functions, the
listeners and the data and element instances. It is zero at first. Pointers are given by what they
point to. -/
structure ModuleContext where
  localMemory : Option Buffer := none
  importedMemory : Option Nat := none
  globals : List Global := []
  typeIDs : List (BitVec 32) := []
  tables : List Nat := []
  tags : List Nat := []

structure Contexts where
  instances : List ModuleInstance
  contexts : List ModuleContext

section Source

def setupOpaque (inst : ModuleInstance) (ctx : ModuleContext) : ModuleContext :=
  let ctx :=
    if inst.ownMemory.isSome then { ctx with localMemory := inst.ownMemory } else ctx
  let ctx := { ctx with globals := inst.globals }
  let ctx :=
    if inst.tables = [] then ctx
    else { ctx with typeIDs := inst.typeIDs, tables := inst.tables }
  { ctx with tags := inst.tags }

/-- An imported memory or global is the one that the exporting instance has. -/
def Memory.resolve (instances : List ModuleInstance) : Memory → Memory
  | .own buffer => .own buffer
  | .imported me => .imported ((instances[me]?.bind ModuleInstance.memoryOwner).getD me)

def Global.resolve (instances : List ModuleInstance) : Global → Global
  | .own val valHi => .own val valHi
  | .imported me index =>
    match instances[me]?.bind fun inst => inst.globals[index]? with
    | some (.imported me' index') => .imported me' index'
    | _ => .imported me index

/-- A module that imports its memory has the words for it in its own context. -/
def resolveImportedMemory (s : Contexts) (me : Nat) : Option Nat :=
  match s.instances[me]?.bind ModuleInstance.memoryOwner with
  | some _ => s.contexts[me]?.bind ModuleContext.importedMemory
  | none => some me

def Contexts.newModuleEngine (s : Contexts) (decl : ModuleInstance) : Contexts :=
  ⟨s.instances ++ [{ decl with
      memory := decl.memory.map (Memory.resolve s.instances)
      globals := decl.globals.map (Global.resolve s.instances) }],
    s.contexts ++ [{ importedMemory := decl.memoryOwner.bind (resolveImportedMemory s) }]⟩

def Contexts.doneInstantiation (s : Contexts) (me : Nat) : Contexts :=
  match s.instances[me]? with
  | some inst => { s with contexts := s.contexts.modify me (setupOpaque inst) }
  | none => s

/-- The memory of the instance has got a new buffer, and `MemoryGrown` has been called. -/
def Contexts.memoryGrown (s : Contexts) (me : Nat) (buffer : Buffer) : Contexts :=
  ⟨s.instances.modify me fun inst => { inst with memory := some (.own buffer) },
    s.contexts.modify me fun ctx => { ctx with localMemory := some buffer }⟩

/-- A global is written, by `SetGlobalValue` or by code, in the context of the instance that has
it. -/
def Contexts.setGlobal (s : Contexts) (me index : Nat) (val valHi : BitVec 64) : Contexts :=
  ⟨s.instances.modify me fun inst =>
      { inst with globals := inst.globals.set index (.own val valHi) },
    s.contexts.modify me fun ctx =>
      { ctx with globals := ctx.globals.set index (.own val valHi) }⟩

/-- The buffer that code finds through the context that it runs in. -/
def Contexts.loadMemory (s : Contexts) (me : Nat) : Option Buffer := do
  let ctx ← s.contexts[me]?
  match ctx.importedMemory with
  | some owner => s.instances[owner]?.bind ModuleInstance.ownMemory
  | none => ctx.localMemory

/-- The value that code finds for a global, where contexts or instances hold the given globals. -/
def loadGlobal (globals : Nat → Option (List Global)) (me index : Nat) :
    Option (BitVec 64 × BitVec 64) := do
  match ← (← globals me)[index]? with
  | .own val valHi => some (val, valHi)
  | .imported me' index' =>
    match ← (← globals me')[index']? with
    | .own val valHi => some (val, valHi)
    | .imported _ _ => none

end Source

/-- The buffer of the instance's memory. -/
def Contexts.memoryOf (s : Contexts) (me : Nat) : Option Buffer := do
  let inst ← s.instances[me]?
  match inst.memoryOwner with
  | some owner => s.instances[owner]?.bind ModuleInstance.ownMemory
  | none => inst.ownMemory

/-- Code that runs in the context finds there what the instance has. -/
structure OnOwnState (s : Contexts) (me : Nat) : Prop where
  memory : s.loadMemory me = s.memoryOf me
  globals : ∀ index, loadGlobal (s.contexts[·]?.map ModuleContext.globals) me index =
    loadGlobal (s.instances[·]?.map ModuleInstance.globals) me index
  tables : s.contexts[me]?.map ModuleContext.tables = s.instances[me]?.map ModuleInstance.tables
  tags : s.contexts[me]?.map ModuleContext.tags = s.instances[me]?.map ModuleInstance.tags
  typeIDs : ∀ inst, s.instances[me]? = some inst → inst.tables ≠ [] →
    s.contexts[me]?.map ModuleContext.typeIDs = some inst.typeIDs

/-- The context of an instance, before and after it is set up. -/
def contextOf (done : Bool) (inst : ModuleInstance) : ModuleContext :=
  if done then setupOpaque inst { importedMemory := inst.memoryOwner }
  else { importedMemory := inst.memoryOwner }

/-- The contexts that are set up hold what the instances have, and what they import is of such. -/
structure Coherent (s : Contexts) (done : Nat → Bool) : Prop where
  contexts : ∀ me : Nat, s.contexts[me]? = s.instances[me]?.map (contextOf (done me))
  globals : ∀ inst ∈ s.instances, ∀ me index, .imported me index ∈ inst.globals → done me = true

section Proofs

variable {s : Contexts} {done : Nat → Bool} {me : Nat} {inst : ModuleInstance}

@[simp] theorem importedMemory_contextOf (done : Bool) (inst : ModuleInstance) :
    (contextOf done inst).importedMemory = inst.memoryOwner := by
  unfold contextOf setupOpaque
  split
  · dsimp only
    split <;> split <;> rfl
  · rfl

theorem setupOpaque_contextOf (inst : ModuleInstance) :
    setupOpaque inst (contextOf false inst) = contextOf true inst :=
  rfl

theorem contextOf_true (inst : ModuleInstance) : contextOf true inst =
    ⟨inst.ownMemory, inst.memoryOwner, inst.globals, if inst.tables = [] then [] else inst.typeIDs,
      inst.tables, inst.tags⟩ := by
  cases hmemory : inst.ownMemory with
  | none =>
    by_cases htables : inst.tables = [] <;> simp [contextOf, setupOpaque, hmemory, htables]
  | some buffer =>
    by_cases htables : inst.tables = [] <;> simp [contextOf, setupOpaque, hmemory, htables]

theorem Coherent.globals_eq (h : Coherent s done) (hdone : done me = true) :
    s.contexts[me]?.map ModuleContext.globals = s.instances[me]?.map ModuleInstance.globals := by
  rw [h.contexts, hdone, Option.map_map]
  congr 1
  funext inst
  simp [contextOf_true]

theorem Coherent.onOwnState (h : Coherent s done) (hdone : done me = true) : OnOwnState s me := by
  have hcontext := h.contexts me
  rw [hdone] at hcontext
  refine ⟨?_, fun index => ?_, ?_, ?_, fun inst hinst htables => ?_⟩
  · rw [Contexts.loadMemory, Contexts.memoryOf, hcontext]
    cases s.instances[me]? with
    | none => rfl
    | some inst => simp [contextOf_true]
  · simp only [loadGlobal, h.globals_eq hdone]
    cases hinst : s.instances[me]? with
    | none => rfl
    | some inst =>
      simp only [Option.map_some, bind_eq_bind, bind_some]
      cases hglobal : inst.globals[index]? with
      | none => rfl
      | some g =>
        cases g with
        | own val valHi => rfl
        | imported me' index' =>
          have hdone' := h.globals inst (mem_of_getElem? hinst) me' index' (mem_of_getElem? hglobal)
          simp only [bind_some, h.globals_eq hdone']
  · rw [hcontext, Option.map_map]
    congr 1
    funext inst
    simp [contextOf_true]
  · rw [hcontext, Option.map_map]
    congr 1
  · rw [hcontext, hinst]
    simp [contextOf_true, htables]

theorem ModuleInstance.memoryOwner_of_ownMemory (h : inst.ownMemory.isSome) :
    inst.memoryOwner = none := by
  unfold ModuleInstance.ownMemory at h
  unfold ModuleInstance.memoryOwner
  split at h
  · simp [*]
  · cases h

@[simp] theorem length_doneInstantiation (s : Contexts) (me : Nat) :
    (s.doneInstantiation me).instances.length = s.instances.length := by
  unfold Contexts.doneInstantiation
  split <;> rfl

theorem Coherent.length (h : Coherent s done) : s.contexts.length = s.instances.length := by
  have heq : s.contexts = s.instances.mapIdx fun me => contextOf (done me) :=
    ext_getElem? fun me => by rw [h.contexts, getElem?_mapIdx]
  rw [heq, length_mapIdx]

theorem Coherent.importedMemory (h : Coherent s done) (decl : ModuleInstance) :
    decl.memoryOwner.bind (resolveImportedMemory s) = ModuleInstance.memoryOwner
      { decl with memory := decl.memory.map (Memory.resolve s.instances) } := by
  unfold ModuleInstance.memoryOwner
  cases decl.memory with
  | none => rfl
  | some memory =>
    cases memory with
    | own buffer => rfl
    | imported me =>
      simp only [bind_some, Option.map_some, Memory.resolve, resolveImportedMemory, h.contexts]
      cases s.instances[me]? with
      | none => rfl
      | some inst => cases hinst : inst.memoryOwner <;> simp [hinst]

theorem Coherent.newModuleEngine (h : Coherent s done) {decl : ModuleInstance}
    (hnew : done s.instances.length = false)
    (hglobals : ∀ me index, .imported me index ∈ decl.globals → done me = true) :
    Coherent (s.newModuleEngine decl) done := by
  constructor
  · intro me
    rw [Contexts.newModuleEngine, getElem?_append, getElem?_append, h.length]
    split
    · exact h.contexts me
    by_cases hme : me = s.instances.length
    · subst hme
      simp only [Nat.sub_self, getElem?_cons_zero, Option.map_some, hnew, contextOf,
        Bool.false_eq_true, if_false, h.importedMemory]
      rfl
    · rw [getElem?_eq_none, getElem?_eq_none]
      · rfl
      all_goals rw [length_singleton]; omega
  · intro inst hinst me index hmem
    rcases mem_append.1 hinst with hinst | hinst
    · exact h.globals inst hinst me index hmem
    rw [mem_singleton.1 hinst] at hmem
    obtain ⟨g, hg, hresolve⟩ := mem_map.1 hmem
    cases g with
    | own val valHi => cases hresolve
    | imported me' index' =>
      simp only [Global.resolve] at hresolve
      split at hresolve
      next me'' index'' hglobal =>
        cases hresolve
        obtain ⟨inst', hinst', hglobal⟩ := bind_eq_some_iff.1 hglobal
        exact h.globals inst' (mem_of_getElem? hinst') _ _ (mem_of_getElem? hglobal)
      next =>
        cases hresolve
        exact hglobals _ _ hg

theorem Coherent.doneInstantiation (h : Coherent s done) (hnot : done me = false) :
    Coherent (s.doneInstantiation me) (Function.update done me true) := by
  have hmono (k : Nat) (hk : done k = true) : Function.update done me true k = true := by
    by_cases hne : k = me <;> simp [hne, hk]
  unfold Contexts.doneInstantiation
  split
  next inst hinst =>
    refine ⟨fun k => ?_, fun inst' hinst' k index hmem =>
      hmono k (h.globals inst' hinst' k index hmem)⟩
    rw [getElem?_modify, h.contexts]
    by_cases hne : me = k
    · subst hne
      simp [hinst, hnot, setupOpaque_contextOf]
    · simp [hne, Ne.symm hne]
  next hnone =>
    refine ⟨fun k => ?_, fun inst' hinst' k index hmem =>
      hmono k (h.globals inst' hinst' k index hmem)⟩
    by_cases hne : k = me
    · rw [h.contexts, hne, hnone]
      rfl
    · simp [h.contexts, hne]

theorem Coherent.memoryGrown (h : Coherent s done) (hdone : done me = true)
    (hown : ∀ inst, s.instances[me]? = some inst → inst.memoryOwner = none) (buffer : Buffer) :
    Coherent (s.memoryGrown me buffer) done := by
  refine ⟨fun k => ?_, fun inst hinst k index hmem => ?_⟩
  · rw [Contexts.memoryGrown, getElem?_modify, getElem?_modify, h.contexts]
    by_cases hne : me = k
    · subst hne
      cases hinst : s.instances[me]? with
      | none => rfl
      | some inst =>
        simp only [if_true, Option.map_eq_map, Option.map_some, hdone, contextOf_true,
          hown inst hinst]
        rfl
    · simp [hne]
  · rcases mem_or_eq_of_mem_modify hinst with hinst | ⟨inst', hinst', rfl⟩
    · exact h.globals inst hinst k index hmem
    · exact h.globals inst' hinst' k index hmem

theorem Coherent.setGlobal (h : Coherent s done) (hdone : done me = true) (index : Nat)
    (val valHi : BitVec 64) : Coherent (s.setGlobal me index val valHi) done := by
  refine ⟨fun k => ?_, fun inst hinst k i hmem => ?_⟩
  · rw [Contexts.setGlobal, getElem?_modify, getElem?_modify, h.contexts]
    by_cases hne : me = k
    · subst hne
      cases s.instances[me]? with
      | none => rfl
      | some inst =>
        simp only [if_true, Option.map_eq_map, Option.map_some, hdone, contextOf_true]
        rfl
    · simp [hne]
  · rcases mem_or_eq_of_mem_modify hinst with hinst | ⟨inst', hinst', rfl⟩
    · exact h.globals inst hinst k i hmem
    · rcases mem_or_eq_of_mem_set hmem with hmem | heq
      · exact h.globals inst' hinst' k i hmem
      · cases heq

end Proofs

end Andsifr.Wazevo.FunctionReference
