import Mathlib.Data.BitVec
import Andsifr.Lib.Lists
import Andsifr.Wasm.Module

namespace Andsifr.Wazevo.FunctionReference

open Lib List
open Andsifr.Wasm (ValueType)

/-- The first word of a module context, which is read as the pointer to the module instance. -/
inductive ContextHead where
  | unset
  | moduleInstance
  /-- A host module has the pointer to its `wasm.Module` there. -/
  | hostModule
  deriving DecidableEq

/-- `functionInstance`: the code, as the compiled module and the position in its `functionOffsets`,
the module engine whose context the code runs in, and the eight bytes of `typeID` and
`indexInModule`. -/
structure FunctionInstance where
  executable : Nat × Nat
  moduleContextOpaquePtr : Nat
  typeIDAndIndex : BitVec 64

def FunctionInstance.typeID (f : FunctionInstance) : BitVec 32 :=
  f.typeIDAndIndex.extractLsb' 0 32

def FunctionInstance.indexInModule (f : FunctionInstance) : Nat :=
  (f.typeIDAndIndex.extractLsb' 32 32).toNat

/-- `importedFunctions` has the module engine and the index of each imported function, and
`importedInstances` are the records that the context has for them. -/
structure ModuleEngine where
  parent : Nat
  localTypeIDs : List (BitVec 32)
  importedFunctions : List (Nat × Nat)
  importedInstances : List FunctionInstance

/-- The module engines made so far and the first words of their contexts. -/
structure Engines where
  engines : List ModuleEngine
  heads : List ContextHead

/-- An import: the type identifier that the importing module expects, the module engine that exports
the function and its index there. -/
structure Import where
  typeID : BitVec 32
  importedModuleEngine : Nat
  indexInImportedModule : Nat

inductive EngineOp where
  | newModuleEngine (parent : Nat) (isHostModule : Bool) (localTypeIDs : List (BitVec 32))
    (imports : List Import)
  | doneInstantiation (me : Nat)

/-- A reference is the address of an imported function's record in the context of a module, or of
the record that a module makes for a function of its own. -/
structure Reference where
  me : Nat
  funcIndex : Nat

structure TableInstance where
  type : ValueType
  references : List (Option Reference)

inductive CallError where
  | invalidTableAccess
  | indirectCallTypeMismatch
  deriving DecidableEq

section Source

/-- The module engine that `ResolveImportedFunction` ends at, with the index of the function
there. -/
def resolve (engines : List ModuleEngine) : Nat → Nat → Nat → Option (Nat × Nat)
  | 0, _, _ => none
  | fuel + 1, me, index => do
    let importedME ← engines[me]?
    if index < importedME.importedFunctions.length then
      let imported ← importedME.importedFunctions[index]?
      resolve engines fuel imported.1 imported.2
    else
      return (me, index)

def resolveImportedFunction (engines : List ModuleEngine) (i : Import) :
    Option ((Nat × Nat) × FunctionInstance) := do
  let (me, index) ← resolve engines (engines.length + 1) i.importedModuleEngine
    i.indexInImportedModule
  let importedME ← engines[me]?
  let position := index - importedME.importedFunctions.length
  guard (position < importedME.localTypeIDs.length)
  -- the type identifier is written as eight bytes, over `indexInModule` too
  return ((me, index), ⟨(importedME.parent, position), me, i.typeID.setWidth 64⟩)

def Engines.step (s : Engines) : EngineOp → Option Engines
  | .newModuleEngine parent isHostModule localTypeIDs imports => do
    let resolved ← imports.mapM (resolveImportedFunction s.engines)
    guard (imports.length + localTypeIDs.length ≤ 2 ^ 32)
    return ⟨s.engines ++ [⟨parent, localTypeIDs, resolved.map Prod.fst, resolved.map Prod.snd⟩],
      s.heads ++ [if isHostModule then .hostModule else .unset]⟩
  | .doneInstantiation me => do
    let head ← s.heads[me]?
    return { s with
      heads := s.heads.set me (if head = .hostModule then .hostModule else .moduleInstance) }

def Engines.run (s : Engines) (ops : List EngineOp) : Option Engines :=
  ops.foldlM Engines.step s

/-- The interpreter copies the function, with its module instance and its index there. -/
def stepFunctions (functions : List (List (Nat × Nat))) :
    EngineOp → Option (List (List (Nat × Nat)))
  | .newModuleEngine _ _ localTypeIDs imports => do
    let imported ← imports.mapM fun i => do
      let fs ← functions[i.importedModuleEngine]?
      fs[i.indexInImportedModule]?
    let declared := (range localTypeIDs.length).map fun k => (functions.length, imports.length + k)
    return functions ++ [imported ++ declared]
  | .doneInstantiation _ => some functions

/-- The record at a reference made by `FunctionInstanceReference`. -/
def functionInstance (engines : List ModuleEngine) (r : Reference) : Option FunctionInstance := do
  let m ← engines[r.me]?
  if r.funcIndex < m.importedFunctions.length then
    m.importedInstances[r.funcIndex]?
  else
    let localIndex := r.funcIndex - m.importedFunctions.length
    let typeID ← m.localTypeIDs[localIndex]?
    return ⟨(m.parent, localIndex), r.me, BitVec.ofNat 32 r.funcIndex ++ typeID⟩

/-- `call_indirect` runs the code of the record, in the context that the record names, after the
checks of the bounds, of null and of the type. -/
def callIndirect (s : Engines) (t : TableInstance) (typeId : BitVec 32) (tableOffset : Nat) :
    Except CallError (Option FunctionInstance) :=
  match t.references[tableOffset]? with
  | some (some r) =>
    match functionInstance s.engines r with
    | some f => if f.typeID = typeId then .ok (some f) else .error .indirectCallTypeMismatch
    | none => .ok none
  | _ => .error .invalidTableAccess

/-- The same checks, after one of the table's type. -/
def lookupFunction (s : Engines) (t : TableInstance) (typeId : BitVec 32) (tableOffset : Nat) :
    Except CallError (Option (ContextHead × Nat × Nat)) :=
  if t.type ≠ .funcref ∧ t.type.isConcreteRef = false then
    .error .invalidTableAccess
  else
    (callIndirect s t typeId tableOffset).map fun f => do
      let f ← f
      let head ← s.heads[f.moduleContextOpaquePtr]?
      return (head, f.moduleContextOpaquePtr, f.indexInModule)

end Source

/-- The function of a module engine whose code and context a record has. -/
def Runs (engines : List ModuleEngine) (f : FunctionInstance) (index : Nat) : Prop :=
  ∃ m, engines[f.moduleContextOpaquePtr]? = some m ∧ m.importedFunctions.length ≤ index ∧
    index < m.importedFunctions.length + m.localTypeIDs.length ∧
    f.executable = (m.parent, index - m.importedFunctions.length)

/-- A record that `ResolveImportedFunction` wrote for a function. -/
structure Written (engines : List ModuleEngine) (target : Nat × Nat)
    (f : FunctionInstance) : Prop where
  context : f.moduleContextOpaquePtr = target.1
  runs : Runs engines f target.2
  index : f.indexInModule = 0

def declared (me : Nat) (m : ModuleEngine) : List (Nat × Nat) :=
  (range m.localTypeIDs.length).map fun k => (me, m.importedFunctions.length + k)

/-- A module engine agrees with the functions the interpreter has for the same module. -/
structure Linked (engines : List ModuleEngine) (me : Nat) (m : ModuleEngine)
    (fs : List (Nat × Nat)) : Prop where
  functions : fs = m.importedFunctions ++ declared me m
  imported : List.Forall₂ (fun target f => target.1 < me ∧ Written engines target f)
    m.importedFunctions
    m.importedInstances
  bound : m.importedFunctions.length + m.localTypeIDs.length ≤ 2 ^ 32

structure Inv (s : Engines) (functions : List (List (Nat × Nat))) : Prop where
  heads : s.heads.length = s.engines.length
  length : functions.length = s.engines.length
  linked : ∀ me m, s.engines[me]? = some m → ∃ fs, functions[me]? = some fs ∧
    Linked s.engines me m fs

section Proofs

variable {engines : List ModuleEngine} {functions : List (List (Nat × Nat))} {s s' : Engines}

theorem indexInModule_setWidth (executable : Nat × Nat) (me : Nat) (typeID : BitVec 32) :
    (FunctionInstance.mk executable me (typeID.setWidth 64)).indexInModule = 0 := by
  have hzero : (typeID.setWidth 64).extractLsb' 32 32 = 0#32 := by
    ext i hi
    simp
  rw [FunctionInstance.indexInModule, hzero]
  rfl

theorem indexInModule_append (executable : Nat × Nat) (me : Nat) (typeID : BitVec 32) {index : Nat}
    (h : index < 2 ^ 32) :
    (FunctionInstance.mk executable me
      (BitVec.ofNat 32 index ++ typeID)).indexInModule = index := by
  have hhigh : (BitVec.ofNat 32 index ++ typeID).extractLsb' 32 32 = BitVec.ofNat 32 index := by
    ext i hi
    rw [BitVec.getElem_extractLsb', BitVec.getLsbD_append, if_neg (by omega),
      Nat.add_sub_cancel_left, BitVec.getLsbD_eq_getElem hi]
  rw [FunctionInstance.indexInModule, hhigh, BitVec.toNat_ofNat, Nat.mod_eq_of_lt h]

variable {f : FunctionInstance}

theorem Written.mono {target : Nat × Nat} (h : Written engines target f)
    (more : List ModuleEngine) : Written (engines ++ more) target f := by
  obtain ⟨m, hm, hrest⟩ := h.runs
  exact ⟨h.context, ⟨m, by rwa [List.getElem?_append_left (List.getElem?_eq_some_iff.1 hm).1],
    hrest⟩, h.index⟩

theorem getElem?_declared {me k : Nat} {m : ModuleEngine} (hk : k < m.localTypeIDs.length) :
    (declared me m)[k]? = some (me, m.importedFunctions.length + k) := by
  rw [declared, getElem?_map, getElem?_range hk]
  rfl

section

variable (h : Inv s functions)

include h

theorem Inv.resolve {fuel me index : Nat} {m : ModuleEngine} (hm : s.engines[me]? = some m) :
    resolve s.engines (fuel + 2) me index =
      if index < m.importedFunctions.length then m.importedFunctions[index]? else
        some (me, index) := by
  rw [FunctionReference.resolve, hm, Option.bind_eq_bind, Option.bind_some]
  split
  · rename_i hlt
    obtain ⟨fs, -, hlinked⟩ := h.linked me m hm
    obtain ⟨f, -, -, hwritten⟩ := exists_of_forall₂ hlinked.imported (getElem?_eq_getElem hlt)
    obtain ⟨d, hd, hle, -⟩ := hwritten.runs
    rw [hwritten.context] at hd
    rw [getElem?_eq_getElem hlt, Option.bind_eq_bind, Option.bind_some,
      FunctionReference.resolve, hd, Option.bind_eq_bind, Option.bind_some, if_neg (not_lt.2 hle)]
    rfl
  · rfl

theorem Inv.resolveImportedFunction {i : Import} {target : Nat × Nat}
    (hi : resolveImportedFunction s.engines i = some (target, f)) :
    (functions[i.importedModuleEngine]?.bind fun fs => fs[i.indexInImportedModule]?) = some target ∧
      target.1 < s.engines.length ∧ Written s.engines target f := by
  simp only [FunctionReference.resolveImportedFunction, Option.bind_eq_bind,
    Option.bind_eq_some_iff] at hi
  obtain ⟨⟨me, index⟩, hresolve, d, hd, _, hguard, hret⟩ := hi
  have hposition : index - d.importedFunctions.length < d.localTypeIDs.length := by
    by_contra hge
    simp only [guard, if_neg hge] at hguard
    cases hguard
  cases hret
  obtain ⟨m, hm⟩ : ∃ m, s.engines[i.importedModuleEngine]? = some m := by
    obtain ⟨m, hm, -⟩ := Option.bind_eq_some_iff.1 hresolve
    exact ⟨m, hm⟩
  obtain ⟨n, hn⟩ : ∃ n, s.engines.length = n + 1 :=
    ⟨s.engines.length - 1, by have := (List.getElem?_eq_some_iff.1 hm).1; omega⟩
  rw [hn, h.resolve hm] at hresolve
  obtain ⟨fs, hfs, hlinked⟩ := h.linked _ m hm
  rw [hfs, Option.bind_some, hlinked.functions]
  have hwritten (hle : d.importedFunctions.length ≤ index) : Written s.engines (me, index)
      ⟨(d.parent, index - d.importedFunctions.length), me, i.typeID.setWidth 64⟩ :=
    ⟨rfl, ⟨d, hd, hle, by omega, rfl⟩, indexInModule_setWidth _ _ _⟩
  split at hresolve
  · rename_i hlt
    obtain ⟨f, -, hless, hold⟩ := exists_of_forall₂ hlinked.imported hresolve
    obtain ⟨d', hd', hle, -⟩ := hold.runs
    rw [hold.context, hd] at hd'
    cases hd'
    exact ⟨by rwa [List.getElem?_append_left hlt], (List.getElem?_eq_some_iff.1 hd).1, hwritten hle⟩
  · rename_i hge
    cases hresolve
    rw [hm] at hd
    cases hd
    have hle := not_lt.1 hge
    refine ⟨?_, (List.getElem?_eq_some_iff.1 hm).1, hwritten hle⟩
    rw [getElem?_append_right hle, getElem?_declared hposition, Nat.add_sub_cancel' hle]

theorem Inv.step {op : EngineOp} (hstep : s.step op = some s') :
    ∃ functions', stepFunctions functions op = some functions' ∧ Inv s' functions' := by
  cases op with
  | doneInstantiation me =>
    obtain ⟨head, -, hret⟩ := Option.bind_eq_some_iff.1 hstep
    cases hret
    exact ⟨functions, rfl, by rw [length_set]; exact h.heads, h.length, h.linked⟩
  | newModuleEngine parent isHostModule localTypeIDs imports =>
    simp only [Engines.step, Option.bind_eq_bind, Option.bind_eq_some_iff] at hstep
    obtain ⟨resolved, hresolved, _, hguard, hret⟩ := hstep
    cases hret
    have hall := mapM_eq_some_iff.1 hresolved
    have hcopied : imports.mapM (fun i => functions[i.importedModuleEngine]?.bind fun fs =>
        fs[i.indexInImportedModule]?) = some (resolved.map Prod.fst) := by
      rw [mapM_eq_some_iff, forall₂_map_right_iff]
      exact hall.imp fun i p hp => (h.resolveImportedFunction hp).1
    have hlength : resolved.length = imports.length := hall.length_eq.symm
    have hbound : imports.length + localTypeIDs.length ≤ 2 ^ 32 := by
      by_contra hgt
      simp only [guard, if_neg hgt] at hguard
      cases hguard
    refine ⟨_, by simp only [stepFunctions, Option.bind_eq_bind, hcopied]; rfl, ?_, ?_,
      fun me m hm => ?_⟩
    · rw [length_append, length_append, h.heads]
      rfl
    · rw [length_append, length_append, h.length]
      rfl
    · rw [getElem?_append] at hm
      split at hm
      · obtain ⟨fs, hfs, hlinked⟩ := h.linked me m hm
        refine ⟨fs, getElem?_mono (prefix_append _ _) hfs, hlinked.functions,
          hlinked.imported.imp fun target f hf => ⟨hf.1, hf.2.mono _⟩, hlinked.bound⟩
      obtain ⟨hlt, hm⟩ := List.getElem?_eq_some_iff.1 hm
      have hme : me = s.engines.length := by
        rw [length_singleton] at hlt
        omega
      rw [getElem_singleton] at hm
      cases hm
      subst hme
      refine ⟨_, by rw [← h.length]; exact getElem?_concat_length, ?_, ?_, ?_⟩
      · rw [declared, length_map, hlength, h.length]
      · rw [forall₂_map_left_iff, forall₂_map_right_iff, forall₂_same]
        intro p hp
        obtain ⟨k, hk⟩ := getElem?_of_mem hp
        obtain ⟨i, -, hi⟩ := exists_of_forall₂ hall.flip hk
        obtain ⟨-, hlt, hwritten⟩ := h.resolveImportedFunction hi
        exact ⟨hlt, hwritten.mono _⟩
      · rwa [length_map, hlength]

theorem Inv.run {ops : List EngineOp} (hrun : s.run ops = some s') :
    ∃ functions', ops.foldlM stepFunctions functions = some functions' ∧ Inv s' functions' := by
  induction ops generalizing s functions with
  | nil =>
    cases hrun
    exact ⟨functions, rfl, h⟩
  | cons op ops ih =>
    obtain ⟨s₁, hstep, hrest⟩ := Option.bind_eq_some_iff.1 (foldlM_cons.symm.trans hrun)
    obtain ⟨functions₁, hstep', h₁⟩ := h.step hstep
    obtain ⟨functions₂, hrest', h₂⟩ := ih h₁ hrest
    exact ⟨functions₂, by rw [foldlM_cons, hstep']; exact hrest', h₂⟩

/-- The record at a reference has the code and the context of the interpreter's function, and its
index only if the module of the reference defines the function or the index is zero. -/
theorem Inv.functionInstance {r : Reference} (hf : functionInstance s.engines r = some f) :
    ∃ me index, (functions[r.me]?.bind fun fs => fs[r.funcIndex]?) = some (me, index) ∧
      f.moduleContextOpaquePtr = me ∧ Runs s.engines f index ∧
      (f.indexInModule = index ↔ r.me = me ∨ index = 0) := by
  obtain ⟨m, hm, hf⟩ := Option.bind_eq_some_iff.1 hf
  obtain ⟨fs, hfs, hlinked⟩ := h.linked _ m hm
  rw [hfs, Option.bind_some, hlinked.functions]
  split at hf
  · rename_i hlt
    obtain ⟨f', hf', hless, hwritten⟩ := exists_of_forall₂ hlinked.imported
      (getElem?_eq_getElem hlt)
    rw [hf] at hf'
    cases hf'
    refine ⟨_, _, by rw [List.getElem?_append_left hlt, getElem?_eq_getElem hlt], hwritten.context,
      hwritten.runs, ?_⟩
    rw [hwritten.index]
    constructor
    · exact fun hzero => Or.inr hzero.symm
    · rintro (hme | hzero)
      · exact absurd hme (ne_of_gt hless)
      · exact hzero.symm
  · rename_i hge
    obtain ⟨typeID, htype, hret⟩ := Option.bind_eq_some_iff.1 hf
    cases hret
    have hle := not_lt.1 hge
    have hlt := (List.getElem?_eq_some_iff.1 htype).1
    have hbound := hlinked.bound
    refine ⟨r.me, r.funcIndex, ?_, rfl, ⟨m, hm, hle, by omega, rfl⟩, ?_⟩
    · rw [getElem?_append_right hle, getElem?_declared hlt, Nat.add_sub_cancel' hle]
    · rw [indexInModule_append _ _ _ (by omega)]
      exact ⟨fun _ => Or.inl rfl, fun _ => rfl⟩

end

end Proofs

/-- If `call_indirect` on a slot runs a function, `LookupFunction` returns the module instance and
the index of that function exactly if the function's module is a guest whose instantiation is done,
and the reference is one of that module or the function is its function zero. -/
theorem lookupFunction_agrees_iff (ops : List EngineOp) {s : Engines}
    (hrun : Engines.run ⟨[], []⟩ ops = some s)
    (t : TableInstance) (htype : t.type = .funcref ∨ t.type.isConcreteRef = true)
    {typeId : BitVec 32}
    {tableOffset : Nat} {r : Reference} (hslot : t.references[tableOffset]? = some (some r))
    {f : FunctionInstance}
    (hcall : callIndirect s t typeId tableOffset = .ok (some f)) :
    ∃ functions me index, ops.foldlM stepFunctions [] = some functions ∧
      (functions[r.me]?.bind fun fs => fs[r.funcIndex]?) = some (me, index) ∧
      f.moduleContextOpaquePtr = me ∧ Runs s.engines f index ∧
      (lookupFunction s t typeId tableOffset = .ok (some (.moduleInstance, me, index)) ↔
        s.heads[me]? = some .moduleInstance ∧ (r.me = me ∨ index = 0)) := by
  have hempty : Inv ⟨[], []⟩ [] := ⟨rfl, rfl, fun me m hm => absurd hm (by simp)⟩
  obtain ⟨functions, hfunctions, hinv⟩ := hempty.run hrun
  have hf : functionInstance s.engines r = some f := by
    have hcall' := hcall
    simp only [callIndirect, hslot] at hcall'
    split at hcall'
    · rename_i f' hf'
      split at hcall'
      · cases hcall'
        exact hf'
      · cases hcall'
    · cases hcall'
  obtain ⟨me, index, hcopied, hcontext, hruns, hindex⟩ := hinv.functionInstance hf
  refine ⟨functions, me, index, hfunctions, hcopied, hcontext, hruns, ?_⟩
  have hchecked : ¬ (t.type ≠ .funcref ∧ t.type.isConcreteRef = false) := by
    rintro ⟨hfuncref, hconcrete⟩
    rcases htype with h | h
    · exact hfuncref h
    · rw [h] at hconcrete
      cases hconcrete
  rw [lookupFunction, if_neg hchecked, hcall, ← hindex, ← hcontext]
  cases hhead : s.heads[f.moduleContextOpaquePtr]? with
  | none => simp [Except.map, hhead]
  | some head => simp [Except.map, hhead]

/-- A module imports the second function of another one under its index zero. -/
def reexport : List EngineOp :=
  [.newModuleEngine 0 false [5, 6] [], .doneInstantiation 0,
    .newModuleEngine 1 false [] [⟨6, 0, 1⟩],
    .newModuleEngine 2 false [6] [⟨6, 1, 0⟩], .doneInstantiation 2]

theorem lookupFunction_own_function : ∃ s f, Engines.run ⟨[], []⟩ reexport = some s ∧
    callIndirect s ⟨.funcref, [some ⟨2, 1⟩]⟩ 6 0 = .ok (some f) ∧
    lookupFunction s ⟨.funcref, [some ⟨2, 1⟩]⟩ 6 0 = .ok (some (.moduleInstance, 2, 1)) := by
  refine ⟨_, _, rfl, rfl, ?_⟩
  obtain ⟨functions, me, index, hfunctions, hcopied, -, -, hiff⟩ :=
    lookupFunction_agrees_iff reexport rfl ⟨.funcref, [some ⟨2, 1⟩]⟩ (.inl rfl) rfl
      (show callIndirect _ ⟨.funcref, [some ⟨2, 1⟩]⟩ 6 0 = _ from rfl)
  cases hfunctions
  cases hcopied
  exact hiff.2 ⟨rfl, .inl rfl⟩

/-- `call_indirect` runs function one of the first module, and `LookupFunction` returns function
zero. -/
theorem lookupFunction_imported_function : ∃ s f, Engines.run ⟨[], []⟩ reexport = some s ∧
    callIndirect s ⟨.funcref, [some ⟨2, 0⟩]⟩ 6 0 = .ok (some f) ∧ Runs s.engines f 1 ∧
    f.moduleContextOpaquePtr = 0 ∧
    lookupFunction s ⟨.funcref, [some ⟨2, 0⟩]⟩ 6 0 = .ok (some (.moduleInstance, 0, 0)) :=
  ⟨_, _, rfl, rfl, ⟨_, rfl, by decide, by decide, rfl⟩, rfl, rfl⟩

end Andsifr.Wazevo.FunctionReference
