import Andsifr.Wazevo.FunctionReference
import Andsifr.Wazevo.ModuleContext

namespace Andsifr.Wazevo.FunctionReference

open Lib List

/-- A place that holds references: a table, or a global as a table of one slot. -/
abbrev Slots := List (Option Reference)

structure Shared where
  engines : Engines
  contexts : Contexts
  tables : List Slots

/-- The constant expressions of element segments, and of the tables and globals of the module. -/
inductive Item where
  | refNull
  | refFunc (funcIndex : Nat)
  | globalGet (table slot : Nat)

structure ElementSegment where
  table : Nat
  offset : Nat
  init : List Item

/-- Where `instantiate` fails: before the element segments are applied, or in `applyData`. -/
inductive Failure where
  | beforeElements
  | applyData

/-- The memory and the globals that `inst` imports are given by the instances that export them. -/
structure Instantiation where
  parent : Nat
  isHostModule : Bool
  localTypeIDs : List (BitVec 32)
  imports : List Import
  ownTables : List (List Item)
  elements : List ElementSegment
  failure : Option Failure
  inst : ModuleInstance

inductive SharedOp where
  | instantiate (i : Instantiation)
  /-- Code of the instance `me` stores a reference to one of its functions, or one it has read. -/
  | storeFunction (me funcIndex table slot : Nat)
  | copyReference (fromTable fromSlot table slot : Nat)
  | growMemory (me : Nat) (buffer : Buffer)
  | setGlobal (me index : Nat) (val valHi : BitVec 64)

section Source

def Item.evaluate (me : Nat) (tables : List Slots) : Item → Option Reference
  | .refNull => none
  | .refFunc funcIndex => some ⟨me, funcIndex⟩
  | .globalGet table slot => (tables[table]?.bind fun t => t[slot]?).join

def setSlot (tables : List Slots) (table slot : Nat) (r : Option Reference) : List Slots :=
  tables.modify table fun t => t.set slot r

def applyItems (me table : Nat) : List Slots → Nat → List Item → List Slots
  | tables, _, [] => tables
  | tables, slot, item :: items =>
    applyItems me table (setSlot tables table slot (item.evaluate me tables)) (slot + 1) items

/-- A segment that does not fit ends the loop without an error. -/
def applyElements (me : Nat) : List Slots → List ElementSegment → List Slots
  | tables, [] => tables
  | tables, elem :: elems =>
    match tables[elem.table]? with
    | some references =>
      if elem.init ≠ [] ∧ elem.offset + elem.init.length > references.length then tables
      else applyElements me (applyItems me elem.table tables elem.offset elem.init) elems
    | none => tables

/-- The tables the module has, imported and its own, after its element segments. -/
def Shared.written (s : Shared) (i : Instantiation) : List Slots :=
  let me := s.engines.engines.length
  let tables := i.ownTables.foldl (fun tables items => tables ++
    [items.map (Item.evaluate me tables)]) s.tables
  applyElements me tables i.elements

def Item.Valid (n : Nat) : Item → Bool
  | .refFunc funcIndex => funcIndex < n
  | _ => true

/-- The instances whose memory or globals the module imports. -/
def ModuleInstance.exporters (inst : ModuleInstance) : List Nat :=
  inst.memoryOwner.toList ++ inst.globals.filterMap fun
    | .own _ _ => none
    | .imported me _ => some me

/-- The module is validated, and exporting instances are in the store, with their contexts set up.
A host module exports functions only. -/
def Shared.instantiate (s : Shared) (i : Instantiation) : Option Shared := do
  guard (∀ imp ∈ i.imports, s.engines.heads[imp.importedModuleEngine]? ≠ some .unset)
  guard (∀ me ∈ i.inst.exporters, s.engines.heads[me]? = some .moduleInstance)
  guard (∀ items ∈ i.ownTables ++ i.elements.map ElementSegment.init, ∀ item ∈ items,
    item.Valid (i.imports.length + i.localTypeIDs.length))
  let me := s.engines.engines.length
  let engines ← s.engines.step (.newModuleEngine i.parent i.isHostModule i.localTypeIDs i.imports)
  let contexts := s.contexts.newModuleEngine i.inst
  match i.failure with
  | some .beforeElements => return ⟨engines, contexts, s.tables⟩
  | some .applyData => return ⟨engines, contexts, (s.written i).take s.tables.length⟩
  | none => return ⟨← engines.step (.doneInstantiation me),
      if i.isHostModule then contexts else contexts.doneInstantiation me, s.written i⟩

def Shared.step (s : Shared) : SharedOp → Option Shared
  | .instantiate i => s.instantiate i
  | .storeFunction me funcIndex table slot => do
    let m ← s.engines.engines[me]?
    guard (s.engines.heads[me]? = some .moduleInstance)
    guard (funcIndex < m.importedFunctions.length + m.localTypeIDs.length)
    return { s with tables := setSlot s.tables table slot (some ⟨me, funcIndex⟩) }
  | .copyReference fromTable fromSlot table slot =>
    let r := (s.tables[fromTable]?.bind fun t => t[fromSlot]?).join
    some { s with tables := setSlot s.tables table slot r }
  | .growMemory me buffer => do
    let inst ← s.contexts.instances[me]?
    guard (s.engines.heads[me]? = some .moduleInstance)
    guard inst.ownMemory.isSome
    return { s with contexts := s.contexts.memoryGrown me buffer }
  | .setGlobal me index val valHi => do
    let inst ← s.contexts.instances[me]?
    guard (s.engines.heads[me]? = some .moduleInstance)
    match inst.globals[index]? with
    | some (.own _ _) => return { s with contexts := s.contexts.setGlobal me index val valHi }
    | _ => none

def Shared.run (s : Shared) (ops : List SharedOp) : Option Shared :=
  ops.foldlM Shared.step s

end Source

def HeadSet (s : Engines) (me : Nat) : Prop :=
  ∃ head, s.heads[me]? = some head ∧ head ≠ .unset

/-- The record at the reference names a context that is set up. -/
def SetUp (s : Engines) (r : Reference) : Prop :=
  ∃ f, functionInstance s.engines r = some f ∧ HeadSet s f.moduleContextOpaquePtr

/-- A call through the reference runs the code of a module, and finds in the context the state that
the instance of this module has. The context of a host module holds no such state. -/
def RunsOnOwnState (s : Shared) (r : Reference) : Prop :=
  ∃ f index, functionInstance s.engines.engines r = some f ∧ Runs s.engines.engines f index ∧
    (s.engines.heads[f.moduleContextOpaquePtr]? = some .hostModule ∨
      s.engines.heads[f.moduleContextOpaquePtr]? = some .moduleInstance ∧
        OnOwnState s.contexts f.moduleContextOpaquePtr)

def Safe (s : Shared) : Prop :=
  ∀ t ∈ s.tables, ∀ r, some r ∈ t → RunsOnOwnState s r

/-- The data segments fail after a reference to a function of the module itself was written to an
imported table. -/
def Shared.Leaks (s : Shared) : SharedOp → Prop
  | .instantiate i => i.failure = some .applyData ∧
      ∃ t ∈ (s.written i).take s.tables.length, ∃ f, some ⟨s.engines.engines.length, f⟩ ∈ t ∧
        i.imports.length ≤ f
  | _ => False

def Shared.NeverLeaks : Shared → List SharedOp → Prop
  | _, [] => True
  | s, op :: ops => ¬ s.Leaks op ∧ ∀ s', s.step op = some s' → s'.NeverLeaks ops

section Tables

variable {P : Reference → Prop} {tables : List Slots} {me : Nat}

def AllSlots (P : Reference → Prop) (tables : List Slots) : Prop :=
  ∀ t ∈ tables, ∀ r, some r ∈ t → P r

theorem AllSlots.setSlot (h : AllSlots P tables) {r : Option Reference} (hr : ∀ x ∈ r, P x)
    (table slot : Nat) :
    AllSlots P (setSlot tables table slot r) := by
  intro t ht x hx
  rcases mem_or_eq_of_mem_modify ht with ht | ⟨t', ht', rfl⟩
  · exact h t ht x hx
  · rcases mem_or_eq_of_mem_set hx with hx | rfl
    · exact h t' ht' x hx
    · exact hr x rfl

theorem AllSlots.load (h : AllSlots P tables) (table slot : Nat) :
    ∀ x ∈ (tables[table]?.bind fun t => t[slot]?).join, P x := by
  intro x hx
  obtain ⟨t, ht, hslot⟩ := Option.bind_eq_some_iff.1 (Option.join_eq_some_iff.1 hx)
  exact h t (mem_of_getElem? ht) x (mem_of_getElem? hslot)

theorem AllSlots.evaluate (h : AllSlots P tables) {n : Nat}
    (hown : ∀ f < n, P ⟨me, f⟩) {item : Item}
    (hitem : item.Valid n) : ∀ x ∈ item.evaluate me tables, P x := by
  cases item with
  | refNull =>
    intro x hx
    cases hx
  | refFunc f =>
    intro x hx
    cases hx
    exact hown f (of_decide_eq_true hitem)
  | globalGet table slot => exact h.load table slot

theorem AllSlots.applyItems {n table : Nat} (hown : ∀ f < n, P ⟨me, f⟩)
    {items : List Item} {slot : Nat}
    (h : AllSlots P tables) (hitems : ∀ item ∈ items, item.Valid n) :
    AllSlots P (applyItems me table tables slot items) := by
  induction items generalizing tables slot with
  | nil => exact h
  | cons item items ih =>
    obtain ⟨hitem, hrest⟩ := forall_mem_cons.1 hitems
    exact ih (h.setSlot (h.evaluate hown hitem) table slot) hrest

theorem AllSlots.applyElements {n : Nat} (hown : ∀ f < n, P ⟨me, f⟩) {elems : List ElementSegment}
    (h : AllSlots P tables) (helems : ∀ items ∈ elems.map ElementSegment.init, ∀ item ∈ items,
      item.Valid n) :
    AllSlots P (applyElements me tables elems) := by
  induction elems generalizing tables with
  | nil => exact h
  | cons elem elems ih =>
    obtain ⟨helem, hrest⟩ := forall_mem_cons.1 helems
    unfold FunctionReference.applyElements
    split
    · split
      · exact h
      · exact ih (h.applyItems hown helem) hrest
    · exact h

theorem AllSlots.create {n : Nat} (hown : ∀ f < n, P ⟨me, f⟩) {own : List (List Item)}
    (h : AllSlots P tables)
    (hitems : ∀ items ∈ own, ∀ item ∈ items, item.Valid n) :
    AllSlots P (own.foldl (fun tables items => tables ++
      [items.map (Item.evaluate me tables)]) tables) := by
  induction own generalizing tables with
  | nil => exact h
  | cons items own ih =>
    obtain ⟨hfirst, hrest⟩ := forall_mem_cons.1 hitems
    refine ih (fun t ht r hr => ?_) hrest
    rcases mem_append.1 ht with ht | ht
    · exact h t ht r hr
    · rw [mem_singleton.1 ht] at hr
      obtain ⟨item, hitem, heq⟩ := mem_map.1 hr
      exact h.evaluate hown (hfirst item hitem) r heq

end Tables

section Run

variable {s s' : Shared} {e e' : Engines} {functions : List (List (Nat × Nat))}

/-- What the steps keep: imported functions are of modules whose contexts are set up. -/
structure Kept (s : Engines) : Prop where
  inv : ∃ functions, Inv s functions
  imported : ∀ (me : Nat) (m : ModuleEngine), s.engines[me]? = some m →
    ∀ target ∈ m.importedFunctions,
    HeadSet s target.1

structure Later (e e' : Engines) : Prop where
  engines : e.engines <+: e'.engines
  heads : ∀ me, HeadSet e me → HeadSet e' me

theorem SetUp.later {r : Reference} (h : SetUp e r) (hlater : Later e e') : SetUp e' r := by
  obtain ⟨f, hf, hhead⟩ := h
  obtain ⟨m, hm, hrest⟩ := Option.bind_eq_some_iff.1 hf
  exact ⟨f, Option.bind_eq_some_iff.2 ⟨m, getElem?_mono hlater.engines hm, hrest⟩,
    hlater.heads _ hhead⟩

theorem Kept.setUp_imported (h : Kept e) {me k : Nat} {m : ModuleEngine}
    (hm : e.engines[me]? = some m)
    (hk : k < m.importedFunctions.length) : SetUp e ⟨me, k⟩ := by
  obtain ⟨functions, hinv⟩ := h.inv
  obtain ⟨fs, -, hlinked⟩ := hinv.linked me m hm
  obtain ⟨f, hf, -, hwritten⟩ := exists_of_forall₂ hlinked.imported (getElem?_eq_getElem hk)
  refine ⟨f, ?_, ?_⟩
  · rw [functionInstance, hm, Option.bind_eq_bind, Option.bind_some, if_pos hk, hf]
  · rw [hwritten.context]
    exact h.imported me m hm _ (getElem_mem hk)

theorem Kept.setUp_own (h : Kept e) {me k : Nat} {m : ModuleEngine} (hm : e.engines[me]? = some m)
    (hk : k < m.importedFunctions.length + m.localTypeIDs.length) (hhead : HeadSet e me) :
    SetUp e ⟨me, k⟩ := by
  by_cases hlt : k < m.importedFunctions.length
  · exact h.setUp_imported hm hlt
  have hlocal : k - m.importedFunctions.length < m.localTypeIDs.length := by omega
  refine ⟨⟨(m.parent, k - m.importedFunctions.length), me,
    BitVec.ofNat 32 k ++ m.localTypeIDs[k - m.importedFunctions.length]⟩, ?_, hhead⟩
  simp only [functionInstance, hm, Option.bind_eq_bind, Option.bind_some, if_neg hlt,
    getElem?_eq_getElem hlocal]
  rfl

theorem Kept.done (h : Kept e) {me : Nat} (hstep : e.step (.doneInstantiation me) = some e') :
    Kept e' ∧ Later e e' ∧ HeadSet e' me := by
  obtain ⟨functions, hinv⟩ := h.inv
  obtain ⟨functions', -, hinv'⟩ := hinv.step hstep
  obtain ⟨head, hhead, hret⟩ := Option.bind_eq_some_iff.1 hstep
  cases hret
  have hlt := (List.getElem?_eq_some_iff.1 hhead).1
  have hme : HeadSet { e with heads := e.heads.set me (if head = .hostModule then .hostModule else
    .moduleInstance) } me := by
    refine ⟨_, getElem?_set_self hlt, ?_⟩
    split <;> decide
  have hheads (k : Nat) (hk : HeadSet e k) : HeadSet
      { e with
        heads := e.heads.set me (if head = .hostModule then .hostModule else .moduleInstance) }
      k := by
    by_cases hne : me = k
    · exact hne ▸ hme
    · obtain ⟨x, hx, hset⟩ := hk
      exact ⟨x, by rwa [getElem?_set_ne hne], hset⟩
  exact ⟨⟨⟨functions', hinv'⟩, fun k m hm target ht => hheads _ (h.imported k m hm target ht)⟩,
    ⟨prefix_rfl, hheads⟩, hme⟩

/-- An import ends at the exporting module or at one its own imports have ended at. -/
theorem Kept.target (h : Kept e) {i : Import} (hi : e.heads[i.importedModuleEngine]? ≠ some .unset)
    {p : (Nat × Nat) × FunctionInstance} (hp : resolveImportedFunction e.engines i = some p) :
    HeadSet e p.1.1 := by
  obtain ⟨functions, hinv⟩ := h.inv
  obtain ⟨htarget, -, -⟩ := hinv.resolveImportedFunction hp
  obtain ⟨fs, hfs, hmem⟩ := Option.bind_eq_some_iff.1 htarget
  have hlt : i.importedModuleEngine < e.engines.length := by
    rw [← hinv.length]
    exact (List.getElem?_eq_some_iff.1 hfs).1
  obtain ⟨fs', hfs', hlinked⟩ := hinv.linked _ _ (getElem?_eq_getElem hlt)
  rw [hfs] at hfs'
  cases hfs'
  rw [hlinked.functions] at hmem
  rcases mem_append.1 (mem_of_getElem? hmem) with hmem | hmem
  · exact h.imported _ _ (getElem?_eq_getElem hlt) _ hmem
  · obtain ⟨k, -, heq⟩ := mem_map.1 hmem
    rw [← heq]
    have hhead := getElem?_eq_getElem (hinv.heads ▸ hlt)
    exact ⟨_, hhead, fun hunset => hi (hhead.trans (congrArg some hunset))⟩

theorem Kept.new (h : Kept e) {parent : Nat} {isHostModule : Bool} {localTypeIDs : List (BitVec 32)}
    {imports : List Import}
    (himports : ∀ i ∈ imports, e.heads[i.importedModuleEngine]? ≠ some .unset)
    (hstep : e.step (.newModuleEngine parent isHostModule localTypeIDs imports) = some e') :
    Kept e' ∧ Later e e' ∧ ∃ m, e'.engines[e.engines.length]? = some m ∧
      m.importedFunctions.length = imports.length ∧ m.localTypeIDs = localTypeIDs := by
  obtain ⟨functions, hinv⟩ := h.inv
  obtain ⟨functions', -, hinv'⟩ := hinv.step hstep
  simp only [Engines.step, Option.bind_eq_bind, Option.bind_eq_some_iff] at hstep
  obtain ⟨resolved, hresolved, _, -, hret⟩ := hstep
  cases hret
  have hall := mapM_eq_some_iff.1 hresolved
  have hheads (me : Nat) (hme : HeadSet e me) : HeadSet
    ⟨e.engines ++ [⟨parent, localTypeIDs, resolved.map Prod.fst,
      resolved.map Prod.snd⟩], e.heads ++ [if isHostModule then .hostModule else .unset]⟩ me := by
    obtain ⟨head, hhead, hset⟩ := hme
    exact ⟨head, getElem?_mono (prefix_append _ _) hhead, hset⟩
  refine ⟨⟨⟨functions', hinv'⟩, fun me m hm target htarget => ?_⟩, ⟨prefix_append _ _, hheads⟩, _,
    getElem?_concat_length, by rw [length_map, hall.length_eq], rfl⟩
  rcases mem_append.1 (mem_of_getElem? hm) with hold | hnew
  · obtain ⟨k, hk⟩ := getElem?_of_mem hold
    exact hheads _ (h.imported k m hk target htarget)
  · rw [mem_singleton.1 hnew] at htarget
    obtain ⟨p, hp, rfl⟩ := mem_map.1 htarget
    obtain ⟨k, hk⟩ := getElem?_of_mem hp
    obtain ⟨i, hi, hresolve⟩ := exists_of_forall₂ hall.flip hk
    exact hheads _ (h.target (himports i (mem_of_getElem? hi)) hresolve)

theorem eq_some_of_guard {p : Prop} [Decidable p] {u : Unit}
    (h : (guard p : Option Unit) = some u) : p := by
  by_contra hp
  simp only [guard, if_neg hp] at h
  cases h

/-- The contexts that `DoneInstantiation` has set up. -/
def Engines.done (e : Engines) (me : Nat) : Bool :=
  e.heads[me]? = some .moduleInstance

theorem Engines.done_new {parent : Nat} {isHostModule : Bool} {localTypeIDs : List (BitVec 32)}
    {imports : List Import}
    (hstep : e.step (.newModuleEngine parent isHostModule localTypeIDs imports) = some e') :
    e'.done = e.done ∧ e'.heads.length = e.heads.length + 1 ∧
      e'.heads[e.heads.length]? = some (if isHostModule then .hostModule else .unset) := by
  simp only [Engines.step, Option.bind_eq_bind, Option.bind_eq_some_iff] at hstep
  obtain ⟨resolved, -, _, -, hret⟩ := hstep
  cases hret
  refine ⟨funext fun me => decide_eq_decide.2 ?_, length_append, getElem?_concat_length⟩
  rcases lt_trichotomy me e.heads.length with hlt | rfl | hgt
  · rw [getElem?_append_left hlt]
  · rw [getElem?_concat_length, getElem?_eq_none (le_refl _)]
    cases isHostModule <;> simp
  · rw [getElem?_eq_none (by rwa [length_append]), getElem?_eq_none (le_of_lt hgt)]

theorem Engines.done_done {me : Nat} {head : ContextHead} (hhead : e.heads[me]? = some head)
    (hstep : e.step (.doneInstantiation me) = some e') :
    e'.heads.length = e.heads.length ∧
      e'.done = if head = .hostModule then e.done else Function.update e.done me true := by
  have hlt := (List.getElem?_eq_some_iff.1 hhead).1
  simp only [Engines.step, Option.bind_eq_bind, hhead, Option.bind_some] at hstep
  cases hstep
  refine ⟨length_set, funext fun k => ?_⟩
  by_cases hne : me = k
  · subst hne
    rw [Engines.done, getElem?_set_self hlt]
    by_cases hhost : head = .hostModule
    · simp [Engines.done, hhost, hhead]
    · simp [hhost]
  · by_cases hhost : head = .hostModule <;>
      simp [Engines.done, hhost, hne, Function.update_of_ne (Ne.symm hne)]

structure Invariant (s : Shared) : Prop where
  kept : Kept s.engines
  slots : AllSlots (SetUp s.engines) s.tables
  length : s.contexts.instances.length = s.engines.heads.length
  coherent : Coherent s.contexts s.engines.done

theorem Invariant.safe (h : Invariant s) : Safe s := by
  intro t ht r hr
  obtain ⟨f, hf, head, hhead, hset⟩ := h.slots t ht r hr
  obtain ⟨functions, hinv⟩ := h.kept.inv
  obtain ⟨me, index, -, -, hruns, -⟩ := hinv.functionInstance hf
  refine ⟨f, index, hf, hruns, ?_⟩
  cases head with
  | unset => exact absurd rfl hset
  | hostModule => exact .inl hhead
  | moduleInstance => exact .inr ⟨hhead, h.coherent.onOwnState (decide_eq_true hhead)⟩

theorem mem_exporters {inst : ModuleInstance} {me index : Nat}
    (h : .imported me index ∈ inst.globals) :
    me ∈ inst.exporters :=
  mem_append_right _ (mem_filterMap.2 ⟨_, h, rfl⟩)

theorem Invariant.instantiate (h : Invariant s) {i : Instantiation}
    (hleak : ¬ s.Leaks (.instantiate i)) (hstep : s.instantiate i = some s') : Invariant s' := by
  simp only [Shared.instantiate, Option.bind_eq_bind, Option.bind_eq_some_iff] at hstep
  obtain ⟨_, himports, _, hexporters, _, hvalid, e, hnew, hstep⟩ := hstep
  have hvalid := eq_some_of_guard hvalid
  obtain ⟨hkept, hlater, m, hm, hlength, hlocal⟩ := h.kept.new (eq_some_of_guard himports) hnew
  obtain ⟨hdone, hheads, hhead⟩ := Engines.done_new hnew
  -- whatever is in a table now was there before or is a function of the new module
  have hwritten : AllSlots (fun r => SetUp e r ∨ r.me = s.engines.engines.length ∧
      r.funcIndex < i.imports.length + i.localTypeIDs.length) (s.written i) := by
    refine AllSlots.applyElements (fun f hf => Or.inr ⟨rfl, hf⟩)
      (AllSlots.create (fun f hf => Or.inr ⟨rfl, hf⟩)
      (fun t ht r hr => Or.inl ((h.slots t ht r hr).later hlater)) ?_) ?_
    · exact fun items hitems => hvalid items (mem_append_left _ hitems)
    · exact fun items hitems => hvalid items (mem_append_right _ hitems)
  have hcoherent : Coherent (s.contexts.newModuleEngine i.inst) e.done := by
    rw [hdone]
    refine h.coherent.newModuleEngine ?_ fun me index hmem =>
      decide_eq_true (eq_some_of_guard hexporters me (mem_exporters hmem))
    rw [h.length]
    simp [Engines.done]
  have hinstances : (s.contexts.newModuleEngine i.inst).instances.length = e.heads.length := by
    rw [hheads, ← h.length]
    exact length_append
  split at hstep
  · cases hstep
    exact ⟨hkept, fun t ht r hr => (h.slots t ht r hr).later hlater, hinstances, hcoherent⟩
  · rename_i hfailure
    cases hstep
    refine ⟨hkept, fun t ht r hr => ?_, hinstances, hcoherent⟩
    rcases hwritten t (mem_of_mem_take ht) r hr with hset | ⟨hme, -⟩
    · exact hset
    obtain ⟨me, k⟩ := r
    cases hme
    have hk : k < i.imports.length := by
      by_contra hge
      exact hleak ⟨hfailure, t, ht, k, hr, not_lt.1 hge⟩
    exact hkept.setUp_imported hm (hlength ▸ hk)
  · obtain ⟨e', hdone', hret⟩ := Option.bind_eq_some_iff.1 hstep
    cases hret
    obtain ⟨hkept', hlater', hset⟩ := hkept.done hdone'
    obtain ⟨functions, hinv⟩ := h.kept.inv
    rw [hinv.heads] at hhead
    obtain ⟨hheads', hdone'⟩ := Engines.done_done hhead hdone'
    refine ⟨hkept', fun t ht r hr => ?_, ?_, ?_⟩
    · rcases hwritten t ht r hr with hold | ⟨hme, hk⟩
      · exact hold.later hlater'
      · obtain ⟨me, k⟩ := r
        cases hme
        exact hkept'.setUp_own (getElem?_mono hlater'.engines hm) (by rwa [hlength, hlocal]) hset
    · rw [hheads', ← hinstances]
      split
      · rfl
      · exact length_doneInstantiation _ _
    · dsimp only
      rw [hdone']
      cases hhost : i.isHostModule with
      | true => simpa [hhost] using hcoherent
      | false =>
        simp only [Bool.false_eq_true, if_false, reduceCtorEq]
        refine hcoherent.doneInstantiation ?_
        simp [Engines.done, hhead, hhost]

theorem Invariant.step (h : Invariant s) {op : SharedOp} (hleak : ¬ s.Leaks op)
    (hstep : s.step op = some s') : Invariant s' := by
  cases op with
  | instantiate i => exact h.instantiate hleak hstep
  | storeFunction me funcIndex table slot =>
    simp only [Shared.step, Option.bind_eq_bind, Option.bind_eq_some_iff] at hstep
    obtain ⟨m, hm, _, hhead, _, hk, hret⟩ := hstep
    cases hret
    have hset := h.kept.setUp_own hm (eq_some_of_guard hk) ⟨_, eq_some_of_guard hhead, by decide⟩
    exact { h with
      slots := h.slots.setSlot (fun x hx => Option.mem_some.1 hx ▸ hset) table slot }
  | copyReference fromTable fromSlot table slot =>
    cases hstep
    exact { h with slots := h.slots.setSlot (h.slots.load fromTable fromSlot) table slot }
  | growMemory me buffer =>
    simp only [Shared.step, Option.bind_eq_bind, Option.bind_eq_some_iff] at hstep
    obtain ⟨inst, hinst, _, hhead, _, hown, hret⟩ := hstep
    cases hret
    refine { h with
      length := (length_modify _ _ _).trans h.length
      coherent := h.coherent.memoryGrown (decide_eq_true (eq_some_of_guard hhead)) ?_ buffer }
    intro inst' hinst'
    rw [hinst] at hinst'
    cases hinst'
    exact ModuleInstance.memoryOwner_of_ownMemory (eq_some_of_guard hown)
  | setGlobal me index val valHi =>
    simp only [Shared.step, Option.bind_eq_bind, Option.bind_eq_some_iff] at hstep
    obtain ⟨inst, -, _, hhead, hstep⟩ := hstep
    split at hstep
    · cases hstep
      exact { h with
        length := (length_modify _ _ _).trans h.length
        coherent := h.coherent.setGlobal (decide_eq_true (eq_some_of_guard hhead)) index val valHi }
    · cases hstep

theorem Invariant.run {ops : List SharedOp} (h : Invariant s) (hleak : s.NeverLeaks ops)
    (hrun : s.run ops = some s') : Invariant s' := by
  induction ops generalizing s with
  | nil =>
    cases hrun
    exact h
  | cons op ops ih =>
    obtain ⟨s₁, hstep, hrest⟩ := Option.bind_eq_some_iff.1 (foldlM_cons.symm.trans hrun)
    exact ih (h.step hleak.1 hstep) (hleak.2 s₁ hstep) hrest

end Run

def Shared.empty : Shared :=
  ⟨⟨[], []⟩, ⟨[], []⟩, []⟩

/-- If no instantiation fails in its data segments after a reference to a function of its own was
written to an imported table, then in every state reached a call through a reference in a table runs
on the memory, the globals, the tables, the tags and the types of the function's own instance. -/
theorem references_setUp (ops : List SharedOp) {s : Shared} (hleak : Shared.empty.NeverLeaks ops)
    (hrun : Shared.empty.run ops = some s) : Safe s := by
  have hempty : Kept ⟨[], []⟩ :=
    ⟨⟨[], rfl, rfl, fun me m hm => absurd hm (by simp)⟩, fun me m hm => absurd hm (by simp)⟩
  have hinvariant : Invariant Shared.empty :=
    ⟨hempty, fun t ht => absurd ht not_mem_nil, rfl, fun me => rfl, fun inst hinst =>
      absurd hinst not_mem_nil⟩
  exact (hinvariant.run hleak hrun).safe

/-- A module with a memory, a global and a table. -/
def exporter : Instantiation :=
  ⟨0, false, [], [], [[.refNull]], [], none,
    { memory := some (.own ⟨4096, 65536⟩), globals := [.own 7 0], tables := [0] }⟩

/-- A module that imports these and puts its function into the table. -/
def importer (failure : Option Failure) : Instantiation :=
  ⟨1, false, [5], [], [], [⟨0, 0, [.refFunc 0]⟩], failure,
    { memory := some (.imported 0), globals := [.imported 0 0, .own 1 0], typeIDs := [5],
      tables := [0], tags := [3] }⟩

/-- The memory grows and the global is set, and the function in the table finds this. -/
theorem references_setUp_shared : ∃ s, Shared.empty.run [.instantiate exporter,
      .instantiate (importer none), .growMemory 0 ⟨131072, 131072⟩, .setGlobal 0 0 9 0,
      .instantiate (importer (some .beforeElements))] = some s ∧ s.tables = [[some ⟨1, 0⟩]] ∧
    s.contexts.loadMemory 1 = some ⟨131072, 131072⟩ ∧
    loadGlobal (s.contexts.contexts[·]?.map ModuleContext.globals) 1 0 = some (9, 0) ∧ Safe s := by
  refine ⟨_, rfl, rfl, rfl, rfl, references_setUp [.instantiate exporter,
      .instantiate (importer none), .growMemory 0 ⟨131072, 131072⟩, .setGlobal 0 0 9 0,
      .instantiate (importer (some .beforeElements))] ?_ rfl⟩
  simp [Shared.NeverLeaks, Shared.Leaks, exporter, importer]

/-- The second module fails in its data segments. Its function stays in the table of the first, and
finds no memory. -/
theorem failed_instance_leaks : ∃ s, Shared.empty.run [.instantiate exporter,
      .instantiate ⟨1, false, [5], [], [], [⟨0, 0, [.refFunc 0]⟩], some .applyData,
        { memory := some (.own ⟨8192, 65536⟩), tables := [0] }⟩] = some s ∧
    s.tables = [[some ⟨1, 0⟩]] ∧ s.engines.heads = [.moduleInstance, .unset] ∧
    s.contexts.memoryOf 1 = some ⟨8192, 65536⟩ ∧ s.contexts.loadMemory 1 = none ∧ ¬ Safe s := by
  refine ⟨_, rfl, rfl, rfl, rfl, rfl, fun hsafe => ?_⟩
  obtain ⟨f, index, hf, -, hhead⟩ := hsafe _ (mem_singleton_self _) ⟨1, 0⟩ (mem_singleton_self _)
  cases hf
  rcases hhead with hhead | ⟨hhead, -⟩
  · cases hhead
  · cases hhead

end Andsifr.Wazevo.FunctionReference
