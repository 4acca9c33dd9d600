import Andsifr.Execution.Operators

namespace Andsifr.Execution

open Lib Wasm Validation List Stacks FunctionContext

structure LocalsTyped (ctx : FunctionContext) (init : Option (List Index)) (locals : List Value) :
    Prop where
  length : locals.length = (localTypes ctx).length
  typed : ∀ i t, (localTypes ctx)[i]? = some t → Readable ctx init i →
    ∃ v, locals[i]? = some v ∧ HasType ctx.types v t

/-- The labels of a state belong to the blocks of the validation. The code that a branch continues
with passes validation, to the state `sf`, from the types of the label above those below the
block. -/
inductive LabelsOk (ctx : FunctionContext) (sf : Stacks) (locals : List Value) :
    List ValueType → List Nat → List ControlBlock → List Label → Prop where
  | function {stack : List ValueType} {b : ControlBlock} (hkind : b.kind = .block)
      (htype : b.type = ctx.functionType.blockType) :
      LabelsOk ctx sf locals stack [] [b] [⟨false, ctx.functionType.blockType, 0, [], []⟩]
  | block {stack base : List ValueType} {limits : List Nat} {b : ControlBlock}
      {outer : List ControlBlock} {label : Label} {labels : List Label} {t : Stacks}
      (hbase : base <:+ stack) (htype : label.type = b.type)
      (hproper : ∀ t ∈ b.type.params ++ b.type.results, t.Proper)
      (hloop : label.isLoop = true ↔ b.kind = .loop) (hheight : label.height = base.length)
      (hcont : ctx.Passes t label.cont sf)
      (hafter : After t label.types base (if label.isLoop then b :: outer else outer)
        (if label.isLoop then base.length :: limits else limits) b.savedInitLocals)
      (hlocals : LocalsTyped ctx b.savedInitLocals locals)
      (hcatches : ∀ clause ∈ label.catches, ∃ types target, ctx.catchTypes clause = .ok types ∧
        outer[clause.label]? = some target ∧ Subtypes ctx.types types target.labelTypes)
      (houter : LabelsOk ctx sf locals base limits outer labels) :
      LabelsOk ctx sf locals stack (base.length :: limits) (b :: outer) (label :: labels)

/-- A state in the code of the function, and the state of the validation at the same place. -/
structure Running (ctx : FunctionContext) (sf : Stacks) (st : State) (s : Stacks) : Prop where
  passes : ctx.Passes s st.rest sf
  known : unknown ∉ s.stack
  values : Typed ctx.types st.values s.stack
  labels : LabelsOk ctx sf st.locals s.stack s.stackLimits s.controlBlocks st.labels
  locals : LocalsTyped ctx s.initLocals st.locals

inductive WellTyped (ctx : FunctionContext) (sf : Stacks) : State → Prop where
  | running {st : State} {s : Stacks} (h : Running ctx sf st s) : WellTyped ctx sf st
  | done {values locals : List Value}
      (h : Typed ctx.types values ctx.functionType.results.reverse) :
      WellTyped ctx sf ⟨[], values, [], locals⟩

variable {ctx : FunctionContext} {sf s s' : Stacks} {locals : List Value} {stack : List ValueType}
  {limits : List Nat} {blocks : List ControlBlock} {labels : List Label}

theorem LabelsOk.ne_nil (h : LabelsOk ctx sf locals stack limits blocks labels) : blocks ≠ [] := by
  cases h <;> simp

theorem LabelsOk.proper (hctx : ctx.Proper)
    (h : LabelsOk ctx sf locals stack limits blocks labels) :
    ∀ b ∈ blocks, ∀ t ∈ b.type.params ++ b.type.results, t.Proper := by
  induction h with
  | function hkind htype =>
    intro b hb
    obtain rfl := mem_singleton.mp hb
    rw [htype]
    exact functionType_proper hctx
  | block _ _ hproper _ _ _ _ _ _ _ ih =>
    intro b hb
    rcases mem_cons.mp hb with rfl | hb
    · exact hproper
    · exact ih b hb

theorem LabelsOk.extend {stack' : List ValueType}
    (h : LabelsOk ctx sf locals stack limits blocks labels) (hstack : stack <:+ stack') :
    LabelsOk ctx sf locals stack' limits blocks labels := by
  cases h with
  | function hkind htype => exact .function hkind htype
  | block hbase htype hproper hloop hheight hcont hafter hlocals hcatches houter =>
    exact .block (hbase.trans hstack) htype hproper hloop hheight hcont hafter hlocals hcatches
      houter

theorem LabelsOk.within (h : LabelsOk ctx sf locals s.stack s.stackLimits s.controlBlocks labels)
    (hwithin : Within s s') :
    LabelsOk ctx sf locals s'.stack s'.stackLimits s'.controlBlocks labels := by
  rw [hwithin.limits, hwithin.blocks]
  generalize hlimits : s.stackLimits = limits at h
  generalize s.controlBlocks = blocks at h
  cases h with
  | function hkind htype => exact .function hkind htype
  | block hbase htype hproper hloop hheight hcont hafter hlocals hcatches houter =>
    refine .block (hwithin.base _ ?_ hbase) htype hproper hloop hheight hcont hafter hlocals
      hcatches houter
    unfold limit
    rw [hlimits]
    exact le_refl _

section

variable (h : LabelsOk ctx sf locals stack limits blocks labels)

include h

theorem LabelsOk.assign {locals' : List Value}
    (hlocals : ∀ init, LocalsTyped ctx init locals → LocalsTyped ctx init locals') :
    LabelsOk ctx sf locals' stack limits blocks labels := by
  induction h with
  | function hkind htype => exact .function hkind htype
  | block hbase htype hproper hloop hheight hcont hafter hsaved hcatches _ ih =>
    exact .block hbase htype hproper hloop hheight hcont hafter (hlocals _ hsaved) hcatches ih

theorem LabelsOk.target {l : Nat} {b : ControlBlock} (hb : blocks[l]? = some b) :
    ∃ label, labels[l]? = some label ∧ label.types = b.labelTypes := by
  induction h generalizing l with
  | function hkind htype =>
    cases l with
    | zero =>
      cases hb
      exact ⟨_, rfl, by simp [Label.types, ControlBlock.labelTypes, hkind, htype]⟩
    | succ l => cases hb
  | @block _ _ _ _ _ label _ _ _ htype _ hloop _ _ _ _ _ _ ih =>
    cases l with
    | zero =>
      cases hb
      refine ⟨label, rfl, ?_⟩
      unfold Label.types ControlBlock.labelTypes
      rw [htype]
      by_cases hkind : b.kind = .loop
      · rw [if_pos (hloop.mpr hkind), if_pos hkind]
      · rw [if_neg (fun h => hkind (hloop.mp h)), if_neg hkind]
    | succ l => exact ih hb

theorem LabelsOk.drop {l : Nat} (hl : l < labels.length) : ∃ stack' limits', stack' <:+ stack ∧
      LabelsOk ctx sf locals stack' limits' (blocks.drop l) (labels.drop l) := by
  induction h generalizing l with
  | @function stack _ hkind htype =>
    cases l with
    | zero => exact ⟨stack, _, suffix_rfl, .function hkind htype⟩
    | succ l => simp at hl
  | @block stack _ _ _ _ _ _ _ hbase htype hproper hloop hheight hcont hafter hsaved hcatches houter
      ih =>
      cases l with
      | zero =>
        exact ⟨stack, _, suffix_rfl, .block hbase htype hproper hloop hheight hcont hafter hsaved
          hcatches houter⟩
      | succ l =>
        obtain ⟨stack', limits', hsuffix, hdrop⟩ := ih (by simpa using hl)
        exact ⟨stack', limits', hsuffix.trans hbase, hdrop⟩

end

theorem Typed.suffix {types : List FunctionType} {values : List Value} {stack base : List ValueType}
    (h : Typed types values stack) (hbase : base <:+ stack) :
    Typed types (values.drop (values.length - base.length)) base := by
  obtain ⟨above, rfl⟩ := hbase
  obtain ⟨-, hbelow⟩ := h.split
  have hlength := h.length_eq
  rw [length_append] at hlength
  rwa [hlength, Nat.add_sub_cancel]

theorem Top.take {types : List FunctionType} {values : List Value} {want : List ValueType}
    (h : Top types values want) : Typed types (values.take want.length) want := by
  obtain ⟨args, below, rfl, hargs⟩ := h
  rwa [← hargs.length_eq, take_left' rfl]

theorem labelTypes_known {label : Label}
    (hproper : ∀ t ∈ label.type.params ++ label.type.results, t.Proper) :
    unknown ∉ label.types := by
  refine unknown_notMem fun t ht => hproper t ?_
  unfold Label.types at ht
  split at ht
  · exact mem_append_left _ ht
  · exact mem_append_right _ ht

/-- A branch whose operands fit its label leads to a well-typed state. The operands may be above
values that have the types of the stack. -/
theorem wellTyped_branch (h : LabelsOk ctx sf locals stack limits blocks labels)
    (hknown : unknown ∉ stack) (above : List Value) {below : List Value}
    (hbelow : Typed ctx.types below stack)
    {l : Nat} (hdelivers : Delivers ctx (above ++ below) labels l) {st : State}
    (hst : branch (above ++ below) labels locals l = some st) : WellTyped ctx sf st := by
  obtain ⟨target, htarget, htop⟩ := hdelivers
  have hargs := htop.take
  rw [length_reverse] at hargs
  obtain ⟨hl, htarget'⟩ := List.getElem?_eq_some_iff.mp htarget
  obtain ⟨stack', limits', hsuffix, hdrop⟩ := h.drop hl
  simp only [branch, htarget, Option.map_some, Option.some.injEq] at hst
  subst hst
  rw [drop_eq_getElem_cons hl, htarget'] at hdrop
  generalize hrest : labels.drop (l + 1) = rest at hdrop
  generalize blocks.drop l = blocks' at hdrop
  cases hdrop with
  | function hkind htype =>
    simp only [Bool.false_eq_true, if_false, hrest, Nat.sub_zero, drop_length, append_nil]
    exact .done hargs
  | @block _ base limits b outer _ _ t hbase htype hproper hloop hheight hcont hafter
    hlocals hcatches
      houter =>
      have hbase' := hbase.trans hsuffix
      have hlower : Typed ctx.types
          ((above ++ below).drop ((above ++ below).length - target.height)) base := by
        have := hbelow.suffix hbase'
        have hle : base.length ≤ below.length := by
          rw [hbelow.length_eq]
          exact hbase'.length_le
        rw [hheight, length_append, drop_append, drop_eq_nil_of_le (by omega), nil_append]
        rwa [show above.length + below.length - base.length - above.length =
          below.length - base.length by omega]
      refine .running ⟨hcont, ?_, ?_, ?_, ?_⟩
      · rw [hafter.stack, mem_append, not_or, mem_reverse]
        exact ⟨labelTypes_known (by rwa [htype]), fun hmem => hknown (hbase'.subset hmem)⟩
      · rw [hafter.stack]
        exact hargs.append hlower
      · rw [hafter.stack, hafter.limits, hafter.blocks]
        by_cases hisLoop : target.isLoop = true
        · simp only [hisLoop, if_true] at hafter ⊢
          rw [drop_eq_getElem_cons hl, htarget', hrest]
          exact .block (suffix_append _ _) htype hproper hloop hheight hcont
            (by simpa only [hisLoop, if_true] using hafter) hlocals hcatches houter
        · rw [if_neg hisLoop, if_neg hisLoop, if_neg hisLoop, hrest]
          exact houter.extend (suffix_append _ _)
      · rw [hafter.init]
        exact hlocals

end Andsifr.Execution
