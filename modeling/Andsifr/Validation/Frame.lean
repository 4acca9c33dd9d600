import Andsifr.Validation.CheckInstruction

namespace Andsifr.Validation

open Lib Wasm List Check

/-- The locals known to be initialised are kept, and a nil map stays nil. -/
def InitGrows : Option (List Index) → Option (List Index) → Prop
  | none, none => True
  | some before, some after => before ⊆ after
  | _, _ => False

theorem InitGrows.refl (a : Option (List Index)) : InitGrows a a := by
  cases a with
  | none => trivial
  | some set => exact List.Subset.refl set

theorem InitGrows.trans {a b c : Option (List Index)} (hab : InitGrows a b) (hbc : InitGrows b c) :
    InitGrows a c := by
  cases a <;> cases b <;> cases c <;> simp only [InitGrows] at *
  exact List.Subset.trans hab hbc

theorem InitGrows.isNone {a b : Option (List Index)} (h : InitGrows a b) : b.isNone = a.isNone := by
  cases a <;> cases b <;> simp_all [InitGrows]

namespace Stacks

/-- What checks inside a block can do: the blocks stay open, and the operand types below the block
are untouched. -/
structure Within (s s' : Stacks) : Prop where
  limits : s'.stackLimits = s.stackLimits
  blocks : s'.controlBlocks = s.controlBlocks
  initLocals : InitGrows s.initLocals s'.initLocals
  base : ∀ base, base.length ≤ s.limit → base <:+ s.stack → base <:+ s'.stack

theorem Within.refl (s : Stacks) : Within s s :=
  ⟨rfl, rfl, .refl _, fun _ _ h => h⟩

variable {s s' : Stacks}

theorem Within.limit (h : Within s s') : s'.limit = s.limit := by
  unfold Stacks.limit
  rw [h.limits]

theorem Within.trans {s₁ s₂ s₃ : Stacks} (h₁ : Within s₁ s₂) (h₂ : Within s₂ s₃) : Within s₁ s₃ :=
  ⟨h₂.limits.trans h₁.limits, h₂.blocks.trans h₁.blocks, h₁.initLocals.trans h₂.initLocals,
    fun base hlen hbase => h₂.base base (by rw [h₁.limit]; exact hlen) (h₁.base base hlen hbase)⟩

/-- Checks inside a block that mark no local as initialised. -/
structure Quiet (s s' : Stacks) : Prop extends Within s s' where
  same : s'.initLocals = s.initLocals

theorem Quiet.refl (s : Stacks) : Quiet s s :=
  ⟨.refl s, rfl⟩

theorem Quiet.trans {s₁ s₂ s₃ : Stacks} (h₁ : Quiet s₁ s₂) (h₂ : Quiet s₂ s₃) : Quiet s₁ s₃ :=
  ⟨h₁.toWithin.trans h₂.toWithin, h₂.same.trans h₁.same⟩

@[simp] theorem setStack_stack (s : Stacks) (stack : List ValueType) :
    (s.setStack stack).stack = stack := rfl

@[simp] theorem setStack_limits (s : Stacks) (stack : List ValueType) :
    (s.setStack stack).stackLimits = s.stackLimits := rfl

@[simp] theorem setStack_limit (s : Stacks) (stack : List ValueType) :
    (s.setStack stack).limit = s.limit := rfl

@[simp] theorem setStack_blocks (s : Stacks) (stack : List ValueType) :
    (s.setStack stack).controlBlocks = s.controlBlocks := rfl

@[simp] theorem setStack_initLocals (s : Stacks) (stack : List ValueType) :
    (s.setStack stack).initLocals = s.initLocals := rfl

@[simp] theorem push_stack (s : Stacks) (t : ValueType) : (s.push t).stack = t :: s.stack := rfl

theorem pushAll_eq (s : Stacks) (types : List ValueType) :
    (s.pushAll types).stack = types.reverse ++ s.stack ∧
      (s.pushAll types).stackLimits = s.stackLimits ∧
      (s.pushAll types).controlBlocks = s.controlBlocks ∧
      (s.pushAll types).initLocals = s.initLocals := by
  unfold pushAll
  induction types generalizing s with
  | nil => simp
  | cons t types ih =>
    obtain ⟨hstack, hlimits, hblocks, hinit⟩ := ih (s.push t)
    exact ⟨by simp [hstack], hlimits, hblocks, hinit⟩

@[simp] theorem pushAll_stack (s : Stacks) (types : List ValueType) :
    (s.pushAll types).stack = types.reverse ++ s.stack :=
  (s.pushAll_eq types).1

@[simp] theorem pushAll_limits (s : Stacks) (types : List ValueType) :
    (s.pushAll types).stackLimits = s.stackLimits :=
  (s.pushAll_eq types).2.1

@[simp] theorem pushAll_blocks (s : Stacks) (types : List ValueType) :
    (s.pushAll types).controlBlocks = s.controlBlocks :=
  (s.pushAll_eq types).2.2.1

@[simp] theorem pushAll_initLocals (s : Stacks) (types : List ValueType) :
    (s.pushAll types).initLocals = s.initLocals :=
  (s.pushAll_eq types).2.2.2

theorem suffix_of_cons {α : Type} {base rest : List α} {a : α} (h : base <:+ a :: rest)
    (hlen : base.length ≤ rest.length) : base <:+ rest := by
  rcases suffix_cons_iff.mp h with rfl | h
  · simp only [length_cons] at hlen
    omega
  · exact h

theorem quiet_of_base (hlimits : s'.stackLimits = s.stackLimits)
    (hblocks : s'.controlBlocks = s.controlBlocks) (hinit : s'.initLocals = s.initLocals)
    (hbase : ∀ base, base.length ≤ s.limit → base <:+ s.stack → base <:+ s'.stack) : Quiet s s' :=
  ⟨⟨hlimits, hblocks, by rw [hinit]; exact .refl _, hbase⟩, hinit⟩

theorem quiet_pushAll (s : Stacks) (types : List ValueType) : Quiet s (s.pushAll types) :=
  quiet_of_base (by simp) (by simp) (by simp) fun base _ h => by
    rw [pushAll_stack]
    exact h.trans (suffix_append _ _)

theorem quiet_push (s : Stacks) (t : ValueType) : Quiet s (s.push t) :=
  quiet_of_base rfl rfl rfl fun _ _ h => h.trans (suffix_cons _ _)

/-- An operand is popped above the limit; the unknown type that stands for any number of operands
stays where it is. -/
theorem tryPop_eq_some {t : ValueType} (h : s.tryPop = some (t, s')) :
    s.limit < s.stack.length ∧ ((s.polymorphic ∧ t = unknown ∧ s' = s) ∨
      ∃ rest, s.stack = t :: rest ∧ s' = s.setStack rest) := by
  unfold tryPop at h
  split at h
  · cases h
  next hlt =>
    refine ⟨by omega, ?_⟩
    split at h
    next hpoly =>
      cases h
      exact .inl ⟨hpoly, rfl, rfl⟩
    split at h
    · cases h
    next hstack =>
      cases h
      exact .inr ⟨_, hstack, rfl⟩

theorem quiet_tryPop {t : ValueType} (h : s.tryPop = some (t, s')) : Quiet s s' := by
  obtain ⟨hlt, ⟨-, -, rfl⟩ | ⟨rest, hstack, rfl⟩⟩ := tryPop_eq_some h
  · exact .refl _
  · refine quiet_of_base rfl rfl rfl fun base hlen hbase => ?_
    rw [hstack] at hbase hlt
    simp only [length_cons] at hlt
    exact suffix_of_cons hbase (by simp only [setStack_stack]; omega)

variable {types : List FunctionType} {α β : Type}

theorem quiet_bind {g : α → Stacks} {k : β → Stacks} {x : Check α} {f : α → Check β}
    (hx : Ensures (fun a => Quiet s (g a)) x)
    (hf : ∀ a, Ensures (fun b => Quiet (g a) (k b)) (f a)) :
    Ensures (fun b => Quiet s (k b)) (x >>= f) :=
  hx.bind fun a ha b hb => ha.trans (hf a b hb)

theorem quiet_pop : Ensures (fun p => Quiet s p.2) s.pop := by
  unfold pop
  split
  next hpop => exact ensures_pure (quiet_tryPop hpop)
  · exact ensures_fail _

theorem popAndVerifyType_eq_ok {expected : ValueType}
    (h : s.popAndVerifyType types expected = .ok s') :
    ∃ t, s.tryPop = some (t, s') ∧ matchesType types t expected = .ok true := by
  unfold popAndVerifyType at h
  split at h
  · cases h
  next t s₁ hpop =>
    obtain ⟨b, hb, h⟩ := bind_inv h
    cases b with
    | true =>
      cases h
      exact ⟨t, hpop, hb⟩
    | false => cases h

theorem quiet_popAndVerifyType {expected : ValueType} :
    Ensures (Quiet s) (s.popAndVerifyType types expected) := by
  intro s' h
  obtain ⟨t, hpop, -⟩ := popAndVerifyType_eq_ok h
  exact quiet_tryPop hpop

theorem quiet_tryPops {n : Nat} {popped popped' : List ValueType}
    (h : tryPops n popped s = .ok (popped', s')) : Quiet s s' := by
  induction n generalizing popped s with
  | zero =>
    cases h
    exact .refl _
  | succ n ih =>
    unfold tryPops at h
    split at h
    · cases h
    next hpop => exact (quiet_tryPop hpop).trans (ih h)

theorem quiet_requireStackValues {isParam aboveLimit : Bool} {context : String}
    {want : List ValueType} :
    Ensures (Quiet s) (requireStackValues types isParam context want aboveLimit s) := by
  unfold requireStackValues
  split
  · exact ensures_fail _
  next hpops =>
    exact .ite (ensures_fail _) (ensures_bind fun _ => ensures_pure (quiet_tryPops hpops))

theorem quiet_popAll {wrap : Nat → String → String} {want : List ValueType} :
    Ensures (Quiet s) (popAll types wrap want s) := by
  induction want generalizing s with
  | nil => exact ensures_pure (.refl _)
  | cons t want ih => exact quiet_bind quiet_popAndVerifyType.mapErr fun _ => ih

theorem quiet_applySignature {wrap : Nat → String → String} {sig : Signature} :
    Ensures (Quiet s) (applySignature types wrap sig s) :=
  quiet_bind quiet_popAll fun _ => ensures_pure (quiet_pushAll _ _)

theorem quiet_resetAtStackLimit (s : Stacks) : Quiet s s.resetAtStackLimit := by
  refine quiet_of_base rfl rfl rfl fun base hlen hbase => ?_
  have hdrop := drop_suffix (s.stack.length - s.limit) s.stack
  refine suffix_of_suffix_length_le hbase hdrop ?_
  have := hbase.length_le
  simp only [resetAtStackLimit, setStack_stack, length_drop]
  omega

theorem quiet_unreachable : Ensures (Quiet s) (pure s.unreachable) :=
  ensures_pure ((quiet_resetAtStackLimit s).trans
    (quiet_of_base rfl rfl rfl fun _ _ h => h.trans (suffix_cons _ _)))

end Stacks

namespace FunctionContext

open Stacks

variable {ctx : FunctionContext} {s s' : Stacks}

theorem within_markLocalInit {i : Nat} : Ensures (Within s) (ctx.markLocalInit s i) := by
  refine .ite ?_ (ensures_pure (.refl _))
  split
  next set hset =>
    refine ensures_pure ⟨rfl, rfl, ?_, fun _ _ hbase => hbase⟩
    rw [hset]
    exact subset_cons_self i set
  · rintro _ ⟨⟩

theorem quiet_popDefaults {i : Nat} {want : List ValueType} :
    Ensures (fun p => Quiet s p.2) (ctx.popDefaults i want s) := by
  induction want generalizing i s with
  | nil => exact ensures_pure (.refl _)
  | cons exp want ih =>
    refine quiet_bind quiet_pop fun p => .ite (quiet_bind ih fun _ => ensures_pure (.refl _)) ?_
    exact ensures_bind fun _ => .ite (quiet_bind ih fun _ => ensures_pure (.refl _))
      (ensures_fail _)

theorem quiet_popDefaultLabel {want : List ValueType} :
    Ensures (fun p => Quiet s p.2) (ctx.popDefaultLabel s want) :=
  .ite (quiet_bind quiet_popDefaults fun _ => ensures_pure (.refl _))
    (quiet_bind quiet_requireStackValues fun _ => ensures_pure (.refl _))

theorem quiet_popRef {name suffix : String} :
    Ensures (fun p => Quiet s p.2) (popRef s name suffix) :=
  quiet_bind quiet_pop.mapErr fun _ => ensures_bind fun _ => ensures_pure (.refl _)

variable {name : String}

theorem quiet_validateReturnCall {callee : FunctionType} :
    Ensures (Quiet s) (ctx.validateReturnCall s name callee) :=
  ensures_bind₂ fun _ _ =>
    quiet_bind quiet_requireStackValues fun _ => quiet_unreachable

theorem quiet_indirectType {type table : Nat} :
    Ensures (fun p => Quiet s p.2) (ctx.indirectType s name type table) :=
  ensures_bind₂ fun _ _ => ensures_bind₂ fun _ _ => ensures_bind fun _ =>
    quiet_bind quiet_popAndVerifyType.mapErr fun _ => ensures_bind fun _ => ensures_pure (.refl _)

theorem quiet_referencedType {type : Nat} :
    Ensures (fun p => Quiet s p.2) (ctx.referencedType s name type) :=
  ensures_bind₂ fun _ _ =>
    quiet_bind quiet_popAndVerifyType.mapErr fun _ => ensures_bind fun _ => ensures_pure (.refl _)

variable {instr : Instruction}

theorem quiet_checkSelect {typed : Bool} : Ensures (Quiet s) (ctx.checkSelect s typed) :=
  quiet_bind quiet_popAndVerifyType.mapErr fun _ => quiet_bind quiet_pop.mapErr fun _ =>
    quiet_bind quiet_pop.mapErr fun _ => ensures_bind₂ fun _ _ =>
      ensures_bind fun _ => ensures_pure (quiet_push _ _)

theorem quiet_checkBrOnNonNull {label : Nat} :
    Ensures (Quiet s) (ctx.checkBrOnNonNull s label) := by
  refine ensures_bind₂ fun _ target => quiet_bind quiet_popRef fun p => ?_
  cases target.labelTypes.getLast? with
  | none => exact ensures_fail _
  | some =>
    exact ensures_bind fun _ => quiet_bind quiet_requireStackValues fun _ =>
      ensures_pure (quiet_pushAll _ _)

theorem quiet_checkBrTable {labels : List Index} {default : Nat} :
    Ensures (Quiet s) (ctx.checkBrTable s labels default) :=
  ensures_bind fun _ => quiet_bind quiet_popAndVerifyType.mapErr fun _ =>
    quiet_bind quiet_popDefaultLabel fun _ => ensures_bind fun _ => quiet_unreachable

/-- The local that the instruction assigns to. -/
def assigned : Instruction → Option Index
  | .localSet i | .localTee i => some i
  | _ => none

theorem checkInstruction_assigned {i : Index} (hi : assigned instr = some i)
    (h : ctx.checkInstruction s instr = .ok s') :
    ∃ s₁, Quiet s s₁ ∧ ctx.markLocalInit s₁ i = .ok s' := by
  cases instr with
  | localSet j =>
    cases hi
    obtain ⟨t, -, h⟩ := bind_inv h
    obtain ⟨s₁, hpop, hmark⟩ := bind_inv h
    exact ⟨s₁, quiet_popAndVerifyType _ hpop, hmark⟩
  | localTee j =>
    cases hi
    obtain ⟨t, -, h⟩ := bind_inv h
    obtain ⟨s₁, hpop, hmark⟩ := bind_inv h
    exact ⟨s₁.push t, (quiet_popAndVerifyType _ hpop).trans (quiet_push _ _), hmark⟩
  | _ => cases hi

theorem quiet_checkInstruction (hinstr : instr.isStructured = false)
    (hassigned : assigned instr = none) :
    Ensures (Quiet s) (ctx.checkInstruction s instr) := by
  cases instr with
  | block _ | loop _ | ifOp _ | elseOp | tryTable _ _ | endOp => cases hinstr
  | localSet _ | localTee _ => cases hassigned
  | unreachable => exact quiet_unreachable
  | throw tag =>
    exact ensures_bind₂ fun _ _ => quiet_bind quiet_popAll fun _ => quiet_unreachable
  | throwRef =>
    exact ensures_bind fun _ => quiet_bind quiet_popAndVerifyType.mapErr fun _ => quiet_unreachable
  | br label =>
    exact ensures_bind fun _ => quiet_bind quiet_requireStackValues fun _ => quiet_unreachable
  | brIf label =>
    exact ensures_bind fun _ => quiet_bind quiet_popAndVerifyType.mapErr fun _ =>
      quiet_bind quiet_requireStackValues fun _ => ensures_pure (quiet_pushAll _ _)
  | brOnNull label =>
    exact ensures_bind₂ fun _ _ => quiet_bind quiet_popRef fun _ =>
      quiet_bind quiet_requireStackValues fun _ =>
        ensures_pure ((quiet_pushAll _ _).trans (quiet_push _ _))
  | brOnNonNull label => exact quiet_checkBrOnNonNull
  | brTable labels defaultLabel => exact quiet_checkBrTable
  | returnOp => exact quiet_bind quiet_requireStackValues fun _ => quiet_unreachable
  | call f => exact ensures_bind fun _ => quiet_applySignature
  | callIndirect t i => exact quiet_bind quiet_indirectType fun _ => quiet_applySignature
  | callRef t => exact quiet_bind quiet_referencedType fun _ => quiet_applySignature
  | returnCall f =>
    exact ensures_bind fun _ => quiet_bind quiet_applySignature fun _ => quiet_validateReturnCall
  | returnCallIndirect t i =>
    exact quiet_bind quiet_indirectType fun _ =>
      quiet_bind quiet_applySignature fun _ => quiet_validateReturnCall
  | returnCallRef t =>
    exact quiet_bind quiet_referencedType fun _ =>
      quiet_bind quiet_applySignature fun _ => quiet_validateReturnCall
  | drop => exact quiet_bind quiet_pop.mapErr fun _ => ensures_pure (.refl _)
  | select | typedSelect _ => exact quiet_checkSelect
  | localGet i => exact ensures_bind₂ fun _ _ => ensures_pure (quiet_push _ _)
  | refIsNull | refAsNonNull =>
    exact ensures_bind fun _ => quiet_bind quiet_popRef fun _ => ensures_pure (quiet_push _ _)
  | _ => exact ensures_bind fun _ => quiet_applySignature

/-- An instruction that delimits no block keeps to the block it is in. -/
theorem within_checkInstruction (hinstr : instr.isStructured = false) :
    Ensures (Within s) (ctx.checkInstruction s instr) := by
  intro s' h
  cases hassigned : assigned instr with
  | none => exact (quiet_checkInstruction hinstr hassigned s' h).toWithin
  | some i =>
    obtain ⟨s₁, hquiet, hmark⟩ := checkInstruction_assigned hassigned h
    exact hquiet.toWithin.trans (within_markLocalInit s' hmark)

end FunctionContext

end Andsifr.Validation
