import Andsifr.Validation.Frame

namespace Andsifr.Validation

open Lib Wasm List Check

namespace Stacks

/-- Only the operand types differ. -/
def OnlyStack (s s' : Stacks) : Prop :=
  s' = s.setStack s'.stack

theorem OnlyStack.refl (s : Stacks) : OnlyStack s s := rfl

theorem OnlyStack.trans {s₁ s₂ s₃ : Stacks} (h₁ : OnlyStack s₁ s₂) (h₂ : OnlyStack s₂ s₃) :
    OnlyStack s₁ s₃ := by
  rw [h₂, h₁]
  rfl

variable {s s' : Stacks}

theorem OnlyStack.limits (h : OnlyStack s s') : s'.stackLimits = s.stackLimits := by
  rw [h]
  rfl

theorem OnlyStack.blocks (h : OnlyStack s s') : s'.controlBlocks = s.controlBlocks := by
  rw [h]
  rfl

theorem OnlyStack.initLocals (h : OnlyStack s s') : s'.initLocals = s.initLocals := by
  rw [h]
  rfl

theorem onlyStack_tryPop {t : ValueType} (h : s.tryPop = some (t, s')) : OnlyStack s s' := by
  obtain ⟨-, ⟨-, -, rfl⟩ | ⟨rest, -, rfl⟩⟩ := tryPop_eq_some h
  · rfl
  · rfl

theorem onlyStack_tryPops {n : Nat} {popped popped' : List ValueType}
    (h : tryPops n popped s = .ok (popped', s')) : OnlyStack s s' := by
  induction n generalizing popped s with
  | zero =>
    cases h
    rfl
  | succ n ih =>
    unfold tryPops at h
    split at h
    · cases h
    next hpop => exact (onlyStack_tryPop hpop).trans (ih h)

variable {types : List FunctionType} {context : String}

theorem requireStackValues_eq_ok {isParam aboveLimit : Bool} {want : List ValueType}
    (h : requireStackValues types isParam context want aboveLimit s = .ok s') :
    ∃ popped, tryPops want.length [] s = .ok (popped, s') ∧
      (aboveLimit = true → s'.limit = s'.stack.length ∨ s'.polymorphic = true) ∧
      verifyTypes types isParam context 0 (popped.zip want.reverse) = .ok () := by
  unfold requireStackValues at h
  split at h
  · cases h
  next popped s₁ hpops =>
    split at h
    · cases h
    next habove =>
      obtain ⟨⟨⟩, hverify, h⟩ := bind_inv h
      cases h
      refine ⟨popped, hpops, fun hlimit => ?_, hverify⟩
      by_contra hnot
      exact habove ⟨hlimit, hnot⟩

theorem onlyStack_requireStackValues {isParam aboveLimit : Bool} {want : List ValueType}
    (h : requireStackValues types isParam context want aboveLimit s = .ok s') : OnlyStack s s' := by
  obtain ⟨popped, hpops, -⟩ := requireStackValues_eq_ok h
  exact onlyStack_tryPops hpops

theorem enter_eq_ok {kind : BlockKind} {type : BlockType} {saved : Option (List Index)}
    (h : s.enter types kind context type saved = .ok s') :
    ∃ s₁, requireStackValues types true context type.params false
        (s.pushBlock ⟨kind, type, saved⟩) = .ok s₁ ∧
      s'.stack = type.params.reverse ++ s₁.stack ∧
      s'.stackLimits = s₁.stack.length :: s.stackLimits ∧
      s'.controlBlocks = ⟨kind, type, saved⟩ :: s.controlBlocks ∧ s'.initLocals = s.initLocals := by
  obtain ⟨s₁, hreq, h⟩ := bind_inv h
  cases h
  have honly := onlyStack_requireStackValues hreq
  refine ⟨s₁, hreq, by simp [pushStackLimit], ?_, ?_, ?_⟩
  · simp [pushStackLimit, honly.limits, pushBlock]
  · simp [pushStackLimit, honly.blocks, pushBlock]
  · simp [pushStackLimit, honly.initLocals, pushBlock]

theorem resetAtStackLimit_of_suffix {base : List ValueType} (hbase : base <:+ s.stack)
    (hlimit : base.length = s.limit) : s.resetAtStackLimit = s.setStack base := by
  unfold resetAtStackLimit
  rw [← hlimit, ← suffix_iff_eq_drop.mp hbase]

/-- The state is inside a block with `depth` blocks open inside it. Below the block are the operand
types `base` and the blocks `outer`, with their limits. -/
structure Inside (s : Stacks) (depth : Nat) (b : ControlBlock) (base : List ValueType)
    (outer : List ControlBlock) (outerLimits : List Nat) : Prop where
  blocks : ∃ inner, inner.length = depth ∧ s.controlBlocks = inner ++ b :: outer
  limits : ∃ inner, inner.length = depth ∧ s.stackLimits = inner ++ base.length :: outerLimits ∧
    ∀ n ∈ inner, base.length ≤ n
  base : base <:+ s.stack
  outer : outer ≠ []

section Inside

variable {s s' : Stacks} {depth : Nat} {b : ControlBlock} {base : List ValueType}
  {outer : List ControlBlock} {outerLimits : List Nat}

theorem inside_zero_iff : s.Inside 0 b base outer outerLimits ↔ s.controlBlocks = b :: outer ∧
    s.stackLimits = base.length :: outerLimits ∧ base <:+ s.stack ∧ outer ≠ [] := by
  constructor
  · rintro ⟨⟨inner, hinner, hblocks⟩, ⟨limits, hlimits, heq, -⟩, hbase, houter⟩
    obtain rfl := length_eq_zero_iff.mp hinner
    obtain rfl := length_eq_zero_iff.mp hlimits
    exact ⟨hblocks, heq, hbase, houter⟩
  · rintro ⟨hblocks, hlimits, hbase, houter⟩
    exact ⟨⟨[], rfl, hblocks⟩, ⟨[], rfl, hlimits, by simp⟩, hbase, houter⟩

section

variable (h : s.Inside depth b base outer outerLimits)

include h

theorem Inside.base_le_limit : base.length ≤ s.limit := by
  obtain ⟨inner, -, hlimits, hle⟩ := h.limits
  unfold limit
  rw [hlimits]
  cases inner with
  | nil => exact le_refl _
  | cons n inner => exact hle n (by simp)

theorem Inside.within (hwithin : Within s s') : s'.Inside depth b base outer outerLimits :=
  ⟨by rw [hwithin.blocks]; exact h.blocks, by rw [hwithin.limits]; exact h.limits,
    hwithin.base base h.base_le_limit h.base, h.outer⟩

theorem Inside.enter {types : List FunctionType}
    {kind : BlockKind} {context : String} {type : BlockType} {saved : Option (List Index)}
    (henter : s.enter types kind context type saved = .ok s') :
    s'.Inside (depth + 1) b base outer outerLimits := by
  obtain ⟨s₁, hreq, hstack, hlimits, hblocks, -⟩ := enter_eq_ok henter
  have hbase : base <:+ s₁.stack :=
    (quiet_requireStackValues _ hreq).base base h.base_le_limit h.base
  obtain ⟨inner, hdepth, hinner⟩ := h.blocks
  obtain ⟨limits, hdepth', hlimits', hle⟩ := h.limits
  refine ⟨⟨⟨kind, type, saved⟩ :: inner, by simp [hdepth], by simp [hblocks, hinner]⟩,
    ⟨s₁.stack.length :: limits, by simp [hdepth'], by simp [hlimits, hlimits'], ?_⟩, ?_, h.outer⟩
  · simp only [mem_cons, forall_eq_or_imp]
    exact ⟨hbase.length_le, hle⟩
  · rw [hstack]
    exact hbase.trans (suffix_append _ _)

end

end Inside

end Stacks

namespace FunctionContext

open Stacks

variable {ctx : FunctionContext} {s s' : Stacks}

theorem checkElse_eq_ok (h : ctx.checkElse s = .ok s') :
    ∃ b outer s₁, s.controlBlocks = b :: outer ∧ b.kind = .ifOp ∧
      s.requireStackValues ctx.types false "if" b.type.results true = .ok s₁ ∧
      s'.stack = b.type.params.reverse ++ s₁.stack.drop (s₁.stack.length - s₁.limit) ∧
      s'.stackLimits = s.stackLimits ∧
      s'.controlBlocks = ⟨.elseOp, b.type, b.savedInitLocals⟩ :: outer ∧
      s'.initLocals = b.savedInitLocals := by
  unfold checkElse at h
  split at h
  · cases h
  next b outer hblocks =>
    split at h
    · cases h
    next hkind =>
      obtain ⟨s₁, hreq, h⟩ := bind_inv h
      cases h
      have honly := onlyStack_requireStackValues hreq
      refine ⟨b, outer, s₁, hblocks, not_not.mp hkind, hreq, ?_, ?_, ?_, ?_⟩
      · rw [pushAll_stack]
        rfl
      · rw [pushAll_limits, ← honly.limits]
        rfl
      · rw [pushAll_blocks]
        rfl
      · rw [pushAll_initLocals]
        rfl

theorem checkEnd_eq_ok (h : ctx.checkEnd s = .ok s') : ∃ b outer s₁, s.controlBlocks = b :: outer ∧
      (b.kind = .ifOp → b.type.results = b.type.params) ∧
      requireStackValues ctx.types false b.kind.name b.type.results true
        ⟨s.stack, s.stackLimits, s.maximumStackPointer, outer,
          if outer = [] then s.initLocals else b.savedInitLocals⟩ = .ok s₁ ∧
      s' = (s₁.resetAtStackLimit.pushAll b.type.results).popStackLimit := by
  unfold checkEnd at h
  split at h
  · cases h
  next b outer hblocks =>
    obtain ⟨_, hkind, h⟩ := bind_inv h
    obtain ⟨s₁, hreq, h⟩ := bind_inv h
    cases h
    refine ⟨b, outer, s₁, hblocks, fun hif => ?_, hreq, rfl⟩
    have := of_decide_eq_true (require_eq_ok_iff.mp hkind)
    tauto

section Inside

variable {depth : Nat} {b : ControlBlock} {base : List ValueType} {outer : List ControlBlock}
  {outerLimits : List Nat}

theorem inside_checkEnd (h : s.Inside (depth + 1) b base outer outerLimits)
    (hend : ctx.checkEnd s = .ok s') : s'.Inside depth b base outer outerLimits := by
  obtain ⟨b₀, outer₀, s₁, hblocks, -, hreq, rfl⟩ := checkEnd_eq_ok hend
  have honly := onlyStack_requireStackValues hreq
  obtain ⟨inner, hdepth, hinner⟩ := h.blocks
  obtain ⟨limits, hdepth', hlimits, hle⟩ := h.limits
  cases inner with
  | nil => cases hdepth
  | cons c inner =>
    cases limits with
    | nil => cases hdepth'
    | cons n limits =>
      rw [hinner] at hblocks
      cases hblocks
      have hbase := ((quiet_requireStackValues _ hreq).trans (quiet_resetAtStackLimit _)).base base
        h.base_le_limit h.base
      refine ⟨⟨inner, by simpa using hdepth, ?_⟩, ⟨limits, by simpa using hdepth', ?_, ?_⟩, ?_,
        h.outer⟩
      · simp only [popStackLimit, pushAll_blocks]
        exact honly.blocks
      · simp only [popStackLimit, pushAll_limits]
        rw [show s₁.resetAtStackLimit.stackLimits = s₁.stackLimits from rfl, honly.limits]
        simp [hlimits]
      · exact fun m hm => hle m (by simp [hm])
      · simp only [popStackLimit, pushAll_stack]
        exact hbase.trans (suffix_append _ _)

theorem exit_checkEnd (h : s.Inside 0 b base outer outerLimits) (hend : ctx.checkEnd s = .ok s') :
    s'.stack = b.type.results.reverse ++ base ∧ s'.controlBlocks = outer ∧
      s'.stackLimits = outerLimits ∧ s'.initLocals = b.savedInitLocals := by
  obtain ⟨b₀, outer₀, s₁, hblocks, -, hreq, rfl⟩ := checkEnd_eq_ok hend
  have honly := onlyStack_requireStackValues hreq
  obtain ⟨hinner, hlimits, -⟩ := inside_zero_iff.mp h
  rw [hinner] at hblocks
  cases hblocks
  have hbase := (quiet_requireStackValues _ hreq).base base h.base_le_limit h.base
  have hlimits₁ : s₁.stackLimits = base.length :: outerLimits := honly.limits.trans hlimits
  have hreset := resetAtStackLimit_of_suffix hbase (by unfold limit; rw [hlimits₁]; rfl)
  refine ⟨?_, ?_, ?_, ?_⟩
  · simp [popStackLimit, hreset]
  · simp [popStackLimit, hreset, honly.blocks]
  · simp [popStackLimit, hreset, hlimits₁]
  · simp [popStackLimit, hreset, honly.initLocals, h.outer]

theorem inside_checkElse (h : s.Inside (depth + 1) b base outer outerLimits)
    (helse : ctx.checkElse s = .ok s') : s'.Inside (depth + 1) b base outer outerLimits := by
  obtain ⟨b₀, outer₀, s₁, hblocks, -, hreq, hstack, hlimits, hblocks', -⟩ := checkElse_eq_ok helse
  obtain ⟨inner, hdepth, hinner⟩ := h.blocks
  cases inner with
  | nil => cases hdepth
  | cons c inner =>
    rw [hinner] at hblocks
    cases hblocks
    have hbase := ((quiet_requireStackValues _ hreq).trans (quiet_resetAtStackLimit _)).base base
      h.base_le_limit h.base
    refine ⟨⟨_ :: inner, by simpa using hdepth, by rw [hblocks']; rfl⟩,
      by rw [hlimits]; exact h.limits, ?_, h.outer⟩
    rw [hstack]
    exact hbase.trans (suffix_append _ _)

theorem restart_checkElse (h : s.Inside 0 b base outer outerLimits)
    (helse : ctx.checkElse s = .ok s') :
    b.kind = .ifOp ∧ s'.Inside 0 ⟨.elseOp, b.type, b.savedInitLocals⟩ base outer outerLimits ∧
      s'.stack = b.type.params.reverse ++ base ∧ s'.initLocals = b.savedInitLocals := by
  obtain ⟨b₀, outer₀, s₁, hblocks, hkind, hreq, hstack, hlimits, hblocks', hinit⟩ :=
    checkElse_eq_ok helse
  have honly := onlyStack_requireStackValues hreq
  obtain ⟨hinner, hlimits', -⟩ := inside_zero_iff.mp h
  rw [hinner] at hblocks
  cases hblocks
  have hbase := (quiet_requireStackValues _ hreq).base base h.base_le_limit h.base
  have hlimit : s₁.limit = base.length := by
    unfold limit
    rw [honly.limits, hlimits']
    rfl
  rw [hlimit, ← suffix_iff_eq_drop.mp hbase] at hstack
  refine ⟨hkind, inside_zero_iff.mpr ⟨hblocks', hlimits.trans hlimits', ?_, h.outer⟩, hstack, hinit⟩
  rw [hstack]
  exact suffix_append _ _

theorem inside_open {instr : Instruction} (h : s.Inside depth b base outer outerLimits)
    (hinstr : (∃ type, instr = .block type ∨ instr = .loop type ∨ instr = .ifOp type) ∨
      ∃ type catches, instr = .tryTable type catches)
    (hcheck : ctx.checkInstruction s instr = .ok s') :
    s'.Inside (depth + 1) b base outer outerLimits := by
  rcases hinstr with ⟨type, rfl | rfl | rfl⟩ | ⟨type, catches, rfl⟩
  · exact h.enter hcheck
  · exact h.enter hcheck
  · obtain ⟨s₁, hpop, hcheck⟩ := bind_inv hcheck
    exact (h.within (quiet_popAndVerifyType _ (mapErr_inv hpop)).toWithin).enter hcheck
  · obtain ⟨_, -, hcheck⟩ := bind_inv hcheck
    obtain ⟨_, -, hcheck⟩ := bind_inv hcheck
    exact h.enter hcheck

end Inside

end FunctionContext

end Andsifr.Validation
