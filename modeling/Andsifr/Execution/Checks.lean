import Andsifr.Execution.Operands
import Andsifr.Execution.Signatures
import Andsifr.Execution.Skip

namespace Andsifr.Execution

open Lib Wasm Validation List Check Stacks FunctionContext

variable {ctx : FunctionContext} {s s' : Stacks}

/-- The types on the stack are known, and so are those of the open blocks. -/
structure Known (s : Stacks) : Prop where
  stack : unknown ∉ s.stack
  blocks : ∀ b ∈ s.controlBlocks, ∀ t ∈ b.type.params ++ b.type.results, t.Proper

variable {l : Nat} {b : ControlBlock}

theorem Known.labelTypes (hs : Known s)
    (hb : s.controlBlocks[l]? = some b) : unknown ∉ b.labelTypes := by
  refine unknown_notMem fun t ht => hs.blocks b (mem_of_getElem? hb) t ?_
  unfold ControlBlock.labelTypes at ht
  split at ht
  · exact mem_append_left _ ht
  · exact mem_append_right _ ht

theorem Known.of_only (hs : Known s) (honly : OnlyStack s s') (hstack : unknown ∉ s'.stack) :
    Known s' :=
  ⟨hstack, by rw [honly.blocks]; exact hs.blocks⟩

theorem Known.of_takes (hs : Known s) {want : List ValueType} (h : Takes ctx.types s s' want) :
    Known s' :=
  hs.of_only h.only h.known

theorem Known.results {outer : List ControlBlock} (hs : Known s)
    (hb : s.controlBlocks = b :: outer) : unknown ∉ b.type.results :=
  unknown_notMem fun t ht => hs.blocks b (by simp [hb]) t (mem_append_right _ ht)

theorem label_eq_ok_iff {m : String} : s.label m l = .ok b ↔ s.controlBlocks[l]? = some b := by
  unfold label
  cases s.controlBlocks[l]? with
  | none => simp [fail]
  | some b' => simp [pure, Except.pure]

theorem i32_ne_unknown : ValueType.i32 ≠ unknown := by decide

theorem checkBr_known (hs : Known s) (h : ctx.checkBr s l = .ok s') :
    ∃ b s₁, s.controlBlocks[l]? = some b ∧ Takes ctx.types s s₁ b.labelTypes.reverse := by
  obtain ⟨b, hb, h⟩ := bind_inv h
  obtain ⟨s₁, hreq, -⟩ := bind_inv h
  have hb := label_eq_ok_iff.mp hb
  exact ⟨b, s₁, hb, (takes_requireStackValues hs.stack (hs.labelTypes hb) hreq).1⟩

theorem checkBrIf_known (hs : Known s) (h : ctx.checkBrIf s l = .ok s') :
    ∃ b s₁ s₂, s.controlBlocks[l]? = some b ∧ Takes ctx.types s s₁ [.i32] ∧
      Takes ctx.types s₁ s₂ b.labelTypes.reverse ∧ s' = s₂.pushAll b.labelTypes := by
  simp only [checkBrIf, bind_eq_ok_iff] at h
  obtain ⟨b, hb, s₁, hpop, s₂, hreq, ⟨⟩⟩ := h
  have hb := label_eq_ok_iff.mp hb
  have hpop := takes_popAndVerifyType hs.stack i32_ne_unknown (mapErr_inv hpop)
  exact ⟨b, s₁, s₂, hb, hpop, (takes_requireStackValues hpop.known (hs.labelTypes hb) hreq).1, rfl⟩

theorem strict_brTable_known (hs : Known s) {ls : List Index} {d : Index}
    (h : ctx.Strict s (.brTable ls d)) :
    ∃ s₁, Takes ctx.types s s₁ [.i32] ∧ ∀ l ∈ d :: ls, ∃ b s₂, s.controlBlocks[l]? = some b ∧
      Takes ctx.types s₁ s₂ b.labelTypes.reverse := by
  obtain ⟨s₁, hpop, hlabels⟩ := h
  have hpop := takes_popAndVerifyType hs.stack i32_ne_unknown hpop
  refine ⟨s₁, hpop, fun l hl => ?_⟩
  obtain ⟨s₂, hbr⟩ := hlabels l hl
  obtain ⟨b, s₃, hb, htakes⟩ := checkBr_known (hs.of_takes hpop) hbr
  exact ⟨b, s₃, by rwa [hpop.only.blocks] at hb, htakes⟩

theorem asNonNullable_ne_unknown (tp : ValueType) : tp.asNonNullable ≠ unknown := by
  intro heq
  have := congrArg ValueType.nonNullable heq
  cases this

theorem popRef_known (hs : Known s) {name suffix : String} {tp : ValueType}
    (h : popRef s name suffix = .ok (tp, s')) :
    Takes ctx.types s s' [tp] ∧ tp.isRef = true ∧ nonNull tp = tp.asNonNullable := by
  obtain ⟨⟨tp', s₁⟩, hpop, h⟩ := bind_inv h
  obtain ⟨_, hreq, h⟩ := bind_inv h
  cases h
  obtain ⟨htakes, hne⟩ := takes_pop hs.stack (mapErr_inv hpop)
  have href := require_eq_ok_iff.mp hreq
  simp only [hne, decide_false, Bool.or_false] at href
  exact ⟨htakes, href, by rw [nonNull, if_neg hne]⟩

theorem checkBrOnNull_known (hs : Known s) (h : ctx.checkBrOnNull s l = .ok s') :
    ∃ b tp s₁ s₂, s.controlBlocks[l]? = some b ∧ Takes ctx.types s s₁ [tp] ∧ tp.isRef = true ∧
      Takes ctx.types s₁ s₂ b.labelTypes.reverse ∧
      s' = (s₂.pushAll b.labelTypes).push tp.asNonNullable := by
  simp only [checkBrOnNull, bind_eq_ok_iff] at h
  obtain ⟨_, -, b, hb, ⟨tp, s₁⟩, hpop, s₂, hreq, h⟩ := h
  have hb := label_eq_ok_iff.mp hb
  obtain ⟨htakes, href, hnonNull⟩ := @popRef_known ctx _ _ hs _ _ _ hpop
  cases h
  refine ⟨b, tp, s₁, s₂, hb, htakes, href, ?_, by rw [hnonNull]⟩
  exact (takes_requireStackValues htakes.known (hs.labelTypes hb) hreq).1

theorem checkBrOnNonNull_known (hs : Known s) (h : ctx.checkBrOnNonNull s l = .ok s') :
    ∃ b tp others last s₁ s₂, s.controlBlocks[l]? = some b ∧ b.labelTypes = others ++ [last] ∧
      Takes ctx.types s s₁ [tp] ∧ tp.isRef = true ∧
      isRefSubtypeOf ctx.types tp.asNonNullable last = .ok true ∧
      Takes ctx.types s₁ s₂ others.reverse ∧ s' = s₂.pushAll others := by
  obtain ⟨_, -, h⟩ := bind_inv h
  obtain ⟨b, hb, h⟩ := bind_inv h
  obtain ⟨⟨tp, s₁⟩, hpop, h⟩ := bind_inv h
  have hb := label_eq_ok_iff.mp hb
  obtain ⟨htakes, href, hnonNull⟩ := @popRef_known ctx _ _ hs _ _ _ hpop
  cases hlast : b.labelTypes.getLast? with
  | none =>
    rw [hlast] at h
    cases h
  | some last =>
    rw [hlast] at h
    obtain ⟨_, hdelivered, h⟩ := bind_inv h
    obtain ⟨s₂, hreq, h⟩ := bind_inv h
    cases h
    have hsplit : b.labelTypes = b.labelTypes.dropLast ++ [last] :=
      (dropLast_append_getLast? last hlast).symm
    have hlabel := hs.labelTypes hb
    rw [hsplit, mem_append, not_or] at hlabel
    refine ⟨b, tp, _, last, s₁, s₂, hb, hsplit, htakes, href, ?_,
      (takes_requireStackValues htakes.known hlabel.1 hreq).1, rfl⟩
    rw [checkDeliveredRef, hnonNull, if_neg (asNonNullable_ne_unknown tp)] at hdelivered
    obtain ⟨sub, hsub, hdelivered⟩ := bind_inv hdelivered
    cases sub with
    | true => exact hsub
    | false => cases hdelivered

variable {type : BlockType}

theorem enter_known (hs : Known s) {kind : BlockKind} {context : String}
    {saved : Option (List Index)} (htype : ∀ t ∈ type.params ++ type.results, t.Proper)
    (h : s.enter ctx.types kind context type saved = .ok s') :
    ∃ s₁, Takes ctx.types s s₁ type.params.reverse ∧
      After s' type.params s₁.stack (⟨kind, type, saved⟩ :: s.controlBlocks)
        (s₁.stack.length :: s.stackLimits) s.initLocals := by
  obtain ⟨s₁, hreq, hstack, hlimits, hblocks, hinit⟩ := enter_eq_ok h
  have hparams : unknown ∉ type.params :=
    unknown_notMem fun t ht => htype t (mem_append_left _ ht)
  -- the block is pushed before the parameters are popped
  obtain ⟨⟨-, hwithin, hfound, hknown⟩, -⟩ :=
    takes_requireStackValues (s := s.pushBlock ⟨kind, type, saved⟩) hs.stack hparams hreq
  exact ⟨s.setStack s₁.stack, ⟨rfl, ⟨rfl, rfl, .refl _, hwithin.base⟩, hfound, hknown⟩, hstack,
    hblocks, hlimits, hinit⟩

theorem checkIf_known (hs : Known s)
    (htype : ∀ t ∈ type.params ++ type.results, t.Proper) (h : ctx.checkIf s type = .ok s') :
    ∃ s₁ s₂, Takes ctx.types s s₁ [.i32] ∧ Takes ctx.types s₁ s₂ type.params.reverse ∧
      After s' type.params s₂.stack (⟨.ifOp, type, s.initLocals⟩ :: s.controlBlocks)
        (s₂.stack.length :: s.stackLimits) s.initLocals := by
  obtain ⟨s₁, hpop, h⟩ := bind_inv h
  have hpop := takes_popAndVerifyType hs.stack i32_ne_unknown (mapErr_inv hpop)
  obtain ⟨s₂, htakes, hafter⟩ := enter_known (hs.of_takes hpop) htype h
  rw [hpop.only.blocks, hpop.only.limits, hpop.only.initLocals] at hafter
  exact ⟨s₁, s₂, hpop, htakes, hafter⟩

theorem checkTryTable_known (hs : Known s) {catches : List CatchClause}
    (htype : ∀ t ∈ type.params ++ type.results, t.Proper)
    (h : ctx.checkTryTable s type catches = .ok s') :
    ∃ s₁, Takes ctx.types s s₁ type.params.reverse ∧
      After s' type.params s₁.stack (⟨.tryTable, type, none⟩ :: s.controlBlocks)
        (s₁.stack.length :: s.stackLimits) s.initLocals ∧
      ∀ clause ∈ catches, ctx.checkCatch s clause = .ok () := by
  obtain ⟨_, -, h⟩ := bind_inv h
  obtain ⟨_, hcatches, h⟩ := bind_inv h
  obtain ⟨s₁, htakes, hafter⟩ := enter_known hs htype h
  refine ⟨s₁, htakes, hafter, fun clause hclause => ?_⟩
  obtain ⟨_, hcatch⟩ := of_forEach_eq_ok hcatches hclause
  exact hcatch

theorem subtypes_of_checkDelivered {delivered expected : List ValueType} {j : Nat}
    {f : Nat → ValueType → ValueType → String} (hlength : delivered.length = expected.length)
    (h : ctx.checkDelivered f j (delivered.zip expected) = .ok ()) :
    Subtypes ctx.types delivered expected := by
  induction delivered generalizing j expected with
  | nil =>
    obtain rfl := length_eq_zero_iff.mp hlength.symm
    exact .nil
  | cons t delivered ih =>
    cases expected with
    | nil => cases hlength
    | cons u expected =>
      obtain ⟨sub, hsub, h⟩ := bind_inv h
      cases sub with
      | true => exact .cons hsub (ih (by simpa using hlength) h)
      | false => cases h

theorem checkCatch_eq_ok {clause : CatchClause} (h : ctx.checkCatch s clause = .ok ()) :
    ∃ types b, ctx.catchTypes clause = .ok types ∧ s.controlBlocks[clause.label]? = some b ∧
      Subtypes ctx.types types b.labelTypes := by
  obtain ⟨types, htypes, h⟩ := bind_inv h
  obtain ⟨b, hb, h⟩ := bind_inv h
  obtain ⟨_, hlength, h⟩ := bind_inv h
  exact ⟨types, b, htypes, label_eq_ok_iff.mp hb,
    subtypes_of_checkDelivered (of_decide_eq_true (require_eq_ok_iff.mp hlength)) h⟩

theorem checkEnd_known (hs : Known s) {outer : List ControlBlock}
    (hblocks : s.controlBlocks = b :: outer) (h : ctx.checkEnd s = .ok s') :
    ∃ s₁, Takes ctx.types s s₁ b.type.results.reverse ∧ s₁.stack.length = s.limit := by
  obtain ⟨b', outer', s₁, hblocks', -, hreq, -⟩ := checkEnd_eq_ok h
  rw [hblocks] at hblocks'
  cases hblocks'
  obtain ⟨⟨-, hwithin, hfound, hknown⟩, habove⟩ := takes_requireStackValues
    (s := ⟨s.stack, s.stackLimits, s.maximumStackPointer, outer, _⟩) hs.stack
      (hs.results hblocks) hreq
  exact ⟨s.setStack s₁.stack, ⟨rfl, ⟨rfl, rfl, .refl _, hwithin.base⟩, hfound, hknown⟩, habove rfl⟩

theorem checkElse_known (hs : Known s) {outer : List ControlBlock}
    (hblocks : s.controlBlocks = b :: outer) (h : ctx.checkElse s = .ok s') :
    b.kind = .ifOp ∧ ∃ s₁, Takes ctx.types s s₁ b.type.results.reverse ∧
      s₁.stack.length = s.limit := by
  obtain ⟨b', outer', s₁, hblocks', hkind, hreq, -⟩ := checkElse_eq_ok h
  rw [hblocks] at hblocks'
  cases hblocks'
  obtain ⟨htakes, habove⟩ := takes_requireStackValues hs.stack (hs.results hblocks) hreq
  exact ⟨hkind, s₁, htakes, habove rfl⟩

end Andsifr.Execution
