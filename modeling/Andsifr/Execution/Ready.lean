import Andsifr.Execution.Invariant

namespace Andsifr.Execution

open Lib Wasm Validation List Check Stacks FunctionContext

variable {ctx : FunctionContext} {sf s s' s₁ s₂ : Stacks} {values locals : List Value}
  {stack : List ValueType} {limits : List Nat} {blocks : List ControlBlock} {labels : List Label}

section

variable (hctx : ctx.Proper)

include hctx

theorem Takes.cons {t : ValueType} (h : Takes ctx.types s s' [t])
    (hvalues : Typed ctx.types values s.stack) :
    ∃ v below, values = v :: below ∧ HasType ctx.types v t ∧ Typed ctx.types below s'.stack := by
  obtain ⟨args, below, rfl, hargs, hbelow⟩ := h.split hctx.wellFormed hvalues
  cases hargs with
  | cons hv hnil =>
    cases hnil
    exact ⟨_, below, rfl, hv, hbelow⟩

theorem delivers_of_takes
    (hlabels : LabelsOk ctx sf locals stack limits blocks labels) {l : Nat} {b : ControlBlock}
    (hb : blocks[l]? = some b) (htakes : Takes ctx.types s₁ s₂ b.labelTypes.reverse)
    (hvalues : Typed ctx.types values s₁.stack) : Delivers ctx values labels l := by
  obtain ⟨label, hlabel, htypes⟩ := hlabels.target hb
  exact ⟨label, hlabel, by rw [htypes]; exact htakes.top hctx.wellFormed hvalues⟩

theorem delivers_of_nonNull
    (hlabels : LabelsOk ctx sf locals stack limits blocks labels) {l : Nat} {b : ControlBlock}
    (hb : blocks[l]? = some b) {others : List ValueType} {last tp : ValueType}
    (hsplit : b.labelTypes = others ++ [last]) (href : tp.isRef = true)
    (hsub : isRefSubtypeOf ctx.types tp.asNonNullable last = .ok true)
    (htakes : Takes ctx.types s₁ s₂ others.reverse) {v : Value} {below : List Value}
    (hv : HasType ctx.types v tp) (hbelow : Typed ctx.types below s₁.stack) (hne : v ≠ .null) :
    Delivers ctx (v :: below) labels l := by
  obtain ⟨label, hlabel, htypes⟩ := hlabels.target hb
  obtain ⟨args, below', rfl, hargs⟩ := htakes.top hctx.wellFormed hbelow
  refine ⟨label, hlabel, v :: args, below', rfl, ?_⟩
  rw [htypes, hsplit, reverse_append]
  exact .cons (hasType_of_isRefSubtypeOf hctx.wellFormed hsub (hv.asNonNullable href hne)) hargs

theorem results_of_takes {b : ControlBlock} {outer : List ControlBlock}
    (hblocks : s.controlBlocks = b :: outer)
    (hlabels : LabelsOk ctx sf locals s.stack s.stackLimits s.controlBlocks labels)
    (hvalues : Typed ctx.types values s.stack)
    (htakes : Takes ctx.types s s₁ b.type.results.reverse) (hlimit : s₁.stack.length = s.limit) :
    ∃ label outer, labels = label :: outer ∧ Top ctx.types values label.type.results.reverse ∧
      values.length = label.type.results.length + label.height := by
  have htop := htakes.top hctx.wellFormed hvalues
  obtain ⟨found, hfound, hsub⟩ := htakes.stack
  have hlength : values.length = b.type.results.length + s.limit := by
    rw [hvalues.length_eq, hfound, length_append, hsub.length_eq, length_reverse, hlimit]
  unfold limit at hlength
  rw [hblocks] at hlabels
  generalize s.stackLimits = limits at hlabels hlength
  cases hlabels with
  | function hkind htype =>
    refine ⟨_, _, rfl, ?_, ?_⟩
    · simpa only [htype] using htop
    · rw [htype] at hlength
      exact hlength
  | block hbase htype hproper hloop hheight =>
    refine ⟨_, _, rfl, ?_, ?_⟩
    · simpa only [htype] using htop
    · rw [hheight, htype]
      exact hlength

theorem consumesTail_known (hs : Known s) {instr : Instruction}
    (hinstr : (∃ f, instr = .returnCall f) ∨
      (∃ type table, instr = .returnCallIndirect type table) ∨
      ∃ type, instr = .returnCallRef type)
    (hcheck : ctx.checkInstruction s instr = .ok s') (hvalues : Typed ctx.types values s.stack) :
    ConsumesTail ctx values instr := by
  obtain ⟨operands, callee, s₁, hcallee, htakes, hsub⟩ := tailCallee_known hctx hs hinstr hcheck
  exact ⟨operands, callee, hcallee, htakes.top hctx.wellFormed hvalues,
    fun results hresults => hresults.subsume hctx.wellFormed hsub⟩

theorem consumes_signature (hs : Known s) {instr : Instruction}
    (hinstr : instr.Proper) {sig : Signature} (hsig : signature ctx instr = .ok sig)
    (hcheck : ctx.checkInstruction s instr = .ok s') (hvalues : Typed ctx.types values s.stack) :
    ∃ sig, signature ctx instr = .ok sig ∧ Top ctx.types values sig.pops := by
  obtain ⟨s₁, htakes, -⟩ := signature_known hctx hs hinstr hsig hcheck
  exact ⟨sig, hsig, htakes.top hctx.wellFormed hvalues⟩

theorem consumes_of_check (hs : Known s) {instr : Instruction}
    (hproper : instr.Proper) (hstrict : ctx.Strict s instr)
    (hcheck : ctx.checkInstruction s instr = .ok s') (hvalues : Typed ctx.types values s.stack)
    (hlabels : LabelsOk ctx sf locals s.stack s.stackLimits s.controlBlocks labels)
    (hlocals : LocalsTyped ctx s.initLocals locals) : Consumes ctx values labels locals instr := by
  have hwf := hctx.wellFormed
  have hplain := @checkPlain_known ctx s s' instr hctx hs hproper
  have hsignature := @consumes_signature ctx s s' values hctx hs instr hproper
  cases instr with
  | unreachable => trivial
  | block type | loop type =>
    obtain ⟨s₁, htakes, -⟩ := enter_known hs hproper hcheck
    exact htakes.top hwf hvalues
  | ifOp type =>
    obtain ⟨s₁, s₂, hcond, htakes, -⟩ := checkIf_known hs hproper hcheck
    exact (hcond.trans htakes).top hwf hvalues
  | tryTable type catches =>
    obtain ⟨s₁, htakes, -⟩ := checkTryTable_known hs hproper hcheck
    exact htakes.top hwf hvalues
  | elseOp =>
    obtain ⟨b, outer, -, hblocks, -⟩ := checkElse_eq_ok hcheck
    obtain ⟨-, s₁, htakes, hlimit⟩ := checkElse_known hs hblocks hcheck
    exact results_of_takes hctx hblocks hlabels hvalues htakes hlimit
  | endOp =>
    obtain ⟨b, outer, -, hblocks, -⟩ := checkEnd_eq_ok hcheck
    obtain ⟨s₁, htakes, hlimit⟩ := checkEnd_known hs hblocks hcheck
    exact results_of_takes hctx hblocks hlabels hvalues htakes hlimit
  | throw tag =>
    obtain ⟨ft, s₁, hft, htakes⟩ := checkThrow_known hctx hs hcheck
    exact ⟨ft, hft, htakes.top hwf hvalues⟩
  | throwRef =>
    obtain ⟨s₁, htakes⟩ := checkThrowRef_known hs hcheck
    exact htakes.top hwf hvalues
  | br l =>
    obtain ⟨b, s₁, hb, htakes⟩ := checkBr_known hs hcheck
    exact delivers_of_takes hctx hlabels hb htakes hvalues
  | brIf l =>
    obtain ⟨b, s₁, s₂, hb, hcond, htakes, -⟩ := checkBrIf_known hs hcheck
    obtain ⟨c, below, rfl, hc, hbelow⟩ := hcond.cons hctx hvalues
    exact ⟨c, below, rfl, hc, delivers_of_takes hctx hlabels hb htakes hbelow⟩
  | brTable ls d =>
    obtain ⟨s₁, hcond, htargets⟩ := strict_brTable_known hs hstrict
    obtain ⟨c, below, rfl, hc, hbelow⟩ := hcond.cons hctx hvalues
    refine ⟨c, below, rfl, hc, fun l hl => ?_⟩
    obtain ⟨b, s₂, hb, htakes⟩ := htargets l hl
    exact delivers_of_takes hctx hlabels hb htakes hbelow
  | brOnNull l =>
    obtain ⟨b, tp, s₁, s₂, hb, hpop, href, htakes, -⟩ := checkBrOnNull_known hs hcheck
    obtain ⟨v, below, rfl, hv, hbelow⟩ := hpop.cons hctx hvalues
    exact ⟨v, below, rfl, hv.isRef href, delivers_of_takes hctx hlabels hb htakes hbelow⟩
  | brOnNonNull l =>
    obtain ⟨b, tp, others, last, s₁, s₂, hb, hsplit, hpop, href, hsub, htakes, -⟩ :=
      checkBrOnNonNull_known hs hcheck
    obtain ⟨v, below, rfl, hv, hbelow⟩ := hpop.cons hctx hvalues
    exact ⟨v, below, rfl, hv.isRef href, fun hne =>
      delivers_of_nonNull hctx hlabels hb hsplit href hsub htakes hv hbelow hne⟩
  | returnOp =>
    obtain ⟨s₁, htakes⟩ := checkReturn_known hctx hs hcheck
    exact htakes.top hwf hvalues
  | returnCall f => exact consumesTail_known hctx hs (.inl ⟨f, rfl⟩) hcheck hvalues
  | returnCallIndirect type table =>
    exact consumesTail_known hctx hs (.inr (.inl ⟨type, table, rfl⟩)) hcheck hvalues
  | returnCallRef type => exact consumesTail_known hctx hs (.inr (.inr ⟨type, rfl⟩)) hcheck hvalues
  | drop =>
    obtain ⟨t, htakes⟩ := @checkDrop_known ctx _ _ hs hcheck
    obtain ⟨v, below, rfl, -⟩ := htakes.cons hctx hvalues
    exact cons_ne_nil v below
  | select =>
    obtain ⟨v₁, v₂, t, s₁, htakes, hsub, -, href, -⟩ := checkSelect_known hs hcheck
    obtain ⟨args, below, rfl, hargs⟩ := htakes.top hwf hvalues
    cases hargs with
    | cons hc hargs => exact ⟨t, href rfl, _, below, rfl, .cons hc (Typed.subsume hwf hargs hsub)⟩
  | typedSelect declared =>
    obtain ⟨s₁, hpops⟩ := hstrict
    refine (takes_popAll hs.stack (unknown_notMem ?_) hpops).top hwf hvalues
    intro t ht
    simp only [mem_cons, not_mem_nil, or_false] at ht
    rcases ht with rfl | rfl | rfl
    · decide
    · exact hproper
    · exact hproper
  | localGet i =>
    obtain ⟨t, ht, -, hread, -⟩ := checkLocalGet_known hctx hcheck
    obtain ⟨v, hv, htyped⟩ := hlocals.typed i t ht hread
    exact ⟨t, v, ht, hv, htyped⟩
  | localSet i =>
    obtain ⟨t, s₁, ht, -, htakes, -⟩ := localAssign_known hctx hs (.inl ⟨rfl, rfl⟩) hcheck
    exact ⟨t, ht, htakes.top hwf hvalues⟩
  | localTee i =>
    obtain ⟨t, s₁, ht, -, htakes, -⟩ := localAssign_known hctx hs (.inr ⟨rfl, rfl⟩) hcheck
    exact ⟨t, ht, htakes.top hwf hvalues⟩
  | refIsNull =>
    obtain ⟨tp, s₁, htakes, href, -⟩ := checkRefIsNull_known hs hcheck
    obtain ⟨v, below, rfl, hv, -⟩ := htakes.cons hctx hvalues
    exact ⟨v, below, rfl, hv.isRef href⟩
  | refAsNonNull =>
    obtain ⟨tp, s₁, htakes, href, -⟩ := checkRefAsNonNull_known hs hcheck
    obtain ⟨v, below, rfl, hv, -⟩ := htakes.cons hctx hvalues
    exact ⟨v, below, rfl, hv.isRef href⟩
  | call f =>
    obtain ⟨ft, hft, -⟩ := bind_inv hcheck
    exact hsignature (by rw [signature, hft]; rfl) hcheck hvalues
  | callIndirect type table =>
    obtain ⟨⟨ft, s₁⟩, hindirect, -⟩ := bind_inv hcheck
    exact hsignature (by rw [signature, (indirectType_known hs hindirect).1]; rfl) hcheck hvalues
  | callRef type =>
    obtain ⟨⟨ft, s₁⟩, href, -⟩ := bind_inv hcheck
    exact hsignature (by rw [signature, (referencedType_known hs href).1]; rfl) hcheck hvalues
  | _ =>
    obtain ⟨sig, s₁, hsig, htakes, -⟩ := hplain hcheck
    exact ⟨sig, hsig, htakes.top hwf hvalues⟩

theorem delivers_of_catch
    (hlabels : LabelsOk ctx sf locals stack limits blocks labels) {j : Nat} {label : Label}
    (hlabel : labels[j]? = some label) {clause : CatchClause} (hclause : clause ∈ label.catches)
    {types : List ValueType} (htypes : ctx.catchTypes clause = .ok types) {payload : List Value}
    (hpayload : Typed ctx.types payload types.reverse) :
    Delivers ctx payload (labels.drop (j + 1)) clause.label := by
  obtain ⟨hj, hlabel⟩ := List.getElem?_eq_some_iff.mp hlabel
  obtain ⟨stack', limits', -, hdrop⟩ := hlabels.drop hj
  rw [drop_eq_getElem_cons hj, hlabel] at hdrop
  generalize blocks.drop j = blocks' at hdrop
  generalize labels.drop (j + 1) = outer at hdrop ⊢
  cases hdrop with
  | function => cases hclause
  | block hbase htype hproper hloop hheight hcont hafter hlocals hcatches houter =>
    obtain ⟨types', target, htypes', htarget, hsub⟩ := hcatches clause hclause
    cases htypes.symm.trans htypes'
    obtain ⟨label', hlabel', heq⟩ := houter.target htarget
    refine ⟨label', hlabel', payload, [], by simp, ?_⟩
    rw [heq]
    exact hpayload.subsume hctx.wellFormed (rel_reverse hsub)

theorem Running.isKnown {st : State} (h : Running ctx sf st s) : Known s :=
  ⟨h.known, h.labels.proper hctx⟩

theorem ready_of_wellTyped (hsf : sf.controlBlocks = []) {st : State}
    (h : WellTyped ctx sf st) : Ready ctx st := by
  cases h with
  | @running _ s h =>
    refine ⟨?_, ?_, ?_⟩
    · intro instr rest hrest
      have hpasses := h.passes
      rw [hrest] at hpasses
      cases hpasses with
      | cons hblocks hproper hstrict hcheck _ =>
        exact consumes_of_check hctx (h.isKnown hctx) hproper hstrict hcheck h.values h.labels
          h.locals
    · intro j label clause types payload hlabel hclause htypes hpayload
      exact delivers_of_catch hctx h.labels hlabel hclause htypes hpayload
    · intro hrest
      have hpasses := h.passes
      rw [hrest] at hpasses
      cases hpasses
      exact absurd hsf h.labels.ne_nil
  | done h =>
    refine ⟨?_, ?_, fun _ => h⟩
    · rintro instr rest ⟨⟩
    · rintro j label clause types payload ⟨⟩

end

end Andsifr.Execution
