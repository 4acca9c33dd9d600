import Andsifr.Execution.Preservation

namespace Andsifr.Execution

open Lib Wasm Validation List Check Stacks FunctionContext

variable {ctx : FunctionContext} {sf s s' s₁ s₂ : Stacks} {instr : Instruction}
  {rest : List Instruction} {values below locals : List Value} {labels : List Label}
  {l : Nat} {st : State}

theorem Running.branch (h : Running ctx sf ⟨instr :: rest, values, labels, locals⟩ s)
    (hdelivers : Delivers ctx values labels l)
    (hst : branch values labels locals l = some st) : WellTyped ctx sf st :=
  wellTyped_branch h.labels h.known [] h.values hdelivers hst

variable {v : Value}

theorem Running.branch_below {want : List ValueType}
    (h : Running ctx sf ⟨instr :: rest, v :: below, labels, locals⟩ s)
    (htakes : Takes ctx.types s s₁ want) (hbelow : Typed ctx.types below s₁.stack)
    (hdelivers : Delivers ctx below labels l)
    (hst : Execution.branch below labels locals l = some st) : WellTyped ctx sf st :=
  wellTyped_branch (h.labels.within htakes.within) htakes.known [] hbelow hdelivers hst

section

variable (hctx : ctx.Proper)

include hctx

theorem wellTyped_brIfNot {c : Value}
    (h : Running ctx sf ⟨.brIf l :: rest, c :: values, labels, locals⟩ s)
    (hcheck : ctx.checkBrIf s l = .ok s') (hrest : ctx.Passes s' rest sf) :
    WellTyped ctx sf ⟨rest, values, labels, locals⟩ := by
  have hs := h.isKnown hctx
  obtain ⟨b, s₁, s₂, hb, hcond, htakes, rfl⟩ := checkBrIf_known hs hcheck
  obtain ⟨_, _, heq, -, hvalues⟩ := hcond.cons hctx h.values
  cases heq
  obtain ⟨args, below, rfl, hargs, hbelow⟩ := htakes.split hctx.wellFormed hvalues
  exact h.push rfl b.labelTypes args hcheck hrest (hcond.trans htakes)
    (hs.labelTypes hb) hargs hbelow

theorem wellTyped_brOnNullNot (hv : v ≠ .null)
    (h : Running ctx sf ⟨.brOnNull l :: rest, v :: values, labels, locals⟩ s)
    (hcheck : ctx.checkBrOnNull s l = .ok s') (hrest : ctx.Passes s' rest sf) :
    WellTyped ctx sf ⟨rest, v :: values, labels, locals⟩ := by
  have hs := h.isKnown hctx
  obtain ⟨b, tp, s₁, s₂, hb, hpop, href, htakes, rfl⟩ := checkBrOnNull_known hs hcheck
  obtain ⟨_, _, heq, htp, hvalues⟩ := hpop.cons hctx h.values
  cases heq
  obtain ⟨args, below, rfl, hargs, hbelow⟩ := htakes.split hctx.wellFormed hvalues
  -- the reference is pushed again above the operands of the label, as the last of them
  have hpush : (s₂.pushAll b.labelTypes).push tp.asNonNullable =
      s₂.pushAll (b.labelTypes ++ [tp.asNonNullable]) := by
    simp [pushAll, foldl_append]
  rw [hpush] at hcheck hrest
  refine h.push rfl _ (v :: args) hcheck hrest (hpop.trans htakes) ?_ ?_ hbelow
  · rw [mem_append, not_or]
    exact ⟨hs.labelTypes hb, by simpa using (asNonNullable_ne_unknown tp).symm⟩
  · rw [reverse_append]
    exact .cons (htp.asNonNullable href hv) hargs

theorem wellTyped_brOnNonNullNot
    (h : Running ctx sf ⟨.brOnNonNull l :: rest, v :: values, labels, locals⟩ s)
    (hcheck : ctx.checkBrOnNonNull s l = .ok s') (hrest : ctx.Passes s' rest sf) :
    WellTyped ctx sf ⟨rest, values, labels, locals⟩ := by
  have hs := h.isKnown hctx
  obtain ⟨b, tp, others, last, s₁, s₂, hb, hsplit, hpop, href, hsub, htakes, rfl⟩ :=
    checkBrOnNonNull_known hs hcheck
  obtain ⟨_, _, heq, -, hvalues⟩ := hpop.cons hctx h.values
  cases heq
  obtain ⟨args, below, rfl, hargs, hbelow⟩ := htakes.split hctx.wellFormed hvalues
  refine h.push rfl others args hcheck hrest (hpop.trans htakes) ?_ hargs hbelow
  have hlabel := hs.labelTypes hb
  rw [hsplit, mem_append, not_or] at hlabel
  exact hlabel.1

theorem wellTyped_caught
    (h : Running ctx sf ⟨instr :: rest, values, labels, locals⟩ s) {j : Nat} {label : Label}
    (hlabel : labels[j]? = some label) {clause : CatchClause} (hclause : clause ∈ label.catches)
    {types : List ValueType} (htypes : ctx.catchTypes clause = .ok types) {payload : List Value}
    (hpayload : Typed ctx.types payload types.reverse)
    (hst : branch (payload ++ values.drop (values.length - label.height)) (labels.drop (j + 1))
      locals clause.label = some st) : WellTyped ctx sf st := by
  obtain ⟨target, htarget, args, below, hsplit, hargs⟩ :=
    delivers_of_catch hctx h.labels hlabel hclause htypes hpayload
  have hdelivers : Delivers ctx (payload ++ values.drop (values.length - label.height))
      (labels.drop (j + 1)) clause.label :=
    ⟨target, htarget, args, below ++ _, by rw [hsplit, append_assoc], hargs⟩
  obtain ⟨hj, hlabel⟩ := List.getElem?_eq_some_iff.mp hlabel
  obtain ⟨stack', limits', hsuffix, hdrop⟩ := h.labels.drop hj
  rw [drop_eq_getElem_cons hj, hlabel] at hdrop
  generalize s.controlBlocks.drop j = blocks at hdrop
  generalize labels.drop (j + 1) = outer at hdrop hdelivers hst
  cases hdrop with
  | function => cases hclause
  | block hbase htype hproper hloop hheight hcont hafter hlocals hcatches houter =>
    have hbase' := hbase.trans hsuffix
    have hbelow := h.values.suffix hbase'
    rw [← hheight] at hbelow
    exact wellTyped_branch houter (fun hmem => h.known (hbase'.subset hmem)) payload hbelow
      hdelivers
      hst

end

theorem tailCall_cases {operands : List ValueType} {callee : FunctionType}
    (h : tailCallee ctx instr = .ok (operands, callee)) :
    (∃ f, instr = .returnCall f) ∨ (∃ type table, instr = .returnCallIndirect type table) ∨
      ∃ type, instr = .returnCallRef type := by
  cases instr with
  | returnCall f => exact .inl ⟨f, rfl⟩
  | returnCallIndirect type table => exact .inr (.inl ⟨type, table, rfl⟩)
  | returnCallRef type => exact .inr (.inr ⟨type, rfl⟩)
  | _ => cases h

variable {st' : State}

theorem step_running (hctx : ctx.Proper) (h : Running ctx sf st s)
    (hstep : Step ctx st st') : WellTyped ctx sf st' := by
  have hs := h.isKnown hctx
  obtain ⟨_ | ⟨instr, rest⟩, values, labels, locals⟩ := st
  · cases hstep
  obtain _ | ⟨_, hproper, hstrict, hcheck, hrest⟩ := h.passes
  cases hstep with
  | simple hsig hargs hresults =>
    exact wellTyped_simple hctx h hproper hcheck hrest hsig hargs hresults
  | drop =>
    obtain ⟨t, htakes⟩ := @checkDrop_known ctx _ _ hs hcheck
    obtain ⟨_, _, heq, -, hbelow⟩ := htakes.cons hctx h.values
    cases heq
    exact h.push rfl [] [] hcheck hrest htakes (by simp) .nil hbelow
  | select hinstr hv =>
    rcases hinstr with rfl | ⟨t, rfl⟩
    · exact wellTyped_select hctx h rfl hcheck hcheck hrest hv
    · exact wellTyped_select hctx h rfl hcheck hcheck hrest hv
  | localGet hv =>
    obtain ⟨t, ht, hproper, hread, rfl⟩ := checkLocalGet_known hctx hcheck
    obtain ⟨v, hv', htyped⟩ := h.locals.typed _ t ht hread
    cases hv.symm.trans hv'
    exact h.push rfl [t] [_] hcheck hrest (.refl h.known)
      (by simpa using (ne_unknown_of_proper hproper).symm) (.cons htyped .nil) h.values
  | localSet =>
    exact wellTyped_localAssign hctx h (.inl ⟨rfl, rfl, rfl⟩) hcheck hrest
  | localTee =>
    exact wellTyped_localAssign hctx h (.inr ⟨rfl, rfl, rfl⟩) hcheck hrest
  | refIsNull =>
    obtain ⟨tp, s₁, htakes, -, rfl⟩ := checkRefIsNull_known hs hcheck
    obtain ⟨_, _, heq, -, hbelow⟩ := htakes.cons hctx h.values
    cases heq
    exact h.push rfl [.i32] [.i32] hcheck hrest htakes (by decide) (.cons ⟨rfl, rfl⟩ .nil) hbelow
  | refAsNonNull hv =>
    obtain ⟨tp, s₁, htakes, href, rfl⟩ := checkRefAsNonNull_known hs hcheck
    obtain ⟨_, _, heq, htp, hbelow⟩ := htakes.cons hctx h.values
    cases heq
    exact h.push rfl [tp.asNonNullable] [_] hcheck hrest htakes
      (by simpa using (asNonNullable_ne_unknown tp).symm)
      (.cons (htp.asNonNullable href hv) .nil) hbelow
  | block hargs hcont =>
    exact wellTyped_block hctx h hproper hcheck hrest hargs hcont
  | loop hargs =>
    exact wellTyped_loop hctx h hproper hcheck hrest hargs
  | tryTable hargs hcont =>
    exact wellTyped_tryTable hctx h hproper hcheck hrest hargs hcont
  | ifTrue hargs hcont =>
    exact wellTyped_if hctx h hproper hcheck hrest hargs hcont (.inl rfl)
  | ifFalse hargs hcont hrest' =>
    exact wellTyped_if hctx h hproper hcheck hrest hargs hcont (.inr hrest')
  | elseOp =>
    exact wellTyped_else hctx h hcheck
  | endOp =>
    exact wellTyped_end hctx h hcheck hrest
  | br hst =>
    obtain ⟨b, s₁, hb, htakes⟩ := checkBr_known hs hcheck
    exact h.branch (delivers_of_takes hctx h.labels hb htakes h.values) hst
  | brIfTaken hst =>
    obtain ⟨b, s₁, s₂, hb, hcond, htakes, -⟩ := checkBrIf_known hs hcheck
    obtain ⟨_, _, heq, -, hbelow⟩ := hcond.cons hctx h.values
    cases heq
    exact h.branch_below hcond hbelow (delivers_of_takes hctx h.labels hb htakes hbelow) hst
  | brIfNot =>
    exact wellTyped_brIfNot hctx h hcheck hrest
  | brTable hl hst =>
    obtain ⟨s₁, hcond, htargets⟩ := strict_brTable_known hs hstrict
    obtain ⟨_, _, heq, -, hbelow⟩ := hcond.cons hctx h.values
    cases heq
    obtain ⟨b, s₂, hb, htakes⟩ := htargets _ hl
    exact h.branch_below hcond hbelow (delivers_of_takes hctx h.labels hb htakes hbelow) hst
  | brOnNullTaken hst =>
    obtain ⟨b, tp, s₁, s₂, hb, hpop, -, htakes, -⟩ := checkBrOnNull_known hs hcheck
    obtain ⟨_, _, heq, -, hbelow⟩ := hpop.cons hctx h.values
    cases heq
    exact h.branch_below hpop hbelow (delivers_of_takes hctx h.labels hb htakes hbelow) hst
  | brOnNullNot hv =>
    exact wellTyped_brOnNullNot hctx hv h hcheck hrest
  | brOnNonNullTaken hv hst =>
    obtain ⟨b, tp, others, last, s₁, s₂, hb, hsplit, hpop, href, hsub, htakes, -⟩ :=
      checkBrOnNonNull_known hs hcheck
    obtain ⟨_, _, heq, htp, hbelow⟩ := hpop.cons hctx h.values
    cases heq
    exact h.branch (delivers_of_nonNull hctx h.labels hb hsplit href hsub htakes htp hbelow hv) hst
  | brOnNonNullNot =>
    exact wellTyped_brOnNonNullNot hctx h hcheck hrest
  | returnOp =>
    obtain ⟨s₁, htakes⟩ := checkReturn_known hctx hs hcheck
    have hresults := (htakes.top hctx.wellFormed h.values).take
    rw [length_reverse] at hresults
    exact .done hresults
  | @tailCall instr _ _ _ _ operands callee _ hcallee hresults =>
    obtain ⟨operands', callee', s₁, hcallee', -, hsub⟩ :=
      tailCallee_known hctx hs (tailCall_cases hcallee) hcheck
    cases hcallee.symm.trans hcallee'
    exact .done (hresults.subsume hctx.wellFormed hsub)
  | caught hthrow hlabel hclause htypes hpayload hst =>
    exact wellTyped_caught hctx h hlabel hclause htypes hpayload hst

theorem wellTyped_step (hctx : ctx.Proper) (h : WellTyped ctx sf st)
    (hstep : Step ctx st st') : WellTyped ctx sf st' := by
  cases h with
  | running h => exact step_running hctx h hstep
  | done => cases hstep

theorem wellTyped_run (hctx : ctx.Proper) (h : WellTyped ctx sf st)
    (hrun : Run ctx st st') : WellTyped ctx sf st' := by
  induction hrun with
  | refl => exact h
  | tail _ hstep ih => exact wellTyped_step hctx ih hstep

end Andsifr.Execution
