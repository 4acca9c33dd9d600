import Andsifr.Execution.Ready

namespace Andsifr.Execution

open Lib Wasm Validation List Check Stacks FunctionContext

variable {ctx : FunctionContext} {sf s s' s₁ s₂ : Stacks} {instr : Instruction}
  {rest cont : List Instruction} {values values' args below locals : List Value}
  {labels : List Label}

theorem Running.next (h : Running ctx sf ⟨instr :: rest, values, labels, locals⟩ s)
    (hinstr : instr.isStructured = false) (hcheck : ctx.checkInstruction s instr = .ok s')
    (hrest : ctx.Passes s' rest sf) (hknown : unknown ∉ s'.stack)
    (hinit : s'.initLocals = s.initLocals)
    (hvalues : Typed ctx.types values' s'.stack) :
    WellTyped ctx sf ⟨rest, values', labels, locals⟩ :=
  .running ⟨hrest, hknown, hvalues, h.labels.within (within_checkInstruction hinstr _ hcheck),
    by rw [hinit]; exact h.locals⟩

theorem Running.push (h : Running ctx sf ⟨instr :: rest, values, labels, locals⟩ s)
    (hinstr : instr.isStructured = false) (pushes : List ValueType) (results : List Value)
    (hcheck : ctx.checkInstruction s instr = .ok (s₁.pushAll pushes))
    (hrest : ctx.Passes (s₁.pushAll pushes) rest sf) {want : List ValueType}
    (htakes : Takes ctx.types s s₁ want) (hpushes : unknown ∉ pushes)
    (hresults : Typed ctx.types results pushes.reverse) (hbelow : Typed ctx.types below s₁.stack) :
    WellTyped ctx sf ⟨rest, results ++ below, labels, locals⟩ := by
  refine h.next hinstr hcheck hrest ?_ ?_ ?_
  · rw [pushAll_stack, mem_append, not_or, mem_reverse]
    exact ⟨hpushes, htakes.known⟩
  · rw [pushAll_initLocals, htakes.only.initLocals]
  · rw [pushAll_stack]
    exact hresults.append hbelow

theorem isStructured_of_signature {sig : Signature} (h : signature ctx instr = .ok sig) :
    instr.isStructured = false := by
  cases instr with
  | block | loop | ifOp | elseOp | tryTable | endOp => cases h
  | _ => rfl

theorem wellTyped_simple (hctx : ctx.Proper)
    (h : Running ctx sf ⟨instr :: rest, args ++ below, labels, locals⟩ s) (hproper : instr.Proper)
    (hcheck : ctx.checkInstruction s instr = .ok s') (hrest : ctx.Passes s' rest sf)
    {sig : Signature} (hsig : signature ctx instr = .ok sig)
    (hargs : args.length = sig.pops.length) {results : List Value}
    (hresults : Produces ctx instr sig results) :
    WellTyped ctx sf ⟨rest, results ++ below, labels, locals⟩ := by
  obtain ⟨s₁, htakes, rfl⟩ := signature_known hctx (h.isKnown hctx) hproper hsig hcheck
  have hbelow := (htakes.typed hctx.wellFormed h.values hargs).2
  refine h.push (isStructured_of_signature hsig) _ _ hcheck hrest htakes (unknown_notMem ?_)
    (typed_of_produces hproper hsig hresults) hbelow
  exact fun t ht => proper_signature hctx hproper sig hsig t (mem_append_right _ ht)

theorem wellTyped_select (hctx : ctx.Proper) {c v v₁ v₂ : Value}
    (h : Running ctx sf ⟨instr :: rest, c :: v₁ :: v₂ :: below, labels, locals⟩ s) {typed : Bool}
    (hinstr : instr.isStructured = false) (hcheck : ctx.checkInstruction s instr = .ok s')
    (hselect : ctx.checkSelect s typed = .ok s') (hrest : ctx.Passes s' rest sf)
    (hv : v = v₁ ∨ v = v₂) : WellTyped ctx sf ⟨rest, v :: below, labels, locals⟩ := by
  obtain ⟨t₁, t₂, t, s₁, htakes, hsub, hne, -, rfl⟩ := checkSelect_known (h.isKnown hctx) hselect
  have hvalues : Typed ctx.types ([c, v₁, v₂] ++ below) s.stack := h.values
  obtain ⟨hargs, hbelow⟩ := htakes.typed hctx.wellFormed hvalues rfl
  refine h.push hinstr [t] [v] hcheck hrest htakes (by simpa using hne.symm) ?_ hbelow
  cases hargs with
  | cons hc hargs =>
    cases Typed.subsume hctx.wellFormed hargs hsub with
    | cons hv₁ hv₂ =>
      cases hv₂ with
      | cons hv₂ _ =>
        rcases hv with rfl | rfl
        · exact .cons hv₁ .nil
        · exact .cons hv₂ .nil

variable {init : Option (List Index)}

theorem LocalsTyped.set {init init' : Option (List Index)} {i : Nat} {t : ValueType} {v : Value}
    (h : LocalsTyped ctx init locals) (ht : (localTypes ctx)[i]? = some t)
    (hv : HasType ctx.types v t)
    (hinit : ∀ j, Readable ctx init' j → j = i ∨ Readable ctx init j) :
    LocalsTyped ctx init' (locals.set i v) := by
  refine ⟨by rw [length_set]; exact h.length, fun j u hu hread => ?_⟩
  rcases Decidable.eq_or_ne j i with rfl | hne
  · rw [ht] at hu
    cases hu
    have hlt : j < locals.length := h.length ▸ (List.getElem?_eq_some_iff.mp ht).1
    exact ⟨v, getElem?_set_self hlt, hv⟩
  · obtain ⟨w, hw, htyped⟩ := h.typed j u hu ((hinit j hread).resolve_left hne)
    exact ⟨w, by rwa [getElem?_set_ne hne.symm], htyped⟩

theorem wellTyped_localAssign (hctx : ctx.Proper) {i : Nat} {v : Value} {kept : List Value}
    {keptTypes : ValueType → List ValueType}
    (h : Running ctx sf ⟨instr :: rest, v :: below, labels, locals⟩ s)
    (hinstr : (instr = .localSet i ∧ (keptTypes = fun _ => []) ∧ kept = []) ∨
      (instr = .localTee i ∧ (keptTypes = fun t => [t]) ∧ kept = [v]))
    (hcheck : ctx.checkInstruction s instr = .ok s') (hrest : ctx.Passes s' rest sf) :
    WellTyped ctx sf ⟨rest, kept ++ below, labels, locals.set i v⟩ := by
  obtain ⟨t, s₁, ht, hproper, htakes, hstack, hinit⟩ := localAssign_known hctx (h.isKnown hctx)
    (hinstr.imp (fun h => ⟨h.1, h.2.1⟩) fun h => ⟨h.1, h.2.1⟩) hcheck
  obtain ⟨_, _, heq, hv, hbelow⟩ := htakes.cons hctx h.values
  cases heq
  have hstructured : instr.isStructured = false := by
    rcases hinstr with ⟨rfl, -⟩ | ⟨rfl, -⟩ <;> rfl
  have hlabels := h.labels.within (within_checkInstruction hstructured _ hcheck)
  refine .running ⟨hrest, ?_, ?_, hlabels.assign fun init hlocals =>
    hlocals.set ht hv fun j hj => .inr hj, h.locals.set ht hv hinit⟩
  · rw [hstack, mem_append, not_or]
    refine ⟨?_, htakes.known⟩
    rcases hinstr with ⟨-, rfl, -⟩ | ⟨-, rfl, -⟩
    · simp
    · simpa using (ne_unknown_of_proper hproper).symm
  · rw [hstack]
    rcases hinstr with ⟨-, rfl, rfl⟩ | ⟨-, rfl, rfl⟩
    · exact hbelow
    · exact .cons hv hbelow

theorem After.inside {t : Stacks} {types base : List ValueType} {b : ControlBlock}
    {outer : List ControlBlock} {limits : List Nat}
    (h : After t types base (b :: outer) (base.length :: limits) init) (houter : outer ≠ []) :
    t.Inside 0 b base outer limits :=
  inside_zero_iff.mpr ⟨h.blocks, h.limits, by rw [h.stack]; exact suffix_append _ _, houter⟩

theorem LocalsTyped.none (h : LocalsTyped ctx init locals) : LocalsTyped ctx none locals :=
  ⟨h.length, fun i t ht hread => h.typed i t ht (.inl (hread.resolve_right (by simp)))⟩

variable {type : BlockType}

theorem labelsOk_enter
    (hlabels : LabelsOk ctx sf locals s.stack s.stackLimits s.controlBlocks labels)
    {want : List ValueType} (htakes : Takes ctx.types s s₁ want)
    (htype : ∀ t ∈ type.params ++ type.results, t.Proper) {kind kind' : BlockKind}
    (hkind : kind' ≠ .loop) {saved init : Option (List Index)}
    (hafter : After s' type.params s₁.stack (⟨kind, type, saved⟩ :: s.controlBlocks)
      (s₁.stack.length :: s.stackLimits) init) (hrest : ctx.Passes s' rest sf)
    (hcont : afterEnd 0 rest = some cont) (hsaved : LocalsTyped ctx saved locals)
    (catches : List CatchClause) (hcatches : ∀ clause ∈ catches, ctx.checkCatch s clause = .ok ())
    {height : Nat} (hheight : height = s₁.stack.length) :
    LabelsOk ctx sf locals (type.params.reverse ++ s₁.stack) (s₁.stack.length :: s.stackLimits)
      (⟨kind', type, saved⟩ :: s.controlBlocks)
      (⟨false, type, height, catches, cont⟩ :: labels) := by
  obtain ⟨t, hpasses, hafter'⟩ := passes_afterEnd hrest (hafter.inside hlabels.ne_nil) hcont
  have houter := hlabels.within htakes.within
  rw [htakes.only.limits, htakes.only.blocks] at houter
  refine .block (suffix_append _ _) rfl htype (by simp [hkind]) hheight hpasses hafter' hsaved ?_
    houter
  intro clause hclause
  exact checkCatch_eq_ok (hcatches clause hclause)

theorem wellTyped_after {t : Stacks} {types base : List ValueType} {blocks : List ControlBlock}
    {limits : List Nat} (htypes : ∀ t ∈ types, t.Proper) (hknown : unknown ∉ base)
    (hpasses : ctx.Passes t rest sf) (hafter : After t types base blocks limits init)
    (hvalues : Typed ctx.types values (types.reverse ++ base))
    (hlabels : LabelsOk ctx sf locals (types.reverse ++ base) limits blocks labels)
    (hlocals : LocalsTyped ctx init locals) : WellTyped ctx sf ⟨rest, values, labels, locals⟩ := by
  refine .running ⟨hpasses, ?_, ?_, ?_, ?_⟩
  · rw [hafter.stack, mem_append, not_or, mem_reverse]
    exact ⟨unknown_notMem htypes, hknown⟩
  · rw [hafter.stack]
    exact hvalues
  · rw [hafter.stack, hafter.blocks, hafter.limits]
    exact hlabels
  · rw [hafter.init]
    exact hlocals

section

variable (hctx : ctx.Proper)

include hctx

theorem wellTyped_block (h : Running ctx sf ⟨.block type :: rest, args ++ below, labels, locals⟩ s)
    (htype : ∀ t ∈ type.params ++ type.results, t.Proper) (hcheck : ctx.checkBlock s type = .ok s')
    (hrest : ctx.Passes s' rest sf) (hargs : args.length = type.params.length)
    (hcont : afterEnd 0 rest = some cont) :
    WellTyped ctx sf
      ⟨rest, args ++ below, ⟨false, type, below.length, [], cont⟩ :: labels, locals⟩ := by
  obtain ⟨s₁, htakes, hafter⟩ := enter_known (h.isKnown hctx) htype hcheck
  obtain ⟨hargs, hbelow⟩ := htakes.typed hctx.wellFormed h.values (by simpa using hargs)
  exact wellTyped_after (forall_mem_append.mp htype).1 htakes.known hrest hafter
    (hargs.append hbelow) (labelsOk_enter h.labels htakes htype
      (by simp) hafter hrest hcont h.locals []
      (by simp) hbelow.length_eq) h.locals

theorem wellTyped_tryTable {catches : List CatchClause}
    (h : Running ctx sf ⟨.tryTable type catches :: rest, args ++ below, labels, locals⟩ s)
    (htype : ∀ t ∈ type.params ++ type.results, t.Proper)
    (hcheck : ctx.checkTryTable s type catches = .ok s') (hrest : ctx.Passes s' rest sf)
    (hargs : args.length = type.params.length) (hcont : afterEnd 0 rest = some cont) :
    WellTyped ctx sf
      ⟨rest, args ++ below, ⟨false, type, below.length, catches, cont⟩ :: labels, locals⟩ := by
  obtain ⟨s₁, htakes, hafter, hcatches⟩ := checkTryTable_known (h.isKnown hctx) htype hcheck
  obtain ⟨hargs, hbelow⟩ := htakes.typed hctx.wellFormed h.values (by simpa using hargs)
  exact wellTyped_after (forall_mem_append.mp htype).1 htakes.known hrest hafter
    (hargs.append hbelow) (labelsOk_enter h.labels htakes htype
      (by simp) hafter hrest hcont h.locals.none
      catches hcatches hbelow.length_eq) h.locals

theorem wellTyped_loop (h : Running ctx sf ⟨.loop type :: rest, args ++ below, labels, locals⟩ s)
    (htype : ∀ t ∈ type.params ++ type.results, t.Proper) (hcheck : ctx.checkLoop s type = .ok s')
    (hrest : ctx.Passes s' rest sf) (hargs : args.length = type.params.length) :
    WellTyped ctx sf
      ⟨rest, args ++ below, ⟨true, type, below.length, [], rest⟩ :: labels, locals⟩ := by
  obtain ⟨s₁, htakes, hafter⟩ := enter_known (h.isKnown hctx) htype hcheck
  obtain ⟨hargs, hbelow⟩ := htakes.typed hctx.wellFormed h.values (by simpa using hargs)
  have houter := h.labels.within htakes.within
  rw [htakes.only.limits, htakes.only.blocks] at houter
  refine wellTyped_after (forall_mem_append.mp htype).1 htakes.known hrest hafter
    (hargs.append hbelow) ?_ h.locals
  exact .block (suffix_append _ _) rfl htype (by simp) hbelow.length_eq hrest hafter h.locals
    (by simp) houter

theorem wellTyped_if {c : Value} {rest' : List Instruction}
    (h : Running ctx sf ⟨.ifOp type :: rest, c :: (args ++ below), labels, locals⟩ s)
    (htype : ∀ t ∈ type.params ++ type.results, t.Proper) (hcheck : ctx.checkIf s type = .ok s')
    (hrest : ctx.Passes s' rest sf) (hargs : args.length = type.params.length)
    (hcont : afterEnd 0 rest = some cont) (hrest' : rest' = rest ∨ elseOrEnd 0 rest = some rest') :
    WellTyped ctx sf
      ⟨rest', args ++ below, ⟨false, type, below.length, [], cont⟩ :: labels, locals⟩ := by
  obtain ⟨s₁, s₂, hcond, htakes, hafter⟩ := checkIf_known (h.isKnown hctx) htype hcheck
  obtain ⟨_, _, heq, -, hvalues⟩ := hcond.cons hctx h.values
  cases heq
  obtain ⟨hargs, hbelow⟩ := htakes.typed hctx.wellFormed hvalues (by simpa using hargs)
  have hparams := (forall_mem_append.mp htype).1
  have hlabels (kind : BlockKind) (hkind : kind ≠ .loop) := labelsOk_enter h.labels
    (hcond.trans htakes) htype hkind hafter hrest hcont h.locals [] (by simp) hbelow.length_eq
  rcases hrest' with rfl | hrest'
  · exact wellTyped_after hparams htakes.known hrest hafter (hargs.append hbelow)
      (hlabels .ifOp (by simp)) h.locals
  · obtain ⟨t, kind, hpasses, hkind, hafter'⟩ := passes_elseOrEnd (unknown_notMem hparams)
      rfl hrest (hafter.inside h.labels.ne_nil) hrest'
    exact wellTyped_after hparams htakes.known hpasses hafter' (hargs.append hbelow)
      (hlabels kind hkind) h.locals

theorem typed_results {b : ControlBlock} {base : List ValueType}
    (hbase : base <:+ s.stack) (htakes : Takes ctx.types s s₁ b.type.results.reverse)
    (hlimit : s₁.stack.length = base.length) (hvalues : Typed ctx.types values s.stack) :
    Typed ctx.types values (b.type.results.reverse ++ base) := by
  obtain ⟨args, below, rfl, hargs, hbelow⟩ := htakes.split hctx.wellFormed hvalues
  obtain ⟨found, hfound, -⟩ := htakes.stack
  have heq : s₁.stack = base := by
    have hsuffix : s₁.stack <:+ s.stack := ⟨found, hfound.symm⟩
    exact (suffix_of_suffix_length_le hsuffix hbase (le_of_eq hlimit)).eq_of_length hlimit
  rw [heq] at hbelow
  exact hargs.append hbelow

theorem wellTyped_end {label : Label}
    (h : Running ctx sf ⟨.endOp :: rest, values, label :: labels, locals⟩ s)
    (hcheck : ctx.checkEnd s = .ok s') (hrest : ctx.Passes s' rest sf) :
    WellTyped ctx sf ⟨rest, values, labels, locals⟩ := by
  have hs := h.isKnown hctx
  have hlabels := h.labels
  have hvalues := h.values
  generalize hlimits : s.stackLimits = limits at hlabels
  generalize hblocks : s.controlBlocks = blocks at hlabels
  have hlimit : s.limit = limits.headD 0 := by
    unfold limit
    rw [hlimits]
  cases hlabels with
  | @function _ b hkind htype =>
    obtain ⟨s₁, htakes, hlength⟩ := checkEnd_known hs hblocks hcheck
    obtain ⟨b', outer', s₂, hblocks', -, hreq, rfl⟩ := checkEnd_eq_ok hcheck
    rw [hblocks] at hblocks'
    cases hblocks'
    -- no block is left, so no instruction follows
    have hnone : (s₂.resetAtStackLimit.pushAll b.type.results).popStackLimit.controlBlocks =
      [] := by
      rw [show (s₂.resetAtStackLimit.pushAll b.type.results).popStackLimit.controlBlocks =
        (s₂.resetAtStackLimit.pushAll b.type.results).controlBlocks from rfl, pushAll_blocks]
      exact (onlyStack_requireStackValues hreq).blocks
    cases hrest with
    | cons hne => exact absurd hnone hne
    | nil =>
      have htyped := typed_results hctx (nil_suffix) htakes (hlength.trans hlimit) hvalues
      rw [append_nil, htype] at htyped
      exact .done htyped
  | @block _ base limits b outer _ _ t hbase htype hproper hloop hheight hcont hafter
    hlocals hcatches
      houter =>
      obtain ⟨s₁, htakes, hlength⟩ := checkEnd_known hs hblocks hcheck
      have hinside : s.Inside 0 b base outer limits :=
        inside_zero_iff.mpr ⟨hblocks, hlimits, hbase, houter.ne_nil⟩
      obtain ⟨hstack, hblocks', hlimits', hinit⟩ := exit_checkEnd hinside hcheck
      have htyped := typed_results hctx hbase htakes (hlength.trans hlimit) hvalues
      exact wellTyped_after (forall_mem_append.mp hproper).2
        (fun hmem => hs.stack (hbase.subset hmem))
        hrest ⟨hstack, hblocks', hlimits', hinit⟩ htyped (houter.extend (suffix_append _ _)) hlocals

theorem wellTyped_else {label : Label}
    (h : Running ctx sf ⟨.elseOp :: rest, values, label :: labels, locals⟩ s)
    (hcheck : ctx.checkElse s = .ok s') :
    WellTyped ctx sf ⟨label.cont, values, labels, locals⟩ := by
  have hs := h.isKnown hctx
  have hlabels := h.labels
  have hvalues := h.values
  generalize hlimits : s.stackLimits = limits at hlabels
  generalize hblocks : s.controlBlocks = blocks at hlabels
  have hlimit : s.limit = limits.headD 0 := by
    unfold limit
    rw [hlimits]
  cases hlabels with
  | function hkind htype =>
    obtain ⟨hkind', -⟩ := checkElse_known hs hblocks hcheck
    cases hkind.symm.trans hkind'
  | @block _ base limits b outer _ _ t hbase htype hproper hloop hheight hcont hafter
    hlocals hcatches
      houter =>
      obtain ⟨hkind, s₁, htakes, hlength⟩ := checkElse_known hs hblocks hcheck
      have hisLoop : label.isLoop = false := by
        rw [Bool.eq_false_iff, ne_eq, hloop, hkind]
        simp
      have htyped := typed_results hctx hbase htakes (hlength.trans hlimit) hvalues
      simp only [Label.types, hisLoop, Bool.false_eq_true, if_false, htype] at hafter
      exact wellTyped_after (forall_mem_append.mp hproper).2
        (fun hmem => hs.stack (hbase.subset hmem))
        hcont hafter htyped (houter.extend (suffix_append _ _)) hlocals

end

end Andsifr.Execution
