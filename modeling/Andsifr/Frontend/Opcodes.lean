import Andsifr.Frontend.Lowered

namespace Andsifr.Frontend

open Wasm Lib.Flow Facts LoweringState

section

variable {c : Compiler} {body : List Instruction} {g : Ghost} {s s' : LoweringState}
  {is : List Inst}

theorem Lowered.insertAll (h : Lowered c body g s) (hr : s.unreachable = false)
    (hne : is ≠ []) (htargets : is.flatMap Inst.targets = [])
    (hflow : ∀ checked, Flows (Facts.Ok c body g.facts) after
      { depth := catching s.controlFrames, checked } is)
    (hexit : ∀ checked, ∃ checked', exitFacts after
      { depth := catching s.controlFrames, checked } is =
        some { depth := catching s.controlFrames, checked := checked' }) :
    Lowered c body g (s.insertAll is) := by
  obtain ⟨checked, hp⟩ := h.point hr
  have hgrown := (Grown.refl h.sketch).insertAll hp (.inl rfl) is (hflow checked)
    (by simp [htargets])
  refine h.extend hr hgrown rfl rfl rfl (by simp [hne]) (fun _ => ?_) ?_ (by simp [hne])
  · obtain ⟨checked', hexit⟩ := hexit checked
    have hp' := hp.insertAll hexit
    exact ⟨checked', hp'.exit, hp'.rank⟩
  · intro b hb
    exact .inl (by simpa [htargets] using hb)

theorem brTarget_eq_some {label : Nat} {target : BlockID} (h : s.brTarget label = some target) :
    ∃ ctrl, s.controlFrames[label]? = some ctrl ∧ target = ctrl.target := by
  obtain ⟨ctrl, hctrl, rfl⟩ := Option.map_eq_some_iff.1 h
  exact ⟨ctrl, hctrl, rfl⟩

theorem tryTableLeaves_length (frames : List ControlFrame) :
    tryTableLeaves frames frames.length = catching frames := by
  rw [tryTableLeaves_eq, List.take_of_length_le (by omega)]

/-- The states differ in the blocks of the builder only. -/
structure SameControl (s s' : LoweringState) : Prop where
  pc : s'.pc = s.pc
  controlFrames : s'.controlFrames = s.controlFrames
  unreachable : s'.unreachable = s.unreachable
  unreachableDepth : s'.unreachableDepth = s.unreachableDepth
  tryTableDepth : s'.tryTableDepth = s.tryTableDepth
  current : s'.current = s.current

theorem SameControl.refl : SameControl s s :=
  ⟨rfl, rfl, rfl, rfl, rfl, rfl⟩

theorem SameControl.trans {s'' : LoweringState} (h : SameControl s s') (h' : SameControl s' s'') :
    SameControl s s'' :=
  ⟨h'.pc.trans h.pc, h'.controlFrames.trans h.controlFrames, h'.unreachable.trans h.unreachable,
    h'.unreachableDepth.trans h.unreachableDepth, h'.tryTableDepth.trans h.tryTableDepth,
    h'.current.trans h.current⟩

/-- Blocks have been added for branches from the current block to the targets. -/
structure Prepared (c : Compiler) (body : List Instruction) (g : Ghost) (s : LoweringState)
    (g' : Ghost) (s' : LoweringState) (targets : List BlockID) (P : Facts → Prop) : Prop where
  sketch : Sketch c body g' s'
  old : Extends s.Allocated s.fresh g s g' s'
  same : SameControl s s'
  allocated : ∀ b ∈ targets, s'.Allocated b
  facts : ∀ b ∈ targets, P (g'.facts b)
  forward : c.ensureTermination = true → g.rank s.current ≠ ⊤ →
    ∀ b ∈ targets, g'.rank s.current < g'.rank b ∨ (g'.facts b).header = true
  filled : ∀ b ∈ targets, s'.code b ≠ [] ∨ b ∈ pendingBlocks s.controlFrames
  preds : ∀ b ∈ s'.preds, b ∈ s.preds ∨ s'.code b ≠ [] ∨ b ∈ pendingBlocks s.controlFrames

variable {g' : Ghost} {targets : List BlockID} {P : Facts → Prop}

section

variable (h : Prepared c body g s g' s' targets P)

include h

theorem Prepared.point {a : Facts} (hs : Sketch c body g s) (hp : Point g s a) : Point g' s' a := by
  have hcur := hs.allocated_of_rank hp.rank
  refine ⟨?_, ?_⟩
  · rw [Ghost.exit, h.same.current, h.old.facts _ hcur, h.old.code _ hcur hcur.ne_fresh]
    exact hp.exit
  · rw [h.same.current, h.old.rank _ hcur]
    exact hp.rank

theorem Prepared.grown : Grown c body g s g' s' :=
  ⟨h.sketch, { h.old with code := fun b hb _ => h.old.code b hb hb.ne_fresh }⟩

theorem Prepared.target {b : BlockID} (hb : b ∈ targets) (hrank : g.rank s.current ≠ ⊤)
    {code : BlockID → List Inst} :
    s'.Allocated b ∧ (c.ensureTermination = true → g'.Forward code s'.current b) := by
  refine ⟨h.allocated b hb, fun hterm => ?_⟩
  rw [h.same.current]
  exact (h.forward hterm hrank b hb).imp_right .inl

theorem Prepared.insertAll {a : Facts} (hs : Sketch c body g s) (hp : Point g s a)
    (htargets : ∀ b ∈ is.flatMap Inst.targets, b ∈ targets)
    (hflow : Flows (Facts.Ok c body g'.facts) after a is) :
    Grown c body g s g' (s'.insertAll is) :=
  h.grown.insertAll (h.point hs hp) (.inl h.same.current) is hflow fun b hb =>
    h.target (htargets b hb) hp.rank

theorem Prepared.mono {Q : Facts → Prop}
    (hPQ : ∀ a, P a → Q a) : Prepared c body g s g' s' targets Q :=
  { h with facts := fun b hb => hPQ _ (h.facts b hb) }

end

/-- A block that exists and may be branched to. -/
structure Branchable (c : Compiler) (g : Ghost) (s : LoweringState) (b : BlockID) : Prop where
  allocated : s.Allocated b
  forward : c.ensureTermination = true → g.rank b = ⊤ ∨ (g.facts b).header = true
  filled : s.code b ≠ [] ∨ b ∈ pendingBlocks s.controlFrames

variable {label : Nat} {ctrl : ControlFrame}

theorem Frames.branchable (h : Frames c g s s.controlFrames)
    (hlabel : s.controlFrames[label]? = some ctrl) : Branchable c g s ctrl.target := by
  obtain ⟨hallocated, -, -, -, -, hrank, hfilled⟩ := (h.get hlabel).target
  exact ⟨hallocated, fun hterm => hrank.imp_right (·.trans hterm),
    hfilled.imp_right (mem_pendingBlocks_of_getElem? hlabel)⟩

theorem Prepared.of_branchable (h : Sketch c body g s) (hb : ∀ b ∈ targets, Branchable c g s b)
    (hP : ∀ b ∈ targets, P (g.facts b)) : Prepared c body g s g s targets P where
  sketch := h
  old := Extends.refl
  same := SameControl.refl
  allocated b ht := (hb b ht).allocated
  facts := hP
  forward hterm hrank b ht := by
    refine ((hb b ht).forward hterm).imp_left fun htop => ?_
    rw [htop]
    exact lt_top_iff_ne_top.2 hrank
  filled b ht := (hb b ht).filled
  preds b ht := .inl ht

theorem Prepared.newBlock {v : Facts} (h : Sketch c body g s) (hne : is ≠ [])
    (hflow : Flows (Facts.Ok c body g.facts) after v is)
    (htargets : ∀ b ∈ is.flatMap Inst.targets, Branchable c g s b) :
    Prepared c body g s (g.enter s.fresh v) (((s.allocateBasicBlock.setCurrentBlock
      s.fresh).insertAll is).setCurrentBlock s.current) [s.fresh] (· = v) := by
  -- no block of the state before is current while the new one is filled
  have h₀ : Grown c body g (s.setCurrentBlock s.fresh) g (s.setCurrentBlock s.fresh) :=
    .refl (h.congr rfl rfl rfl)
  have hfresh := Pending.fresh h₀.sketch v
  have h₁ : Grown c body g (s.setCurrentBlock s.fresh) (g.enter s.fresh v) _ :=
    (h₀.allocate v).openBlock hfresh h₀.not_allocated_fresh
  have hrank : (g.enter s.fresh v).rank s.fresh = WithTop.some g.bound := by simp [Ghost.enter]
  have h₂ := h₁.insertAll hfresh.point (.inl rfl) is
    (hflow.congr fun a i hi hok => hok.congr fun b hb =>
      h₁.old.facts b (htargets b (List.mem_flatMap.2 ⟨i, hi, hb⟩)).allocated)
    fun b hb => ⟨h₁.old.allocated (htargets b hb).allocated, fun hterm => by
      have hold := (htargets b hb).allocated
      obtain htop | hheader := (htargets b hb).forward hterm
      · refine .inl (lt_of_lt_of_eq ?_ ((h₁.old.rank b hold).trans htop).symm)
        exact lt_top_iff_ne_top.2 hfresh.point.rank
      · exact .inr (.inl ((congrArg _ (h₁.old.facts b hold)).trans hheader))⟩
  have hold := h₂.old
  refine ⟨h₂.sketch.congr rfl rfl rfl,
    ⟨hold.nextBlock, hold.facts, hold.rank, hold.code, hold.nonempty⟩,
    ⟨rfl, rfl, rfl, rfl, rfl, rfl⟩, ?_, ?_, ?_, ?_, ?_⟩
  · simp only [List.mem_singleton, forall_eq]
    exact allocated_fresh
  · simp [Ghost.enter]
  · intro _ hcur b hb
    obtain rfl : b = s.fresh := by simpa using hb
    rw [hrank, h₁.old.rank _ (h.allocated_of_rank hcur)]
    exact .inl (h.bounded _ hcur)
  · simp [hne]
  · intro b hb
    obtain hb | hb := List.mem_append.1 hb
    · exact .inl hb
    · exact .inr ((htargets b hb).filled.imp_left code_insertAll_ne_nil)

theorem Prepared.trampoline (h : Sketch c body g s) (hframes : Frames c g s s.controlFrames)
    (hlabel : s.controlFrames[label]? = some ctrl)
    (hpc : defaultExits body s.pc = false) {code : List Inst} {v : Facts} {checked : Bool}
    (hflow : ∀ facts, Flows (Facts.Ok c body facts) after v code)
    (hexit : exitFacts after v code = some { depth := catching s.controlFrames, checked })
    (htargets : code.flatMap Inst.targets = []) :
    Prepared c body g s (g.enter s.fresh v) (s.trampoline c code label ctrl.target) [s.fresh]
      (· = v) := by
  rw [trampoline_eq]
  refine .newBlock h (by simp [branchCode, jumpCode_ne_nil])
    (flows_append.2 ⟨hflow _, fun a' ha' => ?_⟩) fun b hb => ?_
  · rw [hexit] at ha'
    cases ha'
    exact flows_branchCode hframes hlabel hpc
  · obtain rfl : b = ctrl.target := by simpa [htargets] using hb
    exact hframes.branchable hlabel

theorem Prepared.listenerTrampoline (h : Sketch c body g s) :
    Prepared c body g s (g.enter s.fresh { depth := 0 }) s.listenerTrampoline [s.fresh]
      (· = { depth := 0 }) := by
  refine .newBlock h (by simp) ⟨ok_of_allows trivial, ?_⟩ (by simp [Inst.targets])
  rintro a' ⟨rfl⟩
  exact ⟨ok_of_allows rfl, by simp [after]⟩

theorem Prepared.trans {g'' : Ghost} {s'' : LoweringState} {targets' : List BlockID}
    (h : Prepared c body g s g' s' targets P) (h' : Prepared c body g' s' g'' s'' targets' P)
    (hs : Sketch c body g s) :
    Prepared c body g s g'' s'' (targets ++ targets') P := by
  have hkeep : ∀ b, s'.Allocated b → g''.facts b = g'.facts b ∧ g''.rank b = g'.rank b :=
    fun b hb => ⟨h'.old.facts b hb, h'.old.rank b hb⟩
  have hold : Extends s.Allocated s.fresh g s g'' s'' :=
    { nextBlock := h.old.nextBlock.trans h'.old.nextBlock
      facts := fun b hb => (hkeep b (h.old.allocated hb)).1.trans (h.old.facts b hb)
      rank := fun b hb => (hkeep b (h.old.allocated hb)).2.trans (h.old.rank b hb)
      code := fun b hb hne =>
        (h'.old.code b (h.old.allocated hb) (h.old.allocated hb).ne_fresh).trans
          (h.old.code b hb hne)
      nonempty := fun b hb => h'.old.nonempty b (h.old.nonempty b hb) }
  refine ⟨h'.sketch, hold, h.same.trans h'.same, ?_, ?_, ?_, ?_, ?_⟩
  · intro b hb
    obtain hb | hb := List.mem_append.1 hb
    · exact h'.old.allocated (h.allocated b hb)
    · exact h'.allocated b hb
  · intro b hb
    obtain hb | hb := List.mem_append.1 hb
    · rw [(hkeep b (h.allocated b hb)).1]
      exact h.facts b hb
    · exact h'.facts b hb
  · intro hterm hrank b hb
    have hcur := hs.allocated_of_rank hrank
    obtain hb | hb := List.mem_append.1 hb
    · rw [(hkeep b (h.allocated b hb)).1, (hkeep b (h.allocated b hb)).2,
        (hkeep _ (h.old.allocated hcur)).2]
      exact h.forward hterm hrank b hb
    · rw [← h.same.current]
      refine h'.forward hterm ?_ b hb
      rwa [h.same.current, h.old.rank _ hcur]
  · intro b hb
    obtain hb | hb := List.mem_append.1 hb
    · exact (h.filled b hb).imp_left (h'.old.nonempty b)
    · rw [← h.same.controlFrames]
      exact h'.filled b hb
  · intro b hb
    obtain hb | hb | hb := h'.preds b hb
    · obtain hb | hb | hb := h.preds b hb
      · exact .inl hb
      · exact .inr (.inl (h'.old.nonempty b hb))
      · exact .inr (.inr hb)
    · exact .inr (.inl hb)
    · exact .inr (.inr (h.same.controlFrames ▸ hb))

theorem Prepared.frames (h : Prepared c body g s g' s' targets P)
    (hframes : Frames c g s s.controlFrames) : Frames c g' s' s'.controlFrames := by
  rw [h.same.controlFrames]
  exact hframes.extends h.old hframes.fresh_notMem

theorem prepared_trampolines {code : List Inst} {v : Facts} {checked : Bool}
    (hflow : ∀ facts, Flows (Facts.Ok c body facts) after v code)
    (htargets : code.flatMap Inst.targets = []) {labels : List Nat} {blocks : List BlockID}
    (h : Sketch c body g s) (hframes : Frames c g s s.controlFrames)
    (hpc : defaultExits body s.pc = false)
    (hexit : exitFacts after v code = some { depth := catching s.controlFrames, checked })
    (hs : s.trampolines c code labels = some (s', blocks)) :
    ∃ g', Prepared c body g s g' s' blocks (· = v) ∧ blocks.length = labels.length := by
  induction labels generalizing g s s' blocks with
  | nil =>
    cases hs
    exact ⟨g, .of_branchable h (by simp) (by simp), rfl⟩
  | cons label labels ih =>
    obtain ⟨target, htarget, hs⟩ := Option.bind_eq_some_iff.1 hs
    obtain ⟨⟨s₂, rest⟩, hrest, hs⟩ := Option.bind_eq_some_iff.1 hs
    cases hs
    obtain ⟨ctrl, hlabel, rfl⟩ := brTarget_eq_some htarget
    have hfirst := Prepared.trampoline h hframes hlabel hpc hflow hexit htargets
    obtain ⟨g', hprepared, hlength⟩ := ih hfirst.sketch (hfirst.frames hframes)
      (by rw [hfirst.same.pc]; exact hpc) (by rw [hfirst.same.controlFrames]; exact hexit) hrest
    exact ⟨g', hfirst.trans hprepared h, by simp [hlength]⟩

theorem Lowered.closePrepared (h : Lowered c body g s) (hr : s.unreachable = false)
    (hp : Prepared c body g s g' s' targets P) (hne : is ≠ [])
    (htargets : ∀ b ∈ is.flatMap Inst.targets, b ∈ targets)
    (hflow : ∀ checked, Flows (Facts.Ok c body g'.facts) after
      { depth := catching s.controlFrames, checked } is) :
    Lowered c body g' (s'.insertAll is).setUnreachable := by
  obtain ⟨checked, hpoint⟩ := h.point hr
  have hgrown := hp.insertAll h.sketch hpoint htargets (hflow checked)
  refine h.extend hr (hgrown.congr rfl rfl rfl) hp.same.controlFrames
    hp.same.tryTableDepth hp.same.unreachableDepth (by simp [← hp.same.current, hne])
    (fun hcontra => ?_) ?_ (by simp [hne])
  · cases hcontra
  · intro b hb
    obtain hold | hnew := List.mem_append.1 hb
    · obtain hold | hcode | hpending := hp.preds b hold
      · exact .inl hold
      · exact .inr (.inl (code_insertAll_ne_nil hcode))
      · exact .inr (.inr (.inl hpending))
    · obtain hcode | hpending := hp.filled b (htargets b hnew)
      · exact .inr (.inl (code_insertAll_ne_nil hcode))
      · exact .inr (.inr (.inl hpending))

/-- Code after which the block is closed, with branches to blocks that exist. -/
theorem Lowered.close (h : Lowered c body g s) (hr : s.unreachable = false) (hne : is ≠ [])
    (htargets : ∀ b ∈ is.flatMap Inst.targets, Branchable c g s b)
    (hflow : ∀ checked, Flows (Facts.Ok c body g.facts) after
      { depth := catching s.controlFrames, checked } is) :
    Lowered c body g (s.insertAll is).setUnreachable :=
  h.closePrepared hr (P := fun _ => True)
    (.of_branchable h.sketch htargets fun _ _ => trivial) hne (fun _ => id) hflow

theorem Lowered.lowerBr (h : Lowered c body g s) (hr : s.unreachable = false)
    (hpc : defaultExits body s.pc = false) (hs : s.lowerBr c label = some s') :
    Lowered c body g s' := by
  obtain ⟨target, htarget, hs⟩ := Option.bind_eq_some_iff.1 hs
  obtain ⟨ctrl, hlabel, rfl⟩ := brTarget_eq_some htarget
  cases hs
  rw [insertJumpToBlock_eq, emitTryTableLeaves, insertAll_insertAll]
  refine h.close hr ?_ ?_ fun checked => flows_branchCode h.frames hlabel hpc
  · simp [jumpCode_ne_nil]
  · simpa using h.frames.branchable hlabel

/-- The jump of a `br_table` without labels: it may arrive with too many handlers. -/
theorem Lowered.lowerBrTable_nil (h : Lowered c body g s) (hr : s.unreachable = false)
    (hop : body[s.pc]? = some (.brTable [] label))
    (hnesting : nesting body s.pc = s.controlFrames.map ControlFrame.construct)
    (hs : s.lowerBrTableOpcode c [] label = some s') : Lowered c body g s' := by
  obtain ⟨target, htarget, hs⟩ := Option.bind_eq_some_iff.1 hs
  obtain ⟨ctrl, hlabel, rfl⟩ := brTarget_eq_some htarget
  cases hs
  obtain ⟨-, hdepth, hclean, hchecked, hstart, -⟩ := (h.frames.get hlabel).target
  have hsplit := catching_take_add_drop s.controlFrames (label + 1)
  have hexits : defaultExits body s.pc = true ↔
      0 < catching (s.controlFrames.take (label + 1)) := by
    simp [defaultExits, hop, hnesting, ← List.map_take, catching, List.countP_pos_iff,
      ControlFrame.construct]
  rw [insertJumpToBlock_eq]
  refine h.close hr jumpCode_ne_nil ?_ fun checked => flows_jumpCode ?_
  · simpa using h.frames.branchable hlabel
  · rw [Facts.Allows]
    split
    next hbad =>
      have := hexits.1 hbad
      exact ⟨⟨rfl, rfl⟩, hclean, by simp only [hdepth]; omega, hchecked, hstart⟩
    next hgood =>
      have := mt hexits.2 hgood
      exact ⟨by simp only [hdepth]; omega, hclean.1, hclean.2, by simp [hchecked]⟩

theorem Lowered.lowerBrTable (h : Lowered c body g s) (hr : s.unreachable = false)
    {labels : List Nat} (hpc : defaultExits body s.pc = false)
    (hs : s.lowerBrTable c labels = some s') : ∃ g', Lowered c body g' s'.setUnreachable := by
  obtain ⟨⟨s₁, blocks⟩, htrampolines, hs⟩ := Option.bind_eq_some_iff.1 hs
  cases hs
  have hexit : exitFacts after { depth := catching s.controlFrames } [] =
      some { depth := catching s.controlFrames, checked := false } := rfl
  obtain ⟨g', hp, -⟩ := prepared_trampolines (fun _ => flows_nil) rfl h.sketch h.frames hpc
    hexit htrampolines
  refine ⟨g', h.closePrepared hr hp (by simp) (by simp [Inst.targets]) fun checked => ?_⟩
  refine ⟨ok_of_allows fun b hb => ?_, by simp [after]⟩
  rw [hp.facts b hb]
  exact ⟨rfl, rfl, rfl, by simp⟩

theorem Facts.Enters.of_unchecked {depth : Nat} {checked : Bool} {b : Facts}
    (h : ({ depth } : Facts).Enters b) : ({ depth, checked } : Facts).Enters b :=
  ⟨h.depth, h.dirty, h.stale, fun hc => absurd (h.checked hc) (by simp)⟩

theorem Lowered.branchPrepared (h : Lowered c body g s) (hr : s.unreachable = false)
    (hpc : defaultExits body s.pc = false) {target : BlockID}
    (hp : Prepared c body g s g' s' [target]
      (({ depth := catching s.controlFrames } : Facts).Enters ·))
    {s₁ : LoweringState} (hs₁ : s₁ = s'.insert (.brnz target s'.pc)) :
    ∃ g'', Lowered c body g''
      ((s₁.allocateBasicBlock.insert (.jump s₁.fresh s₁.pc)).setCurrentBlock s₁.fresh) := by
  obtain ⟨checked, hpoint⟩ := h.point hr
  have h₁ : Grown c body g s g' s₁ := by
    rw [hs₁]
    refine hp.insertAll h.sketch hpoint (by simp [Inst.targets]) ⟨ok_of_allows ?_, by simp⟩
    exact (hp.facts target (by simp)).of_unchecked
  have hp₁ : Point g' s₁ { depth := catching s.controlFrames, checked } := by
    rw [hs₁]
    exact (hp.point h.sketch hpoint).insertAll rfl
  have hcurrent : s₁.current = s.current := by rw [hs₁]; exact hp.same.current
  have hpc₁ : s₁.pc = s.pc := by rw [hs₁]; exact hp.same.pc
  have hfresh := Pending.fresh h₁.sketch { depth := catching s.controlFrames }
  obtain ⟨h₂, hp₂⟩ := (h₁.allocate _).goOn (hp₁.allocate h₁.sketch _) (.inl hcurrent)
    [.jump s₁.fresh s₁.pc]
    (flows_jump_pending (by rwa [hpc₁]) hfresh (Facts.Enters.of_unchecked ⟨rfl, rfl, rfl, id⟩))
    (by simpa [Inst.targets] using ⟨_, hfresh⟩) hfresh h₁.not_allocated_fresh
  refine ⟨_, h.extend hr h₂ ?_ ?_ ?_ ?_ (fun _ => ⟨false, hp₂.exit, hp₂.rank⟩) ?_ ?_⟩
  · rw [hs₁]
    exact hp.same.controlFrames
  · rw [hs₁]
    exact hp.same.tryTableDepth
  · rw [hs₁]
    exact hp.same.unreachableDepth
  · simp [← hcurrent]
  · intro b hb
    have hkeep : s'.code b ≠ [] → ((s₁.allocateBasicBlock.insert
        (.jump s₁.fresh s₁.pc)).setCurrentBlock s₁.fresh).code b ≠ [] := by
      intro hcode
      have hcode₁ : s₁.code b ≠ [] := by
        rw [hs₁]
        exact code_insertAll_ne_nil hcode
      exact code_insertAll_ne_nil hcode₁
    have hmem : b ∈ s'.preds ∨ b = target ∨ b = s₁.fresh := by
      simpa [hs₁, Inst.targets, or_assoc] using hb
    obtain hb | rfl | rfl := hmem
    · obtain hb | hb | hb := hp.preds b hb
      · exact .inl hb
      · exact .inr (.inl (hkeep hb))
      · exact .inr (.inr (.inl hb))
    · obtain hb | hb := hp.filled b (by simp)
      · exact .inr (.inl (hkeep hb))
      · exact .inr (.inr (.inl hb))
    · exact .inr (.inr (.inr rfl))
  · simp [hs₁, hp.same.unreachable, hr]

section

variable (h : Lowered c body g s)

include h

theorem Lowered.branchBlock (hlabel : s.controlFrames[label]? = some ctrl)
    (hpc : defaultExits body s.pc = false) :
    ∃ g', Prepared c body g s g' (s.branchBlock c label ctrl.target).1
      [(s.branchBlock c label ctrl.target).2]
      (({ depth := catching s.controlFrames } : Facts).Enters ·) := by
  have hframe := h.frames.get hlabel
  obtain ⟨-, hdepth, hclean, hchecked, -⟩ := hframe.target
  have hsplit := catching_take_add_drop s.controlFrames (label + 1)
  have hexit : exitFacts after { depth := catching s.controlFrames } [] =
      some { depth := catching s.controlFrames, checked := false } := rfl
  unfold LoweringState.branchBlock
  by_cases hexits : s.branchExitsTryTable label = true
  · have hp := Prepared.trampoline h.sketch h.frames hlabel hpc (fun _ => flows_nil) hexit rfl
    rw [if_pos hexits]
    exact ⟨_, hp.mono fun a ha => ha ▸ ⟨rfl, rfl, rfl, id⟩⟩
  have hzero : catching (s.controlFrames.take (label + 1)) = 0 := by
    rw [← tryTableLeaves_eq]
    simpa [branchExitsTryTable_iff] using hexits
  have henters : ({ depth := catching s.controlFrames } : Facts).Enters (g.facts ctrl.target) :=
    ⟨by simp only [hdepth]; omega, hclean.1, hclean.2, by simp [hchecked]⟩
  rw [if_neg hexits]
  split
  next hlistener =>
    -- the return block is entered without handlers
    have hreturn : ctrl.target = .returnBlock := by simp_all
    have hdepth₀ : catching s.controlFrames = 0 := by
      have hentered := henters.depth
      rw [hreturn, h.sketch.returns] at hentered
      exact hentered.symm
    rw [hdepth₀]
    exact ⟨_, (Prepared.listenerTrampoline h.sketch).mono fun a ha => ha ▸ ⟨rfl, rfl, rfl, id⟩⟩
  next =>
    exact ⟨g, .of_branchable h.sketch (by simpa using h.frames.branchable hlabel)
      (by simpa using henters)⟩

theorem Lowered.lowerConditionalBranch (hr : s.unreachable = false)
    (hpc : defaultExits body s.pc = false)
    (hs : s.lowerConditionalBranch c label = some s') : ∃ g', Lowered c body g' s' := by
  obtain ⟨target, htarget, hs⟩ := Option.bind_eq_some_iff.1 hs
  obtain ⟨ctrl, hlabel, rfl⟩ := brTarget_eq_some htarget
  cases hs
  obtain ⟨g', hp⟩ := h.branchBlock hlabel hpc
  exact h.branchPrepared hr hpc hp rfl

theorem Lowered.closeFunction (hr : s.unreachable = false) (hne : is ≠ [])
    (htargets : is.flatMap Inst.targets = [])
    (hflow : ∀ checked, Flows (Facts.Ok c body g.facts) after { depth := 0, checked } is) :
    Lowered c body g
      ((s.emitTryTableLeaves s.controlFrames.length).insertAll is).setUnreachable := by
  rw [emitTryTableLeaves, insertAll_insertAll, tryTableLeaves_length]
  refine h.close hr (by simp [hne]) (by simp [htargets]) fun checked => ?_
  rw [flows_append]
  refine ⟨flows_leaves le_rfl, fun a' ha' => ?_⟩
  rw [exitFacts_leaves, Nat.sub_self] at ha'
  cases ha'
  exact hflow checked

theorem Lowered.lowerReturn (hr : s.unreachable = false) : Lowered c body g (s.lowerReturn c) := by
  unfold LoweringState.lowerReturn
  by_cases hlistener : c.needListener = true
  · simp only [hlistener, if_true, insert_eq_insertAll, insertAll_insertAll]
    refine h.closeFunction hr (by simp) (by simp [Inst.targets]) fun checked => ?_
    refine ⟨ok_of_allows trivial, ?_⟩
    rintro a' ⟨rfl⟩
    exact ⟨ok_of_allows rfl, by simp [after]⟩
  · simp only [hlistener, insert_eq_insertAll]
    refine h.closeFunction hr (by simp) (by simp [Inst.targets]) fun checked => ?_
    exact ⟨ok_of_allows rfl, by simp [after]⟩

end

theorem flows_plain_cons {facts : BlockID → Facts} {depth : Nat} {checked : Bool} {i : Inst}
    (hi : Facts.Allows c body facts { depth, checked } i)
    (hafter : after { depth, checked } i = some { depth, checked })
    (his : Flows (Facts.Ok c body facts) after { depth, checked } is) :
    Flows (Facts.Ok c body facts) after { depth, checked } (i :: is) := by
  refine ⟨ok_of_allows hi, fun a' ha' => ?_⟩
  rw [hafter] at ha'
  cases ha'
  exact his

section

variable (h : Lowered c body g s) (hr : s.unreachable = false)

include h hr

theorem Lowered.lowerTailCallPointer (typeIndex : Index) :
    Lowered c body g (s.lowerTailCallPointer typeIndex) := by
  refine h.closeFunction hr (by simp) (by simp [Inst.targets]) fun checked => ?_
  refine flows_plain_cons trivial rfl (flows_plain_cons ?_ rfl (flows_plain_cons trivial rfl ?_))
  · exact ⟨rfl, ⟨rfl, rfl⟩, by simp⟩
  · exact ⟨ok_of_allows rfl, by simp [after]⟩

theorem Lowered.lowerThrow : Lowered c body g s.lowerThrow := by
  refine h.close hr (by simp) (by simp [Inst.targets]) fun checked => ?_
  refine flows_plain_cons trivial rfl ⟨ok_of_allows ⟨rfl, rfl⟩, by simp [after]⟩

theorem Lowered.lowerUnreachable : Lowered c body g (s.insert .exit).setUnreachable :=
  h.close hr (by simp) (by simp [Inst.targets]) fun _ =>
    ⟨ok_of_allows trivial, by simp [after]⟩

theorem Lowered.insertPlain : Lowered c body g (s.insert .plain) :=
  h.insertAll hr (by simp) (by simp [Inst.targets])
    (fun _ => flows_plain_cons trivial rfl flows_nil) fun checked => ⟨checked, rfl⟩

theorem Lowered.lowerCall (fnIndex : Index) : Lowered c body g (s.lowerCall c fnIndex) := by
  have hcall : ∀ {s : LoweringState} (callee : Callee), Lowered c body g s →
      s.unreachable = false → Lowered c body g (s.insertAll [.call callee, .plain]) :=
    fun callee h hr => h.insertAll hr (by simp) (by simp [Inst.targets])
      (fun _ => flows_plain_cons ⟨rfl, rfl⟩ rfl (flows_plain_cons trivial rfl flows_nil))
      fun checked => ⟨checked, rfl⟩
  unfold LoweringState.lowerCall LoweringState.prepareCall
  by_cases himported : fnIndex < c.importFunctionCount
  · simp only [himported, if_true]
    exact hcall _ (h.insertPlain hr) hr
  · simp only [himported, if_false]
    exact hcall _ h hr

theorem Lowered.lowerCallPointer (typeIndex : Index) :
    Lowered c body g (s.lowerCallPointer typeIndex) :=
  h.insertAll hr (by simp) (by simp [Inst.targets]) (fun _ => flows_plain_cons trivial rfl
      (flows_plain_cons ⟨rfl, rfl⟩ rfl (flows_plain_cons trivial rfl flows_nil)))
    fun checked => ⟨checked, rfl⟩

/-- Inside a try body every assignment is mirrored in the save area. -/
theorem Lowered.lowerLocalSet {index : Index} (hindex : index < c.numLocals) :
    Lowered c body g (s.lowerLocalSet index) := by
  unfold LoweringState.lowerLocalSet
  rw [h.depth]
  split
  next hdepth =>
    refine h.insertAll hr (by simp) (by simp [Inst.targets]) (fun checked => ?_)
      fun checked => ⟨checked, ?_⟩
    · refine ⟨ok_of_allows ⟨rfl, rfl⟩, ?_⟩
      rintro a' ha'
      simp only [after, if_pos hdepth] at ha'
      cases ha'
      exact ⟨ok_of_allows ⟨hdepth, rfl, hindex⟩, by simp⟩
    · simp [after, hdepth]
  next hdepth =>
    refine h.insertAll hr (by simp) (by simp [Inst.targets]) (fun checked => ?_)
      fun checked => ⟨checked, ?_⟩
    · exact ⟨ok_of_allows ⟨rfl, rfl⟩, by simp⟩
    · simp [after, hdepth]

end

end

end Andsifr.Frontend
