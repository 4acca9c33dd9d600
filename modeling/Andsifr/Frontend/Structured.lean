import Andsifr.Frontend.Checks

namespace Andsifr.Frontend

open Wasm Lib.Flow ControlFrame LoweringState

section

variable {c : Compiler} {body : List Instruction} {g g₀ : Ghost} {s s₀ s' : LoweringState}
  {b b' : BlockID} {v a : Facts}

structure Allocated₃ (c : Compiler) (body : List Instruction) (g₀ : Ghost) (s₀ : LoweringState)
    (g : Ghost) (s : LoweringState) (a : Facts) (b₁ b₂ b₃ : BlockID) (v w x : Facts) : Prop where
  grown : Grown c body g₀ s₀ g s
  point : Point g s a
  first : New g s s₀ b₁ v
  second : New g s s₀ b₂ w
  third : New g s s₀ b₃ x
  ne₁₂ : b₁ ≠ b₂
  ne₁₃ : b₁ ≠ b₃
  ne₂₃ : b₂ ≠ b₃

theorem Grown.allocate₃ (h : Grown c body g₀ s₀ g s) (hp : Point g s a) (v w x : Facts) :
    ∃ g', Allocated₃ c body g₀ s₀ g'
      s.allocateBasicBlock.allocateBasicBlock.allocateBasicBlock a s.fresh
      s.allocateBasicBlock.fresh s.allocateBasicBlock.allocateBasicBlock.fresh v w x := by
  obtain ⟨g₂, h₂, hp₂, hfirst, hsecond, hne⟩ := h.allocate₂ hp v w
  exact ⟨_, h₂.allocate x, hp₂.allocate h₂.sketch x,
    ⟨hfirst.allocate x, hfirst.new⟩, ⟨hsecond.allocate x, hsecond.new⟩,
    ⟨.fresh h₂.sketch x, h₂.not_allocated_fresh⟩, hne, hfirst.allocated.ne_fresh,
    hsecond.allocated.ne_fresh⟩

theorem Lowered.push (h : Lowered c body g s) (hr : s.unreachable = false) {g' : Ghost}
    (hgrown : Grown c body g s g' s') {ctrl : ControlFrame}
    (hframes : s'.controlFrames = ctrl :: s.controlFrames)
    (hframe : FrameOk c g' s' ctrl (catching s.controlFrames))
    (hnew : ∀ b ∈ ctrl.pending, ¬ s.Allocated b) (hnodup : ctrl.pending.Nodup)
    (hdepth : s'.tryTableDepth = s.tryTableDepth + if ctrl.isTryCatch then 1 else 0)
    (hreachable : s'.unreachable = false) (hskipped : s'.unreachableDepth = s.unreachableDepth)
    (hpoint : ∃ checked, Point g' s' { depth := catching (ctrl :: s.controlFrames), checked })
    (hcurrent : s'.current = s.current ∨ s'.code s.current ≠ [])
    (hpreds : ∀ b ∈ s'.preds, b ∈ s.preds ∨ s'.code b ≠ [] ∨
      b ∈ pendingBlocks (ctrl :: s.controlFrames) ∨ b = s'.current) : Lowered c body g' s' := by
  obtain ⟨checked, hp⟩ := h.point hr
  obtain ⟨checked', hp'⟩ := hpoint
  have hold : s.current ∉ pendingBlocks s.controlFrames := h.current_notMem hp.rank
  refine ⟨hgrown.sketch, ?_, ?_, ?_, ?_, ?_, ?_⟩
  · rw [hframes]
    exact ⟨hframe, h.frames.extends hgrown.old hold⟩
  · rw [hframes, pendingBlocks_cons, List.nodup_append]
    refine ⟨hnodup, h.distinct, fun b hb b' hb' heq => ?_⟩
    obtain ⟨v, hpending⟩ := h.frames.pending_of_mem hb'
    exact hnew b hb (heq ▸ hpending.allocated)
  · rw [hframes, hdepth, h.depth, catching_cons]
  · rw [hframes, hskipped]
    exact fun _ => ⟨(h.reachable hr).1, checked', hp'.exit, hp'.rank⟩
  · intro b hb
    rw [hframes]
    obtain hb | hb := hpreds b hb
    · obtain hb | hb | rfl := h.filled b hb
      · exact .inl (hgrown.old.nonempty b hb)
      · exact .inr (.inl (List.mem_append_right ctrl.pending hb))
      · obtain heq | hcode := hcurrent
        · exact .inr (.inr heq.symm)
        · exact .inl hcode
    · exact hb
  · simp [hreachable]

theorem Pending.congr (h : Pending g s b v) (hcode : s'.code = s.code)
    (hnext : s'.nextBlock = s.nextBlock) : Pending g s' b v where
  facts := h.facts
  code := hcode ▸ h.code
  rank := h.rank
  allocated := by
    have hb := h.allocated
    cases b with
    | returnBlock => trivial
    | block id =>
      rw [LoweringState.Allocated] at hb ⊢
      rwa [hnext]

theorem FrameOk.of_following {ctrl : ControlFrame} {depth : Nat}
    (h : Pending g s ctrl.followingBlock (followingFacts ctrl.followingBlock depth))
    (helse : ∀ b, ctrl.kind ≠ .ifWithoutElse b) (hloop : ∀ b, ctrl.kind ≠ .loop b) :
    FrameOk c g s ctrl depth :=
  ⟨h, fun b hb => absurd hb (helse b), fun b hb => absurd hb (hloop b)⟩

theorem Lowered.lowerBlock (h : Lowered c body g s) (hr : s.unreachable = false) :
    ∃ g', Lowered c body g' s.lowerBlock := by
  obtain ⟨checked, hp⟩ := h.point hr
  set v := followingFacts s.fresh (catching s.controlFrames) with hv
  have h₁ := (Grown.refl h.sketch).allocate v
  have hfollowing := Pending.fresh h.sketch v
  have hp₁ := hp.allocate h.sketch v
  refine ⟨_, h.push hr (h₁.congr rfl rfl rfl) rfl (.of_following ?_ ?_ ?_) ?_ ?_ ?_ ?_ rfl
    ⟨checked, hp₁.congr rfl rfl⟩ (.inl rfl) fun b hb => .inl hb⟩
  · exact hfollowing.congr rfl rfl
  · simp
  · simp
  · simpa [pending] using not_allocated_fresh
  · simp [pending]
  · rfl
  · exact hr

namespace LoweringState

variable (ctrl : ControlFrame)

theorem insertAll_ctrlPush (is : List Inst) :
    (s.ctrlPush ctrl).insertAll is = (s.insertAll is).ctrlPush ctrl :=
  rfl

theorem setCurrentBlock_ctrlPush (b : BlockID) :
    (s.ctrlPush ctrl).setCurrentBlock b = (s.setCurrentBlock b).ctrlPush ctrl :=
  rfl

theorem lowerTerminationCheck_ctrlPush :
    (s.ctrlPush ctrl).lowerTerminationCheck = s.lowerTerminationCheck.ctrlPush ctrl := by
  rfl

end LoweringState

theorem LoweringState.switchTo_of_mem {target : BlockID} (h : target ∈ s.preds) :
    s.switchTo target = (s.setCurrentBlock target).insert (.sourceOffset (s.pc + 1)) :=
  if_pos h

theorem Lowered.lowerLoop (h : Lowered c body g s) (hr : s.unreachable = false)
    (hpc : defaultExits body s.pc = false)
    (henclosing : enclosing body (s.pc + 1) = catching s.controlFrames) :
    ∃ g', Lowered c body g' (s.lowerLoop c) := by
  obtain ⟨checked, hp⟩ := h.point hr
  set d := catching s.controlFrames with hd
  obtain ⟨g₂, h₂, hp₂, hheader, hfollowing, hne⟩ := (Grown.refl h.sketch).allocate₂ hp
    (headerFacts c d) (followingFacts s.allocateBasicBlock.fresh d)
  obtain ⟨h₃, hp₃⟩ := h₂.goOn hp₂ (.inl rfl) [.jump s.fresh s.pc]
    (flows_jump_pending hpc hheader.toPending ⟨rfl, rfl, rfl, by simp [headerFacts]⟩)
    (by simpa [Inst.targets] using ⟨_, hheader.toPending⟩) hheader.toPending hheader.new
  have hfollowing₃ := hfollowing.goOn hp₂ [.jump s.fresh s.pc] hne.symm
  -- the header begins with its source offset
  have h₅ := h₃.insertAll hp₃ (.inr hheader.new) [.sourceOffset (s.pc + 1)]
    ⟨⟨by simp [Inst.isSourceOffset], by simp [Inst.isSourceOffset], henclosing.symm, rfl, rfl⟩,
      by simp⟩ (by simp [Inst.targets])
  have hp₅ := hp₃.insertAll (v := { depth := d, header := c.ensureTermination })
    (rfl : exitFacts Facts.after (headerFacts c d) [.sourceOffset (s.pc + 1)] = _)
  have hfollowing₅ := hfollowing₃.insertAll hp₃ [.sourceOffset (s.pc + 1)]
  -- the frame can be pushed at the end
  obtain ⟨s₅, hs₅⟩ : ∃ s₅, s₅ = (((s.allocateBasicBlock.allocateBasicBlock).insertAll
      [.jump s.fresh s.pc]).setCurrentBlock s.fresh).insertAll [.sourceOffset (s.pc + 1)] :=
    ⟨_, rfl⟩
  have hlower : s.lowerLoop c = ctrlPush ⟨.loop s.fresh, s.allocateBasicBlock.fresh⟩
      (if c.ensureTermination then s₅.lowerTerminationCheck else s₅) := by
    have hpush : (((s.allocateBasicBlock.allocateBasicBlock.ctrlPush
        ⟨.loop s.fresh, s.allocateBasicBlock.fresh⟩).insert (.jump s.fresh s.pc)).switchTo
          s.fresh) =
        s₅.ctrlPush ⟨.loop s.fresh, s.allocateBasicBlock.fresh⟩ := by
      rw [switchTo_of_mem (by simp [Inst.targets]), hs₅]
      simp only [insert_eq_insertAll, insertAll_ctrlPush, setCurrentBlock_ctrlPush, insertAll_pc,
        ctrlPush_pc, allocateBasicBlock_pc]
    simp only [LoweringState.lowerLoop, ctrlPush_pc,
      allocateBasicBlock_pc, hpush, lowerTerminationCheck_ctrlPush]
    split <;> rfl
  rw [← hs₅] at h₅ hp₅ hfollowing₅
  have hcurrent₅ : s₅.current = s.fresh := by rw [hs₅]; rfl
  have hpreds₅ : ∀ b ∈ s₅.preds, b ∈ s.preds ∨ b = s.fresh := by
    intro b hb
    simpa [hs₅, Inst.targets] using hb
  have hcode₅ : s₅.code s.current ≠ [] := by
    rw [hs₅]
    exact code_insertAll_ne_nil (by simp)
  have hheader₅ : s₅.code s.fresh ≠ [] := by
    rw [hs₅]
    simp
  have hcontrol₅ : s₅.controlFrames = s.controlFrames ∧ s₅.tryTableDepth = s.tryTableDepth ∧
      s₅.unreachable = s.unreachable ∧ s₅.unreachableDepth = s.unreachableDepth := by
    simp [hs₅]
  -- the rest is the same with and without the check
  have hrest : ∀ {g' : Ghost} {s' : LoweringState}, Grown c body (g₂.openBlock s.fresh) s₅ g' s' →
      (∃ checked, Point g' s' { depth := d, checked }) →
      (∀ b ∈ s'.preds, b ∈ s₅.preds ∨ s'.code b ≠ [] ∨ b = s'.current) →
      (s'.controlFrames = s₅.controlFrames ∧ s'.tryTableDepth = s₅.tryTableDepth ∧
        s'.unreachable = s₅.unreachable ∧ s'.unreachableDepth = s₅.unreachableDepth) →
      Lowered c body g' (s'.ctrlPush ⟨.loop s.fresh, s.allocateBasicBlock.fresh⟩) := by
    rintro g' s' hgrown ⟨checked', hpoint⟩ hpreds ⟨hframes, hdepth, hreach, hskipped⟩
    have hfollowing' : Pending g' s' _ _ := hfollowing₅.extends hgrown.old
      (by rw [hcurrent₅]; exact hne.symm)
    have halloc : s₅.Allocated s.fresh := by
      rw [hs₅]
      exact hheader.allocated
    have hcatch : catching (⟨.loop s.fresh, s.allocateBasicBlock.fresh⟩ ::
      s.controlFrames) = d := by
      simp [catching_cons, isTryCatch, hd]
    refine h.push hr ((h₅.trans hgrown (.inr (hcurrent₅ ▸ hheader.new))).congr rfl rfl rfl)
      (congrArg _ (hframes.trans hcontrol₅.1)) ⟨hfollowing'.congr rfl rfl, by simp, ?_⟩ ?_ ?_
      (hdepth.trans hcontrol₅.2.1) ((hreach.trans hcontrol₅.2.2.1).trans hr)
      (hskipped.trans hcontrol₅.2.2.2) ⟨checked', ?_⟩ (.inr (hgrown.old.nonempty _ hcode₅)) ?_
    · rintro b ⟨rfl⟩
      exact ⟨hgrown.old.allocated halloc, hgrown.old.nonempty _ hheader₅,
        (hgrown.old.facts _ halloc).trans hheader.facts⟩
    · simpa [pending] using hfollowing.new
    · simp [pending]
    · rw [hcatch]
      exact hpoint.congr rfl rfl
    · intro b hb
      obtain hb | hb | rfl := hpreds b hb
      · obtain hb | rfl := hpreds₅ b hb
        · exact .inl hb
        · exact .inr (.inl (hgrown.old.nonempty _ hheader₅))
      · exact .inr (.inl hb)
      · exact .inr (.inr (.inr rfl))
  rw [hlower]
  split
  next hterm =>
    obtain ⟨g', hgrown, hpoint, -, -, hpreds⟩ :=
      Grown.lowerTerminationCheck h₅.sketch hp₅ rfl (by rw [hs₅]; exact hpc)
    exact ⟨g', hrest hgrown ⟨true, hpoint⟩ hpreds s₅.lowerTerminationCheck_control⟩
  next hterm =>
    have hfacts : ({ depth := d, header := c.ensureTermination } : Facts) =
        { depth := d, checked := false } := by simp [hterm]
    exact ⟨_, hrest (.refl h₅.sketch) ⟨false, hfacts ▸ hp₅⟩ (fun b hb => .inl hb)
      ⟨rfl, rfl, rfl, rfl⟩⟩

theorem LoweringState.code_insertAll_setCurrentBlock_ne_nil {is : List Inst} (h : s.code b ≠ []) :
    ((s.insertAll is).setCurrentBlock b').code b ≠ [] :=
  code_insertAll_ne_nil h

theorem Lowered.lowerFill (h : Lowered c body g s) (hr : s.unreachable = false)
    (hpc : defaultExits body s.pc = false) : ∃ g', Lowered c body g' s.lowerFill := by
  obtain ⟨checked, hp⟩ := h.point hr
  set d := catching s.controlFrames with hd
  have henters : ∀ checked : Bool, Facts.Enters { depth := d, checked } { depth := d } :=
    fun checked => ⟨rfl, rfl, rfl, by simp⟩
  have h₀ := (Grown.refl h.sketch).insertAll hp (.inl rfl) [.plain]
    (flows_plain_cons trivial rfl flows_nil) (by simp [Inst.targets])
  have hp₀ : Point g (s.insertAll [.plain]) { depth := d, checked } := hp.insertAll rfl
  obtain ⟨g₁, h₁, hp₁, hbefore₁, hloop₁, hfollowing₁, hne₁, hne₂, hne₃⟩ :=
    h₀.allocate₃ hp₀ { depth := d } { depth := d } { depth := d }
  set before := (s.insertAll [.plain]).fresh
  set loop := (s.insertAll [.plain]).allocateBasicBlock.fresh
  set following := (s.insertAll [.plain]).allocateBasicBlock.allocateBasicBlock.fresh
  set s₁ := (s.insertAll [.plain]).allocateBasicBlock.allocateBasicBlock.allocateBasicBlock
  set test : List Inst := [.brnz following s.pc, .jump before s.pc]
  obtain ⟨h₃, hp₃⟩ := h₁.goOn hp₁ (.inl rfl) test
    (flows_plain_cons (hfollowing₁.enters (henters checked)) rfl
      (flows_jump_pending hpc hbefore₁.toPending (henters checked)))
    (by simpa [test, Inst.targets] using ⟨⟨_, hfollowing₁.toPending⟩, _, hbefore₁.toPending⟩)
    hbefore₁.toPending hbefore₁.new
  have hloop₃ := hloop₁.goOn hp₁ test hne₁.symm
  have hfollowing₃ := hfollowing₁.goOn hp₁ test hne₂.symm
  obtain ⟨h₅, hp₅⟩ := h₃.goOn hp₃ (.inr hbefore₁.new) [.plain, .jump loop s.pc]
    (flows_plain_cons trivial rfl (flows_jump_pending hpc hloop₃ (henters false)))
    (by simpa [Inst.targets] using ⟨_, hloop₃⟩) hloop₃ hloop₁.new
  have hloop₄ := hloop₃.insertAll hp₃ [.plain, .jump loop s.pc]
  have hfollowing₅ := hfollowing₃.goOn hp₃ [.plain, .jump loop s.pc] hne₃.symm
  have h₆ := h₅.insertAll hp₅ (.inr hloop₁.new) [.plain, .brnz loop s.pc, .jump following s.pc]
    (flows_plain_cons trivial rfl (flows_plain_cons (hloop₄.enters (henters false)) rfl
      (flows_jump_pending hpc hfollowing₅ (henters false))))
    (by
      intro target htarget
      obtain rfl | rfl : target = loop ∨ target = following := by
        simpa [Inst.targets] using htarget
      · refine ⟨hloop₄.allocated, fun _ => .inr (.inr ⟨rfl, s.pc, following, s.pc, ?_⟩)⟩
        simp [hloop₄.code]
      · exact hfollowing₅.target hp₅)
  have hfollowing₆ := hfollowing₅.insertAll hp₅ [.plain, .brnz loop s.pc, .jump following s.pc]
  have h₇ := h₆.openBlock hfollowing₆ hfollowing₁.new
  have hp₇ := hfollowing₆.point
  have hs : s.lowerFill = ((((((s₁.insertAll test).setCurrentBlock before).insertAll
      [.plain, .jump loop s.pc]).setCurrentBlock loop).insertAll
      [.plain, .brnz loop s.pc, .jump following s.pc]).setCurrentBlock following) := by
    simp only [LoweringState.lowerFill, insert_eq_insertAll, insertAll_pc, allocateBasicBlock_pc,
      setCurrentBlock_pc, s₁, before, loop, following, test]
  rw [← hs] at h₇ hp₇
  have hcurrent : s.lowerFill.code s.current ≠ [] := by
    rw [hs]
    apply code_insertAll_setCurrentBlock_ne_nil
    apply code_insertAll_setCurrentBlock_ne_nil
    simp [s₁, test]
  have hpreds : ∀ b ∈ s.lowerFill.preds, b ∈ s.preds ∨ b = before ∨ b = loop ∨ b = following := by
    rw [hs]
    simp [s₁, test, Inst.targets]
    tauto
  have hbefore : s.lowerFill.code before ≠ [] := by
    rw [hs]
    apply code_insertAll_setCurrentBlock_ne_nil
    simp
  have hloop : s.lowerFill.code loop ≠ [] := by
    rw [hs]
    simp
  have hcontrol : s.lowerFill.controlFrames = s.controlFrames ∧
      s.lowerFill.tryTableDepth = s.tryTableDepth ∧ s.lowerFill.unreachable = s.unreachable ∧
      s.lowerFill.unreachableDepth = s.unreachableDepth ∧ s.lowerFill.current = following := by
    rw [hs]
    simp [s₁]
  obtain ⟨hframes, hdepth, hreach, hskipped, hcur⟩ := hcontrol
  refine ⟨_, h.extend hr h₇ hframes hdepth hskipped hcurrent
    (fun _ => ⟨false, hp₇.exit, hp₇.rank⟩) ?_ (by simp [hreach, hr])⟩
  intro b hb
  obtain hb | rfl | rfl | rfl := hpreds b hb
  · exact .inl hb
  · exact .inr (.inl hbefore)
  · exact .inr (.inl hloop)
  · exact .inr (.inr (.inr hcur.symm))

theorem Lowered.lowerIf (h : Lowered c body g s) (hr : s.unreachable = false)
    (hpc : defaultExits body s.pc = false) : ∃ g', Lowered c body g' s.lowerIf := by
  obtain ⟨checked, hp⟩ := h.point hr
  set d := catching s.controlFrames with hd
  have henters : Facts.Enters { depth := d, checked } { depth := d } := ⟨rfl, rfl, rfl, by simp⟩
  obtain ⟨g₁, h₁, hp₁, hthen₁, helse₁, hfollowing₁, hne₁, hne₂, hne₃⟩ :=
    (Grown.refl h.sketch).allocate₃ hp { depth := d } { depth := d }
      (followingFacts s.allocateBasicBlock.allocateBasicBlock.fresh d)
  set thenBlk := s.fresh
  set elseBlk := s.allocateBasicBlock.fresh
  set following := s.allocateBasicBlock.allocateBasicBlock.fresh
  set s₁ := s.allocateBasicBlock.allocateBasicBlock.allocateBasicBlock
  set test : List Inst := [.brz elseBlk s.pc, .jump thenBlk s.pc]
  obtain ⟨h₃, hp₃⟩ := h₁.goOn hp₁ (.inl rfl) test (flows_plain_cons (helse₁.enters henters) rfl
      (flows_jump_pending hpc hthen₁.toPending henters))
    (by simpa [test, Inst.targets] using ⟨⟨_, helse₁.toPending⟩, _, hthen₁.toPending⟩)
    hthen₁.toPending hthen₁.new
  have helse₃ := helse₁.goOn hp₁ test hne₁.symm
  have hfollowing₃ := hfollowing₁.goOn hp₁ test hne₂.symm
  have hs : s.lowerIf = ctrlPush ⟨.ifWithoutElse elseBlk, following⟩
      ((s₁.insertAll test).setCurrentBlock thenBlk) := by
    simp only [LoweringState.lowerIf, setCurrentBlock_ctrlPush,
      allocateBasicBlock_pc, s₁, thenBlk, elseBlk, following, test]
  have hcatch : catching (⟨.ifWithoutElse elseBlk, following⟩ :: s.controlFrames) = d := by
    simp [catching_cons, isTryCatch, hd]
  rw [hs]
  refine ⟨_, h.push hr (h₃.congr rfl rfl rfl) rfl
    ⟨hfollowing₃.congr rfl rfl, ?_, by simp⟩ ?_ ?_ rfl hr rfl ⟨false, ?_⟩ (.inr ?_) ?_⟩
  · rintro b ⟨rfl⟩
    exact helse₃.congr rfl rfl
  · simpa [pending] using ⟨helse₁.new, hfollowing₁.new⟩
  · simpa [pending] using hne₃
  · rw [hcatch]
    exact hp₃.congr rfl rfl
  · simp [s₁, test]
  · intro b hb
    have hmem : b ∈ s.preds ∨ b = elseBlk ∨ b = thenBlk := by
      simpa [s₁, test, Inst.targets] using hb
    obtain hb | rfl | rfl := hmem
    · exact .inl hb
    · exact .inr (.inr (.inl (by simp [pendingBlocks, pending])))
    · exact .inr (.inr (.inr rfl))

end

end Andsifr.Frontend
