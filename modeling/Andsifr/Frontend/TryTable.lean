import Andsifr.Frontend.Structured

namespace Andsifr.Frontend

open Wasm Lib.Flow LoweringState Facts ControlFrame Option

section

variable {c : Compiler} {body : List Instruction} {g g' : Ghost} {s s' : LoweringState}
  {a : Facts} {xs : List Nat}

theorem exitFacts_reloads : exitFacts after a (xs.map (.reloadLocal ·)) =
      some { a with stale := a.stale \ { x | x ∈ xs } } := by
  induction xs generalizing a with
  | nil => simp
  | cons x xs ih =>
    rw [List.map_cons, exitFacts_cons]
    simp only [after, bind_some, ih, Set.sdiff_sdiff]
    congr 3
    ext y
    simp

variable {facts : BlockID → Facts}

theorem flows_reloads (hlabel : a.label = false) (hheader : a.header = false) (hnodup : xs.Nodup)
    (hstale : ∀ x ∈ xs, x ∈ a.stale) :
    Flows (Facts.Ok c body facts) after a (xs.map (.reloadLocal ·)) := by
  induction xs generalizing a with
  | nil => trivial
  | cons x xs ih =>
    obtain ⟨hx, hxs⟩ := List.nodup_cons.1 hnodup
    refine ⟨⟨by simp [hlabel], by simp [hheader], hstale x (by simp)⟩, ?_⟩
    rintro a' ⟨rfl⟩
    refine ih hlabel hheader hxs fun y hy => ⟨hstale y (by simp [hy]), ?_⟩
    rintro rfl
    exact hx hy

theorem exitFacts_stores : exitFacts after a (xs.map (.storeLocal ·)) =
      some { a with dirty := a.dirty \ { x | x ∈ xs } } := by
  induction xs generalizing a with
  | nil => simp
  | cons x xs ih =>
    rw [List.map_cons, exitFacts_cons]
    simp only [after, bind_some, ih, Set.sdiff_sdiff]
    congr 3
    ext y
    simp

theorem flows_stores (hlabel : a.label = false) (hheader : a.header = false) (hdepth : 0 < a.depth)
    (hstale : a.stale = ∅) (hxs : ∀ x ∈ xs, x < c.numLocals) :
    Flows (Facts.Ok c body facts) after a (xs.map (.storeLocal ·)) := by
  induction xs generalizing a with
  | nil => trivial
  | cons x xs ih =>
    refine ⟨⟨by simp [hlabel], by simp [hheader], hdepth, hstale, hxs x (by simp)⟩, ?_⟩
    rintro a' ⟨rfl⟩
    exact ih hlabel hheader hdepth hstale fun y hy => hxs y (by simp [hy])

/-- The facts where a handler begins: no local is what it was when the exception was thrown. -/
def handlerFacts (c : Compiler) (depth : Nat) : Facts :=
  { depth, stale := { x | x < c.numLocals } }

/-- The facts where the body of a `try_table` begins: nothing has been saved. -/
def tryBodyFacts (c : Compiler) (depth : Nat) : Facts :=
  { depth := depth + 1, dirty := { x | x < c.numLocals } }

theorem exitFacts_handlerCode {depth : Nat} :
    exitFacts after (handlerFacts c depth) (handlerCode c) = some { depth, checked := false } := by
  rw [handlerCode, List.cons_append, exitFacts_cons]
  simp only [after, bind_some]
  rw [exitFacts_append, exitFacts_reloads]
  simp [after, handlerFacts]

theorem flows_handlerCode {depth : Nat} : Flows (Facts.Ok c body facts) after (handlerFacts c depth)
      (handlerCode c) := by
  refine ⟨ok_of_allows trivial, ?_⟩
  rintro a' ⟨rfl⟩
  refine flows_append.2 ⟨flows_reloads rfl rfl List.nodup_range (by simp [handlerFacts]),
    fun a' ha' => ?_⟩
  rw [exitFacts_reloads] at ha'
  cases ha'
  exact ⟨ok_of_allows trivial, by simp⟩

theorem flatMap_targets_handlerCode : (handlerCode c).flatMap Inst.targets = [] := by
  simp [handlerCode, Inst.targets, List.flatMap_map]

/-- A `try_table` without clauses is a block with a block of its own. -/
theorem Lowered.lowerTryTable_nil (h : Lowered c body g s) (hr : s.unreachable = false)
    (hpc : defaultExits body s.pc = false) (hs : s.lowerTryTable c [] = some s') :
    ∃ g', Lowered c body g' s' := by
  obtain ⟨checked, hp⟩ := h.point hr
  set d := catching s.controlFrames with hd
  obtain ⟨g₁, h₁, hp₁, hfollowing₁, hbody₁, hne⟩ := (Grown.refl h.sketch).allocate₂ hp
    (followingFacts s.fresh d) { depth := d }
  set following := s.fresh
  set bodyBlk := s.allocateBasicBlock.fresh
  set s₁ := s.allocateBasicBlock.allocateBasicBlock
  have hjump : jumpCode c bodyBlk s.pc = [.jump bodyBlk s.pc] := by
    simp [jumpCode, bodyBlk, fresh]
  obtain ⟨h₃, hp₃⟩ := h₁.goOn hp₁ (.inl rfl) [.jump bodyBlk s.pc]
    (flows_jump_pending hpc hbody₁.toPending ⟨rfl, rfl, rfl, by simp⟩)
    (by simpa [Inst.targets] using ⟨_, hbody₁.toPending⟩) hbody₁.toPending hbody₁.new
  have hfollowing₃ := hfollowing₁.goOn hp₁ [.jump bodyBlk s.pc] hne
  have hlower : s' = ctrlPush ⟨.tryTable, following⟩
      ((s₁.insertAll [.jump bodyBlk s.pc]).setCurrentBlock bodyBlk) := by
    rw [← hjump]
    simpa [lowerTryTable, insertJumpToBlock_eq] using hs.symm
  rw [hlower]
  refine ⟨_, h.push hr (h₃.congr rfl rfl rfl) rfl (.of_following (hfollowing₃.congr rfl rfl)
    (by simp) (by simp)) ?_ ?_ rfl hr rfl ⟨false, ?_⟩ (.inr ?_) ?_⟩
  · simpa [pending] using hfollowing₁.new
  · simp [pending]
  · exact hp₃.congr rfl rfl
  · simp [s₁]
  · intro b hb
    obtain hb | rfl : b ∈ s.preds ∨ b = bodyBlk := by simpa [s₁, Inst.targets] using hb
    · exact .inl hb
    · exact .inr (.inr (.inr rfl))

theorem Lowered.lowerTryTable_cons (h : Lowered c body g s) (hr : s.unreachable = false)
    (hpc : defaultExits body s.pc = false) {catches : List CatchClause} (hcatches : catches ≠ [])
    (hs : s.lowerTryTable c catches = some s') : ∃ g', Lowered c body g' s' := by
  obtain ⟨checked, hp⟩ := h.point hr
  set d := catching s.controlFrames with hd
  obtain ⟨g₁, h₁, hp₁, hfollowing₁, hbody₁, hne⟩ := (Grown.refl h.sketch).allocate₂ hp
    (followingFacts s.fresh d) (tryBodyFacts c d)
  rw [lowerTryTable, if_neg hcatches] at hs
  set following := s.fresh
  set bodyBlk := s.allocateBasicBlock.fresh
  set s₁ := s.allocateBasicBlock.allocateBasicBlock
  obtain ⟨⟨s₃, handlers⟩, htrampolines, hs⟩ := bind_eq_some_iff.1 hs
  have h₂ := h₁.insertAll hp₁ (.inl rfl) [.plain] (flows_plain_cons trivial rfl flows_nil)
    (by simp [Inst.targets])
  have hp₂ : Point g₁ (s₁.insertAll [.plain]) { depth := d, checked } := hp₁.insertAll rfl
  have hframes₂ : Frames c g₁ (s₁.insertAll [.plain]) s.controlFrames :=
    h.frames.extends h₂.old (h.current_notMem hp.rank)
  obtain ⟨g₃, hprepared, hlength⟩ := prepared_trampolines (fun _ => flows_handlerCode)
    flatMap_targets_handlerCode h₂.sketch hframes₂ hpc exitFacts_handlerCode htrampolines
  have h₃ := h₂.trans hprepared.grown (.inl rfl)
  have hp₃ := hprepared.point h₂.sketch hp₂
  have hfollowing₃ := (hfollowing₁.insertAll hp₁ [.plain]).extends hprepared.grown.old
    ((hfollowing₁.insertAll hp₁ [.plain]).ne_current hp₂)
  have hbody₃ := (hbody₁.insertAll hp₁ [.plain]).extends hprepared.grown.old
    ((hbody₁.insertAll hp₁ [.plain]).ne_current hp₂)
  obtain ⟨hpc₃, hframes₃, hreach₃, hskipped₃, hdepth₃, hcurrent₃⟩ := hprepared.same
  -- the handlers are entered behind the trampoline, or else the body
  set info : TryTableInfo := ⟨catches, c.numLocals, 0 < s.tryTableDepth⟩
  have h₄ := h₃.insertAll hp₃ (.inl hcurrent₃) [.tryTableEnter info handlers bodyBlk]
    ⟨ok_of_allows ⟨⟨rfl, rfl⟩, rfl, by simp [info, h.depth, hd], by simpa [info] using hlength.symm,
      fun b hb => hprepared.facts b hb, hbody₃.facts⟩, by simp [after]⟩
    (by
      intro target htarget
      obtain hb | rfl : target ∈ handlers ∨ target = bodyBlk := by
        simpa [Inst.targets] using htarget
      · exact hprepared.target hb hp₂.rank
      · exact hbody₃.target hp₃)
  have hbody₄ := hbody₃.insertAll hp₃ [.tryTableEnter info handlers bodyBlk]
  have hfollowing₄ := hfollowing₃.insertAll hp₃ [.tryTableEnter info handlers bodyBlk]
  have h₅ := h₄.openBlock hbody₄ hbody₁.new
  have hp₅ := hbody₄.point
  have hfollowing₅ := hfollowing₄.openBlock hne
  set stores : List Inst := .plain :: (List.range c.numLocals).map (.storeLocal ·)
  have h₆ := h₅.insertAll hp₅ (.inr hbody₁.new) stores ⟨ok_of_allows trivial, by
      rintro a' ⟨rfl⟩
      exact flows_stores rfl rfl (Nat.succ_pos d) rfl (by simp)⟩
    (by simp [stores, Inst.targets, List.flatMap_map])
  have hexit : exitFacts after (tryBodyFacts c d) stores =
      some { depth := d + 1, checked := false } := by
    rw [exitFacts_cons]
    simp only [after, bind_some]
    rw [exitFacts_stores]
    simp [tryBodyFacts]
  have hp₆ := hp₅.insertAll hexit
  have hfollowing₆ := hfollowing₅.insertAll hp₅ stores
  have hcatch : catching (⟨.tryTableWithCatch, following⟩ :: s.controlFrames) = d + 1 := by
    simp [catching_cons, isTryCatch, hd]
  have hkeep : ∀ b, s₃.code b ≠ [] → (((s₃.insertAll [.tryTableEnter info handlers
      bodyBlk]).setCurrentBlock bodyBlk).insertAll stores).code b ≠ [] := fun b hb =>
    code_insertAll_ne_nil (code_insertAll_setCurrentBlock_ne_nil hb)
  cases hs
  refine ⟨_, h.push hr (h₆.congr rfl rfl rfl) (congrArg _ hframes₃)
    (.of_following (hfollowing₆.congr rfl rfl) (by simp) (by simp)) ?_ ?_
    (congrArg (· + 1) hdepth₃) (hreach₃.trans hr) hskipped₃ ⟨false, ?_⟩ (.inr ?_) ?_⟩
  · simpa [pending] using hfollowing₁.new
  · simp [pending]
  · rw [hcatch]
    exact hp₆.congr rfl rfl
  · refine hkeep _ (hprepared.old.nonempty _ ?_)
    simp [s₁]
  · intro b hb
    have hmem : b ∈ s₃.preds ∨ b ∈ handlers ∨ b = bodyBlk := by
      simpa [Inst.targets, stores, storeAllLocalsToSaveArea, List.flatMap_map] using hb
    obtain hb | hb | rfl := hmem
    · obtain hb | hb | hb := hprepared.preds b hb
      · exact .inl (by simpa [s₁, Inst.targets] using hb)
      · exact .inr (.inl (hkeep b hb))
      · exact .inr (.inr (.inl (List.mem_append_right _ hb)))
    · obtain hb | hb := hprepared.filled b hb
      · exact .inr (.inl (hkeep b hb))
      · exact .inr (.inr (.inl (List.mem_append_right _ hb)))
    · exact .inr (.inr (.inr rfl))

theorem Lowered.lowerTryTable (h : Lowered c body g s) (hr : s.unreachable = false)
    (hpc : defaultExits body s.pc = false) {catches : List CatchClause}
    (hs : s.lowerTryTable c catches = some s') : ∃ g', Lowered c body g' s' := by
  by_cases hcatches : catches = []
  · subst hcatches
    exact h.lowerTryTable_nil hr hpc hs
  · exact h.lowerTryTable_cons hr hpc hcatches hs

end

end Andsifr.Frontend
