import Andsifr.Frontend.TryTable

namespace Andsifr.Frontend

open Wasm Lib.Flow ControlFrame List LoweringState

section

variable {c : Compiler} {body : List Instruction} {g g' : Ghost} {s s' : LoweringState}
  {ctrl : ControlFrame} {frames : List ControlFrame}

theorem FrameOk.openBlock {depth : Nat} {b : BlockID} (h : FrameOk c g s ctrl depth)
    (hb : b ∉ ctrl.pending) : FrameOk c (g.openBlock b) (s.setCurrentBlock b) ctrl depth where
  following := h.following.openBlock fun heq => hb (heq ▸ followingBlock_mem_pending)
  elseBlk b' hkind := (h.elseBlk b' hkind).openBlock fun heq =>
    hb (by simp [pending, hkind, ← heq])
  header b' hkind := h.header b' hkind

theorem Frames.openBlock {b : BlockID} (h : Frames c g s frames) (hb : b ∉ pendingBlocks frames) :
    Frames c (g.openBlock b) (s.setCurrentBlock b) frames := by
  induction frames with
  | nil => trivial
  | cons ctrl frames ih =>
    rw [pendingBlocks_cons, mem_append, not_or] at hb
    exact ⟨h.1.openBlock hb.1, ih h.2 hb.2⟩

theorem Frames.congr (h : Frames c g s frames) (hcode : s'.code = s.code)
    (hnext : s'.nextBlock = s.nextBlock) : Frames c g s' frames := by
  induction frames with
  | nil => trivial
  | cons ctrl frames ih =>
    refine ⟨⟨h.1.following.congr hcode hnext,
      fun b hb => (h.1.elseBlk b hb).congr hcode hnext, fun b hb => ?_⟩, ih h.2⟩
    obtain ⟨hallocated, hne, hfacts⟩ := h.1.header b hb
    refine ⟨?_, by rwa [hcode], hfacts⟩
    cases b with
    | returnBlock => trivial
    | block id => simpa only [LoweringState.Allocated, hnext] using hallocated

/-- A state of the invariant that emits no code, is still in the frame `ctrl`, and has the blocks of
`s`, in which the frame is popped. -/
structure ClosedIn (c : Compiler) (body : List Instruction) (g : Ghost) (ctrl : ControlFrame)
    (frames : List ControlFrame) (s t : LoweringState) : Prop where
  lowered : Lowered c body g t
  unreachable : t.unreachable = true
  controlFrames : t.controlFrames = ctrl :: frames
  code : s.code = t.code
  preds : s.preds = t.preds
  nextBlock : s.nextBlock = t.nextBlock

/-- The state behind the end of a frame that has been popped. -/
structure Popped (frames : List ControlFrame) (s s' : LoweringState) : Prop where
  pc : s'.pc = s.pc
  controlFrames : s'.controlFrames = frames
  unreachable : s'.unreachable = false
  unreachableDepth : s'.unreachableDepth = 0

theorem ClosedIn.filled {t : LoweringState} (h : ClosedIn c body g ctrl frames s t) :
    ∀ b ∈ s.preds, s.code b ≠ [] ∨ b ∈ ctrl.pending ∨ b ∈ pendingBlocks frames := by
  intro b hb
  rw [h.preds] at hb
  rw [h.code]
  obtain hcode | hpending | rfl := h.lowered.filled b hb
  · exact .inl hcode
  · rw [h.controlFrames, pendingBlocks_cons, mem_append] at hpending
    exact .inr hpending
  · exact (h.lowered.stopped h.unreachable).imp_right fun hn => absurd hb hn

theorem ClosedIn.openElse {t : LoweringState} {elseBlk following : BlockID}
    (h : ClosedIn c body g ⟨.ifWithoutElse elseBlk, following⟩ frames s t)
    (hframes : s.controlFrames = ⟨.ifWithElse elseBlk, following⟩ :: frames)
    (hdepth : s.tryTableDepth = t.tryTableDepth) (hreachable : s.unreachable = false)
    (hskipped : s.unreachableDepth = 0) (hcurrent : s.current = elseBlk) :
    Lowered c body (g.openBlock elseBlk) s := by
  have hall := h.lowered.frames
  have hdistinct := h.lowered.distinct
  rw [h.controlFrames] at hall hdistinct
  have helse := hall.1.elseBlk elseBlk rfl
  simp only [pendingBlocks_cons, pending, cons_append, nil_append,
    nodup_cons, mem_cons, not_or] at hdistinct
  obtain ⟨⟨hne, helse_notMem⟩, hfollowing_notMem, hnodup⟩ := hdistinct
  have hcatch : catching s.controlFrames = catching frames := by
    simp [hframes, catching_cons, isTryCatch]
  have hpoint : Point (g.openBlock elseBlk) s { depth := catching frames } :=
    helse.point.congr h.code hcurrent
  refine ⟨(h.lowered.sketch.openBlock helse.rank helse.allocated).congr h.code h.preds h.nextBlock,
    ?_, ?_, ?_, fun _ => ⟨hskipped, false, ?_, hpoint.rank⟩, ?_, by simp [hreachable]⟩
  · rw [hframes]
    refine ⟨.of_following ?_ (by simp) (by simp), ?_⟩
    · exact (hall.1.following.openBlock (Ne.symm hne)).congr h.code h.nextBlock
    · exact (hall.2.openBlock helse_notMem).congr h.code h.nextBlock
  · rw [hframes]
    exact nodup_cons.2 ⟨hfollowing_notMem, hnodup⟩
  · rw [hdepth, h.lowered.depth, hcatch, h.controlFrames]
    simp [catching_cons, isTryCatch]
  · rw [hcatch]
    exact hpoint.exit
  · intro b hb
    rw [hframes, hcurrent]
    obtain hb | hb := h.filled b hb
    · exact .inl hb
    · obtain rfl | hb : b = elseBlk ∨ b ∈ following :: pendingBlocks frames := by
        simpa [pending, or_assoc] using hb
      · exact .inr (.inr rfl)
      · exact .inr (.inl (by simpa [pendingBlocks, pending] using hb))

/-- The code at the end of the innermost frame, in code that can be reached. -/
def endCode (c : Compiler) (ctrl : ControlFrame) (pc : Nat) : List Inst :=
  replicate (if ctrl.isTryCatch then 1 else 0) .tryTableLeave ++
    jumpCode c ctrl.followingBlock pc

theorem Lowered.closeFrame (h : Lowered c body g s) (hr : s.unreachable = false)
    (hframes : s.controlFrames = ctrl :: frames) (hpc : defaultExits body s.pc = false) :
    Lowered c body g (s.insertAll (endCode c ctrl s.pc)).setUnreachable := by
  have hall := h.frames
  rw [hframes] at hall
  have hfollowing := hall.1.following
  refine h.close hr (by simp [endCode, jumpCode_ne_nil]) (fun target htarget => ?_)
    fun checked => flows_append.2 ⟨flows_leaves ?_, fun a' ha' => ?_⟩
  · obtain rfl : target = ctrl.followingBlock := by simpa [endCode] using htarget
    refine ⟨hfollowing.allocated, fun _ => .inl hfollowing.rank, .inr ?_⟩
    rw [hframes]
    exact mem_append_left _ followingBlock_mem_pending
  · rw [hframes, catching_cons]
    omega
  · rw [exitFacts_leaves, hframes, catching_cons, Nat.add_sub_cancel] at ha'
    cases ha'
    refine flows_jumpCode (Facts.allows_jump hpc (hfollowing.enters ⟨rfl, rfl, rfl, ?_⟩))
    simp [followingFacts]

/-- Code goes on behind the innermost frame, if it can be reached. -/
theorem ClosedIn.switchTo {t : LoweringState} (h : ClosedIn c body g ctrl frames s' t)
    (helse : ∀ b, ctrl.kind ≠ .ifWithoutElse b)
    (henclosing : enclosing body (s.pc + 1) = catching frames) (hpopped : Popped frames s s')
    (hdepth : s'.tryTableDepth = catching frames) :
    Lowered c body (g.openBlock ctrl.followingBlock) (s'.switchTo ctrl.followingBlock) := by
  have hframes' := hpopped.controlFrames
  have hall := h.lowered.frames
  have hdistinct := h.lowered.distinct
  have hpending : ctrl.pending = [ctrl.followingBlock] := by
    unfold pending
    split
    next b hb => exact absurd hb (helse b)
    next => rfl
  rw [h.controlFrames] at hall hdistinct
  rw [pendingBlocks_cons, hpending, singleton_append, nodup_cons] at hdistinct
  obtain ⟨hnotMem, hnodup⟩ := hdistinct
  have hfollowing := hall.1.following
  have hsketch : Sketch c body (g.openBlock ctrl.followingBlock)
      (s'.setCurrentBlock ctrl.followingBlock) :=
    (h.lowered.sketch.openBlock hfollowing.rank hfollowing.allocated).congr h.code h.preds
      h.nextBlock
  have hall' : Frames c (g.openBlock ctrl.followingBlock)
      (s'.setCurrentBlock ctrl.followingBlock) frames :=
    (hall.2.openBlock hnotMem).congr h.code h.nextBlock
  have hpoint : Point (g.openBlock ctrl.followingBlock) (s'.setCurrentBlock ctrl.followingBlock)
      (followingFacts ctrl.followingBlock (catching frames)) := hfollowing.point.congr h.code rfl
  have hfilled := h.filled
  simp only [hpending, mem_singleton] at hfilled
  unfold LoweringState.switchTo
  split
  next hmem =>
    have hpoint' := hpoint.insertAll (v := { depth := catching frames })
      (rfl : exitFacts Facts.after _ [.sourceOffset (s'.pc + 1)] = _)
    refine ⟨hsketch.insertAll hpoint.exit hpoint.rank ?_ (by simp [Inst.targets]), ?_, ?_, ?_,
      fun _ => ⟨hpopped.unreachableDepth, false, ?_, hpoint'.rank⟩, ?_,
      by simp [hpopped.unreachable]⟩
    · exact ⟨⟨by simp [Inst.isSourceOffset], by simp [Inst.isSourceOffset],
        by rw [hpopped.pc, henclosing]; rfl, rfl, rfl⟩, by simp⟩
    · rw [insert_eq_insertAll, insertAll_controlFrames, setCurrentBlock_controlFrames, hframes']
      exact hall'.extends (Extends.insertAll (.inl rfl)) hnotMem
    · simpa [hframes'] using hnodup
    · simp [hframes', hdepth]
    · simpa [hframes'] using hpoint'.exit
    · intro b hb
      obtain hb | hb | hb := hfilled b (by simpa [Inst.targets] using hb)
      · exact .inl (code_insertAll_ne_nil hb)
      · exact .inr (.inr hb)
      · exact .inr (.inl (by simpa [hframes'] using hb))
  next hmem =>
    refine ⟨hsketch.congr rfl rfl rfl, ?_, ?_, ?_, by simp, ?_, fun _ => .inr hmem⟩
    · rw [setUnreachable_controlFrames, setCurrentBlock_controlFrames, hframes']
      exact hall'.congr rfl rfl
    · simpa [hframes'] using hnodup
    · simp [hframes', hdepth]
    · intro b hb
      obtain hb | hb | hb := hfilled b hb
      · exact .inl hb
      · exact .inr (.inr hb)
      · exact .inr (.inl (by simpa [hframes'] using hb))

theorem Lowered.lowerElse (h : Lowered c body g s) (hpc : defaultExits body s.pc = false)
    (hs : s.lowerElse c = some s') : ∃ g', Lowered c body g' s' := by
  unfold LoweringState.lowerElse at hs
  split at hs
  next hskip =>
    cases hs
    exact ⟨g, h⟩
  next hskip =>
    split at hs
    next elseBlk following frames hframes =>
      by_cases hu : s.unreachable = true
      · simp only [hu, if_true] at hs
        cases hs
        refine ⟨_, ClosedIn.openElse ⟨h, hu, hframes, rfl, rfl, rfl⟩ rfl rfl rfl ?_ rfl⟩
        simpa [hu] using hskip
      · have hr : s.unreachable = false := by simpa using hu
        simp only [hr, insertJumpToBlock_eq] at hs
        cases hs
        have hclosed := h.closeFrame hr hframes hpc
        exact ⟨_, ClosedIn.openElse ⟨hclosed, rfl, hframes, rfl, rfl, rfl⟩ rfl rfl hr
          (h.reachable hr).1 rfl⟩
    next => cases hs

theorem LoweringState.leaveFrame_eq (ctrl : ControlFrame) :
    s.leaveFrame c ctrl = if s.unreachable then { s with unreachable := false }
      else s.insertAll (endCode c ctrl s.pc) := by
  unfold LoweringState.leaveFrame endCode
  by_cases hcatch : ctrl.isTryCatch = true
  · simp [hcatch, insertJumpToBlock_eq, insertAll_insertAll]
  · simp [hcatch, insertJumpToBlock_eq]

theorem Lowered.leaveFrame (h : Lowered c body g s) (hpc : defaultExits body s.pc = false)
    (hskipped : s.unreachableDepth = 0) (hframes : s.controlFrames = ctrl :: frames) :
    (∃ t, ClosedIn c body g ctrl frames ({ s with controlFrames := frames }.leaveFrame c ctrl) t) ∧
      Popped frames s ({ s with controlFrames := frames }.leaveFrame c ctrl) ∧
      ({ s with controlFrames := frames }.leaveFrame c ctrl).tryTableDepth = s.tryTableDepth := by
  rw [leaveFrame_eq]
  by_cases hu : s.unreachable = true
  · simp only [hu, if_true]
    exact ⟨⟨s, h, hu, hframes, rfl, rfl, rfl⟩, ⟨rfl, rfl, rfl, hskipped⟩, trivial⟩
  · have hr : s.unreachable = false := by simpa using hu
    simp only [hr, Bool.false_eq_true, if_false]
    exact ⟨⟨_, h.closeFrame hr hframes hpc, rfl, hframes, rfl, rfl, rfl⟩,
      ⟨rfl, rfl, rfl, hskipped⟩, rfl⟩

theorem ClosedIn.emptyElse {t : LoweringState} {elseBlk following : BlockID}
    (h : ClosedIn c body g ⟨.ifWithoutElse elseBlk, following⟩ frames s t)
    (hpc : defaultExits body s.pc = false) :
    ∃ g' t', ClosedIn c body g' ⟨.ifWithElse elseBlk, following⟩ frames
      ((s.setCurrentBlock elseBlk).insertJumpToBlock c following) t' := by
  set u : LoweringState := { s with
    controlFrames := ⟨.ifWithElse elseBlk, following⟩ :: frames
    unreachable := false
    unreachableDepth := 0
    tryTableDepth := t.tryTableDepth
    current := elseBlk }
  have hu : Lowered c body (g.openBlock elseBlk) u :=
    ClosedIn.openElse ⟨h.lowered, h.unreachable, h.controlFrames, h.code, h.preds, h.nextBlock⟩
      rfl rfl rfl rfl rfl
  have hclosed := hu.closeFrame rfl rfl hpc
  rw [insertJumpToBlock_eq]
  exact ⟨_, _, hclosed, rfl, rfl, rfl, rfl, rfl⟩

theorem Lowered.lowerEnd (h : Lowered c body g s) (hpc : defaultExits body s.pc = false)
    (henclosing : s.unreachableDepth = 0 →
      enclosing body (s.pc + 1) = catching s.controlFrames.tail)
    (hs : s.lowerEnd c = some s') : ∃ g', Lowered c body g' s' := by
  unfold LoweringState.lowerEnd at hs
  split at hs
  next hskip =>
    cases hs
    have hu : s.unreachable = true := by
      by_contra hr
      exact absurd (h.reachable (by simpa using hr)).1 hskip.ne'
    exact ⟨g, h.sketch.congr rfl rfl rfl, h.frames.congr rfl rfl, h.distinct, h.depth,
      by simp [hu], h.filled, h.stopped⟩
  next hskip =>
    have hzero : s.unreachableDepth = 0 := by simpa using hskip
    split at hs
    next => cases hs
    next ctrl frames hframes =>
      have henclosing' := henclosing hzero
      have hdepth := h.depth
      rw [hframes] at henclosing' hdepth
      obtain ⟨⟨t, hclosed⟩, hpopped, hdepth₁⟩ := h.leaveFrame hpc hzero hframes
      generalize LoweringState.leaveFrame c ctrl _ = s₁ at hs hclosed hpopped hdepth₁
      rw [hdepth, catching_cons] at hdepth₁
      obtain ⟨kind, following⟩ := ctrl
      cases kind with
      | ifWithoutElse elseBlk =>
        cases hs
        obtain ⟨g', t', hclosed'⟩ := hclosed.emptyElse (by rw [hpopped.pc]; exact hpc)
        refine ⟨_, hclosed'.switchTo (by simp) henclosing' ?_ ?_⟩
        · rw [insertJumpToBlock_eq]
          exact ⟨hpopped.pc, hpopped.controlFrames, hpopped.unreachable, hpopped.unreachableDepth⟩
        · rw [insertJumpToBlock_eq]
          exact hdepth₁
      | tryTableWithCatch =>
        cases hs
        exact ⟨_, ClosedIn.switchTo ⟨hclosed.lowered, hclosed.unreachable,
          hclosed.controlFrames, hclosed.code, hclosed.preds, hclosed.nextBlock⟩ (by simp)
          henclosing' ⟨hpopped.pc, hpopped.controlFrames, hpopped.unreachable,
            hpopped.unreachableDepth⟩ (by simp [hdepth₁, isTryCatch])⟩
      | function | loop header | ifWithElse elseBlk | block | tryTable =>
        cases hs
        exact ⟨_, hclosed.switchTo (by simp) henclosing' hpopped hdepth₁⟩

end

end Andsifr.Frontend
