import Andsifr.Frontend.Frames

namespace Andsifr.Frontend

open Wasm Option LoweringState List

/-- What the lowering of an instruction without blocks of its own leaves alone. -/
structure Keeps (s s' : LoweringState) : Prop where
  pc : s'.pc = s.pc
  controlFrames : s'.controlFrames = s.controlFrames
  unreachableDepth : s'.unreachableDepth = s.unreachableDepth

namespace Keeps

variable {c : Compiler} {s s' s'' : LoweringState}

theorem refl : Keeps s s :=
  ⟨rfl, rfl, rfl⟩

theorem trans (h : Keeps s s') (h' : Keeps s' s'') : Keeps s s'' :=
  ⟨h'.pc.trans h.pc, h'.controlFrames.trans h.controlFrames,
    h'.unreachableDepth.trans h.unreachableDepth⟩

theorem insertAll (is : List Inst) : Keeps s (s.insertAll is) :=
  ⟨rfl, rfl, rfl⟩

theorem setUnreachable : Keeps s s.setUnreachable :=
  ⟨rfl, rfl, rfl⟩

theorem setCurrentBlock (b : BlockID) : Keeps s (s.setCurrentBlock b) :=
  ⟨rfl, rfl, rfl⟩

theorem allocateBasicBlock : Keeps s s.allocateBasicBlock :=
  ⟨rfl, rfl, rfl⟩

theorem insertJumpToBlock (target : BlockID) : Keeps s (s.insertJumpToBlock c target) := by
  unfold LoweringState.insertJumpToBlock
  split <;> exact ⟨rfl, rfl, rfl⟩

theorem switchTo (target : BlockID) : Keeps s (s.switchTo target) := by
  unfold LoweringState.switchTo
  split <;> exact ⟨rfl, rfl, rfl⟩

theorem lowerTerminationCheck : Keeps s s.lowerTerminationCheck := by
  constructor <;> simp [LoweringState.lowerTerminationCheck]

theorem trampoline (code : List Inst) (label : Nat) (target : BlockID) :
    Keeps s (s.trampoline c code label target) :=
  (((allocateBasicBlock.trans (setCurrentBlock _)).trans ((insertAll code).trans
    (insertAll _))).trans (insertJumpToBlock target)).trans (setCurrentBlock _)

variable {labels : List Nat}

theorem trampolines {code : List Inst} {blocks : List BlockID}
    (h : s.trampolines c code labels = some (s', blocks)) : Keeps s s' := by
  induction labels generalizing s s' blocks with
  | nil =>
    cases h
    exact refl
  | cons label labels ih =>
    obtain ⟨target, -, h⟩ := bind_eq_some_iff.1 h
    obtain ⟨⟨s₂, rest⟩, hrest, h⟩ := bind_eq_some_iff.1 h
    cases h
    exact (trampoline code label target).trans (ih hrest)

theorem branchBlock (label : Nat) (target : BlockID) :
    Keeps s (s.branchBlock c label target).1 := by
  unfold LoweringState.branchBlock
  split
  next => exact trampoline [] label target
  split
  next => exact ⟨rfl, rfl, rfl⟩
  next => exact refl

theorem lowerConditionalBranch {label : Nat} (h : s.lowerConditionalBranch c label = some s') :
    Keeps s s' := by
  obtain ⟨target, -, h⟩ := bind_eq_some_iff.1 h
  cases h
  exact (branchBlock label target).trans ((insertAll _).trans
    (allocateBasicBlock.trans ((insertAll _).trans (setCurrentBlock _))))

theorem lowerBrTable (h : s.lowerBrTable c labels = some s') : Keeps s s' := by
  obtain ⟨⟨s₁, blocks⟩, htrampolines, h⟩ := bind_eq_some_iff.1 h
  cases h
  exact (trampolines htrampolines).trans (insertAll _)

theorem lowerBrTableOpcode {defaultLabel : Nat}
    (h : s.lowerBrTableOpcode c labels defaultLabel = some s') : Keeps s s' := by
  unfold LoweringState.lowerBrTableOpcode at h
  split at h
  next =>
    obtain ⟨target, -, h⟩ := bind_eq_some_iff.1 h
    cases h
    exact (insertJumpToBlock target).trans setUnreachable
  obtain ⟨s₁, hs₁, h⟩ := bind_eq_some_iff.1 h
  cases h
  exact (lowerBrTable hs₁).trans setUnreachable

theorem lowerBr {label : Nat} (h : s.lowerBr c label = some s') : Keeps s s' := by
  obtain ⟨target, -, h⟩ := bind_eq_some_iff.1 h
  cases h
  exact ((insertAll _).trans (insertJumpToBlock target)).trans setUnreachable

theorem prepareCall (fnIndex : Index) : Keeps s (s.prepareCall c fnIndex).1 := by
  unfold LoweringState.prepareCall
  split <;> exact ⟨rfl, rfl, rfl⟩

theorem lowerTailCallReturnCall (fnIndex : Index) :
    Keeps s (s.lowerTailCallReturnCall c fnIndex) := by
  have hprepared : Keeps s ((s.emitTryTableLeaves s.controlFrames.length).prepareCall c
    fnIndex).1 :=
    (insertAll _).trans (prepareCall fnIndex)
  dsimp only [LoweringState.lowerTailCallReturnCall]
  split
  next => exact (hprepared.trans lowerTerminationCheck).trans ((insertAll _).trans setUnreachable)
  next => exact hprepared.trans ((insertAll _).trans setUnreachable)

theorem lowerReturn : Keeps s (s.lowerReturn c) := by
  unfold LoweringState.lowerReturn
  cases c.needListener <;> exact ⟨rfl, rfl, rfl⟩

theorem lowerLocalSet (index : Index) : Keeps s (s.lowerLocalSet index) := by
  unfold LoweringState.lowerLocalSet
  split <;> exact ⟨rfl, rfl, rfl⟩

theorem lowerFill : Keeps s s.lowerFill := by
  constructor <;> simp [LoweringState.lowerFill]

theorem lowerPlain {op : Instruction} (h : s.lowerPlain c op = some s') : Keeps s s' := by
  cases op with
  | br label => exact lowerBr h
  | brIf label => exact lowerConditionalBranch h
  | brOnNull label | brOnNonNull label => exact (insertAll _).trans (lowerConditionalBranch h)
  | brTable labels defaultLabel => exact lowerBrTableOpcode h
  | returnOp =>
    cases h
    exact lowerReturn
  | call fnIndex =>
    cases h
    exact (prepareCall fnIndex).trans (insertAll _)
  | returnCall fnIndex =>
    cases h
    exact lowerTailCallReturnCall fnIndex
  | localSet index | localTee index =>
    cases h
    exact lowerLocalSet index
  | memoryFill | tableFill _ =>
    cases h
    exact lowerFill
  | _ =>
    cases h
    exact ⟨rfl, rfl, rfl⟩

end Keeps

section

variable {c : Compiler} {body : List Instruction} {s s' : LoweringState} {op : Instruction}

theorem nesting_succ {pc : Nat} (h : body[pc]? = some op) :
    nesting body (pc + 1) = nestingStep (nesting body pc) op := by
  rw [nesting, take_add_one, h, foldl_append]
  rfl

/-- The control frames are the constructs around the instruction, without the blocks that were
opened in unreachable code. -/
def Nests (body : List Instruction) (s : LoweringState) : Prop :=
  ∃ inner : List Construct, inner.length = s.unreachableDepth ∧
    nesting body s.pc = inner ++ s.controlFrames.map ControlFrame.construct

theorem Nests.nesting_eq (h : Nests body s) (hdepth : s.unreachableDepth = 0) :
    nesting body s.pc = s.controlFrames.map ControlFrame.construct := by
  obtain ⟨inner, hinner, hnesting⟩ := h
  rw [hdepth, length_eq_zero_iff] at hinner
  rw [hnesting, hinner, nil_append]

theorem enclosing_eq_catching {pc : Nat} {frames : List ControlFrame}
    (h : nesting body pc = frames.map ControlFrame.construct) :
    enclosing body pc = catching frames := by
  rw [enclosing, h, countP_map]
  rfl

structure Opened (construct : Construct) (s s' : LoweringState) : Prop where
  pc : s'.pc = s.pc
  controlFrames : s'.controlFrames.map ControlFrame.construct =
    construct :: s.controlFrames.map ControlFrame.construct
  unreachableDepth : s'.unreachableDepth = s.unreachableDepth

namespace Opened

variable {construct : Construct} {s'' : LoweringState}

theorem ctrlPush {ctrl : ControlFrame} (h : ctrl.construct = construct) :
    Opened construct s (s.ctrlPush ctrl) :=
  ⟨rfl, by simp [h], rfl⟩

theorem keeps (h : Opened construct s s') (h' : Keeps s' s'') : Opened construct s s'' :=
  ⟨h'.pc.trans h.pc, by rw [h'.controlFrames, h.controlFrames],
    h'.unreachableDepth.trans h.unreachableDepth⟩

theorem of_keeps (h : Keeps s s') (h' : Opened construct s' s'') : Opened construct s s'' :=
  ⟨h'.pc.trans h.pc, by rw [h'.controlFrames, h.controlFrames],
    h'.unreachableDepth.trans h.unreachableDepth⟩

theorem lowerLoop : Opened ⟨true, false⟩ s (s.lowerLoop c) := by
  have hheader : Opened ⟨true, false⟩ s (((s.allocateBasicBlock.allocateBasicBlock.ctrlPush
      ⟨.loop s.fresh, s.allocateBasicBlock.fresh⟩).insert (.jump s.fresh s.pc)).switchTo
        s.fresh) := by
    refine keeps (of_keeps (Keeps.allocateBasicBlock.trans .allocateBasicBlock) (ctrlPush ?_))
      ((Keeps.insertAll _).trans (.switchTo _))
    rfl
  simp only [LoweringState.lowerLoop, ctrlPush_pc, allocateBasicBlock_pc]
  split
  next => exact hheader.keeps .lowerTerminationCheck
  next => exact hheader

theorem lowerIf : Opened ⟨false, false⟩ s s.lowerIf := by
  refine keeps (of_keeps (((Keeps.allocateBasicBlock.trans .allocateBasicBlock).trans
    .allocateBasicBlock).trans (.insertAll _)) (ctrlPush ?_)) (.setCurrentBlock _)
  rfl

theorem lowerTryTable {catches : List CatchClause} (h : s.lowerTryTable c catches = some s') :
    Opened ⟨false, catches ≠ []⟩ s s' := by
  have hblocks : Keeps s s.allocateBasicBlock.allocateBasicBlock :=
    Keeps.allocateBasicBlock.trans .allocateBasicBlock
  unfold LoweringState.lowerTryTable at h
  split at h
  next hcatches =>
    cases h
    subst hcatches
    exact of_keeps ((hblocks.trans (.insertJumpToBlock _)).trans (.setCurrentBlock _))
      (ctrlPush rfl)
  next hcatches =>
    obtain ⟨⟨s₁, handlers⟩, htrampolines, h⟩ := bind_eq_some_iff.1 h
    cases h
    have hbefore : Keeps s s₁ := (hblocks.trans (.insertAll _)).trans (.trampolines htrampolines)
    simp only [hcatches, ne_eq, not_false_eq_true, decide_true]
    exact of_keeps hbefore ⟨rfl, rfl, rfl⟩

end Opened

section

variable (h : Nests body s)

include h

theorem Nests.of_opened {construct : Construct}
    (hdepth : s.unreachableDepth = 0) (hopened : Opened construct s s')
    (hnesting : nesting body (s.pc + 1) = construct :: nesting body s.pc) :
    s'.pc = s.pc ∧ Nests body { s' with pc := s'.pc + 1 } := by
  refine ⟨hopened.pc, [], by simp [hopened.unreachableDepth, hdepth], ?_⟩
  simp only [hopened.pc, hopened.controlFrames, nil_append]
  rw [hnesting, h.nesting_eq hdepth]

theorem Nests.of_skipped {construct : Construct}
    (hnesting : nesting body (s.pc + 1) = construct :: nesting body s.pc) :
    Nests body { s with pc := s.pc + 1, unreachableDepth := s.unreachableDepth + 1 } := by
  obtain ⟨inner, hinner, heq⟩ := h
  exact ⟨construct :: inner, by simp [hinner], by simp [hnesting, heq]⟩

theorem Nests.of_keeps (hkeeps : Keeps s s')
    (hnesting : nesting body (s.pc + 1) = nesting body s.pc) :
    s'.pc = s.pc ∧ Nests body { s' with pc := s'.pc + 1 } := by
  obtain ⟨inner, hinner, heq⟩ := h
  refine ⟨hkeeps.pc, inner, by simp [hkeeps.unreachableDepth, hinner], ?_⟩
  simp only [hkeeps.pc, hkeeps.controlFrames, hnesting, heq]

theorem Nests.lowerOpen (hop : body[s.pc]? = some op)
    (hdepth : s.unreachableDepth = 0) (hs : s.lowerOpen c op = some s') :
    s'.pc = s.pc ∧ Nests body { s' with pc := s'.pc + 1 } := by
  have hnesting := nesting_succ hop
  cases op with
  | block type =>
    cases hs
    exact h.of_opened hdepth (Opened.of_keeps .allocateBasicBlock (.ctrlPush rfl)) hnesting
  | loop type =>
    cases hs
    exact h.of_opened hdepth .lowerLoop hnesting
  | ifOp type =>
    cases hs
    exact h.of_opened hdepth .lowerIf hnesting
  | tryTable type catches => exact h.of_opened hdepth (.lowerTryTable hs) hnesting
  | _ => cases hs

theorem Nests.lowerElse (hop : body[s.pc]? = some .elseOp)
    (hs : s.lowerElse c = some s') : s'.pc = s.pc ∧ Nests body { s' with pc := s'.pc + 1 } := by
  have hnesting := nesting_succ hop
  unfold LoweringState.lowerElse at hs
  split at hs
  next =>
    cases hs
    exact h.of_keeps .refl hnesting
  split at hs
  next elseBlk following frames hframes =>
    cases hs
    have hkeeps : Keeps s (if s.unreachable then { s with unreachable := false }
        else s.insertJumpToBlock c following) := by
      split
      next => exact ⟨rfl, rfl, rfl⟩
      next => exact .insertJumpToBlock _
    obtain ⟨inner, hinner, heq⟩ := h
    refine ⟨hkeeps.pc, inner, hinner.trans hkeeps.unreachableDepth.symm, ?_⟩
    rw [hframes] at heq
    exact ((congrArg (nesting body ·.succ) hkeeps.pc).trans hnesting).trans heq
  next => cases hs

theorem Nests.lowerEnd (hop : body[s.pc]? = some .endOp)
    (hs : s.lowerEnd c = some s') : s'.pc = s.pc ∧ Nests body { s' with pc := s'.pc + 1 } := by
  have hnesting : nesting body (s.pc + 1) = (nesting body s.pc).tail := nesting_succ hop
  obtain ⟨inner, hinner, heq⟩ := h
  unfold LoweringState.lowerEnd at hs
  split at hs
  next hskip =>
    cases hs
    cases inner with
    | nil => simp at hinner; omega
    | cons construct inner =>
      refine ⟨rfl, inner, ?_, by simpa [heq] using hnesting⟩
      simp [← hinner]
  next hskip =>
    obtain rfl : inner = [] := by
      rw [← length_eq_zero_iff]
      omega
    split at hs
    next => cases hs
    next ctrl frames hframes =>
      rw [some_inj] at hs
      rw [hframes] at heq
      have hpopped : Keeps { s with controlFrames := frames }
          ({ s with controlFrames := frames }.leaveFrame c ctrl) := by
        unfold leaveFrame
        split
        next => exact ⟨rfl, rfl, rfl⟩
        split
        next => exact (Keeps.insertAll _).trans (.insertJumpToBlock _)
        next => exact .insertJumpToBlock _
      have hkeeps : Keeps { s with controlFrames := frames } s' := by
        rw [← hs]
        refine Keeps.trans (hpopped.trans ?_) (.switchTo _)
        split
        next => exact (Keeps.setCurrentBlock _).trans (.insertJumpToBlock _)
        next => exact ⟨rfl, rfl, rfl⟩
        next => exact .refl
      refine ⟨hkeeps.pc, [], hinner.trans hkeeps.unreachableDepth.symm, ?_⟩
      rw [hkeeps.pc, hkeeps.controlFrames, hnesting, heq]
      rfl

end

def LoweringState.mark (s : LoweringState) : LoweringState :=
  if s.unreachable then s else s.insert (.sourceOffset s.pc)

theorem Keeps.mark : Keeps s s.mark := by
  unfold LoweringState.mark
  split
  next => exact .refl
  next => exact .insertAll _

theorem Nests.mark (h : Nests body s) : Nests body s.mark := by
  obtain ⟨inner, hinner, heq⟩ := h
  exact ⟨inner, hinner.trans Keeps.mark.unreachableDepth.symm,
    by rw [Keeps.mark.pc, Keeps.mark.controlFrames, heq]⟩

theorem LoweringState.mark_unreachable : s.mark.unreachable = s.unreachable := by
  unfold LoweringState.mark
  split <;> rfl

theorem Nests.lowerCurrentOpcode (h : Nests body s) (hop : body[s.pc]? = some op)
    (hreachable : s.unreachable = false → s.unreachableDepth = 0)
    (hs : s.lowerCurrentOpcode c op = some s') :
    s'.pc = s.pc ∧ Nests body { s' with pc := s'.pc + 1 } := by
  have hmark := h.mark
  have hpc : s.mark.pc = s.pc := Keeps.mark.pc
  have hop' : body[s.mark.pc]? = some op := by rwa [hpc]
  rw [← hpc]
  have hopen : (if s.mark.unreachable then
        some { s.mark with unreachableDepth := s.mark.unreachableDepth + 1 }
      else s.mark.lowerOpen c op) = some s' →
      (∃ construct, ∀ l, nestingStep l op = construct :: l) →
      s'.pc = s.mark.pc ∧ Nests body { s' with pc := s'.pc + 1 } := by
    intro hs ⟨construct, hstep⟩
    split at hs
    next hu =>
      cases hs
      exact ⟨rfl, hmark.of_skipped ((nesting_succ hop').trans (hstep _))⟩
    next hu =>
      refine hmark.lowerOpen hop' ?_ hs
      rw [Keeps.mark.unreachableDepth]
      rw [mark_unreachable, Bool.not_eq_true] at hu
      exact hreachable hu
  cases op with
  | block type | loop type | ifOp type | tryTable type catches =>
    exact hopen hs ⟨_, fun l => rfl⟩
  | elseOp => exact hmark.lowerElse hop' hs
  | endOp => exact hmark.lowerEnd hop' hs
  | _ =>
    refine hmark.of_keeps ?_ (nesting_succ hop')
    change (if s.mark.unreachable then some s.mark else s.mark.lowerPlain c _) = some s' at hs
    split at hs
    next =>
      cases hs
      exact .refl
    next => exact .lowerPlain hs

end

end Andsifr.Frontend
