import Andsifr.Frontend.Grown

namespace Andsifr.Frontend

open Wasm Lib.Flow LoweringState Facts

/-- The code of the current block ends where `depth` handlers are active. -/
def Ghost.At (g : Ghost) (s : LoweringState) (depth : Nat) : Prop :=
  ∃ checked, g.exit s s.current = some { depth, checked } ∧ g.rank s.current ≠ ⊤

/-- The state between two instructions of the source. -/
structure Lowered (c : Compiler) (body : List Instruction) (g : Ghost) (s : LoweringState) :
    Prop where
  sketch : Sketch c body g s
  frames : Frames c g s s.controlFrames
  distinct : (pendingBlocks s.controlFrames).Nodup
  depth : s.tryTableDepth = catching s.controlFrames
  reachable : s.unreachable = false →
    s.unreachableDepth = 0 ∧ g.At s (catching s.controlFrames)
  filled : ∀ b ∈ s.preds,
    s.code b ≠ [] ∨ b ∈ pendingBlocks s.controlFrames ∨ b = s.current
  stopped : s.unreachable = true → s.code s.current ≠ [] ∨ s.current ∉ s.preds

section

variable {c : Compiler} {body : List Instruction} {g g' : Ghost} {s s' : LoweringState}

theorem Lowered.current_notMem (h : Lowered c body g s) (hr : g.rank s.current ≠ ⊤) :
    s.current ∉ pendingBlocks s.controlFrames := by
  intro hmem
  obtain ⟨v, hp⟩ := h.frames.pending_of_mem hmem
  exact hr hp.rank

theorem Lowered.at_ (h : Lowered c body g s) (hr : s.unreachable = false) :
    g.At s (catching s.controlFrames) :=
  (h.reachable hr).2

theorem Lowered.point (h : Lowered c body g s) (hr : s.unreachable = false) :
    ∃ checked, Point g s { depth := catching s.controlFrames, checked } := by
  obtain ⟨checked, hexit, hrank⟩ := h.at_ hr
  exact ⟨checked, hexit, hrank⟩

theorem Lowered.extend (h : Lowered c body g s) (hr : s.unreachable = false)
    (hgrown : Grown c body g s g' s')
    (hframes : s'.controlFrames = s.controlFrames) (hdepth : s'.tryTableDepth = s.tryTableDepth)
    (hunreachable : s'.unreachableDepth = s.unreachableDepth) (hcurrent : s'.code s.current ≠ [])
    (hat : s'.unreachable = false → g'.At s' (catching s.controlFrames))
    (hpreds : ∀ b ∈ s'.preds, b ∈ s.preds ∨ s'.code b ≠ [] ∨
      b ∈ pendingBlocks s.controlFrames ∨ b = s'.current)
    (hstopped : s'.unreachable = true → s'.code s'.current ≠ []) : Lowered c body g' s' := by
  obtain ⟨hzero, checked, hexit, hrank⟩ := h.reachable hr
  refine ⟨hgrown.sketch, ?_, ?_, ?_, ?_, ?_, ?_⟩
  · rw [hframes]
    exact h.frames.extends hgrown.old (h.current_notMem hrank)
  · rw [hframes]
    exact h.distinct
  · rw [hframes, hdepth]
    exact h.depth
  · rw [hframes, hunreachable]
    exact fun hr' => ⟨hzero, hat hr'⟩
  · intro b hb
    rw [hframes]
    obtain hold | hnew := hpreds b hb
    · obtain hcode | hpending | rfl := h.filled b hold
      · exact .inl (hgrown.old.nonempty b hcode)
      · exact .inr (.inl hpending)
      · exact .inl hcurrent
    · exact hnew
  · exact fun hstop => .inl (hstopped hstop)

def jumpCode (c : Compiler) (target : BlockID) (pc : Nat) : List Inst :=
  if c.needListener && target = .returnBlock then [.callListener, .jump target pc]
  else [.jump target pc]

theorem insertJumpToBlock_eq (target : BlockID) :
    s.insertJumpToBlock c target = s.insertAll (jumpCode c target s.pc) := by
  unfold insertJumpToBlock jumpCode
  split <;> rfl

variable {target : BlockID}

@[simp]
theorem flatMap_targets_jumpCode {pc : Nat} :
    (jumpCode c target pc).flatMap Inst.targets = [target] := by
  unfold jumpCode
  split <;> simp [Inst.targets]

theorem jumpCode_ne_nil {pc : Nat} : jumpCode c target pc ≠ [] := by
  unfold jumpCode
  split <;> simp

variable {checked : Bool} {facts : BlockID → Facts} {depth : Nat}

/-- At a point with the given facts the code may go on with an instruction that needs nothing. -/
theorem Facts.ok_of_allows {dirty stale : Set Nat}
    {i : Inst} (h : Facts.Allows c body facts { depth, dirty, stale, checked } i) :
    Facts.Ok c body facts { depth, dirty, stale, checked } i :=
  ⟨by simp, by simp, h⟩

theorem Facts.allows_jump {a : Facts} {pc : Nat}
    (hpc : defaultExits body pc = false) (h : a.Enters (facts target)) :
    a.Allows c body facts (.jump target pc) := by
  simpa [Facts.Allows, hpc] using h

theorem flows_jump_pending {v : Facts} {pc : Nat} (hpc : defaultExits body pc = false)
    (hb : Pending g s target v) (h : Facts.Enters { depth, checked } v) :
    Flows (Facts.Ok c body g.facts) after { depth, checked } [.jump target pc] :=
  ⟨ok_of_allows (allows_jump hpc (hb.enters h)), by simp [after]⟩

theorem flows_jumpCode {pc : Nat}
    (h : Facts.Allows c body facts { depth, checked } (.jump target pc)) :
    Flows (Facts.Ok c body facts) after { depth, checked } (jumpCode c target pc) := by
  unfold jumpCode
  split
  · refine ⟨ok_of_allows trivial, ?_⟩
    rintro a' ⟨rfl⟩
    exact ⟨ok_of_allows h, by simp [after]⟩
  · exact ⟨ok_of_allows h, by simp [after]⟩

theorem flows_leaves {count : Nat} (h : count ≤ depth) :
    Flows (Facts.Ok c body facts) after { depth, checked }
      (List.replicate count .tryTableLeave) := by
  induction count generalizing depth with
  | zero => trivial
  | succ count ih =>
    refine ⟨ok_of_allows ⟨by simp only; omega, rfl, rfl⟩, ?_⟩
    rintro a' ⟨rfl⟩
    exact ih (Nat.le_sub_one_of_lt h)

theorem exitFacts_leaves {count : Nat} :
    exitFacts after { depth, checked } (List.replicate count .tryTableLeave) =
      some { depth := depth - count, checked } := by
  induction count generalizing depth with
  | zero => rfl
  | succ count ih =>
    rw [List.replicate_succ, exitFacts_cons]
    simp only [after, Option.bind_some]
    rw [ih, Nat.sub_sub, Nat.add_comm 1]

def branchCode (c : Compiler) (frames : List ControlFrame) (label : Nat) (target : BlockID)
    (pc : Nat) : List Inst :=
  List.replicate (tryTableLeaves frames label) .tryTableLeave ++ jumpCode c target pc

@[simp]
theorem flatMap_targets_leaves {count : Nat} :
    (List.replicate count Inst.tryTableLeave).flatMap Inst.targets = [] := by
  simp [Inst.targets]

@[simp]
theorem flatMap_targets_branchCode {frames : List ControlFrame} {label pc : Nat} :
    (branchCode c frames label target pc).flatMap Inst.targets = [target] := by
  simp [branchCode]

variable {label : Nat} {ctrl : ControlFrame}

theorem flows_branchCode {frames : List ControlFrame} {pc : Nat}
    (hframes : Frames c g s frames) (hlabel : frames[label]? = some ctrl)
    (hpc : defaultExits body pc = false) :
    Flows (Facts.Ok c body g.facts) after { depth := catching frames, checked }
      (branchCode c frames label ctrl.target pc) := by
  obtain ⟨-, hdepth, hclean, hchecked, -⟩ := (hframes.get hlabel).target
  have hsplit := catching_take_add_drop frames (label + 1)
  rw [branchCode, flows_append, tryTableLeaves_eq]
  refine ⟨flows_leaves (by omega), fun a' ha' => ?_⟩
  rw [exitFacts_leaves] at ha'
  cases ha'
  refine flows_jumpCode (allows_jump hpc ⟨?_, hclean.1, hclean.2, by simp [hchecked]⟩)
  simp only [hdepth]
  omega

theorem Frames.fresh_notMem {frames : List ControlFrame} (h : Frames c g s frames) :
    s.fresh ∉ pendingBlocks frames := by
  intro hmem
  obtain ⟨v, hp⟩ := h.pending_of_mem hmem
  exact not_allocated_fresh hp.allocated

/-- A new block that is made current at once. -/
def Ghost.enter (g : Ghost) (b : BlockID) (v : Facts) : Ghost :=
  (g.setFacts b v).openBlock b

variable {code : List Inst}

theorem trampoline_eq : s.trampoline c code label target =
      ((s.allocateBasicBlock.setCurrentBlock s.fresh).insertAll
        (code ++ branchCode c s.controlFrames label target s.pc)).setCurrentBlock s.current := by
  rw [trampoline, insertJumpToBlock_eq, emitTryTableLeaves,
    insertAll_insertAll, insertAll_insertAll, branchCode]
  rfl

end

end Andsifr.Frontend
