import Andsifr.Frontend.Sketch

namespace Andsifr.Frontend

open Wasm Lib.Flow List

/-- The number of handlers that are active inside the frames. -/
def catching (frames : List ControlFrame) : Nat :=
  frames.countP (·.isTryCatch)

def ControlFrame.construct (ctrl : ControlFrame) : Construct :=
  ⟨ctrl.isLoop, ctrl.isTryCatch⟩

/-- The blocks of a frame that have not been current yet. -/
def ControlFrame.pending (ctrl : ControlFrame) : List BlockID :=
  match ctrl.kind with
  | .ifWithoutElse elseBlk => [elseBlk, ctrl.followingBlock]
  | _ => [ctrl.followingBlock]

def pendingBlocks (frames : List ControlFrame) : List BlockID :=
  frames.flatMap ControlFrame.pending

/-- The block is still empty, and the facts it is going to be entered with are known. -/
structure Pending (g : Ghost) (s : LoweringState) (b : BlockID) (v : Facts) : Prop where
  facts : g.facts b = v
  code : s.code b = []
  rank : g.rank b = ⊤
  allocated : s.Allocated b

/-- The facts at the block behind a construct. -/
def followingFacts (b : BlockID) (depth : Nat) : Facts :=
  { depth, label := decide (b ≠ .returnBlock) }

def headerFacts (c : Compiler) (depth : Nat) : Facts :=
  { depth, label := true, header := c.ensureTermination }

/-- The blocks of a frame, when `depth` handlers are active outside of it. -/
structure FrameOk (c : Compiler) (g : Ghost) (s : LoweringState) (ctrl : ControlFrame)
    (depth : Nat) : Prop where
  following : Pending g s ctrl.followingBlock (followingFacts ctrl.followingBlock depth)
  elseBlk : ∀ b, ctrl.kind = .ifWithoutElse b → Pending g s b { depth }
  header : ∀ b, ctrl.kind = .loop b →
    s.Allocated b ∧ s.code b ≠ [] ∧ g.facts b = headerFacts c depth

def Frames (c : Compiler) (g : Ghost) (s : LoweringState) : List ControlFrame → Prop
  | [] => True
  | ctrl :: frames => FrameOk c g s ctrl (catching frames) ∧ Frames c g s frames

section

variable {c : Compiler} {body : List Instruction} {g g' : Ghost} {s s' : LoweringState}
  {ctrl : ControlFrame} {frames : List ControlFrame}

theorem pendingBlocks_cons :
    pendingBlocks (ctrl :: frames) = ctrl.pending ++ pendingBlocks frames :=
  rfl

theorem catching_cons :
    catching (ctrl :: frames) = catching frames + if ctrl.isTryCatch then 1 else 0 := by
  simp [catching, countP_cons]

theorem ControlFrame.isLoop_eq_false_of_isTryCatch (h : ctrl.isTryCatch = true) :
    ctrl.isLoop = false := by
  unfold ControlFrame.isTryCatch at h
  unfold ControlFrame.isLoop
  split at h <;> simp_all

theorem tryTableLeaves_eq (depth : Nat) :
    tryTableLeaves frames depth = catching (frames.take (depth + 1)) := by
  rw [tryTableLeaves, catching, take_add_one]
  cases hf : frames[depth]? with
  | none => simp
  | some cf =>
    by_cases hcatch : cf.isTryCatch = true
    · simp [hcatch, ControlFrame.isLoop_eq_false_of_isTryCatch hcatch]
    · simp [hcatch]

theorem branchExitsTryTable_iff (depth : Nat) :
    s.branchExitsTryTable depth = true ↔ 0 < tryTableLeaves s.controlFrames depth := by
  rw [LoweringState.branchExitsTryTable, tryTableLeaves]
  have hcount := countP_pos_iff (p := ControlFrame.isTryCatch) (l := s.controlFrames.take depth)
  cases s.controlFrames[depth]? with
  | none => simp [hcount]
  | some cf =>
    by_cases hcatch : cf.isTryCatch = true
    · simp [hcatch, ControlFrame.isLoop_eq_false_of_isTryCatch hcatch]
    · simp [hcatch, hcount]

theorem catching_take_add_drop (frames : List ControlFrame) (n : Nat) :
    catching (frames.take n) + catching (frames.drop n) = catching frames := by
  rw [catching, catching, ← countP_append, take_append_drop, catching]

theorem Frames.get {l : Nat} (h : Frames c g s frames) (hl : frames[l]? = some ctrl) :
    FrameOk c g s ctrl (catching (frames.drop (l + 1))) := by
  induction frames generalizing l with
  | nil => simp at hl
  | cons f fs ih =>
    cases l with
    | zero =>
      obtain rfl : f = ctrl := by simpa using hl
      exact h.1
    | succ l => exact ih h.2 (by simpa using hl)

theorem followingBlock_mem_pending : ctrl.followingBlock ∈ ctrl.pending := by
  unfold ControlFrame.pending
  split <;> simp

theorem mem_pendingBlocks_of_getElem? {l : Nat} (hl : frames[l]? = some ctrl) {b : BlockID}
    (hb : b ∈ ctrl.pending) : b ∈ pendingBlocks frames :=
  mem_flatMap.2 ⟨ctrl, mem_of_getElem? hl, hb⟩

theorem FrameOk.pending_of_mem {depth : Nat} (h : FrameOk c g s ctrl depth) {b : BlockID}
    (hb : b ∈ ctrl.pending) : ∃ v, Pending g s b v := by
  unfold ControlFrame.pending at hb
  split at hb
  next elseBlk hkind =>
    obtain rfl | rfl : b = elseBlk ∨ b = ctrl.followingBlock := by simpa using hb
    · exact ⟨_, h.elseBlk b hkind⟩
    · exact ⟨_, h.following⟩
  next =>
    obtain rfl : b = ctrl.followingBlock := by simpa using hb
    exact ⟨_, h.following⟩

theorem Frames.pending_of_mem (h : Frames c g s frames) {b : BlockID}
    (hb : b ∈ pendingBlocks frames) : ∃ v, Pending g s b v := by
  obtain ⟨ctrl, hctrl, hb⟩ := mem_flatMap.1 hb
  obtain ⟨l, hl⟩ := getElem?_of_mem hctrl
  exact (h.get hl).pending_of_mem hb

theorem FrameOk.target {depth : Nat} (h : FrameOk c g s ctrl depth) :
    s.Allocated ctrl.target ∧ (g.facts ctrl.target).depth = depth ∧
      (g.facts ctrl.target).Clean ∧ (g.facts ctrl.target).checked = false ∧
      ((g.facts ctrl.target).label = true ∨ ctrl.target = .returnBlock) ∧
      (g.rank ctrl.target = ⊤ ∨ (g.facts ctrl.target).header = c.ensureTermination) ∧
      (s.code ctrl.target ≠ [] ∨ ctrl.target ∈ ctrl.pending) := by
  unfold ControlFrame.target
  split
  next header hkind =>
    obtain ⟨hallocated, hcode, hfacts⟩ := h.header header hkind
    rw [hfacts]
    exact ⟨hallocated, rfl, ⟨rfl, rfl⟩, rfl, .inl rfl, .inr rfl, .inl hcode⟩
  have hp := h.following
  rw [hp.facts]
  refine ⟨hp.allocated, rfl, ⟨rfl, rfl⟩, rfl, ?_, .inl hp.rank, .inr followingBlock_mem_pending⟩
  by_cases hr : ctrl.followingBlock = .returnBlock
  · exact .inr hr
  · exact .inl (by simp [followingFacts, hr])

section

variable {current : BlockID}

theorem Pending.extends {b : BlockID} {v : Facts} (h : Pending g s b v)
    (he : Extends s.Allocated current g s g' s') (hb : b ≠ current) : Pending g' s' b v where
  facts := (he.facts b h.allocated).trans h.facts
  code := (he.code b h.allocated hb).trans h.code
  rank := (he.rank b h.allocated).trans h.rank
  allocated := he.allocated h.allocated

theorem FrameOk.extends {depth : Nat} (h : FrameOk c g s ctrl depth)
    (he : Extends s.Allocated current g s g' s') (hb : current ∉ ctrl.pending) :
    FrameOk c g' s' ctrl depth where
  following := h.following.extends he fun heq => hb (heq ▸ followingBlock_mem_pending)
  elseBlk b hkind := (h.elseBlk b hkind).extends he fun heq =>
    hb (by simp [ControlFrame.pending, hkind, ← heq])
  header b hkind := by
    obtain ⟨hallocated, hcode, hfacts⟩ := h.header b hkind
    exact ⟨he.allocated hallocated, he.nonempty b hcode, (he.facts b hallocated).trans hfacts⟩

theorem Frames.extends (h : Frames c g s frames)
    (he : Extends s.Allocated current g s g' s') (hb : current ∉ pendingBlocks frames) :
    Frames c g' s' frames := by
  induction frames with
  | nil => trivial
  | cons ctrl frames ih =>
    rw [pendingBlocks_cons, mem_append, not_or] at hb
    exact ⟨h.1.extends he hb.1, ih h.2 hb.2⟩

end

end

end Andsifr.Frontend
