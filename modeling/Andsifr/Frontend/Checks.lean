import Andsifr.Frontend.Opcodes

namespace Andsifr.Frontend

open Wasm Lib.Flow LoweringState

section

variable {c : Compiler} {body : List Instruction} {g : Ghost} {s : LoweringState} {a : Facts}

theorem LoweringState.lowerTerminationCheck_control (s : LoweringState) :
    s.lowerTerminationCheck.controlFrames = s.controlFrames ∧
      s.lowerTerminationCheck.tryTableDepth = s.tryTableDepth ∧
      s.lowerTerminationCheck.unreachable = s.unreachable ∧
      s.lowerTerminationCheck.unreachableDepth = s.unreachableDepth := by
  simp [LoweringState.lowerTerminationCheck]

/-- The check goes on in a block behind the call of the runtime. -/
theorem Grown.lowerTerminationCheck (hs : Sketch c body g s) (hp : Point g s a)
    (hlabel : a.label = false) (hpc : defaultExits body s.pc = false) :
    ∃ g', Grown c body g s g' s.lowerTerminationCheck ∧
      Point g' s.lowerTerminationCheck { a with header := false, checked := true } ∧
      ¬ s.Allocated s.lowerTerminationCheck.current ∧
      s.lowerTerminationCheck.code s.current ≠ [] ∧
      ∀ b ∈ s.lowerTerminationCheck.preds, b ∈ s.preds ∨ s.lowerTerminationCheck.code b ≠ [] ∨
        b = s.lowerTerminationCheck.current := by
  set v : Facts := { a with header := false, checked := true } with hv
  have hok : ∀ {facts : BlockID → Facts} {i : Inst}, v.Allows c body facts i →
      v.Ok c body facts i := fun hi => ⟨by simp [hv, hlabel], by simp [hv], hi⟩
  have hself : v.Enters v := ⟨rfl, rfl, rfl, id⟩
  have h := Grown.refl hs
  obtain ⟨g₂, h₂, hp₂, hslow, hcont, hne⟩ := h.allocate₂ hp v v
  obtain ⟨h₃, hp₃⟩ := h₂.goOn hp₂ (.inl rfl) [.terminationCheck, .brnz s.fresh s.pc,
      .jump s.allocateBasicBlock.fresh s.pc]
    ⟨⟨by simp [hlabel], by simp, trivial⟩, by
      rintro a' ⟨rfl⟩
      refine ⟨hok (hslow.enters hself), ?_⟩
      rintro a' ⟨rfl⟩
      exact ⟨hok (Facts.allows_jump hpc (hcont.enters hself)), by simp [Facts.after]⟩⟩
    (by simpa [Inst.targets] using ⟨⟨_, hslow.toPending⟩, _, hcont.toPending⟩) hslow.toPending
      hslow.new
  have hcont₃ := hcont.goOn hp₂ [.terminationCheck, .brnz s.fresh s.pc,
    .jump s.allocateBasicBlock.fresh s.pc] hne.symm
  obtain ⟨h₄, hp₄⟩ := h₃.goOn hp₃ (.inr hslow.new) [.checkModuleExitCode,
      .jump s.allocateBasicBlock.fresh s.pc]
    ⟨hok trivial, by
      rintro a' ⟨rfl⟩
      exact ⟨hok (Facts.allows_jump hpc (hcont₃.enters hself)), by simp [Facts.after]⟩⟩
    (by simpa [Inst.targets] using ⟨_, hcont₃⟩) hcont₃ hcont.new
  refine ⟨_, h₄, hp₄, hcont.new, ?_, ?_⟩
  · refine code_insertAll_ne_nil ?_
    simp
  · intro b hb
    have hmem : b ∈ s.preds ∨ b = s.fresh ∨ b = s.allocateBasicBlock.fresh := by
      simpa [LoweringState.lowerTerminationCheck, Inst.targets, or_assoc] using hb
    obtain hb | rfl | rfl := hmem
    · exact .inl hb
    · exact .inr (.inl (by simp [LoweringState.lowerTerminationCheck]))
    · exact .inr (.inr rfl)

theorem flows_tailCall {facts : BlockID → Facts} {callee : Callee} {checked : Bool}
    (h : callee = .function c.functionIndex → c.ensureTermination = true →
      c.importFunctionCount = 0 → checked = true) :
    Flows (Facts.Ok c body facts) Facts.after { depth := 0, checked }
      [.tailCall callee, .plain, .ret] :=
  flows_plain_cons ⟨rfl, ⟨rfl, rfl⟩, h⟩ rfl
    (flows_plain_cons trivial rfl ⟨Facts.ok_of_allows rfl, by simp [Facts.after]⟩)

theorem Lowered.lowerTailCallReturnCall (h : Lowered c body g s) (hr : s.unreachable = false)
    (hpc : defaultExits body s.pc = false) (fnIndex : Index) :
    ∃ g', Lowered c body g' (s.lowerTailCallReturnCall c fnIndex) := by
  unfold LoweringState.lowerTailCallReturnCall LoweringState.prepareCall
  by_cases himported : fnIndex < c.importFunctionCount
  · -- a call through the pointer of the import
    simp only [himported, if_true, ne_eq, not_true_eq_false, false_and, if_false,
      insert_eq_insertAll, insertAll_insertAll]
    refine ⟨g, h.closeFunction hr (by simp) (by simp [Inst.targets]) fun checked => ?_⟩
    exact flows_plain_cons trivial rfl (flows_tailCall (by simp))
  simp only [himported, if_false, ne_eq, reduceCtorEq, not_false_eq_true, true_and]
  split
  next hcheck =>
    obtain ⟨checked, hp⟩ := h.point hr
    set leaves : List Inst := List.replicate (catching s.controlFrames) .tryTableLeave
    have hleaves : s.emitTryTableLeaves s.controlFrames.length = s.insertAll leaves := by
      rw [emitTryTableLeaves, tryTableLeaves_length]
    rw [hleaves]
    have h₁ := (Grown.refl h.sketch).insertAll hp (.inl rfl) leaves (flows_leaves le_rfl)
      (by simp [leaves])
    have hp₁ : Point g (s.insertAll leaves) { depth := 0, checked } :=
      hp.insertAll (by rw [exitFacts_leaves, Nat.sub_self])
    obtain ⟨g₂, h₂, hp₂, hnew, hcode, hpreds⟩ :=
      Grown.lowerTerminationCheck h₁.sketch hp₁ rfl hpc
    obtain ⟨hframes, hdepth, -, hskipped⟩ := lowerTerminationCheck_control (s.insertAll leaves)
    generalize LoweringState.lowerTerminationCheck (s.insertAll leaves) = s₂ at *
    have h₃ := (h₁.trans h₂ (.inl rfl)).insertAll hp₂ (.inr hnew)
      [.tailCall (.function fnIndex), .plain, .ret] (flows_tailCall fun _ _ _ => rfl)
      (by simp [Inst.targets])
    refine ⟨g₂, h.extend hr (h₃.congr rfl rfl rfl) hframes hdepth hskipped
      (code_insertAll_ne_nil hcode) (by simp) ?_ (by simp)⟩
    intro b hb
    obtain hb | hb | rfl := hpreds b (by simpa [Inst.targets] using hb)
    · exact .inl (by simpa [leaves] using hb)
    · exact .inr (.inl (code_insertAll_ne_nil hb))
    · exact .inr (.inr (.inr rfl))
  next hcheck =>
    refine ⟨g, h.closeFunction hr (by simp) (by simp [Inst.targets]) fun checked => ?_⟩
    refine flows_tailCall fun hself hterm hzero => absurd ⟨hterm, ?_⟩ hcheck
    simpa [Compiler.functionIndex, hzero] using hself

end

end Andsifr.Frontend
