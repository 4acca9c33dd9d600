import Andsifr.Frontend.Frames

namespace Andsifr.Frontend

open Wasm Lib.Flow

section

variable {c : Compiler} {body : List Instruction} {g g₀ : Ghost} {s s₀ s' : LoweringState}
  {b b' : BlockID} {v a : Facts}

theorem LoweringState.allocated_fresh : s.allocateBasicBlock.Allocated s.fresh :=
  LoweringState.allocated_allocateBasicBlock.2 (.inr rfl)

/-- The current block, open at a point with the facts `a`. -/
structure Point (g : Ghost) (s : LoweringState) (a : Facts) : Prop where
  exit : g.exit s s.current = some a
  rank : g.rank s.current ≠ ⊤

namespace Pending

theorem fresh (h : Sketch c body g s) (v : Facts) :
    Pending (g.setFacts s.fresh v) s.allocateBasicBlock s.fresh v where
  facts := by simp
  code := h.code_unallocated _ LoweringState.not_allocated_fresh
  rank := h.rank_unallocated _ LoweringState.not_allocated_fresh
  allocated := LoweringState.allocated_fresh

section

variable (h : Pending g s b v)

include h

theorem allocate (w : Facts) : Pending (g.setFacts s.fresh w) s.allocateBasicBlock b v where
  facts := by
    rw [Ghost.facts_setFacts, Function.update_of_ne h.allocated.ne_fresh]
    exact h.facts
  code := h.code
  rank := h.rank
  allocated := LoweringState.allocated_allocateBasicBlock.2 (.inl h.allocated)

theorem ne_current (hp : Point g s a) : b ≠ s.current := by
  rintro rfl
  exact hp.rank h.rank

theorem insertAll (hp : Point g s a) (is : List Inst) : Pending g (s.insertAll is) b v where
  facts := h.facts
  code := by
    rw [LoweringState.insertAll_code, Function.update_of_ne (h.ne_current hp)]
    exact h.code
  rank := h.rank
  allocated := h.allocated

theorem openBlock (hne : b ≠ b') : Pending (g.openBlock b') (s.setCurrentBlock b') b v where
  facts := h.facts
  code := h.code
  rank := by
    rw [Ghost.rank_openBlock, Function.update_of_ne hne]
    exact h.rank
  allocated := h.allocated

theorem target (hp : Point g s a) {code : BlockID → List Inst} :
    s.Allocated b ∧ (c.ensureTermination = true → g.Forward code s.current b) :=
  ⟨h.allocated, fun _ => .inl (h.rank ▸ lt_top_iff_ne_top.2 hp.rank)⟩

/-- Another block goes on behind the current one. -/
theorem goOn (hp : Point g s a) (is : List Inst) (hne : b ≠ b') :
    Pending (g.openBlock b') ((s.insertAll is).setCurrentBlock b') b v :=
  (h.insertAll hp is).openBlock hne

theorem enters (he : a.Enters v) : a.Enters (g.facts b) := by
  rw [h.facts]
  exact he

theorem point : Point (g.openBlock b) (s.setCurrentBlock b) v where
  exit := by
    have hcode : (s.setCurrentBlock b).code b = [] := h.code
    rw [Ghost.exit, LoweringState.setCurrentBlock_current, hcode, Ghost.facts_openBlock, h.facts]
    rfl
  rank := by simp

end

end Pending

theorem Point.allocate (h : Point g s a) (hs : Sketch c body g s) (v : Facts) :
    Point (g.setFacts s.fresh v) s.allocateBasicBlock a where
  exit := by
    have hne : s.current ≠ s.fresh := (hs.allocated_of_rank h.rank).ne_fresh
    simpa [Ghost.exit, Function.update_of_ne hne] using h.exit
  rank := h.rank

/-- What has been emitted since the state `s₀`, in new blocks and in the block that was current. -/
structure Grown (c : Compiler) (body : List Instruction) (g₀ : Ghost) (s₀ : LoweringState)
    (g : Ghost) (s : LoweringState) : Prop where
  sketch : Sketch c body g s
  old : Extends s₀.Allocated s₀.current g₀ s₀ g s

namespace Grown

theorem refl (h : Sketch c body g s) : Grown c body g s g s :=
  ⟨h, Extends.refl⟩

section

variable (h : Grown c body g₀ s₀ g s)

include h

theorem trans {g' : Ghost} {s' : LoweringState}
    (h' : Grown c body g s g' s') (hcur : s.current = s₀.current ∨ ¬ s₀.Allocated s.current) :
    Grown c body g₀ s₀ g' s' :=
  ⟨h'.sketch, h.old.trans (h'.old.weaken (fun _ hb => h.old.allocated hb) hcur)⟩

theorem not_allocated_fresh : ¬ s₀.Allocated s.fresh :=
  fun hb => LoweringState.not_allocated_fresh (h.old.allocated hb)

theorem allocate (v : Facts) : Grown c body g₀ s₀ (g.setFacts s.fresh v) s.allocateBasicBlock :=
  ⟨h.sketch.allocateBasicBlock v, (h.old.trans (Extends.setFacts h.not_allocated_fresh)).trans
    (Extends.of_code_eq rfl (Nat.le_succ _))⟩

theorem insertAll (hp : Point g s a)
    (hcur : s.current = s₀.current ∨ ¬ s₀.Allocated s.current) (is : List Inst)
    (hflow : Flows (Facts.Ok c body g.facts) Facts.after a is)
    (htargets : ∀ target ∈ is.flatMap Inst.targets, s.Allocated target ∧
      (c.ensureTermination = true → g.Forward (s.insertAll is).code s.current target)) :
    Grown c body g₀ s₀ g (s.insertAll is) :=
  ⟨h.sketch.insertAll hp.exit hp.rank hflow htargets, h.old.trans (Extends.insertAll hcur)⟩

theorem openBlock (hb : Pending g s b v) (hnew : ¬ s₀.Allocated b) :
    Grown c body g₀ s₀ (g.openBlock b) (s.setCurrentBlock b) :=
  ⟨h.sketch.openBlock hb.rank hb.allocated, (h.old.trans (Extends.openBlock hnew)).trans
    (Extends.of_code_eq rfl le_rfl)⟩

/-- The current block ends with branches to blocks that have not been current, one of which goes
on. -/
theorem goOn (hp : Point g s a) (hcur : s.current = s₀.current ∨ ¬ s₀.Allocated s.current)
    (is : List Inst) (hflow : Flows (Facts.Ok c body g.facts) Facts.after a is)
    (htargets : ∀ target ∈ is.flatMap Inst.targets, ∃ w, Pending g s target w)
    (hb : Pending g s b v) (hnew : ¬ s₀.Allocated b) :
    Grown c body g₀ s₀ (g.openBlock b) ((s.insertAll is).setCurrentBlock b) ∧
      Point (g.openBlock b) ((s.insertAll is).setCurrentBlock b) v := by
  have hclosed := h.insertAll hp hcur is hflow fun target htarget => by
    obtain ⟨w, hw⟩ := htargets target htarget
    exact hw.target hp
  have hb' := hb.insertAll hp is
  exact ⟨hclosed.openBlock hb' hnew, hb'.point⟩

end

end Grown

theorem Point.insertAll (h : Point g s a) {is : List Inst}
    (hexit : exitFacts Facts.after a is = some v) : Point g (s.insertAll is) v :=
  ⟨(Ghost.exit_insertAll h.exit).trans hexit, h.rank⟩

theorem Grown.congr (h : Grown c body g₀ s₀ g s) (hcode : s'.code = s.code)
    (hpreds : s'.preds = s.preds) (hnext : s'.nextBlock = s.nextBlock) :
    Grown c body g₀ s₀ g s' :=
  ⟨h.sketch.congr hcode hpreds hnext, h.old.trans (Extends.of_code_eq hcode hnext.ge)⟩

theorem Point.congr (h : Point g s a) (hcode : s'.code = s.code)
    (hcurrent : s'.current = s.current) : Point g s' a := by
  refine ⟨?_, hcurrent ▸ h.rank⟩
  rw [Ghost.exit, hcode, hcurrent]
  exact h.exit

/-- A block that was allocated after `s₀` and has not been current yet. -/
structure New (g : Ghost) (s : LoweringState) (s₀ : LoweringState) (b : BlockID) (v : Facts) :
    Prop extends Pending g s b v where
  new : ¬ s₀.Allocated b

theorem Grown.allocate₂ (h : Grown c body g₀ s₀ g s) (hp : Point g s a) (v w : Facts) :
    ∃ g', Grown c body g₀ s₀ g' s.allocateBasicBlock.allocateBasicBlock ∧
      Point g' s.allocateBasicBlock.allocateBasicBlock a ∧
      New g' s.allocateBasicBlock.allocateBasicBlock s₀ s.fresh v ∧
      New g' s.allocateBasicBlock.allocateBasicBlock s₀ s.allocateBasicBlock.fresh w ∧
      s.fresh ≠ s.allocateBasicBlock.fresh := by
  have h₁ := h.allocate v
  have hfirst := Pending.fresh h.sketch v
  exact ⟨_, h₁.allocate w, (hp.allocate h.sketch v).allocate h₁.sketch w,
    ⟨hfirst.allocate w, h.not_allocated_fresh⟩, ⟨.fresh h₁.sketch w, h₁.not_allocated_fresh⟩,
    hfirst.allocated.ne_fresh⟩

end

end Andsifr.Frontend
