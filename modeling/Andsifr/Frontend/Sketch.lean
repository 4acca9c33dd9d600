import Andsifr.Frontend.Facts

namespace Andsifr.Frontend

open Wasm Lib.Flow LoweringState Function List

namespace LoweringState

def Allocated (s : LoweringState) : BlockID → Prop
  | .returnBlock => True
  | .block id => id < s.nextBlock

variable {s : LoweringState} {b : BlockID} {is : List Inst} {i : Inst}

@[simp]
theorem insert_eq_insertAll : s.insert i = s.insertAll [i] :=
  rfl

theorem insertAll_insertAll {js : List Inst} :
    (s.insertAll is).insertAll js = s.insertAll (is ++ js) := by
  simp [insertAll, append_assoc]

theorem code_insertAll_ne_nil (h : s.code b ≠ []) : (s.insertAll is).code b ≠ [] := by
  by_cases hb : b = s.current
  · subst hb
    simp [h]
  · rwa [insertAll_code, update_of_ne hb]

theorem not_allocated_fresh : ¬ s.Allocated s.fresh := by
  simp [Allocated, fresh]

theorem Allocated.ne_fresh (h : s.Allocated b) : b ≠ s.fresh := by
  rintro rfl
  exact not_allocated_fresh h

theorem allocated_allocateBasicBlock :
    s.allocateBasicBlock.Allocated b ↔ s.Allocated b ∨ b = s.fresh := by
  cases b with
  | returnBlock => simp [Allocated]
  | block id =>
    simp only [Allocated, allocateBasicBlock, fresh, BlockID.block.injEq]
    omega

end LoweringState

/-- What is said about the blocks of a function while it is lowered: the facts at their starts, and
the order in which they were made current; a block that never was has no rank. -/
structure Ghost where
  facts : BlockID → Facts
  rank : BlockID → WithTop Nat
  bound : Nat

namespace Ghost

def setFacts (g : Ghost) (b : BlockID) (v : Facts) : Ghost :=
  { g with facts := update g.facts b v }

def openBlock (g : Ghost) (b : BlockID) : Ghost :=
  { g with rank := update g.rank b (WithTop.some g.bound), bound := g.bound + 1 }

variable {g : Ghost} {b b' : BlockID} {v : Facts}

@[simp]
theorem facts_setFacts : (g.setFacts b v).facts = update g.facts b v :=
  rfl

@[simp]
theorem bound_setFacts : (g.setFacts b v).bound = g.bound :=
  rfl

@[simp]
theorem facts_openBlock : (g.openBlock b).facts = g.facts :=
  rfl

@[simp]
theorem rank_openBlock : (g.openBlock b).rank = update g.rank b (WithTop.some g.bound) :=
  rfl

end Ghost

/-- The loop of `memory.fill` and `table.fill`. -/
def IsFillLoop (code : BlockID → List Inst) (b : BlockID) : Prop :=
  ∃ pc target pc', code b = [.plain, .brnz b pc, .jump target pc']

/-- Apart from the loops of the fill instructions, only a loop header is branched to from code that
was emitted later. -/
def Ghost.Forward (g : Ghost) (code : BlockID → List Inst) (b target : BlockID) : Prop :=
  g.rank b < g.rank target ∨ (g.facts target).header = true ∨
    target = b ∧ IsFillLoop code b

/-- The facts at the end of the code emitted so far for a block, if it is not closed yet. -/
def Ghost.exit (g : Ghost) (s : LoweringState) (b : BlockID) : Option Facts :=
  exitFacts Facts.after (g.facts b) (s.code b)

theorem Ghost.exit_insertAll {g : Ghost} {s : LoweringState} {a : Facts} {is : List Inst}
    (h : g.exit s s.current = some a) :
    g.exit (s.insertAll is) s.current = exitFacts Facts.after a is := by
  simp only [Ghost.exit] at h
  simp only [Ghost.exit, insertAll_code, update_self, exitFacts_append, h, Option.bind_some]

/-- The code emitted so far respects the facts of its blocks. -/
structure Sketch (c : Compiler) (body : List Instruction) (g : Ghost) (s : LoweringState) :
    Prop where
  flows : ∀ b, Flows (Facts.Ok c body g.facts) Facts.after (g.facts b) (s.code b)
  allocated : ∀ b, ∀ i ∈ s.code b, ∀ target ∈ i.targets, s.Allocated target ∧ target ∈ s.preds
  forward : c.ensureTermination = true →
    ∀ b, ∀ i ∈ s.code b, ∀ target ∈ i.targets, g.Forward s.code b target
  code_unallocated : ∀ b, ¬ s.Allocated b → s.code b = []
  rank_unallocated : ∀ b, ¬ s.Allocated b → g.rank b = ⊤
  bounded : ∀ b, g.rank b ≠ ⊤ → g.rank b < WithTop.some g.bound
  returns : g.facts .returnBlock = { depth := 0 }
  entry : s.Allocated entryBlock ∧ g.facts entryBlock = { depth := 0 }

section

variable {c : Compiler} {body : List Instruction} {g : Ghost} {s s' : LoweringState}

theorem Facts.Ok.congr {facts facts' : BlockID → Facts} {a : Facts} {i : Inst}
    (h : a.Ok c body facts i) (hfacts : ∀ b ∈ i.targets, facts' b = facts b) :
    a.Ok c body facts' i := by
  obtain ⟨hlabel, hheader, hallows⟩ := h
  refine ⟨hlabel, hheader, ?_⟩
  cases i with
  | jump target pc | brz target pc | brnz target pc =>
    simpa only [Facts.Allows, hfacts target (by simp [Inst.targets])] using hallows
  | brTable targets pc =>
    intro b hb
    simpa only [hfacts b (by simpa [Inst.targets] using hb)] using hallows b hb
  | tryTableEnter info handlers bodyBlk =>
    obtain ⟨hclean, hnum, hreuse, hlength, hhandlers, hbody⟩ := hallows
    refine ⟨hclean, hnum, hreuse, hlength, fun b hb => ?_, ?_⟩
    · rw [hfacts b (by simp [Inst.targets, hb])]
      exact hhandlers b hb
    · rw [hfacts bodyBlk (by simp [Inst.targets])]
      exact hbody
  | _ => exact hallows

namespace Sketch

section

variable (h : Sketch c body g s)

include h

theorem congr (hcode : s'.code = s.code) (hpreds : s'.preds = s.preds)
    (hnext : s'.nextBlock = s.nextBlock) : Sketch c body g s' := by
  have hallocated : s'.Allocated = s.Allocated := by
    funext b
    cases b with
    | returnBlock => rfl
    | block id => simp [LoweringState.Allocated, hnext]
  obtain ⟨flows, allocated, forward, code_unallocated, rank_unallocated, bounded, returns, entry⟩ :=
    h
  constructor <;> simpa only [hcode, hpreds, hallocated]

theorem allocated_of_rank {b : BlockID} (hb : g.rank b ≠ ⊤) : s.Allocated b := by
  by_contra hn
  exact hb (h.rank_unallocated b hn)

theorem insertAll {a : Facts} (ha : g.exit s s.current = some a)
    (hcur : g.rank s.current ≠ ⊤) {is : List Inst}
    (hflow : Flows (Facts.Ok c body g.facts) Facts.after a is)
    (htargets : ∀ target ∈ is.flatMap Inst.targets, s.Allocated target ∧
      (c.ensureTermination = true → g.Forward (s.insertAll is).code s.current target)) :
    Sketch c body g (s.insertAll is) := by
  refine ⟨fun b => ?_, fun b i hi target ht => ?_, fun hterm b i hi target ht => ?_,
    fun b hb => ?_, h.rank_unallocated, h.bounded, h.returns, h.entry⟩
  · by_cases hb : b = s.current
    · subst hb
      rw [insertAll_code, update_self, flows_append]
      refine ⟨h.flows _, fun a' ha' => ?_⟩
      obtain rfl : a' = a := Option.some_injective _ (ha'.symm.trans ha)
      exact hflow
    · rw [insertAll_code, update_of_ne hb]
      exact h.flows b
  · by_cases hb : b = s.current
    · subst hb
      rw [insertAll_code, update_self, mem_append] at hi
      obtain hi | hi := hi
      · have hold := h.allocated _ i hi target ht
        exact ⟨hold.1, mem_append_left _ hold.2⟩
      · have hnew := mem_flatMap.2 ⟨i, hi, ht⟩
        exact ⟨(htargets target hnew).1, mem_append_right _ hnew⟩
    · rw [insertAll_code, update_of_ne hb] at hi
      have hold := h.allocated b i hi target ht
      exact ⟨hold.1, mem_append_left _ hold.2⟩
  · by_cases hb : b = s.current
    · subst hb
      rw [insertAll_code, update_self, mem_append] at hi
      obtain hi | hi := hi
      · obtain hrank | hheader | ⟨-, pc, t, pc', hfill⟩ := h.forward hterm _ i hi target ht
        · exact .inl hrank
        · exact .inr (.inl hheader)
        · -- the code of a fill loop is closed
          simp [Ghost.exit, hfill, Facts.after] at ha
      · exact (htargets target (mem_flatMap.2 ⟨i, hi, ht⟩)).2 hterm
    · have hcode : (s.insertAll is).code b = s.code b := by
        rw [insertAll_code, update_of_ne hb]
      rw [hcode] at hi
      obtain hrank | hheader | ⟨heq, hfill⟩ := h.forward hterm b i hi target ht
      · exact .inl hrank
      · exact .inr (.inl hheader)
      · exact .inr (.inr ⟨heq, by simpa only [IsFillLoop, hcode] using hfill⟩)
  · have hne : b ≠ s.current := by
      rintro rfl
      exact hb (h.allocated_of_rank hcur)
    rw [insertAll_code, update_of_ne hne]
    exact h.code_unallocated b hb

theorem allocateBasicBlock (v : Facts) :
    Sketch c body (g.setFacts s.fresh v) s.allocateBasicBlock := by
  have hfacts : ∀ b, s.Allocated b → (g.setFacts s.fresh v).facts b = g.facts b :=
    fun b hb => by rw [Ghost.facts_setFacts, update_of_ne hb.ne_fresh]
  refine ⟨fun b => ?_, fun b i hi target ht => ?_, fun hterm b i hi target ht => ?_,
    fun b hb => ?_, fun b hb => ?_, h.bounded, (hfacts .returnBlock trivial).trans h.returns,
    allocated_allocateBasicBlock.2 (.inl h.entry.1),
    (hfacts entryBlock h.entry.1).trans h.entry.2⟩
  · change Flows _ _ _ (s.code b)
    by_cases hb : s.Allocated b
    · rw [hfacts b hb]
      refine (h.flows b).congr fun a i hi hok => hok.congr fun t ht => ?_
      exact hfacts t (h.allocated b i hi t ht).1
    · rw [h.code_unallocated b hb]
      trivial
  · have hold := h.allocated b i hi target ht
    exact ⟨allocated_allocateBasicBlock.2 (.inl hold.1), hold.2⟩
  · have hold := h.forward hterm b i hi target ht
    rw [Ghost.Forward, hfacts target (h.allocated b i hi target ht).1]
    exact hold
  · exact h.code_unallocated b fun hb' =>
      hb (allocated_allocateBasicBlock.2 (.inl hb'))
  · exact h.rank_unallocated b fun hb' =>
      hb (allocated_allocateBasicBlock.2 (.inl hb'))

theorem openBlock {b : BlockID} (hb : g.rank b = ⊤) (hallocated : s.Allocated b) :
    Sketch c body (g.openBlock b) (s.setCurrentBlock b) := by
  refine ⟨h.flows, h.allocated, fun hterm b' i hi target ht => ?_, h.code_unallocated,
    fun b' hb' => ?_, fun b' hb' => ?_, h.returns, h.entry⟩
  · obtain hrank | hrest := h.forward hterm b' i hi target ht
    · left
      have hne : b' ≠ b := by
        rintro rfl
        simp [hb] at hrank
      have hlt := h.bounded b' (ne_top_of_lt hrank)
      simp only [Ghost.rank_openBlock, update_of_ne hne]
      by_cases htarget : target = b
      · simpa [htarget] using hlt
      · simpa [update_of_ne htarget] using hrank
    · exact .inr hrest
  · have hne : b' ≠ b := by
      rintro rfl
      exact hb' hallocated
    simpa [update_of_ne hne] using h.rank_unallocated b' hb'
  · by_cases hne : b' = b
    · subst hne
      simp only [Ghost.rank_openBlock, update_self]
      exact WithTop.coe_lt_coe.2 (Nat.lt_succ_self _)
    · simp only [Ghost.rank_openBlock, update_of_ne hne] at hb' ⊢
      exact (h.bounded b' hb').trans (WithTop.coe_lt_coe.2 (Nat.lt_succ_self _))

end

end Sketch

/-- Of the blocks in `protect`, only the code of `current` has changed. -/
structure Extends (protect : BlockID → Prop) (current : BlockID) (g : Ghost) (s : LoweringState)
    (g' : Ghost) (s' : LoweringState) : Prop where
  nextBlock : s.nextBlock ≤ s'.nextBlock
  facts : ∀ b, protect b → g'.facts b = g.facts b
  rank : ∀ b, protect b → g'.rank b = g.rank b
  code : ∀ b, protect b → b ≠ current → s'.code b = s.code b
  nonempty : ∀ b, s.code b ≠ [] → s'.code b ≠ []

namespace Extends

variable {protect : BlockID → Prop} {current : BlockID} {g' g'' : Ghost} {s'' : LoweringState}

theorem refl : Extends protect current g s g s :=
  ⟨le_rfl, fun _ _ => rfl, fun _ _ => rfl, fun _ _ _ => rfl, fun _ h => h⟩

theorem trans (h : Extends protect current g s g' s') (h' : Extends protect current g' s' g'' s'') :
    Extends protect current g s g'' s'' where
  nextBlock := h.nextBlock.trans h'.nextBlock
  facts b hb := (h'.facts b hb).trans (h.facts b hb)
  rank b hb := (h'.rank b hb).trans (h.rank b hb)
  code b hb hne := (h'.code b hb hne).trans (h.code b hb hne)
  nonempty b hb := h'.nonempty b (h.nonempty b hb)

theorem weaken {protect' : BlockID → Prop} {current' : BlockID}
    (h : Extends protect current g s g' s') (hsub : ∀ b, protect' b → protect b)
    (hcur : current = current' ∨ ¬ protect' current) : Extends protect' current' g s g' s' where
  nextBlock := h.nextBlock
  facts b hb := h.facts b (hsub b hb)
  rank b hb := h.rank b (hsub b hb)
  code b hb hne := by
    refine h.code b (hsub b hb) ?_
    rintro rfl
    exact hcur.elim hne fun hp => hp hb
  nonempty := h.nonempty

theorem of_code_eq (hcode : s'.code = s.code) (hnext : s.nextBlock ≤ s'.nextBlock) :
    Extends protect current g s g s' :=
  ⟨hnext, fun _ _ => rfl, fun _ _ => rfl, fun _ _ _ => by rw [hcode], fun _ h => by rwa [hcode]⟩

theorem insertAll {is : List Inst} (h : s.current = current ∨ ¬ protect s.current) :
    Extends protect current g s g (s.insertAll is) := by
  refine ⟨le_rfl, fun _ _ => rfl, fun _ _ => rfl, fun b hb hne => ?_, fun b hb => ?_⟩
  · have hcur : b ≠ s.current := by
      rintro rfl
      exact h.elim hne fun hp => hp hb
    rw [insertAll_code, update_of_ne hcur]
  · exact code_insertAll_ne_nil hb

theorem setFacts {b : BlockID} {v : Facts} (h : ¬ protect b) :
    Extends protect current g s (g.setFacts b v) s := by
  refine ⟨le_rfl, fun b' hb' => ?_, fun _ _ => rfl, fun _ _ _ => rfl, fun _ hb' => hb'⟩
  have hne : b' ≠ b := by
    rintro rfl
    exact h hb'
  rw [Ghost.facts_setFacts, update_of_ne hne]

theorem openBlock {b : BlockID} (h : ¬ protect b) :
    Extends protect current g s (g.openBlock b) s := by
  refine ⟨le_rfl, fun _ _ => rfl, fun b' hb' => ?_, fun _ _ _ => rfl, fun _ hb' => hb'⟩
  have hne : b' ≠ b := by
    rintro rfl
    exact h hb'
  rw [Ghost.rank_openBlock, update_of_ne hne]

theorem allocated (h : Extends protect current g s g' s') {b : BlockID} (hb : s.Allocated b) :
    s'.Allocated b := by
  cases b with
  | returnBlock => trivial
  | block id => exact lt_of_lt_of_le hb h.nextBlock

end Extends

end

end Andsifr.Frontend
