import Andsifr.Frontend.Ends
import Andsifr.Frontend.Nesting

namespace Andsifr.Frontend

open Wasm Lib.Flow Option LoweringState List

section

variable {c : Compiler} {body : List Instruction} {g g' : Ghost} {s s' : LoweringState}
  {op : Instruction}

theorem Lowered.setPc (h : Lowered c body g s) (pc : Nat) : Lowered c body g { s with pc := pc } :=
  ⟨h.sketch.congr rfl rfl rfl, h.frames.congr rfl rfl, h.distinct, h.depth, h.reachable, h.filled,
    h.stopped⟩

theorem Lowered.mark (h : Lowered c body g s) (hn : Nests body s) : Lowered c body g s.mark := by
  unfold LoweringState.mark
  split
  next => exact h
  next hu =>
    have hr : s.unreachable = false := by simpa using hu
    have hdepth := enclosing_eq_catching (hn.nesting_eq (h.reachable hr).1)
    exact h.insertAll hr (by simp) (by simp [Inst.targets])
      (fun checked => flows_plain_cons ⟨hdepth.symm, rfl, rfl⟩ rfl flows_nil)
      fun checked => ⟨checked, rfl⟩

theorem defaultExits_eq_false {pc : Nat} (hop : body[pc]? = some op)
    (hne : ∀ label, op ≠ .brTable [] label) : defaultExits body pc = false := by
  unfold defaultExits
  split
  next label heq => exact absurd (some_injective _ (hop.symm.trans heq)) (hne label)
  next => rfl

theorem Lowered.lowerPlain (h : Lowered c body g s) (hn : Nests body s)
    (hdeclared : LocalsDeclared c body) (hop : body[s.pc]? = some op) (hr : s.unreachable = false)
    (hs : s.lowerPlain c op = some s') : ∃ g', Lowered c body g' s' := by
  have hzero := (h.reachable hr).1
  have hpc : (∀ label, op ≠ .brTable [] label) → defaultExits body s.pc = false :=
    defaultExits_eq_false hop
  cases op with
  | br label => exact ⟨g, h.lowerBr hr (hpc (by simp)) hs⟩
  | brIf label => exact h.lowerConditionalBranch hr (hpc (by simp)) hs
  | brOnNull label | brOnNonNull label =>
    exact (h.insertPlain hr).lowerConditionalBranch hr (hpc (by simp)) hs
  | brTable labels defaultLabel =>
    by_cases hlabels : labels = []
    · subst hlabels
      exact ⟨g, h.lowerBrTable_nil hr hop (hn.nesting_eq hzero) hs⟩
    · replace hs : s.lowerBrTableOpcode c labels defaultLabel = some s' := hs
      rw [lowerBrTableOpcode, if_neg hlabels] at hs
      obtain ⟨s₁, hs₁, hs⟩ := bind_eq_some_iff.1 hs
      cases hs
      exact h.lowerBrTable hr (hpc (by simp [hlabels])) hs₁
  | returnOp =>
    cases hs
    exact ⟨g, h.lowerReturn hr⟩
  | unreachable =>
    cases hs
    exact ⟨g, h.lowerUnreachable hr⟩
  | call fnIndex =>
    cases hs
    exact ⟨g, h.lowerCall hr fnIndex⟩
  | callIndirect _ _ | callRef _ =>
    cases hs
    exact ⟨g, h.lowerCallPointer hr _⟩
  | returnCall fnIndex =>
    cases hs
    exact h.lowerTailCallReturnCall hr (hpc (by simp)) fnIndex
  | returnCallIndirect _ _ | returnCallRef _ =>
    cases hs
    exact ⟨g, h.lowerTailCallPointer hr _⟩
  | throw _ | throwRef =>
    cases hs
    exact ⟨g, h.lowerThrow hr⟩
  | localSet index | localTee index =>
    cases hs
    have hmem := mem_of_getElem? hop
    exact ⟨g, h.lowerLocalSet hr (hdeclared index (by simp [hmem]))⟩
  | memoryFill | tableFill _ =>
    cases hs
    exact h.lowerFill hr (hpc (by simp))
  | nop | drop | localGet _ =>
    cases hs
    exact ⟨g, h⟩
  | _ =>
    cases hs
    exact ⟨g, h.insertPlain hr⟩

theorem Lowered.lowerOpen (h : Lowered c body g s) (hn : Nests body s)
    (hop : body[s.pc]? = some op) (hr : s.unreachable = false)
    (hs : s.lowerOpen c op = some s') : ∃ g', Lowered c body g' s' := by
  have hnesting := hn.nesting_eq (h.reachable hr).1
  cases op with
  | block type =>
    cases hs
    exact h.lowerBlock hr
  | loop type =>
    cases hs
    refine h.lowerLoop hr (defaultExits_eq_false hop (by simp)) ?_
    rw [← enclosing_eq_catching hnesting, enclosing, nesting_succ hop]
    rfl
  | ifOp type =>
    cases hs
    exact h.lowerIf hr (defaultExits_eq_false hop (by simp))
  | tryTable type catches => exact h.lowerTryTable hr (defaultExits_eq_false hop (by simp)) hs
  | _ => cases hs

theorem Lowered.lowerCurrentOpcode (h : Lowered c body g s) (hn : Nests body s)
    (hdeclared : LocalsDeclared c body) (hop : body[s.pc]? = some op)
    (hs : s.lowerCurrentOpcode c op = some s') :
    ∃ g', Lowered c body g' s' := by
  have hmark := h.mark hn
  have hnmark := hn.mark
  have hop' : body[s.mark.pc]? = some op := by rwa [Keeps.mark.pc]
  have hskip : s.mark.unreachable = true → Lowered c body g
      { s.mark with unreachableDepth := s.mark.unreachableDepth + 1 } := fun hu =>
    ⟨hmark.sketch.congr rfl rfl rfl, hmark.frames.congr rfl rfl, hmark.distinct, hmark.depth,
      by simp [hu], hmark.filled, hmark.stopped⟩
  cases op with
  | block type | loop type | ifOp type | tryTable type catches =>
    replace hs : (if s.mark.unreachable then
        some { s.mark with unreachableDepth := s.mark.unreachableDepth + 1 }
      else s.mark.lowerOpen c _) = some s' := hs
    split at hs
    next hu =>
      cases hs
      exact ⟨g, hskip hu⟩
    next hu => exact hmark.lowerOpen hnmark hop' (by simpa using hu) hs
  | elseOp => exact hmark.lowerElse (defaultExits_eq_false hop' (by simp)) hs
  | endOp =>
    refine hmark.lowerEnd (defaultExits_eq_false hop' (by simp)) (fun hzero => ?_) hs
    apply enclosing_eq_catching
    rw [nesting_succ hop', hnmark.nesting_eq hzero, map_tail]
    rfl
  | _ =>
    replace hs : (if s.mark.unreachable then some s.mark else s.mark.lowerPlain c _) = some s' := hs
    split at hs
    next =>
      cases hs
      exact ⟨g, hmark⟩
    next hu => exact hmark.lowerPlain hnmark hdeclared hop' (by simpa using hu) hs

/-- What holds between two instructions of the source. -/
structure Progress (c : Compiler) (body : List Instruction) (g : Ghost) (s : LoweringState) :
    Prop where
  lowered : Lowered c body g s
  nests : Nests body s

theorem Progress.step (h : Progress c body g s) (hdeclared : LocalsDeclared c body)
    (hop : body[s.pc]? = some op)
    (hs : s.lowerCurrentOpcode c op = some s') :
    s'.pc = s.pc ∧ ∃ g', Progress c body g' { s' with pc := s'.pc + 1 } := by
  obtain ⟨g', hlowered⟩ := h.lowered.lowerCurrentOpcode h.nests hdeclared hop hs
  obtain ⟨hpc, hnests⟩ := h.nests.lowerCurrentOpcode hop (fun hr => (h.lowered.reachable hr).1) hs
  exact ⟨hpc, g', hlowered.setPc _, hnests⟩

theorem Progress.lowerOpcodes {ops rest : List Instruction} (h : Progress c body g s)
    (hdeclared : LocalsDeclared c body) (hops : body.drop s.pc = ops ++ rest)
    (hs : s.lowerOpcodes c ops = some s') :
    s'.pc = s.pc + ops.length ∧ ∃ g', Progress c body g' s' := by
  induction ops generalizing g s with
  | nil =>
    cases hs
    exact ⟨rfl, g, h⟩
  | cons op ops ih =>
    obtain ⟨s₁, hs₁, hs⟩ := bind_eq_some_iff.1 hs
    have hop : body[s.pc]? = some op := by
      rw [← head?_drop, hops]
      rfl
    obtain ⟨hpc, g₁, h₁⟩ := h.step hdeclared hop hs₁
    have hdrop : body.drop (s₁.pc + 1) = ops ++ rest := by
      rw [← tail_drop, hpc, hops]
      rfl
    obtain ⟨hpc', hprogress⟩ := ih h₁ hdrop hs
    refine ⟨?_, hprogress⟩
    rw [hpc', length_cons]
    simp only [hpc]
    omega

/-- The facts of the entry block and of the return block. -/
def Ghost.initial : Ghost where
  facts _ := { depth := 0 }
  rank b := if b = entryBlock then WithTop.some 0 else ⊤
  bound := 1

theorem lowered_enterFunction : Lowered c body .initial (enterFunction c) := by
  have hrank : Ghost.initial.rank (.block 0) ≠ ⊤ := by simp [Ghost.initial, entryBlock]
  have hstart : Lowered c body .initial
      { controlFrames := [⟨.function, .returnBlock⟩], nextBlock := 1, current := .block 0 } := by
    refine ⟨⟨by simp, by simp, by simp, by simp, fun b hb => ?_, fun b hb => ?_, rfl, ?_, rfl⟩,
      ⟨.of_following ⟨by simp [Ghost.initial, followingFacts, catching], rfl, ?_, trivial⟩
        (by simp) (by simp), trivial⟩, by simp [pendingBlocks, ControlFrame.pending], rfl,
      fun _ => ⟨rfl, false, rfl, hrank⟩, by simp, by simp⟩
    · have hne : b ≠ entryBlock := by
        rintro rfl
        exact hb one_pos
      simp [Ghost.initial, hne]
    · by_cases hne : b = entryBlock
      · simp [Ghost.initial, hne]
      · simp [Ghost.initial, hne] at hb
    · exact one_pos
    · simp [Ghost.initial, entryBlock]
  unfold enterFunction
  by_cases hlistener : c.needListener = true
  · simp only [hlistener, if_true]
    exact hstart.insertAll rfl (by simp) (by simp [Inst.targets])
      (fun _ => flows_plain_cons trivial rfl flows_nil) fun checked => ⟨checked, rfl⟩
  · simp only [hlistener]
    exact hstart

theorem nests_enterFunction : Nests body (enterFunction c) := by
  unfold enterFunction
  cases c.needListener <;> exact ⟨[], rfl, rfl⟩

theorem LoweringState.switchTo_settled (target : BlockID)
    (h : (s.switchTo target).current ∈ (s.switchTo target).preds) :
    (s.switchTo target).code (s.switchTo target).current ≠ [] := by
  by_cases hmem : target ∈ s.preds
  · simp [switchTo, hmem]
  · simp [switchTo, hmem] at h

theorem Lowered.settled_lowerEnd (h : Lowered c body g s) (hs : s.lowerEnd c = some s')
    (hcurrent : s'.current ∈ s'.preds) : s'.code s'.current ≠ [] := by
  unfold LoweringState.lowerEnd at hs
  split at hs
  next hskip =>
    cases hs
    have hu : s.unreachable = true := by
      by_contra hr
      exact absurd (h.reachable (by simpa using hr)).1 hskip.ne'
    exact (h.stopped hu).resolve_right fun hn => hn hcurrent
  next hskip =>
    split at hs
    next => cases hs
    next =>
      cases hs
      exact switchTo_settled _ hcurrent

theorem LoweringState.lowerOpcodes_append {ops ops' : List Instruction} :
    s.lowerOpcodes c (ops ++ ops') = (s.lowerOpcodes c ops).bind (lowerOpcodes c ops') := by
  induction ops generalizing s with
  | nil => rfl
  | cons op ops ih =>
    simp only [cons_append, lowerOpcodes, bind_eq_bind, bind_assoc, ih]

end

/-- How many blocks were made current after a block, and after all of them for one that never
was. -/
def Ghost.height (g : Ghost) (b : BlockID) : Nat :=
  g.bound - (g.rank b).untopD g.bound

theorem Sketch.height_lt {c : Compiler} {body : List Instruction} {g : Ghost} {s : LoweringState}
    (h : Sketch c body g s) {b target : BlockID} (hlt : g.rank b < g.rank target) :
    g.height target < g.height b := by
  have hb := h.bounded b (ne_top_of_lt hlt)
  have ht := h.bounded target
  unfold Ghost.height
  cases hrank : g.rank b with
  | top => simp [hrank] at hlt
  | coe r =>
    rw [hrank] at hlt hb
    have hr : r < g.bound := WithTop.coe_lt_coe.1 hb
    cases htarget : g.rank target with
    | top =>
      simp only [WithTop.untopD_top, WithTop.untopD_coe]
      omega
    | coe r' =>
      rw [htarget] at hlt ht
      have hrr' : r < r' := WithTop.coe_lt_coe.1 hlt
      simp only [WithTop.untopD_coe]
      omega

/-- The facts at the starts of the blocks of a compiled function, and the heights of the blocks: a
branch goes down, unless it goes to a loop header or is the one of a fill loop. -/
structure CompiledFunction.Sound (f : CompiledFunction) (facts : BlockID → Facts)
    (height : BlockID → Nat) : Prop where
  flows : ∀ b, Flows (Facts.Ok f.compiler f.body facts) Facts.after (facts b) (f.code b)
  entry : facts entryBlock = { depth := 0 }
  returns : facts .returnBlock = { depth := 0 }
  targets : ∀ b, ∀ i ∈ f.code b, ∀ target ∈ i.targets, f.code target ≠ []
  forward : f.compiler.ensureTermination = true →
    ∀ b, ∀ i ∈ f.code b, ∀ target ∈ i.targets,
      height target < height b ∨ (facts target).header = true ∨ target = b ∧ IsFillLoop f.code b

namespace CompiledFunction

variable (f : CompiledFunction)

theorem code_eq_or (b : BlockID) : f.code b = [.ret] ∨ f.code b = f.final.code b := by
  cases b with
  | returnBlock => exact .inl rfl
  | block id => exact .inr rfl

/-- The frontend emits code that respects facts about its blocks, whatever the body. -/
theorem exists_sound : ∃ facts height, f.Sound facts height := by
  obtain ⟨ops, hbody⟩ := f.terminated
  have hlowered := f.lowered
  rw [lowerToSSA, hbody, lowerOpcodes_append] at hlowered
  obtain ⟨s₁, hs₁, hlast⟩ := bind_eq_some_iff.1 hlowered
  obtain ⟨s₂, hs₂, hfinal⟩ := bind_eq_some_iff.1 hlast
  have hstart : (enterFunction f.compiler).pc = 0 := by
    unfold enterFunction
    cases f.compiler.needListener <;> rfl
  have hdrop : f.body.drop (enterFunction f.compiler).pc = ops ++ [.endOp] := by
    rw [hstart, drop_zero, hbody]
  obtain ⟨hpc, g₁, h₁⟩ := Progress.lowerOpcodes ⟨lowered_enterFunction, nests_enterFunction⟩
    f.declared hdrop hs₁
  have hop : f.body[s₁.pc]? = some .endOp := by
    rw [hpc, hstart, hbody]
    simp
  obtain ⟨-, g, h⟩ := h₁.step f.declared hop hs₂
  have hsettled := (h₁.lowered.mark h₁.nests).settled_lowerEnd hs₂
  have hs₂final : { s₂ with pc := s₂.pc + 1 } = f.final := some_injective _ hfinal
  have hlowered : Lowered f.compiler f.body g f.final := hs₂final ▸ h.lowered
  have hcurrent : f.final.current ∈ f.final.preds → f.final.code f.final.current ≠ [] := by
    rw [← hs₂final]
    exact hsettled
  have hfilled : ∀ b ∈ f.final.preds, f.code b ≠ [] := by
    intro b hb
    obtain hret | heq := f.code_eq_or b
    · simp [hret]
    · rw [heq]
      obtain hcode | hpending | rfl := hlowered.filled b hb
      · exact hcode
      · simp [f.closed, pendingBlocks] at hpending
      · exact hcurrent hb
  have hsketch := hlowered.sketch
  refine ⟨g.facts, g.height, fun b => ?_, hsketch.entry.2, hsketch.returns,
    fun b i hi target ht => ?_, fun hterm b i hi target ht => ?_⟩
  · cases b with
    | returnBlock =>
      rw [hsketch.returns]
      exact ⟨Facts.ok_of_allows rfl, by simp [Facts.after]⟩
    | block id => exact hsketch.flows _
  · cases b with
    | returnBlock =>
      obtain rfl : i = .ret := by simpa [code] using hi
      simp [Inst.targets] at ht
    | block id => exact hfilled target (hsketch.allocated _ i hi target ht).2
  · cases b with
    | returnBlock =>
      obtain rfl : i = .ret := by simpa [code] using hi
      simp [Inst.targets] at ht
    | block id => exact (hsketch.forward hterm _ i hi target ht).imp_left hsketch.height_lt

/-- The facts at a position that execution can get to. -/
def FactsAt (facts : BlockID → Facts) (p : Position) (a : Facts) : Prop :=
  exitFacts Facts.after (facts p.block) ((f.code p.block).take p.index) = some a

variable {f} {facts : BlockID → Facts} {height : BlockID → Nat} {p : Position} {a a' : Facts}
  {i : Inst}

theorem factsAt_zero {b : BlockID} : f.FactsAt facts ⟨b, 0⟩ (facts b) :=
  rfl

theorem FactsAt.next (h : f.FactsAt facts p a) (hi : f.instAt p = some i)
    (hafter : a.after i = some a') : f.FactsAt facts p.next a' := by
  rw [FactsAt, Position.next, exitFacts_take_succ hi, h]
  exact hafter

theorem Sound.ok (hs : f.Sound facts height) (h : f.FactsAt facts p a)
    (hi : f.instAt p = some i) : a.Ok f.compiler f.body facts i :=
  (hs.flows p.block).get h hi

theorem Sound.allows (hs : f.Sound facts height) (h : f.FactsAt facts p a)
    (hi : f.instAt p = some i) : a.Allows f.compiler f.body facts i :=
  (hs.ok h hi).2.2

end CompiledFunction

theorem Facts.exists_after {i : Inst} (hfalls : i.fallsThrough = true) (a : Facts) :
    ∃ a', a.after i = some a' := by
  cases i <;> simp [Inst.fallsThrough] at hfalls <;> exact ⟨_, rfl⟩

end Andsifr.Frontend
