import Andsifr.Validation.Blocks
import Andsifr.Validation.Panics

namespace Andsifr.Validation

open Lib Wasm FunctionContext Stacks Check

/-- The locals that have been assigned to in each open block, innermost first. The arms of an `if`
count as blocks of their own. -/
def nextSets (sets : List (List Index)) : Instruction → List (List Index)
  | .block _ | .loop _ | .ifOp _ | .tryTable _ _ => [] :: sets
  | .elseOp => [] :: sets.tail
  | .endOp => sets.tail
  | .localSet i | .localTee i => (i :: sets.headD []) :: sets.tail
  | _ => sets

/-- A `local.set` or `local.tee` of the local occurs earlier in the same block or in an enclosing
one. -/
def SetBefore (instrs : List Instruction) (i : Index) : Prop :=
  i ∈ (instrs.foldl nextSets [[]]).flatten

instance (instrs : List Instruction) (i : Index) : Decidable (SetBefore instrs i) :=
  inferInstanceAs (Decidable (_ ∈ _))

namespace FunctionContext

variable {ctx : FunctionContext}

/-- Unless it is a nil map, the set holds the locals in question that are assigned to in the
blocks. -/
def Holds (ctx : FunctionContext) (known : Option (List Index)) (sets : List (List Index)) : Prop :=
  ∀ set, known = some set → ∀ i, ctx.needsInit i → (i ∈ set ↔ i ∈ sets.flatten)

/-- Every block has saved what was known when it was entered. -/
def Saved (ctx : FunctionContext) : List (List Index) → List ControlBlock → Prop
  | [], [] => True
  | _ :: sets, b :: blocks => ctx.Holds b.savedInitLocals sets ∧ ctx.Saved sets blocks
  | _, _ => False

structure Tracks (ctx : FunctionContext) (sets : List (List Index)) (s : Stacks) : Prop where
  current : s.controlBlocks ≠ [] → ctx.Holds s.initLocals sets
  saved : ctx.Saved sets s.controlBlocks

variable {s s' : Stacks} {sets : List (List Index)} {instr : Instruction}

theorem Saved.cons {b : ControlBlock} {blocks : List ControlBlock}
    (h : ctx.Saved sets (b :: blocks)) :
    ∃ set rest, sets = set :: rest ∧ ctx.Holds b.savedInitLocals rest ∧ ctx.Saved rest blocks := by
  cases sets with
  | nil => exact h.elim
  | cons set rest => exact ⟨set, rest, rfl, h⟩

theorem markLocalInit_eq_ok {i : Index} (h : ctx.markLocalInit s i = .ok s') :
    s'.controlBlocks = s.controlBlocks ∧
      s'.initLocals = if ctx.needsInit i then s.initLocals.map (i :: ·) else s.initLocals := by
  unfold markLocalInit at h
  split at h
  next hneeds =>
    split at h
    next set hset =>
      cases h
      exact ⟨rfl, by rw [if_pos hneeds, hset]; rfl⟩
    · cases h
  next hneeds =>
    cases h
    exact ⟨rfl, (if_neg hneeds).symm⟩

theorem Holds.assign {known : Option (List Index)} {set : List Index} {rest : List (List Index)}
    (h : ctx.Holds known (set :: rest)) (i : Index) :
    ctx.Holds (if ctx.needsInit i then known.map (i :: ·) else known) ((i :: set) :: rest) := by
  intro after hafter j hj
  split at hafter
  next hneeds =>
    obtain ⟨before, hbefore, rfl⟩ := Option.map_eq_some_iff.mp hafter
    rw [List.mem_cons, h before hbefore j hj]
    simp
  next hneeds =>
    have hne : j ≠ i := by
      rintro rfl
      exact hneeds hj
    rw [h after hafter j hj]
    simp [hne]

theorem Tracks.assign {i : Index} (h : ctx.Tracks sets s) (hblocks : s.controlBlocks ≠ [])
    (hassigned : assigned instr = some i) (hcheck : ctx.checkInstruction s instr = .ok s') :
    ctx.Tracks ((i :: sets.headD []) :: sets.tail) s' := by
  obtain ⟨s₁, hquiet, hmark⟩ := checkInstruction_assigned hassigned hcheck
  obtain ⟨hsame, hinit⟩ := markLocalInit_eq_ok hmark
  have hsaved := h.saved
  obtain ⟨b, blocks, heq⟩ := List.exists_cons_of_ne_nil hblocks
  rw [heq] at hsaved
  obtain ⟨set, rest, rfl, hb, hrest⟩ := hsaved.cons
  refine ⟨fun _ => ?_, ?_⟩
  · rw [hinit, hquiet.same]
    exact (h.current hblocks).assign i
  · rw [hsame, hquiet.blocks, heq]
    exact ⟨hb, hrest⟩

theorem Tracks.enter {kind : BlockKind} {context : String} {type : BlockType}
    {saved : Option (List Index)} (h : ctx.Tracks sets s) (hblocks : s.controlBlocks ≠ [])
    (hsaved : saved = none ∨ saved = s.initLocals)
    (henter : s.enter ctx.types kind context type saved = .ok s') : ctx.Tracks ([] :: sets) s' := by
  obtain ⟨s₁, -, -, -, hnew, hinit⟩ := enter_eq_ok henter
  refine ⟨fun _ => ?_, ?_⟩
  · rw [hinit]
    exact h.current hblocks
  · rw [hnew]
    refine ⟨?_, h.saved⟩
    obtain rfl | rfl := hsaved
    · rintro _ ⟨⟩
    · exact h.current hblocks

theorem Tracks.quiet (h : ctx.Tracks sets s) (hquiet : Quiet s s') : ctx.Tracks sets s' := by
  refine ⟨fun hblocks => ?_, ?_⟩
  · rw [hquiet.same]
    exact h.current (hquiet.blocks ▸ hblocks)
  · rw [hquiet.blocks]
    exact h.saved

theorem Tracks.checkElse (h : ctx.Tracks sets s) (hcheck : ctx.checkElse s = .ok s') :
    ctx.Tracks ([] :: sets.tail) s' := by
  obtain ⟨b, outer, s₁, hblocks, -, -, -, -, hnew, hinit⟩ := checkElse_eq_ok hcheck
  have hsaved := h.saved
  rw [hblocks] at hsaved
  obtain ⟨set, rest, rfl, hb, hrest⟩ := hsaved.cons
  refine ⟨fun _ => ?_, ?_⟩
  · rw [hinit]
    exact hb
  · rw [hnew]
    exact ⟨hb, hrest⟩

theorem Tracks.checkEnd (h : ctx.Tracks sets s) (hcheck : ctx.checkEnd s = .ok s') :
    ctx.Tracks sets.tail s' := by
  obtain ⟨b, outer, s₁, hblocks, -, hreq, rfl⟩ := checkEnd_eq_ok hcheck
  have honly := onlyStack_requireStackValues hreq
  have hsaved := h.saved
  rw [hblocks] at hsaved
  obtain ⟨set, rest, rfl, hb, hrest⟩ := hsaved.cons
  have hnew : (s₁.resetAtStackLimit.pushAll b.type.results).popStackLimit.controlBlocks =
    outer := by
    simp only [popStackLimit, pushAll_blocks]
    exact honly.blocks
  refine ⟨fun houter => ?_, by rw [hnew]; exact hrest⟩
  rw [hnew] at houter
  have hinit : (s₁.resetAtStackLimit.pushAll b.type.results).popStackLimit.initLocals =
      b.savedInitLocals := by
    simp only [popStackLimit, pushAll_initLocals]
    exact honly.initLocals.trans (if_neg houter)
  rw [hinit]
  exact hb

theorem Tracks.checkInstruction (h : ctx.Tracks sets s) (hblocks : s.controlBlocks ≠ [])
    (hcheck : ctx.checkInstruction s instr = .ok s') : ctx.Tracks (nextSets sets instr) s' := by
  cases instr with
  | block type | loop type => exact h.enter hblocks (.inr rfl) hcheck
  | ifOp type =>
    obtain ⟨s₁, hpop, hcheck⟩ := bind_inv hcheck
    have hquiet := quiet_popAndVerifyType _ (mapErr_inv hpop)
    exact (h.quiet hquiet).enter (hquiet.blocks.symm ▸ hblocks) (.inr hquiet.same.symm) hcheck
  | tryTable type catches =>
    obtain ⟨_, -, hcheck⟩ := bind_inv hcheck
    obtain ⟨_, -, hcheck⟩ := bind_inv hcheck
    exact h.enter hblocks (.inl rfl) hcheck
  | elseOp => exact h.checkElse hcheck
  | endOp => exact h.checkEnd hcheck
  | localSet i | localTee i => exact h.assign hblocks rfl hcheck
  | _ => exact h.quiet (quiet_checkInstruction rfl rfl _ hcheck)

theorem Rounds.tracks {r r' : Reader} {instrs : List Instruction} (h : ctx.Rounds r s instrs r' s')
    (hs : ctx.Tracks sets s) : ctx.Tracks (instrs.foldl nextSets sets) s' := by
  induction h generalizing sets with
  | nil => exact hs
  | cons _ hblocks _ hcheck _ ih => exact ih (hs.checkInstruction hblocks hcheck)

theorem tracks_reset (ctx : FunctionContext) : ctx.Tracks [[]] (.reset ctx.functionType) := by
  refine ⟨fun _ => ?_, ?_, trivial⟩
  · rintro _ ⟨⟩ i -
    simp
  · rintro _ ⟨⟩

variable {body : List UInt8} {instrs : List Instruction} {i : Index}

theorem mem_initLocals_iff (h : ctx.ComesTo body instrs s instr) (hi : ctx.needsInit i) :
    i ∈ s.initLocals.getD [] ↔ SetBefore instrs i ∧ LosesInit instrs = false := by
  have hlost := h.initLocals_eq_none_iff
  obtain ⟨r, op, r', hrounds, -, hblocks, -⟩ := h
  cases hknown : s.initLocals with
  | none => simp [hlost.mp hknown]
  | some set =>
    have hkept : LosesInit instrs = false := by
      rw [← Bool.not_eq_true, ← hlost, hknown]
      exact nofun
    rw [Option.getD_some, (hrounds.tracks (tracks_reset ctx)).current hblocks set hknown i hi]
    exact (and_iff_left hkept).symm

theorem needsInit_of_localType {name : String} {t : ValueType}
    (htype : ctx.localType name i = .ok t)
    (href : t.isRef = true) (hnull : t.isNullable = false) :
    ctx.needsInit i = true ↔ ctx.inputLen ≤ i := by
  rw [needsInit, Bool.and_eq_true, decide_eq_true_eq]
  refine ⟨fun h => h.1, fun hlocal => ⟨hlocal, ?_⟩⟩
  simp only [localType, if_neg (not_lt.mpr hlocal)] at htype
  split at htype
  · cases htype
  · rw [index_eq_ok_iff.mp htype]
    simp [href, hnull]

/-- Reading a local of a non-nullable reference type is accepted exactly if it is a parameter or has
been set before in a block that is still open, unless it has been set but a `try_table` has been
closed since in a block that is still open. -/
theorem localGet_accepted_iff (hcomes : ctx.ComesTo body instrs s (.localGet i)) {t : ValueType}
    (htype : ctx.localType "local.get" i = .ok t) (href : t.isRef = true)
    (hnull : t.isNullable = false) :
    ((∃ s', ctx.checkInstruction s (.localGet i) = .ok s') ↔
      i < ctx.inputLen ∨ SetBefore instrs i) ↔
    ¬ (ctx.inputLen ≤ i ∧ SetBefore instrs i ∧ LosesInit instrs = true) := by
  have hneeds := needsInit_of_localType htype href hnull
  have haccepted : (∃ s', ctx.checkInstruction s (.localGet i) = .ok s') ↔
      (ctx.needsInit i = true → i ∈ s.initLocals.getD []) := by
    simp only [checkInstruction, checkLocalGet, htype, bind_ok, bind_eq_ok_iff, requireLocalInit,
      require_eq_ok_iff]
    cases ctx.needsInit i <;> simp [pure, Except.pure]
  rw [haccepted]
  by_cases hlocal : ctx.inputLen ≤ i
  · rw [mem_initLocals_iff hcomes (hneeds.mpr hlocal)]
    simp [hneeds, hlocal, not_lt.mpr hlocal]
  · simp [hneeds, hlocal, Nat.lt_of_not_le hlocal]

/-- The function has a parameter and a local of type `(ref func)`. -/
def storesParameter : FunctionContext :=
  { module := {}, features := BitVec.allOnes 64, functions := [], globals := [], memory := none,
    tables := [], tags := [], declaredFunctionIndexes := [],
    functionType := ⟨[.asNonNullable .funcref], [], "", 0, 0⟩,
    localTypes := [.asNonNullable .funcref] }

theorem localGet_accepted_iff_storesParameter :
    ∃ s, storesParameter.ComesTo [0x20, 0x00, 0x21, 0x01, 0x20, 0x01] [.localGet 0, .localSet 1] s
        (.localGet 1) ∧
      ∃ s', storesParameter.checkInstruction s (.localGet 1) = .ok s' := by
  have hcomes : storesParameter.ComesTo [0x20, 0x00, 0x21, 0x01, 0x20, 0x01]
      [.localGet 0, .localSet 1] _ (.localGet 1) :=
    ⟨_, _, _, .cons rfl nofun rfl rfl (.cons rfl nofun rfl rfl (.nil _ _)), rfl, nofun, rfl⟩
  refine ⟨_, hcomes, ((localGet_accepted_iff hcomes rfl rfl rfl).mpr ?_).mpr (.inr ?_)⟩
  · decide
  · decide

/-- Between the assignment and the read there is an empty `try_table`. -/
theorem localGet_rejected_after_tryTable :
    ∃ instrs s, storesParameter.ComesTo
        [0x20, 0x00, 0x21, 0x01, 0x1f, 0x40, 0x00, 0x0b, 0x20, 0x01] instrs s (.localGet 1) ∧
      SetBefore instrs 1 ∧
      storesParameter.checkInstruction s (.localGet 1) = .error (.err "uninitialized local 1") := by
  refine ⟨[.localGet 0, .localSet 1, .tryTable _ [], .endOp], _,
    ⟨_, _, _, .cons rfl nofun rfl rfl (.cons rfl nofun rfl rfl (.cons rfl nofun rfl rfl
      (.cons rfl nofun rfl rfl (.nil _ _)))), rfl, nofun, rfl⟩, ?_, rfl⟩
  simp [SetBefore, nextSets]

end FunctionContext

end Andsifr.Validation
