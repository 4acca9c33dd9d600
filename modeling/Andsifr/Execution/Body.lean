import Andsifr.Binary.Decoded
import Andsifr.Execution.Soundness

namespace Andsifr.Validation

open Lib Lib.Parser Leb128 Wasm Check.Ensures Check Ensures

section

variable {types : List FunctionType}
  (htypes : ∀ ft ∈ types, ∀ t ∈ ft.params ++ ft.results, t.Proper)
  (features : CoreFeatures)

def BlockType.Proper (type : BlockType) : Prop :=
  ∀ t ∈ type.params ++ type.results, t.Proper

theorem blockType_result {t : ValueType} (ht : t.Proper) : BlockType.Proper ⟨[], [t]⟩ :=
  fun _ hu => List.mem_singleton.mp hu ▸ ht

include htypes in
theorem proper_decodeBlockType : (decodeBlockType types features).Ensures BlockType.Proper := by
  have href (nullable : Bool) : (decodeBlockRefType types nullable).Ensures BlockType.Proper := by
    have hcheck (ht : Int) : Check.Ensures ValueType.Proper (blockRefType types nullable ht) :=
      ite (ensures_pure (.inl rfl)) (ite (ensures_pure (.inl rfl)) (ite (ensures_pure (.inl rfl))
        (ite (ensures_fail _) (ite (ensures_fail _)
        (ensures_pure (.inl rfl))))))
    exact ensures_bind fun ⟨ht, _⟩ => (ensures_lift (hcheck ht)).bind fun t h =>
      ensures_pure (blockType_result h)
  have hindex (raw : Int) : Check.Ensures BlockType.Proper
    (blockTypeOfIndex types features raw) := by
    refine ite (ite (ensures_fail _) fun type h => ?_) (ensures_fail _)
    obtain ⟨ft, hft, h⟩ := bind_inv h
    cases h
    exact htypes ft (List.mem_of_getElem? (index_eq_ok_iff.mp hft))
  refine ensures_bind fun ⟨raw, _⟩ => ?_
  simp only
  split
  · exact ensures_pure fun t ht => by cases ht
  iterate 8 · exact ensures_pure (blockType_result (by decide))
  · exact href true
  · exact href false
  · exact ensures_lift (hindex raw)

include htypes in
theorem proper_readBlockType : (readBlockType types features).Ensures BlockType.Proper :=
  (proper_decodeBlockType htypes features).sliced.mapErr _

theorem proper_readRefNull (types : List FunctionType) :
    (readRefNull types features).Ensures Instruction.Proper := by
  have hnull (b : UInt8) : (readNullType types features b).Ensures Instruction.Proper := by
    unfold readNullType
    split
    next hb =>
      refine ensures_bind fun _ => ensures_pure ?_
      rcases hb with rfl | rfl | rfl <;> rfl
    next =>
      exact ensures_bind₂ fun _ _ => ensures_bind fun _ => ensures_pure rfl
  refine ensures_bind fun b => ?_
  cases b with
  | none =>
    rintro r instr r' ⟨⟩
  | some b => exact hnull b

theorem proper_readTypedSelect (types : List FunctionType) :
    (readTypedSelect types).Ensures Instruction.Proper := by
  have hcheck (nullable : Bool) (ht : Int) :
      Check.Ensures ValueType.Proper (selectRefType types nullable ht) :=
    ite (ensures_pure (.inl rfl)) (ite (ensures_pure (.inl rfl)) (ite (ensures_pure (.inl rfl))
      (ite (ensures_fail _) (ite (ensures_fail _)
      (ensures_pure (.inl rfl))))))
  refine ensures_bind₂ fun _ _ => ensures_bind fun b => ite ?_ ?_
  · exact ensures_bind fun ⟨ht, _⟩ => (ensures_lift (hcheck _ ht)).bind fun t h => ensures_pure h
  · intro r instr r' h
    obtain ⟨_, r₁, hreq, h⟩ := bind_inv h
    cases h
    have hmem := List.contains_iff_mem.mp (require_eq_ok_iff.mp hreq).1
    have hall : ∀ t ∈ [ValueType.i32, .i64, .f32, .f64, .externref, .funcref, .v128], t.Proper := by
      decide
    exact hall _ hmem

theorem proper_readMisc : readMisc.Ensures Instruction.Proper := by
  refine ensures_bind fun op => ?_
  split
  all_goals first
    | exact ensures_pure trivial
    | exact ensures_bind fun _ => ensures_pure trivial
    | exact ensures_bind₂ fun _ _ => ensures_pure trivial
    | skip
  exact ite (ensures_fail _) (ensures_fail _)

theorem proper_readVec : readVec.Ensures Instruction.Proper := by
  refine ensures_bind fun op => ite ?_ (ite ?_ (ite ?_ (ite ?_ (ite ?_ (ensures_pure trivial)))))
  · exact ensures_bind fun _ => ensures_pure trivial
  · exact ensures_bind fun _ => ensures_pure trivial
  · exact ensures_bind₂ fun _ _ => ensures_pure trivial
  · exact ensures_bind fun _ => ensures_pure trivial
  · exact ensures_bind fun _ => ensures_pure trivial

theorem proper_readAtomic : readAtomic.Ensures Instruction.Proper :=
  ensures_bind fun _ => ite (ensures_bind₂ fun _ _ => ensures_pure trivial)
    (ensures_bind fun _ => ensures_pure trivial)

include htypes in
theorem proper_readInstruction (op : UInt8) :
    (readInstruction types features op).Ensures Instruction.Proper := by
  have hblock := proper_readBlockType htypes features
  unfold readInstruction
  split
  all_goals first
    | exact ensures_pure trivial
    | exact ensures_bind fun _ => ensures_pure trivial
    | exact ensures_bind₂ fun _ _ => ensures_pure trivial
    | exact ensures_bind₂ fun _ _ => ensures_bind fun _ => ensures_pure trivial
    | exact hblock.bind fun _ h => ensures_pure h
    | exact hblock.bind fun _ h => ensures_bind₂ fun _ _ => ensures_pure h
    | exact proper_readTypedSelect types
    | exact proper_readRefNull features types
    | exact proper_readMisc
    | exact proper_readVec
    | exact proper_readAtomic
    | skip
  exact ite (ensures_bind fun _ => ensures_pure trivial) (ite (ensures_pure trivial)
    (ite (ensures_fail _) (ensures_fail _)))

end

namespace FunctionContext

def readBody (types : List FunctionType) (features : CoreFeatures) :
    (fuel : Nat) → Parser (List Instruction)
  | 0 => outOfFuel
  | fuel + 1 => do
    let r ← reader
    if r.pos < r.bytes.length then do
      let op ← indexByte
      let instr ← readInstruction types features op
      let rest ← readBody types features fuel
      return instr :: rest
    else
      return []

def instructions (ctx : FunctionContext) (body : List UInt8) : Check (List Instruction) :=
  (readBody ctx.types ctx.features (body.length + 1)).run body

variable {ctx : FunctionContext} {s s' : Stacks} {r r' : Reader} {instrs : List Instruction}

theorem rounds_of_validateRounds {fuel : Nat} (h : ctx.validateRounds fuel s r = .ok s' r') :
    ∃ instrs, ctx.Rounds r s instrs r' s' ∧
      readBody ctx.types ctx.features fuel r = .ok instrs r' := by
  induction fuel generalizing r s with
  | zero => cases h
  | succ fuel ih =>
    obtain ⟨_, _, hreader, h⟩ := bind_inv h
    cases hreader
    split at h
    next hlt =>
      obtain ⟨s₁, r₁, hround, h⟩ := bind_inv h
      obtain ⟨op, instr, hop, hblocks, hread, hcheck⟩ := validateRound_eq_ok_iff.mp hround
      obtain ⟨instrs, hrounds, hbody⟩ := ih h
      refine ⟨instr :: instrs, .cons hop hblocks hread hcheck hrounds, ?_⟩
      refine bind_eq_ok_iff.mpr ⟨r, r, rfl, ?_⟩
      rw [if_pos hlt]
      exact bind_eq_ok_iff.mpr ⟨op, _, indexByte_eq_ok_iff.mpr ⟨hop, rfl⟩, bind_eq_ok_iff.mpr
        ⟨instr, _, hread, bind_eq_ok_iff.mpr ⟨instrs, _, hbody, rfl⟩⟩⟩
    next hge =>
      cases h
      refine ⟨[], .nil _ _, bind_eq_ok_iff.mpr ⟨_, _, rfl, ?_⟩⟩
      rw [if_neg hge]
      rfl

theorem Rounds.concat {r₁ r₂ : Reader} {s₁ s₂ : Stacks} {op : UInt8} {instr : Instruction}
    (h : ctx.Rounds r s instrs r₁ s₁) (hop : r₁.bytes[r₁.pos]? = some op)
    (hblocks : s₁.controlBlocks ≠ [])
    (hread : readInstruction ctx.types ctx.features op (r₁.advance 1) = .ok instr r₂)
    (hcheck : ctx.checkInstruction s₁ instr = .ok s₂) :
    ctx.Rounds r s (instrs ++ [instr]) r₂ s₂ := by
  induction h with
  | nil => exact .cons hop hblocks hread hcheck (.nil _ _)
  | cons hop' hblocks' hread' hcheck' _ ih =>
    exact .cons hop' hblocks' hread' hcheck' (ih hop hblocks hread hcheck)

theorem passes_of_rounds (hctx : ctx.Proper) {body : List UInt8} {before : List Instruction}
    (hstrict : ∀ instrs s instr, ctx.ComesTo body instrs s instr → ctx.Strict s instr)
    (hbefore : ctx.Rounds ⟨body, 0⟩ (.reset ctx.functionType) before r s)
    (h : ctx.Rounds r s instrs r' s') : ctx.Passes s instrs s' := by
  induction h generalizing before with
  | nil => exact .nil _
  | cons hop hblocks hread hcheck _ ih =>
    refine .cons hblocks (proper_readInstruction hctx.types _ _ _ _ _ hread)
      (hstrict before _ _ ⟨_, _, _, hbefore, hop, hblocks, hread⟩) hcheck ?_
    exact ih (hbefore.concat hop hblocks hread hcheck)

theorem rounds_of_validateFunction {body : List UInt8}
    (hvalid : ctx.validateFunction body = .ok ()) :
    ∃ code sf r, ctx.instructions body = .ok code ∧ sf.controlBlocks = [] ∧
      ctx.Rounds ⟨body, 0⟩ (.reset ctx.functionType) code r sf := by
  obtain ⟨sf, hrounds, h⟩ := bind_inv hvalid
  obtain ⟨_, hblocks, -⟩ := bind_inv h
  have hblocks := of_decide_eq_true (require_eq_ok_iff.mp hblocks)
  obtain ⟨r, hrounds⟩ := run_eq_ok_iff.mp hrounds
  obtain ⟨code, hrounds, hbody⟩ := rounds_of_validateRounds hrounds
  exact ⟨code, sf, r, run_eq_ok_iff.mpr ⟨r, hbody⟩, hblocks, hrounds⟩

end FunctionContext

end Andsifr.Validation

namespace Andsifr.Execution

open Lib Wasm Validation Validation.Stacks Validation.FunctionContext

variable {ctx : FunctionContext}

theorem localsTyped_initial (hctx : ctx.Proper) {args : List Value}
    (hargs : Typed ctx.types args ctx.functionType.params) (init : Option (List Index))
    (hinit : init.getD [] = []) :
    LocalsTyped ctx init (args ++ ctx.localTypes.map Value.default) := by
  refine ⟨by simp [localTypes, hargs.length_eq], fun i t ht hread => ?_⟩
  have hinput : ctx.inputLen = ctx.functionType.params.length := Nat.mod_eq_of_lt hctx.paramCount
  have hlength := hargs.length_eq
  rcases hread with hread | hread
  · unfold localTypes at ht
    rcases lt_or_ge i ctx.functionType.params.length with hlt | hge
    · rw [List.getElem?_append_left hlt] at ht
      rw [List.getElem?_append_left (by omega)]
      have htyped := (List.forall₂_iff_get.mp hargs).2 i (by omega) hlt
      rw [List.getElem?_eq_getElem hlt] at ht
      cases ht
      exact ⟨_, List.getElem?_eq_getElem (by omega), htyped⟩
    · rw [List.getElem?_append_right hge] at ht
      rw [List.getElem?_append_right (by omega), hlength, List.getElem?_map, ht]
      refine ⟨.default t, rfl, hasType_default (hctx.locals t (List.mem_of_getElem? ht))
        fun href => ?_⟩
      -- a reference that needs no initialisation may be null
      simpa [needsInit, hinput, hge, ht, href] using hread
  · rw [hinit] at hread
    cases hread

theorem wellTyped_initial (hctx : ctx.Proper) {sf : Stacks} {code : List Instruction}
    (hpasses : ctx.Passes (.reset ctx.functionType) code sf) {args : List Value}
    (hargs : Typed ctx.types args ctx.functionType.params) :
    WellTyped ctx sf (.initial ctx code args) :=
  .running (s := .reset ctx.functionType) ⟨hpasses, by simp [reset], .nil, .function rfl rfl,
      localsTyped_initial hctx hargs _ rfl⟩

end Andsifr.Execution
