import Andsifr.Validation.ReadInstruction
import Andsifr.Validation.Returns

namespace Andsifr.Validation

open Lib Wasm List Parser

def maximumValuesOnStack : Nat := 2 ^ 27

namespace FunctionContext

/-- A round of the loop over the body: an instruction is read and checked. -/
def validateRound (ctx : FunctionContext) (s : Stacks) : Parser Stacks := do
  let op ← indexByte
  require (s.controlBlocks ≠ []) "unexpected end of function"
  let instr ← readInstruction ctx.types ctx.features op
  lift (ctx.checkInstruction s instr)

def validateRounds (ctx : FunctionContext) : (fuel : Nat) → Stacks → Parser Stacks
  | 0, _ => outOfFuel
  | fuel + 1, s => do
    let r ← reader
    if r.pos < r.bytes.length then do
      let s ← ctx.validateRound s
      ctx.validateRounds fuel s
    else
      return s

/-- `validateFunctionWithMaxStackValues`. Every round consumes an opcode, so the length of the body
bounds the rounds. -/
def validateFunction (ctx : FunctionContext) (body : List UInt8) : Check Unit := do
  let s ← (ctx.validateRounds (body.length + 1) (.reset ctx.functionType)).run body
  Check.require (s.controlBlocks = []) "ill-nested block exists"
  Check.require (s.maximumStackPointer ≤ maximumValuesOnStack)
    (s!"function may have {s.maximumStackPointer} stack values, which exceeds limit " ++
      s!"{maximumValuesOnStack}")

/-- Rounds on the given instructions that are passed without an error. -/
inductive Rounds (ctx : FunctionContext) :
    Reader → Stacks → List Instruction → Reader → Stacks → Prop where
  | nil (r : Reader) (s : Stacks) : Rounds ctx r s [] r s
  | cons {r r₁ r' : Reader} {s s₁ s' : Stacks} {op : UInt8} {instr : Instruction}
      {instrs : List Instruction} (hop : r.bytes[r.pos]? = some op) (hblocks : s.controlBlocks ≠ [])
      (hread : readInstruction ctx.types ctx.features op (r.advance 1) = .ok instr r₁)
      (hcheck : ctx.checkInstruction s instr = .ok s₁) (hrest : Rounds ctx r₁ s₁ instrs r' s') :
      Rounds ctx r s (instr :: instrs) r' s'

/-- Validation of the body passes the instructions `instrs` and comes, in the state `s`, to
`instr`. -/
def ComesTo (ctx : FunctionContext) (body : List UInt8) (instrs : List Instruction) (s : Stacks)
    (instr : Instruction) : Prop :=
  ∃ r op r', ctx.Rounds ⟨body, 0⟩ (.reset ctx.functionType) instrs r s ∧
    r.bytes[r.pos]? = some op ∧ s.controlBlocks ≠ [] ∧
    readInstruction ctx.types ctx.features op (r.advance 1) = .ok instr r'

variable {ctx : FunctionContext} {s : Stacks} {r : Reader}

theorem validateRound_eq_ok_iff {s' : Stacks} {r' : Reader} :
    ctx.validateRound s r = .ok s' r' ↔ ∃ op instr, r.bytes[r.pos]? = some op ∧
      s.controlBlocks ≠ [] ∧ readInstruction ctx.types ctx.features op
      (r.advance 1) = .ok instr r' ∧
      ctx.checkInstruction s instr = .ok s' := by
  constructor
  · intro h
    obtain ⟨op, r₁, hop, h⟩ := bind_inv h
    obtain ⟨hbyte, rfl⟩ := indexByte_eq_ok_iff.mp hop
    obtain ⟨u, r₂, hreq, h⟩ := bind_inv h
    obtain ⟨hblocks, rfl⟩ := require_eq_ok_iff.mp hreq
    obtain ⟨instr, r₃, hinstr, h⟩ := bind_inv h
    obtain ⟨hcheck, rfl⟩ := lift_eq_ok_iff.mp h
    exact ⟨op, instr, hbyte, of_decide_eq_true hblocks, hinstr, hcheck⟩
  · rintro ⟨op, instr, hop, hblocks, hinstr, hcheck⟩
    exact bind_eq_ok_iff.mpr ⟨op, _, indexByte_eq_ok_iff.mpr ⟨hop, rfl⟩, bind_eq_ok_iff.mpr ⟨(), _,
      require_eq_ok_iff.mpr ⟨decide_eq_true hblocks, rfl⟩, bind_eq_ok_iff.mpr ⟨instr, r', hinstr,
      lift_eq_ok_iff.mpr ⟨hcheck, rfl⟩⟩⟩⟩

section

variable (h : ctx.WellFormed)

include h

theorem validateRound_spec
    (hclosed : r.bytes.getLast? = some Opcode.opEnd) (hpos : r.pos < r.bytes.length) :
    ((ctx.validateRound s).Crashes r ↔ ∃ op instr r', r.bytes[r.pos]? = some op ∧
      s.controlBlocks ≠ [] ∧
      readInstruction ctx.types ctx.features op (r.advance 1) = .ok instr r' ∧
      ctx.Faults s instr) ∧
    ∀ s' r', ctx.validateRound s r = .ok s' r' → r'.bytes = r.bytes ∧ r.pos < r'.pos := by
  have hop : indexByte r = .ok r.bytes[r.pos] (r.advance 1) :=
    indexByte_eq_ok_iff.mpr ⟨getElem?_eq_getElem hpos, rfl⟩
  -- the last instruction is `end`, which has no immediates; the others are followed by a byte
  have hread : ¬ (readInstruction ctx.types ctx.features r.bytes[r.pos]).Crashes (r.advance 1) ∧
      ∀ instr r', readInstruction ctx.types ctx.features r.bytes[r.pos] (r.advance 1) =
        .ok instr r' → r'.bytes = r.bytes ∧ r.pos + 1 ≤ r'.pos := by
    by_cases hend : r.bytes[r.pos] = Opcode.opEnd
    · rw [hend]
      refine ⟨?_, ?_⟩
      · rintro ⟨c, hc⟩
        cases hc
      · rintro instr r' ⟨⟩
        exact ⟨rfl, le_refl _⟩
    · exact follows_readInstruction _ _ _ (r.advance 1) hclosed
        (lt_of_ne_end hclosed (getElem?_eq_getElem hpos) hend)
  constructor
  · rw [validateRound, crashes_bind, or_iff_right (by rw [crashes_indexByte]; omega)]
    constructor
    · rintro ⟨op, r₁, hop', hcrash⟩
      rw [hop] at hop'
      cases hop'
      obtain ⟨hblocks, hcrash⟩ := crashes_require_bind.mp hcrash
      have hblocks := of_decide_eq_true hblocks
      rcases crashes_bind.mp hcrash with hcrash | ⟨instr, r', hinstr, hcrash⟩
      · exact absurd hcrash hread.1
      · exact ⟨_, instr, r', getElem?_eq_getElem hpos, hblocks, hinstr,
          (crashes_checkInstruction_iff h hblocks instr).mp (crashes_lift.mp hcrash)⟩
    · rintro ⟨op, instr, r', hbyte, hblocks, hinstr, hfault⟩
      refine ⟨op, r.advance 1, indexByte_eq_ok_iff.mpr ⟨hbyte, rfl⟩, ?_⟩
      refine crashes_require_bind.mpr ⟨decide_eq_true hblocks, crashes_bind.mpr (.inr ?_)⟩
      exact ⟨instr, r', hinstr,
        crashes_lift.mpr ((crashes_checkInstruction_iff h hblocks instr).mpr hfault)⟩
  · intro s' r' hround
    obtain ⟨op, instr, hop', -, hinstr, -⟩ := validateRound_eq_ok_iff.mp hround
    rw [getElem?_eq_getElem hpos] at hop'
    cases hop'
    exact hread.2 instr _ hinstr

theorem Rounds.bytes {r' : Reader} {s' : Stacks} {instrs : List Instruction}
    (hrounds : ctx.Rounds r s instrs r' s') (hclosed : r.bytes.getLast? = some Opcode.opEnd) :
    r'.bytes = r.bytes := by
  induction hrounds with
  | nil => rfl
  | cons hop hblocks hread hcheck _ ih =>
    have hround := validateRound_eq_ok_iff.mpr ⟨_, _, hop, hblocks, hread, hcheck⟩
    have hlt := (List.getElem?_eq_some_iff.mp hop).1
    have hbytes := ((validateRound_spec h hclosed hlt).2 _ _ hround).1
    rw [ih (by rwa [hbytes]), hbytes]

theorem crashes_validateRounds_iff {fuel : Nat}
    (hclosed : r.bytes.getLast? = some Opcode.opEnd) (hfuel : 0 < fuel)
    (hlen : r.bytes.length < fuel + r.pos) :
    (ctx.validateRounds fuel s).Crashes r ↔
      ∃ instrs r' s', ctx.Rounds r s instrs r' s' ∧ r'.pos < r'.bytes.length ∧
        (ctx.validateRound s').Crashes r' := by
  induction fuel generalizing r s with
  | zero => omega
  | succ fuel ih =>
    rw [validateRounds, Tame.crashes_bind]
    constructor
    · rintro ⟨_, _, hreader, hcrash⟩
      cases hreader
      split at hcrash
      next hlt =>
        have hspec := (validateRound_spec h (s := s) hclosed hlt).2
        rcases crashes_bind.mp hcrash with hcrash | ⟨s₁, r₁, hround, hcrash⟩
        · exact ⟨[], _, s, .nil _ s, hlt, hcrash⟩
        · obtain ⟨hbytes, hpos⟩ := hspec s₁ r₁ hround
          rw [ih (by rwa [hbytes]) (by omega) (by rw [hbytes]; omega)] at hcrash
          obtain ⟨instrs, r', s', hrounds, hcrash⟩ := hcrash
          obtain ⟨op, instr, hop, hblocks, hread, hcheck⟩ := validateRound_eq_ok_iff.mp hround
          exact ⟨instr :: instrs, r', s', .cons hop hblocks hread hcheck hrounds, hcrash⟩
      next => exact absurd hcrash ((tame_pure _).safe _)
    · rintro ⟨instrs, r', s', hrounds, hlt', hcrash⟩
      refine ⟨r, r, rfl, ?_⟩
      cases hrounds with
      | nil =>
        rw [if_pos hlt']
        exact crashes_bind.mpr (.inl hcrash)
      | cons hop hblocks hread hcheck hrest =>
        have hround := validateRound_eq_ok_iff.mpr ⟨_, _, hop, hblocks, hread, hcheck⟩
        have hlt := (List.getElem?_eq_some_iff.mp hop).1
        obtain ⟨hbytes, hpos⟩ := (validateRound_spec h hclosed hlt).2 _ _ hround
        rw [if_pos hlt]
        refine crashes_bind.mpr (.inr ⟨_, _, hround, ?_⟩)
        exact (ih (by rwa [hbytes]) (by omega) (by rw [hbytes]; omega)).mpr
          ⟨_, r', s', hrest, hlt', hcrash⟩

theorem crashes_validateFunction_iff {body : List UInt8}
    (hclosed : body.getLast? = some Opcode.opEnd) :
    Check.Crashes (ctx.validateFunction body) ↔
      ∃ instrs s instr, ctx.ComesTo body instrs s instr ∧ ctx.Faults s instr := by
  have hrest (s : Stacks) : Check.Returns (do
      Check.require (s.controlBlocks = []) "ill-nested block exists"
      Check.require (s.maximumStackPointer ≤ maximumValuesOnStack)
        (s!"function may have {s.maximumStackPointer} stack values, which exceeds limit " ++
          s!"{maximumValuesOnStack}")) :=
    (Check.returns_require _ _).bind fun _ _ => Check.returns_require _ _
  rw [validateFunction, Check.crashes_bind, or_iff_left fun ⟨s, _, hs⟩ => hrest s hs, crashes_run,
    crashes_validateRounds_iff h hclosed (by omega) (by simp)]
  constructor
  · rintro ⟨instrs, r, s, hrounds, hlt, hcrash⟩
    have hbytes := hrounds.bytes h hclosed
    obtain ⟨op, instr, r', hop, hblocks, hinstr, hfault⟩ :=
      (validateRound_spec h (by rwa [hbytes]) hlt).1.mp hcrash
    exact ⟨instrs, s, instr, ⟨r, op, r', hrounds, hop, hblocks, hinstr⟩, hfault⟩
  · rintro ⟨instrs, s, instr, ⟨r, op, r', hrounds, hop, hblocks, hinstr⟩, hfault⟩
    have hbytes := hrounds.bytes h hclosed
    have hlt := (List.getElem?_eq_some_iff.mp hop).1
    exact ⟨instrs, r, s, hrounds, hlt, (validateRound_spec h (by rwa [hbytes]) hlt).1.mpr
      ⟨op, instr, r', hop, hblocks, hinstr, hfault⟩⟩

end

end FunctionContext

end Andsifr.Validation
