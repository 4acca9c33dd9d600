import Andsifr.Binary.Decoded
import Andsifr.Validation.Frame

namespace Andsifr.Validation

open Lib Wasm List Check

/-- What becomes of the set of initialised locals, as far as the blocks decide it: whether it is a
nil map, and whether the copy that the end of each open block restores is one, innermost first. -/
structure InitTrace where
  lost : Bool
  saved : List Bool

namespace InitTrace

/-- Every block restores the set it was entered with, except that `try_table` saves none. -/
def next (t : InitTrace) : Instruction → InitTrace
  | .block _ | .loop _ | .ifOp _ => ⟨t.lost, t.lost :: t.saved⟩
  | .tryTable _ _ => ⟨t.lost, true :: t.saved⟩
  | .elseOp => ⟨t.saved.headD false, t.saved⟩
  | .endOp => ⟨if t.saved.tail = [] then t.lost else t.saved.headD false, t.saved.tail⟩
  | _ => t

def start : InitTrace :=
  ⟨false, [true]⟩

end InitTrace

/-- A `try_table` has been closed in a block, or in an arm of an `if`, that is still open. -/
def LosesInit (instrs : List Instruction) : Bool :=
  (instrs.foldl InitTrace.next .start).lost

def Stacks.initTrace (s : Stacks) : InitTrace :=
  ⟨s.initLocals.isNone, s.controlBlocks.map (·.savedInitLocals.isNone)⟩

namespace Stacks

theorem Within.initTrace {s s' : Stacks} (h : Within s s') : s'.initTrace = s.initTrace := by
  simp only [Stacks.initTrace, h.blocks, h.initLocals.isNone]

theorem initTrace_enter {types : List FunctionType} {s s' : Stacks} {kind : BlockKind}
    {context : String} {type : BlockType} {saved : Option (List Index)}
    (h : s.enter types kind context type saved = .ok s') :
    s'.initTrace = ⟨s.initLocals.isNone, saved.isNone :: s.initTrace.saved⟩ := by
  obtain ⟨s₁, hreq, h⟩ := bind_inv h
  cases h
  exact ((quiet_requireStackValues _ hreq).trans (quiet_pushAll _ _)).initTrace

end Stacks

namespace FunctionContext

open Stacks

variable {ctx : FunctionContext} {s s' : Stacks}

theorem initTrace_checkElse (h : ctx.checkElse s = .ok s') :
    s'.initTrace = s.initTrace.next .elseOp := by
  unfold checkElse at h
  split at h
  · cases h
  next b outer hblocks =>
    split at h
    · cases h
    · obtain ⟨s₁, hreq, h⟩ := bind_inv h
      cases h
      rw [((quiet_resetAtStackLimit _).trans (quiet_pushAll _ _)).initTrace]
      simp [Stacks.initTrace, InitTrace.next, hblocks]

theorem initTrace_checkEnd (h : ctx.checkEnd s = .ok s') :
    s'.initTrace = s.initTrace.next .endOp := by
  unfold checkEnd at h
  split at h
  · cases h
  next b outer hblocks =>
    obtain ⟨_, -, h⟩ := bind_inv h
    obtain ⟨s₁, hreq, h⟩ := bind_inv h
    cases h
    refine (((quiet_requireStackValues _ hreq).trans (quiet_resetAtStackLimit _)).trans
      (quiet_pushAll _ _)).initTrace.trans ?_
    simp only [Stacks.initTrace, InitTrace.next, hblocks, map_cons, tail_cons,
      headD_cons, map_eq_nil_iff]
    split <;> rfl

variable {instr : Instruction}

theorem initTrace_checkInstruction
    (h : ctx.checkInstruction s instr = .ok s') : s'.initTrace = s.initTrace.next instr := by
  cases hstructured : instr.isStructured with
  | false =>
    have hnext : s.initTrace.next instr = s.initTrace := by
      cases instr <;> first | rfl | cases hstructured
    rw [hnext, (within_checkInstruction hstructured _ h).initTrace]
  | true =>
    cases instr with
    | block type | loop type => exact initTrace_enter h
    | ifOp type =>
      obtain ⟨s₁, hpop, h⟩ := bind_inv h
      have hsame := (quiet_popAndVerifyType _ (mapErr_inv hpop)).initTrace
      have henter := initTrace_enter h
      simp only [Stacks.initTrace, InitTrace.mk.injEq] at hsame henter ⊢
      simp [InitTrace.next, henter, hsame]
    | elseOp => exact initTrace_checkElse h
    | tryTable type catches =>
      obtain ⟨_, -, h⟩ := bind_inv h
      obtain ⟨_, -, h⟩ := bind_inv h
      exact initTrace_enter h
    | endOp => exact initTrace_checkEnd h
    | _ => cases hstructured

variable {instrs : List Instruction}

theorem Rounds.initTrace {r r' : Reader}
    (h : ctx.Rounds r s instrs r' s') : s'.initTrace = instrs.foldl InitTrace.next s.initTrace := by
  induction h with
  | nil => rfl
  | cons hop hblocks hread hcheck _ ih => rw [ih, initTrace_checkInstruction hcheck, foldl_cons]

/-- The instructions on which validation panics: a call of a function whose type index is out of
range, and the assignment of an accepted operand to a local of a non-nullable reference type after a
`try_table`. -/
def Faulty (ctx : FunctionContext) (instrs : List Instruction) (s : Stacks) : Instruction → Prop
  | .call f | .returnCall f => ∃ t, ctx.functions[f]? = some t ∧ ctx.types.length ≤ t
  | .localSet i | .localTee i =>
    ctx.needsInit i ∧ LosesInit instrs ∧
      ∃ t s', ctx.localType "" i = .ok t ∧ s.popAndVerifyType ctx.types t = .ok s'
  | _ => False

theorem ComesTo.initLocals_eq_none_iff {body : List UInt8}
    (h : ctx.ComesTo body instrs s instr) :
    s.initLocals = none ↔ LosesInit instrs = true := by
  obtain ⟨r, op, r', hrounds, -⟩ := h
  rw [← Option.isNone_iff_eq_none]
  exact iff_of_eq (congrArg (InitTrace.lost · = true) hrounds.initTrace)

theorem faults_iff_faulty {body : List UInt8}
    (h : ctx.ComesTo body instrs s instr) : ctx.Faults s instr ↔ ctx.Faulty instrs s instr := by
  cases instr <;> simp only [Faults, Faulty, h.initLocals_eq_none_iff]

end FunctionContext

namespace Module

open FunctionContext

/-- Validation of a module that was decoded returns if and only if it comes to no faulty
instruction. -/
theorem validate_returns_iff (cfg : Binary.Config) (binary : List UInt8) (m : Module) (r : Reader)
    (hdecode : Binary.decodeModule cfg binary = .ok m r) (features : CoreFeatures) :
    Returns (validate m features) ↔
      ∀ i ctx body instrs s instr, ReachesBody m features i ctx body →
        ctx.ComesTo body instrs s instr → ¬ ctx.Faulty instrs s instr := by
  rw [Returns, crashes_validate_iff_faults (Binary.decoded_of_decodeModule cfg hdecode)]
  constructor
  · intro h i ctx body instrs s instr hreach hcomes hfaulty
    exact h ⟨i, ctx, body, instrs, s, instr, hreach, hcomes, (faults_iff_faulty hcomes).mpr hfaulty⟩
  · rintro h ⟨i, ctx, body, instrs, s, instr, hreach, hcomes, hfaults⟩
    exact h i ctx body instrs s instr hreach hcomes ((faults_iff_faulty hcomes).mp hfaults)

/-- A `try_table` in a block, then `local.set 1` and `call 1`. -/
def closedTryTable : List UInt8 :=
  [0x02, 0x40, 0x1f, 0x40, 0x00, 0x0b, 0x0b, 0x20, 0x00, 0x21, 0x01, 0x10, 0x01, 0x0b]

theorem comesTo_localSet (m : Module) (d : Declarations) (declared : List Index) (string : String) :
    ∃ s, (functionContext m (BitVec.allOnes 64) d declared
      ⟨[ValueType.funcref.asNonNullable], [], string, 0, 0⟩
      [ValueType.funcref.asNonNullable]).ComesTo closedTryTable
        [.block ⟨[], []⟩, .tryTable ⟨[], []⟩ [], .endOp, .endOp, .localGet 0] s (.localSet 1) := by
  have hopen {b : ControlBlock} {blocks : List ControlBlock} : b :: blocks ≠ [] :=
    cons_ne_nil _ _
  have hfeature : CoreFeatures.isEnabled (BitVec.allOnes 64) .exceptionHandling = true := rfl
  exact ⟨_, _, _, _, .cons rfl hopen rfl rfl (.cons rfl hopen rfl
    (bind_eq_ok_iff.mpr ⟨(), require_eq_ok_iff.mpr hfeature, rfl⟩) (.cons rfl hopen rfl rfl
      (.cons rfl hopen rfl rfl (.cons rfl hopen rfl rfl (.nil _ _))))), rfl, hopen, rfl⟩

/-- The block around the `try_table` is closed too, so `local.set` is not faulty. -/
theorem validate_returns_iff_call_localSet :
    ∃ m r, Binary.decodeModule ⟨BitVec.allOnes 64, 65536, false, false, false⟩
        ([0x00, 0x61, 0x73, 0x6d, 0x01, 0x00, 0x00, 0x00,
          0x01, 0x09, 0x02, 0x60, 0x01, 0x64, 0x70, 0x00, 0x60, 0x00, 0x00,
          0x03, 0x03, 0x02, 0x00, 0x01,
          0x0a, 0x17, 0x02, 0x12, 0x01, 0x01, 0x64, 0x70] ++ closedTryTable ++ [0x02, 0x00, 0x0b]) =
        .ok m r ∧
      Returns (validate m (BitVec.allOnes 64)) ∧
      (∃ ctx s, ReachesBody m (BitVec.allOnes 64) 0 ctx closedTryTable ∧ ctx.needsInit 1 ∧
        ctx.ComesTo closedTryTable
          [.block ⟨[], []⟩, .tryTable ⟨[], []⟩ [], .endOp, .endOp, .localGet 0] s (.localSet 1)) ∧
      ∀ i ctx body instrs s instr, ReachesBody m (BitVec.allOnes 64) i ctx body →
        ctx.ComesTo body instrs s instr → ¬ ctx.Faulty instrs s instr := by
  refine ⟨?_, ?_, ?decoded, ?returns, ?comes,
    (validate_returns_iff _ _ _ _ ?decoded _).mp ?returns⟩
  case decoded => rfl
  case returns => exact returns_iff.mpr (.inl ⟨(), rfl⟩)
  case comes =>
    obtain ⟨s, hs⟩ := comesTo_localSet _ _ _ _
    exact ⟨_, s, ⟨_, _, _, _, _, rfl, rfl, rfl, rfl, rfl, by decide, rfl, rfl, rfl, rfl⟩, rfl, hs⟩

/-- The first function takes a `(ref func)` and, after an empty `try_table`, stores it in a local of
that type. In the second module a function calls a later one whose type index is out of range. -/
theorem validate_panics :
    (∃ m r, Binary.decodeModule ⟨BitVec.allOnes 64, 65536, false, false, false⟩
        [0x00, 0x61, 0x73, 0x6d, 0x01, 0x00, 0x00, 0x00,
          0x01, 0x06, 0x01, 0x60, 0x01, 0x64, 0x70, 0x00,
          0x03, 0x02, 0x01, 0x00,
          0x0a, 0x0f, 0x01, 0x0d, 0x01, 0x01, 0x64, 0x70, 0x1f, 0x40, 0x00, 0x0b, 0x20,
            0x00, 0x21, 0x01,
          0x0b] = .ok m r ∧
      validate m (BitVec.allOnes 64) = .error (.crash (.panic "assignment to entry in nil map"))) ∧
    ∃ m r, Binary.decodeModule ⟨BitVec.allOnes 64, 65536, false, false, false⟩
        [0x00, 0x61, 0x73, 0x6d, 0x01, 0x00, 0x00, 0x00,
          0x01, 0x04, 0x01, 0x60, 0x00, 0x00,
          0x03, 0x03, 0x02, 0x00, 0x05,
          0x0a, 0x09, 0x02, 0x04, 0x00, 0x10, 0x01, 0x0b, 0x02, 0x00, 0x0b] = .ok m r ∧
      validate m (BitVec.allOnes 64) =
        .error (.crash (.panic "runtime error: index out of range [5] with length 1")) :=
  ⟨⟨_, _, rfl, rfl⟩, ⟨_, _, rfl, rfl⟩⟩

end Module

end Andsifr.Validation
