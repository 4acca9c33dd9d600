import Andsifr.Wasm.ConstExpr

namespace Andsifr.Wasm

open Lib Leb128 Opcode Parser

/-- The loop of `constExprReferencesGlobal` from the reader's position on. -/
def referencesGlobalLoop : (fuel : Nat) → Reader → Bool
  | 0, _ => true
  | fuel + 1, r =>
    match r.bytes[r.pos]? with
    | none => true
    | some op =>
      if op = globalGet then true
      else if op = opEnd then false
      else if op = i32Const then
        match sliced decodeInt32 (r.advance 1) with
        | .ok _ r => referencesGlobalLoop fuel r
        | _ => true
      else if op = i64Const then
        match sliced decodeInt64 (r.advance 1) with
        | .ok _ r => referencesGlobalLoop fuel r
        | _ => true
      else if op = i32Add ∨ op = i32Sub ∨ op = i32Mul ∨ op = i64Add ∨
          op = i64Sub ∨ op = i64Mul then
        referencesGlobalLoop fuel (r.advance 1)
      else true

/-- Whether the expression contains a `global.get`, or anything that is not part of an integer
expression. -/
def constExprReferencesGlobal (e : ConstantExpression) : Bool :=
  referencesGlobalLoop (e.data.length + 1) ⟨e.data, 0⟩

/-- The check accepts only instructions that use no resolver. -/
theorem decode_of_referencesGlobalLoop {fuel : Nat} {r : Reader} {op : UInt8}
    (hop : r.bytes[r.pos]? = some op) (hend : op ≠ opEnd)
    (h : referencesGlobalLoop (fuel + 1) r = false) :
    ∃ instr r', ConstInstruction.decode op (r.advance 1) = .ok instr r' ∧
      (∀ resolvers resolvers' s, instr.apply resolvers s = instr.apply resolvers' s) ∧
      referencesGlobalLoop fuel r' = false := by
  rw [referencesGlobalLoop, hop] at h
  simp only at h
  by_cases hget : op = globalGet
  · rw [if_pos hget] at h
    cases h
  rw [if_neg hget, if_neg hend] at h
  split at h
  next heq =>
    split at h
    next v r' hread =>
      refine ⟨.const [(v.1 % 2 ^ 32).toNat] .i32, r', ?_, fun _ _ _ => rfl, h⟩
      rw [heq, ConstInstruction.decode, if_pos rfl, bind_run, Parser.mapErr, hread]
      rfl
    next => cases h
  split at h
  next heq =>
    split at h
    next v r' hread =>
      refine ⟨.const [(v.1 % 2 ^ 64).toNat] .i64, r', ?_, fun _ _ _ => rfl, h⟩
      rw [heq, ConstInstruction.decode, if_neg (by decide), if_pos rfl, bind_run, Parser.mapErr,
        hread]
      rfl
    next => cases h
  next =>
    split at h
    next heq =>
      obtain rfl | rfl | rfl | rfl | rfl | rfl := heq <;>
        exact ⟨_, _, rfl, fun _ _ _ => rfl, h⟩
    next => cases h

section

variable (resolvers resolvers' : Resolvers)

theorem evaluateLoop_congr {fuel : Nat} {r : Reader} (h : referencesGlobalLoop fuel r = false)
    (s : ConstState) : evaluateLoop resolvers fuel r s = evaluateLoop resolvers' fuel r s := by
  induction fuel generalizing r s with
  | zero => cases h
  | succ fuel ih =>
    rw [evaluateLoop, evaluateLoop]
    cases hop : r.bytes[r.pos]? with
    | none => rfl
    | some op =>
      simp only
      by_cases hend : op = opEnd
      · rw [if_pos hend, if_pos hend]
      rw [if_neg hend, if_neg hend]
      obtain ⟨instr, r', hdecode, happly, h⟩ := decode_of_referencesGlobalLoop hop hend h
      have heq (res : Resolvers) : evaluateInstruction res s op (r.advance 1) =
          lift (instr.apply resolvers s) r' := by
        rw [evaluateInstruction, bind_run, hdecode, happly resolvers res]
      rw [heq, heq]
      cases instr.apply resolvers s with
      | ok s' => exact ih h s'
      | error e => cases e <;> rfl

/-- An expression that references no global has the same value everywhere. -/
theorem evaluateConstExpr_congr {e : ConstantExpression} (h : constExprReferencesGlobal e = false) :
    evaluateConstExpr e resolvers = evaluateConstExpr e resolvers' :=
  evaluateLoop_congr resolvers resolvers' h {}

end

end Andsifr.Wasm
