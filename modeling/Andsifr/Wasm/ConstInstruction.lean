import Andsifr.Wasm.ConstExpr

namespace Andsifr.Wasm

open Lib Leb128 Parser

open ConstInstruction

namespace ConstInstruction

/-- The instructions from the reader's position to `end`. -/
def decodeAll : (fuel : Nat) → Reader → Option (List ConstInstruction)
  | 0, _ => none
  | fuel + 1, r =>
    match r.bytes[r.pos]? with
    | none => none
    | some opcode =>
      if opcode = Opcode.opEnd then some []
      else
        match decode opcode (r.advance 1) with
        | .ok instr r' => (decodeAll fuel r').map (instr :: ·)
        | _ => none

def applyAll (resolvers : Resolvers) : ConstState → List ConstInstruction → Check ConstState
  | s, [] => return s
  | s, instr :: instrs => do
    let s ← instr.apply resolvers s
    applyAll resolvers s instrs

end ConstInstruction

/-- The instructions of the expression, if it can be read. -/
def ConstantExpression.instructions (e : ConstantExpression) : Option (List ConstInstruction) :=
  ConstInstruction.decodeAll (e.data.length + 1) ⟨e.data, 0⟩

variable {resolvers : Resolvers} {values : List Nat} {t : ValueType}

theorem evaluateLoop_eq_ok_iff {fuel : Nat} {r : Reader} {s s' : ConstState} :
    evaluateLoop resolvers fuel r s = (.ok (values, t), s') ↔
      ∃ instrs, decodeAll fuel r = some instrs ∧ applyAll resolvers s instrs = .ok s' ∧
        s'.typeStack = [t] ∧ s'.stack.reverse = values := by
  induction fuel generalizing r s with
  | zero => simp [evaluateLoop, decodeAll]
  | succ fuel ih =>
    simp only [evaluateLoop, decodeAll]
    cases r.bytes[r.pos]? with
    | none => simp
    | some opcode =>
      simp only
      split_ifs with hend
      · constructor
        · intro h
          split at h
          next t' htypes =>
            cases h
            exact ⟨[], rfl, rfl, htypes, rfl⟩
          next => cases h
        · rintro ⟨_, ⟨⟩, ⟨⟩, htypes, rfl⟩
          rw [htypes]
      · rw [evaluateInstruction, bind_run]
        cases decode opcode (r.advance 1) with
        | err m r' => simp
        | crash c => simp
        | ok instr r' =>
          simp only [lift]
          constructor
          · intro h
            cases happly : instr.apply resolvers s with
            | error e => rw [happly] at h; rcases e with m | c <;> cases h
            | ok s₁ =>
              rw [happly] at h
              obtain ⟨instrs, hinstrs, hrun, hs'⟩ := ih.mp h
              exact ⟨instr :: instrs, by rw [hinstrs]; rfl, by rwa [applyAll, happly], hs'⟩
          · rintro ⟨_, hinstrs, hrun, hs'⟩
            obtain ⟨instrs, hread, rfl⟩ := Option.map_eq_some_iff.mp hinstrs
            obtain ⟨s₁, happly, hrun⟩ := Check.bind_inv hrun
            rw [happly]
            exact ih.mpr ⟨instrs, hread, hrun, hs'⟩

variable {e : ConstantExpression}

/-- An expression has a value exactly if its instructions run to a single one. -/
theorem evaluateConstExpr_eq_ok_iff : (evaluateConstExpr e resolvers).1 = .ok (values, t) ↔
      ∃ instrs s, e.instructions = some instrs ∧ applyAll resolvers {} instrs = .ok s ∧
        s.typeStack = [t] ∧ s.stack.reverse = values := by
  constructor
  · intro h
    obtain ⟨instrs, h⟩ := evaluateLoop_eq_ok_iff.mp (Prod.ext h rfl)
    exact ⟨instrs, _, h⟩
  · rintro ⟨instrs, s, h⟩
    exact congrArg Prod.fst (evaluateLoop_eq_ok_iff.mpr ⟨instrs, h⟩)

theorem exists_apply_of_applyAll {s s' : ConstState}
    {instrs : List ConstInstruction} (h : applyAll resolvers s instrs = .ok s')
    {instr : ConstInstruction} (hmem : instr ∈ instrs) :
    ∃ s₁ s₂, instr.apply resolvers s₁ = .ok s₂ := by
  induction instrs generalizing s with
  | nil => cases hmem
  | cons first instrs ih =>
    obtain ⟨s₁, happly, h⟩ := Check.bind_inv h
    rcases List.mem_cons.mp hmem with rfl | hmem
    · exact ⟨s, s₁, happly⟩
    · exact ih h hmem

def ConstantExpression.globalGets (e : ConstantExpression) : List Index :=
  (e.instructions.getD []).filterMap fun
    | .globalGet i => some i
    | _ => none

theorem ConstantExpression.mem_globalGets
    {instrs : List ConstInstruction} (h : e.instructions = some instrs) {i : Index} :
    i ∈ e.globalGets ↔ .globalGet i ∈ instrs := by
  rw [globalGets, h, List.mem_filterMap]
  constructor
  · rintro ⟨instr, hinstr, hi⟩
    split at hi
    · cases hi
      exact hinstr
    · cases hi
  · intro hi
    exact ⟨_, hi, rfl⟩

theorem exists_global_of_mem_globalGets
    (h : (evaluateConstExpr e resolvers).1 = .ok (values, t)) {i : Index}
    (hi : i ∈ e.globalGets) : ∃ value, resolvers.global i = .ok value := by
  obtain ⟨instrs, s, hinstrs, hrun, -⟩ := evaluateConstExpr_eq_ok_iff.mp h
  obtain ⟨s₁, s₂, happly⟩ :=
    exists_apply_of_applyAll hrun ((ConstantExpression.mem_globalGets hinstrs).mp hi)
  obtain ⟨value, hvalue, -⟩ := Check.bind_inv happly
  exact ⟨value, hvalue⟩

end Andsifr.Wasm
