import Andsifr.Execution.Typing
import Andsifr.Validation.Blocks

namespace Andsifr.Validation.FunctionContext

open Lib Wasm

/-- The checks that the validation of `br_table` and of a typed `select` leaves out: the operands
fit every label, and the declared type. -/
def Strict (ctx : FunctionContext) (s : Stacks) : Instruction → Prop
  | .brTable labels defaultLabel => ∃ s₁, s.popAndVerifyType ctx.types .i32 = .ok s₁ ∧
      ∀ label ∈ defaultLabel :: labels, ∃ s₂, ctx.checkBr s₁ label = .ok s₂
  | .typedSelect declared =>
    ∃ s₁, s.popAll ctx.types (fun _ => id) [.i32, declared, declared] = .ok s₁
  | _ => True

/-- The validation passes the instructions, which are strict. -/
inductive Passes (ctx : FunctionContext) : Stacks → List Instruction → Stacks → Prop where
  | nil (s : Stacks) : Passes ctx s [] s
  | cons {s s₁ s' : Stacks} {instr : Instruction} {code : List Instruction}
      (hblocks : s.controlBlocks ≠ []) (hproper : instr.Proper) (hstrict : ctx.Strict s instr)
      (hcheck : ctx.checkInstruction s instr = .ok s₁) (hrest : Passes ctx s₁ code s') :
      Passes ctx s (instr :: code) s'

end Andsifr.Validation.FunctionContext

namespace Andsifr.Execution

open Lib Wasm Validation Check Stacks FunctionContext

variable {ctx : FunctionContext} {s sf : Stacks} {code cont : List Instruction} {depth : Nat}
  {b : ControlBlock} {base : List ValueType} {outer : List ControlBlock} {outerLimits : List Nat}

/-- The state in which validation goes on after a block. -/
structure After (t : Stacks) (types base : List ValueType) (outer : List ControlBlock)
    (outerLimits : List Nat) (saved : Option (List Index)) : Prop where
  stack : t.stack = types.reverse ++ base
  blocks : t.controlBlocks = outer
  limits : t.stackLimits = outerLimits
  init : t.initLocals = saved

/-- An instruction that does not end the arm of the block. -/
theorem inside_cons {s₁ : Stacks} {instr : Instruction}
    (hinside : s.Inside depth b base outer outerLimits)
    (hcheck : ctx.checkInstruction s instr = .ok s₁)
    (hends : depth = 0 → instr ≠ .endOp ∧ instr ≠ .elseOp) :
    ∃ depth', s₁.Inside depth' b base outer outerLimits ∧
      ∀ rest, afterEnd depth (instr :: rest) = afterEnd depth' rest ∧
        elseOrEnd depth (instr :: rest) = elseOrEnd depth' rest := by
  by_cases hinstr : instr.isStructured = true
  · cases instr with
    | endOp =>
      cases depth with
      | zero => exact absurd rfl (hends rfl).1
      | succ depth => exact ⟨depth, inside_checkEnd hinside hcheck, fun _ => ⟨rfl, rfl⟩⟩
    | elseOp =>
      cases depth with
      | zero => exact absurd rfl (hends rfl).2
      | succ depth => exact ⟨_, inside_checkElse hinside hcheck, fun _ => ⟨rfl, rfl⟩⟩
    | block type | loop type | ifOp type =>
      exact ⟨_, inside_open hinside (.inl ⟨type, by simp⟩) hcheck, fun _ => ⟨rfl, rfl⟩⟩
    | tryTable type catches =>
      exact ⟨_, inside_open hinside (.inr ⟨type, catches, rfl⟩) hcheck, fun _ => ⟨rfl, rfl⟩⟩
    | _ => cases hinstr
  · have hinstr := Bool.eq_false_iff.mpr hinstr
    refine ⟨depth, hinside.within (within_checkInstruction hinstr _ hcheck), fun rest => ?_⟩
    cases instr with
    | block | loop | ifOp | elseOp | tryTable | endOp => cases hinstr
    | _ => exact ⟨rfl, rfl⟩

theorem passes_afterEnd (hpass : ctx.Passes s code sf)
    (hinside : s.Inside depth b base outer outerLimits) (hcont : afterEnd depth code = some cont) :
    ∃ t, ctx.Passes t cont sf ∧
      After t b.type.results base outer outerLimits b.savedInitLocals := by
  induction hpass generalizing depth b with
  | nil => cases hcont
  | @cons s s₁ _ instr code _ _ _ hcheck hrest ih =>
    by_cases hends : depth = 0 → instr ≠ .endOp ∧ instr ≠ .elseOp
    · obtain ⟨depth', hinside', hcons⟩ := inside_cons hinside hcheck hends
      exact ih hinside' ((hcons code).1 ▸ hcont)
    obtain ⟨rfl, hends⟩ := Classical.not_imp.mp hends
    obtain rfl | rfl : instr = .endOp ∨ instr = .elseOp := by tauto
    · cases hcont
      obtain ⟨hstack, hblocks, hlimits, hinit⟩ := exit_checkEnd hinside hcheck
      exact ⟨s₁, hrest, hstack, hblocks, hlimits, hinit⟩
    · obtain ⟨-, hinside', -⟩ := restart_checkElse hinside hcheck
      have hafter := ih hinside' hcont
      exact hafter

theorem verifyTypes_self (types : List FunctionType) (isParam : Bool) (context : String) (i : Nat)
    (want : List ValueType) :
    verifyTypes types isParam context i (want.zip want) = .ok () := by
  induction want generalizing i with
  | nil => rfl
  | cons t want ih =>
    have hmatch : matchesType types t t = .ok true := by
      unfold matchesType
      split
      · rfl
      · exact isRefSubtypeOf_self types t
    simp only [List.zip_cons_cons, verifyTypes, hmatch]
    exact ih (i + 1)

theorem tryPop_of_cons {t : ValueType} {rest : List ValueType} (hstack : s.stack = t :: rest)
    (ht : t ≠ unknown) (hlimit : s.limit ≤ rest.length) : s.tryPop = some (t, s.setStack rest) := by
  have hlength : s.stack.length = rest.length + 1 := by simp [hstack]
  unfold tryPop
  rw [if_neg (by omega), if_neg (by simp [polymorphic, hstack, ht])]
  simp [hstack]

theorem tryPops_append {want popped : List ValueType} (hknown : unknown ∉ want)
    (hstack : s.stack = want ++ base) (hlimit : s.limit ≤ base.length) :
    tryPops want.length popped s = .ok (popped ++ want, s.setStack base) := by
  induction want generalizing s popped with
  | nil =>
    rw [List.append_nil, ← show s.stack = base from hstack]
    rfl
  | cons t want ih =>
    have hpop : s.tryPop = some (t, s.setStack (want ++ base)) :=
      tryPop_of_cons hstack (by grind) (by rw [List.length_append]; omega)
    rw [List.length_cons, tryPops, hpop, show popped ++ t :: want = popped.concat t ++ want by simp]
    exact ih (by grind) rfl hlimit

theorem requireStackValues_self (types : List FunctionType) (isParam aboveLimit : Bool)
    (context : String) {want : List ValueType} (hknown : unknown ∉ want)
    (hstack : s.stack = want.reverse ++ base) (hlimit : s.limit = base.length) :
    requireStackValues types isParam context want aboveLimit s = .ok (s.setStack base) := by
  have hpops : tryPops want.reverse.length [] s = .ok ([] ++ want.reverse, s.setStack base) :=
    tryPops_append (by simpa using hknown) hstack (by omega)
  unfold requireStackValues
  rw [← List.length_reverse, hpops]
  simp [hlimit, verifyTypes_self]

/-- The end of an `if` without an `else` may also be reached with the parameters, without the
operands of its first branch. -/
theorem checkEnd_of_params {s' : Stacks} (hknown : unknown ∉ b.type.params)
    (hinside : s.Inside 0 b base outer outerLimits) (hkind : b.kind = .ifOp)
    (hend : ctx.checkEnd s = .ok s') :
    ctx.checkEnd ⟨b.type.params.reverse ++ base, s.stackLimits, s.maximumStackPointer, b :: outer,
      b.savedInitLocals⟩ = .ok s' := by
  obtain ⟨b₀, outer₀, s₁, hblocks, hif, hreq, rfl⟩ := checkEnd_eq_ok hend
  obtain ⟨hinner, hlimits, -⟩ := inside_zero_iff.mp hinside
  rw [hinner] at hblocks
  cases hblocks
  have honly := onlyStack_requireStackValues hreq
  have hbase := (quiet_requireStackValues _ hreq).base base hinside.base_le_limit hinside.base
  have hlimits₁ : s₁.stackLimits = base.length :: outerLimits := honly.limits.trans hlimits
  have hreset := resetAtStackLimit_of_suffix hbase (by unfold limit; rw [hlimits₁]; rfl)
  have hself := requireStackValues_self (s := ⟨b.type.results.reverse ++ base, s.stackLimits,
    s.maximumStackPointer, outer, b.savedInitLocals⟩) ctx.types false true b.kind.name
    (hif hkind ▸ hknown) rfl (by unfold limit; rw [hlimits]; rfl)
  have hsame : (setStack ⟨b.type.results.reverse ++ base, s.stackLimits,
      s.maximumStackPointer, outer, b.savedInitLocals⟩ base).resetAtStackLimit =
        s₁.resetAtStackLimit := by
    rw [hreset, honly, if_neg hinside.outer]
    unfold resetAtStackLimit limit setStack
    simp [hlimits]
  rw [← hif hkind, ← hsame]
  unfold checkEnd
  simp only [if_neg hinside.outer, hself]
  simp [hif hkind, require]

theorem passes_elseOrEnd (hknown : unknown ∉ b.type.params) (hkind : b.kind = .ifOp)
    (hpass : ctx.Passes s code sf) (hinside : s.Inside depth b base outer outerLimits)
    (hcont : elseOrEnd depth code = some cont) :
    ∃ t kind, ctx.Passes t cont sf ∧ kind ≠ .loop ∧
      After t b.type.params base (⟨kind, b.type, b.savedInitLocals⟩ :: outer)
        (base.length :: outerLimits) b.savedInitLocals := by
  induction hpass generalizing depth with
  | nil => cases hcont
  | @cons s s₁ _ instr code _ _ _ hcheck hrest ih =>
    by_cases hends : depth = 0 → instr ≠ .endOp ∧ instr ≠ .elseOp
    · obtain ⟨depth', hinside', hcons⟩ := inside_cons hinside hcheck hends
      exact ih hinside' ((hcons code).2 ▸ hcont)
    obtain ⟨rfl, hends⟩ := Classical.not_imp.mp hends
    obtain rfl | rfl : instr = .endOp ∨ instr = .elseOp := by tauto
    · cases hcont
      obtain ⟨-, hlimits, -⟩ := inside_zero_iff.mp hinside
      have hend : ctx.checkInstruction ⟨b.type.params.reverse ++ base, s.stackLimits,
          s.maximumStackPointer, b :: outer, b.savedInitLocals⟩ .endOp = .ok s₁ :=
        checkEnd_of_params hknown hinside hkind hcheck
      exact ⟨_, b.kind, .cons (List.cons_ne_nil b outer) trivial trivial hend hrest,
        by simp [hkind], rfl, rfl, hlimits, rfl⟩
    · cases hcont
      obtain ⟨-, hinside', hstack, hinit⟩ := restart_checkElse hinside hcheck
      obtain ⟨hblocks, hlimits, -⟩ := inside_zero_iff.mp hinside'
      exact ⟨s₁, .elseOp, hrest, by simp, hstack, hblocks, hlimits, hinit⟩

end Andsifr.Execution
