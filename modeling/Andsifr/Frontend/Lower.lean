import Andsifr.Frontend.Builder

namespace Andsifr.Frontend

open Wasm

/-- What the lowering of a function reads of its module and of the options. `numLocals` counts the
parameters too, and `wasmLocalFunctionIndex` does not count the imported functions. -/
structure Compiler where
  importFunctionCount : Nat
  wasmLocalFunctionIndex : Nat
  numLocals : Nat
  ensureTermination : Bool
  needListener : Bool
  deriving DecidableEq, Repr

def Compiler.functionIndex (c : Compiler) : Nat :=
  c.importFunctionCount + c.wasmLocalFunctionIndex

/-- The number of handlers that a branch to the given depth leaves. -/
def tryTableLeaves (frames : List ControlFrame) (depth : Nat) : Nat :=
  (frames.take depth).countP (·.isTryCatch) +
    -- a branch to a target that is not a loop also exits that frame
    match frames[depth]? with
    | some cf => if !cf.isLoop && cf.isTryCatch then 1 else 0
    | none => 0

namespace LoweringState

def emitTryTableLeaves (depth : Nat) (s : LoweringState) : LoweringState :=
  s.insertAll (List.replicate (tryTableLeaves s.controlFrames depth) .tryTableLeave)

def branchExitsTryTable (depth : Nat) (s : LoweringState) : Bool :=
  (s.controlFrames.take depth).any (·.isTryCatch) ||
    match s.controlFrames[depth]? with
    | some cf => !cf.isLoop && cf.isTryCatch
    | none => false

variable (s : LoweringState)

def brTarget (label : Nat) : Option BlockID :=
  s.controlFrames[label]?.map ControlFrame.target

variable (c : Compiler)

def insertJumpToBlock (target : BlockID) (s : LoweringState) : LoweringState :=
  if c.needListener && target = .returnBlock then
    s.insertAll [.callListener, .jump target s.pc]
  else
    s.insert (.jump target s.pc)

/-- A block without predecessors is never executed, so nothing is emitted for it. -/
def switchTo (target : BlockID) (s : LoweringState) : LoweringState :=
  if target ∈ s.preds then
    (s.setCurrentBlock target).insert (.sourceOffset (s.pc + 1))
  else
    (s.setCurrentBlock target).setUnreachable

def lowerTerminationCheck : LoweringState :=
  let slowBlk := s.fresh
  let contBlk := s.allocateBasicBlock.fresh
  let s := s.allocateBasicBlock.allocateBasicBlock
  let s := s.insertAll [.terminationCheck, .brnz slowBlk s.pc, .jump contBlk s.pc]
  let s := (s.setCurrentBlock slowBlk).insertAll [.checkModuleExitCode, .jump contBlk s.pc]
  s.setCurrentBlock contBlk

/-- A block of its own for a branch to the label: it runs the given code, leaves the handlers that
the branch exits and jumps to the target. -/
def trampoline (code : List Inst) (label : Nat) (target : BlockID)
    (s : LoweringState) : LoweringState :=
  ((((s.allocateBasicBlock.setCurrentBlock s.fresh).insertAll code).emitTryTableLeaves
    label).insertJumpToBlock c target).setCurrentBlock s.current

/-- A block of its own for a branch to the return block, where the listener is called. -/
def listenerTrampoline : LoweringState :=
  ((s.allocateBasicBlock.setCurrentBlock s.fresh).insertAll
    [.callListener, .ret]).setCurrentBlock s.current

def lowerBlock : LoweringState :=
  s.allocateBasicBlock.ctrlPush ⟨.block, s.fresh⟩

def lowerLoop (s : LoweringState) : LoweringState :=
  let loopHeader := s.fresh
  let afterLoopBlock := s.allocateBasicBlock.fresh
  let s := s.allocateBasicBlock.allocateBasicBlock.ctrlPush ⟨.loop loopHeader, afterLoopBlock⟩
  let s := (s.insert (.jump loopHeader s.pc)).switchTo loopHeader
  if c.ensureTermination then s.lowerTerminationCheck else s

def lowerIf : LoweringState :=
  let thenBlk := s.fresh
  let elseBlk := s.allocateBasicBlock.fresh
  let followingBlk := s.allocateBasicBlock.allocateBasicBlock.fresh
  let s := s.allocateBasicBlock.allocateBasicBlock.allocateBasicBlock
  let s := s.insertAll [.brz elseBlk s.pc, .jump thenBlk s.pc]
  (s.ctrlPush ⟨.ifWithoutElse elseBlk, followingBlk⟩).setCurrentBlock thenBlk

def lowerElse (s : LoweringState) : Option LoweringState :=
  if s.unreachable && 0 < s.unreachableDepth then
    some s
  else
    match s.controlFrames with
    | ⟨.ifWithoutElse elseBlk, followingBlk⟩ :: frames =>
      let s' := if s.unreachable then { s with unreachable := false }
        else s.insertJumpToBlock c followingBlk
      some ({ s' with controlFrames :=
        ⟨.ifWithElse elseBlk, followingBlk⟩ :: frames }.setCurrentBlock elseBlk)
    | _ => none

def leaveFrame (ctrl : ControlFrame) (s : LoweringState) : LoweringState :=
  if s.unreachable then
    { s with unreachable := false }
  else if ctrl.isTryCatch then
    (s.insert .tryTableLeave).insertJumpToBlock c ctrl.followingBlock
  else
    s.insertJumpToBlock c ctrl.followingBlock

def lowerEnd (s : LoweringState) : Option LoweringState :=
  if 0 < s.unreachableDepth then
    some { s with unreachableDepth := s.unreachableDepth - 1 }
  else
    match s.controlFrames with
    | [] => none
    | ctrl :: frames =>
      let s := { s with controlFrames := frames }.leaveFrame c ctrl
      let s := match ctrl.kind with
        | .ifWithoutElse elseBlk =>
          -- the empty else block
          (s.setCurrentBlock elseBlk).insertJumpToBlock c ctrl.followingBlock
        | .tryTableWithCatch => { s with tryTableDepth := s.tryTableDepth - 1 }
        | _ => s
      some (s.switchTo ctrl.followingBlock)

def lowerBr (label : Nat) (s : LoweringState) : Option LoweringState := do
  let targetBlk ← s.brTarget label
  return ((s.emitTryTableLeaves label).insertJumpToBlock c targetBlk).setUnreachable

/-- The block that a conditional branch goes to: a trampoline if the taken path leaves handlers,
which is not the return block then, or if it calls the listener. -/
def branchBlock (label : Nat) (targetBlk : BlockID) (s : LoweringState) :
    LoweringState × BlockID :=
  if s.branchExitsTryTable label then
    (s.trampoline c [] label targetBlk, s.fresh)
  else if c.needListener && targetBlk = .returnBlock then
    (s.listenerTrampoline, s.fresh)
  else
    (s, targetBlk)

def lowerConditionalBranch (label : Nat) (s : LoweringState) :
    Option LoweringState := do
  let targetBlk ← s.brTarget label
  let (s, targetBlk) := s.branchBlock c label targetBlk
  let s := s.insert (.brnz targetBlk s.pc)
  return (s.allocateBasicBlock.insert (.jump s.fresh s.pc)).setCurrentBlock s.fresh

def lowerBrIf (label : Nat) (s : LoweringState) : Option LoweringState :=
  s.lowerConditionalBranch c label

def lowerBrOnNull (label : Nat) (s : LoweringState) : Option LoweringState :=
  (s.insert .plain).lowerConditionalBranch c label

def lowerBrOnNonNull (label : Nat) (s : LoweringState) : Option LoweringState :=
  (s.insert .plain).lowerConditionalBranch c label

/-- One trampoline for each label, with the code that goes before it. -/
def trampolines (c : Compiler) (code : List Inst) :
    List Nat → LoweringState → Option (LoweringState × List BlockID)
  | [], s => some (s, [])
  | label :: labels, s => do
    let targetBlk ← s.brTarget label
    let (s', blocks) ← trampolines c code labels (s.trampoline c code label targetBlk)
    return (s', s.fresh :: blocks)

def lowerBrTable (labels : List Nat) (s : LoweringState) :
    Option LoweringState := do
  let (s, blocks) ← s.trampolines c [] labels
  return s.insert (.brTable blocks s.pc)

/-- A `br_table` without labels is an unconditional jump. -/
def lowerBrTableOpcode (labels : List Nat) (defaultLabel : Nat)
    (s : LoweringState) : Option LoweringState :=
  if labels = [] then do
    let targetBlk ← s.brTarget defaultLabel
    return (s.insertJumpToBlock c targetBlk).setUnreachable
  else do
    let s ← s.lowerBrTable c (labels ++ [defaultLabel])
    return s.setUnreachable

def lowerReturn (s : LoweringState) : LoweringState :=
  let s := s.emitTryTableLeaves s.controlFrames.length
  let s := if c.needListener then s.insert .callListener else s
  (s.insert .ret).setUnreachable

/-- The pointer of an imported function is loaded first. -/
def prepareCall (fnIndex : Index) (s : LoweringState) : LoweringState × Callee :=
  if fnIndex < c.importFunctionCount then (s.insert .plain, .imported) else (s, .function fnIndex)

def lowerCall (fnIndex : Index) (s : LoweringState) : LoweringState :=
  let (s, callee) := s.prepareCall c fnIndex
  s.insertAll [.call callee, .plain]

/-- Calls through a table or a reference. -/
def lowerCallPointer (typeIndex : Index) (s : LoweringState) : LoweringState :=
  s.insertAll [.plain, .call (.pointer typeIndex), .plain]

def lowerTailCallReturnCall (fnIndex : Index) (s : LoweringState) :
    LoweringState :=
  let s := s.emitTryTableLeaves s.controlFrames.length
  let (s, callee) := s.prepareCall c fnIndex
  let s := if callee ≠ .imported ∧ c.ensureTermination ∧ fnIndex = c.wasmLocalFunctionIndex then
    s.lowerTerminationCheck else s
  -- the return is for a backend that falls back to an ordinary call
  (s.insertAll [.tailCall callee, .plain, .ret]).setUnreachable

def lowerTailCallPointer (typeIndex : Index) (s : LoweringState) : LoweringState :=
  let s := s.emitTryTableLeaves s.controlFrames.length
  (s.insertAll [.plain, .tailCall (.pointer typeIndex), .plain, .ret]).setUnreachable

def lowerThrow : LoweringState :=
  (s.insertAll [.plain, .throw, .exit]).setUnreachable

def lowerLocalSet (index : Index) (s : LoweringState) : LoweringState :=
  if 0 < s.tryTableDepth then
    s.insertAll [.defineVariable index, .storeLocal index]
  else
    s.insert (.defineVariable index)

/-- `memory.fill` and `table.fill` copy in a loop of their own. -/
def lowerFill : LoweringState :=
  let s := s.insert .plain
  let beforeLoop := s.fresh
  let loopBlk := s.allocateBasicBlock.fresh
  let followingBlk := s.allocateBasicBlock.allocateBasicBlock.fresh
  let s := s.allocateBasicBlock.allocateBasicBlock.allocateBasicBlock
  let s := s.insertAll [.brnz followingBlk s.pc, .jump beforeLoop s.pc]
  let s := (s.setCurrentBlock beforeLoop).insertAll [.plain, .jump loopBlk s.pc]
  let s := (s.setCurrentBlock loopBlk).insertAll
    [.plain, .brnz loopBlk s.pc, .jump followingBlk s.pc]
  s.setCurrentBlock followingBlk

/-- The code of a handler block before the leaves: the locals come back from the save area. -/
def handlerCode : List Inst :=
  .plain :: (List.range c.numLocals).map (.reloadLocal ·) ++ [.plain]

def storeAllLocalsToSaveArea (s : LoweringState) : LoweringState :=
  s.insertAll (.plain :: (List.range c.numLocals).map (.storeLocal ·))

def lowerTryTable (catches : List CatchClause) (s : LoweringState) :
    Option LoweringState :=
  let info : TryTableInfo := ⟨catches, c.numLocals, 0 < s.tryTableDepth⟩
  let followingBlk := s.fresh
  let bodyBlk := s.allocateBasicBlock.fresh
  let s := s.allocateBasicBlock.allocateBasicBlock
  if catches = [] then
    let s := s.insertJumpToBlock c bodyBlk
    some ((s.setCurrentBlock bodyBlk).ctrlPush ⟨.tryTable, followingBlk⟩)
  else do
    -- the labels of the clauses do not count the try_table itself
    let (s, handlers) ←
      (s.insert .plain).trampolines c (handlerCode c) (catches.map CatchClause.label)
    let s := s.insert (.tryTableEnter info handlers bodyBlk)
    let s := (s.setCurrentBlock bodyBlk).storeAllLocalsToSaveArea c
    return { s with tryTableDepth := s.tryTableDepth + 1 }.ctrlPush
      ⟨.tryTableWithCatch, followingBlk⟩

/-- The instructions that neither open nor close a block, in code that can be reached. -/
def lowerPlain (c : Compiler) (s : LoweringState) : Instruction → Option LoweringState
  | .br label => s.lowerBr c label
  | .brIf label => s.lowerBrIf c label
  | .brOnNull label => s.lowerBrOnNull c label
  | .brOnNonNull label => s.lowerBrOnNonNull c label
  | .brTable labels defaultLabel => s.lowerBrTableOpcode c labels defaultLabel
  | .returnOp => some (s.lowerReturn c)
  | .unreachable => some (s.insert .exit).setUnreachable
  | .call fnIndex => some (s.lowerCall c fnIndex)
  | .callIndirect typeIndex _ | .callRef typeIndex => some (s.lowerCallPointer typeIndex)
  | .returnCall fnIndex => some (s.lowerTailCallReturnCall c fnIndex)
  | .returnCallIndirect typeIndex _ | .returnCallRef typeIndex =>
    some (s.lowerTailCallPointer typeIndex)
  | .throw _ | .throwRef => some s.lowerThrow
  | .localSet index | .localTee index => some (s.lowerLocalSet index)
  | .memoryFill | .tableFill _ => some s.lowerFill
  | .nop | .drop | .localGet _ => some s
  | _ => some (s.insert .plain)

/-- The instructions that open a block. In unreachable code only their number matters. -/
def lowerOpen (c : Compiler) (s : LoweringState) : Instruction → Option LoweringState
  | .block _ => some s.lowerBlock
  | .loop _ => some (s.lowerLoop c)
  | .ifOp _ => some s.lowerIf
  | .tryTable _ catches => s.lowerTryTable c catches
  | _ => none

def lowerCurrentOpcode (c : Compiler) (op : Instruction) (s : LoweringState) :
    Option LoweringState :=
  let s := if s.unreachable then s else s.insert (.sourceOffset s.pc)
  match op with
  | .block _ | .loop _ | .ifOp _ | .tryTable _ _ =>
    if s.unreachable then
      some { s with unreachableDepth := s.unreachableDepth + 1 }
    else
      s.lowerOpen c op
  | .elseOp => s.lowerElse c
  | .endOp => s.lowerEnd c
  | op => if s.unreachable then some s else s.lowerPlain c op

def lowerOpcodes (c : Compiler) : List Instruction → LoweringState → Option LoweringState
  | [], s => some s
  | op :: ops, s => do
    let s ← s.lowerCurrentOpcode c op
    lowerOpcodes c ops { s with pc := s.pc + 1 }

def enterFunction : LoweringState :=
  let s : LoweringState :=
    { controlFrames := [⟨.function, .returnBlock⟩], nextBlock := 1, current := .block 0 }
  if c.needListener then s.insert .callListener else s

end LoweringState

def lowerToSSA (c : Compiler) (body : List Instruction) : Option LoweringState :=
  (LoweringState.enterFunction c).lowerOpcodes c body

/-- The assignments of the body are to locals of the function, as the validator checks. -/
def LocalsDeclared (c : Compiler) (body : List Instruction) : Prop :=
  ∀ index, .localSet index ∈ body ∨ .localTee index ∈ body → index < c.numLocals

/-- A function that the frontend has lowered to the end of its body. The decoder only accepts bodies
whose last instruction is an `end`. -/
structure CompiledFunction where
  compiler : Compiler
  body : List Instruction
  final : LoweringState
  terminated : ∃ ops, body = ops ++ [.endOp]
  declared : LocalsDeclared compiler body
  lowered : lowerToSSA compiler body = some final
  closed : final.controlFrames = []

def CompiledFunction.of (c : Compiler) (ops : List Instruction)
    (hdeclared : LocalsDeclared c (ops ++ [.endOp]))
    (h : (lowerToSSA c (ops ++ [.endOp])).isSome = true)
    (hclosed : ((lowerToSSA c (ops ++ [.endOp])).get h).controlFrames = []) : CompiledFunction :=
  ⟨c, ops ++ [.endOp], _, ⟨ops, rfl⟩, hdeclared, (Option.some_get h).symm, hclosed⟩

/-- The code of a block. A jump to the return block returns. -/
def CompiledFunction.code (f : CompiledFunction) : BlockID → List Inst
  | .returnBlock => [.ret]
  | b => f.final.code b

def CompiledFunction.instAt (f : CompiledFunction) (p : Position) : Option Inst :=
  (f.code p.block)[p.index]?

def entryBlock : BlockID :=
  .block 0

end Andsifr.Frontend
