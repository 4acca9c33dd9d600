import Andsifr.Wasm.Instruction

namespace Andsifr.Frontend

open Wasm

/-- The return block of the function, or a basic block by its number. -/
inductive BlockID where
  | returnBlock
  | block (id : Nat)
  deriving DecidableEq, Repr

/-- Calls go to a function of the module itself, or through a pointer that is loaded first: that of
an imported function, or one out of a table or a reference, for a function of the given type. -/
inductive Callee where
  | function (index : Index)
  | imported
  | pointer (typeIndex : Index)
  deriving DecidableEq, Repr

/-- What the call engine finds under the identifier of a `try_table`. -/
structure TryTableInfo where
  catchClauses : List CatchClause
  numLocals : Nat
  reuseLocals : Bool
  deriving DecidableEq, Repr

/-- The emitted instructions, as far as control, the exception handlers and the locals go. The
operands are left out, and the instructions that only compute, trap or call the runtime are `plain`.
Branches carry the source offset that `InsertInstruction` annotates them with. -/
inductive Inst where
  /-- No instruction but a mark, for the field that `SetCurrentSourceOffset` sets: the code of the
  source instruction at `pc` begins. -/
  | sourceOffset (pc : Nat)
  | plain
  | callListener
  | defineVariable (index : Index)
  | storeLocal (index : Index)
  | reloadLocal (index : Index)
  /-- The loads of the closed flag and of the counter that `lowerTerminationCheck` tests. -/
  | terminationCheck
  | checkModuleExitCode
  | call (callee : Callee)
  | tailCall (callee : Callee)
  /-- The call of the enter trampoline, followed by the `br_table` on the caught clause: the
  handlers in the order of the clauses, then the body. -/
  | tryTableEnter (info : TryTableInfo) (handlers : List BlockID) (body : BlockID)
  | tryTableLeave
  | throw
  | jump (target : BlockID) (pc : Nat)
  | brz (target : BlockID) (pc : Nat)
  | brnz (target : BlockID) (pc : Nat)
  | brTable (targets : List BlockID) (pc : Nat)
  | ret
  | exit
  deriving DecidableEq, Repr

def Inst.targets : Inst → List BlockID
  | jump target _ | brz target _ | brnz target _ => [target]
  | brTable targets _ => targets
  | tryTableEnter _ handlers body => handlers ++ [body]
  | _ => []

structure Position where
  block : BlockID
  index : Nat
  deriving DecidableEq, Repr

def Position.next (p : Position) : Position :=
  ⟨p.block, p.index + 1⟩

def Inst.fallsThrough : Inst → Bool
  | .throw | .tryTableEnter _ _ _ | .jump _ _ | .brTable _ _ | .ret | .exit => false
  | _ => true

def Inst.isBranch : Inst → Bool
  | .jump _ _ | .brz _ _ | .brnz _ _ | .brTable _ _ => true
  | _ => false

def Inst.mayThrow : Inst → Bool
  | .call _ | .tailCall _ | .throw => true
  | _ => false

inductive ControlFrameKind where
  | function
  | loop (header : BlockID)
  | ifWithElse (elseBlk : BlockID)
  | ifWithoutElse (elseBlk : BlockID)
  | block
  | tryTable
  | tryTableWithCatch
  deriving DecidableEq, Repr

structure ControlFrame where
  kind : ControlFrameKind
  followingBlock : BlockID
  deriving DecidableEq, Repr

def ControlFrame.isLoop (ctrl : ControlFrame) : Bool :=
  match ctrl.kind with
  | .loop _ => true
  | _ => false

def ControlFrame.isTryCatch (ctrl : ControlFrame) : Bool :=
  match ctrl.kind with
  | .tryTableWithCatch => true
  | _ => false

def ControlFrame.target (ctrl : ControlFrame) : BlockID :=
  match ctrl.kind with
  | .loop header => header
  | _ => ctrl.followingBlock

/-- The state of the compiler while it lowers a function: the builder's blocks, the targets of the
branches inserted so far, and the control frames, innermost first. -/
structure LoweringState where
  pc : Nat := 0
  controlFrames : List ControlFrame
  unreachable : Bool := false
  unreachableDepth : Nat := 0
  tryTableDepth : Nat := 0
  code : BlockID → List Inst := fun _ => []
  preds : List BlockID := []
  nextBlock : Nat
  current : BlockID

namespace LoweringState

/-- `InsertInstruction` for one instruction after the other. A branch makes the current block a
predecessor of its targets. -/
@[simps -fullyApplied]
def insertAll (is : List Inst) (s : LoweringState) : LoweringState :=
  { s with
    code := Function.update s.code s.current (s.code s.current ++ is)
    preds := s.preds ++ is.flatMap Inst.targets }

def insert (i : Inst) (s : LoweringState) : LoweringState :=
  s.insertAll [i]

/-- The block that `AllocateBasicBlock` returns next. -/
def fresh (s : LoweringState) : BlockID :=
  .block s.nextBlock

@[simps -fullyApplied]
def allocateBasicBlock (s : LoweringState) : LoweringState :=
  { s with nextBlock := s.nextBlock + 1 }

@[simps -fullyApplied]
def setCurrentBlock (b : BlockID) (s : LoweringState) : LoweringState :=
  { s with current := b }

@[simps -fullyApplied]
def ctrlPush (frame : ControlFrame) (s : LoweringState) : LoweringState :=
  { s with controlFrames := frame :: s.controlFrames }

@[simps -fullyApplied]
def setUnreachable (s : LoweringState) : LoweringState :=
  { s with unreachable := true }

end LoweringState

end Andsifr.Frontend
