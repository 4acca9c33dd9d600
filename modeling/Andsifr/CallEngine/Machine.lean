import Andsifr.Frontend.Facts

namespace Andsifr.CallEngine

open Wasm Frontend

/-- What the compiled functions can reach in the store: the functions that a callee may designate,
and the tags of the module that a function belongs to. -/
structure Linking where
  calls : CompiledFunction → Callee → CompiledFunction → Prop
  tags : CompiledFunction → Index → Nat

/-- A frame on the stack. The identifier tells the activations of a function apart. -/
structure Frame (V : Type*) where
  id : Nat
  function : CompiledFunction
  position : Position
  locals : Index → V

/-- A checkpoint of `try_table`: the cloned stack, with the frame that entered the `try_table` on
top of it. -/
structure TryHandler (V : Type*) where
  stack : List (Frame V)
  catchClauses : List CatchClause
  moduleTags : Index → Nat
  localsSaveArea : Option Nat

/-- The call engine. The stack and the handlers are innermost first. The last three fields are the
history: the values last assigned to the locals of each activation, the save area that was last
allocated for it, and the activation that has caught an exception with a handler that owned its save
area, as long as the pointer has not been set since. -/
structure State (V : Type*) where
  stack : List (Frame V)
  tryHandlers : List (TryHandler V) := []
  localsSaveAreaPtr : Option Nat
  saveAreas : Nat → Index → V
  nextArea : Nat := 0
  nextId : Nat := 1
  assigned : Nat → Index → V
  ownArea : Nat → Option Nat := fun _ => none
  caughtBy : Option Nat := none

variable {V : Type*}

namespace Frame

def inst (frame : Frame V) : Option Inst :=
  frame.function.instAt frame.position

def goTo (p : Position) (frame : Frame V) : Frame V :=
  { frame with position := p }

def next (frame : Frame V) : Frame V :=
  frame.goTo frame.position.next

def setLocal (index : Index) (value : V) (frame : Frame V) : Frame V :=
  { frame with locals := Function.update frame.locals index value }

end Frame

/-- Whether the clause catches exceptions with the tag, in a module with the given tags. -/
def catches (moduleTags : Index → Nat) (tag : Nat) : CatchClause → Bool
  | .catchTag index _ | .catchRef index _ => moduleTags index = tag
  | .catchAll _ | .catchAllRef _ => true

/-- The save area of the innermost handler that owns one. -/
def restoreLocalsSaveAreaPtr (handlers : List (TryHandler V)) : Option Nat :=
  handlers.findSome? TryHandler.localsSaveArea

/-- The innermost handler with a matching clause, the clause, and the handlers below it. -/
def searchHandlers (tag : Nat) : List (TryHandler V) →
    Option (TryHandler V × Nat × List (TryHandler V))
  | [] => none
  | h :: below =>
    match h.catchClauses.findIdx? (catches h.moduleTags tag) with
    | some clauseIdx => some (h, clauseIdx, below)
    | none => searchHandlers tag below

/-- Compiled code goes on behind the enter trampoline, in the handler of the clause. -/
def resume (clauseIdx : Nat) : List (Frame V) → Option (List (Frame V))
  | [] => none
  | frame :: frames =>
    match frame.inst with
    | some (.tryTableEnter _ handlers _) =>
      handlers[clauseIdx]?.map fun b => frame.goTo ⟨b, 0⟩ :: frames
    | _ => none

namespace State

def pushFrame (function : CompiledFunction) (args : Index → V) (callers : List (Frame V))
    (s : State V) : State V :=
  { s with
    stack := ⟨s.nextId, function, ⟨entryBlock, 0⟩, args⟩ :: callers
    nextId := s.nextId + 1
    assigned := Function.update s.assigned s.nextId args
    ownArea := Function.update s.ownArea s.nextId none }

/-- Nested `try_table` blocks of a function share the save area of the outermost one. -/
def tryTableEnter (moduleTags : Index → Nat) (info : TryTableInfo) (frame : Frame V)
    (callers : List (Frame V)) (s : State V) : State V :=
  if 0 < info.numLocals && !info.reuseLocals then
    { s with
      tryHandlers :=
        ⟨frame :: callers, info.catchClauses, moduleTags, some s.nextArea⟩ :: s.tryHandlers
      localsSaveAreaPtr := some s.nextArea
      nextArea := s.nextArea + 1
      ownArea := Function.update s.ownArea frame.id (some s.nextArea)
      caughtBy := none }
  else
    { s with
      tryHandlers := ⟨frame :: callers, info.catchClauses, moduleTags, none⟩ :: s.tryHandlers }

def tryTableLeave (s : State V) : State V :=
  match s.tryHandlers with
  | [] => s
  | _ :: below =>
    { s with
      tryHandlers := below
      localsSaveAreaPtr := restoreLocalsSaveAreaPtr below
      caughtBy := none }

def doHandleException (tag : Nat) (s : State V) : Option (State V) := do
  let (h, clauseIdx, below) ← searchHandlers tag s.tryHandlers
  let stack ← resume clauseIdx h.stack
  return { s with
    stack
    tryHandlers := below
    localsSaveAreaPtr := restoreLocalsSaveAreaPtr (h :: below)
    caughtBy := h.localsSaveArea.bind fun _ => h.stack.head?.map Frame.id }

end State

/-- The instructions that only go on to the next one. A call through a pointer may also be one of a
host function, which has come back then, and a conditional branch may not be taken. -/
def advances : Inst → Bool
  | .sourceOffset _ | .plain | .callListener | .terminationCheck | .checkModuleExitCode
  | .brz _ _ | .brnz _ _ | .call .imported | .call (.pointer _) | .tailCall .imported
  | .tailCall (.pointer _) => true
  | _ => false

/-- One instruction of the frame on top of the stack. -/
inductive Step (L : Linking) : State V → State V → Prop
  | advance {s : State V} {frame : Frame V} {callers : List (Frame V)} {i : Inst}
      (hstack : s.stack = frame :: callers) (hi : frame.inst = some i)
      (hadvances : advances i = true) : Step L s { s with stack := frame.next :: callers }
  | branch {s : State V} {frame : Frame V} {callers : List (Frame V)} {i : Inst}
      {target : BlockID} (hstack : s.stack = frame :: callers) (hi : frame.inst = some i)
      (hbranch : i.isBranch = true) (htarget : target ∈ i.targets) :
      Step L s { s with stack := frame.goTo ⟨target, 0⟩ :: callers }
  | defineVariable {s : State V} {frame : Frame V} {callers : List (Frame V)} {index : Index}
      (hstack : s.stack = frame :: callers) (hi : frame.inst = some (.defineVariable index))
      (value : V) :
      Step L s { s with
        stack := frame.next.setLocal index value :: callers
        assigned := Function.update s.assigned frame.id
          (Function.update (s.assigned frame.id) index value) }
  | storeLocal {s : State V} {frame : Frame V} {callers : List (Frame V)} {index : Index}
      {area : Nat} (hstack : s.stack = frame :: callers)
      (hi : frame.inst = some (.storeLocal index)) (harea : s.localsSaveAreaPtr = some area) :
      Step L s { s with
        stack := frame.next :: callers
        saveAreas := Function.update s.saveAreas area
          (Function.update (s.saveAreas area) index (frame.locals index)) }
  | reloadLocal {s : State V} {frame : Frame V} {callers : List (Frame V)} {index : Index}
      {area : Nat} (hstack : s.stack = frame :: callers)
      (hi : frame.inst = some (.reloadLocal index)) (harea : s.localsSaveAreaPtr = some area) :
      Step L s { s with stack := frame.next.setLocal index (s.saveAreas area index) :: callers }
  /-- A tail call falls back to a call where the backend needs it. -/
  | call {s : State V} {frame : Frame V} {callers : List (Frame V)} {callee : Callee}
      {function : CompiledFunction} (hstack : s.stack = frame :: callers)
      (hi : frame.inst = some (.call callee) ∨ frame.inst = some (.tailCall callee))
      (hcalls : L.calls frame.function callee function) (args : Index → V) :
      Step L s (s.pushFrame function args (frame.next :: callers))
  | tailCall {s : State V} {frame : Frame V} {callers : List (Frame V)} {callee : Callee}
      {function : CompiledFunction} (hstack : s.stack = frame :: callers)
      (hi : frame.inst = some (.tailCall callee))
      (hcalls : L.calls frame.function callee function) (args : Index → V) :
      Step L s (s.pushFrame function args callers)
  | enter {s : State V} {frame : Frame V} {callers : List (Frame V)} {info : TryTableInfo}
      {handlers : List BlockID} {body : BlockID} (hstack : s.stack = frame :: callers)
      (hi : frame.inst = some (.tryTableEnter info handlers body)) :
      Step L s { s.tryTableEnter (L.tags frame.function) info frame callers with
        stack := frame.goTo ⟨body, 0⟩ :: callers }
  | leave {s : State V} {frame : Frame V} {callers : List (Frame V)}
      (hstack : s.stack = frame :: callers) (hi : frame.inst = some .tryTableLeave) :
      Step L s { s.tryTableLeave with stack := frame.next :: callers }
  | caught {s s' : State V} {frame : Frame V} {callers : List (Frame V)} {tag : Nat}
      (hstack : s.stack = frame :: callers) (hi : frame.inst = some .throw)
      (hcaught : s.doHandleException tag = some s') : Step L s s'
  | ret {s : State V} {frame : Frame V} {callers : List (Frame V)}
      (hstack : s.stack = frame :: callers) (hi : frame.inst = some .ret) :
      Step L s { s with stack := callers }

/-- A function is called from the host. The handlers of earlier calls have been cleared, the pointer
to the save area has not. -/
def State.initial (function : CompiledFunction) (args : Index → V) (ptr : Option Nat)
    (saveAreas : Nat → Index → V) : State V where
  stack := [⟨0, function, ⟨entryBlock, 0⟩, args⟩]
  localsSaveAreaPtr := ptr
  saveAreas
  assigned := fun _ => args

/-- The activation that has pushed the handler. -/
def TryHandler.owner (h : TryHandler V) : Option Nat :=
  h.stack.head?.map Frame.id

/-- The number of handlers that an activation has pushed and not left. -/
def State.pushed (s : State V) (id : Nat) : Nat :=
  s.tryHandlers.countP (·.owner = some id)

/-- At the start of each instruction of the source, the running function has pushed one handler for
each `try_table` with catch clauses around it, and none when it returns or makes a tail call. -/
def State.Balanced (s : State V) : Prop :=
  ∀ frame callers, s.stack = frame :: callers →
    (∀ pc, frame.inst = some (.sourceOffset pc) →
      s.pushed frame.id = enclosing frame.function.body pc) ∧
    (frame.inst = some .ret → s.pushed frame.id = 0) ∧
    ∀ callee, frame.inst = some (.tailCall callee) → s.pushed frame.id = 0

/-- The running function is about to take the default of a `br_table` that has no other label, out
of a `try_table` with catch clauses. -/
def State.ExitsByDefault (s : State V) : Prop :=
  ∃ frame callers target pc, s.stack = frame :: callers ∧ frame.inst = some (.jump target pc) ∧
    defaultExits frame.function.body pc = true

end Andsifr.CallEngine
