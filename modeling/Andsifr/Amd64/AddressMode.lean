import Mathlib.Data.BitVec
import Mathlib.Tactic.Abel
import Andsifr.Lib.Emission

namespace Andsifr.Amd64

open Lib.Emission

abbrev VReg := Nat

abbrev Regs := Lib.Emission.Regs (BitVec 64)

/-! ## Pointer expressions -/

/-- The 32-bit operand of an extension: a constant, or a value in its register. -/
inductive Operand32 where
  | const (c : BitVec 64)
  | reg (v : VReg)
deriving DecidableEq, Repr

inductive ShiftAmount where
  | const (c : BitVec 64)
  | reg (v : VReg)
deriving DecidableEq, Repr

/-- The definition of a 64-bit value as the lowering sees it. An instruction of another group or
with several uses is not matched, so that its value is a `reg` like a parameter or the result of
any other instruction; of a constant, which is inlined anyway, `merge` tells whether it is matched.
`extendLow` extends the low bits of a 64-bit operand. Each value has a register `v`. -/
inductive Pointer where
  | reg (v : VReg)
  | iconst (v : VReg) (merge : Bool) (c : BitVec 64)
  | iadd (v : VReg) (x y : Pointer)
  | ishl (v : VReg) (x : Pointer) (amount : ShiftAmount)
  | extend (v : VReg) (signed : Bool) (x : Operand32)
  | extendLow (v : VReg) (signed : Bool) (bits : Nat) (x : Pointer)
deriving DecidableEq, Repr

def extendFrom (signed : Bool) (bits : Nat) (x : BitVec 64) : BitVec 64 :=
  if signed then (x.setWidth bits).signExtend 64 else (x.setWidth bits).setWidth 64

def Operand32.value (s : Regs) : Operand32 → BitVec 64
  | .const c => c
  | .reg v => s v

/-- A shift amount counts modulo 64. -/
def ShiftAmount.value (s : Regs) : ShiftAmount → Nat
  | .const c => c.toNat % 64
  | .reg v => (s v).toNat % 64

def Pointer.value (s : Regs) : Pointer → BitVec 64
  | .reg v => s v
  | .iconst _ _ c => c
  | .iadd _ x y => x.value s + y.value s
  | .ishl _ x amount => x.value s <<< amount.value s
  | .extend _ signed x => extendFrom signed 32 (x.value s)
  | .extendLow _ signed bits x => extendFrom signed bits (x.value s)

def Pointer.vreg : Pointer → VReg
  | .reg v | .iconst v _ _ | .iadd v _ _ | .ishl v _ _ | .extend v _ _ | .extendLow v _ _ _ => v

/-! ## Instructions and address modes -/

inductive Instr where
  | zeros (rd : VReg)
  | imm (rd : VReg) (c : BitVec 64)
  | shiftLeft (amount : BitVec 32) (rd : VReg)
deriving DecidableEq, Repr

def Instr.step (s : Regs) : Instr → Option Regs
  | .zeros rd => some (s.set rd 0)
  | .imm rd c => some (s.set rd c)
  | .shiftLeft amount rd => some (s.set rd (s rd <<< (amount.toNat % 64)))

abbrev Code := Buffer Instr

inductive Amode where
  | immReg (imm32 : BitVec 32) (base : VReg)
  | regRegShift (imm32 : BitVec 32) (base index : VReg) (shift : Nat)
deriving DecidableEq, Repr

/-- The address: the displacement is sign-extended. -/
def Amode.denote (s : Regs) : Amode → BitVec 64
  | .immReg imm32 base => imm32.signExtend 64 + s base
  | .regRegShift imm32 base index shift => imm32.signExtend 64 + s base + s index <<< shift

def newAmodeRegRegShift (imm32 : BitVec 32) (base index : VReg) (shift : Nat) :
    Except String Amode :=
  if shift > 3 then throw s!"BUG: invalid shift (must be 3>=): {shift}"
  else pure (.regRegShift imm32 base index shift)

/-! ## The lowering -/

def lowerIconst (dst : VReg) (c : BitVec 64) : List Instr :=
  if c = 0 then [.zeros dst] else [.imm dst c]

def lowerConstant (c : BitVec 64) (b : Code) : VReg × Code :=
  (b.next, b.allocate.insert (lowerIconst b.next c))

def getOperand_Reg (p : Pointer) (b : Code) : VReg × Code :=
  match p with
  | .iconst v _ c => let (r, b) := lowerConstant c b; (r, b.markLowered v)
  | p => (p.vreg, b)

def asImm32 (val : BitVec 64) (allowSignExt : Bool) : Option (BitVec 32) :=
  let u32val := val.setWidth 32
  if u32val.setWidth 64 ≠ val then none
  else if !allowSignExt && u32val.msb then none
  else some u32val

structure Addend where
  r : Option VReg
  off : BitVec 64
  shift : Nat
deriving DecidableEq, Repr

def lowerAddendFromInstr (p : Pointer) (b : Code) : Except String (Addend × Code) :=
  let b := b.markLowered p.vreg
  match p with
  | .iconst _ _ c => pure (⟨none, c, 0⟩, b)
  | .extendLow _ _ _ _ => throw "BUG: invalid input type i64"
  | .extend _ signed (.const c) => pure (⟨none, extendFrom signed 32 c, 0⟩, b)
  | .extend _ _ (.reg v) => pure (⟨some v, 0, 0⟩, b)
  | .ishl _ x (.const c) =>
    let (r, b) := getOperand_Reg x b
    if c ≤ 3 then pure (⟨some r, 0, c.toNat⟩, b) else pure (⟨some r, 0, 0⟩, b)
  | .ishl _ x (.reg _) =>
    let (r, b) := getOperand_Reg x b
    pure (⟨some r, 0, 0⟩, b)
  | .reg _ | .iadd _ _ _ => throw "BUG: invalid opcode"

def lowerAddend (p : Pointer) (b : Code) : Except String (Addend × Code) :=
  match p with
  | .reg v => pure (⟨some v, 0, 0⟩, b)
  | .iadd .. | .iconst _ false _ => let (r, b) := getOperand_Reg p b; pure (⟨some r, 0, 0⟩, b)
  | p => lowerAddendFromInstr p b

/-- The last step of `lowerAddendsToAmode`, for a displacement that fits. -/
def joinAddends (x y : Addend) (u32 : BitVec 32) (u64 : BitVec 64) (b : Code) :
    Except String (Amode × Code) :=
  match x.r, y.r with
  | some rx, some ry =>
    if x.shift ≠ 0 ∧ y.shift ≠ 0 then do
      -- Cannot absorb two shifted registers, must lower one to a shift instruction.
      let b := b.insert [.shiftLeft (BitVec.ofNat 32 x.shift) rx]
      return (← newAmodeRegRegShift u32 rx ry y.shift, b)
    else if x.shift ≠ 0 then do
      -- Swap base and index.
      return (← newAmodeRegRegShift u32 ry rx x.shift, b)
    else do
      return (← newAmodeRegRegShift u32 rx ry y.shift, b)
  | none, some r => lowerSingle r y.shift
  | some r, none => lowerSingle r x.shift
  | none, none =>
    -- Both are invalid: use the offset.
    pure (.immReg 0 b.next, b.allocate.insert (lowerIconst b.next u64))
where
  lowerSingle (r : VReg) (shift : Nat) : Except String (Amode × Code) :=
    if shift ≠ 0 then do
      let b' := b.allocate.insert (lowerIconst b.next 0)
      return (← newAmodeRegRegShift u32 b.next r shift, b')
    else pure (.immReg u32 r, b)

def lowerAddendsToAmode (x y : Addend) (offBase : BitVec 32) (b : Code) :
    Except String (Amode × Code) :=
  if (x.r.isSome ∧ x.off ≠ 0) ∨ (y.r.isSome ∧ y.off ≠ 0) then throw "invalid input"
  else
    let u64 := x.off + y.off + offBase.setWidth 64
    if u64 ≠ 0 ∧ asImm32 u64 false = none then
      let b' := b.allocate.insert (lowerIconst b.next u64)
      -- The sum has been lowered, so that nothing of it is left for the displacement.
      if x.r = none then joinAddends { x with r := some b.next } y 0 0 b'
      else if y.r = none then joinAddends x { y with r := some b.next } 0 0 b'
      else throw "BUG"
    else joinAddends x y (u64.setWidth 32) u64 b

/-- The address of one addend and an offset of which the sign bit is set. -/
def lowerHugeOffset (ptr : Pointer) (offsetBase : BitVec 32) (b : Code) :
    Except String (Amode × Code) := do
  let (a, b) ← lowerAddend ptr b
  let off64 := a.off + offsetBase.setWidth 64
  let offsetBaseReg := b.next
  let b := b.allocate.insert (lowerIconst offsetBaseReg off64)
  match a.r with
  | some r => return (← newAmodeRegRegShift 0 offsetBaseReg r a.shift, b)
  | none => return (.immReg 0 offsetBaseReg, b)

/-- The address of a pointer that is not a sum. -/
def lowerSingleAddend (ptr : Pointer) (offsetBase : BitVec 32) (b : Code) :
    Except String (Amode × Code) := do
  let (a, b) ← lowerAddend ptr b
  match a.r with
  | some r =>
    if a.shift ≠ 0 then
      let b' := b.allocate.insert (lowerIconst b.next 0)
      return (← newAmodeRegRegShift offsetBase b.next r a.shift, b')
    else return (.immReg offsetBase r, b)
  | none =>
    let b' := b.allocate.insert (lowerIconst b.next (a.off + offsetBase.setWidth 64))
    return (.immReg 0 b.next, b')

def lowerToAddressMode (ptr : Pointer) (offsetBase : BitVec 32) (b : Code) :
    Except String (Amode × Code) :=
  if offsetBase.msb then lowerHugeOffset ptr offsetBase b
  else
    match ptr with
    | .iadd v x y => do
      let (ax, b) ← lowerAddend x b
      let (ay, b) ← lowerAddend y b
      lowerAddendsToAmode ax ay offsetBase (b.markLowered v)
    | ptr => lowerSingleAddend ptr offsetBase b

end Andsifr.Amd64
