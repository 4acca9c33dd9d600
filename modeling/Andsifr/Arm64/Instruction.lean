import Andsifr.Arm64.BitmaskImmediate
import Andsifr.Lib.Emission

namespace Andsifr.Arm64

abbrev VReg := Nat

/-- The extensions of a 32-bit register that an operand can ask for. -/
inductive ExtendOp where
  | uxtw | sxtw
deriving DecidableEq, Repr

def ExtendOp.apply : ExtendOp → BitVec 64 → BitVec 64
  | .uxtw, v => (v.setWidth 32).setWidth 64
  | .sxtw, v => (v.setWidth 32).signExtend 64

/-- The instructions that the lowering of constants and of address modes emits. The amounts of the
wide moves are divided by 16, an `imm12` operand is shifted by 12 bits when `shiftBit` is set, and
the bitmask form of `orr` has the zero register as its source. -/
inductive Instr where
  | movZ (rd : VReg) (imm : BitVec 64) (shift : Nat) (dst64 : Bool)
  | movN (rd : VReg) (imm : BitVec 64) (shift : Nat) (dst64 : Bool)
  | movK (rd : VReg) (imm : BitVec 64) (shift : Nat) (dst64 : Bool)
  | orrBitmaskImm (rd : VReg) (imm : BitVec 64) (dst64 : Bool)
  | moveZero (rd : VReg)
  | extend (rd rn : VReg) (signed : Bool)
  | lslImm (rd rn : VReg) (amount : Nat)
  | add (rd rn rm : VReg)
  | addExtend (rd rn rm : VReg) (ext : ExtendOp)
  | addImm12 (rd rn : VReg) (imm12 : BitVec 12) (shiftBit : Bool)
  | subImm12 (rd rn : VReg) (imm12 : BitVec 12) (shiftBit : Bool)
deriving DecidableEq, Repr

abbrev Regs := Lib.Emission.Regs (BitVec 64)

/-- A write of a 32-bit register clears the upper half. -/
def narrow (dst64 : Bool) (v : BitVec 64) : BitVec 64 :=
  if dst64 then v else (v.setWidth 32).setWidth 64

/-- The 16 bits that the encoder keeps of the immediate of a wide move, at their place. -/
def wideField (imm : BitVec 64) (shift : Nat) : BitVec 64 :=
  (imm &&& 0xffff) <<< (16 * shift)

def wideMask (shift : Nat) : BitVec 64 :=
  0xffff <<< (16 * shift)

def imm12Value (imm12 : BitVec 12) (shiftBit : Bool) : BitVec 64 :=
  imm12.setWidth 64 <<< (if shiftBit then 12 else 0)

/-- What an instruction does to the registers, if its encoding is defined. -/
def Instr.step (s : Regs) : Instr → Option Regs
  | .movZ rd imm shift dst64 => do
    guard (shift < if dst64 then 4 else 2)
    pure (s.set rd (wideField imm shift))
  | .movN rd imm shift dst64 => do
    guard (shift < if dst64 then 4 else 2)
    pure (s.set rd (narrow dst64 (~~~wideField imm shift)))
  | .movK rd imm shift dst64 => do
    guard (shift < if dst64 then 4 else 2)
    pure (s.set rd (narrow dst64 (s rd &&& ~~~wideMask shift ||| wideField imm shift)))
  | .orrBitmaskImm rd imm dst64 => do
    let f ← bitmaskImmediate imm dst64
    if dst64 then
      let v ← f.decode 64
      pure (s.set rd v)
    else
      let v ← f.decode 32
      pure (s.set rd (v.setWidth 64))
  | .moveZero rd => pure (s.set rd 0)
  | .extend rd rn signed =>
    pure (s.set rd ((if signed then ExtendOp.sxtw else ExtendOp.uxtw).apply (s rn)))
  | .lslImm rd rn amount => do
    guard (amount < 64)
    pure (s.set rd (s rn <<< amount))
  | .add rd rn rm => pure (s.set rd (s rn + s rm))
  | .addExtend rd rn rm ext => pure (s.set rd (s rn + ext.apply (s rm)))
  | .addImm12 rd rn imm12 shiftBit => pure (s.set rd (s rn + imm12Value imm12 shiftBit))
  | .subImm12 rd rn imm12 shiftBit => pure (s.set rd (s rn - imm12Value imm12 shiftBit))

def run (is : List Instr) (s : Regs) : Option Regs :=
  is.foldlM Instr.step s

@[simp] theorem run_nil (s : Regs) : run [] s = some s := rfl

@[simp] theorem run_cons (i : Instr) (is : List Instr) (s : Regs) :
    run (i :: is) s = (i.step s).bind (run is) := by
  rfl

theorem run_append (is js : List Instr) (s : Regs) :
    run (is ++ js) s = (run is s).bind (run js) := by
  simp only [run, List.foldlM_append, Option.bind_eq_bind]
  rfl

end Andsifr.Arm64
