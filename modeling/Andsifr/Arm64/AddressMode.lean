import Mathlib.Data.BitVec
import Mathlib.Tactic.Abel
import Andsifr.Arm64.LowerConstant

namespace Andsifr.Arm64

open Lib.Emission

/-! ## Pointer expressions -/

/-- The 32-bit operand of an extension: a constant, or a value in its register, of which the upper
half is not specified. -/
inductive Operand32 where
  | const (c : BitVec 64)
  | reg (v : VReg)
deriving DecidableEq, Repr

inductive ShiftAmount where
  | const (c : BitVec 64)
  | reg (v : VReg)
deriving DecidableEq, Repr

/-- The definition of a 64-bit value as the lowering sees it. An instruction of another group or
with several uses is not matched, so that its value is a `reg` like a parameter or the result of any
other instruction; of a constant, which is inlined anyway, `merge` tells whether it is matched. Each
value has a register `v`. Addends of 32 bits without an extension, and the panics about the sizes of
operands, are left out. -/
inductive Pointer where
  | reg (v : VReg)
  | iconst (v : VReg) (merge : Bool) (c : BitVec 64)
  | iadd (v : VReg) (x y : Pointer)
  | ishl (v : VReg) (x : Pointer) (amount : ShiftAmount)
  | extend (v : VReg) (signed : Bool) (x : Operand32)
deriving DecidableEq, Repr

def extendOpOf (signed : Bool) : ExtendOp :=
  if signed then .sxtw else .uxtw

def Operand32.value (s : Regs) : Operand32 → BitVec 64
  | .const c => c
  | .reg v => s v

/-- A shift amount counts modulo 64. -/
def ShiftAmount.value (s : Regs) : ShiftAmount → Nat
  | .const c => c.toNat % 64
  | .reg v => (s v).toNat % 64

def Pointer.value (s : Regs) : Pointer → BitVec 64
  | .reg v => s v
  | .iconst _ _ c => c
  | .iadd _ x y => x.value s + y.value s
  | .ishl _ x amount => x.value s <<< amount.value s
  | .extend _ signed x => (extendOpOf signed).apply (x.value s)

def Pointer.vreg : Pointer → VReg
  | .reg v | .iconst v _ _ | .iadd v _ _ | .ishl v _ _ | .extend v _ _ => v

/-! ## Address modes -/

inductive AccessSize where
  | b8 | b16 | b32 | b64 | b128
deriving DecidableEq, Repr

def AccessSize.bits : AccessSize → Nat
  | .b8 => 8
  | .b16 => 16
  | .b32 => 32
  | .b64 => 64
  | .b128 => 128

/-- The amount by which the architecture scales an index register. -/
def AccessSize.scale : AccessSize → Nat
  | .b8 => 0
  | .b16 => 1
  | .b32 => 2
  | .b64 => 3
  | .b128 => 4

inductive AddressMode where
  | regScaledExtended (rn rm : VReg) (ext : ExtendOp)
  | regScaled (rn rm : VReg)
  | regExtended (rn rm : VReg) (ext : ExtendOp)
  | regReg (rn rm : VReg)
  | regSignedImm9 (rn : VReg) (imm : BitVec 64)
  | regUnsignedImm12 (rn : VReg) (imm : BitVec 64)
deriving DecidableEq, Repr

namespace AddressMode

def rn : AddressMode → VReg
  | regScaledExtended rn _ _ | regScaled rn _ | regExtended rn _ _ | regReg rn _
  | regSignedImm9 rn _ | regUnsignedImm12 rn _ => rn

def withBase (base : VReg) : AddressMode → AddressMode
  | regScaledExtended _ rm ext => regScaledExtended base rm ext
  | regScaled _ rm => regScaled base rm
  | regExtended _ rm ext => regExtended base rm ext
  | regReg _ rm => regReg base rm
  | regSignedImm9 _ imm => regSignedImm9 base imm
  | regUnsignedImm12 _ imm => regUnsignedImm12 base imm

/-- What the address adds to its base register, if the immediate can be encoded. -/
def index (size : AccessSize) (s : Regs) : AddressMode → Option (BitVec 64)
  | regScaledExtended _ rm ext => some (ext.apply (s rm) <<< size.scale)
  | regScaled _ rm => some (s rm <<< size.scale)
  | regExtended _ rm ext => some (ext.apply (s rm))
  | regReg _ rm => some (s rm)
  | regSignedImm9 _ imm => if -256 ≤ imm.toInt ∧ imm.toInt ≤ 255 then some imm else none
  | regUnsignedImm12 _ imm =>
    if imm.toNat % (size.bits / 8) = 0 ∧ imm.toNat / (size.bits / 8) < 4096 then some imm else none

def denote (size : AccessSize) (s : Regs) (a : AddressMode) : Option (BitVec 64) :=
  (a.index size s).map (s a.rn + ·)

end AddressMode

def offsetFitsInAddressModeKindRegUnsignedImm12 (size : AccessSize) (offset : BitVec 64) : Bool :=
  let divisor := (size.bits / 8 : Nat)
  0 < offset.toInt ∧ offset.toInt.tmod divisor = 0 ∧ offset.toInt.tdiv divisor < 4096

def offsetFitsInAddressModeKindRegSignedImm9 (offset : BitVec 64) : Bool :=
  -256 ≤ offset.toInt ∧ offset.toInt ≤ 255

def sizeInBitsToShiftAmount : AccessSize → Nat
  | .b8 => 0
  | .b16 => 1
  | .b32 => 2
  | .b64 => 3
  | .b128 => 0

/-! ## Emitting instructions -/

abbrev Code := Buffer Instr

/-- `AllocateVReg` and an instruction that writes the new register. -/
def emitTo (b : Code) (is : VReg → List Instr) : VReg × Code :=
  (b.next, b.allocate.insert (is b.next))

def lowerConstant (c : BitVec 64) (b : Code) : VReg × Code :=
  emitTo b fun vr => if c = 0 then [.moveZero vr] else lowerConstantI64 vr c

def getOperand_NR (x : Pointer) (b : Code) : VReg × Code :=
  match x with
  | .iconst v _ c =>
    let (r, b) := lowerConstant c b
    (r, b.markLowered v)
  | x => (x.vreg, b)

def asImm12 (val : BitVec 64) : Option (BitVec 12 × Bool) :=
  if val &&& ~~~0xfff = 0 then some (val.setWidth 12, false)
  else if val &&& ~~~0xfff_000 = 0 then some ((val >>> 12).setWidth 12, true)
  else none

def addConstToReg64 (r : VReg) (c : BitVec 64) (b : Code) : VReg × Code :=
  let rd := b.next
  let b := b.allocate
  match asImm12 c with
  | some (imm12, shiftBit) => (rd, b.insert [.addImm12 rd r imm12 shiftBit])
  | none =>
    match asImm12 (-c) with
    | some (imm12, shiftBit) => (rd, b.insert [.subImm12 rd r imm12 shiftBit])
    | none =>
      let tmp := b.next
      let b := b.allocate.insert (load64bitConst c tmp)
      (rd, b.insert [.add rd r tmp])

def addReg64ToReg64 (rn rm : VReg) (b : Code) : VReg × Code :=
  emitTo b fun rd => [.add rd rn rm]

def addRegToReg64Ext (rn rm : VReg) (ext : ExtendOp) (b : Code) : VReg × Code :=
  emitTo b fun rd => [.addExtend rd rn rm ext]

/-! ## Collecting the addends -/

structure Addend32 where
  r : VReg
  ext : ExtendOp
deriving DecidableEq, Repr

/-- The addend `r << shift`, in which `r` is extended first if `ext` is given. -/
structure AddendShifted where
  r : VReg
  ext : Option ExtendOp
  shift : Nat
deriving DecidableEq, Repr

structure Addends where
  a32s : List Addend32
  a64s : List VReg
  aShifted : List AddendShifted
  offset : BitVec 64
deriving DecidableEq, Repr

def Addends.empty : Addends := ⟨[], [], [], 0⟩

/-- What `collectAddends` does with a left shift. -/
def collectShift (v : VReg) (x : Pointer) (amount : ShiftAmount) (a : Addends) (b : Code) :
    Addends × Code :=
  match amount with
  | .const c =>
    let shift := (c &&& 63).toNat
    if 1 ≤ shift ∧ shift ≤ 4 then
      match x with
      | .extend w signed (.reg r) =>
        ({ a with aShifted := a.aShifted ++ [⟨r, some (extendOpOf signed), shift⟩] },
          (b.markLowered w).markLowered v)
      | x =>
        let (r, b) := getOperand_NR x b
        ({ a with aShifted := a.aShifted ++ [⟨r, none, shift⟩] }, b.markLowered v)
    else ({ a with a64s := a.a64s ++ [v] }, b)
  | .reg _ => ({ a with a64s := a.a64s ++ [v] }, b)

/-- One round of `collectAddends`: what it does with a value, and the values it enqueues. -/
def collectAddend (p : Pointer) (a : Addends) (b : Code) : Addends × Code × List Pointer :=
  match p with
  | .iadd v x y => (a, b.markLowered v, [x, y])
  | .iconst v true c => ({ a with offset := a.offset + c }, b.markLowered v, [])
  | .extend v signed (.const c) =>
    ({ a with offset := a.offset + (extendOpOf signed).apply c }, b.markLowered v, [])
  | .extend v signed (.reg r) =>
    ({ a with a32s := a.a32s ++ [⟨r, extendOpOf signed⟩] }, b.markLowered v, [])
  | .ishl v x amount =>
    let (a, b) := collectShift v x amount a b
    (a, b, [])
  | p =>
    let (r, b) := getOperand_NR p b
    ({ a with a64s := a.a64s ++ [r] }, b, [])

/-- The loop of `collectAddends` over its work queue. -/
def collectFrom : Nat → List Pointer → Addends → Code → Addends × Code
  | 0, _, a, b => (a, b)
  | _ + 1, [], a, b => (a, b)
  | rounds + 1, p :: queue, a, b =>
    let (a, b, more) := collectAddend p a b
    collectFrom rounds (queue ++ more) a b

/-- The number of values of an expression, which bounds the rounds of the loop. -/
def Pointer.size : Pointer → Nat
  | .iadd _ x y => x.size + y.size + 1
  | _ => 1

def collectAddends (ptr : Pointer) (b : Code) : Addends × Code :=
  collectFrom ptr.size [ptr] .empty b

/-! ## Choosing the address mode -/

/-- A shifted addend in a register of its own. -/
def materialize (s : AddendShifted) (b : Code) : VReg × Code :=
  let (r, b) := match s.ext with
    | none => (s.r, b)
    | some ext => emitTo b fun rd => [.extend rd s.r (ext = .sxtw)]
  emitTo b fun rd => [.lslImm rd r s.shift]

/-- The first addend whose shift fits the access becomes the index, the others are materialized. -/
def takeScaledIndex (size : AccessSize) :
    List AddendShifted → Option AddendShifted → List VReg → Code →
      Option AddendShifted × List VReg × Code
  | [], scaledIndex, a64s, b => (scaledIndex, a64s, b)
  | s :: rest, scaledIndex, a64s, b =>
    if scaledIndex = none ∧ s.shift = sizeInBitsToShiftAmount size then
      takeScaledIndex size rest (some s) a64s b
    else
      let (r, b) := materialize s b
      takeScaledIndex size rest scaledIndex (a64s ++ [r]) b

def addAll64 : VReg → List VReg → Code → VReg × Code
  | base, [], b => (base, b)
  | base, a64 :: a64s, b =>
    let (base, b) := addReg64ToReg64 base a64 b
    addAll64 base a64s b

def addAll32 : VReg → List Addend32 → Code → VReg × Code
  | base, [], b => (base, b)
  | base, a32 :: a32s, b =>
    let (base, b) := addRegToReg64Ext base a32.r a32.ext b
    addAll32 base a32s b

/-- The end of both ways through the function: what is left is added to the base register. -/
def addRest (amode : AddressMode) (offset : BitVec 64) (a64s : List VReg) (a32s : List Addend32)
    (b : Code) : AddressMode × Code :=
  let (base, b) := if offset ≠ 0 then addConstToReg64 amode.rn offset b else (amode.rn, b)
  let (base, b) := addAll64 base a64s b
  let (base, b) := addAll32 base a32s b
  (amode.withBase base, b)

def scaledMode (base : VReg) (scaledIndex : AddendShifted) : AddressMode :=
  match scaledIndex.ext with
  | some ext => .regScaledExtended base scaledIndex.r ext
  | none => .regScaled base scaledIndex.r

/-- The way with a scaled index, for which a base is made of the offset if there is none. -/
def lowerScaled (index : AddendShifted) (a64s : List VReg) (a32s : List Addend32)
    (offset : BitVec 64) (b : Code) : AddressMode × Code :=
  match a64s with
  | base :: a64s => addRest (scaledMode base index) offset a64s a32s b
  | [] =>
    let (base, b) := emitTo b fun rd => lowerConstantI64 rd offset
    addRest (scaledMode base index) 0 [] a32s b

/-- The cases of the `switch` over the addends that there are. -/
def lowerUnscaled (size : AccessSize) (a64s : List VReg) (a32s : List Addend32)
    (offset : BitVec 64) (b : Code) : AddressMode × Code :=
  match a64s, a32s with
  | base :: a64s, a32 :: a32s => addRest (.regExtended base a32.r a32.ext) offset a64s a32s b
  | base :: a64s, [] =>
    if offsetFitsInAddressModeKindRegUnsignedImm12 size offset then
      addRest (.regUnsignedImm12 base offset) 0 a64s [] b
    else if offsetFitsInAddressModeKindRegSignedImm9 offset then
      addRest (.regSignedImm9 base offset) 0 a64s [] b
    else
      match a64s with
      | index :: a64s => addRest (.regReg base index) offset a64s [] b
      | [] => addRest (.regUnsignedImm12 base 0) offset [] [] b
  | [], base32 :: a32s =>
    let (base, b) := emitTo b fun rd => [.extend rd base32.r (base32.ext = .sxtw)]
    match a32s with
    | index :: a32s => addRest (.regExtended base index.r index.ext) offset [] a32s b
    | [] => addRest (.regUnsignedImm12 base 0) offset [] [] b
  | [], [] =>
    let (tmpReg, b) := emitTo b fun rd => lowerConstantI64 rd offset
    addRest (.regUnsignedImm12 tmpReg 0) 0 [] [] b

def lowerToAddressModeFromAddends (a : Addends) (size : AccessSize)
    (offset : BitVec 64) (b : Code) :
    AddressMode × Code :=
  let (scaledIndex, a64s, b) := takeScaledIndex size a.aShifted none a.a64s b
  match scaledIndex with
  | some index => lowerScaled index a64s a.a32s offset b
  | none => lowerUnscaled size a64s a.a32s offset b

/-- The address mode of an access of the given size at `ptr + offsetBase`. -/
def lowerToAddressMode (ptr : Pointer) (offsetBase : BitVec 32) (size : AccessSize) (b : Code) :
    AddressMode × Code :=
  let (a, b) := collectAddends ptr b
  lowerToAddressModeFromAddends a size (a.offset + offsetBase.setWidth 64) b

end Andsifr.Arm64
