import Andsifr.Wasm.Module

namespace Andsifr.Wasm

structure BlockType where
  params : List ValueType
  results : List ValueType
  deriving DecidableEq, Repr

def FunctionType.blockType (ft : FunctionType) : BlockType :=
  ⟨ft.params, ft.results⟩

/-- A catch clause of `try_table`, by its kind. -/
inductive CatchClause where
  | catchTag (tag label : Index)
  | catchRef (tag label : Index)
  | catchAll (label : Index)
  | catchAllRef (label : Index)
  deriving DecidableEq, Repr

def CatchClause.label : CatchClause → Index
  | catchTag _ label | catchRef _ label | catchAll label | catchAllRef label => label

/-- The instructions of a function body with the immediates that validation or compilation reads.
Instructions that differ only in their operand and result types stay together, by opcode. -/
inductive Instruction where
  | unreachable
  | nop
  | block (type : BlockType)
  | loop (type : BlockType)
  | ifOp (type : BlockType)
  | elseOp
  | tryTable (type : BlockType) (catches : List CatchClause)
  | throw (tag : Index)
  | throwRef
  | endOp
  | br (label : Index)
  | brIf (label : Index)
  | brTable (labels : List Index) (defaultLabel : Index)
  | brOnNull (label : Index)
  | brOnNonNull (label : Index)
  | returnOp
  | call (function : Index)
  | callIndirect (type table : Index)
  | callRef (type : Index)
  | returnCall (function : Index)
  | returnCallIndirect (type table : Index)
  | returnCallRef (type : Index)
  | drop
  | select
  | typedSelect (declared : ValueType)
  | localGet (index : Index)
  | localSet (index : Index)
  | localTee (index : Index)
  | globalGet (index : Index)
  | globalSet (index : Index)
  | tableGet (table : Index)
  | tableSet (table : Index)
  | refNull (type : ValueType)
  | refIsNull
  | refFunc (function : Index)
  | refAsNonNull
  | const (opcode : UInt8)
  | numeric (opcode : UInt8)
  /-- The loads and stores from `i32.load` to `i64.store32`. -/
  | memory (opcode : UInt8) (align offset : Nat)
  | memorySize
  | memoryGrow
  | truncSat (opcode : UInt8)
  | memoryInit (data : Index)
  | dataDrop (data : Index)
  | memoryCopy
  | memoryFill
  | tableInit (element table : Index)
  | elemDrop (element : Index)
  | tableCopy (dst src : Index)
  | tableGrow (table : Index)
  | tableSize (table : Index)
  | tableFill (table : Index)
  | v128Const
  | vec (opcode : UInt8)
  /-- A vector load or store, with its lane if it has one. -/
  | vecMemory (opcode : UInt8) (align offset : Nat) (lane : Option UInt8)
  | vecLane (opcode : UInt8) (lane : UInt8)
  | vecShuffle (lanes : List UInt8)
  | atomicFence
  | atomic (opcode : UInt8) (align offset : Nat)
  deriving DecidableEq, Repr

/-- The instructions that delimit blocks. -/
def Instruction.isStructured : Instruction → Bool
  | block _ | loop _ | ifOp _ | elseOp | tryTable _ _ | endOp => true
  | _ => false

/-- The types among the immediates are types that a module can declare. -/
def Instruction.Proper : Instruction → Prop
  | block type | loop type | ifOp type | tryTable type _ =>
    ∀ t ∈ type.params ++ type.results, t.Proper
  | typedSelect declared => declared.Proper
  | refNull type => type.isNullable = true
  | _ => True

/-- The types an instruction pops, the first popped first, and the types it pushes. -/
structure Signature where
  pops : List ValueType
  pushes : List ValueType
  deriving DecidableEq, Repr

/-- Opcodes, as closed ranges, that share a signature and the largest alignment they allow. -/
structure OpcodeClass where
  opcodes : List (UInt8 × UInt8)
  pops : List ValueType
  pushes : List ValueType
  alignMax : Nat := 0
  deriving DecidableEq, Repr

def OpcodeClass.covers (c : OpcodeClass) (opcode : UInt8) : Bool :=
  c.opcodes.any fun range => range.1 ≤ opcode && opcode ≤ range.2

def OpcodeClass.signature (c : OpcodeClass) : Signature :=
  ⟨c.pops, c.pushes⟩

open ValueType

/-- The numeric instructions, from `i32.eqz` on. -/
def numericClasses : List OpcodeClass :=
  [⟨[(0x45, 0x45)], [i32], [i32], 0⟩, ⟨[(0x46, 0x4f)], [i32, i32], [i32], 0⟩,
    ⟨[(0x50, 0x50)], [i64], [i32], 0⟩, ⟨[(0x51, 0x5a)], [i64, i64], [i32], 0⟩,
    ⟨[(0x5b, 0x60)], [f32, f32], [i32], 0⟩, ⟨[(0x61, 0x66)], [f64, f64], [i32], 0⟩,
    ⟨[(0x67, 0x69), (0xc0, 0xc1)], [i32], [i32], 0⟩, ⟨[(0x6a, 0x78)], [i32, i32], [i32], 0⟩,
    ⟨[(0x79, 0x7b), (0xc2, 0xc4)], [i64], [i64], 0⟩, ⟨[(0x7c, 0x8a)], [i64, i64], [i64], 0⟩,
    ⟨[(0x8b, 0x91)], [f32], [f32], 0⟩, ⟨[(0x92, 0x98)], [f32, f32], [f32], 0⟩,
    ⟨[(0x99, 0x9f)], [f64], [f64], 0⟩, ⟨[(0xa0, 0xa6)], [f64, f64], [f64], 0⟩,
    ⟨[(0xa7, 0xa7)], [i64], [i32], 0⟩, ⟨[(0xa8, 0xa9), (0xbc, 0xbc)], [f32], [i32], 0⟩,
    ⟨[(0xaa, 0xab)], [f64], [i32], 0⟩, ⟨[(0xac, 0xad)], [i32], [i64], 0⟩,
    ⟨[(0xae, 0xaf)], [f32], [i64], 0⟩, ⟨[(0xb0, 0xb1), (0xbd, 0xbd)], [f64], [i64], 0⟩,
    ⟨[(0xb2, 0xb3), (0xbe, 0xbe)], [i32], [f32], 0⟩, ⟨[(0xb4, 0xb5)], [i64], [f32], 0⟩,
    ⟨[(0xb6, 0xb6)], [f64], [f32], 0⟩, ⟨[(0xb7, 0xb8)], [i32], [f64], 0⟩,
    ⟨[(0xb9, 0xba), (0xbf, 0xbf)], [i64], [f64], 0⟩, ⟨[(0xbb, 0xbb)], [f32], [f64], 0⟩]

/-- The loads and stores of a memory. -/
def memoryClasses : List OpcodeClass :=
  [⟨[(0x28, 0x28)], [i32], [i32], 4⟩, ⟨[(0x29, 0x29)], [i32], [i64], 8⟩,
    ⟨[(0x2a, 0x2a)], [i32], [f32], 4⟩, ⟨[(0x2b, 0x2b)], [i32], [f64], 8⟩,
    ⟨[(0x2c, 0x2d)], [i32], [i32], 1⟩, ⟨[(0x2e, 0x2f)], [i32], [i32], 2⟩,
    ⟨[(0x30, 0x31)], [i32], [i64], 1⟩, ⟨[(0x32, 0x33)], [i32], [i64], 2⟩,
    ⟨[(0x34, 0x35)], [i32], [i64], 4⟩, ⟨[(0x36, 0x36)], [i32, i32], [], 4⟩,
    ⟨[(0x37, 0x37)], [i64, i32], [], 8⟩, ⟨[(0x38, 0x38)], [f32, i32], [], 4⟩,
    ⟨[(0x39, 0x39)], [f64, i32], [], 8⟩, ⟨[(0x3a, 0x3a)], [i32, i32], [], 1⟩,
    ⟨[(0x3b, 0x3b)], [i32, i32], [], 2⟩, ⟨[(0x3c, 0x3c)], [i64, i32], [], 1⟩,
    ⟨[(0x3d, 0x3d)], [i64, i32], [], 2⟩, ⟨[(0x3e, 0x3e)], [i64, i32], [], 4⟩]

def truncSatClasses : List OpcodeClass :=
  [⟨[(0x00, 0x01)], [f32], [i32], 0⟩, ⟨[(0x02, 0x03)], [f64], [i32], 0⟩,
    ⟨[(0x04, 0x05)], [f32], [i64], 0⟩, ⟨[(0x06, 0x07)], [f64], [i64], 0⟩]

/-- The vector instructions without immediates. -/
def vecClasses : List OpcodeClass :=
  [⟨[(0x53, 0x53), (0x63, 0x64), (0x83, 0x84), (0xa3, 0xa4), (0xc3, 0xc4)], [v128], [i32], 0⟩,
    ⟨[(0x0f, 0x11)], [i32], [v128], 0⟩, ⟨[(0x12, 0x12)], [i64], [v128], 0⟩,
    ⟨[(0x13, 0x13)], [f32], [v128], 0⟩, ⟨[(0x14, 0x14)], [f64], [v128], 0⟩,
    ⟨[(0x0e, 0x0e), (0x4e, 0x51)], [v128, v128], [v128], 0⟩,
    ⟨[(0x52, 0x52)], [v128, v128, v128], [v128], 0⟩, ⟨[(0x4d, 0x4d)], [v128], [v128], 0⟩,
    ⟨[(0x6b, 0x6d), (0x8b, 0x8d), (0xab, 0xad), (0xcb, 0xcd)], [i32, v128], [v128], 0⟩,
    ⟨[(0x23, 0x4c), (0x65, 0x66), (0x85, 0x86), (0xba, 0xba), (0xd6, 0xdb)], [v128, v128], [v128],
      0⟩,
    ⟨[(0x5e, 0x62), (0x67, 0x6a), (0x74, 0x75), (0x7a, 0x7a), (0x7c, 0x81), (0x87, 0x8a),
      (0x94, 0x94), (0xa0, 0xa1), (0xa7, 0xaa), (0xc0, 0xc1), (0xc7, 0xca), (0xe0, 0xe1),
      (0xe3, 0xe3), (0xec, 0xed), (0xef, 0xef), (0xf8, 0xff)], [v128], [v128], 0⟩,
    ⟨[(0x6e, 0x73), (0x76, 0x79), (0x7b, 0x7b), (0x82, 0x82), (0x8e, 0x93), (0x95, 0x99),
      (0x9b, 0x9f), (0xae, 0xae), (0xb1, 0xb1), (0xb5, 0xb9), (0xbc, 0xbf), (0xce, 0xce),
      (0xd1, 0xd1), (0xd5, 0xd5), (0xdc, 0xdf), (0xe4, 0xeb), (0xf0, 0xf7)], [v128, v128],
      [v128], 0⟩]

/-- The vector loads and stores of a whole vector. -/
def vecMemoryClasses : List OpcodeClass :=
  [⟨[(0x00, 0x00)], [i32], [v128], 16⟩,
    ⟨[(0x01, 0x06), (0x0a, 0x0a), (0x5d, 0x5d)], [i32], [v128], 8⟩,
    ⟨[(0x07, 0x07)], [i32], [v128], 1⟩, ⟨[(0x08, 0x08)], [i32], [v128], 2⟩,
    ⟨[(0x09, 0x09), (0x5c, 0x5c)], [i32], [v128], 4⟩, ⟨[(0x0b, 0x0b)], [v128, i32], [], 16⟩]

/-- The vector loads and stores of a lane; a vector has `16 / alignMax` of these lanes. -/
def vecMemoryLaneClasses : List OpcodeClass :=
  [⟨[(0x54, 0x54)], [v128, i32], [v128], 1⟩, ⟨[(0x55, 0x55)], [v128, i32], [v128], 2⟩,
    ⟨[(0x56, 0x56)], [v128, i32], [v128], 4⟩, ⟨[(0x57, 0x57)], [v128, i32], [v128], 8⟩,
    ⟨[(0x58, 0x58)], [v128, i32], [], 1⟩, ⟨[(0x59, 0x59)], [v128, i32], [], 2⟩,
    ⟨[(0x5a, 0x5a)], [v128, i32], [], 4⟩, ⟨[(0x5b, 0x5b)], [v128, i32], [], 8⟩]

/-- The instructions that extract or replace a lane of `alignMax` bytes. -/
def vecLaneClasses : List OpcodeClass :=
  [⟨[(0x15, 0x16)], [v128], [i32], 1⟩, ⟨[(0x18, 0x19)], [v128], [i32], 2⟩,
    ⟨[(0x1b, 0x1b)], [v128], [i32], 4⟩, ⟨[(0x1d, 0x1d)], [v128], [i64], 8⟩,
    ⟨[(0x1f, 0x1f)], [v128], [f32], 4⟩, ⟨[(0x21, 0x21)], [v128], [f64], 8⟩,
    ⟨[(0x17, 0x17)], [i32, v128], [v128], 1⟩, ⟨[(0x1a, 0x1a)], [i32, v128], [v128], 2⟩,
    ⟨[(0x1c, 0x1c)], [i32, v128], [v128], 4⟩, ⟨[(0x1e, 0x1e)], [i64, v128], [v128], 8⟩,
    ⟨[(0x20, 0x20)], [f32, v128], [v128], 4⟩, ⟨[(0x22, 0x22)], [f64, v128], [v128], 8⟩]

/-- The atomic instructions other than the fence. -/
def atomicClasses : List OpcodeClass :=
  [⟨[(0x00, 0x00)], [i32, i32], [i32], 4⟩, ⟨[(0x01, 0x01)], [i64, i32, i32], [i32], 4⟩,
    ⟨[(0x02, 0x02)], [i64, i64, i32], [i32], 8⟩, ⟨[(0x10, 0x10)], [i32], [i32], 4⟩,
    ⟨[(0x11, 0x11)], [i32], [i64], 8⟩, ⟨[(0x12, 0x12)], [i32], [i32], 1⟩,
    ⟨[(0x13, 0x13)], [i32], [i32], 2⟩, ⟨[(0x14, 0x14)], [i32], [i64], 1⟩,
    ⟨[(0x15, 0x15)], [i32], [i64], 2⟩, ⟨[(0x16, 0x16)], [i32], [i64], 4⟩,
    ⟨[(0x17, 0x17)], [i32, i32], [], 4⟩, ⟨[(0x18, 0x18)], [i64, i32], [], 8⟩,
    ⟨[(0x19, 0x19)], [i32, i32], [], 1⟩, ⟨[(0x1a, 0x1a)], [i32, i32], [], 2⟩,
    ⟨[(0x1b, 0x1b)], [i64, i32], [], 1⟩, ⟨[(0x1c, 0x1c)], [i64, i32], [], 2⟩,
    ⟨[(0x1d, 0x1d)], [i64, i32], [], 4⟩,
    -- the read-modify-write operations come in groups of seven
    ⟨[0x1e, 0x25, 0x2c, 0x33, 0x3a, 0x41].map fun op => (op, op), [i32, i32], [i32], 4⟩,
    ⟨[0x20, 0x27, 0x2e, 0x35, 0x3c, 0x43].map fun op => (op, op), [i32, i32], [i32], 1⟩,
    ⟨[0x21, 0x28, 0x2f, 0x36, 0x3d, 0x44].map fun op => (op, op), [i32, i32], [i32], 2⟩,
    ⟨[0x1f, 0x26, 0x2d, 0x34, 0x3b, 0x42].map fun op => (op, op), [i64, i32], [i64], 8⟩,
    ⟨[0x22, 0x29, 0x30, 0x37, 0x3e, 0x45].map fun op => (op, op), [i64, i32], [i64], 1⟩,
    ⟨[0x23, 0x2a, 0x31, 0x38, 0x3f, 0x46].map fun op => (op, op), [i64, i32], [i64], 2⟩,
    ⟨[0x24, 0x2b, 0x32, 0x39, 0x40, 0x47].map fun op => (op, op), [i64, i32], [i64], 4⟩,
    ⟨[(0x48, 0x48)], [i32, i32, i32], [i32], 4⟩, ⟨[(0x4a, 0x4a)], [i32, i32, i32], [i32], 1⟩,
    ⟨[(0x4b, 0x4b)], [i32, i32, i32], [i32], 2⟩, ⟨[(0x49, 0x49)], [i64, i64, i32], [i64], 8⟩,
    ⟨[(0x4c, 0x4c)], [i64, i64, i32], [i64], 1⟩, ⟨[(0x4d, 0x4d)], [i64, i64, i32], [i64], 2⟩,
    ⟨[(0x4e, 0x4e)], [i64, i64, i32], [i64], 4⟩]

def findClass (classes : List OpcodeClass) (opcode : UInt8) : Option OpcodeClass :=
  classes.find? (·.covers opcode)

end Andsifr.Wasm
