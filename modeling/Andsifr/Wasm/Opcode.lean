import Mathlib.Data.List.Basic

namespace Andsifr.Wasm.Opcode

def opEnd : UInt8 := 0x0b
def globalGet : UInt8 := 0x23
def i32Const : UInt8 := 0x41
def i64Const : UInt8 := 0x42
def f32Const : UInt8 := 0x43
def f64Const : UInt8 := 0x44
def i32Add : UInt8 := 0x6a
def i32Sub : UInt8 := 0x6b
def i32Mul : UInt8 := 0x6c
def i64Add : UInt8 := 0x7c
def i64Sub : UInt8 := 0x7d
def i64Mul : UInt8 := 0x7e
def refNull : UInt8 := 0xd0
def refFunc : UInt8 := 0xd2
def vecPrefix : UInt8 := 0xfd
def vecV128Const : UInt8 := 0x0c

end Andsifr.Wasm.Opcode
