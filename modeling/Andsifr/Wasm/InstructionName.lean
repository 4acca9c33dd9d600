import Mathlib.Data.List.Defs

namespace Andsifr.Wasm

/-- The names of consecutive opcodes: the first opcode, what all the names begin with, and how each
of them goes on. -/
structure NameRun where
  first : Nat
  stem : String
  rest : String

def NameRun.name (run : NameRun) (opcode : UInt8) : Option String :=
  if run.first ≤ opcode.toNat then
    ((run.rest.splitOn " ")[opcode.toNat - run.first]?).map (run.stem ++ ·)
  else none

def nameIn (runs : List NameRun) (opcode : UInt8) : String :=
  (runs.findSome? (·.name opcode)).getD ""

def relations : String := "eq ne lt_s lt_u gt_s gt_u le_s le_u ge_s ge_u"

def floatRelations : String := "eq ne lt gt le ge"

def arithmetic : String :=
  "clz ctz popcnt add sub mul div_s div_u rem_s rem_u and or xor shl shr_s shr_u rotl rotr"

def floatArithmetic : String :=
  "abs neg ceil floor trunc nearest sqrt add sub mul div min max copysign"

def instructionName : UInt8 → String := nameIn
  [⟨0x28, "", "i32.load i64.load f32.load f64.load"⟩,
    ⟨0x2c, "i32.load", "8_s 8_u 16_s 16_u"⟩,
    ⟨0x30, "i64.load", "8_s 8_u 16_s 16_u 32_s 32_u"⟩,
    ⟨0x36, "", "i32.store i64.store f32.store f64.store i32.store8 i32.store16"⟩,
    ⟨0x3c, "i64.store", "8 16 32"⟩,
    ⟨0x45, "i32.eqz", ""⟩, ⟨0x46, "i32.", relations⟩,
    ⟨0x50, "i64.eqz", ""⟩, ⟨0x51, "i64.", relations⟩,
    ⟨0x5b, "f32.", floatRelations⟩, ⟨0x61, "f64.", floatRelations⟩,
    ⟨0x67, "i32.", arithmetic⟩, ⟨0x79, "i64.", arithmetic⟩,
    ⟨0x8b, "f32.", floatArithmetic⟩, ⟨0x99, "f64.", floatArithmetic⟩,
    ⟨0xa7, "i32.", "wrap_i64 trunc_f32_s trunc_f32_u trunc_f64_s trunc_f64_u"⟩,
    ⟨0xac, "i64.", "extend_i32_s extend_i32_u trunc_f32_s trunc_f32_u trunc_f64_s trunc_f64_u"⟩,
    ⟨0xb2, "f32.", "convert_i32_s convert_i32_u convert_i64_s convert_i64u demote_f64"⟩,
    ⟨0xb7, "f64.", "convert_i32_s convert_i32_u convert_i64_s convert_i64_u promote_f32"⟩,
    ⟨0xbc, "", "i32.reinterpret_f32 i64.reinterpret_f64 f32.reinterpret_i32 f64.reinterpret_i64"⟩,
    ⟨0xc0, "i32.extend", "8_s 16_s"⟩, ⟨0xc2, "i64.extend", "8_s 16_s 32_s"⟩]

/-- The names of the conversions. Those of the other instructions stand where they are used. -/
def miscInstructionName : UInt8 → String := nameIn
  [⟨0x00, "i32.trunc_sat_", "f32_s f32_u f64_s f64_u"⟩,
    ⟨0x04, "i64.trunc_sat_", "f32_s f32_u f64_s f64_u"⟩]

/-- The four instructions that widen the halves of a vector. -/
def widening (first : Nat) (stem source : String) : NameRun :=
  ⟨first, stem, s!"low_{source}_s high_{source}_s low_{source}_u high_{source}_u"⟩

def vectorInstructionName : UInt8 → String := nameIn
  [⟨0x00, "v128.load",
      " 8x8_s 8x8_u 16x4_s 16x4_u 32x2_s 32x2_u 8_splat 16_splat 32_splat 64_splat"⟩,
    ⟨0x0b, "v128.", "store const shuffle"⟩,
    ⟨0x0e, "i8x16.swizzle", ""⟩,
    ⟨0x0f, "", "i8x16.splat i16x8.splat i32x4.splat i64x2.splat f32x4.splat f64x2.splat"⟩,
    ⟨0x15, "i8x16.", "extract_lane_s extract_lane_u replace_lane"⟩,
    ⟨0x18, "i16x8.", "extract_lane_s extract_lane_u replace_lane"⟩,
    ⟨0x1b, "i32x4.", "extract_lane replace_lane"⟩, ⟨0x1d, "i64x2.", "extract_lane replace_lane"⟩,
    ⟨0x1f, "f32x4.", "extract_lane replace_lane"⟩, ⟨0x21, "f64x2.", "extract_lane replace_lane"⟩,
    ⟨0x23, "i8x16.", relations⟩, ⟨0x2d, "i16x8.", relations⟩, ⟨0x37, "i32x4.", relations⟩,
    ⟨0x41, "f32x4.", floatRelations⟩, ⟨0x47, "f64x2.", floatRelations⟩,
    ⟨0x4d, "v128.", "not and andnot or xor bitselect any_true"⟩,
    ⟨0x54, "v128.load", "8_lane 16_lane 32_lane 64_lane"⟩,
    ⟨0x58, "v128.store", "8_lane 16_lane 32_lane 64_lane"⟩,
    ⟨0x5c, "v128.load", "32_zero 64_zero"⟩,
    ⟨0x5e, "", "f32x4.demote_f64x2_zero f64x2.promote_low_f32x4"⟩,
    ⟨0x60, "i8x16.", "abs neg popcnt all_true bitmask narrow_i16x8_s narrow_i16x8_u"⟩,
    ⟨0x67, "f32x4.", "ceil floor trunc nearest"⟩,
    ⟨0x6b, "i8x16.", "shl shr_s shr_u add add_sat_s add_sat_u sub sub_s sub_u"⟩,
    ⟨0x74, "f64x2.", "ceil floor"⟩, ⟨0x76, "i8x16.", "min_s min_u max_s max_u"⟩,
    ⟨0x7a, "", "f64x2.trunc i8x16.avgr_u"⟩,
    ⟨0x7c, "i16x8.extadd_pairwise_i8x16_", "s u"⟩, ⟨0x7e, "i32x4.extadd_pairwise_i16x8_", "s u"⟩,
    ⟨0x80, "i16x8.", "abs neg q15mulr_sat_s all_true bitmask narrow_i32x4_s narrow_i32x4_u"⟩,
    widening 0x87 "i16x8.extend_" "i8x16",
    ⟨0x8b, "i16x8.", "shl shr_s shr_u add add_sat_s add_sat_u sub sub_sat_s sub_sat_u"⟩,
    ⟨0x94, "", "f64x2.nearest i16x8.mul"⟩, ⟨0x96, "i16x8.", "min_s min_u max_s max_u"⟩,
    ⟨0x9b, "i16x8.avgr_u", ""⟩, widening 0x9c "i16x8.extmul_" "i8x16",
    ⟨0xa0, "i32x4.", "abs neg"⟩, ⟨0xa3, "i32x4.", "all_true bitmask"⟩,
    widening 0xa7 "i32x4.extend_" "i16x8", ⟨0xab, "i32x4.", "shl shr_s shr_u add"⟩,
    ⟨0xb1, "i32x4.sub", ""⟩, ⟨0xb5, "i32x4.", "mul min_s min_u max_s max_u dot_i16x8_s"⟩,
    widening 0xbc "i32x4.extmul_" "i16x8",
    ⟨0xc0, "i64x2.", "abs neg"⟩, ⟨0xc3, "i64x2.", "all_true bitmask"⟩,
    widening 0xc7 "i64x2.extend_" "i32x4", ⟨0xcb, "i64x2.", "shl shr_s shr_u add"⟩,
    ⟨0xd1, "i64x2.sub", ""⟩, ⟨0xd5, "i64x2.mul", ""⟩, ⟨0xd6, "i64x2.", floatRelations⟩,
    widening 0xdc "i64x2.extmul_" "i32x4",
    ⟨0xe0, "f32x4.", "abs neg"⟩, ⟨0xe3, "f32x4.", "sqrt add sub mul div min max pmin pmax"⟩,
    ⟨0xec, "f64x2.", "abs neg"⟩, ⟨0xef, "f64x2.", "sqrt add sub mul div min max pmin pmax"⟩,
    ⟨0xf8, "i32x4.trunc_sat_f32x4_", "s u"⟩, ⟨0xfa, "f32x4.convert_i32x4_", "s u"⟩,
    ⟨0xfc, "i32x4.trunc_sat_f64x2_", "s_zero u_zero"⟩, ⟨0xfe, "f64x2.convert_low_i32x4_", "s u"⟩]

/-- The seven widths of a read-modify-write operation. -/
def rmw (first : Nat) (op : String) : List NameRun :=
  [⟨first, "i", s!"32.atomic.rmw.{op} 64.atomic.rmw.{op}"⟩,
    ⟨first + 2, "i32.atomic.rmw", s!"8.{op}_u 16.{op}_u"⟩,
    ⟨first + 4, "i64.atomic.rmw", s!"8.{op}_u 16.{op}_u 32.{op}_u"⟩]

def atomicInstructionName : UInt8 → String := nameIn <|
  [⟨0x00, "memory.atomic.", "notify wait32 wait64"⟩, ⟨0x03, "atomic.fence", ""⟩,
    ⟨0x10, "i", "32.atomic.load 64.atomic.load"⟩, ⟨0x12, "i32.atomic.load", "8_u 16_u"⟩,
    ⟨0x14, "i64.atomic.load", "8_u 16_u 32_u"⟩, ⟨0x17, "i", "32.atomic.store 64.atomic.store"⟩,
    ⟨0x19, "i32.atomic.store", "8 16"⟩, ⟨0x1b, "i64.atomic.store", "8 16 32"⟩] ++
  rmw 0x1e "add" ++ rmw 0x25 "sub" ++ rmw 0x2c "and" ++ rmw 0x33 "or" ++ rmw 0x3a "xor" ++
  rmw 0x41 "xchg" ++ rmw 0x48 "cmpxchg"

end Andsifr.Wasm
