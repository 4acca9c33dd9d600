import Andsifr.Leb128
import Andsifr.Lib.Utf8
import Andsifr.Wasm.Module
import Andsifr.Wasm.Opcode

namespace Andsifr.Binary

open Lib Leb128 Wasm Parser

def errInvalidByte : String := "invalid byte"

def requireEnabled (f feature : CoreFeatures) (wrap : String → String) : Parser Unit :=
  require (f.isEnabled feature) (wrap feature.disabled)

/-- The text and the number of bytes read, as a `uint32`. -/
def decodeUTF8 (context : String) : Parser (String × Nat) := do
  let (size, sizeOfSize) ← decodeUint32.mapErr (s!"failed to read {context} size: {·}")
  if size = 0 then
    return ("", sizeOfSize)
  else
    let buf ← (readFull size).mapErr (s!"failed to read {context}: {·}")
    match decodeRunes buf with
    | none => fail s!"{context} is not valid UTF-8"
    | some runes => return (String.ofList runes, (size + sizeOfSize) % 2 ^ 32)

def ensureVectorCountFits (vs : Nat) (what : String) : Parser Unit := do
  let r ← reader
  require (vs ≤ r.len) s!"{what} vector count {vs} exceeds remaining bytes {r.len}"

/-- The type a heap type stands for, before the non-nullable flag is set. -/
def heapValueType (ht : Int) (nullable : Bool) : Parser ValueType :=
  if ht = heapTypeFunc then pure .funcref
  else if ht = heapTypeExtern then pure .externref
  else if ht = heapTypeExn then pure .exnref
  else if ht < 0 then fail s!"unknown abstract heap type: {ht}"
  else pure (.concreteRef (ht.toNat % 2 ^ 32) nullable)

def decodeRefType (nullable : Bool) : Parser ValueType := do
  let (ht, _) ← decodeInt33AsInt64.mapErr (s!"read ref heap type: {·}")
  let vt ← heapValueType ht nullable
  return if nullable then vt else vt.asNonNullable

def isRefPrefix (b : UInt8) : Bool :=
  b == refPrefixNullable || b == refPrefixNonNullable

/-- The one-byte value types. -/
def isValueTypeByte (b : UInt8) : Bool :=
  [ValueType.i32, .f32, .i64, .f64, .externref, .funcref, .v128, .exnref].any (·.kind == b)

def decodeValueType (features : CoreFeatures) : Parser ValueType := do
  let b ← readByte
  if isValueTypeByte b then
    return .ofByte b
  else if isRefPrefix b then
    requireEnabled features .typedFunctionReferences (s!"concrete reference type invalid as {·}")
    decodeRefType (b == refPrefixNullable)
  else
    fail s!"invalid value type: {b}"

def decodeValueTypes (num : Nat) (features : CoreFeatures) : Parser (List ValueType) :=
  times num fun _ => decodeValueType features

structure Limits where
  min : Nat
  max : Option Nat
  shared : Bool

def decodeLimitsType : Parser Limits := do
  let flag ← readByte.mapErr (s!"read leading byte: {·}")
  if flag = 0x00 ∨ flag = 0x02 then
    let (min, _) ← decodeUint32.mapErr (s!"read min of limit: {·}")
    return ⟨min, none, flag == 0x02⟩
  else if flag = 0x01 ∨ flag = 0x03 then
    let (min, _) ← decodeUint32.mapErr (s!"read min of limit: {·}")
    let (max, _) ← decodeUint32.mapErr (s!"read max of limit: {·}")
    return ⟨min, some max, flag == 0x03⟩
  else
    fail s!"{errInvalidByte} for limits: {hex flag.toNat} not in (0x00, 0x01, 0x02, 0x03)"

/-- `min`, `capacity` and `max` as `newMemorySizer` derives them. -/
def memorySizer (limitPages : Nat) (memoryCapacityFromMax : Bool) (minPages : Nat) :
    Option Nat → Nat × Nat × Nat
  | some maxPages =>
    if memoryCapacityFromMax then (minPages, maxPages, maxPages)
    else if maxPages > memoryLimitPages then (minPages, minPages, maxPages)
    else if maxPages > limitPages then (minPages, minPages, limitPages)
    else (minPages, minPages, maxPages)
  | none =>
    if memoryCapacityFromMax then (minPages, limitPages, limitPages)
    else (minPages, minPages, limitPages)

def decodeMemory (features : CoreFeatures) (sizer : Nat → Option Nat → Nat × Nat × Nat)
    (limitPages : Nat) : Parser Memory := do
  let limits ← decodeLimitsType
  require (!limits.shared || features.isEnabled .threads)
    "shared memory requested but threads feature not enabled"
  require (!limits.shared || limits.max.isSome)
    "shared memory requires a maximum size to be specified"
  let (min, capacity, max) := sizer limits.min limits.max
  let mem : Memory := ⟨min, capacity, max, limits.max.isSome, limits.shared⟩
  match mem.validate limitPages with
  | .error m => fail m
  | .ok () => return mem

instance tame_requireEnabled (f feature : CoreFeatures) (wrap : String → String) :
    (requireEnabled f feature wrap).Tame 0 := by
  unfold requireEnabled
  infer_instance

instance tame_decodeUTF8 (context : String) : (decodeUTF8 context).Tame 0 := by
  refine Tame.bind inferInstance fun _ => Tame.ite inferInstance
    (Tame.bind inferInstance fun buf => ?_)
  cases decodeRunes buf <;> infer_instance

instance tame_ensureVectorCountFits (vs : Nat) (what : String) :
    (ensureVectorCountFits vs what).Tame 0 := by
  unfold ensureVectorCountFits
  infer_instance

instance tame_heapValueType (ht : Int) (nullable : Bool) : (heapValueType ht nullable).Tame 0 := by
  unfold heapValueType
  infer_instance

instance tame_decodeRefType (nullable : Bool) : (decodeRefType nullable).Tame 0 := by
  unfold decodeRefType
  infer_instance

instance tame_decodeValueType (features : CoreFeatures) : (decodeValueType features).Tame 0 := by
  unfold decodeValueType
  infer_instance

instance tame_decodeValueTypes (num : Nat) (features : CoreFeatures) :
    (decodeValueTypes num features).Tame 0 := by
  unfold decodeValueTypes
  infer_instance

instance tame_decodeLimitsType : decodeLimitsType.Tame 0 := by
  unfold decodeLimitsType
  infer_instance

instance tame_decodeMemory (features : CoreFeatures) (sizer : Nat → Option Nat → Nat × Nat × Nat)
    (limitPages : Nat) : (decodeMemory features sizer limitPages).Tame 0 := by
  refine Tame.bind inferInstance fun _ => Tame.bind inferInstance fun _ =>
    Tame.bind inferInstance fun _ => ?_
  dsimp only
  split <;> infer_instance

end Andsifr.Binary
