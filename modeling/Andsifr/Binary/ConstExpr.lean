import Andsifr.Binary.Value

namespace Andsifr.Binary

open Lib Leb128 Wasm Opcode Parser

def instructionName (opcode : UInt8) : String :=
  if opcode = i32Add then "i32.add"
  else if opcode = i32Sub then "i32.sub"
  else if opcode = i32Mul then "i32.mul"
  else if opcode = i64Add then "i64.add"
  else if opcode = i64Sub then "i64.sub"
  else "i64.mul"

def isConstArithmetic (opcode : UInt8) : Bool :=
  [i32Add, i32Sub, i32Mul, i64Add, i64Sub,
    i64Mul].contains opcode

variable (features : CoreFeatures)

/-- The immediates of one instruction of a constant expression other than `end`. -/
def decodeConstOperand (opcode : UInt8) : Parser Unit :=
  if opcode = i32Const then do
    let _ ← decodeInt32.mapErr (s!"read value: {·}")
  else if isConstArithmetic opcode then
    require (features.isEnabled .extendedConst)
      (s!"{instructionName opcode} is not supported in a constant expression as feature " ++
        "\"extended-const\" is disabled")
  else if opcode = i64Const then do
    let _ ← decodeInt64.mapErr (s!"read value: {·}")
  else if opcode = f32Const then do
    let _ ← (readFull 4).mapErr (s!"read f32 constant: {·}")
  else if opcode = f64Const then do
    let _ ← (readFull 8).mapErr (s!"read f64 constant: {·}")
  else if opcode = globalGet then do
    let _ ← decodeUint32.mapErr (s!"read value: {·}")
  else if opcode = refNull then do
    requireEnabled features .bulkMemoryOperations (s!"ref.null is not supported as {·}")
    let b ← readByte.mapErr (s!"read reference type for ref.null: {·}")
    if [ValueType.funcref, .externref, .exnref].any (·.kind == b) then
      return ()
    else
      unreadByte.mapErr (s!"unread byte for ref.null: {·}")
      let _ ← decodeUint32.mapErr fun _ => s!"invalid type for ref.null: {hex b.toNat}"
  else if opcode = refFunc then do
    requireEnabled features .bulkMemoryOperations (s!"ref.func is not supported as {·}")
    let _ ← decodeUint32.mapErr (s!"read value: {·}")
  else if opcode = vecPrefix then do
    requireEnabled features .simd (s!"vector instructions are not supported as {·}")
    let suffix ← readByte.mapErr (s!"read vector instruction opcode suffix: {·}")
    require (suffix = vecV128Const)
      s!"invalid vector opcode for const expression: {hex suffix.toNat}"
    let bytes ← (read 16).mapErr (s!"read vector const instruction immediates: {·}")
    require (bytes.length = 16)
      s!"read vector const instruction immediates: needs 16 bytes but was {bytes.length} bytes"
  else
    fail s!"{errInvalidByte} for const expression op code: {hex opcode.toNat}"

def decodeConstantExpressionLoop (features : CoreFeatures) (lenAtStart startPos : Nat) :
    Nat → Parser ConstantExpression
  | 0 => outOfFuel
  | fuel + 1 => do
    let opcode ← readByte.mapErr (s!"read const expression opcode: {·}")
    if opcode = opEnd then
      let r ← reader
      let n ← makeSlice (lenAtStart - r.len : Int)
      let data ← (readAt n startPos).mapErr (s!"error re-buffering ConstantExpression.Data: {·}")
      return ⟨data⟩
    else
      decodeConstOperand features opcode
      decodeConstantExpressionLoop features lenAtStart startPos fuel

/-- Every round reads an opcode, so the unread bytes bound the rounds. -/
def decodeConstantExpression : Parser ConstantExpression := do
  let r ← reader
  decodeConstantExpressionLoop features r.len (r.bytes.length - r.len) (r.len + 1)

instance tame_decodeConstOperand (opcode : UInt8) :
    (decodeConstOperand features opcode).Tame 0 := by
  unfold decodeConstOperand decodeInt32 decodeInt64
  refine Tame.ite inferInstance (Tame.ite inferInstance
    (Tame.ite inferInstance (Tame.ite inferInstance
    (Tame.ite inferInstance (Tame.ite inferInstance (Tame.ite ?_ inferInstance))))))
  -- the byte that is read may be put back
  refine Tame.bind inferInstance fun _ => Tame.readByte_bind fun b => ?_
  refine Tame.ite ((tame_pure _).mono (by omega)) ?_
  exact (tame_unreadByte.mapErr _).bind_add (k := 0) fun _ => inferInstance

theorem moves_decodeConstantExpressionLoop (lenAtStart startPos fuel : Nat) :
    (decodeConstantExpressionLoop features lenAtStart startPos fuel).Moves 0 := by
  induction fuel with
  | zero => exact moves_outOfFuel
  | succ fuel ih =>
    refine (tame_readByte.mapErr _).moves.bind fun opcode => Moves.ite ?_ ?_
    · exact tame_reader.moves.bind fun _ => (moves_makeSlice _).bind fun n =>
        ((tame_readAt n startPos).mapErr _).moves.bind fun _ => (tame_pure _).moves
    · exact (tame_decodeConstOperand features opcode).moves.bind fun _ => ih

theorem not_crashes_decodeConstantExpressionLoop
    (lenAtStart startPos fuel : Nat) (r : Reader) (hfuel : r.len < fuel)
    (hlen : r.len ≤ lenAtStart) :
    ¬ (decodeConstantExpressionLoop features lenAtStart startPos fuel).Crashes r := by
  induction fuel generalizing r with
  | zero => omega
  | succ fuel ih =>
    intro h
    rcases crashes_bind.mp h with h | ⟨opcode, r₁, hopcode, h⟩
    · exact (tame_readByte.mapErr _).safe r h
    have hlen₁ := readByte_len (mapErr_inv hopcode)
    split at h
    · rcases crashes_bind.mp h with h | ⟨_, _, hreader, h⟩
      · exact tame_reader.safe _ h
      cases hreader
      rcases crashes_bind.mp h with h | ⟨n, r₂, -, h⟩
      · have := crashes_makeSlice.mp h
        omega
      · exact (((tame_readAt n startPos).mapErr _).bind fun _ => tame_pure _).safe r₂ h
    · have hoperand := tame_decodeConstOperand features opcode
      rcases crashes_bind.mp h with h | ⟨u, r₂, hr₂, h⟩
      · exact hoperand.safe r₁ h
      have hlen₂ := hoperand.moves.len_le (.inl ⟨u, hr₂⟩)
      exact ih r₂ (by omega) (by omega) h

instance tame_decodeConstantExpression :
    (decodeConstantExpression features).Tame 0 := by
  refine ⟨fun r h => ?_, tame_reader.moves.bind fun r =>
    moves_decodeConstantExpressionLoop features _ _ _⟩
  rcases crashes_bind.mp h with h | ⟨_, _, hreader, h⟩
  · exact tame_reader.safe r h
  cases hreader
  exact not_crashes_decodeConstantExpressionLoop features _ _ _ r (by omega) (by omega) h

end Andsifr.Binary
