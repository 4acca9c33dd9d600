import Mathlib.Data.Nat.Notation

namespace Andsifr.Lib

/-- The continuation byte of a UTF-8 sequence, in the given range. -/
def isContinuation (lo hi b : UInt8) : Bool :=
  lo ≤ b && b ≤ hi

def continuation (b : UInt8) : Nat :=
  (b &&& 0x3f).toNat

/-- The characters of a valid UTF-8 text. -/
def decodeRunes : List UInt8 → Option (List Char)
  | [] => some []
  | b₀ :: rest =>
    if b₀ < 0x80 then
      (decodeRunes rest).map (Char.ofNat b₀.toNat :: ·)
    else match rest with
      | [] => none
      | b₁ :: rest =>
        if 0xc2 ≤ b₀ ∧ b₀ ≤ 0xdf then
          if isContinuation 0x80 0xbf b₁ then
            (decodeRunes rest).map
              (Char.ofNat ((b₀ &&& 0x1f).toNat * 64 + continuation b₁) :: ·)
          else none
        else match rest with
          | [] => none
          | b₂ :: rest =>
            if 0xe0 ≤ b₀ ∧ b₀ ≤ 0xef then
              let lo := if b₀ = 0xe0 then 0xa0 else 0x80
              let hi := if b₀ = 0xed then 0x9f else 0xbf
              if isContinuation lo hi b₁ && isContinuation 0x80 0xbf b₂ then
                (decodeRunes rest).map (Char.ofNat ((b₀ &&& 0x0f).toNat * 4096 +
                  continuation b₁ * 64 + continuation b₂) :: ·)
              else none
            else match rest with
              | [] => none
              | b₃ :: rest =>
                let lo := if b₀ = 0xf0 then 0x90 else 0x80
                let hi := if b₀ = 0xf4 then 0x8f else 0xbf
                if 0xf0 ≤ b₀ ∧ b₀ ≤ 0xf4 ∧ isContinuation lo hi b₁ ∧
                    isContinuation 0x80 0xbf b₂ ∧ isContinuation 0x80 0xbf b₃ then
                  (decodeRunes rest).map (Char.ofNat ((b₀ &&& 0x07).toNat * 262144 +
                    continuation b₁ * 4096 + continuation b₂ * 64 + continuation b₃) :: ·)
                else none

/-- Whether the bytes are valid UTF-8. -/
def validString (p : List UInt8) : Bool :=
  (decodeRunes p).isSome

theorem validString_singleton {c : UInt8} (h : c < 0x80) : validString [c] = true := by
  simp [validString, decodeRunes, h]

end Andsifr.Lib
