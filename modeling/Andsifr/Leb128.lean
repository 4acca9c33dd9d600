import Andsifr.Lib.Parser

namespace Andsifr.Leb128

open Lib Parser

def maxVarintLen32 : Nat := 5

def maxVarintLen33 : Nat := maxVarintLen32

def maxVarintLen64 : Nat := 10

def errOverflow32 : String := "overflows a 32-bit integer"

def errOverflow33 : String := "overflows a 33-bit integer"

def errOverflow64 : String := "overflows a 64-bit integer"

def decodeUint32Loop : (left i s ret : Nat) → Parser (Nat × Nat)
  | 0, _, _, _ => fail errOverflow32
  | left + 1, i, s, ret => do
    let b ← readByte
    if b < 0x80 then
      if i = maxVarintLen32 - 1 ∧ 0 < b &&& 0xf0 then
        fail errOverflow32
      else
        return (ret ||| (b.toNat <<< s) % 2 ^ 32, i + 1)
    else
      decodeUint32Loop left (i + 1) (s + 7) (ret ||| ((b &&& 0x7f).toNat <<< s) % 2 ^ 32)

def decodeUint32 : Parser (Nat × Nat) :=
  decodeUint32Loop maxVarintLen32 0 0 0

/-- The state of the 33-bit loop: the value so far, the last byte, the shift, the bytes read. -/
def decodeInt33Loop : Nat → BitVec 64 → UInt8 → Nat → Nat → Parser (BitVec 64 × UInt8 × Nat × Nat)
  | 0, ret, b, shift, bytesRead => return (ret, b, shift, bytesRead)
  | left + 1, ret, _, shift, bytesRead => do
    let b ← readByte
    let ret := ret ||| BitVec.ofNat 64 (b &&& 0x7f).toNat <<< shift
    if b &&& 0x80 = 0 then
      return (ret, b, shift + 7, bytesRead + 1)
    else
      decodeInt33Loop left ret b (shift + 7) (bytesRead + 1)

def int33Mask4 : BitVec 64 := 8589934591#64

def finishInt33 (ret : BitVec 64) (b : UInt8) (shift : Nat) : BitVec 64 :=
  let ret := if shift < 33 ∧ b &&& 0x40 = 0x40 then ret ||| int33Mask4 <<< shift else ret
  let ret := ret &&& int33Mask4
  if 0 < (ret &&& 0x100000000#64).toInt then ret - 8589934592#64 else ret

def decodeInt33AsInt64 : Parser (Int × Nat) := do
  let (ret, b, shift, bytesRead) ←
    (decodeInt33Loop maxVarintLen33 0 0 0 0).mapErr (s!"readByte failed: {·}")
  let ret := (finishInt33 ret b shift).toInt
  let unused := b &&& 0x20
  if bytesRead > maxVarintLen33 then fail errOverflow33
  else if bytesRead = maxVarintLen33 ∧ ret < 0 ∧ unused ≠ 0x20 then fail errOverflow33
  else if bytesRead = maxVarintLen33 ∧ 0 ≤ ret ∧ unused ≠ 0 then fail errOverflow33
  else return (ret, bytesRead)

/-- The loop of the 32- and 64-bit signed decoders over the bytes that are left. -/
def decodeSignedLoop (w : Nat) : List UInt8 → BitVec w → Nat → Nat →
    Parser (BitVec w × UInt8 × Nat)
  | [], _, _, _ => fun r => .err "readByte failed: EOF" r
  | b :: rest, ret, shift, bytesRead => fun r =>
    let ret := ret ||| BitVec.ofNat w (b &&& 0x7f).toNat <<< shift
    if b &&& 0x80 = 0 then
      let ret :=
        if shift + 7 < w ∧ b &&& 0x40 ≠ 0 then ret ||| BitVec.allOnes w <<< (shift + 7) else ret
      .ok (ret, b, bytesRead + 1) (r.advance 1)
    else
      decodeSignedLoop w rest ret (shift + 7) (bytesRead + 1) (r.advance 1)

def decodeSigned (w maxLen : Nat) (unusedMask : UInt8) (errOverflow : String) :
    Parser (Int × Nat) := do
  let r ← reader
  let (ret, b, bytesRead) ← decodeSignedLoop w (r.bytes.drop r.pos) 0 0 0
  let unused := b &&& unusedMask
  if bytesRead > maxLen then fail errOverflow
  else if bytesRead = maxLen ∧ ret.toInt < 0 ∧ unused ≠ unusedMask then fail errOverflow
  else if bytesRead = maxLen ∧ 0 ≤ ret.toInt ∧ unused ≠ 0 then fail errOverflow
  else return (ret.toInt, bytesRead)

def decodeInt32 : Parser (Int × Nat) :=
  decodeSigned 32 maxVarintLen32 0x30 errOverflow32

def decodeInt64 : Parser (Int × Nat) :=
  decodeSigned 64 maxVarintLen64 0x3e errOverflow64

def encodeUint64Loop : (fuel value : Nat) → List UInt8
  | 0, _ => []
  | fuel + 1, value =>
    let b := UInt8.ofNat (value % 128)
    if value / 128 ≠ 0 then (b ||| 0x80) :: encodeUint64Loop fuel (value / 128) else [b]

/-- A `uint64` needs at most `maxVarintLen64` groups of seven bits. -/
def encodeUint32 (value : Nat) : List UInt8 :=
  encodeUint64Loop maxVarintLen64 value

/-- A decoder that reports how far it moved the reader, always by at least one byte. -/
def Counts {α : Type} (x : Parser (α × Nat)) : Prop :=
  ∀ r r' a n, x r = .ok (a, n) r' → r' = r.advance n ∧ 0 < n

instance tame_decodeUint32Loop (left i s ret : Nat) : (decodeUint32Loop left i s ret).Tame 0 := by
  induction left generalizing i s ret with
  | zero => exact tame_fail _
  | succ left ih =>
    unfold decodeUint32Loop
    infer_instance

instance tame_decodeUint32 : decodeUint32.Tame 0 := by
  unfold decodeUint32
  infer_instance

instance fits_decodeUint32Loop (left i s ret : Nat) : (decodeUint32Loop left i s ret).Fits := by
  induction left generalizing i s ret with
  | zero => exact fits_fail _
  | succ left ih =>
    unfold decodeUint32Loop
    infer_instance

instance fits_decodeUint32 : decodeUint32.Fits := by
  unfold decodeUint32
  infer_instance

variable {r r' : Reader}

theorem decodeUint32Loop_eq_ok {left i s ret v n : Nat} (hret : ret < 2 ^ 32)
    (h : decodeUint32Loop left i s ret r = .ok (v, n) r') :
    v < 2 ^ 32 ∧ i < n ∧ r' = r.advance (n - i) := by
  induction left generalizing i s ret r with
  | zero => cases h
  | succ left ih =>
    obtain ⟨b, r₁, hb, h⟩ := bind_inv h
    obtain ⟨-, rfl⟩ := readByte_eq_ok hb
    have hlt (x : Nat) : ret ||| x % 2 ^ 32 < 2 ^ 32 :=
      Nat.or_lt_two_pow hret (Nat.mod_lt _ (by decide))
    split_ifs at h
    · cases h
    · cases h
      exact ⟨hlt _, by omega, by simp⟩
    · obtain ⟨hv, hi, rfl⟩ := ih (hlt _) h
      refine ⟨hv, by omega, ?_⟩
      rw [Reader.advance_advance]
      congr 1
      omega

theorem counts_decodeUint32 : Counts decodeUint32 := by
  intro r r' v n h
  obtain ⟨-, hn, rfl⟩ := decodeUint32Loop_eq_ok (by decide) h
  exact ⟨by simp, hn⟩

theorem decodeUint32_lt {v n : Nat} (h : decodeUint32 r = .ok (v, n) r') : v < 2 ^ 32 :=
  (decodeUint32Loop_eq_ok (by decide) h).1

instance tame_decodeInt33Loop (left : Nat) (ret : BitVec 64) (b : UInt8) (shift bytesRead : Nat) :
    (decodeInt33Loop left ret b shift bytesRead).Tame 0 := by
  induction left generalizing ret b shift bytesRead with
  | zero => exact tame_pure _
  | succ left ih =>
    unfold decodeInt33Loop
    infer_instance

instance tame_decodeInt33AsInt64 : decodeInt33AsInt64.Tame 0 := by
  unfold decodeInt33AsInt64
  infer_instance

instance fits_decodeInt33Loop (left : Nat) (ret : BitVec 64) (b : UInt8) (shift bytesRead : Nat) :
    (decodeInt33Loop left ret b shift bytesRead).Fits := by
  induction left generalizing ret b shift bytesRead with
  | zero => exact fits_pure _
  | succ left ih =>
    unfold decodeInt33Loop
    infer_instance

instance fits_decodeInt33AsInt64 : decodeInt33AsInt64.Fits := by
  unfold decodeInt33AsInt64
  infer_instance

theorem decodeInt33Loop_eq_ok {left : Nat} {ret ret' : BitVec 64} {b b' : UInt8}
    {shift shift' n n' : Nat}
    (h : decodeInt33Loop left ret b shift n r = .ok (ret', b', shift', n') r') :
    n ≤ n' ∧ (0 < left → n < n') ∧ r' = r.advance (n' - n) := by
  induction left generalizing ret b shift n r with
  | zero =>
    cases h
    exact ⟨le_refl _, by omega, by simp⟩
  | succ left ih =>
    obtain ⟨c, r₁, hc, h⟩ := bind_inv h
    obtain ⟨-, rfl⟩ := readByte_eq_ok hc
    split_ifs at h
    · cases h
      exact ⟨by omega, by omega, by simp⟩
    · obtain ⟨hn, -, rfl⟩ := ih h
      refine ⟨by omega, by omega, ?_⟩
      rw [Reader.advance_advance]
      congr 1
      omega

theorem counts_decodeInt33AsInt64 : Counts decodeInt33AsInt64 := by
  intro r r' v n h
  obtain ⟨⟨ret, b, shift, bytesRead⟩, r₁, hloop, h⟩ := bind_inv h
  obtain ⟨-, hpos, rfl⟩ := decodeInt33Loop_eq_ok (mapErr_inv hloop)
  simp only at h
  split_ifs at h <;> cases h
  exact ⟨by simp, hpos (by decide)⟩

instance tame_decodeSignedLoop (w : Nat) (bytes : List UInt8) (ret : BitVec w)
    (shift bytesRead : Nat) : (decodeSignedLoop w bytes ret shift bytesRead).Tame 0 := by
  induction bytes generalizing ret shift bytesRead with
  | nil => exact tame_fail _
  | cons b rest ih =>
    -- one byte is consumed before the loop goes on with the others
    have hstep : ∀ {x : Parser (BitVec w × UInt8 × Nat)}, x.Tame 0 →
        Tame 0 (fun r => x (r.advance 1) : Parser (BitVec w × UInt8 × Nat)) := by
      intro x hx
      refine ⟨fun r => hx.safe (r.advance 1), fun r r' h => ?_⟩
      obtain ⟨hbytes, hpos⟩ := hx.moves (r.advance 1) r' h
      exact ⟨hbytes, by simp only [Reader.advance_pos] at hpos; omega⟩
    simp only [decodeSignedLoop]
    split
    · exact hstep (tame_pure _)
    · exact hstep (ih _ _ _)

instance tame_decodeSigned (w maxLen : Nat) (mask : UInt8) (m : String) :
    (decodeSigned w maxLen mask m).Tame 0 := by
  unfold decodeSigned
  infer_instance

/-- The loop goes over the unread bytes, so it stays inside them. -/
theorem decodeSignedLoop_eq_ok {w : Nat} {bytes : List UInt8} {ret ret' : BitVec w}
    {shift n n' : Nat} {b : UInt8}
    (h : decodeSignedLoop w bytes ret shift n r = .ok (ret', b, n') r') :
    r'.bytes = r.bytes ∧ r.pos ≤ r'.pos ∧ r'.pos ≤ r.pos + bytes.length := by
  induction bytes generalizing ret shift n r with
  | nil => cases h
  | cons c rest ih =>
    simp only [decodeSignedLoop] at h
    split at h
    · cases h
      exact ⟨rfl, by simp, by simp⟩
    · obtain ⟨hbytes, hpos, hle⟩ := ih h
      simp only [Reader.advance_pos, Reader.advance_bytes, List.length_cons] at *
      exact ⟨hbytes, by omega, by omega⟩

instance fits_decodeSigned (w maxLen : Nat) (mask : UInt8) (m : String) :
    (decodeSigned w maxLen mask m).Fits := by
  refine ⟨fun r _ => (tame_decodeSigned w maxLen mask m).safe r, fun r a r' hr h => ?_⟩
  obtain ⟨r₀, r₁, hreader, h⟩ := bind_inv h
  cases hreader
  obtain ⟨⟨ret, b, n⟩, r₂, hloop, h⟩ := bind_inv h
  obtain ⟨hbytes, hpos, hle⟩ := decodeSignedLoop_eq_ok hloop
  rw [List.length_drop] at hle
  simp only at h
  split_ifs at h <;> cases h
  exact ⟨hbytes, hpos, by rw [hbytes]; omega⟩

end Andsifr.Leb128
