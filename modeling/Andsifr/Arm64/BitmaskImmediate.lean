import Andsifr.Lib.BitRun

namespace Andsifr.Arm64

open Lib.BitRun BitVec Bool

/-! ## The recogniser -/

def getLowestBit (x : BitVec 64) : BitVec 64 :=
  x &&& (~~~x + 1)

def sequenceOfSetbits (x : BitVec 64) : Bool :=
  let y := getLowestBit x + x
  (y - 1) &&& y == 0

/-- Whether the value can be encoded as a bitmask immediate: a vector of identical elements of 2,
4, 8, 16, 32 or 64 bits, each a rotated run of set bits. -/
def isBitMaskImmediate (x : BitVec 64) (is64 : Bool) : Bool :=
  if x = 0 ∨ (is64 ∧ x = 0xffff_ffff_ffff_ffff) ∨ (¬is64 ∧ x = 0xffff_ffff) then false
  else if x ≠ x >>> 32 ||| x <<< 32 then
    sequenceOfSetbits x || sequenceOfSetbits (~~~x)
  else if x ≠ x >>> 16 ||| x <<< 48 then
    let x := (x.setWidth 32).signExtend 64
    sequenceOfSetbits x || sequenceOfSetbits (~~~x)
  else if x ≠ x >>> 8 ||| x <<< 56 then
    let x := (x.setWidth 16).signExtend 64
    sequenceOfSetbits x || sequenceOfSetbits (~~~x)
  else if x ≠ x >>> 4 ||| x <<< 60 then
    let x := (x.setWidth 8).signExtend 64
    sequenceOfSetbits x || sequenceOfSetbits (~~~x)
  else true

/-! ## The encoder -/

/-- The loop of `setBitPos`, which runs for ever on zero: after 64 rounds nothing is left. -/
def setBitPosFrom : Nat → BitVec 64 → BitVec 32 → Option (BitVec 32)
  | 0, _, _ => none
  | rounds + 1, x, ret =>
    if x = 1 then some ret else setBitPosFrom rounds (x >>> 1) (ret + 1)

def setBitPos (x : BitVec 64) : Option (BitVec 32) :=
  setBitPosFrom 64 x 0

/-- The number of set bits and the position of the lowest one. -/
def getOnesSequenceSize (x : BitVec 64) : Option (BitVec 32 × BitVec 32) := do
  let y := getLowestBit x
  let nonZeroPos ← setBitPos y
  let last ← setBitPos (x + y)
  pure (last - nonZeroPos, nonZeroPos)

structure BitmaskFields where
  immr : BitVec 8
  imms : BitVec 8
  n : BitVec 8
deriving DecidableEq, Repr

/-- The element that is repeated, sign-extended, with its size. -/
def bitmaskElement (c : BitVec 64) : BitVec 32 × BitVec 64 :=
  if c ≠ c >>> 32 ||| c <<< 32 then (64, c)
  else if c ≠ c >>> 16 ||| c <<< 48 then (32, (c.setWidth 32).signExtend 64)
  else if c ≠ c >>> 8 ||| c <<< 56 then (16, (c.setWidth 16).signExtend 64)
  else if c ≠ c >>> 4 ||| c <<< 60 then (8, (c.setWidth 8).signExtend 64)
  else if c ≠ c >>> 2 ||| c <<< 62 then (4, (c <<< 60).sshiftRight 60)
  else (2, (c <<< 62).sshiftRight 62)

def bitmaskFields (size onesSize nonZeroPos : BitVec 32) (is64bit : Bool) : BitmaskFields :=
  let (n, mode) : BitVec 8 × BitVec 8 := if is64bit ∧ size = 64 then (1, 64) else (0, 32)
  { immr := ((size - nonZeroPos) &&& (size - 1) &&& (mode - 1).setWidth 32).setWidth 8
    imms := ((onesSize - 1) ||| (63 &&& ~~~(size <<< 1 - 1))).setWidth 8
    n }

def bitmaskImmediate (c : BitVec 64) (is64bit : Bool) : Option BitmaskFields := do
  let (size, c) := bitmaskElement c
  if c.msb then
    let (onesSize, nonZeroPos) ← getOnesSequenceSize (~~~c)
    pure (bitmaskFields size (size - onesSize) (onesSize + nonZeroPos) is64bit)
  else
    let (onesSize, nonZeroPos) ← getOnesSequenceSize c
    pure (bitmaskFields size onesSize nonZeroPos is64bit)

/-! ## The architecture's decoder -/

def highestSetBit {w : Nat} (x : BitVec w) : Option Nat :=
  (List.range w).reverse.find? x.getLsbD

/-- The mask that a logical instruction of the given data size takes from its fields, if the
instruction is defined. -/
def decodeBitMasks (datasize : Nat) (n : Bool) (imms immr : BitVec 6) :
    Option (BitVec datasize) := do
  let len ← highestSetBit (BitVec.ofBool n ++ ~~~imms)
  let esize := 2 ^ len
  let s := imms.toNat % esize
  let r := immr.toNat % esize
  guard (1 ≤ len ∧ esize ≤ datasize ∧ s ≠ esize - 1)
  let welem := BitVec.ofNat esize (2 ^ (s + 1) - 1)
  pure (ofBits fun i : Fin datasize => (welem.rotateRight r).getLsbD (i % esize))

/-- The fields as they stand in the word of the instruction, where two of them have six bits. -/
def BitmaskFields.decode (f : BitmaskFields) (datasize : Nat) : Option (BitVec datasize) := do
  guard (f.imms < 64 ∧ f.immr < 64)
  decodeBitMasks datasize (f.n = 1) (f.imms.setWidth 6) (f.immr.setWidth 6)

/-! ## Runs -/

theorem sequenceOfSetbits_iff (x : BitVec 64) : sequenceOfSetbits x = true ↔ IsSequence x := by
  have hneg : ~~~x + 1 = -x := (neg_eq_not_add x).symm
  rw [sequenceOfSetbits, getLowestBit, IsSequence, hneg, BitVec.add_comm x, beq_iff_eq]

variable {k : Nat}

theorem setBitPosFrom_twoPow (rounds : Nat) (hk : k < rounds) (hw : k < 64) (ret : BitVec 32) :
    setBitPosFrom rounds (BitVec.twoPow 64 k) ret = some (ret + BitVec.ofNat 32 k) := by
  induction rounds generalizing k ret with
  | zero => omega
  | succ rounds ih =>
    cases k with
    | zero => simp [setBitPosFrom, BitVec.twoPow]
    | succ k =>
      have hne : BitVec.twoPow 64 (k + 1) ≠ 1 := by
        intro h
        have hodd : 2 ^ (k + 1) = 1 := by
          rw [← toNat_twoPow_of_lt hw, h]
          rfl
        exact absurd hodd (Nat.ne_of_gt (Nat.one_lt_two_pow (Nat.succ_ne_zero k)))
      have hshift : BitVec.twoPow 64 (k + 1) >>> 1 = BitVec.twoPow 64 k := by
        apply eq_of_toNat_eq
        rw [toNat_ushiftRight, toNat_twoPow_of_lt hw,
          toNat_twoPow_of_lt (by omega), Nat.shiftRight_eq_div_pow, Nat.pow_succ]
        simp
      rw [setBitPosFrom, if_neg hne, hshift, ih (by omega) (by omega), BitVec.add_assoc]
      congr 2
      apply eq_of_toNat_eq
      simp
      omega

variable {x : BitVec 64}

theorem setBitPos_eq (hk : k < 64) (h : x.toNat = 2 ^ k) :
    setBitPos x = some (BitVec.ofNat 32 k) := by
  have hx : x = BitVec.twoPow 64 k := by
    apply eq_of_toNat_eq
    rw [h, toNat_twoPow_of_lt hk]
  rw [setBitPos, hx, setBitPosFrom_twoPow 64 hk hk]
  simp

variable {c : BitVec 64}

theorem getLowestBit_of_run {p l : Nat} (hl : 0 < l) (hpl : p + l < 64)
    (h : c.toNat = 2 ^ (p + l) - 2 ^ p) : getLowestBit c = BitVec.twoPow 64 p := by
  have hneg : ~~~c + 1 = -c := (neg_eq_not_add c).symm
  rw [getLowestBit, hneg]
  apply and_neg_eq_twoPow (by omega)
  · simp only [getLsbD_of_run h, decide_eq_true_eq]
    omega
  · simp only [getLsbD_of_run h, decide_eq_false_iff_not]
    omega

theorem getOnesSequenceSize_of_run {p l : Nat} (hl : 0 < l) (hpl : p + l < 64)
    (h : c.toNat = 2 ^ (p + l) - 2 ^ p) :
    getOnesSequenceSize c = some (BitVec.ofNat 32 l, BitVec.ofNat 32 p) := by
  have hlow := getLowestBit_of_run hl hpl h
  have hp : (BitVec.twoPow 64 p).toNat = 2 ^ p := toNat_twoPow_of_lt (by omega)
  have hle : 2 ^ p ≤ 2 ^ (p + l) := Nat.pow_le_pow_right (by omega) (by omega)
  have hlt : 2 ^ (p + l) < 2 ^ 64 := Nat.pow_lt_pow_right (by omega) hpl
  have hlast : (c + BitVec.twoPow 64 p).toNat = 2 ^ (p + l) := by
    rw [toNat_add, hp, h, Nat.sub_add_cancel hle, Nat.mod_eq_of_lt hlt]
  have hdiff : BitVec.ofNat 32 (p + l) - BitVec.ofNat 32 p = BitVec.ofNat 32 l := by
    rw [add_comm, ← ofNat_add_ofNat, add_sub_cancel]
  rw [getOnesSequenceSize, hlow]
  simp only [setBitPos_eq (show p < 64 by omega) hp, setBitPos_eq hpl hlast, Option.bind_eq_bind,
    Option.bind_some, hdiff]
  rfl

/-- The bits of an element are a run of set or of cleared bits, of the other kind than its sign. -/
theorem exists_run (hzero : c ≠ 0) (hones : ~~~c ≠ 0)
    (hseq : (sequenceOfSetbits c || sequenceOfSetbits (~~~c)) = true) :
    ∃ p l, 0 < l ∧ p + l < 64 ∧ (if c.msb then ~~~c else c).toNat = 2 ^ (p + l) - 2 ^ p := by
  rw [or_eq_true, sequenceOfSetbits_iff, sequenceOfSetbits_iff] at hseq
  cases hmsb : c.msb with
  | false => exact toNat_eq_of_isSequence_or hzero hmsb hseq
  | true =>
    apply toNat_eq_of_isSequence_or hones
    · simp [msb_not, hmsb]
    · rw [BitVec.not_not]
      exact hseq.symm

/-! ## Fields -/

theorem getLsbD_rotateRight_ones {w ones r j : Nat} (hones : ones ≤ w) (hj : j < w) :
    ((BitVec.ofNat w (2 ^ ones - 1)).rotateRight r).getLsbD j = decide ((j + r) % w < ones) := by
  have hbit : ∀ i, (BitVec.ofNat w (2 ^ ones - 1)).getLsbD i = decide (i < ones) := by
    intro i
    rw [getLsbD_ofNat]
    by_cases hi : i < ones
    · simp [hi, lt_of_lt_of_le hi hones]
    · simp [hi]
  have hr : r % w < w := Nat.mod_lt r (by omega)
  rw [getLsbD_rotateRight, hbit, hbit, ← Nat.add_mod_mod]
  by_cases hlt : j < w - r % w
  · rw [Nat.mod_eq_of_lt (show j + r % w < w by omega), add_comm]
    simp [hlt]
  · have hwrap : (j + r % w) % w = j - (w - r % w) := by
      rw [Nat.mod_eq_sub_mod (by omega), Nat.mod_eq_of_lt (by omega)]
      omega
    rw [hwrap]
    simp [hlt, hj]

variable {len : Nat}

theorem decodeBitMasks_eq {datasize len ones r : Nat} {n : Bool} {imms immr : BitVec 6}
    (hlen : 1 ≤ len) (hsize : 2 ^ len ≤ datasize) (hones : 0 < ones) (hlt : ones < 2 ^ len)
    (hhigh : highestSetBit (BitVec.ofBool n ++ ~~~imms) = some len)
    (himms : imms.toNat % 2 ^ len = ones - 1) (himmr : immr.toNat % 2 ^ len = r) :
    decodeBitMasks datasize n imms immr =
      some (ofBits fun i : Fin datasize => decide ((i % 2 ^ len + r) % 2 ^ len < ones)) := by
  have hguard : 1 ≤ len ∧ 2 ^ len ≤ datasize ∧ ones - 1 ≠ 2 ^ len - 1 := ⟨hlen, hsize, by omega⟩
  have hone : ones - 1 + 1 = ones := by omega
  simp only [decodeBitMasks, hhigh, Option.bind_eq_bind, Option.bind_some, himms, himmr, guard,
    if_pos hguard, hone]
  refine congrArg some (congrArg ofBits (funext fun i => ?_))
  exact getLsbD_rotateRight_ones hlt.le (Nat.mod_lt _ (Nat.two_pow_pos len))

section

set_option maxRecDepth 4000

/-- The fields of the length: the zeros above it in `imms` name the size of the element. -/
theorem imms_spec (len : Fin 6) : ∀ ones : Fin 64, 0 < ones.val → ones.val < 2 ^ (len.val + 1) →
    let f := bitmaskFields (BitVec.ofNat 32 (2 ^ (len.val + 1))) (BitVec.ofNat 32 ones.val) 0 true
    highestSetBit (BitVec.ofBool (f.n = 1) ++ ~~~(f.imms.setWidth 6)) = some (len.val + 1) ∧
      (f.imms.setWidth 6).toNat % 2 ^ (len.val + 1) = ones.val - 1 ∧ f.imms < 64 := by
  revert len
  decide +kernel

theorem immr_spec (len : Fin 6) : ∀ pos : Fin 64, pos.val < 2 ^ (len.val + 1) →
    let f := bitmaskFields (BitVec.ofNat 32 (2 ^ (len.val + 1))) 0 (BitVec.ofNat 32 pos.val) true
    (f.immr.setWidth 6).toNat % 2 ^ (len.val + 1) =
      (2 ^ (len.val + 1) - pos.val) % 2 ^ (len.val + 1) ∧ f.immr < 64 := by
  revert len
  decide +kernel

end

theorem decode_of_lt (f : BitmaskFields) (himms : f.imms < 64) (himmr : f.immr < 64)
    (datasize : Nat) : f.decode datasize =
      decodeBitMasks datasize (f.n = 1) (f.imms.setWidth 6) (f.immr.setWidth 6) := by
  simp only [BitmaskFields.decode, guard, if_pos (And.intro himms himmr)]
  rfl

theorem decode_bitmaskFields {len ones pos : Nat} (hlen : len < 6) (hones : 0 < ones)
    (honeslt : ones < 2 ^ (len + 1)) (hpos : pos < 2 ^ (len + 1)) :
    (bitmaskFields (BitVec.ofNat 32 (2 ^ (len + 1))) (BitVec.ofNat 32 ones) (BitVec.ofNat 32 pos)
        true).decode 64 =
      some (ofBits fun i : Fin 64 =>
        decide ((i % 2 ^ (len + 1) + (2 ^ (len + 1) - pos)) % 2 ^ (len + 1) < ones)) := by
  have hbound : 2 ^ (len + 1) ≤ 64 := Nat.pow_le_pow_right (show 0 < 2 by omega)
    (show len + 1 ≤ 6 by omega)
  obtain ⟨hhigh, himms, hfits⟩ := imms_spec ⟨len, hlen⟩ ⟨ones, by omega⟩ hones honeslt
  obtain ⟨himmr, hfits'⟩ := immr_spec ⟨len, hlen⟩ ⟨pos, by omega⟩ hpos
  have := decodeBitMasks_eq (by omega) hbound hones honeslt hhigh himms himmr
  simp only [Nat.add_mod_mod] at this
  refine (decode_of_lt _ ?_ ?_ 64).trans this
  exacts [hfits, hfits']

/-- The element that the encoder extracts from a value: its size is a power of two, the value
repeats it, and it is extended with its sign. -/
structure Element (x c : BitVec 64) (len : Nat) : Prop where
  size : bitmaskElement x = (BitVec.ofNat 32 (2 ^ (len + 1)), c)
  len_lt : len < 6
  repeats : ∀ i < 64, x.getLsbD i = c.getLsbD (i % 2 ^ (len + 1))
  signed : ∀ i < 64, 2 ^ (len + 1) ≤ i + 1 → c.getLsbD i = c.msb

theorem Element.bound {len p l : Nat} (h : Element x c len) (hl : 0 < l) (hpl : p + l < 64)
    (hrun : (if c.msb then ~~~c else c).toNat = 2 ^ (p + l) - 2 ^ p) : p + l < 2 ^ (len + 1) := by
  by_contra hge
  have hlast := h.signed (p + l - 1) (by omega) (by omega)
  have hbit := getLsbD_of_run hrun (p + l - 1)
  have hin : p ≤ p + l - 1 ∧ p + l - 1 < p + l := by omega
  have hwidth : p + l - 1 < 64 := by omega
  cases hmsb : c.msb <;> simp [hmsb, hin, hwidth] at hbit hlast <;> simp [hbit] at hlast

theorem rotated_lt_iff {e p l j : Nat} (hj : j < e) (hpl : p + l ≤ e) :
    (j + (e - p)) % e < l ↔ p ≤ j ∧ j < p + l := by
  rcases lt_or_ge j p with hjp | hjp
  · rw [Nat.mod_eq_of_lt (by omega)]
    omega
  · rw [Nat.mod_eq_sub_mod (by omega), Nat.mod_eq_of_lt (by omega)]
    omega

/-- Of a run of cleared bits, the set bits start behind it. -/
theorem rotated_not_lt_iff {e p l j : Nat} (hl : 0 < l) (hj : j < e) (hpl : p + l < e) :
    (j + (e - (l + p))) % e < e - l ↔ ¬(p ≤ j ∧ j < p + l) := by
  rcases lt_or_ge j (l + p) with hjp | hjp
  · rw [Nat.mod_eq_of_lt (by omega)]
    omega
  · rw [Nat.mod_eq_sub_mod (by omega), Nat.mod_eq_of_lt (by omega)]
    omega

/-- The run of the bits of an element, rotated by the encoder so that it starts at zero. -/
theorem Element.decode (h : Element x c len) (hzero : c ≠ 0) (hones : ~~~c ≠ 0)
    (hseq : (sequenceOfSetbits c || sequenceOfSetbits (~~~c)) = true) :
    ∃ f, bitmaskImmediate x true = some f ∧ f.decode 64 = some x := by
  obtain ⟨p, l, hl, hpl, hrun⟩ := exists_run hzero hones hseq
  have hbound := h.bound hl hpl hrun
  have hbits := getLsbD_of_run hrun
  have hcount := getOnesSequenceSize_of_run hl hpl hrun
  have hmod : ∀ i, i % 2 ^ (len + 1) < 2 ^ (len + 1) := fun i => Nat.mod_lt i (Nat.two_pow_pos _)
  have hsize : 2 ^ (len + 1) ≤ 64 :=
    Nat.pow_le_pow_right (show 0 < 2 by omega) (show len + 1 ≤ 6 from h.len_lt)
  cases hmsb : c.msb with
  | false =>
    simp only [hmsb, false_eq_true, if_false] at hbits hcount
    refine ⟨_, ?_, (decode_bitmaskFields h.len_lt hl (by omega) (show p < _ by omega)).trans ?_⟩
    · simp only [bitmaskImmediate, h.size, hmsb, hcount, Option.bind_eq_bind, Option.bind_some,
        false_eq_true, if_false]
      rfl
    · refine congrArg some (ofBits_eq fun i => ?_)
      rw [h.repeats i i.isLt, hbits, decide_eq_decide]
      exact rotated_lt_iff (hmod i) hbound.le
  | true =>
    simp only [hmsb, if_true] at hbits hcount
    have hsub : BitVec.ofNat 32 (2 ^ (len + 1)) - BitVec.ofNat 32 l =
        BitVec.ofNat 32 (2 ^ (len + 1) - l) := by
      rw [sub_eq_iff_eq_add, ofNat_add_ofNat, Nat.sub_add_cancel (by omega)]
    refine ⟨_, ?_, (decode_bitmaskFields h.len_lt (show 0 < 2 ^ (len + 1) - l by omega)
      (by omega) (show l + p < _ by omega)).trans ?_⟩
    · simp only [bitmaskImmediate, h.size, hmsb, hcount, Option.bind_eq_bind, Option.bind_some,
        if_true, hsub, ofNat_add_ofNat]
      rfl
    · refine congrArg some (ofBits_eq fun i => ?_)
      have hi := hbits (i % 2 ^ (len + 1))
      rw [getLsbD_not, decide_eq_true (by have := hmod i; omega), Bool.true_and] at hi
      rw [h.repeats i i.isLt, ← not_not (c.getLsbD _), hi, ← decide_not, decide_eq_decide]
      exact rotated_not_lt_iff hl (hmod i) hbound

/-! ## The element of each size -/

theorem getLsbD_sub_of_rotated {i : Nat} (hk : k ≤ 64) (h : x = x >>> k ||| x <<< (64 - k))
    (hi : i < 64) (hki : k ≤ i) : x.getLsbD (i - k) = x.getLsbD i := by
  have hbit := congrArg (fun y => y.getLsbD (i - k)) h
  have hlow : i - k < 64 - k := by omega
  simp only [getLsbD_or, getLsbD_ushiftRight, getLsbD_shiftLeft, hlow,
    Nat.add_sub_cancel' hki, decide_true, Bool.not_true, Bool.and_false, Bool.false_and,
    Bool.or_false] at hbit
  exact hbit

theorem getLsbD_mod_of_rotated (hpos : 0 < k) (hk : k ≤ 64)
    (h : x = x >>> k ||| x <<< (64 - k)) (i : Nat) (hi : i < 64) :
    x.getLsbD i = x.getLsbD (i % k) := by
  induction i using Nat.strong_induction_on with
  | _ i ih =>
    rcases lt_or_ge i k with hlt | hge
    · rw [Nat.mod_eq_of_lt hlt]
    · rw [← getLsbD_sub_of_rotated hk h hi hge, ih (i - k) (by omega) (by omega),
        ← Nat.mod_eq_sub_mod hge]

theorem rotated_of_getLsbD_mod (hpos : 0 < k) (hdvd : k ∣ 64)
    (h : ∀ i < 64, x.getLsbD i = x.getLsbD (i % k)) : x = x >>> k ||| x <<< (64 - k) := by
  have hk : k ≤ 64 := Nat.le_of_dvd (by omega) hdvd
  apply eq_of_getLsbD_eq
  intro i hi
  rw [getLsbD_or, getLsbD_ushiftRight, getLsbD_shiftLeft]
  by_cases hlow : i < 64 - k
  · rw [h i hi, h (k + i) (by omega)]
    simp [hlow]
  have hmod : (i - (64 - k)) % k = i % k := by
    obtain ⟨q, hq⟩ := hdvd
    have hq' : 64 - k = k * (q - 1) := by rw [hq, Nat.mul_sub_one]
    rw [hq', Nat.sub_mul_mod (by omega)]
  rw [getLsbD_of_ge x (k + i) (by omega), h (i - (64 - k)) (by omega), hmod, ← h i hi]
  simp [hlow, hi]

theorem element_signExtend {e len : Nat} (he : e = 2 ^ (len + 1)) (hlen : len < 6)
    (hrot : x = x >>> e ||| x <<< (64 - e))
    (hsize : bitmaskElement x = (BitVec.ofNat 32 e, (x.setWidth e).signExtend 64)) :
    Element x ((x.setWidth e).signExtend 64) len := by
  have hle : e ≤ 64 := by
    rw [he]
    exact Nat.pow_le_pow_right (show 0 < 2 by omega) (show len + 1 ≤ 6 by omega)
  have hpos : 0 < e := by
    rw [he]
    exact Nat.two_pow_pos _
  have hhigh : ∀ i < 64, e ≤ i + 1 →
      ((x.setWidth e).signExtend 64).getLsbD i = (x.setWidth e).msb := by
    intro i hi hge
    rw [getLsbD_signExtend, decide_eq_true hi, Bool.true_and]
    by_cases hlt : i < e
    · rw [if_pos hlt, msb_eq_getLsbD_last, show e - 1 = i by omega]
    · rw [if_neg hlt]
  refine ⟨he ▸ hsize, hlen, ?_, ?_⟩
  · intro i hi
    have hm : i % e < e := Nat.mod_lt i hpos
    rw [← he, getLsbD_mod_of_rotated hpos hle hrot i hi, getLsbD_signExtend]
    simp [hm, lt_of_lt_of_le hm hle]
  · intro i hi hge
    rw [hhigh i hi (he ▸ hge), ← hhigh 63 (by omega) (by omega), msb_eq_getLsbD_last]

theorem Element.ne_zero (h : Element x c len) (hx : x ≠ 0) : c ≠ 0 := by
  rintro rfl
  apply hx
  apply eq_of_getLsbD_eq
  intro i hi
  rw [h.repeats i hi]
  simp

theorem Element.not_ne_zero (h : Element x c len) (hx : x ≠ BitVec.allOnes 64) : ~~~c ≠ 0 := by
  intro hc
  apply hx
  apply eq_of_getLsbD_eq
  intro i hi
  have hm : i % 2 ^ (len + 1) < 64 := Nat.lt_of_le_of_lt (Nat.mod_le i _) hi
  have hall : c = BitVec.allOnes 64 := by
    rw [← not_not (b := c), hc, ofNat_eq_ofNat, not_zero]
  rw [h.repeats i hi, hall, getLsbD_allOnes, getLsbD_allOnes, decide_eq_true hi, decide_eq_true hm]

theorem sshiftRight_shiftLeft (c : BitVec 64) {e : Nat} (he : 0 < e) (hk : k + e = 64) :
    (c <<< k).sshiftRight k = (c.setWidth e).signExtend 64 := by
  apply eq_of_getLsbD_eq
  intro i hi
  rw [getLsbD_sshiftRight, getLsbD_signExtend, msb_eq_getLsbD_last,
    msb_eq_getLsbD_last, getLsbD_setWidth, getLsbD_setWidth,
    getLsbD_shiftLeft, getLsbD_shiftLeft]
  by_cases hlt : i < e
  · simp [hlt, hi, show k + i < 64 by omega, show ¬64 ≤ i by omega]
  · simp [hlt, hi, show ¬k + i < 64 by omega, show ¬64 ≤ i by omega, show 63 - k = e - 1 by omega,
      show e - 1 < e by omega, show ¬63 < k by omega]

theorem Element.sequence_of_two (h : Element x ((x.setWidth 2).signExtend 64) 0) (hzero : x ≠ 0)
    (hones : x ≠ BitVec.allOnes 64) :
    (sequenceOfSetbits ((x.setWidth 2).signExtend 64) ||
      sequenceOfSetbits (~~~((x.setWidth 2).signExtend 64))) = true := by
  have hc := h.ne_zero hzero
  have hnot := h.not_ne_zero hones
  generalize x.setWidth 2 = n at hc hnot
  revert n
  decide +kernel

theorem Element.sequence_of_four (h : Element x ((x.setWidth 4).signExtend 64) 1) (hzero : x ≠ 0)
    (hones : x ≠ BitVec.allOnes 64) (h2 : x ≠ x >>> 2 ||| x <<< 62)
    (h4 : x = x >>> 4 ||| x <<< 60) :
    (sequenceOfSetbits ((x.setWidth 4).signExtend 64) ||
      sequenceOfSetbits (~~~((x.setWidth 4).signExtend 64))) = true := by
  have hc := h.ne_zero hzero
  have hnot := h.not_ne_zero hones
  -- A nibble whose halves agree would repeat every two bits.
  have hhalves : ¬((x.setWidth 4).getLsbD 0 = (x.setWidth 4).getLsbD 2 ∧
      (x.setWidth 4).getLsbD 1 = (x.setWidth 4).getLsbD 3) := by
    rintro ⟨h02, h13⟩
    apply h2
    apply rotated_of_getLsbD_mod (by omega) (by decide)
    intro i hi
    rw [getLsbD_mod_of_rotated (by omega) (by omega) h4 i hi]
    simp only [getLsbD_setWidth, show 0 < 4 by omega, show 1 < 4 by omega,
      show 2 < 4 by omega, show 3 < 4 by omega, decide_true, Bool.true_and] at h02 h13
    have hi4 : i % 4 = 0 ∨ i % 4 = 1 ∨ i % 4 = 2 ∨ i % 4 = 3 := by omega
    rcases hi4 with hm | hm | hm | hm
    · rw [hm, show i % 2 = 0 by omega]
    · rw [hm, show i % 2 = 1 by omega]
    · rw [hm, show i % 2 = 0 by omega, h02]
    · rw [hm, show i % 2 = 1 by omega, h13]
  generalize x.setWidth 4 = n at hc hnot hhalves
  revert n
  decide +kernel

theorem exists_element_of_small (hzero : x ≠ 0) (hones : x ≠ BitVec.allOnes 64)
    (h32 : x = x >>> 32 ||| x <<< 32) (h16 : x = x >>> 16 ||| x <<< 48)
    (h8 : x = x >>> 8 ||| x <<< 56) (h4 : x = x >>> 4 ||| x <<< 60) :
    ∃ c len, Element x c len ∧ (sequenceOfSetbits c || sequenceOfSetbits (~~~c)) = true := by
  have hshift2 : (x <<< 62).sshiftRight 62 = (x.setWidth 2).signExtend 64 :=
    sshiftRight_shiftLeft x (by omega) (by omega)
  have hshift4 : (x <<< 60).sshiftRight 60 = (x.setWidth 4).signExtend 64 :=
    sshiftRight_shiftLeft x (by omega) (by omega)
  by_cases h2 : x = x >>> 2 ||| x <<< 62
  · have hel : Element x ((x.setWidth 2).signExtend 64) 0 := by
      refine element_signExtend rfl (by omega) h2 ?_
      rw [bitmaskElement, if_neg (not_not.mpr h32), if_neg (not_not.mpr h16),
        if_neg (not_not.mpr h8), if_neg (not_not.mpr h4), if_neg (not_not.mpr h2), hshift2]
      rfl
    exact ⟨_, 0, hel, hel.sequence_of_two hzero hones⟩
  · have hel : Element x ((x.setWidth 4).signExtend 64) 1 := by
      refine element_signExtend rfl (by omega) h4 ?_
      rw [bitmaskElement, if_neg (not_not.mpr h32), if_neg (not_not.mpr h16),
        if_neg (not_not.mpr h8), if_neg (not_not.mpr h4), if_pos h2, hshift4]
      rfl
    exact ⟨_, 1, hel, hel.sequence_of_four hzero hones h2 h4⟩

theorem exists_element (hzero : x ≠ 0) (hones : x ≠ BitVec.allOnes 64)
    (h : isBitMaskImmediate x true = true) :
    ∃ c len, Element x c len ∧ (sequenceOfSetbits c || sequenceOfSetbits (~~~c)) = true := by
  have hconst : ¬(x = 0 ∨ (true ∧ x = 0xffff_ffff_ffff_ffff) ∨ (¬true ∧ x = 0xffff_ffff)) := by
    rintro (hc | ⟨-, hc⟩ | ⟨hc, -⟩)
    · exact hzero hc
    · exact hones hc
    · exact hc rfl
  rw [isBitMaskImmediate, if_neg hconst] at h
  by_cases h32 : x = x >>> 32 ||| x <<< 32
  case neg =>
    rw [if_pos h32] at h
    refine ⟨x, 5, ⟨?_, by omega, ?_, ?_⟩, h⟩
    · rw [bitmaskElement, if_pos h32]
      rfl
    · intro i hi
      rw [Nat.mod_eq_of_lt (show i < 2 ^ (5 + 1) from hi)]
    · intro i hi hge
      rw [msb_eq_getLsbD_last, show i = 64 - 1 by omega]
  rw [if_neg (not_not.mpr h32)] at h
  by_cases h16 : x = x >>> 16 ||| x <<< 48
  case neg =>
    rw [if_pos h16] at h
    refine ⟨_, 4, element_signExtend rfl (by omega) h32 ?_, h⟩
    rw [bitmaskElement, if_neg (not_not.mpr h32), if_pos h16]
    rfl
  rw [if_neg (not_not.mpr h16)] at h
  by_cases h8 : x = x >>> 8 ||| x <<< 56
  case neg =>
    rw [if_pos h8] at h
    refine ⟨_, 3, element_signExtend rfl (by omega) h16 ?_, h⟩
    rw [bitmaskElement, if_neg (not_not.mpr h32), if_neg (not_not.mpr h16), if_pos h8]
    rfl
  rw [if_neg (not_not.mpr h8)] at h
  by_cases h4 : x = x >>> 4 ||| x <<< 60
  case neg =>
    rw [if_pos h4] at h
    refine ⟨_, 2, element_signExtend rfl (by omega) h8 ?_, h⟩
    rw [bitmaskElement, if_neg (not_not.mpr h32), if_neg (not_not.mpr h16),
      if_neg (not_not.mpr h8), if_pos h4]
    rfl
  exact exists_element_of_small hzero hones h32 h16 h8 h4

theorem decode_of_isBitMaskImmediate (h : isBitMaskImmediate x true = true) :
    ∃ f, bitmaskImmediate x true = some f ∧ f.decode 64 = some x := by
  have hzero : x ≠ 0 := by
    rintro rfl
    exact absurd h (by decide)
  have hones : x ≠ BitVec.allOnes 64 := by
    rintro rfl
    exact absurd h (by decide)
  obtain ⟨c, len, hel, hseq⟩ := exists_element hzero hones h
  exact hel.decode (hel.ne_zero hzero) (hel.not_ne_zero hones) hseq

/-! ## Values of 32 bits -/

theorem imms_spec32 : ∀ ones : Fin 32, 0 < ones.val →
    let f := bitmaskFields 64 (BitVec.ofNat 32 ones.val) 0 false
    highestSetBit (BitVec.ofBool (f.n = 1) ++ ~~~(f.imms.setWidth 6)) = some 5 ∧
      (f.imms.setWidth 6).toNat % 2 ^ 5 = ones.val - 1 ∧ f.imms < 64 := by
  decide +kernel

theorem immr_spec32 : ∀ pos : Fin 32,
    let f := bitmaskFields 64 0 (BitVec.ofNat 32 pos.val) false
    (f.immr.setWidth 6).toNat % 2 ^ 5 = (2 ^ 5 - pos.val) % 2 ^ 5 ∧ f.immr < 64 := by
  decide +kernel

theorem decode_bitmaskFields32 {ones pos : Nat} (hones : 0 < ones) (honeslt : ones < 32)
    (hpos : pos < 32) :
    (bitmaskFields 64 (BitVec.ofNat 32 ones) (BitVec.ofNat 32 pos) false).decode 32 =
      some (ofBits fun i : Fin 32 =>
        decide ((i % 2 ^ 5 + (2 ^ 5 - pos)) % 2 ^ 5 < ones)) := by
  obtain ⟨hhigh, himms, hfits⟩ := imms_spec32 ⟨ones, honeslt⟩ hones
  obtain ⟨himmr, hfits'⟩ := immr_spec32 ⟨pos, hpos⟩
  have := decodeBitMasks_eq (by omega) (le_refl 32) hones honeslt hhigh himms himmr
  simp only [Nat.add_mod_mod] at this
  refine (decode_of_lt _ ?_ ?_ 32).trans this
  exacts [hfits, hfits']

variable {x : BitVec 32}

/-- A value of 32 bits does not repeat its upper half, so that its element has 64 bits. -/
theorem ne_rotated_of_setWidth (hx : x ≠ 0) :
    x.setWidth 64 ≠ x.setWidth 64 >>> 32 ||| x.setWidth 64 <<< 32 := by
  intro h
  apply hx
  apply eq_of_getLsbD_eq
  intro i hi
  have hbit := getLsbD_sub_of_rotated (by omega) h (show i + 32 < 64 by omega) (by omega)
  rw [Nat.add_sub_cancel, getLsbD_setWidth, getLsbD_setWidth,
    getLsbD_of_ge x (i + 32) (by omega), decide_eq_true (show i < 64 by omega)] at hbit
  simpa using hbit

theorem msb_setWidth (x : BitVec 32) : (x.setWidth 64).msb = false := by
  rw [msb_eq_getLsbD_last, getLsbD_setWidth, getLsbD_of_ge x _ (by omega)]
  rfl

section

variable (h : isBitMaskImmediate (x.setWidth 64) false = true)

include h

theorem ne_zero_of_isBitMaskImmediate32 : x ≠ 0 := by
  rintro rfl
  exact absurd h (by decide)

/-- An accepted value of 32 bits is one run of set bits. -/
theorem exists_run32 :
    ∃ p l, 0 < l ∧ l < 32 ∧ p + l ≤ 32 ∧ (x.setWidth 64).toNat = 2 ^ (p + l) - 2 ^ p := by
  have hones : x ≠ BitVec.allOnes 32 := by
    rintro rfl
    exact absurd h (by decide)
  have hrot := ne_rotated_of_setWidth (ne_zero_of_isBitMaskImmediate32 h)
  have hmsb := msb_setWidth x
  have hconst : ¬(x.setWidth 64 = 0 ∨ (false ∧ x.setWidth 64 = 0xffff_ffff_ffff_ffff) ∨
      (¬false ∧ x.setWidth 64 = 0xffff_ffff)) := by
    intro hc
    rw [isBitMaskImmediate, if_pos hc] at h
    exact false_ne_true h
  rw [isBitMaskImmediate, if_neg hconst, if_pos hrot] at h
  have hnot : ~~~(x.setWidth 64) ≠ 0 := by
    intro hc
    have := congrArg BitVec.msb hc
    rw [msb_not, hmsb] at this
    exact absurd this (by decide)
  obtain ⟨p, l, hl, hpl, hrun⟩ := exists_run (fun hc => hrot (by rw [hc]; rfl)) hnot h
  simp only [hmsb, false_eq_true, if_false] at hrun
  have hbound : p + l ≤ 32 := by
    have hlast := getLsbD_of_run hrun (p + l - 1)
    rw [decide_eq_true (by omega), getLsbD_setWidth, and_eq_true] at hlast
    have := lt_of_getLsbD hlast.2
    omega
  have hshort : l ≠ 32 := by
    intro h32
    apply hones
    apply eq_of_getLsbD_eq
    intro i hi
    have hbit := getLsbD_of_run hrun i
    rw [getLsbD_setWidth, decide_eq_true (show i < 64 by omega), Bool.true_and] at hbit
    rw [hbit, getLsbD_allOnes, decide_eq_decide]
    omega
  exact ⟨p, l, hl, by omega, hbound, hrun⟩

theorem decode_of_isBitMaskImmediate32 :
    ∃ f, bitmaskImmediate (x.setWidth 64) false = some f ∧ f.decode 32 = some x := by
  obtain ⟨p, l, hl, hshort, hbound, hrun⟩ := exists_run32 h
  refine ⟨_, ?_, (decode_bitmaskFields32 hl hshort (show p < 32 by omega)).trans ?_⟩
  · have helem : bitmaskElement (x.setWidth 64) = (64, x.setWidth 64) := by
      rw [bitmaskElement, if_pos (ne_rotated_of_setWidth (ne_zero_of_isBitMaskImmediate32 h))]
    simp only [bitmaskImmediate, helem, msb_setWidth,
      getOnesSequenceSize_of_run hl (show p + l < 64 by omega) hrun, Option.bind_eq_bind,
      Option.bind_some, false_eq_true, if_false]
    rfl
  · refine congrArg some (ofBits_eq fun i => ?_)
    have hbit := getLsbD_of_run hrun i
    rw [getLsbD_setWidth, decide_eq_true (show i.val < 64 by omega), Bool.true_and] at hbit
    rw [hbit, decide_eq_decide, Nat.mod_eq_of_lt (show i.val < 2 ^ 5 from i.isLt)]
    exact rotated_lt_iff i.isLt hbound

end

end Andsifr.Arm64
