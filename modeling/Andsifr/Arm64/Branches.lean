import Andsifr.Arm64.Relocation
import Andsifr.Lib.Emission

namespace Andsifr.Arm64

open Lib BitVec

/-! ## Branches as the processor executes them -/

inductive BranchInstr where
  | b (imm : Int)
  | bl (imm : Int)
  | adr (rd : Nat) (imm : Int)
  | ldrsw (rt rn : Nat) (imm : Nat)
  | add (rd rn rm : Nat)
  | br (rn : Nat)
deriving DecidableEq, Repr

def decodeBranch (w : BitVec 32) : Option BranchInstr :=
  let low := (w.extractLsb' 0 5).toNat
  let rn := (w.extractLsb' 5 5).toNat
  let rm := (w.extractLsb' 16 5).toNat
  if w.extractLsb' 26 6 = 0b000101#6 then some (.b ((w.extractLsb' 0 26).toInt * 4))
  else if w.extractLsb' 26 6 = 0b100101#6 then some (.bl ((w.extractLsb' 0 26).toInt * 4))
  else if w.extractLsb' 31 1 = 0#1 ∧ w.extractLsb' 24 5 = 0b10000#5 then
    some (.adr low (w.extractLsb' 5 19 ++ w.extractLsb' 29 2).toInt)
  else if w.extractLsb' 22 10 = 0b1011100110#10 then
    some (.ldrsw low rn ((w.extractLsb' 10 12).toNat * 4))
  else if w.extractLsb' 21 11 = 0b10001011000#11 ∧ w.extractLsb' 10 6 = 0#6 then
    some (.add low rn rm)
  else if w.extractLsb' 10 22 = 0b1101011000011111000000#22 ∧ low = 0 then some (.br rn)
  else none

structure Cpu where
  pc : BitVec 64
  regs : Emission.Regs (BitVec 64)

def wordAt (code : List UInt8) (offset : Nat) : Option (BitVec 32) :=
  if offset + 4 ≤ code.length then
    some (BitVec.ofNat 32 (leNat ((code.drop offset).take 4)))
  else none

/-- The effect of an instruction of the executable that is mapped at `base`. -/
def Cpu.exec (base : BitVec 64) (code : List UInt8) (c : Cpu) : BranchInstr → Option Cpu
  | .b imm => some { c with pc := c.pc + BitVec.ofInt 64 imm }
  | .bl imm => some ⟨c.pc + BitVec.ofInt 64 imm, c.regs.set 30 (c.pc + BitVec.ofNat 64 4)⟩
  | .adr rd imm => some ⟨c.pc + BitVec.ofNat 64 4, c.regs.set rd (c.pc + BitVec.ofInt 64 imm)⟩
  | .ldrsw rt rn imm => do
    let v ← wordAt code (c.regs rn + BitVec.ofNat 64 imm - base).toNat
    some ⟨c.pc + BitVec.ofNat 64 4, c.regs.set rt (v.signExtend 64)⟩
  | .add rd rn rm => some ⟨c.pc + BitVec.ofNat 64 4, c.regs.set rd (c.regs rn + c.regs rm)⟩
  | .br rn => some { c with pc := c.regs rn }

def Cpu.step (base : BitVec 64) (code : List UInt8) (c : Cpu) : Option Cpu := do
  let w ← wordAt code (c.pc - base).toNat
  let i ← decodeBranch w
  c.exec base code i

def Cpu.run (base : BitVec 64) (code : List UInt8) : Nat → Cpu → Option Cpu
  | 0, c => some c
  | n + 1, c => (c.step base code).bind (Cpu.run base code n)

/-! ## The encoders are read back -/

theorem extractLsb_branch (x opcode : BitVec 32) (hlow : ∀ i < 26, opcode.getLsbD i = false) :
    (x &&& 0b11111111111111111111111111#32 ||| opcode).extractLsb' 26 6 = opcode.extractLsb' 26 6 ∧
      (x &&& 0b11111111111111111111111111#32 ||| opcode).extractLsb' 0 26 = x.setWidth 26 := by
  have hmask : ∀ i < 26, (0b11111111111111111111111111#32).getLsbD i = true := by decide
  have habove : ∀ i < 6, (0b11111111111111111111111111#32).getLsbD (26 + i) = false := by decide
  constructor
  · apply eq_of_getLsbD_eq
    intro i hi
    simp only [getLsbD_extractLsb', getLsbD_or, getLsbD_and, habove i hi,
      Bool.and_false, Bool.false_or]
  · apply eq_of_getLsbD_eq
    intro i hi
    simp only [getLsbD_extractLsb', getLsbD_or, getLsbD_and, zero_add,
      hmask i hi, hlow i hi, Bool.and_true, Bool.or_false, getLsbD_setWidth]

theorem outOfBranchRange_eq_false_iff {diff : Int} :
    outOfBranchRange diff = false ↔ -134217728 ≤ diff ∧ diff ≤ 134217724 := by
  rw [outOfBranchRange, decide_eq_false_iff_not]
  simp only [minUnconditionalBranchOffset, maxUnconditionalBranchOffset, minSignedInt26,
    maxSignedInt26]
  omega

theorem toInt_ofInt_div {diff : Int} (hdiff : diff % 4 = 0)
    (hrange : outOfBranchRange diff = false) :
    ((BitVec.ofInt 32 (diff / 4)).setWidth 26).toInt * 4 = diff := by
  rw [outOfBranchRange_eq_false_iff] at hrange
  have hset : (BitVec.ofInt 32 (diff / 4)).setWidth 26 = BitVec.ofInt 26 (diff / 4) := by
    apply eq_of_toNat_eq
    simp only [toNat_setWidth, toNat_ofInt]
    omega
  rw [hset, toInt_ofInt, Int.bmod_eq_of_le (by omega) (by omega)]
  omega

theorem decode_encodeUnconditionalBranch (link : Bool) {diff : Int} (hdiff : diff % 4 = 0)
    (hrange : outOfBranchRange diff = false) :
    ∃ w, encodeUnconditionalBranch link diff = .ok w ∧
      decodeBranch w = some (if link then .bl diff else .b diff) := by
  rw [encodeUnconditionalBranch, if_neg (not_not.mpr hdiff)]
  refine ⟨_, rfl, ?_⟩
  have himm := toInt_ofInt_div hdiff hrange
  generalize BitVec.ofInt 32 (diff / 4) = x at himm
  cases link with
  | false =>
    obtain ⟨hop, hlow⟩ := extractLsb_branch x (0b101#32 <<< 26) (by decide)
    have hb : (0b101#32 <<< 26).extractLsb' 26 6 = 0b000101#6 := by decide
    simp only [Bool.false_eq_true, if_false, decodeBranch, hop, hlow, hb, himm, if_true]
  | true =>
    obtain ⟨hop, hlow⟩ := extractLsb_branch x (0b101#32 <<< 26 ||| 0b1#32 <<< 31) (by decide)
    have hbl : (0b101#32 <<< 26 ||| 0b1#32 <<< 31).extractLsb' 26 6 = 0b100101#6 := by decide
    have hne : ¬ (0b100101#6 = 0b000101#6) := by decide
    rw [← BitVec.or_assoc] at hop hlow
    simp only [if_true, decodeBranch, hop, hlow, hbl, hne, if_false, himm]

end Andsifr.Arm64
