import Mathlib.Data.Nat.Bitwise
import Mathlib.Data.Nat.Find

namespace Andsifr.Lib.BitRun

open BitVec

def ofBits {w : Nat} (f : Fin w → Bool) : BitVec w :=
  (iunfoldr (fun i (u : Unit) => (u, f i)) ()).2

theorem ofBits_eq {w : Nat} {x : BitVec w} {f : Fin w → Bool} (h : ∀ i : Fin w, f i = x.getLsbD i) :
    ofBits f = x :=
  iunfoldr_replace_snd (fun _ => ()) x () rfl fun i => Prod.ext rfl (h i)

variable {w : Nat} {x : BitVec w}

theorem exists_lowest_bit (hx : x ≠ 0) :
    ∃ p < w, x.getLsbD p = true ∧ ∀ j < p, x.getLsbD j = false := by
  have hset : ∃ p, x.getLsbD p = true := by
    by_contra hnone
    apply hx
    apply eq_of_getLsbD_eq
    intro i _
    have hi : x.getLsbD i = false := by simpa using fun h => hnone ⟨i, h⟩
    simpa using hi
  refine ⟨Nat.find hset, ?_, Nat.find_spec hset, ?_⟩
  · exact lt_of_getLsbD (Nat.find_spec hset)
  · intro j hj
    simpa using Nat.find_min hset hj

theorem pow_dvd_toNat {p : Nat} (hlow : ∀ j < p, x.getLsbD j = false) : 2 ^ p ∣ x.toNat := by
  rw [Nat.dvd_iff_mod_eq_zero]
  apply Nat.eq_of_testBit_eq
  intro i
  rcases lt_or_ge i p with hi | hi
  · have := hlow i hi
    rw [getLsbD] at this
    simp [this]
  · simp [not_lt.mpr hi]

theorem and_neg_eq_twoPow {p : Nat} (hp : p < w) (hset : x.getLsbD p = true)
    (hlow : ∀ j < p, x.getLsbD j = false) : x &&& -x = twoPow w p := by
  apply eq_of_getLsbD_eq
  intro i hi
  rw [getLsbD_and, getLsbD_neg, getLsbD_twoPow]
  rcases Nat.lt_trichotomy i p with hlt | rfl | hgt
  · simp [hlow i hlt, (ne_of_gt hlt)]
  · have hnone : ¬∃ j < i, x.getLsbD j = true := by
      rintro ⟨j, hj, hbit⟩
      simp [hlow j hj] at hbit
    simp [hset, hnone, hi]
  · have hsome : ∃ j < i, x.getLsbD j = true := ⟨p, hgt, hset⟩
    simp [hsome, hi, ne_of_lt hgt]

theorem exists_lowest (hx : x ≠ 0) : ∃ p < w, x &&& -x = twoPow w p ∧ 2 ^ p ∣ x.toNat := by
  obtain ⟨p, hp, hset, hlow⟩ := exists_lowest_bit hx
  exact ⟨p, hp, and_neg_eq_twoPow hp hset hlow, pow_dvd_toNat hlow⟩

theorem eq_zero_or_twoPow_of_pred_and {y : BitVec w} (h : (y - 1) &&& y = 0) :
    y = 0 ∨ ∃ k < w, y.toNat = 2 ^ k := by
  by_cases hy : y = 0
  · exact .inl hy
  right
  have hpos : y.toNat ≠ 0 := fun h0 => hy (eq_of_toNat_eq (by simpa using h0))
  have hw : 0 < w := by
    rcases Nat.eq_zero_or_pos w with rfl | hw
    · exact absurd (eq_nil y ▸ eq_nil 0#0 ▸ rfl) hy
    · exact hw
  have hone : (1 : BitVec w).toNat = 1 := by
    exact Nat.mod_eq_of_lt (Nat.one_lt_two_pow hw.ne')
  have hpred : (y - 1).toNat = y.toNat - 1 := by
    rw [toNat_sub_of_le, hone]
    rw [le_def]
    omega
  have hand : y.toNat &&& (y.toNat - 1) = 0 := by
    have := congrArg BitVec.toNat h
    rwa [toNat_and, hpred, Nat.land_comm] at this
  obtain ⟨k, hk⟩ := (Nat.and_sub_one_eq_zero_iff_isPowerOfTwo hpos).mp hand
  refine ⟨k, ?_, hk⟩
  rw [← Nat.pow_lt_pow_iff_right (Nat.lt_succ_self 1), ← hk]
  exact y.isLt

/-- Whether adding the lowest set bit carries through all the set bits. -/
def IsSequence (x : BitVec w) : Prop :=
  (x + (x &&& -x) - 1) &&& (x + (x &&& -x)) = 0

/-- A sequence is the difference of two powers: the carry stops at one, or runs out of the top. -/
theorem toNat_eq_of_isSequence (hx : x ≠ 0) (h : IsSequence x) :
    ∃ p l, 0 < l ∧ p + l ≤ w ∧ x.toNat = 2 ^ (p + l) - 2 ^ p := by
  obtain ⟨p, hp, hlow, hdvd⟩ := exists_lowest hx
  have hpos : 0 < x.toNat := Nat.pos_of_ne_zero fun h0 => hx (eq_of_toNat_eq (by simpa using h0))
  have hlt := x.isLt
  have hbound : 2 ^ p ≤ 2 ^ w - x.toNat :=
    Nat.le_of_dvd (by omega) (Nat.dvd_sub (Nat.pow_dvd_pow 2 hp.le) hdvd)
  have hsum : (x + twoPow w p).toNat = (x.toNat + 2 ^ p) % 2 ^ w := by
    rw [toNat_add, toNat_twoPow_of_lt hp]
  obtain ⟨k, hk, hpow⟩ : ∃ k ≤ w, x.toNat + 2 ^ p = 2 ^ k := by
    rw [IsSequence, hlow] at h
    rcases lt_or_ge (x.toNat + 2 ^ p) (2 ^ w) with hcarry | hcarry
    · rw [Nat.mod_eq_of_lt hcarry] at hsum
      rcases eq_zero_or_twoPow_of_pred_and h with hzero | ⟨k, hk, hpow⟩
      · simp [hzero] at hsum
        omega
      · exact ⟨k, hk.le, hsum.symm.trans hpow⟩
    · exact ⟨w, le_refl w, by omega⟩
  have hpk : p < k := by
    rw [← Nat.pow_lt_pow_iff_right Nat.one_lt_two]
    omega
  refine ⟨p, k - p, by omega, by omega, ?_⟩
  rw [Nat.add_sub_cancel' hpk.le]
  omega

/-- A number of which, or of whose complement, the set bits are a sequence: the one of the two
without the top bit is a run of set bits. -/
theorem toNat_eq_of_isSequence_or (hx : x ≠ 0) (hmsb : x.msb = false)
    (h : IsSequence x ∨ IsSequence (~~~x)) :
    ∃ p l, 0 < l ∧ p + l < w ∧ x.toNat = 2 ^ (p + l) - 2 ^ p := by
  have hw : 0 < w := Nat.pos_of_ne_zero (by rintro rfl; exact hx (eq_nil x))
  have hhalf : x.toNat < 2 ^ (w - 1) := by simpa [msb_eq_decide] using hmsb
  have htwice : 2 ^ w = 2 * 2 ^ (w - 1) := by
    rw [← Nat.pow_succ', Nat.succ_eq_add_one, Nat.sub_add_cancel hw]
  have hle {k : Nat} (hk : k < w) : 2 ^ k ≤ 2 ^ (w - 1) :=
    Nat.pow_le_pow_right (by omega) (by omega)
  rcases h with h | h
  · obtain ⟨p, l, hl, hpl, heq⟩ := toNat_eq_of_isSequence hx h
    refine ⟨p, l, hl, lt_of_le_of_ne hpl fun htop => ?_, heq⟩
    have := hle (show p < w by omega)
    rw [htop] at heq
    omega
  have hnot : (~~~x).toNat = 2 ^ w - 1 - x.toNat := toNat_not
  obtain ⟨p, l, hl, hpl, heq⟩ := toNat_eq_of_isSequence (x := ~~~x) (by
    intro h0
    simp [h0] at hnot
    omega) h
  -- The sequence reaches the top bit, below it all the bits of the number are set.
  have htop : p + l = w := by
    by_contra hne
    have := hle (show p + l < w by omega)
    have := Nat.two_pow_pos p
    omega
  rw [htop] at heq
  have hp := hle (show p < w by omega)
  have hpos : x.toNat ≠ 0 := fun h0 => hx (eq_of_toNat_eq (by simpa using h0))
  refine ⟨0, p, Nat.pos_of_ne_zero ?_, by omega, by simp; omega⟩
  rintro rfl
  omega

theorem getLsbD_of_run {p l : Nat} (h : x.toNat = 2 ^ (p + l) - 2 ^ p) (i : Nat) :
    x.getLsbD i = decide (p ≤ i ∧ i < p + l) := by
  rw [getLsbD, h, Nat.pow_add, ← Nat.mul_sub_one, Nat.testBit_two_pow_mul,
    Nat.testBit_two_pow_sub_one]
  by_cases hpi : p ≤ i
  · have : i - p < l ↔ i < p + l := by omega
    simp [hpi, this]
  · simp [hpi]

end Andsifr.Lib.BitRun
