import Mathlib.Data.List.Basic

namespace Andsifr.Lib

/-- Halves the range from `i` to `j` until it is empty; the fuel is at least its length. -/
def searchBetween (p : Nat → Bool) : (fuel i j : Nat) → Nat
  | 0, i, _ => i
  | fuel + 1, i, j =>
    if i < j then
      let h := (i + j) / 2
      if p h then searchBetween p fuel i h else searchBetween p fuel (h + 1) j
    else i

/-- Binary search for the first index below `n` at which `p` holds, `n` if there is none. -/
def search (n : Nat) (p : Nat → Bool) : Nat :=
  searchBetween p n 0 n

variable {p : Nat → Bool} {n : Nat}

theorem searchBetween_spec (hmono : ∀ i j, i ≤ j → j < n → p i = true → p j = true) (fuel i j : Nat)
    (hfuel : j - i ≤ fuel) (hij : i ≤ j) (hj : j ≤ n) (hbelow : ∀ k < i, p k = false)
    (habove : j < n → p j = true) :
    searchBetween p fuel i j ≤ n ∧ (∀ k < searchBetween p fuel i j, p k = false) ∧
      (searchBetween p fuel i j < n → p (searchBetween p fuel i j) = true) := by
  induction fuel generalizing i j with
  | zero =>
    obtain rfl : i = j := by omega
    exact ⟨hj, hbelow, habove⟩
  | succ fuel ih =>
    rw [searchBetween]
    by_cases hlt : i < j
    · rw [if_pos hlt]
      have hmid : i ≤ (i + j) / 2 ∧ (i + j) / 2 < j := by omega
      generalize (i + j) / 2 = h at hmid
      cases hp : p h with
      | true =>
        simp only [hp, if_true]
        exact ih i h (by omega) hmid.1 (by omega) hbelow fun _ => hp
      | false =>
        simp only [hp, Bool.false_eq_true, if_false]
        refine ih (h + 1) j (by omega) hmid.2 hj ?_ habove
        intro k hk
        by_contra hpk
        have hph := hmono k h (by omega) (by omega) (by simpa using hpk)
        rw [hp] at hph
        cases hph
    · rw [if_neg hlt]
      obtain rfl : i = j := by omega
      exact ⟨hj, hbelow, habove⟩

/-- The search finds the first index, if `p` stays true once it is. -/
theorem search_spec (hmono : ∀ i j, i ≤ j → j < n → p i = true → p j = true) :
    search n p ≤ n ∧ (∀ k < search n p, p k = false) ∧ (search n p < n → p (search n p) = true) :=
  searchBetween_spec hmono n 0 n (by omega) (Nat.zero_le n) (Nat.le_refl n) (by omega) (by omega)

end Andsifr.Lib
