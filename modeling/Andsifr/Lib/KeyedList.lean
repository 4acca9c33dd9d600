import Mathlib.Data.List.Basic

namespace Andsifr.Lib.KeyedList

open List

variable {K V : Type} [DecidableEq K]

/-- Gives a key a value, in the key's place if it has one and at the end otherwise. -/
def put (k : K) (v : V) : List (K × V) → List (K × V)
  | [] => [(k, v)]
  | e :: es => if e.1 = k then (k, v) :: es else e :: put k v es

/-- A map that says where the entry of each key starts, an entry taking `stride` places. -/
def Indexes (stride : Nat) (index : K → Option Nat) (l : List (K × V)) : Prop :=
  ∀ k i, index k = some i ↔ ∃ j v, l[j]? = some (k, v) ∧ i = stride * j

theorem put_of_absent {k : K} {l : List (K × V)} (v : V) (h : ∀ e ∈ l, e.1 ≠ k) :
    put k v l = l ++ [(k, v)] := by
  induction l with
  | nil => rfl
  | cons e es ih =>
    rw [put, if_neg (h e mem_cons_self), ih fun x hx => h x (mem_cons_of_mem e hx)]
    rfl

theorem put_of_first {k : K} {l : List (K × V)} {j : Nat} {w : V} (v : V) (hj : l[j]? = some (k, w))
    (hfirst : ∀ i < j, ∀ u, l[i]? ≠ some (k, u)) : put k v l = l.set j (k, v) := by
  induction l generalizing j with
  | nil => simp at hj
  | cons e es ih =>
    cases j with
    | zero =>
      have he : e = (k, w) := by simpa using hj
      rw [put, he, if_pos rfl]
      rfl
    | succ j =>
      have hne : e.1 ≠ k := fun he => hfirst 0 (Nat.succ_pos j) e.2 (by rw [← he]; rfl)
      rw [put, if_neg hne, ih (by simpa using hj) fun i hi u hu =>
        hfirst (i + 1) (Nat.succ_lt_succ hi) u (by simpa using hu)]
      rfl

variable {stride : Nat} {index : K → Option Nat} {l : List (K × V)} {k : K}

namespace Indexes

omit [DecidableEq K] in
theorem absent (h : Indexes stride index l) (hk : index k = none) : ∀ e ∈ l, e.1 ≠ k := by
  rintro ⟨k', v⟩ he rfl
  obtain ⟨j, hj⟩ := getElem?_of_mem he
  have hsome := (h k' (stride * j)).2 ⟨j, v, hj, rfl⟩
  rw [hk] at hsome
  cases hsome

theorem put_eq_append (h : Indexes stride index l) (hk : index k = none) (v : V) :
    put k v l = l ++ [(k, v)] :=
  put_of_absent v (h.absent hk)

theorem put_eq_set (h : Indexes stride index l) (hstride : 0 < stride) {j : Nat} {w : V}
    (hj : l[j]? = some (k, w)) (v : V) : put k v l = l.set j (k, v) := by
  refine put_of_first v hj fun i hi u hu => ?_
  have hi' := (h k (stride * i)).2 ⟨i, u, hu, rfl⟩
  have hj' := (h k (stride * j)).2 ⟨j, w, hj, rfl⟩
  rw [hi', Option.some.injEq] at hj'
  exact absurd (Nat.eq_of_mul_eq_mul_left hstride hj') (Nat.ne_of_lt hi)

omit [DecidableEq K] in
theorem set (h : Indexes stride index l) {j : Nat} {w : V} (hj : l[j]? = some (k, w)) (v : V) :
    Indexes stride index (l.set j (k, v)) := by
  intro k' i
  rw [h k' i]
  have hlt : j < l.length := (List.getElem?_eq_some_iff.1 hj).1
  constructor
  · rintro ⟨p, u, hp, rfl⟩
    by_cases hpj : j = p
    · subst hpj
      rw [hj] at hp
      cases hp
      exact ⟨j, v, getElem?_set_self hlt, rfl⟩
    · exact ⟨p, u, by rwa [getElem?_set_ne hpj], rfl⟩
  · rintro ⟨p, u, hp, rfl⟩
    by_cases hpj : j = p
    · subst hpj
      rw [getElem?_set_self hlt] at hp
      cases hp
      exact ⟨j, w, hj, rfl⟩
    · exact ⟨p, u, by rwa [getElem?_set_ne hpj] at hp, rfl⟩

theorem append (h : Indexes stride index l) (hk : index k = none) (v : V) :
    Indexes stride (Function.update index k (some (stride * l.length))) (l ++ [(k, v)]) := by
  intro k' i
  by_cases hkk : k' = k
  · subst hkk
    rw [Function.update_self, Option.some.injEq]
    constructor
    · rintro rfl
      exact ⟨l.length, v, getElem?_concat_length, rfl⟩
    · rintro ⟨j, u, hj, rfl⟩
      rw [getElem?_append] at hj
      split at hj
      · exact absurd rfl (h.absent hk _ (mem_of_getElem? hj))
      · have hlt := (List.getElem?_eq_some_iff.1 hj).1
        rw [show j = l.length by simp at hlt; omega]
  · rw [Function.update_of_ne hkk, h k' i]
    constructor
    · rintro ⟨j, u, hj, rfl⟩
      exact ⟨j, u, by rwa [List.getElem?_append_left (List.getElem?_eq_some_iff.1 hj).1], rfl⟩
    · rintro ⟨j, u, hj, rfl⟩
      rw [getElem?_append] at hj
      split at hj
      · exact ⟨j, u, hj, rfl⟩
      · have hmem := mem_of_getElem? hj
        rw [mem_singleton] at hmem
        exact absurd (congrArg Prod.fst hmem) hkk

end Indexes

end Andsifr.Lib.KeyedList
