import Andsifr.Lib.Check
import Andsifr.Lib.LittleEndian

namespace Andsifr.Lib

open List Check

/-- A slice: its elements and, after them, those up to its capacity. -/
structure Slice (α : Type) where
  array : List α
  len : Nat
  len_le : len ≤ array.length
  deriving DecidableEq, Repr

namespace Slice

variable {α : Type}

def toList (s : Slice α) : List α :=
  s.array.take s.len

/-- The expression `s[i]`. -/
def index (s : Slice α) (i : Nat) : Check α :=
  Check.index s.toList i

/-- The expression `s[lo:hi]`, which may reach to the capacity. -/
def slice (s : Slice α) (lo hi : Nat) : Check (Slice α) :=
  if h : hi ≤ s.array.length then
    if lo ≤ hi then pure ⟨s.array.drop lo, hi - lo, by rw [length_drop]; omega⟩
    else raise s!"runtime error: slice bounds out of range [{lo}:{hi}]"
  else raise s!"runtime error: slice bounds out of range [:{hi}] with capacity {s.array.length}"

/-- The expression `s[lo:]`. -/
def sliceFrom (s : Slice α) (lo : Nat) : Check (Slice α) :=
  s.slice lo s.len

/-- The expression `s[lo:hi:max]`. -/
def slice3 (s : Slice α) (lo hi max : Nat) : Check (Slice α) :=
  if h : max ≤ s.array.length then
    if h' : hi ≤ max then
      if lo ≤ hi then
        pure ⟨(s.array.take max).drop lo, hi - lo, by rw [length_drop, length_take]; omega⟩
      else raise s!"runtime error: slice bounds out of range [{lo}:{hi}:]"
    else raise s!"runtime error: slice bounds out of range [:{hi}:{max}]"
  else raise s!"runtime error: slice bounds out of range [::{max}] with capacity {s.array.length}"

/-- The slice with the elements from `lo` on replaced by the given ones. -/
def overwrite (s : Slice α) (lo : Nat) (xs : List α) : Slice α :=
  ⟨s.array.take lo ++ (xs.take (s.array.length - lo) ++ s.array.drop (lo + xs.length)), s.len, by
    have := s.len_le
    simp only [length_append, length_take, length_drop]
    omega⟩

/-- `append(s, xs...)`; `spare` follows the elements in a new backing array. -/
def append (s : Slice α) (xs spare : List α) : Slice α :=
  if s.len + xs.length ≤ s.array.length then
    ⟨s.toList ++ (xs ++ s.array.drop (s.len + xs.length)), s.len + xs.length, by
      simp [toList, min_eq_left s.len_le]⟩
  else ⟨s.toList ++ (xs ++ spare), s.len + xs.length, by simp [toList, min_eq_left s.len_le]⟩

/-- Stores the elements `xs` through `s[lo:]`, after an access to the last one. -/
def putAt (s : Slice α) (lo : Nat) (xs : List α) : Check (Slice α) := do
  let t ← s.sliceFrom lo
  let _ ← t.index (xs.length - 1)
  return s.overwrite lo xs

/-- `copy(s[lo:], xs)`. -/
def copyAt (s : Slice α) (lo : Nat) (xs : List α) : Check (Slice α) := do
  let t ← s.sliceFrom lo
  return s.overwrite lo (xs.take t.len)

/-- The number in the first `n` bytes, after an access to the last one. -/
def leUint (s : Slice UInt8) (n : Nat) : Check Nat := do
  let _ ← s.index (n - 1)
  return leNat (s.toList.take n)

@[simp] theorem length_toList (s : Slice α) : s.toList.length = s.len := by
  rw [toList, length_take, min_eq_left s.len_le]

def extract (s : Slice α) (i n : Nat) : List α :=
  (s.toList.drop i).take n

variable {s : Slice α} {n : Nat}

theorem length_extract {i : Nat} (h : i + n ≤ s.len) : (s.extract i n).length = n := by
  rw [extract, length_take, length_drop, length_toList]
  omega

theorem toList_append (s : Slice α) (xs spare : List α) :
    (s.append xs spare).toList = s.toList ++ xs := by
  unfold append
  split <;> simp [toList, ← append_assoc, min_eq_left s.len_le]

theorem slice_zero_eq_ok (h : n ≤ s.array.length) :
    ∃ t, s.slice 0 n = .ok t ∧ t.array = s.array ∧ t.len = n :=
  ⟨_, (dif_pos h).trans (if_pos (Nat.zero_le n)), rfl, rfl⟩

variable {lo hi : Nat}

theorem slice_eq_ok (hlo : lo ≤ hi) (hhi : hi ≤ s.len) :
    ∃ t, s.slice lo hi = .ok t ∧ t.toList = s.extract lo (hi - lo) ∧ t.len = hi - lo := by
  have hcap := s.len_le
  rw [slice, dif_pos (le_trans hhi hcap), if_pos hlo]
  refine ⟨_, rfl, ?_, rfl⟩
  rw [extract, toList, toList, drop_take, take_take, min_eq_left (by omega)]

theorem sliceFrom_eq_ok (hlo : lo ≤ s.len) :
    ∃ t, s.sliceFrom lo = .ok t ∧ t.toList = s.extract lo (s.len - lo) ∧ t.len = s.len - lo :=
  slice_eq_ok hlo (le_refl _)

theorem crashes_slice (h : hi < lo) : Check.Crashes (s.slice lo hi) := by
  unfold slice
  split
  · rw [if_neg (by omega)]
    exact ⟨_, rfl⟩
  · exact ⟨_, rfl⟩

theorem slice3_eq_ok (hlo : lo ≤ hi) (hhi : hi ≤ s.len) :
    ∃ t, s.slice3 lo hi hi = .ok t ∧ t.toList = s.extract lo (hi - lo) := by
  have hcap := s.len_le
  rw [slice3, dif_pos (le_trans hhi hcap), dif_pos (le_refl hi), if_pos hlo]
  refine ⟨_, rfl, ?_⟩
  simp only [extract, toList, drop_take, take_take, min_self]
  rw [min_eq_left (by omega)]

theorem crashes_slice3 (h : hi < lo) : Check.Crashes (s.slice3 lo hi hi) := by
  unfold slice3
  split
  · rw [dif_pos (le_refl hi), if_neg (by omega)]
    exact ⟨_, rfl⟩
  · exact ⟨_, rfl⟩

theorem index_eq_ok {i : Nat} (h : i < s.len) : ∃ a, s.index i = .ok a ∧ s.toList[i]? = some a := by
  have hlt : i < s.toList.length := by rwa [length_toList]
  exact ⟨s.toList[i], index_of_lt hlt, getElem?_eq_getElem hlt⟩

theorem leUint_eq_ok {s : Slice UInt8} (hn : 0 < n) (h : n ≤ s.len) :
    s.leUint n = .ok (leNat (s.toList.take n)) := by
  obtain ⟨a, ha, -⟩ := index_eq_ok (s := s) (i := n - 1) (by omega)
  rw [leUint, ha]
  rfl

theorem extract_extract (s : Slice α) {i k : Nat} (h : k ≤ n) :
    (s.extract i n).take k = s.extract i k := by
  rw [extract, take_take, min_eq_left h, extract]

theorem extract_add (s : Slice α) (i n k : Nat) :
    s.extract i (n + k) = s.extract i n ++ s.extract (i + n) k := by
  rw [extract, extract, extract, take_add, drop_drop]

variable {xs : List α}

theorem getElem?_toList_overwrite (h : lo + xs.length ≤ s.len) (i : Nat) :
    (s.overwrite lo xs).toList[i]? =
      if lo ≤ i ∧ i < lo + xs.length then xs[i - lo]? else s.toList[i]? := by
  have hcap := s.len_le
  have hlo : (s.array.take lo).length = lo := by
    rw [length_take]
    omega
  have hxs : xs.take (s.array.length - lo) = xs := take_of_length_le (by omega)
  simp only [overwrite, toList, hxs]
  by_cases hi : i < s.len
  · rw [getElem?_take_of_lt hi, getElem?_take_of_lt hi]
    split
    next hin =>
      rw [getElem?_append_right (by omega), hlo, getElem?_append_left (by omega)]
    next hout =>
      rcases lt_or_ge i lo with hlt | hge
      · rw [getElem?_append_left (by omega), getElem?_take_of_lt hlt]
      · rw [getElem?_append_right (by omega), hlo, getElem?_append_right (by omega),
          getElem?_drop]
        congr 1
        omega
  · have hnone (l : List α) : (l.take s.len)[i]? = none := by
      rw [getElem?_eq_none_iff, length_take]
      omega
    rw [hnone, hnone, if_neg (by omega)]

theorem extract_overwrite_same (h : lo + xs.length ≤ s.len) :
    (s.overwrite lo xs).extract lo xs.length = xs := by
  apply ext_getElem?
  intro i
  rw [extract, getElem?_take, getElem?_drop, getElem?_toList_overwrite h]
  by_cases hi : i < xs.length
  · rw [if_pos hi, if_pos (by omega), Nat.add_sub_cancel_left]
  · rw [if_neg hi, getElem?_eq_none (by omega)]

theorem extract_overwrite_apart {i : Nat} (h : lo + xs.length ≤ s.len)
    (hapart : i + n ≤ lo ∨ lo + xs.length ≤ i) :
    (s.overwrite lo xs).extract i n = s.extract i n := by
  apply ext_getElem?
  intro k
  rw [extract, extract, getElem?_take, getElem?_take, getElem?_drop, getElem?_drop,
    getElem?_toList_overwrite h]
  refine if_ctx_congr Iff.rfl (fun hk => ?_) fun _ => rfl
  rw [if_neg (by omega)]

theorem putAt_eq_ok (hxs : 0 < xs.length) (h : lo + xs.length ≤ s.len) :
    s.putAt lo xs = .ok (s.overwrite lo xs) := by
  have hlo : lo ≤ s.len := by omega
  obtain ⟨t, ht, -, hlen⟩ := sliceFrom_eq_ok hlo
  obtain ⟨a, ha, -⟩ := index_eq_ok (s := t) (i := xs.length - 1) (by omega)
  rw [putAt, ht, bind_ok, ha]
  rfl

theorem copyAt_eq_ok (h : lo + xs.length ≤ s.len) : s.copyAt lo xs = .ok (s.overwrite lo xs) := by
  have hlo : lo ≤ s.len := by omega
  obtain ⟨t, ht, -, hlen⟩ := sliceFrom_eq_ok hlo
  rw [copyAt, ht, bind_ok, take_of_length_le (by omega)]
  rfl

@[simp] theorem overwrite_len (s : Slice α) (lo : Nat) (xs : List α) :
    (s.overwrite lo xs).len = s.len := rfl

def ofList (xs : List α) : Slice α :=
  ⟨xs, xs.length, le_refl _⟩

@[simp] theorem toList_ofList (xs : List α) : (ofList xs).toList = xs :=
  take_length

variable {before after : List α}

theorem toList_overwrite (h : s.toList = before ++ after) (hxs : xs.length ≤ after.length) :
    (s.overwrite before.length xs).toList = before ++ (xs ++ after.drop xs.length) := by
  have hlen : before.length + after.length = s.len := by
    rw [← length_toList, h, length_append]
  apply ext_getElem?
  intro i
  rw [getElem?_toList_overwrite (by omega), h]
  split
  next hi => rw [getElem?_append_right hi.1, getElem?_append_left (by omega)]
  next hi =>
    by_cases hbefore : i < before.length
    · rw [getElem?_append_left hbefore, getElem?_append_left hbefore]
    · rw [getElem?_append_right (by omega), getElem?_append_right (by omega),
        getElem?_append_right (by omega), getElem?_drop]
      congr 1
      omega

theorem toList_putAt (lo : Nat) (xs : List α)
    (h : s.toList = before ++ after) (hlo : lo = before.length) (hpos : 0 < xs.length)
    (hxs : xs.length ≤ after.length) :
    ∃ t, s.putAt lo xs = .ok t ∧ t.toList = (before ++ xs) ++ after.drop xs.length := by
  have hlen : before.length + after.length = s.len := by
    rw [← length_toList, h, length_append]
  subst hlo
  exact ⟨_, putAt_eq_ok hpos (by omega), by rw [toList_overwrite h hxs, append_assoc]⟩

theorem toList_copyAt (lo : Nat) (xs : List α)
    (h : s.toList = before ++ after) (hlo : lo = before.length) (hxs : xs.length ≤ after.length) :
    ∃ t, s.copyAt lo xs = .ok t ∧ t.toList = (before ++ xs) ++ after.drop xs.length := by
  have hlen : before.length + after.length = s.len := by
    rw [← length_toList, h, length_append]
  subst hlo
  exact ⟨_, copyAt_eq_ok (by omega), by rw [toList_overwrite h hxs, append_assoc]⟩

theorem map_toList_copyAt (s : Slice α) (lo : Nat) (xs : List α) : (s.copyAt lo xs).map toList =
      if lo ≤ s.len then
        .ok (s.toList.take lo ++ (xs.take (s.len - lo) ++
          (s.toList.drop lo).drop (xs.take (s.len - lo)).length))
      else raise s!"runtime error: slice bounds out of range [{lo}:{s.len}]" := by
  split
  next hlo =>
    have hbefore : (s.toList.take lo).length = lo := by
      rw [length_take, length_toList, min_eq_left hlo]
    have hroom : (xs.take (s.len - lo)).length ≤ (s.toList.drop lo).length := by
      rw [length_take, length_drop, length_toList]
      omega
    obtain ⟨t, ht, -, hlen⟩ := sliceFrom_eq_ok hlo
    have heq := toList_overwrite (take_append_drop lo s.toList).symm hroom
    rw [hbefore] at heq
    rw [copyAt, ht, bind_ok, hlen]
    exact congrArg Except.ok heq
  next hlo =>
    rw [copyAt, sliceFrom, slice, dif_pos s.len_le, if_neg hlo]
    rfl

end Slice

end Andsifr.Lib
