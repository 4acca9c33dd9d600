import Andsifr.Lib.Check

namespace Andsifr.Descriptor

open Lib List BitVec Option Int

def onesCount64 (mask : BitVec 64) : Nat :=
  (List.range 64).countP mask.getLsbD

def trailingZeros64 (mask : BitVec 64) : Nat :=
  ((List.range 64).find? mask.getLsbD).getD 64

/-- A map from descriptors to items. Each mask says which of its 64 items are there. -/
structure Table (α : Type) where
  masks : List (BitVec 64)
  items : List α
  length_items : items.length = 64 * masks.length
  deriving DecidableEq, Repr

namespace Table

variable {α : Type}

def empty : Table α :=
  ⟨[], [], rfl⟩

variable (t : Table α)

def len : Nat :=
  (t.masks.map onesCount64).sum

def grow [Inhabited α] (n : Nat) : Table α where
  masks := t.masks ++ List.replicate n 0#64
  items := t.items ++ List.replicate (n * 64) default
  length_items := by
    have h := t.length_items
    simp only [length_append, length_replicate]
    omega

def set (t : Table α) (index : Nat) (mask : BitVec 64) (key : Nat) (item : α) : Table α where
  masks := t.masks.set index mask
  items := t.items.set key item
  length_items := by
    rw [length_set, length_set]
    exact t.length_items

/-- The first mask that is not full, with its index. -/
def firstFree : (index : Nat) → List (BitVec 64) → Option (Nat × BitVec 64)
  | _, [] => none
  | index, mask :: masks =>
    if ~~~mask ≠ 0#64 then some (index, mask) else firstFree (index + 1) masks

/-- Inserts at the first place that the mask leaves. Descriptors are of type `int32`. -/
def insertFree (index : Nat) (mask : BitVec 64) (item : α) :
    Check (Int × Bool × Table α) :=
  let shift := trailingZeros64 (~~~mask)
  let key := Int.bmod (index * 64 + shift) (2 ^ 32)
  if key < 0 ∨ t.items.length ≤ key.toNat then
    Check.raise s!"runtime error: index out of range [{key}] with length {t.items.length}"
  else .ok (key, decide (0 ≤ key), t.set index (mask ||| 1#64 <<< shift) key.toNat item)

/-- Inserts at the lowest free descriptor. The table grows if there is none. -/
def insert [Inhabited α] (t : Table α) (item : α) : Check (Int × Bool × Table α) :=
  match firstFree 0 t.masks with
  | some (index, mask) => t.insertFree index mask item
  | none => (t.grow 1).insertFree t.masks.length 0#64 item

def has (i : Nat) : Bool :=
  (t.masks.getD (i / 64) 0#64).getLsbD (i % 64)

def lookup (key : Int) : Option α :=
  if key < 0 then none
  else if key.toNat < t.items.length ∧ t.has key.toNat then t.items[key.toNat]?
  else none

def insertAt [Inhabited α] (item : α) (key : Int) : Bool × Table α :=
  if key < 0 then (false, t)
  else
    let index := key.toNat / 64
    let shift := key.toNat % 64
    let t := t.grow (index + 1 - t.masks.length)
    (true, t.set index (t.masks.getD index 0#64 ||| 1#64 <<< shift) key.toNat item)

def delete [Inhabited α] (key : Int) : Table α :=
  if key < 0 then t
  else
    let index := key.toNat / 64
    let shift := key.toNat % 64
    if index < t.masks.length then
      let mask := t.masks.getD index 0#64
      if mask &&& (1#64 <<< shift) ≠ 0#64 then
        t.set index (mask &&& ~~~(1#64 <<< shift)) key.toNat default
      else t
    else t

theorem getLsbD_one_shiftLeft {s j : Nat} (hj : j < 64) :
    (1#64 <<< s).getLsbD j = decide (j = s) := by
  simp only [getLsbD_shiftLeft, getLsbD_one, hj]
  by_cases h : j < s
  · simp [h]
    omega
  · simp [h]
    omega

variable {mask : BitVec 64}

theorem and_one_shiftLeft_ne_zero_iff {s : Nat} (hs : s < 64) :
    mask &&& (1#64 <<< s) ≠ 0#64 ↔ mask.getLsbD s = true := by
  constructor
  · intro hne
    by_contra hbit
    refine hne (eq_of_getLsbD_eq fun j hj => ?_)
    rw [getLsbD_and, getLsbD_one_shiftLeft hj]
    by_cases h : j = s
    · subst h
      simp [hbit]
    · simp [h]
  · intro hbit heq
    have hs' := congrArg (·.getLsbD s) heq
    simp [getLsbD_and, getLsbD_one_shiftLeft hs, hbit] at hs'

theorem lookup_eq (key : Int) :
    t.lookup key = if 0 ≤ key ∧ t.has key.toNat then t.items[key.toNat]? else none := by
  unfold lookup
  by_cases hneg : key < 0
  · rw [if_pos hneg, if_neg (by omega)]
  · rw [if_neg hneg]
    by_cases hlt : key.toNat < t.items.length
    · simp [hlt, not_lt.1 hneg]
    · rw [if_neg (by simp [hlt]), List.getElem?_eq_none (by omega)]
      split <;> rfl

theorem lookup_empty (key : Int) : (empty : Table α).lookup key = none := by
  rw [lookup_eq]
  split <;> rfl

theorem lookup_grow [Inhabited α] (n : Nat) (key : Int) : (t.grow n).lookup key = t.lookup key := by
  have hlen := t.length_items
  have hhas : (t.grow n).has key.toNat = t.has key.toNat := by
    unfold has grow
    by_cases h : key.toNat / 64 < t.masks.length
    · simp [getD_eq_getElem?_getD, getElem?_append_left h]
    · simp only [getD_eq_getElem?_getD, getElem?_append_right (not_lt.1 h),
        List.getElem?_replicate, List.getElem?_eq_none (not_lt.1 h)]
      split <;> rfl
  rw [lookup_eq, lookup_eq, hhas]
  by_cases h : 0 ≤ key ∧ t.has key.toNat
  · have hlt : key.toNat / 64 < t.masks.length := by
      by_contra hge
      have := h.2
      simp [has, getD_eq_getElem?_getD, List.getElem?_eq_none (not_lt.1 hge)] at this
    rw [if_pos h, if_pos h, grow, getElem?_append_left (by omega)]
  · rw [if_neg h, if_neg h]

theorem lookup_set {key : Nat} {item : α} (hkey : key < t.items.length)
    (hmask : ∀ j < 64, j ≠ key % 64 → mask.getLsbD j = (t.masks.getD (key / 64) 0#64).getLsbD j)
    (k : Int) :
    (t.set (key / 64) mask key item).lookup k =
      if k = key then if mask.getLsbD (key % 64) then some item else none else t.lookup k := by
  have hindex : key / 64 < t.masks.length := by
    have := t.length_items
    omega
  have hget : ∀ i : Nat, ((t.masks.set (key / 64) mask).getD (i / 64) 0#64).getLsbD (i % 64) =
      if i = key then mask.getLsbD (key % 64) else t.has i := by
    intro i
    rw [getD_eq_getElem?_getD, getElem?_set]
    by_cases hi : key / 64 = i / 64
    · rw [if_pos hi, if_pos hindex, getD_some]
      split
      next heq => rw [heq]
      next hne =>
        rw [hmask (i % 64) (Nat.mod_lt i (by decide)) (by omega), hi, has]
    · rw [if_neg hi, if_neg (by rintro rfl; exact hi rfl), has, getD_eq_getElem?_getD]
  rw [lookup_eq, lookup_eq]
  by_cases hk : k = key
  · subst hk
    simp only [set, has, hget, toNat_natCast, if_true, natCast_nonneg, true_and,
      getElem?_set_self hkey]
  rw [if_neg hk]
  by_cases hnonneg : 0 ≤ k
  · have hne : k.toNat ≠ key := by omega
    have hhas : (t.set (key / 64) mask key item).has k.toNat = t.has k.toNat :=
      (hget k.toNat).trans (if_neg hne)
    rw [hhas, set, getElem?_set_ne (Ne.symm hne)]
  · rw [if_neg (by omega), if_neg (by omega)]

theorem firstFree_eq_some {masks : List (BitVec 64)} {start index : Nat}
    (h : firstFree start masks = some (index, mask)) :
    ∃ i, index = start + i ∧ masks[i]? = some mask ∧ ~~~mask ≠ 0#64 := by
  induction masks generalizing start with
  | nil => cases h
  | cons m masks ih =>
    unfold firstFree at h
    split at h
    next hfree =>
      cases h
      exact ⟨0, rfl, rfl, hfree⟩
    next =>
      obtain ⟨i, rfl, hi, hfree⟩ := ih h
      exact ⟨i + 1, by omega, hi, hfree⟩

theorem trailingZeros64_spec (h : mask ≠ 0#64) :
    trailingZeros64 mask < 64 ∧ mask.getLsbD (trailingZeros64 mask) = true := by
  obtain ⟨i, hi⟩ : ∃ i, (List.range 64).find? mask.getLsbD = some i := by
    refine isSome_iff_exists.1 (find?_isSome.2 ?_)
    by_contra hnone
    refine h (eq_of_getLsbD_eq fun j hj => ?_)
    rw [getLsbD_zero, Bool.eq_false_iff]
    exact fun hbit => hnone ⟨j, mem_range.2 hj, hbit⟩
  rw [trailingZeros64, hi]
  exact ⟨mem_range.1 (mem_of_find?_eq_some hi), find?_some hi⟩

/-- The tables whose descriptors are below 2³¹. -/
def Small : Prop :=
  t.masks.length ≤ 2 ^ 25

theorem insertFree_eq_ok {t t' : Table α} {index : Nat} {item : α} {key : Int}
    {ok : Bool} (hindex : t.masks[index]? = some mask) (hfree : ~~~mask ≠ 0#64)
    (hle : index ≤ 2 ^ 25)
    (h : t.insertFree index mask item = .ok (key, ok, t')) :
    ok = true ∧ index < 2 ^ 25 ∧ 0 ≤ key ∧ t.lookup key = none ∧ t'.masks.length = t.masks.length ∧
      ∀ k, t'.lookup k = if k = key then some item else t.lookup k := by
  obtain ⟨hshift, hbit⟩ := trailingZeros64_spec hfree
  have hlt := (List.getElem?_eq_some_iff.1 hindex).1
  have hlen := t.length_items
  unfold insertFree at h
  dsimp only at h
  generalize hs : trailingZeros64 (~~~mask) = shift at h hshift hbit
  split at h
  next => cases h
  next hvalid =>
    obtain ⟨hnonneg, -⟩ := not_or.1 hvalid
    have hkey : Int.bmod (index * 64 + shift) (2 ^ 32) = index * 64 + shift := by
      by_cases hsmall : index < 2 ^ 25
      · exact bmod_eq_of_le (by omega) (by omega)
      · have hwrap : Int.bmod (index * 64 + shift) (2 ^ 32) = index * 64 + shift - 2 ^ 32 := by
          rw [← sub_bmod_right, bmod_eq_of_le (by omega) (by omega)]
          rfl
        omega
    have hsmall : index < 2 ^ 25 := by
      have hub := @bmod_lt (index * 64 + shift) (2 ^ 32) (by decide)
      omega
    rw [hkey] at h hnonneg
    have htoNat : ((index : Int) * 64 + shift).toNat = index * 64 + shift := by omega
    obtain ⟨rfl, rfl, rfl⟩ := h
    have hdiv : (index * 64 + shift) / 64 = index := by omega
    have hmod : (index * 64 + shift) % 64 = shift := by omega
    have hgetD : t.masks.getD index 0#64 = mask := by
      rw [getD_eq_getElem?_getD, hindex, getD_some]
    have hclear : mask.getLsbD shift = false := by
      simpa [hshift] using hbit
    refine ⟨decide_eq_true (by omega), hsmall, by omega, ?_, length_set, fun k => ?_⟩
    · rw [lookup_eq]
      rw [htoNat, has, hdiv, hmod, hgetD, hclear]
      simp
    · have hset := @lookup_set _ t (mask ||| 1#64 <<< shift) (index * 64 + shift) item (by omega)
        (fun j hj hne => ?_) k
      · rw [hdiv, hmod, getLsbD_or, getLsbD_one_shiftLeft hshift, decide_eq_true rfl,
          Bool.or_true, if_pos rfl] at hset
        exact_mod_cast hset
      · rw [hmod] at hne
        rw [hdiv, hgetD, getLsbD_or, getLsbD_one_shiftLeft hj, decide_eq_false hne, Bool.or_false]

theorem insert_eq_ok [Inhabited α] {t t' : Table α} {item : α} {key : Int} {ok : Bool}
    (hsmall : t.Small)
    (h : t.insert item = .ok (key, ok, t')) :
    ok = true ∧ 0 ≤ key ∧ t.lookup key = none ∧ t'.Small ∧
      ∀ k, t'.lookup k = if k = key then some item else t.lookup k := by
  unfold insert at h
  split at h
  next index mask hfree =>
    obtain ⟨i, hi, hget, hne⟩ := firstFree_eq_some hfree
    rw [zero_add] at hi
    subst hi
    have hlt := (List.getElem?_eq_some_iff.1 hget).1
    unfold Small at hsmall
    obtain ⟨hok, -, hkey, hnone, hlen, hlookup⟩ := insertFree_eq_ok hget hne (by omega) h
    exact ⟨hok, hkey, hnone, le_trans (le_of_eq hlen) hsmall, hlookup⟩
  have hget : (t.grow 1).masks[t.masks.length]? = some 0#64 := by
    simp [grow]
  obtain ⟨hok, hlt, hkey, hnone, hlen, hlookup⟩ :=
    insertFree_eq_ok hget (by decide) hsmall h
  rw [lookup_grow] at hnone
  refine ⟨hok, hkey, hnone, ?_, fun k => ?_⟩
  · rw [Small, hlen, grow, length_append]
    exact hlt
  · rw [hlookup, lookup_grow]

theorem insertAt_of_nonneg [Inhabited α] {t : Table α} {item : α} {key : Int} (hkey : 0 ≤ key)
    (hle : key < 2 ^ 31) (hsmall : t.Small) :
    (t.insertAt item key).1 = true ∧ (t.insertAt item key).2.Small ∧
      ∀ k, (t.insertAt item key).2.lookup k = if k = key then some item else t.lookup k := by
  obtain ⟨n, rfl⟩ := eq_ofNat_of_zero_le hkey
  unfold Small at *
  rw [insertAt, if_neg (by omega)]
  simp only [toNat_natCast]
  have hgrown : (t.grow (n / 64 + 1 - t.masks.length)).masks.length =
      max t.masks.length (n / 64 + 1) := by
    rw [grow, length_append, length_replicate]
    omega
  have hlen := (t.grow (n / 64 + 1 - t.masks.length)).length_items
  refine ⟨trivial, ?_, fun k => ?_⟩
  · rw [set, length_set, hgrown]
    omega
  · have hset := @lookup_set _ (t.grow (n / 64 + 1 - t.masks.length))
      ((t.grow (n / 64 + 1 - t.masks.length)).masks.getD (n / 64) 0#64 ||| 1#64 <<< (n % 64)) n item
      (by omega) (fun j hj hne => ?_) k
    · rw [getLsbD_or, getLsbD_one_shiftLeft (Nat.mod_lt n (by decide)), decide_eq_true rfl,
        Bool.or_true, if_pos rfl, lookup_grow] at hset
      exact hset
    · rw [getLsbD_or, getLsbD_one_shiftLeft hj, decide_eq_false hne, Bool.or_false]

theorem lookup_delete [Inhabited α] (key k : Int) :
    (t.delete key).lookup k = if k = key then none else t.lookup k := by
  unfold delete
  split
  next hneg =>
    split
    next heq => rw [lookup_eq, if_neg (by omega)]
    next => rfl
  next hnonneg =>
    obtain ⟨n, rfl⟩ := eq_ofNat_of_zero_le (not_lt.1 hnonneg)
    have hmod := Nat.mod_lt n (show 0 < 64 by decide)
    simp only [toNat_natCast, and_one_shiftLeft_ne_zero_iff hmod]
    -- nothing is there, and nothing changes
    have hnone : t.has n = false → t.lookup k = if k = n then none else t.lookup k := by
      intro hhas
      split
      next heq =>
        rw [heq, lookup_eq]
        rw [toNat_natCast, hhas]
        simp
      next => rfl
    split
    next hlt =>
      split
      next hbit =>
        have hlen := t.length_items
        have hset := @lookup_set _ t
          (t.masks.getD (n / 64) 0#64 &&& ~~~(1#64 <<< (n % 64))) n default (by omega)
          (fun j hj hne => ?_) k
        · simpa using hset
        · rw [getLsbD_and, getLsbD_not, getLsbD_one_shiftLeft hj]
          simp [hj, hne]
      next hbit => exact hnone (Bool.eq_false_iff.2 hbit)
    next hge =>
      refine hnone ?_
      rw [has, getD_eq_getElem?_getD, List.getElem?_eq_none (by omega), getD_none,
        getLsbD_zero]

theorem small_delete [Inhabited α] {t : Table α} (h : t.Small) (key : Int) :
    (t.delete key).Small := by
  have hset : ∀ index mask n item, (t.set index mask n item).masks.length = t.masks.length :=
    fun _ _ _ _ => length_set
  unfold delete
  split
  next => exact h
  dsimp only
  split
  next =>
    split
    next => exact le_trans (le_of_eq (hset ..)) h
    next => exact h
  next => exact h

end Table

end Andsifr.Descriptor
