import Andsifr.Execution.Machine

namespace Andsifr.Execution

open Lib Wasm Validation ValueType List Check

variable {types : List FunctionType} {t : ValueType}

theorem isRef_of_concrete {i : Nat} (h : t.concrete = some i) : t.isRef = true := by
  simp [isRef, isConcreteRef, h]

theorem isRef_of_isNullable (h : t.isNullable = true) : t.isRef = true := by
  simp only [isNullable, Bool.and_eq_true] at h
  exact h.1

variable {v : Value}

theorem hasType_of_isRefSubtypeOf (hwf : WellFormedTypes types) {a b : ValueType}
    (h : isRefSubtypeOf types a b = .ok true) (hv : HasType types v a) : HasType types v b := by
  rcases (isRefSubtypeOf_iff hwf).mp h with rfl | ⟨hkind, hconcrete, hnull⟩ |
    ⟨i, j, hi, hj, hequiv, hnull⟩ | ⟨⟨i, hi⟩, hb, hkind, hnull⟩
  · exact hv
  · cases v with
    | num kind =>
      have hisRef : a.isRef = b.isRef := by
        simp only [isRef, isConcreteRef, hkind, hconcrete]
      rw [isRef_of_isNullable hnull, hv.1] at hisRef
      cases hisRef
    | null => exact hnull
    | func f => simpa only [HasType, hkind, hconcrete] using hv
    | external | exn => simpa only [HasType, hkind, hconcrete] using hv
  · cases v with
    | num kind =>
      have := hv.1
      rw [isRef_of_concrete hi] at this
      cases this
    | null => exact hnull hv
    | func f =>
      simp only [HasType, hi] at hv
      simp only [HasType, hj]
      exact hv.trans hequiv.typeEquiv
    | external | exn =>
      have := hv.1
      rw [hi] at this
      cases this
  · cases v with
    | num kind =>
      have := hv.1
      rw [isRef_of_concrete hi] at this
      cases this
    | null => exact hnull hv
    | func f => simpa only [HasType, hb] using hkind
    | external | exn =>
      have := hv.1
      rw [hi] at this
      cases this

/-- Pairwise subtypes, as the checks compare them. -/
def Subtypes (types : List FunctionType) : List ValueType → List ValueType → Prop :=
  List.Forall₂ fun a b => isRefSubtypeOf types a b = .ok true

variable {values : List Value} {as : List ValueType} {bs : List ValueType}

theorem Typed.subsume (hwf : WellFormedTypes types)
    (hvalues : Typed types values as) (h : Subtypes types as bs) : Typed types values bs := by
  induction hvalues generalizing bs with
  | nil =>
    cases h
    exact .nil
  | cons hv _ ih =>
    cases h with
    | cons hab hrest => exact .cons (hasType_of_isRefSubtypeOf hwf hab hv) (ih hrest)

theorem Typed.append {xs ys : List Value} (hxs : Typed types xs as)
    (hys : Typed types ys bs) : Typed types (xs ++ ys) (as ++ bs) := by
  induction hxs with
  | nil => exact hys
  | cons hv _ ih => exact .cons hv ih

theorem Typed.split (h : Typed types values (as ++ bs)) :
    Typed types (values.take as.length) as ∧ Typed types (values.drop as.length) bs := by
  induction as generalizing values with
  | nil => exact ⟨.nil, h⟩
  | cons a as ih =>
    cases h with
    | cons hv hrest =>
      obtain ⟨hxs, hys⟩ := ih hrest
      exact ⟨.cons hv hxs, hys⟩

theorem Typed.split_of_length {xs ys : List Value}
    (h : Typed types (xs ++ ys) (as ++ bs)) (hlength : xs.length = as.length) :
    Typed types xs as ∧ Typed types ys bs := by
  have := Typed.split h
  rwa [← hlength, take_left', drop_left'] at this <;> rfl

theorem Typed.length_eq (h : Typed types values as) : values.length = as.length :=
  List.Forall₂.length_eq h

theorem HasType.isRef (h : HasType types v t) (ht : t.isRef = true) : v.isRef = true := by
  cases v with
  | num kind =>
    have := h.1
    rw [ht] at this
    cases this
  | _ => rfl

theorem HasType.asNonNullable (h : HasType types v t)
    (ht : t.isRef = true) (hv : v ≠ .null) : HasType types v t.asNonNullable := by
  cases v with
  | num kind =>
    have := h.1
    rw [ht] at this
    cases this
  | null => exact absurd rfl hv
  | func f => exact h
  | external | exn => exact h

theorem ne_unknown_of_proper (h : t.Proper) : t ≠ unknown := by
  rintro rfl
  revert h
  decide

theorem unknown_notMem {ts : List ValueType} (h : ∀ t ∈ ts, t.Proper) : unknown ∉ ts :=
  fun hmem => ne_unknown_of_proper (h _ hmem) rfl

theorem hasType_default (h : t.Proper) (ht : t.isRef = true → t.isNullable = true) :
    HasType types (.default t) t := by
  unfold Value.default
  split
  next href => exact ht href
  next href =>
    rcases h with h | h
    · exact absurd h href
    · refine ⟨by simpa using href, ?_⟩
      simp only [mem_cons, not_mem_nil, or_false] at h
      rcases h with rfl | rfl | rfl | rfl | rfl <;> rfl

end Andsifr.Execution
