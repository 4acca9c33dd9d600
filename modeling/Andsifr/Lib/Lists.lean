import Mathlib.Data.List.Forall2

namespace Andsifr.Lib

open Option

variable {A B : Type} {R : A → B → Prop} {l : List A} {m : List B} {i : Nat} {x x' : A}

theorem exists_of_forall₂ (h : List.Forall₂ R l m) (hx : l[i]? = some x) :
    ∃ y, m[i]? = some y ∧ R x y := by
  induction h generalizing i with
  | nil => simp at hx
  | cons hr _ ih =>
    cases i with
    | zero =>
      cases (show _ = x by simpa using hx)
      exact ⟨_, rfl, hr⟩
    | succ i => simpa using ih (by simpa using hx)

theorem forall₂_set (h : List.Forall₂ R l m) (hx : l[i]? = some x) (hr : ∀ y, R x y → R x' y) :
    List.Forall₂ R (l.set i x') m := by
  induction h generalizing i with
  | nil => exact .nil
  | cons hxy htail ih =>
    cases i with
    | zero =>
      cases (show _ = x by simpa using hx)
      exact .cons (hr _ hxy) htail
    | succ i => exact .cons hxy (ih (by simpa using hx))

theorem mapM_eq_some_iff {f : A → Option B} :
    l.mapM f = some m ↔ List.Forall₂ (fun a b => f a = some b) l m := by
  induction l generalizing m with
  | nil =>
    rw [List.forall₂_nil_left_iff]
    exact ⟨fun h => (Option.some.inj h).symm, fun h => congrArg some h.symm⟩
  | cons a l ih =>
    rw [List.mapM_cons, List.forall₂_cons_left_iff]
    simp only [bind_eq_bind, bind_eq_some_iff, pure_def, Option.some.injEq, ih]
    constructor
    · rintro ⟨b, hb, bs, hbs, rfl⟩
      exact ⟨b, bs, hb, hbs, rfl⟩
    · rintro ⟨b, bs, hb, hbs, rfl⟩
      exact ⟨b, hb, bs, hbs, rfl⟩

theorem getElem?_mono {l m : List A} (h : l <+: m) (hx : l[i]? = some x) : m[i]? = some x := by
  obtain ⟨r, rfl⟩ := h
  rwa [List.getElem?_append_left (List.getElem?_eq_some_iff.1 hx).1]

theorem mem_or_eq_of_mem_modify {f : A → A} (h : x ∈ l.modify i f) :
    x ∈ l ∨ ∃ y ∈ l, f y = x := by
  obtain ⟨k, hk⟩ := List.getElem?_of_mem h
  rw [List.getElem?_modify] at hk
  split at hk
  · obtain ⟨y, hy, rfl⟩ := map_eq_some_iff.1 hk
    exact .inr ⟨y, List.mem_of_getElem? hy, rfl⟩
  · exact .inl (List.mem_of_getElem? (by simpa using hk))

end Andsifr.Lib
