import Mathlib.Data.List.Basic

namespace Andsifr.Lib.Flow

variable {I A : Type*}

/-- The facts at the end of straight code that is entered with the facts `a`, if execution can get
there. `next` gives the facts behind an instruction, if execution can go on behind it. -/
def exitFacts (next : A → I → Option A) : A → List I → Option A
  | a, [] => some a
  | a, i :: is => (next a i).bind fun a' => exitFacts next a' is

/-- Every instruction of the code may stand where it is when the code is entered with the facts. -/
def Flows (ok : A → I → Prop) (next : A → I → Option A) : A → List I → Prop
  | _, [] => True
  | a, i :: is => ok a i ∧ ∀ a', next a i = some a' → Flows ok next a' is

variable {ok ok' : A → I → Prop} {next : A → I → Option A} {a a' : A} {i : I} {is js : List I}

@[simp]
theorem exitFacts_nil : exitFacts next a ([] : List I) = some a :=
  rfl

@[simp]
theorem exitFacts_cons :
    exitFacts next a (i :: is) = (next a i).bind fun a' => exitFacts next a' is :=
  rfl

@[simp]
theorem flows_nil : Flows ok next a [] :=
  trivial

theorem flows_cons :
    Flows ok next a (i :: is) ↔ ok a i ∧ ∀ a', next a i = some a' → Flows ok next a' is :=
  Iff.rfl

@[simp]
theorem flows_singleton : Flows ok next a [i] ↔ ok a i := by
  simp [flows_cons]

theorem exitFacts_append :
    exitFacts next a (is ++ js) = (exitFacts next a is).bind fun a' => exitFacts next a' js := by
  induction is generalizing a with
  | nil => rfl
  | cons i is ih => simp [ih, Option.bind_assoc]

theorem flows_append : Flows ok next a (is ++ js) ↔
      Flows ok next a is ∧ ∀ a', exitFacts next a is = some a' → Flows ok next a' js := by
  induction is generalizing a with
  | nil => simp
  | cons i is ih =>
    simp only [List.cons_append, flows_cons, ih, exitFacts_cons, Option.bind_eq_some_iff]
    constructor
    · rintro ⟨hok, h⟩
      refine ⟨⟨hok, fun b hb => (h b hb).1⟩, ?_⟩
      rintro e ⟨b, hb, he⟩
      exact (h b hb).2 e he
    · rintro ⟨⟨hok, h⟩, htail⟩
      exact ⟨hok, fun b hb => ⟨h b hb, fun e he => htail e ⟨b, hb, he⟩⟩⟩

theorem Flows.get {n : Nat} (h : Flows ok next a is)
    (hexit : exitFacts next a (is.take n) = some a') (hi : is[n]? = some i) : ok a' i := by
  have hsplit : is = is.take n ++ i :: is.drop (n + 1) := by
    obtain ⟨hn, rfl⟩ := List.getElem?_eq_some_iff.1 hi
    rw [List.getElem_cons_drop hn, List.take_append_drop]
  rw [hsplit, flows_append] at h
  exact (h.2 a' hexit).1

theorem exitFacts_take_succ {n : Nat} (hi : is[n]? = some i) : exitFacts next a (is.take (n + 1)) =
      (exitFacts next a (is.take n)).bind fun a' => next a' i := by
  rw [List.take_add_one, hi, exitFacts_append]
  simp

theorem Flows.congr (h : Flows ok next a is) (hok : ∀ a, ∀ i ∈ is, ok a i → ok' a i) :
    Flows ok' next a is := by
  induction is generalizing a with
  | nil => trivial
  | cons i is ih =>
    refine ⟨hok a i (by simp) h.1, fun a' ha' => ?_⟩
    exact ih (h.2 a' ha') fun a j hj => hok a j (by simp [hj])

end Andsifr.Lib.Flow
