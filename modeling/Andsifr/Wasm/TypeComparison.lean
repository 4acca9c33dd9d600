import Andsifr.Wasm.TypeEquiv

namespace Andsifr.Wasm

open Lib ValueType Check

/-- A type of one of the modules, which are known by their addresses. -/
structure DeclaredType (modules : Nat → Module) where
  module : Nat
  index : Index
  declared : index < (modules module).typeSection.length

namespace DeclaredType

variable {modules : Nat → Module}

/-- The comparison of two types, with nothing visited yet. -/
def compare (x y : DeclaredType modules) : Check (Option Visited) :=
  let c := typeEquivalenceCtx ⟨x.module, modules x.module⟩ ⟨y.module, modules y.module⟩
  c.functionTypesEquivalent c.fuel [] x.index y.index

/-- The unfoldings of the types agree. -/
def Agree (x y : DeclaredType modules) : Prop :=
  Bisimilar (modules x.module).typeSection (modules y.module).typeSection x.index y.index

variable (hwf : ∀ p, WellFormedTypes (modules p).typeSection) {x y : DeclaredType modules}

include hwf

theorem compare_decides (x y : DeclaredType modules) :
    ∃ visited, x.compare y = .ok visited ∧ (visited.isSome = true ↔ x.Agree y) := by
  refine functionTypesEquivalent_decides (hwf _) (hwf _) (fun hsame => ?_) x.declared y.declared
  have hsame : x.module = y.module := of_decide_eq_true hsame
  change (modules x.module).typeSection = (modules y.module).typeSection
  rw [hsame]

theorem compare_eq_some_iff : (∃ visited, x.compare y = .ok (some visited)) ↔ x.Agree y := by
  obtain ⟨visited, hvisited, hiff⟩ := compare_decides hwf x y
  rw [hvisited, ← hiff, Option.isSome_iff_exists]
  simp

end DeclaredType

theorem isRefSubtypeOfAcrossModules_self (m : Source) {a e : ValueType}
    (hin : ∀ i, a.concrete = some i ∨ e.concrete = some i → i < m.module.typeSection.length) :
    isRefSubtypeOfAcrossModules m m a e = isRefSubtypeOf m.module.typeSection a e := by
  have hacross (x y : Index) : structurallyEquivalentTypesAcrossModules m m x y =
      structurallyEquivalentTypes m.module.typeSection x y := by
    simp only [structurallyEquivalentTypesAcrossModules, structurallyEquivalentTypes,
      typeEquivalenceCtx, decide_true]
  have hself (i : Nat) (hi : i < m.module.typeSection.length) :
      structurallyEquivalentTypes m.module.typeSection i i = .ok true := by
    simp [structurallyEquivalentTypes, TypeEquivalenceCtx.structurallyEquivalent,
      TypeEquivalenceCtx.fuel, TypeEquivalenceCtx.functionTypesEquivalent, not_le.2 hi]
    rfl
  unfold isRefSubtypeOfAcrossModules isRefSubtypeOf
  by_cases hsame : a.asNullable = e.asNullable
  · have hconcrete : a.asNullable.concrete = e.asNullable.concrete := congrArg concrete hsame
    change a.concrete = e.concrete at hconcrete
    cases he : e.concrete with
    | none => simp [isConcreteRef, hconcrete, he]
    | some i =>
      have hi := hself i (hin i (.inr he))
      by_cases heq : a = e
      · simp [isConcreteRef, typeIndex, heq, he, hacross, hi]
        rfl
      · cases e.isNullable <;>
          simp [isConcreteRef, typeIndex, hconcrete, heq, hsame, he, hacross, hi]
        rfl
  · have hne : a ≠ e := fun heq => hsame (heq ▸ rfl)
    cases ha : a.concrete <;> cases he : e.concrete <;>
      simp [isConcreteRef, ha, he, hsame, hne, hacross]

/-- The comparison of two types of any modules ends, and it succeeds exactly if their unfoldings
agree. So it is an equivalence; and the subtypes are a preorder, on which a module agrees with
itself. -/
theorem compare_decides_bisimilarity (modules : Nat → Module)
    (hwf : ∀ p, WellFormedTypes (modules p).typeSection) :
    (∀ x y : DeclaredType modules, ∃ visited, x.compare y = .ok visited ∧
      (visited.isSome = true ↔ x.Agree y)) ∧
    Equivalence (fun x y : DeclaredType modules => ∃ visited, x.compare y = .ok (some visited)) ∧
    ∀ p, IsPreorder ValueType (fun a e => isRefSubtypeOf (modules p).typeSection a e = .ok true) ∧
      ∀ a e, (∀ i, a.concrete = some i ∨ e.concrete = some i →
          i < (modules p).typeSection.length) →
        isRefSubtypeOfAcrossModules ⟨p, modules p⟩ ⟨p, modules p⟩ a e =
          isRefSubtypeOf (modules p).typeSection a e := by
  simp only [DeclaredType.compare_eq_some_iff hwf]
  refine ⟨DeclaredType.compare_decides hwf, ⟨?_, .symm, .trans⟩, fun p => ⟨?_, ?_⟩⟩
  · exact fun x => .refl (hwf _) x.declared
  · exact { refl := isRefSubtypeOf_self _, trans := fun _ _ _ => isRefSubtypeOf_trans (hwf p) }
  · exact fun a e => isRefSubtypeOfAcrossModules_self ⟨p, modules p⟩

/-- A module with the type of the functions that take references to such functions. -/
def selfReference : Module where
  typeSection := [⟨[.concreteRef 0 true], [], "", 0, 0⟩]

/-- The type agrees with the one of another such module. -/
theorem agree_selfReference : WellFormedTypes selfReference.typeSection ∧
    (⟨0, 0, by decide⟩ : DeclaredType fun _ => selfReference).Agree ⟨1, 0, by decide⟩ := by
  have hwf : WellFormedTypes selfReference.typeSection := by
    refine ⟨by decide, by simp [selfReference, concreteRef], ?_⟩
    rintro (_ | t) ft ⟨⟩ hsize
    cases hsize
  obtain ⟨visited, hvisited, hiff⟩ :=
    (compare_decides_bisimilarity (fun _ => selfReference) fun _ => hwf).1 _ _
  refine ⟨hwf, hiff.mp ?_⟩
  cases hvisited
  rfl

end Andsifr.Wasm
