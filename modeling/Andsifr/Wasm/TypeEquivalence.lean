import Andsifr.Lib.Check
import Andsifr.Wasm.Module
import Mathlib.Data.Finset.Prod

namespace Andsifr.Wasm

open Lib List Check

def sub32 (a b : Nat) : Nat :=
  (a + 2 ^ 32 - b) % 2 ^ 32

/-- The group pairs already under comparison. -/
abbrev Visited := List (Index × Index)

/-- Visits the items in turn until one comparison fails. A failed comparison is `none`: it fails
every comparison it is part of, so the pairs it has added are not read again. -/
def allEquivalent {α : Type} (compare : Visited → α → Check (Option Visited)) :
    Visited → List α → Check (Option Visited)
  | visited, [] => pure (some visited)
  | visited, a :: as => do
    match ← compare visited a with
    | none => pure none
    | some visited => allEquivalent compare visited as

variable (types : List FunctionType)

def groupOf (t : Index) : Check (Index × Nat) := do
  let ft ← index types t
  if ft.recGroupSize ≤ 1 then return (t, 1)
  else return (sub32 t ft.recGroupPosition, ft.recGroupSize)

def valueTypesEquivalent (functionTypes : Visited → Index → Index → Check (Option Visited))
    (visited : Visited) (pair : ValueType × ValueType) : Check (Option Visited) :=
  match pair.1.concrete, pair.2.concrete with
  | some i, some j =>
    if pair.1.isNullable ≠ pair.2.isNullable then pure none else functionTypes visited i j
  | _, _ => pure (if pair.1 = pair.2 then some visited else none)

/-- The type sections of the two modules of a comparison, and whether they are the same module. -/
structure TypeEquivalenceCtx where
  mx : List FunctionType
  my : List FunctionType
  same : Bool

namespace TypeEquivalenceCtx

variable (c : TypeEquivalenceCtx)

/-- One round of the loop over the members of two groups. -/
def membersEquivalent
    (functionTypes : Visited → Index → Index → Check (Option Visited)) (gxs gys : Index)
    (visited : Visited) (i : Nat) : Check (Option Visited) := do
  let ftx ← index c.mx ((gxs + i) % 2 ^ 32)
  let fty ← index c.my ((gys + i) % 2 ^ 32)
  if ftx.params.length ≠ fty.params.length ∨ ftx.results.length ≠ fty.results.length then
    return none
  else
    allEquivalent (valueTypesEquivalent functionTypes) visited
      (ftx.params.zip fty.params ++ ftx.results.zip fty.results)

def functionTypesEquivalent :
    (fuel : Nat) → Visited → Index → Index → Check (Option Visited)
  | 0, _, _, _ => outOfFuel
  | fuel + 1, visited, x, y =>
    if x = y ∧ c.same then pure (some visited)
    else do
      let (gxs, gxsSize) ← groupOf c.mx x
      let (gys, gysSize) ← groupOf c.my y
      if gxsSize ≠ gysSize then return none
      else if sub32 x gxs ≠ sub32 y gys then return none
      else if (gxs, gys) ∈ visited then return some visited
      else
        allEquivalent (c.membersEquivalent (functionTypesEquivalent fuel) gxs gys)
          ((gxs, gys) :: visited) (range gxsSize)

/-- A nested comparison visits a new pair of groups. -/
def fuel : Nat :=
  c.mx.length * c.my.length + 1

def structurallyEquivalent (x y : Index) : Check Bool :=
  if c.mx.length ≤ x ∨ c.my.length ≤ y then pure false
  else do
    let visited ← c.functionTypesEquivalent c.fuel [] x y
    return visited.isSome

end TypeEquivalenceCtx

def structurallyEquivalentTypes : Index → Index → Check Bool :=
  TypeEquivalenceCtx.structurallyEquivalent ⟨types, types, true⟩

def isRefSubtypeOf (actual expected : ValueType) : Check Bool :=
  if actual = expected then pure true
  else if actual.asNullable = expected.asNullable ∧ expected.isNullable then pure true
  else if actual.isConcreteRef ∧ expected.isConcreteRef then
    if actual.isNullable ∧ ¬ expected.isNullable then pure false
    else structurallyEquivalentTypes types actual.typeIndex expected.typeIndex
  else pure (actual.isConcreteRef && !expected.isConcreteRef &&
    expected.kind == ValueType.funcref.kind && (!actual.isNullable || expected.isNullable))

def areRefTypesCompatible (a b : ValueType) : Check Bool := do
  if ← isRefSubtypeOf types a b then return true
  else isRefSubtypeOf types b a

structure Source where
  address : Nat
  module : Module

def typeEquivalenceCtx (mx my : Source) : TypeEquivalenceCtx :=
  ⟨mx.module.typeSection, my.module.typeSection, mx.address = my.address⟩

def structurallyEquivalentTypesAcrossModules (mx my : Source) : Index → Index → Check Bool :=
  (typeEquivalenceCtx mx my).structurallyEquivalent

def isRefSubtypeOfAcrossModules (ma me : Source) (actual expected : ValueType) : Check Bool :=
  if actual.isConcreteRef ∨ expected.isConcreteRef then
    if actual.isConcreteRef ∧ expected.isConcreteRef then
      if actual.isNullable ∧ ¬ expected.isNullable then pure false
      else structurallyEquivalentTypesAcrossModules ma me actual.typeIndex expected.typeIndex
    else pure (actual.isConcreteRef && expected.kind == ValueType.funcref.kind &&
      (!actual.isNullable || expected.isNullable))
  else isRefSubtypeOf ma.module.typeSection actual expected

/-- What decoding guarantees of a type section: every concrete reference in a type is in range, and
the members of a recursion group lie together. -/
structure WellFormedTypes (types : List FunctionType) : Prop where
  count : types.length < 2 ^ 32
  concrete : ∀ ft ∈ types, ∀ v ∈ ft.params ++ ft.results, ∀ i, v.concrete = some i →
    i < types.length
  group : ∀ (t : Nat) (ft : FunctionType), types[t]? = some ft → 1 < ft.recGroupSize →
    ft.recGroupPosition < ft.recGroupSize ∧ ft.recGroupPosition ≤ t ∧ ∀ k < ft.recGroupSize,
      ∃ member : FunctionType, types[t - ft.recGroupPosition + k]? = some member ∧
        member.recGroupSize = ft.recGroupSize

/-- The pairs of a comparison of `n` types with `m`, each visited once. -/
structure Visited.Valid (n m : Nat) (visited : Visited) : Prop where
  nodup : visited.Nodup
  bound : ∀ p ∈ visited, p.1 < n ∧ p.2 < m

theorem Visited.Valid.nil (n m : Nat) : Visited.Valid n m [] :=
  ⟨nodup_nil, by simp⟩

theorem Visited.Valid.cons {n m : Nat} {visited : Visited} (h : visited.Valid n m)
    {p : Index × Index} (hp : p ∉ visited) (hbound : p.1 < n ∧ p.2 < m) :
    Visited.Valid n m (p :: visited) := by
  refine ⟨nodup_cons.mpr ⟨hp, h.nodup⟩, ?_⟩
  rintro q (_ | ⟨_, hq⟩)
  · exact hbound
  · exact h.bound q hq

theorem Visited.Valid.length_le {n m : Nat} {visited : Visited} (h : visited.Valid n m) :
    visited.length ≤ n * m := by
  have hsub : visited.toFinset ⊆ Finset.range n ×ˢ Finset.range m := by
    intro p hp
    simpa using h.bound p (mem_toFinset.mp hp)
  have hcard := Finset.card_le_card hsub
  rwa [toFinset_card_of_nodup h.nodup, Finset.card_product, Finset.card_range,
    Finset.card_range] at hcard

variable {types : List FunctionType}

/-- The group of a type in range: the type alone, or the group that its position says it is in. -/
theorem WellFormedTypes.groupOf_eq (h : WellFormedTypes types) {t : Nat}
    {ft : FunctionType} (ht : types[t]? = some ft) :
    (ft.recGroupSize ≤ 1 ∧ groupOf types t = .ok (t, 1)) ∨ (1 < ft.recGroupSize ∧
        groupOf types t = .ok (t - ft.recGroupPosition, ft.recGroupSize)) := by
  unfold Wasm.groupOf
  rw [index_eq_ok_iff.mpr ht]
  simp only [bind_ok]
  split
  next hsize => exact .inl ⟨hsize, rfl⟩
  next hsize =>
    obtain ⟨-, hpos, -⟩ := h.group t ft ht (by omega)
    have hlt := (List.getElem?_eq_some_iff.mp ht).1
    have := h.count
    have hstart : sub32 t ft.recGroupPosition = t - ft.recGroupPosition := by
      unfold sub32
      omega
    rw [hstart]
    exact .inr ⟨by omega, rfl⟩

theorem WellFormedTypes.groupOf (h : WellFormedTypes types) {t : Nat} (ht : t < types.length) :
    ∃ start size : Nat, Wasm.groupOf types t = .ok (start, size) ∧ start < types.length ∧
      start + size ≤ types.length := by
  have hft := getElem?_eq_getElem ht
  rcases h.groupOf_eq hft with ⟨-, hgroup⟩ | ⟨hsize, hgroup⟩
  · exact ⟨t, 1, hgroup, ht, by omega⟩
  · obtain ⟨-, -, hmembers⟩ := h.group t _ hft hsize
    obtain ⟨member, hmember, -⟩ := hmembers (types[t].recGroupSize - 1) (by omega)
    have := (List.getElem?_eq_some_iff.mp hmember).1
    exact ⟨_, _, hgroup, by omega, by omega⟩

theorem groupSize_eq (h : WellFormedTypes types) {x y g n m : Nat}
    (hx : groupOf types x = .ok (g, n)) (hy : groupOf types y = .ok (g, m)) :
    n = m := by
  have hft {t start size : Nat} (ht : groupOf types t = .ok (start, size)) :
      ∃ first, types[start]? = some first ∧ size = max first.recGroupSize 1 := by
    obtain ⟨ft, hft, -⟩ := bind_inv ht
    have hft := index_eq_ok_iff.mp hft
    rcases h.groupOf_eq hft with ⟨hsize, hgroup⟩ | ⟨hsize, hgroup⟩ <;> rw [ht]
      at hgroup <;> cases hgroup
    · exact ⟨ft, hft, by omega⟩
    · obtain ⟨-, -, hmembers⟩ := h.group t ft hft hsize
      obtain ⟨first, hfirst, hsame⟩ := hmembers 0 (by omega)
      exact ⟨first, hfirst, by omega⟩
  obtain ⟨first, hfirst, hn⟩ := hft hx
  obtain ⟨first', hfirst', hm⟩ := hft hy
  rw [hfirst] at hfirst'
  cases hfirst'
  omega

end Andsifr.Wasm
