import Andsifr.Execution.ApplyData

namespace Andsifr.Execution

open Lib Check Wasm List

/-- The value of an item of an element segment. -/
def itemReference (c : DataContext) (item : ConstantExpression) : Check Nat := do
  let results ← evaluateConstExprInModuleInstance item (c.globals.map some) c.functions
  index results 0

def buildElementInstance (c : DataContext) (elem : ElementSegment) : Check (List Nat) :=
  if elem.type.kind = ValueType.funcref.kind ∧ elem.mode = .passive then
    elem.init.mapM (itemReference c)
  else return []

def buildElementInstances (c : DataContext) : Check (List (List Nat)) :=
  c.source.elementSection.mapM (buildElementInstance c)

structure SegmentInstances where
  elements : List (List Nat)
  data : List (List UInt8)
  deriving DecidableEq, Repr

/-- What an instantiation leaves of the segments, or the error it ends with. -/
def segmentInstances (c : DataContext) (memory : Option AllocatedMemory) :
    Check (Except String SegmentInstances) := do
  let elements ← buildElementInstances c
  let (s, error) ← applyData c memory
  match error with
  | some error => return .error error
  | none => return .ok ⟨elements, s.dataInstances⟩

inductive Engine where
  | interpreter | compiler
  deriving DecidableEq, Repr

/-- Whether `memory.init` or `table.init` traps. The compiled code checks the target first. -/
def initTraps (engine : Engine) (instanceLen targetLen : Nat)
    (copySize inInstance inTarget : UInt32) : Bool :=
  match engine with
  | .interpreter => inInstance.toUInt64 + copySize.toUInt64 > .ofNat instanceLen ||
      inTarget.toUInt64 + copySize.toUInt64 > .ofNat targetLen
  | .compiler => .ofNat targetLen < inTarget.toUInt64 + copySize.toUInt64 ||
      .ofNat instanceLen < inInstance.toUInt64 + copySize.toUInt64

/-- Nothing can be copied from an instance of the length. -/
def TrapsAlways (instanceLen : Nat) : Prop :=
  ∀ engine targetLen copySize inInstance inTarget, copySize ≠ 0 →
    initTraps engine instanceLen targetLen copySize inInstance inTarget = true

/-- A passive segment has its bytes, and an active one has none and makes `memory.init` trap. -/
def DataHeld (d : DataSegment) (bytes : List UInt8) : Prop :=
  bytes = (if d.passive then d.init else []) ∧ (d.passive = false → TrapsAlways bytes.length)

/-- A passive segment has the values of its items, and another one has none and makes `table.init`
trap. -/
def ElementHeld (c : DataContext) (elem : ElementSegment) (refs : List Nat) : Prop :=
  Forall₂ (fun item ref => itemReference c item = .ok ref)
      (if elem.mode = .passive then elem.init else []) refs ∧
    (elem.mode ≠ .passive → TrapsAlways refs.length)

structure SegmentInstances.Hold (c : DataContext) (si : SegmentInstances) : Prop where
  data : Forall₂ DataHeld c.source.dataSection si.data
  elements : Forall₂ (ElementHeld c) c.source.elementSection si.elements

theorem trapsAlways_zero : TrapsAlways 0 := by
  intro engine targetLen copySize inInstance inTarget h
  have hpos : UInt64.ofNat 0 < inInstance.toUInt64 + copySize.toUInt64 := by
    have hne : copySize.toNat ≠ 0 := fun hzero => h (UInt32.toNat_inj.mp hzero)
    have := inInstance.toNat_lt
    have := copySize.toNat_lt
    rw [UInt64.lt_iff_toNat_lt, UInt64.toNat_add, UInt32.toNat_toUInt64, UInt32.toNat_toUInt64]
    show 0 < _
    omega
  cases engine with
  | interpreter => exact Bool.or_eq_true_iff.mpr (.inl (decide_eq_true hpos))
  | compiler => exact Bool.or_eq_true_iff.mpr (.inr (decide_eq_true hpos))

variable {c : DataContext}

theorem dataInstances_applyActive {skipCopy : Bool} {i : Nat} {d : DataSegment}
    {s s' : DataState} (h : applyActive c skipCopy i d s = .ok (.next s')) :
    s'.dataInstances = s.dataInstances := by
  obtain ⟨offset, -, h⟩ := bind_inv h
  split at h
  · cases h
  split at h
  · cases h
  split_ifs at h
  · cases h
  · cases h
    rfl
  · obtain ⟨buffer, -, h⟩ := bind_inv h
    cases h
    rfl

/-- The loop sets the data instances one after the other, those of active segments too. -/
theorem dataInstances_applySegments {skipCopy : Bool} {data : List DataSegment} {i : Nat}
    {s s' : DataState} (hlen : s.dataInstances.length = i + data.length)
    (h : applySegments c skipCopy i data s = .ok (s', none)) :
    s'.dataInstances = s.dataInstances.take i ++ data.map DataSegment.init := by
  induction data generalizing i s with
  | nil =>
    cases h
    rw [map_nil, append_nil, take_of_length_le (by simp at hlen; omega)]
  | cons d data ih =>
    have hnext {s₁ : DataState} (hsame : s₁.dataInstances = s.dataInstances.set i d.init)
        (h : applySegments c skipCopy (i + 1) data s₁ = .ok (s', none)) :
        s'.dataInstances = s.dataInstances.take i ++ (d :: data).map DataSegment.init := by
      rw [length_cons] at hlen
      have htake : (s.dataInstances.set i d.init).take (i + 1) =
          s.dataInstances.take i ++ [d.init] := by
        rw [take_add_one, take_set_of_le (le_refl i), getElem?_set_self (by omega)]
        rfl
      rw [ih (by rw [hsame, length_set]; omega) h, hsame, htake, append_assoc]
      rfl
    rw [applySegments] at h
    split at h
    · exact hnext rfl h
    · obtain ⟨after, hactive, h⟩ := bind_inv h
      cases after with
      | next s₁ => exact hnext (dataInstances_applyActive hactive) h
      | done => cases h

theorem dataInstances_applyData {memory : Option AllocatedMemory} {s : DataState}
    (h : applyData c memory = .ok (s, none)) :
    s.dataInstances = c.source.dataSection.map DataSegment.init := by
  unfold applyData at h
  split at h <;> exact (dataInstances_applySegments (by simp) h).trans (by simp)

theorem segmentInstances_eq_ok {memory : Option AllocatedMemory} {si : SegmentInstances}
    (h : segmentInstances c memory = .ok (.ok si)) :
    Forall₂ (fun elem refs => buildElementInstance c elem = .ok refs) c.source.elementSection
      si.elements ∧ si.data = c.source.dataSection.map DataSegment.init := by
  obtain ⟨elements, helements, h⟩ := bind_inv h
  obtain ⟨⟨s, error⟩, hdata, h⟩ := bind_inv h
  cases error with
  | some => cases h
  | none =>
    cases h
    exact ⟨mapM_eq_ok_iff.mp helements, dataInstances_applyData hdata⟩

theorem dataHeld_iff (d : DataSegment) : DataHeld d d.init ↔ (d.passive = false → d.init = []) := by
  rw [DataHeld]
  cases d.passive with
  | true => simp
  | false =>
    refine ⟨fun h _ => h.1, fun h => ⟨h rfl, fun _ => ?_⟩⟩
    rw [h rfl]
    exact trapsAlways_zero

theorem elementHeld_iff {elem : ElementSegment} {refs : List Nat}
    (h : buildElementInstance c elem = .ok refs) :
    ElementHeld c elem refs ↔
      (elem.mode = .passive → elem.type.kind ≠ ValueType.funcref.kind → elem.init = []) := by
  rw [ElementHeld]
  by_cases hmode : elem.mode = .passive
  · by_cases hkind : elem.type.kind = ValueType.funcref.kind
    · rw [buildElementInstance, if_pos ⟨hkind, hmode⟩, mapM_eq_ok_iff] at h
      simp [hmode, hkind, h]
    · rw [buildElementInstance, if_neg fun h => hkind h.1] at h
      cases h
      simp [hmode, hkind]
  · rw [buildElementInstance, if_neg fun h => hmode h.2] at h
    cases h
    simp [hmode, trapsAlways_zero]

theorem forall₂_iff_of_imp {α β : Type} {R Q : α → β → Prop} {p : α → Prop} {as : List α}
    {bs : List β} (h : Forall₂ R as bs) (hiff : ∀ a b, R a b → (Q a b ↔ p a)) :
    Forall₂ Q as bs ↔ ∀ a ∈ as, p a := by
  induction h with
  | nil => simp
  | cons hab _ ih => rw [forall₂_cons, forall_mem_cons, ih, hiff _ _ hab]

/-- The instances are right exactly if no active data segment has bytes, which stay there, and if
the passive element segments with items are segments of functions. -/
theorem segmentInstances_hold_iff (c : DataContext) (memory : Option AllocatedMemory)
    (si : SegmentInstances) (h : segmentInstances c memory = .ok (.ok si)) :
    si.Hold c ↔ (∀ d ∈ c.source.dataSection, d.passive = false → d.init = []) ∧
      ∀ elem ∈ c.source.elementSection, elem.mode = .passive →
        elem.type.kind ≠ ValueType.funcref.kind → elem.init = [] := by
  obtain ⟨helements, hdata⟩ := segmentInstances_eq_ok h
  have hdata' : Forall₂ (fun d bytes => bytes = d.init) c.source.dataSection si.data := by
    rw [hdata, forall₂_map_right_iff, forall₂_same]
    exact fun _ _ => rfl
  refine Iff.trans ⟨fun h => ⟨h.data, h.elements⟩, fun h => ⟨h.1, h.2⟩⟩ (and_congr ?_ ?_)
  · exact forall₂_iff_of_imp hdata' fun d bytes h => by rw [h, dataHeld_iff]
  · exact forall₂_iff_of_imp helements fun _ _ h => elementHeld_iff h

/-- A passive segment of a function and a null reference, an active one, and data segments of both
kinds. -/
def severalSegments : DataContext where
  source :=
    { elementSection := [⟨{}, 0, [⟨[0xd2, 1, 0x0b]⟩, ⟨[0xd0, 0x70, 0x0b]⟩], .funcref, .passive⟩,
        ⟨⟨[0x41, 0, 0x0b]⟩, 0, [⟨[0xd2, 0, 0x0b]⟩], .funcref, .active⟩]
      dataSection := [⟨{}, [1, 2, 3], true⟩, ⟨⟨[0x41, 0, 0x0b]⟩, [], false⟩] }
  id := []
  willRunStartFunctions := false
  globals := []
  functions := [16, 32]

theorem segmentInstances_hold_several : ∃ memory,
    segmentInstances severalSegments memory = .ok (.ok ⟨[[32, 0], []], [[1, 2, 3], []]⟩) ∧
      SegmentInstances.Hold severalSegments ⟨[[32, 0], []], [[1, 2, 3], []]⟩ := by
  have hbuilt : segmentInstances severalSegments (some ⟨⟨.ofList [], 0, 0, false⟩, 0, none⟩) =
      .ok (.ok ⟨[[32, 0], []], [[1, 2, 3], []]⟩) := rfl
  refine ⟨_, hbuilt, (segmentInstances_hold_iff _ _ _ hbuilt).mpr ⟨?_, ?_⟩⟩ <;>
    simp [severalSegments]

/-- A module with a passive segment of one null reference of the given type. -/
def passiveNull (t : ValueType) : DataContext where
  source := { elementSection := [⟨{}, 0, [⟨[0xd0, t.kind, 0x0b]⟩], t, .passive⟩] }
  id := []
  willRunStartFunctions := false
  globals := []
  functions := []

/-- The passive segment of an external reference has no items. -/
theorem passive_externref_is_dropped : ∃ si,
    segmentInstances (passiveNull .externref) none = .ok (.ok si) ∧ ¬ si.Hold
    (passiveNull .externref) := by
  refine ⟨⟨[[]], []⟩, rfl, fun hold => ?_⟩
  obtain - | ⟨⟨hitems, -⟩, -⟩ := hold.elements
  cases hitems

end Andsifr.Execution
