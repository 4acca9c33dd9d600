import Andsifr.Execution.ApplyData

namespace Andsifr.Execution

open Lib Binary Wasm Validation.Module Check Slice Bool List

/-- The contents of a memory after the data segments of a module have been copied into zeros, in an
instance with any imports: this is what an image of the module holds. -/
def IsImage (m : Module) (contents : List UInt8) : Prop :=
  ∃ c : DataContext, c.source = m ∧ ∃ memory : AllocatedMemory,
    memory.buffer.toList = replicate contents.length 0 ∧
    ∃ s error, applySegments c false 0 m.dataSection
        ⟨some memory, replicate m.dataSection.length []⟩ = .ok (s, error) ∧
      s.memory.map (·.buffer.toList) = some contents

/-- What an allocator is to give for a memory of a size: an image that is only declared for the
module it was built from, or else all zeros, which is assumed here and not asked for by the
interface. -/
structure Supplies (memory : LinearMemory) (size : Nat) (m : Module) (id : ModuleID) : Prop where
  len : (memory.reallocate size).len = size
  zeros : memory.preappliedDataFor = none →
    (memory.reallocate size).toList = replicate size 0
  image : ∀ preappliedDataFor, memory.preappliedDataFor = some preappliedDataFor →
    preappliedDataFor id = true → IsImage m (memory.reallocate size).toList

/-- The data segments end up the same whether or not there is an allocator. -/
def SameData (c : DataContext) : Prop :=
  ∀ (imported : Option AllocatedMemory) (allocator : MemoryAllocator),
    (∀ memSec, c.source.memorySection = some memSec →
      Supplies (allocator (memoryPagesToBytesNum memSec.cap) (memoryPagesToBytesNum memSec.max))
        (memoryPagesToBytesNum memSec.min) c.source c.id) →
    dataOutcome c imported (some allocator) = dataOutcome c imported none

section Loop

variable {c c' : DataContext}

theorem copyAt_congr {α : Type} {s s' : Slice α} (h : s.toList = s'.toList) (lo : Nat)
    (xs : List α) :
    (∃ t t', s.copyAt lo xs = .ok t ∧ s'.copyAt lo xs = .ok t' ∧ t.toList = t'.toList) ∨
      ∃ e, s.copyAt lo xs = .error e ∧ s'.copyAt lo xs = .error e := by
  have hlen : s.len = s'.len := by rw [← length_toList, h, length_toList]
  have heq : (s.copyAt lo xs).map toList = (s'.copyAt lo xs).map toList := by
    rw [map_toList_copyAt, map_toList_copyAt, h, hlen]
  cases hcopy : s.copyAt lo xs with
  | error e =>
    cases hcopy' : s'.copyAt lo xs with
    | error e' =>
      rw [hcopy, hcopy'] at heq
      cases heq
      exact .inr ⟨e, rfl, rfl⟩
    | ok t' =>
      rw [hcopy, hcopy'] at heq
      cases heq
  | ok t =>
    cases hcopy' : s'.copyAt lo xs with
    | error e' =>
      rw [hcopy, hcopy'] at heq
      cases heq
    | ok t' =>
      rw [hcopy, hcopy'] at heq
      exact .inl ⟨t, t', rfl, rfl, Except.ok.inj heq⟩

/-- The states show the same. -/
structure DataState.Alike (s s' : DataState) : Prop where
  contents : s.memory.map (·.buffer.toList) = s'.memory.map (·.buffer.toList)
  dataInstances : s.dataInstances = s'.dataInstances

variable {s' : DataState}

theorem DataState.Alike.outcome {s s' : DataState} (h : s.Alike s') (error : Option String) :
    s.outcome error = s'.outcome error := by
  rw [DataState.outcome, DataState.outcome, h.contents, h.dataInstances]

/-- What the loop shows after a segment, if the states are alike. -/
inductive AfterSegment.Alike : AfterSegment → AfterSegment → Prop
  | next {s s' : DataState} : s.Alike s' → Alike (.next s) (.next s')
  | done {s s' : DataState} {error : String} : s.Alike s' → Alike (.done s error) (.done s' error)

theorem applyActive_congr {d : DataSegment} {s s' : DataState} (i : Nat)
    (hoffset : dataOffset c d = dataOffset c' d) (h : s.Alike s') :
    (∃ a a', applyActive c false i d s = .ok a ∧
      applyActive c' false i d s' = .ok a' ∧ a.Alike a') ∨
      ∃ e, applyActive c false i d s = .error e ∧ applyActive c' false i d s' = .error e := by
  rw [applyActive, applyActive, hoffset]
  cases dataOffset c' d with
  | error e => exact .inr ⟨e, rfl, rfl⟩
  | ok offset =>
    simp only [bind_ok]
    by_cases hneg : offset < 0
    · rw [if_pos hneg, if_pos hneg]
      exact .inl ⟨_, _, rfl, rfl, .done h⟩
    rw [if_neg hneg, if_neg hneg]
    have hcontents := h.contents
    cases hmem : s.memory with
    | none =>
      cases hmem' : s'.memory with
      | none => exact .inr ⟨_, rfl, rfl⟩
      | some m' =>
        rw [hmem, hmem'] at hcontents
        cases hcontents
    | some m =>
      cases hmem' : s'.memory with
      | none =>
        rw [hmem, hmem'] at hcontents
        cases hcontents
      | some m' =>
        rw [hmem, hmem'] at hcontents
        have hcontents : m.buffer.toList = m'.buffer.toList := Option.some.inj hcontents
        have hlen : m.buffer.len = m'.buffer.len := by
          rw [← length_toList, hcontents, length_toList]
        simp only [hlen, false_eq_true, if_false]
        split
        next => exact .inl ⟨_, _, rfl, rfl, .done h⟩
        obtain ⟨t, t', ht, ht', htoList⟩ | ⟨e, he, he'⟩ :=
          copyAt_congr hcontents offset.toNat d.init
        · rw [ht, ht']
          exact .inl ⟨_, _, rfl, rfl, .next ⟨congrArg some htoList, h.dataInstances⟩⟩
        · rw [he, he']
          exact .inr ⟨e, rfl, rfl⟩

theorem map_outcome_applySegments {data : List DataSegment} {s s' : DataState} (i : Nat)
    (hoffset : ∀ d ∈ data, d.passive = false → dataOffset c d = dataOffset c' d) (h : s.Alike s') :
    (applySegments c false i data s).map (fun r => r.1.outcome r.2) =
      (applySegments c' false i data s').map (fun r => r.1.outcome r.2) := by
  induction data generalizing i s s' with
  | nil => exact congrArg Except.ok (h.outcome none)
  | cons d data ih =>
    have hdata : ∀ d ∈ data, d.passive = false → dataOffset c d = dataOffset c' d :=
      fun d hd => hoffset d (mem_cons_of_mem _ hd)
    have hset : { s with dataInstances := s.dataInstances.set i d.init }.Alike
        { s' with dataInstances := s'.dataInstances.set i d.init } :=
      ⟨h.contents, by rw [h.dataInstances]⟩
    rw [applySegments, applySegments]
    cases hpassive : d.passive with
    | true =>
      exact ih (i + 1) hdata hset
    | false =>
      simp only [false_eq_true, if_false]
      obtain ⟨a, a', ha, ha', halike⟩ | ⟨e, he, he'⟩ :=
        applyActive_congr i (hoffset d mem_cons_self hpassive) hset
      · rw [ha, ha']
        cases halike with
        | next h =>
          exact ih (i + 1) hdata h
        | done h =>
          exact congrArg Except.ok (h.outcome _)
      · rw [he, he', bind_error, bind_error]

theorem len_copyAt {α : Type} {s t : Slice α} {lo : Nat} {xs : List α}
    (h : s.copyAt lo xs = .ok t) :
    t.len = s.len := by
  obtain ⟨u, -, h⟩ := bind_inv h
  cases h
  rfl

/-- A segment that is not copied is still checked. -/
theorem applyActive_skip {i : Nat} {d : DataSegment} {s s' : DataState} {a : AfterSegment}
    (h : applyActive c false i d s = .ok a)
    (hlen : s.memory.map (·.buffer.len) = s'.memory.map (·.buffer.len))
    (hinstances : s.dataInstances = s'.dataInstances) :
    (∃ s₁, a = .next s₁ ∧ applyActive c true i d s' = .ok (.next s') ∧
      s₁.memory.map (·.buffer.len) = s'.memory.map (·.buffer.len) ∧
      s₁.dataInstances = s'.dataInstances) ∨
    ∃ s₁ error, a = .done s₁ error ∧ applyActive c true i d s' = .ok (.done s' error) ∧
      s₁.dataInstances = s'.dataInstances := by
  rw [applyActive] at h ⊢
  obtain ⟨offset, hoffset, h⟩ := bind_inv h
  rw [hoffset, bind_ok]
  by_cases hneg : offset < 0
  · rw [if_pos hneg] at h ⊢
    cases h
    exact .inr ⟨s, _, rfl, rfl, hinstances⟩
  rw [if_neg hneg] at h ⊢
  cases hmem : s.memory with
  | none =>
    rw [hmem] at h
    cases h
  | some m =>
    cases hmem' : s'.memory with
    | none =>
      rw [hmem, hmem'] at hlen
      cases hlen
    | some m' =>
      rw [hmem] at h
      have hlen' : m.buffer.len = m'.buffer.len := by
        rw [hmem, hmem'] at hlen
        exact Option.some.inj hlen
      simp only [false_eq_true, if_false, if_true] at h ⊢
      rw [← hlen']
      split at h
      next hout =>
        cases h
        rw [if_pos hout]
        exact .inr ⟨s, _, rfl, rfl, hinstances⟩
      next hin =>
        obtain ⟨buffer, hcopy, h⟩ := bind_inv h
        cases h
        rw [if_neg hin]
        refine .inl ⟨_, rfl, rfl, ?_, hinstances⟩
        exact congrArg some ((len_copyAt hcopy).trans hlen')

/-- Where the copies succeed, the loop without them has the same data instances and error. -/
theorem applySegments_skip {data : List DataSegment} {i : Nat} {s s' s₁ : DataState}
    {error : Option String} (h : applySegments c false i data s = .ok (s₁, error))
    (hlen : s.memory.map (·.buffer.len) = s'.memory.map (·.buffer.len))
    (hinstances : s.dataInstances = s'.dataInstances) :
    applySegments c true i data s' = .ok (⟨s'.memory, s₁.dataInstances⟩, error) := by
  induction data generalizing i s s' with
  | nil =>
    cases h
    rw [hinstances]
    rfl
  | cons d data ih =>
    have hset : s.dataInstances.set i d.init = s'.dataInstances.set i d.init := by rw [hinstances]
    rw [applySegments] at h ⊢
    cases hpassive : d.passive with
    | true =>
      simp only [hpassive, if_true] at h ⊢
      exact @ih (i + 1) _ ⟨s'.memory, s'.dataInstances.set i d.init⟩ h hlen hset
    | false =>
      simp only [hpassive, false_eq_true, if_false] at h ⊢
      obtain ⟨a, ha, h⟩ := bind_inv h
      obtain ⟨s₂, rfl, ha', hlen₂, hinstances₂⟩ | ⟨s₂, message, rfl, ha', hinstances₂⟩ :=
        @applyActive_skip _ _ _ _ ⟨s'.memory, s'.dataInstances.set i d.init⟩ _ ha hlen hset
      · rw [ha']
        exact ih h hlen₂ hinstances₂
      · rw [ha']
        cases h
        rw [hinstances₂]
        rfl

end Loop

theorem toList_clear (s : Slice UInt8) : (clear s).toList = replicate s.len 0 := by
  have heq : (s.overwrite 0 (replicate s.len 0)).toList = _ :=
    toList_overwrite (nil_append s.toList).symm (by simp)
  rw [clear, heq]
  simp

theorem toList_makeBytes {len cap : Nat} (h : len ≤ cap) :
    ∃ s, makeBytes len cap = .ok s ∧ s.toList = replicate len 0 := by
  obtain ⟨s, hs, hlen, harray⟩ := makeBytes_eq_ok h
  refine ⟨s, hs, ?_⟩
  simp [toList, hlen, harray, min_eq_left h]

/-- A module that is accepted has a memory of its own only if it imports none. -/
theorem importMemoryCount_eq_zero {cfg : Config} {binary : List UInt8} {m : Module} {r : Reader}
    {features : CoreFeatures} (h : decodeModule cfg binary = .ok m r)
    (hvalid : validate m features = .ok ()) (hmem : m.memorySection.isSome) :
    m.importMemoryCount = 0 := by
  obtain ⟨d, haccepted⟩ := accepted_of_validate hvalid
  obtain ⟨_, hrequire, -⟩ := bind_inv haccepted.declarations
  rw [require_eq_ok_iff, or_eq_true, Option.isNone_iff_eq_none,
    Option.isNone_iff_eq_none, getLast?_eq_none_iff] at hrequire
  obtain hnone | hnone := hrequire
  · rw [hnone] at hmem
    cases hmem
  · rw [(instanceDecoded_of_decodeModule cfg h).memories, hnone]
    rfl

variable {c : DataContext}

theorem dataOffset_congr {c c' : DataContext} {data : List DataSegment}
    (h : hasImportDependentDataOffsets data = false) :
    ∀ d ∈ data, d.passive = false → dataOffset c d = dataOffset c' d := by
  intro d hd hpassive
  have hglobal : constExprReferencesGlobal d.offsetExpression = false := by
    rw [hasImportDependentDataOffsets, any_eq_false] at h
    simpa [hpassive] using h d hd
  rw [dataOffset, dataOffset, evaluateConstExprInModuleInstance, evaluateConstExprInModuleInstance,
    evaluateConstExpr_congr _ (instanceResolvers (c'.globals.map some) c'.functions) hglobal]

/-- A constant expression without `global.get` has one value, and a module of which the offsets are
such expressions has one image of each size, whatever it is instantiated with. -/
theorem image_unique_without_globals :
    (∀ data resolvers resolvers', resolvers.funcRef = resolvers'.funcRef →
      constExprReferencesGlobal ⟨data⟩ = false →
      evaluateConstExpr ⟨data⟩ resolvers = evaluateConstExpr ⟨data⟩ resolvers') ∧
    ∀ m contents contents', hasImportDependentDataOffsets m.dataSection = false →
      contents.length = contents'.length → IsImage m contents → IsImage m contents' →
      contents = contents' := by
  refine ⟨fun data resolvers resolvers' _ h => evaluateConstExpr_congr resolvers resolvers' h, ?_⟩
  rintro m contents contents' hoffsets hlen ⟨c, -, zeros, hzeros, s, error, hrun, hcontents⟩
    ⟨c', -, zeros', hzeros', s', error', hrun', hcontents'⟩
  have halike : DataState.Alike ⟨some zeros, replicate m.dataSection.length []⟩
      ⟨some zeros', replicate m.dataSection.length []⟩ :=
    ⟨by simp [hzeros, hzeros', hlen], rfl⟩
  have hsame := map_outcome_applySegments 0 (@dataOffset_congr c c' _ hoffsets) halike
  rw [hrun, hrun'] at hsame
  have hsame := congrArg DataOutcome.contents (Except.ok.inj hsame)
  exact Option.some.inj (hcontents.symm.trans (hsame.trans hcontents'))

/-- The offset is 35, and the byte for it is also the opcode of `global.get`. -/
def offset35 : Module :=
  { dataSection := [⟨⟨[0x41, 0x23, 0x0b]⟩, [1, 2], false⟩] }

theorem image_unique_without_globals_offset35 :
    evaluateConstExpr ⟨[0x41, 0x23, 0x0b]⟩ (instanceResolvers [] []) =
        evaluateConstExpr ⟨[0x41, 0x23, 0x0b]⟩ (instanceResolvers [some ⟨⟨.i32, false⟩, 7, 0⟩] []) ∧
      IsImage offset35 (replicate 35 0 ++ [1, 2]) ∧
      ∀ contents, contents.length = 37 → IsImage offset35 contents →
        contents = replicate 35 0 ++ [1, 2] := by
  have himage : IsImage offset35 (replicate 35 0 ++ [1, 2]) :=
    ⟨⟨offset35, [], false, [], []⟩, rfl,
      ⟨⟨.ofList (replicate 37 0), 0, 0, false⟩, 0, none⟩, rfl, _, _, rfl, rfl⟩
  exact ⟨image_unique_without_globals.1 _ _ _ rfl rfl, himage, fun contents hlen h =>
    image_unique_without_globals.2 _ _ _ rfl hlen h himage⟩

theorem dataOutcome_eq {imported memory : Option AllocatedMemory}
    {allocator : Option MemoryAllocator}
    (h : buildMemory c.source imported allocator = .ok memory) :
    dataOutcome c imported allocator = (applyData c memory).map fun r => r.1.outcome r.2 := by
  rw [dataOutcome, h, bind_ok]
  cases applyData c memory <;> rfl

variable {memSec : Memory}

theorem buildMemory_none {m : Module} (imported : Option AllocatedMemory)
    (hmem : m.memorySection = some memSec) (hcap : memSec.min ≤ memSec.cap)
    (hmax : memSec.min ≤ memSec.max) :
    ∃ memory : AllocatedMemory, buildMemory m imported none = .ok (some memory) ∧
      memory.buffer.toList = replicate (memoryPagesToBytesNum memSec.min) 0 ∧
      memory.expBuffer = none := by
  have hle : memoryPagesToBytesNum memSec.min ≤ if memSec.isShared then
      memoryPagesToBytesNum memSec.max else memoryPagesToBytesNum memSec.cap := by
    split <;> exact memoryPagesToBytesNum_le ‹_›
  obtain ⟨buffer, hbuffer, hzeros⟩ := toList_makeBytes hle
  refine ⟨.ofBuffer memSec buffer none, ?_, hzeros, rfl⟩
  rw [buildMemory, hmem]
  simp only [newMemoryInstance, hbuffer, bind_ok]
  rfl

theorem buildMemory_some {m : Module} (imported : Option AllocatedMemory)
    {allocator : MemoryAllocator} (hmem : m.memorySection = some memSec)
    (hlen : ((allocator (memoryPagesToBytesNum memSec.cap)
      (memoryPagesToBytesNum memSec.max)).reallocate
      (memoryPagesToBytesNum memSec.min)).len = memoryPagesToBytesNum memSec.min) :
    ∃ memory : AllocatedMemory, buildMemory m imported (some allocator) = .ok (some memory) ∧
      memory.buffer = (allocator (memoryPagesToBytesNum memSec.cap)
        (memoryPagesToBytesNum memSec.max)).reallocate (memoryPagesToBytesNum memSec.min) ∧
      memory.shared = memSec.isShared ∧
      memory.expBuffer =
        some (allocator (memoryPagesToBytesNum memSec.cap) (memoryPagesToBytesNum memSec.max)) := by
  obtain ⟨t, ht, -⟩ := slice_eq_ok (Nat.zero_le _) (Nat.le_of_eq hlen.symm)
  refine ⟨.ofBuffer memSec _ (some (allocator _ _)), ?_, rfl, rfl, rfl⟩
  rw [buildMemory, hmem]
  simp only [newMemoryInstance, ht, bind_ok]
  rfl

variable {memory : AllocatedMemory}

/-- An image that is used has the same outcome as the copies into zeros. -/
theorem map_outcome_image {memory zeros : AllocatedMemory}
    (hoffsets : hasImportDependentDataOffsets c.source.dataSection = false)
    (himage : IsImage c.source memory.buffer.toList)
    (hzeros : zeros.buffer.toList = replicate memory.buffer.len 0) :
    (applySegments c true 0 c.source.dataSection
      ⟨some memory, replicate c.source.dataSection.length []⟩).map (fun r => r.1.outcome r.2) =
    (applySegments c false 0 c.source.dataSection
      ⟨some zeros, replicate c.source.dataSection.length []⟩).map (fun r => r.1.outcome r.2) := by
  obtain ⟨c', -, zeros', hzeros', s', error, hrun', hcontents⟩ := himage
  have halike : DataState.Alike ⟨some zeros, replicate c.source.dataSection.length []⟩
      ⟨some zeros', replicate c.source.dataSection.length []⟩ := by
    refine ⟨?_, rfl⟩
    rw [Option.map_some, Option.map_some, hzeros, hzeros', length_toList]
  have hsame := map_outcome_applySegments 0 (@dataOffset_congr c c' _ hoffsets) halike
  rw [hrun'] at hsame
  cases hrun : applySegments c false 0 c.source.dataSection
      ⟨some zeros, replicate c.source.dataSection.length []⟩ with
  | error e =>
    rw [hrun] at hsame
    cases hsame
  | ok r =>
    rw [hrun] at hsame
    have hsame : r.1.outcome r.2 = s'.outcome error := Except.ok.inj hsame
    have hlen : zeros.buffer.len = memory.buffer.len := by
      rw [← length_toList, hzeros, length_replicate]
    rw [@applySegments_skip c _ 0 _ ⟨some memory, replicate c.source.dataSection.length []⟩ _ _
      hrun (congrArg some hlen) rfl]
    have hcontents' : r.1.memory.map (·.buffer.toList) = some memory.buffer.toList :=
      (congrArg DataOutcome.contents hsame).trans hcontents
    refine congrArg Except.ok ?_
    simp only [DataState.outcome, hcontents', Option.map_some]

variable {linear : LinearMemory}

theorem usesImage_of_none (hexp : memory.expBuffer = some linear)
    (hpre : linear.preappliedDataFor = none) : usesImage c memory = none := by
  rw [usesImage, hexp, Option.bind_some, hpre]

theorem usesImage_of_some {preappliedDataFor : ModuleID → Bool}
    (hexp : memory.expBuffer = some linear)
    (hpre : linear.preappliedDataFor = some preappliedDataFor) (hshared : memory.shared = false)
    (hown : c.source.importMemoryCount = 0) :
    usesImage c memory = some false ∨
      usesImage c memory = some true ∧ preappliedDataFor c.id = true ∧
        hasImportDependentDataOffsets c.source.dataSection = false := by
  have huses : usesImage c memory = some (!hasImportDependentDataOffsets c.source.dataSection &&
      c.source.startSection.isNone && !c.willRunStartFunctions && preappliedDataFor c.id) := by
    simp only [usesImage, hexp, Option.bind_some, hpre]
    exact if_pos ⟨by rw [hshared]; rfl, hown⟩
  rw [huses]
  cases hb : !hasImportDependentDataOffsets c.source.dataSection && c.source.startSection.isNone &&
      !c.willRunStartFunctions && preappliedDataFor c.id with
  | false => exact .inl rfl
  | true =>
    simp only [and_eq_true, not_eq_true'] at hb
    exact .inr ⟨rfl, hb.2, hb.1.1.1⟩

theorem map_outcome_applyData {memory zeros : AllocatedMemory} {size : Nat}
    (hexp : memory.expBuffer = some linear) (hshared : memory.shared = false)
    (hown : c.source.importMemoryCount = 0) (hbuffer : memory.buffer = linear.reallocate size)
    (hsupply : Supplies linear size c.source c.id)
    (hzeros : zeros.buffer.toList = replicate size 0) :
    (applyData c (some memory)).map (fun r => r.1.outcome r.2) =
      (applySegments c false 0 c.source.dataSection
        ⟨some zeros, replicate c.source.dataSection.length []⟩).map fun r => r.1.outcome r.2 := by
  have hlen : memory.buffer.len = size := by rw [hbuffer, hsupply.len]
  cases hpre : linear.preappliedDataFor with
  | none =>
    rw [applyData, Option.bind_some, usesImage_of_none hexp hpre]
    refine map_outcome_applySegments 0 (fun _ _ _ => rfl) ⟨?_, rfl⟩
    rw [Option.map_some, Option.map_some, hzeros, hbuffer, hsupply.zeros hpre]
  | some preappliedDataFor =>
    obtain huses | ⟨huses, hdeclared, hoffsets⟩ := usesImage_of_some hexp hpre hshared hown
    · rw [applyData, Option.bind_some, huses]
      refine map_outcome_applySegments 0 (fun _ _ _ => rfl) ⟨?_, rfl⟩
      rw [Option.map_some, Option.map_some, Option.map_some, hzeros, toList_clear, hlen]
    · rw [applyData, Option.bind_some, huses]
      refine map_outcome_image hoffsets ?_ (by rw [hzeros, hlen])
      rw [hbuffer]
      exact hsupply.image preappliedDataFor hpre hdeclared

/-- Except for a shared memory, an allocator makes no difference to the data segments. -/
theorem sameData_of_not_shared (cfg : Config) (binary : List UInt8) (m : Module) (r : Reader)
    (hdecode : decodeModule cfg binary = .ok m r) (features : CoreFeatures)
    (hvalid : validate m features = .ok ())
    (hshared : ∀ memSec, m.memorySection = some memSec → memSec.isShared = false) (c : DataContext)
    (hc : c.source = m) : SameData c := by
  subst hc
  intro imported allocator hsupplies
  cases hmem : c.source.memorySection with
  | none => rw [dataOutcome, dataOutcome, buildMemory, buildMemory, hmem]
  | some memSec =>
    have hown := importMemoryCount_eq_zero hdecode hvalid (by rw [hmem]; rfl)
    obtain ⟨hcap, hmax⟩ := (instanceDecoded_of_decodeModule cfg hdecode).limits memSec hmem
    obtain ⟨zeros, hbuild, hzeros, hnone⟩ := buildMemory_none imported hmem hcap hmax
    have hsupply := hsupplies memSec hmem
    obtain ⟨memory, hbuild', hbuffer, hmemShared, hexp⟩ :=
      buildMemory_some imported hmem hsupply.len
    have hnormal : applyData c (some zeros) = applySegments c false 0 c.source.dataSection
        ⟨some zeros, replicate c.source.dataSection.length []⟩ := by
      rw [applyData, Option.bind_some, usesImage, hnone]
      rfl
    rw [dataOutcome_eq hbuild', dataOutcome_eq hbuild, hnormal]
    exact map_outcome_applyData hexp (hmemShared.trans (hshared memSec hmem)) hown hbuffer hsupply
      hzeros

/-- An allocator with an image of the module with the identity `[1]`: the letter a, and zeros. -/
def letterImage : MemoryAllocator := fun _ _ =>
  ⟨fun size => (ofList (replicate size 0)).overwrite 0 [0x61], some (· == [1])⟩

theorem isImage_letterImage {m : Module} {d : DataSegment} {cap max size : Nat}
    (hdata : m.dataSection = [d]) (hactive : d.passive = false) (hinit : d.init = [0x61])
    (hoffset : d.offsetExpression = ⟨[0x41, 0x00, 0x0b]⟩) (hsize : 0 < size) :
    IsImage m ((letterImage cap max).reallocate size).toList := by
  have hoffset : dataOffset ⟨m, [], false, [], []⟩ d = .ok 0 := by
    have hvalue : evaluateConstExprInModuleInstance ⟨[0x41, 0x00, 0x0b]⟩ [] [] = .ok [0] := rfl
    simp only [dataOffset, hoffset, map_nil, hvalue, bind_ok]
    rfl
  have hlen : (ofList (replicate size (0 : UInt8))).len = size := length_replicate
  have hcopy : (ofList (replicate size (0 : UInt8))).copyAt (0 : Int).toNat [0x61] = .ok _ :=
    copyAt_eq_ok (by rw [hlen]; exact hsize)
  have hsum : toInt (0 + [(0x61 : UInt8)].length) = 1 := rfl
  refine ⟨⟨m, [], false, [], []⟩, rfl, .ofBuffer ⟨0, 0, 0, false, false⟩
    (ofList (replicate size 0)) none, ?zeros, ?_, none, ?copied, ?contents⟩
  case zeros =>
    rw [length_toList]
    exact (toList_ofList _).trans (congrArg (replicate · 0) hlen.symm)
  case copied =>
    simp only [hdata, applySegments, hactive, applyActive, hoffset, hinit, bind_ok,
      AllocatedMemory.ofBuffer, hsum, hlen, hcopy]
    rw [if_neg (by decide), if_neg (by decide), if_neg (by omega), if_neg (by decide)]
    rfl
  case contents => rfl

/-- The image is used for the module with the identity `[1]`, and cleared for all others. -/
theorem sameData_of_not_shared_letter :
    ∃ m r, decodeModule ⟨BitVec.allOnes 64, 65536, false, false, false⟩
        [0x00, 0x61, 0x73, 0x6d, 0x01, 0x00, 0x00, 0x00, 0x05, 0x03, 0x01, 0x00, 0x01,
          0x0b, 0x07, 0x01, 0x00, 0x41, 0x00, 0x0b, 0x01, 0x61] = .ok m r ∧
      validate m (BitVec.allOnes 64) = .ok () ∧
      (∀ memSec, m.memorySection = some memSec → memSec.isShared = false) ∧
      ∀ id, dataOutcome ⟨m, id, false, [], []⟩ none (some letterImage) =
        dataOutcome ⟨m, id, false, [], []⟩ none none := by
  refine ⟨?_, ?_, ?decoded, ?valid, ?shared, fun id => sameData_of_not_shared _ _ _ _ ?decoded _
    ?valid ?shared ⟨_, id, false, [], []⟩ ?source none letterImage ?supplies⟩
  case decoded => rfl
  case valid => rfl
  case shared =>
    rintro _ ⟨⟩
    rfl
  case source => rfl
  case supplies =>
    rintro _ ⟨⟩
    exact ⟨length_replicate, by simp [letterImage], fun _ _ _ =>
      isImage_letterImage rfl rfl rfl rfl (by decide)⟩

/-- An allocator with an image that is of none of the modules. -/
def foreignImage : MemoryAllocator := fun _ _ =>
  ⟨fun size => .ofList (replicate size 0xff), some fun _ => false⟩

theorem map_outcome_applyData_of_nil (hdata : c.source.dataSection = [])
    (huses : usesImage c memory = none) :
    (applyData c (some memory)).map (fun r => r.1.outcome r.2) =
      .ok ⟨some memory.buffer.toList, [], none⟩ := by
  rw [applyData, Option.bind_some, huses, hdata]
  rfl

/-- What the allocator gives for a shared memory stays visible. -/
theorem not_sameData_of_shared (hmem : c.source.memorySection = some memSec)
    (hshared : memSec.isShared = true) (hdata : c.source.dataSection = []) (hpos : 0 < memSec.min)
    (hcap : memSec.min ≤ memSec.cap) (hmax : memSec.min ≤ memSec.max) : ¬ SameData c := by
  intro hsame
  have hlen : ∀ size : Nat, (ofList (replicate size (0xff : UInt8))).len = size :=
    fun size => length_replicate
  have heq := hsame none foreignImage fun memSec _ =>
    ⟨hlen _, fun h => (nomatch h), by rintro _ ⟨⟩ ⟨⟩⟩
  obtain ⟨zeros, hbuild, hzeros, hnone⟩ := buildMemory_none none hmem hcap hmax
  obtain ⟨memory, hbuild', hbuffer, hmemShared, hexp⟩ :=
    @buildMemory_some _ _ none foreignImage hmem (hlen _)
  have huses : usesImage c memory = none := by
    simp only [usesImage, hexp, hmemShared, hshared, foreignImage, Option.bind_some]
    exact if_neg fun h => Bool.false_ne_true h.1
  have huses' : usesImage c zeros = none := by rw [usesImage, hnone, Option.bind_none]
  rw [dataOutcome_eq hbuild', dataOutcome_eq hbuild, map_outcome_applyData_of_nil hdata huses,
    map_outcome_applyData_of_nil hdata huses', hzeros, hbuffer] at heq
  have hcontents := congrArg DataOutcome.contents (Except.ok.inj heq)
  simp only [foreignImage, toList_ofList, Option.some.injEq, replicate_inj] at hcontents
  have hsize : memoryPagesToBytesNum memSec.min ≠ 0 := by
    rw [memoryPagesToBytesNum_eq]
    omega
  exact absurd (hcontents.2.resolve_left hsize) (by decide)

/-- The module has a shared memory of one page and no data segment. -/
theorem not_sameData_shared_page :
    ∃ m r, decodeModule ⟨BitVec.allOnes 64, 65536, false, false, false⟩
        [0x00, 0x61, 0x73, 0x6d, 0x01, 0x00, 0x00, 0x00, 0x05, 0x04, 0x01, 0x03, 0x01,
          0x01] = .ok m r ∧
      validate m (BitVec.allOnes 64) = .ok () ∧ ¬ SameData ⟨m, [], false, [], []⟩ :=
  ⟨_, _, rfl, rfl, not_sameData_of_shared rfl rfl rfl (by decide) (by decide) (by decide)⟩

end Andsifr.Execution
