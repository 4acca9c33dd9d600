import Andsifr.Validation.ConstGlobals

namespace Andsifr.Validation.Module

open Lib Wasm List Check

/-- What the first check gives the second one gives too. The texts of their errors may differ. -/
def Carries {α : Type} (x y : Check α) : Prop :=
  ∀ a, x = .ok a → y = .ok a

theorem Carries.bind {α β : Type} {x y : Check α} (h : Carries x y) (f : α → Check β) :
    Carries (x >>= f) (y >>= f) := by
  intro b hb
  obtain ⟨a, hx, hf⟩ := bind_inv hb
  exact bind_eq_ok_iff.mpr ⟨a, h a hx, hf⟩

variable {resolvers resolvers' : Resolvers} {e : ConstantExpression}

theorem carries_applyAll {instrs : List ConstInstruction}
    (hglobal : ∀ i, .globalGet i ∈ instrs → Carries (resolvers.global i) (resolvers'.global i))
    (hfunc : ∀ i, Carries (resolvers.funcRef i) (resolvers'.funcRef i)) (s : ConstState) :
    Carries (ConstInstruction.applyAll resolvers s instrs)
      (ConstInstruction.applyAll resolvers' s instrs) := by
  induction instrs generalizing s with
  | nil => exact fun _ h => h
  | cons instr instrs ih =>
    intro s' h
    obtain ⟨s₁, hinstr, h⟩ := bind_inv h
    refine bind_eq_ok_iff.mpr ⟨s₁, ?_, ih (fun i hi => hglobal i (mem_cons_of_mem _ hi)) _ _ h⟩
    cases instr with
    | const values t => exact hinstr
    | globalGet i => exact (hglobal i mem_cons_self).bind _ _ hinstr
    | refFunc i => exact (hfunc i).bind _ _ hinstr
    | binary name t op => exact hinstr

theorem evaluateConstExpr_carries {result : List Nat × ValueType} {s : ConstState}
    (hglobal : ∀ i ∈ e.globalGets, Carries (resolvers.global i) (resolvers'.global i))
    (hfunc : ∀ i, Carries (resolvers.funcRef i) (resolvers'.funcRef i))
    (heval : evaluateConstExpr e resolvers = (.ok result, s)) :
    evaluateConstExpr e resolvers' = (.ok result, s) := by
  obtain ⟨instrs, hinstrs, hrun, hresult⟩ := evaluateLoop_eq_ok_iff.mp heval
  have hglobal : ∀ i, .globalGet i ∈ instrs → Carries (resolvers.global i) (resolvers'.global i) :=
    fun i hi => hglobal i ((ConstantExpression.mem_globalGets hinstrs).mpr hi)
  exact evaluateLoop_eq_ok_iff.mpr
    ⟨instrs, hinstrs, carries_applyAll hglobal hfunc _ _ hrun, hresult⟩

/-- The type of a global that the constant expressions of a segment may read: an immutable one that
is imported or, with extended constant expressions, defined by the module. -/
def readableGlobal (m : Module) (features : CoreFeatures) (i : Index) : Option ValueType :=
  let global :=
    if i < m.importGlobalCount then (importedGlobals m)[i]?
    else if features.isEnabled .extendedConst ∧ i - m.importGlobalCount < len32 m.globalSection then
      m.globalSection[i - m.importGlobalCount]?.map Global.type
    else none
  (global.filter (!·.isMutable)).map GlobalType.valType

/-- The resolvers for the items of a segment, without its position. -/
def itemResolvers (m : Module) (features : CoreFeatures) : Resolvers where
  global i :=
    if (m.importGlobalCount + len32 m.globalSection) % 2 ^ 32 ≤ i then fail "out of range"
    else match readableGlobal m features i with
      | some t => return (t, 0, 0)
      | none => fail "not readable"
  funcRef i :=
    if (m.importFunctionCount + len32 m.functionSection) % 2 ^ 32 ≤ i then fail "out of range"
    else return 0

/-- The resolvers for the offset of a segment, without its position. -/
def startResolvers (m : Module) (features : CoreFeatures) : Resolvers where
  global i := do
    let (t, _) ← (itemResolvers m features).global i
    require (t = .i32) "not an i32"
    return (t, 0, 0)
  funcRef _ := return 0

variable {m : Module} {features : CoreFeatures} {p : Nat}

/-- The global is the seventh that the module defines, or a later one. -/
def Late (m : Module) (i : Index) : Prop :=
  m.importGlobalCount + 6 ≤ i

theorem not_fail_eq_ok {α : Type} {message : String} {a : α} : ¬ fail message = .ok a := by
  rintro ⟨⟩

theorem immutable_eq_ok_iff {g : GlobalType} {t : ValueType} {message : String} :
    (if g.isMutable then fail message else pure g.valType : Check ValueType) = .ok t ↔
      g.isMutable = false ∧ g.valType = t := by
  cases g.isMutable <;> simp [pure, Except.pure, not_fail_eq_ok]

theorem resolveConstExprGlobalType_eq_ok_iff {i : Nat} (hi : i < 2 ^ 32) {t : ValueType} :
    resolveConstExprGlobalType m features "element" p i = .ok t ↔
      readableGlobal m features i = some t ∧ (p = sectionIDGlobal → ¬ Late m i) := by
  unfold resolveConstExprGlobalType readableGlobal Late
  by_cases himported : i < m.importGlobalCount
  · have hearly : ¬ m.importGlobalCount + 6 ≤ i := by omega
    simp only [if_pos himported, hearly, not_false_eq_true, implies_true, and_true]
    cases (importedGlobals m)[i]? with
    | none => simp [not_fail_eq_ok]
    | some g => simp [immutable_eq_ok_iff, Option.filter]
  have hsub : sub32 i m.importGlobalCount = i - m.importGlobalCount := by
    rw [sub32]
    omega
  simp only [if_neg himported, hsub]
  by_cases hextended : features.isEnabled .extendedConst = true
  case neg => simp [hextended, not_fail_eq_ok]
  rw [if_neg (not_not_intro hextended)]
  by_cases hlate : p = sectionIDGlobal ∧ p ≤ i - m.importGlobalCount
  · rw [if_pos hlate]
    refine iff_of_false not_fail_eq_ok fun h => h.2 hlate.1 ?_
    have := hlate.1
    rw [sectionIDGlobal] at this
    omega
  have hreads : p = sectionIDGlobal → ¬ m.importGlobalCount + 6 ≤ i := by
    rw [sectionIDGlobal] at hlate ⊢
    omega
  rw [if_neg hlate, and_iff_left hreads]
  by_cases hdefined : i - m.importGlobalCount < len32 m.globalSection
  · rw [if_neg (Nat.not_le_of_lt hdefined), if_pos ⟨hextended, hdefined⟩, bind_eq_ok_iff]
    simp [index_eq_ok_iff, immutable_eq_ok_iff, Option.filter_eq_some_iff, and_assoc]
  · simp [Nat.le_of_not_lt hdefined, hdefined, not_fail_eq_ok]

/-- The first resolvers are those for position `p` in the section, the others know no position. -/
structure Positioned (m : Module) (p : Nat) (resolvers resolvers' : Resolvers) : Prop where
  global : ∀ i value, resolvers.global i = .ok value ↔
    resolvers'.global i = .ok value ∧ (p = sectionIDGlobal → ¬ Late m i)
  funcRef : ∀ i value, resolvers.funcRef i = .ok value ↔ resolvers'.funcRef i = .ok value

theorem ranged_eq_ok_iff {α : Type} {n i : Nat} {message : String} {x : Check α} {a : α} :
    (if n ≤ i then fail message else x) = .ok a ↔ i < n ∧ x = .ok a := by
  split
  next h => exact iff_of_false not_fail_eq_ok fun h' => by omega
  next h => exact (and_iff_right (Nat.lt_of_not_le h)).symm

theorem when_eq_ok_iff {c : Prop} [Decidable c] {x : Check Unit} :
    (if c then x else pure ()) = .ok () ↔ (c → x = .ok ()) := by
  split
  next h => exact ⟨fun hx _ => hx, fun hx => hx h⟩
  next h => exact iff_of_true rfl fun hc => absurd hc h

theorem itemResolvers_global_eq_ok_iff {i : Nat} {value : ValueType × Nat × Nat} :
    (itemResolvers m features).global i = .ok value ↔
      i < (m.importGlobalCount + len32 m.globalSection) % 2 ^ 32 ∧
        ∃ t, readableGlobal m features i = some t ∧ value = (t, 0, 0) := by
  rw [itemResolvers, ranged_eq_ok_iff]
  cases readableGlobal m features i with
  | none => simp [not_fail_eq_ok]
  | some t => simp [pure, Except.pure, eq_comm]

theorem elementResolvers_positioned (p ei : Nat) :
    Positioned m p (elementResolvers m features p ei) (itemResolvers m features) := by
  refine ⟨fun i value => ?_, fun i value => ?_⟩
  · rw [itemResolvers_global_eq_ok_iff, elementResolvers, ranged_eq_ok_iff, bind_eq_ok_iff]
    constructor
    · rintro ⟨hlt, t, ht, ⟨⟩⟩
      obtain ⟨hreadable, hlate⟩ := (resolveConstExprGlobalType_eq_ok_iff (by omega)).mp ht
      exact ⟨⟨hlt, t, hreadable, rfl⟩, hlate⟩
    · rintro ⟨⟨hlt, t, hreadable, rfl⟩, hlate⟩
      exact ⟨hlt, t, (resolveConstExprGlobalType_eq_ok_iff (by omega)).mpr ⟨hreadable, hlate⟩, rfl⟩
  · simp only [elementResolvers, itemResolvers, ranged_eq_ok_iff]

theorem offsetResolvers_positioned (p : Nat) :
    Positioned m p (offsetResolvers m features p) (startResolvers m features) := by
  refine ⟨fun i value => ?_, fun _ _ => Iff.rfl⟩
  simp only [offsetResolvers, startResolvers, ranged_eq_ok_iff, bind_eq_ok_iff, require_eq_ok_iff,
    itemResolvers_global_eq_ok_iff]
  constructor
  · rintro ⟨hlt, t, ht, _, hi32, ⟨⟩⟩
    obtain ⟨hreadable, hlate⟩ := (resolveConstExprGlobalType_eq_ok_iff (by omega)).mp ht
    exact ⟨⟨_, ⟨hlt, t, hreadable, rfl⟩, (), hi32, rfl⟩, hlate⟩
  · rintro ⟨⟨_, ⟨hlt, t, hreadable, rfl⟩, _, hi32, ⟨⟩⟩, hlate⟩
    exact ⟨hlt, t, (resolveConstExprGlobalType_eq_ok_iff (by omega)).mpr ⟨hreadable, hlate⟩, (),
      hi32, rfl⟩

theorem Positioned.evaluate (h : Positioned m p resolvers resolvers')
    {result : List Nat × ValueType} {s : ConstState} :
    evaluateConstExpr e resolvers = (.ok result, s) ↔
      evaluateConstExpr e resolvers' = (.ok result, s) ∧
        (p = sectionIDGlobal → ∀ i ∈ e.globalGets, ¬ Late m i) := by
  constructor
  · intro heval
    refine ⟨evaluateConstExpr_carries (fun i _ value hvalue => ((h.global i value).mp hvalue).1)
      (fun i value => (h.funcRef i value).mp) heval, fun hp i hi => ?_⟩
    obtain ⟨value, hvalue⟩ := exists_global_of_mem_globalGets (congrArg Prod.fst heval) hi
    exact ((h.global i value).mp hvalue).2 hp
  · rintro ⟨heval, hlate⟩
    exact evaluateConstExpr_carries (fun i hi value hvalue =>
      (h.global i value).mpr ⟨hvalue, fun hp => hlate hp i hi⟩)
      (fun i value => (h.funcRef i value).mpr) heval

/-- A value of the type `have_` may be an item of a segment of the type `want`. -/
def ItemFits (m : Module) (want have_ : ValueType) : Prop :=
  if want = .funcref then have_ = .funcref
  else if want = .externref then have_ = .externref
  else ∃ subtype, isRefSubtypeOf m.typeSection have_ want = .ok subtype ∧
    (subtype || have_ = .funcref) = true

def ItemValid (m : Module) (features : CoreFeatures) (type : ValueType) (e : ConstantExpression) :
    Prop :=
  ∃ result s, evaluateConstExpr e (itemResolvers m features) = (.ok result, s) ∧
    ItemFits m type result.2

/-- The segment goes to a table of its type at an offset that is an `i32`, and lies in the bounds of
the table where these are known. -/
def TargetValid (m : Module) (features : CoreFeatures) (tables : List Table)
    (elem : ElementSegment) : Prop :=
  ∃ t values s, tables[elem.tableIndex]? = some t ∧
    isRefSubtypeOf m.typeSection elem.type t.type = .ok true ∧
    evaluateConstExpr elem.offsetExpr (startResolvers m features) = (.ok (values, .i32), s) ∧
    (¬ features.isEnabled .referenceTypes ∧ s.globals = [] ∧
      m.importTableCount ≤ elem.tableIndex →
      ∃ offset, values[0]? = some offset ∧ len32 elem.init + offset % 2 ^ 32 ≤ t.min)

/-- The segment is valid, whatever its position. -/
structure SegmentValid (m : Module) (features : CoreFeatures) (tables : List Table)
    (elem : ElementSegment) : Prop where
  items : ∀ e ∈ elem.init, ItemValid m features elem.type e
  target : elem.mode = .active → TargetValid m features tables elem

variable {elem : ElementSegment} {tables : List Table} {type : ValueType}

theorem validateElementInit_eq_ok_iff {ei : Nat} :
    validateElementInit m features type p ei e = .ok () ↔ ItemValid m features type e ∧
      (p = sectionIDGlobal → ∀ i ∈ e.globalGets, ¬ Late m i) := by
  have hfits (have_ : ValueType) (a b c : String) :
      (if type = .funcref then require (have_ = .funcref) a
        else if type = .externref then require (have_ = .externref) b
        else do
          let subtype ← isRefSubtypeOf m.typeSection have_ type
          require (subtype || have_ = .funcref) c) = .ok () ↔ ItemFits m type have_ := by
    unfold ItemFits
    split_ifs
    · simp [require_eq_ok_iff]
    · simp [require_eq_ok_iff]
    · simp only [bind_eq_ok_iff, require_eq_ok_iff]
  have hpositioned : Positioned m p (elementResolvers m features p ei) (itemResolvers m features) :=
    elementResolvers_positioned p ei
  constructor
  · intro h
    obtain ⟨result, heval, hcheck⟩ := bind_inv h
    obtain ⟨hitem, hlate⟩ := hpositioned.evaluate.mp (Prod.ext heval rfl)
    exact ⟨⟨result, _, hitem, (hfits _ _ _ _).mp hcheck⟩, hlate⟩
  · rintro ⟨⟨result, s, hitem, hcheck⟩, hlate⟩
    have heval := hpositioned.evaluate.mpr ⟨hitem, hlate⟩
    exact bind_eq_ok_iff.mpr ⟨result, congrArg Prod.fst heval, (hfits _ _ _ _).mpr hcheck⟩

theorem validateActiveElement_eq_ok_iff :
    validateActiveElement m features tables p elem = .ok () ↔ TargetValid m features tables elem ∧
      (p = sectionIDGlobal → ∀ i ∈ elem.offsetExpr.globalGets, ¬ Late m i) := by
  have hpositioned : Positioned m p (offsetResolvers m features p) (startResolvers m features) :=
    offsetResolvers_positioned p
  simp only [validateActiveElement, ranged_eq_ok_iff, bind_eq_ok_iff, index_eq_ok_iff,
    when_eq_ok_iff, checkSegmentBounds, require_eq_ok_iff, mapErr_eq_ok_iff, decide_eq_true_eq]
  constructor
  · rintro ⟨-, t, ht, subtype, hsubtype, _, rfl, ⟨values, offsetType⟩, heval, _, rfl, hbounds⟩
    obtain ⟨hstart, hlate⟩ := hpositioned.evaluate.mp (Prod.ext heval rfl)
    exact ⟨⟨t, values, _, ht, hsubtype, hstart, hbounds⟩, hlate⟩
  · rintro ⟨⟨t, values, s, ht, hsubtype, hstart, hbounds⟩, hlate⟩
    have heval := hpositioned.evaluate.mpr ⟨hstart, hlate⟩
    refine ⟨(List.getElem?_eq_some_iff.mp ht).1, t, ht, true, hsubtype, (), rfl, (values, .i32),
      congrArg Prod.fst heval, (), rfl, ?_⟩
    rw [heval]
    exact hbounds

/-- The constant expressions that are evaluated for the segment. -/
def segmentExpressions (elem : ElementSegment) : List ConstantExpression :=
  if elem.mode = .active then elem.offsetExpr :: elem.init else elem.init

def ReadsLate (m : Module) (elem : ElementSegment) : Prop :=
  ∃ e ∈ segmentExpressions elem, ∃ i ∈ e.globalGets, Late m i

theorem not_readsLate_iff : ¬ ReadsLate m elem ↔
    (∀ e ∈ elem.init, ∀ i ∈ e.globalGets, ¬ Late m i) ∧
      (elem.mode = .active → ∀ i ∈ elem.offsetExpr.globalGets, ¬ Late m i) := by
  unfold ReadsLate segmentExpressions
  push Not
  split
  next hactive => simp [hactive, and_comm]
  next hpassive => simp [hpassive]

theorem forEach_eq_ok_iff {α : Type} {f : Nat → α → Check Unit} {P : α → Prop}
    (h : ∀ j a, f j a = .ok () ↔ P a) (i : Nat) (as : List α) {u : Unit} :
    forEach f i as = .ok u ↔ ∀ a ∈ as, P a := by
  induction as generalizing i with
  | nil => exact iff_of_true rfl (by simp)
  | cons a as ih => simp only [forEach, bind_eq_ok_iff, h, ih, forall_mem_cons, exists_const]

/-- A segment is accepted exactly if it is valid and, at position 6, reads no late global. -/
theorem validateElement_eq_ok_iff : validateElement m features tables p elem = .ok () ↔
    SegmentValid m features tables elem ∧ (p = sectionIDGlobal → ¬ ReadsLate m elem) := by
  have hitems := @forEach_eq_ok_iff _ (validateElementInit m features elem.type p) _
    (fun _ _ => validateElementInit_eq_ok_iff) 0 elem.init
  simp only [validateElement, bind_eq_ok_iff, when_eq_ok_iff, validateActiveElement_eq_ok_iff,
    hitems, not_readsLate_iff]
  constructor
  · rintro ⟨_, hitems, htarget⟩
    exact ⟨⟨fun e he => (hitems e he).1, fun hactive => (htarget hactive).1⟩, fun hp =>
      ⟨fun e he => (hitems e he).2 hp, fun hactive => (htarget hactive).2 hp⟩⟩
  · rintro ⟨⟨hitems, htarget⟩, hlate⟩
    exact ⟨(), fun e he => ⟨hitems e he, fun hp => (hlate hp).1 e he⟩, fun hactive =>
      ⟨htarget hactive, fun hp => (hlate hp).2 hactive⟩⟩

theorem segmentValid_iff {segments : List ElementSegment} :
    SegmentValid { m with elementSection := segments } features tables elem ↔
      SegmentValid m features tables elem :=
  ⟨fun h => ⟨h.items, h.target⟩, fun h => ⟨h.items, h.target⟩⟩

/-- The verdict on the segment, which stands at position `p`, is the same after the element section
has been permuted and valid segments have been added, wherever the segment stands then. -/
def KeepsVerdict (m : Module) (features : CoreFeatures) (tables : List Table)
    (elem : ElementSegment) (p : Nat) : Prop :=
  ∀ added segments q, (∀ s ∈ added, SegmentValid m features tables s) →
    segments.Perm (added ++ m.elementSection) → segments[q]? = some elem →
      (validateElement { m with elementSection := segments } features tables q elem = .ok () ↔
        validateElement m features tables p elem = .ok ())

def emptySegment : ElementSegment :=
  ⟨⟨[]⟩, 0, [], .funcref, .passive⟩

theorem segmentValid_empty : SegmentValid m features tables emptySegment :=
  ⟨by simp [emptySegment], by simp [emptySegment]⟩

/-- The verdict on a segment depends on its position exactly if it is valid and reads the seventh
global that the module defines or a later one: at position 6 these count as not initialised. -/
theorem keepsVerdict_iff (m : Module) (features : CoreFeatures) (tables : List Table)
    (elem : ElementSegment) (p : Nat) (hp : m.elementSection[p]? = some elem) :
    KeepsVerdict m features tables elem p ↔
      (SegmentValid m features tables elem → ¬ ReadsLate m elem) := by
  constructor
  · intro h hvalid hlate
    have hempty : ∀ s ∈ replicate 6 emptySegment, SegmentValid m features tables s :=
      fun s hs => eq_of_mem_replicate hs ▸ segmentValid_empty
    by_cases hsix : p = sectionIDGlobal
    · have haccepted := (h [emptySegment] (emptySegment :: m.elementSection) (p + 1)
        (by simp [segmentValid_empty]) (.refl _) hp).mp
        (validateElement_eq_ok_iff.mpr ⟨segmentValid_iff.mpr hvalid, fun hp => by omega⟩)
      exact (validateElement_eq_ok_iff.mp haccepted).2 hsix hlate
    · have haccepted := (h (replicate 6 emptySegment)
        (replicate 6 emptySegment ++ elem :: m.elementSection.erase elem) 6 hempty
        ((perm_cons_erase (mem_of_getElem? hp)).symm.append_left _) rfl).mpr
        (validateElement_eq_ok_iff.mpr ⟨hvalid, fun hp => absurd hp hsix⟩)
      exact (validateElement_eq_ok_iff.mp haccepted).2 rfl hlate
  · intro h added segments q _ _ _
    rw [validateElement_eq_ok_iff, validateElement_eq_ok_iff, segmentValid_iff]
    exact and_congr_right fun hvalid => iff_of_true (fun _ => h hvalid) fun _ => h hvalid

def oneItem (item : List UInt8) : ElementSegment :=
  ⟨⟨[]⟩, 0, [⟨item⟩], .funcref, .passive⟩

def sevenGlobals (segments : List ElementSegment) : Module where
  globalSection := replicate 7 ⟨⟨.funcref, false⟩, ⟨[0xd0, 0x70, 0x0b]⟩⟩
  elementSection := segments

theorem keepsVerdict_iff_sevenGlobals :
    KeepsVerdict (sevenGlobals (replicate 7 (oneItem [0x23, 0x05,
      0x0b]))) CoreFeatures.extendedConst []
      (oneItem [0x23, 0x05, 0x0b]) 6 ∧
    ¬ KeepsVerdict (sevenGlobals (replicate 7 (oneItem [0x23, 0x06,
      0x0b]))) CoreFeatures.extendedConst []
      (oneItem [0x23, 0x06, 0x0b]) 6 := by
  constructor
  · refine (keepsVerdict_iff _ _ _ _ _ rfl).mpr fun _ => ?_
    rintro ⟨e, he, i, hi, hlate⟩
    cases mem_singleton.mp he
    cases mem_singleton.mp hi
    exact absurd (show 6 ≤ 5 from hlate) (by decide)
  · intro h
    refine (keepsVerdict_iff _ _ _ _ _ rfl).mp h ⟨fun e he => ?_, fun hactive => by cases hactive⟩
      ⟨_, mem_cons_self, 6, mem_singleton.mpr rfl, le_refl 6⟩
    cases mem_singleton.mp he
    exact ⟨_, _, rfl, rfl⟩

/-- Of seven segments in a module with seven globals, one reads the last global. The segments are
accepted if it comes first and rejected if it comes last. -/
theorem lastSegment_rejected :
    ∃ (m : Module) (late plain : ElementSegment),
      validateTable { m with elementSection := late :: replicate 6 plain }
        CoreFeatures.extendedConst [] = .ok () ∧
      validateTable { m with elementSection := replicate 6 plain ++ [late] }
        CoreFeatures.extendedConst [] =
          .error (.err "element[6] global 6 out of range of initialized globals") :=
  ⟨sevenGlobals [], oneItem [0x23, 0x06, 0x0b], oneItem [0xd0, 0x70, 0x0b], rfl, rfl⟩

end Andsifr.Validation.Module
