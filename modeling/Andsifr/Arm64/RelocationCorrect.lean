import Andsifr.Arm64.Branches
import Andsifr.Lib.SliceWrites
import Andsifr.Wazevo.RelocatorLayout

namespace Andsifr.Arm64

open Lib Wazevo Check Slice List Option

theorem trampolineIslandInterval_eq : trampolineIslandInterval = 67108861 := by decide
theorem maxNumFunctions_eq : maxNumFunctions = 1048575 := by decide
theorem maxFunctionExecutableSize_eq : maxFunctionExecutableSize = 16777215 := by decide

/-! ## Modules within the limits -/

/-- A function as the compiler hands it to the relocator: its size is within the limit, its code is
made of whole words and its calls are different words, each to a local function. -/
structure Compiled (importedFns localFns : Nat) (f : FunctionCode) : Prop where
  pos : 0 < f.body.length
  size_le : f.body.length ≤ maxFunctionExecutableSize
  aligned : f.body.length % 4 = 0
  sites : ∀ r ∈ f.rels, r.offset % 4 = 0 ∧ r.offset + 4 ≤ f.body.length
  distinct : ∀ r ∈ f.rels, ∀ r' ∈ f.rels, r.offset = r'.offset → r = r'
  callees : ∀ r ∈ f.rels, importedFns ≤ r.funcRef ∧ r.funcRef < importedFns + localFns

/-- A module with local functions, no more than the limit. -/
structure Program where
  importedFns : Nat
  functions : List FunctionCode
  pos : 0 < functions.length
  count_le : functions.length ≤ maxNumFunctions
  compiled : ∀ f ∈ functions, Compiled importedFns functions.length f

namespace Program

variable (p : Program)

def link : Check (EngineRelocator × Slice UInt8) :=
  linkModule linkerMachine p.importedFns p.functions

def initial : EngineRelocator where
  bodies := []
  functionOffsets := replicate p.functions.length 0
  refToBinaryOffset := replicate (p.importedFns + p.functions.length) 0
  rels := []
  totalSize := 0
  trampolineInterval := trampolineIslandInterval
  callTrampolineIslandSize := trampolineCallSize * p.functions.length
  callTrampolineIslandOffsets := []

def relocator : EngineRelocator :=
  p.initial.appendFunctions p.importedFns 0 p.functions

theorem newEngineRelocator_eq :
    newEngineRelocator linkerMachine p.importedFns p.functions.length = .ok p.initial := by
  have h : ¬ p.functions.length > maxNumFunctions := not_lt.mpr p.count_le
  simp only [newEngineRelocator, linkerMachine, callTrampolineIslandInfo, if_neg h]
  rfl

theorem laid_initial : Laid p.importedFns
    p.functions.length maxFunctionExecutableSize [] p.initial := by
  refine ⟨rfl, rfl, ?_, rfl, .nil, by simp, by simp, .nil, ?_, by simp, ?_, rfl, ?_, le_refl _, ?_⟩
  · exact replicate_add ..
  · exact forall_mem_nil _
  · exact forall_mem_nil _
  · intro k q hq
    cases hq
  · show 0 < (0 + 1) * trampolineIslandInterval
    decide

theorem exists_laid : ∃ placed, placed.map Placed.code = p.functions ∧
    p.relocator.trampolineInterval = trampolineIslandInterval ∧
    p.relocator.callTrampolineIslandSize = trampolineCallSize * p.functions.length ∧
    Laid p.importedFns p.functions.length maxFunctionExecutableSize placed p.relocator := by
  have hpos := p.pos
  have hcount := p.count_le
  rw [maxNumFunctions_eq] at hcount
  have hisland : p.initial.callTrampolineIslandSize = 20 * p.functions.length := rfl
  have hinterval : maxFunctionExecutableSize + 16 + p.initial.callTrampolineIslandSize ≤
      p.initial.trampolineInterval := by
    have hint : p.initial.trampolineInterval = trampolineIslandInterval := rfl
    rw [hint, trampolineIslandInterval_eq, maxFunctionExecutableSize_eq]
    omega
  obtain ⟨placed, hcode, hint, hisl, hlaid⟩ := p.laid_initial.appendAll p.functions
    (by simp) (fun f hf => (p.compiled f hf).size_le) (fun f hf => (p.compiled f hf).aligned)
    (by omega) (by omega) hinterval
  exact ⟨placed, hcode, hint, hisl, hlaid⟩

end Program

/-! ## Islands -/

/-- The distance fits into the immediate of a trampoline. -/
def Near (diff : Int) : Prop :=
  -2 ^ 31 ≤ diff ∧ diff ≤ 2 ^ 31 - 1

def trampolineWord (diff : Int) : Nat → BitVec 32
  | 0 => 0x1000009b#32
  | 1 => encodeSLoad32 tmpReg2 tmpReg
  | 2 => encodeAdd64 tmpReg tmpReg tmpReg2
  | 3 => encodeUnconditionalBranchReg tmpReg false
  | _ => BitVec.ofInt 32 diff

def wordWrite (offset : Nat) (w : BitVec 32) : Nat × List UInt8 :=
  (offset, leBytes 4 w.toNat)

@[simp] theorem wordWrite_fst (offset : Nat) (w : BitVec 32) :
    (wordWrite offset w).1 = offset := rfl

@[simp] theorem length_wordWrite (offset : Nat) (w : BitVec 32) :
    (wordWrite offset w).2.length = 4 :=
  length_leBytes 4 w.toNat

def trampolineWrites (islandOffset i fnOffset : Nat) : List (Nat × List UInt8) :=
  (range 5).map fun j => wordWrite (islandOffset + trampolineCallSize * i + 4 * j)
    (trampolineWord (trampolineDiff islandOffset i fnOffset) j)

def islandWrites (fnOffsets : List Nat) (islandOffset : Nat) : List (Nat × List UInt8) :=
  (fnOffsets.zipIdx 0).flatMap fun b => trampolineWrites islandOffset b.2 b.1

variable {s : Slice UInt8}

theorem putUint32_eq_ok {lo : Nat} (w : BitVec 32) (h : lo + 4 ≤ s.len) :
    putUint32 s lo w = .ok (s.overwrite (wordWrite lo w).1 (wordWrite lo w).2) :=
  putAt_eq_ok (by simp) (by simpa using h)

theorem patchUint32_eq_ok {lo : Nat} (w : BitVec 32) (h : lo + 4 ≤ s.len) :
    patchUint32 s lo w = .ok (s.writeAll [wordWrite lo w]) := by
  obtain ⟨t, ht, -, hlen⟩ := slice_eq_ok (Nat.le_add_right lo 4) h
  obtain ⟨a, ha, -⟩ := index_eq_ok (s := t) (i := 3) (by omega)
  rw [patchUint32, ht, bind_ok, ha]
  rfl

theorem encodeTrampoline_eq_ok {islandOffset i fnOffset : Nat}
    (hnear : Near (trampolineDiff islandOffset i fnOffset))
    (hfits : islandOffset + trampolineCallSize * i + 20 ≤ s.len) :
    encodeTrampoline islandOffset i s fnOffset = .ok
    (s.writeAll (trampolineWrites islandOffset i fnOffset)) := by
  have hguard : ¬ (trampolineDiff islandOffset i fnOffset > 2 ^ 31 - 1 ∨
      trampolineDiff islandOffset i fnOffset < -2 ^ 31) := by
    obtain ⟨hlow, hhigh⟩ := hnear
    omega
  have hadr : encodeAdr tmpReg 16 = .ok 0x1000009b#32 := by decide
  simp only [encodeTrampoline, if_neg hguard, hadr, bind_ok]
  rw [putUint32_eq_ok _ (by omega), bind_ok, putUint32_eq_ok _ (by rw [overwrite_len]; omega),
    bind_ok, putUint32_eq_ok _ (by rw [overwrite_len, overwrite_len]; omega), bind_ok,
    putUint32_eq_ok _ (by simp only [overwrite_len]; omega), bind_ok,
    putUint32_eq_ok _ (by simp only [overwrite_len]; omega)]
  rfl

theorem near_of_encodeTrampoline {s' : Slice UInt8} {islandOffset i fnOffset : Nat}
    (h : encodeTrampoline islandOffset i s fnOffset = .ok s') :
    Near (trampolineDiff islandOffset i fnOffset) := by
  by_contra hfar
  have hguard : trampolineDiff islandOffset i fnOffset > 2 ^ 31 - 1 ∨
      trampolineDiff islandOffset i fnOffset < -2 ^ 31 := by
    rw [Near] at hfar
    omega
  simp only [encodeTrampoline, if_pos hguard] at h
  cases h

theorem encodeCallTrampolineIsland_eq_ok {refToBinaryOffset : List Nat}
    {importedFns islandOffset : Nat}
    (hnear : ∀ k o, (refToBinaryOffset.drop importedFns)[k]? = some o →
      Near (trampolineDiff islandOffset k o))
    (hfits : islandOffset + trampolineCallSize *
      (refToBinaryOffset.drop importedFns).length ≤ s.len) :
    encodeCallTrampolineIsland refToBinaryOffset importedFns islandOffset s =
      .ok (s.writeAll (islandWrites (refToBinaryOffset.drop importedFns) islandOffset)) := by
  refine fold_writes rfl fun k o hk s' hs' => ?_
  have hlt : k < (refToBinaryOffset.drop importedFns).length := (List.getElem?_eq_some_iff.mp hk).1
  rw [zero_add]
  refine encodeTrampoline_eq_ok (hnear k o hk) ?_
  rw [trampolineCallSize] at hfits ⊢
  omega

/-! ## Branches -/

/-- The search finds the first island from the offset on, or else the last one. -/
theorem searchTrampolineIsland_spec {islands : List Nat} (offset : Nat)
    (hsorted : islands.Pairwise (· ≤ ·)) (hne : islands ≠ []) :
    ∃ n q, searchTrampolineIsland islands offset = .ok q ∧ islands[n]? = some q ∧
      ((offset ≤ q ∧ ∀ k o, k < n → islands[k]? = some o → o < offset) ∨
        (n + 1 = islands.length ∧ q < offset)) := by
  have hpos := length_pos_iff.mpr hne
  have hmono : ∀ i j, i ≤ j → j < islands.length →
      (islands[i]?.any (decide <| offset ≤ ·)) = true →
        (islands[j]?.any (decide <| offset ≤ ·)) = true := by
    intro i j hij hj hi
    rw [getElem?_eq_getElem (by omega), any_some, decide_eq_true_eq] at hi
    rw [getElem?_eq_getElem hj, any_some, decide_eq_true_eq]
    rcases eq_or_lt_of_le hij with rfl | hlt
    · exact hi
    · exact Nat.le_trans hi (pairwise_iff_getElem.mp hsorted i j (by omega) hj hlt)
  obtain ⟨hle, hbelow, habove⟩ := search_spec hmono
  rw [searchTrampolineIsland]
  generalize search islands.length (fun i => islands[i]?.any (decide <| offset ≤ ·)) =
    n at hle hbelow habove
  by_cases hn : n = islands.length
  · have hlast : islands.length - 1 < islands.length := by omega
    have hlt := hbelow (islands.length - 1) (by omega)
    rw [getElem?_eq_getElem hlast, any_some, decide_eq_false_iff_not, not_le] at hlt
    refine ⟨islands.length - 1, islands[islands.length - 1], ?_, getElem?_eq_getElem hlast,
      .inr ⟨by omega, hlt⟩⟩
    simp only [if_pos hn]
    exact index_of_lt hlast
  · have hlt : n < islands.length := lt_of_le_of_ne hle hn
    have hge := habove hlt
    rw [getElem?_eq_getElem hlt, any_some, decide_eq_true_eq] at hge
    refine ⟨n, islands[n], ?_, getElem?_eq_getElem hlt, .inl ⟨hge, ?_⟩⟩
    · simp only [if_neg hn]
      exact index_of_lt hlt
    · intro k o hk ho
      have hfalse := hbelow k hk
      rwa [ho, any_some, decide_eq_false_iff_not, not_le] at hfalse

section Layout

variable {importedFns localFns : Nat} {placed : List Placed} {r : EngineRelocator}

/-- What the branches need of a finished layout. -/
structure Finished (importedFns : Nat) (placed : List Placed) (r : EngineRelocator) : Prop extends
    Laid importedFns placed.length maxFunctionExecutableSize placed r where
  interval : r.trampolineInterval = trampolineIslandInterval
  islandSize : r.callTrampolineIslandSize = trampolineCallSize * placed.length
  count_le : placed.length ≤ maxNumFunctions

section

variable (h : Finished importedFns placed r)

include h

theorem Finished.sorted : r.callTrampolineIslandOffsets.Pairwise (· ≤ ·) :=
  h.islandsApart.imp fun hle => Nat.le_trans (Nat.le_add_right _ _) hle

/-- The island that is found is near the call, so that each of its trampolines can be reached. -/
theorem Finished.island_near {offset k : Nat}
    (hoffset : offset < r.totalSize) (hk : k < placed.length)
    (hne : r.callTrampolineIslandOffsets ≠ []) :
    ∃ q ∈ r.callTrampolineIslandOffsets,
      searchTrampolineIsland r.callTrampolineIslandOffsets offset = .ok q ∧
      outOfBranchRange ((q : Int) + (trampolineCallSize * k : Nat) - offset) = false := by
  obtain ⟨n, q, hsearch, hq, hpos⟩ := searchTrampolineIsland_spec offset h.sorted hne
  refine ⟨q, mem_of_getElem? hq, hsearch, ?_⟩
  have hspacing := h.spacing
  have hdense := h.density
  have hcount := h.count_le
  rw [h.interval, trampolineIslandInterval_eq] at hspacing hdense
  rw [maxFunctionExecutableSize_eq] at hspacing
  rw [maxNumFunctions_eq] at hcount
  have hqs := hspacing n q hq
  rw [outOfBranchRange_eq_false_iff, trampolineCallSize]
  rcases hpos with ⟨hge, hbefore⟩ | ⟨hlast, hlt⟩
  · have hback : n * 67108861 ≤ offset := by
      cases n with
      | zero =>
        exact Nat.zero_le offset
      | succ m =>
        have hm : m < r.callTrampolineIslandOffsets.length := by
          have := (List.getElem?_eq_some_iff.mp hq).1
          omega
        have hprev := getElem?_eq_getElem hm
        have hlow := (hspacing m _ hprev).1
        have := hbefore m _ (Nat.lt_succ_self m) hprev
        omega
    omega
  · omega

theorem Finished.refs :
    r.refToBinaryOffset = replicate importedFns 0 ++ placed.map Placed.offset := by
  rw [h.refToBinaryOffset, Nat.sub_self, replicate_zero, append_nil]

theorem Finished.offsets : r.functionOffsets = placed.map Placed.offset := by
  rw [h.functionOffsets, Nat.sub_self, replicate_zero, append_nil]

theorem Finished.drop_refs : r.refToBinaryOffset.drop importedFns = placed.map Placed.offset := by
  rw [h.refs, drop_left' (length_replicate ..)]

section Compiled

variable (hcompiled : ∀ a ∈ placed, Compiled importedFns placed.length a.code)
  {rel : RelocationInfo} (hrel : rel ∈ r.rels)

include hcompiled hrel

theorem Finished.site :
    ∃ a ∈ placed, ∃ rel' ∈ a.code.rels, rel = { rel' with offset := rel'.offset + a.offset } ∧
      a.offset ≤ rel.offset ∧ rel.offset + 4 ≤ a.stop ∧ rel.offset % 4 = 0 := by
  rw [h.rels, mem_flatMap] at hrel
  obtain ⟨a, ha, hrel⟩ := hrel
  obtain ⟨rel', hrel', rfl⟩ := mem_map.mp hrel
  obtain ⟨hmod, hfits⟩ := (hcompiled a ha).sites rel' hrel'
  have halign := h.functionsAligned a ha
  refine ⟨a, ha, rel', hrel', rfl, Nat.le_add_left _ _, ?_, ?_⟩
  · show rel'.offset + a.offset + 4 ≤ a.offset + a.code.body.length
    omega
  · show (rel'.offset + a.offset) % 4 = 0
    omega

theorem Finished.callee : ∃ k callee, placed[k]? = some callee ∧ rel.funcRef = importedFns + k ∧
      index r.refToBinaryOffset rel.funcRef = .ok callee.offset ∧
      rel.offset % 4 = 0 ∧ rel.offset + 4 ≤ r.totalSize := by
  obtain ⟨a, ha, rel', hrel', rfl, -, hstop, hmod⟩ := h.site hcompiled hrel
  obtain ⟨hlow, hhigh⟩ := (hcompiled a ha).callees rel' hrel'
  have hk : rel'.funcRef - importedFns < placed.length := by omega
  refine ⟨rel'.funcRef - importedFns, placed[rel'.funcRef - importedFns],
    getElem?_eq_getElem hk, (Nat.add_sub_cancel' hlow).symm, ?_, hmod,
    Nat.le_trans hstop (h.functionsBelow a ha)⟩
  rw [index_eq_ok_iff, h.refs, getElem?_append_right (by simpa using hlow),
    length_replicate, getElem?_map, getElem?_eq_getElem hk]
  rfl

/-- The branch of a call is a multiple of 4 within range, to the callee or to its trampoline. -/
theorem Finished.branchDiff_spec :
    ∃ k callee diff, placed[k]? = some callee ∧ rel.funcRef = importedFns + k ∧
      branchDiff r.refToBinaryOffset importedFns r.callTrampolineIslandOffsets rel = .ok diff ∧
      diff % 4 = 0 ∧ outOfBranchRange diff = false ∧
      (diff = (callee.offset : Int) - rel.offset ∨
        ∃ q ∈ r.callTrampolineIslandOffsets, diff =
        (q + trampolineCallSize * k : Nat) - (rel.offset : Int)) := by
  obtain ⟨k, callee, hk, href, hindex, hmod, hfits⟩ := h.callee hcompiled hrel
  have hcallee := h.functionsAligned callee (mem_of_getElem? hk)
  have hcalleeBelow := h.functionsBelow callee (mem_of_getElem? hk)
  rw [Placed.stop] at hcalleeBelow
  cases hout : outOfBranchRange ((callee.offset : Int) - rel.offset) with
  | false =>
    refine ⟨k, callee, _, hk, href, ?_, ?_, hout, .inl rfl⟩
    · simp only [branchDiff, hindex, bind_ok, hout, Bool.false_eq_true, if_false]
      rfl
    · omega
  | true =>
    have hklt : k < placed.length := (List.getElem?_eq_some_iff.mp hk).1
    have hne : r.callTrampolineIslandOffsets ≠ [] := by
      intro hnil
      -- Without islands the whole executable is shorter than an interval.
      have hdense := h.density
      rw [hnil, h.interval, trampolineIslandInterval_eq, length_nil, zero_add, one_mul] at hdense
      have hin : outOfBranchRange ((callee.offset : Int) - rel.offset) = false := by
        rw [outOfBranchRange_eq_false_iff]
        omega
      rw [hin] at hout
      cases hout
    have hsite : rel.offset < r.totalSize := by omega
    obtain ⟨q, hq, hsearch, hnear⟩ := h.island_near hsite hklt hne
    have hqmod := h.islandsAligned q hq
    have hfunc : (rel.funcRef : Int) - importedFns = k := by omega
    have hdiff : (q : Int) + trampolineCallSize * (k : Int) - rel.offset =
        (q : Int) + (trampolineCallSize * k : Nat) - rel.offset := by
      rw [Int.natCast_mul]
    refine ⟨k, callee, (q + trampolineCallSize * k : Nat) - (rel.offset : Int), hk, href,
      ?_, ?_, ?_, .inr ⟨q, hq, rfl⟩⟩
    · simp only [branchDiff, hindex, bind_ok, hout, if_true, hsearch, hfunc, hdiff, hnear,
        Bool.false_eq_true, if_false, Int.natCast_add]
      rfl
    · rw [trampolineCallSize]
      omega
    · rwa [Int.natCast_add]

end Compiled

end

/-! ## The executable -/

def branchWord (importedFns : Nat) (r : EngineRelocator) (rel : RelocationInfo) : BitVec 32 :=
  match (do
    let diff ← branchDiff r.refToBinaryOffset importedFns r.callTrampolineIslandOffsets rel
    encodeUnconditionalBranch (!rel.isTailCall) diff : Check (BitVec 32)) with
  | .ok w => w
  | .error _ => 0

theorem Finished.branchWord_spec (h : Finished importedFns placed r)
    (hcompiled : ∀ a ∈ placed, Compiled importedFns placed.length a.code) {rel : RelocationInfo}
    (hrel : rel ∈ r.rels) :
    ∃ k callee diff, placed[k]? = some callee ∧ rel.funcRef = importedFns + k ∧
      decodeBranch (branchWord importedFns r rel) =
        some (if rel.isTailCall then .b diff else .bl diff) ∧
      (∀ s : Slice UInt8, s.len = r.totalSize →
        resolveRelocation r.refToBinaryOffset importedFns r.callTrampolineIslandOffsets s rel =
          .ok (s.writeAll [wordWrite rel.offset (branchWord importedFns r rel)])) ∧
      (diff = (callee.offset : Int) - rel.offset ∨
        ∃ q ∈ r.callTrampolineIslandOffsets, diff =
        (q + trampolineCallSize * k : Nat) - (rel.offset : Int)) := by
  obtain ⟨k, callee, diff, hk, href, hdiff, hmod, hrange, htarget⟩ :=
    h.branchDiff_spec hcompiled hrel
  obtain ⟨-, -, -, -, -, -, hfits⟩ := h.callee hcompiled hrel
  obtain ⟨w, hw, hdecode⟩ := decode_encodeUnconditionalBranch (!rel.isTailCall) hmod hrange
  have hword : branchWord importedFns r rel = w := by
    simp only [branchWord, hdiff, bind_ok, hw]
  refine ⟨k, callee, diff, hk, href, ?_, ?_, htarget⟩
  · rw [hword, hdecode]
    cases rel.isTailCall <;> rfl
  · intro s hs
    rw [resolveRelocation, hdiff, bind_ok, hw, hword]
    exact patchUint32_eq_ok w (by omega)

def relocationWrites (importedFns : Nat) (r : EngineRelocator) : List (Nat × List UInt8) :=
  (r.callTrampolineIslandOffsets.zipIdx 0).flatMap
      (fun b => islandWrites (r.refToBinaryOffset.drop importedFns) b.1) ++
    (r.rels.zipIdx 0).flatMap fun b => [wordWrite b.1.offset (branchWord importedFns r b.1)]

/-- Every function is near enough to every island. -/
def IslandsNear (r : EngineRelocator) : Prop :=
  ∀ q ∈ r.callTrampolineIslandOffsets, ∀ k o, r.functionOffsets[k]? = some o →
    Near (trampolineDiff q k o)

theorem Finished.resolveRelocations_eq_ok (h : Finished importedFns placed r)
    (hcompiled : ∀ a ∈ placed, Compiled importedFns placed.length a.code) (hnear : IslandsNear r)
    {s : Slice UInt8} (hs : s.len = r.totalSize) :
    resolveRelocations r.refToBinaryOffset importedFns s r.rels r.callTrampolineIslandOffsets =
      .ok (s.writeAll (relocationWrites importedFns r)) := by
  have hislands := fold_writes (f := fun _ executable islandOffset =>
      encodeCallTrampolineIsland r.refToBinaryOffset importedFns islandOffset executable)
    (w := fun _ q => islandWrites (r.refToBinaryOffset.drop importedFns) q) (i := 0)
    hs fun k q hq s' hs' => by
      have hmem := mem_of_getElem? hq
      refine encodeCallTrampolineIsland_eq_ok ?_ ?_
      · rw [h.drop_refs, ← h.offsets]
        exact hnear q hmem
      · have := h.islandsBelow q hmem
        rw [h.drop_refs, length_map, hs']
        rwa [h.islandSize] at this
  have hrels := fold_writes (f := fun _ executable rel =>
      resolveRelocation r.refToBinaryOffset importedFns r.callTrampolineIslandOffsets
        executable rel)
    (w := fun _ rel => [wordWrite rel.offset (branchWord importedFns r rel)]) (i := 0)
    (s := s.writeAll ((r.callTrampolineIslandOffsets.zipIdx 0).flatMap fun b =>
      islandWrites (r.refToBinaryOffset.drop importedFns) b.1))
    ((writeAll_len _ _).trans hs) fun k rel hk s' hs' => by
      obtain ⟨-, -, -, -, -, -, hstep, -⟩ := h.branchWord_spec hcompiled (mem_of_getElem? hk)
      exact hstep s' hs'
  rw [resolveRelocations, hislands, bind_ok, hrels, relocationWrites, writeAll_append]

theorem Finished.near_of_resolve (h : Finished importedFns placed r) {s s' : Slice UInt8}
    (hok : resolveRelocations r.refToBinaryOffset importedFns s r.rels
      r.callTrampolineIslandOffsets =
      .ok s') : IslandsNear r := by
  intro q hq k o hk
  obtain ⟨s₁, hislands, -⟩ := bind_inv hok
  obtain ⟨j, hj⟩ := getElem?_of_mem hq
  obtain ⟨s₂, s₃, hisland⟩ := step_of_fold_eq_ok hislands hj
  have hk' : (r.refToBinaryOffset.drop importedFns)[k]? = some o := by
    rwa [h.drop_refs, ← h.offsets]
  obtain ⟨s₄, s₅, htrampoline⟩ := step_of_fold_eq_ok hisland hk'
  rw [zero_add] at htrampoline
  exact near_of_encodeTrampoline htrampoline

end Layout

end Andsifr.Arm64
