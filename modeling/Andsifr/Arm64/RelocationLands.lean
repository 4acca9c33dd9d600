import Mathlib.Data.BitVec
import Andsifr.Arm64.RelocationCorrect

namespace Andsifr.Arm64

open Lib Wazevo List BitVec Emission.Regs Slice

/-! ## The words that relocation leaves -/

section Words

variable {importedFns : Nat} {placed : List Placed} {r : EngineRelocator}

theorem mem_relocationWrites {w : Nat × List UInt8} : w ∈ relocationWrites importedFns r ↔
      (∃ q ∈ r.callTrampolineIslandOffsets, ∃ k o j,
        (r.refToBinaryOffset.drop importedFns)[k]? = some o ∧
        j < 5 ∧ w = wordWrite (q + trampolineCallSize * k + 4 * j)
        (trampolineWord (trampolineDiff q k o) j)) ∨
      ∃ rel ∈ r.rels, w = wordWrite rel.offset (branchWord importedFns r rel) := by
  rw [relocationWrites, mem_append]
  refine or_congr ?_ ?_
  · simp only [mem_flatMap, islandWrites, trampolineWrites, mem_map, mem_range]
    constructor
    · rintro ⟨⟨q, i⟩, hq, ⟨o, k⟩, hk, j, hj, rfl⟩
      have hq' := mem_of_getElem? (mem_zipIdx_iff_getElem?.mp hq)
      exact ⟨q, hq', k, o, j, mem_zipIdx_iff_getElem?.mp hk, hj, rfl⟩
    · rintro ⟨q, hq, k, o, j, hk, hj, rfl⟩
      obtain ⟨i, hi⟩ := getElem?_of_mem hq
      exact ⟨(q, i), mem_zipIdx_iff_getElem?.mpr hi, (o, k), mem_zipIdx_iff_getElem?.mpr hk, j, hj,
        rfl⟩
  · simp only [mem_flatMap, mem_singleton]
    constructor
    · rintro ⟨⟨rel, i⟩, hrel, rfl⟩
      exact ⟨rel, mem_of_getElem? (mem_zipIdx_iff_getElem?.mp hrel), rfl⟩
    · rintro ⟨rel, hrel, rfl⟩
      obtain ⟨i, hi⟩ := getElem?_of_mem hrel
      exact ⟨(rel, i), mem_zipIdx_iff_getElem?.mpr hi, rfl⟩

theorem eq_or_rel_of_pairwise {α : Type} {R : α → α → Prop} {l : List α}
    (h : l.Pairwise R) {a b : α}
    (ha : a ∈ l) (hb : b ∈ l) : a = b ∨ R a b ∨ R b a := by
  obtain ⟨i, hi, rfl⟩ := getElem_of_mem ha
  obtain ⟨j, hj, rfl⟩ := getElem_of_mem hb
  rcases Nat.lt_trichotomy i j with hlt | rfl | hgt
  · exact .inr (.inl (pairwise_iff_getElem.mp h i j hi hj hlt))
  · exact .inl rfl
  · exact .inr (.inr (pairwise_iff_getElem.mp h j i hj hi hgt))

section

variable (h : Finished importedFns placed r)

include h

variable (hcompiled : ∀ a ∈ placed, Compiled importedFns placed.length a.code)

include hcompiled in
theorem Finished.rel_ext {rel rel₂ : RelocationInfo}
    (hrel : rel ∈ r.rels) (hrel₂ : rel₂ ∈ r.rels) (heq : rel.offset = rel₂.offset) :
    rel = rel₂ := by
  obtain ⟨a, ha, rel', hrel', rfl, hlow, hhigh, -⟩ := h.site hcompiled hrel
  obtain ⟨b, hb, rel₂', hrel₂', rfl, hlow₂, hhigh₂, -⟩ := h.site hcompiled hrel₂
  obtain rfl : a = b := by
    rcases eq_or_rel_of_pairwise h.functionsApart ha hb with hab | hab | hab
    · exact hab
    · omega
    · omega
  have heq' : rel'.offset = rel₂'.offset := add_right_cancel heq
  rw [(hcompiled a ha).distinct rel' hrel' rel₂' hrel₂' heq']

theorem Finished.trampoline_inside {q k o j : Nat}
    (hq : q ∈ r.callTrampolineIslandOffsets)
    (hk : (r.refToBinaryOffset.drop importedFns)[k]? = some o)
    (hj : j < 5) :
    q ≤ q + trampolineCallSize * k + 4 * j ∧
      q + trampolineCallSize * k + 4 * j + 4 ≤ q + r.callTrampolineIslandSize ∧
      (q + trampolineCallSize * k + 4 * j) % 4 = 0 := by
  have hlt : k < (r.refToBinaryOffset.drop importedFns).length :=
    (List.getElem?_eq_some_iff.mp hk).1
  rw [h.drop_refs, length_map] at hlt
  have hmod := h.islandsAligned q hq
  rw [h.islandSize, trampolineCallSize]
  omega

include hcompiled

theorem Finished.writes_fit {w : Nat × List UInt8} (hw : w ∈ relocationWrites importedFns r) :
    w.2.length = 4 ∧ w.1 % 4 = 0 ∧ w.1 + 4 ≤ r.totalSize := by
  rcases mem_relocationWrites.mp hw with ⟨q, hq, k, o, j, hk, hj, rfl⟩ | ⟨rel, hrel, rfl⟩
  · obtain ⟨-, hhigh, hmod⟩ := h.trampoline_inside hq hk hj
    exact ⟨length_wordWrite _ _, hmod, le_trans hhigh (h.islandsBelow q hq)⟩
  · obtain ⟨a, ha, -, -, -, -, hhigh, hmod⟩ := h.site hcompiled hrel
    exact ⟨length_wordWrite _ _, hmod, le_trans hhigh (h.functionsBelow a ha)⟩

theorem Finished.writes_ext {v w : Nat × List UInt8}
    (hv : v ∈ relocationWrites importedFns r) (hw : w ∈ relocationWrites importedFns r)
    (heq : v.1 = w.1) : v = w := by
  have hcross : ∀ q ∈ r.callTrampolineIslandOffsets, ∀ k o j,
      (r.refToBinaryOffset.drop importedFns)[k]? = some o → j < 5 → ∀ rel ∈ r.rels,
      q + trampolineCallSize * k + 4 * j ≠ rel.offset := by
    intro q hq k o j hk hj rel hrel
    obtain ⟨hlow, hhigh, -⟩ := h.trampoline_inside hq hk hj
    obtain ⟨a, ha, -, -, -, hlow', hhigh', -⟩ := h.site hcompiled hrel
    rcases h.apart a ha q hq with hle | hle <;> omega
  rcases mem_relocationWrites.mp hv with ⟨q, hq, k, o, j, hk, hj, rfl⟩ | ⟨rel, hrel, rfl⟩
  · rcases mem_relocationWrites.mp hw with ⟨q', hq', k', o', j', hk', hj', rfl⟩ | ⟨rel, hrel, rfl⟩
    · obtain ⟨hlow, hhigh, -⟩ := h.trampoline_inside hq hk hj
      obtain ⟨hlow', hhigh', -⟩ := h.trampoline_inside hq' hk' hj'
      rw [wordWrite_fst, wordWrite_fst] at heq
      obtain rfl : q = q' := by
        rcases eq_or_rel_of_pairwise h.islandsApart hq hq' with heq' | hle | hle
        · exact heq'
        · omega
        · omega
      rw [trampolineCallSize] at heq
      obtain ⟨rfl, rfl⟩ : k = k' ∧ j = j' := by omega
      rw [hk] at hk'
      cases hk'
      rfl
    · exact absurd heq (hcross q hq k o j hk hj rel hrel)
  · rcases mem_relocationWrites.mp hw with ⟨q', hq', k', o', j', hk', hj', rfl⟩ | ⟨rel₂, hrel₂, rfl⟩
    · exact absurd heq.symm (hcross q' hq' k' o' j' hk' hj' rel hrel)
    · rw [h.rel_ext hcompiled hrel hrel₂ heq]

theorem Finished.wordAt_write {s : Slice UInt8}
    (hs : s.len = r.totalSize) {offset : Nat} {w : BitVec 32}
    (hw : wordWrite offset w ∈ relocationWrites importedFns r) :
    wordAt (s.writeAll (relocationWrites importedFns r)).toList offset = some w := by
  obtain ⟨-, hmod, hfits⟩ := h.writes_fit hcompiled hw
  rw [wordWrite_fst] at hmod hfits
  have hextract := extract_writeAll hw (fun v hv => by
      obtain ⟨hlen, -, hfits⟩ := h.writes_fit hcompiled hv
      rwa [hlen, hs])
    (fun v hv => by
      obtain ⟨hlen, hmod', -⟩ := h.writes_fit hcompiled hv
      by_cases heq : v.1 = (wordWrite offset w).1
      · exact .inl (h.writes_ext hcompiled hv hw heq)
      · rw [wordWrite_fst] at heq
        rw [Slice.Apart, length_wordWrite, wordWrite_fst]
        omega)
  rw [length_wordWrite, wordWrite_fst, Slice.extract] at hextract
  rw [wordAt, if_pos (by rwa [length_toList, writeAll_len, hs]), hextract]
  show some (BitVec.ofNat 32 (leNat (leBytes 4 w.toNat))) = some w
  rw [leNat_leBytes, show 256 ^ 4 = 2 ^ 32 from rfl, Nat.mod_eq_of_lt w.isLt, ofNat_toNat,
    setWidth_eq]

end

end Words

/-! ## Running a call -/

section Run

variable {base : BitVec 64} {code : List UInt8} {regs : Emission.Regs (BitVec 64)}

theorem pc_sub_toNat (base : BitVec 64) {offset : Nat} (h : offset < 2 ^ 64) :
    (base + BitVec.ofNat 64 offset - base).toNat = offset := by
  rw [add_sub_cancel_left, toNat_ofNat, Nat.mod_eq_of_lt h]

theorem pc_add (base : BitVec 64) (offset n : Nat) :
    base + BitVec.ofNat 64 offset + BitVec.ofNat 64 n = base + BitVec.ofNat 64 (offset + n) := by
  rw [add_assoc, ofNat_add]

theorem pc_add_diff (base : BitVec 64) (offset target : Nat) :
    base + BitVec.ofNat 64 offset + BitVec.ofInt 64 ((target : Int) - offset) =
      base + BitVec.ofNat 64 target := by
  rw [add_assoc, ← ofInt_natCast, ← ofInt_natCast, ← ofInt_add]
  congr 2
  omega

theorem step_at {offset : Nat} {w : BitVec 32} {i : BranchInstr} (hoffset : offset < 2 ^ 64)
    (hword : wordAt code offset = some w) (hdecode : decodeBranch w = some i) :
    Cpu.step base code ⟨base + BitVec.ofNat 64 offset, regs⟩ =
      Cpu.exec base code ⟨base + BitVec.ofNat 64 offset, regs⟩ i := by
  rw [Cpu.step, pc_sub_toNat base hoffset, hword, Option.bind_eq_bind, Option.bind_some, hdecode,
    Option.bind_eq_bind, Option.bind_some]

theorem signExtend_ofInt {diff : Int} (h : Near diff) :
    (BitVec.ofInt 32 diff).signExtend 64 = BitVec.ofInt 64 diff := by
  obtain ⟨hlow, hhigh⟩ := h
  apply eq_of_toInt_eq
  rw [toInt_signExtend_of_le (by decide), toInt_ofInt, toInt_ofInt,
    Int.bmod_eq_of_le (by omega) (by omega), Int.bmod_eq_of_le (by omega) (by omega)]

/-- A trampoline takes four instructions to its function and changes two registers. -/
theorem run_trampoline (base : BitVec 64) (regs : Emission.Regs (BitVec 64)) {offset target : Nat}
    (hoffset : offset + 20 < 2 ^ 64)
    (hnear : Near ((target : Int) - (offset + 16 : Nat)))
    (hwords : ∀ j < 5, wordAt code (offset + 4 * j) =
      some (trampolineWord ((target : Int) - (offset + 16 : Nat)) j)) :
    ∃ regs', Cpu.run base code 4 ⟨base + BitVec.ofNat 64 offset, regs⟩ =
        some ⟨base + BitVec.ofNat 64 target, regs'⟩ ∧ ∀ q, q ≠ 11 → q ≠ 27 → regs' q = regs q := by
  have hadr : decodeBranch (0x1000009b#32) = some (.adr 27 16) := by decide
  have hload : decodeBranch (encodeSLoad32 tmpReg2 tmpReg) = some (.ldrsw 11 27 0) := by decide
  have hadd : decodeBranch (encodeAdd64 tmpReg tmpReg tmpReg2) = some (.add 27 27 11) := by decide
  have hbr : decodeBranch (encodeUnconditionalBranchReg tmpReg false) = some (.br 27) := by decide
  have hliteral : base + BitVec.ofNat 64 offset + BitVec.ofInt 64 16 =
      base + BitVec.ofNat 64 (offset + 16) := pc_add base offset 16
  have h₁ : Cpu.step base code ⟨base + BitVec.ofNat 64 offset, regs⟩ =
      some ⟨base + BitVec.ofNat 64 (offset + 4), regs.set 27
        (base + BitVec.ofNat 64 (offset + 16))⟩ := by
    have hword : wordAt code offset = some 0x1000009b#32 := hwords 0 (by decide)
    rw [step_at (by omega) hword hadr]
    simp only [Cpu.exec, pc_add, hliteral]
  have h₂ (regs : Emission.Regs (BitVec 64))
      (hreg : regs 27 = base + BitVec.ofNat 64 (offset + 16)) :
      Cpu.step base code ⟨base + BitVec.ofNat 64 (offset + 4), regs⟩ =
        some ⟨base + BitVec.ofNat 64 (offset + 8),
          regs.set 11 (BitVec.ofInt 64 ((target : Int) - (offset + 16 : Nat)))⟩ := by
    have hword : wordAt code (offset + 4) = some (encodeSLoad32 tmpReg2 tmpReg) :=
      hwords 1 (by decide)
    have hdiff : wordAt code (offset + 16) =
        some (BitVec.ofInt 32 ((target : Int) - (offset + 16 : Nat))) :=
      hwords 4 (by decide)
    rw [step_at (by omega) hword hload]
    simp only [Cpu.exec, hreg, pc_add, add_zero, pc_sub_toNat base
      (show offset + 16 < 2 ^ 64 by omega),
      hdiff, Option.bind_eq_bind, Option.bind_some, signExtend_ofInt hnear]
  have h₃ (regs : Emission.Regs (BitVec 64)) (hreg : regs 27 = base + BitVec.ofNat 64 (offset + 16))
      (hreg' : regs 11 = BitVec.ofInt 64 ((target : Int) - (offset + 16 : Nat))) :
      Cpu.step base code ⟨base + BitVec.ofNat 64 (offset + 8), regs⟩ =
        some ⟨base + BitVec.ofNat 64 (offset + 12), regs.set 27
          (base + BitVec.ofNat 64 target)⟩ := by
    have hword : wordAt code (offset + 8) = some (encodeAdd64 tmpReg tmpReg tmpReg2) :=
      hwords 2 (by decide)
    rw [step_at (by omega) hword hadd]
    simp only [Cpu.exec, hreg, hreg', pc_add, pc_add_diff]
  have h₄ (regs : Emission.Regs (BitVec 64)) (hreg : regs 27 = base + BitVec.ofNat 64 target) :
      Cpu.step base code ⟨base + BitVec.ofNat 64 (offset + 12), regs⟩ =
        some ⟨base + BitVec.ofNat 64 target, regs⟩ := by
    have hword : wordAt code (offset + 12) = some (encodeUnconditionalBranchReg tmpReg false) :=
      hwords 3 (by decide)
    rw [step_at (by omega) hword hbr]
    simp only [Cpu.exec, hreg]
  refine ⟨((regs.set 27 (base + BitVec.ofNat 64 (offset + 16))).set 11
    (BitVec.ofInt 64 ((target : Int) - (offset + 16 : Nat)))).set 27
      (base + BitVec.ofNat 64 target), ?_, ?_⟩
  · rw [Cpu.run, h₁, Option.bind_some, Cpu.run, h₂ _ (set_same _ _ _), Option.bind_some, Cpu.run,
      h₃ _ ?_ (set_same _ _ _), Option.bind_some, Cpu.run,
      h₄ _ (set_same _ _ _), Option.bind_some, Cpu.run]
    rw [set_of_ne _ _ (by decide), set_same]
  · intro q h11 h27
    rw [set_of_ne _ _ h27, set_of_ne _ _ h11, set_of_ne _ _ h27]

end Run

/-- From the call instruction at `site` the processor gets to `callee`, with the return address in
the link register unless it is a tail call, and with all other registers as they were except the two
that trampolines use. -/
def Lands (base : BitVec 64) (code : List UInt8) (site : Nat) (isTailCall : Bool)
    (callee : Nat) : Prop :=
  ∀ regs, ∃ n regs', 0 < n ∧
    Cpu.run base code n ⟨base + BitVec.ofNat 64 site, regs⟩ =
      some ⟨base + BitVec.ofNat 64 callee, regs'⟩ ∧
    regs' 30 = (if isTailCall then regs 30 else base + BitVec.ofNat 64 (site + 4)) ∧
    ∀ q, q ≠ 11 → q ≠ 27 → q ≠ 30 → regs' q = regs q

section Lands

variable {importedFns : Nat} {placed : List Placed} {r : EngineRelocator}

theorem Finished.totalSize_lt (h : Finished importedFns placed r) : r.totalSize + 20 < 2 ^ 64 := by
  have hdense := h.density
  have hle := h.islands_le
  have hcount := h.count_le
  rw [h.interval, trampolineIslandInterval_eq] at hdense
  rw [maxNumFunctions_eq] at hcount
  omega

theorem step_branch (base : BitVec 64) {code : List UInt8} {site target : Nat} {w : BitVec 32}
    {isTailCall : Bool} (hsite : site < 2 ^ 64) (hword : wordAt code site = some w)
    (hdecode : decodeBranch w =
      some (if isTailCall then .b ((target : Int) - site) else .bl ((target : Int) - site)))
    (regs : Emission.Regs (BitVec 64)) :
    ∃ regs', Cpu.step base code ⟨base + BitVec.ofNat 64 site, regs⟩ =
        some ⟨base + BitVec.ofNat 64 target, regs'⟩ ∧
      regs' 30 = (if isTailCall then regs 30 else base + BitVec.ofNat 64 (site + 4)) ∧
      ∀ q, q ≠ 30 → regs' q = regs q := by
  rw [step_at hsite hword hdecode]
  cases isTailCall with
  | true =>
    refine ⟨regs, ?_, rfl, fun _ _ => rfl⟩
    simp only [if_true, Cpu.exec, pc_add_diff]
  | false =>
    refine ⟨regs.set 30 (base + BitVec.ofNat 64 (site + 4)), ?_, set_same _ _ _,
      fun q hq => set_of_ne _ _ hq⟩
    simp only [Bool.false_eq_true, if_false, Cpu.exec, pc_add_diff, pc_add]

theorem Finished.lands (h : Finished importedFns placed r)
    (hcompiled : ∀ a ∈ placed, Compiled importedFns placed.length a.code) (hnear : IslandsNear r)
    {s : Slice UInt8} (hs : s.len = r.totalSize) {rel : RelocationInfo} (hrel : rel ∈ r.rels) :
    ∃ k callee, placed[k]? = some callee ∧ rel.funcRef = importedFns + k ∧
      ∀ base, Lands base (s.writeAll (relocationWrites importedFns r)).toList rel.offset
        rel.isTailCall
        callee.offset := by
  obtain ⟨k, callee, diff, hk, href, hdecode, -, htarget⟩ := h.branchWord_spec hcompiled hrel
  refine ⟨k, callee, hk, href, fun base regs => ?_⟩
  have htotal := h.totalSize_lt
  have hmem := mem_relocationWrites.mpr (.inr ⟨rel, hrel, rfl⟩ : _ ∨ ∃ rel' ∈ r.rels,
    wordWrite rel.offset (branchWord importedFns r rel) = wordWrite rel'.offset
      (branchWord importedFns r rel'))
  have hword := h.wordAt_write hcompiled hs hmem
  have hsite := (h.writes_fit hcompiled hmem).2.2
  rw [wordWrite_fst] at hsite
  have hlt : rel.offset < 2 ^ 64 := by omega
  rcases htarget with rfl | ⟨q, hq, rfl⟩
  · obtain ⟨regs', hstep, hlink, hkeep⟩ := step_branch base hlt hword hdecode regs
    refine ⟨1, regs', by decide, ?_, hlink, fun i _ _ hi => hkeep i hi⟩
    rw [Cpu.run, hstep]
    rfl
  obtain ⟨regs₁, hstep, hlink, hkeep⟩ := step_branch base hlt hword hdecode regs
  have hk' : (r.refToBinaryOffset.drop importedFns)[k]? = some callee.offset := by
    rw [h.drop_refs, List.getElem?_map, hk]
    rfl
  have hnear' := hnear q hq k callee.offset (by rw [h.offsets, List.getElem?_map, hk]; rfl)
  have hisland := h.islandsBelow q hq
  obtain ⟨-, hinside, -⟩ := h.trampoline_inside hq hk' (show 4 < 5 by decide)
  obtain ⟨regs', hrun, hkeep'⟩ := run_trampoline base regs₁ (by omega) hnear' fun j hj =>
      h.wordAt_write hcompiled hs (mem_relocationWrites.mpr
        (.inl ⟨q, hq, k, callee.offset, j, hk', hj, rfl⟩))
  refine ⟨5, regs', by decide, ?_, ?_, ?_⟩
  · rw [Cpu.run, hstep]
    exact hrun
  · rw [hkeep' 30 (by decide) (by decide), hlink]
  · intro i h11 h27 h30
    rw [hkeep' i h11 h27, hkeep i h30]

/-! ## The bodies -/

def bodyWrites (r : EngineRelocator) : List (Nat × List UInt8) :=
  (r.bodies.zipIdx 0).flatMap fun b => [(r.functionOffsets[b.2]?.getD 0, b.1)]

section

variable (h : Finished importedFns placed r)

include h

theorem Finished.mem_bodyWrites {w : Nat × List UInt8} :
    w ∈ bodyWrites r ↔ ∃ a ∈ placed, w = (a.offset, a.code.body) := by
  have hk (k : Nat) : (r.functionOffsets[k]?.getD 0, r.bodies[k]?) =
      (((placed[k]?).map Placed.offset).getD 0, (placed[k]?).map (·.code.body)) := by
    rw [h.offsets, h.bodies, List.getElem?_map, List.getElem?_map]
  simp only [bodyWrites, mem_flatMap, mem_singleton]
  constructor
  · rintro ⟨⟨body, k⟩, hb, rfl⟩
    have hb' := mem_zipIdx_iff_getElem?.mp hb
    obtain ⟨hoffset, hbody⟩ := Prod.ext_iff.mp (hk k)
    dsimp only at hoffset hbody hb' ⊢
    rw [hbody, Option.map_eq_some_iff] at hb'
    obtain ⟨a, ha, rfl⟩ := hb'
    rw [ha] at hoffset
    exact ⟨a, mem_of_getElem? ha, by rw [hoffset]; rfl⟩
  · rintro ⟨a, ha, rfl⟩
    obtain ⟨k, hka⟩ := getElem?_of_mem ha
    obtain ⟨hoffset, hbody⟩ := Prod.ext_iff.mp (hk k)
    dsimp only at hoffset hbody
    rw [hka] at hoffset hbody
    exact ⟨(a.code.body, k), mem_zipIdx_iff_getElem?.mpr hbody, by rw [hoffset]; rfl⟩

variable {s : Slice UInt8}

theorem Finished.copyBodies_eq_ok
    (hs : s.len = r.totalSize) : r.copyBodies s = .ok (s.writeAll (bodyWrites r)) := by
  refine fold_writes (w := fun i body => [(r.functionOffsets[i]?.getD 0, body)]) hs
    fun k body hk s' hs' => ?_
  rw [h.bodies, List.getElem?_map, Option.map_eq_some_iff] at hk
  obtain ⟨a, ha, rfl⟩ := hk
  have hoffset : r.functionOffsets[k]? = some a.offset := by
    rw [h.offsets, List.getElem?_map, ha]
    rfl
  have hbelow := h.functionsBelow a (mem_of_getElem? ha)
  rw [zero_add, Check.index_eq_ok_iff.mpr hoffset, hoffset]
  exact copyAt_eq_ok (by rwa [hs'])

theorem Finished.bodyWrites_fit {w : Nat × List UInt8}
    (hw : w ∈ bodyWrites r) : w.1 + w.2.length ≤ r.totalSize := by
  obtain ⟨a, ha, rfl⟩ := h.mem_bodyWrites.mp hw
  exact h.functionsBelow a ha

theorem Finished.copied_byte
    (hs : s.len = r.totalSize) {a : Placed} (ha : a ∈ placed) {i : Nat}
    (hi : i < a.code.body.length) :
    (s.writeAll (bodyWrites r)).toList[a.offset + i]? = a.code.body[i]? := by
  have hbody := extract_writeAll (s := s) (h.mem_bodyWrites.mpr ⟨a, ha, rfl⟩)
    (fun v hv => by rw [hs]; exact h.bodyWrites_fit hv) fun v hv => by
      obtain ⟨b, hb, rfl⟩ := h.mem_bodyWrites.mp hv
      rcases eq_or_rel_of_pairwise h.functionsApart ha hb with rfl | hle | hle
      · exact .inl rfl
      · exact .inr (.inl hle)
      · exact .inr (.inr hle)
  rw [← congrArg (·[i]?) hbody, Slice.extract, getElem?_take, if_pos hi, getElem?_drop]

theorem Finished.body_byte (hcompiled : ∀ a ∈ placed, Compiled importedFns placed.length a.code)
    (hs : s.len = r.totalSize) {a : Placed} (ha : a ∈ placed) {i : Nat}
    (hi : i < a.code.body.length)
    (hcall : ∀ rel ∈ a.code.rels, ¬ (rel.offset ≤ i ∧ i < rel.offset + 4)) :
    ((s.writeAll (bodyWrites r)).writeAll (relocationWrites importedFns r)).toList[a.offset + i]? =
      a.code.body[i]? := by
  rw [getElem?_writeAll]
  · exact h.copied_byte hs ha hi
  · intro v hv
    obtain ⟨hlen, -, hfits⟩ := h.writes_fit hcompiled hv
    rwa [hlen, writeAll_len, hs]
  · intro v hv
    rcases mem_relocationWrites.mp hv with ⟨q, hq, k, o, j, hk, hj, rfl⟩ | ⟨rel, hrel, rfl⟩
    · obtain ⟨hlow, hhigh, -⟩ := h.trampoline_inside hq hk hj
      have hapart := h.apart a ha q hq
      rw [Placed.stop] at hapart
      rw [length_wordWrite, wordWrite_fst]
      omega
    · obtain ⟨b, hb, rel', hrel', rfl, hlow, hhigh, -⟩ := h.site hcompiled hrel
      rw [length_wordWrite, wordWrite_fst]
      rcases eq_or_rel_of_pairwise h.functionsApart ha hb with rfl | hle | hle
      · have := hcall rel' hrel'
        dsimp only
        omega
      · rw [Placed.stop] at hle
        omega
      · omega

end

/-! ## Modules that are too large -/

theorem Finished.mul_le_offset (h : Finished importedFns placed r) {m : Nat}
    (hm : ∀ a ∈ placed, m ≤ a.code.body.length) (i : Nat) (hi : i < placed.length) :
    i * m ≤ placed[i].offset := by
  induction i with
  | zero =>
    rw [Nat.zero_mul]
    exact Nat.zero_le _
  | succ i ih =>
    have hi' : i < placed.length := Nat.lt_of_succ_lt hi
    have hbody := hm _ (getElem_mem hi')
    calc (i + 1) * m = i * m + m := Nat.succ_mul i m
      _ ≤ placed[i].offset + placed[i].code.body.length := add_le_add (ih hi') hbody
      _ ≤ placed[i + 1].offset :=
          pairwise_iff_getElem.mp h.functionsApart i (i + 1) hi' hi (Nat.lt_succ_self i)

theorem Finished.islands_pos (h : Finished importedFns placed r) {m n : Nat}
    (hlen : placed.length = n + 1)
    (hm : ∀ a ∈ placed, m ≤ a.code.body.length) (hfar : 67108861 ≤ n * m) :
    0 < r.callTrampolineIslandOffsets.length := by
  have hlast : n < placed.length := by omega
  have hoffset := h.mul_le_offset hm n hlast
  have hbelow := h.functionsBelow _ (getElem_mem hlast)
  have hdense := h.density
  rw [h.interval, trampolineIslandInterval_eq] at hdense
  rw [Placed.stop] at hbelow
  omega

theorem Finished.islandsNear (h : Finished importedFns placed r) (hlen : placed.length ≤ 16) :
    IslandsNear r := by
  intro q hq k o ho
  have hdense := h.density
  have hislands := h.islands_le
  have hbelow := h.islandsBelow q hq
  rw [h.interval, trampolineIslandInterval_eq] at hdense
  rw [h.offsets, List.getElem?_map] at ho
  obtain ⟨a, ha, rfl⟩ := Option.map_eq_some_iff.mp ho
  have hk := (List.getElem?_eq_some_iff.mp ha).1
  have hstop := h.functionsBelow a (mem_of_getElem? ha)
  rw [Placed.stop] at hstop
  rw [Near, trampolineDiff, trampolineCallSize]
  omega

/-- There is an island soon after the first interval, and the last function is far from it. -/
theorem Finished.not_near (h : Finished importedFns placed r) {m n : Nat}
    (hlen : placed.length = n + 1)
    (hm : ∀ a ∈ placed, m ≤ a.code.body.length)
    (hfar : 2 ^ 31 + 67108861 + 16777230 + (20 * n + 16) ≤ n * m) : ¬ IslandsNear r := by
  intro hnear
  have hlast : n < placed.length := by omega
  have hoffset := h.mul_le_offset hm n hlast
  have hspacing := h.spacing
  rw [h.interval, trampolineIslandInterval_eq, maxFunctionExecutableSize_eq] at hspacing
  have hfirst := List.getElem?_eq_getElem (h.islands_pos hlen hm (by omega))
  have hq := (hspacing 0 _ hfirst).2
  have hdiff := (hnear _ (mem_of_getElem? hfirst) n placed[n].offset (by
    rw [h.offsets, List.getElem?_map, List.getElem?_eq_getElem hlast]; rfl)).2
  rw [trampolineDiff, trampolineCallSize] at hdiff
  omega

end Lands

end Andsifr.Arm64
