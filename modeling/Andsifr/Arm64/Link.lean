import Andsifr.Arm64.RelocationLands

namespace Andsifr.Arm64

open Lib Wazevo List

/-! ## Linking -/

namespace Program

variable (p : Program)

theorem exists_finished : ∃ placed, placed.map Placed.code = p.functions ∧
    Finished p.importedFns placed p.relocator ∧
    ∀ a ∈ placed, Compiled p.importedFns placed.length a.code := by
  obtain ⟨placed, hcode, hint, hisl, hlaid⟩ := p.exists_laid
  have hlen : p.functions.length = placed.length := by rw [← hcode, length_map]
  rw [hlen] at hlaid hisl
  refine ⟨placed, hcode, ⟨hlaid, hint, hisl, hlen ▸ p.count_le⟩, fun a ha => ?_⟩
  rw [← hlen]
  exact p.compiled a.code (hcode ▸ mem_map_of_mem ha)

/-- The code segment before anything is stored. -/
def segment : Slice UInt8 :=
  .ofList (replicate p.relocator.totalSize 0)

theorem segment_len : p.segment.len = p.relocator.totalSize :=
  length_replicate ..

theorem link_eq : p.link = (do
    let executable ← p.relocator.resolve linkerMachine (p.segment.writeAll (bodyWrites p.relocator))
      p.importedFns
    return (p.relocator, executable)) := by
  obtain ⟨placed, hcode, hfinished, hcompiled⟩ := p.exists_finished
  have hpos : p.relocator.totalSize ≠ 0 := by
    have hlen : 0 < placed.length := by
      have := p.pos
      rwa [← hcode, length_map] at this
    have hmem := getElem_mem hlen
    have hbelow := hfinished.functionsBelow _ hmem
    have hbody := (hcompiled _ hmem).pos
    rw [Placed.stop] at hbelow
    omega
  rw [link, linkModule, p.newEngineRelocator_eq]
  show (do
    let executable ← mmapCodeSegment p.relocator.totalSize
    let executable ← p.relocator.copyBodies executable
    let executable ← p.relocator.resolve linkerMachine executable p.importedFns
    return (p.relocator, executable)) = _
  have hmap : mmapCodeSegment p.relocator.totalSize = .ok p.segment := if_neg hpos
  rw [hmap, Check.bind_ok, hfinished.copyBodies_eq_ok p.segment_len, Check.bind_ok]

theorem link_eq_ok_iff (r : EngineRelocator) (executable : Slice UInt8) :
    p.link = .ok (r, executable) ↔ r = p.relocator ∧
        (p.relocator.rels = [] ∧ executable = p.segment.writeAll (bodyWrites p.relocator) ∨
          p.relocator.rels ≠ [] ∧ IslandsNear p.relocator ∧
            executable = (p.segment.writeAll (bodyWrites p.relocator)).writeAll
              (relocationWrites p.importedFns p.relocator)) := by
  obtain ⟨placed, hcode, hfinished, hcompiled⟩ := p.exists_finished
  have hlen : (p.segment.writeAll (bodyWrites p.relocator)).len = p.relocator.totalSize := by
    rw [Slice.writeAll_len, p.segment_len]
  rw [p.link_eq, EngineRelocator.resolve]
  by_cases hrels : p.relocator.rels = []
  · rw [hrels]
    constructor
    · intro h
      cases h
      exact ⟨rfl, .inl ⟨rfl, rfl⟩⟩
    · rintro ⟨rfl, ⟨-, rfl⟩ | ⟨hne, -⟩⟩
      · rfl
      · exact absurd rfl hne
  · rw [if_pos (length_pos_iff.mpr hrels), Check.bind_eq_ok_iff]
    constructor
    · rintro ⟨s, hs, h⟩
      cases h
      have hnear := hfinished.near_of_resolve hs
      refine ⟨rfl, .inr ⟨hrels, hnear, ?_⟩⟩
      have hok := hs.symm.trans (hfinished.resolveRelocations_eq_ok hcompiled hnear hlen)
      cases hok
      rfl
    · rintro ⟨rfl, ⟨hnil, -⟩ | ⟨-, hnear, rfl⟩⟩
      · exact absurd hnil hrels
      · exact ⟨_, hfinished.resolveRelocations_eq_ok hcompiled hnear hlen, rfl⟩

/-- No two of the functions and islands overlap. -/
structure Disjoint : Prop where
  functions : ∀ (i j : Nat) (f : FunctionCode) (o o' : Nat), i < j → p.functions[i]? = some f →
    p.relocator.functionOffsets[i]? = some o →
    p.relocator.functionOffsets[j]? = some o' → o + f.body.length ≤ o'
  islands : p.relocator.callTrampolineIslandOffsets.Pairwise fun q q' =>
    q + p.relocator.callTrampolineIslandSize ≤ q'
  apart : ∀ (i : Nat) (f : FunctionCode) (o : Nat), p.functions[i]? = some f →
    p.relocator.functionOffsets[i]? = some o →
    ∀ q ∈ p.relocator.callTrampolineIslandOffsets,
      o + f.body.length ≤ q ∨ q + p.relocator.callTrampolineIslandSize ≤ o

/-- The executable holds the code of every function at its offset, and every call in it lands at the
offset of its callee, wherever the executable is mapped. -/
structure Linked (executable : Slice UInt8) : Prop where
  bodies : ∀ (i : Nat) (f : FunctionCode) (o : Nat), p.functions[i]? = some f →
    p.relocator.functionOffsets[i]? = some o →
    ∀ j < f.body.length, (∀ rel ∈ f.rels, ¬ (rel.offset ≤ j ∧ j < rel.offset + 4)) →
      executable.toList[o + j]? = f.body[j]?
  calls : ∀ (i : Nat) (f : FunctionCode) (o : Nat), p.functions[i]? = some f →
    p.relocator.functionOffsets[i]? = some o →
    ∀ rel ∈ f.rels, ∃ callee,
      p.relocator.functionOffsets[rel.funcRef - p.importedFns]? = some callee ∧
      ∀ base, Lands base executable.toList (rel.offset + o) rel.isTailCall callee

variable {p}

theorem getElem?_placed {placed : List Placed} (hcode : placed.map Placed.code = p.functions)
    (h : Finished p.importedFns placed p.relocator) {i o : Nat} {f : FunctionCode}
    (hf : p.functions[i]? = some f) (ho : p.relocator.functionOffsets[i]? = some o) :
    placed[i]? = some ⟨o, f⟩ := by
  rw [← hcode, getElem?_map, Option.map_eq_some_iff] at hf
  obtain ⟨a, ha, rfl⟩ := hf
  rw [h.offsets, getElem?_map, ha] at ho
  cases ho
  exact ha

theorem disjoint (p : Program) : p.Disjoint := by
  obtain ⟨placed, hcode, hfinished, -⟩ := p.exists_finished
  refine ⟨?_, hfinished.islandsApart, ?_⟩
  · intro i j f o o' hij hf ho ho'
    obtain ⟨hi, hplaced⟩ := List.getElem?_eq_some_iff.mp (getElem?_placed hcode hfinished hf ho)
    rw [hfinished.offsets, getElem?_map, Option.map_eq_some_iff] at ho'
    obtain ⟨b, hb, rfl⟩ := ho'
    obtain ⟨hj, rfl⟩ := List.getElem?_eq_some_iff.mp hb
    have hle := pairwise_iff_getElem.mp hfinished.functionsApart i j hi hj hij
    rwa [hplaced] at hle
  · intro i f o hf ho q hq
    exact hfinished.apart _ (mem_of_getElem? (getElem?_placed hcode hfinished hf ho)) q hq

theorem linked_of_link {r : EngineRelocator} {executable : Slice UInt8}
    (h : p.link = .ok (r, executable)) : p.Linked executable := by
  obtain ⟨placed, hcode, hfinished, hcompiled⟩ := p.exists_finished
  obtain ⟨rfl, hcases⟩ := (p.link_eq_ok_iff r executable).mp h
  have hlen : (p.segment.writeAll (bodyWrites p.relocator)).len = p.relocator.totalSize := by
    rw [Slice.writeAll_len, p.segment_len]
  have hsite {i o : Nat} {f : FunctionCode} {rel : RelocationInfo} (hf : p.functions[i]? = some f)
      (ho : p.relocator.functionOffsets[i]? = some o) (hrel : rel ∈ f.rels) :
      { rel with offset := rel.offset + o } ∈ p.relocator.rels := by
    rw [hfinished.rels, mem_flatMap]
    exact ⟨_, mem_of_getElem? (getElem?_placed hcode hfinished hf ho), mem_map_of_mem hrel⟩
  rcases hcases with ⟨hnil, rfl⟩ | ⟨hne, hnear, rfl⟩
  · -- Without calls nothing is stored after the bodies.
    have hempty : ∀ (i : Nat) (f : FunctionCode) (o : Nat), p.functions[i]? = some f →
        p.relocator.functionOffsets[i]? = some o → ∀ rel, rel ∉ f.rels := by
      intro i f o hf ho rel hrel
      have := hsite hf ho hrel
      rw [hnil] at this
      cases this
    refine ⟨?_, fun i f o hf ho rel hrel => absurd hrel (hempty i f o hf ho rel)⟩
    intro i f o hf ho j hj _
    exact hfinished.copied_byte p.segment_len
      (mem_of_getElem? (getElem?_placed hcode hfinished hf ho)) hj
  · refine ⟨?_, ?_⟩
    · intro i f o hf ho j hj hcall
      exact hfinished.body_byte hcompiled p.segment_len
        (mem_of_getElem? (getElem?_placed hcode hfinished hf ho)) hj hcall
    · intro i f o hf ho rel hrel
      obtain ⟨k, callee, hk, href, hlands⟩ := hfinished.lands hcompiled hnear hlen
        (hsite hf ho hrel)
      refine ⟨callee.offset, ?_, hlands⟩
      have hsub : rel.funcRef - p.importedFns = k := by
        have : rel.funcRef = p.importedFns + k := href
        omega
      rw [hsub, hfinished.offsets, getElem?_map, hk]
      rfl

end Program

/-- Nothing overlaps; relocation fails exactly if there are calls and some function is too far from
an island for the immediate of a trampoline; and otherwise every call lands at its callee. -/
theorem relocation_reaches_callees (p : Program) :
    p.Disjoint ∧
      ((∃ r executable, p.link = .ok (r, executable)) ↔
        (p.relocator.rels = [] ∨ IslandsNear p.relocator)) ∧
      ∀ r executable, p.link = .ok (r, executable) → p.Linked executable := by
  refine ⟨p.disjoint, ?_, fun r executable h => Program.linked_of_link h⟩
  constructor
  · rintro ⟨r, executable, h⟩
    rcases ((p.link_eq_ok_iff r executable).mp h).2 with ⟨hnil, -⟩ | ⟨-, hnear, -⟩
    · exact .inl hnil
    · exact .inr hnear
  · intro h
    by_cases hnil : p.relocator.rels = []
    · exact ⟨_, _, (p.link_eq_ok_iff _ _).mpr ⟨rfl, .inl ⟨hnil, rfl⟩⟩⟩
    · exact ⟨_, _, (p.link_eq_ok_iff _ _).mpr ⟨rfl, .inr ⟨hnil, h.resolve_left hnil, rfl⟩⟩⟩

/-- A function of 16 MiB less a word that calls the first function. -/
def hugeFunction : FunctionCode :=
  ⟨replicate 16777212 0, [⟨0, 0, false⟩]⟩

theorem length_hugeFunction : hugeFunction.body.length = 16777212 :=
  length_replicate ..

def hugeModule (n : Fin 160) : Program where
  importedFns := 0
  functions := replicate (n + 1) hugeFunction
  pos := by rw [length_replicate]; exact Nat.succ_pos n
  count_le := by
    have hmax : 160 ≤ maxNumFunctions := by decide
    rw [length_replicate]
    exact le_trans n.isLt hmax
  compiled := by
    intro f hf
    rw [eq_of_mem_replicate hf, length_replicate]
    have hsize : 16777212 ≤ maxFunctionExecutableSize := by decide
    refine ⟨by rw [length_hugeFunction]; decide, by rwa [length_hugeFunction],
      by rw [length_hugeFunction], ?_, ?_, ?_⟩
    · intro r hr
      rw [mem_singleton.mp hr, length_hugeFunction]
      decide
    · intro r hr r' hr' _
      rw [mem_singleton.mp hr, mem_singleton.mp hr']
    · intro r hr
      rw [mem_singleton.mp hr]
      exact ⟨Nat.le_refl 0, Nat.succ_pos _⟩

theorem hugeModule_finished (n : Fin 160) : ∃ placed, placed.length = n.val + 1 ∧
    (∀ a ∈ placed, a.code = hugeFunction) ∧ Finished 0 placed (hugeModule n).relocator := by
  obtain ⟨placed, hcode, hfinished, -⟩ := (hugeModule n).exists_finished
  refine ⟨placed, ?_, fun a ha => ?_, hfinished⟩
  · rw [← length_map, hcode]
    exact length_replicate ..
  · have hmem : a.code ∈ placed.map Placed.code := mem_map_of_mem ha
    rw [hcode] at hmem
    exact eq_of_mem_replicate hmem

/-- Ten of these functions need an island to call the first one. -/
theorem relocation_reaches_callees_island :
    (hugeModule 9).relocator.callTrampolineIslandOffsets ≠ [] ∧ ∃ r executable,
      (hugeModule 9).link = .ok (r, executable) ∧ (hugeModule 9).Linked executable := by
  obtain ⟨placed, hlen, hcodes, hfinished⟩ := hugeModule_finished 9
  obtain ⟨-, hok, hlinked⟩ := relocation_reaches_callees (hugeModule 9)
  obtain ⟨r, executable, h⟩ := hok.mpr (.inr (hfinished.islandsNear (hlen.trans_le (by decide))))
  refine ⟨ne_nil_of_length_pos (hfinished.islands_pos hlen (m := 16777212) ?_ (by decide)), r,
    executable, h, hlinked r executable h⟩
  exact fun a ha => by rw [hcodes a ha, length_hugeFunction]

/-- The last of 160 functions is more than 2 GiB away from the first island. -/
theorem hugeModule_not_linked : ¬ ∀ p : Program, ∃ r executable, p.link = .ok (r, executable) := by
  intro hall
  obtain ⟨r, executable, hok⟩ := hall (hugeModule 159)
  obtain ⟨placed, hlen, hcodes, hfinished⟩ := hugeModule_finished 159
  have hrels : (hugeModule 159).relocator.rels ≠ [] := by
    have hmem := getElem_mem (show 0 < placed.length by rw [hlen]; decide)
    have hcall : (⟨0 + placed[0].offset, 0, false⟩ : RelocationInfo) ∈ Placed.rels placed[0] := by
      rw [Placed.rels, hcodes _ hmem]
      exact mem_singleton_self _
    rw [hfinished.rels]
    exact ne_nil_of_mem (mem_flatMap.mpr ⟨_, hmem, hcall⟩)
  have hfar := hfinished.not_near hlen (m := 16777212)
    (fun a ha => by rw [hcodes a ha, length_hugeFunction]) (by decide)
  rcases (((hugeModule 159).link_eq_ok_iff r executable).mp hok).2 with ⟨hnil, -⟩ | ⟨-, hnear, -⟩
  · exact hrels hnil
  · exact hfar hnear

end Andsifr.Arm64
