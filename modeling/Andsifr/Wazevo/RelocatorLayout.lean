import Andsifr.Wazevo.Relocator

namespace Andsifr.Wazevo

open Lib EngineRelocator List

theorem le_align16 (n : Nat) : n ≤ align16 n := by
  rw [align16]
  omega

theorem align16_le (n : Nat) : align16 n ≤ n + 15 := by
  rw [align16]
  omega

theorem align16_mod (n : Nat) : align16 n % 16 = 0 := by
  rw [align16]
  omega

structure Placed where
  offset : Nat
  code : FunctionCode

def Placed.stop (a : Placed) : Nat :=
  a.offset + a.code.body.length

def Placed.rels (a : Placed) : List RelocationInfo :=
  a.code.rels.map fun rel => { rel with offset := rel.offset + a.offset }

/-- The relocator has placed the given functions out of `localFns`, each of at most `maxSize` bytes:
the tables hold their offsets, nothing overlaps, and the islands are about an interval apart. -/
structure Laid (importedFns localFns maxSize : Nat) (placed : List Placed) (r : EngineRelocator) :
    Prop where
  bodies : r.bodies = placed.map (·.code.body)
  functionOffsets : r.functionOffsets =
    placed.map Placed.offset ++ replicate (localFns - placed.length) 0
  refToBinaryOffset : r.refToBinaryOffset =
    replicate importedFns 0 ++
      (placed.map Placed.offset ++ replicate (localFns - placed.length) 0)
  rels : r.rels = placed.flatMap Placed.rels
  functionsApart : placed.Pairwise fun a b => a.stop ≤ b.offset
  functionsBelow : ∀ a ∈ placed, a.stop ≤ r.totalSize
  functionsAligned : ∀ a ∈ placed, a.offset % 16 = 0
  islandsApart : r.callTrampolineIslandOffsets.Pairwise fun p q =>
    p + r.callTrampolineIslandSize ≤ q
  islandsBelow : ∀ p ∈ r.callTrampolineIslandOffsets, p + r.callTrampolineIslandSize ≤ r.totalSize
  apart : ∀ a ∈ placed, ∀ p ∈ r.callTrampolineIslandOffsets,
    a.stop ≤ p ∨ p + r.callTrampolineIslandSize ≤ a.offset
  islandsAligned : ∀ p ∈ r.callTrampolineIslandOffsets, p % 4 = 0
  aligned : r.totalSize % 4 = 0
  spacing : ∀ k p, r.callTrampolineIslandOffsets[k]? = some p →
    (k + 1) * r.trampolineInterval ≤ p ∧ p < (k + 1) * r.trampolineInterval + (maxSize + 15)
  islands_le : r.callTrampolineIslandOffsets.length ≤ placed.length
  density : r.totalSize < (r.callTrampolineIslandOffsets.length + 1) * r.trampolineInterval

section Layout

variable {importedFns localFns maxSize : Nat} {placed : List Placed} {r : EngineRelocator}

@[simp] theorem set_replicate_append (xs : List Nat) (k v : Nat) :
    (xs ++ replicate (k + 1) 0).set xs.length v = (xs ++ [v]) ++ replicate k 0 := by
  rw [set_append_right _ _ (Nat.le_refl _), Nat.sub_self, replicate_succ, set_cons_zero,
    append_assoc, singleton_append]

theorem pairwise_append_singleton {α : Type} {R : α → α → Prop} {l : List α} {b : α}
    (h : l.Pairwise R) (hb : ∀ a ∈ l, R a b) : (l ++ [b]).Pairwise R :=
  pairwise_append.mpr ⟨h, pairwise_singleton R b, by simpa using hb⟩

theorem forall_mem_append_singleton {α : Type} {P : α → Prop} {l : List α} {b : α}
    (h : ∀ a ∈ l, P a) (hb : P b) : ∀ a ∈ l ++ [b], P a := by
  intro a ha
  rcases mem_append.mp ha with ha | ha
  · exact h a ha
  · rwa [mem_singleton.mp ha]

section Append

variable {a : Placed} (hoffset : a.offset = align16 r.totalSize)
  (h : Laid importedFns localFns maxSize placed r) (hroom : placed.length < localFns)
  (hsize : a.code.body.length ≤ maxSize) (haligned : a.code.body.length % 4 = 0)

include hoffset h hroom hsize haligned

/-- Placing a function, before an island is added. The last two facts of a layout do not hold in
between: they become those on where an island would stand. -/
theorem Laid.place :
    let r' := r.placeFunction placed.length (placed.length + importedFns) a.code
    let placed' := placed ++ [a]
    r'.functionOffsets = placed'.map Placed.offset ++ replicate (localFns - placed'.length) 0 ∧
      r'.refToBinaryOffset = replicate importedFns 0 ++
        (placed'.map Placed.offset ++ replicate (localFns - placed'.length) 0) ∧
      a.stop % 4 = 0 ∧ a.stop < r.totalSize + (maxSize + 16) := by
  obtain ⟨k, hk⟩ : ∃ k, localFns - placed.length = k + 1 := ⟨localFns - placed.length - 1, by omega⟩
  have hlen : localFns - (placed ++ [a]).length = k := by
    rw [length_append, length_singleton]
    omega
  have hmod := align16_mod r.totalSize
  have hle := align16_le r.totalSize
  rw [Placed.stop]
  refine ⟨?_, ?_, by omega, by omega⟩
  · have hset := set_replicate_append (placed.map Placed.offset) k a.offset
    rw [length_map] at hset
    rw [hlen, map_append, map_singleton, ← hset, ← hk, ← h.functionOffsets, hoffset]
    rfl
  · have hset := set_replicate_append (replicate importedFns 0 ++ placed.map Placed.offset)
      k a.offset
    rw [length_append, length_replicate, length_map, add_comm importedFns] at hset
    rw [hlen, map_append, map_singleton, ← append_assoc, ← append_assoc, ← hset, ← hk,
      append_assoc, ← h.refToBinaryOffset, hoffset]
    rfl

/-- The step of the layout: the function comes after everything placed so far, and an island, if the
total size has passed one more interval, after the function. -/
theorem Laid.append
    (hisland : 0 < r.callTrampolineIslandSize) (hislandAligned : r.callTrampolineIslandSize % 4 = 0)
    (hinterval : maxSize + 16 + r.callTrampolineIslandSize ≤ r.trampolineInterval) :
    Laid importedFns localFns maxSize (placed ++ [a])
      (r.appendFunction placed.length (placed.length + importedFns) a.code) := by
  obtain ⟨hoffsets, hrefs, hmod, hlt⟩ := h.place hoffset hroom hsize haligned
  have hstart : r.totalSize ≤ a.offset := hoffset ▸ le_align16 r.totalSize
  have hstop : a.offset ≤ a.stop := Nat.le_add_right _ _
  have hdense := h.density
  have hpos : 0 < r.trampolineInterval := by omega
  have hbodies : r.bodies ++ [a.code.body] = (placed ++ [a]).map (·.code.body) := by
    rw [h.bodies, map_append, map_singleton]
  have hrels : r.rels ++ a.rels = (placed ++ [a]).flatMap Placed.rels := by
    rw [h.rels, flatMap_append, flatMap_singleton]
  have hfunctions := pairwise_append_singleton h.functionsApart
    fun b hb => Nat.le_trans (h.functionsBelow b hb) hstart
  have hfunctionsAligned := forall_mem_append_singleton h.functionsAligned
    (hoffset ▸ align16_mod r.totalSize : a.offset % 16 = 0)
  have hbelow : ∀ b ∈ placed ++ [a], b.stop ≤ a.stop :=
    forall_mem_append_singleton (fun b hb => Nat.le_trans (h.functionsBelow b hb) (by omega))
      (Nat.le_refl _)
  have hislandsBelow : ∀ p ∈ r.callTrampolineIslandOffsets,
    p + r.callTrampolineIslandSize ≤ a.offset :=
    fun p hp => Nat.le_trans (h.islandsBelow p hp) hstart
  have hapart : ∀ b ∈ placed ++ [a],
      ∀ p ∈ r.callTrampolineIslandOffsets, b.stop ≤ p ∨ p + r.callTrampolineIslandSize ≤ b.offset :=
    forall_mem_append_singleton h.apart fun p hp => .inr (hislandsBelow p hp)
  have hplaced : (r.placeFunction placed.length (placed.length + importedFns) a.code).totalSize =
    a.stop := by
    rw [Placed.stop, hoffset]
    rfl
  rw [Placed.rels, hoffset] at hrels
  rw [appendFunction, addIsland, hplaced]
  by_cases hcross : a.stop / r.trampolineInterval > r.callTrampolineIslandOffsets.length
  · rw [if_pos ⟨hisland, hcross⟩]
    have hcross' := (Nat.le_div_iff_mul_le hpos).mp hcross
    refine ⟨hbodies, hoffsets, hrefs, hrels, hfunctions, ?_, hfunctionsAligned, ?_, ?_, ?_, ?_, ?_,
      ?_, ?_, ?_⟩
    · exact fun b hb => Nat.le_trans (hbelow b hb) (Nat.le_add_right _ _)
    · exact pairwise_append_singleton h.islandsApart fun p hp =>
        Nat.le_trans (hislandsBelow p hp) hstop
    · exact forall_mem_append_singleton (fun p hp => Nat.le_trans (hislandsBelow p hp)
        (Nat.le_trans hstop (Nat.le_add_right _ _))) (Nat.le_refl _)
    · intro b hb
      exact forall_mem_append_singleton (hapart b hb) (.inl (hbelow b hb))
    · exact forall_mem_append_singleton h.islandsAligned hmod
    · show (a.stop + r.callTrampolineIslandSize) % 4 = 0
      omega
    · intro k p hk
      show (k + 1) * r.trampolineInterval ≤ p ∧ p < (k + 1) * r.trampolineInterval + (maxSize + 15)
      change (r.callTrampolineIslandOffsets ++ [a.stop])[k]? = some p at hk
      by_cases hlast : k < r.callTrampolineIslandOffsets.length
      · rw [getElem?_append_left hlast] at hk
        exact h.spacing k p hk
      have hlen := (List.getElem?_eq_some_iff.mp hk).1
      rw [length_append, length_singleton] at hlen
      obtain rfl : k = r.callTrampolineIslandOffsets.length := by omega
      rw [getElem?_concat_length] at hk
      cases hk
      exact ⟨hcross', by omega⟩
    · rw [length_append, length_append]
      exact Nat.succ_le_succ h.islands_le
    · show a.stop + r.callTrampolineIslandSize <
        ((r.callTrampolineIslandOffsets ++ [a.stop]).length + 1) * r.trampolineInterval
      rw [length_append, length_singleton, Nat.succ_mul]
      omega
  · rw [if_neg fun hboth => hcross hboth.2]
    refine ⟨hbodies, hoffsets, hrefs, hrels, hfunctions, hplaced ▸ hbelow, hfunctionsAligned,
      h.islandsApart, ?_, hapart, h.islandsAligned, hplaced ▸ hmod, h.spacing, ?_, ?_⟩
    · exact fun p hp => Nat.le_trans (hislandsBelow p hp) (hplaced ▸ hstop)
    · rw [length_append]
      exact Nat.le_trans h.islands_le (Nat.le_add_right _ _)
    · rw [hplaced]
      exact (Nat.div_lt_iff_lt_mul hpos).mp (Nat.lt_succ_of_le (Nat.le_of_not_lt hcross))

end Append

@[simp] theorem appendFunction_trampolineInterval (r : EngineRelocator) (fnum fidx : Nat)
    (f : FunctionCode) : (r.appendFunction fnum fidx f).trampolineInterval =
      r.trampolineInterval := by
  rw [appendFunction, addIsland]
  split <;> rfl

@[simp] theorem appendFunction_callTrampolineIslandSize (r : EngineRelocator) (fnum fidx : Nat)
    (f : FunctionCode) :
    (r.appendFunction fnum fidx f).callTrampolineIslandSize = r.callTrampolineIslandSize := by
  rw [appendFunction, addIsland]
  split <;> rfl

theorem Laid.appendAll (h : Laid importedFns localFns maxSize placed r) (fs : List FunctionCode)
    (hroom : placed.length + fs.length ≤ localFns) (hsize : ∀ f ∈ fs, f.body.length ≤ maxSize)
    (haligned : ∀ f ∈ fs, f.body.length % 4 = 0) (hisland : 0 < r.callTrampolineIslandSize)
    (hislandAligned : r.callTrampolineIslandSize % 4 = 0)
    (hinterval : maxSize + 16 + r.callTrampolineIslandSize ≤ r.trampolineInterval) :
    ∃ placed', placed'.map Placed.code = placed.map Placed.code ++ fs ∧
      (r.appendFunctions importedFns placed.length fs).trampolineInterval = r.trampolineInterval ∧
      (r.appendFunctions importedFns placed.length fs).callTrampolineIslandSize =
        r.callTrampolineIslandSize ∧
      Laid importedFns localFns maxSize placed'
      (r.appendFunctions importedFns placed.length fs) := by
  induction fs generalizing placed r with
  | nil => exact ⟨placed, by simp, rfl, rfl, h⟩
  | cons f fs ih =>
    rw [length_cons] at hroom
    have hnext := h.append (a := ⟨align16 r.totalSize, f⟩) rfl (by omega) (hsize f (by simp))
      (haligned f (by simp)) hisland
      hislandAligned hinterval
    obtain ⟨placed', hcode, hint, hisl, hlaid⟩ := ih hnext
      (by rw [length_append, length_singleton]; omega)
      (fun g hg => hsize g (by simp [hg])) (fun g hg => haligned g (by simp [hg]))
      (by simpa using hisland) (by simpa using hislandAligned) (by simpa using hinterval)
    rw [length_append, length_singleton] at hint hisl hlaid
    refine ⟨placed', ?_, ?_, ?_, hlaid⟩
    · rw [hcode, map_append, map_singleton, append_assoc, singleton_append]
    · rw [appendFunctions, hint, appendFunction_trampolineInterval]
    · rw [appendFunctions, hisl, appendFunction_callTrampolineIslandSize]

end Layout

end Andsifr.Wazevo
