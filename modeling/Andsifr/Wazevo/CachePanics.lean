import Andsifr.Wazevo.CacheFormat

namespace Andsifr.Wazevo

open Lib List Parser

variable {p : Platform} {version : List UInt8}

instance tame_readUint64 : readUint64.Tame 0 := by
  unfold readUint64
  infer_instance

theorem returns_checkHeader (header : List UInt8) : Check.Returns (checkHeader version header) := by
  have hnum (n : Nat) : Check.Returns (checkFunctionsNum n) :=
    (Check.returns_require _ _).bind fun _ _ => Check.returns_pure _
  refine (Check.returns_require _ _).bind fun _ hlen =>
    (Check.returns_require _ _).bind fun _ _ => ?_
  have hlen := of_decide_eq_true (Check.require_eq_ok_iff.mp hlen)
  refine (Check.returns_index (by omega)).bind fun size _ => ?_
  exact Check.Returns.ite (fun _ => Check.returns_pure _) fun _ =>
    Check.Returns.ite (fun _ => Check.returns_pure _) fun _ => hnum _

instance tame_readHeader : (readHeader version).Tame 0 := by
  have hcheck (header : List UInt8) := tame_lift (@returns_checkHeader version header)
  unfold readHeader
  infer_instance

instance tame_readExecutable : (readExecutable p).Tame 0 := by
  have hmap (len : UInt64) : Check.Returns (p.mapCode len) := by
    unfold Platform.mapCode
    split
    · exact Check.returns_pure _
    · exact Check.returns_fail _
  have hprotect (addr : UInt64) : Check.Returns (p.protectCode addr) := by
    unfold Platform.protectCode
    split
    · exact Check.returns_pure _
    · exact Check.returns_fail _
  have hmapped (len : UInt64) := tame_lift (hmap len)
  have hprotected (addr : UInt64) := tame_lift (hprotect addr)
  unfold readExecutable
  infer_instance

instance tame_readFunctionOffset (i : Nat) : (readFunctionOffset i).Tame 0 := by
  unfold readFunctionOffset
  infer_instance

instance tame_readCode : (readCode p version).Tame 0 := by
  refine tame_readHeader.bind fun o => ?_
  cases o <;> infer_instance

instance tame_readCatchClause (i j : Nat) : (readCatchClause i j).Tame 0 := by
  unfold readCatchClause
  infer_instance

instance tame_readTryTableInfo (i : Nat) : (readTryTableInfo i).Tame 0 := by
  unfold readTryTableInfo
  infer_instance

theorem tame_readTryTables : readTryTables.Tame 0 := by
  refine (tame_readFull 4).attempt.bind fun o => ?_
  cases o <;> infer_instance

instance tame_readSourceMapEntry (addr : UInt64) (i : Nat) :
    (readSourceMapEntry addr i).Tame 0 := by
  unfold readSourceMapEntry
  infer_instance

variable {addr : UInt64}

theorem crashes_sourceMapEntries_iff {executable : List UInt8} {n : Nat} {r : Reader} : (do
      let _ ← lift (Check.index executable 0)
      let entries ← times n (readSourceMapEntry addr)
      return SourceMap.mk (entries.map Prod.snd) (entries.map Prod.fst)).Crashes r ↔
      executable = [] := by
  rw [crashes_bind, crashes_lift, Check.crashes_index, Nat.le_zero, length_eq_zero_iff]
  exact or_iff_left fun ⟨_, r₁, _, h⟩ => Tame.safe 0 r₁ h

theorem crashes_readSourceMap_iff {executable before input : List UInt8} :
    (readSourceMap addr executable).Crashes ⟨before ++ input, before.length⟩ ↔
      executable = [] ∧ ∃ len rest, input = 1 :: (len ++ rest) ∧ len.length = 8 := by
  rw [readSourceMap, Tame.crashes_bind]
  constructor
  · rintro ⟨presence, r₁, hpresence, hcrash⟩
    obtain ⟨_, rest, rfl, ⟨rfl, -⟩, rfl⟩ :=
      (((recognizes_readFull 1).mapErr _) before input presence r₁ trivial).mp hpresence
    split at hcrash
    next hone =>
      rw [hone, ← append_assoc, Tame.crashes_bind] at hcrash
      obtain ⟨len, r₂, hlen, hcrash⟩ := hcrash
      obtain ⟨bs, rest, rfl, ⟨hbs, -⟩, rfl⟩ :=
        ((recognizes_readUint64.mapErr _) (before ++ [1]) rest len r₂ trivial).mp hlen
      exact ⟨crashes_sourceMapEntries_iff.mp hcrash, bs, rest, by rw [hone]; rfl, hbs⟩
    next => exact absurd hcrash ((tame_pure _).safe _)
  · rintro ⟨hnil, len, rest, rfl, hlen⟩
    refine ⟨[1], ⟨before ++ 1 :: (len ++ rest), (before ++ [1]).length⟩,
      (((recognizes_readFull 1).mapErr _) before _ [1] _ trivial).mpr
        ⟨[1], len ++ rest, rfl, ⟨rfl, rfl⟩, rfl⟩, ?_⟩
    rw [if_pos rfl, Tame.crashes_bind]
    have happend : before ++ 1 :: (len ++ rest) = (before ++ [1]) ++ (len ++ rest) := by simp
    rw [happend]
    exact ⟨_, _, ((recognizes_readUint64.mapErr _) (before ++ [1]) (len ++ rest) _ _ trivial).mpr
      ⟨len, rest, rfl, ⟨hlen, rfl⟩, rfl⟩, crashes_sourceMapEntries_iff.mpr hnil⟩

/-- The entry has an empty executable and a source map. -/
def EmptyWithSourceMap (version bytes : List UInt8) : Prop :=
  ∃ functionsNum header offsets sourceMapLen rest,
    bytes = header ++ (offsets ++ (replicate 8 0 ++ 1 :: (sourceMapLen ++ rest))) ∧
    HeaderBytes version functionsNum header ∧ offsets.length = 8 * functionsNum ∧
    sourceMapLen.length = 8

variable {bs : List UInt8}

theorem leNat_eq_zero_iff : leNat bs = 0 ↔ bs = replicate bs.length 0 := by
  induction bs with
  | nil => simp [leNat]
  | cons b bs ih =>
    have hb : b.toNat = 0 ↔ b = 0 := UInt8.toNat_inj (b := 0)
    rw [leNat, length_cons, replicate_succ, List.cons.injEq, ← ih, ← hb]
    omega

theorem length_offsets {offsets : List Int64} {i : Nat}
    (h : Sequence (fun _ => OffsetBytes) i offsets bs) : bs.length = 8 * offsets.length := by
  induction h with
  | nil => rfl
  | cons hhead _ ih =>
    rw [length_append, hhead.1, length_cons]
    omega

theorem exists_offsets {n : Nat} (h : bs.length = 8 * n) (i : Nat) :
    ∃ offsets, offsets.length = n ∧ Sequence (fun _ => OffsetBytes) i offsets bs := by
  induction n generalizing bs i with
  | zero =>
    obtain rfl := eq_nil_of_length_eq_zero h
    exact ⟨[], rfl, .nil i⟩
  | succ n ih =>
    have htake : (bs.take 8).length = 8 := by rw [length_take]; omega
    have hdrop : (bs.drop 8).length = 8 * n := by rw [length_drop]; omega
    obtain ⟨offsets, hlen, hseq⟩ := ih hdrop (i + 1)
    have hcons := Sequence.cons ⟨htake, rfl⟩ hseq
    rw [take_append_drop] at hcons
    exact ⟨_, by rw [length_cons, hlen], hcons⟩

theorem executableBytes_nil_iff :
    ExecutableBytes p (addr, []) bs ↔ addr = 0 ∧ bs = replicate 8 0 := by
  constructor
  · rintro ⟨len, rest, rfl, hlen, hzero, h⟩
    obtain ⟨haddr, rfl⟩ := h
    rw [length_nil, leNat_eq_zero_iff, hlen] at hzero
    exact ⟨haddr, by rw [append_nil, hzero]⟩
  · rintro ⟨rfl, rfl⟩
    exact ⟨replicate 8 0, [], rfl, rfl, rfl, by rw [if_pos rfl]; exact ⟨rfl, rfl⟩⟩

theorem crashes_deserialize_iff {bytes : List UInt8} :
    (deserializeCompiledModule p version).Crashes ⟨bytes, 0⟩ ↔
      EmptyWithSourceMap version bytes := by
  rw [deserializeCompiledModule, tame_readCode.safe.crashes_bind_iff]
  constructor
  · rintro ⟨o, r₁, hcode, hcrash⟩
    cases o with
    | none => exact absurd hcrash ((tame_pure _).safe _)
    | some code =>
      obtain ⟨offsets, addr, executable⟩ := code
      obtain ⟨bs, rest, rfl, ⟨_, ⟨rfl⟩, hbytes⟩, rfl⟩ :=
        (recognizes_readCode [] bytes _ r₁ rfl).mp hcode
      rw [nil_append] at hcrash
      rcases crashes_bind.mp hcrash with hcrash | ⟨sm, r₂, -, hcrash⟩
      · obtain ⟨rfl, len, rest, rfl, hlen⟩ := crashes_readSourceMap_iff.mp hcrash
        obtain ⟨header, bs, executable, rfl, hheader, hseq, hexec⟩ := hbytes
        obtain ⟨-, rfl⟩ := executableBytes_nil_iff.mp hexec
        exact ⟨_, header, bs, len, rest, by simp only [append_assoc], hheader,
          length_offsets hseq, hlen⟩
      · exact absurd hcrash ((tame_readTryTables.bind fun _ => tame_pure _).safe r₂)
  · rintro ⟨n, header, bs, len, rest, rfl, hheader, hbs, hlen⟩
    obtain ⟨offsets, hcount, hseq⟩ := exists_offsets hbs 0
    have hcode : CodeBytes p version (offsets, 0, []) (header ++ (bs ++ replicate 8 0)) :=
      ⟨header, bs, _, rfl, by rwa [hcount], hseq, executableBytes_nil_iff.mpr ⟨rfl, rfl⟩⟩
    have happend : header ++ (bs ++ (replicate 8 0 ++ 1 :: (len ++ rest))) =
        (header ++ (bs ++ replicate 8 0)) ++ 1 :: (len ++ rest) := by
      simp only [append_assoc]
    rw [happend]
    refine ⟨some (offsets, 0, []), _, (recognizes_readCode [] _ _ _ rfl).mpr
      ⟨_, _, rfl, ⟨_, rfl, hcode⟩, rfl⟩, crashes_bind.mpr (.inl ?_)⟩
    exact crashes_readSourceMap_iff.mpr ⟨rfl, len, rest, rfl, hlen⟩

/-- Reading an entry returns, with a module, a stale answer or an error, if and only if the entry
does not have both an empty executable and a source map. -/
theorem deserialize_returns_iff (p : Platform) (version bytes : List UInt8) :
    ((∃ cm r, deserializeCompiledModule p version ⟨bytes, 0⟩ = .ok (some cm) r) ∨
      (∃ r, deserializeCompiledModule p version ⟨bytes, 0⟩ = .ok none r) ∨
      ∃ m r, deserializeCompiledModule p version ⟨bytes, 0⟩ = .err m r) ↔
      ¬ EmptyWithSourceMap version bytes := by
  rw [← crashes_deserialize_iff, not_crashes_iff]
  constructor
  · rintro (⟨cm, r, h⟩ | ⟨r, h⟩ | ⟨m, r, h⟩)
    · exact .inl ⟨_, r, h⟩
    · exact .inl ⟨_, r, h⟩
    · exact .inr ⟨m, r, h⟩
  · rintro (⟨o, r, h⟩ | ⟨m, r, h⟩)
    · cases o with
      | none => exact .inr (.inl ⟨r, h⟩)
      | some cm => exact .inl ⟨cm, r, h⟩
    · exact .inr (.inr ⟨m, r, h⟩)

/-- The entry of a module without functions, in which the presence of a source map is set. -/
theorem deserialize_panics_without_executable :
    ∃ c, deserializeCompiledModule ⟨fun _ => .ok 4096, fun _ => .ok ()⟩ [100, 101, 118]
        ⟨[87, 65, 90, 69, 86, 79, 3, 100, 101, 118, 0, 0, 0, 0, 0, 0, 0, 0, 0, 0, 0, 0, 1,
          0, 0, 0, 0, 0, 0, 0, 0], 0⟩ = .crash (.panic c) :=
  ⟨_, rfl⟩

end Andsifr.Wazevo
