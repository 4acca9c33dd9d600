import Andsifr.Wazevo.CachePanics

namespace Andsifr.Wazevo

open Lib List Parser

namespace CompiledModule

/-- What holds of the modules that the engine compiles: the counts fit their fields, the offsets of
the source map come in pairs, and only a module without functions has no executable. -/
structure WellFormed (cm : CompiledModule) : Prop where
  functions : cm.functionOffsets.length < 2 ^ 32
  code : cm.executable.length < 2 ^ 63
  pairs : cm.sourceMap.wasmBinaryOffsets.length = cm.sourceMap.executableOffsets.length
  entries : cm.sourceMap.wasmBinaryOffsets.length < 2 ^ 64
  tables : cm.tryTableInfo.length < 2 ^ 32
  infos : ∀ info ∈ cm.tryTableInfo, info.numLocals < 2 ^ 32 ∧ info.catchClauses.length < 2 ^ 32
  empty : cm.executable = [] → cm.functionOffsets = [] ∧ cm.sourceMap = {} ∧ cm.tryTableInfo = []

/-- The same module, up to the address of the executable. -/
structure Same (cm cm' : CompiledModule) : Prop where
  functionOffsets : cm.functionOffsets = cm'.functionOffsets
  executable : cm.executable = cm'.executable
  wasmBinaryOffsets : cm.sourceMap.wasmBinaryOffsets = cm'.sourceMap.wasmBinaryOffsets
  executableOffsets : cm.sourceMap.executableOffsets.map (· - cm.executableAddr) =
    cm'.sourceMap.executableOffsets.map (· - cm'.executableAddr)
  tryTableInfo : cm.tryTableInfo = cm'.tryTableInfo

def rebase (cm : CompiledModule) (addr : UInt64) : CompiledModule :=
  { cm with
    executableAddr := addr
    sourceMap :=
      { cm.sourceMap with
        executableOffsets := cm.sourceMap.executableOffsets.map fun e =>
          e - cm.executableAddr + addr } }

theorem same_rebase (cm : CompiledModule) (addr : UInt64) : (cm.rebase addr).Same cm := by
  refine ⟨rfl, rfl, rfl, ?_, rfl⟩
  simp only [rebase, map_map]
  refine map_congr_left fun e _ => ?_
  exact UInt64.add_sub_cancel _ _

end CompiledModule

theorem sequence_flatMap {α : Type} {Q : α → List UInt8 → Prop} {encode : α → List UInt8}
    {as : List α} (h : ∀ a ∈ as, Q a (encode a)) (i : Nat) :
    Sequence (fun _ => Q) i as (as.flatMap encode) := by
  induction as generalizing i with
  | nil => exact .nil i
  | cons a as ih =>
    exact .cons (h a (by simp)) (ih (fun b hb => h b (by simp [hb])) (i + 1))

theorem leNat_leBytes_of_lt {n v : Nat} (h : v < 256 ^ n) : leNat (leBytes n v) = v := by
  rw [leNat_leBytes, Nat.mod_eq_of_lt h]

theorem uint64Bytes_leBytes (v : UInt64) : Uint64Bytes v (leBytes 8 v.toNat) := by
  refine ⟨length_leBytes 8 _, ?_⟩
  rw [leNat_leBytes_of_lt v.toNat_lt, UInt64.ofNat_toNat]

theorem offsetBytes_leBytes (offset : Int64) :
    OffsetBytes offset (leBytes 8 offset.toUInt64.toNat) := by
  obtain ⟨hlen, hvalue⟩ := uint64Bytes_leBytes offset.toUInt64
  exact ⟨hlen, by rw [← hvalue, Int64.toInt64_toUInt64]⟩

theorem clauseBytes_serialize (c : CatchClauseInstance) : ClauseBytes c c.serialize := by
  refine ⟨_, rfl, length_leBytes 4 _, ?_⟩
  rw [leNat_leBytes_of_lt c.tagIndex.toNat_lt, UInt32.ofNat_toNat]

theorem infoBytes_serialize {info : TryTableInfo} (hlocals : info.numLocals < 2 ^ 32)
    (hclauses : info.catchClauses.length < 2 ^ 32) : InfoBytes info info.serialize := by
  refine ⟨_, _, _, _, rfl, length_leBytes 4 _, (leNat_leBytes_of_lt hlocals).symm, ?_,
    length_leBytes 4 _, (leNat_leBytes_of_lt hclauses).symm,
    sequence_flatMap (fun c _ => clauseBytes_serialize c) 0⟩
  cases info.reuseLocals <;> rfl

theorem serializeEntries_eq_ok (old new : UInt64) {ws es : List UInt64} (h : ws.length = es.length)
    (i : Nat) :
    ∃ bytes, serializeEntries old ws es = .ok bytes ∧
      Sequence (fun _ => EntryBytes new) i (ws.zip (es.map fun e => e - old + new)) bytes := by
  induction ws generalizing es i with
  | nil =>
    exact ⟨[], rfl, .nil i⟩
  | cons w ws ih =>
    cases es with
    | nil => simp at h
    | cons e es =>
      obtain ⟨bytes, hbytes, hseq⟩ := ih (by simpa using h) (i + 1)
      refine ⟨_, by rw [serializeEntries, hbytes]; rfl, ?_⟩
      refine .cons ⟨_, _, rfl, uint64Bytes_leBytes w, ?_⟩ hseq
      rw [UInt64.add_sub_cancel]
      exact uint64Bytes_leBytes (e - old)

variable {p : Platform} {version : List UInt8} {cm : CompiledModule}

theorem serializeSourceMap_eq_ok (hcm : cm.WellFormed) (hcode : cm.executable ≠ [])
    (addr : UInt64) :
    ∃ bytes, serializeSourceMap cm = .ok bytes ∧
      SourceMapBytes addr cm.executable (cm.rebase addr).sourceMap bytes := by
  unfold serializeSourceMap
  split
  next hpos =>
    obtain ⟨b, rest, hcons⟩ := exists_cons_of_ne_nil hcode
    obtain ⟨bytes, hbytes, hseq⟩ := serializeEntries_eq_ok cm.executableAddr addr hcm.pairs 0
    have hindex : Check.index cm.executable 0 = .ok b := by
      rw [hcons]
      rfl
    refine ⟨_, by rw [hindex, hbytes]; rfl, .inr ⟨_, _, _, rfl, length_leBytes 8 _,
      hcode, ?_, hseq, ?_⟩⟩
    · rw [leNat_leBytes_of_lt hcm.entries, length_zip, length_map, hcm.pairs, min_self]
    · have hlen := hcm.pairs
      rw [CompiledModule.rebase, map_fst_zip (by simp [hlen]), map_snd_zip (by simp [hlen])]
  next hzero =>
    have hnil : cm.sourceMap.executableOffsets = [] := eq_nil_of_length_eq_zero (by omega)
    have hnil' : cm.sourceMap.wasmBinaryOffsets = [] :=
      eq_nil_of_length_eq_zero (by rw [hcm.pairs, hnil]; rfl)
    refine ⟨[0], rfl, .inl ⟨0, rfl, by decide, ?_⟩⟩
    rw [CompiledModule.rebase]
    simp only [hnil, hnil', map_nil]

theorem headerBytes_serializeHeader (hversion : version.length < 256) (hcm : cm.WellFormed)
    (hcount : cm.functionOffsets.length ≤ maxCachedFunctions) :
    HeaderBytes version cm.functionOffsets.length (serializeHeader version cm) :=
  ⟨hversion, _, rfl, length_leBytes 4 _, (leNat_leBytes_of_lt hcm.functions).symm, hcount⟩

variable {addr : UInt64}

theorem executableBytes_serializeExecutable (hcm : cm.WellFormed) (hcode : cm.executable ≠ [])
    (hmap : p.mmapCodeSegment (UInt64.ofNat cm.executable.length).toInt64 = .ok addr)
    (hprotect : p.mprotectCodeSegment addr = .ok ()) :
    ExecutableBytes p (addr, cm.executable) (serializeExecutable cm) := by
  have hlen := hcm.code
  refine ⟨_, _, rfl, length_leBytes 8 _, leNat_leBytes_of_lt (by omega), ?_⟩
  rw [if_neg hcode]
  exact ⟨hmap, hprotect, _, rfl, length_leBytes 4 _,
    (leNat_leBytes_of_lt (checksum cm.executable).toNat_lt).symm⟩

theorem serialize_eq_ok (hversion : version.length < 256) (hcm : cm.WellFormed)
    (hcount : cm.functionOffsets.length ≤ maxCachedFunctions) (hcode : cm.executable ≠ [])
    (hmap : p.mmapCodeSegment (UInt64.ofNat cm.executable.length).toInt64 = .ok addr)
    (hprotect : p.mprotectCodeSegment addr = .ok ()) :
    ∃ bytes, serializeCompiledModule version cm = .ok bytes ∧
      ModuleBytes p version (cm.rebase addr) bytes := by
  obtain ⟨sourceMap, hserialize, hsourceMap⟩ := serializeSourceMap_eq_ok hcm hcode addr
  have hcodeBytes : CodeBytes p version (cm.functionOffsets, addr, cm.executable)
      (serializeHeader version cm ++
        (cm.functionOffsets.flatMap (fun offset => leBytes 8 offset.toUInt64.toNat) ++
          serializeExecutable cm)) :=
    ⟨_, _, _, rfl, headerBytes_serializeHeader hversion hcm hcount,
      sequence_flatMap (fun offset _ => offsetBytes_leBytes offset) 0,
      executableBytes_serializeExecutable hcm hcode hmap hprotect⟩
  have htables : TryTableBytes cm.tryTableInfo (leBytes 4 cm.tryTableInfo.length ++
      cm.tryTableInfo.flatMap TryTableInfo.serialize) :=
    ⟨_, _, rfl, length_leBytes 4 _, (leNat_leBytes_of_lt hcm.tables).symm,
      sequence_flatMap (fun info h => infoBytes_serialize (hcm.infos info h).1
        (hcm.infos info h).2) 0⟩
  refine ⟨_, by rw [serializeCompiledModule, hserialize]; rfl, _, _, _, ?_, hcodeBytes, hsourceMap,
    htables⟩
  simp only [append_assoc]

def RoundTrips (p : Platform) (version : List UInt8) (cm : CompiledModule) (bytes : List UInt8) :
    Prop :=
  ∃ cm' r, deserializeCompiledModule p version ⟨bytes, 0⟩ = .ok (some cm') r ∧ cm'.Same cm

/-- Every proper prefix gives an error or a stale answer. -/
def RejectsPrefixes (p : Platform) (version bytes : List UInt8) : Prop :=
  ∀ pre, pre <+: bytes → pre ≠ bytes →
    (∃ m r, deserializeCompiledModule p version ⟨pre, 0⟩ = .err m r) ∨
      ∃ r, deserializeCompiledModule p version ⟨pre, 0⟩ = .ok none r

variable {bytes : List UInt8}

theorem deserialize_of_moduleBytes (h : ModuleBytes p version cm bytes) :
    deserializeCompiledModule p version ⟨bytes, 0⟩ = .ok (some cm) ⟨bytes, bytes.length⟩ :=
  (recognizes_deserialize [] bytes (some cm) _ rfl).mpr
    ⟨bytes, [], (append_nil _).symm, ⟨cm, rfl, h⟩, rfl⟩

/-- An entry that is read to its end has no prefix that is a module. -/
theorem rejectsPrefixes_of_moduleBytes (h : ModuleBytes p version cm bytes)
    (hreturns : ∀ pre, pre <+: bytes → ¬ EmptyWithSourceMap version pre) :
    RejectsPrefixes p version bytes := by
  rintro pre ⟨rest, rfl⟩ hne
  have hreturn := hreturns pre (prefix_append pre rest)
  rw [← crashes_deserialize_iff, not_crashes_iff] at hreturn
  rcases hreturn with ⟨o, r, hread⟩ | herr
  · cases o with
    | none => exact .inr ⟨r, hread⟩
    | some cm' =>
      -- the whole entry would be read only as far as the prefix
      obtain ⟨hpos, hwhole⟩ := recognizes_deserialize.run_append rfl hread rest
      rw [deserialize_of_moduleBytes h] at hwhole
      simp only [Result.ok.injEq, Reader.mk.injEq, length_append] at hwhole
      have hnil : rest = [] := eq_nil_of_length_eq_zero (by omega)
      rw [hnil, append_nil] at hne
      exact absurd rfl hne
  · exact .inl herr

theorem not_emptyWithSourceMap {code rest : List UInt8} {offsets : List Int64}
    {executable : List UInt8} (hcode : CodeBytes p version (offsets, addr, executable) code)
    (hne : executable ≠ []) {pre : List UInt8} (hpre : pre <+: code ++ rest) :
    ¬ EmptyWithSourceMap version pre := by
  rintro ⟨n, header, bs, len, rest', rfl, hheader, hbs, hlen⟩
  obtain ⟨offsets', hcount, hseq⟩ := exists_offsets hbs 0
  have hempty : CodeBytes p version (offsets', 0, []) (header ++ (bs ++ replicate 8 0)) :=
    ⟨header, bs, _, rfl, by rwa [hcount], hseq, executableBytes_nil_iff.mpr ⟨rfl, rfl⟩⟩
  obtain ⟨more, hmore⟩ := hpre
  have hread : readCode p version ⟨code ++ rest, 0⟩ = .ok (some (offsets', 0, []))
      ⟨code ++ rest, (header ++ (bs ++ replicate 8 0)).length⟩ := by
    refine (recognizes_readCode [] (code ++ rest) _ _ rfl).mpr
      ⟨_, 1 :: (len ++ rest') ++ more, ?_, ⟨_, rfl, hempty⟩, rfl⟩
    rw [← hmore]
    simp only [append_assoc]
  have hread' : readCode p version ⟨code ++ rest, 0⟩ = .ok (some (offsets, addr, executable))
      ⟨code ++ rest, code.length⟩ :=
    (recognizes_readCode [] (code ++ rest) _ _ rfl).mpr ⟨code, rest, rfl, ⟨_, rfl, hcode⟩, rfl⟩
  rw [hread] at hread'
  simp only [Result.ok.injEq, Option.some.injEq, Prod.mk.injEq] at hread'
  exact hne hread'.1.2.2.symm

theorem serialize_starts (h : serializeCompiledModule version cm = .ok bytes) :
    ∃ rest, bytes = serializeHeader version cm ++ rest := by
  obtain ⟨sourceMap, -, h⟩ := Check.bind_inv h
  cases h
  exact ⟨_, rfl⟩

theorem counts_of_roundTrips (hcm : cm.WellFormed)
    (h : serializeCompiledModule version cm = .ok bytes) (hread : RoundTrips p version cm bytes) :
    version.length < 256 ∧ cm.functionOffsets.length ≤ maxCachedFunctions := by
  obtain ⟨rest, rfl⟩ := serialize_starts h
  obtain ⟨cm', r, hread, -⟩ := hread
  obtain ⟨bs, rest', hbytes, ⟨_, ⟨rfl⟩, hmodule⟩, -⟩ :=
    (recognizes_deserialize [] _ (some cm') r rfl).mp hread
  obtain ⟨code, sourceMap, tables, rfl, ⟨header, offsets, executable, rfl, hheader, -⟩, -⟩ :=
    hmodule
  obtain ⟨hversion, count, rfl, hcount, hnum, hmax⟩ := hheader
  refine ⟨hversion, ?_⟩
  have hsame : serializeHeader version cm = magic ++ UInt8.ofNat version.length ::
    (version ++ count) := by
    refine append_inj_left (hbytes.trans (by simp only [append_assoc]; rfl)) ?_
    simp only [serializeHeader, length_append, length_cons, length_leBytes, hcount]
  have hcounts : leBytes 4 cm.functionOffsets.length = count := by
    have h := append_cancel_left hsame
    exact append_cancel_left (List.cons.inj h).2
  rw [hnum, ← hcounts, leNat_leBytes_of_lt hcm.functions] at hmax
  exact hmax

/-- Without an executable the reader does not come to the last four bytes. -/
theorem not_rejectsPrefixes (hversion : version.length < 256) (hcm : cm.WellFormed)
    (hempty : cm.executable = [])
    (h : serializeCompiledModule version cm = .ok bytes) : ¬ RejectsPrefixes p version bytes := by
  obtain ⟨hfunctions, hsourceMap, htables⟩ := hcm.empty hempty
  have hbytes : bytes = serializeHeader version cm ++ replicate 17 0 := by
    rw [serializeCompiledModule, serializeSourceMap, hsourceMap] at h
    cases h
    rw [hfunctions, htables, serializeExecutable, hempty]
    rfl
  have hheader : HeaderBytes version 0 (serializeHeader version cm) := by
    have hzero : cm.functionOffsets.length = 0 := by rw [hfunctions]; rfl
    have hheader := headerBytes_serializeHeader hversion hcm (by omega)
    rwa [hzero] at hheader
  have hmodule : ModuleBytes p version ⟨[], [], 0, {}, []⟩
      (serializeHeader version cm ++ replicate 13 0) := by
    refine ⟨serializeHeader version cm ++ replicate 8 0, [0], [0, 0, 0, 0], ?_,
      ⟨_, [], replicate 8 0, rfl, hheader, .nil 0, executableBytes_nil_iff.mpr ⟨rfl, rfl⟩⟩,
      .inl ⟨0, rfl, by decide, rfl⟩, [0, 0, 0, 0], [], rfl, rfl, rfl, .nil 0⟩
    rw [append_assoc]
    rfl
  intro hrejects
  have hread := deserialize_of_moduleBytes hmodule
  have hprefix : serializeHeader version cm ++ replicate 13 0 <+: bytes :=
    ⟨replicate 4 0, by rw [hbytes, append_assoc]; rfl⟩
  rcases hrejects _ hprefix (by rw [hbytes]; simp) with ⟨m, r, h⟩ | ⟨r, h⟩
  · rw [hread] at h
    cases h
  · rw [hread] at h
    cases h

/-- What is written for a compiled module is read back as the same module, and no proper prefix of
it is read as a module, if and only if the version has less than 256 bytes, there are at most
`maxCachedFunctions` functions, and there is an executable. -/
theorem cache_roundTrip_iff (p : Platform) (version : List UInt8) (cm : CompiledModule)
    (hcm : cm.WellFormed)
    (hp : cm.executable ≠ [] →
      ∃ addr, p.mmapCodeSegment (UInt64.ofNat cm.executable.length).toInt64 = .ok addr ∧
        p.mprotectCodeSegment addr = .ok ()) :
    (∃ bytes, serializeCompiledModule version cm = .ok bytes ∧ RoundTrips p version cm bytes ∧
      RejectsPrefixes p version bytes) ↔
      version.length < 256 ∧ cm.functionOffsets.length ≤ maxCachedFunctions ∧
        cm.executable ≠ [] := by
  constructor
  · rintro ⟨bytes, hbytes, hread, hrejects⟩
    obtain ⟨hversion, hcount⟩ := counts_of_roundTrips hcm hbytes hread
    exact ⟨hversion, hcount, fun hempty => not_rejectsPrefixes hversion hcm hempty hbytes hrejects⟩
  · rintro ⟨hversion, hcount, hcode⟩
    obtain ⟨addr, hmap, hprotect⟩ := hp hcode
    obtain ⟨bytes, hbytes, hmodule⟩ := serialize_eq_ok hversion hcm hcount hcode hmap hprotect
    refine ⟨bytes, hbytes, ⟨_, _, deserialize_of_moduleBytes hmodule, cm.same_rebase addr⟩,
      rejectsPrefixes_of_moduleBytes hmodule fun pre hpre => ?_⟩
    obtain ⟨code, sourceMap, tables, rfl, hcodeBytes, -⟩ := hmodule
    exact not_emptyWithSourceMap hcodeBytes hcode hpre

theorem cache_roundTrip_iff_one_function :
    ∃ bytes, serializeCompiledModule [118, 49] ⟨[0], [0xc3], 4096, ⟨[4096], [7]⟩, []⟩ = .ok bytes ∧
      RoundTrips ⟨fun _ => .ok 8192, fun _ => .ok ()⟩ [118, 49]
        ⟨[0], [0xc3], 4096, ⟨[4096], [7]⟩, []⟩ bytes ∧
      RejectsPrefixes ⟨fun _ => .ok 8192, fun _ => .ok ()⟩ [118, 49] bytes :=
  (cache_roundTrip_iff ⟨fun _ => .ok 8192, fun _ => .ok ()⟩ [118, 49]
    ⟨[0], [0xc3], 4096, ⟨[4096], [7]⟩, []⟩
    ⟨by decide, by decide, rfl, by decide, by decide, by simp, by simp⟩ fun _ =>
      ⟨8192, rfl, rfl⟩).mpr
    ⟨by decide, by decide, by decide⟩

/-- The entry of a module without functions, without its last byte, is read as a module. -/
theorem truncated_entry_is_module :
    ∃ bytes, serializeCompiledModule [118, 49] ⟨[], [], 0, {}, []⟩ = .ok bytes ∧
      ∀ p : Platform, ∃ cm r,
        deserializeCompiledModule p [118, 49] ⟨bytes.take (bytes.length - 1), 0⟩ = .ok
        (some cm) r :=
  ⟨_, rfl, fun _ => ⟨_, _, rfl⟩⟩

end Andsifr.Wazevo
