import Andsifr.Lib.Recognizer
import Andsifr.Wazevo.EngineCache

namespace Andsifr.Wazevo

open Lib List Parser

variable {p : Platform} {version : List UInt8}

def Uint64Bytes (v : UInt64) (bs : List UInt8) : Prop :=
  bs.length = 8 ∧ v = .ofNat (leNat bs)

def HeaderBytes (version : List UInt8) (functionsNum : Nat) (bs : List UInt8) : Prop :=
  version.length < 256 ∧ ∃ count, bs = magic ++ .ofNat version.length :: (version ++ count) ∧
    count.length = 4 ∧ functionsNum = leNat count ∧ functionsNum ≤ maxCachedFunctions

def OffsetBytes (offset : Int64) (bs : List UInt8) : Prop :=
  bs.length = 8 ∧ offset = (UInt64.ofNat (leNat bs)).toInt64

def ExecutableBytes (p : Platform) (code : UInt64 × List UInt8) (bs : List UInt8) : Prop :=
  ∃ len rest, bs = len ++ rest ∧ len.length = 8 ∧ leNat len = code.2.length ∧
    if code.2 = [] then code.1 = 0 ∧ rest = []
    else p.mmapCodeSegment (UInt64.ofNat code.2.length).toInt64 = .ok code.1 ∧
      p.mprotectCodeSegment code.1 = .ok () ∧
      ∃ stored, rest = code.2 ++ stored ∧ stored.length = 4 ∧ (checksum code.2).toNat = leNat stored

def EntryBytes (addr : UInt64) (entry : UInt64 × UInt64) (bs : List UInt8) : Prop :=
  ∃ bs₁ bs₂, bs = bs₁ ++ bs₂ ∧ Uint64Bytes entry.1 bs₁ ∧ Uint64Bytes (entry.2 - addr) bs₂

def SourceMapBytes (addr : UInt64) (executable : List UInt8) (sm : SourceMap) (bs : List UInt8) :
    Prop :=
  (∃ b, bs = [b] ∧ b ≠ 1 ∧ sm = {}) ∨
    ∃ len rest entries, bs = 1 :: (len ++ rest) ∧ len.length = 8 ∧ executable ≠ [] ∧
      entries.length = leNat len ∧ Sequence (fun _ => EntryBytes addr) 0 entries rest ∧
      sm = ⟨entries.map Prod.snd, entries.map Prod.fst⟩

def ClauseBytes (clause : CatchClauseInstance) (bs : List UInt8) : Prop :=
  ∃ tag, bs = clause.kind :: tag ∧ tag.length = 4 ∧ clause.tagIndex = .ofNat (leNat tag)

def InfoBytes (info : TryTableInfo) (bs : List UInt8) : Prop :=
  ∃ locals reuse count rest, bs = locals ++ (reuse :: (count ++ rest)) ∧ locals.length = 4 ∧
    info.numLocals = leNat locals ∧ info.reuseLocals = decide (reuse ≠ 0) ∧ count.length = 4 ∧
    info.catchClauses.length = leNat count ∧ Sequence (fun _ => ClauseBytes) 0
      info.catchClauses rest

def TryTableBytes (infos : List TryTableInfo) (bs : List UInt8) : Prop :=
  ∃ count rest, bs = count ++ rest ∧ count.length = 4 ∧ infos.length = leNat count ∧
    Sequence (fun _ => InfoBytes) 0 infos rest

theorem toNat_ofNat_leNat {bs : List UInt8} (h : bs.length = 8) :
    (UInt64.ofNat (leNat bs)).toNat = leNat bs := by
  have hlt := leNat_lt bs
  rw [h] at hlt
  exact Nat.mod_eq_of_lt hlt

theorem mapErr_id {α : Type} (x : Parser α) : x.mapErr id = x := by
  funext r
  rw [mapErr]
  cases x r <;> rfl

theorem recognizes_readUint64 : Recognizes Any readUint64 Uint64Bytes := by
  have hshort : ∀ bs : List UInt8, bs.length < 8 → ∀ (r : Reader) (b : UInt64) (r' : Reader),
      (if bs.length < 8 then fail "EOF" else pure (UInt64.ofNat (leNat bs)) : Parser UInt64) r ≠
        .ok b r' := by
    intro bs hbs r b r'
    rw [if_pos hbs]
    rintro ⟨⟩
  rw [readUint64, ← mapErr_id (read 8)]
  refine (Recognizes.read_bind (by decide) hshort id fun bs => Recognizes.ite
    (fun _ => recognizes_fail "EOF") fun _ => recognizes_pure _).congr fun v bs _ => ?_
  constructor
  · rintro ⟨bs₁, bs₂, rfl, hlen, ⟨-, hfalse⟩ | ⟨-, rfl, rfl⟩⟩
    · exact hfalse.elim
    · exact ⟨by simpa using hlen, by rw [append_nil]⟩
  · rintro ⟨hlen, rfl⟩
    exact ⟨bs, [], (append_nil bs).symm, hlen, .inr ⟨by omega, rfl, rfl⟩⟩

theorem checkVersion_eq_some_iff {header : List UInt8} {size n : Nat} :
    checkVersion version header size = .ok (some n) ↔ magic.length + 1 + size < header.length ∧
      (header.drop (magic.length + 1)).take size = version ∧
      n = leNat (header.drop (header.length - 4)) ∧ n ≤ maxCachedFunctions := by
  unfold checkVersion
  split
  next hend =>
    simp only [pure, Except.pure, Except.ok.injEq, reduceCtorEq, false_iff]
    omega
  next hend =>
    split
    next hversion =>
      simp only [pure, Except.pure, Except.ok.injEq, reduceCtorEq, false_iff]
      exact fun h => hversion h.2.1
    next hversion =>
      rw [checkFunctionsNum, Check.bind_eq_ok_iff]
      constructor
      · rintro ⟨_, hcount, h⟩
        cases h
        exact ⟨by omega, not_not.mp hversion, rfl,
          of_decide_eq_true (Check.require_eq_ok_iff.mp hcount)⟩
      · rintro ⟨-, -, rfl, hcount⟩
        exact ⟨(), Check.require_eq_ok_iff.mpr (decide_eq_true hcount), rfl⟩

theorem checkHeader_eq_some_iff {header : List UInt8} {n : Nat} :
    checkHeader version header = .ok (some n) ↔ HeaderBytes version n header := by
  constructor
  · intro h
    obtain ⟨_, hlen, h⟩ := Check.bind_inv h
    have hlen : header.length = 6 + 1 + version.length + 4 :=
      of_decide_eq_true (Check.require_eq_ok_iff.mp hlen)
    obtain ⟨_, hmagic, h⟩ := Check.bind_inv h
    have hmagic : header.take 6 = magic := of_decide_eq_true (Check.require_eq_ok_iff.mp hmagic)
    obtain ⟨size, hsize, h⟩ := Check.bind_inv h
    have hsize : header[6]? = some size := Check.index_eq_ok_iff.mp hsize
    obtain ⟨hend, hversion, rfl, hcount⟩ := checkVersion_eq_some_iff.mp h
    have hend : 6 + 1 + size.toNat < header.length := hend
    have hversion : (header.drop 7).take size.toNat = version := hversion
    have hvlen : version.length = size.toNat := by
      rw [← hversion, length_take, length_drop]
      omega
    have hbyte : UInt8.ofNat version.length = size := by rw [hvlen, UInt8.ofNat_toNat]
    have hdrop : header.drop 6 = size :: header.drop 7 := by
      obtain ⟨hlt, hget⟩ := List.getElem?_eq_some_iff.mp hsize
      rw [drop_eq_getElem_cons hlt, hget]
    have hrest : header.drop 7 = version ++ header.drop (header.length - 4) := by
      conv_lhs => rw [← take_append_drop size.toNat (header.drop 7), drop_drop]
      congr 2
      omega
    have hsizelt := size.toNat_lt
    refine ⟨by omega, header.drop (header.length - 4), ?_, ?_, rfl, hcount⟩
    · conv_lhs => rw [← take_append_drop 6 header, hmagic, hdrop, hrest]
      rw [hbyte]
    · rw [length_drop]
      omega
  · rintro ⟨hlt, count, rfl, hcount, rfl, hmax⟩
    have hnat : (UInt8.ofNat version.length).toNat = version.length := by
      rw [UInt8.toNat_ofNat']
      omega
    have hlen : (magic ++ UInt8.ofNat version.length :: (version ++ count)).length =
        magic.length + 1 + version.length + 4 := by
      simp only [length_append, length_cons, hcount]
      omega
    have hmagic : (magic ++ UInt8.ofNat version.length :: (version ++ count)).take magic.length =
        magic := take_left
    have hindex : Check.index (magic ++ UInt8.ofNat version.length :: (version ++ count))
        magic.length = .ok (UInt8.ofNat version.length) := rfl
    rw [checkHeader, hlen]
    simp only [Check.require, decide_true, if_true]
    refine checkVersion_eq_some_iff.mpr ⟨?_, ?_, ?_, hmax⟩
    · omega
    · rw [hnat]
      exact take_left
    · have happend : magic ++ UInt8.ofNat version.length :: (version ++ count) =
          (magic ++ UInt8.ofNat version.length :: version) ++ count := by simp
      rw [happend, drop_left']
      simp only [length_append, length_cons]
      omega

theorem recognizes_readHeader : Recognizes (fun o => o.isSome) (readHeader version) fun o bs =>
      ∃ n, o = some n ∧ HeaderBytes version n bs := by
  have hshort : ∀ bs : List UInt8, bs.length < magic.length + 1 + version.length + 4 →
      ∀ (r : Reader) (o : Option Nat) (r' : Reader), lift (checkHeader version bs) r ≠
        .ok o r' := by
    intro bs hbs r o r' h
    obtain ⟨_, hlen, -⟩ := Check.bind_inv (lift_eq_ok_iff.mp h).1
    have hlen := of_decide_eq_true (Check.require_eq_ok_iff.mp hlen)
    omega
  refine (Recognizes.read_bind (by omega) hshort _ fun bs => recognizes_lift _).congr
    fun o bs ho => ?_
  obtain ⟨n, rfl⟩ := Option.isSome_iff_exists.mp ho
  simp only [Option.some.injEq, exists_eq_left']
  constructor
  · rintro ⟨bs₁, bs₂, rfl, -, hcheck, rfl⟩
    rw [append_nil]
    exact checkHeader_eq_some_iff.mp hcheck
  · intro h
    refine ⟨bs, [], (append_nil bs).symm, ?_, checkHeader_eq_some_iff.mpr h, rfl⟩
    obtain ⟨-, count, rfl, hcount, -⟩ := h
    simp only [length_append, length_cons, hcount]
    omega

theorem recognizes_readFunctionOffset (i : Nat) :
    Recognizes Any (readFunctionOffset i) OffsetBytes := by
  refine ((recognizes_readUint64.mapErr _).bind_pure _).congr fun offset bs _ => ?_
  constructor
  · rintro ⟨_, rfl, hlen, rfl⟩
    exact ⟨hlen, rfl⟩
  · rintro ⟨hlen, rfl⟩
    exact ⟨_, rfl, hlen, rfl⟩

theorem recognizes_readSourceMapEntry (addr : UInt64) (i : Nat) :
    Recognizes Any (readSourceMapEntry addr i) (EntryBytes addr) := by
  refine ((recognizes_readUint64.mapErr _).bind fun _ =>
    (recognizes_readUint64.mapErr _).bind_pure _).congr fun entry bs _ => ?_
  constructor
  · rintro ⟨w, bs₁, bs₂, rfl, hw, e, rfl, he⟩
    exact ⟨bs₁, bs₂, rfl, hw, by simpa using he⟩
  · rintro ⟨bs₁, bs₂, rfl, hw, he⟩
    exact ⟨entry.1, bs₁, bs₂, rfl, hw, entry.2 - addr, by simp, he⟩

theorem recognizes_readCatchClause (i j : Nat) :
    Recognizes Any (readCatchClause i j) ClauseBytes := by
  refine (((recognizes_readFull 5).mapErr _).bind_pure _).congr fun clause bs _ => ?_
  constructor
  · rintro ⟨b, rfl, rfl, hlen⟩
    match b, hlen with
    | b :: tag, hlen => exact ⟨tag, rfl, by simpa using hlen, rfl⟩
  · rintro ⟨tag, rfl, hlen, htag⟩
    cases clause
    simp_all

theorem recognizes_readTryTableInfo (i : Nat) : Recognizes Any (readTryTableInfo i) InfoBytes := by
  refine (((recognizes_readFull 5).mapErr _).bind fun b => ((recognizes_readFull 4).mapErr _).bind
    fun count => (recognizes_times (recognizes_readCatchClause i) (leNat count)).bind_pure
      _).congr fun info bs _ => ?_
  constructor
  · rintro ⟨b, _, _, rfl, ⟨rfl, hb⟩, count, _, rest, rfl, ⟨rfl, hcount⟩, clauses, rfl, hclauses,
      hseq⟩
    match b, hb with
    | [b₀, b₁, b₂, b₃, reuse], _ =>
      exact ⟨[b₀, b₁, b₂, b₃], reuse, count, rest, rfl, rfl, rfl, rfl, hcount, hclauses, hseq⟩
  · rintro ⟨locals, reuse, count, rest, rfl, hlocals, hnum, hreuse, hcount, hclauses, hseq⟩
    refine ⟨locals ++ [reuse], _, count ++ rest, by simp, ⟨rfl, by simp [hlocals]⟩, count, _,
      rest, rfl, ⟨rfl, hcount⟩, info.catchClauses, ?_, hclauses, hseq⟩
    have htake : (locals ++ [reuse]).take 4 = locals := by rw [← hlocals, take_left]
    have hget : (locals ++ [reuse]).getD 4 0 = reuse := by
      rw [getD_eq_getElem?_getD, getElem?_append_right (by omega), hlocals]
      rfl
    rw [htake, hget, ← hnum, ← hreuse]

theorem recognizes_readTryTables : Recognizes (fun o => o.isSome) readTryTables fun o bs =>
      ∃ infos, o = some infos ∧ TryTableBytes infos bs := by
  refine Recognizes.congr (.bind_some (recognizes_attempt (recognizes_readFull 4)) (fun tableLen =>
    (recognizes_times recognizes_readTryTableInfo (leNat tableLen)).bind_pure _) rfl)
    fun o bs _ => exists_congr fun infos => and_congr_right fun _ => ?_
  constructor
  · rintro ⟨_, count, rest, rfl, ⟨rfl, hlen⟩, hcount, hseq⟩
    exact ⟨_, rest, rfl, hlen, hcount, hseq⟩
  · rintro ⟨count, rest, rfl, hlen, hcount, hseq⟩
    exact ⟨count, count, rest, rfl, ⟨rfl, hlen⟩, hcount, hseq⟩

theorem recognizes_readSourceMap (addr : UInt64) (executable : List UInt8) :
    Recognizes Any (readSourceMap addr executable) (SourceMapBytes addr executable) := by
  refine (((recognizes_readFull 1).mapErr _).bind fun presence => Recognizes.ite
    (fun _ => (recognizes_readUint64.mapErr _).bind fun len => (recognizes_lift _).bind fun _ =>
      (recognizes_times (recognizes_readSourceMapEntry addr) len.toNat).bind_pure _) fun _ =>
        recognizes_pure _).congr fun sm bs _ => ?_
  constructor
  · rintro ⟨presence, _, rest, rfl, ⟨rfl, hpresence⟩, ⟨rfl, h⟩ | ⟨hne, rfl, rfl⟩⟩
    · obtain ⟨_, len, _, rfl, ⟨hlen, rfl⟩, b, _, rest, rfl, ⟨hindex, rfl⟩, entries, rfl, hentries,
        hseq⟩ := h
      have hne : executable ≠ [] := by
        rintro rfl
        cases hindex
      rw [toNat_ofNat_leNat hlen] at hentries
      exact .inr ⟨len, rest, entries, by simp, hlen, hne, hentries, hseq, rfl⟩
    · match presence, hpresence with
      | [b], _ =>
        exact .inl ⟨b, rfl, by simpa using hne, rfl⟩
  · rintro (⟨b, rfl, hne, rfl⟩ | ⟨len, rest, entries, rfl, hlen, hne, hentries, hseq, rfl⟩)
    · exact ⟨[b], [b], [], rfl, ⟨rfl, rfl⟩, .inr ⟨by simpa using hne, rfl, rfl⟩⟩
    · obtain ⟨b, tail, rfl⟩ := exists_cons_of_ne_nil hne
      refine ⟨[1], [1], len ++ rest, rfl, ⟨rfl, rfl⟩, .inl ⟨rfl, .ofNat (leNat len), len, rest, rfl,
        ⟨hlen, rfl⟩, b, [], rest, rfl, ⟨rfl, rfl⟩, entries, rfl, ?_, hseq⟩⟩
      rw [toNat_ofNat_leNat hlen, hentries]

theorem mapCode_eq_ok_iff {len addr : UInt64} :
    p.mapCode len = .ok addr ↔ p.mmapCodeSegment len.toInt64 = .ok addr := by
  unfold Platform.mapCode
  cases p.mmapCodeSegment len.toInt64 <;> simp [pure, Except.pure, Check.fail]

theorem protectCode_eq_ok_iff {addr : UInt64} {u : Unit} :
    p.protectCode addr = .ok u ↔ p.mprotectCodeSegment addr = .ok u := by
  unfold Platform.protectCode
  cases p.mprotectCodeSegment addr <;> simp [pure, Except.pure, Check.fail]

theorem ofNat_leNat_pos_iff {bs : List UInt8} (h : bs.length = 8) :
    UInt64.ofNat (leNat bs) > 0 ↔ 0 < leNat bs := by
  rw [gt_iff_lt, UInt64.lt_iff_toNat_lt, toNat_ofNat_leNat h]
  rfl

theorem recognizes_readExecutable : Recognizes Any (readExecutable p) (ExecutableBytes p) := by
  refine ((recognizes_readUint64.mapErr _).bind fun len => Recognizes.ite
    (fun _ => (recognizes_lift _).bind fun addr => ((recognizes_readFull len.toNat).mapErr _).bind
      fun executable => ((recognizes_readFull 4).mapErr _).bind fun stored =>
        (recognizes_require _ _).bind fun _ => (recognizes_lift _).bind fun _ => recognizes_pure _)
    fun _ => recognizes_pure _).congr fun code bs _ => ?_
  constructor
  · rintro ⟨_, len, rest, rfl, ⟨hlen, rfl⟩, ⟨hpos, h⟩ | ⟨hzero, rfl, rfl⟩⟩
    · obtain ⟨addr, _, _, rfl, ⟨hmap, rfl⟩, executable, _, _, rfl, ⟨rfl, hexec⟩, stored, _, _, rfl,
        ⟨rfl, hstored⟩, _, _, _, rfl, ⟨hsum, rfl⟩, _, _, _, rfl, ⟨hprotect, rfl⟩, rfl, rfl⟩ := h
      rw [toNat_ofNat_leNat hlen] at hexec
      rw [ofNat_leNat_pos_iff hlen] at hpos
      have hne : executable ≠ [] := ne_nil_of_length_pos (by omega)
      refine ⟨len, executable ++ stored, by simp, hlen, hexec.symm, ?_⟩
      rw [if_neg hne, hexec]
      exact ⟨mapCode_eq_ok_iff.mp hmap, protectCode_eq_ok_iff.mp hprotect, stored, rfl, hstored,
        of_decide_eq_true hsum⟩
    · rw [ofNat_leNat_pos_iff hlen] at hzero
      refine ⟨len, [], rfl, hlen, ?_, ?_⟩
      · simp only [length_nil]
        omega
      · exact ⟨rfl, rfl⟩
  · rintro ⟨len, rest, rfl, hlen, hexec, h⟩
    refine ⟨_, len, rest, rfl, ⟨hlen, rfl⟩, ?_⟩
    rw [ofNat_leNat_pos_iff hlen]
    split at h
    next hnil =>
      obtain ⟨hzero, rfl⟩ := h
      rw [hnil, length_nil] at hexec
      refine .inr ⟨by omega, Prod.ext hzero hnil, rfl⟩
    next hne =>
      obtain ⟨hmap, hprotect, stored, rfl, hstored, hsum⟩ := h
      refine .inl ⟨by rw [hexec]; exact length_pos_iff.mpr hne, code.1, [], _, rfl, ⟨?_, rfl⟩,
        code.2, code.2, stored, rfl, ⟨rfl, ?_⟩, stored, stored, [], (append_nil _).symm,
        ⟨rfl, hstored⟩, (), [], [], rfl, ⟨decide_eq_true hsum, rfl⟩, (), [], [], rfl,
        ⟨protectCode_eq_ok_iff.mpr hprotect, rfl⟩, rfl, rfl⟩
      · rw [mapCode_eq_ok_iff, hexec]
        exact hmap
      · rw [toNat_ofNat_leNat hlen, hexec]

/-- The bytes of the header, the function offsets and the executable. -/
def CodeBytes (p : Platform) (version : List UInt8)
    (code : List Int64 × UInt64 × List UInt8) (bs : List UInt8) : Prop :=
  ∃ header offsets executable, bs = header ++ (offsets ++ executable) ∧
    HeaderBytes version code.1.length header ∧ Sequence (fun _ => OffsetBytes) 0 code.1 offsets ∧
    ExecutableBytes p code.2 executable

theorem recognizes_readCode : Recognizes (fun o => o.isSome) (readCode p version) fun o bs =>
      ∃ code, o = some code ∧ CodeBytes p version code bs := by
  refine Recognizes.congr (.bind_some recognizes_readHeader
    (R := fun n code bs => ∃ offsets executable,
      bs = offsets ++ executable ∧ code.1.length = n ∧
      Sequence (fun _ => OffsetBytes) 0 code.1 offsets ∧ ExecutableBytes p code.2 executable)
    (fun n => ?_) rfl) fun o bs _ => exists_congr fun code => and_congr_right fun _ => ?_
  · refine ((recognizes_times recognizes_readFunctionOffset n).bind fun offsets =>
      recognizes_readExecutable.bind_pure _).congr fun o bs _ => ?_
    constructor
    · rintro ⟨offsets, bs₁, bs₂, rfl, ⟨hlen, hseq⟩, code, rfl, hexec⟩
      exact ⟨(offsets, code), rfl, bs₁, bs₂, rfl, hlen, hseq, hexec⟩
    · rintro ⟨code, rfl, bs₁, bs₂, rfl, hlen, hseq, hexec⟩
      exact ⟨code.1, bs₁, bs₂, rfl, ⟨hlen, hseq⟩, code.2, rfl, hexec⟩
  · constructor
    · rintro ⟨_, header, _, rfl, hheader, offsets, executable, rfl, rfl, hseq, hexec⟩
      exact ⟨header, offsets, executable, rfl, hheader, hseq, hexec⟩
    · rintro ⟨header, offsets, executable, rfl, hheader, hseq, hexec⟩
      exact ⟨_, header, _, rfl, hheader, offsets, executable, rfl, rfl, hseq, hexec⟩

def ModuleBytes (p : Platform) (version : List UInt8) (cm : CompiledModule) (bs : List UInt8) :
    Prop :=
  ∃ code sourceMap tryTables, bs = code ++ (sourceMap ++ tryTables) ∧
    CodeBytes p version (cm.functionOffsets, cm.executableAddr, cm.executable) code ∧
    SourceMapBytes cm.executableAddr cm.executable cm.sourceMap sourceMap ∧
    TryTableBytes cm.tryTableInfo tryTables

theorem recognizes_deserialize :
    Recognizes (fun o => o.isSome) (deserializeCompiledModule p version) fun o bs =>
      ∃ cm, o = some cm ∧ ModuleBytes p version cm bs := by
  refine Recognizes.congr (.bind_some recognizes_readCode
    (R := fun code cm bs => ∃ sourceMap tryTables,
      code = (cm.functionOffsets, cm.executableAddr, cm.executable) ∧ bs = sourceMap ++ tryTables ∧
      SourceMapBytes cm.executableAddr cm.executable cm.sourceMap sourceMap ∧
      TryTableBytes cm.tryTableInfo tryTables) ?_ rfl)
    fun o bs _ => exists_congr fun cm => and_congr_right fun _ => ?_
  · rintro ⟨offsets, addr, executable⟩
    refine ((recognizes_readSourceMap addr executable).bind fun sm =>
      recognizes_readTryTables.bind_of (fun tables _ => recognizes_pure
        (tables.map (CompiledModule.mk offsets executable addr sm))) ?_).congr fun o bs _ => ?_
    · intro tables htables r o r' h
      obtain rfl : tables = none := by simpa using htables
      cases h
      exact Bool.false_ne_true
    · constructor
      · rintro ⟨sm, bs₁, _, rfl, hsm, _, bs₂, _, rfl, -, ⟨infos, rfl, hinfos⟩, rfl, rfl⟩
        rw [append_nil]
        exact ⟨_, rfl, bs₁, bs₂, rfl, rfl, hsm, hinfos⟩
      · rintro ⟨⟨_, _, _, sm, infos⟩, rfl, bs₁, bs₂, ⟨rfl⟩, rfl, hsm, hinfos⟩
        exact ⟨sm, bs₁, bs₂, rfl, hsm, some infos, bs₂, [], (append_nil _).symm, rfl,
          ⟨infos, rfl, hinfos⟩, rfl, rfl⟩
  · constructor
    · rintro ⟨_, code, _, rfl, hcode, sourceMap, tryTables, rfl, rfl, hsm, htables⟩
      exact ⟨code, sourceMap, tryTables, rfl, hcode, hsm, htables⟩
    · rintro ⟨code, sourceMap, tryTables, rfl, hcode, hsm, htables⟩
      exact ⟨_, code, _, rfl, hcode, sourceMap, tryTables, rfl, rfl, hsm, htables⟩

end Andsifr.Wazevo
