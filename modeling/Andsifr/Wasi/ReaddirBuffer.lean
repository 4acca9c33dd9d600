import Andsifr.Wasi.Poll
import Andsifr.Wasi.Readdir

namespace Andsifr.Wasi

open Lib Wasm Sys Slice MemoryInstance Check UInt32

/-- An entry as a guest sees it. -/
structure GuestDirent where
  dNext : UInt64
  ino : UInt64
  name : Path
  filetype : UInt8
  deriving DecidableEq, Repr

/-- The complete entries in the used part of a buffer. -/
def parseDirents (bytes : List UInt8) : List GuestDirent :=
  let dNamlen := leNat ((bytes.drop 16).take 4)
  if bytes.length < direntSize + dNamlen then []
  else
    { dNext := .ofNat (leNat (bytes.take 8))
      ino := .ofNat (leNat ((bytes.drop 8).take 8))
      name := (bytes.drop direntSize).take dNamlen
      filetype := .ofNat (leNat ((bytes.drop 20).take 1)) } ::
      parseDirents (bytes.drop (direntSize + dNamlen))
termination_by bytes.length
decreasing_by
  rw [List.length_drop]
  have : direntSize = 24 := rfl
  omega

def direntHeader (dNext : UInt64) (e : Dirent) : List UInt8 :=
  leBytes 8 dNext.toNat ++ leBytes 8 e.ino.toNat ++ leBytes 4 e.name.length ++
    leBytes 4 (getWasiFiletype e.type).toNat

/-- The bytes of entries of which the first has the given `d_next`. -/
def encodeDirents : UInt64 → List Dirent → List UInt8
  | _, [] => []
  | dNext, e :: es => direntHeader dNext e ++ e.name ++ encodeDirents (dNext + 1) es

/-- What a guest sees of entries of which the first has the given `d_next`. -/
def seenDirents : UInt64 → List Dirent → List GuestDirent
  | _, [] => []
  | dNext, e :: es =>
    ⟨dNext, e.ino, e.name, getWasiFiletype e.type⟩ :: seenDirents (dNext + 1) es

def entrySize (e : Dirent) : Nat :=
  direntSize + e.name.length

def totalSize (es : List Dirent) : Nat :=
  (es.map entrySize).sum

@[simp] theorem length_direntHeader (dNext : UInt64) (e : Dirent) :
    (direntHeader dNext e).length = 24 := by
  simp [direntHeader]

@[simp] theorem totalSize_nil : totalSize [] = 0 :=
  rfl

@[simp] theorem totalSize_cons (e : Dirent) (es : List Dirent) :
    totalSize (e :: es) = entrySize e + totalSize es :=
  rfl

@[simp] theorem length_encodeDirents (dNext : UInt64) (es : List Dirent) :
    (encodeDirents dNext es).length = totalSize es := by
  induction es generalizing dNext with
  | nil => rfl
  | cons e es ih => simp [encodeDirents, ih, entrySize, direntSize, add_assoc]

/-- The name has a size that is not refused. -/
def Dirent.Small (e : Dirent) : Prop :=
  entrySize e ≤ largestDirent

instance (e : Dirent) : Decidable (Dirent.Small e) :=
  inferInstanceAs (Decidable (_ ≤ _))

section Parse

theorem parseDirents_of_short {bytes : List UInt8}
    (h : bytes.length < direntSize + leNat ((bytes.drop 16).take 4)) : parseDirents bytes = [] := by
  rw [parseDirents, if_pos h]

theorem leNat_field {before after : List UInt8} {i n v : Nat} (hi : before.length = i)
    (hv : v < 256 ^ n) : leNat (((before ++ (leBytes n v ++ after)).drop i).take n) = v := by
  rw [List.drop_left' hi, List.take_left' (length_leBytes n v), leNat_leBytes, Nat.mod_eq_of_lt hv]

variable {e : Dirent}

theorem leNat_namlen_header (dNext : UInt64) (he : Dirent.Small e) (rest : List UInt8) :
    leNat (((direntHeader dNext e ++ rest).drop 16).take 4) = e.name.length := by
  have hheader : direntHeader dNext e ++ rest =
      (leBytes 8 dNext.toNat ++ leBytes 8 e.ino.toNat) ++ (leBytes 4 e.name.length ++
        (leBytes 4 (getWasiFiletype e.type).toNat ++ rest)) := by
    simp only [direntHeader, List.append_assoc]
  have he : direntSize + e.name.length ≤ 2 ^ 32 - 1 - 24 := he
  rw [hheader, leNat_field (by simp) (by omega)]

theorem parseDirents_header (dNext : UInt64) (he : Dirent.Small e) {rest : List UInt8}
    (hshort : (direntHeader dNext e ++ rest).length < entrySize e) :
    parseDirents (direntHeader dNext e ++ rest) = [] := by
  refine parseDirents_of_short ?_
  rw [leNat_namlen_header dNext he]
  exact hshort

theorem parseDirents_cons (dNext : UInt64) (he : Dirent.Small e) (rest : List UInt8) :
    parseDirents (direntHeader dNext e ++ e.name ++ rest) =
      ⟨dNext, e.ino, e.name, getWasiFiletype e.type⟩ :: parseDirents rest := by
  have hdNext : leNat (((direntHeader dNext e ++ (e.name ++ rest)).drop 0).take 8) =
    dNext.toNat := by
    rw [direntHeader, List.append_assoc, List.append_assoc, List.append_assoc,
      ← List.nil_append (leBytes 8 dNext.toNat ++ _)]
    exact leNat_field rfl dNext.toNat_lt
  have hino : leNat (((direntHeader dNext e ++ (e.name ++ rest)).drop 8).take 8) = e.ino.toNat := by
    rw [direntHeader, List.append_assoc, List.append_assoc, List.append_assoc]
    exact leNat_field (by simp) e.ino.toNat_lt
  have htype : ((direntHeader dNext e ++ (e.name ++ rest)).drop 20).take 1 =
      [getWasiFiletype e.type] := by
    rw [direntHeader, List.append_assoc _ _ (e.name ++ rest), List.drop_left' (by simp)]
    simp [leBytes]
  have hnames : (direntHeader dNext e ++ (e.name ++ rest)).drop direntSize = e.name ++ rest :=
    List.drop_left' (length_direntHeader dNext e)
  rw [List.append_assoc, parseDirents, leNat_namlen_header dNext he, if_neg (by simp [direntSize]),
    ← List.drop_drop, hnames, List.take_left, List.drop_left, htype, hino, ← List.drop_zero
      (l := direntHeader dNext e ++ (e.name ++ rest)), hdNext]
  simp [leNat]

theorem parseDirents_encodeDirents (dNext : UInt64) {es : List Dirent}
    (hes : ∀ e ∈ es, Dirent.Small e) (rest : List UInt8) :
    parseDirents (encodeDirents dNext es ++ rest) = seenDirents dNext es ++ parseDirents rest := by
  induction es generalizing dNext with
  | nil => rfl
  | cons e es ih =>
    rw [encodeDirents, List.append_assoc, parseDirents_cons dNext (hes e (by simp)),
      ih _ fun e he => hes e (by simp [he])]
    rfl

end Parse

section Fit

/-- How entries are divided by the room for them: the complete ones, and the others. -/
structure Divides (dirents : List Dirent) (room : Nat) (s fit : DirentsFit)
    (complete others : List Dirent) : Prop where
  dirents : dirents = complete ++ others
  totalSize_le : totalSize complete ≤ room
  ends : others = [] ∨ totalSize complete = room → fit.truncatedLen = s.truncatedLen ∧
    fit.direntCount = s.direntCount + complete.length ∧
    fit.bufToWrite.toNat = s.bufToWrite.toNat + totalSize complete
  truncated : ∀ e rest, others = e :: rest → totalSize complete < room →
    room < totalSize complete + entrySize e ∧
      fit.truncatedLen.toNat = min 24 (room - totalSize complete) ∧
      fit.direntCount = s.direntCount + complete.length + 1 ∧
      fit.bufToWrite.toNat = s.bufToWrite.toNat + totalSize complete + fit.truncatedLen.toNat

variable {e : Dirent}

theorem Divides.cons {dirents complete others : List Dirent} {room : Nat}
    {s s' fit : DirentsFit} (h : Divides dirents (room - entrySize e) s' fit complete others)
    (he : entrySize e ≤ room) (htruncated : s'.truncatedLen = s.truncatedLen)
    (hcount : s'.direntCount = s.direntCount + 1)
    (hwrite : s'.bufToWrite.toNat = s.bufToWrite.toNat + entrySize e) :
    Divides (e :: dirents) room s fit (e :: complete) others := by
  have hle := h.totalSize_le
  refine ⟨?_, ?_, ?_, ?_⟩
  · rw [h.dirents, List.cons_append]
  · rw [totalSize_cons]
    omega
  · intro hends
    obtain ⟨h1, h2, h3⟩ := h.ends (hends.imp_right fun hends =>
      by rw [totalSize_cons] at hends; omega)
    rw [totalSize_cons, List.length_cons]
    exact ⟨h1.trans htruncated, by omega, by omega⟩
  · intro e' rest hothers hlt
    rw [totalSize_cons] at hlt ⊢
    obtain ⟨h1, h2, h3, h4⟩ := h.truncated e' rest hothers (by omega)
    rw [List.length_cons]
    exact ⟨by omega, by omega, by omega, by omega⟩

/-- The first of the others is truncated, unless there is none or the room is full. -/
theorem Divides.ends_or_truncated {dirents complete others : List Dirent} {room : Nat}
    {fit : DirentsFit} (h : Divides dirents room {} fit complete others) :
    ((others = [] ∨ totalSize complete = room) ∧ fit.truncatedLen = 0 ∧
      fit.direntCount = complete.length ∧ fit.bufToWrite.toNat = totalSize complete) ∨
    ∃ e es, others = e :: es ∧ room < totalSize complete + entrySize e ∧ 0 < fit.truncatedLen ∧
      fit.truncatedLen.toNat = min 24 (room - totalSize complete) ∧
      fit.direntCount = complete.length + 1 ∧
      fit.bufToWrite.toNat = totalSize complete + fit.truncatedLen.toNat := by
  have hzero : (0 : UInt32).toNat + totalSize complete = totalSize complete := Nat.zero_add _
  by_cases hends : others = [] ∨ totalSize complete = room
  · obtain ⟨htruncated, hcount, hwrite⟩ := h.ends hends
    exact .inl ⟨hends, htruncated, hcount.trans (Nat.zero_add _), hwrite.trans hzero⟩
  obtain ⟨e, es, hothers⟩ := List.exists_cons_of_ne_nil fun hnil => hends (.inl hnil)
  have hlt := lt_of_le_of_ne h.totalSize_le fun heq => hends (.inr heq)
  obtain ⟨hroom, htruncated, hcount, hwrite⟩ := h.truncated e es hothers hlt
  refine .inr ⟨e, es, hothers, hroom, lt_iff_toNat_lt.2 ?_, htruncated, ?_, ?_⟩
  · rw [htruncated]
    simp
    omega
  · rw [hcount, Nat.zero_add]
  · rw [hwrite, hzero]

variable {lenRemaining : UInt32}

theorem maxDirentsFrom_cons (he : Dirent.Small e)
    (hroom : lenRemaining ≠ 0) (dirents : List Dirent) (s : DirentsFit) :
    maxDirentsFrom (e :: dirents) lenRemaining s = if lenRemaining < UInt32.ofNat (entrySize e) then
        .ok { bufToWrite := s.bufToWrite + if 24 ≤ lenRemaining then 24 else lenRemaining
              direntCount := s.direntCount + 1
              truncatedLen := if 24 ≤ lenRemaining then 24 else lenRemaining }
      else
        maxDirentsFrom dirents (lenRemaining - UInt32.ofNat (entrySize e)) { s with
            bufToWrite := s.bufToWrite + UInt32.ofNat (entrySize e)
            direntCount := s.direntCount + 1 } := by
  rw [maxDirentsFrom, if_neg hroom]
  exact if_neg (not_lt.2 he)

theorem Dirent.Small.toNat_entrySize (he : Dirent.Small e) :
    (UInt32.ofNat (entrySize e)).toNat = entrySize e := by
  have : entrySize e ≤ 2 ^ 32 - 1 - 24 := he
  rw [toNat_ofNat']
  omega

theorem toNat_sub_entrySize (he : Dirent.Small e) (hle : entrySize e ≤ lenRemaining.toNat) :
    (lenRemaining - UInt32.ofNat (entrySize e)).toNat = lenRemaining.toNat - entrySize e := by
  rw [UInt32.toNat_sub_of_le, he.toNat_entrySize]
  rwa [le_iff_toNat_le, he.toNat_entrySize]

theorem maxDirentsFrom_eq {dirents : List Dirent} (hsmall : ∀ e ∈ dirents, Dirent.Small e)
    (lenRemaining : UInt32) (s : DirentsFit)
    (hroom : s.bufToWrite.toNat + lenRemaining.toNat < 2 ^ 32) :
    ∃ fit complete others, maxDirentsFrom dirents lenRemaining s = .ok fit ∧
      Divides dirents lenRemaining.toNat s fit complete others := by
  induction dirents generalizing lenRemaining s with
  | nil =>
    exact ⟨s, [], [], rfl, rfl, Nat.zero_le _, fun _ => ⟨rfl, rfl, rfl⟩, fun _ _ h => nomatch h⟩
  | cons e dirents ih =>
    have he := hsmall e (by simp)
    have hsize := he.toNat_entrySize
    by_cases hzero : lenRemaining = 0
    · refine ⟨s, [], e :: dirents, by rw [maxDirentsFrom, if_pos hzero]; rfl, rfl, Nat.zero_le _,
        fun _ => ⟨rfl, rfl, rfl⟩, ?_⟩
      intro _ _ _ hlt
      rw [hzero] at hlt
      exact absurd hlt (lt_irrefl 0)
    rw [maxDirentsFrom_cons he hzero]
    by_cases hlt : lenRemaining < UInt32.ofNat (entrySize e)
    · have hpos : lenRemaining.toNat ≠ 0 := fun h => hzero (UInt32.toNat_inj.1 h)
      rw [if_pos hlt]
      rw [lt_iff_toNat_lt, hsize] at hlt
      have htruncated : (if 24 ≤ lenRemaining then 24 else lenRemaining : UInt32).toNat =
          min 24 lenRemaining.toNat := by
        split
        next hle => exact (min_eq_left (le_iff_toNat_le.1 hle)).symm
        next hle => exact (Nat.min_eq_right (Nat.le_of_not_le fun h =>
          hle (le_iff_toNat_le.2 h))).symm
      refine ⟨_, [], e :: dirents, rfl, rfl, Nat.zero_le _, ?_, ?_⟩
      · rintro (h | h)
        · cases h
        · exact absurd h.symm hpos
      · rintro e' rest heq -
        cases heq
        refine ⟨by simpa using hlt, htruncated, rfl, ?_⟩
        rw [UInt32.toNat_add, htruncated, totalSize_nil]
        omega
    · rw [if_neg hlt]
      rw [lt_iff_toNat_lt, hsize, not_lt] at hlt
      have hremaining := toNat_sub_entrySize he hlt
      have hwrite : (s.bufToWrite + UInt32.ofNat (entrySize e)).toNat =
          s.bufToWrite.toNat + entrySize e := by
        rw [UInt32.toNat_add]
        omega
      obtain ⟨fit, complete, others, hfit, hdivides⟩ := ih (fun e he => hsmall e (by simp [he]))
        (lenRemaining - UInt32.ofNat (entrySize e))
        { s with
          bufToWrite := s.bufToWrite + UInt32.ofNat (entrySize e)
          direntCount := s.direntCount + 1 } (by rw [hremaining]; simp only [hwrite]; omega)
      rw [hremaining] at hdivides
      exact ⟨fit, e :: complete, others, hfit, hdivides.cons hlt rfl rfl hwrite⟩

theorem crashes_maxDirentsFrom {complete rest : List Dirent}
    (hsmall : ∀ e ∈ complete, Dirent.Small e) (he : ¬ Dirent.Small e)
    (hroom : totalSize complete < lenRemaining.toNat) (s : DirentsFit) :
    Check.Crashes (maxDirentsFrom (complete ++ e :: rest) lenRemaining s) := by
  have hzero : lenRemaining ≠ 0 := by
    rintro rfl
    exact absurd hroom (Nat.not_lt_zero _)
  induction complete generalizing lenRemaining s with
  | nil =>
    rw [List.nil_append, maxDirentsFrom, if_neg hzero]
    exact ⟨_, if_pos (Nat.lt_of_not_le he)⟩
  | cons e' complete ih =>
    have he' := hsmall e' (by simp)
    rw [totalSize_cons] at hroom
    have hremaining : (lenRemaining - UInt32.ofNat (entrySize e')).toNat = _ :=
      toNat_sub_entrySize he' (by omega)
    rw [List.cons_append, maxDirentsFrom_cons he' hzero, if_neg]
    · refine ih (fun e he => hsmall e (by simp [he])) (by omega) _ ?_
      intro heq
      rw [heq] at hremaining
      exact absurd hremaining (by simp; omega)
    · rw [lt_iff_toNat_lt, he'.toNat_entrySize]
      omega

end Fit

section Write

variable {buf : Slice UInt8} {before after : List UInt8}

theorem writeDirent_eq {e : Dirent} (he : Dirent.Small e) (dNext : UInt64)
    (hbuf : buf.toList = before ++ after) (hroom : 24 ≤ after.length) :
    ∃ buf', writeDirent buf before.length dNext e.ino
    (UInt32.ofNat e.name.length) e.type = .ok buf' ∧
      buf'.toList = (before ++ direntHeader dNext e) ++ after.drop 24 := by
  have hname : (UInt32.ofNat e.name.length).toNat = e.name.length := by
    have : direntSize + e.name.length ≤ 2 ^ 32 - 1 - 24 := he
    rw [toNat_ofNat']
    omega
  obtain ⟨buf, h1, hbuf⟩ := toList_putAt before.length (leBytes 8 dNext.toNat) hbuf rfl
    (by simp) (by simp; omega)
  obtain ⟨buf, h2, hbuf⟩ := toList_putAt (before.length + 8) (leBytes 8 e.ino.toNat) hbuf
    (by simp) (by simp) (by simp; omega)
  obtain ⟨buf, h3, hbuf⟩ := toList_putAt (before.length + 16) (leBytes 4 e.name.length) hbuf
    (by simp) (by simp) (by simp; omega)
  obtain ⟨buf, h4, hbuf⟩ := toList_putAt (before.length + 20)
    (leBytes 4 (getWasiFiletype e.type).toNat) hbuf (by simp) (by simp) (by simp; omega)
  refine ⟨buf, ?_, ?_⟩
  · rw [writeDirent, hname, h1, bind_ok, h2, bind_ok, h3, bind_ok, h4]
  · rw [hbuf]
    simp [direntHeader, List.append_assoc]

variable {dirents : List Dirent}

theorem writeDirentsFrom_succ {skipNameI : Int} {e : Dirent}
    (he : Dirent.Small e) (remaining : Nat) {i : Nat} {pos : UInt32} (dNext : UInt64)
    (hpos : pos.toNat = before.length) (hbuf : buf.toList = before ++ after)
    (hlen : buf.len < 2 ^ 32) (hroom : entrySize e ≤ after.length) (hdirents : dirents[i]? = some e)
    (hskip : (i : Int) ≠ skipNameI) :
    ∃ buf' pos', writeDirentsFrom dirents skipNameI (remaining + 1) i pos dNext buf =
        writeDirentsFrom dirents skipNameI remaining (i + 1) pos' (dNext + 1) buf' ∧
      pos'.toNat = (before ++ (direntHeader dNext e ++ e.name)).length ∧
      buf'.toList = (before ++ (direntHeader dNext e ++ e.name)) ++ after.drop (entrySize e) := by
  have hsize : entrySize e = 24 + e.name.length := rfl
  have hbuflen : buf.len = before.length + after.length := by
    rw [← length_toList, hbuf, List.length_append]
  have hpos24 : (pos + 24).toNat = (before ++ direntHeader dNext e).length := by
    rw [UInt32.toNat_add, hpos, List.length_append]
    exact Nat.mod_eq_of_lt (by simp; omega)
  obtain ⟨buf1, hwrite, hbuf1⟩ := writeDirent_eq he dNext hbuf (by omega)
  obtain ⟨buf2, hcopy, hbuf2⟩ := toList_copyAt (pos + 24).toNat e.name hbuf1 hpos24
    (by rw [List.length_drop]; omega)
  refine ⟨buf2, pos + 24 + UInt32.ofNat e.name.length, ?_, ?_, ?_⟩
  · rw [writeDirentsFrom, index_eq_ok_iff.2 hdirents, hpos]
    simp only [hwrite, bind_ok, if_pos hskip, hcopy]
  · rw [UInt32.toNat_add, hpos24, UInt32.toNat_ofNat']
    simp only [List.length_append, length_direntHeader]
    omega
  · rw [hbuf2, List.drop_drop, List.append_assoc before, hsize]

theorem writeDirentsFrom_append {complete : List Dirent} {skipNameI : Int}
    (hsmall : ∀ e ∈ complete, Dirent.Small e) (remaining i : Nat) (pos : UInt32) (dNext : UInt64)
    (hpos : pos.toNat = before.length) (hbuf : buf.toList = before ++ after)
    (hlen : buf.len < 2 ^ 32) (hroom : totalSize complete ≤ after.length)
    (hdirents : ∀ k e, complete[k]? = some e → dirents[i + k]? = some e)
    (hskip : ∀ k < complete.length, ((i + k : Nat) : Int) ≠ skipNameI) :
    ∃ buf' pos', writeDirentsFrom dirents skipNameI (remaining + complete.length) i pos dNext buf =
        writeDirentsFrom dirents skipNameI remaining (i + complete.length) pos'
          (dNext + .ofNat complete.length) buf' ∧
      pos'.toNat = (before ++ encodeDirents dNext complete).length ∧
      buf'.toList = (before ++ encodeDirents dNext complete) ++ after.drop
      (totalSize complete) := by
  induction complete generalizing buf before after i pos dNext with
  | nil =>
    refine ⟨buf, pos, ?_, by simpa [encodeDirents] using hpos, by simp [encodeDirents, hbuf]⟩
    simp
  | cons e complete ih =>
    rw [totalSize_cons] at hroom
    obtain ⟨buf1, pos1, hloop, hpos1, hbuf1⟩ := writeDirentsFrom_succ (i := i) (hsmall e (by simp))
      (remaining + complete.length) dNext hpos hbuf hlen (by omega) (hdirents 0 e rfl)
      (hskip 0 (by simp))
    have hlen1 : buf1.len = buf.len := by
      rw [← length_toList, ← length_toList, hbuf1, hbuf]
      simp [entrySize, direntSize]
      have : entrySize e = 24 + e.name.length := rfl
      omega
    obtain ⟨buf2, pos2, hrest, hpos2, hbuf2⟩ := ih (fun e he => hsmall e (by simp [he]))
      (i + 1) pos1
      (dNext + 1) hpos1 hbuf1 (by omega) (by rw [List.length_drop]; omega)
      (fun k e he => by rw [add_right_comm]; exact hdirents (k + 1) e he)
      (fun k hk => by rw [add_right_comm]; exact hskip (k + 1) (by simpa using hk))
    refine ⟨buf2, pos2, ?_, ?_, ?_⟩
    · rw [List.length_cons, ← add_assoc, hloop, hrest]
      congr 1
      · omega
      · rw [UInt64.add_assoc, add_comm complete.length, UInt64.ofNat_add]
        rfl
    · rw [hpos2, encodeDirents, List.append_assoc before]
    · rw [hbuf2, encodeDirents, List.drop_drop, totalSize_cons, List.append_assoc before]

/-- The bytes that are written: the complete entries, and the start of one that is truncated. -/
theorem writeDirents_eq {complete others : List Dirent} {room : Nat} {fit : DirentsFit}
    (hsmall : ∀ e ∈ dirents, Dirent.Small e) (h : Divides dirents room {} fit complete others)
    (hroom : room < 2 ^ 32) (hlen : buf.len = fit.bufToWrite.toNat) (dNext : UInt64) :
    ∃ buf' rest, writeDirents buf dirents dNext fit.direntCount fit.truncatedLen = .ok buf' ∧
      buf'.toList = encodeDirents dNext complete ++ rest ∧ rest.length = fit.truncatedLen.toNat ∧
      ∀ e es, others = e :: es → rest.length = 24 → ∃ dNext', rest = direntHeader dNext' e := by
  have hbuf : buf.toList = [] ++ buf.toList := rfl
  have hcomplete : ∀ e ∈ complete, Dirent.Small e := fun e he => hsmall e (by simp [h.dirents, he])
  have hdirents : ∀ k e, complete[k]? = some e → dirents[0 + k]? = some e := by
    intro k e he
    obtain ⟨hk, -⟩ := List.getElem?_eq_some_iff.1 he
    rw [Nat.zero_add, h.dirents, List.getElem?_append_left hk, he]
  have hle := h.totalSize_le
  have hloop (skipNameI : Int) (remaining : Nat) (hwrite : totalSize complete ≤ buf.len)
      (hbound : buf.len < 2 ^ 32) (hskip : ∀ k < complete.length,
        ((0 + k : Nat) : Int) ≠ skipNameI) :=
    writeDirentsFrom_append hcomplete remaining 0 0 dNext rfl hbuf hbound
      (by rwa [length_toList]) hdirents hskip
  rcases h.ends_or_truncated with ⟨-, htruncated, hcount, hwrite⟩ |
    ⟨e, es, hothers, -, hpos, htruncated, hcount, hwrite⟩
  · rw [htruncated]
    obtain ⟨buf', pos', hloop, -, hbuf'⟩ := hloop (-1) 0 (by omega) (by omega) (fun k _ => by omega)
    refine ⟨buf', [], ?_, ?_, rfl, fun _ _ _ h24 => nomatch h24⟩
    · rw [writeDirents, hcount, ← Nat.zero_add complete.length, if_neg (by decide), hloop]
      rfl
    · rw [hbuf', List.drop_of_length_le (by rw [length_toList]; omega), List.nil_append]
  by_cases hshort : fit.truncatedLen < 24
  · -- There is no room for the header of the last one.
    obtain ⟨buf', pos', hloop, -, hbuf'⟩ := hloop (-1) 0 (by omega) (by omega) (fun k _ => by omega)
    have hrest : (buf.toList.drop (totalSize complete)).length = fit.truncatedLen.toNat := by
      rw [List.length_drop, length_toList]
      omega
    refine ⟨buf', buf.toList.drop (totalSize complete), ?_, hbuf', hrest, ?_⟩
    · rw [writeDirents, if_pos hpos, if_pos hshort, hcount, Nat.add_sub_cancel, ← Nat.zero_add
        complete.length, hloop]
      rfl
    · intro _ _ _ hlen24
      rw [lt_iff_toNat_lt, ← hrest, hlen24] at hshort
      exact absurd hshort (lt_irrefl _)
  have h24 : fit.truncatedLen.toNat = 24 := by
    have hle24 : 24 ≤ fit.truncatedLen.toNat := Nat.le_of_not_lt fun hlt =>
      hshort (lt_iff_toNat_lt.2 hlt)
    omega
  obtain ⟨buf1, pos1, hloop, hpos1, hbuf1⟩ := hloop complete.length 1 (by omega) (by omega)
    (fun k hk => by omega)
  have hlast : dirents[complete.length]? = some e := by
    rw [h.dirents, hothers, List.getElem?_append_right (Nat.le_refl _), Nat.sub_self]
    rfl
  obtain ⟨buf', hheader, hbuf'⟩ := writeDirent_eq (hsmall e (by simp [h.dirents, hothers]))
    (dNext + .ofNat complete.length) hbuf1 (by rw [List.length_drop, length_toList]; omega)
  refine ⟨buf', direntHeader (dNext + .ofNat complete.length) e, ?_, ?_, ?_, ?_⟩
  · have hskip : ((complete.length + 1 : Nat) : Int) - 1 = complete.length := by omega
    rw [writeDirents, if_pos hpos, if_neg hshort, hcount, hskip, add_comm, hloop, Nat.zero_add,
      writeDirentsFrom, index_eq_ok_iff.2 hlast, bind_ok, hpos1]
    simp only [hheader, bind_ok, ne_eq, not_true_eq_false, if_false, writeDirentsFrom]
    rfl
  · rw [hbuf', List.drop_drop, List.drop_of_length_le (by rw [length_toList]; omega),
      List.append_nil, List.nil_append]
  · rw [length_direntHeader, h24]
  · rintro _ _ heq -
    rw [hothers] at heq
    cases heq
    exact ⟨_, rfl⟩

end Write

section Memory

/-- The arguments of a call with room for a header: a part of a memory that does not end at the
limit of 4 GiB, apart from the place of the result. -/
structure ReaddirArgs where
  mem : MemoryInstance
  buf : UInt32
  bufLen : UInt32
  resultBufused : UInt32
  len_le : mem.buffer.len ≤ 2 ^ 32
  direntSize_le : direntSize ≤ bufLen.toNat
  buf_inside : buf.toNat + bufLen.toNat ≤ mem.buffer.len
  buf_lt : buf.toNat + bufLen.toNat < 2 ^ 32
  result_inside : resultBufused.toNat + 4 ≤ mem.buffer.len
  apart : resultBufused.toNat + 4 ≤ buf.toNat ∨ buf.toNat + bufLen.toNat ≤ resultBufused.toNat

/-- What a guest finds after a call. -/
structure Found (a : ReaddirArgs) (cookie : UInt64) (dirents complete others : List Dirent)
    (mem : MemoryInstance) : Prop where
  eq_append : dirents = complete ++ others
  parsed : parseDirents (mem.buffer.extract a.buf.toNat (numberAt mem a.resultBufused.toNat 4)) =
    seenDirents (cookie + 1) complete
  fits : totalSize complete ≤ a.bufLen.toNat
  all : numberAt mem a.resultBufused.toNat 4 < a.bufLen.toNat → others = []
  some : ∀ e es, others = e :: es → complete = [] → a.bufLen.toNat < entrySize e
  none : dirents = [] → numberAt mem a.resultBufused.toNat 4 < a.bufLen.toNat

theorem ReaddirArgs.extract_result (a : ReaddirArgs) {mem : MemoryInstance}
    (hlen : mem.buffer.len = a.mem.buffer.len) {n : Nat} (hn : n ≤ a.bufLen.toNat) (v : UInt32) :
    (mem.store a.resultBufused.toNat (leBytes 4 v.toNat)).buffer.extract a.buf.toNat n =
      mem.buffer.extract a.buf.toNat n := by
  have hinside := a.buf_inside
  have hresult := a.result_inside
  have hapart := a.apart
  apply extract_store_of_disjoint
  · rw [length_leBytes]
    omega
  · rw [length_leBytes]
    omega

theorem totalSize_eq_zero {es : List Dirent} (h : totalSize es = 0) : es = [] := by
  cases es with
  | nil => rfl
  | cons e es =>
    rw [totalSize_cons, entrySize, direntSize] at h
    omega

variable {dirents : List Dirent} {fit : DirentsFit} {complete others : List Dirent}

theorem Divides.parse {room : Nat}
    (hsmall : ∀ e ∈ dirents, Dirent.Small e) (h : Divides dirents room {} fit complete others)
    (dNext : UInt64) {rest stale : List UInt8} (hlen : rest.length = fit.truncatedLen.toNat)
    (hused : (rest ++ stale).length = if 0 < fit.truncatedLen then room - totalSize complete else 0)
    (hheader : ∀ e es, others = e :: es → rest.length = 24 →
      ∃ dNext', rest = direntHeader dNext' e) :
    parseDirents (encodeDirents dNext complete ++ (rest ++ stale)) =
      seenDirents dNext complete := by
  have hcomplete : ∀ e ∈ complete, Dirent.Small e := fun e he => hsmall e (by simp [h.dirents, he])
  rw [parseDirents_encodeDirents dNext hcomplete]
  suffices hnone : parseDirents (rest ++ stale) = [] by rw [hnone, List.append_nil]
  rcases h.ends_or_truncated with ⟨-, htruncated, -⟩ | ⟨e, es, hothers, hlt, hpos, htruncated, -⟩
  · rw [htruncated, if_neg (by decide)] at hused
    exact parseDirents_of_short (by rw [hused, direntSize]; omega)
  rw [if_pos hpos] at hused
  by_cases hshort : (rest ++ stale).length < 24
  · exact parseDirents_of_short (Nat.lt_of_lt_of_le hshort (Nat.le_add_right _ _))
  obtain ⟨dNext', rfl⟩ := hheader e es hothers (by omega)
  exact parseDirents_header dNext' (hsmall e (by simp [h.dirents, hothers])) (by omega)

theorem Divides.bufToWrite {room : Nat} (h : Divides dirents room {} fit complete others) :
    fit.bufToWrite.toNat = totalSize complete + fit.truncatedLen.toNat ∧
      totalSize complete + fit.truncatedLen.toNat ≤ room ∧
      (¬ 0 < fit.truncatedLen → others = [] ∨ totalSize complete = room) := by
  have hle := h.totalSize_le
  rcases h.ends_or_truncated with ⟨hends, htruncated, -, hwrite⟩ | ⟨e, es, -, -, hpos, htruncated,
    -, hwrite⟩
  · rw [htruncated]
    exact ⟨hwrite, hle, fun _ => hends⟩
  · exact ⟨hwrite, by omega, fun hzero => absurd hpos hzero⟩

theorem ReaddirArgs.exists_written (a : ReaddirArgs) (cookie : UInt64)
    (hsmall : ∀ e ∈ dirents, Dirent.Small e) (hfit : maxDirents dirents a.bufLen = .ok fit)
    (h : Divides dirents a.bufLen.toNat {} fit complete others) :
    ∃ mem rest, writeReaddir a.mem a.buf a.bufLen cookie a.resultBufused dirents =
        writeBufused mem a.resultBufused
          (if 0 < fit.truncatedLen then a.bufLen else fit.bufToWrite) ∧
      mem.buffer.len = a.mem.buffer.len ∧
      mem.buffer.extract a.buf.toNat fit.bufToWrite.toNat =
        encodeDirents (cookie + 1) complete ++ rest ∧
      rest.length = fit.truncatedLen.toNat ∧
      ∀ e es, others = e :: es → rest.length = 24 → ∃ dNext', rest = direntHeader dNext' e := by
  have hinside := a.buf_inside
  have hlt := a.buf_lt
  obtain ⟨hwrite, hle, -⟩ := h.bufToWrite
  by_cases hpos : 0 < fit.bufToWrite
  · have hread : a.mem.read a.buf fit.bufToWrite =
        .ok (a.mem.buffer.extract a.buf.toNat fit.bufToWrite.toNat, true) := by
      rw [read_eq a.len_le (by omega), if_pos (by omega)]
    have hlen : (ofList (a.mem.buffer.extract a.buf.toNat fit.bufToWrite.toNat)).len =
        fit.bufToWrite.toNat := length_extract (by omega)
    obtain ⟨buf, rest, hdirents, hbuf, hrest, hheader⟩ :=
      writeDirents_eq hsmall h a.bufLen.toNat_lt hlen (cookie + 1)
    have hbuflen : buf.toList.length = fit.bufToWrite.toNat := by
      rw [hbuf, List.length_append, length_encodeDirents]
      omega
    have hself : (a.mem.store a.buf.toNat buf.toList).buffer.extract a.buf.toNat buf.toList.length =
        buf.toList := extract_store_self (by omega)
    refine ⟨a.mem.store a.buf.toNat buf.toList, rest, ?_, len_store, ?_, hrest, hheader⟩
    · rw [writeReaddir, hfit, bind_ok]
      simp only [if_pos hpos, hread, bind_ok, hdirents]
      rfl
    · rw [← hbuflen, hself, hbuf]
  · have hzero : fit.bufToWrite.toNat = 0 := Nat.eq_zero_of_not_pos fun h =>
      hpos (lt_iff_toNat_lt.2 h)
    have hcomplete : complete = [] := totalSize_eq_zero (by omega)
    refine ⟨a.mem, [], ?_, rfl, ?_, ?_, fun _ _ _ h24 => nomatch h24⟩
    · rw [writeReaddir, hfit, bind_ok]
      simp only [if_neg hpos]
    · rw [hzero, hcomplete, extract, List.take_zero]
      rfl
    · show 0 = _
      omega

theorem ReaddirArgs.writeReaddir_eq (a : ReaddirArgs) (cookie : UInt64)
    (hsmall : ∀ e ∈ dirents, Dirent.Small e) :
    ∃ mem complete others,
      writeReaddir a.mem a.buf a.bufLen cookie a.resultBufused dirents = .ok (mem, .success) ∧
        Found a cookie dirents complete others mem := by
  have hinside := a.buf_inside
  have hresult := a.result_inside
  have hheader : 24 ≤ a.bufLen.toNat := a.direntSize_le
  obtain ⟨fit, complete, others, hfit, hdiv⟩ :=
    maxDirentsFrom_eq hsmall a.bufLen {} (by simpa using a.bufLen.toNat_lt)
  obtain ⟨mem, rest, heq, hlen, hextract, hrest, hlast⟩ := a.exists_written cookie hsmall hfit hdiv
  obtain ⟨hwrite, hle, hends⟩ := hdiv.bufToWrite
  -- The part of the buffer that is used is all of it after an entry was truncated.
  have hused : (if 0 < fit.truncatedLen then a.bufLen else fit.bufToWrite).toNat =
      if 0 < fit.truncatedLen then a.bufLen.toNat else fit.bufToWrite.toNat := by
    split <;> rfl
  refine ⟨mem.store a.resultBufused.toNat (leBytes 4
    (if 0 < fit.truncatedLen then a.bufLen else fit.bufToWrite).toNat), complete, others, ?_, ?_⟩
  · rw [heq, writeBufused, writeUint32Le,
      writeUintLe_eq (by rw [hlen]; exact a.len_le) _ (by decide) (by decide),
      if_pos (by omega)]
    rfl
  have hnumber := (numberAt_store (hlen ▸ hresult) (toNat_lt _)).trans hused
  refine ⟨hdiv.dirents, ?_, hdiv.totalSize_le, ?_, ?_, ?_⟩
  · rw [hnumber, a.extract_result hlen (by split <;> omega)]
    by_cases htruncated : 0 < fit.truncatedLen
    · have hsplit : a.bufLen.toNat = fit.bufToWrite.toNat +
          (a.bufLen.toNat - fit.bufToWrite.toNat) := by omega
      rw [if_pos htruncated, hsplit, extract_add, hextract, List.append_assoc]
      refine hdiv.parse hsmall _ hrest ?_ hlast
      rw [if_pos htruncated, List.length_append, length_extract (by omega)]
      omega
    · rw [if_neg htruncated, hextract, ← List.append_nil rest]
      refine hdiv.parse hsmall _ hrest ?_ hlast
      rw [if_neg htruncated, List.append_nil, hrest]
      exact Nat.eq_zero_of_not_pos fun h => htruncated (lt_iff_toNat_lt.2 h)
  · rw [hnumber]
    intro hlt
    split at hlt
    · exact absurd hlt (lt_irrefl _)
    · obtain hnil | htotal := hends ‹_›
      · exact hnil
      · omega
  · rintro e es hothers rfl
    have htotal := (hdiv.truncated e es hothers (by simp; omega)).1
    rwa [totalSize_nil, Nat.zero_add] at htotal
  · intro hnil
    have hboth := hdiv.dirents
    rw [hnil, eq_comm, List.append_eq_nil_iff] at hboth
    obtain ⟨htruncated, -, hwrite'⟩ := hdiv.ends (.inl hboth.2)
    rw [hnumber, if_neg (by rw [htruncated]; decide), hwrite', hboth.1]
    exact Nat.lt_of_lt_of_le (by decide) hheader

end Memory

end Andsifr.Wasi
