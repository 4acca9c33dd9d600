import Andsifr.Wasi.ReaddirBuffer

namespace Andsifr.Wasi

open Lib Wasm Sys List Check

variable {σ : Type}

/-- What a guest that reads a directory has: the open file, the complete entries so far, the error
of the last call, and whether it has stopped. -/
structure Guest (σ : Type) where
  file : Option (OpenDirectory σ)
  entries : List GuestDirent := []
  errno : Errno := .success
  stopped : Bool := false
  deriving DecidableEq, Repr

/-- The `d_next` of the last complete entry. -/
def Guest.cookie (g : Guest σ) : UInt64 :=
  (g.entries.getLast?.map (·.dNext)).getD 0

/-- A call of `fd_readdir`, after which a guest stops if not all of the buffer is used. -/
def Guest.call (m : FileMethods σ) (g : Guest σ) (a : ReaddirArgs) : Check (Guest σ) :=
  if g.stopped then return g
  else do
    let (file, mem, errno) ← fdReaddir m g.file a.mem a.buf a.bufLen g.cookie a.resultBufused
    if errno ≠ .success then return { g with file, errno, stopped := true }
    else
      let bufused := numberAt mem a.resultBufused.toNat 4
      return {
        file
        entries := g.entries ++ parseDirents (mem.buffer.extract a.buf.toNat bufused)
        errno
        stopped := bufused < a.bufLen.toNat }

/-- The guest after the first calls of a sequence. -/
def Guest.run (m : FileMethods σ) (args : Nat → ReaddirArgs) (g : Guest σ) : Nat → Check (Guest σ)
  | 0 => return g
  | t + 1 => do
    let g ← g.run m args t
    g.call m (args t)

/-- An open directory after any calls. -/
inductive ReachedDirectory (m : FileMethods σ) (position : σ → Nat) : OpenDirectory σ → Prop
  | opened {f : σ} : position f = 0 → ReachedDirectory m position { file := f }
  | call {f f' : OpenDirectory σ} {mem mem' : MemoryInstance} {buf bufLen resultBufused : UInt32}
      {cookie : UInt64} {errno : Errno} : ReachedDirectory m position f →
      fdReaddir m (some f) mem buf bufLen cookie resultBufused = .ok (some f', mem', errno) →
      ReachedDirectory m position f'

/-- A guest of which the buffers have room for a header, and time and again for each entry, reads
the dot entries and every other one exactly once in order, and stops only at the end of the
directory. -/
def ReadsDirectory (m : FileMethods σ) (position : σ → Nat) (inode : UInt64)
    (entries : List Dirent) :
    Prop :=
  ∀ (f : OpenDirectory σ) (args : Nat → ReaddirArgs), ReachedDirectory m position f →
    (∀ e ∈ allEntries inode entries, ∀ t, ∃ t' ≥ t, entrySize e ≤ (args t').bufLen.toNat) →
    (∀ t, ∃ g, Guest.run m args { file := some f } t = .ok g ∧ g.errno = .success ∧
      g.entries <+: seenDirents 1 (allEntries inode entries) ∧
      (g.stopped = true → g.entries = seenDirents 1 (allEntries inode entries))) ∧
    ∃ t g, Guest.run m args { file := some f } t = .ok g ∧ g.stopped = true

section Seen

theorem seenDirents_append (dNext : UInt64) (es es' : List Dirent) :
    seenDirents dNext (es ++ es') =
      seenDirents dNext es ++ seenDirents (dNext + .ofNat es.length) es' := by
  induction es generalizing dNext with
  | nil => simp [seenDirents]
  | cons e es ih =>
    rw [cons_append, seenDirents, ih, seenDirents, cons_append, length_cons,
      add_comm es.length, UInt64.ofNat_add, ← UInt64.add_assoc]
    rfl

theorem dNext_getLast_seenDirents (es : List Dirent) :
    (((seenDirents 1 es).getLast?.map (·.dNext)).getD 0) = UInt64.ofNat es.length := by
  obtain rfl | ⟨es, e, rfl⟩ := eq_nil_or_concat es
  · rfl
  · rw [concat_eq_append, seenDirents_append]
    simp [seenDirents, UInt64.ofNat_add, UInt64.add_comm]

end Seen

section Run

variable {m : FileMethods σ} {position : σ → Nat} {inode : UInt64} {entries : List Dirent}

/-- The cache of an open directory is consistent with what it has returned. -/
def Keeps (position : σ → Nat) (inode : UInt64) (entries : List Dirent)
    (f : OpenDirectory σ) : Prop :=
  match f.direntCache with
  | none => position f.file = 0
  | some d => d.Consistent position inode entries

/-- The position is at the start, or in the cache. -/
def ReadyAt (position : σ → Nat) (inode : UInt64) (entries : List Dirent) (f : OpenDirectory σ)
    (k : Nat) : Prop :=
  k = 0 ∨ ∃ d start, f.direntCache = some d ∧ d.Window position inode entries start ∧ start ≤ k ∧
    k ≤ d.countRead.toNat

variable {f : OpenDirectory σ}

theorem Keeps.direntCache (hm : Unchanged m position inode entries)
    (h : Keeps position inode entries f) :
    ∃ d, Wasi.direntCache m (some f) = .ok d ∧ d.Consistent position inode entries ∧
      ∀ d', f.direntCache = some d' → d' = d := by
  unfold Keeps at h
  cases hcache : f.direntCache with
  | some d =>
    rw [hcache] at h
    exact ⟨d, by simp [Wasi.direntCache, OpenDirectory.getDirentCache, hcache], h, by simp⟩
  | none =>
    rw [hcache] at h
    refine ⟨{ f := f.file, dotEntries := [dotEntry inode, dotDotEntry] }, ?_,
      ⟨rfl, .inl ⟨rfl, rfl, h⟩⟩, by simp⟩
    simp [Wasi.direntCache, OpenDirectory.getDirentCache, hcache, hm.isDir, synthesizeDotEntries,
      hm.ino]

theorem toNat_maxDirEntries (bufLen : UInt32) :
    (bufLen / 24 + 1 + 1).toNat = bufLen.toNat / 24 + 2 := by
  have := bufLen.toNat_lt
  rw [UInt32.toNat_add, UInt32.toNat_add, UInt32.toNat_div]
  simp only [UInt32.reduceToNat]
  omega

theorem Keeps.fdReaddir_eq (hm : Unchanged m position inode entries)
    (hentries : entries.length + 2 < 2 ^ 64) (h : Keeps position inode entries f)
    {bufLen : UInt32} (hbufLen : 24 ≤ bufLen.toNat) (mem : MemoryInstance) (buf : UInt32)
    (cookie : UInt64) (resultBufused : UInt32) :
    ∃ d, d.Consistent position inode entries ∧ (∀ d', f.direntCache = some d' → d' = d) ∧
      let r := d.read m cookie (bufLen / 24 + 1 + 1)
      let f' : OpenDirectory σ := { f with direntCache := some r.1 }
      Keeps position inode entries f' ∧
        fdReaddir m (some f) mem buf bufLen cookie resultBufused =
          if r.2.2 ≠ .success then .ok (some f', mem, r.2.2)
          else (writeReaddir mem buf bufLen cookie resultBufused r.2.1).map fun (mem, errno) =>
            (some f', mem, errno) := by
  obtain ⟨d, hcache, hd, huniq⟩ := h.direntCache hm
  refine ⟨d, hd, huniq, ?_, ?_⟩
  · have hmaxDirEntries := toNat_maxDirEntries bufLen
    obtain ⟨hn, hstartable⟩ := @DirentCache.startable_of_le entries (bufLen / 24 + 1 + 1) (by omega)
    obtain hreads | ⟨heq, -, -⟩ := hd.read cookie hm hentries hn fun _ => hstartable
    · exact ⟨hreads.dotEntries, .inr ⟨_, hreads.window⟩⟩
    · rw [heq]
      exact hd
  · rw [fdReaddir, if_neg (by rw [UInt32.lt_iff_toNat_lt]; exact not_lt.2 hbufLen), hcache]
    simp only [Option.map_some]
    split
    · rfl
    · cases writeReaddir mem buf bufLen cookie resultBufused
        (d.read m cookie (bufLen / 24 + 1 + 1)).2.1 <;> rfl

theorem ReachedDirectory.keeps (hm : Unchanged m position inode entries)
    (hentries : entries.length + 2 < 2 ^ 64) (h : ReachedDirectory m position f) :
    Keeps position inode entries f := by
  induction h with
  | opened hf => exact hf
  | @call f f' mem mem' buf bufLen resultBufused cookie errno _ hcall ih =>
    by_cases hbufLen : 24 ≤ bufLen.toNat
    · obtain ⟨d, -, -, hkeeps, heq⟩ := ih.fdReaddir_eq hm hentries hbufLen mem buf cookie
        resultBufused
      rw [heq] at hcall
      split at hcall
      · cases hcall
        exact hkeeps
      cases hwrite : writeReaddir mem buf bufLen cookie resultBufused
        (d.read m cookie (bufLen / 24 + 1 + 1)).2.1 with
      | error e =>
        rw [hwrite] at hcall
        cases hcall
      | ok r =>
        rw [hwrite] at hcall
        cases hcall
        exact hkeeps
    · have hlt : bufLen < 24 := UInt32.lt_iff_toNat_lt.2 (Nat.lt_of_not_le hbufLen)
      rw [fdReaddir, if_pos hlt] at hcall
      cases hcall
      exact ih

/-- A guest that has read the first `k` entries. -/
structure Guest.Reading (position : σ → Nat) (inode : UInt64) (entries : List Dirent) (g : Guest σ)
    (k : Nat) : Prop where
  seen : g.entries = seenDirents 1 ((allEntries inode entries).take k)
  le : k ≤ entries.length + 2
  errno : g.errno = .success
  file : ∃ f, g.file = some f ∧ Keeps position inode entries f ∧ ReadyAt position inode entries f k
  stopped : g.stopped = true → k = entries.length + 2

theorem Guest.Reading.toNat_cookie {g : Guest σ} {k : Nat} (hentries : entries.length + 2 < 2 ^ 64)
    (h : g.Reading position inode entries k) : g.cookie.toNat = k := by
  have hle := h.le
  rw [Guest.cookie, h.seen, dNext_getLast_seenDirents, UInt64.toNat_ofNat', length_take,
    length_allEntries]
  omega

theorem ReadyAt.reads {d : DirentCache σ} {k : Nat} {cookie : UInt64} {n : UInt32}
    (hm : Unchanged m position inode entries) (hentries : entries.length + 2 < 2 ^ 64)
    (hn : 3 ≤ n.toNat)
    (hd : d.Consistent position inode entries) (huniq : ∀ d', f.direntCache = some d' → d' = d)
    (h : ReadyAt position inode entries f k) (hcookie : cookie.toNat = k) :
    DirentCache.Reads position inode entries k n (d.read m cookie n) := by
  obtain ⟨hzero, hstartable⟩ := DirentCache.startable_of_le hn
  obtain hreads | ⟨-, hne, hout⟩ := hd.read cookie hm hentries hzero fun _ => hstartable
  · rwa [hcookie] at hreads
  obtain hzero | ⟨d', start, hcache, hwindow, hstart, hle⟩ := h
  · have heq : cookie = 0 := UInt64.toNat_inj.1 (hcookie.trans hzero)
    exact absurd heq hne
  · cases huniq d' hcache
    have := hout start hwindow (by omega)
    omega

/-- The number of entries that fit is less than what is asked for. -/
theorem length_le_of_totalSize_le {es : List Dirent} {n : Nat} (h : totalSize es ≤ n) :
    es.length ≤ n / 24 := by
  have hlen : 24 * es.length ≤ totalSize es := by
    induction es with
    | nil => exact le_refl 0
    | cons e es ih =>
      rw [totalSize_cons] at h ⊢
      rw [length_cons, entrySize, direntSize]
      omega
  omega

/-- What a call makes of a guest that has read `k` entries. -/
structure Guest.Advances (position : σ → Nat) (inode : UInt64) (entries : List Dirent)
    (a : ReaddirArgs) (k : Nat) (g' : Guest σ) (k' : Nat) : Prop where
  reading : g'.Reading position inode entries k'
  le : k ≤ k'
  some : ∀ e, (allEntries inode entries)[k]? = some e → entrySize e ≤ a.bufLen.toNat → k < k'
  ends : k = entries.length + 2 → g'.stopped = true

section

variable (hm : Unchanged m position inode entries)
  (hsmall : ∀ e ∈ allEntries inode entries, Dirent.Small e)
  (hentries : entries.length + 2 < 2 ^ 64)

include hm hsmall hentries

variable {g : Guest σ} {k : Nat}

theorem Guest.Reading.call_eq
    (h : g.Reading position inode entries k) (hstopped : g.stopped = false) (a : ReaddirArgs) :
    ∃ f mem complete others, g.call m a = .ok {
        file := some f
        entries := g.entries ++ seenDirents (g.cookie + 1) complete
        stopped := numberAt mem a.resultBufused.toNat 4 < a.bufLen.toNat } ∧
      Found a g.cookie (((allEntries inode entries).drop k).take (a.bufLen.toNat / 24 + 2)) complete
        others mem ∧
      Keeps position inode entries f ∧
      ∀ k' ≥ k, k' ≤ k + a.bufLen.toNat / 24 → k' ≤ entries.length + 2 →
        ReadyAt position inode entries f k' := by
  obtain ⟨f, hfile, hkeeps, hready⟩ := h.file
  have hlt := a.bufLen.toNat_lt
  have hn := toNat_maxDirEntries a.bufLen
  have hheader : 24 ≤ a.bufLen.toNat := a.direntSize_le
  obtain ⟨d, hd, huniq, hkeeps', hcall⟩ := hkeeps.fdReaddir_eq hm hentries hheader a.mem a.buf
    g.cookie a.resultBufused
  have hreads := hready.reads hm hentries (n := a.bufLen / 24 + 1 + 1) (by omega) hd huniq
    (h.toNat_cookie hentries)
  generalize d.read m g.cookie (a.bufLen / 24 + 1 + 1) = r at hreads hkeeps' hcall
  have hdirents := hreads.dirents
  have hcount := hreads.countRead
  rw [hn] at hdirents hcount
  have hread : ∀ e ∈ r.2.1, Dirent.Small e := by
    rw [hdirents]
    exact fun e he => hsmall e (mem_of_mem_drop (mem_of_mem_take he))
  obtain ⟨mem, complete, others, hwrite, hfound⟩ := a.writeReaddir_eq g.cookie hread
  rw [if_neg (by rw [hreads.errno]; simp), hwrite] at hcall
  refine ⟨_, mem, complete, others, ?_, hdirents ▸ hfound, hkeeps', ?_⟩
  · rw [Guest.call, hstopped, hfile, hcall, ← hfound.parsed]
    rfl
  · intro k' hge hle hend
    exact .inr ⟨r.1, k, rfl, hreads.window, hge, by omega⟩

theorem Guest.Reading.call
    (h : g.Reading position inode entries k) (hstopped : g.stopped = false) (a : ReaddirArgs) :
    ∃ g' k', g.call m a = .ok g' ∧ Guest.Advances position inode entries a k g' k' := by
  have hle := h.le
  have hcookie : g.cookie + 1 = 1 + UInt64.ofNat ((allEntries inode entries).take k).length := by
    rw [Guest.cookie, h.seen, dNext_getLast_seenDirents, UInt64.add_comm]
  obtain ⟨f, mem, complete, others, hcall, hfound, hkeeps, hready⟩ :=
    h.call_eq hm hsmall hentries hstopped a
  have hdirents := hfound.eq_append
  have hcomplete : complete.length ≤ a.bufLen.toNat / 24 := length_le_of_totalSize_le hfound.fits
  have hlength := congrArg length hdirents
  rw [length_take, length_drop, length_allEntries, length_append] at hlength
  have htake : (allEntries inode entries).take (k + complete.length) =
      (allEntries inode entries).take k ++ complete := by
    have hprefix := congrArg (take complete.length) hdirents
    rw [take_take, take_left, min_eq_left (by omega)] at hprefix
    rw [take_add, hprefix]
  refine ⟨_, k + complete.length, hcall, ⟨?_, ?_, rfl, ⟨f, rfl, hkeeps, ?_⟩, ?_⟩,
    Nat.le_add_right _ _, ?_, ?_⟩
  · rw [htake, seenDirents_append, h.seen, hcookie]
  · omega
  · exact hready _ (Nat.le_add_right _ _) (by omega) (by omega)
  · intro hstop
    have hothers := hfound.all (of_decide_eq_true hstop)
    rw [hothers, length_nil] at hlength
    omega
  · intro e he hsize
    refine Nat.lt_add_of_pos_right (length_pos_iff.2 ?_)
    rintro rfl
    have hcons : others = e :: ((allEntries inode entries).drop (k + 1)).take
        (a.bufLen.toNat / 24 + 1) := by
      rw [nil_append] at hdirents
      obtain ⟨hk, rfl⟩ := List.getElem?_eq_some_iff.1 he
      rw [← hdirents, drop_eq_getElem_cons hk, take_succ_cons]
    have := hfound.some _ _ hcons rfl
    omega
  · intro hend
    refine decide_eq_true (hfound.none ?_)
    rw [drop_of_length_le (by rw [length_allEntries]; omega), take_nil]

/-- However many calls follow, a guest has read a part of the entries, and no less than before. -/
theorem Guest.Reading.run {g' : Guest σ}
    {args : Nat → ReaddirArgs} {t t' : Nat} (hrun : g.run m args t = .ok g')
    (h : g'.Reading position inode entries k) (ht : t ≤ t') :
    ∃ g'' k', g.run m args t' = .ok g'' ∧ g''.Reading position inode entries k' ∧ k ≤ k' := by
  induction t', ht using Nat.le_induction with
  | base => exact ⟨g', k, hrun, h, le_refl k⟩
  | succ t' _ ih =>
    obtain ⟨g'', k', hrun, hreading, hle⟩ := ih
    rw [Guest.run, hrun, bind_ok]
    cases hstopped : g''.stopped with
    | true => exact ⟨g'', k', by rw [Guest.call, if_pos hstopped]; rfl, hreading, hle⟩
    | false =>
      obtain ⟨g3, k3, hcall, hadvances⟩ := hreading.call hm hsmall hentries hstopped (args t')
      exact ⟨g3, k3, hcall, hadvances.reading, le_trans hle hadvances.le⟩

/-- A guest of which the buffers are large enough time and again reads on until it stops. -/
theorem Guest.Reading.exists_stopped {g' : Guest σ}
    {args : Nat → ReaddirArgs}
    (hlarge : ∀ e ∈ allEntries inode entries, ∀ t, ∃ t' ≥ t, entrySize e ≤ (args t').bufLen.toNat)
    {t : Nat} (hrun : g.run m args t = .ok g') (h : g'.Reading position inode entries k) :
    ∃ t' g'', g.run m args t' = .ok g'' ∧ g''.stopped = true := by
  -- By induction on the number of entries that have not been read.
  induction hn : entries.length + 2 - k using Nat.strong_induction_on generalizing k t g' with
  | _ n ih =>
    have hle := h.le
    by_cases hend : k = entries.length + 2
    · cases hstopped : g'.stopped with
      | true => exact ⟨t, g', hrun, hstopped⟩
      | false =>
        obtain ⟨g'', k', hcall, hadvances⟩ := h.call hm hsmall hentries hstopped (args t)
        exact ⟨t + 1, g'', by rw [Guest.run, hrun, bind_ok, hcall], hadvances.ends hend⟩
    have hk : k < (allEntries inode entries).length := by
      rw [length_allEntries]
      omega
    obtain ⟨t', ht, hsize⟩ := hlarge _ (getElem_mem hk) t
    obtain ⟨g1, k1, hrun1, h1, hle1⟩ := h.run hm hsmall hentries hrun ht
    by_cases hkeep : k < k1
    · exact ih _ (by omega) hrun1 h1 rfl
    cases hstopped : g1.stopped with
    | true => exact ⟨t', g1, hrun1, hstopped⟩
    | false =>
      obtain ⟨g2, k2, hcall, hadvances⟩ := h1.call hm hsmall hentries hstopped (args t')
      have hk1 : k1 = k := by omega
      have hlt := hadvances.some _ (hk1 ▸ getElem?_eq_getElem hk) hsize
      have hrun2 : g.run m args (t' + 1) = .ok g2 := by
        rw [Guest.run, hrun1, bind_ok, hcall]
      exact ih _ (by omega) hrun2 hadvances.reading rfl

end

theorem small_allEntries (inode : UInt64) (hnames : ∀ e ∈ entries, e.name.length < 2 ^ 32 - 48) :
    ∀ e ∈ allEntries inode entries, Dirent.Small e := by
  intro e he
  have hlargest : largestDirent = 2 ^ 32 - 25 := by decide
  rw [Dirent.Small, entrySize, direntSize, hlargest]
  rw [allEntries, mem_cons, mem_cons] at he
  obtain rfl | rfl | he := he
  · simp [dotEntry, ascii]
  · simp [dotDotEntry, ascii]
  · have := hnames e he
    omega

/-- The first call already refuses an entry that is too large for it. -/
theorem crashes_call {f : σ} {e : Dirent} {rest : List Dirent}
    (hm : Unchanged m position inode (e :: rest)) (hentries : rest.length + 3 < 2 ^ 64)
    (hf : position f = 0) (he : ¬ Dirent.Small e) {a : ReaddirArgs} (hroom : 51 < a.bufLen.toNat) :
    Check.Crashes (Guest.call m { file := some { file := f } } a) := by
  have hlt := a.bufLen.toNat_lt
  have hn := toNat_maxDirEntries a.bufLen
  have hkeeps : Keeps position inode (e :: rest) { file := f } := hf
  obtain ⟨d, hd, huniq, -, hcall⟩ := hkeeps.fdReaddir_eq hm hentries a.direntSize_le a.mem a.buf 0
    a.resultBufused
  have hready : ReadyAt position inode (e :: rest) { file := f } 0 := .inl rfl
  have hreads := hready.reads hm hentries (n := a.bufLen / 24 + 1 + 1) (by omega) hd huniq
    UInt64.toNat_zero
  generalize d.read m 0 (a.bufLen / 24 + 1 + 1) = r at hreads hcall
  have hdirents : r.2.1 =
      [dotEntry inode, dotDotEntry] ++ e :: rest.take (a.bufLen.toNat / 24 + 2 - 3) := by
    obtain ⟨n, hn3⟩ : ∃ n, a.bufLen.toNat / 24 + 2 = n + 3 := ⟨a.bufLen.toNat / 24 - 1, by omega⟩
    rw [hreads.dirents, hn, hn3]
    rfl
  have hcrash : Check.Crashes (writeReaddir a.mem a.buf a.bufLen 0 a.resultBufused r.2.1) := by
    rw [hdirents]
    refine crashes_bind.2 (.inl (crashes_maxDirentsFrom ?_ he ?_ _))
    · exact @small_allEntries [] inode (by simp)
    · exact hroom
  obtain ⟨c, hcrash⟩ := hcrash
  rw [if_neg (by rw [hreads.errno]; simp), hcrash] at hcall
  refine ⟨c, ?_⟩
  exact congrArg (· >>= _) hcall

def zeroMemory (n : Nat) : MemoryInstance :=
  ⟨.ofList (replicate n 0), 65536, 65536, false⟩

theorem len_zeroMemory (n : Nat) : (zeroMemory n).buffer.len = n :=
  length_replicate

theorem exists_largest_buffer : ∃ a : ReaddirArgs, a.bufLen.toNat = 2 ^ 32 - 4 := by
  have hlen := len_zeroMemory (2 ^ 32)
  exact ⟨
    { mem := zeroMemory (2 ^ 32)
      buf := 0
      bufLen := 0xfffffffc
      resultBufused := 0xfffffffc
      len_le := le_of_eq hlen
      direntSize_le := by decide
      buf_inside := by rw [hlen]; decide
      buf_lt := by decide
      result_inside := by rw [hlen]; decide
      apart := .inr (by decide) }, rfl⟩

theorem not_readsDirectory {e : Dirent} (hname : e.name.length = 2 ^ 32 - 48) :
    ¬ ReadsDirectory (listedDirectory 1 [e]) id 1 [e] := by
  intro hreads
  have hsize : entrySize e = 2 ^ 32 - 24 := by
    rw [entrySize, hname]
    decide
  obtain ⟨a, ha⟩ := exists_largest_buffer
  have hlarge : ∀ e' ∈ allEntries 1 [e], ∀ t : Nat, ∃ t' ≥ t, entrySize e' ≤ a.bufLen.toNat := by
    intro e' he t
    refine ⟨t, le_refl t, ?_⟩
    rw [allEntries, mem_cons, mem_cons, mem_singleton] at he
    rw [ha]
    obtain rfl | rfl | rfl := he
    · decide
    · decide
    · rw [hsize]
      decide
  obtain ⟨hrun, -⟩ := hreads { file := 0 } (fun _ => a) (.opened rfl) hlarge
  obtain ⟨g, hrun, -⟩ := hrun 1
  obtain ⟨c, hcrash⟩ := @crashes_call Nat _ id 1 0 e [] (unchanged_listedDirectory 1 [e])
    (by decide) rfl
    (by rw [Dirent.Small, hsize]; decide) a (by rw [ha]; decide)
  rw [Guest.run, Guest.run, pure_bind, hcrash] at hrun
  cases hrun

theorem readsDirectory_of_names_lt (hm : Unchanged m position inode entries)
    (hnames : ∀ e ∈ entries, e.name.length < 2 ^ 32 - 48) (hentries : entries.length + 2 < 2 ^ 64) :
    ReadsDirectory m position inode entries := by
  intro f args hf hlarge
  have hsmall := small_allEntries inode hnames
  have hstart : ({ file := some f } : Guest σ).Reading position inode entries 0 :=
    ⟨rfl, Nat.zero_le _, rfl, ⟨f, rfl, hf.keeps hm hentries, .inl rfl⟩, fun h => nomatch h⟩
  refine ⟨fun t => ?_, hstart.exists_stopped hm hsmall hentries hlarge (t := 0) rfl⟩
  obtain ⟨g, k, hrun, hreading, -⟩ := hstart.run hm hsmall hentries rfl (Nat.zero_le t)
  refine ⟨g, hrun, hreading.errno, ?_, ?_⟩
  · rw [hreading.seen]
    have hsplit := seenDirents_append 1 ((allEntries inode entries).take k)
      ((allEntries inode entries).drop k)
    rw [take_append_drop] at hsplit
    exact hsplit ▸ prefix_append _ _
  · intro hstopped
    rw [hreading.seen, hreading.stopped hstopped, take_of_length_le (by simp)]

theorem readsDirectory_of_names_lt_one :
    ReadsDirectory (listedDirectory 1 [⟨ascii "a", 2, 0⟩]) id 1 [⟨ascii "a", 2, 0⟩] :=
  readsDirectory_of_names_lt (unchanged_listedDirectory 1 _) (by decide) (by decide)

theorem not_readsDirectory_largest :
    Unchanged (listedDirectory 1 [⟨replicate (2 ^ 32 - 48) 97, 2, 0⟩]) id 1
        [⟨replicate (2 ^ 32 - 48) 97, 2, 0⟩] ∧
      ¬ ReadsDirectory (listedDirectory 1 [⟨replicate (2 ^ 32 - 48) 97, 2, 0⟩]) id 1
        [⟨replicate (2 ^ 32 - 48) 97, 2, 0⟩] :=
  ⟨unchanged_listedDirectory 1 _, not_readsDirectory length_replicate⟩

end Run

end Andsifr.Wasi
