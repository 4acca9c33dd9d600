import Andsifr.Sys.FSContext

namespace Andsifr.Sys

open List UInt64

/-- An entry of a directory. The type is the bits of a `fs.FileMode`. -/
structure Dirent where
  name : Path
  ino : UInt64
  type : UInt32
  deriving DecidableEq, Repr

def modeDir : UInt32 := 0x80000000

/-- The methods of a `sys.File` that a cache calls, over the state of the file. -/
structure FileMethods (σ : Type) where
  isDir : σ → Bool × Errno
  ino : σ → UInt64 × Errno
  seekStart : σ → σ × Errno
  readdir : σ → Nat → σ × List Dirent × Errno

/-- The entries are `none` until the first read, and after a rewind. -/
structure DirentCache (σ : Type) where
  f : σ
  dotEntries : List Dirent
  dirents : Option (List Dirent) := none
  countRead : UInt64 := 0
  eof : Bool := false
  deriving DecidableEq, Repr

def dotEntry (ino : UInt64) : Dirent :=
  ⟨ascii ".", ino, modeDir⟩

def dotDotEntry : Dirent :=
  ⟨ascii "..", 0, modeDir⟩

variable {σ : Type}

def synthesizeDotEntries (m : FileMethods σ) (f : σ) : List Dirent × Errno :=
  let (ino, errno) := m.ino f
  if errno ≠ .success then ([], errno)
  else ([dotEntry ino, dotDotEntry], .success)

namespace DirentCache

/-- Up to `n` entries of the cache. -/
def cachedDirents (dirents : List Dirent) (n : UInt32) : List Dirent :=
  let direntCount := UInt32.ofNat dirents.length
  if direntCount = 0 then []
  else if n < direntCount then dirents.take n.toNat
  else dirents

def rewind (m : FileMethods σ) (d : DirentCache σ) (pos : UInt64) : DirentCache σ × Errno :=
  if pos = 0 ∧ d.dirents.isSome then
    let (f, errno) := m.seekStart d.f
    if errno ≠ .success then ({ d with f }, errno)
    else ({ d with f, dirents := none, countRead := 0 }, .success)
  else (d, .success)

/-- Appends what the file returns, which is at its end when this is less than was asked for. -/
def append (d : DirentCache σ) (cached dirents : List Dirent) (countToRead : Nat) : DirentCache σ :=
  if 0 < dirents.length then
    { d with
      eof := dirents.length < countToRead
      dirents := some (cached ++ dirents)
      countRead := d.countRead + .ofNat dirents.length }
  else { d with dirents := some cached }

/-- Reads more entries, which could fail, after those that are cached. -/
def readMore (m : FileMethods σ) (d : DirentCache σ) (cached : List Dirent) (countToRead : Nat)
    (n : UInt32) : DirentCache σ × List Dirent × Errno :=
  let (f, dirents, errno) := m.readdir d.f countToRead
  let d := { d with f }
  if errno ≠ .success then (d, dirents, errno)
  else
    let d := d.append cached dirents countToRead
    (d, cachedDirents (d.dirents.getD []) n, .success)

/-- The first read always has the dot entries. The number to read is computed in 32 bits. -/
def readFirst (m : FileMethods σ) (d : DirentCache σ) (n : UInt32) :
    DirentCache σ × List Dirent × Errno :=
  let d := { d with dirents := some d.dotEntries, countRead := 2, eof := false }
  let countToRead := (n - 2).toNat
  if countToRead = 0 then (d, [], .success)
  else d.readMore m d.dotEntries countToRead n

/-- A read from a cache, of which `pos` becomes the start. -/
def readNext (m : FileMethods σ) (d : DirentCache σ) (cached : List Dirent) (pos : UInt64)
    (n : UInt32) : DirentCache σ × List Dirent × Errno :=
  let cacheStart := d.countRead - .ofNat cached.length
  if pos < cacheStart then (d, [], .ENOENT)
  else
    -- No position after the cache gets here.
    let cached := cached.drop (pos - cacheStart).toNat
    let d := { d with dirents := some cached }
    let countToRead := n.toNat - cached.length
    if 0 < countToRead ∧ d.eof = false then d.readMore m cached countToRead n
    else (d, cachedDirents cached n, .success)

def read (m : FileMethods σ) (d : DirentCache σ) (pos : UInt64) (n : UInt32) :
    DirentCache σ × List Dirent × Errno :=
  if d.countRead < pos then (d, [], .ENOENT)
  else
    let (d, errno) := d.rewind m pos
    if errno ≠ .success then (d, [], errno)
    else if n = 0 then (d, [], .success)
    else match d.dirents with
      | none => d.readFirst m n
      | some cached => d.readNext m cached pos n

end DirentCache

/-- The part of a `FileEntry` that reading a directory uses: the file, which the cache has once
there is one. -/
structure OpenDirectory (σ : Type) where
  file : σ
  direntCache : Option (DirentCache σ) := none
  deriving DecidableEq, Repr

def OpenDirectory.getDirentCache (m : FileMethods σ) (f : OpenDirectory σ) :
    Except Errno (DirentCache σ) :=
  match f.direntCache with
  | some dir => .ok dir
  | none =>
    let (isDir, errno) := m.isDir f.file
    if errno ≠ .success then .error errno
    else if !isDir then .error .ENOTDIR
    else
      let (dotEntries, errno) := synthesizeDotEntries m f.file
      if errno ≠ .success then .error errno
      else .ok { f := f.file, dotEntries }

/-- What `sys.File` documents of a directory that does not change: after `position f` of the
entries, `Readdir` returns the next ones, and less than it was asked for only at the end. -/
structure Unchanged (m : FileMethods σ) (position : σ → Nat) (inode : UInt64)
    (entries : List Dirent) : Prop where
  isDir : ∀ f, m.isDir f = (true, .success)
  ino : ∀ f, m.ino f = (inode, .success)
  seekStart : ∀ f, ∃ f', m.seekStart f = (f', .success) ∧ position f' = 0
  readdir : ∀ f n, 0 < n → ∃ f', m.readdir f n =
      (f', (entries.drop (position f)).take n, .success) ∧
    position f' = position f + ((entries.drop (position f)).take n).length

def listedDirectory (inode : UInt64) (entries : List Dirent) : FileMethods Nat where
  isDir _ := (true, .success)
  ino _ := (inode, .success)
  seekStart _ := (0, .success)
  readdir p n := (p + ((entries.drop p).take n).length, (entries.drop p).take n, .success)

theorem unchanged_listedDirectory (inode : UInt64) (entries : List Dirent) :
    Unchanged (listedDirectory inode entries) id inode entries where
  isDir _ := rfl
  ino _ := rfl
  seekStart _ := ⟨0, rfl, rfl⟩
  readdir p n _ := ⟨p + ((entries.drop p).take n).length, rfl, rfl⟩

def allEntries (inode : UInt64) (entries : List Dirent) : List Dirent :=
  dotEntry inode :: dotDotEntry :: entries

@[simp] theorem length_allEntries (inode : UInt64) (entries : List Dirent) :
    (allEntries inode entries).length = entries.length + 2 :=
  rfl

namespace DirentCache

/-- The cache holds the entries from `start` to `countRead`. -/
structure Window (position : σ → Nat) (inode : UInt64) (entries : List Dirent) (d : DirentCache σ)
    (start : Nat) : Prop where
  dirents : d.dirents = some (((allEntries inode entries).take d.countRead.toNat).drop start)
  start_le : start ≤ d.countRead.toNat
  countRead : d.countRead.toNat = position d.f + 2
  position_le : position d.f ≤ entries.length
  eof : d.eof = true → position d.f = entries.length
  small : d.countRead.toNat - start < 2 ^ 32

/-- The cache is as after a rewind, or it holds a part of the entries. -/
structure Consistent (position : σ → Nat) (inode : UInt64) (entries : List Dirent)
    (d : DirentCache σ) : Prop where
  dotEntries : d.dotEntries = [dotEntry inode, dotDotEntry]
  state : d.dirents = none ∧ d.countRead = 0 ∧ position d.f = 0 ∨
    ∃ start, d.Window position inode entries start

section

variable {m : FileMethods σ} {position : σ → Nat} {inode : UInt64} {entries : List Dirent}
  {d : DirentCache σ}

theorem cachedDirents_eq {dirents : List Dirent} (h : dirents.length < 2 ^ 32) (n : UInt32) :
    cachedDirents dirents n = dirents.take n.toNat := by
  have hcount : (UInt32.ofNat dirents.length).toNat = dirents.length := by
    rw [UInt32.toNat_ofNat']
    omega
  rw [cachedDirents]
  split
  next hzero =>
    have hlen : dirents.length = 0 := by rw [← hcount, hzero]; rfl
    rw [length_eq_zero_iff.1 hlen, take_nil]
  split
  next => rfl
  next hle =>
    rw [UInt32.lt_iff_toNat_lt] at hle
    rw [take_of_length_le (by omega)]

variable {start : Nat}

theorem take_window {α : Type} (l : List α) {count n : Nat} (h : min (start + n) l.length ≤ count) :
    ((l.take count).drop start).take n = (l.drop start).take n := by
  rw [drop_take, take_take]
  by_cases hn : n ≤ count - start
  · rw [min_eq_left hn]
  · have hlen : (l.drop start).length ≤ count - start := by
      rw [length_drop]
      omega
    rw [min_eq_right (by omega), take_of_length_le hlen, take_of_length_le (by omega)]

section

variable (h : d.Window position inode entries start)

include h

theorem Window.length : (((allEntries inode entries).take d.countRead.toNat).drop start).length =
      d.countRead.toNat - start := by
  have hcount := h.countRead
  have hle := h.position_le
  rw [length_drop, length_take, length_allEntries]
  omega

theorem Window.cacheStart : (d.countRead - UInt64.ofNat
      (((allEntries inode entries).take d.countRead.toNat).drop start).length).toNat = start := by
  have hstart := h.start_le
  have hlt := d.countRead.toNat_lt
  have hlen : (UInt64.ofNat (d.countRead.toNat - start)).toNat = d.countRead.toNat - start := by
    rw [toNat_ofNat']
    omega
  rw [h.length, UInt64.toNat_sub_of_le]
  · omega
  · rw [le_iff_toNat_le]
    omega

theorem Window.unique {start' : Nat}
    (h' : d.Window position inode entries start') : start = start' := by
  have heq := h.dirents.symm.trans h'.dirents
  rw [Option.some.injEq] at heq
  rw [← h.cacheStart, ← h'.cacheStart, heq]

end

theorem window_append {count k : Nat} (hstart : start ≤ count + 2)
    (hcount : count ≤ entries.length) :
    ((allEntries inode entries).take (count + ((entries.drop count).take k).length +
      2)).drop start =
      ((allEntries inode entries).take (count + 2)).drop start ++ (entries.drop count).take k := by
  have hnext : (allEntries inode entries).drop (count + 2) = entries.drop count := rfl
  have htake : (entries.drop count).take ((entries.drop count).take k).length =
      (entries.drop count).take k := by
    rw [length_take, ← take_eq_take_min]
  rw [add_right_comm, take_add, hnext, htake, drop_append_of_le_length]
  rw [length_take, length_allEntries]
  omega

variable {cached : List Dirent}

theorem Window.append {f : σ} {k : Nat} {dirents : List Dirent}
    (hentries : entries.length + 2 < 2 ^ 64) (h : d.Window position inode entries start)
    (hcached : d.dirents = some cached)
    (hdirents : dirents = (entries.drop (position d.f)).take k)
    (hf : position f = position d.f + dirents.length)
    (hsmall : min (d.countRead.toNat + k) (entries.length + 2) - start < 2 ^ 32) :
    ({ d with f }.append cached dirents k).Window position inode entries start ∧
      min (d.countRead.toNat + k) (entries.length + 2) ≤
        ({ d with f }.append cached dirents k).countRead.toNat := by
  have hcount := h.countRead
  have hle := h.position_le
  have hstart := h.start_le
  have hlen : dirents.length = min k (entries.length - position d.f) := by
    rw [hdirents, length_take, length_drop]
  have hwindow := hcached.symm.trans h.dirents
  rw [Option.some.injEq] at hwindow
  unfold DirentCache.append
  split
  next hpos =>
    have hcount' : (d.countRead + UInt64.ofNat dirents.length).toNat =
        position d.f + dirents.length + 2 := by
      rw [UInt64.toNat_add, UInt64.toNat_ofNat']
      omega
    refine ⟨⟨?_, ?_, ?_, ?_, ?_, ?_⟩, ?_⟩
    · simp only [hcount', hwindow]
      rw [hdirents, window_append (hcount ▸ hstart) hle, hcount]
    · simp only [hcount']
      omega
    · simp only [hcount', hf]
    · simp only [hf]
      omega
    · intro heof
      have hlt : dirents.length < k := of_decide_eq_true heof
      simp only [hf]
      omega
    · simp only [hcount']
      omega
    · simp only [hcount']
      omega
  next hpos =>
    have hf : position f = position d.f := by omega
    refine ⟨⟨?_, hstart, ?_, ?_, ?_, h.small⟩, ?_⟩
    · simp only [hwindow]
    · simp only [hf, hcount]
    · simp only [hf, hle]
    · intro heof
      simp only [hf, h.eof heof]
    · simp only
      omega

variable {n : UInt32}

theorem Window.cachedDirents (h : d.Window position inode entries start)
    (hread : min (start + n.toNat) (entries.length + 2) ≤ d.countRead.toNat) :
    DirentCache.cachedDirents (d.dirents.getD []) n =
      ((allEntries inode entries).drop start).take n.toNat := by
  rw [h.dirents, Option.getD_some, cachedDirents_eq (by rw [h.length]; exact h.small),
    take_window _ hread]

/-- What a read that succeeds leaves and returns. -/
structure Reads (position : σ → Nat) (inode : UInt64) (entries : List Dirent) (pos : Nat)
    (n : UInt32) (r : DirentCache σ × List Dirent × Errno) : Prop where
  dotEntries : r.1.dotEntries = [dotEntry inode, dotDotEntry]
  window : r.1.Window position inode entries pos
  countRead : min (pos + n.toNat) (entries.length + 2) ≤ r.1.countRead.toNat
  dirents : r.2.1 = ((allEntries inode entries).drop pos).take n.toNat
  errno : r.2.2 = .success

@[simp] theorem dotEntries_append (d : DirentCache σ) (cached dirents : List Dirent) (k : Nat) :
    (d.append cached dirents k).dotEntries = d.dotEntries := by
  unfold append
  split <;> rfl

theorem Window.reads_readMore {k : Nat}
    (hm : Unchanged m position inode entries) (hentries : entries.length + 2 < 2 ^ 64)
    (hdots : d.dotEntries = [dotEntry inode, dotDotEntry])
    (h : d.Window position inode entries start) (hcached : d.dirents = some cached) (hk : 0 < k)
    (hn : start + n.toNat ≤ d.countRead.toNat + k)
    (hsmall : min (d.countRead.toNat + k) (entries.length + 2) - start < 2 ^ 32) :
    Reads position inode entries start n (d.readMore m cached k n) := by
  obtain ⟨f', hread, hf'⟩ := hm.readdir d.f k hk
  obtain ⟨happend, hcount⟩ := h.append hentries hcached rfl hf' hsmall
  have hle : min (start + n.toNat) (entries.length + 2) ≤
      min (d.countRead.toNat + k) (entries.length + 2) := by omega
  have hcount := le_trans hle hcount
  rw [readMore, hread]
  exact ⟨by simp [hdots], happend, hcount, happend.cachedDirents hcount, rfl⟩

/-- A read from the start asks the file for the wrong number of entries if it is for fewer than
three: for none after the dot entries, which are then not returned, or for all that there are. -/
def Startable (entries : List Dirent) (n : UInt32) : Prop :=
  n ≠ 2 ∧ (n = 1 → entries.length + 2 < 2 ^ 32)

theorem startable_of_le (hn : 3 ≤ n.toNat) : n ≠ 0 ∧ Startable entries n := by
  refine ⟨?_, ?_, ?_⟩ <;> rintro rfl <;> exact absurd hn (by decide)

theorem reads_readFirst (hm : Unchanged m position inode entries)
    (hentries : entries.length + 2 < 2 ^ 64) (hn : n ≠ 0) (hstartable : Startable entries n)
    (hdots : d.dotEntries = [dotEntry inode, dotDotEntry]) (hf : position d.f = 0) :
    Reads position inode entries 0 n (d.readFirst m n) := by
  have hwindow : { d with dirents := some d.dotEntries, countRead := 2, eof := false }.Window
      position inode entries 0 := by
    refine ⟨?_, Nat.zero_le _, ?_, ?_, (fun heof => nomatch heof), ?_⟩
    · exact congrArg some hdots
    · simp only [hf]
      rfl
    · simp only [hf]
      exact Nat.zero_le _
    · show 2 - 0 < 2 ^ 32
      decide
  have hk : 0 < (n - 2).toNat ∧ n.toNat ≤ 2 + (n - 2).toNat ∧
      min (2 + (n - 2).toNat) (entries.length + 2) < 2 ^ 32 := by
    have hlt := n.toNat_lt
    have hzero : n.toNat ≠ 0 := fun heq => hn (UInt32.toNat.inj heq)
    have htwo : n.toNat ≠ 2 := fun heq => hstartable.1 (UInt32.toNat.inj heq)
    have hone : n.toNat = 1 → entries.length + 2 < 2 ^ 32 :=
      fun heq => hstartable.2 (UInt32.toNat.inj heq)
    rw [UInt32.toNat_sub]
    simp only [UInt32.reduceToNat]
    omega
  rw [readFirst]
  simp only
  rw [if_neg (by omega)]
  exact hwindow.reads_readMore hm hentries hdots rfl hk.1 (by simpa using hk.2.1) hk.2.2

theorem Window.forward {pos : Nat}
    (h : d.Window position inode entries start) (hcached : d.dirents = some cached)
    (hpos : start ≤ pos) (hle : pos ≤ d.countRead.toNat) :
    { d with dirents := some (cached.drop (pos - start)) }.Window position inode entries pos := by
  have hsmall := h.small
  have hwindow := hcached.symm.trans h.dirents
  rw [Option.some.injEq] at hwindow
  refine ⟨?_, hle, h.countRead, h.position_le, h.eof, ?_⟩
  · rw [hwindow, drop_drop, Nat.add_sub_cancel' hpos]
  · simp only
    omega

theorem Window.reads_readNext {pos : UInt64}
    (hm : Unchanged m position inode entries) (hentries : entries.length + 2 < 2 ^ 64)
    (hdots : d.dotEntries = [dotEntry inode, dotDotEntry])
    (h : d.Window position inode entries start) (hcached : d.dirents = some cached)
    (hpos : start ≤ pos.toNat) (hle : pos.toNat ≤ d.countRead.toNat) :
    Reads position inode entries pos.toNat n (d.readNext m cached pos n) := by
  have hforward := h.forward hcached hpos hle
  have hcount := h.countRead
  have hwindow := hcached.symm.trans h.dirents
  rw [Option.some.injEq] at hwindow
  have hcacheStart : (d.countRead - UInt64.ofNat cached.length).toNat = start := by
    rw [hwindow, h.cacheStart]
  have hdrop : (pos - (d.countRead - UInt64.ofNat cached.length)).toNat = pos.toNat - start := by
    rw [UInt64.toNat_sub_of_le, hcacheStart]
    rwa [le_iff_toNat_le, hcacheStart]
  have hlen : (cached.drop (pos.toNat - start)).length = d.countRead.toNat - pos.toNat := by
    rw [length_drop, hwindow, h.length]
    omega
  rw [readNext]
  simp only [hdrop]
  rw [if_neg (by rw [lt_iff_toNat_lt, hcacheStart]; omega)]
  split
  next hmore =>
    have hlt := n.toNat_lt
    refine hforward.reads_readMore hm hentries hdots rfl hmore.1 ?_ ?_
    · simp only
      omega
    · simp only
      omega
  next hmore =>
    have hread : min (pos.toNat + n.toNat) (entries.length + 2) ≤ d.countRead.toNat := by
      rw [hlen] at hmore
      cases heof : d.eof with
      | true =>
        have := h.eof heof
        omega
      | false =>
        have : ¬ 0 < n.toNat - (d.countRead.toNat - pos.toNat) := fun hlt => hmore ⟨hlt, heof⟩
        omega
    exact ⟨hdots, hforward, hread, hforward.cachedDirents hread, rfl⟩

theorem Consistent.read_zero (hm : Unchanged m position inode entries) (hn : n ≠ 0)
    (h : d.Consistent position inode entries) :
    ∃ d' : DirentCache σ, d'.dotEntries = [dotEntry inode, dotDotEntry] ∧ position d'.f = 0 ∧
      d.read m 0 n = d'.readFirst m n := by
  rw [DirentCache.read, if_neg (by simp [lt_iff_toNat_lt])]
  obtain ⟨hnone, -, hf⟩ | ⟨start, hwindow⟩ := h.state
  · refine ⟨d, h.dotEntries, hf, ?_⟩
    rw [show d.rewind m 0 = (d, .success) from if_neg (by simp [hnone])]
    simp only [ne_eq, not_true_eq_false, if_false, hn, hnone]
  · obtain ⟨f', hseek, hf'⟩ := hm.seekStart d.f
    refine ⟨{ d with f := f', dirents := none, countRead := 0 }, h.dotEntries, hf', ?_⟩
    rw [rewind, if_pos ⟨rfl, by simp [hwindow.dirents]⟩, hseek]
    simp only [ne_eq, not_true_eq_false, if_false, hn]

/-- A read either returns the entries from its position on, or there is no such position in the
cache. -/
theorem Consistent.read (pos : UInt64) (hm : Unchanged m position inode entries)
    (hentries : entries.length + 2 < 2 ^ 64) (hn : n ≠ 0)
    (hstartable : pos = 0 → Startable entries n)
    (h : d.Consistent position inode entries) :
    Reads position inode entries pos.toNat n (d.read m pos n) ∨
      d.read m pos n = (d, [], .ENOENT) ∧ pos ≠ 0 ∧ ∀ start, d.Window position inode entries start →
          start ≤ pos.toNat → d.countRead.toNat < pos.toNat := by
  by_cases hpos : pos = 0
  · obtain ⟨d', hdots, hf, heq⟩ := h.read_zero hm hn
    subst hpos
    rw [heq]
    exact .inl (reads_readFirst hm hentries hn (hstartable rfl) hdots hf)
  unfold DirentCache.read
  by_cases hlt : d.countRead < pos
  · exact .inr ⟨if_pos hlt, hpos, fun _ _ _ => lt_iff_toNat_lt.1 hlt⟩
  rw [if_neg hlt]
  obtain ⟨-, hcount, -⟩ | ⟨start, hwindow⟩ := h.state
  · rw [hcount] at hlt
    have hzero : pos.toNat = 0 := Nat.eq_zero_of_not_pos hlt
    exact absurd (UInt64.toNat.inj hzero) hpos
  have hrewind : d.rewind m pos = (d, .success) := if_neg (by simp [hpos])
  rw [hrewind]
  simp only [ne_eq, not_true_eq_false, if_false, hn, hwindow.dirents]
  by_cases hstart : start ≤ pos.toNat
  · exact .inl (hwindow.reads_readNext hm hentries h.dotEntries hwindow.dirents hstart
      (Nat.le_of_not_lt hlt))
  refine .inr ⟨?_, hpos, ?_⟩
  · rw [readNext, if_pos]
    rw [lt_iff_toNat_lt, hwindow.cacheStart]
    omega
  · intro start' hwindow' hstart'
    rw [hwindow.unique hwindow'] at hstart
    exact absurd hstart' hstart

end

end DirentCache

end Andsifr.Sys
