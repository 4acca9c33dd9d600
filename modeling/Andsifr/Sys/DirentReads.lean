import Andsifr.Sys.DirentCache

namespace Andsifr.Sys.DirentCache

open List

variable {σ : Type}

/-- The calls of a sequence, each with a position and a number of entries, do what they should: one
that succeeds returns the entries from its position on, and one from the start, or from a position
between `lo` and `hi`, succeeds. These are the ends of what was returned last. -/
def ReadsRight (m : FileMethods σ) (inode : UInt64) (entries : List Dirent) :
    DirentCache σ → (lo hi : Nat) → List (UInt64 × UInt32) → Prop
  | _, _, _, [] => True
  | d, lo, hi, (pos, n) :: calls =>
    if (d.read m pos n).2.2 = .success then
      (d.read m pos n).2.1 = ((allEntries inode entries).drop pos.toNat).take n.toNat ∧
        ReadsRight m inode entries (d.read m pos n).1 pos.toNat
          (pos.toNat + (d.read m pos n).2.1.length) calls
    else
      ¬ (pos = 0 ∨ lo ≤ pos.toNat ∧ pos.toNat ≤ hi) ∧
        ReadsRight m inode entries (d.read m pos n).1 lo hi calls

variable {m : FileMethods σ} {position : σ → Nat} {inode : UInt64} {entries : List Dirent}
  {d : DirentCache σ}

/-- A count of entries that does not fit 32 bits is too small or none. -/
theorem length_cachedDirents_one {dirents : List Dirent} (hlo : 2 ^ 32 ≤ dirents.length)
    (hhi : dirents.length ≤ 2 ^ 32 + 1) : (cachedDirents dirents 1).length ≠ 1 := by
  have hcount : (UInt32.ofNat dirents.length).toNat = dirents.length % 2 ^ 32 := UInt32.toNat_ofNat'
  rw [cachedDirents]
  split
  · simp
  · rw [if_neg (by rw [UInt32.lt_iff_toNat_lt, hcount]; simp only [UInt32.reduceToNat]; omega)]
    omega

/-- A first read of one or two entries that cannot be started gives something else. -/
theorem readFirst_wrong {n : UInt32} (hm : Unchanged m position inode entries)
    (hdots : d.dotEntries = [dotEntry inode, dotDotEntry]) (hf : position d.f = 0)
    (h : ¬ Startable entries n) :
    (d.readFirst m n).2.2 = .success ∧
      (d.readFirst m n).2.1 ≠ (allEntries inode entries).take n.toNat := by
  by_cases htwo : n = 2
  · subst htwo
    exact ⟨rfl, nofun⟩
  obtain ⟨hone, hlong⟩ : n = 1 ∧ 2 ^ 32 ≤ entries.length + 2 := by
    rw [Startable] at h
    simp only [ne_eq, htwo, not_false_eq_true, true_and, Classical.not_imp, not_lt] at h
    exact h
  subst hone
  obtain ⟨f', hread, -⟩ := hm.readdir d.f (2 ^ 32 - 1) (by decide)
  rw [hf, drop_zero] at hread
  have hlen : (entries.take (2 ^ 32 - 1)).length = min (2 ^ 32 - 1) entries.length := length_take
  have hfirst : d.readFirst m 1 = { d with
      dirents := some d.dotEntries, countRead := 2, eof := false }.readMore m d.dotEntries
        (2 ^ 32 - 1) 1 := rfl
  rw [hfirst, readMore]
  simp only [hread]
  rw [if_neg (by decide), append, if_pos (by omega)]
  refine ⟨rfl, fun heq => length_cachedDirents_one ?_ ?_ (congrArg length heq)⟩
  · simp only [Option.getD_some, length_append, hdots, hlen, length_cons, length_nil]
    omega
  · simp only [Option.getD_some, length_append, hdots, hlen, length_cons, length_nil]
    omega

/-- The positions from `lo` to `hi` are in the cache. -/
def Covers (position : σ → Nat) (inode : UInt64) (entries : List Dirent) (d : DirentCache σ)
    (lo hi : Nat) : Prop :=
  hi = 0 ∨ ∃ start, d.Window position inode entries start ∧ start ≤ lo ∧ hi ≤ d.countRead.toNat

theorem Consistent.readsRight (hm : Unchanged m position inode entries)
    (hentries : entries.length + 2 < 2 ^ 64) (h : d.Consistent position inode entries) {lo hi : Nat}
    (hcovers : d.Covers position inode entries lo hi) {calls : List (UInt64 × UInt32)}
    (hn : ∀ c ∈ calls, c.2 ≠ 0) :
    ReadsRight m inode entries d lo hi calls ↔ ∀ c ∈ calls, c.1 = 0 → Startable entries c.2 := by
  induction calls generalizing d lo hi with
  | nil => simp [ReadsRight]
  | cons c calls ih =>
    obtain ⟨pos, n⟩ := c
    have hn0 : n ≠ 0 := hn (pos, n) mem_cons_self
    have hrest : ∀ c ∈ calls, c.2 ≠ 0 := fun c hc => hn c (mem_cons_of_mem _ hc)
    rw [ReadsRight, forall_mem_cons]
    by_cases hgood : pos = 0 → Startable entries n
    · obtain hreads | ⟨heq, hpos, hout⟩ := h.read pos hm hentries hn0 hgood
      · have hlength := congrArg length hreads.dirents
        have hstart := hreads.window.start_le
        have hcount := hreads.countRead
        rw [length_take, length_drop, length_allEntries] at hlength
        rw [if_pos hreads.errno, ih ⟨hreads.dotEntries, .inr ⟨_, hreads.window⟩⟩
          (.inr ⟨_, hreads.window, le_refl _, by omega⟩) hrest]
        exact and_congr_left' ⟨fun _ => hgood, fun _ => hreads.dirents⟩
      · rw [heq, ih h hcovers hrest]
        refine and_congr_left' ⟨fun _ => hgood, fun _ => ?_⟩
        rintro (hzero | ⟨hlo, hhi⟩)
        · exact hpos hzero
        · obtain rfl | ⟨start, hwindow, hle, hcount⟩ := hcovers
          · exact hpos (UInt64.toNat.inj (Nat.le_zero.1 hhi))
          · have := hout start hwindow (le_trans hle hlo)
            omega
    · obtain ⟨rfl, hbad⟩ := Classical.not_imp.1 hgood
      obtain ⟨d', hdots, hf, heq⟩ := h.read_zero hm hn0
      obtain ⟨hsuccess, hwrong⟩ := readFirst_wrong hm hdots hf hbad
      rw [heq, if_pos hsuccess]
      exact iff_of_false (fun hright => hwrong hright.1) fun hall => hgood hall.1

/-- From a cache that is just created, the calls of a sequence do what they should exactly if none
reads two entries from the start, and none reads a single one from the start of a listing that does
not fit 32 bits. -/
theorem readsRight_iff (hm : Unchanged m position inode entries)
    (hentries : entries.length + 2 < 2 ^ 64) {f : σ} (hf : position f = 0)
    {calls : List (UInt64 × UInt32)} (hn : ∀ c ∈ calls, c.2 ≠ 0) :
    ReadsRight m inode entries { f, dotEntries := [dotEntry inode, dotDotEntry] } 0 0 calls ↔
      ∀ c ∈ calls, c.1 = 0 → Startable entries c.2 :=
  Consistent.readsRight hm hentries ⟨rfl, .inl ⟨rfl, rfl, hf⟩⟩ (.inl rfl) hn

theorem readsRight_iff_three :
    ReadsRight (listedDirectory 1 [⟨ascii "a", 2, 0⟩]) 1 [⟨ascii "a", 2, 0⟩]
      { f := 0, dotEntries := [dotEntry 1, dotDotEntry] } 0 0 [(0, 3), (2, 3)] :=
  (readsRight_iff (unchanged_listedDirectory 1 _) (by simp) rfl (by simp)).2
    fun c hc _ => ⟨by simp at hc; obtain rfl | rfl := hc <;> decide, fun _ => by simp⟩

/-- The first two entries of a directory are not returned. -/
theorem readTwo_wrong :
    ¬ ReadsRight (listedDirectory 1 []) 1 [] { f := 0, dotEntries := [dotEntry 1, dotDotEntry] } 0 0
      [(0, 2)] :=
  fun h => nomatch h.1

end Andsifr.Sys.DirentCache
