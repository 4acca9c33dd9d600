import Andsifr.Wasi.Vectored

namespace Andsifr.Wasi

open Lib Wasm Sys MemoryInstance Check Slice

def transferred (calls : List Transfer) : Nat :=
  (calls.map fun t => t.response.n.toNat).sum

/-- The entry `i` of the list: the offset and the length of a buffer. -/
def iovecAt (mem : MemoryInstance) (iovs : UInt32) (i : Nat) : UInt32 × UInt32 :=
  (.ofNat (leNat (mem.buffer.extract (iovs.toNat + 8 * i) 4)),
    .ofNat (leNat (mem.buffer.extract (iovs.toNat + 8 * i + 4) 4)))

/-- What the first `i` entries of the list have led to: each call is for the buffer of the next
entry, as the list stands at the time, and only entries of length zero are left out. -/
inductive InOrder (mem : MemoryInstance) (iovs : UInt32) :
    Nat → MemoryInstance → List Transfer → Prop
  | start : InOrder mem iovs 0 mem []
  | leaveOut {i : Nat} {m : MemoryInstance} {calls : List Transfer} :
      InOrder mem iovs i m calls → (iovecAt m iovs i).2 = 0 → InOrder mem iovs (i + 1) m calls
  | call {i : Nat} {m : MemoryInstance} {calls : List Transfer} {t : Transfer} :
      InOrder mem iovs i m calls → iovecAt m iovs i = (t.offset, t.len) →
        InOrder mem iovs (i + 1) (t.apply m) (calls ++ [t])

/-- The result of `readv` or `writev`: an error only if no byte has been transferred, otherwise the
number of bytes transferred, in the order of the list; and `EFAULT` if the list is not inside the
memory. -/
def ReportsProgress (mem : MemoryInstance) (iovs iovsCount : UInt32)
    (result : Check (Transferring × UInt32 × Errno)) : Prop :=
  ∃ s count errno, result = .ok (s, count, errno) ∧
    (errno ≠ .success → transferred s.calls = 0) ∧
    (errno = .success → count.toNat = transferred s.calls) ∧
    (∃ i ≤ iovsCount.toNat, InOrder mem iovs i s.mem s.calls) ∧
    (mem.buffer.len < iovs.toNat + 8 * iovsCount.toNat → errno = .EFAULT)

section

variable (skips : UInt32 → Prop) (file : File) (mem : MemoryInstance) (iovs iovsCount : UInt32)

/-- The loop comes to the entry `i`: the entries before were left out or had full buffers. -/
inductive Reached : Nat → Transferring → Prop
  | start : iovs.toNat + (iovsCount <<< 3).toNat ≤ mem.buffer.len → Reached 0 { mem }
  | leaveOut {i : Nat} {s : Transferring} : Reached i s → i < (iovsCount <<< 3).toNat / 8 →
      skips (iovecAt s.mem iovs i).2 → Reached (i + 1) s
  | call {i : Nat} {s : Transferring} {t : Transfer} : Reached i s →
      i < (iovsCount <<< 3).toNat / 8 → ¬ skips t.len → iovecAt s.mem iovs i = (t.offset, t.len) →
      t.response = file s.calls (s.mem.buffer.extract t.offset.toNat t.len.toNat) →
      t.offset.toNat + t.len.toNat ≤ mem.buffer.len → t.response.errno = .success →
      t.len.toNat ≤ t.response.n → Reached (i + 1) (s.push t)

/-- The loop comes to an entry that it does not leave out. -/
structure Handles (s : Transferring) (offset l : UInt32) : Prop where
  reached : ∃ i, Reached skips file mem iovs iovsCount i s ∧ i < (iovsCount <<< 3).toNat / 8 ∧
    iovecAt s.mem iovs i = (offset, l)
  not_skips : ¬ skips l

def answer (s : Transferring) (offset l : UInt32) : Response :=
  file s.calls (s.mem.buffer.extract offset.toNat l.toNat)

abbrev called (s : Transferring) (offset l : UInt32) : Transferring :=
  s.push ⟨offset, l, answer file s offset l⟩

/-- When progress is reported. The list and the buffers do not end at 4 GiB exactly, no buffer is
outside of the memory once a byte has been transferred, fewer than 4 GiB are transferred, and if
the size of the list does not fit 32 bits, then the list is found to be outside of the memory
nevertheless, or the first buffer that is used is, or the file answers so. -/
structure ProgressFits : Prop where
  list : ¬ (iovs.toNat + (iovsCount <<< 3).toNat = 2 ^ 32 ∧ mem.buffer.len = 2 ^ 32)
  outside : ∀ s offset l, Handles skips file mem iovs iovsCount s offset l →
    mem.buffer.len < offset.toNat + l.toNat → transferred s.calls = 0
  inside : ∀ s offset l, Handles skips file mem iovs iovsCount s offset l →
    offset.toNat + l.toNat ≤ mem.buffer.len → offset.toNat + l.toNat < 2 ^ 32 ∧
      transferred s.calls + (answer file s offset l).n.toNat < 2 ^ 32
  wrapped : mem.buffer.len < iovs.toNat + 8 * iovsCount.toNat →
    iovs.toNat + (iovsCount <<< 3).toNat ≤ mem.buffer.len →
      ∃ s offset l, Handles skips file mem iovs iovsCount s offset l ∧ transferred s.calls = 0 ∧
        (mem.buffer.len < offset.toNat + l.toNat ∨
          (answer file s offset l).n ≤ 0 ∧ (answer file s offset l).errno = .EFAULT)

end

section

variable {skips : UInt32 → Prop} {file : File} {mem : MemoryInstance} {iovs iovsCount : UInt32}
  {s s' : Transferring} {t : Transfer} {i : Nat}

theorem toNat_shiftLeft_three (n : UInt32) : (n <<< 3).toNat = 8 * n.toNat % 2 ^ 32 := by
  rw [UInt32.toNat_shiftLeft, Nat.shiftLeft_eq, Nat.mul_comm]
  rfl

theorem eight_mul_stop (n : UInt32) :
    8 * ((n <<< 3).toNat / 8) = (n <<< 3).toNat ∧ (n <<< 3).toNat / 8 ≤ n.toNat := by
  rw [toNat_shiftLeft_three]
  omega

theorem transferred_append {calls : List Transfer} :
    transferred (calls ++ [t]) = transferred calls + t.response.n.toNat := by
  simp [transferred]

theorem transferred_mono {calls calls' : List Transfer} (h : calls <+: calls') :
    transferred calls ≤ transferred calls' := by
  obtain ⟨rest, rfl⟩ := h
  simp [transferred]

structure Consistent (mem : MemoryInstance) (iovs : UInt32) (i : Nat)
    (s : Transferring) : Prop where
  len : s.mem.buffer.len = mem.buffer.len
  count : s.count.toNat = transferred s.calls % 2 ^ 32
  order : InOrder mem iovs i s.mem s.calls

theorem Consistent.push (h : Consistent mem iovs i s)
    (hentry : iovecAt s.mem iovs i = (t.offset, t.len)) :
    Consistent mem iovs (i + 1) (s.push t) where
  len := by
    rw [← h.len]
    exact overwrite_len ..
  count := by
    have hcount := h.count
    simp only [Transferring.push, transferred_append]
    split
    next hpos =>
      rw [UInt32.toNat_add, UInt32.toNat_ofNat']
      omega
    next hpos =>
      rw [hcount, Int.toNat_of_nonpos (by omega), add_zero]
  order := h.order.call hentry

theorem Reached.consistent (hskips : ∀ l, skips l → l = 0)
    (h : Reached skips file mem iovs iovsCount i s) : Consistent mem iovs i s := by
  induction h with
  | start => exact ⟨rfl, rfl, .start⟩
  | leaveOut _ _ hl ih => exact ⟨ih.len, ih.count, ih.order.leaveOut (hskips _ hl)⟩
  | call _ _ _ hentry _ _ _ _ ih => exact ih.push hentry

theorem Reached.list_inside (h : Reached skips file mem iovs iovsCount i s) :
    iovs.toNat + (iovsCount <<< 3).toNat ≤ mem.buffer.len := by
  induction h with
  | start h => exact h
  | leaveOut _ _ _ ih => exact ih
  | call _ _ _ _ _ _ _ _ ih => exact ih

theorem iovsUint32_eq {iovsStop : UInt32} {pos : Nat}
    (hlist : iovs.toNat + iovsStop.toNat ≤ mem.buffer.len)
    (hend : iovs.toNat + iovsStop.toNat < 2 ^ 32) (hpos : pos + 4 ≤ iovsStop.toNat) :
    iovsUint32 mem iovs iovsStop pos =
      .ok (.ofNat (leNat (mem.buffer.extract (iovs.toNat + pos) 4))) := by
  have hstop : (iovs + iovsStop).toNat = iovs.toNat + iovsStop.toNat := by
    rw [UInt32.toNat_add]
    omega
  obtain ⟨buf, hbuf, hlist'⟩ :=
    slice3_eq_ok (Nat.le_add_right iovs.toNat iovsStop.toNat) hlist
  rw [Nat.add_sub_cancel_left] at hlist'
  have hlen : buf.len = iovsStop.toNat := by
    rw [← length_toList, hlist', length_extract hlist]
  have hle : pos ≤ buf.len := by omega
  obtain ⟨rest, hrest, hrest', hrestlen⟩ := sliceFrom_eq_ok hle
  have hbytes : rest.toList.take 4 = mem.buffer.extract (iovs.toNat + pos) 4 := by
    rw [hrest', extract, hlist']
    simp only [extract, List.drop_take, List.take_take, List.drop_drop]
    rw [min_eq_left (by omega)]
  rw [iovsUint32, hstop, hbuf, bind_ok, hrest, bind_ok,
    leUint_eq_ok (by decide) (by omega), bind_ok, hbytes]
  rfl

theorem transferEntry_outside {offset l : UInt32} (hlen : s.mem.buffer.len ≤ 2 ^ 32)
    (hout : s.mem.buffer.len < offset.toNat + l.toNat) :
    transferEntry file s offset l = .ok (.done s 0 .EFAULT) := by
  rw [transferEntry, read_eq hlen (by omega), if_neg (by omega)]
  rfl

theorem transferEntry_inside {offset l : UInt32} (hlen : s.mem.buffer.len ≤ 2 ^ 32)
    (hin : offset.toNat + l.toNat ≤ s.mem.buffer.len) (hend : offset.toNat + l.toNat < 2 ^ 32) :
    transferEntry file s offset l = .ok (afterCall (called file s offset l)
        ⟨offset, l, answer file s offset l⟩) := by
  rw [transferEntry, read_eq hlen (by omega), if_pos hin]
  rfl

theorem crashes_transferEntry {offset l : UInt32} (hlen : s.mem.buffer.len = 2 ^ 32)
    (hend : offset.toNat + l.toNat = 2 ^ 32) : Check.Crashes (transferEntry file s offset l) :=
  crashes_bind.mpr (.inl (crashes_read hlen hend))

theorem afterCall_cases (s : Transferring) (t : Transfer) :
    (t.response.errno = .success ∧ t.len.toNat ≤ t.response.n ∧ afterCall s t = .next s) ∨
      ((t.response.errno = .success ∨ 0 < s.count) ∧ afterCall s t = .done s s.count .success) ∨
      ∃ errno, errno ≠ .success ∧ s.count = 0 ∧ afterCall s t = .done s 0 errno ∧
        (errno = .EFAULT ↔ t.response.errno = .EFAULT) := by
  unfold afterCall
  split
  next herr =>
    split
    next hpos => exact .inr (.inl ⟨.inr hpos, rfl⟩)
    next hpos =>
      have hzero : s.count = 0 := by simpa using hpos
      split
      next hnosys =>
        exact .inr (.inr ⟨_, by decide, hzero, rfl, by rw [hnosys]; decide⟩)
      next => exact .inr (.inr ⟨_, herr, hzero, rfl, Iff.rfl⟩)
  next herr =>
    have herr : t.response.errno = .success := by simpa using herr
    split
    next => exact .inr (.inl ⟨.inl herr, rfl⟩)
    next hfull => exact .inl ⟨herr, by omega, rfl⟩

def rest (entry : Transferring → UInt32 → UInt32 → Check Iteration) (iovs iovsCount : UInt32)
    (i : Nat) (s : Transferring) : Check (Transferring × UInt32 × Errno) :=
  transferAll entry iovs (iovsCount <<< 3) ((iovsCount <<< 3).toNat / 8 - i) (8 * i) s

/-- An entry that is left out, or else is handled as in `transferEntry`. -/
def Leaves (skips : UInt32 → Prop) (file : File)
    (entry : Transferring → UInt32 → UInt32 → Check Iteration) : Prop :=
  ∀ s offset l, (skips l → entry s offset l = .ok (.next s)) ∧
    (¬ skips l → entry s offset l = transferEntry file s offset l)

variable {entry : Transferring → UInt32 → UInt32 → Check Iteration}

theorem rest_of_le (hi : (iovsCount <<< 3).toNat / 8 ≤ i) :
    rest entry iovs iovsCount i s = .ok (s, s.count, .success) := by
  rw [rest, Nat.sub_eq_zero_of_le hi]
  rfl

theorem rest_of_lt (hlist : iovs.toNat + (iovsCount <<< 3).toNat ≤ s.mem.buffer.len)
    (hend : iovs.toNat + (iovsCount <<< 3).toNat < 2 ^ 32)
    (hi : i < (iovsCount <<< 3).toNat / 8) :
    rest entry iovs iovsCount i s = do
      match ← entry s (iovecAt s.mem iovs i).1 (iovecAt s.mem iovs i).2 with
      | .next s => rest entry iovs iovsCount (i + 1) s
      | .done s count errno => return (s, count, errno) := by
  obtain ⟨remaining, hremaining⟩ : ∃ remaining,
      (iovsCount <<< 3).toNat / 8 - i = remaining + 1 :=
        ⟨_, (Nat.succ_pred_eq_of_pos (by omega)).symm⟩
  have hnext : (iovsCount <<< 3).toNat / 8 - (i + 1) = remaining := by omega
  rw [rest, hremaining, transferAll, iovsUint32_eq hlist hend (by omega), bind_ok,
    iovsUint32_eq hlist hend (by omega), bind_ok]
  unfold rest
  rw [hnext]
  rfl

section

variable (skips file mem iovs iovsCount entry)

inductive Outcome (i : Nat) (s : Transferring) (offset l : UInt32) :
    Check (Transferring × UInt32 × Errno) → Prop
  | leaveOut (hl : skips l) (hnext : Reached skips file mem iovs iovsCount (i + 1) s) :
      Outcome i s offset l (rest entry iovs iovsCount (i + 1) s)
  | outside (hl : ¬ skips l) (hout : mem.buffer.len < offset.toNat + l.toNat) :
      Outcome i s offset l (.ok (s, 0, .EFAULT))
  | crash (c : Crash) (hl : ¬ skips l) (hin : offset.toNat + l.toNat ≤ mem.buffer.len)
      (hlimit : offset.toNat + l.toNat = 2 ^ 32) : Outcome i s offset l (.error (.crash c))
  | next (hl : ¬ skips l) (hin : offset.toNat + l.toNat ≤ mem.buffer.len)
      (hlimit : offset.toNat + l.toNat < 2 ^ 32)
      (hsuccess : (answer file s offset l).errno = .success)
      (hnext : Reached skips file mem iovs iovsCount (i + 1) (called file s offset l)) :
      Outcome i s offset l (rest entry iovs iovsCount (i + 1) (called file s offset l))
  | success (hl : ¬ skips l) (hin : offset.toNat + l.toNat ≤ mem.buffer.len)
      (hlimit : offset.toNat + l.toNat < 2 ^ 32)
      (hprogress : (answer file s offset l).errno = .success ∨ 0 < (called file s offset l).count) :
      Outcome i s offset l (.ok (called file s offset l, (called file s offset l).count, .success))
  | failure {errno : Errno} (hl : ¬ skips l) (hin : offset.toNat + l.toNat ≤ mem.buffer.len)
      (hlimit : offset.toNat + l.toNat < 2 ^ 32) (herr : errno ≠ .success)
      (hzero : (called file s offset l).count = 0)
      (hfault : errno = .EFAULT ↔ (answer file s offset l).errno = .EFAULT) :
      Outcome i s offset l (.ok (called file s offset l, 0, errno))

structure Loops : Prop where
  zero : ∀ l, skips l → l = 0
  leaves : Leaves skips file entry
  len : mem.buffer.len ≤ 2 ^ 32
  stop : iovs.toNat + (iovsCount <<< 3).toNat < 2 ^ 32

end

section

variable {offset l count : UInt32} {errno : Errno}
    (hloop : Loops skips file mem iovs iovsCount entry)

include hloop

section

variable (hr : Reached skips file mem iovs iovsCount i s) (hi : i < (iovsCount <<< 3).toNat / 8)
  (hat : iovecAt s.mem iovs i = (offset, l))

include hr hi hat

theorem rest_leaveOut (hl : skips l) :
    rest entry iovs iovsCount i s = rest entry iovs iovsCount (i + 1) s := by
  have hlist := (hr.consistent hloop.zero).len ▸ hr.list_inside
  rw [rest_of_lt hlist hloop.stop hi, hat, (hloop.leaves s offset l).1 hl]
  rfl

theorem rest_call (hl : ¬ skips l) : rest entry iovs iovsCount i s = do
    match ← transferEntry file s offset l with
    | .next s => rest entry iovs iovsCount (i + 1) s
    | .done s count errno => return (s, count, errno) := by
  have hlist := (hr.consistent hloop.zero).len ▸ hr.list_inside
  rw [rest_of_lt hlist hloop.stop hi, hat, (hloop.leaves s offset l).2 hl]

theorem Reached.outcome :
    Outcome skips file mem iovs iovsCount entry i s offset l (rest entry iovs iovsCount i s) := by
  have hlen := hloop.len
  have hslen := (hr.consistent hloop.zero).len
  by_cases hl : skips l
  · rw [rest_leaveOut hloop hr hi hat hl]
    exact .leaveOut hl (hr.leaveOut hi (by rw [hat]; exact hl))
  rw [rest_call hloop hr hi hat hl]
  by_cases hin : offset.toNat + l.toNat ≤ mem.buffer.len
  · by_cases hlimit : offset.toNat + l.toNat = 2 ^ 32
    · obtain ⟨c, hc⟩ := @crashes_transferEntry file s offset l (by omega) hlimit
      rw [hc]
      exact .crash c hl hin hlimit
    rw [transferEntry_inside (hslen ▸ hlen) (hslen ▸ hin) (by omega), bind_ok]
    have hlimit : offset.toNat + l.toNat < 2 ^ 32 := by omega
    obtain ⟨hsuccess, hfull, hnext⟩ | ⟨hprogress, hdone⟩ | ⟨errno, herr, hzero, hdone, hfault⟩ :=
      afterCall_cases (called file s offset l) ⟨offset, l, answer file s offset l⟩
    · rw [hnext]
      exact .next hl hin hlimit hsuccess
        (.call (t := ⟨offset, l, answer file s offset l⟩) hr hi hl hat rfl hin hsuccess hfull)
    · rw [hdone]
      exact .success hl hin hlimit hprogress
    · rw [hdone]
      exact .failure hl hin hlimit herr hzero hfault
  · rw [transferEntry_outside (hslen ▸ hlen) (by omega)]
    exact .outside hl (by omega)

end

theorem rest_eq_of_reached {r : Transferring × UInt32 × Errno}
    (hr : Reached skips file mem iovs iovsCount i s)
    (hresult : rest entry iovs iovsCount 0 { mem } = .ok r) :
    rest entry iovs iovsCount i s = .ok r := by
  have hlen := hloop.len
  induction hr with
  | start => exact hresult
  | leaveOut hr hi hl ih => rwa [rest_leaveOut hloop hr hi rfl hl] at ih
  | @call i s t hr hi hl hat hresponse hin hsuccess hfull ih =>
    have hslen := (hr.consistent hloop.zero).len
    obtain ⟨offset, l, response⟩ := t
    obtain rfl : response = answer file s offset l := hresponse
    replace hin : offset.toNat + l.toNat ≤ mem.buffer.len := hin
    rw [rest_call hloop hr hi hat hl] at ih
    by_cases hlimit : offset.toNat + l.toNat = 2 ^ 32
    · obtain ⟨c, hc⟩ := @crashes_transferEntry file s offset l
        (le_antisymm (hslen ▸ hlen) (hlimit ▸ hslen ▸ hin)) hlimit
      rw [hc] at ih
      cases ih
    · rw [transferEntry_inside (hslen ▸ hlen) (hslen ▸ hin)
        (lt_of_le_of_ne (le_trans hin hlen) hlimit), bind_ok, afterCall,
        if_neg (by simpa using hsuccess), if_neg (Int.not_lt.2 hfull)] at ih
      exact ih

theorem rest_reports (hfits : ProgressFits skips file mem iovs iovsCount)
    (hr : Reached skips file mem iovs iovsCount i s) (hi : i ≤ (iovsCount <<< 3).toNat / 8)
    (htotal : transferred s.calls < 2 ^ 32) :
    ∃ s' count errno, rest entry iovs iovsCount i s = .ok (s', count, errno) ∧
      (errno ≠ .success → transferred s'.calls = 0) ∧
      (errno = .success → count.toNat = transferred s'.calls) ∧
      ∃ j ≤ iovsCount.toNat, InOrder mem iovs j s'.mem s'.calls := by
  have hcount := (eight_mul_stop iovsCount).2
  -- the induction is on the entries that remain
  induction hremaining : (iovsCount <<< 3).toNat / 8 - i generalizing i s with
  | zero =>
    have hc := hr.consistent hloop.zero
    refine ⟨s, s.count, .success, rest_of_le (by omega), fun h => absurd rfl h, fun _ => ?_,
      i, by omega, hc.order⟩
    rw [hc.count, Nat.mod_eq_of_lt htotal]
  | succ remaining ih =>
    have hlt : i < (iovsCount <<< 3).toNat / 8 := by omega
    have hc := hr.consistent hloop.zero
    obtain ⟨⟨offset, l⟩, hat⟩ : ∃ e, iovecAt s.mem iovs i = e := ⟨_, rfl⟩
    have hhandles : ¬ skips l → Handles skips file mem iovs iovsCount s offset l :=
      fun hl => ⟨⟨i, hr, hlt, hat⟩, hl⟩
    have hpush := hc.push (t := ⟨offset, l, answer file s offset l⟩) hat
    have hsum : transferred (called file s offset l).calls =
        transferred s.calls + (answer file s offset l).n.toNat := transferred_append
    have houtcome := hr.outcome hloop hlt hat
    generalize rest entry iovs iovsCount i s = x at houtcome
    cases houtcome with
    | leaveOut hl hnext => exact ih hnext (by omega) htotal (by omega)
    | outside hl hout =>
      exact ⟨s, 0, .EFAULT, rfl, fun _ => hfits.outside s offset l (hhandles hl) hout,
        fun h => absurd h (by decide), i, by omega, hc.order⟩
    | crash c hl hin hlimit =>
      have := (hfits.inside s offset l (hhandles hl) hin).1
      omega
    | next hl hin _ _ hnext =>
      have hfit := (hfits.inside s offset l (hhandles hl) hin).2
      exact ih hnext (by omega) (hsum ▸ hfit) (by omega)
    | success hl hin =>
      have hfit := (hfits.inside s offset l (hhandles hl) hin).2
      refine ⟨_, _, _, rfl, fun h => absurd rfl h, fun _ => ?_, i + 1, by omega, hpush.order⟩
      rw [hpush.count, Nat.mod_eq_of_lt (hsum ▸ hfit)]
    | @failure errno hl hin _ herr hzero hfault =>
      have hfit := (hfits.inside s offset l (hhandles hl) hin).2
      refine ⟨_, _, _, rfl, fun _ => ?_, fun h => absurd h herr, i + 1, by omega, hpush.order⟩
      have hcount := hpush.count
      rw [hzero, Nat.mod_eq_of_lt (hsum ▸ hfit)] at hcount
      exact hcount.symm

theorem exists_handles_of_rest_eq (hr : Reached skips file mem iovs iovsCount i s)
    (hzero : transferred s'.calls = 0)
    (hresult : rest entry iovs iovsCount i s = .ok (s', count, .EFAULT)) :
    ∃ s offset l, Handles skips file mem iovs iovsCount s offset l ∧ transferred s.calls = 0 ∧
      (mem.buffer.len < offset.toNat + l.toNat ∨
        (answer file s offset l).n ≤ 0 ∧ (answer file s offset l).errno = .EFAULT) := by
  induction hremaining : (iovsCount <<< 3).toNat / 8 - i generalizing i s with
  | zero =>
    rw [rest_of_le (by omega)] at hresult
    cases hresult
  | succ remaining ih =>
    have hlt : i < (iovsCount <<< 3).toNat / 8 := by omega
    obtain ⟨⟨offset, l⟩, hat⟩ : ∃ e, iovecAt s.mem iovs i = e := ⟨_, rfl⟩
    have houtcome := hr.outcome hloop hlt hat
    generalize rest entry iovs iovsCount i s = x at houtcome hresult
    cases houtcome with
    | leaveOut hl hnext => exact ih hnext hresult (by omega)
    | outside hl hout =>
      cases hresult
      exact ⟨_, offset, l, ⟨⟨i, hr, hlt, hat⟩, hl⟩, hzero, .inl hout⟩
    | crash c hl hin hlimit => cases hresult
    | next hl hin _ _ hnext => exact ih hnext hresult (by omega)
    | success hl hin => cases hresult
    | failure hl hin _ herr _ hfault =>
      cases hresult
      rw [show transferred (called file s offset l).calls =
        transferred s.calls + (answer file s offset l).n.toNat from transferred_append] at hzero
      refine ⟨s, offset, l, ⟨⟨i, hr, hlt, hat⟩, hl⟩, by omega, .inr ⟨by omega, hfault.1 rfl⟩⟩

theorem calls_prefix_of_rest (hr : Reached skips file mem iovs iovsCount i s)
    (hresult : rest entry iovs iovsCount i s = .ok (s', count, errno)) : s.calls <+: s'.calls := by
  induction hremaining : (iovsCount <<< 3).toNat / 8 - i generalizing i s with
  | zero =>
    rw [rest_of_le (by omega)] at hresult
    cases hresult
    exact List.prefix_refl _
  | succ remaining ih =>
    have houtcome := hr.outcome hloop (by omega) rfl
    generalize rest entry iovs iovsCount i s = x at houtcome hresult
    cases houtcome with
    | leaveOut _ hnext => exact ih hnext hresult (by omega)
    | outside =>
      cases hresult
      exact List.prefix_refl _
    | crash => cases hresult
    | next _ _ _ _ hnext => exact (List.prefix_append ..).trans (ih hnext hresult (by omega))
    | success | failure =>
      cases hresult
      exact List.prefix_append ..

/-- What an entry that the loop comes to has led to in the end. -/
theorem Handles.result (hresult : rest entry iovs iovsCount 0 { mem } = .ok (s', count, errno))
    (hh : Handles skips file mem iovs iovsCount s offset l) :
    (mem.buffer.len < offset.toNat + l.toNat ∧ s' = s ∧ errno = .EFAULT) ∨
      offset.toNat + l.toNat ≤ mem.buffer.len ∧ offset.toNat + l.toNat < 2 ^ 32 ∧
        (called file s offset l).calls <+: s'.calls ∧
        (transferred s.calls = 0 → (answer file s offset l).n ≤ 0 →
          (answer file s offset l).errno = .EFAULT → errno = .EFAULT) := by
  obtain ⟨i, hr, hi, hat⟩ := hh.reached
  have hc := hr.consistent hloop.zero
  have houtcome := hr.outcome hloop hi hat
  replace hresult := rest_eq_of_reached hloop hr hresult
  generalize rest entry iovs iovsCount i s = x at houtcome hresult
  cases houtcome with
  | leaveOut hl => exact absurd hl hh.not_skips
  | outside _ hout =>
    cases hresult
    exact .inl ⟨hout, rfl, rfl⟩
  | crash => cases hresult
  | next _ hin hlimit hsuccess hnext =>
    refine .inr ⟨hin, hlimit, calls_prefix_of_rest hloop hnext hresult, fun _ _ hanswer => ?_⟩
    exact absurd (hanswer.symm.trans hsuccess) (by decide)
  | success _ hin hlimit hprogress =>
    cases hresult
    refine .inr ⟨hin, hlimit, List.prefix_refl _, fun hzero hn hanswer => ?_⟩
    obtain hsuccess | hpos := hprogress
    · exact absurd (hanswer.symm.trans hsuccess) (by decide)
    · have hcount : s.count = 0 := UInt32.toNat_inj.1 (by rw [hc.count, hzero]; rfl)
      simp [Transferring.push, Int.not_lt.2 hn, hcount] at hpos
  | failure _ hin hlimit _ _ hfault =>
    cases hresult
    exact .inr ⟨hin, hlimit, List.prefix_refl _, fun _ _ => hfault.2⟩

end

theorem vectored_eq (hlen : mem.buffer.len ≤ 2 ^ 32)
    (hend : ¬ (iovs.toNat + (iovsCount <<< 3).toNat = 2 ^ 32 ∧ mem.buffer.len = 2 ^ 32)) :
    vectored entry mem iovs iovsCount =
      if iovs.toNat + (iovsCount <<< 3).toNat ≤ mem.buffer.len then
        rest entry iovs iovsCount 0 { mem }
      else .ok ({ mem }, 0, .EFAULT) := by
  rw [vectored, read_eq hlen hend]
  split
  · rfl
  · rfl

/-- Progress is reported exactly if the entries do not stand against it. -/
theorem vectored_reports_iff (hskips : ∀ l, skips l → l = 0) (hentry : Leaves skips file entry)
    (hlen : mem.buffer.len ≤ 2 ^ 32) :
    ReportsProgress mem iovs iovsCount (vectored entry mem iovs iovsCount) ↔
      ProgressFits skips file mem iovs iovsCount := by
  constructor
  · rintro ⟨s, count, errno, hresult, hfailed, hsucceeded, -, hfault⟩
    have hlist : ¬ (iovs.toNat + (iovsCount <<< 3).toNat = 2 ^ 32 ∧ mem.buffer.len = 2 ^ 32) := by
      rintro ⟨hlimit, hfull⟩
      obtain ⟨c, hc⟩ := crashes_bind (f := fun p => if !p.2 then
        return (({ mem } : Transferring), (0 : UInt32), Errno.EFAULT) else
          transferAll entry iovs (iovsCount <<< 3) ((iovsCount <<< 3).toNat / 8) 0 { mem }) |>.2
            (.inl (crashes_read hfull hlimit))
      rw [vectored, hc] at hresult
      cases hresult
    rw [vectored_eq hlen hlist] at hresult
    by_cases hin : iovs.toNat + (iovsCount <<< 3).toNat ≤ mem.buffer.len
    · have hloop : Loops skips file mem iovs iovsCount entry := ⟨hskips, hentry, hlen, by omega⟩
      rw [if_pos hin] at hresult
      have hbound : transferred s.calls < 2 ^ 32 := by
        by_cases herr : errno = .success
        · exact hsucceeded herr ▸ count.toNat_lt
        · rw [hfailed herr]
          decide
      refine ⟨hlist, ?_, ?_, fun hout _ => ?_⟩
      · intro s₁ offset l hh hout
        obtain ⟨-, rfl, rfl⟩ | ⟨hin, -⟩ := hh.result hloop hresult
        · exact hfailed (by decide)
        · omega
      · intro s₁ offset l hh hin
        obtain ⟨hout, -⟩ | ⟨-, hlimit, hcalls, -⟩ := hh.result hloop hresult
        · omega
        · refine ⟨hlimit, lt_of_le_of_lt ?_ hbound⟩
          rw [← transferred_append (t := ⟨offset, l, answer file s₁ offset l⟩)]
          exact transferred_mono hcalls
      · obtain rfl := hfault hout
        exact exists_handles_of_rest_eq hloop (.start hin) (hfailed (by decide)) hresult
    · have hreached : ∀ i s, ¬ Reached skips file mem iovs iovsCount i s :=
        fun i s hr => hin hr.list_inside
      exact ⟨hlist, fun s _ _ h => absurd h.reached.choose_spec.1 (hreached _ s),
        fun s _ _ h => absurd h.reached.choose_spec.1 (hreached _ s), fun _ h => absurd h hin⟩
  · intro hfits
    rw [vectored_eq hlen hfits.list]
    by_cases hin : iovs.toNat + (iovsCount <<< 3).toNat ≤ mem.buffer.len
    · have hlist := hfits.list
      have hloop : Loops skips file mem iovs iovsCount entry := ⟨hskips, hentry, hlen, by omega⟩
      rw [if_pos hin]
      obtain ⟨s, count, errno, hresult, hfailed, hsucceeded, horder⟩ :=
        rest_reports hloop hfits (.start hin) (Nat.zero_le _) (Nat.two_pow_pos 32)
      refine ⟨s, count, errno, hresult, hfailed, hsucceeded, horder, fun hout => ?_⟩
      obtain ⟨s₁, offset, l, hh, hzero, hanswer⟩ := hfits.wrapped hout hin
      obtain ⟨-, -, hfault⟩ | ⟨hin, -, -, hfault⟩ := hh.result hloop hresult
      · exact hfault
      · obtain hout | ⟨hn, hanswer⟩ := hanswer
        · omega
        · exact hfault hzero hn hanswer
    · rw [if_neg hin]
      exact ⟨{ mem }, 0, .EFAULT, rfl, fun _ => rfl, fun h => absurd h (by decide),
        ⟨0, Nat.zero_le _, .start⟩, fun _ => rfl⟩

theorem leaves_readvEntry (file : File) : Leaves (· = 0) file (readvEntry file) :=
  fun _ _ _ => ⟨fun hl => if_pos hl, fun hl => if_neg hl⟩

theorem leaves_writevEntry (file : File) : Leaves (fun _ => False) file (writevEntry file) :=
  fun _ _ _ => ⟨False.elim, fun _ => rfl⟩

theorem not_reportsProgress (hlen : mem.buffer.len ≤ 2 ^ 32)
    (hnot : ∀ skips, (∀ l, skips l → l = 0) → ¬ ProgressFits skips file mem iovs iovsCount) :
    ¬ ReportsProgress mem iovs iovsCount (readv mem iovs iovsCount file) ∧
      ¬ ReportsProgress mem iovs iovsCount (writev mem iovs iovsCount file) := by
  rw [readv, writev, vectored_reports_iff (fun _ h => h) (leaves_readvEntry file) hlen,
    vectored_reports_iff (fun _ h => h.elim) (leaves_writevEntry file) hlen]
  exact ⟨hnot _ fun _ h => h, hnot _ fun _ h => h.elim⟩

end

/-- `readv` and `writev` report all progress exactly if the list, the buffers and the answers of the
file do not stand against it. -/
theorem readv_writev_reportsProgress_iff (mem : MemoryInstance) (hlen : mem.buffer.len ≤ 2 ^ 32)
    (iovs iovsCount : UInt32) (file : File) :
    (ReportsProgress mem iovs iovsCount (readv mem iovs iovsCount file) ↔
      ProgressFits (· = 0) file mem iovs iovsCount) ∧
    (ReportsProgress mem iovs iovsCount (writev mem iovs iovsCount file) ↔
      ProgressFits (fun _ => False) file mem iovs iovsCount) :=
  ⟨vectored_reports_iff (fun _ h => h) (leaves_readvEntry file) hlen,
    vectored_reports_iff (fun _ h => h.elim) (leaves_writevEntry file) hlen⟩

/-- The entries of a list at the start of a page, as long as its bytes stand. -/
theorem iovecAt_of_extract (bytes : List UInt8) {m : MemoryInstance} {i : Nat}
    (hm : ∀ k n, k + n ≤ bytes.length → m.buffer.extract k n = (pageOf bytes).buffer.extract k n)
    (hi : 8 * i + 8 ≤ bytes.length) :
    iovecAt m 0 i = (.ofNat (leNat ((bytes.drop (8 * i)).take 4)),
      .ofNat (leNat ((bytes.drop (8 * i + 4)).take 4))) := by
  simp only [iovecAt, UInt32.toNat_zero, zero_add]
  rw [hm _ _ (by omega), hm _ _ (by omega), extract_pageOf (by omega), extract_pageOf (by omega)]

/-- A file that transfers all of the buffer. -/
def transfersAll : File :=
  fun _ b => ⟨b.map (· + 1), b.length, .success⟩

/-- A list of two entries: three bytes at 16 and two at 19. -/
def twoBuffers : MemoryInstance :=
  pageOf ([16, 3, 19, 2].flatMap (leBytes 4))

theorem len_twoBuffers : twoBuffers.buffer.len = 65536 :=
  len_pageOf (by decide)

theorem iovecAt_twoBuffers {m : MemoryInstance} {i : Nat} (hi : i < 2) (hm : ∀ k n, k + n ≤ 16 →
    m.buffer.extract k n = twoBuffers.buffer.extract k n) :
    iovecAt m 0 i = if i = 0 then (16, 3) else (19, 2) := by
  rw [iovecAt_of_extract ([16, 3, 19, 2].flatMap (leBytes 4)) hm (show 8 * i + 8 ≤ 16 by omega)]
  obtain rfl | rfl : i = 0 ∨ i = 1 := by omega
  all_goals decide

theorem reached_twoBuffers {skips : UInt32 → Prop} {s : Transferring} {i : Nat}
    (h : Reached skips transfersAll twoBuffers 0 2 i s) : s.mem.buffer.len = 65536 ∧
      (∀ k n, k + n ≤ 16 → s.mem.buffer.extract k n = twoBuffers.buffer.extract k n) ∧
      transferred s.calls ≤ 3 * i := by
  induction h with
  | start => exact ⟨len_twoBuffers, fun _ _ _ => rfl, le_refl 0⟩
  | leaveOut _ _ _ ih => exact ⟨ih.1, ih.2.1, by omega⟩
  | @call i s t _ hi _ hentry hresponse _ _ _ ih =>
    obtain ⟨hlen, hlist, hcount⟩ := ih
    have ht : 16 ≤ t.offset.toNat ∧ t.offset.toNat + t.len.toNat ≤ 21 ∧ t.len.toNat ≤ 3 := by
      rw [iovecAt_twoBuffers (by simpa using hi) hlist] at hentry
      split at hentry <;> obtain ⟨ho, hl⟩ := Prod.mk.inj hentry <;> rw [← ho, ← hl] <;> decide
    have hbytes : t.response.bytes.length = t.len.toNat ∧ t.response.n = t.len.toNat := by
      simp only [hresponse, transfersAll, List.length_map]
      rw [length_extract (by omega)]
      exact ⟨rfl, rfl⟩
    have htake : (t.response.bytes.take t.len.toNat).length = t.len.toNat := by
      rw [List.length_take, hbytes.1, min_self]
    refine ⟨hlen, fun k n hkn => ?_, ?_⟩
    · rw [← hlist k n hkn]
      exact extract_store_of_disjoint (by omega) (.inl (by omega))
    · rw [Transferring.push, transferred_append, hbytes.2]
      omega

theorem progressFits_twoBuffers (skips : UInt32 → Prop) :
    ProgressFits skips transfersAll twoBuffers 0 2 := by
  have hhandles {s offset l} (h : Handles skips transfersAll twoBuffers 0 2 s offset l) :
      offset.toNat + l.toNat ≤ 21 ∧
        transferred s.calls + (answer transfersAll s offset l).n.toNat < 2 ^ 32 := by
    obtain ⟨⟨i, hreached, hi, hentry⟩, -⟩ := h
    obtain ⟨hlen, hlist, hcount⟩ := reached_twoBuffers hreached
    have hi : i < 2 := by simpa using hi
    have hl : offset.toNat + l.toNat ≤ 21 ∧ l.toNat ≤ 3 := by
      rw [iovecAt_twoBuffers hi hlist] at hentry
      split at hentry <;> cases hentry <;> decide
    simp only [answer, transfersAll]
    rw [length_extract (by omega)]
    omega
  refine ⟨?_, fun s offset l h hout => ?_, fun s offset l h _ => ?_, fun hout => ?_⟩
  · rw [len_twoBuffers]
    decide
  · rw [len_twoBuffers] at hout
    have := (hhandles h).1
    omega
  · exact ⟨lt_of_le_of_lt (hhandles h).1 (by decide), (hhandles h).2⟩
  · rw [len_twoBuffers] at hout
    exact absurd hout (by decide)

/-- Both entries are served, and five bytes are transferred. -/
theorem readv_writev_reportsProgress_iff_twoBuffers : twoBuffers.buffer.len ≤ 2 ^ 32 ∧
    (∃ s, Reached (· = 0) transfersAll twoBuffers 0 2 2 s ∧ transferred s.calls = 5) ∧
    ReportsProgress twoBuffers 0 2 (readv twoBuffers 0 2 transfersAll) ∧
    ReportsProgress twoBuffers 0 2 (writev twoBuffers 0 2 transfersAll) := by
  have hlen : twoBuffers.buffer.len ≤ 2 ^ 32 := by
    rw [len_twoBuffers]
    decide
  have hstep {i : Nat} {s : Transferring} {offset l : UInt32} (hi : i < 2)
      (h : Reached (· = 0) transfersAll twoBuffers 0 2 i s) (hl : l ≠ 0)
      (hentry : (if i = 0 then (16, 3) else (19, 2)) = (offset, l))
      (hin : offset.toNat + l.toNat ≤ 65536) :
      ∃ s', Reached (· = 0) transfersAll twoBuffers 0 2 (i + 1) s' ∧
        transferred s'.calls = transferred s.calls + l.toNat := by
    obtain ⟨hslen, hlist, -⟩ := reached_twoBuffers h
    have hn : (answer transfersAll s offset l).n = l.toNat :=
      congrArg Nat.cast (length_extract (by omega))
    refine ⟨called transfersAll s offset l, .call h (by simpa using hi) hl
      ((iovecAt_twoBuffers hi hlist).trans hentry) rfl (by rw [len_twoBuffers]; exact hin) rfl
      (Int.le_of_eq hn.symm), ?_⟩
    rw [called, Transferring.push, transferred_append, hn]
    rfl
  obtain ⟨s, hs, hcount⟩ := hstep (by decide) (.start (by rw [len_twoBuffers]; decide))
    (by decide) rfl (by decide)
  obtain ⟨s', hs', hcount'⟩ := hstep (by decide) hs (by decide) rfl (by decide)
  have h := readv_writev_reportsProgress_iff twoBuffers hlen 0 2 transfersAll
  exact ⟨hlen, ⟨s', hs', by rw [hcount', hcount]; rfl⟩, h.1.mpr (progressFits_twoBuffers _),
    h.2.mpr (progressFits_twoBuffers _)⟩

/-- A file that transfers one byte at a time. -/
def oneByte : File :=
  fun _ _ => ⟨[], 1, .success⟩

/-- A list of two entries: one byte at 16, and one that is outside of the memory. -/
def outsideAfterOne : MemoryInstance :=
  pageOf ([16, 1, 0xffffffff, 1].flatMap (leBytes 4))

theorem iovecAt_outsideAfterOne {m : MemoryInstance}
    (hm : m.buffer.toList = outsideAfterOne.buffer.toList) :
    iovecAt m 0 0 = (16, 1) ∧ iovecAt m 0 1 = (0xffffffff, 1) := by
  have hextract : ∀ k n, k + n ≤ 16 → m.buffer.extract k n =
    outsideAfterOne.buffer.extract k n := by
    intro k n _
    rw [extract, extract, hm]
  have hentry {i : Nat} := @iovecAt_of_extract ([16, 1, 0xffffffff, 1].flatMap (leBytes 4)) m
    i hextract
  rw [hentry (by decide), hentry (by decide)]
  decide

theorem toList_push_nil {s : Transferring} {offset l : UInt32} {n : Int} {errno : Errno} :
    (s.push ⟨offset, l, ⟨[], n, errno⟩⟩).mem.buffer.toList = s.mem.buffer.toList := by
  simp [Transferring.push, Transfer.apply, store, overwrite, toList]

theorem not_progressFits_outsideAfterOne {skips : UInt32 → Prop} (hskips : ∀ l, skips l → l = 0) :
    ¬ ProgressFits skips oneByte outsideAfterOne 0 2 := by
  intro hfits
  have hlen : outsideAfterOne.buffer.len = 65536 := len_pageOf (by decide)
  have hone : ¬ skips 1 := fun h => absurd (hskips 1 h) (by decide)
  have hreached : Reached skips oneByte outsideAfterOne 0 2 1
      (Transferring.push { mem := outsideAfterOne } ⟨16, 1, ⟨[], 1, .success⟩⟩) :=
    .call (.start (by rw [hlen]; decide)) (by decide) hone (iovecAt_outsideAfterOne rfl).1 rfl
      (by rw [hlen]; decide) rfl (by decide)
  have hmem : (Transferring.push { mem := outsideAfterOne }
      ⟨16, 1, ⟨[], 1, .success⟩⟩).mem.buffer.toList = outsideAfterOne.buffer.toList :=
    toList_push_nil
  have hzero := hfits.outside _ 0xffffffff 1
    ⟨⟨1, hreached, by decide, (iovecAt_outsideAfterOne hmem).2⟩, hone⟩ (by rw [hlen]; decide)
  simp [Transferring.push, transferred] at hzero

/-- The list is as large as the largest memory, and its size is 0 in 32 bits. -/
theorem not_progressFits_wrapped {skips : UInt32 → Prop} :
    ¬ ProgressFits skips oneByte (pageOf []) 0 0x20000000 := by
  intro hfits
  have hlen : (pageOf []).buffer.len = 65536 := len_pageOf (by decide)
  obtain ⟨s, offset, l, ⟨⟨i, -, hi, -⟩, -⟩, -⟩ :=
    hfits.wrapped (by rw [hlen]; decide) (by rw [hlen]; decide)
  exact absurd hi (by simp)

/-- A byte is transferred and then the second entry makes both functions fail; and a list of which
the size does not fit 32 bits is not found to be outside of the memory. -/
theorem progress_lost :
    (¬ ReportsProgress outsideAfterOne 0 2 (readv outsideAfterOne 0 2 oneByte) ∧
      ¬ ReportsProgress outsideAfterOne 0 2 (writev outsideAfterOne 0 2 oneByte)) ∧
    ¬ ReportsProgress (pageOf []) 0 0x20000000 (readv (pageOf []) 0 0x20000000 oneByte) ∧
      ¬ ReportsProgress (pageOf []) 0 0x20000000 (writev (pageOf []) 0 0x20000000 oneByte) := by
  have hlen : outsideAfterOne.buffer.len ≤ 2 ^ 32 := by
    rw [outsideAfterOne, len_pageOf (by decide)]
    decide
  have hlen' : (pageOf []).buffer.len ≤ 2 ^ 32 := by
    rw [len_pageOf (by decide)]
    decide
  exact ⟨not_reportsProgress hlen fun _ => not_progressFits_outsideAfterOne,
    not_reportsProgress hlen' fun _ _ => not_progressFits_wrapped⟩

end Andsifr.Wasi
