import Andsifr.Execution.ApplyData

namespace Andsifr.Execution

open Lib Wasm Slice List UInt32

/-- What `Reallocate` returns if it does not fail, and whether the bytes are at another address. -/
structure Reallocated where
  buffer : Slice UInt8
  moved : Bool

namespace AllocatedMemory

variable (m : AllocatedMemory) (delta : UInt32)

def pages : UInt32 :=
  memoryBytesNumToPages m.buffer.len

/-- `reallocated` is the answer of the allocator, if it is asked. The length of a shared memory is
stored without the bounds check of a slice expression. -/
def grow (reallocated : Option Reallocated) (spare : List UInt8) :
    Check ((UInt32 × Bool) × AllocatedMemory) :=
  let currentPages := m.pages
  if delta = 0 then return ((currentPages, true), m)
  else
    let newPages := currentPages + delta
    if m.max < newPages ∨ delta.toInt32 < 0 then return ((0, false), m)
    else if m.expBuffer.isSome then
      match reallocated with
      | none => return ((0, false), m)
      | some r =>
        if m.shared then
          if r.moved then
            Check.raise "shared memory cannot move, this is a bug in the memory allocator"
          else return ((currentPages, true),
            { m with buffer := r.buffer, cap := memoryBytesNumToPages r.buffer.array.length })
        else return ((currentPages, true), { m with buffer := r.buffer, cap := newPages })
    else if m.cap < newPages then
      if m.shared then Check.raise "shared memory cannot be grown, this is a bug in wazero"
      else return ((currentPages, true), { m with
        buffer := m.buffer.append (replicate (memoryPagesToBytesNum delta.toNat) 0) spare
        cap := newPages })
    else do
      let buffer ← m.buffer.slice 0 (memoryPagesToBytesNum newPages.toNat)
      return ((currentPages, true), { m with buffer })

/-- What an allocator owes: the size it is asked for, the old bytes, zeros after them, and for a
shared memory the old address. -/
structure Answers (r : Reallocated) : Prop where
  bytes : r.buffer.toList = m.buffer.toList ++ replicate (memoryPagesToBytesNum delta.toNat) 0
  stays : m.shared = true → r.moved = false

/-- A memory after calls of `Grow`, with writes of the guest and the host between them. -/
inductive Reaches (m₀ : AllocatedMemory) : AllocatedMemory → Prop where
  | start : Reaches m₀ m₀
  | write {m : AllocatedMemory} (h : Reaches m₀ m) (offset : Nat) (bytes : List UInt8)
      (hin : offset + bytes.length ≤ m.buffer.len) :
      Reaches m₀ { m with buffer := m.buffer.overwrite offset bytes }
  | grow {m m' : AllocatedMemory} (h : Reaches m₀ m) {delta : UInt32}
    {reallocated : Option Reallocated}
      {spare : List UInt8} {result : UInt32 × Bool} (hr : ∀ r ∈ reallocated, m.Answers delta r)
      (hgrow : m.grow delta reallocated spare = .ok (result, m')) : Reaches m₀ m'

/-- What is promised of a `Grow` that returns `result` and leaves `m'`. -/
structure Grows (result : UInt32 × Bool) (m' : AllocatedMemory) : Prop where
  unchanged : result.2 = false → m' = m
  previous : result.2 = true → result.1 = m.pages
  pages : result.2 = true → m'.pages.toNat = m.pages.toNat + delta.toNat
  bytes : result.2 = true →
    m'.buffer.toList = m.buffer.toList ++ replicate (memoryPagesToBytesNum delta.toNat) 0
  max : m'.max = m.max ∧ m'.pages ≤ m'.max
  room : m.expBuffer = none → (result.2 = true ↔ m.pages.toNat + delta.toNat ≤ m.max.toNat)

/-- A memory without an allocator has zeros up to its capacity. -/
structure Sound : Prop where
  len : m.buffer.len = memoryPagesToBytesNum m.pages.toNat
  pages : m.pages.toNat ≤ m.max.toNat
  max : m.max.toNat ≤ memoryLimitPages
  cap : m.expBuffer = none → memoryPagesToBytesNum m.cap.toNat ≤ m.buffer.array.length
  zeros : m.expBuffer = none → ∀ b ∈ (m.buffer.array.drop m.buffer.len).take
    (memoryPagesToBytesNum m.cap.toNat - m.buffer.len), b = 0
  shared : m.expBuffer = none → m.shared = true → m.max ≤ m.cap

variable {m delta}

theorem memoryPagesToBytesNum_add (n k : Nat) :
    memoryPagesToBytesNum (n + k) = memoryPagesToBytesNum n + memoryPagesToBytesNum k := by
  simp only [memoryPagesToBytesNum_eq, Nat.add_mul]

theorem pages_of_len {n : Nat} (h : m.buffer.len = memoryPagesToBytesNum n)
    (hn : n ≤ memoryLimitPages) :
    m.pages.toNat = n := by
  rw [memoryPagesToBytesNum_eq] at h
  rw [memoryLimitPages] at hn
  rw [AllocatedMemory.pages, memoryBytesNumToPages, toNat_ofNat']
  omega

theorem toInt32_neg_iff : delta.toInt32 < 0 ↔ 2 ^ 31 ≤ delta.toNat := by
  have hbits : delta.toInt32.toInt = delta.toBitVec.toInt := rfl
  have := delta.toNat_lt
  rw [Int32.lt_iff_toInt_lt, hbits, BitVec.toInt_eq_toNat_bmod]
  simp only [toNat_toBitVec, Int.bmod, Int32.toInt_zero]
  omega

theorem Sound.write (h : m.Sound) {offset : Nat} {bytes : List UInt8}
    (hin : offset + bytes.length ≤ m.buffer.len) :
    Sound { m with buffer := m.buffer.overwrite offset bytes } := by
  have hle := m.buffer.len_le
  have hlength : (m.buffer.overwrite offset bytes).array.length = m.buffer.array.length := by
    simp only [overwrite, length_append, length_take, length_drop]
    omega
  have hdrop : (m.buffer.overwrite offset bytes).array.drop m.buffer.len =
    m.buffer.array.drop m.buffer.len := by
    apply ext_getElem?
    intro i
    rw [getElem?_drop, getElem?_drop, overwrite, getElem?_append_right (by simp; omega),
      getElem?_append_right (by simp; omega), getElem?_drop]
    congr 1
    simp only [length_take]
    omega
  exact ⟨h.len, h.pages, h.max, fun hexp => hlength ▸ h.cap hexp, fun hexp => hdrop ▸ h.zeros hexp,
    h.shared⟩

theorem pages_add (hroom : m.pages.toNat + delta.toNat ≤ m.max.toNat) :
    (m.pages + delta).toNat = m.pages.toNat + delta.toNat := by
  rw [UInt32.toNat_add, Nat.mod_eq_of_lt (Nat.lt_of_le_of_lt hroom m.max.toNat_lt)]

attribute [local irreducible] memoryPagesToBytesNum

variable {m' : AllocatedMemory}

section

variable (h : m.Sound)

include h

theorem Sound.grows (m' : AllocatedMemory) (hroom : m.pages.toNat + delta.toNat ≤ m.max.toNat)
    (hmax : m'.max = m.max)
    (hbytes : m'.buffer.toList = m.buffer.toList ++
      replicate (memoryPagesToBytesNum delta.toNat) 0) :
    m.Grows delta (m.pages, true) m' ∧ m'.buffer.len = memoryPagesToBytesNum m'.pages.toNat := by
  have hlen : m'.buffer.len = memoryPagesToBytesNum (m.pages.toNat + delta.toNat) := by
    rw [← length_toList, hbytes, length_append, length_toList, h.len, length_replicate,
      memoryPagesToBytesNum_add]
  have hpages := pages_of_len hlen (le_trans hroom h.max)
  refine ⟨⟨nofun, fun _ => rfl, fun _ => hpages, fun _ => hbytes, ⟨hmax, ?_⟩, ?_⟩, hpages ▸ hlen⟩
  · rwa [le_iff_toNat_le, hpages, hmax]
  · exact fun _ => iff_of_true rfl hroom

theorem Sound.refuses (hroom : m.expBuffer = none → ¬ m.pages.toNat + delta.toNat ≤ m.max.toNat) :
    m.Grows delta (0, false) m :=
  ⟨fun _ => rfl, nofun, nofun, nofun, ⟨rfl, le_iff_toNat_le.2 h.pages⟩,
    fun hexp => iff_of_false Bool.false_ne_true (hroom hexp)⟩

theorem Sound.reallocated (hgrows : m.Grows delta (m.pages, true) m')
    (hlen : m'.buffer.len = memoryPagesToBytesNum m'.pages.toNat) (hexp : m'.expBuffer.isSome) :
    m'.Sound := by
  have hne : m'.expBuffer ≠ none := Option.isSome_iff_ne_none.1 hexp
  exact ⟨hlen, le_iff_toNat_le.1 hgrows.max.2, hgrows.max.1 ▸ h.max, fun hnone => absurd hnone hne,
    fun hnone => absurd hnone hne, fun hnone => absurd hnone hne⟩

theorem Sound.resliced (hexp : m.expBuffer = none)
    (hroom : m.pages.toNat + delta.toNat ≤ m.max.toNat) {buffer : Slice UInt8}
    (harray : buffer.array = m.buffer.array)
    (hlen : buffer.len = m.buffer.len + memoryPagesToBytesNum delta.toNat)
    (hfits : buffer.len ≤ memoryPagesToBytesNum m.cap.toNat) :
    m.Grows delta (m.pages, true) { m with buffer } ∧ Sound { m with buffer } := by
  have hcap := h.cap hexp
  have hzeros : (m.buffer.array.drop m.buffer.len).take (memoryPagesToBytesNum delta.toNat) =
      replicate (memoryPagesToBytesNum delta.toNat) 0 := by
    refine eq_replicate_iff.2 ⟨?_, fun b hb => h.zeros hexp b ?_⟩
    · rw [length_take, length_drop]
      omega
    · exact take_subset_take_left _ (by omega) hb
  have hbytes : buffer.toList = m.buffer.toList ++ replicate
    (memoryPagesToBytesNum delta.toNat) 0 := by
    rw [toList, harray, hlen, take_add, hzeros, toList]
  obtain ⟨hgrows, hpages⟩ := h.grows { m with buffer } hroom rfl hbytes
  refine ⟨hgrows, hpages, le_iff_toNat_le.1 hgrows.max.2, h.max, fun _ => harray ▸ hcap, ?_,
    h.shared⟩
  intro _ b hb
  refine h.zeros hexp b ?_
  rw [harray, hlen, ← drop_drop, ← Nat.sub_sub, ← drop_take] at hb
  exact mem_of_mem_drop hb

theorem Sound.appended (hroom : m.pages.toNat + delta.toNat ≤ m.max.toNat)
    (hshared : m.shared = false) (spare : List UInt8) {buffer : Slice UInt8}
    (hbuffer : buffer = m.buffer.append (replicate (memoryPagesToBytesNum delta.toNat) 0) spare) :
    m.Grows delta (m.pages, true) { m with buffer, cap := m.pages + delta } ∧
      Sound { m with buffer, cap := m.pages + delta } := by
  obtain ⟨hgrows, hlen⟩ := h.grows { m with buffer, cap := m.pages + delta } hroom rfl
    (hbuffer ▸ toList_append _ _ _)
  have hcap : memoryPagesToBytesNum (m.pages + delta).toNat = buffer.len := by
    rw [hlen, pages_add hroom, hgrows.pages rfl]
  refine ⟨hgrows, hlen, le_iff_toNat_le.1 hgrows.max.2, h.max, fun _ => hcap ▸ buffer.len_le, ?_,
    fun _ hs => Bool.noConfusion (hshared.symm.trans hs)⟩
  intro _ b hb
  simp only [hcap, Nat.sub_self, take_zero, not_mem_nil] at hb

/-- A `Grow` returns, and keeps its promise and the invariant. -/
theorem Sound.grow {reallocated : Option Reallocated} (hr : ∀ r ∈ reallocated, m.Answers delta r)
    (spare : List UInt8) : ∃ result m', m.grow delta reallocated spare = .ok (result, m') ∧
      m.Grows delta result m' ∧ m'.Sound := by
  have hpages := le_trans h.pages h.max
  have hmax := h.max
  rw [memoryLimitPages] at hpages hmax
  unfold AllocatedMemory.grow
  by_cases hzero : delta = 0
  · subst hzero
    have hroom : m.pages.toNat + (0 : UInt32).toNat ≤ m.max.toNat := h.pages
    exact ⟨_, _, rfl, (h.grows m hroom rfl (by simp [memoryPagesToBytesNum_eq])).1, h⟩
  rw [if_neg hzero]
  by_cases hover : m.max < m.pages + delta ∨ delta.toInt32 < 0
  · refine ⟨_, _, if_pos hover, h.refuses fun _ hroom => ?_, h⟩
    rw [toInt32_neg_iff, lt_iff_toNat_lt, pages_add hroom] at hover
    omega
  simp only [if_neg hover]
  have hroom : m.pages.toNat + delta.toNat ≤ m.max.toNat := by
    rw [toInt32_neg_iff, UInt32.lt_iff_toNat_lt, UInt32.toNat_add] at hover
    omega
  by_cases hexp : m.expBuffer.isSome
  · rw [if_pos hexp]
    cases reallocated with
    | none => exact ⟨_, _, rfl, h.refuses fun hnone => by simp [hnone] at hexp, h⟩
    | some r =>
      have hanswer := hr r rfl
      have hgrows (cap : UInt32) :=
        h.grows { m with buffer := r.buffer, cap := cap } hroom rfl hanswer.bytes
      have hsound (cap : UInt32) := h.reallocated (hgrows cap).1 (hgrows cap).2 hexp
      dsimp only
      split
      next hshared =>
        rw [hanswer.stays hshared]
        exact ⟨_, _, rfl, (hgrows _).1, hsound _⟩
      next => exact ⟨_, _, rfl, (hgrows _).1, hsound _⟩
  · have hnone := Option.not_isSome_iff_eq_none.1 hexp
    split_ifs with hcap hshared
    · have hle := le_iff_toNat_le.1 (h.shared hnone hshared)
      rw [lt_iff_toNat_lt, pages_add hroom] at hcap
      omega
    · obtain ⟨hgrows, hsound⟩ := h.appended hroom (Bool.eq_false_iff.2 hshared) spare rfl
      exact ⟨_, _, rfl, hgrows, hsound⟩
    · have hfits := memoryPagesToBytesNum_le (Nat.le_of_not_lt (lt_iff_toNat_lt.not.1 hcap))
      obtain ⟨buffer, hslice, harray, hlen⟩ := slice_zero_eq_ok (le_trans hfits (h.cap hnone))
      rw [← hlen] at hfits
      rw [pages_add hroom, memoryPagesToBytesNum_add, ← h.len] at hlen
      obtain ⟨hgrows, hsound⟩ := h.resliced hnone hroom harray hlen hfits
      exact ⟨_, _, by rw [hslice]; rfl, hgrows, hsound⟩

end

theorem Reaches.sound {m₀ : AllocatedMemory} (h : Reaches m₀ m) (h₀ : m₀.Sound) : m.Sound := by
  induction h with
  | start => exact h₀
  | write _ offset bytes hin ih => exact ih.write hin
  | grow _ hr hgrow ih =>
    obtain ⟨result, m', hgrow', -, hsound⟩ := ih.grow hr _
    obtain ⟨-, rfl⟩ := Prod.mk.inj (Except.ok.inj (hgrow.symm.trans hgrow'))
    exact hsound

theorem Reaches.len_le {m₀ : AllocatedMemory} (h : Reaches m₀ m) (h₀ : m₀.Sound) :
    m₀.buffer.len ≤ m.buffer.len := by
  induction h with
  | start => exact le_refl _
  | write _ _ _ _ ih => exact ih
  | @grow m m' hm delta _ spare _ hr hgrow ih =>
    obtain ⟨result, m'', hgrow', hgrows, -⟩ := (hm.sound h₀).grow hr spare
    obtain ⟨-, rfl⟩ := Prod.mk.inj (Except.ok.inj (hgrow.symm.trans hgrow'))
    cases hresult : result.2 with
    | false =>
      rw [hgrows.unchanged hresult]
      exact ih
    | true =>
      have hlen := congrArg length (hgrows.bytes hresult)
      rw [length_append, length_toList, length_toList] at hlen
      omega

end AllocatedMemory

open AllocatedMemory

variable {memSec : Memory} {limit : Nat}

/-- The allocator gives the minimum of a new memory. -/
def Allocates (memSec : Memory) (allocate : MemoryAllocator) : Prop :=
  ((allocate (memoryPagesToBytesNum memSec.cap) (memoryPagesToBytesNum memSec.max)).reallocate
    (memoryPagesToBytesNum memSec.min)).len = memoryPagesToBytesNum memSec.min

section

variable (hlimit : limit ≤ memoryLimitPages)

include hlimit

section

variable (hvalid : memSec.validate limit = .ok ())

include hvalid

theorem sound_ofBuffer {buffer : Slice UInt8} {expBuffer : Option LinearMemory}
    (hlen : buffer.len = memoryPagesToBytesNum memSec.min)
    (hnone : expBuffer = none → ∃ n ≤ limit, buffer.array = replicate (memoryPagesToBytesNum n) 0 ∧
      (memSec.isShared = true → memSec.max ≤ n)) :
    (ofBuffer memSec buffer expBuffer).Sound ∧
    (ofBuffer memSec buffer expBuffer).pages.toNat = memSec.min ∧
      (ofBuffer memSec buffer expBuffer).max.toNat = memSec.max := by
  obtain ⟨hmax, hmin, -⟩ := Memory.le_of_validate hvalid
  rw [memoryLimitPages] at hlimit
  have hmax' : (ofBuffer memSec buffer expBuffer).max.toNat = memSec.max :=
    toNat_ofNat_of_lt' (by simp only [UInt32.size]; omega)
  have hpages : (ofBuffer memSec buffer expBuffer).pages.toNat = memSec.min :=
    pages_of_len hlen (by rw [memoryLimitPages]; omega)
  have hcap {n : Nat} (hn : n ≤ limit) (harray : buffer.array = replicate
    (memoryPagesToBytesNum n) 0) :
      (ofBuffer memSec buffer expBuffer).cap.toNat = n := by
    rw [ofBuffer, harray, length_replicate, memoryBytesNumToPages, memoryPagesToBytesNum_eq,
      toNat_ofNat']
    omega
  refine ⟨⟨by rw [hpages]; exact hlen, by omega, by rw [memoryLimitPages]; omega, fun hexp => ?_,
    fun hexp b hb => ?_, fun hexp hshared => ?_⟩, hpages, hmax'⟩ <;>
    obtain ⟨n, hn, harray, hle⟩ := hnone hexp
  · rw [hcap hn harray]
    simp only [ofBuffer, harray, length_replicate, le_refl]
  · simp only [ofBuffer, harray] at hb
    exact eq_of_mem_replicate (mem_of_mem_drop (mem_of_mem_take hb))
  · rw [le_iff_toNat_le, hcap hn harray, hmax']
    exact hle hshared

theorem newMemoryInstance_sound
    {allocator : Option MemoryAllocator}
    (halloc : ∀ allocate ∈ allocator, Allocates memSec allocate) :
    ∃ m, newMemoryInstance memSec allocator = .ok m ∧ m.Sound ∧ m.pages.toNat = memSec.min ∧
      m.max.toNat = memSec.max := by
  obtain ⟨hmax, hmin, hcap, hcapLimit⟩ := Memory.le_of_validate hvalid
  cases allocator with
  | some allocate =>
    have hlen := halloc allocate rfl
    obtain ⟨t, ht, -⟩ := slice_eq_ok (Nat.zero_le _) (Nat.le_of_eq hlen.symm)
    refine ⟨_, by simp only [newMemoryInstance, ht, Check.bind_ok]; rfl, ?_⟩
    exact sound_ofBuffer hlimit hvalid hlen nofun
  | none =>
    have hle : memSec.min ≤ if memSec.isShared then memSec.max else memSec.cap := by
      split <;> omega
    obtain ⟨buffer, hbuffer, hlen, harray⟩ := makeBytes_eq_ok (memoryPagesToBytesNum_le hle)
    refine ⟨.ofBuffer memSec buffer none, ?_,
      sound_ofBuffer hlimit hvalid hlen fun _ => ⟨_, ?_, harray, fun hshared => ?_⟩⟩
    · rw [newMemoryInstance, ← apply_ite memoryPagesToBytesNum, hbuffer]
      rfl
    · split <;> omega
    · rw [if_pos hshared]

/-- Whatever was grown and written before, `Grow` keeps its promise. -/
theorem grow_promise
    {allocator : Option MemoryAllocator}
    (halloc : ∀ allocate ∈ allocator, Allocates memSec allocate) :
    ∃ m₀, newMemoryInstance memSec allocator = .ok m₀ ∧ m₀.pages.toNat = memSec.min ∧
      m₀.max.toNat = memSec.max ∧ ∀ m, Reaches m₀ m → ∀ delta reallocated spare,
        (∀ r ∈ reallocated, m.Answers delta r) →
        ∃ result m', m.grow delta reallocated spare = .ok
        (result, m') ∧ m.Grows delta result m' := by
  obtain ⟨m₀, hnew, h₀, hmin, hmax⟩ := newMemoryInstance_sound hlimit hvalid halloc
  refine ⟨m₀, hnew, hmin, hmax, fun m hreach delta reallocated spare hr => ?_⟩
  obtain ⟨result, m', hgrow, hgrows, -⟩ := (hreach.sound h₀).grow hr spare
  exact ⟨result, m', hgrow, hgrows⟩

end

end

/-- An allocator of new zeros, which is asked for a second page. -/
def zeroAllocator : MemoryAllocator :=
  fun _ _ => ⟨fun size => .ofList (replicate size 0), none⟩

theorem grow_promise_allocated :
    ∃ m₀ result m', newMemoryInstance ⟨1, 1, 2, true, false⟩ (some zeroAllocator) = .ok m₀ ∧
      m₀.pages.toNat = 1 ∧ m₀.max.toNat = 2 ∧
      m₀.grow 1 (some ⟨.ofList (m₀.buffer.toList ++ replicate 65536 0), false⟩) [] =
        .ok (result, m') ∧ m₀.Grows 1 result m' := by
  have halloc : ∀ allocate ∈ some zeroAllocator, Allocates ⟨1, 1, 2, true, false⟩ allocate := by
    intro allocate h
    rw [← Option.mem_some.1 h]
    exact length_replicate
  obtain ⟨m₀, hnew, hpages, hmax, hgrow⟩ :=
    @grow_promise ⟨1, 1, 2, true, false⟩ _ (le_refl memoryLimitPages) rfl
      (some zeroAllocator) halloc
  obtain ⟨result, m', hresult, hgrows⟩ := hgrow m₀ .start 1
    (some ⟨.ofList (m₀.buffer.toList ++ replicate 65536 0), false⟩) [] fun r hr => by
      rw [← Option.mem_some.1 hr]
      exact ⟨toList_ofList _, fun _ => rfl⟩
  exact ⟨m₀, result, m', hnew, hpages, hmax, hresult, hgrows⟩

end Andsifr.Execution
