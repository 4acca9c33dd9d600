import Andsifr.Wasm.MemoryInstance

namespace Andsifr.Wasm.MemoryAccess

open Lib Check

def offset : MemoryAccess → Nat
  | readByte o | readUint16Le o | readUint32Le o | readFloat32Le o | readUint64Le o
  | readFloat64Le o | read o _ | writeByte o _ | writeUint16Le o _ | writeUint32Le o _
  | writeFloat32Le o _ | writeUint64Le o _ | writeFloat64Le o _ | write o _ | writeString o _ =>
    o.toNat

def data : MemoryAccess → Option (List UInt8)
  | writeByte _ v => some [v]
  | writeUint16Le _ v => some (leBytes 2 v.toNat)
  | writeUint32Le _ v => some (leBytes 4 v.toNat)
  | writeFloat32Le _ v => some (leBytes 4 v.bits.toNat)
  | writeUint64Le _ v => some (leBytes 8 v.toNat)
  | writeFloat64Le _ v => some (leBytes 8 v.bits.toNat)
  | write _ val | writeString _ val => some val
  | _ => none

def count : MemoryAccess → Nat
  | readByte _ => 1
  | readUint16Le _ => 2
  | readUint32Le _ | readFloat32Le _ => 4
  | readUint64Le _ | readFloat64Le _ => 8
  | read _ n => n.toNat
  | a => (a.data.getD []).length

def value : MemoryAccess → List UInt8 → Option MemoryValue
  | readByte _, bs => some (.byte (.ofNat (leNat bs)))
  | readUint16Le _, bs => some (.uint16 (.ofNat (leNat bs)))
  | readUint32Le _, bs => some (.uint32 (.ofNat (leNat bs)))
  | readFloat32Le _, bs => some (.float32 ⟨.ofNat (leNat bs)⟩)
  | readUint64Le _, bs => some (.uint64 (.ofNat (leNat bs)))
  | readFloat64Le _, bs => some (.float64 ⟨.ofNat (leNat bs)⟩)
  | read _ _, bs => some (.bytes bs)
  | _, _ => none

/-- The range lies inside a memory of `len` bytes. -/
def Inside (len : Nat) (a : MemoryAccess) : Prop :=
  a.offset + a.count ≤ len

instance (len : Nat) (a : MemoryAccess) : Decidable (a.Inside len) :=
  inferInstanceAs (Decidable (_ ≤ _))

/-- The result of an access to a memory with the given contents. -/
def expected (len : Nat) (contents : Nat → UInt8) (a : MemoryAccess) : AccessResult :=
  if a.Inside len then ⟨a.value ((List.range a.count).map fun k => contents (a.offset + k)), true⟩
  else ⟨a.value [], false⟩

/-- The byte at `i` after the given accesses, the latest first: the one last written there. -/
def lastWritten (len : Nat) (initial : Nat → UInt8) : List MemoryAccess → Nat → UInt8
  | [], i => initial i
  | a :: earlier, i =>
    if a.Inside len ∧ a.offset ≤ i then
      ((a.data.getD [])[i - a.offset]?).getD (lastWritten len initial earlier i)
    else lastWritten len initial earlier i

/-- The results of accesses that come after the given ones. -/
def expectedAll (len : Nat) (initial : Nat → UInt8) :
    (earlier : List MemoryAccess) → List MemoryAccess → List AccessResult
  | _, [] => []
  | earlier, a :: as =>
    a.expected len (lastWritten len initial earlier) :: expectedAll len initial (a :: earlier) as

/-- The end of the slice that a 16-bit or a bulk read takes is `2 ^ 32`. -/
def EndsAtLimit (len : Nat) : MemoryAccess → Prop
  | readUint16Le o => o.toNat + 2 = 2 ^ 32 ∧ len = 2 ^ 32
  | read o n => o.toNat + n.toNat = 2 ^ 32 ∧ len = 2 ^ 32
  | _ => False

end MemoryAccess

namespace MemoryInstance

open Lib

def byteAt (m : MemoryInstance) (i : Nat) : UInt8 :=
  m.buffer.toList[i]?.getD 0

variable {m : MemoryInstance}

theorem hasSize_iff (hlen : m.buffer.len ≤ 2 ^ 32) (offset : UInt32) {n : UInt64}
    (hn : n.toNat < 2 ^ 63) : m.hasSize offset n = true ↔
      offset.toNat + n.toNat ≤ m.buffer.len := by
  have ho := offset.toNat_lt
  have hsum : (offset.toUInt64 + n).toNat = offset.toNat + n.toNat := by
    rw [UInt64.toNat_add, UInt32.toNat_toUInt64]
    omega
  have hbuf : (UInt64.ofNat m.buffer.len).toNat = m.buffer.len := by
    rw [UInt64.toNat_ofNat']
    omega
  rw [hasSize, decide_eq_true_iff, UInt64.le_iff_toNat_le, hsum, hbuf]

theorem extract_eq_map {i n : Nat} (h : i + n ≤ m.buffer.len) :
    m.buffer.extract i n = (List.range n).map fun k => m.byteAt (i + k) := by
  apply List.ext_getElem?
  intro k
  by_cases hk : k < n
  · have hlt : i + k < m.buffer.toList.length := by
      rw [Slice.length_toList]
      omega
    rw [Slice.extract, List.getElem?_take_of_lt hk, List.getElem?_drop, List.getElem?_map,
      List.getElem?_range hk, Option.map_some, byteAt, List.getElem?_eq_getElem hlt,
        Option.getD_some]
  · rw [List.getElem?_eq_none (by rw [Slice.length_extract h]; omega),
      List.getElem?_eq_none (by simpa using hk)]

section

variable (hlen : m.buffer.len ≤ 2 ^ 32)

include hlen

theorem guard_eq {α : Type} (offset : UInt32) {n : UInt64} (hn : n.toNat < 2 ^ 63) (x y : Check α) :
    (if !m.hasSize offset n then x else y) =
      if offset.toNat + n.toNat ≤ m.buffer.len then y else x := by
  have hiff := hasSize_iff hlen offset hn
  by_cases h : offset.toNat + n.toNat ≤ m.buffer.len
  · rw [if_pos h, if_neg (by simp [hiff.mpr h])]
  · rw [if_neg h, if_pos (by simpa using fun hs => h (hiff.mp hs))]

theorem readByte_eq (offset : UInt32) : m.readByte offset = if offset.toNat + 1 ≤ m.buffer.len then
        .ok (.ofNat (leNat (m.buffer.extract offset.toNat 1)), true)
      else .ok (0, false) := by
  rw [readByte, guard_eq hlen offset (by decide)]
  refine if_ctx_congr Iff.rfl (fun h => ?_) fun _ => rfl
  obtain ⟨b, hb, hget⟩ := Slice.index_eq_ok h
  have hextract : m.buffer.extract offset.toNat 1 = [b] := by
    rw [Slice.extract, List.take_one, List.head?_drop, hget]
    rfl
  rw [hb, hextract, leNat, leNat, Nat.add_zero, UInt8.ofNat_toNat]
  rfl

theorem readUintLe_eq (offset : UInt32) {n : Nat} (hpos : 0 < n) (hn : n < 2 ^ 63) :
    m.readUintLe offset n = if offset.toNat + n ≤ m.buffer.len then
        .ok (leNat (m.buffer.extract offset.toNat n), true)
      else .ok (0, false) := by
  have hnat : (UInt64.ofNat n).toNat = n := by
    rw [UInt64.toNat_ofNat']
    omega
  rw [readUintLe, guard_eq hlen offset (by omega), hnat]
  refine if_ctx_congr Iff.rfl (fun h => ?_) fun _ => rfl
  have hlo : offset.toNat ≤ m.buffer.len := by omega
  obtain ⟨s, hs, hlist, hslen⟩ := Slice.sliceFrom_eq_ok hlo
  rw [hs, Check.bind_ok, Slice.leUint_eq_ok hpos (by omega), Check.bind_ok, hlist,
    Slice.extract_extract _ (by omega)]
  rfl

theorem readUint16Le_eq {offset : UInt32}
    (hend : ¬ (offset.toNat + 2 = 2 ^ 32 ∧ m.buffer.len = 2 ^ 32)) :
    m.readUint16Le offset = if offset.toNat + 2 ≤ m.buffer.len then
        .ok (.ofNat (leNat (m.buffer.extract offset.toNat 2)), true)
      else .ok (0, false) := by
  rw [readUint16Le, guard_eq hlen offset (by decide)]
  refine if_ctx_congr Iff.rfl (fun h => ?_) fun _ => rfl
  have hhi : (offset + 2).toNat = offset.toNat + 2 := by
    rw [UInt32.toNat_add, show (2 : UInt32).toNat = 2 from rfl]
    omega
  obtain ⟨s, hs, hlist, hslen⟩ :=
    Slice.slice_eq_ok (Nat.le_add_right offset.toNat 2) h
  rw [hhi, hs, Check.bind_ok, Slice.leUint_eq_ok two_pos (by omega), Check.bind_ok, hlist,
    Slice.extract_extract _ (by omega)]
  rfl

theorem readUint32Le_eq (offset : UInt32) : m.readUint32Le offset =
      if offset.toNat + 4 ≤ m.buffer.len then
        .ok (.ofNat (leNat (m.buffer.extract offset.toNat 4)), true)
      else .ok (0, false) := by
  rw [readUint32Le, readUintLe_eq hlen offset (by decide) (by decide)]
  split <;> rfl

theorem readUint64Le_eq (offset : UInt32) : m.readUint64Le offset =
      if offset.toNat + 8 ≤ m.buffer.len then
        .ok (.ofNat (leNat (m.buffer.extract offset.toNat 8)), true)
      else .ok (0, false) := by
  rw [readUint64Le, readUintLe_eq hlen offset (by decide) (by decide)]
  split <;> rfl

theorem readFloat32Le_eq (offset : UInt32) : m.readFloat32Le offset =
      if offset.toNat + 4 ≤ m.buffer.len then
        .ok (⟨.ofNat (leNat (m.buffer.extract offset.toNat 4))⟩, true)
      else .ok (⟨0⟩, false) := by
  rw [readFloat32Le, readUint32Le_eq hlen offset]
  split <;> rfl

theorem readFloat64Le_eq (offset : UInt32) : m.readFloat64Le offset =
      if offset.toNat + 8 ≤ m.buffer.len then
        .ok (⟨.ofNat (leNat (m.buffer.extract offset.toNat 8))⟩, true)
      else .ok (⟨0⟩, false) := by
  rw [readFloat64Le, readUint64Le_eq hlen offset]
  split <;> rfl

end

theorem crashes_readUint16Le (hlen : m.buffer.len = 2 ^ 32) {offset : UInt32}
    (hend : offset.toNat + 2 = 2 ^ 32) : Check.Crashes (m.readUint16Le offset) := by
  have hhi : (offset + 2).toNat = 0 := by
    rw [UInt32.toNat_add, show (2 : UInt32).toNat = 2 from rfl]
    omega
  rw [readUint16Le, guard_eq (by omega) offset (by decide),
    if_pos (by simp only [UInt64.reduceToNat]; omega)]
  refine Check.crashes_bind.mpr (.inl (Slice.crashes_slice ?_))
  omega

theorem read_eq (hlen : m.buffer.len ≤ 2 ^ 32) {offset byteCount : UInt32}
    (hend : ¬ (offset.toNat + byteCount.toNat = 2 ^ 32 ∧ m.buffer.len = 2 ^ 32)) :
    m.read offset byteCount = if offset.toNat + byteCount.toNat ≤ m.buffer.len then
        .ok (m.buffer.extract offset.toNat byteCount.toNat, true)
      else .ok ([], false) := by
  have hn := byteCount.toNat_lt
  rw [read, guard_eq hlen offset (by rw [UInt32.toNat_toUInt64]; omega), UInt32.toNat_toUInt64]
  refine if_ctx_congr Iff.rfl (fun h => ?_) fun _ => rfl
  have hhi : (offset + byteCount).toNat = offset.toNat + byteCount.toNat := by
    rw [UInt32.toNat_add]
    omega
  obtain ⟨s, hs, hlist⟩ :=
    Slice.slice3_eq_ok (Nat.le_add_right offset.toNat byteCount.toNat) h
  rw [hhi, hs, Check.bind_ok, hlist, Nat.add_sub_cancel_left]
  rfl

theorem crashes_read (hlen : m.buffer.len = 2 ^ 32) {offset byteCount : UInt32}
    (hend : offset.toNat + byteCount.toNat = 2 ^ 32) : Check.Crashes (m.read offset byteCount) := by
  have hn := byteCount.toNat_lt
  have hhi : (offset + byteCount).toNat = 0 := by
    rw [UInt32.toNat_add]
    omega
  rw [read, guard_eq (by omega) offset (by rw [UInt32.toNat_toUInt64]; omega),
    if_pos (by rw [UInt32.toNat_toUInt64]; omega), hhi]
  exact Check.crashes_bind.mpr (.inl (Slice.crashes_slice3 (by omega)))

/-- The memory with the bytes from `i` on replaced. -/
def store (m : MemoryInstance) (i : Nat) (bs : List UInt8) : MemoryInstance :=
  { m with buffer := m.buffer.overwrite i bs }

variable {bs : List UInt8}

theorem byteAt_store {i : Nat} (h : i + bs.length ≤ m.buffer.len) (j : Nat) :
    (m.store i bs).byteAt j = if i ≤ j then (bs[j - i]?).getD (m.byteAt j) else m.byteAt j := by
  rw [byteAt, store, Slice.getElem?_toList_overwrite h, byteAt]
  by_cases hi : i ≤ j
  · rw [if_pos hi]
    by_cases hj : j < i + bs.length
    · rw [if_pos ⟨hi, hj⟩, List.getElem?_eq_getElem (by omega), Option.getD_some, Option.getD_some]
    · have hnone : bs[j - i]? = none := List.getElem?_eq_none (by omega)
      rw [if_neg (by omega), hnone, Option.getD_none]
  · rw [if_neg (by omega), if_neg hi]

theorem len_store {i : Nat} : (m.store i bs).buffer.len = m.buffer.len :=
  Slice.overwrite_len ..

theorem extract_store_of_disjoint {i j n : Nat} (h : i + bs.length ≤ m.buffer.len)
    (hdisjoint : j + n ≤ i ∨ i + bs.length ≤ j) :
    (m.store i bs).buffer.extract j n = m.buffer.extract j n :=
  Slice.extract_overwrite_apart h hdisjoint

theorem extract_store_self {i : Nat} (h : i + bs.length ≤ m.buffer.len) :
    (m.store i bs).buffer.extract i bs.length = bs :=
  Slice.extract_overwrite_same h

section

variable (hlen : m.buffer.len ≤ 2 ^ 32)

include hlen

theorem writeByte_eq (offset : UInt32) (v : UInt8) : m.writeByte offset v =
      if offset.toNat + 1 ≤ m.buffer.len then .ok (true, m.store offset.toNat [v])
      else .ok (false, m) := by
  rw [writeByte, guard_eq hlen offset (by decide)]
  refine if_ctx_congr Iff.rfl (fun h => ?_) fun _ => rfl
  obtain ⟨b, hb, -⟩ := Slice.index_eq_ok h
  rw [hb]
  rfl

theorem writeUintLe_eq (offset : UInt32) {n : Nat} (hpos : 0 < n) (hn : n < 2 ^ 63) (v : Nat) :
    m.writeUintLe offset n v =
      if offset.toNat + n ≤ m.buffer.len then .ok (true, m.store offset.toNat (leBytes n v))
      else .ok (false, m) := by
  have hnat : (UInt64.ofNat n).toNat = n := by
    rw [UInt64.toNat_ofNat']
    omega
  rw [writeUintLe, guard_eq hlen offset (by omega), hnat]
  refine if_ctx_congr Iff.rfl (fun h => ?_) fun _ => rfl
  rw [Slice.putAt_eq_ok (by rwa [length_leBytes]) (by rwa [length_leBytes])]
  rfl

theorem write_eq (offset : UInt32) (val : ByteData) : m.write offset val =
      if offset.toNat + val.1.length ≤ m.buffer.len then .ok (true, m.store offset.toNat val)
      else .ok (false, m) := by
  have hnat : (UInt64.ofNat val.1.length).toNat = val.1.length := by
    rw [UInt64.toNat_ofNat']
    omega
  rw [write, guard_eq hlen offset (by omega), hnat]
  refine if_ctx_congr Iff.rfl (fun h => ?_) fun _ => rfl
  rw [Slice.copyAt_eq_ok h]
  rfl

end

end MemoryInstance

namespace MemoryAccess

open Lib Check

variable {m : MemoryInstance} {a : MemoryAccess}

/-- The memory after an access that does not panic. -/
def after (m : MemoryInstance) (a : MemoryAccess) : MemoryInstance :=
  if a.Inside m.buffer.len then
    match a.data with
    | some bs => m.store a.offset bs
    | none => m
  else m

theorem expected_byteAt : a.expected m.buffer.len m.byteAt =
    if a.Inside m.buffer.len then ⟨a.value (m.buffer.extract a.offset a.count), true⟩
    else ⟨a.value [], false⟩ := by
  refine if_ctx_congr Iff.rfl (fun h => ?_) fun _ => rfl
  rw [MemoryInstance.extract_eq_map h]

theorem reading_eq {α : Type} {value : α → MemoryValue} {v w : α} {x : Check (α × Bool)}
    (hx : x = if a.Inside m.buffer.len then .ok (v, true) else .ok (w, false))
    (hdata : a.data = none)
    (hv : a.value (m.buffer.extract a.offset a.count) = some (value v))
    (hw : a.value [] = some (value w)) :
    reading m value x = .ok (a.expected m.buffer.len m.byteAt, after m a) := by
  rw [hx, expected_byteAt, hv, hw, after, hdata]
  split <;> rfl

theorem writing_eq {bs : List UInt8} {x : Check (Bool × MemoryInstance)}
    (hx : x = if a.Inside m.buffer.len then .ok (true, m.store a.offset bs) else .ok (false, m))
    (hdata : a.data = some bs) (hvalue : ∀ found, a.value found = none) :
    writing x = .ok (a.expected m.buffer.len m.byteAt, after m a) := by
  rw [hx, expected_byteAt, hvalue, hvalue, after, hdata]
  split <;> rfl

theorem run_eq (hlen : m.buffer.len ≤ 2 ^ 32) (hend : ¬ a.EndsAtLimit m.buffer.len) :
    a.run m = .ok (a.expected m.buffer.len m.byteAt, after m a) := by
  cases a with
  | readByte o => exact reading_eq (MemoryInstance.readByte_eq hlen o) rfl rfl rfl
  | readUint16Le o => exact reading_eq (MemoryInstance.readUint16Le_eq hlen hend) rfl rfl rfl
  | readUint32Le o => exact reading_eq (MemoryInstance.readUint32Le_eq hlen o) rfl rfl rfl
  | readFloat32Le o => exact reading_eq (MemoryInstance.readFloat32Le_eq hlen o) rfl rfl rfl
  | readUint64Le o => exact reading_eq (MemoryInstance.readUint64Le_eq hlen o) rfl rfl rfl
  | readFloat64Le o => exact reading_eq (MemoryInstance.readFloat64Le_eq hlen o) rfl rfl rfl
  | read o n => exact reading_eq (MemoryInstance.read_eq hlen hend) rfl rfl rfl
  | writeByte o v => exact writing_eq (MemoryInstance.writeByte_eq hlen o v) rfl fun _ => rfl
  | writeUint16Le o v =>
    exact writing_eq (MemoryInstance.writeUintLe_eq hlen o (by decide) (by decide) _) rfl
      fun _ => rfl
  | writeUint32Le o v | writeFloat32Le o v =>
    exact writing_eq (MemoryInstance.writeUintLe_eq hlen o (by decide) (by decide) _) rfl
      fun _ => rfl
  | writeUint64Le o v | writeFloat64Le o v =>
    exact writing_eq (MemoryInstance.writeUintLe_eq hlen o (by decide) (by decide) _) rfl
      fun _ => rfl
  | write o val | writeString o val =>
    exact writing_eq (MemoryInstance.write_eq hlen o val) rfl fun _ => rfl

theorem crashes_run (hend : a.EndsAtLimit m.buffer.len) : Crashes (a.run m) := by
  cases a with
  | readUint16Le o =>
    exact crashes_bind.mpr (.inl (MemoryInstance.crashes_readUint16Le hend.2 hend.1))
  | read o n => exact crashes_bind.mpr (.inl (MemoryInstance.crashes_read hend.2 hend.1))
  | _ => cases hend

theorem len_after (m : MemoryInstance) (a : MemoryAccess) :
    (after m a).buffer.len = m.buffer.len := by
  unfold after
  split
  · cases a.data <;> rfl
  · rfl

theorem count_of_data {bs : List UInt8} (h : a.data = some bs) : a.count = bs.length := by
  cases a <;> cases h <;> rfl

theorem byteAt_after (m : MemoryInstance) (initial : Nat → UInt8) {earlier : List MemoryAccess}
    (h : m.byteAt = lastWritten m.buffer.len initial earlier) (a : MemoryAccess) :
    (after m a).byteAt = lastWritten m.buffer.len initial (a :: earlier) := by
  funext i
  rw [lastWritten, ← h, after]
  by_cases hinside : a.Inside m.buffer.len
  · simp only [hinside, true_and]
    cases hdata : a.data with
    | none => simp
    | some bs =>
      have hfits : a.offset + bs.length ≤ m.buffer.len := by rwa [← count_of_data hdata]
      exact MemoryInstance.byteAt_store hfits i
  · simp only [hinside, false_and, if_false]

theorem runAll_eq (hlen : m.buffer.len ≤ 2 ^ 32) (initial : Nat → UInt8)
    {earlier as : List MemoryAccess} (h : m.byteAt = lastWritten m.buffer.len initial earlier)
    (hend : ∀ a ∈ as, ¬ a.EndsAtLimit m.buffer.len) :
    ∃ m', runAll m as = .ok (expectedAll m.buffer.len initial earlier as, m') ∧
      m'.buffer.len = m.buffer.len ∧
      m'.byteAt = lastWritten m.buffer.len initial (as.reverse ++ earlier) := by
  induction as generalizing m earlier with
  | nil => exact ⟨m, rfl, rfl, h⟩
  | cons a as ih =>
    have hrun := run_eq hlen (hend a (by simp))
    have hsame := len_after m a
    obtain ⟨m', hruns, hlen', hbytes⟩ := ih (m := after m a) (by omega)
      (by rw [hsame]; exact byteAt_after m initial h a)
      (by rw [hsame]; exact fun b hb => hend b (by simp [hb]))
    rw [hsame] at hruns hlen' hbytes
    refine ⟨m', ?_, hlen', ?_⟩
    · rw [runAll, hrun]
      simp only [hruns, bind_ok, expectedAll, h]
      rfl
    · rw [hbytes, List.reverse_cons, List.append_assoc, List.singleton_append]

theorem crashes_runAll (hlen : m.buffer.len ≤ 2 ^ 32) {as : List MemoryAccess}
    (hend : ∃ a ∈ as, a.EndsAtLimit m.buffer.len) : Crashes (runAll m as) := by
  induction as generalizing m with
  | nil => simp at hend
  | cons a as ih =>
    by_cases ha : a.EndsAtLimit m.buffer.len
    · exact crashes_bind.mpr (.inl (crashes_run ha))
    · have hsame := len_after m a
      have hrest : ∃ b ∈ as, b.EndsAtLimit m.buffer.len := by simpa [ha] using hend
      refine crashes_bind.mpr (.inr ⟨_, run_eq hlen ha, crashes_bind.mpr (.inl ?_)⟩)
      exact ih (by omega) (by rwa [hsame])

/-- In a memory of at most 4 GiB a sequence of accesses never panics, every access succeeds exactly
when its range lies inside the buffer and reads the bytes last written, and the memory at the end
holds these bytes, if and only if no access ends at the limit. -/
theorem runAll_correct_iff (m : MemoryInstance) (hlen : m.buffer.len ≤ 2 ^ 32)
    (as : List MemoryAccess) :
    (∃ m', runAll m as = .ok (expectedAll m.buffer.len m.byteAt [] as, m') ∧
      m'.buffer.len = m.buffer.len ∧ m'.byteAt = lastWritten m.buffer.len m.byteAt as.reverse) ↔
      ∀ a ∈ as, ¬ a.EndsAtLimit m.buffer.len := by
  constructor
  · rintro ⟨m', hrun, -⟩ a ha hend
    obtain ⟨c, hcrash⟩ := crashes_runAll hlen ⟨a, ha, hend⟩
    rw [hrun] at hcrash
    cases hcrash
  · intro hend
    have h := @runAll_eq m hlen m.byteAt [] as rfl hend
    rwa [List.append_nil] at h

theorem runAll_correct_iff_four_bytes :
    (∃ m', runAll ⟨⟨[0, 0, 0, 0], 4, by decide⟩, 1, 1, false⟩
          [.write 1 ⟨[7, 8], by decide⟩, .readUint16Le 2, .readUint16Le 3] =
        .ok ([⟨none, true⟩, ⟨some (.uint16 8), true⟩, ⟨some (.uint16 0), false⟩], m') ∧
      m'.buffer.toList = [0, 7, 8, 0]) ∧
    ∀ a ∈ [.write 1 ⟨[7, 8], by decide⟩, .readUint16Le 2, .readUint16Le 3],
      ¬ MemoryAccess.EndsAtLimit 4 a :=
  ⟨⟨_, rfl, rfl⟩, (runAll_correct_iff ⟨⟨[0, 0, 0, 0], 4, by decide⟩, 1, 1, false⟩ (by decide) _).mp
    ⟨_, rfl, rfl, by
      funext i
      rcases i with - | - | - | - | i <;> rfl⟩⟩

/-- The last two bytes, and the last one, of a memory of 4 GiB. -/
theorem reads_panic_at_4GiB :
    ∃ m : MemoryInstance, m.buffer.len = 2 ^ 32 ∧
      (readUint16Le 0xfffffffe).Inside m.buffer.len ∧ Crashes (m.readUint16Le 0xfffffffe) ∧
      (read 0xffffffff 1).Inside m.buffer.len ∧ Crashes (m.read 0xffffffff 1) :=
  ⟨⟨⟨List.replicate (2 ^ 32) 0, 2 ^ 32, by rw [List.length_replicate]⟩, 65536, 65536, false⟩, rfl,
    by decide, MemoryInstance.crashes_readUint16Le rfl rfl, by decide,
    MemoryInstance.crashes_read rfl rfl⟩

end MemoryAccess

/-- A memory of one page that begins with the given bytes. -/
def pageOf (bytes : List UInt8) : MemoryInstance where
  buffer := ⟨bytes ++ List.replicate (65536 - bytes.length) 0,
    (bytes ++ List.replicate (65536 - bytes.length) 0).length, le_refl _⟩
  cap := 1
  max := 1
  shared := false

theorem len_pageOf {bytes : List UInt8} (h : bytes.length ≤ 65536) :
    (pageOf bytes).buffer.len = 65536 := by
  simp only [pageOf, List.length_append, List.length_replicate]
  omega

theorem extract_pageOf {bytes : List UInt8} {i n : Nat} (h : i + n ≤ bytes.length) :
    (pageOf bytes).buffer.extract i n = (bytes.drop i).take n := by
  simp only [Lib.Slice.extract, Lib.Slice.toList, pageOf, List.take_length]
  rw [List.drop_append_of_le_length (by omega), List.take_append_of_le_length]
  rw [List.length_drop]
  omega

end Andsifr.Wasm
