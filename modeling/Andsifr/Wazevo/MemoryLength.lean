import Andsifr.Execution.MemoryGrow

namespace Andsifr.Wazevo

open Wasm Execution Execution.AllocatedMemory UInt64

/-- What the frontend knows of the memory of a module. -/
structure MemoryCompiler where
  imported : Bool
  memoryShared : Bool
  memoryMinSizeInBytes : UInt64

/-- An address that the code has computed, and whether a constant defines it. -/
structure Address where
  val : UInt32
  constant : Bool

/-- A memory, its length in the module context of its owner, and the value of the frontend's
variable for the length, if there is one on the linear path. For each address, named by its SSA
value, there is the bound that the frontend knows to be safe, with zero for none, and the largest
bound of an access that has passed. -/
structure MemoryLength where
  mem : AllocatedMemory
  localMemoryLen : UInt64
  memoryLenVariable : Option UInt64 := none
  addresses : Nat → Address := fun _ => ⟨0, false⟩
  knownSafeBounds : Nat → UInt64 := fun _ => 0
  passed : Nat → UInt64 := fun _ => 0

namespace MemoryLength

def putLocalMemory (s : MemoryLength) : MemoryLength :=
  { s with localMemoryLen := .ofNat s.mem.buffer.len }

/-- The memory after calls of `Grow`. One that fails leaves the length, which is then not
written. -/
def memoryGrown (s : MemoryLength) (mem : AllocatedMemory) : MemoryLength :=
  { s with mem }.putLocalMemory

def raise (bounds : Nat → UInt64) (v : Nat) (safeBound : UInt64) : Nat → UInt64 :=
  if bounds v < safeBound then Function.update bounds v safeBound else bounds

def recordKnownSafeBound (s : MemoryLength) (v : Nat) (safeBound : UInt64) : MemoryLength :=
  { s with
    knownSafeBounds := raise s.knownSafeBounds v safeBound
    passed := raise s.passed v safeBound }

def define (s : MemoryLength) (v : Nat) (a : Address) : MemoryLength :=
  { s with
    addresses := Function.update s.addresses v a
    knownSafeBounds := Function.update s.knownSafeBounds v 0
    passed := Function.update s.passed v 0 }

def start (mem : AllocatedMemory) : MemoryLength :=
  { mem, localMemoryLen := 0 : MemoryLength }.putLocalMemory

end MemoryLength

open MemoryLength

namespace MemoryCompiler

variable (c : MemoryCompiler) (s : MemoryLength)

/-- The 64 bits in which the length is: those of the slice, or those of the module context. -/
def lengthWord : UInt64 :=
  if c.imported then .ofNat s.mem.buffer.len else s.localMemoryLen

/-- The code for `memory.size` loads 32 bits of the length. -/
def memorySize : UInt32 :=
  (c.lengthWord s).toUInt32 >>> 16

/-- The load in `getMemoryLenValue`: of 64 bits, but of 32 bits for a memory of the module itself
that is not shared. -/
def loadMemoryLen : UInt64 :=
  if c.imported || c.memoryShared then c.lengthWord s else (c.lengthWord s).toUInt32.toUInt64

def getMemoryLenValue (forceReload : Bool) : UInt64 × MemoryLength :=
  match if !forceReload && !c.memoryShared then s.memoryLenVariable else none with
  | some v => (v, s)
  | none => (c.loadMemoryLen s, { s with memoryLenVariable := some (c.loadMemoryLen s) })

/-- Whether the access passes. There is no check if the bound is known to be safe, or if the address
is constant and the access is inside of the least size. `boundsCheckInMemory` emits the check for
every range of bytes. -/
def memOpSetup (baseAddr : Nat) (constOffset operationSizeInBytes : UInt32) : Bool × MemoryLength :=
  let ceil := constOffset.toUInt64 + operationSizeInBytes.toUInt64
  let address := s.addresses baseAddr
  if 0 < s.knownSafeBounds baseAddr ∧ ceil ≤ s.knownSafeBounds baseAddr then (true, s)
  else if address.constant ∧ address.val.toUInt64 + ceil ≤ c.memoryMinSizeInBytes then
    (true, s.recordKnownSafeBound baseAddr ceil)
  else
    let (memLen, s) := c.getMemoryLenValue s false
    (!(memLen < address.val.toUInt64 + ceil), s.recordKnownSafeBound baseAddr ceil)

def reloadMemoryBaseLen : MemoryLength :=
  (c.getMemoryLenValue s true).2

def reloadAfterCall : MemoryLength :=
  if c.memoryShared then s else c.reloadMemoryBaseLen s

/-- The code of a function goes on: an address is computed, an access passes, `memory.grow`, a call
in which the memory is grown, or another block, which starts with bounds that the addresses have
passed on every way to it. A shared memory may be grown by others at any time. -/
inductive Step : MemoryLength → MemoryLength → Prop where
  | define {s : MemoryLength} (v : Nat) (a : Address) : Step s (s.define v a)
  | access {s : MemoryLength} {baseAddr : Nat} {constOffset size : UInt32}
      (hpasses : (c.memOpSetup s baseAddr constOffset size).1 = true) :
      Step s (c.memOpSetup s baseAddr constOffset size).2
  | memoryGrow {s : MemoryLength} {mem : AllocatedMemory} {delta : UInt32}
      {reallocated : Option Reallocated} {spare : List UInt8} {result : UInt32 × Bool}
      (hr : ∀ r ∈ reallocated, s.mem.Answers delta r)
      (hgrow : s.mem.grow delta reallocated spare = .ok (result, mem)) :
      Step s (c.reloadMemoryBaseLen (s.memoryGrown mem))
  | call {s : MemoryLength} {mem : AllocatedMemory} (h : Reaches s.mem mem) :
      Step s (c.reloadAfterCall (s.memoryGrown mem))
  | concurrently {s : MemoryLength} {mem : AllocatedMemory} (hshared : c.memoryShared = true)
      (h : Reaches s.mem mem) : Step s (s.memoryGrown mem)
  | block {s : MemoryLength} {len : Option UInt64} {bounds : Nat → UInt64}
      (hlen : len = none ∨ len = s.memoryLenVariable) (hbounds : ∀ v, bounds v ≤ s.passed v) :
      Step s { s with memoryLenVariable := len, knownSafeBounds := bounds }

/-- The module has the memory as its own, or imports it, and then it has the size that the import
asks for. -/
def Links (memSec : Memory) (mem : AllocatedMemory) : Prop :=
  if c.imported then c.memoryMinSizeInBytes.toNat ≤ mem.buffer.len
  else c.memoryMinSizeInBytes.toNat = memoryPagesToBytesNum memSec.min

/-- `memory.size` gives the number of pages, and what passes are the accesses inside of the
buffer. -/
def Agrees : Prop :=
  c.memorySize s = s.mem.pages ∧ ∀ (baseAddr : Nat) (constOffset size : UInt32),
    (c.memOpSetup s baseAddr constOffset size).1 = true ↔
      (s.addresses baseAddr).val.toNat + constOffset.toNat + size.toNat ≤ s.mem.buffer.len

structure Inv : Prop where
  sound : s.mem.Sound
  word : s.localMemoryLen = .ofNat s.mem.buffer.len
  cached : c.memoryShared = false → ∀ v ∈ s.memoryLenVariable, v = c.loadMemoryLen s
  min : c.memoryMinSizeInBytes.toNat ≤ s.mem.buffer.len
  known : ∀ v, s.knownSafeBounds v ≤ s.passed v
  passed : ∀ v, 0 < s.passed v → (s.addresses v).val.toNat + (s.passed v).toNat ≤ s.mem.buffer.len

variable {c s}

theorem inv_start {mem : AllocatedMemory} (h : mem.Sound)
    (hmin : c.memoryMinSizeInBytes.toNat ≤ mem.buffer.len) : c.Inv (start mem) :=
  ⟨h, rfl, fun _ => nofun, hmin, fun _ => UInt64.le_refl _, fun _ hpos =>
    absurd hpos (UInt64.lt_irrefl _)⟩

theorem Links.min_le {memSec : Memory} {mem₀ mem : AllocatedMemory} (h : c.Links memSec mem)
    (hreaches : Reaches mem₀ mem) (hsound : mem₀.Sound) (hpages : mem₀.pages.toNat = memSec.min) :
    c.memoryMinSizeInBytes.toNat ≤ mem.buffer.len := by
  unfold Links at h
  split at h
  · exact h
  · rw [h, ← hpages, ← hsound.len]
    exact hreaches.len_le hsound

theorem raise_of_ne {bounds : Nat → UInt64} {v v' : Nat} (h : v' ≠ v) (safeBound : UInt64) :
    raise bounds v safeBound v' = bounds v' := by
  unfold raise
  split
  · exact Function.update_of_ne h _ _
  · rfl

theorem toNat_raise (bounds : Nat → UInt64) (v : Nat) (safeBound : UInt64) :
    (raise bounds v safeBound v).toNat = max (bounds v).toNat safeBound.toNat := by
  unfold raise
  split
  next h =>
    rw [Function.update_self, max_eq_right (le_of_lt (UInt64.lt_iff_toNat_lt.1 h))]
  next h =>
    rw [UInt64.lt_iff_toNat_lt] at h
    omega

theorem toNat_ceil (constOffset size : UInt32) :
    (constOffset.toUInt64 + size.toUInt64).toNat = constOffset.toNat + size.toNat := by
  have := constOffset.toNat_lt
  have := size.toNat_lt
  simp only [UInt64.toNat_add, UInt32.toNat_toUInt64]
  omega

theorem toNat_end (addr constOffset size : UInt32) :
    (addr.toUInt64 + (constOffset.toUInt64 + size.toUInt64)).toNat =
      addr.toNat + constOffset.toNat + size.toNat := by
  have := addr.toNat_lt
  have := constOffset.toNat_lt
  have := size.toNat_lt
  rw [UInt64.toNat_add, toNat_ceil, UInt32.toNat_toUInt64]
  omega

section

variable (h : c.Inv s)

include h

theorem Inv.getMemoryLenValue : (c.getMemoryLenValue s false).1 = c.loadMemoryLen s := by
  unfold MemoryCompiler.getMemoryLenValue
  split
  next v hv =>
    split at hv
    next hcond => exact h.cached (by simpa using hcond) v hv
    next => cases hv
  next => rfl

theorem Inv.len : s.mem.buffer.len = s.mem.pages.toNat * 65536 ∧ s.mem.pages.toNat ≤ 65536 := by
  have hlen := h.sound.len
  rw [memoryPagesToBytesNum_eq] at hlen
  exact ⟨hlen, le_trans h.sound.pages h.sound.max⟩

theorem Inv.lengthWord : (c.lengthWord s).toNat = s.mem.buffer.len := by
  obtain ⟨hlen, hpages⟩ := h.len
  rw [MemoryCompiler.lengthWord, h.word, ite_self, toNat_ofNat']
  omega

theorem Inv.memorySize : (c.memorySize s).toNat = s.mem.buffer.len % 2 ^ 32 / 65536 := by
  rw [MemoryCompiler.memorySize, UInt32.toNat_shiftRight, toNat_toUInt32, h.lengthWord,
    Nat.shiftRight_eq_div_pow]
  rfl

theorem Inv.loadMemoryLen : (c.loadMemoryLen s).toNat =
    if c.imported || c.memoryShared then s.mem.buffer.len else s.mem.buffer.len % 2 ^ 32 := by
  unfold MemoryCompiler.loadMemoryLen
  split
  next => exact h.lengthWord
  next => rw [UInt32.toNat_toUInt64, toNat_toUInt32, h.lengthWord]

theorem Inv.checked {baseAddr : Nat} {constOffset size : UInt32}
    (hknown : ¬ (0 < s.knownSafeBounds baseAddr ∧
      constOffset.toUInt64 + size.toUInt64 ≤ s.knownSafeBounds baseAddr))
    (hconst : ¬ ((s.addresses baseAddr).constant ∧ (s.addresses baseAddr).val.toUInt64 +
      (constOffset.toUInt64 + size.toUInt64) ≤ c.memoryMinSizeInBytes)) :
    (c.memOpSetup s baseAddr constOffset size).1 = true ↔
      (s.addresses baseAddr).val.toNat + constOffset.toNat + size.toNat ≤
      (c.loadMemoryLen s).toNat := by
  simp only [MemoryCompiler.memOpSetup, if_neg hknown, if_neg hconst, h.getMemoryLenValue,
    Bool.not_eq_true', decide_eq_false_iff_not, UInt64.not_lt]
  rw [UInt64.le_iff_toNat_le, toNat_end]

/-- What passes is inside of the buffer, and what is inside of the loaded length passes. -/
theorem Inv.memOpSetup (baseAddr : Nat) (constOffset size : UInt32) :
    ((c.memOpSetup s baseAddr constOffset size).1 = true →
      (s.addresses baseAddr).val.toNat + constOffset.toNat + size.toNat ≤ s.mem.buffer.len) ∧
    ((s.addresses baseAddr).val.toNat + constOffset.toNat + size.toNat ≤ (c.loadMemoryLen s).toNat →
      (c.memOpSetup s baseAddr constOffset size).1 = true) := by
  by_cases hknown : 0 < s.knownSafeBounds baseAddr ∧
      constOffset.toUInt64 + size.toUInt64 ≤ s.knownSafeBounds baseAddr
  · refine ⟨fun _ => ?_, fun _ => by simp only [MemoryCompiler.memOpSetup, if_pos hknown]⟩
    have hle := UInt64.le_trans hknown.2 (h.known baseAddr)
    have hpassed := h.passed baseAddr (UInt64.lt_of_lt_of_le hknown.1 (h.known baseAddr))
    rw [UInt64.le_iff_toNat_le, toNat_ceil] at hle
    omega
  by_cases hconst : (s.addresses baseAddr).constant ∧ (s.addresses baseAddr).val.toUInt64 +
      (constOffset.toUInt64 + size.toUInt64) ≤ c.memoryMinSizeInBytes
  · refine ⟨fun _ => ?_, fun _ => by simp only [MemoryCompiler.memOpSetup, if_neg hknown,
      if_pos hconst]⟩
    have hle := hconst.2
    have hmin := h.min
    rw [UInt64.le_iff_toNat_le, toNat_end] at hle
    omega
  · rw [h.checked hknown hconst]
    have hload := h.loadMemoryLen
    refine ⟨fun hle => ?_, id⟩
    split at hload <;> omega

theorem Inv.load : c.Inv { s with memoryLenVariable := some (c.loadMemoryLen s) } :=
  { h with cached := fun _ _ hv => (Option.some.inj hv).symm }

theorem Inv.recordKnownSafeBound {v : Nat} {bound : UInt64}
    (hin : (s.addresses v).val.toNat + bound.toNat ≤ s.mem.buffer.len) :
    c.Inv (s.recordKnownSafeBound v bound) := by
  have hknown := h.known v
  rw [UInt64.le_iff_toNat_le] at hknown
  refine { h with known := fun v' => ?_, passed := fun v' hpos => ?_ }
  · by_cases hne : v' = v
    · subst hne
      simp only [MemoryLength.recordKnownSafeBound, toNat_raise, UInt64.le_iff_toNat_le]
      omega
    · simpa [MemoryLength.recordKnownSafeBound, raise_of_ne hne] using h.known v'
  · by_cases hne : v' = v
    · subst hne
      by_cases hzero : 0 < s.passed v'
      · have hpassed := h.passed v' hzero
        simp only [MemoryLength.recordKnownSafeBound, toNat_raise]
        omega
      · rw [UInt64.lt_iff_toNat_lt, UInt64.toNat_zero] at hzero
        simp only [MemoryLength.recordKnownSafeBound, toNat_raise]
        omega
    · simp only [MemoryLength.recordKnownSafeBound, raise_of_ne hne] at hpos ⊢
      exact h.passed v' hpos

theorem Inv.access {baseAddr : Nat} {constOffset size : UInt32}
    (hpasses : (c.memOpSetup s baseAddr constOffset size).1 = true) :
    c.Inv (c.memOpSetup s baseAddr constOffset size).2 := by
  have hin := (h.memOpSetup baseAddr constOffset size).1 hpasses
  rw [add_assoc, ← toNat_ceil] at hin
  unfold MemoryCompiler.memOpSetup
  dsimp only
  split
  next => exact h
  split
  next => exact h.recordKnownSafeBound hin
  unfold MemoryCompiler.getMemoryLenValue
  split
  next => exact h.recordKnownSafeBound hin
  next => exact h.load.recordKnownSafeBound hin

theorem Inv.define (v : Nat) (a : Address) : c.Inv (s.define v a) := by
  refine { h with known := fun v' => ?_, passed := fun v' hpos => ?_ }
  · by_cases hne : v' = v
    · subst hne
      simp [MemoryLength.define]
    · simpa [MemoryLength.define, hne] using h.known v'
  · by_cases hne : v' = v
    · subst hne
      simp [MemoryLength.define] at hpos
    · simp only [MemoryLength.define, Function.update_of_ne hne] at hpos ⊢
      exact h.passed v' hpos

/-- A memory that has grown, with no length in the variable or the new one. -/
theorem Inv.memoryGrown {mem : AllocatedMemory} (hmem : Reaches s.mem mem) {len : Option UInt64}
    (hlen : c.memoryShared = false → ∀ v ∈ len, v = c.loadMemoryLen (s.memoryGrown mem)) :
    c.Inv { s.memoryGrown mem with memoryLenVariable := len } where
  sound := hmem.sound h.sound
  word := rfl
  cached := hlen
  min := le_trans h.min (hmem.len_le h.sound)
  known := h.known
  passed v hpos := le_trans (h.passed v hpos) (hmem.len_le h.sound)

theorem Inv.reload {mem : AllocatedMemory} (hmem : Reaches s.mem mem) :
    c.Inv (c.reloadMemoryBaseLen (s.memoryGrown mem)) :=
  h.memoryGrown hmem fun _ _ hv => (Option.some.inj hv).symm

theorem Inv.step {s' : MemoryLength} (hstep : c.Step s s') : c.Inv s' := by
  have hshared {mem : AllocatedMemory} (hmem : Reaches s.mem mem) (hs : c.memoryShared = true) :
      c.Inv (s.memoryGrown mem) :=
    h.memoryGrown hmem fun hnot => Bool.noConfusion (hnot.symm.trans hs)
  cases hstep with
  | define v a => exact h.define v a
  | access hpasses => exact h.access hpasses
  | memoryGrow hr hgrow => exact h.reload (.grow .start hr hgrow)
  | call hmem =>
    unfold reloadAfterCall
    split
    next hs => exact hshared hmem hs
    next => exact h.reload hmem
  | concurrently hs hmem => exact hshared hmem hs
  | block hlen hbounds =>
    refine { h with known := hbounds, cached := fun hs v hv => ?_ }
    rcases hlen with rfl | rfl
    · cases hv
    · exact h.cached hs v hv

theorem Inv.run {s' : MemoryLength} (hrun : Relation.ReflTransGen c.Step s s') : c.Inv s' := by
  induction hrun with
  | refl => exact h
  | tail _ hstep ih => exact ih.step hstep

theorem Inv.agrees_iff : c.Agrees s ↔ s.mem.pages.toNat < 65536 := by
  obtain ⟨hlen, hpages⟩ := h.len
  have hsize := h.memorySize
  constructor
  · rintro ⟨hagree, -⟩
    rw [hagree] at hsize
    omega
  · intro hlt
    have hload := h.loadMemoryLen
    rw [Nat.mod_eq_of_lt (by omega), ite_self] at hload
    refine ⟨UInt32.toNat_inj.1 (by omega), fun baseAddr constOffset size => ?_⟩
    obtain ⟨hin, hpasses⟩ := h.memOpSetup baseAddr constOffset size
    exact ⟨hin, fun hle => hpasses (hload ▸ hle)⟩

end

end MemoryCompiler

open MemoryCompiler

/-- At every point of every run, the code for `memory.size` and the accesses are right exactly if
the memory has less than the largest number of pages. -/
theorem memoryLength_agrees_iff {memSec : Memory} {limit : Nat} (hlimit : limit ≤ memoryLimitPages)
    (hvalid : memSec.validate limit = .ok ()) {allocator : Option MemoryAllocator}
    (halloc : ∀ allocate ∈ allocator, Allocates memSec allocate) :
    ∃ mem₀, newMemoryInstance memSec allocator = .ok mem₀ ∧
      ∀ (mem : AllocatedMemory) (c : MemoryCompiler) (s : MemoryLength), Reaches mem₀ mem →
        c.Links memSec mem → Relation.ReflTransGen c.Step (start mem) s →
          (c.Agrees s ↔ s.mem.pages.toNat < 65536) := by
  obtain ⟨mem₀, hnew, hsound, hpages, -⟩ := newMemoryInstance_sound hlimit hvalid halloc
  refine ⟨mem₀, hnew, fun mem c s hreaches hlinks hrun => ?_⟩
  exact ((inv_start (hreaches.sound hsound) (hlinks.min_le hreaches hsound hpages)).run
    hrun).agrees_iff

/-- An access at the constant address 8 to a memory of one page. -/
theorem memoryLength_agrees_iff_onePage :
    ∃ mem s, newMemoryInstance ⟨1, 1, 2, true, false⟩ none = .ok mem ∧
      Relation.ReflTransGen (Step ⟨false, false, 65536⟩) (start mem) s ∧ s.knownSafeBounds 0 = 12 ∧
      Agrees ⟨false, false, 65536⟩ s := by
  obtain ⟨mem, hnew, hagrees⟩ := @memoryLength_agrees_iff ⟨1, 1, 2, true, false⟩ memoryLimitPages
    (le_refl _) rfl none nofun
  obtain ⟨mem', hnew', -, hpages, -⟩ := @newMemoryInstance_sound
    ⟨1, 1, 2, true, false⟩ memoryLimitPages
    (le_refl _) rfl none nofun
  cases hnew.symm.trans hnew'
  have hrun : Relation.ReflTransGen (Step ⟨false, false, 65536⟩) (start mem)
      (memOpSetup ⟨false, false, 65536⟩ ((start mem).define 0 ⟨8, true⟩) 0 4 8).2 :=
    (Relation.ReflTransGen.single (Step.define 0 ⟨8, true⟩)).tail (Step.access rfl)
  refine ⟨mem, _, hnew, hrun, rfl, (hagrees mem ⟨false, false, 65536⟩ _ .start rfl hrun).2 ?_⟩
  exact lt_of_le_of_lt (le_of_eq hpages) (by decide)

/-- With 4 GiB, `memory.size` gives 0, and an access to a memory of the module itself at an address
that is not constant does not pass. -/
theorem fourGiB_not_agrees :
    ∃ mem, newMemoryInstance ⟨65536, 65536, 65536, true, false⟩ none = .ok mem ∧
      mem.pages.toNat = 65536 ∧
      (∀ c : MemoryCompiler, c.Links ⟨65536, 65536, 65536, true, false⟩ mem →
        (c.memorySize (start mem)).toNat = 0) ∧
      ∀ (baseAddr constOffset size : UInt32), 0 < size.toNat →
        (memOpSetup ⟨false, false, 4294967296⟩ ((start mem).define 0 ⟨baseAddr, false⟩)
          0 constOffset size).1 ≠ true := by
  obtain ⟨mem, hnew, hsound, hpages, -⟩ := @newMemoryInstance_sound
    ⟨65536, 65536, 65536, true, false⟩
    memoryLimitPages (le_refl _) rfl none nofun
  have hlen : mem.buffer.len % 2 ^ 32 = 0 := by
    rw [hsound.len, hpages]
    rfl
  refine ⟨mem, hnew, hpages, fun c hlinks => ?_, fun baseAddr constOffset size hsize hpasses => ?_⟩
  · have hinv := inv_start hsound (hlinks.min_le .start hsound hpages)
    rw [hinv.memorySize]
    exact congrArg (· / 65536) hlen
  · have hlinks : Links ⟨false, false, 4294967296⟩ ⟨65536, 65536, 65536, true, false⟩ mem := rfl
    have hinv := (inv_start hsound (hlinks.min_le .start hsound hpages)).define 0 ⟨baseAddr, false⟩
    rw [hinv.checked (fun hknown => UInt64.lt_irrefl _ hknown.1)
      (fun hconst => Bool.noConfusion hconst.1),
      hinv.loadMemoryLen, if_neg (by decide)] at hpasses
    have hzero : ((start mem).define 0 ⟨baseAddr, false⟩).mem.buffer.len % 2 ^ 32 = 0 := hlen
    omega

end Andsifr.Wazevo
