import Andsifr.Lib.SliceWrites

namespace Andsifr.Amd64

open Lib Slice List

def sub64 (a b : Nat) : Nat :=
  (a + 2 ^ 64 - b) % 2 ^ 64

def int64 (v : Nat) : Int :=
  if v < 2 ^ 63 then v else v - 2 ^ 64

def maxFrames : Nat := 30

/-- `binary.LittleEndian.Uint64(s[i:])`. -/
def uint64At (s : Slice UInt8) (i : Nat) : Check Nat := do
  let t ← s.sliceFrom i
  t.leUint 8

/-- The loop over the frames, of which the first is at `i` in the view of the stack from `rbp`
on. -/
def unwindFrom (rbp : Nat) (stackBuf : Slice UInt8) :
    (fuel i : Nat) → (returnAddresses : List Nat) →
    Check (List Nat)
  | 0, _, _ => Check.outOfFuel
  | fuel + 1, i, returnAddresses =>
    if i < stackBuf.len then do
      let callerRBP ← uint64At stackBuf i
      let retAddr ← uint64At stackBuf (i + 8)
      if (returnAddresses ++ [retAddr]).length = maxFrames then return returnAddresses ++ [retAddr]
      else unwindFrom rbp stackBuf fuel (sub64 callerRBP rbp) (returnAddresses ++ [retAddr])
    else return returnAddresses

/-- Every round goes up the stack, so its length bounds the rounds. -/
def unwindStack (rbp : Nat) (stackBuf : Slice UInt8) (returnAddresses : List Nat) :
    Check (List Nat) :=
  unwindFrom rbp stackBuf (stackBuf.len + 1) 0 returnAddresses

def adjustFrom (oldRsp oldTop diff rbp : Nat) :
    (fuel i : Nat) → (newBuf : Slice UInt8) → Check (Slice UInt8)
  | 0, _, _ => Check.outOfFuel
  | fuel + 1, i, newBuf =>
    if i < newBuf.len then do
      let callerRBP ← uint64At newBuf i
      if callerRBP = 0 then return newBuf
      else if int64 callerRBP < int64 oldRsp ∨ int64 oldTop ≤ int64 callerRBP then
        Check.raise "BUG: callerRBP is out of range"
      else if int64 callerRBP < 0 then Check.raise "BUG: callerRBP is negative"
      else
        let adjustedCallerRBP := (callerRBP + diff) % 2 ^ 64
        if int64 adjustedCallerRBP < 0 then Check.raise "BUG: adjustedCallerRBP is negative"
        else do
          let newBuf ← newBuf.putAt i (leBytes 8 adjustedCallerRBP)
          adjustFrom oldRsp oldTop diff rbp fuel (sub64 adjustedCallerRBP rbp) newBuf
    else return newBuf

def adjustClonedStack (oldRsp oldTop rsp rbp : Nat) (newBuf : Slice UInt8) : Check (Slice UInt8) :=
  adjustFrom oldRsp oldTop (sub64 rsp oldRsp) rbp (newBuf.len + 1) 0 newBuf

/-- A stack with the bytes from the stack pointer to its top. -/
structure MachineStack where
  sp : Nat
  fp : Nat
  bytes : List UInt8

namespace MachineStack

def top (s : MachineStack) : Nat :=
  s.sp + s.bytes.length

/-- The view from the frame pointer to the top. -/
def stackView (s : MachineStack) : Slice UInt8 :=
  ofList (s.bytes.drop (s.fp - s.sp))

/-- The last byte of `newStack` is at the address `last`. -/
def alignedStackTop (last : Nat) : Nat :=
  last - last % 16

/-- The copy at the top of a new stack of `l` bytes at `newStack`. -/
def cloneStack (s : MachineStack) (newStack l : Nat) : MachineStack where
  sp := alignedStackTop (newStack + l - 1) - (s.top - s.sp)
  fp := alignedStackTop (newStack + l - 1) - (s.top - s.fp)
  bytes := s.bytes

end MachineStack

def wordAt (s : Slice UInt8) (i : Nat) : Nat :=
  leNat (s.extract i 8)

/-- The frames from the one at `i` on, each with its place in the view and its return address. Each
frame has room for the two words, and the last has no caller. -/
inductive Frames (rbp : Nat) (s : Slice UInt8) : Nat → List (Nat × Nat) → Prop where
  | last {i : Nat} (hin : i + 16 ≤ s.len) (hcaller : wordAt s i = 0) :
    Frames rbp s i [(i, wordAt s (i + 8))]
  | next {i j : Nat} {frames : List (Nat × Nat)} (hle : i + 16 ≤ j) (hcaller : wordAt s i = rbp + j)
      (hrest : Frames rbp s j frames) : Frames rbp s i ((i, wordAt s (i + 8)) :: frames)

/-- The trace goes on to the end of the stack if it is longer than `maxFrames` from the start. -/
def trace (returnAddresses : List Nat) (frames : List (Nat × Nat)) : List Nat :=
  if returnAddresses.length < maxFrames then
    (returnAddresses ++ frames.map Prod.snd).take maxFrames
  else returnAddresses ++ frames.map Prod.snd

variable {rbp : Nat} {s t : Slice UInt8} {i : Nat} {frames : List (Nat × Nat)}

theorem uint64At_eq_ok (h : i + 8 ≤ s.len) : uint64At s i = .ok (wordAt s i) := by
  obtain ⟨t, ht, hbytes, hlen⟩ := sliceFrom_eq_ok (Nat.le_trans (Nat.le_add_right i 8) h)
  rw [uint64At, ht, Check.bind_ok, leUint_eq_ok (by decide) (by omega), hbytes,
    extract_extract s (by omega), wordAt]

theorem Frames.inside (h : Frames rbp s i frames) : i + 16 * frames.length ≤ s.len := by
  induction h with
  | last hin => simpa using hin
  | next hle _ _ ih =>
    rw [length_cons]
    omega

theorem Frames.congr (h : Frames rbp s i frames) (hlen : t.len = s.len)
    (hwords : ∀ k, i ≤ k → k + 8 ≤ s.len → wordAt t k = wordAt s k) : Frames rbp t i frames := by
  induction h with
  | last hin hcaller =>
    rw [← hwords _ (by omega) (by omega)] at hcaller
    rw [← hwords _ (by omega) (by omega)]
    exact .last (by omega) hcaller
  | next hle hcaller hrest ih =>
    have hinside := hrest.inside
    rw [← hwords _ (by omega) (by omega)] at hcaller
    rw [← hwords _ (by omega) (by omega)]
    exact .next hle hcaller (ih fun k hk => hwords k (by omega))

theorem unwindFrom_succ (hin : i + 16 ≤ s.len) (fuel : Nat) (returnAddresses : List Nat) :
    unwindFrom rbp s (fuel + 1) i returnAddresses =
      if (returnAddresses ++ [wordAt s (i + 8)]).length = maxFrames then
        .ok (returnAddresses ++ [wordAt s (i + 8)])
      else unwindFrom rbp s fuel (sub64 (wordAt s i) rbp)
      (returnAddresses ++ [wordAt s (i + 8)]) := by
  rw [unwindFrom, if_pos (by omega), uint64At_eq_ok (by omega), uint64At_eq_ok (by omega)]
  rfl

theorem trace_snoc {returnAddresses : List Nat} {frame : Nat × Nat}
    (hroom : (returnAddresses ++ [frame.2]).length ≠ maxFrames) :
    trace (returnAddresses ++ [frame.2]) frames = trace returnAddresses (frame :: frames) := by
  rw [length_append, length_singleton] at hroom
  simp only [trace, map_cons, append_assoc, singleton_append, length_append, length_singleton]
  by_cases h : returnAddresses.length < maxFrames
  · rw [if_pos h, if_pos (by omega)]
  · rw [if_neg h, if_neg (by omega)]

theorem trace_full {returnAddresses : List Nat} {frame : Nat × Nat}
    (hfull : (returnAddresses ++ [frame.2]).length = maxFrames) :
    trace returnAddresses (frame :: frames) = returnAddresses ++ [frame.2] := by
  have hlt : returnAddresses.length < maxFrames := by
    rw [length_append, length_singleton] at hfull
    omega
  rw [trace, if_pos hlt, map_cons, append_cons, ← hfull, take_left]

theorem Frames.unwindFrom_eq (h : Frames rbp s i frames) (hrbp : 0 < rbp)
    (htop : rbp + s.len < 2 ^ 63) {fuel : Nat} (hfuel : frames.length < fuel)
    (returnAddresses : List Nat) :
    unwindFrom rbp s fuel i returnAddresses = .ok (trace returnAddresses frames) := by
  induction h generalizing fuel returnAddresses with
  | @last i hin hcaller =>
    obtain ⟨fuel, rfl⟩ : ∃ n, fuel = n + 2 := ⟨fuel - 2, by simp at hfuel; omega⟩
    have hend : ¬ sub64 0 rbp < s.len := by
      rw [sub64]
      omega
    rw [unwindFrom_succ hin, hcaller, unwindFrom, if_neg hend]
    split
    next hfull => rw [trace_full hfull]
    next hroom =>
      rw [← @trace_snoc [] _ (i, wordAt s (i + 8)) hroom, trace, map_nil, append_nil]
      split
      next hlt => rw [take_of_length_le (le_of_lt hlt)]; rfl
      next => rfl
  | @next i j frames hle hcaller hrest ih =>
    obtain ⟨fuel, rfl⟩ : ∃ n, fuel = n + 1 := ⟨fuel - 1, by omega⟩
    have hinside := hrest.inside
    have hj : sub64 (rbp + j) rbp = j := by
      rw [sub64]
      omega
    rw [unwindFrom_succ (by omega), hcaller, hj]
    split
    next hfull => rw [trace_full hfull]
    next hroom => rw [ih (by simpa using hfuel), ← trace_snoc hroom]

theorem wordAt_overwrite_same {v : Nat} (hin : i + 8 ≤ s.len) (hv : v < 2 ^ 64) :
    wordAt (s.overwrite i (leBytes 8 v)) i = v := by
  have hsame := @extract_overwrite_same _ s i (leBytes 8 v) (by simpa using hin)
  rw [length_leBytes] at hsame
  rw [wordAt, hsame, leNat_leBytes, Nat.mod_eq_of_lt (Nat.lt_of_lt_of_le hv (by decide))]

theorem wordAt_overwrite_apart {v k : Nat} (hin : i + 8 ≤ s.len) (hapart : k + 8 ≤ i ∨ i + 8 ≤ k) :
    wordAt (s.overwrite i (leBytes 8 v)) k = wordAt s k := by
  rw [wordAt, extract_overwrite_apart (by simpa using hin) (by simpa using hapart), wordAt]

theorem int64_of_lt {v : Nat} (h : v < 2 ^ 63) : int64 v = v :=
  if_pos h

section Adjust

variable {oldRsp d : Nat}

theorem Frames.adjustFrom_eq (h : Frames (oldRsp + d) s i frames) (rsp fuel : Nat)
    (hold : oldRsp + d + s.len < 2 ^ 63) (hnew : rsp + d + s.len < 2 ^ 63)
    (hfuel : frames.length ≤ fuel) :
    ∃ t, adjustFrom oldRsp (oldRsp + d + s.len) (sub64 rsp oldRsp)
    (rsp + d) fuel i s = .ok t ∧ t.len = s.len ∧
      (∀ k, k + 8 ≤ i → wordAt t k = wordAt s k) ∧ Frames (rsp + d) t i frames := by
  induction frames generalizing s i fuel with
  | nil => cases h
  | cons frame frames ih =>
    obtain ⟨fuel, rfl⟩ : ∃ n, fuel = n + 1 := ⟨fuel - 1, by simp at hfuel; omega⟩
    rw [adjustFrom]
    cases h with
    | last hin hcaller =>
      refine ⟨s, ?_, rfl, fun _ _ => rfl, .last hin hcaller⟩
      rw [if_pos (by omega), uint64At_eq_ok (by omega), hcaller]
      rfl
    | @next _ j _ hle hcaller hrest =>
      have hinside := hrest.inside
      have hpos : 0 < frames.length := by
        cases hrest <;> simp
      have hadjusted : (oldRsp + d + j + sub64 rsp oldRsp) % 2 ^ 64 = rsp + d + j := by
        rw [sub64]
        omega
      have hj : sub64 (rsp + d + j) (rsp + d) = j := by
        rw [sub64]
        omega
      have hrest' : Frames (oldRsp + d) (s.overwrite i (leBytes 8 (rsp + d + j))) j frames :=
        hrest.congr rfl fun k hk _ => wordAt_overwrite_apart (by omega) (.inr (by omega))
      obtain ⟨t, ht, hlen, hwords, hframes⟩ := ih hrest' fuel hold hnew (by simpa using hfuel)
      refine ⟨t, ?_, hlen, fun k hk => ?_, ?_⟩
      · have hcaller64 := int64_of_lt (v := oldRsp + d + j) (by omega)
        have hsp64 := int64_of_lt (v := oldRsp) (by omega)
        have hadjusted64 := int64_of_lt (v := rsp + d + j) (by omega)
        rw [if_pos (by omega), uint64At_eq_ok (by omega), hcaller, Check.bind_ok]
        simp only [hadjusted, hcaller64, hsp64, int64_of_lt hold, hadjusted64, hj]
        rw [if_neg (by omega), if_neg (by omega), if_neg (by omega), if_neg (by omega),
          putAt_eq_ok (by simp) (by rw [length_leBytes]; omega), Check.bind_ok]
        exact ht
      · rw [hwords k (by omega), wordAt_overwrite_apart (by omega) (.inl hk)]
      · have hcaller' : wordAt t i = rsp + d + j := by
          rw [hwords i (by omega), wordAt_overwrite_same (by omega) (by omega)]
        have hret : wordAt t (i + 8) = wordAt s (i + 8) := by
          rw [hwords (i + 8) (by omega), wordAt_overwrite_apart (by omega) (.inr (by omega))]
        rw [← hret]
        exact .next hle hcaller' hframes

end Adjust

namespace MachineStack

/-- A stack in the user's part of the address space, with the given frames. -/
structure WellFormed (s : MachineStack) (frames : List (Nat × Nat)) : Prop where
  sp_pos : 0 < s.sp
  sp_le : s.sp ≤ s.fp
  top_lt : s.top < 2 ^ 63
  frames : Frames s.fp s.stackView 0 frames

variable {s : MachineStack} {newStack l : Nat}

theorem cloneStack_inside (newStack : Nat) (hfp : s.sp ≤ s.fp) (hle : s.fp ≤ s.top)
    (hl : s.bytes.length + 16 ≤ l) :
    newStack ≤ (s.cloneStack newStack l).sp ∧ (s.cloneStack newStack l).top < newStack + l ∧
      (s.cloneStack newStack l).fp = (s.cloneStack newStack l).sp + (s.fp - s.sp) := by
  simp only [cloneStack, alignedStackTop, top] at *
  omega

/-- The adjusted copy has the same frames at the same places, and unwinding it adds the same return
addresses to a trace as unwinding the original. -/
theorem adjustClonedStack_unwinds (h : s.WellFormed frames) (hnew : 0 < newStack)
    (hl : s.bytes.length + 16 ≤ l) (htop : newStack + l ≤ 2 ^ 63) :
    newStack ≤ (s.cloneStack newStack l).sp ∧ (s.cloneStack newStack l).top < newStack + l ∧
      (s.cloneStack newStack l).fp = (s.cloneStack newStack l).sp + (s.fp - s.sp) ∧
      ∃ view, adjustClonedStack s.sp s.top (s.cloneStack newStack l).sp
          (s.cloneStack newStack l).fp (s.cloneStack newStack l).stackView = .ok view ∧
        Frames (s.cloneStack newStack l).fp view 0 frames ∧
        ∀ returnAddresses,
          unwindStack s.fp s.stackView returnAddresses = .ok (trace returnAddresses frames) ∧
          unwindStack (s.cloneStack newStack l).fp view returnAddresses =
            .ok (trace returnAddresses frames) := by
  obtain ⟨hpos, hfp, hstack, hframes⟩ := h
  have hinside := hframes.inside
  have hlen : s.stackView.len = s.bytes.length - (s.fp - s.sp) := length_drop
  have hne : 0 < frames.length := by
    cases hframes <;> simp
  have hle : s.fp + s.stackView.len = s.top := by
    rw [top]
    omega
  obtain ⟨hsp, hclone, hoffset⟩ := cloneStack_inside newStack hfp (by omega) hl
  have hview : (s.cloneStack newStack l).stackView = s.stackView := by
    rw [stackView, hoffset, Nat.add_sub_cancel_left]
    rfl
  have hnewTop : (s.cloneStack newStack l).top = (s.cloneStack newStack l).fp +
    s.stackView.len := by
    change _ + s.bytes.length = _
    omega
  obtain ⟨d, hd⟩ := Nat.exists_eq_add_of_le hfp
  rw [hd, Nat.add_sub_cancel_left] at hoffset
  rw [hd] at hframes hle
  refine ⟨hsp, hclone, by rw [hoffset, hd, Nat.add_sub_cancel_left], ?_⟩
  obtain ⟨view, hadjust, hviewLen, -, hframes'⟩ :=
    hframes.adjustFrom_eq (s.cloneStack newStack l).sp (s.stackView.len + 1) (by omega) (by omega)
      (by omega)
  rw [← hoffset] at hframes' hadjust
  refine ⟨view, by rw [hview, ← hle]; exact hadjust, hframes', fun returnAddresses => ⟨?_, ?_⟩⟩
  · rw [unwindStack, hd, hframes.unwindFrom_eq (by omega) (by omega) (by omega)]
  · rw [unwindStack, hframes'.unwindFrom_eq (by omega) (by omega) (by omega)]

/-- Two words below the frame pointer, and three frames with two words between them. -/
def threeFrames : MachineStack :=
  ⟨4096, 4112, [0, 0, 4144, 0x11, 0, 0, 4176, 0x22, 0, 0, 0, 0x33].flatMap (leBytes 8)⟩

theorem adjustClonedStack_unwinds_threeFrames :
    threeFrames.WellFormed [(0, 0x11), (32, 0x22), (64, 0x33)] ∧
    ∃ view, adjustClonedStack threeFrames.sp threeFrames.top (threeFrames.cloneStack 8192 200).sp
        (threeFrames.cloneStack 8192 200).fp
        (threeFrames.cloneStack 8192 200).stackView = .ok view ∧
      unwindStack threeFrames.fp threeFrames.stackView [7] = .ok [7, 0x11, 0x22, 0x33] ∧
      unwindStack (threeFrames.cloneStack 8192 200).fp view [7] = .ok [7, 0x11, 0x22, 0x33] := by
  have h : threeFrames.WellFormed [(0, 0x11), (32, 0x22), (64, 0x33)] :=
    ⟨by decide, by decide, by decide, .next (by decide) (by decide)
      (.next (by decide) (by decide) (.last (by decide) (by decide)))⟩
  obtain ⟨-, -, -, view, hview, -, hunwind⟩ :=
    adjustClonedStack_unwinds h (by decide : 0 < 8192) (by decide : _ ≤ 200) (by decide)
  exact ⟨h, view, hview, hunwind [7]⟩

end MachineStack

end Andsifr.Amd64
