import Andsifr.Arm64.Instruction

namespace Andsifr.Arm64

open List BitVec Bool

/-! ## The lowering -/

/-- The place of the 16 bits of the value that are not zero, if there is one. -/
def const16bitAligned (v : BitVec 64) : Option Nat :=
  (range 4).find? fun t => v &&& ~~~wideMask t = 0

variable (c : BitVec 64)

/-- The entry `bits[i]` of `load64bitConst`. -/
def constBits (i : Nat) : BitVec 64 :=
  c >>> (i * 16) &&& 0xffff

/-- The loops of `load64bitConst` with several instructions: the first part that is not `skip` is
moved to the register, the others are inserted into it. -/
def moveLoop (skip : BitVec 64) (move : BitVec 64 → Nat → Instr) (c : BitVec 64) (dst : VReg) :
    Bool → List Nat → List Instr
  | _, [] => []
  | moved, i :: is =>
    if ¬moved ∧ constBits c i ≠ skip then
      move (constBits c i) i :: moveLoop skip move c dst true is
    else if constBits c i ≠ skip then
      .movK dst (constBits c i) i true :: moveLoop skip move c dst moved is
    else moveLoop skip move c dst moved is

/-- The loops of `load64bitConst` for a single instruction. -/
def moveSingle (skip : BitVec 64) (move : BitVec 64 → Nat → Instr) (c : BitVec 64) :
    List Nat → List Instr
  | [] => []
  | i :: is =>
    if constBits c i ≠ skip then move (constBits c i) i :: moveSingle skip move c is
    else moveSingle skip move c is

def load64bitConst (dst : VReg) : List Instr :=
  let zeros := (range 4).countP fun i => constBits c i = 0
  let negs := (range 4).countP fun i => constBits c i = 0xffff
  let movz := fun v i => Instr.movZ dst v i true
  let movn := fun v i => Instr.movN dst (~~~v) i true
  if zeros = 3 then moveSingle 0 movz c (range 4)
  else if negs = 3 then moveSingle 0xffff movn c (range 4)
  else if zeros = 2 then moveLoop 0 movz c dst false (range 4)
  else if negs = 2 then moveLoop 0xffff movn c dst false (range 4)
  else if zeros = 1 then moveLoop 0 movz c dst false (range 4)
  else if negs = 1 then moveLoop 0xffff movn c dst false (range 4)
  else moveLoop 0 movz c dst false (range 4)

def lowerConstViaBitMaskImmediate (dst : VReg) (b64 : Bool) : List Instr :=
  [.orrBitmaskImm dst c b64]

/-- Whether an immediate of an addition or subtraction holds the value, which is when the bitmask
form is tried first. -/
def fitsImm12 : Prop :=
  0 ≤ c.toInt ∧ (c.toInt ≤ 0xfff ∨ (c &&& 0xfff = 0 ∧ c.sshiftRight 12 ≤ 0xfff))

instance : DecidablePred fitsImm12 := fun c =>
  inferInstanceAs (Decidable (0 ≤ c.toInt ∧ (c.toInt ≤ 0xfff ∨
    (c &&& 0xfff = 0 ∧ c.sshiftRight 12 ≤ 0xfff))))

variable (dst : VReg)

def lowerConstantI32 (c : BitVec 32) : List Instr :=
  let ic := c.setWidth 64
  if fitsImm12 ic ∧ isBitMaskImmediate (c.signExtend 64) false then
    lowerConstViaBitMaskImmediate ic dst false
  else if let some t := const16bitAligned ic then
    [.movZ dst ((c >>> (16 * t)).setWidth 64) t false]
  else if let some t := const16bitAligned ((~~~c).signExtend 64) then
    [.movN dst (((~~~c).sshiftRight (16 * t)).signExtend 64) t false]
  else if isBitMaskImmediate ic false then
    lowerConstViaBitMaskImmediate (c.signExtend 64) dst false
  else
    [.movZ dst ((c.setWidth 16).setWidth 64) 0 false,
      .movK dst (((c >>> 16).setWidth 16).setWidth 64) 1 false]

def lowerConstantI64 (c : BitVec 64) : List Instr :=
  if fitsImm12 c ∧ isBitMaskImmediate c true then
    lowerConstViaBitMaskImmediate c dst true
  else if let some t := const16bitAligned c then
    [.movZ dst (c >>> (16 * t)) t true]
  else if let some t := const16bitAligned (~~~c) then
    [.movN dst (~~~c >>> (16 * t)) t true]
  else if isBitMaskImmediate c true then
    lowerConstViaBitMaskImmediate c dst true
  else load64bitConst c dst

/-! ## The four parts of a register -/

/-- The bits from `16 * i` on. -/
def part (v : BitVec 64) (i : Nat) : BitVec 16 :=
  (v >>> (16 * i)).setWidth 16

theorem getLsbD_part (v : BitVec 64) (i : Nat) {j : Nat} (hj : j < 16) :
    (part v i).getLsbD j = v.getLsbD (16 * i + j) := by
  rw [part, getLsbD_setWidth, getLsbD_ushiftRight, decide_eq_true hj, Bool.true_and]

variable {v : BitVec 64}

theorem eq_of_part {w : BitVec 64} (h : ∀ i < 4, part v i = part w i) : v = w := by
  apply eq_of_getLsbD_eq
  intro i hi
  have hj : i % 16 < 16 := Nat.mod_lt i (by omega)
  have hpart := congrArg (fun p => p.getLsbD (i % 16)) (h (i / 16) (by omega))
  simp only [getLsbD_part _ _ hj] at hpart
  rwa [Nat.div_add_mod] at hpart

variable {i : Nat}

theorem part_not (v : BitVec 64) (hi : i < 4) : part (~~~v) i = ~~~part v i := by
  apply eq_of_getLsbD_eq
  intro j hj
  rw [getLsbD_part _ _ hj, getLsbD_not, getLsbD_not, getLsbD_part _ _ hj,
    decide_eq_true hj, decide_eq_true (show 16 * i + j < 64 by omega)]

theorem getLsbD_ffff (j : Nat) : (0xffff : BitVec 64).getLsbD j = decide (j < 16) := by
  have : (0xffff : BitVec 64) = BitVec.ofNat 64 (2 ^ 16 - 1) := rfl
  rw [this, getLsbD_ofNat, Nat.testBit_two_pow_sub_one]
  by_cases hj : j < 16
  · simp [hj, show j < 64 by omega]
  · simp [hj]

variable {k : Nat}

theorem part_wideField (imm : BitVec 64) (hi : i < 4) :
    part (wideField imm k) i = if i = k then imm.setWidth 16 else 0 := by
  apply eq_of_getLsbD_eq
  intro j hj
  rw [getLsbD_part _ _ hj, wideField, getLsbD_shiftLeft, getLsbD_and, getLsbD_ffff,
    decide_eq_true (show 16 * i + j < 64 by omega), Bool.true_and]
  rcases Nat.lt_trichotomy i k with hlt | rfl | hgt
  · rw [if_neg (by omega), decide_eq_true (show 16 * i + j < 16 * k by omega)]
    simp
  · rw [if_pos rfl, Nat.add_sub_cancel_left, getLsbD_setWidth, decide_eq_true hj,
      decide_eq_false (show ¬16 * i + j < 16 * i by omega)]
    simp
  · rw [if_neg (by omega), decide_eq_false (show ¬16 * i + j - 16 * k < 16 by omega)]
    simp

theorem part_wideMask (hi : i < 4) : part (wideMask k) i = if i = k then allOnes 16 else 0 :=
  part_wideField 0xffff hi

theorem part_and (v w : BitVec 64) (i : Nat) : part (v &&& w) i = part v i &&& part w i := by
  rw [part, ushiftRight_and_distrib, setWidth_and, part, part]

theorem part_or (v w : BitVec 64) (i : Nat) : part (v ||| w) i = part v i ||| part w i := by
  rw [part, ushiftRight_or_distrib, setWidth_or, part, part]

theorem part_zero (i : Nat) : part 0 i = 0 := by
  simp [part]

theorem part_insert (v imm : BitVec 64) (hi : i < 4) :
    part (v &&& ~~~wideMask k ||| wideField imm k) i =
      if i = k then imm.setWidth 16 else part v i := by
  rw [part_or, part_and, part_not _ hi, part_wideMask hi, part_wideField _ hi]
  by_cases hk : i = k
  · rw [if_pos hk, if_pos hk, if_pos hk, not_allOnes, and_zero, zero_or]
  · rw [if_neg hk, if_neg hk, if_neg hk, ofNat_eq_ofNat, not_zero, and_allOnes, or_zero]

theorem constBits_eq (i : Nat) : constBits c i = (part c i).setWidth 64 := by
  apply eq_of_getLsbD_eq
  intro j hj
  rw [constBits, getLsbD_and, getLsbD_ffff, getLsbD_ushiftRight,
    getLsbD_setWidth, decide_eq_true hj, Bool.true_and, mul_comm]
  by_cases hlt : j < 16
  · rw [getLsbD_part _ _ hlt, decide_eq_true hlt, Bool.and_true]
  · rw [decide_eq_false hlt, Bool.and_false, getLsbD_of_ge (part c i) _ (by omega)]

/-! ## Wide moves -/

variable {c : BitVec 64}

theorem constBits_eq_iff {b : BitVec 16} : constBits c i = b.setWidth 64 ↔ part c i = b := by
  rw [constBits_eq]
  constructor
  · intro h
    have := congrArg (setWidth 16) h
    simpa using this
  · intro h
    rw [h]

theorem setWidth_constBits (i : Nat) : (constBits c i).setWidth 16 = part c i := by
  rw [constBits_eq]
  simp

section

variable {b : BitVec 16} {move : BitVec 64 → Nat → Instr} {c : BitVec 64} {dst : VReg}

/-- Before the first part is moved the register counts as the background, which the parts still to
come hold afterwards. -/
theorem run_moveLoop (hmove : ∀ i < 4, ∀ s : Regs, ∃ w, (move (constBits c i) i).step s =
      some (s.set dst w) ∧ ∀ j < 4, part w j = if j = i then part c i else b)
    (todo : List Nat) (moved : Bool) (s : Regs) (hnodup : todo.Nodup) (hlt : ∀ i ∈ todo, i < 4)
    (hparts : ∀ i < 4, (if moved then part (s dst) i else b) = if i ∈ todo then b else part c i)
    (hsome : moved = false → ∃ i ∈ todo, part c i ≠ b) :
    run (moveLoop (b.setWidth 64) move c dst moved todo) s = some (s.set dst c) := by
  induction todo generalizing moved s with
  | nil =>
    cases moved with
    | false => simp at hsome
    | true =>
      rw [moveLoop, run_nil, Lib.Emission.Regs.set_eq_self]
      exact eq_of_part fun i hi => by simpa using hparts i hi
  | cons i todo ih =>
    obtain ⟨hnotin, hnodup⟩ := nodup_cons.mp hnodup
    have hi : i < 4 := hlt i (by simp)
    have hlt' : ∀ j ∈ todo, j < 4 := fun j hj => hlt j (by simp [hj])
    by_cases hskip : constBits c i = b.setWidth 64
    · rw [moveLoop, if_neg (by simp [hskip]), if_neg (not_not.mpr hskip)]
      refine ih moved s hnodup hlt' ?_ ?_
      · intro j hj
        rw [hparts j hj]
        by_cases hji : j = i
        · simp [hji, hnotin, constBits_eq_iff.mp hskip]
        · simp [hji]
      · intro hfirst
        obtain ⟨j, hj, hne⟩ := hsome hfirst
        rcases mem_cons.mp hj with rfl | hj
        · exact absurd (constBits_eq_iff.mp hskip) hne
        · exact ⟨j, hj, hne⟩
    · obtain ⟨instr, w, hloop, hstep, hw⟩ : ∃ instr w, moveLoop (b.setWidth 64) move c dst moved
          (i :: todo) = instr :: moveLoop (b.setWidth 64) move c dst true todo ∧
          instr.step s = some (s.set dst w) ∧
          ∀ j < 4, part w j = if j = i then part c i else if moved then part (s dst) j else b := by
        cases moved with
        | false =>
          obtain ⟨w, hstep, hw⟩ := hmove i hi s
          exact ⟨_, w, by rw [moveLoop, if_pos ⟨by simp, hskip⟩], hstep, by simpa using hw⟩
        | true =>
          refine ⟨_, _, by rw [moveLoop, if_neg (by simp), if_pos hskip],
            by simp [Instr.step, guard, hi, narrow]; rfl, ?_⟩
          intro j hj
          rw [part_insert _ _ hj, setWidth_constBits]
          by_cases hji : j = i
          · simp [hji]
          · simp [hji]
      rw [hloop, run_cons, hstep, Option.bind_some, ih true _ hnodup hlt' ?_ (by simp),
        Lib.Emission.Regs.set_set]
      intro j hj
      rw [if_pos rfl, Lib.Emission.Regs.set_same, hw j hj, hparts j hj]
      by_cases hji : j = i
      · simp [hji, hnotin]
      · simp [hji]

theorem run_moveLoop_range (hmove : ∀ i < 4, ∀ s : Regs, ∃ w, (move (constBits c i) i).step s =
      some (s.set dst w) ∧ ∀ j < 4, part w j = if j = i then part c i else b)
    (hsome : ¬∀ i < 4, part c i = b) (s : Regs) :
    run (moveLoop (b.setWidth 64) move c dst false (range 4)) s = some (s.set dst c) := by
  refine run_moveLoop hmove (range 4) false s (by decide) (by simp) ?_ ?_
  · intro i hi
    simp [hi]
  · simpa using hsome

end

/-- With one part to move, the loop that emits a single instruction does what the others do. -/
theorem moveSingle_eq_moveLoop {skip : BitVec 64} {move : BitVec 64 → Nat → Instr} (is : List Nat)
    (h : is.countP (fun i => constBits c i ≠ skip) ≤ 1) :
    moveSingle skip move c is = moveLoop skip move c dst false is := by
  have hnone : ∀ (is : List Nat) (moved : Bool), is.countP (fun i => constBits c i ≠ skip) = 0 →
      moveSingle skip move c is = [] ∧ moveLoop skip move c dst moved is = [] := by
    intro is moved
    induction is with
    | nil => exact fun _ => ⟨rfl, rfl⟩
    | cons i is ih =>
      intro hzero
      have hi : constBits c i = skip := by
        by_contra hne
        simp [hne] at hzero
      rw [countP_cons_of_neg (by simp [hi])] at hzero
      rw [moveSingle, moveLoop, if_neg (not_not.mpr hi), if_neg (by simp [hi]),
        if_neg (not_not.mpr hi)]
      exact ih hzero
  induction is with
  | nil => rfl
  | cons i is ih =>
    by_cases hi : constBits c i = skip
    · rw [countP_cons_of_neg (by simp [hi])] at h
      rw [moveSingle, moveLoop, if_neg (not_not.mpr hi), if_neg (by simp [hi]),
        if_neg (not_not.mpr hi), ih h]
    · rw [countP_cons_of_pos (by simp [hi])] at h
      obtain ⟨hsingle, hloop⟩ := hnone is true (by omega)
      rw [moveSingle, moveLoop, if_pos hi, if_pos ⟨by simp, hi⟩, hsingle, hloop]

theorem movZ_step (c : BitVec 64) (hi : i < 4) (s : Regs) :
    ∃ w, (Instr.movZ dst (constBits c i) i true).step s = some (s.set dst w) ∧
      ∀ j < 4, part w j = if j = i then part c i else 0 := by
  refine ⟨_, by simp [Instr.step, guard, hi]; rfl, ?_⟩
  intro j hj
  rw [part_wideField _ hj, setWidth_constBits]

theorem movN_step (c : BitVec 64) (hi : i < 4) (s : Regs) :
    ∃ w, (Instr.movN dst (~~~constBits c i) i true).step s = some (s.set dst w) ∧
      ∀ j < 4, part w j = if j = i then part c i else allOnes 16 := by
  refine ⟨_, by simp [Instr.step, guard, hi, narrow]; rfl, ?_⟩
  intro j hj
  rw [part_not _ hj, part_wideField _ hj]
  by_cases hji : j = i
  · rw [if_pos hji, if_pos hji, BitVec.setWidth_not (by omega), BitVec.not_not, setWidth_constBits]
  · rw [if_neg hji, if_neg hji, ofNat_eq_ofNat, not_zero]

theorem run_movzLoop (hc : c ≠ 0) (s : Regs) :
    run (moveLoop 0 (fun v i => .movZ dst v i true) c dst false (range 4)) s =
      some (s.set dst c) := by
  refine run_moveLoop_range (b := 0) (fun i hi => movZ_step dst c hi) (fun hnone => hc ?_) s
  apply eq_of_part
  intro i hi
  rw [hnone i hi, part_zero]

theorem run_movnLoop (hc : ((range 4).countP fun i => constBits c i = 0xffff) ≠ 4) (s : Regs) :
    run (moveLoop 0xffff (fun v i => .movN dst (~~~v) i true) c dst false (range 4)) s =
      some (s.set dst c) := by
  refine run_moveLoop_range (b := allOnes 16) (fun i hi => movN_step dst c hi)
    (fun hnone => hc ?_) s
  apply countP_eq_length.mpr
  intro i hi
  exact decide_eq_true (constBits_eq_iff.mpr (hnone i (mem_range.mp hi)))

theorem countP_ne_le_one {skip : BitVec 64}
    (h : ((range 4).countP fun i => constBits c i = skip) = 3) :
    ((range 4).countP fun i => constBits c i ≠ skip) ≤ 1 := by
  have hsum := length_eq_countP_add_countP (fun i => decide (constBits c i = skip)) (l := range 4)
  rw [length_range] at hsum
  simp only [not_eq_true, decide_eq_false_iff_not] at hsum
  simp only [ne_eq]
  omega

theorem run_load64bitConst (hc : c ≠ 0) (s : Regs) :
    run (load64bitConst c dst) s = some (s.set dst c) := by
  simp only [load64bitConst]
  split_ifs with h1 h2 h3 h4 h5 h6
  · rw [moveSingle_eq_moveLoop dst _ (countP_ne_le_one h1)]
    exact run_movzLoop dst hc s
  · rw [moveSingle_eq_moveLoop dst _ (countP_ne_le_one h2)]
    exact run_movnLoop dst (by omega) s
  · exact run_movzLoop dst hc s
  · exact run_movnLoop dst (by omega) s
  · exact run_movzLoop dst hc s
  · exact run_movnLoop dst (by omega) s
  · exact run_movzLoop dst hc s

/-! ## Values with one part -/

variable {t : Nat}

theorem and_not_wideMask_eq_zero_iff : v &&& ~~~wideMask t = 0 ↔ ∀ i < 4, i ≠ t → part v i = 0 := by
  have hpart : ∀ i < 4, part (v &&& ~~~wideMask t) i = if i = t then 0 else part v i := by
    intro i hi
    rw [part_and, part_not _ hi, part_wideMask hi]
    by_cases hit : i = t
    · rw [if_pos hit, if_pos hit, not_allOnes, and_zero]
      rfl
    · rw [if_neg hit, if_neg hit, ofNat_eq_ofNat, not_zero, and_allOnes]
  constructor
  · intro h i hi hit
    have := hpart i hi
    rwa [h, part_zero, if_neg hit, eq_comm] at this
  · intro h
    apply eq_of_part
    intro i hi
    rw [hpart i hi, part_zero]
    by_cases hit : i = t
    · rw [if_pos hit]
    · rw [if_neg hit, h i hi hit]

theorem of_const16bitAligned_eq_some (h : const16bitAligned v = some t) :
    t < 4 ∧ ∀ i < 4, i ≠ t → part v i = 0 := by
  have haligned := find?_some h
  rw [decide_eq_true_eq] at haligned
  exact ⟨mem_range.mp (mem_of_find?_eq_some h), and_not_wideMask_eq_zero_iff.mp haligned⟩

theorem wideField_eq {imm : BitVec 64} (h : const16bitAligned v = some t)
    (himm : imm.setWidth 16 = part v t) : wideField imm t = v := by
  obtain ⟨-, hparts⟩ := of_const16bitAligned_eq_some h
  apply eq_of_part
  intro i hi
  rw [part_wideField _ hi]
  by_cases hit : i = t
  · rw [if_pos hit, himm, hit]
  · rw [if_neg hit, hparts i hi hit]

theorem of_const16bitAligned_eq_none (h : const16bitAligned v = none)
    (ht : t < 4) : ∃ i < 4, i ≠ t ∧ part v i ≠ 0 := by
  by_contra hnone
  push Not at hnone
  apply find?_eq_none.mp h t (mem_range.mpr ht)
  exact decide_eq_true (and_not_wideMask_eq_zero_iff.mpr hnone)

theorem const16bitAligned_zero : const16bitAligned 0 = some 0 := by
  decide

theorem run_lowerConstantI64 (c : BitVec 64) (s : Regs) :
    run (lowerConstantI64 dst c) s = some (s.set dst c) := by
  have hmask : isBitMaskImmediate c true = true →
      run (lowerConstViaBitMaskImmediate c dst true) s = some (s.set dst c) := by
    intro h
    obtain ⟨f, hf, hdecode⟩ := decode_of_isBitMaskImmediate h
    simp [lowerConstViaBitMaskImmediate, Instr.step, hf, hdecode]
  rw [lowerConstantI64]
  by_cases hfits : fitsImm12 c ∧ isBitMaskImmediate c true = true
  · rw [if_pos hfits]
    exact hmask hfits.2
  rw [if_neg hfits]
  cases hz : const16bitAligned c with
  | some t =>
    obtain ⟨ht, -⟩ := of_const16bitAligned_eq_some hz
    have hvalue : wideField (c >>> (16 * t)) t = c := wideField_eq hz rfl
    simp [Instr.step, guard, ht, hvalue]
  | none =>
    cases hn : const16bitAligned (~~~c) with
    | some t =>
      obtain ⟨ht, -⟩ := of_const16bitAligned_eq_some hn
      have hvalue : ~~~wideField (~~~c >>> (16 * t)) t = c := by
        rw [wideField_eq hn rfl, BitVec.not_not]
      simp [Instr.step, guard, ht, narrow, hvalue]
    | none =>
      by_cases hb : isBitMaskImmediate c true = true
      · simp only [hb, if_true]
        exact hmask hb
      · simp only [hb, false_eq_true, if_false]
        apply run_load64bitConst
        rintro rfl
        cases hz

/-! ## Values of 32 bits -/

theorem part_setWidth (c : BitVec 32) (hi : 2 ≤ i) : part (c.setWidth 64) i = 0 := by
  apply eq_of_getLsbD_eq
  intro j hj
  rw [getLsbD_part _ _ hj, getLsbD_setWidth, getLsbD_of_ge c _ (by omega)]
  simp

variable {c : BitVec 32}

/-- The lowest aligned place is taken, so that it is in the lower half. -/
theorem lt_two_of_const16bitAligned (h : const16bitAligned (c.setWidth 64) = some t) : t < 2 := by
  by_contra ht
  obtain ⟨-, hparts⟩ := of_const16bitAligned_eq_some h
  have hzero : c.setWidth 64 = 0 := by
    apply eq_of_part
    intro i hi
    rw [part_zero]
    by_cases hit : i = t
    · exact part_setWidth c (by omega)
    · exact hparts i hi hit
  rw [hzero, const16bitAligned_zero] at h
  cases h
  omega

theorem part_narrow (v : BitVec 64) (hi : i < 4) :
    part (narrow false v) i = if i < 2 then part v i else 0 := by
  rw [narrow, if_neg (by decide)]
  by_cases h2 : i < 2
  · rw [if_pos h2]
    apply eq_of_getLsbD_eq
    intro j hj
    rw [getLsbD_part _ _ hj, getLsbD_part _ _ hj, getLsbD_setWidth, getLsbD_setWidth,
      decide_eq_true (show 16 * i + j < 64 by omega), decide_eq_true
        (show 16 * i + j < 32 by omega)]
    simp
  · rw [if_neg h2]
    exact part_setWidth _ (by omega)

theorem msb_of_fitsImm12 (h : fitsImm12 (c.setWidth 64)) : c.msb = false := by
  have hnat : (c.setWidth 64).toNat = c.toNat := by
    rw [toNat_setWidth, Nat.mod_eq_of_lt (by omega)]
  have hmsb : (c.setWidth 64).msb = false := msb_setWidth c
  have hsmall : c.toNat < 2 ^ 24 := by
    rcases h.2 with hle | ⟨-, hle⟩
    · rw [toInt_eq_toNat_of_msb hmsb] at hle
      omega
    · rw [sshiftRight_eq_of_msb_false hmsb, le_def, toNat_ushiftRight, hnat,
        Nat.shiftRight_eq_div_pow] at hle
      simp at hle
      omega
  rw [msb_eq_decide, decide_eq_false_iff_not]
  omega

/-- The upper half of a sign-extended negative value has two parts that are not zero. -/
theorem msb_of_const16bitAligned
    (h : const16bitAligned (c.signExtend 64) = some t) : c.msb = false := by
  obtain ⟨-, hparts⟩ := of_const16bitAligned_eq_some h
  by_contra hmsb
  have hones : ∀ i < 4, 2 ≤ i → part (c.signExtend 64) i ≠ 0 := by
    intro i hi h2 hzero
    have hbit := congrArg (fun p => p.getLsbD 0) hzero
    simp only [getLsbD_part _ _ (show 0 < 16 by omega), getLsbD_signExtend] at hbit
    rw [decide_eq_true (by omega), if_neg (by omega)] at hbit
    exact hmsb hbit
  by_cases ht : t = 2
  · exact hones 3 (by omega) (by omega) (hparts 3 (by omega) (by omega))
  · exact hones 2 (by omega) (by omega) (hparts 2 (by omega) (Ne.symm ht))

/-- An accepted run that reaches the top bit is aligned, or its complement is. -/
theorem msb_of_isBitMaskImmediate32 (hz : const16bitAligned (c.setWidth 64) = none)
    (hn : const16bitAligned ((~~~c).signExtend 64) = none)
    (h : isBitMaskImmediate (c.setWidth 64) false = true) : c.msb = false := by
  obtain ⟨p, l, hl, -, hbound, hrun⟩ := exists_run32 h
  have hbits : ∀ i < 32, c.getLsbD i = decide (p ≤ i ∧ i < p + l) := by
    intro i hi
    rw [← Lib.BitRun.getLsbD_of_run hrun, getLsbD_setWidth,
      decide_eq_true (show i < 64 by omega), Bool.true_and]
  by_contra hmsb
  rw [not_eq_false, msb_eq_getLsbD_last, hbits _ (by omega), decide_eq_true_eq] at hmsb
  have hmsb' : (~~~c).msb = false := by
    rw [msb_not, msb_eq_getLsbD_last, hbits _ (by omega), decide_eq_true hmsb]
    rfl
  rcases lt_or_ge p 16 with hp | hp
  · obtain ⟨i, hi, hi0, hne⟩ := of_const16bitAligned_eq_none hn (show 0 < 4 by omega)
    apply hne
    apply eq_of_getLsbD_eq
    intro j hj
    rw [getLsbD_part _ _ hj, getLsbD_signExtend, hmsb', getLsbD_not]
    by_cases hlow : 16 * i + j < 32
    · rw [hbits _ hlow, decide_eq_true (show p ≤ 16 * i + j ∧ 16 * i + j < p + l by omega)]
      simp
    · simp [hlow]
  · obtain ⟨i, hi, hi1, hne⟩ := of_const16bitAligned_eq_none hz (show 1 < 4 by omega)
    apply hne
    apply eq_of_getLsbD_eq
    intro j hj
    rw [getLsbD_part _ _ hj, getLsbD_setWidth]
    by_cases hlow : 16 * i + j < 32
    · rw [hbits _ hlow, decide_eq_false (show ¬(p ≤ 16 * i + j ∧ 16 * i + j < p + l) by omega)]
      simp
    · rw [getLsbD_of_ge c _ (by omega)]
      simp

theorem run_viaBitMaskImmediate32 (s : Regs) (h : isBitMaskImmediate (c.setWidth 64) false = true) :
    run (lowerConstViaBitMaskImmediate (c.setWidth 64) dst false) s =
      some (s.set dst (c.setWidth 64)) := by
  obtain ⟨f, hf, hdecode⟩ := decode_of_isBitMaskImmediate32 h
  simp [lowerConstViaBitMaskImmediate, Instr.step, hf, hdecode]

theorem setWidth_ushiftRight (c : BitVec 32) (t : Nat) :
    ((c >>> (16 * t)).setWidth 64).setWidth 16 = part (c.setWidth 64) t := by
  apply eq_of_getLsbD_eq
  intro j hj
  rw [getLsbD_part _ _ hj]
  by_cases hlow : 16 * t + j < 64
  · simp [hj, hlow, show j < 64 by omega]
  · simp [hlow, getLsbD_of_ge c _ (show 32 ≤ 16 * t + j by omega)]

theorem movN_value32 (hmsb : (~~~c).msb = false)
    (h : const16bitAligned ((~~~c).setWidth 64) = some t) :
    narrow false (~~~wideField (((~~~c).sshiftRight (16 * t)).signExtend 64) t) =
      c.setWidth 64 := by
  have hshift : ((~~~c).sshiftRight (16 * t)).signExtend 64 = (~~~c >>> (16 * t)).setWidth 64 := by
    rw [sshiftRight_eq_of_msb_false hmsb, signExtend_eq_setWidth_of_msb_false]
    simp [hmsb]
  rw [hshift, wideField_eq h (setWidth_ushiftRight (~~~c) t)]
  simp [narrow, BitVec.setWidth_not]

theorem movK_value32 (c : BitVec 32) :
    narrow false (wideField ((c.setWidth 16).setWidth 64) 0 &&& ~~~wideMask 1 |||
      wideField (((c >>> 16).setWidth 16).setWidth 64) 1) = c.setWidth 64 := by
  apply eq_of_part
  intro i hi
  rw [part_narrow _ hi, part_insert _ _ hi, part_wideField _ hi]
  rcases (show i = 0 ∨ i = 1 ∨ 2 ≤ i by omega) with rfl | rfl | h2
  · have := setWidth_ushiftRight c 0
    simpa using this
  · have hhigh := setWidth_ushiftRight c 1
    rw [if_pos (by omega), if_pos rfl, ← hhigh,
      setWidth_setWidth_of_le (c >>> (16 * 1)) (show 16 ≤ 64 by omega),
      setWidth_setWidth_of_le _ (show 16 ≤ 64 by omega), setWidth_eq]
  · rw [if_neg (by omega), part_setWidth c h2]

theorem run_lowerConstantI32 (c : BitVec 32) (s : Regs) :
    run (lowerConstantI32 dst c) s = some (s.set dst (c.setWidth 64)) := by
  simp only [lowerConstantI32]
  by_cases hfits : fitsImm12 (c.setWidth 64) ∧ isBitMaskImmediate (c.signExtend 64) false = true
  · rw [if_pos hfits]
    have hsign := signExtend_eq_setWidth_of_msb_false (v := 64) (msb_of_fitsImm12 hfits.1)
    exact run_viaBitMaskImmediate32 dst s (hsign ▸ hfits.2)
  rw [if_neg hfits]
  cases hz : const16bitAligned (c.setWidth 64) with
  | some t =>
    simp only [run_cons, Instr.step, wideField_eq hz (setWidth_ushiftRight c t)]
    simp [guard, lt_two_of_const16bitAligned hz]
  | none =>
    cases hn : const16bitAligned ((~~~c).signExtend 64) with
    | some t =>
      have hmsb := msb_of_const16bitAligned hn
      rw [signExtend_eq_setWidth_of_msb_false hmsb] at hn
      simp [Instr.step, guard, lt_two_of_const16bitAligned hn, movN_value32 hmsb hn]
    | none =>
      by_cases hb : isBitMaskImmediate (c.setWidth 64) false = true
      · simp only [hb, if_true]
        rw [signExtend_eq_setWidth_of_msb_false (msb_of_isBitMaskImmediate32 hz hn hb)]
        exact run_viaBitMaskImmediate32 dst s hb
      · simp only [hb, false_eq_true, if_false]
        simp [Instr.step, guard, Lib.Emission.Regs.set_set, movK_value32]

/-- Constants are loaded exactly, and what is taken for a bitmask immediate is decoded to the value
that was encoded. -/
theorem constants_loaded :
    (∀ (dst : VReg) (c : BitVec 32) (s : Regs),
      run (lowerConstantI32 dst c) s = some (s.set dst (c.setWidth 64))) ∧
    (∀ (dst : VReg) (c : BitVec 64) (s : Regs),
      run (lowerConstantI64 dst c) s = some (s.set dst c)) ∧
    (∀ x : BitVec 32, isBitMaskImmediate (x.setWidth 64) false = true →
      ∃ f, bitmaskImmediate (x.setWidth 64) false = some f ∧ f.decode 32 = some x) ∧
    (∀ x : BitVec 64, isBitMaskImmediate x true = true →
      ∃ f, bitmaskImmediate x true = some f ∧ f.decode 64 = some x) :=
  ⟨run_lowerConstantI32, run_lowerConstantI64, fun _ => decode_of_isBitMaskImmediate32,
    fun _ => decode_of_isBitMaskImmediate⟩

theorem constants_loaded_mask :
    isBitMaskImmediate 0x0ff0_0ff0_0ff0_0ff0 true = true ∧
      ∃ f, bitmaskImmediate 0x0ff0_0ff0_0ff0_0ff0 true = some f ∧
        f.decode 64 = some 0x0ff0_0ff0_0ff0_0ff0 :=
  ⟨by decide, constants_loaded.2.2.2 _ (by decide)⟩

end Andsifr.Arm64
