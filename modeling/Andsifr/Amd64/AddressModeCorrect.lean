import Andsifr.Amd64.AddressMode

namespace Andsifr.Amd64

open Lib.Emission Pointer Lib.Emission.Regs Addend BitVec Option

/-! ## What an addend stands for -/

def ShiftAmount.folded : ShiftAmount → Bool
  | .const c => c ≤ 3
  | .reg _ => false

/-- The scale of an index register that comes from a shift. -/
def Pointer.scale : Pointer → Nat
  | .ishl _ _ (.const c) => if c ≤ 3 then c.toNat else 0
  | _ => 0

/-- Whether the addend can be lowered: there is no extension of a 64-bit operand. -/
def Pointer.lowers : Pointer → Bool
  | .extendLow _ _ _ _ => false
  | _ => true

/-- The part of the value that the lowering of an addend leaves out: the copies of the sign bit of a
register that is extended, and a shift that is not folded. -/
def Pointer.dropped (s : Regs) : Pointer → BitVec 64
  | .extend _ true (.reg v) => extendFrom true 32 (s v) - s v
  | .ishl _ x amount => if amount.folded then 0 else x.value s <<< amount.value s - x.value s
  | _ => 0

/-- A shift in place of the operand's register changes no other value: the register holds a constant
that has just been loaded, or the shift leaves it as it is. -/
def Pointer.ShiftsIdly (s : Regs) : Pointer → Prop
  | .ishl _ (.iconst _ _ _) _ => True
  | .ishl _ x (.const c) => x.value s <<< c.toNat = x.value s
  | _ => True

def Operand32.Below (n : Nat) : Operand32 → Prop
  | .const _ => True
  | .reg v => v < n

def Pointer.Below (n : Nat) : Pointer → Prop
  | .reg v | .iconst v _ _ => v < n
  | .iadd v x y => v < n ∧ x.Below n ∧ y.Below n
  | .ishl v x _ => v < n ∧ x.Below n
  | .extend v _ x => v < n ∧ x.Below n
  | .extendLow v _ _ x => v < n ∧ x.Below n

theorem Pointer.Below.vreg_lt {n : Nat} {p : Pointer} (h : p.Below n) : p.vreg < n := by
  cases p with
  | reg | iconst => exact h
  | iadd | ishl | extend | extendLow => exact h.1

/-- A register with a 32-bit value has a clear upper half. -/
def Operand32.ZeroExtended (s : Regs) : Operand32 → Prop
  | .const _ => True
  | .reg v => extendFrom false 32 (s v) = s v

/-- The operand of an addend is in its register, if it has one. -/
def Pointer.Ready (s : Regs) : Pointer → Prop
  | .iadd v x y => s v = (iadd v x y).value s
  | .ishl _ (.iconst _ _ _) _ => True
  | .ishl _ x _ => s x.vreg = x.value s
  | .extend _ _ x => x.ZeroExtended s
  | _ => True

def Addend.index (s : Regs) (a : Addend) : BitVec 64 :=
  a.r.elim 0 fun r => s r <<< a.shift

theorem Addend.index_none {a : Addend} (s : Regs) (h : a.r = none) : a.index s = 0 := by
  rw [index, h, elim_none]

theorem Addend.index_congr {s s' : Regs} {a : Addend} (h : ∀ r ∈ a.r, s' r = s r) :
    a.index s' = a.index s := by
  cases hr : a.r with
  | none => simp [index, hr]
  | some r => simp [index, hr, h r hr]

/-- The addend `a` stands for `p`: it adds up to the value of `p` without what is dropped. Of `s`
only the registers below `n` are known, and `b` is the code before the addend. -/
structure Adds (n : Nat) (s : Regs) (b : Code) (p : Pointer) (a : Addend) (b' : Code) (s' : Regs) :
    Prop where
  value : a.off + a.index s' + p.dropped s = p.value s
  off : ∀ r ∈ a.r, a.off = 0
  unshifted : a.r = none → a.shift = 0
  shift : a.shift = p.scale
  below : ∀ r ∈ a.r, r < b'.next
  source : p.scale ≠ 0 →
    ∃ r, a.r = some r ∧
      (b.next ≤ r ∧ p.ShiftsIdly s ∨ r < n ∧ (p.ShiftsIdly s ↔ s r <<< p.scale = s r))

theorem run_lowerIconst (s : Regs) (dst : VReg) (c : BitVec 64) :
    (lowerIconst dst c).foldlM Instr.step s = some (s.set dst c) := by
  rw [lowerIconst]
  split
  · next h => rw [h]; rfl
  · rfl

theorem emits_lowerIconst (b : Code) (s : Regs) (c : BitVec 64) :
    Emits Instr.step b (b.allocate.insert (lowerIconst b.next c)) s (s.set b.next c) :=
  emits_fresh (run_lowerIconst s b.next c) fun _ hr => set_of_ne _ _ hr

theorem Pointer.scale_le (p : Pointer) : p.scale ≤ 3 := by
  unfold scale
  split
  · split
    · next h => exact le_def.mp h
    · exact Nat.zero_le 3
  · exact Nat.zero_le 3

section Operand

variable {n : Nat} {s s₁ : Regs} {b : Code} {x : Pointer}

theorem getOperand_Reg_spec (hn : n ≤ b.next) (hs : ∀ r < n, s₁ r = s r) (hbelow : x.Below n)
    (hready : (∀ v m c, x ≠ .iconst v m c) → s x.vreg = x.value s) :
    ∃ s', Emits Instr.step b (getOperand_Reg x b).2 s₁ s' ∧
      (getOperand_Reg x b).1 < (getOperand_Reg x b).2.next ∧
      s' (getOperand_Reg x b).1 = x.value s ∧
      ((∃ v m c, x = .iconst v m c) ∧ b.next ≤ (getOperand_Reg x b).1 ∨
        (∀ v m c, x ≠ .iconst v m c) ∧ (getOperand_Reg x b).1 < n ∧
          s (getOperand_Reg x b).1 = x.value s) := by
  by_cases hconst : ∃ v m c, x = .iconst v m c
  · obtain ⟨v, m, c, rfl⟩ := hconst
    exact ⟨s₁.set b.next c, (emits_lowerIconst b s₁ c).markLowered v, Nat.lt_succ_self _,
      set_same _ _ _, .inl ⟨⟨v, m, c, rfl⟩, le_refl _⟩⟩
  have hnot : ∀ v m c, x ≠ .iconst v m c := fun v m c h => hconst ⟨v, m, c, h⟩
  have hop : getOperand_Reg x b = (x.vreg, b) := by
    cases x with
    | iconst v m c => exact absurd rfl (hnot v m c)
    | reg | iadd | ishl | extend | extendLow => rfl
  have hlt := hbelow.vreg_lt
  rw [hop]
  exact ⟨s₁, Emits.refl _ _ _, lt_of_lt_of_le hlt hn, (hs _ hlt).trans (hready hnot),
    .inr ⟨hnot, hlt, hready hnot⟩⟩

end Operand

section Addend

variable {n : Nat} {s s₁ : Regs} {b : Code} {p : Pointer}

theorem error_of_not_lowers (h : p.lowers = false) : ∃ e, lowerAddend p b = .error e := by
  cases p with
  | extendLow => exact ⟨_, rfl⟩
  | reg | iconst | iadd | ishl | extend => cases h

theorem index_ishl_add_dropped (s : Regs) (v : VReg) (x : Pointer) (amount : ShiftAmount) :
    x.value s <<< (ishl v x amount).scale + (ishl v x amount).dropped s =
      (ishl v x amount).value s := by
  have hunfolded : x.value s <<< 0 + (x.value s <<< amount.value s - x.value s) =
      x.value s <<< amount.value s := by
    rw [shiftLeft_zero]
    abel
  cases amount with
  | reg r => exact hunfolded
  | const c =>
    by_cases hc : c ≤ 3
    · have hlt : c.toNat < 64 := Nat.lt_of_le_of_lt (le_def.mp hc) (by decide)
      simp only [scale, dropped, ShiftAmount.folded, hc, if_true, decide_true,
        add_zero, value, ShiftAmount.value, Nat.mod_eq_of_lt hlt]
    · simpa only [scale, dropped, ShiftAmount.folded, hc, if_false, decide_false,
        Bool.false_eq_true, value] using hunfolded

theorem lowerAddend_ishl (v : VReg) (x : Pointer) (amount : ShiftAmount) (b : Code) :
    lowerAddend (.ishl v x amount) b =
      .ok (⟨some (getOperand_Reg x (b.markLowered v)).1, 0, (ishl v x amount).scale⟩,
        (getOperand_Reg x (b.markLowered v)).2) := by
  cases amount with
  | reg r => rfl
  | const c =>
    by_cases hc : c ≤ 3
    · exact (if_pos hc).trans (by rw [scale, if_pos hc]; rfl)
    · exact (if_neg hc).trans (by rw [scale, if_neg hc]; rfl)

/-- A shift that is folded is by a constant, which also says what the shift in place would do. -/
theorem shiftsIdly_iff {v : VReg} {x : Pointer} {amount : ShiftAmount}
    (hnot : ∀ v m c, x ≠ .iconst v m c) (hscale : (ishl v x amount).scale ≠ 0) :
    (ishl v x amount).ShiftsIdly s ↔ x.value s <<< (ishl v x amount).scale = x.value s := by
  cases amount with
  | reg r => exact absurd rfl hscale
  | const c =>
    by_cases hc : c ≤ 3
    · rw [scale, if_pos hc]
      cases x with
      | iconst v m c => exact absurd rfl (hnot v m c)
      | reg | iadd | ishl | extend | extendLow => exact Iff.rfl
    · exact absurd (if_neg hc) hscale

theorem adds_ishl {v : VReg} {x : Pointer} {amount : ShiftAmount} (hn : n ≤ b.next)
    (hs : ∀ r < n, s₁ r = s r) (hbelow : (ishl v x amount).Below n)
    (hready : (ishl v x amount).Ready s) :
    ∃ a b' s', lowerAddend (.ishl v x amount) b = .ok (a, b') ∧ Emits Instr.step b b' s₁ s' ∧
      Adds n s b (.ishl v x amount) a b' s' := by
  have hready' : (∀ v m c, x ≠ .iconst v m c) → s x.vreg = x.value s := by
    intro hnot
    cases x with
    | iconst v m c => exact absurd rfl (hnot v m c)
    | reg | iadd | ishl | extend | extendLow => exact hready
  obtain ⟨s', hemits, hlt, hvalue, hsource⟩ :=
    @getOperand_Reg_spec n s s₁ (b.markLowered v) x hn hs hbelow.2 hready'
  refine ⟨_, _, s', lowerAddend_ishl v x amount b,
    ((Emits.refl _ b s₁).markLowered v).trans hemits, ?_, fun _ _ => rfl, nofun, rfl, ?_, ?_⟩
  · show (0 : BitVec 64) + s' _ <<< (ishl v x amount).scale + _ = _
    rw [hvalue, zero_add, index_ishl_add_dropped]
  · intro r hr
    cases hr
    exact hlt
  · intro hscale
    refine ⟨_, rfl, ?_⟩
    rcases hsource with ⟨⟨w, m, c, rfl⟩, hfresh⟩ | ⟨hnot, hown, hvalue'⟩
    · exact .inl ⟨hfresh, trivial⟩
    · exact .inr ⟨hown, by rw [shiftsIdly_iff hnot hscale, hvalue']⟩

theorem adds_reg {r : VReg} {b' : Code} {s' : Regs} (hscale : p.scale = 0)
    (hr : r < b'.next) (hvalue : s' r + p.dropped s = p.value s) :
    Adds n s b p ⟨some r, 0, 0⟩ b' s' := by
  refine ⟨?_, fun _ _ => rfl, nofun, hscale.symm, ?_, fun h => absurd hscale h⟩
  · show (0 : BitVec 64) + s' r <<< 0 + _ = _
    rwa [shiftLeft_zero, zero_add]
  · intro q hq
    cases hq
    exact hr

theorem adds_const {c : BitVec 64} {b' : Code} {s' : Regs} (hscale : p.scale = 0)
    (hvalue : c + p.dropped s = p.value s) : Adds n s b p ⟨none, c, 0⟩ b' s' := by
  refine ⟨?_, nofun, fun _ => rfl, hscale.symm, nofun, fun h => absurd hscale h⟩
  show c + 0 + _ = _
  rwa [add_zero]

theorem lowerAddend_spec (hn : n ≤ b.next) (hs : ∀ r < n, s₁ r = s r)
    (hbelow : p.Below n) (hready : p.Ready s) (hlowers : p.lowers = true) :
    ∃ a b' s', lowerAddend p b = .ok (a, b') ∧ Emits Instr.step b b' s₁ s' ∧
      Adds n s b p a b' s' := by
  have hlt : p.vreg < b.next := lt_of_lt_of_le hbelow.vreg_lt hn
  cases p with
  | reg v =>
    exact ⟨_, _, s₁, rfl, Emits.refl _ _ _, adds_reg rfl hlt ((add_zero _).trans (hs v hbelow))⟩
  | iadd v x y =>
    exact ⟨_, _, s₁, rfl, Emits.refl _ _ _,
      adds_reg rfl hlt ((add_zero _).trans ((hs v hbelow.1).trans hready))⟩
  | iconst v merge c =>
    cases merge with
    | false =>
      exact ⟨_, _, s₁.set b.next c, rfl, (emits_lowerIconst b s₁ c).markLowered v,
        adds_reg rfl (Nat.lt_succ_self _) ((add_zero _).trans (set_same _ _ _))⟩
    | true =>
      exact ⟨_, _, s₁, rfl, (Emits.refl _ b s₁).markLowered v, adds_const rfl (add_zero _)⟩
  | ishl v x amount => exact adds_ishl hn hs hbelow hready
  | extend v signed x =>
    cases x with
    | const c =>
      refine ⟨_, _, s₁, rfl, (Emits.refl _ b s₁).markLowered v, adds_const rfl ?_⟩
      cases signed <;> exact add_zero _
    | reg r =>
      have hr : r < n := hbelow.2
      refine ⟨_, _, s₁, rfl, (Emits.refl _ b s₁).markLowered v,
        adds_reg rfl (lt_of_lt_of_le hr hn) ?_⟩
      rw [hs r hr]
      cases signed with
      | false => exact (add_zero _).trans (Eq.symm hready)
      | true =>
        show s r + (extendFrom true 32 (s r) - s r) = extendFrom true 32 (s r)
        abel
  | extendLow => cases hlowers

end Addend

/-! ## Addresses -/

/-- The lowering succeeds, its code leaves the registers in use alone and the address is `v`. -/
def Denotes (b : Code) (s : Regs) (res : Except String (Amode × Code)) (v : BitVec 64) : Prop :=
  ∃ am b' s', res = .ok (am, b') ∧ Emits Instr.step b b' s s' ∧ am.denote s' = v

section Denotes

variable {b b₁ : Code} {s s₁ : Regs} {res : Except String (Amode × Code)} {v w : BitVec 64}

theorem Denotes.after (hemits : Emits Instr.step b b₁ s s₁) (h : Denotes b₁ s₁ res v) :
    Denotes b s res v := by
  obtain ⟨am, b', s', hres, hemits', hdenote⟩ := h
  exact ⟨am, b', s', hres, hemits.trans hemits', hdenote⟩

theorem Denotes.iff_eq (h : Denotes b s res v) : Denotes b s res w ↔ v = w := by
  obtain ⟨am, b', s', rfl, hemits, hdenote⟩ := h
  constructor
  · rintro ⟨_, _, s'', hres, hemits', hdenote'⟩
    cases hres
    rw [← hdenote, ← hdenote', hemits.det hemits']
  · rintro rfl
    exact ⟨am, b', s', rfl, hemits, hdenote⟩

theorem not_denotes_error (e : String) : ¬ Denotes b s (.error e) v := by
  rintro ⟨_, _, _, hres, _⟩
  cases hres

theorem newAmodeRegRegShift_of_le (imm32 : BitVec 32) (base index : VReg) {shift : Nat}
    (h : shift ≤ 3) :
    newAmodeRegRegShift imm32 base index shift = .ok (.regRegShift imm32 base index shift) :=
  if_neg (not_lt.mpr h)

end Denotes

section Join

variable {b : Code} {s : Regs} {x y : Addend} {u32 : BitVec 32} {u64 : BitVec 64}

theorem denotes_lowerSingle {r : VReg} {shift : Nat} (hu : u32.signExtend 64 = u64)
    (hr : r < b.next) (hshift : shift ≤ 3) :
    Denotes b s (joinAddends.lowerSingle u32 b r shift) (u64 + s r <<< shift) := by
  rw [joinAddends.lowerSingle]
  by_cases hzero : shift = 0
  · rw [if_neg (not_not.mpr hzero)]
    refine ⟨_, _, s, rfl, Emits.refl _ _ _, ?_⟩
    rw [Amode.denote, hu, hzero, shiftLeft_zero]
  · rw [if_pos hzero, newAmodeRegRegShift_of_le _ _ _ hshift]
    refine ⟨_, _, _, rfl, emits_lowerIconst b s 0, ?_⟩
    rw [Amode.denote, hu, set_same, set_of_ne _ _ (ne_of_lt hr), add_zero]

theorem denotes_joinAddends (hu : u32.signExtend 64 = u64) (hx : ∀ r ∈ x.r, r < b.next)
    (hy : ∀ r ∈ y.r, r < b.next) (hsx : x.shift ≤ 3) (hsy : y.shift ≤ 3)
    (hone : ¬ (x.shift ≠ 0 ∧ y.shift ≠ 0)) :
    Denotes b s (joinAddends x y u32 u64 b) (u64 + x.index s + y.index s) := by
  obtain ⟨rx, ox, kx⟩ := x
  obtain ⟨ry, oy, ky⟩ := y
  cases rx with
  | none =>
    cases ry with
    | none =>
      refine ⟨_, _, _, rfl, emits_lowerIconst b s u64, ?_⟩
      simp [Amode.denote, index]
    | some r =>
      have h := denotes_lowerSingle (s := s) hu (hy r rfl) hsy
      simpa [joinAddends, index] using h
  | some r =>
    cases ry with
    | none =>
      have h := denotes_lowerSingle (s := s) hu (hx r rfl) hsx
      simpa [joinAddends, index] using h
    | some q =>
      simp only [joinAddends, if_neg hone]
      by_cases hkx : kx = 0
      · rw [if_neg (not_not.mpr hkx), newAmodeRegRegShift_of_le _ _ _ hsy]
        refine ⟨_, _, s, rfl, Emits.refl _ _ _, ?_⟩
        simp [Amode.denote, index, hu, hkx]
      · rw [if_pos hkx, newAmodeRegRegShift_of_le _ _ _ hsx]
        refine ⟨_, _, s, rfl, Emits.refl _ _ _, ?_⟩
        have hky : ky = 0 := not_not.mp fun h => hone ⟨hkx, h⟩
        simp only [Amode.denote, index, hu, hky, elim_some, shiftLeft_zero]
        abel

theorem denotes_joinAddends_after (c : BitVec 64) (hx : ∀ r ∈ x.r, r < b.next + 1)
    (hy : ∀ r ∈ y.r, r < b.next + 1) (hsx : x.shift ≤ 3) (hsy : y.shift ≤ 3)
    (hone : ¬ (x.shift ≠ 0 ∧ y.shift ≠ 0)) :
    Denotes b s (joinAddends x y 0 0 (b.allocate.insert (lowerIconst b.next c)))
      (x.index (s.set b.next c) + y.index (s.set b.next c)) := by
  have hzero : (0 : BitVec 32).signExtend 64 = 0 := by decide
  have h := (denotes_joinAddends hzero hx hy hsx hsy hone).after (emits_lowerIconst b s c)
  rwa [zero_add] at h

variable {offBase : BitVec 32}

theorem asImm32_of_msb (h : offBase.msb = false) :
    asImm32 (offBase.setWidth 64) false = some offBase := by
  have hwidth : (offBase.setWidth 64).setWidth 32 = offBase := by simp
  simp [asImm32, hwidth, h]

theorem signExtend_of_asImm32 {u64 : BitVec 64} {i : BitVec 32} (h : asImm32 u64 false = some i) :
    i = u64.setWidth 32 ∧ i.signExtend 64 = u64 := by
  simp only [asImm32] at h
  split at h
  · cases h
  next hwide =>
    split at h
    · cases h
    next hmsb =>
      have hi := (Option.some.inj h).symm
      refine ⟨hi, ?_⟩
      rw [hi]
      rw [signExtend_eq_setWidth_of_msb_false (by simpa using hmsb)]
      exact not_not.mp hwide

theorem denotes_lowerAddendsToAmode (hoff : offBase.msb = false)
    (hx : ∀ r ∈ x.r, x.off = 0) (hy : ∀ r ∈ y.r, y.off = 0) (hbx : ∀ r ∈ x.r, r < b.next)
    (hby : ∀ r ∈ y.r, r < b.next) (hnx : x.r = none → x.shift = 0) (hny : y.r = none → y.shift = 0)
    (hsx : x.shift ≤ 3) (hsy : y.shift ≤ 3) (hone : ¬ (x.shift ≠ 0 ∧ y.shift ≠ 0)) :
    Denotes b s (lowerAddendsToAmode x y offBase b)
      ((x.off + x.index s) + (y.off + y.index s) + offBase.setWidth 64) := by
  have hvalid : ¬ ((x.r.isSome ∧ x.off ≠ 0) ∨ (y.r.isSome ∧ y.off ≠ 0)) := by
    rintro (⟨hr, hne⟩ | ⟨hr, hne⟩)
    · obtain ⟨r, hr⟩ := isSome_iff_exists.mp hr
      exact hne (hx r hr)
    · obtain ⟨r, hr⟩ := isSome_iff_exists.mp hr
      exact hne (hy r hr)
  have hsum : (x.off + x.index s) + (y.off + y.index s) + offBase.setWidth 64 =
      (x.off + y.off + offBase.setWidth 64) + x.index s + y.index s := by
    abel
  rw [lowerAddendsToAmode, if_neg hvalid, hsum]
  generalize hu : x.off + y.off + offBase.setWidth 64 = u64
  by_cases hbig : u64 ≠ 0 ∧ asImm32 u64 false = none
  · rw [if_pos hbig]
    have hkeep : ∀ r < b.next, s.set b.next u64 r = s r := (emits_lowerIconst b s u64).keeps
    have hsum : ∀ a : Addend, a.shift = 0 →
        index (s.set b.next u64) { a with r := some b.next } = u64 := by
      intro a ha
      rw [index, elim_some, set_same, ha, shiftLeft_zero]
    by_cases hrx : x.r = none
    · rw [if_pos hrx]
      have h := denotes_joinAddends_after (x := { x with r := some b.next }) (s := s)
        u64 (by simp) (fun r hr => Nat.lt_succ_of_lt (hby r hr)) hsx hsy hone
      rw [hsum x (hnx hrx), index_congr fun r hr => hkeep r (hby r hr)] at h
      rwa [index_none s hrx, add_zero]
    rw [if_neg hrx]
    by_cases hry : y.r = none
    · rw [if_pos hry]
      have h := denotes_joinAddends_after (y := { y with r := some b.next }) (s := s)
        u64 (fun r hr => Nat.lt_succ_of_lt (hbx r hr)) (by simp) hsx hsy hone
      rw [hsum y (hny hry), index_congr fun r hr => hkeep r (hbx r hr)] at h
      rwa [index_none s hry, add_zero, add_comm u64]
    · -- With two registers the sum is the offset, which fits.
      obtain ⟨rx, hrx⟩ := ne_none_iff_exists'.mp hrx
      obtain ⟨ry, hry⟩ := ne_none_iff_exists'.mp hry
      rw [hx rx hrx, hy ry hry, zero_add, zero_add] at hu
      rw [← hu, asImm32_of_msb hoff] at hbig
      cases hbig.2
  · rw [if_neg hbig]
    have hfits : (u64.setWidth 32).signExtend 64 = u64 := by
      by_cases hzero : u64 = 0
      · rw [hzero]
        decide
      · obtain ⟨i, hi⟩ := ne_none_iff_exists'.mp fun h => hbig ⟨hzero, h⟩
        obtain ⟨rfl, hext⟩ := signExtend_of_asImm32 hi
        exact hext
    exact denotes_joinAddends hfits hbx hby hsx hsy hone

theorem lowerAddendsToAmode_shifted {rx ry : VReg}
    (hoff : offBase.msb = false) (hrx : x.r = some rx) (hry : y.r = some ry) (hx : x.off = 0)
    (hy : y.off = 0) (hsx : x.shift ≠ 0) (hsy : y.shift ≠ 0) (hle : y.shift ≤ 3) :
    lowerAddendsToAmode x y offBase b = .ok (.regRegShift offBase rx ry y.shift,
        b.insert [.shiftLeft (BitVec.ofNat 32 x.shift) rx]) := by
  have hfits := asImm32_of_msb hoff
  have hwidth : (offBase.setWidth 64).setWidth 32 = offBase := by simp
  simp [lowerAddendsToAmode, joinAddends, hrx, hry, hx, hy, hsx, hsy, hfits, hwidth,
    newAmodeRegRegShift_of_le _ _ _ hle, bind, Except.bind, pure, Except.pure]

end Join

section Single

variable {b : Code} {s : Regs} {ptr : Pointer} {offsetBase : BitVec 32}

theorem signExtend_of_msb (h : offsetBase.msb = false) :
    offsetBase.signExtend 64 = offsetBase.setWidth 64 :=
  signExtend_eq_setWidth_of_msb_false h

theorem denotes_lowerSingleAddend (hoff : offsetBase.msb = false) (hbelow : ptr.Below b.next)
    (hready : ptr.Ready s) (hlowers : ptr.lowers = true) :
    Denotes b s (lowerSingleAddend ptr offsetBase b)
      (ptr.value s - ptr.dropped s + offsetBase.setWidth 64) := by
  obtain ⟨a, b', s', hlower, hemits, hadds⟩ :=
    lowerAddend_spec (le_refl _) (fun _ _ => rfl) hbelow hready hlowers
  have hle : a.shift ≤ 3 := hadds.shift ▸ ptr.scale_le
  rw [← hadds.value, add_sub_cancel_right, lowerSingleAddend, hlower]
  refine Denotes.after hemits ?_
  obtain ⟨r, off, shift⟩ := a
  cases r with
  | none =>
    refine ⟨_, _, _, rfl, emits_lowerIconst b' s' _, ?_⟩
    simp [Amode.denote, index]
  | some r =>
    obtain rfl : off = 0 := hadds.off r rfl
    have hsum : (0 : BitVec 64) + s' r <<< shift + offsetBase.setWidth 64 =
        offsetBase.setWidth 64 + s' r <<< shift := by
      rw [zero_add, add_comm]
    have h := denotes_lowerSingle (s := s') (signExtend_of_msb hoff) (hadds.below r rfl) hle
    rw [← hsum] at h
    exact h

theorem denotes_lowerHugeOffset (hbelow : ptr.Below b.next) (hready : ptr.Ready s)
    (hlowers : ptr.lowers = true) :
    Denotes b s (lowerHugeOffset ptr offsetBase b)
      (ptr.value s - ptr.dropped s + offsetBase.setWidth 64) := by
  obtain ⟨a, b', s', hlower, hemits, hadds⟩ :=
    lowerAddend_spec (le_refl _) (fun _ _ => rfl) hbelow hready hlowers
  have hle : a.shift ≤ 3 := hadds.shift ▸ ptr.scale_le
  rw [← hadds.value, lowerHugeOffset, hlower]
  refine Denotes.after hemits ?_
  have hemits' := emits_lowerIconst b' s' (a.off + offsetBase.setWidth 64)
  obtain ⟨r, off, shift⟩ := a
  cases r with
  | none =>
    refine ⟨_, _, _, rfl, hemits', ?_⟩
    simp [Amode.denote, index]
  | some r =>
    refine ⟨.regRegShift 0 b'.next r shift, _, _, ?_, hemits', ?_⟩
    · show (do return (← newAmodeRegRegShift 0 b'.next r shift, _) :
        Except String (Amode × Code)) = _
      rw [newAmodeRegRegShift_of_le _ _ _ hle]
      rfl
    · have hr : r < b'.next := hadds.below r rfl
      rw [Amode.denote, set_same, set_of_ne _ _ (ne_of_lt hr)]
      simp [index, add_right_comm]

end Single

end Andsifr.Amd64
