import Andsifr.Arm64.AddressMode

namespace Andsifr.Arm64

open Lib.Emission AddressMode Lib.Emission.Regs List BitVec

/-! ## Registers in use -/

def Operand32.Below (n : VReg) : Operand32 → Prop
  | .const _ => True
  | .reg v => v < n

def ShiftAmount.Below (n : VReg) : ShiftAmount → Prop
  | .const _ => True
  | .reg v => v < n

def Pointer.Below (n : VReg) : Pointer → Prop
  | .reg v | .iconst v _ _ => v < n
  | .iadd v x y => v < n ∧ x.Below n ∧ y.Below n
  | .ishl v x amount => v < n ∧ x.Below n ∧ amount.Below n
  | .extend v _ x => v < n ∧ x.Below n

variable {n : VReg}

theorem Pointer.Below.vreg_lt {p : Pointer} (h : p.Below n) : p.vreg < n := by
  cases p with
  | reg | iconst => exact h
  | iadd | ishl | extend => exact h.1

theorem Pointer.Below.mono {n m : VReg} {p : Pointer} (h : p.Below n) (hle : n ≤ m) :
    p.Below m := by
  induction p with
  | reg | iconst => exact lt_of_lt_of_le h hle
  | iadd v x y ihx ihy => exact ⟨lt_of_lt_of_le h.1 hle, ihx h.2.1, ihy h.2.2⟩
  | ishl v x amount ih =>
    refine ⟨lt_of_lt_of_le h.1 hle, ih h.2.1, ?_⟩
    cases amount with
    | const => trivial
    | reg => exact lt_of_lt_of_le h.2.2 hle
  | extend v signed x =>
    refine ⟨lt_of_lt_of_le h.1 hle, ?_⟩
    cases x with
    | const => trivial
    | reg => exact lt_of_lt_of_le h.2 hle

variable {s s' : Regs}

theorem Pointer.value_congr {p : Pointer} (h : p.Below n) (hkeeps : ∀ r < n, s' r = s r) :
    p.value s' = p.value s := by
  induction p with
  | reg => exact hkeeps _ h
  | iconst => rfl
  | iadd v x y ihx ihy => rw [value, value, ihx h.2.1, ihy h.2.2]
  | ishl v x amount ih =>
    rw [value, value, ih h.2.1]
    cases amount with
    | const => rfl
    | reg => rw [ShiftAmount.value, ShiftAmount.value, hkeeps _ h.2.2]
  | extend v signed x =>
    cases x with
    | const => rfl
    | reg => rw [value, value, Operand32.value, Operand32.value, hkeeps _ h.2]

/-! ## The sum of the addends -/

def Addend32.value (s : Regs) (a : Addend32) : BitVec 64 :=
  a.ext.apply (s a.r)

/-- The register of a shifted addend, extended if need be. -/
def AddendShifted.index (s : Regs) (a : AddendShifted) : BitVec 64 :=
  match a.ext with
  | none => s a.r
  | some ext => ext.apply (s a.r)

def AddendShifted.value (s : Regs) (a : AddendShifted) : BitVec 64 :=
  a.index s <<< a.shift

def sum64 (s : Regs) (a64s : List VReg) : BitVec 64 :=
  (a64s.map s).sum

def sum32 (s : Regs) (a32s : List Addend32) : BitVec 64 :=
  (a32s.map (Addend32.value s)).sum

def sumShifted (s : Regs) (aShifted : List AddendShifted) : BitVec 64 :=
  (aShifted.map (AddendShifted.value s)).sum

def Addends.value (s : Regs) (a : Addends) : BitVec 64 :=
  sum32 s a.a32s + sum64 s a.a64s + sumShifted s a.aShifted + a.offset

/-- The registers of the addends are in use, and the shifts are those that are folded. -/
structure Addends.Below (n : VReg) (a : Addends) : Prop where
  a32s : ∀ x ∈ a.a32s, x.r < n
  a64s : ∀ r ∈ a.a64s, r < n
  aShifted : ∀ x ∈ a.aShifted, x.r < n ∧ 1 ≤ x.shift ∧ x.shift ≤ 4

variable {a64s : List VReg}

theorem sum64_congr (h : ∀ r ∈ a64s, r < n) (hkeeps : ∀ r < n, s' r = s r) :
    sum64 s' a64s = sum64 s a64s :=
  congrArg sum (map_congr_left fun r hr => hkeeps r (h r hr))

variable {a32s : List Addend32}

theorem sum32_congr (h : ∀ x ∈ a32s, x.r < n) (hkeeps : ∀ r < n, s' r = s r) :
    sum32 s' a32s = sum32 s a32s :=
  congrArg sum (map_congr_left fun x hx => by
    rw [Addend32.value, Addend32.value, hkeeps _ (h x hx)])

variable {a : AddendShifted}

theorem AddendShifted.value_congr (h : a.r < n) (hkeeps : ∀ r < n, s' r = s r) :
    a.value s' = a.value s := by
  rw [AddendShifted.value, AddendShifted.value, AddendShifted.index, AddendShifted.index,
    hkeeps _ h]

theorem sumShifted_congr {as : List AddendShifted} (h : ∀ x ∈ as, x.r < n)
    (hkeeps : ∀ r < n, s' r = s r) : sumShifted s' as = sumShifted s as :=
  congrArg sum (map_congr_left fun x hx => AddendShifted.value_congr (h x hx) hkeeps)

theorem Addends.value_congr {a : Addends} (h : a.Below n) (hkeeps : ∀ r < n, s' r = s r) :
    a.value s' = a.value s := by
  rw [Addends.value, Addends.value, sum32_congr h.a32s hkeeps, sum64_congr h.a64s hkeeps,
    sumShifted_congr (fun x hx => (h.aShifted x hx).1) hkeeps]

theorem Addends.Below.mono {n m : VReg} {a : Addends} (h : a.Below n) (hle : n ≤ m) : a.Below m :=
  ⟨fun x hx => lt_of_lt_of_le (h.a32s x hx) hle,
    fun r hr => lt_of_lt_of_le (h.a64s r hr) hle,
    fun x hx => ⟨lt_of_lt_of_le (h.aShifted x hx).1 hle, (h.aShifted x hx).2⟩⟩

/-! ## Emitted code -/

/-- The code that was emitted leaves a value in the register that was returned. -/
def Yields (b : Code) (s : Regs) (out : VReg × Code) (v : BitVec 64) : Prop :=
  ∃ s', Emits Instr.step b out.2 s s' ∧ out.1 < out.2.next ∧ s' out.1 = v

variable {v : BitVec 64} {b : Code}

theorem yields_emitTo {is : VReg → List Instr} (h : run (is b.next) s = some (s.set b.next v)) :
    Yields b s (emitTo b is) v := by
  refine ⟨s.set b.next v, emits_fresh h fun r hr => set_of_ne _ _ hr, ?_, ?_⟩
  · exact Nat.lt_succ_self _
  · exact set_same _ _ _

theorem run_singleton {i : Instr} (h : i.step s = some s') : run [i] s = some s' := by
  rw [run_cons, h]
  rfl

theorem yields_lowerConstant (c : BitVec 64) (b : Code) (s : Regs) :
    Yields b s (lowerConstant c b) c := by
  apply yields_emitTo
  by_cases hc : c = 0
  · rw [hc]
    rfl
  · rw [if_neg hc]
    exact run_lowerConstantI64 _ _ _

theorem yields_addReg64ToReg64 (rn rm : VReg) (b : Code) (s : Regs) :
    Yields b s (addReg64ToReg64 rn rm b) (s rn + s rm) :=
  yields_emitTo (run_singleton rfl)

theorem yields_addRegToReg64Ext (rn rm : VReg) (ext : ExtendOp) (b : Code) (s : Regs) :
    Yields b s (addRegToReg64Ext rn rm ext b) (s rn + ext.apply (s rm)) :=
  yields_emitTo (run_singleton rfl)

theorem getLsbD_fff (j : Nat) : (0xfff : BitVec 64).getLsbD j = decide (j < 12) := by
  have : (0xfff : BitVec 64) = BitVec.ofNat 64 (2 ^ 12 - 1) := rfl
  rw [this, getLsbD_ofNat, Nat.testBit_two_pow_sub_one]
  by_cases hj : j < 12
  · simp [hj, show j < 64 by omega]
  · simp [hj]

theorem eq_field12 {val : BitVec 64} {k : Nat} (hk : k ≤ 52)
    (h : val &&& ~~~((0xfff : BitVec 64) <<< k) = 0) :
    ((val >>> k).setWidth 12).setWidth 64 <<< k = val := by
  apply eq_of_getLsbD_eq
  intro i hi
  have hbit := congrArg (fun v => v.getLsbD i) h
  simp only [getLsbD_and, getLsbD_not, getLsbD_shiftLeft, getLsbD_fff, hi,
    decide_true, Bool.true_and] at hbit
  rw [getLsbD_shiftLeft, getLsbD_setWidth, getLsbD_setWidth,
    getLsbD_ushiftRight, decide_eq_true hi, decide_eq_true (show i - k < 64 by omega)]
  by_cases hlow : i < k
  · simp [hlow] at hbit ⊢
    exact hbit
  · by_cases hhigh : i - k < 12
    · simp [hlow, hhigh, Nat.add_sub_cancel' (Nat.le_of_not_lt hlow)]
    · simp [hlow, hhigh] at hbit ⊢
      exact hbit

theorem imm12Value_of_asImm12 {val : BitVec 64} {imm12 : BitVec 12} {shiftBit : Bool}
    (h : asImm12 val = some (imm12, shiftBit)) : imm12Value imm12 shiftBit = val := by
  rw [asImm12] at h
  split_ifs at h with hlow hhigh
  · cases h
    have := eq_field12 (k := 0) (by omega) (by simpa using hlow)
    simpa [imm12Value] using this
  · cases h
    exact eq_field12 (by omega) hhigh

theorem yields_addConstToReg64 {r : VReg} {c : BitVec 64} (s : Regs) (hr : r < b.next)
    (hc : c ≠ 0) :
    Yields b s (addConstToReg64 r c b) (s r + c) := by
  simp only [addConstToReg64]
  cases hpos : asImm12 c with
  | some imm =>
    rw [← imm12Value_of_asImm12 hpos]
    change Yields b s (emitTo b fun rd => [.addImm12 rd r imm.1 imm.2]) _
    exact yields_emitTo (run_singleton rfl)
  | none =>
    cases hneg : asImm12 (-c) with
    | some imm =>
      rw [show c = -imm12Value imm.1 imm.2 by rw [imm12Value_of_asImm12 hneg, neg_neg],
        ← sub_eq_add_neg]
      change Yields b s (emitTo b fun rd => [.subImm12 rd r imm.1 imm.2]) _
      exact yields_emitTo (run_singleton rfl)
    | none =>
      refine ⟨(s.set (b.next + 1) c).set b.next (s r + c), ?_, ?_, set_same _ _ _⟩
      · refine ⟨⟨load64bitConst c (b.next + 1) ++ [.add b.next r (b.next + 1)], ?_, ?_⟩, ?_, ?_⟩
        · exact append_assoc _ _ _
        · have hload := run_load64bitConst (b.next + 1) hc s
          have hother : (s.set (b.next + 1) c) r = s r :=
            set_of_ne _ _ (Nat.ne_of_lt (Nat.lt_succ_of_lt hr))
          change run _ s = _
          rw [run_append, hload]
          simp [Instr.step, hother]
        · exact Nat.le_add_right _ 2
        · intro q hq
          rw [set_of_ne _ _ (show q ≠ b.next by omega),
            set_of_ne _ _ (show q ≠ b.next + 1 by omega)]
      · change b.next < b.next + 1 + 1
        omega

theorem yields_self {r : VReg} (s : Regs) (hr : r < b.next) : Yields b s (r, b) (s r) :=
  ⟨s, Emits.refl _ b s, hr, rfl⟩

variable {out : VReg × Code}

theorem Yields.trans {out' : VReg × Code} {v w : BitVec 64} (h : Yields b s out v)
    (h' : ∀ s', (∀ r < b.next, s' r = s r) → s' out.1 = v → Yields out.2 s' out' w) :
    Yields b s out' w := by
  obtain ⟨s', hemits, -, hv⟩ := h
  obtain ⟨s'', hemits', hlt, hw⟩ := h' s' hemits.keeps hv
  exact ⟨s'', hemits.trans hemits', hlt, hw⟩

theorem Yields.next_le (h : Yields b s out v) : b.next ≤ out.2.next := by
  obtain ⟨_, hemits, -⟩ := h
  exact hemits.next_le

theorem Yields.lt_next (h : Yields b s out v) : out.1 < out.2.next := by
  obtain ⟨_, -, hlt, -⟩ := h
  exact hlt

theorem yields_addAll64 : ∀ (a64s : List VReg) (base : VReg) (b : Code) (s : Regs),
    base < b.next → (∀ r ∈ a64s, r < b.next) →
    Yields b s (addAll64 base a64s b) (s base + sum64 s a64s) := by
  intro a64s
  induction a64s with
  | nil =>
    intro base b s hbase _
    rw [show s base + sum64 s [] = s base by simp [sum64]]
    exact yields_self s hbase
  | cons a64 a64s ih =>
    intro base b s hbase hlt
    have hadd := yields_addReg64ToReg64 base a64 b s
    apply hadd.trans
    intro s' hkeeps hv
    have hrest : ∀ r ∈ a64s, r < b.next := fun r hr => hlt r (mem_cons_of_mem _ hr)
    have hsum : s base + sum64 s (a64 :: a64s) =
        s' (addReg64ToReg64 base a64 b).1 + sum64 s' a64s := by
      rw [hv, sum64_congr hrest hkeeps, add_assoc]
      rfl
    rw [hsum]
    exact ih _ _ s' hadd.lt_next fun r hr => lt_of_lt_of_le (hrest r hr) hadd.next_le

theorem yields_addAll32 : ∀ (a32s : List Addend32) (base : VReg) (b : Code) (s : Regs),
    base < b.next → (∀ x ∈ a32s, x.r < b.next) →
    Yields b s (addAll32 base a32s b) (s base + sum32 s a32s) := by
  intro a32s
  induction a32s with
  | nil =>
    intro base b s hbase _
    rw [show s base + sum32 s [] = s base by simp [sum32]]
    exact yields_self s hbase
  | cons a32 a32s ih =>
    intro base b s hbase hlt
    have hadd := yields_addRegToReg64Ext base a32.r a32.ext b s
    apply hadd.trans
    intro s' hkeeps hv
    have hrest : ∀ x ∈ a32s, x.r < b.next := fun x hx => hlt x (mem_cons_of_mem _ hx)
    have hsum : s base + sum32 s (a32 :: a32s) =
        s' (addRegToReg64Ext base a32.r a32.ext b).1 + sum32 s' a32s := by
      rw [hv, sum32_congr hrest hkeeps, add_assoc]
      rfl
    rw [hsum]
    exact ih _ _ s' hadd.lt_next fun x hx => lt_of_lt_of_le (hrest x hx) hadd.next_le

/-! ## The address mode -/

/-- The address mode denotes a value after the code that was emitted for it. -/
def Denotes (b : Code) (s : Regs) (size : AccessSize) (out : AddressMode × Code)
    (v : BitVec 64) : Prop :=
  ∃ s', Emits Instr.step b out.2 s s' ∧ out.1.denote size s' = some v

variable {size : AccessSize}

theorem Denotes.of_yields {out' : AddressMode × Code} {v w : BitVec 64} (h : Yields b s out v)
    (h' : ∀ s', (∀ r < b.next, s' r = s r) → s' out.1 = v → Denotes out.2 s' size out' w) :
    Denotes b s size out' w := by
  obtain ⟨s', hemits, -, hv⟩ := h
  obtain ⟨s'', hemits', hw⟩ := h' s' hemits.keeps hv
  exact ⟨s'', hemits.trans hemits', hw⟩

def AddressMode.IndexBelow (n : VReg) : AddressMode → Prop
  | regScaledExtended _ rm _ | regScaled _ rm | regExtended _ rm _ | regReg _ rm => rm < n
  | regSignedImm9 _ _ | regUnsignedImm12 _ _ => True

theorem AddressMode.index_congr {a : AddressMode} (h : a.IndexBelow n) (size : AccessSize)
    (hkeeps : ∀ r < n, s' r = s r) : a.index size s' = a.index size s := by
  cases a with
  | regScaledExtended | regScaled | regExtended | regReg => simp [index, hkeeps _ h]
  | regSignedImm9 | regUnsignedImm12 => rfl

theorem AddressMode.denote_withBase (a : AddressMode) (size : AccessSize) (s : Regs) (base : VReg) :
    (a.withBase base).denote size s = (a.index size s).map (s base + ·) := by
  cases a <;> rfl

variable {offset : BitVec 64}

theorem denotes_addRest (amode : AddressMode) {i : BitVec 64} (hbase : amode.rn < b.next)
    (hindex : amode.IndexBelow b.next) (h64 : ∀ r ∈ a64s, r < b.next)
    (h32 : ∀ x ∈ a32s, x.r < b.next) (hi : amode.index size s = some i) :
    Denotes b s size (addRest amode offset a64s a32s b)
      (s amode.rn + offset + sum64 s a64s + sum32 s a32s + i) := by
  have hoffset : Yields b s
      (if offset ≠ 0 then addConstToReg64 amode.rn offset b else (amode.rn, b))
      (s amode.rn + offset) := by
    by_cases hzero : offset = 0
    · rw [hzero, BitVec.ofNat_eq_ofNat, BitVec.add_zero]
      exact yields_self s hbase
    · rw [if_pos hzero]
      exact yields_addConstToReg64 s hbase hzero
  rw [addRest]
  generalize (if offset ≠ 0 then addConstToReg64 amode.rn offset b else (amode.rn, b)) = start
    at hoffset ⊢
  have hall : Yields b s
      (addAll32 (addAll64 start.1 a64s start.2).1 a32s (addAll64 start.1 a64s start.2).2)
      (s amode.rn + offset + sum64 s a64s + sum32 s a32s) := by
    apply hoffset.trans
    intro s₁ hkeeps₁ hv₁
    have h64' := yields_addAll64 a64s _ _ s₁ hoffset.lt_next
      fun r hr => lt_of_lt_of_le (h64 r hr) hoffset.next_le
    rw [hv₁, sum64_congr h64 hkeeps₁] at h64'
    apply h64'.trans
    intro s₂ hkeeps₂ hv₂
    have hkeeps : ∀ r < b.next, s₂ r = s r := fun r hr => by
      rw [hkeeps₂ r (lt_of_lt_of_le hr hoffset.next_le), hkeeps₁ r hr]
    have h32' := yields_addAll32 a32s _ _ s₂ h64'.lt_next
      fun x hx => lt_of_lt_of_le (h32 x hx) (le_trans hoffset.next_le h64'.next_le)
    rwa [hv₂, sum32_congr h32 hkeeps] at h32'
  obtain ⟨s', hemits, -, hv⟩ := hall
  refine ⟨s', hemits, ?_⟩
  rw [denote_withBase, index_congr hindex size hemits.keeps, hi, Option.map_some]
  exact congrArg (fun v => some (v + i)) hv

/-! ## The scaled index -/

theorem yields_extend (rn : VReg) (ext : ExtendOp) (b : Code) (s : Regs) :
    Yields b s (emitTo b fun rd => [.extend rd rn (ext = .sxtw)]) (ext.apply (s rn)) := by
  apply yields_emitTo
  cases ext <;> exact run_singleton rfl

theorem yields_materialize (s : Regs) (hr : a.r < b.next)
    (hshift : a.shift < 64) : Yields b s (materialize a b) (a.value s) := by
  have hlsl : ∀ (r : VReg) (b : Code) (s : Regs),
      Yields b s (emitTo b fun rd => [.lslImm rd r a.shift]) (s r <<< a.shift) := by
    intro r b s
    apply yields_emitTo
    apply run_singleton
    simp [Instr.step, guard, hshift]
  obtain ⟨r, ext, shift⟩ := a
  cases ext with
  | none => exact hlsl r b s
  | some ext =>
    apply (yields_extend r ext b s).trans
    intro s' _ hv
    have hshifted := hlsl (emitTo b fun rd => [.extend rd r (ext = .sxtw)]).1
      (emitTo b fun rd => [.extend rd r (ext = .sxtw)]).2 s'
    rwa [hv] at hshifted

def indexValue (s : Regs) (index : Option AddendShifted) : BitVec 64 :=
  index.elim 0 (AddendShifted.value s)

/-- An index whose shift is the scale of the access. -/
def IndexFits (size : AccessSize) (n : VReg) (index : Option AddendShifted) : Prop :=
  ∀ a ∈ index, a.r < n ∧ a.shift = size.scale

theorem IndexFits.congr {index : Option AddendShifted} (h : IndexFits size n index)
    (hkeeps : ∀ r < n, s' r = s r) : indexValue s' index = indexValue s index := by
  cases index with
  | none => rfl
  | some a => exact AddendShifted.value_congr (h a rfl).1 hkeeps

/-- No shift that is folded is taken for the scale of an access of 128 bits. -/
theorem scale_of_shift {shift : Nat} (hpos : 1 ≤ shift) (h : shift = sizeInBitsToShiftAmount size) :
    shift = size.scale := by
  cases size with
  | b8 | b16 | b32 | b64 => exact h
  | b128 =>
    rw [sizeInBitsToShiftAmount] at h
    omega

theorem takeScaledIndex_spec (size : AccessSize) : ∀ (as : List AddendShifted)
    (index : Option AddendShifted) (a64s : List VReg) (b : Code) (s : Regs),
    (∀ x ∈ as, x.r < b.next ∧ 1 ≤ x.shift ∧ x.shift ≤ 4) → IndexFits size b.next index →
    (∀ r ∈ a64s, r < b.next) →
    ∃ s', Emits Instr.step b (takeScaledIndex size as index a64s b).2.2 s s' ∧
      IndexFits size (takeScaledIndex size as index a64s b).2.2.next
        (takeScaledIndex size as index a64s b).1 ∧
      (∀ r ∈ (takeScaledIndex size as index a64s b).2.1,
        r < (takeScaledIndex size as index a64s b).2.2.next) ∧
      indexValue s' (takeScaledIndex size as index a64s b).1 +
          sum64 s' (takeScaledIndex size as index a64s b).2.1 =
        indexValue s index + sum64 s a64s + sumShifted s as := by
  intro as
  induction as with
  | nil =>
    intro index a64s b s _ hindex h64
    exact ⟨s, Emits.refl _ b s, hindex, h64, by simp [sumShifted, takeScaledIndex]⟩
  | cons a as ih =>
    intro index a64s b s hlt hindex h64
    obtain ⟨hr, hpos, hle⟩ := hlt a mem_cons_self
    have hrest : ∀ x ∈ as, x.r < b.next ∧ 1 ≤ x.shift ∧ x.shift ≤ 4 :=
      fun x hx => hlt x (mem_cons_of_mem _ hx)
    have hsum : sumShifted s (a :: as) = a.value s + sumShifted s as := by
      rfl
    rw [takeScaledIndex]
    by_cases htake : index = none ∧ a.shift = sizeInBitsToShiftAmount size
    · rw [if_pos htake]
      have hfits : IndexFits size b.next (some a) := by
        intro x hx
        cases hx
        exact ⟨hr, scale_of_shift hpos htake.2⟩
      obtain ⟨s', hemits, hindex', h64', hvalue⟩ := ih (some a) a64s b s hrest hfits h64
      refine ⟨s', hemits, hindex', h64', hvalue.trans ?_⟩
      rw [htake.1, hsum]
      simp only [indexValue, Option.elim_some, Option.elim_none]
      abel
    · rw [if_neg htake]
      obtain ⟨s₁, hemits₁, hlt₁, hv₁⟩ := yields_materialize s hr (show a.shift < 64 by omega)
      have hnext := hemits₁.next_le
      obtain ⟨s', hemits, hindex', h64', hvalue⟩ :=
        ih index (a64s ++ [(materialize a b).1]) (materialize a b).2 s₁
          (fun x hx => ⟨lt_of_lt_of_le (hrest x hx).1 hnext, (hrest x hx).2⟩)
          (fun x hx => ⟨lt_of_lt_of_le (hindex x hx).1 hnext, (hindex x hx).2⟩)
          (by
            intro r hr
            rcases mem_append.mp hr with hr | hr
            · exact lt_of_lt_of_le (h64 r hr) hnext
            · rw [mem_singleton.mp hr]
              exact hlt₁)
      refine ⟨s', hemits₁.trans hemits, hindex', h64', hvalue.trans ?_⟩
      rw [hindex.congr hemits₁.keeps, hsum,
        sumShifted_congr (fun x hx => (hrest x hx).1) hemits₁.keeps, sum64, map_append,
        sum_append, map_singleton, sum_singleton, hv₁, ← sum64,
        sum64_congr h64 hemits₁.keeps]
      abel

/-! ## The choice of the address mode -/

theorem index_scaledMode (base : VReg) (s : Regs) (h : a.shift = size.scale) :
    (scaledMode base a).index size s = some (a.value s) := by
  obtain ⟨r, ext, shift⟩ := a
  subst h
  cases ext <;> rfl

theorem rn_scaledMode (base : VReg) (a : AddendShifted) : (scaledMode base a).rn = base := by
  obtain ⟨r, ext, shift⟩ := a
  cases ext <;> rfl

theorem indexBelow_scaledMode (base : VReg) (h : a.r < n) : (scaledMode base a).IndexBelow n := by
  obtain ⟨r, ext, shift⟩ := a
  cases ext <;> exact h

theorem index_regUnsignedImm12 (base : VReg) (s : Regs)
    (h : offsetFitsInAddressModeKindRegUnsignedImm12 size offset = true) :
    (regUnsignedImm12 base offset).index size s = some offset := by
  rw [offsetFitsInAddressModeKindRegUnsignedImm12, decide_eq_true_eq] at h
  obtain ⟨hpos, hmod, hdiv⟩ := h
  have hmsb : offset.msb = false := by
    rw [msb_eq_toInt, decide_eq_false_iff_not]
    omega
  rw [toInt_eq_toNat_of_msb hmsb, ← Int.ofNat_tmod] at hmod
  rw [toInt_eq_toNat_of_msb hmsb, ← Int.ofNat_tdiv] at hdiv
  rw [index, if_pos]
  exact ⟨by exact_mod_cast hmod, by exact_mod_cast hdiv⟩

theorem index_regUnsignedImm12_zero (size : AccessSize) (base : VReg) (s : Regs) :
    (regUnsignedImm12 base 0).index size s = some 0 := by
  simp [index]

theorem index_regSignedImm9 (size : AccessSize) (base : VReg) (s : Regs)
    (h : offsetFitsInAddressModeKindRegSignedImm9 offset = true) :
    (regSignedImm9 base offset).index size s = some offset := by
  rw [offsetFitsInAddressModeKindRegSignedImm9, decide_eq_true_eq] at h
  rw [index, if_pos h]

theorem Denotes.eq {out : AddressMode × Code} {v w : BitVec 64} (h : Denotes b s size out v)
    (heq : v = w) : Denotes b s size out w :=
  heq ▸ h

theorem sum64_nil (s : Regs) : sum64 s [] = 0 := rfl

theorem sum32_nil (s : Regs) : sum32 s [] = 0 := rfl

theorem sum64_cons (s : Regs) (r : VReg) (a64s : List VReg) :
    sum64 s (r :: a64s) = s r + sum64 s a64s := by
  rfl

theorem sum32_cons (s : Regs) (a : Addend32) (a32s : List Addend32) :
    sum32 s (a :: a32s) = a.ext.apply (s a.r) + sum32 s a32s := by
  rfl

theorem yields_lowerConstantI64 (c : BitVec 64) (b : Code) (s : Regs) :
    Yields b s (emitTo b fun rd => lowerConstantI64 rd c) c :=
  yields_emitTo (run_lowerConstantI64 _ _ _)

theorem denotes_lowerScaled {index : AddendShifted} (s : Regs) (hr : index.r < b.next)
    (hshift : index.shift = size.scale) (h64 : ∀ r ∈ a64s, r < b.next)
    (h32 : ∀ x ∈ a32s, x.r < b.next) :
    Denotes b s size (lowerScaled index a64s a32s offset b)
      (index.value s + sum64 s a64s + sum32 s a32s + offset) := by
  cases a64s with
  | cons base a64s =>
    refine (denotes_addRest (scaledMode base index) ?_ (indexBelow_scaledMode base hr) ?_ h32
      (index_scaledMode base s hshift)).eq ?_
    · rw [rn_scaledMode]
      exact h64 base mem_cons_self
    · exact fun r hr => h64 r (mem_cons_of_mem _ hr)
    · rw [rn_scaledMode, sum64_cons]
      abel
  | nil =>
    have hconst := yields_lowerConstantI64 offset b s
    apply Denotes.of_yields hconst
    intro s' hkeeps hv
    refine (denotes_addRest (scaledMode _ index) ?_ (indexBelow_scaledMode _ ?_) (by simp) ?_
      (index_scaledMode _ s' hshift)).eq ?_
    · rw [rn_scaledMode]
      exact hconst.lt_next
    · exact lt_of_lt_of_le hr hconst.next_le
    · exact fun x hx => lt_of_lt_of_le (h32 x hx) hconst.next_le
    · rw [rn_scaledMode, sum64_nil, sum64_nil, sum32_congr h32 hkeeps,
        AddendShifted.value_congr hr hkeeps, show s' b.next = offset from hv]
      abel

theorem denotes_two_kinds (size : AccessSize) {base : VReg} {a32 : Addend32} (s : Regs)
    (hbase : base < b.next) (h64 : ∀ r ∈ a64s, r < b.next) (ha32 : a32.r < b.next)
    (h32 : ∀ x ∈ a32s, x.r < b.next) :
    Denotes b s size (addRest (.regExtended base a32.r a32.ext) offset a64s a32s b)
      (s base + sum64 s a64s + sum32 s (a32 :: a32s) + offset) := by
  refine (denotes_addRest (.regExtended base a32.r a32.ext) hbase ha32 h64 h32 rfl).eq ?_
  rw [sum32_cons, rn]
  abel

theorem denotes_only64 (size : AccessSize) {base : VReg} (s : Regs) (hbase : base < b.next)
    (h64 : ∀ r ∈ a64s, r < b.next) :
    Denotes b s size (lowerUnscaled size (base :: a64s) [] offset b)
      (s base + sum64 s a64s + offset) := by
  unfold lowerUnscaled
  split_ifs with h12 h9
  · refine (denotes_addRest (.regUnsignedImm12 base offset) hbase trivial h64 (by simp)
      (index_regUnsignedImm12 base s h12)).eq ?_
    rw [rn, sum32_nil]
    abel
  · refine (denotes_addRest (.regSignedImm9 base offset) hbase trivial h64 (by simp)
      (index_regSignedImm9 size base s h9)).eq ?_
    rw [rn, sum32_nil]
    abel
  · cases a64s with
    | cons index a64s =>
      refine (denotes_addRest (.regReg base index) hbase (h64 index mem_cons_self)
        (fun r hr => h64 r (mem_cons_of_mem _ hr)) (by simp) rfl).eq ?_
      rw [rn, sum32_nil, sum64_cons]
      abel
    | nil =>
      refine (denotes_addRest (.regUnsignedImm12 base 0) hbase trivial (by simp) (by simp)
        (index_regUnsignedImm12_zero size base s)).eq ?_
      rw [rn]
      abel

/-- The modes of 32-bit addends only, of which the first is extended to be the base. -/
theorem denotes_only32 (size : AccessSize) {base32 : Addend32} (s : Regs)
    (h32 : ∀ x ∈ a32s, x.r < b.next) :
    Denotes b s size (lowerUnscaled size [] (base32 :: a32s) offset b)
      (sum32 s (base32 :: a32s) + offset) := by
  have hext := yields_extend base32.r base32.ext b s
  simp only [lowerUnscaled]
  apply Denotes.of_yields hext
  intro s' hkeeps hv
  rw [sum32_cons, ← hv, ← sum32_congr h32 hkeeps]
  generalize (emitTo b fun rd => [Instr.extend rd base32.r (base32.ext = .sxtw)]) = out at hext hv ⊢
  have hnone : ∀ r ∈ ([] : List VReg), r < out.2.next := forall_mem_nil _
  cases a32s with
  | cons index a32s =>
    refine (denotes_two_kinds size s' hext.lt_next hnone
      (lt_of_lt_of_le (h32 index mem_cons_self) hext.next_le)
      fun x hx => lt_of_lt_of_le (h32 x (mem_cons_of_mem _ hx)) hext.next_le).eq ?_
    rw [sum64_nil]
    abel
  | nil =>
    refine (denotes_addRest (.regUnsignedImm12 out.1 0) hext.lt_next trivial hnone
      (forall_mem_nil _) (index_regUnsignedImm12_zero size out.1 s')).eq ?_
    rw [rn]
    abel

theorem denotes_offset (size : AccessSize) (offset : BitVec 64) (b : Code) (s : Regs) :
    Denotes b s size (lowerUnscaled size [] [] offset b) offset := by
  have hconst := yields_lowerConstantI64 offset b s
  apply Denotes.of_yields hconst
  intro s' _ hv
  refine (denotes_addRest (.regUnsignedImm12 _ 0) hconst.lt_next trivial (by simp) (by simp)
    (index_regUnsignedImm12_zero size _ s')).eq ?_
  rw [rn, hv]
  abel

theorem denotes_lowerUnscaled (size : AccessSize) (s : Regs) (h64 : ∀ r ∈ a64s, r < b.next)
    (h32 : ∀ x ∈ a32s, x.r < b.next) :
    Denotes b s size (lowerUnscaled size a64s a32s offset b)
      (sum64 s a64s + sum32 s a32s + offset) := by
  cases a64s with
  | cons base a64s =>
    have hbase := h64 base mem_cons_self
    have hrest : ∀ r ∈ a64s, r < b.next := fun r hr => h64 r (mem_cons_of_mem _ hr)
    rw [sum64_cons]
    cases a32s with
    | cons a32 a32s =>
      exact denotes_two_kinds size s hbase hrest (h32 a32 mem_cons_self)
        fun x hx => h32 x (mem_cons_of_mem _ hx)
    | nil =>
      refine (denotes_only64 size s hbase hrest).eq ?_
      abel
  | nil =>
    cases a32s with
    | cons base32 a32s =>
      refine (denotes_only32 size s fun x hx => h32 x (mem_cons_of_mem _ hx)).eq ?_
      abel
    | nil =>
      refine (denotes_offset size offset b s).eq ?_
      abel

theorem Denotes.of_emits {b b' : Code} {out : AddressMode × Code}
    (hemits : Emits Instr.step b b' s s') (h : Denotes b' s' size out v) :
    Denotes b s size out v := by
  obtain ⟨s'', hemits', hdenote⟩ := h
  exact ⟨s'', hemits.trans hemits', hdenote⟩

theorem denotes_fromAddends (size : AccessSize) (offset : BitVec 64) {a : Addends} (s : Regs)
    (ha : a.Below b.next) :
    Denotes b s size (lowerToAddressModeFromAddends a size offset b)
      (sum32 s a.a32s + sum64 s a.a64s + sumShifted s a.aShifted + offset) := by
  obtain ⟨s', hemits, hindex, h64, hvalue⟩ :=
    takeScaledIndex_spec size a.aShifted none a.a64s b s ha.aShifted (by simp [IndexFits]) ha.a64s
  rw [lowerToAddressModeFromAddends]
  generalize takeScaledIndex size a.aShifted none a.a64s b = out at hemits hindex h64 hvalue ⊢
  obtain ⟨index, a64s, b'⟩ := out
  have h32 : ∀ x ∈ a.a32s, x.r < b'.next :=
    fun x hx => lt_of_lt_of_le (ha.a32s x hx) hemits.next_le
  have hsum : indexValue s' index + sum64 s' a64s + sum32 s' a.a32s + offset =
      sum32 s a.a32s + sum64 s a.a64s + sumShifted s a.aShifted + offset := by
    rw [hvalue, sum32_congr ha.a32s hemits.keeps, indexValue, Option.elim_none]
    abel
  apply Denotes.of_emits hemits
  cases index with
  | some index =>
    exact (denotes_lowerScaled s' (hindex index rfl).1 (hindex index rfl).2 h64 h32).eq hsum
  | none =>
    refine (denotes_lowerUnscaled size s' h64 h32).eq (Eq.trans ?_ hsum)
    abel

/-! ## The values that are merged stay the same -/

@[simp] theorem emitTo_lowered (b : Code) (is : VReg → List Instr) :
    (emitTo b is).2.lowered = b.lowered := rfl

@[simp] theorem lowerConstant_lowered (c : BitVec 64) (b : Code) :
    (lowerConstant c b).2.lowered = b.lowered := rfl

@[simp] theorem addConstToReg64_lowered (r : VReg) (c : BitVec 64) (b : Code) :
    (addConstToReg64 r c b).2.lowered = b.lowered := by
  simp only [addConstToReg64]
  cases asImm12 c with
  | some => rfl
  | none => cases asImm12 (-c) <;> rfl

@[simp] theorem addAll64_lowered (a64s : List VReg) (base : VReg) (b : Code) :
    (addAll64 base a64s b).2.lowered = b.lowered := by
  induction a64s generalizing base b with
  | nil => rfl
  | cons a64 a64s ih => simp [addAll64, ih, addReg64ToReg64]

@[simp] theorem addAll32_lowered (a32s : List Addend32) (base : VReg) (b : Code) :
    (addAll32 base a32s b).2.lowered = b.lowered := by
  induction a32s generalizing base b with
  | nil => rfl
  | cons a32 a32s ih => simp [addAll32, ih, addRegToReg64Ext]

@[simp] theorem addRest_lowered (amode : AddressMode) (offset : BitVec 64) (a64s : List VReg)
    (a32s : List Addend32) (b : Code) : (addRest amode offset a64s a32s b).2.lowered =
      b.lowered := by
  simp only [addRest, addAll32_lowered, addAll64_lowered]
  split_ifs
  · exact addConstToReg64_lowered _ _ _
  · rfl

@[simp] theorem takeScaledIndex_lowered (size : AccessSize) (as : List AddendShifted)
    (index : Option AddendShifted) (a64s : List VReg) (b : Code) :
    (takeScaledIndex size as index a64s b).2.2.lowered = b.lowered := by
  induction as generalizing index a64s b with
  | nil => rfl
  | cons a as ih =>
    rw [takeScaledIndex]
    split_ifs
    · exact ih _ _ _
    · refine (ih _ _ _).trans ?_
      obtain ⟨r, ext, shift⟩ := a
      cases ext <;> rfl

@[simp] theorem lowerScaled_lowered (index : AddendShifted) (a64s : List VReg)
    (a32s : List Addend32)
    (offset : BitVec 64) (b : Code) :
    (lowerScaled index a64s a32s offset b).2.lowered = b.lowered := by
  cases a64s <;> simp [lowerScaled]

@[simp] theorem lowerUnscaled_lowered (size : AccessSize) (a64s : List VReg) (a32s : List Addend32)
    (offset : BitVec 64) (b : Code) :
    (lowerUnscaled size a64s a32s offset b).2.lowered = b.lowered := by
  cases a64s with
  | nil =>
    cases a32s with
    | nil => simp [lowerUnscaled]
    | cons base32 a32s => cases a32s <;> simp [lowerUnscaled]
  | cons base a64s =>
    cases a32s with
    | nil =>
      simp only [lowerUnscaled]
      split_ifs
      · simp
      · simp
      · cases a64s <;> simp
    | cons => simp [lowerUnscaled]

@[simp] theorem lowerToAddressModeFromAddends_lowered (a : Addends) (size : AccessSize)
    (offset : BitVec 64) (b : Code) :
    (lowerToAddressModeFromAddends a size offset b).2.lowered = b.lowered := by
  have htake := takeScaledIndex_lowered size a.aShifted none a.a64s b
  rw [lowerToAddressModeFromAddends]
  generalize takeScaledIndex size a.aShifted none a.a64s b = out at htake ⊢
  obtain ⟨index, a64s, b'⟩ := out
  cases index with
  | some index => exact (lowerScaled_lowered _ _ _ _ _).trans htake
  | none => exact (lowerUnscaled_lowered _ _ _ _ _).trans htake

end Andsifr.Arm64
