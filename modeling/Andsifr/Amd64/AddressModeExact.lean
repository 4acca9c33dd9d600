import Andsifr.Amd64.AddressModeCorrect
import Andsifr.Lib.Check

namespace Andsifr.Amd64

open Lib.Emission Pointer Lib.Emission.Regs List Lib.Check

/-! ## The values that are merged -/

def Pointer.summands : Pointer → List Pointer
  | .iadd _ x y => [x, y]
  | p => [p]

/-- The addends that the lowering looks at. An offset with the sign bit set leaves no room for a
second one. -/
def Pointer.addends (offsetBase : BitVec 32) (ptr : Pointer) : List Pointer :=
  if offsetBase.msb then [ptr] else ptr.summands

/-- An operand that is a constant is inlined. -/
def Pointer.inlined : Pointer → List VReg
  | .iconst v _ _ => [v]
  | _ => []

def Pointer.markedAddend : Pointer → List VReg
  | .iconst v _ _ | .extend v _ _ => [v]
  | .ishl v x _ => v :: x.inlined
  | _ => []

def Pointer.markedSum : Pointer → List VReg
  | .iadd v _ _ => [v]
  | _ => []

/-- The values whose instructions the lowering takes over. -/
def Pointer.marked (offsetBase : BitVec 32) (ptr : Pointer) : List VReg :=
  (ptr.addends offsetBase).flatMap markedAddend ++
    if offsetBase.msb then [] else ptr.markedSum

def Pointer.subterms : Pointer → List Pointer
  | .iadd v x y => .iadd v x y :: (x.subterms ++ y.subterms)
  | .ishl v x amount => .ishl v x amount :: x.subterms
  | .extendLow v signed bits x => .extendLow v signed bits x :: x.subterms
  | p => [p]

/-- The register of a value that an instruction of the expression computes. -/
def Pointer.own : Pointer → List VReg
  | .reg _ => []
  | p => [p.vreg]

def Pointer.values (p : Pointer) : List VReg :=
  p.subterms.flatMap own

/-- The result of an instruction that is merged only into its one use, unlike a constant. -/
def Pointer.single : Pointer → Bool
  | .reg _ | .iconst _ _ _ => false
  | _ => true

/-- Constants apart, each value of the expression is used once. -/
def Pointer.UsedOnce (ptr : Pointer) : Prop :=
  ∀ p ∈ ptr.subterms, p.single = true → ptr.values.count p.vreg ≤ 1

variable {b b' : Code}

variable {am : Amode}

variable {offsetBase : BitVec 32} {ptr : Pointer}

theorem lowerToAddressMode_iadd (v : VReg) (x y : Pointer) (b : Code) (h : offsetBase.msb = false) :
    lowerToAddressMode (.iadd v x y) offsetBase b = (do
      let (ax, b) ← lowerAddend x b
      let (ay, b) ← lowerAddend y b
      lowerAddendsToAmode ax ay offsetBase (b.markLowered v)) :=
  if_neg (by simp [h])

/-- An address is lowered as one addend, unless it is a sum and the offset leaves room for both. -/
theorem single_or_sum (offsetBase : BitVec 32) (ptr : Pointer) :
    (ptr.addends offsetBase = [ptr] ∧ ptr.marked offsetBase = ptr.markedAddend ∧
      ∀ b, lowerToAddressMode ptr offsetBase b = lowerHugeOffset ptr offsetBase b ∨
        offsetBase.msb = false ∧
          lowerToAddressMode ptr offsetBase b = lowerSingleAddend ptr offsetBase b) ∨
      ∃ v x y, ptr = .iadd v x y ∧ offsetBase.msb = false := by
  cases hmsb : offsetBase.msb with
  | true =>
    have haddends : ptr.addends offsetBase = [ptr] := if_pos hmsb
    exact .inl ⟨haddends, by simp [marked, haddends, hmsb], fun b => .inl (if_pos hmsb)⟩
  | false =>
    have hneg : ¬ offsetBase.msb = true := by simp [hmsb]
    cases ptr with
    | iadd v x y => exact .inr ⟨v, x, y, rfl, rfl⟩
    | reg | iconst | ishl | extend | extendLow =>
      exact .inl ⟨if_neg hneg, by simp [marked, addends, summands, markedSum, hmsb],
        fun b => .inr ⟨rfl, if_neg hneg⟩⟩

/-! ## The values that are read -/

/-- The registers of the results of instructions that an addend is made of. -/
def Pointer.kept : Pointer → List VReg
  | .iadd v _ _ => [v]
  | .ishl _ (.iconst _ _ _) _ => []
  | .ishl _ x _ => x.own
  | _ => []

theorem Pointer.values_iadd (v : VReg) (x y : Pointer) :
    (iadd v x y).values = v :: (x.values ++ y.values) := by
  simp [values, subterms, own, vreg]

theorem Pointer.values_ishl (v : VReg) (x : Pointer) (amount : ShiftAmount) :
    (ishl v x amount).values = v :: x.values := by
  simp [values, subterms, own, vreg]

theorem Pointer.mem_subterms_self (p : Pointer) : p ∈ p.subterms := by
  cases p <;> simp [subterms]

theorem Pointer.count_own_le (p : Pointer) (v : VReg) : p.own.count v ≤ p.values.count v := by
  cases p <;> simp [values, subterms, own, vreg, count_cons]

theorem Pointer.count_marked_kept (p : Pointer) (v : VReg) :
    p.markedAddend.count v + p.kept.count v ≤ p.values.count v := by
  cases p with
  | reg | iconst | extend | extendLow =>
    simp [markedAddend, kept, values, subterms, own, vreg]
  | iadd w x y =>
    rw [values_iadd]
    simp [markedAddend, kept, count_cons]
  | ishl w x amount =>
    have hown := x.count_own_le v
    rw [values_ishl, markedAddend, count_cons, count_cons]
    cases x with
    | iconst => simpa [inlined, kept, own, vreg] using hown
    | reg | iadd | ishl | extend | extendLow =>
      simp only [inlined, kept, count_nil] at hown ⊢
      omega

theorem Pointer.count_marked_addends (offsetBase : BitVec 32) (ptr : Pointer) (v : VReg) :
    (ptr.marked offsetBase).count v + ((ptr.addends offsetBase).flatMap kept).count v ≤
      ptr.values.count v := by
  obtain ⟨haddends, hmarked, -⟩ | ⟨w, x, y, rfl, hmsb⟩ := single_or_sum offsetBase ptr
  · simpa [haddends, hmarked] using ptr.count_marked_kept v
  · have hx := x.count_marked_kept v
    have hy := y.count_marked_kept v
    simp only [marked, addends, hmsb, Bool.false_eq_true, if_false, summands, markedSum,
      flatMap_cons, flatMap_nil, append_nil, count_append, values_iadd, count_cons, count_nil]
    omega

theorem Pointer.subterms_addends {ptr p q : Pointer} (hp : p ∈ ptr.addends offsetBase)
    (hq : q ∈ p.subterms) : q ∈ ptr.subterms := by
  by_cases hself : p = ptr
  · rwa [← hself]
  rw [addends] at hp
  split at hp
  · exact absurd (mem_singleton.mp hp) hself
  cases ptr with
  | iadd v x y =>
    rw [subterms, mem_cons, mem_append]
    rw [summands, mem_cons, mem_singleton] at hp
    rcases hp with rfl | rfl
    · exact .inr (.inl hq)
    · exact .inr (.inr hq)
  | reg | iconst | ishl | extend | extendLow => exact absurd (mem_singleton.mp hp) hself

/-- The values that are not merged are in their registers. -/
def InRegisters (s : Regs) (lowered : List VReg) (ptr : Pointer) : Prop :=
  ∀ p ∈ ptr.subterms, p.vreg ∉ lowered → s p.vreg = p.value s

/-- The registers of 32-bit values have clear upper halves. -/
def Pointer.ZeroExtended (s : Regs) : Pointer → Prop
  | .extend _ _ x => x.ZeroExtended s
  | _ => True

section Ready

variable {s : Regs} {ptr p : Pointer} {offsetBase : BitVec 32}

theorem ready_of_kept {lowered : List VReg} (hs : InRegisters s lowered p)
    (hzero : ∀ q ∈ p.subterms, q.ZeroExtended s) (hkept : ∀ v ∈ p.kept, v ∉ lowered) :
    p.Ready s := by
  have hself := p.mem_subterms_self
  cases p with
  | reg | iconst | extendLow => trivial
  | iadd v x y => exact hs _ hself (hkept v (by simp [kept]))
  | extend v signed x => exact hzero _ hself
  | ishl v x amount =>
    have hx : x ∈ (ishl v x amount).subterms := by
      simp [subterms, x.mem_subterms_self]
    cases x with
    | iconst => trivial
    | reg => rfl
    | iadd | ishl | extend | extendLow => exact hs _ hx (hkept _ (by simp [kept, own]))

theorem single_of_kept {v : VReg} (h : v ∈ p.kept) :
    ∃ q ∈ p.subterms, q.single = true ∧ q.vreg = v := by
  cases p with
  | reg | iconst | extend | extendLow => cases h
  | iadd w x y => exact ⟨_, mem_subterms_self _, rfl, (mem_singleton.mp h).symm⟩
  | ishl w x amount =>
    cases x with
    | reg | iconst => cases h
    | iadd | ishl | extend | extendLow =>
      exact ⟨_, mem_cons_of_mem _ (mem_subterms_self _), rfl, (mem_singleton.mp h).symm⟩

/-- An addend is ready, for a value that is used once is not both merged and read. -/
theorem ready_of_addend (honce : ptr.UsedOnce) (hs : InRegisters s (ptr.marked offsetBase) ptr)
    (hzero : ∀ q ∈ ptr.subterms, q.ZeroExtended s) (hp : p ∈ ptr.addends offsetBase) :
    p.Ready s := by
  refine ready_of_kept (fun q hq => hs q (subterms_addends hp hq))
    (fun q hq => hzero q (subterms_addends hp hq)) ?_
  intro v hv hmarked
  have hkept : 0 < ((ptr.addends offsetBase).flatMap kept).count v :=
    count_pos_iff.mpr (mem_flatMap.mpr ⟨p, hp, hv⟩)
  have hcount := count_pos_iff.mpr hmarked
  obtain ⟨q, hq, hsingle, rfl⟩ := single_of_kept hv
  have hone := honce q (subterms_addends hp hq) hsingle
  have := ptr.count_marked_addends offsetBase q.vreg
  omega

end Ready

/-! ## When the address is right -/

/-- Nothing of the value of the pointer is lost: every addend can be lowered, what the addends drop
adds up to nothing, and of two shifted addends the first is shifted in place without effect. -/
structure Represented (s : Regs) (offsetBase : BitVec 32) (ptr : Pointer) : Prop where
  lowers : ∀ p ∈ ptr.addends offsetBase, p.lowers = true
  dropped : ((ptr.addends offsetBase).map (dropped s)).sum = 0
  shifted : ∀ x y, ptr.addends offsetBase = [x, y] → x.scale ≠ 0 → y.scale ≠ 0 → x.ShiftsIdly s

theorem sub_add_eq_iff (v d o : BitVec 64) : v - d + o = v + o ↔ d = 0 := by
  rw [add_left_inj, sub_eq_self]

theorem represented_single {s : Regs} (h : ptr.addends offsetBase = [ptr]) :
    Represented s offsetBase ptr ↔ ptr.lowers = true ∧ ptr.dropped s = 0 := by
  constructor
  · intro hrep
    have hdropped := hrep.dropped
    rw [h, map_singleton, sum_singleton] at hdropped
    exact ⟨hrep.lowers ptr (h ▸ mem_singleton_self ptr), hdropped⟩
  · rintro ⟨hlowers, hdropped⟩
    refine ⟨?_, ?_, ?_⟩
    · rw [h]
      exact forall_mem_singleton.mpr hlowers
    · rw [h, map_singleton, sum_singleton, hdropped]
    · intro x y hxy
      rw [h] at hxy
      cases hxy

theorem represented_sum {s : Regs} {ptr x y : Pointer} (h : ptr.addends offsetBase = [x, y]) :
    Represented s offsetBase ptr ↔ (x.lowers = true ∧ y.lowers = true) ∧
      x.dropped s + y.dropped s = 0 ∧ (x.scale ≠ 0 → y.scale ≠ 0 → x.ShiftsIdly s) := by
  have hsum : ((ptr.addends offsetBase).map (dropped s)).sum = x.dropped s + y.dropped s := by
    simp [h]
  constructor
  · intro hrep
    exact ⟨⟨hrep.lowers x (by simp [h]), hrep.lowers y (by simp [h])⟩, hsum ▸ hrep.dropped,
      hrep.shifted x y h⟩
  · rintro ⟨hlowers, hdropped, hshifted⟩
    refine ⟨?_, hsum.trans hdropped, ?_⟩
    · simpa [h] using hlowers
    · intro x' y' hxy
      rw [h] at hxy
      cases hxy
      exact hshifted

theorem dropped_of_scale {s : Regs} {p : Pointer} (h : p.scale ≠ 0) : p.dropped s = 0 := by
  unfold scale at h
  split at h
  · next v x c =>
      have hc : c ≤ 3 := not_not.mp fun hc => h (if_neg hc)
      simp only [dropped, ShiftAmount.folded, hc, decide_true, if_true]
  · exact absurd rfl h

section Sum

variable {b : Code} {s : Regs} {v : VReg} {x y : Pointer} {offsetBase : BitVec 32}

theorem step_shiftLeft (s : Regs) (r : VReg) {k : Nat} (hk : k ≤ 3) :
    [Instr.shiftLeft (BitVec.ofNat 32 k) r].foldlM Instr.step s = some (s.set r (s r <<< k)) := by
  have hmod : (BitVec.ofNat 32 k).toNat % 64 = k := by
    rw [BitVec.toNat_ofNat]
    omega
  show some (s.set r (s r <<< ((BitVec.ofNat 32 k).toNat % 64))) = _
  rw [hmod]

/-- A shift in place is right if the register is new or if it keeps its value. -/
theorem denotes_shifted_iff {b₂ : Code} {s₂ : Regs} {rx ry : VReg} {k ky : Nat}
    (hoff : offsetBase.msb = false) (hemits : Emits Instr.step b b₂ s s₂) (hk : k ≤ 3)
    (hne : b.next ≤ rx → ry ≠ rx) :
    Denotes b s (.ok (.regRegShift offsetBase rx ry ky,
        b₂.insert [.shiftLeft (BitVec.ofNat 32 k) rx]))
        (s₂ rx <<< k + s₂ ry <<< ky + offsetBase.setWidth 64) ↔
      (b.next ≤ rx ∨ s rx <<< k = s rx) := by
  obtain ⟨is, hcode, hrun⟩ := hemits.code
  have hcode' : (b₂.insert [.shiftLeft (BitVec.ofNat 32 k) rx]).code =
      b.code ++ (is ++ [.shiftLeft (BitVec.ofNat 32 k) rx]) := by
    rw [← append_assoc, ← hcode]
    rfl
  have hrun' : (is ++ [Instr.shiftLeft (BitVec.ofNat 32 k) rx]).foldlM Instr.step s =
      some (s₂.set rx (s₂ rx <<< k)) := by
    rw [foldlM_append, hrun]
    exact step_shiftLeft s₂ rx hk
  constructor
  · rintro ⟨am, b', s', hres, hemits', -⟩
    cases hres
    obtain ⟨js, hjs, hrunjs⟩ := hemits'.code
    have hs' : s' = s₂.set rx (s₂ rx <<< k) := by
      rw [← append_cancel_left (hcode'.symm.trans hjs), hrun'] at hrunjs
      exact (Option.some.inj hrunjs).symm
    by_cases hrx : b.next ≤ rx
    · exact .inl hrx
    · have hkeep := hemits'.keeps rx (Nat.lt_of_not_le hrx)
      rw [hs', set_same, hemits.keeps rx (Nat.lt_of_not_le hrx)] at hkeep
      exact .inr hkeep
  · intro hidle
    have hkeeps : ∀ r < b.next, s₂.set rx (s₂ rx <<< k) r = s r := by
      intro r hr
      by_cases hrx : r = rx
      · subst hrx
        rw [set_same, hemits.keeps r hr]
        exact hidle.resolve_left (Nat.not_le_of_lt hr)
      · rw [set_of_ne _ _ hrx, hemits.keeps r hr]
    refine ⟨_, _, _, rfl, ⟨⟨_, hcode', hrun'⟩, hemits.next_le, hkeeps⟩, ?_⟩
    have hry : s₂.set rx (s₂ rx <<< k) ry = s₂ ry := by
      by_cases hsame : ry = rx
      · have hlt : rx < b.next := Nat.lt_of_not_le fun hle => hne hle hsame
        rw [hsame, set_same, hemits.keeps rx hlt]
        exact hidle.resolve_left (Nat.not_le_of_lt hlt)
      · exact set_of_ne _ _ hsame
    rw [Amode.denote, signExtend_of_msb hoff, set_same, hry]
    abel

theorem denotes_sum_iff (hoff : offsetBase.msb = false) (hbx : x.Below b.next)
    (hby : y.Below b.next)
    (hrx : x.Ready s) (hry : y.Ready s) (hlx : x.lowers = true) (hly : y.lowers = true) :
    Denotes b s (lowerToAddressMode (.iadd v x y) offsetBase b)
        (x.value s + y.value s + offsetBase.setWidth 64) ↔
      x.dropped s + y.dropped s = 0 ∧ (x.scale ≠ 0 → y.scale ≠ 0 → x.ShiftsIdly s) := by
  obtain ⟨ax, b₁, s₁, hx, hemits₁, haddsx⟩ :=
    lowerAddend_spec (le_refl _) (fun _ _ => rfl) hbx hrx hlx
  obtain ⟨ay, b₂, s₂, hy, hemits₂, haddsy⟩ :=
    lowerAddend_spec hemits₁.next_le hemits₁.keeps hby hry hly
  have hemits : Emits Instr.step b (b₂.markLowered v) s s₂ := (hemits₁.trans hemits₂).markLowered v
  have hbelowx : ∀ r ∈ ax.r, r < b₂.next := fun r hr =>
    lt_of_lt_of_le (haddsx.below r hr) hemits₂.next_le
  have hvaluex : ax.off + ax.index s₂ + x.dropped s = x.value s := by
    rw [Addend.index_congr fun r hr => hemits₂.keeps r (haddsx.below r hr)]
    exact haddsx.value
  have hlex : ax.shift ≤ 3 := haddsx.shift ▸ x.scale_le
  have hley : ay.shift ≤ 3 := haddsy.shift ▸ y.scale_le
  have hlower : lowerToAddressMode (.iadd v x y) offsetBase b =
      lowerAddendsToAmode ax ay offsetBase (b₂.markLowered v) := by
    rw [lowerToAddressMode_iadd v x y b hoff]
    simp only [hx, hy, bind, Except.bind]
  rw [hlower]
  rw [← hvaluex, ← haddsy.value]
  by_cases hboth : ax.shift ≠ 0 ∧ ay.shift ≠ 0
  · have hscale : x.scale ≠ 0 ∧ y.scale ≠ 0 := by rwa [← haddsx.shift, ← haddsy.shift]
    obtain ⟨rx, hrx, hsourcex⟩ := haddsx.source hscale.1
    obtain ⟨ry, hry, hsourcey⟩ := haddsy.source hscale.2
    have hne : b.next ≤ rx → ry ≠ rx := by
      have hltx := haddsx.below rx hrx
      rcases hsourcey with ⟨hfresh, -⟩ | ⟨hown, -⟩
      · exact fun _ => ne_of_gt (lt_of_lt_of_le hltx hfresh)
      · exact fun hle => ne_of_lt (lt_of_lt_of_le hown hle)
    have hidle : x.ShiftsIdly s ↔ (b.next ≤ rx ∨ s rx <<< ax.shift = s rx) := by
      rw [haddsx.shift]
      rcases hsourcex with ⟨hfresh, hidle⟩ | ⟨hown, hiff⟩
      · exact ⟨fun _ => .inl hfresh, fun _ => hidle⟩
      · rw [hiff, or_iff_right (Nat.not_le_of_lt hown)]
    rw [lowerAddendsToAmode_shifted hoff hrx hry (haddsx.off rx hrx)
      (haddsy.off ry hry) hboth.1 hboth.2
      hley, dropped_of_scale hscale.1, dropped_of_scale hscale.2, haddsx.off rx hrx,
        haddsy.off ry hry,
      Addend.index, Addend.index, hrx, hry]
    simp only [Option.elim_some, zero_add, add_zero]
    rw [denotes_shifted_iff hoff hemits hlex hne, ← hidle]
    simp [hscale]
  · have h := (denotes_lowerAddendsToAmode (b := b₂.markLowered v) hoff haddsx.off haddsy.off
      hbelowx haddsy.below haddsx.unshifted haddsy.unshifted hlex hley hboth).after hemits
    rw [h.iff_eq, add_left_inj, add_add_add_comm (ax.off + ax.index s₂), left_eq_add]
    rw [haddsx.shift, haddsy.shift] at hboth
    exact ⟨fun h => ⟨h, fun hx hy => absurd ⟨hx, hy⟩ hboth⟩, fun h => h.1⟩

end Sum

/-- The address mode stands for the pointer plus the offset, with every register in use unchanged,
exactly if nothing of the pointer is lost. -/
theorem addressMode_denotes_iff (ptr : Pointer) (offsetBase : BitVec 32) (b : Code) (s : Regs)
    (hbelow : ptr.Below b.next) (honce : ptr.UsedOnce)
    (hzero : ∀ p ∈ ptr.subterms, p.ZeroExtended s)
    (hs : InRegisters s (ptr.marked offsetBase) ptr) :
    Denotes b s (lowerToAddressMode ptr offsetBase b) (ptr.value s + offsetBase.setWidth 64) ↔
      Represented s offsetBase ptr := by
  have hready : ∀ p ∈ ptr.addends offsetBase, p.Ready s := fun p hp =>
    ready_of_addend honce hs hzero hp
  obtain ⟨haddends, -, hlower⟩ | ⟨v, x, y, rfl, hoff⟩ := single_or_sum offsetBase ptr
  · rw [represented_single haddends]
    cases hlowers : ptr.lowers with
    | false =>
      obtain ⟨e, he⟩ := @error_of_not_lowers b ptr hlowers
      rcases hlower b with hlower | ⟨-, hlower⟩ <;>
        simp [hlower, lowerHugeOffset, lowerSingleAddend, he, not_denotes_error, bind, Except.bind]
    | true =>
      have hdenotes : Denotes b s (lowerToAddressMode ptr offsetBase b)
          (ptr.value s - ptr.dropped s + offsetBase.setWidth 64) := by
        have hready := hready ptr (by simp [haddends])
        rcases hlower b with hlower | ⟨hoff, hlower⟩ <;> rw [hlower]
        · exact denotes_lowerHugeOffset hbelow hready hlowers
        · exact denotes_lowerSingleAddend hoff hbelow hready hlowers
      rw [hdenotes.iff_eq, sub_add_eq_iff]
      simp
  · have hsum : (iadd v x y).addends offsetBase = [x, y] := if_neg (by simp [hoff])
    rw [hsum] at hready
    have hrx := hready x (by simp)
    have hry := hready y (by simp)
    rw [represented_sum hsum]
    cases hlx : x.lowers with
    | false =>
      obtain ⟨e, he⟩ := @error_of_not_lowers b x hlx
      simp [lowerToAddressMode_iadd v x y b hoff, he, not_denotes_error, bind, Except.bind]
    | true =>
      cases hly : y.lowers with
      | false =>
        obtain ⟨a, b', s', hx, -⟩ :=
          lowerAddend_spec (le_refl _) (fun _ _ => rfl) hbelow.2.1 hrx hlx
        obtain ⟨e, he⟩ := @error_of_not_lowers b' y hly
        simp [lowerToAddressMode_iadd v x y b hoff, hx, he, not_denotes_error, bind, Except.bind]
      | true =>
        have h := denotes_sum_iff (v := v) hoff hbelow.2.1 hbelow.2.2 hrx hry hlx hly
        rw [value, h]
        simp

/-- An element of an array, with the index scaled by the address. -/
theorem addressMode_denotes_element :
    Denotes ⟨[], 4, []⟩ (fun r => BitVec.ofNat 64 r)
      (lowerToAddressMode (.iadd 2 (.reg 0) (.ishl 3 (.reg 1) (.const 3))) 16 ⟨[], 4, []⟩) 24 := by
  refine (addressMode_denotes_iff (.iadd 2 (.reg 0) (.ishl 3 (.reg 1) (.const 3))) 16 ⟨[], 4, []⟩ _
    (by simp [Pointer.Below]) ?_ (by simp [subterms, Pointer.ZeroExtended]) ?_).mpr ?_
  · unfold UsedOnce
    decide
  · intro p hp hnot
    simp only [subterms, cons_append, nil_append, mem_cons,
      not_mem_nil, or_false] at hp
    rcases hp with rfl | rfl | rfl | rfl
    · exact absurd (by decide) hnot
    · rfl
    · exact absurd (by decide) hnot
    · rfl
  · refine ⟨by decide, by decide, ?_⟩
    intro x y hxy hx
    cases hxy
    exact absurd rfl hx

/-- The element of size 16 with the index in register 1: the shift by 4 is not folded, and the
address is the index itself. -/
theorem addressMode_drops_shift :
    ¬ ∀ (ptr : Pointer) (offsetBase : BitVec 32) (b : Code) (s : Regs), ptr.Below b.next →
      ptr.values.Nodup → (∀ p ∈ ptr.subterms, p.ZeroExtended s) →
      InRegisters s (ptr.marked offsetBase) ptr →
      Denotes b s (lowerToAddressMode ptr offsetBase b) (ptr.value s + offsetBase.setWidth 64) := by
  intro h
  have hregs : InRegisters (fun r => BitVec.ofNat 64 r) [2] (.ishl 2 (.reg 1) (.const 4)) := by
    intro p hp hnot
    simp only [subterms, mem_cons, not_mem_nil, or_false] at hp
    rcases hp with rfl | rfl
    · exact absurd (by decide) hnot
    · rfl
  obtain ⟨am, b', s', hres, hemits, hdenote⟩ :=
    h (.ishl 2 (.reg 1) (.const 4)) 0 ⟨[], 3, []⟩ (fun r => BitVec.ofNat 64 r)
      (by simp [Pointer.Below])
      (by decide) (by simp [subterms, Pointer.ZeroExtended]) hregs
  obtain ⟨rfl, rfl⟩ : am = .immReg 0 1 ∧ b' = ⟨[], 3, [2]⟩ := by
    cases hres
    exact ⟨rfl, rfl⟩
  have hone := hemits.keeps 1 (by decide)
  rw [Amode.denote, hone] at hdenote
  exact absurd hdenote (by decide)

end Andsifr.Amd64
