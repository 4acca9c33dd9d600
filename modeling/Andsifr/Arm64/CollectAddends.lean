import Andsifr.Arm64.AddressModeCorrect

namespace Andsifr.Arm64

open Lib.Emission Addends List

/-! ## The values that are merged -/

/-- Whether a shift by the amount is folded into an address. -/
def ShiftAmount.folded : ShiftAmount → Bool
  | .const c => 1 ≤ (c &&& 63).toNat ∧ (c &&& 63).toNat ≤ 4
  | .reg _ => false

/-- The operand of a folded shift is merged as well if it is a constant or an extension. -/
def Pointer.mergedOperand : Pointer → Bool
  | .extend _ _ (.reg _) | .iconst _ _ _ => true
  | _ => false

/-- The values whose instructions the lowering takes over. -/
def Pointer.marked : Pointer → List VReg
  | .reg _ => []
  | .iconst v _ _ | .extend v _ _ => [v]
  | .iadd v x y => v :: (x.marked ++ y.marked)
  | .ishl v x amount =>
    if amount.folded then (if x.mergedOperand then [x.vreg] else []) ++ [v] else []

/-- The values that the lowering reads from their registers, parameters apart. -/
def Pointer.read : Pointer → List Pointer
  | .iadd _ x y => x.read ++ y.read
  | .ishl v x amount =>
    if amount.folded then (if x.mergedOperand then [] else [x]) else [.ishl v x amount]
  | _ => []

def Pointer.subterms : Pointer → List Pointer
  | .iadd v x y => .iadd v x y :: (x.subterms ++ y.subterms)
  | .ishl v x amount => .ishl v x amount :: x.subterms
  | p => [p]

/-- The register of a value that an instruction of the expression computes. -/
def Pointer.own : Pointer → List VReg
  | .reg _ => []
  | p => [p.vreg]

def Pointer.values (p : Pointer) : List VReg :=
  p.subterms.flatMap Pointer.own

/-- The result of an instruction that is merged only into its one use, unlike a constant. -/
def Pointer.single : Pointer → Bool
  | .reg _ | .iconst _ _ _ => false
  | _ => true

/-- Constants apart, each value of the expression is used once, and not merged before. -/
def Pointer.UsedOnce (ptr : Pointer) (lowered : List VReg) : Prop :=
  ∀ p ∈ ptr.subterms, p.single = true → p.vreg ∉ lowered ∧ ptr.values.count p.vreg ≤ 1

theorem Pointer.mem_subterms_self (p : Pointer) : p ∈ p.subterms := by
  cases p <;> simp [subterms]

theorem Pointer.values_iadd (v : VReg) (x y : Pointer) :
    (Pointer.iadd v x y).values = v :: (x.values ++ y.values) := by
  simp [values, subterms, own, vreg]

theorem Pointer.values_ishl (v : VReg) (x : Pointer) (amount : ShiftAmount) :
    (Pointer.ishl v x amount).values = v :: x.values := by
  simp [values, subterms, own, vreg]

theorem Pointer.count_own_le (p : Pointer) (v : VReg) : p.own.count v ≤ p.values.count v := by
  cases p with
  | reg | iconst | extend => simp [values, subterms]
  | iadd => simp [values_iadd, own, vreg, count_cons]
  | ishl => simp [values_ishl, own, vreg, count_cons]

variable {p : Pointer}

theorem Pointer.own_of_mergedOperand (h : p.mergedOperand = true) : p.own = [p.vreg] := by
  cases p with
  | reg | iadd | ishl => cases h
  | iconst | extend => rfl

theorem Pointer.count_marked_read (p : Pointer) (v : VReg) :
    p.marked.count v + (p.read.flatMap Pointer.own).count v ≤ p.values.count v := by
  induction p with
  | reg | iconst | extend => simp [marked, read, values, subterms, own, vreg]
  | iadd w x y ihx ihy =>
    rw [values_iadd, marked, read, flatMap_append, count_cons, count_append,
      count_append, count_cons, count_append]
    omega
  | ishl w x amount ih =>
    have hown := x.count_own_le v
    rw [values_ishl, marked, read, count_cons]
    by_cases hfold : amount.folded = true
    · rw [if_pos hfold, if_pos hfold]
      by_cases hmerge : x.mergedOperand = true
      · rw [own_of_mergedOperand hmerge, count_singleton] at hown
        rw [if_pos hmerge, if_pos hmerge, count_append, count_singleton, count_singleton]
        simp only [flatMap_nil, count_nil]
        omega
      · rw [if_neg hmerge, if_neg hmerge, nil_append, count_singleton]
        simp only [flatMap_cons, flatMap_nil, append_nil]
        omega
    · rw [if_neg hfold, if_neg hfold]
      simp only [flatMap_cons, flatMap_nil, append_nil, own, vreg, count_nil, count_singleton]
      omega

/-- The values that are not merged are in their registers. -/
def InRegisters (s : Regs) (lowered : List VReg) (ptr : Pointer) : Prop :=
  ∀ p ∈ ptr.subterms, p.vreg ∉ lowered → s p.vreg = p.value s

theorem Pointer.read_subset {p q : Pointer} (h : q ∈ p.read) : q ∈ p.subterms := by
  induction p with
  | reg | iconst | extend => simp [read] at h
  | iadd v x y ihx ihy =>
    rw [read, mem_append] at h
    rw [subterms, mem_cons, mem_append]
    rcases h with h | h
    · exact .inr (.inl (ihx h))
    · exact .inr (.inr (ihy h))
  | ishl v x amount ih =>
    rw [read] at h
    rw [subterms, mem_cons]
    split_ifs at h
    · simp at h
    · rw [mem_singleton.mp h]
      exact .inr x.mem_subterms_self
    · exact .inl (mem_singleton.mp h)

variable {s : Regs}

theorem Pointer.own_of_single (h : p.single = true) : p.own = [p.vreg] := by
  cases p with
  | reg | iconst => cases h
  | iadd | ishl | extend => rfl

theorem Pointer.single_or_reg_of_read {p q : Pointer} (h : q ∈ p.read) :
    q.single = true ∨ ∃ v, q = .reg v := by
  induction p with
  | reg | iconst | extend => simp [read] at h
  | iadd v x y ihx ihy => exact (mem_append.mp h).elim ihx ihy
  | ishl v x amount ih =>
    rw [read] at h
    split_ifs at h with hfold hmerge
    · simp at h
    · rw [mem_singleton.mp h]
      cases x with
      | reg w => exact .inr ⟨w, rfl⟩
      | iconst => exact absurd rfl hmerge
      | iadd | ishl | extend => exact .inl rfl
    · exact .inl (by rw [mem_singleton.mp h]; rfl)

theorem value_of_read {before lowered : List VReg} {ptr p : Pointer} (honce : ptr.UsedOnce before)
    (hlow : ∀ v ∈ lowered, v ∈ before ∨ v ∈ ptr.marked) (hs : InRegisters s lowered ptr)
    (h : p ∈ ptr.read) : s p.vreg = p.value s := by
  have hsub := Pointer.read_subset h
  obtain hsingle | ⟨v, rfl⟩ := Pointer.single_or_reg_of_read h
  · obtain ⟨hbefore, hone⟩ := honce p hsub hsingle
    refine hs p hsub fun hmem => ?_
    have hmarked := count_pos_iff.mpr ((hlow _ hmem).resolve_left hbefore)
    have hread : 0 < (ptr.read.flatMap Pointer.own).count p.vreg :=
      count_pos_iff.mpr (mem_flatMap.mpr ⟨p, h, by simp [Pointer.own_of_single hsingle]⟩)
    have := ptr.count_marked_read p.vreg
    omega
  · rfl

/-! ## One round -/

/-- What a round makes of the addends and of the values it enqueues. -/
structure Collects (p : Pointer) (a : Addends) (b : Code) (s : Regs)
    (out : Addends × Code × List Pointer) (s' : Regs) : Prop where
  emits : Emits Instr.step b out.2.1 s s'
  below : out.1.Below out.2.1.next
  value : out.1.value s' + (out.2.2.map (Pointer.value s')).sum = a.value s + p.value s
  moreBelow : ∀ q ∈ out.2.2, q.Below out.2.1.next
  read : ∀ q ∈ out.2.2, ∀ r ∈ q.read, r ∈ p.read

theorem toNat_and_63 (c : BitVec 64) : (c &&& 63).toNat = c.toNat % 64 := by
  exact Nat.and_two_pow_sub_one_eq_mod c.toNat 6

theorem Addends.value_offset (a : Addends) (s : Regs) (c : BitVec 64) :
    ({ a with offset := a.offset + c } : Addends).value s = a.value s + c := by
  simp only [value]
  abel

theorem Addends.value_a64s (a : Addends) (s : Regs) (r : VReg) :
    ({ a with a64s := a.a64s ++ [r] } : Addends).value s = a.value s + s r := by
  simp only [value, sum64, map_append, sum_append, map_singleton, sum_singleton]
  abel

theorem Addends.value_a32s (a : Addends) (s : Regs) (x : Addend32) :
    ({ a with a32s := a.a32s ++ [x] } : Addends).value s = a.value s + x.ext.apply (s x.r) := by
  simp only [value, sum32, map_append, sum_append, map_singleton, sum_singleton, Addend32.value]
  abel

theorem Addends.value_aShifted (a : Addends) (s : Regs) (x : AddendShifted) :
    ({ a with aShifted := a.aShifted ++ [x] } : Addends).value s = a.value s + x.value s := by
  simp only [value, sumShifted, map_append, sum_append, map_singleton, sum_singleton]
  abel

variable {a : Addends} {n : VReg}

theorem Addends.Below.add64 {r : VReg} (h : a.Below n) (hr : r < n) :
    ({ a with a64s := a.a64s ++ [r] } : Addends).Below n :=
  ⟨h.a32s, by simpa [or_imp, forall_and] using ⟨h.a64s, hr⟩, h.aShifted⟩

theorem Addends.Below.add32 {x : Addend32} (h : a.Below n) (hr : x.r < n) :
    ({ a with a32s := a.a32s ++ [x] } : Addends).Below n :=
  ⟨by simpa [or_imp, forall_and] using ⟨h.a32s, hr⟩, h.a64s, h.aShifted⟩

theorem Addends.Below.addShifted {x : AddendShifted} (h : a.Below n)
    (hx : x.r < n ∧ 1 ≤ x.shift ∧ x.shift ≤ 4) :
    ({ a with aShifted := a.aShifted ++ [x] } : Addends).Below n := by
  refine ⟨h.a32s, h.a64s, ?_⟩
  intro y hy
  rcases mem_append.mp hy with hy | hy
  · exact h.aShifted y hy
  · rw [mem_singleton.mp hy]
    exact hx

variable {b : Code}

theorem collects_of_nil {a a' : Addends} {b' : Code} {s s' : Regs}
    (hemits : Emits Instr.step b b' s s') (hbelow : a'.Below b'.next)
    (hvalue : a'.value s' = a.value s + p.value s) : Collects p a b s (a', b', []) s' where
  emits := hemits
  below := hbelow
  value := by simpa using hvalue
  moreBelow := by simp
  read := by simp

/-- The constant that is loaded when it is an operand. -/
def Pointer.inlined : Pointer → List VReg
  | .iconst v _ _ => [v]
  | _ => []

theorem yields_getOperand_NR {x : Pointer} (hx : x.Below b.next)
    (hread : x.inlined = [] → s x.vreg = x.value s) :
    Yields b s (getOperand_NR x b) (x.value s) := by
  cases x with
  | iconst w m c =>
    obtain ⟨s', hemits, hlt, hv⟩ := yields_lowerConstant c b s
    exact ⟨s', hemits.markLowered w, hlt, hv⟩
  | reg | iadd | ishl | extend => exact ⟨s, Emits.refl _ b s, hx.vreg_lt, hread rfl⟩

theorem collects_shifted {v : VReg} {x : Pointer} {c : BitVec 64} (hx : x.Below b.next)
    (ha : a.Below b.next) (hfold : 1 ≤ (c &&& 63).toNat ∧ (c &&& 63).toNat ≤ 4)
    (hread : x.inlined = [] → s x.vreg = x.value s) :
    ∃ s', Collects (.ishl v x (.const c)) a b s
      ({ a with aShifted := a.aShifted ++ [⟨(getOperand_NR x b).1, none, (c &&& 63).toNat⟩] },
        (getOperand_NR x b).2.markLowered v, []) s' := by
  obtain ⟨s', hemits, hlt, hv⟩ := yields_getOperand_NR hx hread
  refine ⟨s', collects_of_nil (hemits.markLowered v)
    ((ha.mono hemits.next_le).addShifted ⟨hlt, hfold⟩) ?_⟩
  rw [value_aShifted, value_congr ha hemits.keeps]
  congr 1
  change s' (getOperand_NR x b).1 <<< _ = x.value s <<< _
  rw [hv, toNat_and_63]
  rfl

theorem collectShift_spec {v : VReg} {x : Pointer} {amount : ShiftAmount}
    (hp : (Pointer.ishl v x amount).Below b.next) (ha : a.Below b.next)
    (hread : ∀ q ∈ (Pointer.ishl v x amount).read, s q.vreg = q.value s) :
    ∃ s', Collects (.ishl v x amount) a b s
      ((collectShift v x amount a b).1, (collectShift v x amount a b).2, []) s' := by
  by_cases hfolded : amount.folded = true
  · cases amount with
    | reg => cases hfolded
    | const c =>
      have hfold : 1 ≤ (c &&& 63).toNat ∧ (c &&& 63).toNat ≤ 4 := of_decide_eq_true hfolded
      have hx : x.mergedOperand = false → s x.vreg = x.value s := by
        intro hnot
        apply hread
        rw [Pointer.read, if_pos hfolded, if_neg (by simp [hnot])]
        exact mem_singleton_self x
      have hshift : collectShift v x (.const c) a b = _ := if_pos hfold
      rw [hshift]
      cases x with
      | extend w signed operand =>
        cases operand with
        | const d => exact collects_shifted hp.2.1 ha hfold fun _ => hx rfl
        | reg r =>
          refine ⟨s, collects_of_nil (((Emits.refl _ b s).markLowered w).markLowered v)
            (ha.addShifted ⟨hp.2.1.2, hfold⟩) ?_⟩
          rw [value_aShifted]
          rw [toNat_and_63]
          rfl
      | iconst => exact collects_shifted hp.2.1 ha hfold (by simp [Pointer.inlined])
      | reg | iadd | ishl => exact collects_shifted hp.2.1 ha hfold fun _ => hx rfl
  · have hshift : collectShift v x amount a b = ({ a with a64s := a.a64s ++ [v] }, b) := by
      cases amount with
      | reg => rfl
      | const c => exact if_neg fun h => hfolded (decide_eq_true h)
    have hv : s v = (Pointer.ishl v x amount).value s := by
      apply hread (Pointer.ishl v x amount)
      rw [Pointer.read, if_neg hfolded]
      exact mem_singleton_self _
    rw [hshift]
    refine ⟨s, collects_of_nil (Emits.refl _ b s) (ha.add64 hp.1) ?_⟩
    rw [value_a64s, hv]

theorem collectAddend_spec (hp : p.Below b.next) (ha : a.Below b.next)
    (hread : ∀ q ∈ p.read, s q.vreg = q.value s) :
    ∃ s', Collects p a b s (collectAddend p a b) s' := by
  cases p with
  | reg v => exact ⟨s, collects_of_nil (Emits.refl _ b s) (ha.add64 hp) (a.value_a64s s v)⟩
  | iconst v merge c =>
    cases merge with
    | true =>
      exact ⟨s, collects_of_nil ((Emits.refl _ b s).markLowered v)
        ⟨ha.a32s, ha.a64s, ha.aShifted⟩ (a.value_offset s c)⟩
    | false =>
      have hconst : (Pointer.iconst v false c).inlined = [] → s v = c := fun h => nomatch h
      obtain ⟨s', hemits, hlt, hv⟩ := yields_getOperand_NR hp hconst
      refine ⟨s', collects_of_nil hemits ((ha.mono hemits.next_le).add64 hlt) ?_⟩
      rw [← hv, ← value_congr ha hemits.keeps]
      exact value_a64s a s' _
  | iadd v x y =>
    refine ⟨s, (Emits.refl _ b s).markLowered v, ha, ?_, ?_, ?_⟩
    · simp [collectAddend, Pointer.value]
    · intro q hq
      have hq : q = x ∨ q = y := by simpa [collectAddend] using hq
      rcases hq with rfl | rfl
      · exact hp.2.1
      · exact hp.2.2
    · intro q hq r hr
      have hq : q = x ∨ q = y := by simpa [collectAddend] using hq
      rw [Pointer.read, mem_append]
      rcases hq with rfl | rfl
      · exact .inl hr
      · exact .inr hr
  | ishl v x amount => exact collectShift_spec hp ha hread
  | extend v signed x =>
    cases x with
    | const c =>
      exact ⟨s, collects_of_nil ((Emits.refl _ b s).markLowered v)
        ⟨ha.a32s, ha.a64s, ha.aShifted⟩ (a.value_offset s _)⟩
    | reg r =>
      exact ⟨s, collects_of_nil ((Emits.refl _ b s).markLowered v) (ha.add32 hp.2)
        (a.value_a32s s _)⟩

theorem collectAddend_size (p : Pointer) (a : Addends) (b : Code) :
    ((collectAddend p a b).2.2.map Pointer.size).sum < p.size := by
  cases p with
  | reg | ishl => simp [collectAddend, Pointer.size]
  | iconst v merge c => cases merge <;> simp [collectAddend, Pointer.size]
  | iadd => simp [collectAddend, Pointer.size]
  | extend v signed x => cases x <;> simp [collectAddend, Pointer.size]

theorem collectShift_lowered (v : VReg) (x : Pointer) (amount : ShiftAmount)
    (a : Addends) (b : Code) :
    (collectShift v x amount a b).2.lowered = b.lowered ++ (Pointer.ishl v x amount).marked := by
  by_cases hfolded : amount.folded = true
  · cases amount with
    | reg => cases hfolded
    | const c =>
      have hshift : collectShift v x (.const c) a b = _ := if_pos (of_decide_eq_true hfolded)
      rw [hshift, Pointer.marked, if_pos hfolded]
      cases x with
      | extend w signed operand =>
        cases operand <;> simp [Pointer.mergedOperand, getOperand_NR, Pointer.vreg]
      | reg | iconst | iadd | ishl => simp [Pointer.mergedOperand, getOperand_NR, Pointer.vreg]
  · rw [Pointer.marked, if_neg hfolded, append_nil]
    cases amount with
    | reg => rfl
    | const c =>
      have hshift : collectShift v x (.const c) a b = _ :=
        if_neg fun h => hfolded (decide_eq_true h)
      rw [hshift]

theorem collectAddend_lowered (p : Pointer) (a : Addends) (b : Code) (v : VReg) :
    v ∈ (collectAddend p a b).2.1.lowered ∨
        v ∈ (collectAddend p a b).2.2.flatMap Pointer.marked ↔ v ∈ b.lowered ∨ v ∈ p.marked := by
  cases p with
  | reg => simp [collectAddend, getOperand_NR, Pointer.marked]
  | iconst w merge c => cases merge <;> simp [collectAddend, getOperand_NR, Pointer.marked]
  | iadd w x y =>
    simp [collectAddend, Pointer.marked]
    tauto
  | ishl w x amount => simp [collectAddend, collectShift_lowered]
  | extend w signed x => cases x <;> simp [collectAddend, Pointer.marked]

/-! ## The loop -/

variable {queue : List Pointer}

theorem sum_value_congr (h : ∀ p ∈ queue, p.Below n) {s s' : Regs} (hkeeps : ∀ r < n, s' r = s r) :
    (queue.map (Pointer.value s')).sum = (queue.map (Pointer.value s)).sum :=
  congrArg sum (map_congr_left fun p hp => Pointer.value_congr (h p hp) hkeeps)

/-- The rounds suffice for the values that are still to be visited. -/
theorem rounds_of_cons {rounds : Nat} (a : Addends) (b : Code)
    (h : ((p :: queue).map Pointer.size).sum ≤ rounds + 1) :
    ((queue ++ (collectAddend p a b).2.2).map Pointer.size).sum ≤ rounds := by
  have hless := collectAddend_size p a b
  rw [map_cons, sum_cons] at h
  rw [map_append, sum_append]
  omega

theorem nil_of_rounds_zero (h : (queue.map Pointer.size).sum ≤ 0) : queue = [] := by
  cases queue with
  | nil => rfl
  | cons p queue =>
    have : 0 < p.size := by cases p <;> simp [Pointer.size]
    rw [map_cons, sum_cons] at h
    omega

theorem collectFrom_lowered (rounds : Nat) (queue : List Pointer) (a : Addends) (b : Code)
    (hsize : (queue.map Pointer.size).sum ≤ rounds) (v : VReg) :
    v ∈ (collectFrom rounds queue a b).2.lowered ↔
      v ∈ b.lowered ∨ v ∈ queue.flatMap Pointer.marked := by
  induction rounds generalizing queue a b with
  | zero =>
    rw [nil_of_rounds_zero hsize]
    simp [collectFrom]
  | succ rounds ih =>
    cases queue with
    | nil => simp [collectFrom]
    | cons p queue =>
      have hround := collectAddend_lowered p a b v
      refine (ih _ _ _ (rounds_of_cons a b hsize)).trans ?_
      rw [flatMap_append, mem_append, flatMap_cons, mem_append]
      tauto

theorem collectFrom_spec (rounds : Nat) (queue : List Pointer) (a : Addends) (b : Code) (s : Regs)
    (hsize : (queue.map Pointer.size).sum ≤ rounds) (hbelow : ∀ p ∈ queue, p.Below b.next)
    (ha : a.Below b.next)
    (hread : ∀ p ∈ queue, ∀ q ∈ p.read, q.Below b.next ∧ s q.vreg = q.value s) :
    ∃ s', Emits Instr.step b (collectFrom rounds queue a b).2 s s' ∧
      (collectFrom rounds queue a b).1.Below (collectFrom rounds queue a b).2.next ∧
      (collectFrom rounds queue a b).1.value s' =
        a.value s + (queue.map (Pointer.value s)).sum := by
  induction rounds generalizing queue a b s with
  | zero =>
    rw [nil_of_rounds_zero hsize]
    exact ⟨s, Emits.refl _ b s, ha, by simp [collectFrom]⟩
  | succ rounds ih =>
    cases queue with
    | nil => exact ⟨s, Emits.refl _ b s, ha, by simp [collectFrom]⟩
    | cons p queue =>
      have hqueue : ∀ q ∈ queue, q.Below b.next := fun q hq => hbelow q (mem_cons_of_mem _ hq)
      have hrounds := rounds_of_cons a b hsize
      obtain ⟨s₁, hround⟩ := collectAddend_spec (hbelow p mem_cons_self) ha
        fun q hq => (hread p mem_cons_self q hq).2
      rw [collectFrom]
      generalize collectAddend p a b = out at hrounds hround ⊢
      obtain ⟨a₁, b₁, more⟩ := out
      have hnext : b.next ≤ b₁.next := hround.emits.next_le
      have hkeeps : ∀ r < b.next, s₁ r = s r := hround.emits.keeps
      have hbelow₁ : ∀ q ∈ queue ++ more, q.Below b₁.next := by
        intro q hq
        rcases mem_append.mp hq with hq | hq
        · exact (hqueue q hq).mono hnext
        · exact hround.moreBelow q hq
      have hread₁ : ∀ q ∈ queue ++ more, ∀ r ∈ q.read,
          r.Below b₁.next ∧ s₁ r.vreg = r.value s₁ := by
        intro q hq r hr
        have hr' : r.Below b.next ∧ s r.vreg = r.value s := by
          rcases mem_append.mp hq with hq | hq
          · exact hread q (mem_cons_of_mem _ hq) r hr
          · exact hread p mem_cons_self r (hround.read q hq r hr)
        refine ⟨hr'.1.mono hnext, ?_⟩
        rw [hkeeps _ hr'.1.vreg_lt, hr'.2, Pointer.value_congr hr'.1 hkeeps]
      obtain ⟨s', hemits, hbelow', hvalue⟩ :=
        ih (queue ++ more) a₁ b₁ s₁ hrounds hbelow₁ hround.below hread₁
      refine ⟨s', hround.emits.trans hemits, hbelow', hvalue.trans ?_⟩
      have hsum : a₁.value s₁ + (more.map (Pointer.value s₁)).sum = a.value s + p.value s :=
        hround.value
      rw [map_append, sum_append, sum_value_congr hqueue hkeeps, map_cons, sum_cons]
      calc a₁.value s₁ + ((queue.map (Pointer.value s)).sum + (more.map (Pointer.value s₁)).sum)
          = a₁.value s₁ + (more.map (Pointer.value s₁)).sum +
              (queue.map (Pointer.value s)).sum := by abel
        _ = a.value s + p.value s + (queue.map (Pointer.value s)).sum := by rw [hsum]
        _ = a.value s + (p.value s + (queue.map (Pointer.value s)).sum) := by abel

theorem Pointer.Below.subterm {p q : Pointer} (h : p.Below n) (hq : q ∈ p.subterms) :
    q.Below n := by
  induction p with
  | reg | iconst | extend =>
    rw [mem_singleton.mp hq]
    exact h
  | iadd v x y ihx ihy =>
    rw [subterms, mem_cons, mem_append] at hq
    rcases hq with rfl | hq | hq
    · exact h
    · exact ihx h.2.1 hq
    · exact ihy h.2.2 hq
  | ishl v x amount ih =>
    rw [subterms, mem_cons] at hq
    rcases hq with rfl | hq
    · exact h
    · exact ih h.2.1 hq

theorem mem_lowered_iff (ptr : Pointer) (offsetBase : BitVec 32) (size : AccessSize) (b : Code)
    (v : VReg) :
    v ∈ (lowerToAddressMode ptr offsetBase size b).2.lowered ↔ v ∈ b.lowered ∨ v ∈ ptr.marked := by
  rw [lowerToAddressMode, lowerToAddressModeFromAddends_lowered, collectAddends,
    collectFrom_lowered _ _ _ _ (by simp)]
  simp

/-- The address of an access is the value of the pointer expression plus the offset, given that the
values that were not merged into the address are in their registers. -/
theorem lowerToAddressMode_denotes (ptr : Pointer) (offsetBase : BitVec 32) (size : AccessSize)
    (b : Code) (s : Regs) (hbelow : ptr.Below b.next) (honce : ptr.UsedOnce b.lowered)
    (hs : InRegisters s (lowerToAddressMode ptr offsetBase size b).2.lowered ptr) :
    ∃ s', Emits Instr.step b (lowerToAddressMode ptr offsetBase size b).2 s s' ∧
      (lowerToAddressMode ptr offsetBase size b).1.denote size s' =
        some (ptr.value s + offsetBase.setWidth 64) := by
  have hread : ∀ p ∈ [ptr], ∀ q ∈ p.read, q.Below b.next ∧ s q.vreg = q.value s := by
    intro p hp q hq
    rw [mem_singleton.mp hp] at hq
    refine ⟨hbelow.subterm (Pointer.read_subset hq), value_of_read honce ?_ hs hq⟩
    exact fun v hv => (mem_lowered_iff ptr offsetBase size b v).mp hv
  obtain ⟨s₁, hemits, hbelow₁, hvalue⟩ := collectFrom_spec ptr.size [ptr] .empty b s (by simp)
    (by simpa using hbelow)
    ⟨by simp [empty], by simp [empty], by simp [empty]⟩ hread
  obtain ⟨s', hemits', hdenote⟩ := denotes_fromAddends size
    ((collectAddends ptr b).1.offset + offsetBase.setWidth 64) s₁ hbelow₁
  refine ⟨s', hemits.trans hemits', hdenote.trans (congrArg some ?_)⟩
  have hempty : empty.value s = 0 := by
    simp [value, empty, sum32, sum64, sumShifted]
  rw [hempty, map_singleton, sum_singleton, zero_add] at hvalue
  rw [← hvalue, value, collectAddends]
  abel

/-- The element before the one with the index in register 1 of the array at register 0, in an access
with a scaled index. -/
theorem lowerToAddressMode_denotes_element :
    ∃ s', Emits Instr.step ⟨[], 6, []⟩
        (lowerToAddressMode
          (.iadd 2 (.iadd 3 (.reg 0) (.ishl 4 (.reg 1) (.const 3))) (.iconst 5 true (-8))) 0 .b64
          ⟨[], 6, []⟩).2 (fun r => BitVec.ofNat 64 (64 * (r + 1))) s' ∧
      (lowerToAddressMode
          (.iadd 2 (.iadd 3 (.reg 0) (.ishl 4 (.reg 1) (.const 3))) (.iconst 5 true (-8))) 0 .b64
          ⟨[], 6, []⟩).1.denote .b64 s' = some 1080 := by
  refine lowerToAddressMode_denotes _ 0 .b64 ⟨[], 6, []⟩ _ ?_ ?_ ?_
  · simp [Pointer.Below, ShiftAmount.Below]
  · unfold Pointer.UsedOnce
    decide
  · intro p hp hnot
    simp only [Pointer.subterms, cons_append, nil_append, mem_cons,
      not_mem_nil, or_false] at hp
    rcases hp with rfl | rfl | rfl | rfl | rfl | rfl
    · exact absurd (by decide) hnot
    · exact absurd (by decide) hnot
    · rfl
    · exact absurd (by decide) hnot
    · rfl
    · exact absurd (by decide) hnot

end Andsifr.Arm64
