import Andsifr.Wasm.TypeEquivalence

namespace Andsifr.Wasm

open Lib List Check

/-- Value types that agree, up to `R` on the types they refer to. -/
def SameValueType (R : Index → Index → Prop) (a b : ValueType) : Prop :=
  match a.concrete, b.concrete with
  | some i, some j => a.isNullable = b.isNullable ∧ R i j
  | _, _ => a = b

def SameFunctionType (R : Index → Index → Prop) (x y : FunctionType) : Prop :=
  List.Forall₂ (SameValueType R) x.params y.params ∧
    List.Forall₂ (SameValueType R) x.results y.results

/-- The members at one position of the groups that start at `gx` and `gy` agree. -/
def SameMember (mx my : List FunctionType) (R : Index → Index → Prop) (gx gy i : Nat) : Prop :=
  ∃ fx fy, mx[(gx + i) % 2 ^ 32]? = some fx ∧ my[(gy + i) % 2 ^ 32]? = some fy ∧
    SameFunctionType R fx fy

/-- The two types are at the same position of groups of the same size whose members agree. -/
def SameGroup (mx my : List FunctionType) (R : Index → Index → Prop) (x y : Index) : Prop :=
  ∃ gx gy n, groupOf mx x = .ok (gx, n) ∧ groupOf my y = .ok (gy, n) ∧
    sub32 x gx = sub32 y gy ∧ ∀ i < n, SameMember mx my R gx gy i

/-- A relation that unfolding the related types does not refute. -/
def Consistent (types : List FunctionType) (R : Index → Index → Prop) : Prop :=
  ∀ x y, R x y → x = y ∨ SameGroup types types R x y

/-- Iso-recursive equivalence: the largest consistent relation. -/
def TypeEquiv (types : List FunctionType) (x y : Index) : Prop :=
  ∃ R, Consistent types R ∧ R x y

/-- The largest bisimulation of the recursion groups of two modules. -/
def Bisimilar (mx my : List FunctionType) (x y : Index) : Prop :=
  ∃ R, (∀ x y, R x y → SameGroup mx my R x y) ∧ R x y

section Relations

variable {R S T : Index → Index → Prop} {mx my mz : List FunctionType} {a b : ValueType}
  {fx fy : FunctionType} {gx gy n m i x y z : Nat}

theorem SameValueType.mono (h : ∀ x y, R x y → S x y) (hab : SameValueType R a b) :
    SameValueType S a b := by
  unfold SameValueType at *
  split at hab
  · exact ⟨hab.1, h _ _ hab.2⟩
  · exact hab

theorem SameMember.mono (h : ∀ x y, R x y → S x y) (hmember : SameMember mx my R gx gy i) :
    SameMember mx my S gx gy i := by
  obtain ⟨fx, fy, hfx, hfy, hparams, hresults⟩ := hmember
  exact ⟨fx, fy, hfx, hfy, hparams.imp fun _ _ => SameValueType.mono h,
    hresults.imp fun _ _ => SameValueType.mono h⟩

theorem SameGroup.mono (h : ∀ x y, R x y → S x y) (hxy : SameGroup mx my R x y) :
    SameGroup mx my S x y := by
  obtain ⟨gx, gy, n, hgx, hgy, hpos, hmembers⟩ := hxy
  exact ⟨gx, gy, n, hgx, hgy, hpos, fun i hi => (hmembers i hi).mono h⟩

theorem sameMember_iff (hfx : mx[(gx + i) % 2 ^ 32]? = some fx)
    (hfy : my[(gy + i) % 2 ^ 32]? = some fy) :
    SameMember mx my R gx gy i ↔ SameFunctionType R fx fy := by
  constructor
  · rintro ⟨fx', fy', hfx', hfy', h⟩
    cases hfx.symm.trans hfx'
    cases hfy.symm.trans hfy'
    exact h
  · exact fun h => ⟨fx, fy, hfx, hfy, h⟩

theorem sameGroup_iff (hgx : groupOf mx x = .ok (gx, n)) (hgy : groupOf my y = .ok (gy, m)) :
    SameGroup mx my R x y ↔
      n = m ∧ sub32 x gx = sub32 y gy ∧ ∀ i < n, SameMember mx my R gx gy i := by
  constructor
  · rintro ⟨gx', gy', n', hgx', hgy', h⟩
    cases hgx.symm.trans hgx'
    cases hgy.symm.trans hgy'
    exact ⟨rfl, h⟩
  · rintro ⟨rfl, h⟩
    exact ⟨gx, gy, n, hgx, hgy, h⟩

/-- The two cases: the types refer to related types, or they are equal and refer to none. -/
theorem sameValueType_iff : SameValueType R a b ↔
    (∃ i j, a.concrete = some i ∧ b.concrete = some j ∧ a.isNullable = b.isNullable ∧ R i j) ∨
      (a = b ∧ a.concrete = none) := by
  unfold SameValueType
  cases ha : a.concrete <;> cases hb : b.concrete
  · simp
  · simp only [reduceCtorEq, false_and, exists_false, false_or, and_true]
  · simp only [reduceCtorEq, false_and, and_false, exists_false, or_self, iff_false]
    rintro rfl
    rw [ha] at hb
    cases hb
  · simp

theorem sameFunctionType_iff (hparams : fx.params.length = fy.params.length)
    (hresults : fx.results.length = fy.results.length) :
    SameFunctionType R fx fy ↔ ∀ p ∈ fx.params.zip fy.params ++ fx.results.zip fy.results,
      SameValueType R p.1 p.2 := by
  simp only [SameFunctionType, forall₂_iff_zip, hparams, hresults, true_and, mem_append, or_imp,
    forall_and, Prod.forall]

theorem SameValueType.symm (h : ∀ x y, R x y → S y x) (hab : SameValueType R a b) :
    SameValueType S b a := by
  rw [sameValueType_iff] at *
  rcases hab with ⟨i, j, hi, hj, hnull, hij⟩ | ⟨rfl, ha⟩
  · exact .inl ⟨j, i, hj, hi, hnull.symm, h i j hij⟩
  · exact .inr ⟨rfl, ha⟩

theorem SameValueType.trans (h : ∀ x y z, R x y → S y z → T x z) {a b c : ValueType}
    (hab : SameValueType R a b) (hbc : SameValueType S b c) : SameValueType T a c := by
  rw [sameValueType_iff] at *
  rcases hab with ⟨i, j, hi, hj, hnull, hij⟩ | ⟨rfl, ha⟩
  · rcases hbc with ⟨j', k, hj', hk, hnull', hjk⟩ | ⟨rfl, hb⟩
    · cases hj.symm.trans hj'
      exact .inl ⟨i, k, hi, hk, hnull.trans hnull', h i j k hij hjk⟩
    · cases hj.symm.trans hb
  · rcases hbc with ⟨j', k, hj', -⟩ | ⟨rfl, hb⟩
    · cases ha.symm.trans hj'
    · exact .inr ⟨rfl, ha⟩

theorem forall₂_trans {α : Type} {P Q U : α → α → Prop} (h : ∀ x y z, P x y → Q y z → U x z)
    {xs ys zs : List α} (hxy : List.Forall₂ P xs ys) (hyz : List.Forall₂ Q ys zs) :
    List.Forall₂ U xs zs := by
  induction hxy generalizing zs with
  | nil =>
    cases hyz
    exact .nil
  | cons hp _ ih =>
    cases hyz with
    | cons hq hqs => exact .cons (h _ _ _ hp hq) (ih hqs)

theorem SameGroup.symm (h : ∀ x y, R x y → S y x) (hxy : SameGroup mx my R x y) :
    SameGroup my mx S y x := by
  obtain ⟨gx, gy, n, hgx, hgy, hpos, hmembers⟩ := hxy
  refine ⟨gy, gx, n, hgy, hgx, hpos.symm, fun i hi => ?_⟩
  obtain ⟨fx, fy, hfx, hfy, hparams, hresults⟩ := hmembers i hi
  exact ⟨fy, fx, hfy, hfx, (hparams.imp fun _ _ => SameValueType.symm h).flip,
    (hresults.imp fun _ _ => SameValueType.symm h).flip⟩

theorem SameGroup.trans (h : ∀ x y z, R x y → S y z → T x z) (hxy : SameGroup mx my R x y)
    (hyz : SameGroup my mz S y z) : SameGroup mx mz T x z := by
  obtain ⟨gx, gy, n, hgx, hgy, hpos, hmembers⟩ := hxy
  obtain ⟨gy', gz, n', hgy', hgz, hpos', hmembers'⟩ := hyz
  cases hgy.symm.trans hgy'
  refine ⟨gx, gz, n, hgx, hgz, hpos.trans hpos', fun i hi => ?_⟩
  obtain ⟨fx, fy, hfx, hfy, hparams, hresults⟩ := hmembers i hi
  obtain ⟨fy', fz, hfy', hfz, hparams', hresults'⟩ := hmembers' i hi
  cases hfy.symm.trans hfy'
  have htrans := fun a b c => @SameValueType.trans R S T h a b c
  exact ⟨fx, fz, hfx, hfz, forall₂_trans htrans hparams hparams',
    forall₂_trans htrans hresults hresults'⟩

namespace Bisimilar

theorem sameGroup (h : Bisimilar mx my x y) : SameGroup mx my (Bisimilar mx my) x y := by
  obtain ⟨R, hR, hxy⟩ := h
  exact (hR x y hxy).mono fun x y hxy => ⟨R, hR, hxy⟩

theorem of_consistent (hR : ∀ x y, R x y → Bisimilar mx my x y ∨ SameGroup mx my R x y)
    (hxy : R x y) : Bisimilar mx my x y := by
  refine ⟨fun x y => Bisimilar mx my x y ∨ R x y, ?_, .inr hxy⟩
  have hknown : ∀ x y, Bisimilar mx my x y →
      SameGroup mx my (fun x y => Bisimilar mx my x y ∨ R x y) x y :=
    fun x y h => h.sameGroup.mono fun _ _ => .inl
  rintro x y (h | h)
  · exact hknown x y h
  · exact (hR x y h).elim (hknown x y) fun h => h.mono fun _ _ => .inr

theorem refl (hwf : WellFormedTypes mx) (hx : x < mx.length) : Bisimilar mx mx x x := by
  refine ⟨fun x y => x = y ∧ x < mx.length, ?_, rfl, hx⟩
  rintro x _ ⟨rfl, hx⟩
  obtain ⟨g, n, hgroup, -, hend⟩ := hwf.groupOf hx
  refine ⟨g, g, n, hgroup, hgroup, rfl, fun i hi => ?_⟩
  have hlt : (g + i) % 2 ^ 32 < mx.length := Nat.lt_of_le_of_lt (Nat.mod_le _ _) (by omega)
  have hget := getElem?_eq_getElem hlt
  have hvalue : ∀ v ∈ mx[(g + i) % 2 ^ 32].params ++ mx[(g + i) % 2 ^ 32].results,
      SameValueType (fun x y => x = y ∧ x < mx.length) v v := by
    intro v hv
    rw [sameValueType_iff]
    cases hi : v.concrete with
    | none => exact .inr ⟨rfl, rfl⟩
    | some j =>
      exact .inl ⟨j, j, rfl, rfl, rfl, rfl, hwf.concrete _ (getElem_mem hlt) v hv j hi⟩
  exact ⟨_, _, hget, hget, forall₂_same.mpr fun v hv => hvalue v (mem_append_left _ hv),
    forall₂_same.mpr fun v hv => hvalue v (mem_append_right _ hv)⟩

theorem symm (h : Bisimilar mx my x y) : Bisimilar my mx y x := by
  obtain ⟨R, hR, hxy⟩ := h
  exact ⟨flip R, fun x y hyx => (hR y x hyx).symm fun _ _ => id, hxy⟩

theorem trans (hxy : Bisimilar mx my x y) (hyz : Bisimilar my mz y z) : Bisimilar mx mz x z := by
  obtain ⟨R, hR, hxy⟩ := hxy
  obtain ⟨S, hS, hyz⟩ := hyz
  refine ⟨fun x z => ∃ y, R x y ∧ S y z, ?_, y, hxy, hyz⟩
  rintro x z ⟨y, hxy, hyz⟩
  exact (hR x y hxy).trans (fun x y z hxy hyz => ⟨y, hxy, hyz⟩) (hS y z hyz)

theorem typeEquiv (h : Bisimilar mx mx x y) : TypeEquiv mx x y := by
  obtain ⟨R, hR, hxy⟩ := h
  exact ⟨R, fun x y hxy => .inr (hR x y hxy), hxy⟩

end Bisimilar

end Relations

namespace TypeEquiv

variable {types : List FunctionType}

theorem refl (x : Index) : TypeEquiv types x x :=
  ⟨Eq, fun _ _ h => .inl h, rfl⟩

theorem trans {x y z : Index} (hxy : TypeEquiv types x y) (hyz : TypeEquiv types y z) :
    TypeEquiv types x z := by
  obtain ⟨R, hR, hxy⟩ := hxy
  obtain ⟨S, hS, hyz⟩ := hyz
  -- equal types are related by neither relation, so the composition goes through their closures
  let T : Index → Index → Prop := fun x z => ∃ y, (x = y ∨ R x y) ∧ (y = z ∨ S y z)
  have hR' : ∀ x y, R x y → T x y := fun x y h => ⟨y, .inr h, .inl rfl⟩
  have hS' : ∀ x y, S x y → T x y := fun x y h => ⟨x, .inl rfl, .inr h⟩
  refine ⟨T, ?_, y, .inr hxy, .inr hyz⟩
  rintro x z ⟨y, rfl | hxy, rfl | hyz⟩
  · exact .inl rfl
  · exact (hS x z hyz).imp id fun h => h.mono hS'
  · exact (hR x y hxy).imp id fun h => h.mono hR'
  · rcases hR x y hxy with rfl | hgroup
    · exact (hS x z hyz).imp id fun h => h.mono hS'
    · rcases hS y z hyz with rfl | hgroup'
      · exact .inr (hgroup.mono hR')
      · exact .inr (hgroup.trans (fun x y z h h' => ⟨y, .inr h, .inr h'⟩) hgroup')

end TypeEquiv

section Comparison

variable {c : TypeEquivalenceCtx} {V V' V'' : Visited}

/-- What is taken to be equal: a type and itself, and the types at the same position of groups that
have been visited. -/
def VisitedRel (c : TypeEquivalenceCtx) (V : Visited) (x y : Index) : Prop :=
  (x = y ∧ c.same = true ∧ x < c.mx.length) ∨
    ∃ gx gy n, groupOf c.mx x = .ok (gx, n) ∧ groupOf c.my y = .ok (gy, n) ∧
      sub32 x gx = sub32 y gy ∧ (gx, gy) ∈ V

/-- The members of two visited groups agree, up to the groups visited. -/
def Checked (c : TypeEquivalenceCtx) (V : Visited) (p : Index × Index) : Prop :=
  ∀ x y n, groupOf c.mx x = .ok (p.1, n) → groupOf c.my y = .ok (p.2, n) →
    ∀ i < n, SameMember c.mx c.my (VisitedRel c V) p.1 p.2 i

/-- A comparison adds only valid pairs, of groups whose members it has compared. -/
structure Extends (c : TypeEquivalenceCtx) (V V' : Visited) : Prop where
  valid : V'.Valid c.mx.length c.my.length
  subset : V ⊆ V'
  length_le : V.length ≤ V'.length
  checked : ∀ p ∈ V', p ∈ V ∨ Checked c V' p

theorem VisitedRel.mono (h : V ⊆ V') {x y : Index} (hxy : VisitedRel c V x y) :
    VisitedRel c V' x y := by
  rcases hxy with heq | ⟨gx, gy, n, hgx, hgy, hpos, hmem⟩
  · exact .inl heq
  · exact .inr ⟨gx, gy, n, hgx, hgy, hpos, h hmem⟩

theorem Extends.refl (h : V.Valid c.mx.length c.my.length) : Extends c V V :=
  ⟨h, List.Subset.refl V, le_refl _, fun _ hp => .inl hp⟩

theorem Extends.trans (h : Extends c V V') (h' : Extends c V' V'') : Extends c V V'' := by
  refine ⟨h'.valid, List.Subset.trans h.subset h'.subset, h.length_le.trans h'.length_le, ?_⟩
  intro p hp
  rcases h'.checked p hp with hp | hp
  · refine (h.checked p hp).imp id fun hp x y n hx hy i hi => ?_
    exact (hp x y n hx hy i hi).mono fun _ _ => VisitedRel.mono h'.subset
  · exact .inr hp

/-- A comparison that starts from valid pairs returns. If it succeeds, `P` holds, and if it fails,
`Q` does not. -/
def Compares {α : Type} (c : TypeEquivalenceCtx) (compare : Visited → α → Check (Option Visited))
    (fuel : Nat) (P : Visited → α → Prop) (Q : α → Prop) (a : α) : Prop :=
  ∀ V : Visited, V.Valid c.mx.length c.my.length →
    c.mx.length * c.my.length < fuel + V.length →
      (∃ V', compare V a = .ok (some V') ∧ Extends c V V' ∧ P V' a) ∨
        (compare V a = .ok none ∧ ¬ Q a)

variable {fuel : Nat}

theorem compares_allEquivalent {α : Type} {compare : Visited → α → Check (Option Visited)}
    {P : Visited → α → Prop} {Q : α → Prop} {as : List α}
    (h : ∀ a ∈ as, Compares c compare fuel P Q a)
    (hmono : ∀ V V' a, V ⊆ V' → P V a → P V' a) :
    Compares c (allEquivalent compare) fuel (fun V as => ∀ a ∈ as, P V a)
      (fun as => ∀ a ∈ as, Q a) as := by
  induction as with
  | nil => exact fun V hvalid _ => .inl ⟨V, rfl, .refl hvalid, by simp⟩
  | cons a as ih =>
    intro V hvalid hfuel
    rcases h a (by simp) V hvalid hfuel with ⟨V₁, hcompare, hext, hP⟩ | ⟨hcompare, hQ⟩
    · have hle := hext.length_le
      rcases ih (fun b hb => h b (by simp [hb])) V₁ hext.valid (by omega) with
        ⟨V₂, hrest, hext', hPs⟩ | ⟨hrest, hQs⟩
      · refine .inl ⟨V₂, by simp [allEquivalent, hcompare, hrest], hext.trans hext', ?_⟩
        exact forall_mem_cons.mpr ⟨hmono V₁ V₂ a hext'.subset hP, hPs⟩
      · refine .inr ⟨by simp [allEquivalent, hcompare, hrest], fun hall => hQs ?_⟩
        exact (forall_mem_cons.mp hall).2
    · refine .inr ⟨by simp [allEquivalent, hcompare, pure, Except.pure], fun hall => hQ ?_⟩
      exact hall a (by simp)

/-- The comparison of two types by their indexes, which are in range. -/
def ComparesTypes (c : TypeEquivalenceCtx)
    (functionTypes : Visited → Index → Index → Check (Option Visited)) (fuel : Nat) : Prop :=
  ∀ x y, x < c.mx.length → y < c.my.length →
    Compares c (fun V p => functionTypes V p.1 p.2) fuel (fun V p => VisitedRel c V p.1 p.2)
      (fun p => Bisimilar c.mx c.my p.1 p.2) (x, y)

variable {functionTypes : Visited → Index → Index → Check (Option Visited)}

theorem compares_valueTypes (h : ComparesTypes c functionTypes fuel) {pair : ValueType × ValueType}
    (hx : ∀ i, pair.1.concrete = some i → i < c.mx.length)
    (hy : ∀ j, pair.2.concrete = some j → j < c.my.length) :
    Compares c (valueTypesEquivalent functionTypes) fuel
      (fun V p => SameValueType (VisitedRel c V) p.1 p.2)
      (fun p => SameValueType (Bisimilar c.mx c.my) p.1 p.2) pair := by
  intro V hvalid hfuel
  cases hi : pair.1.concrete <;> cases hj : pair.2.concrete <;>
    simp only [valueTypesEquivalent, SameValueType, hi, hj]
  case some.some i j =>
    by_cases hnull : pair.1.isNullable = pair.2.isNullable
    · simpa [hnull] using h i j (hx i hi) (hy j hj) V hvalid hfuel
    · exact .inr ⟨if_pos hnull, fun hsame => hnull hsame.1⟩
  all_goals
    by_cases heq : pair.1 = pair.2
    · exact .inl ⟨V, by rw [if_pos heq]; rfl, .refl hvalid, heq⟩
    · exact .inr ⟨by rw [if_neg heq]; rfl, heq⟩

variable (hx : WellFormedTypes c.mx) (hy : WellFormedTypes c.my)

include hx hy

theorem compares_members (h : ComparesTypes c functionTypes fuel) {gxs gys i : Nat}
    (hix : gxs + i < c.mx.length) (hiy : gys + i < c.my.length) :
    Compares c (c.membersEquivalent functionTypes gxs gys) fuel
      (fun V => SameMember c.mx c.my (VisitedRel c V) gxs gys)
      (SameMember c.mx c.my (Bisimilar c.mx c.my) gxs gys) i := by
  have hix' : (gxs + i) % 2 ^ 32 < c.mx.length := Nat.lt_of_le_of_lt (Nat.mod_le _ _) hix
  have hiy' : (gys + i) % 2 ^ 32 < c.my.length := Nat.lt_of_le_of_lt (Nat.mod_le _ _) hiy
  intro V hvalid hfuel
  simp only [TypeEquivalenceCtx.membersEquivalent, index_of_lt hix', index_of_lt hiy', bind_ok,
    sameMember_iff (getElem?_eq_getElem hix') (getElem?_eq_getElem hiy')]
  generalize hfx : c.mx[(gxs + i) % 2 ^ 32] = fx
  generalize hfy : c.my[(gys + i) % 2 ^ 32] = fy
  split
  next hlengths =>
    refine .inr ⟨rfl, fun hsame => ?_⟩
    have := hsame.1.length_eq
    have := hsame.2.length_eq
    omega
  next hlengths =>
    push Not at hlengths
    simp only [sameFunctionType_iff hlengths.1 hlengths.2]
    refine compares_allEquivalent ?_ (fun V V' p hV hp => hp.mono fun _ _ => VisitedRel.mono hV)
      V hvalid hfuel
    rintro ⟨vx, vy⟩ hpair
    have hmem : vx ∈ fx.params ++ fx.results ∧ vy ∈ fy.params ++ fy.results := by
      simp only [mem_append]
      rcases mem_append.mp hpair with hpair | hpair
      · exact ⟨.inl (of_mem_zip hpair).1, .inl (of_mem_zip hpair).2⟩
      · exact ⟨.inr (of_mem_zip hpair).1, .inr (of_mem_zip hpair).2⟩
    exact compares_valueTypes h (fun k hk => hx.concrete fx (hfx ▸ getElem_mem hix') vx hmem.1 k hk)
      (fun k hk => hy.concrete fy (hfy ▸ getElem_mem hiy') vy hmem.2 k hk)

/-- The comparison of two types comes to an end: each nested comparison visits a new pair. -/
theorem compares_functionTypes (fuel : Nat) :
    ComparesTypes c (c.functionTypesEquivalent fuel) fuel := by
  induction fuel with
  | zero =>
    intro x y _ _ V hvalid hfuel
    have := hvalid.length_le
    omega
  | succ fuel ih =>
    intro x y hxlt hylt V hvalid hfuel
    obtain ⟨gxs, n, hgx, hgxs, hgxe⟩ := hx.groupOf hxlt
    obtain ⟨gys, m, hgy, hgys, hgye⟩ := hy.groupOf hylt
    have hgroup (hxy : Bisimilar c.mx c.my x y) := (sameGroup_iff hgx hgy).mp hxy.sameGroup
    simp only [TypeEquivalenceCtx.functionTypesEquivalent, hgx, hgy, bind_ok]
    split_ifs with hsame hsize hpos hmem
    · exact .inl ⟨V, rfl, .refl hvalid, .inl ⟨hsame.1, hsame.2, hxlt⟩⟩
    · exact .inr ⟨rfl, fun hxy => hsize (hgroup hxy).1⟩
    · exact .inr ⟨rfl, fun hxy => hpos (hgroup hxy).2.1⟩
    · obtain rfl := not_not.mp hsize
      exact .inl ⟨V, rfl, .refl hvalid, .inr ⟨gxs, gys, n, hgx, hgy, not_not.mp hpos, hmem⟩⟩
    · obtain rfl := not_not.mp hsize
      have hin : ∀ i ∈ range n, gxs + i < c.mx.length ∧ gys + i < c.my.length := by
        intro i hi
        have := mem_range.mp hi
        omega
      have hvisit := compares_allEquivalent
        (fun i hi => compares_members hx hy ih (hin i hi).1 (hin i hi).2)
        (fun V V' i hV hi => hi.mono fun _ _ => VisitedRel.mono hV) _
        (hvalid.cons hmem ⟨hgxs, hgys⟩) (by simp only [length_cons]; omega)
      rcases hvisit with ⟨V', hcompare, hext, hmembers⟩ | ⟨hcompare, hnot⟩
      · obtain ⟨hvalid', hsubset, hle, hchecked⟩ := hext
        refine .inl ⟨V', hcompare, ⟨hvalid', (cons_subset.mp hsubset).2, Nat.le_of_succ_le hle,
          fun p hp => ?_⟩, .inr ⟨gxs, gys, n, hgx, hgy, not_not.mp hpos,
            (cons_subset.mp hsubset).1⟩⟩
        rcases hchecked p hp with hp | hp
        · rcases mem_cons.mp hp with rfl | hp
          · -- the groups just added: their members have all been compared
            right
            intro x' y' n' hx' _ i hi
            obtain rfl := groupSize_eq hx hgx hx'
            exact hmembers i (mem_range.mpr hi)
          · exact .inl hp
        · exact .inr hp
      · refine .inr ⟨hcompare, fun hxy => hnot fun i hi => ?_⟩
        exact (hgroup hxy).2.2 i (mem_range.mp hi)

/-- The pairs of groups visited by a comparison that succeeds are a bisimulation. -/
theorem functionTypesEquivalent_decides (hsame : c.same = true → c.mx = c.my) {x y : Nat}
    (hxlt : x < c.mx.length) (hylt : y < c.my.length) :
    ∃ visited, c.functionTypesEquivalent c.fuel [] x y = .ok visited ∧
      (visited.isSome = true ↔ Bisimilar c.mx c.my x y) := by
  rcases compares_functionTypes hx hy c.fuel x y hxlt hylt [] (.nil _ _)
    (by simp [TypeEquivalenceCtx.fuel]) with ⟨V, hcompare, hext, hrel⟩ | ⟨hcompare, hnot⟩
  · refine ⟨some V, hcompare, iff_of_true rfl (.of_consistent (R := VisitedRel c V) ?_ hrel)⟩
    rintro x y (⟨rfl, hc, hlt⟩ | ⟨gx, gy, n, hgx, hgy, hpos, hmem⟩)
    · left
      rw [← hsame hc]
      exact .refl hx hlt
    · obtain hmem | hchecked := hext.checked _ hmem
      · cases hmem
      · exact .inr ⟨gx, gy, n, hgx, hgy, hpos, hchecked x y n hgx hgy⟩
  · exact ⟨none, hcompare, iff_of_false (by simp) hnot⟩

end Comparison

section Subtypes

open ValueType

theorem isRefSubtypeOf_self (types : List FunctionType) (t : ValueType) :
    isRefSubtypeOf types t t = .ok true := by
  unfold isRefSubtypeOf
  rw [if_pos rfl]
  rfl

variable {types : List FunctionType} (hwf : WellFormedTypes types)

include hwf

theorem structurallyEquivalentTypes_decides (x y : Index) :
    ∃ b, structurallyEquivalentTypes types x y = .ok b ∧
    (b = true ↔ Bisimilar types types x y) := by
  unfold structurallyEquivalentTypes TypeEquivalenceCtx.structurallyEquivalent
  dsimp only
  split
  next hout =>
    refine ⟨false, rfl, iff_of_false (by simp) fun hxy => ?_⟩
    obtain ⟨gx, gy, n, hgx, hgy, -⟩ := hxy.sameGroup
    obtain ⟨fx, hfx, -⟩ := bind_inv hgx
    obtain ⟨fy, hfy, -⟩ := bind_inv hgy
    have := (List.getElem?_eq_some_iff.mp (index_eq_ok_iff.mp hfx)).1
    have := (List.getElem?_eq_some_iff.mp (index_eq_ok_iff.mp hfy)).1
    omega
  next hin =>
    push Not at hin
    obtain ⟨visited, hvisited, hiff⟩ := @functionTypesEquivalent_decides ⟨types, types, true⟩
      hwf hwf (fun _ => rfl) x y hin.1 hin.2
    exact ⟨visited.isSome, bind_eq_ok_iff.mpr ⟨visited, hvisited, rfl⟩, hiff⟩

theorem returns_isRefSubtypeOf (actual expected : ValueType) :
    Returns (isRefSubtypeOf types actual expected) := by
  unfold isRefSubtypeOf
  split_ifs
  · exact returns_pure _
  · exact returns_pure _
  · exact returns_pure _
  · obtain ⟨b, hb, -⟩ := structurallyEquivalentTypes_decides hwf actual.typeIndex expected.typeIndex
    exact hb ▸ returns_ok b
  · exact returns_pure _

theorem returns_areRefTypesCompatible
    (a b : ValueType) : Returns (areRefTypesCompatible types a b) := by
  refine (returns_isRefSubtypeOf hwf a b).bind fun result _ => ?_
  split
  · exact returns_pure _
  · exact returns_isRefSubtypeOf hwf b a

theorem isRefSubtypeOf_iff {a b : ValueType} : isRefSubtypeOf types a b = .ok true ↔
    a = b ∨ (a.kind = b.kind ∧ a.concrete = b.concrete ∧ b.isNullable = true) ∨
      (∃ i j, a.concrete = some i ∧ b.concrete = some j ∧ Bisimilar types types i j ∧
        (a.isNullable = true → b.isNullable = true)) ∨
      ((∃ i, a.concrete = some i) ∧ b.concrete = none ∧ b.kind = funcref.kind ∧
        (a.isNullable = true → b.isNullable = true)) := by
  by_cases heq : a = b
  · exact iff_of_true (heq ▸ isRefSubtypeOf_self types a) (.inl heq)
  by_cases hrule : a.kind = b.kind ∧ a.concrete = b.concrete ∧ b.isNullable = true
  · refine iff_of_true ?_ (.inr (.inl hrule))
    rw [isRefSubtypeOf, if_neg heq, if_pos (by simpa [asNullable, and_assoc] using hrule)]
    rfl
  rw [isRefSubtypeOf, if_neg heq, if_neg (by simpa [asNullable, and_assoc] using hrule),
    or_iff_right heq, or_iff_right hrule]
  cases ha : a.concrete with
  | none => simp [isConcreteRef, ha, pure, Except.pure]
  | some i =>
    cases hb : b.concrete with
    | none => cases a.isNullable <;> simp [isConcreteRef, ha, hb, pure, Except.pure]
    | some j =>
      obtain ⟨equivalent, hequivalent, hiff⟩ := structurallyEquivalentTypes_decides hwf i j
      cases a.isNullable <;> cases b.isNullable <;>
        simp [isConcreteRef, typeIndex, ha, hb, hequivalent, hiff, pure, Except.pure]

theorem isRefSubtypeOf_trans {a b c : ValueType} (hab : isRefSubtypeOf types a b = .ok true)
    (hbc : isRefSubtypeOf types b c = .ok true) : isRefSubtypeOf types a c = .ok true := by
  rw [isRefSubtypeOf_iff hwf] at *
  rcases hab with rfl | ⟨hkind, hconcrete, hnull⟩ | ⟨i, j, hi, hj, hij, hnull⟩ |
    ⟨⟨i, hi⟩, hb, hkind, hnull⟩
  · exact hbc
  all_goals
    rcases hbc with rfl | ⟨hkind', hconcrete', hnull'⟩ | ⟨j', k, hj', hk, hjk, hnull'⟩ |
      ⟨⟨j', hj'⟩, hc, hkind', hnull'⟩
    all_goals grind [Bisimilar.trans]

end Subtypes

end Andsifr.Wasm
