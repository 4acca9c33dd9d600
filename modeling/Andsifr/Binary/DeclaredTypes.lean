import Andsifr.Binary.Decoder
import Andsifr.Validation.ModuleReturns

namespace Andsifr.Binary

open Lib Lib.Parser Leb128 Wasm Ensures Reader List

section

variable (features : CoreFeatures)

theorem proper_decodeValueType : (decodeValueType features).Ensures ValueType.Proper := by
  refine ensures_bind fun b => ?_
  split
  next hb => exact ensures_pure (proper_of_isValueTypeByte hb)
  next =>
    exact ite (ensures_bind fun _ r t r' h => .inl (isRef_decodeRefType _ r t r' h))
      (ensures_fail _)

theorem proper_decodeValueTypes (num : Nat) (features : CoreFeatures) :
    (decodeValueTypes num features).Ensures
      fun types => types.length = num ∧ ∀ t ∈ types, t.Proper :=
  ensures_times (fun _ => proper_decodeValueType features) num

/-- The types of a function type can be declared, and there are fewer parameters than `2 ^ 32`. -/
def ProperType (ft : FunctionType) : Prop :=
  (∀ t ∈ ft.params ++ ft.results, t.Proper) ∧ ft.params.length < 2 ^ 32

theorem decodeUint32_ensures : decodeUint32.Ensures fun v => v.1 < 2 ^ 32 :=
  fun _ _ _ h => decodeUint32_lt h

theorem properType_decodeFunctionType :
    (decodeFunctionType features).Ensures fun ft => ProperType ft ∧ ft.recGroupSize = 0 := by
  refine ensures_bind₂ fun _ _ =>
    (decodeUint32_ensures.mapErr _).bind fun paramCount hcount =>
    ((proper_decodeValueTypes paramCount.1 features).mapErr _).bind fun params hparams =>
    ensures_bind₂ fun resultCount _ =>
    ((proper_decodeValueTypes resultCount.1 features).mapErr _).bind fun results hresults =>
    ensures_pure ⟨⟨fun t ht => ?_, hparams.1.trans_lt hcount⟩, rfl⟩
  rcases mem_append.mp ht with ht | ht
  · exact hparams.2 t ht
  · exact hresults.2 t ht

end

variable {features : CoreFeatures} {r r' : Reader}

/-- Every concrete reference in the type has an index below `n`. -/
def RefsBelow (n : Nat) (ft : FunctionType) : Prop :=
  ∀ v ∈ ft.params ++ ft.results, ∀ i, v.concrete = some i → i < n

variable {ft : FunctionType} {n : Nat}

theorem RefsBelow.mono {m : Nat} (h : RefsBelow m ft) (hle : m ≤ n) : RefsBelow n ft :=
  fun v hv i hi => lt_of_lt_of_le (h v hv i hi) hle

theorem lt_of_firstForwardRef {types : List ValueType} (h : firstForwardRef types n = none)
    {v : ValueType} (hv : v ∈ types) {i : Nat} (hi : v.concrete = some i) : i < n := by
  obtain ⟨k, hk⟩ := getElem?_of_mem hv
  have := findSome?_eq_none_iff.mp h (v, k) (mem_zipIdx_iff_getElem?.mpr hk)
  simpa [ValueType.isConcreteRef, ValueType.typeIndex, hi] using this

theorem refsBelow_of_validateTypeForwardRefs {u : Unit}
    (h : validateTypeForwardRefs ft n r = .ok u r') : RefsBelow n ft := by
  unfold validateTypeForwardRefs at h
  cases hparams : firstForwardRef ft.params n with
  | some p =>
    rw [hparams] at h
    cases h
  | none =>
    cases hresults : firstForwardRef ft.results n with
    | some p =>
      rw [hparams, hresults] at h
      cases h
    | none =>
      intro v hv i hi
      rcases mem_append.mp hv with hv | hv
      · exact lt_of_firstForwardRef hparams hv hi
      · exact lt_of_firstForwardRef hresults hv hi

theorem len_lt_of_decodeFunctionType
    (h : decodeFunctionType features r = .ok ft r') : r'.len < r.len :=
  Moves.readByte_bind_len (fun _ => (tame_require _ _).moves.bind fun _ =>
    (tame_decodeUint32.mapErr _).moves.bind fun _ =>
    ((tame_decodeValueTypes _ _).mapErr _).moves.bind fun _ =>
    (tame_decodeUint32.mapErr _).moves.bind fun _ => (tame_require _ _).moves.bind fun _ =>
    ((tame_decodeValueTypes _ _).mapErr _).moves.bind fun _ => (tame_pure _).moves) h

theorem wellFormedTypes_append {types members : List FunctionType} (h : WellFormedTypes types)
    (hcount : types.length + members.length < 2 ^ 32)
    (hrefs : ∀ ft ∈ members, RefsBelow (types.length + members.length) ft)
    (hgroup : (∀ ft ∈ members, ft.recGroupSize ≤ 1) ∨
      ∀ (k : Nat) (ft : FunctionType), members[k]? = some ft →
        ft.recGroupSize = members.length ∧ ft.recGroupPosition = k) :
    WellFormedTypes (types ++ members) := by
  refine ⟨by rwa [length_append], ?_, ?_⟩
  · intro ft hft
    rw [length_append]
    rcases mem_append.mp hft with hft | hft
    · exact RefsBelow.mono (h.concrete ft hft) (by omega)
    · exact hrefs ft hft
  · intro t ft ht hsize
    rcases lt_or_ge t types.length with hlt | hge
    · rw [getElem?_append_left hlt] at ht
      obtain ⟨hpos, hle, hmembers⟩ := h.group t ft ht hsize
      refine ⟨hpos, hle, fun k hk => ?_⟩
      obtain ⟨member, hmember, hsame⟩ := hmembers k hk
      have := (List.getElem?_eq_some_iff.mp hmember).1
      exact ⟨member, by rwa [getElem?_append_left this], hsame⟩
    rw [getElem?_append_right hge] at ht
    have hk := (List.getElem?_eq_some_iff.mp ht).1
    rcases hgroup with hone | hgroup
    · have := hone ft (mem_of_getElem? ht)
      omega
    obtain ⟨hall, hpos⟩ := hgroup _ ft ht
    refine ⟨by omega, by omega, fun k hk => ?_⟩
    have hk' : k < members.length := by omega
    have hindex : t - ft.recGroupPosition + k = types.length + k := by omega
    refine ⟨members[k], ?_, ?_⟩
    · rw [hindex, getElem?_append_right (by omega), Nat.add_sub_cancel_left,
        getElem?_eq_getElem hk']
    · have := hgroup k members[k] (getElem?_eq_getElem hk')
      omega

variable {result result' : List FunctionType}

theorem decodeRecGroupMembers {recCount : Nat}
    (h : iterate (decodeRecGroupMember features recCount) 0 recCount result r = .ok result' r') :
    ∃ members, result' = result ++ members ∧ members.length = recCount ∧
      (∀ (k : Nat) (ft : FunctionType), members[k]? = some ft →
        ProperType ft ∧ ft.recGroupSize = recCount ∧ ft.recGroupPosition = k) ∧
      members.length + r'.len ≤ r.len := by
  have := iterate_invariant (P := fun j s rj => ∃ members, s = result ++ members ∧
    members.length = j ∧ (∀ (k : Nat) (ft : FunctionType), members[k]? = some ft → ProperType ft ∧
      ft.recGroupSize = recCount ∧ ft.recGroupPosition = k) ∧ members.length + rj.len ≤ r.len) ?_
    ⟨[], by simp, rfl, by simp, by simp⟩ h
  · simpa only [length_nil, zero_add] using this
  · rintro j _ rj s' rj' ⟨members, rfl, rfl, hmembers, hlen⟩ hstep
    obtain ⟨ft, r₁, hft, hstep⟩ := bind_inv hstep
    cases hstep
    have hlt := len_lt_of_decodeFunctionType (mapErr_inv hft)
    refine ⟨members ++ [{ ft with recGroupSize := recCount, recGroupPosition := members.length }],
      by simp, by simp, fun k ft' hk => ?_, by simp only [length_append, length_singleton]; omega⟩
    rcases lt_or_ge k members.length with hkl | hkl
    · rw [getElem?_append_left hkl] at hk
      exact hmembers k ft' hk
    obtain rfl : k = members.length := by
      have := (List.getElem?_eq_some_iff.mp hk).1
      simp only [length_append, length_singleton] at this
      omega
    simp only [getElem?_concat_length, Option.some.injEq] at hk
    subst hk
    exact ⟨((properType_decodeFunctionType features).mapErr _ _ _ _ hft).1, rfl, rfl⟩

theorem refsBelow_of_checkRecGroup {startIdx recCount : Nat} {u : Unit}
    (h : iterate (fun j (_ : Unit) => checkRecGroupMember result startIdx recCount j) 0
      recCount () r =
      .ok u r') {j : Nat} (hj : j < recCount)
    (hft : result[(startIdx + j) % 2 ^ 32]? = some ft) :
    RefsBelow ((startIdx + recCount) % 2 ^ 32) ft := by
  have := iterate_invariant (P := fun i _ _ => ∀ j < i, ∀ ft,
    result[(startIdx + j) % 2 ^ 32]? = some ft → RefsBelow ((startIdx + recCount) % 2 ^ 32) ft) ?_
    (by simp) h
  · exact this j (by omega) ft hft
  · intro i _ r₁ _ r₂ hbelow hstep j hj ft hft
    rcases Nat.lt_succ_iff_lt_or_eq.mp hj with hj | rfl
    · exact hbelow j hj ft hft
    · simp only [checkRecGroupMember, hft] at hstep
      exact refsBelow_of_validateTypeForwardRefs hstep

/-- A step of the type section's loop: the types it appends take a byte each, and the types stay
well-formed as long as they are fewer than `2 ^ 32`, where the indexes of the checks do not wrap. -/
structure AppendsTypes (result : List FunctionType) (r : Reader) (result' : List FunctionType)
    (r' : Reader) : Prop where
  added : ∃ added, result' = result ++ added ∧ ∀ ft ∈ added, ProperType ft
  len : result'.length + r'.len ≤ result.length + r.len
  wellFormed : result'.length < 2 ^ 32 → WellFormedTypes result → WellFormedTypes result'

theorem decodeRecGroup_appends
    (h : decodeRecGroup features result r = .ok result' r') : AppendsTypes result r result' r' := by
  obtain ⟨⟨recCount, k⟩, r₁, hcount, h⟩ := bind_inv h
  obtain ⟨result₁, r₂, hmembers, h⟩ := bind_inv h
  obtain ⟨u, r₃, hcheck, h⟩ := bind_inv h
  cases h
  have hlen₁ := (tame_decodeUint32.mapErr _).moves.len_le (.inl ⟨_, hcount⟩)
  obtain ⟨members, rfl, hlength, hgroup, hlen₂⟩ := decodeRecGroupMembers hmembers
  have hlen₃ := (tame_checkRecGroup (by simp [hlength])
    (decodeUint32_lt (mapErr_inv hcount))).moves.len_le (.inl ⟨u, hcheck⟩)
  refine ⟨⟨members, rfl, fun ft hft => ?_⟩, by simp only [length_append]; omega,
    fun hbound hwf => ?_⟩
  · obtain ⟨k, hk⟩ := getElem?_of_mem hft
    exact (hgroup k ft hk).1
  simp only [length_append] at hbound
  refine wellFormedTypes_append hwf hbound (fun ft hft => ?_) (.inr fun k ft hk => by
    rw [hlength]
    exact (hgroup k ft hk).2)
  obtain ⟨j, hj⟩ := getElem?_of_mem hft
  have hjlt := (List.getElem?_eq_some_iff.mp hj).1
  have hindex : (result.length % 2 ^ 32 + j) % 2 ^ 32 = result.length + j := by omega
  refine (refsBelow_of_checkRecGroup hcheck (j := j) (by omega) ?_).mono ?_
  · rw [hindex, getElem?_append_right (by omega), Nat.add_sub_cancel_left]
    exact hj
  · omega

theorem decodeType_appends {i : Nat}
    (h : decodeType features i result r = .ok result' r') : AppendsTypes result r result' r' := by
  obtain ⟨b, r₁, hb, h⟩ := bind_inv h
  have hlen₁ := readByte_len (mapErr_inv hb)
  split at h
  · have happends := decodeRecGroup_appends h
    exact ⟨happends.added, by have := happends.len; omega, happends.wellFormed⟩
  obtain ⟨u, r₂, hunread, h⟩ := bind_inv h
  obtain ⟨-, rfl⟩ := readByte_eq_ok (mapErr_inv hb)
  cases hunread
  obtain ⟨ft, r₃, hft, h⟩ := bind_inv h
  obtain ⟨u, r₄, hrefs, h⟩ := bind_inv h
  cases h
  have hlt := len_lt_of_decodeFunctionType (mapErr_inv hft)
  have hlen := (tame_validateTypeForwardRefs _ _).moves.len_le (.inl ⟨u, hrefs⟩)
  obtain ⟨hproper, hsize⟩ := (properType_decodeFunctionType features).mapErr _ _ _ _ hft
  simp only [concat_eq_append]
  refine ⟨⟨[ft], rfl, by simpa using hproper⟩, ?_, fun hbound hwf =>
    wellFormedTypes_append hwf ?_ ?_ ?_⟩
  · simp only [length_append, length_singleton]
    simp only [len, advance] at *
    omega
  · simpa using hbound
  · rintro _ hmem
    obtain rfl := mem_singleton.mp hmem
    exact (refsBelow_of_validateTypeForwardRefs hrefs).mono (by omega)
  · left
    rintro _ hmem
    obtain rfl := mem_singleton.mp hmem
    omega

theorem decodeTypeSection_appends {types : List FunctionType}
    (h : decodeTypeSection features r = .ok types r') : AppendsTypes [] r types r' := by
  obtain ⟨vs, r₁, hvs, h⟩ := bind_inv h
  have hlen := tame_vectorSize.moves.len_le (.inl ⟨vs, hvs⟩)
  refine iterate_invariant (P := fun _ s r₁ => AppendsTypes [] r s r₁) ?_ ?_ h
  · intro i s r₁ s' r₂ hs hstep
    have hstep := decodeType_appends hstep
    have hlen := hs.len
    have hlen' := hstep.len
    obtain ⟨_, rfl, hold⟩ := hs.added
    obtain ⟨new, rfl, hnew⟩ := hstep.added
    simp only [length_append] at hlen'
    refine ⟨⟨s ++ new, rfl, fun ft hft => ?_⟩, by simp only [length_append]; omega,
      fun hbound hwf => hstep.wellFormed hbound (hs.wellFormed ?_ hwf)⟩
    · exact (mem_append.mp hft).elim (hold ft) (hnew ft)
    · simp only [length_append] at hbound ⊢
      omega
  · exact ⟨⟨[], rfl, by simp⟩, by omega, fun _ hwf => hwf⟩

end Andsifr.Binary
