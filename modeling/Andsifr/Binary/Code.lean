import Andsifr.Binary.Section

namespace Andsifr.Binary

open Lib Leb128 Wasm Parser

def maxFunctionLocals : Nat := 1000000

/-- The bytes of the heap type after the type byte of a local. -/
def skipLocalType (b : UInt8) : Parser Nat :=
  if isValueTypeByte b then
    return 0
  else if isRefPrefix b then do
    let (_, htNum) ← decodeInt33AsInt64.mapErr (s!"read local ref heap type: {·}")
    return htNum
  else
    fail s!"invalid local type: {hex b.toNat}"

/-- A round of the first loop over the locals, which sums up the bytes read and the locals. -/
def checkLocals (remaining : Int) (_ : Nat) (s : Nat × Nat) : Parser (Nat × Nat) := do
  let (num, n) ← decodeUint32.mapErr (s!"read n of locals: {·}")
  require (0 ≤ remaining) "EOF"
  let b ← readByte.mapErr (s!"read type of local: {·}")
  let htNum ← skipLocalType b
  return (s.1 + (n + 1 + htNum), s.2 + num)

def decodeLocalType (b : UInt8) : Parser (ValueType × Nat) :=
  if isRefPrefix b then do
    let before ← reader
    let vt ← decodeRefType (b == refPrefixNullable)
    let after ← reader
    return (vt, before.len - after.len)
  else
    return (.ofByte b, 0)

/-- A round of the second loop, which counts the remaining bytes down. -/
def decodeLocals (_ : Nat) (s : Int × List ValueType) : Parser (Int × List ValueType) := do
  let (num, bytesRead) ← decodeUint32.mapErr (s!"read n of locals: {·}")
  require (0 ≤ s.1 - (bytesRead + 1)) "EOF"
  let b ← readByte.mapErr (s!"read type of local: {·}")
  let (vt, size) ← decodeLocalType b
  return (s.1 - (bytesRead + 1) - size, s.2 ++ List.replicate num vt)

def decodeBody (codeSectionStart : Nat) (remaining : Int) (localTypes : List ValueType) :
    Parser Code := do
  let r ← reader
  let n ← makeSlice remaining
  let body ← (readFull n).mapErr (s!"read body: {·}")
  require (body.getLast? = some Opcode.opEnd) "expr not end with OpcodeEnd"
  return ⟨localTypes, body, codeSectionStart - r.len⟩

def decodeCode (codeSectionStart : Nat) : Parser Code := do
  let (ss, _) ← decodeUint32.mapErr (s!"get the size of code: {·}")
  let (ls, bytesRead) ← decodeUint32.mapErr (s!"get the size locals: {·}")
  require (0 ≤ (ss - bytesRead : Int)) "EOF"
  let (checked, sum) ← iterate (checkLocals (ss - bytesRead)) 0 ls (0, 0)
  require (sum ≤ 2 ^ 32 - 1) s!"too many locals: {sum}"
  require (sum ≤ maxFunctionLocals)
    s!"too many locals: {sum} exceeds the limit of {maxFunctionLocals}"
  seekBack checked
  let (remaining, localTypes) ← iterate decodeLocals 0 ls (ss - bytesRead, [])
  decodeBody codeSectionStart remaining localTypes

def decodeCodeSection : Parser (List Code) := do
  let start ← reader
  decodeVector "code" fun i => (decodeCode start.len).mapErr (s!"read {i}-th code segment: {·}")

/-- One declaration of a number of locals: how many, and the bytes of its two parts. -/
structure LocalDecl where
  num : Nat
  headBytes : Nat
  heapBytes : Nat

namespace LocalDecl

def bytes (d : LocalDecl) : Nat :=
  d.headBytes + d.heapBytes

def total (ds : List LocalDecl) : Nat :=
  (ds.map bytes).sum

def locals (ds : List LocalDecl) : Nat :=
  (ds.map num).sum

@[simp] theorem total_nil : total [] = 0 := rfl

@[simp] theorem total_cons (d : LocalDecl) (ds : List LocalDecl) :
    total (d :: ds) = d.bytes + total ds := rfl

@[simp] theorem locals_nil : locals [] = 0 := rfl

@[simp] theorem locals_cons (d : LocalDecl) (ds : List LocalDecl) :
    locals (d :: ds) = d.num + locals ds := rfl

end LocalDecl

/-- The declaration at `r`, with the reader after it. -/
inductive DeclaresLocal : Reader → LocalDecl → Reader → Prop where
  | numeric {r r₁ r₂ : Reader} {num n : Nat} {b : UInt8} (hnum : decodeUint32 r = .ok (num, n) r₁)
      (hb : readByte r₁ = .ok b r₂) (hvalue : isValueTypeByte b) :
        DeclaresLocal r ⟨num, n + 1, 0⟩ r₂
  | reference {r r₁ r₂ r₃ : Reader} {num n : Nat} {b : UInt8} {vt : ValueType}
      (hnum : decodeUint32 r = .ok (num, n) r₁) (hb : readByte r₁ = .ok b r₂)
      (href : isRefPrefix b) (hvt : decodeRefType (b == refPrefixNullable) r₂ = .ok vt r₃) :
      DeclaresLocal r ⟨num, n + 1, r₂.len - r₃.len⟩ r₃

/-- The declarations from `r` on, with the reader after them. -/
inductive DeclaresLocals : Reader → List LocalDecl → Reader → Prop where
  | nil (r : Reader) : DeclaresLocals r [] r
  | cons {r r₁ r₂ : Reader} {d : LocalDecl} {ds : List LocalDecl} (hd : DeclaresLocal r d r₁)
      (hds : DeclaresLocals r₁ ds r₂) : DeclaresLocals r (d :: ds) r₂

/-- The code entry at `r` declares a size that ends inside the heap type of its last local. -/
def EndsInsideHeapType (r : Reader) : Prop :=
  ∃ ss k r₁ n r₂ ds d r₃, decodeUint32 r = .ok (ss, k) r₁ ∧
    decodeUint32 r₁ = .ok ((ds ++ [d]).length, n) r₂ ∧ DeclaresLocals r₂ (ds ++ [d]) r₃ ∧
    LocalDecl.locals (ds ++ [d]) ≤ maxFunctionLocals ∧
    n + LocalDecl.total ds + d.headBytes ≤ ss ∧ ss < n + LocalDecl.total (ds ++ [d])

instance tame_skipLocalType (b : UInt8) : (skipLocalType b).Tame 0 := by
  unfold skipLocalType
  infer_instance

instance tame_checkLocals (remaining : Int) (i : Nat) (s : Nat × Nat) :
    (checkLocals remaining i s).Tame 0 := by
  unfold checkLocals
  infer_instance

instance tame_decodeLocalType (b : UInt8) : (decodeLocalType b).Tame 0 := by
  unfold decodeLocalType
  infer_instance

instance tame_decodeLocals (i : Nat) (s : Int × List ValueType) : (decodeLocals i s).Tame 0 := by
  unfold decodeLocals
  infer_instance

theorem not_isRefPrefix_of_isValueTypeByte {b : UInt8} (h : isValueTypeByte b) :
    isRefPrefix b = false := by
  rcases hb : isRefPrefix b with _ | _
  · rfl
  · rcases Bool.or_eq_true_iff.mp hb with hb | hb <;> rw [eq_of_beq hb] at h <;> cases h

theorem proper_of_isValueTypeByte {b : UInt8} (h : isValueTypeByte b = true) :
    (ValueType.ofByte b).Proper := by
  simp only [isValueTypeByte, List.any_cons, List.any_nil, Bool.or_false, Bool.or_eq_true,
    beq_iff_eq] at h
  rcases h with rfl | rfl | rfl | rfl | rfl | rfl | rfl | rfl <;> decide

theorem isRef_decodeRefType (nullable : Bool) :
    (decodeRefType nullable).Ensures fun t => t.isRef = true := by
  have hheap (ht : Int) : (heapValueType ht nullable).Ensures fun t => t.isRef = true :=
    .ite (ensures_pure rfl) (.ite (ensures_pure rfl) (.ite (ensures_pure rfl)
      (.ite (ensures_fail _) (ensures_pure rfl))))
  refine ensures_bind fun ⟨ht, _⟩ => (hheap ht).bind fun t h => ensures_pure ?_
  split
  · exact h
  · exact h

variable {r r' : Reader}

theorem decodeRefType_eq_ok {nullable : Bool} {vt : ValueType}
    (h : decodeRefType nullable r = .ok vt r') : ∃ ht n, decodeInt33AsInt64 r = .ok (ht, n) r' := by
  obtain ⟨⟨ht, n⟩, r₁, hht, h⟩ := bind_inv h
  obtain ⟨vt₀, r₂, hvt, h⟩ := bind_inv h
  cases h
  refine ⟨ht, n, ?_⟩
  unfold heapValueType at hvt
  split_ifs at hvt <;> cases hvt <;> exact mapErr_inv hht

theorem skipLocalType_eq_ok {b : UInt8} {k : Nat} (h : skipLocalType b r = .ok k r') :
    r' = r.advance k := by
  unfold skipLocalType at h
  split_ifs at h
  · cases h
    rfl
  · obtain ⟨⟨ht, n⟩, r₁, hht, h⟩ := bind_inv h
    cases h
    exact (counts_decodeInt33AsInt64 _ _ _ _ (mapErr_inv hht)).1
  · cases h

variable {remaining : Int} {i : Nat}

theorem checkLocals_eq_ok {s s' : Nat × Nat} (h : checkLocals remaining i s r = .ok s' r') :
    ∃ num n r₁ b r₂ htNum, decodeUint32 r = .ok (num, n) r₁ ∧ readByte r₁ = .ok b r₂ ∧
      skipLocalType b r₂ = .ok htNum r' ∧ s' = (s.1 + (n + 1 + htNum), s.2 + num) := by
  obtain ⟨⟨num, n⟩, r₁, hnum, h⟩ := bind_inv h
  obtain ⟨u, r₁', hreq, h₁⟩ := bind_inv h
  obtain ⟨-, rfl⟩ := require_eq_ok_iff.mp hreq
  obtain ⟨b, r₂, hb, h₂⟩ := bind_inv h₁
  obtain ⟨htNum, r₃, hht, h₃⟩ := bind_inv h₂
  cases h₃
  exact ⟨num, n, _, b, r₂, htNum, mapErr_inv hnum, mapErr_inv hb, hht, rfl⟩

variable {s' : Int × List ValueType}

theorem decodeLocals_eq_ok {s : Int × List ValueType} (h : decodeLocals i s r = .ok s' r') :
    ∃ num n r₁ b r₂ vt size, decodeUint32 r = .ok (num, n) r₁ ∧ readByte r₁ = .ok b r₂ ∧
      decodeLocalType b r₂ = .ok (vt, size) r' ∧ 0 ≤ s.1 - (n + 1) ∧
      s' = (s.1 - (n + 1) - size, s.2 ++ List.replicate num vt) := by
  obtain ⟨⟨num, n⟩, r₁, hnum, h⟩ := bind_inv h
  obtain ⟨u, r₁', hreq, h₁⟩ := bind_inv h
  obtain ⟨hfits, rfl⟩ := require_eq_ok_iff.mp hreq
  obtain ⟨b, r₂, hb, h₂⟩ := bind_inv h₁
  obtain ⟨⟨vt, size⟩, r₃, hvt, h₃⟩ := bind_inv h₂
  cases h₃
  exact ⟨num, n, _, b, r₂, vt, size, mapErr_inv hnum, mapErr_inv hb, hvt,
    of_decide_eq_true hfits, rfl⟩

theorem checkLocals_counts {ls : Nat} {s' : Nat × Nat}
    (h : iterate (checkLocals remaining) 0 ls (0, 0) r = .ok s' r') : r' = r.advance s'.1 := by
  refine iterate_invariant (P := fun _ s r₁ => r₁ = r.advance s.1) ?_ (by simp) h
  rintro i s _ s₂ r₂ rfl hstep
  obtain ⟨num, n, r₃, b, r₄, htNum, hnum, hb, hht, rfl⟩ := checkLocals_eq_ok hstep
  obtain ⟨rfl, -⟩ := counts_decodeUint32 _ _ _ _ hnum
  obtain ⟨-, rfl⟩ := readByte_eq_ok hb
  rw [skipLocalType_eq_ok hht]
  simp only [Reader.advance_advance]
  congr 1
  omega

theorem decodeLocalType_reference {nullable : Bool} {vt : ValueType} {size : Nat} (h : (do
      let before ← reader
      let vt ← decodeRefType nullable
      let after ← reader
      return (vt, before.len - after.len) : Parser (ValueType × Nat)) r = .ok (vt, size) r') :
    decodeRefType nullable r = .ok vt r' ∧ size = r.len - r'.len := by
  obtain ⟨before, r₁, hbefore, h⟩ := bind_inv h
  obtain ⟨vt₀, r₂, hvt, h⟩ := bind_inv h
  obtain ⟨after, r₃, hafter, h⟩ := bind_inv h
  cases hbefore
  cases hafter
  cases h
  exact ⟨hvt, rfl⟩

/-- Every declaration fits up to its type byte into the bytes that remain before it. -/
def HeadsFit : Int → List LocalDecl → Prop
  | _, [] => True
  | remaining, d :: ds => (d.headBytes : Int) ≤ remaining ∧ HeadsFit (remaining - d.bytes) ds

variable {rem : Int} {types : List ValueType}

theorem declaresLocal_of_loops {j : Nat} {c c' : Nat × Nat} {r r₁ r₂ : Reader}
    (hcheck : checkLocals remaining i c r = .ok c' r₁)
    (hdecode : decodeLocals j (rem, types) r = .ok s' r₂) :
    ∃ d, DeclaresLocal r d r₂ ∧ r₁ = r₂ ∧ c'.2 = c.2 + d.num ∧ s'.1 = rem - d.bytes ∧
      (d.headBytes : Int) ≤ rem ∧
      ∃ vt : ValueType, vt.Proper ∧ s'.2 = types ++ List.replicate d.num vt := by
  obtain ⟨num, n, r₃, b, r₄, htNum, hnum, hb, hht, rfl⟩ := checkLocals_eq_ok hcheck
  obtain ⟨num', n', r₃', b', r₄', vt, size, hnum', hb', hvt, hfits, rfl⟩ :=
    decodeLocals_eq_ok hdecode
  rw [hnum] at hnum'
  cases hnum'
  rw [hb] at hb'
  cases hb'
  unfold skipLocalType at hht
  unfold decodeLocalType at hvt
  by_cases hvalue : isValueTypeByte b
  · simp only [hvalue, if_true] at hht
    cases hht
    simp only [not_isRefPrefix_of_isValueTypeByte hvalue, Bool.false_eq_true, if_false] at hvt
    cases hvt
    exact ⟨_, .numeric hnum hb hvalue, rfl, rfl, by simp [LocalDecl.bytes], by simp only; omega,
      _, proper_of_isValueTypeByte hvalue, rfl⟩
  by_cases href : isRefPrefix b
  · simp only [hvalue, Bool.false_eq_true, if_false, href, if_true] at hht hvt
    obtain ⟨⟨ht, k⟩, r₅, hht, hpure⟩ := bind_inv hht
    cases hpure
    obtain ⟨hvt₀, rfl⟩ := decodeLocalType_reference hvt
    obtain ⟨ht', k', hht'⟩ := decodeRefType_eq_ok hvt₀
    rw [mapErr_inv hht] at hht'
    cases hht'
    refine ⟨_, .reference hnum hb href hvt₀, rfl, rfl, ?_, by simp only; omega,
      _, .inl (isRef_decodeRefType _ _ _ _ hvt₀), rfl⟩
    simp only [LocalDecl.bytes]
    omega
  · simp only [hvalue, href, Bool.false_eq_true, if_false] at hht
    cases hht

theorem declaresLocals_of_loops {j ls : Nat} {c c' : Nat × Nat} {r r₁ r₂ : Reader}
    (hcheck : iterate (checkLocals remaining) i ls c r = .ok c' r₁)
    (hdecode : iterate decodeLocals j ls (rem, types) r = .ok s' r₂) :
    ∃ ds, ds.length = ls ∧ DeclaresLocals r ds r₂ ∧ c'.2 = c.2 + LocalDecl.locals ds ∧
      s'.1 = rem - LocalDecl.total ds ∧ HeadsFit rem ds ∧
      ((∀ t ∈ types, t.Proper) → ∀ t ∈ s'.2, t.Proper) := by
  induction ls generalizing i j c rem types r with
  | zero =>
    cases hcheck
    cases hdecode
    exact ⟨[], rfl, .nil _, by simp, by simp, trivial, id⟩
  | succ ls ih =>
    obtain ⟨c₁, r₃, hc₁, hcheck⟩ := bind_inv hcheck
    obtain ⟨⟨rem₁, types₁⟩, r₃', hs₁, hdecode⟩ := bind_inv hdecode
    obtain ⟨d, hd, rfl, hnum, rfl, hhead, vt, hvt, rfl⟩ := declaresLocal_of_loops hc₁ hs₁
    obtain ⟨ds, rfl, hds, hlocals, hrem', hfits, hproper⟩ := ih hcheck hdecode
    refine ⟨d :: ds, rfl, .cons hd hds, ?_, ?_, ⟨hhead, hfits⟩, fun htypes =>
      hproper fun t ht => ?_⟩
    · rw [LocalDecl.locals_cons]
      omega
    · rw [LocalDecl.total_cons]
      omega
    · rcases List.mem_append.mp ht with ht | ht
      · exact htypes t ht
      · rw [List.eq_of_mem_replicate ht]
        exact hvt

variable {ds : List LocalDecl}

/-- A negative remainder that passed every check comes from the last heap type. -/
theorem last_of_headsFit (hrem : 0 ≤ rem) (hfits : HeadsFit rem ds)
    (hneg : rem - LocalDecl.total ds < 0) :
    ∃ es d, ds = es ++ [d] ∧ (LocalDecl.total es + d.headBytes : Int) ≤ rem := by
  induction ds generalizing rem with
  | nil =>
    simp only [LocalDecl.total_nil] at hneg
    omega
  | cons d ds ih =>
    obtain ⟨hhead, hfits⟩ := hfits
    rcases Int.lt_or_le (rem - d.bytes) 0 with hlt | hle
    · -- the next declaration would have been rejected
      cases ds with
      | nil => exact ⟨[], d, rfl, by simpa using hhead⟩
      | cons e es =>
        have := hfits.1
        omega
    · simp only [LocalDecl.total_cons] at hneg
      obtain ⟨es, e, rfl, he⟩ := ih hle hfits (by omega)
      exact ⟨d :: es, e, rfl, by simp only [LocalDecl.total_cons]; omega⟩

variable {d : LocalDecl}

theorem headsFit_of_le {es : List LocalDecl}
    (h : (LocalDecl.total es + d.headBytes : Int) ≤ rem) : HeadsFit rem (es ++ [d]) := by
  induction es generalizing rem with
  | nil => exact ⟨by simpa using h, trivial⟩
  | cons e es ih =>
    simp only [LocalDecl.total_cons, LocalDecl.bytes] at h
    refine ⟨by omega, ih ?_⟩
    simp only [LocalDecl.bytes]
    omega

theorem checkLocals_of_declaresLocal (hremaining : 0 ≤ remaining) (i c sum : Nat)
    (hd : DeclaresLocal r d r') :
    ∃ c', checkLocals remaining i (c, sum) r = .ok (c', sum + d.num) r' := by
  have hcheck {num n : Nat} {b : UInt8} {r₁ r₂ : Reader} (htNum : Nat)
      (hnum : decodeUint32 r = .ok (num, n) r₁) (hb : readByte r₁ = .ok b r₂)
      (hht : skipLocalType b r₂ = .ok htNum r') :
      checkLocals remaining i (c, sum) r = .ok (c + (n + 1 + htNum), sum + num) r' :=
    bind_eq_ok_iff.mpr ⟨_, _, mapErr_eq_ok_iff.mpr hnum, bind_eq_ok_iff.mpr ⟨(), _,
      require_eq_ok_iff.mpr ⟨decide_eq_true hremaining, rfl⟩, bind_eq_ok_iff.mpr ⟨_, _,
      mapErr_eq_ok_iff.mpr hb, bind_eq_ok_iff.mpr ⟨_, _, hht, rfl⟩⟩⟩⟩
  cases hd with
  | numeric hnum hb hvalue =>
    exact ⟨_, hcheck 0 hnum hb (by rw [skipLocalType, if_pos hvalue]; rfl)⟩
  | @reference _ _ _ _ _ b _ hnum hb href hvt =>
    obtain ⟨ht, k, hht⟩ := decodeRefType_eq_ok hvt
    have hvalue : ¬ isValueTypeByte b := by
      intro hvalue
      rw [not_isRefPrefix_of_isValueTypeByte hvalue] at href
      cases href
    refine ⟨_, hcheck k hnum hb ?_⟩
    rw [skipLocalType, if_neg hvalue, if_pos href]
    exact bind_eq_ok_iff.mpr ⟨_, _, mapErr_eq_ok_iff.mpr hht, rfl⟩

theorem decodeLocals_of_declaresLocal (j : Nat) (types : List ValueType)
    (hd : DeclaresLocal r d r') (hfits : (d.headBytes : Int) ≤ rem) :
    ∃ types', decodeLocals j (rem, types) r = .ok (rem - d.bytes, types') r' := by
  have hdecode {num n : Nat} {b : UInt8} {r₁ r₂ : Reader} (vt : ValueType) (size : Nat)
      (hfits : ((n + 1 : Nat) : Int) ≤ rem)
      (hnum : decodeUint32 r = .ok (num, n) r₁) (hb : readByte r₁ = .ok b r₂)
      (hvt : decodeLocalType b r₂ = .ok (vt, size) r') :
      decodeLocals j (rem, types) r =
        .ok (rem - (n + 1) - size, types ++ List.replicate num vt) r' :=
    bind_eq_ok_iff.mpr ⟨_, _, mapErr_eq_ok_iff.mpr hnum, bind_eq_ok_iff.mpr ⟨(), _,
      require_eq_ok_iff.mpr ⟨decide_eq_true (by simp only; omega), rfl⟩, bind_eq_ok_iff.mpr ⟨_, _,
      mapErr_eq_ok_iff.mpr hb, bind_eq_ok_iff.mpr ⟨_, _, hvt, rfl⟩⟩⟩⟩
  cases hd with
  | @numeric _ _ num _ b hnum hb hvalue =>
    refine ⟨types ++ List.replicate num (.ofByte b), (hdecode
      (.ofByte b) 0 hfits hnum hb ?_).trans ?_⟩
    · rw [decodeLocalType, if_neg (by simp [not_isRefPrefix_of_isValueTypeByte hvalue])]
      rfl
    · simp [LocalDecl.bytes]
  | @reference _ r₂ _ num _ b vt hnum hb href hvt =>
    refine ⟨types ++ List.replicate num vt,
      (hdecode vt (r₂.len - r'.len) hfits hnum hb ?_).trans ?_⟩
    · rw [decodeLocalType, if_pos href]
      exact bind_eq_ok_iff.mpr ⟨_, _, rfl, bind_eq_ok_iff.mpr ⟨_, _, hvt, rfl⟩⟩
    · simp only [LocalDecl.bytes]
      congr 2
      omega

theorem checkLocals_of_declaresLocals (hremaining : 0 ≤ remaining) (i c sum : Nat)
    (hds : DeclaresLocals r ds r') :
    ∃ c', iterate (checkLocals remaining) i ds.length (c, sum) r =
      .ok (c', sum + LocalDecl.locals ds) r' := by
  induction hds generalizing i c sum with
  | nil r => exact ⟨c, rfl⟩
  | @cons r r₁ r₂ d ds hd hds ih =>
    obtain ⟨c₁, hc₁⟩ := checkLocals_of_declaresLocal hremaining i c sum hd
    obtain ⟨c', hc'⟩ := ih (i + 1) c₁ (sum + d.num)
    refine ⟨c', bind_eq_ok_iff.mpr ⟨_, _, hc₁, hc'.trans ?_⟩⟩
    rw [LocalDecl.locals_cons, add_assoc]

theorem decodeLocals_of_declaresLocals (j : Nat) (types : List ValueType)
    (hds : DeclaresLocals r ds r') (hfits : HeadsFit rem ds) :
    ∃ types', iterate decodeLocals j ds.length (rem, types) r =
      .ok (rem - LocalDecl.total ds, types') r' := by
  induction hds generalizing rem j types with
  | nil r => exact ⟨types, by simp [iterate]⟩
  | @cons r r₁ r₂ d ds hd hds ih =>
    obtain ⟨types₁, hs₁⟩ := decodeLocals_of_declaresLocal j types hd hfits.1
    obtain ⟨types', hs'⟩ := ih (j + 1) types₁ hfits.2
    refine ⟨types', bind_eq_ok_iff.mpr ⟨_, _, hs₁, hs'.trans ?_⟩⟩
    rw [LocalDecl.total_cons]
    congr 2
    omega

theorem crashes_decodeBody {start : Nat} :
    (decodeBody start remaining types).Crashes r ↔ remaining < 0 := by
  constructor
  · intro h
    obtain ⟨_, _, hreader, h⟩ := Tame.crashes_bind.mp h
    cases hreader
    rcases crashes_bind.mp h with h | ⟨n, r₁, -, h⟩
    · exact crashes_makeSlice.mp h
    · exact absurd h (Tame.safe 0 r₁)
  · intro h
    exact Tame.crashes_bind.mpr ⟨r, r, rfl, crashes_bind.mpr (.inl (crashes_makeSlice.mpr h))⟩

/-- Decoding a code entry panics exactly when the declared size ends inside the heap type of the
last local declaration: the bytes of a heap type are subtracted after the last check. -/
theorem crashes_decodeCode_iff {start : Nat} :
    (decodeCode start).Crashes r ↔ EndsInsideHeapType r := by
  constructor
  · intro h
    obtain ⟨⟨ss, k⟩, r₁, hss, h₁⟩ := Tame.crashes_bind.mp h
    obtain ⟨⟨ls, n⟩, r₂, hls, h₂⟩ := Tame.crashes_bind.mp h₁
    obtain ⟨hrem, h₃⟩ := crashes_require_bind.mp h₂
    obtain ⟨⟨checked, sum⟩, r₃, hloop, h₄⟩ := Tame.crashes_bind.mp h₃
    obtain ⟨-, h₅⟩ := crashes_require_bind.mp h₄
    obtain ⟨hsum, h₆⟩ := crashes_require_bind.mp h₅
    obtain ⟨u, r₄, hseek, h₇⟩ := (safe_seekBack _).crashes_bind_iff.mp h₆
    rw [checkLocals_counts hloop, seekBack_advance] at hseek
    cases hseek
    obtain ⟨⟨rem, types⟩, r₅, hloop', h₈⟩ := Tame.crashes_bind.mp h₇
    have hneg := crashes_decodeBody.mp h₈
    obtain ⟨ds, rfl, hds, hlocals, hrem', hfits, -⟩ := declaresLocals_of_loops hloop hloop'
    have hrem := of_decide_eq_true hrem
    have hsum := of_decide_eq_true hsum
    obtain ⟨es, d, rfl, hd⟩ := last_of_headsFit hrem hfits (by omega)
    exact ⟨ss, k, r₁, n, r₂, es, d, r₅, mapErr_inv hss, mapErr_inv hls, hds,
      by omega, by omega, by omega⟩
  · rintro ⟨ss, k, r₁, n, r₂, es, d, r₃, hss, hls, hds, hlocals, hle, hlt⟩
    have hrem : (0 : Int) ≤ ss - n := by omega
    obtain ⟨c, hloop⟩ := checkLocals_of_declaresLocals hrem 0 0 0 hds
    have hfits : HeadsFit (ss - n : Int) (es ++ [d]) := headsFit_of_le (by omega)
    obtain ⟨types, hloop'⟩ := decodeLocals_of_declaresLocals 0 [] hds hfits
    have hseek : seekBack c r₃ = .ok () r₂ := by
      rw [checkLocals_counts hloop, seekBack_advance]
    have hbody : (decodeBody start (ss - n - LocalDecl.total (es ++ [d])) types).Crashes r₃ :=
      crashes_decodeBody.mpr (by omega)
    refine Tame.crashes_bind.mpr ⟨_, _, mapErr_eq_ok_iff.mpr hss, ?_⟩
    refine Tame.crashes_bind.mpr ⟨_, _, mapErr_eq_ok_iff.mpr hls, ?_⟩
    refine crashes_require_bind.mpr ⟨decide_eq_true hrem, ?_⟩
    refine Tame.crashes_bind.mpr ⟨_, _, hloop, ?_⟩
    simp only [maxFunctionLocals] at hlocals
    refine crashes_require_bind.mpr ⟨decide_eq_true (by omega), ?_⟩
    refine crashes_require_bind.mpr ⟨decide_eq_true (by simp only [maxFunctionLocals]; omega), ?_⟩
    refine (safe_seekBack _).crashes_bind_iff.mpr ⟨(), _, hseek, ?_⟩
    exact Tame.crashes_bind.mpr ⟨_, _, hloop', hbody⟩

theorem moves_decodeBody (start : Nat) (remaining : Int) (types : List ValueType) :
    (decodeBody start remaining types).Moves 0 :=
  tame_reader.moves.bind fun _ => (moves_makeSlice _).bind fun n =>
    ((tame_readFull n).mapErr _).moves.bind fun _ => (tame_require _ _).moves.bind fun _ =>
    (tame_pure _).moves

/-- The reader is moved back only over the locals that the first loop has read. -/
theorem moves_decodeCode (start : Nat) : (decodeCode start).Moves 0 := by
  refine (tame_decodeUint32.mapErr _).moves.bind fun ss =>
    (tame_decodeUint32.mapErr _).moves.bind fun ls => (tame_require _ _).moves.bind fun _ => ?_
  obtain ⟨ss, -⟩ := ss
  obtain ⟨ls, n⟩ := ls
  have hcheck : (iterate (checkLocals (ss - n)) 0 ls (0, 0)).Tame 0 := inferInstance
  intro r r' h
  rcases leaves_bind h with h | ⟨⟨checked, sum⟩, r₁, hloop, h₁⟩
  · exact hcheck.moves r r' h
  have hmoves := hcheck.moves r r₁ (.inl ⟨_, hloop⟩)
  obtain rfl := checkLocals_counts hloop
  rcases leaves_bind h₁ with h | ⟨u, r₂, hreq, h₂⟩
  · exact (tame_require _ _).moves.trans hmoves h
  obtain ⟨-, rfl⟩ := require_eq_ok_iff.mp hreq
  rcases leaves_bind h₂ with h | ⟨u, r₂, hreq, h₃⟩
  · exact (tame_require _ _).moves.trans hmoves h
  obtain ⟨-, rfl⟩ := require_eq_ok_iff.mp hreq
  have hrest : Moves 0 (do
      let (remaining, localTypes) ← iterate decodeLocals 0 ls (ss - n, [])
      decodeBody start remaining localTypes : Parser Code) :=
    Tame.moves.bind fun _ => moves_decodeBody _ _ _
  rcases leaves_bind h₃ with h | ⟨u, r₂, hseek, h₄⟩
  · unfold Leaves at h
    simp only [seekBack_advance, Result.ok.injEq, reduceCtorEq, exists_false, or_false] at h
    obtain ⟨-, -, rfl⟩ := h
    exact ⟨rfl, by omega⟩
  · rw [seekBack_advance] at hseek
    cases hseek
    exact hrest _ _ h₄

end Andsifr.Binary
