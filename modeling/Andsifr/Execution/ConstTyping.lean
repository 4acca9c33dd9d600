import Andsifr.Execution.Typing
import Andsifr.Lib.LittleEndian
import Andsifr.Wasm.ConstInstruction

namespace Andsifr.Execution

open Lib Wasm ConstInstruction Parser Parser.Ensures ValueType List Check

/-- What the words of references stand for. Zero is null, and no other word is. -/
structure References where
  referent : Nat → Value
  isRef : ∀ w, (referent w).isRef = true
  null_iff : ∀ w, referent w = .null ↔ w = 0

/-- A value as the words on the stack. -/
inductive Represents (refs : References) : List Nat → Value → Prop where
  | word32 {w : Nat} {kind : UInt8} (hw : w < 2 ^ 32)
      (hkind : kind = i32.kind ∨ kind = f32.kind) :
      Represents refs [w] (.num kind)
  | word64 {w : Nat} {kind : UInt8} (hw : w < 2 ^ 64)
      (hkind : kind = i64.kind ∨ kind = f64.kind) :
      Represents refs [w] (.num kind)
  | v128 {lo hi : Nat} (hlo : lo < 2 ^ 64) (hhi : hi < 2 ^ 64) :
      Represents refs [lo, hi] (.num v128.kind)
  | ref (w : Nat) : Represents refs [w] (refs.referent w)

def WordsHaveType (refs : References) (types : List FunctionType) (words : List Nat)
    (t : ValueType) : Prop :=
  ∃ v, Represents refs words v ∧ HasType types v t

variable {refs : References} {types : List FunctionType} {t : ValueType}

variable {words : List Nat}

theorem wordsHaveType_ref_iff (ht : t.isRef = true) : WordsHaveType refs types words t ↔
      ∃ w, words = [w] ∧ HasType types (refs.referent w) t := by
  have hnum (kind : UInt8) : ¬ HasType types (.num kind) t := by
    rintro ⟨hisRef, -⟩
    rw [ht] at hisRef
    cases hisRef
  constructor
  · rintro ⟨v, hv, htype⟩
    cases hv with
    | word32 | word64 | v128 => exact absurd htype (hnum _)
    | ref w => exact ⟨w, rfl, htype⟩
  · rintro ⟨w, rfl, htype⟩
    exact ⟨_, .ref w, htype⟩

theorem exists_num_of_hasType {v : Value} (ht : t.isRef = false) (h : HasType types v t) :
    v = .num t.kind := by
  have hnone : t.concrete = none := by
    by_contra hsome
    obtain ⟨i, hi⟩ := Option.ne_none_iff_exists'.mp hsome
    rw [isRef_of_concrete hi] at ht
    cases ht
  simp only [isRef, Bool.or_eq_false_iff, beq_eq_false_iff_ne] at ht
  obtain ⟨⟨⟨hfunc, hextern⟩, hexn⟩, -⟩ := ht
  cases v with
  | num kind => rw [h.2, ofByte]
  | null =>
    have hisRef := isRef_of_isNullable h
    simp [isRef, isConcreteRef, hnone, hfunc, hextern, hexn] at hisRef
  | func f =>
    simp only [HasType, hnone] at h
    exact absurd h hfunc
  | external => exact absurd h.2 hextern
  | exn => exact absurd h.2 hexn

theorem singleton_of_wordsHaveType (hv128 : t ≠ .v128)
    (h : WordsHaveType refs types words t) : ∃ w, words = [w] := by
  obtain ⟨v, hv, htype⟩ := h
  cases hv with
  | word32 | word64 | ref => exact ⟨_, rfl⟩
  | v128 => exact absurd htype.2 hv128

/-- The values of a stack, its top first, have the given types. -/
inductive StackTyped (refs : References) (types : List FunctionType) :
    List Nat → List ValueType → Prop where
  | nil : StackTyped refs types [] []
  | cons {words stack : List Nat} {t : ValueType} {ts : List ValueType}
      (hwords : WordsHaveType refs types words t) (hstack : StackTyped refs types stack ts) :
      StackTyped refs types (words.reverse ++ stack) (t :: ts)

/-- The instruction pushes values of the types that it declares. Of the constants only `ref.null`
pushes a reference. -/
def PushesTyped (refs : References) (types : List FunctionType) : ConstInstruction → Prop
  | .const words t => WordsHaveType refs types words t ∧ (t.isRef = true → words = [0])
  | .binary _ t op => (t = .i32 ∧ ∀ a b, op a b < 2 ^ 32) ∨ (t = .i64 ∧ ∀ a b, op a b < 2 ^ 64)
  | _ => True

theorem littleEndian_lt (bytes : List UInt8) : littleEndian bytes < 256 ^ bytes.length := by
  have heq : littleEndian bytes = leNat bytes := by
    induction bytes with
    | nil => rfl
    | cons b bytes ih => rw [leNat, ← ih]; rfl
  rw [heq]
  exact leNat_lt bytes

theorem ensures_readFull_length (n : Nat) : (readFull n).Ensures fun bytes => bytes.length = n := by
  intro r bytes r' h
  unfold readFull at h
  split at h
  next hlen =>
    cases h
    rw [Reader.slice, length_take, length_drop]
    simp only [Reader.len] at hlen
    omega
  next => cases h

theorem hasType_null (ht : t.isNullable = true) : WordsHaveType refs types [0] t :=
  (wordsHaveType_ref_iff (isRef_of_isNullable ht)).mpr
    ⟨0, rfl, by rw [(refs.null_iff 0).mpr rfl]; exact ht⟩

theorem isNullable_of_nullTypeOfByte {b : UInt8} (h : nullTypeOfByte b = some t) :
    t.isNullable = true := by
  have hmem := mem_of_find?_eq_some h
  simp only [mem_cons, not_mem_nil, or_false] at hmem
  rcases hmem with rfl | rfl | rfl <;> rfl

variable {op : Nat → Nat → Nat}

theorem pushesTyped_constArithmetic {opcode : UInt8} {name : String}
    (h : constArithmetic opcode = some (name, t, op)) :
    PushesTyped refs types (.binary name t op) := by
  have h32 (a : Nat) : a % 2 ^ 32 < 2 ^ 32 := Nat.mod_lt _ (Nat.two_pow_pos 32)
  have h64 (a : Nat) : a % 2 ^ 64 < 2 ^ 64 := Nat.mod_lt _ (Nat.two_pow_pos 64)
  unfold constArithmetic at h
  split_ifs at h <;> cases h
  · exact .inl ⟨rfl, fun _ _ => h32 _⟩
  · exact .inl ⟨rfl, fun _ _ => h32 _⟩
  · exact .inl ⟨rfl, fun _ _ => h32 _⟩
  · exact .inr ⟨rfl, fun _ _ => h64 _⟩
  · exact .inr ⟨rfl, fun _ _ => h64 _⟩
  · exact .inr ⟨rfl, fun _ _ => h64 _⟩

theorem pushesTyped_decode (opcode : UInt8) : (decode opcode).Ensures (PushesTyped refs types) := by
  have h32 (v : Int) : (v % 2 ^ 32).toNat < 2 ^ 32 := by omega
  have h64 (v : Int) : (v % 2 ^ 64).toNat < 2 ^ 64 := by omega
  have hread (n : Nat) : (sliced (readFull n)).Ensures fun bytes =>
      bytes.length = n := (ensures_readFull_length n).sliced
  refine ite (ensures_bind fun v => ensures_pure
    ⟨⟨_, .word32 (h32 v.1) (.inl rfl), rfl, rfl⟩, fun h => by cases h⟩) ?_
  refine ite (ensures_bind fun v => ensures_pure
    ⟨⟨_, .word64 (h64 v.1) (.inl rfl), rfl, rfl⟩, fun h => by cases h⟩) ?_
  refine ite (((hread 4).mapErr _).bind fun bytes hbytes => ensures_pure
    ⟨⟨_, .word32 ?_ (.inr rfl), rfl, rfl⟩, fun h => by cases h⟩) ?_
  · have hlt := littleEndian_lt bytes
    rw [hbytes] at hlt
    exact hlt
  refine ite (((hread 8).mapErr _).bind fun bytes hbytes => ensures_pure
    ⟨⟨_, .word64 ?_ (.inr rfl), rfl, rfl⟩, fun h => by cases h⟩) ?_
  · have hlt := littleEndian_lt bytes
    rw [hbytes] at hlt
    exact hlt
  refine ite (ensures_bind fun _ => ensures_pure trivial) ?_
  refine ite ?_ ?_
  · refine ensures_bind fun b => ?_
    cases b with
    | none => exact ensures_fail _
    | some b =>
      simp only
      cases hnull : nullTypeOfByte b with
      | none =>
        exact ensures_bind fun _ =>
          ensures_pure ⟨hasType_null rfl, fun _ => rfl⟩
      | some t =>
        exact ensures_bind fun _ =>
          ensures_pure ⟨hasType_null (isNullable_of_nullTypeOfByte hnull), fun _ => rfl⟩
  refine ite (ensures_bind fun _ => ensures_pure trivial) ?_
  refine ite ?_ ?_
  · refine ensures_bind₂ fun _ _ => ensures_bind fun _ =>
      ((hread 16).mapErr _).bind fun bytes hbytes => ensures_pure
        ⟨⟨_, .v128 ?_ ?_, rfl, rfl⟩, fun h => by cases h⟩
    · have hlt := littleEndian_lt (bytes.take 8)
      rw [length_take, hbytes] at hlt
      exact hlt
    · have hlt := littleEndian_lt (bytes.drop 8)
      rw [length_drop, hbytes] at hlt
      exact hlt
  · cases harith : constArithmetic opcode with
    | none => exact ensures_fail _
    | some x =>
      exact ensures_pure (pushesTyped_constArithmetic harith)

variable {instrs : List ConstInstruction}

theorem pushesTyped_decodeAll {fuel : Nat} {r : Reader} (h : decodeAll fuel r = some instrs) :
    ∀ instr ∈ instrs, PushesTyped refs types instr := by
  induction fuel generalizing r instrs with
  | zero => cases h
  | succ fuel ih =>
    simp only [decodeAll] at h
    split at h
    · cases h
    split at h
    · cases h
      simp
    split at h
    next instr r' hdecode =>
      obtain ⟨rest, hrest, rfl⟩ := Option.map_eq_some_iff.mp h
      rintro other (_ | ⟨_, hmem⟩)
      · exact pushesTyped_decode _ _ _ _ hdecode
      · exact ih hrest other hmem
    next => cases h

/-- The types that the two evaluations compute may differ for references, whose indexes belong to
different modules. -/
def SameSort (t t' : ValueType) : Prop :=
  if t.isRef then t'.isRef = true else t' = t

/-- What the second evaluation resolves has the type that the first resolves. -/
structure Agree (refs : References) (types : List FunctionType) (declared actual : Resolvers)
    (instrs : List ConstInstruction) : Prop where
  global : ∀ i, .globalGet i ∈ instrs → ∀ t lo hi, declared.global i = .ok (t, lo, hi) →
    ∃ t' lo' hi', actual.global i = .ok (t', lo', hi') ∧ SameSort t t' ∧
      WordsHaveType refs types (if t' = .v128 then [lo', hi'] else [lo']) t
  funcRef : ∀ i, .refFunc i ∈ instrs → ∀ ref, declared.funcRef i = .ok ref →
    ∃ w, actual.funcRef i = .ok w ∧ HasType types (refs.referent w) .funcref

variable {actual declared : Resolvers}

theorem Agree.tail {instr : ConstInstruction}
    (h : Agree refs types declared actual (instr :: instrs)) :
    Agree refs types declared actual instrs :=
  ⟨fun i hi => h.global i (mem_cons_of_mem _ hi), fun i hi => h.funcRef i (mem_cons_of_mem _ hi)⟩

/-- The state of the first evaluation types the stack of the second. -/
structure Simulates (refs : References) (types : List FunctionType) (s s' : ConstState) :
    Prop where
  sorts : List.Forall₂ SameSort s.typeStack s'.typeStack
  typed : StackTyped refs types s'.stack s.typeStack

variable {s : ConstState}

theorem Simulates.push {s s' : ConstState} (h : Simulates refs types s s')
    {t t' : ValueType} (hwords : WordsHaveType refs types words t) (hsort : SameSort t t')
    (ignored : List Nat) : Simulates refs types (s.push ignored t) (s'.push words t') :=
  ⟨.cons hsort h.sorts, .cons hwords h.typed⟩

theorem sameSort_self (t : ValueType) : SameSort t t := by
  unfold SameSort
  split
  · assumption
  · rfl

theorem Simulates.binary {s s' s₁ : ConstState} (h : Simulates refs types s s') {name : String}
    (hop : PushesTyped refs types (.binary name t op))
    (hs : s.binary name t op = .ok s₁) :
    ∃ s₁', s'.binary name t op = .ok s₁' ∧ Simulates refs types s₁ s₁' := by
  have ht : t.isRef = false ∧ t ≠ .v128 := by rcases hop with ⟨rfl, -⟩ | ⟨rfl, -⟩ <;> decide
  have hresult (a b : Nat) : WordsHaveType refs types [op a b] t := by
    rcases hop with ⟨rfl, hlt⟩ | ⟨rfl, hlt⟩
    · exact ⟨_, .word32 (hlt a b) (.inl rfl), rfl, rfl⟩
    · exact ⟨_, .word64 (hlt a b) (.inl rfl), rfl, rfl⟩
  have hsame {t' : ValueType} (hsort : SameSort t t') : t' = t := by
    simpa only [SameSort, ht.1, Bool.false_eq_true, if_false] using hsort
  rcases s' with ⟨stack', typeStack', globals', funcRefs'⟩
  obtain ⟨a, b, rest, ts, -, htypes, rfl⟩ := ConstState.binary_eq_ok_iff.mp hs
  obtain ⟨hsorts, htyped⟩ := h
  rw [htypes] at hsorts htyped
  cases hsorts with
  | cons h1 hsorts =>
    cases hsorts with
    | cons h2 hsorts =>
      obtain rfl := hsame h1
      obtain rfl := hsame h2
      cases htyped with
      | cons hb htyped =>
        cases htyped with
        | cons ha htyped =>
          obtain ⟨wb, rfl⟩ := singleton_of_wordsHaveType ht.2 hb
          obtain ⟨wa, rfl⟩ := singleton_of_wordsHaveType ht.2 ha
          exact ⟨_, ConstState.binary_eq_ok_iff.mpr ⟨wa, wb, _, _, rfl, rfl, rfl⟩,
            .cons (sameSort_self _) hsorts, .cons (hresult wa wb) htyped⟩

theorem Simulates.apply {s s' s₁ : ConstState} (h : Simulates refs types s s')
    {instr : ConstInstruction} (hpush : PushesTyped refs types instr)
    (hagree : Agree refs types declared actual (instr :: instrs))
    (hs : instr.apply declared s = .ok s₁) :
    ∃ s₁', instr.apply actual s' = .ok s₁' ∧ Simulates refs types s₁ s₁' := by
  cases instr with
  | const words t =>
    cases hs
    exact ⟨_, rfl, h.push hpush.1 (sameSort_self t) words⟩
  | globalGet i =>
    obtain ⟨⟨t, lo, hi⟩, hglobal, hs⟩ := bind_inv hs
    cases hs
    obtain ⟨t', lo', hi', hactual, hsort, hwords⟩ :=
      hagree.global i (mem_cons_self ..) t lo hi hglobal
    refine ⟨_, bind_eq_ok_iff.mpr ⟨_, hactual, rfl⟩, ?_⟩
    exact ⟨.cons hsort h.sorts, .cons hwords h.typed⟩
  | refFunc i =>
    obtain ⟨ref, href, hs⟩ := bind_inv hs
    cases hs
    obtain ⟨w, hactual, htype⟩ := hagree.funcRef i (mem_cons_self ..) ref href
    refine ⟨_, bind_eq_ok_iff.mpr ⟨_, hactual, rfl⟩, ?_⟩
    exact ⟨.cons rfl h.sorts, .cons ⟨_, .ref w, htype⟩ h.typed⟩
  | binary name t op => exact h.binary hpush hs

theorem Simulates.applyAll {s s' s₁ : ConstState} (h : Simulates refs types s s')
    (hpush : ∀ instr ∈ instrs, PushesTyped refs types instr)
    (hagree : Agree refs types declared actual instrs)
    (hs : applyAll declared s instrs = .ok s₁) :
    ∃ s₁', applyAll actual s' instrs = .ok s₁' ∧ Simulates refs types s₁ s₁' := by
  induction instrs generalizing s s' with
  | nil =>
    cases hs
    exact ⟨s', rfl, h⟩
  | cons instr instrs ih =>
    obtain ⟨s₂, happly, hs⟩ := bind_inv hs
    obtain ⟨s₂', happly', h₂⟩ := h.apply (hpush instr (mem_cons_self ..)) hagree happly
    obtain ⟨s₁', hrest, h₁⟩ :=
      ih h₂ (fun other hother => hpush other (mem_cons_of_mem _ hother)) hagree.tail hs
    exact ⟨s₁', bind_eq_ok_iff.mpr ⟨s₂', happly', hrest⟩, h₁⟩

/-- An expression that has a value with resolvers of the declared types has a value of its type with
resolvers that agree with them. -/
theorem evaluateConstExpr_typed {e : ConstantExpression} {values : List Nat}
    (h : (evaluateConstExpr e declared).1 = .ok (values, t))
    (hagree : ∀ instrs, e.instructions = some instrs → Agree refs types declared actual instrs) :
    ∃ words t', (evaluateConstExpr e actual).1 = .ok (words, t') ∧
      WordsHaveType refs types words t := by
  obtain ⟨instrs, s, hinstrs, hs, htypes, -⟩ := evaluateConstExpr_eq_ok_iff.mp h
  have hstart : Simulates refs types {} {} := ⟨.nil, .nil⟩
  obtain ⟨s', hs', hsorts, htyped⟩ :=
    hstart.applyAll (pushesTyped_decodeAll hinstrs) (hagree instrs hinstrs) hs
  rw [htypes] at hsorts htyped
  obtain ⟨t', -, htypes'⟩ : ∃ t', SameSort t t' ∧ s'.typeStack = [t'] := by
    obtain ⟨t', ts, hsort, hnil, hcons⟩ := forall₂_cons_left_iff.mp hsorts
    cases hnil
    exact ⟨t', hsort, hcons⟩
  generalize hstack : s'.stack = stack at htyped
  cases htyped with
  | cons hwords hnil =>
    cases hnil
    refine ⟨_, t', evaluateConstExpr_eq_ok_iff.mpr ⟨instrs, s', hinstrs, hs', htypes', rfl⟩, ?_⟩
    rw [hstack, append_nil, reverse_reverse]
    exact hwords

section Single

open ConstInstruction

variable {resolvers : Resolvers}

theorem applyAll_append {instrs instrs' : List ConstInstruction} :
    applyAll resolvers s (instrs ++ instrs') = applyAll resolvers s instrs >>= fun s =>
        applyAll resolvers s instrs' := by
  induction instrs generalizing s with
  | nil => rfl
  | cons instr instrs ih =>
    rw [cons_append, applyAll, applyAll, bind_assoc]
    simp only [ih]

/-- An instruction pushes a value, or it takes two numbers for one. -/
theorem typeStack_apply {s s' : ConstState} {instr : ConstInstruction}
    (hpush : PushesTyped refs types instr) (h : instr.apply resolvers s = .ok s') :
    ∃ t ts, s'.typeStack = t :: ts ∧
      (ts = s.typeStack ∨ t.isRef = false ∧ s.typeStack = t :: t :: ts) := by
  cases instr with
  | const words t =>
    cases h
    exact ⟨t, _, rfl, .inl rfl⟩
  | globalGet i =>
    obtain ⟨⟨t, lo, hi⟩, -, h⟩ := bind_inv h
    cases h
    exact ⟨t, _, rfl, .inl rfl⟩
  | refFunc i =>
    obtain ⟨ref, -, h⟩ := bind_inv h
    cases h
    exact ⟨_, _, rfl, .inl rfl⟩
  | binary name t op =>
    obtain ⟨a, b, stack, ts, -, htypes, rfl⟩ := ConstState.binary_eq_ok_iff.mp h
    refine ⟨t, ts, rfl, .inr ⟨?_, htypes⟩⟩
    rcases hpush with ⟨rfl, -⟩ | ⟨rfl, -⟩ <;> rfl

theorem mem_typeStack_apply {s s' : ConstState} {instr : ConstInstruction}
    (hpush : PushesTyped refs types instr) (h : instr.apply resolvers s = .ok s')
    (ht : t.isRef = true) (hmem : t ∈ s.typeStack) : t ∈ s'.typeStack := by
  obtain ⟨t', ts, hts, rfl | ⟨hnum, htypes⟩⟩ := typeStack_apply hpush h
  · rw [hts]
    exact mem_cons_of_mem _ hmem
  have hne : t ≠ t' := by
    rintro rfl
    rw [ht] at hnum
    cases hnum
  rw [htypes] at hmem
  rw [hts]
  simpa [hne] using hmem

theorem single_of_isRef (hpush : ∀ instr ∈ instrs, PushesTyped refs types instr)
    (h : applyAll resolvers {} instrs = .ok s) (htypes : s.typeStack = [t])
    (ht : t.isRef = true) : ∃ instr, instrs = [instr] := by
  rcases eq_nil_or_concat instrs with rfl | ⟨init, last, rfl⟩
  · cases h
    cases htypes
  rw [concat_eq_append, applyAll_append] at h
  obtain ⟨s₁, hinit, h⟩ := bind_inv h
  obtain ⟨s₂, hlast, h⟩ := bind_inv h
  cases h
  obtain ⟨t', ts, hts, hbelow⟩ := typeStack_apply (hpush last (by simp)) hlast
  rw [htypes] at hts
  cases hts
  -- nothing lies below the reference, so no instruction came before
  have hnil := hbelow.resolve_right fun hnum => by simp [ht] at hnum
  rcases eq_nil_or_concat init with rfl | ⟨init', last', rfl⟩
  · exact ⟨last, rfl⟩
  rw [concat_eq_append, applyAll_append] at hinit
  obtain ⟨s₃, -, hinit⟩ := bind_inv hinit
  obtain ⟨s₄, hlast', hinit⟩ := bind_inv hinit
  cases hinit
  obtain ⟨t'', ts, hts, -⟩ := typeStack_apply (hpush last' (by simp)) hlast'
  rw [← hnil] at hts
  cases hts

theorem refFunc_notMem {s s' : ConstState} (hpush : ∀ instr ∈ instrs, PushesTyped refs types instr)
    (h : applyAll resolvers s instrs = .ok s')
    (hnum : ∀ t ∈ s'.typeStack, t.isRef = false) (i : Index) : .refFunc i ∉ instrs := by
  have hkeeps {s : ConstState} {instrs : List ConstInstruction}
      (hpush : ∀ instr ∈ instrs, PushesTyped refs types instr)
      (h : applyAll resolvers s instrs = .ok s') {t : ValueType}
      (ht : t.isRef = true) : t ∉ s.typeStack := by
    induction instrs generalizing s with
    | nil =>
      cases h
      intro hmem
      rw [hnum t hmem] at ht
      cases ht
    | cons instr instrs ih =>
      intro hmem
      obtain ⟨s₁, happly, h⟩ := bind_inv h
      refine ih (fun other hother => hpush other (mem_cons_of_mem _ hother)) h ?_
      exact mem_typeStack_apply (hpush instr (mem_cons_self ..)) happly ht hmem
  intro hmem
  induction instrs generalizing s with
  | nil => cases hmem
  | cons instr instrs ih =>
    have hpush' := fun other hother => hpush other (mem_cons_of_mem _ hother)
    obtain ⟨s₁, happly, h⟩ := bind_inv h
    rcases mem_cons.mp hmem with rfl | hmem
    · obtain ⟨ref, -, happly⟩ := bind_inv happly
      cases happly
      refine hkeeps hpush' h (t := .funcref) rfl ?_
      exact mem_cons_self ..
    · exact ih hpush' h hmem

end Single

end Andsifr.Execution
