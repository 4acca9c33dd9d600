import Andsifr.Leb128
import Andsifr.Lib.Check
import Andsifr.Wasm.Module
import Andsifr.Wasm.Opcode

namespace Andsifr.Wasm

open Lib Leb128 Opcode Check List Parser

/-- What a constant expression is evaluated with: the type and the two halves of a global, and the
reference to a function. -/
structure Resolvers where
  global : Index → Check (ValueType × Nat × Nat)
  funcRef : Index → Check Nat

/-- The state of the evaluation, the stacks with their top first. The indexes that were given to
the resolvers are kept, since some callers record them there. -/
structure ConstState where
  stack : List Nat := []
  typeStack : List ValueType := []
  globals : List Index := []
  funcRefs : List Index := []
  deriving DecidableEq, Repr

namespace ConstState

def push (s : ConstState) (values : List Nat) (t : ValueType) : ConstState :=
  ⟨values.reverse ++ s.stack, t :: s.typeStack, s.globals, s.funcRefs⟩

/-- The arithmetic instructions, which differ in their name, type and operation. -/
def binary (s : ConstState) (name : String) (t : ValueType) (op : Nat → Nat → Nat) :
    Check ConstState :=
  match s.typeStack with
  | v1 :: v2 :: types =>
    if v1 ≠ t ∨ v2 ≠ t then
      .error (.err s!"type mismatch on {name}: {v2.name}, {v1.name}")
    else
      match s.stack with
      | b :: a :: rest => .ok ⟨op a b :: rest, t :: types, s.globals, s.funcRefs⟩
      | _ => .error (.crash (.panic "runtime error: index out of range"))
  | _ => .error (.err s!"stack underflow on {name}")

end ConstState

def littleEndian (bytes : List UInt8) : Nat :=
  bytes.foldr (fun b n => b.toNat + 256 * n) 0

/-- The name, type and operation of an arithmetic instruction, on `uint32` or `uint64` values. -/
def constArithmetic (opcode : UInt8) : Option (String × ValueType × (Nat → Nat → Nat)) :=
  if opcode = i32Add then some ("i32.add", .i32, fun a b => (a + b) % 2 ^ 32)
  else if opcode = i32Sub then
    some ("i32.sub", .i32, fun a b => (a % 2 ^ 32 + 2 ^ 32 - b % 2 ^ 32) % 2 ^ 32)
  else if opcode = i32Mul then some ("i32.mul", .i32, fun a b => (a * b) % 2 ^ 32)
  else if opcode = i64Add then some ("i64.add", .i64, fun a b => (a + b) % 2 ^ 64)
  else if opcode = i64Sub then some ("i64.sub", .i64, fun a b => (a + 2 ^ 64 - b) % 2 ^ 64)
  else if opcode = i64Mul then some ("i64.mul", .i64, fun a b => (a * b) % 2 ^ 64)
  else none

/-- The reference type that a single byte after `ref.null` stands for. -/
def nullTypeOfByte (b : UInt8) : Option ValueType :=
  [ValueType.funcref, .externref, .exnref].find? (·.kind == b)

/-- An instruction of a constant expression with its immediates. The constants and `ref.null` push
what they are read with. -/
inductive ConstInstruction where
  | const (values : List Nat) (t : ValueType)
  | globalGet (i : Index)
  | refFunc (i : Index)
  | binary (name : String) (t : ValueType) (op : Nat → Nat → Nat)

namespace ConstInstruction

def decodeRefNull : Parser ConstInstruction := do
  match ← peek with
  | none => fail "read reference type for ref.null: short buffer"
  | some b =>
    match nullTypeOfByte b with
    | some valType => do
      let _ ← readByte
      return const [0] valType
    | none => do
      let (typeIdx, _) ← (sliced decodeUint32).mapErr fun _ =>
        s!"invalid type for ref.null: {hex b.toNat}"
      return const [0] (.concreteRef typeIdx true)

def decodeV128Const : Parser ConstInstruction := do
  let suffix ← indexByte
  require (suffix = Opcode.vecV128Const)
    s!"invalid vector opcode for const expression: {hex Opcode.vecPrefix.toNat}"
  let r ← reader
  let bytes ← (sliced (readFull 16)).mapErr fun _ =>
    s!"v128.const needs 16 bytes but was {r.len} bytes"
  return const [littleEndian (bytes.take 8), littleEndian (bytes.drop 8)] .v128

/-- Reads the immediates of an instruction other than `end`. -/
def decode (opcode : UInt8) : Parser ConstInstruction :=
  if opcode = Opcode.i32Const then do
    let (v, _) ← (sliced decodeInt32).mapErr (s!"read i32: {·}")
    return const [(v % 2 ^ 32).toNat] .i32
  else if opcode = Opcode.i64Const then do
    let (v, _) ← (sliced decodeInt64).mapErr (s!"read i64: {·}")
    return const [(v % 2 ^ 64).toNat] .i64
  else if opcode = Opcode.f32Const then do
    let bytes ← (sliced (readFull 4)).mapErr fun _ => "unexpected EOF"
    return const [littleEndian bytes] .f32
  else if opcode = Opcode.f64Const then do
    let bytes ← (sliced (readFull 8)).mapErr fun _ => "unexpected EOF"
    return const [littleEndian bytes] .f64
  else if opcode = Opcode.globalGet then do
    let (i, _) ← (sliced decodeUint32).mapErr (s!"read index of global: {·}")
    return globalGet i
  else if opcode = Opcode.refNull then
    decodeRefNull
  else if opcode = Opcode.refFunc then do
    let (i, _) ← (sliced decodeUint32).mapErr (s!"read i32: {·}")
    return refFunc i
  else if opcode = Opcode.vecPrefix then
    decodeV128Const
  else
    match constArithmetic opcode with
    | some (name, t, op) => return binary name t op
    | none => fail s!"invalid opcode for const expression: {hex opcode.toNat}"

def apply (resolvers : Resolvers) (s : ConstState) : ConstInstruction → Check ConstState
  | const values t => return s.push values t
  | globalGet i => do
    let (t, lo, hi) ← resolvers.global i
    let s : ConstState := ⟨s.stack, s.typeStack, s.globals.concat i, s.funcRefs⟩
    return s.push (if t = .v128 then [lo, hi] else [lo]) t
  | refFunc i => do
    let ref ← resolvers.funcRef i
    let s : ConstState := ⟨s.stack, s.typeStack, s.globals, s.funcRefs.concat i⟩
    return s.push [ref] .funcref
  | binary name t op => s.binary name t op

end ConstInstruction

/-- A case of the loop: the immediates are read, and the instruction is evaluated. -/
def evaluateInstruction (resolvers : Resolvers) (s : ConstState) (opcode : UInt8) :
    Parser ConstState := do
  let instr ← ConstInstruction.decode opcode
  lift (instr.apply resolvers s)

/-- The loop of `evaluateConstExpr` from the reader's position on, and the state it ends in. -/
def evaluateLoop (resolvers : Resolvers) :
    (fuel : Nat) → Reader → ConstState → Check (List Nat × ValueType) × ConstState
  | 0, _, s => (.error (.crash .outOfFuel), s)
  | fuel + 1, r, s =>
    match r.bytes[r.pos]? with
    | none => (.error (.err "unexpected EOF"), s)
    | some opcode =>
      if opcode = opEnd then
        match s.typeStack with
        | [t] => (.ok (s.stack.reverse, t), s)
        | _ => (.error (.err "stack has more than one value at end of constant expression"), s)
      else
        match evaluateInstruction resolvers s opcode (r.advance 1) with
        | .ok s' r' => evaluateLoop resolvers fuel r' s'
        | .err m _ => (.error (.err m), s)
        | .crash c => (.error (.crash c), s)

/-- Every round consumes its opcode, so the bytes of the expression bound the rounds. -/
def evaluateConstExpr (e : ConstantExpression) (resolvers : Resolvers) :
    Check (List Nat × ValueType) × ConstState :=
  evaluateLoop resolvers (e.data.length + 1) ⟨e.data, 0⟩ {}

/-- The resolvers return, with a value or an error. -/
structure Resolvers.Total (resolvers : Resolvers) : Prop where
  global : ∀ i, Check.Returns (resolvers.global i)
  funcRef : ∀ i, Check.Returns (resolvers.funcRef i)

/-- The expression is closed by the `end` instruction, as decoding leaves it. -/
def ConstantExpression.Closed (e : ConstantExpression) : Prop :=
  e.data.getLast? = some opEnd

/-- There is a value for every type. -/
def ConstState.Filled (s : ConstState) : Prop :=
  s.typeStack.length ≤ s.stack.length

variable {s : ConstState}

theorem ConstState.Filled.push (h : s.Filled) {values : List Nat} (hvalues : values ≠ [])
    (t : ValueType) : (s.push values t).Filled := by
  have hpos := length_pos_iff.mpr hvalues
  simp only [Filled, ConstState.push, length_cons, length_append,
    length_reverse] at *
  omega

theorem ConstState.Filled.binary (h : s.Filled) (name : String) (t : ValueType)
    (op : Nat → Nat → Nat) : Check.Returns (s.binary name t op) := by
  rw [returns_iff]
  unfold ConstState.binary
  split
  next v1 v2 types htypes =>
    split
    · exact .inr ⟨_, rfl⟩
    split
    next => exact .inl ⟨_, rfl⟩
    next hstack =>
      -- two types on the stack mean at least two values
      rcases hs : s.stack with _ | ⟨b, _ | ⟨a, rest⟩⟩
      · simp [Filled, htypes, hs] at h
      · simp [Filled, htypes, hs] at h
      · exact absurd hs (hstack b a rest)
  next => exact .inr ⟨_, rfl⟩

variable {s s' : ConstState}

theorem ConstState.binary_eq_ok_iff {name : String} {t : ValueType} {op : Nat → Nat → Nat} :
    s.binary name t op = .ok s' ↔ ∃ a b stack types, s.stack = b :: a :: stack ∧
      s.typeStack = t :: t :: types ∧
      s' = ⟨op a b :: stack, t :: types, s.globals, s.funcRefs⟩ := by
  constructor
  · intro h
    unfold ConstState.binary at h
    split at h
    next v1 v2 types htypes =>
      split at h
      · cases h
      next heq =>
        simp only [ne_eq, not_or, not_not] at heq
        obtain ⟨rfl, rfl⟩ := heq
        split at h
        next b a rest hstack =>
          cases h
          exact ⟨a, b, rest, types, hstack, htypes, rfl⟩
        next => cases h
    next => cases h
  · rintro ⟨a, b, stack, types, hstack, htypes, rfl⟩
    simp [ConstState.binary, hstack, htypes]

theorem ConstState.binary_filled (h : s.Filled) {name : String} {t : ValueType}
    {op : Nat → Nat → Nat} (hs : s.binary name t op = .ok s') : s'.Filled := by
  obtain ⟨a, b, rest, types, hstack, htypes, rfl⟩ := binary_eq_ok_iff.mp hs
  simp only [Filled, htypes, hstack, length_cons] at *
  omega

namespace ConstInstruction

instance fits_decodeRefNull : decodeRefNull.Fits := by
  refine fits_peek.bind fun b => ?_
  split
  · exact fits_fail _
  · split <;> infer_instance

variable {r r' : Reader} {values : List Nat} {t : ValueType} {opcode : UInt8}

theorem ne_nil_of_decodeRefNull (h : decodeRefNull r = .ok (const values t) r') : values ≠ [] := by
  obtain ⟨b, r₁, -, h⟩ := bind_inv h
  cases b with
  | none => cases h
  | some b =>
    simp only at h
    cases hnull : nullTypeOfByte b <;> rw [hnull] at h <;>
      obtain ⟨_, _, -, h⟩ := bind_inv h <;> cases h <;> simp

theorem ne_nil_of_decodeV128Const (h : decodeV128Const r = .ok (const values t) r') :
    values ≠ [] := by
  obtain ⟨_, _, -, h⟩ := bind_inv h
  obtain ⟨_, _, -, h⟩ := bind_inv h
  obtain ⟨_, _, -, h⟩ := bind_inv h
  obtain ⟨_, _, -, h⟩ := bind_inv h
  cases h
  simp

theorem ne_nil_of_decode (h : decode opcode r = .ok (const values t) r') : values ≠ [] := by
  unfold decode at h
  split_ifs at h
  all_goals try
    obtain ⟨a, r₁, -, h⟩ := bind_inv h
    cases h <;> simp
  · exact ne_nil_of_decodeRefNull h
  · exact ne_nil_of_decodeV128Const h
  · cases harith : constArithmetic opcode <;> rw [harith] at h <;> cases h

theorem decodeV128Const_spec (hr : r.pos < r.bytes.length) :
    ¬ decodeV128Const.Crashes r ∧ ∀ instr r', decodeV128Const r = .ok instr r' →
        r'.bytes = r.bytes ∧ r.pos ≤ r'.pos ∧ r'.pos ≤ r'.bytes.length := by
  constructor
  · intro hcrash
    rcases crashes_bind.mp hcrash with hcrash | ⟨suffix, r₁, hsuffix, hcrash⟩
    · have := crashes_indexByte.mp hcrash
      omega
    · obtain ⟨-, rfl⟩ := indexByte_eq_ok_iff.mp hsuffix
      exact Fits.returns (r.advance 1) hr hcrash
  · intro instr r' h
    obtain ⟨suffix, r₁, hsuffix, h⟩ := bind_inv h
    obtain ⟨-, rfl⟩ := indexByte_eq_ok_iff.mp hsuffix
    obtain ⟨hbytes, hpos, hin⟩ := Fits.inside (r.advance 1) instr r' hr h
    exact ⟨hbytes, by simp only [Reader.advance_pos] at hpos; omega, hin⟩

theorem fits_decode (hvec : opcode ≠ vecPrefix) : (decode opcode).Fits := by
  unfold decode decodeInt32 decodeInt64
  refine Fits.ite inferInstance (Fits.ite inferInstance (Fits.ite inferInstance
    (Fits.ite inferInstance (Fits.ite inferInstance (Fits.ite inferInstance
      (Fits.ite inferInstance ?_))))))
  rw [if_neg hvec]
  split <;> infer_instance

theorem decode_spec (hopcode : r.bytes[r.pos]? = some opcode)
    (hclosed : r.bytes.getLast? = some opEnd) (hend : opcode ≠ opEnd) :
    ¬ (decode opcode).Crashes (r.advance 1) ∧
      ∀ instr r', decode opcode (r.advance 1) = .ok instr r' →
        r'.bytes = r.bytes ∧ r.pos < r'.pos ∧ r'.pos ≤ r'.bytes.length := by
  have hlt := (List.getElem?_eq_some_iff.mp hopcode).1
  -- the opcode is not the closing one, so it is not the last byte
  have hnext : r.pos + 1 < r.bytes.length := by
    by_contra hge
    have hlast : r.pos = r.bytes.length - 1 := by omega
    rw [getLast?_eq_getElem?, ← hlast, hopcode] at hclosed
    exact hend (Option.some.inj hclosed)
  by_cases hvec : opcode = vecPrefix
  · have heq : decode opcode = decodeV128Const := by
      rw [hvec]
      rfl
    rw [heq]
    exact decodeV128Const_spec hnext
  · have hfits := fits_decode hvec
    exact ⟨hfits.returns (r.advance 1) hlt,
      fun instr r' => hfits.inside (r.advance 1) instr r' hlt⟩

variable {resolvers : Resolvers} {instr : ConstInstruction}

theorem returns_apply (hres : resolvers.Total) (h : s.Filled) (instr : ConstInstruction) :
    Check.Returns (instr.apply resolvers s) := by
  cases instr with
  | const values t => exact returns_ok _
  | globalGet i => exact returns_bind (hres.global i) fun _ => returns_ok _
  | refFunc i => exact returns_bind (hres.funcRef i) fun _ => returns_ok _
  | binary name t op => exact h.binary name t op

theorem filled_of_apply (h : s.Filled) (hvalues : ∀ values t, instr = const values t → values ≠ [])
    (happly : instr.apply resolvers s = .ok s') : s'.Filled := by
  cases instr with
  | const values t =>
    cases happly
    exact h.push (hvalues values t rfl) t
  | globalGet i =>
    obtain ⟨⟨t, lo, hi⟩, -, happly⟩ := bind_inv happly
    cases happly
    exact ConstState.Filled.push h (by split <;> simp) _
  | refFunc i =>
    obtain ⟨ref, -, happly⟩ := bind_inv happly
    cases happly
    exact ConstState.Filled.push h (by simp) _
  | binary name t op => exact ConstState.binary_filled h happly

end ConstInstruction

open ConstInstruction

variable {r : Reader} {resolvers : Resolvers} {opcode : UInt8}

theorem evaluateInstruction_filled (h : s.Filled) {r r' : Reader}
    (hs : evaluateInstruction resolvers s opcode r = .ok s' r') : s'.Filled := by
  obtain ⟨instr, r₁, hdecode, hs⟩ := bind_inv hs
  refine filled_of_apply h ?_ (lift_eq_ok_iff.mp hs).1
  rintro values t rfl
  exact ne_nil_of_decode hdecode

theorem evaluateInstruction_spec (hres : resolvers.Total) (h : s.Filled)
    (hopcode : r.bytes[r.pos]? = some opcode) (hclosed : r.bytes.getLast? = some opEnd)
    (hend : opcode ≠ opEnd) :
    ¬ (evaluateInstruction resolvers s opcode).Crashes (r.advance 1) ∧
      ∀ s' r', evaluateInstruction resolvers s opcode (r.advance 1) = .ok s' r' →
        r'.bytes = r.bytes ∧ r.pos < r'.pos ∧ r'.pos ≤ r'.bytes.length := by
  obtain ⟨hsafe, hinside⟩ := decode_spec hopcode hclosed hend
  constructor
  · intro hcrash
    rcases crashes_bind.mp hcrash with hcrash | ⟨instr, r₁, -, hcrash⟩
    · exact hsafe hcrash
    · exact returns_apply hres h instr (crashes_lift.mp hcrash)
  · intro s' r' hs
    obtain ⟨instr, r₁, hdecode, hs⟩ := bind_inv hs
    obtain ⟨-, rfl⟩ := lift_eq_ok_iff.mp hs
    exact hinside instr _ hdecode

theorem returns_evaluateLoop (hres : resolvers.Total) {fuel : Nat} (h : s.Filled)
    (hclosed : r.bytes.getLast? = some opEnd) (hpos : r.pos ≤ r.bytes.length)
    (hfuel : r.bytes.length < fuel + r.pos) :
    Check.Returns (evaluateLoop resolvers fuel r s).1 := by
  induction fuel generalizing r s with
  | zero => omega
  | succ fuel ih =>
    simp only [evaluateLoop]
    cases hopcode : r.bytes[r.pos]? with
    | none => exact returns_fail _
    | some opcode =>
      simp only
      split
      next =>
        split
        · exact returns_ok _
        · exact returns_fail _
      next hend =>
        obtain ⟨hsafe, hok⟩ := evaluateInstruction_spec hres h hopcode hclosed hend
        cases hstep : evaluateInstruction resolvers s opcode (r.advance 1) with
        | err m r' => exact returns_fail _
        | crash c => exact absurd ⟨c, hstep⟩ hsafe
        | ok s' r' =>
          obtain ⟨hbytes, hpos, hin⟩ := hok s' r' hstep
          exact ih (evaluateInstruction_filled h hstep) (by rw [hbytes]; exact hclosed) hin
            (by rw [hbytes]; omega)

theorem returns_evaluateConstExpr {e : ConstantExpression} (he : e.Closed)
    (hres : resolvers.Total) :
    Check.Returns (evaluateConstExpr e resolvers).1 :=
  returns_evaluateLoop hres (le_refl _) he (by simp) (by simp)

theorem evaluateLoop_ne_nil {fuel : Nat} (h : s.Filled) {values : List Nat} {t : ValueType}
    (heval : (evaluateLoop resolvers fuel r s).1 = .ok (values, t)) : values ≠ [] := by
  induction fuel generalizing r s with
  | zero => cases heval
  | succ fuel ih =>
    simp only [evaluateLoop] at heval
    cases hopcode : r.bytes[r.pos]? with
    | none =>
      rw [hopcode] at heval
      cases heval
    | some opcode =>
      simp only [hopcode] at heval
      split at heval
      next =>
        split at heval
        next t' htypes =>
          cases heval
          rintro hnil
          simp [ConstState.Filled, htypes, reverse_eq_nil_iff.mp hnil] at h
        next => cases heval
      cases hstep : evaluateInstruction resolvers s opcode (r.advance 1) with
      | err m r' => simp [hstep] at heval
      | crash c => simp [hstep] at heval
      | ok s' r' =>
        simp only [hstep] at heval
        exact ih (evaluateInstruction_filled h hstep) heval

end Andsifr.Wasm
