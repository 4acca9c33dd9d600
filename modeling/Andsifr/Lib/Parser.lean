import Mathlib.Tactic.Ring

namespace Andsifr.Lib

open List

/-- A byte slice with a read position. -/
structure Reader where
  bytes : List UInt8
  pos : Nat
  deriving DecidableEq, Repr

namespace Reader

def len (r : Reader) : Nat :=
  r.bytes.length - r.pos

def advance (r : Reader) (n : Nat) : Reader :=
  ⟨r.bytes, r.pos + n⟩

/-- The bytes from position `i` on, at most `n` of them. -/
def slice (r : Reader) (i n : Nat) : List UInt8 :=
  (r.bytes.drop i).take n

@[simp] theorem advance_bytes (r : Reader) (n : Nat) : (r.advance n).bytes = r.bytes := rfl

@[simp] theorem advance_pos (r : Reader) (n : Nat) : (r.advance n).pos = r.pos + n := rfl

@[simp] theorem advance_zero (r : Reader) : r.advance 0 = r := rfl

theorem advance_advance (r : Reader) (m n : Nat) : (r.advance m).advance n = r.advance (m + n) := by
  simp [advance, add_assoc]

theorem getElem?_slice (r : Reader) {i n k : Nat} (hk : k < n) :
    (r.slice i n)[k]? = r.bytes[i + k]? := by
  rw [slice, getElem?_take_of_lt hk, getElem?_drop]

end Reader

/-- The ways a computation ends without returning. -/
inductive Crash where
  | panic (message : String)
  | outOfFuel
  deriving DecidableEq, Repr

inductive Result (α : Type) where
  | ok (value : α) (r : Reader)
  | err (message : String) (r : Reader)
  | crash (c : Crash)
  deriving DecidableEq, Repr

/-- A computation that reads from a `Reader` and returns a value or an error, or crashes. -/
def Parser (α : Type) : Type :=
  Reader → Result α

namespace Parser

variable {α β σ : Type}

instance : Monad Parser where
  pure a := fun r => .ok a r
  bind x f := fun r =>
    match x r with
    | .ok a r' => f a r'
    | .err m r' => .err m r'
    | .crash c => .crash c

def fail (message : String) : Parser α :=
  fun r => .err message r

def raise (message : String) : Parser α :=
  fun _ => .crash (.panic message)

def outOfFuel : Parser α :=
  fun _ => .crash .outOfFuel

def reader : Parser Reader :=
  fun r => .ok r r

def mapErr (f : String → String) (x : Parser α) : Parser α :=
  fun r =>
    match x r with
    | .err m r' => .err (f m) r'
    | other => other

def require (holds : Bool) (message : String) : Parser Unit :=
  if holds then pure () else fail message

/-- Allocates a slice whose length is computed with signed arithmetic. -/
def makeSlice (n : Int) : Parser Nat :=
  if n < 0 then raise "runtime error: makeslice: len out of range" else pure n.toNat

def readByte : Parser UInt8 :=
  fun r =>
    match r.bytes[r.pos]? with
    | some b => .ok b (r.advance 1)
    | none => .err "EOF" r

/-- The byte at the read position, if there is one. -/
def peek : Parser (Option UInt8) :=
  fun r => .ok r.bytes[r.pos]? r

/-- The index expression at the read position. -/
def indexByte : Parser UInt8 :=
  fun r =>
    match r.bytes[r.pos]? with
    | some b => .ok b (r.advance 1)
    | none => .crash (.panic s!"runtime error: index out of range [{r.pos}]")

/-- Reads from the slice that starts at the read position. -/
def sliced (x : Parser α) : Parser α :=
  fun r =>
    if r.pos ≤ r.bytes.length then x r
    else .crash (.panic s!"runtime error: slice bounds out of range [{r.pos}:]")

/-- Moves the position, also past the end. -/
def jump (n : Nat) : Parser Unit :=
  fun r => .ok () (r.advance n)

/-- Reads a byte, or nothing at the end of the input. -/
def readByteOrEOF : Parser (Option UInt8) :=
  fun r =>
    match r.bytes[r.pos]? with
    | some b => .ok (some b) (r.advance 1)
    | none => .ok none r

/-- Takes the end of the input for the value `a`. -/
def recoverEOF (a : α) (x : Parser α) : Parser α :=
  fun r =>
    match x r with
    | .err m r' => if m = "EOF" then .ok a r' else .err m r'
    | other => other

/-- Takes an error for nothing. -/
def attempt (x : Parser α) : Parser (Option α) :=
  fun r =>
    match x r with
    | .ok a r' => .ok (some a) r'
    | .err _ r' => .ok none r'
    | .crash c => .crash c

def unreadByte : Parser Unit :=
  fun r =>
    if r.pos = 0 then .err "bytes.Reader.UnreadByte: at beginning of slice" r
    else .ok () ⟨r.bytes, r.pos - 1⟩

def readFull (n : Nat) : Parser (List UInt8) :=
  fun r =>
    if n ≤ r.len then .ok (r.slice r.pos n) (r.advance n)
    else .err (if r.len = 0 then "EOF" else "unexpected EOF") (r.advance r.len)

/-- Reads at most `n` bytes; at the end of the input this is an error even for `n = 0`. -/
def read (n : Nat) : Parser (List UInt8) :=
  fun r =>
    if r.len = 0 then .err "EOF" r
    else .ok (r.slice r.pos n) (r.advance (min n r.len))

def skip (n : Nat) : Parser Unit :=
  fun r => if n ≤ r.len then .ok () (r.advance n) else .err "EOF" (r.advance r.len)

def seekBack (n : Nat) : Parser Unit :=
  fun r =>
    if r.pos < n then .err "bytes.Reader.Seek: negative position" r
    else .ok () ⟨r.bytes, r.pos - n⟩

/-- Reads `n` bytes at the position `i` without moving. -/
def readAt (n i : Nat) : Parser (List UInt8) :=
  fun r =>
    if r.bytes.length ≤ i then .err "EOF" r
    else if (r.slice i n).length < n then .err "EOF" r
    else .ok (r.slice i n) r

/-- Runs `step i`, `step (i + 1)`, ... `n` times, threading a state. -/
def iterate (step : Nat → σ → Parser σ) : (i n : Nat) → σ → Parser σ
  | _, 0, s => pure s
  | i, n + 1, s => do
    let s ← step i s
    iterate step (i + 1) n s

def times (n : Nat) (item : Nat → Parser α) : Parser (List α) :=
  iterate (fun i items => do
    let a ← item i
    return items.concat a) 0 n []

/-- The computation neither returns a value nor an error. -/
def Crashes (x : Parser α) (r : Reader) : Prop :=
  ∃ c, x r = .crash c

def Safe (x : Parser α) : Prop :=
  ∀ r, ¬ x.Crashes r

/-- The computation returns, with a value or an error, and leaves the reader at `r'`. -/
def Leaves (x : Parser α) (r r' : Reader) : Prop :=
  (∃ a, x r = .ok a r') ∨ ∃ m, x r = .err m r'

/-- The computation moves the reader back by at most `back` positions. -/
def Moves (back : Nat) (x : Parser α) : Prop :=
  ∀ r r', x.Leaves r r' → r'.bytes = r.bytes ∧ r.pos ≤ r'.pos + back

/-- The computation always returns, and moves the reader back by at most `back` positions. -/
class Tame (back : Nat) (x : Parser α) : Prop where
  safe : x.Safe
  moves : x.Moves back

/-- From a position inside the slice the computation returns, and a value leaves it inside. -/
class Fits (x : Parser α) : Prop where
  returns : ∀ r, r.pos ≤ r.bytes.length → ¬ x.Crashes r
  inside : ∀ r a r', r.pos ≤ r.bytes.length → x r = .ok a r' →
    r'.bytes = r.bytes ∧ r.pos ≤ r'.pos ∧ r'.pos ≤ r'.bytes.length

/-- Every value that the computation returns satisfies `P`. -/
def Ensures (P : α → Prop) (x : Parser α) : Prop :=
  ∀ r a r', x r = .ok a r' → P a

theorem bind_run (x : Parser α) (f : α → Parser β) (r : Reader) : (x >>= f) r =
      match x r with
      | .ok a r' => f a r'
      | .err m r' => .err m r'
      | .crash c => .crash c := rfl

instance : LawfulMonad Parser :=
  LawfulMonad.mk' Parser
    (fun x => by
      funext r
      change (x >>= fun a => pure a) r = x r
      rw [bind_run]
      cases x r <;> rfl)
    (fun _ _ => rfl)
    (fun x f g => by
      funext r
      simp only [bind_run]
      cases x r <;> rfl)

@[simp] theorem pure_run (a : α) (r : Reader) : (pure a : Parser α) r = .ok a r := rfl

@[simp] theorem fail_run (m : String) (r : Reader) : (fail m : Parser α) r = .err m r := rfl

@[simp] theorem reader_run (r : Reader) : reader r = .ok r r := rfl

variable {x : Parser α} {r r' : Reader} {f : α → Parser β}

theorem bind_eq_ok_iff {b : β} :
    (x >>= f) r = .ok b r' ↔ ∃ a r₁, x r = .ok a r₁ ∧ f a r₁ = .ok b r' := by
  rw [bind_run]
  cases x r <;> simp

theorem bind_inv {b : β} (h : (x >>= f) r = .ok b r') :
    ∃ a r₁, x r = .ok a r₁ ∧ f a r₁ = .ok b r' :=
  bind_eq_ok_iff.mp h

theorem crashes_bind :
    (x >>= f).Crashes r ↔ x.Crashes r ∨ ∃ a r₁, x r = .ok a r₁ ∧ (f a).Crashes r₁ := by
  unfold Crashes
  rw [bind_run]
  cases x r <;> simp

theorem mapErr_eq_ok_iff {f : String → String} {a : α} :
    x.mapErr f r = .ok a r' ↔ x r = .ok a r' := by
  unfold mapErr
  cases x r <;> simp

theorem mapErr_inv {f : String → String} {a : α} (h : x.mapErr f r = .ok a r') : x r = .ok a r' :=
  mapErr_eq_ok_iff.mp h

theorem crashes_mapErr {f : String → String} : (x.mapErr f).Crashes r ↔ x.Crashes r := by
  unfold Crashes mapErr
  cases x r <;> simp

theorem not_crashes_iff : ¬ x.Crashes r ↔ (∃ a r', x r = .ok a r') ∨ ∃ m r', x r = .err m r' := by
  unfold Crashes
  cases x r <;> simp

theorem leaves_bind (h : (x >>= f).Leaves r r') :
    x.Leaves r r' ∨ ∃ a r₁, x r = .ok a r₁ ∧ (f a).Leaves r₁ r' := by
  unfold Leaves at h
  simp only [bind_run] at h
  cases hx : x r with
  | ok a r₁ =>
    simp only [hx] at h
    exact .inr ⟨a, r₁, rfl, h⟩
  | err m r₁ =>
    simp only [hx, Result.err.injEq, reduceCtorEq, exists_false, false_or] at h
    obtain ⟨-, -, rfl⟩ := h
    exact .inl (.inr ⟨m, hx⟩)
  | crash c =>
    simp [hx] at h

theorem leaves_mapErr {f : String → String} (h : (x.mapErr f).Leaves r r') : x.Leaves r r' := by
  unfold Leaves mapErr at *
  cases hr : x r with
  | ok a r₁ => simpa [hr] using h
  | err m r₁ =>
    right
    simp only [hr, reduceCtorEq, exists_false, Result.err.injEq, false_or] at h
    obtain ⟨-, -, rfl⟩ := h
    exact ⟨m, rfl⟩
  | crash c => simp [hr] at h

theorem Safe.bind (hx : x.Safe) (hf : ∀ a, (f a).Safe) : (x >>= f).Safe := by
  intro r h
  rcases crashes_bind.mp h with h | ⟨a, r₁, -, h⟩
  · exact hx r h
  · exact hf a r₁ h

variable {k : Nat}

theorem Moves.bind_add {j k : Nat} (hx : x.Moves j) (hf : ∀ a, (f a).Moves k) :
    (x >>= f).Moves (j + k) := by
  intro r r' h
  rcases leaves_bind h with h | ⟨a, r₁, ha, h⟩
  · obtain ⟨hbytes, hpos⟩ := hx r r' h
    exact ⟨hbytes, by omega⟩
  · obtain ⟨hbytes₁, hpos₁⟩ := hx r r₁ (.inl ⟨a, ha⟩)
    obtain ⟨hbytes, hpos⟩ := hf a r₁ r' h
    exact ⟨hbytes.trans hbytes₁, by omega⟩

theorem Moves.bind (hx : x.Moves 0) (hf : ∀ a, (f a).Moves k) : (x >>= f).Moves k :=
  zero_add k ▸ hx.bind_add hf

theorem Moves.mapErr (hx : x.Moves k) (f : String → String) : (x.mapErr f).Moves k :=
  fun r r' h => hx r r' (leaves_mapErr h)

theorem Moves.ite {p : Prop} [Decidable p] {x y : Parser α} (hx : x.Moves k) (hy : y.Moves k) :
    (if p then x else y).Moves k := by
  split
  · exact hx
  · exact hy

theorem Moves.trans (hx : x.Moves 0) {r r₁ r' : Reader}
    (hr : r₁.bytes = r.bytes ∧ r.pos ≤ r₁.pos + 0) (h : x.Leaves r₁ r') :
    r'.bytes = r.bytes ∧ r.pos ≤ r'.pos + 0 := by
  obtain ⟨hbytes, hpos⟩ := hx r₁ r' h
  exact ⟨hbytes.trans hr.1, by omega⟩

theorem Moves.len_le (hx : x.Moves 0) (h : x.Leaves r r') : r'.len ≤ r.len := by
  obtain ⟨hbytes, hpos⟩ := hx r r' h
  simp only [Reader.len, hbytes]
  omega

theorem moves_crash (c : Crash) : Moves 0 (fun _ => .crash c : Parser α) := by
  rintro r r' (⟨a, h⟩ | ⟨m, h⟩) <;> cases h

theorem moves_outOfFuel : (outOfFuel : Parser α).Moves 0 :=
  moves_crash _

theorem tame_of_cases (h : ∀ r, (∃ a r', x r = .ok a r' ∧ r'.bytes = r.bytes ∧ r.pos ≤ r'.pos + k) ∨
      ∃ m r', x r = .err m r' ∧ r'.bytes = r.bytes ∧ r.pos ≤ r'.pos + k) : x.Tame k := by
  refine ⟨fun r => ?_, fun r r' hleaves => ?_⟩
  · rcases h r with ⟨a, r', hx, -⟩ | ⟨m, r', hx, -⟩ <;> simp [Crashes, hx]
  · rcases h r with ⟨a, r₁, hx, hmoves⟩ | ⟨m, r₁, hx, hmoves⟩ <;>
      rcases hleaves with ⟨a', hleaves⟩ | ⟨m', hleaves⟩ <;>
      rw [hx] at hleaves <;> cases hleaves
    · exact hmoves
    · exact hmoves

instance tame_pure (a : α) : (pure a : Parser α).Tame 0 :=
  tame_of_cases fun r => .inl ⟨a, r, rfl, rfl, le_refl _⟩

instance tame_fail (m : String) : (fail m : Parser α).Tame 0 :=
  tame_of_cases fun r => .inr ⟨m, r, rfl, rfl, le_refl _⟩

instance tame_reader : reader.Tame 0 :=
  tame_of_cases fun r => .inl ⟨r, r, rfl, rfl, le_refl _⟩

theorem Tame.bind_add {j k : Nat} (hx : x.Tame j) (hf : ∀ a, (f a).Tame k) :
    (x >>= f).Tame (j + k) :=
  ⟨hx.safe.bind fun a => (hf a).safe, hx.moves.bind_add fun a => (hf a).moves⟩

theorem Tame.bind (hx : x.Tame 0) (hf : ∀ a, (f a).Tame k) : (x >>= f).Tame k :=
  zero_add k ▸ hx.bind_add hf

theorem Tame.mapErr (hx : x.Tame k) (f : String → String) : (x.mapErr f).Tame k :=
  ⟨fun r h => hx.safe r (crashes_mapErr.mp h), hx.moves.mapErr f⟩

theorem Tame.mono {j k : Nat} (hx : x.Tame j) (h : j ≤ k) : x.Tame k := by
  refine ⟨hx.safe, fun r r' hr => ?_⟩
  obtain ⟨hbytes, hpos⟩ := hx.moves r r' hr
  exact ⟨hbytes, by omega⟩

theorem Tame.ite {p : Prop} [Decidable p] {x y : Parser α} (hx : x.Tame k) (hy : y.Tame k) :
    (if p then x else y).Tame k := by
  split
  · exact hx
  · exact hy

instance [hx : x.Tame 0] [hf : ∀ a, (f a).Tame k] : (x >>= f).Tame k :=
  hx.bind hf

instance {f : String → String} [hx : x.Tame k] : (x.mapErr f).Tame k :=
  hx.mapErr f

instance {p : Prop} [Decidable p] {y : Parser α} [hx : x.Tame k] [hy : y.Tame k] :
    (if p then x else y).Tame k :=
  hx.ite hy

instance tame_require (holds : Bool) (m : String) : (require holds m).Tame 0 :=
  Tame.ite (tame_pure ()) (tame_fail m)

theorem require_eq_ok_iff {holds : Bool} {m : String} {u : Unit} :
    require holds m r = .ok u r' ↔ holds = true ∧ r' = r := by
  unfold require
  cases holds <;> simp [eq_comm]

theorem Safe.crashes_bind_iff (hx : x.Safe) :
    (x >>= f).Crashes r ↔ ∃ a r₁, x r = .ok a r₁ ∧ (f a).Crashes r₁ := by
  rw [crashes_bind, or_iff_right (hx r)]

theorem Tame.crashes_bind [hx : x.Tame 0] :
    (x >>= f).Crashes r ↔ ∃ a r₁, x r = .ok a r₁ ∧ (f a).Crashes r₁ :=
  hx.safe.crashes_bind_iff

theorem crashes_require_bind {holds : Bool} {m : String} {f : Unit → Parser α} :
    (require holds m >>= f).Crashes r ↔ holds = true ∧ (f ()).Crashes r := by
  rw [Tame.crashes_bind]
  constructor
  · rintro ⟨u, r₁, hreq, h⟩
    obtain ⟨hholds, rfl⟩ := require_eq_ok_iff.mp hreq
    exact ⟨hholds, h⟩
  · rintro ⟨hholds, h⟩
    exact ⟨(), r, require_eq_ok_iff.mpr ⟨hholds, rfl⟩, h⟩

variable {b : UInt8}

theorem readByte_eq_ok (h : readByte r = .ok b r') :
    r.bytes[r.pos]? = some b ∧ r' = r.advance 1 := by
  unfold readByte at h
  split at h
  next hb =>
    cases h
    exact ⟨hb, rfl⟩
  next => cases h

theorem readByte_len (h : readByte r = .ok b r') : r'.len + 1 = r.len := by
  obtain ⟨hb, rfl⟩ := readByte_eq_ok h
  have hlt := (List.getElem?_eq_some_iff.mp hb).1
  simp only [Reader.len, Reader.advance_bytes, Reader.advance_pos]
  omega

instance tame_readByte : readByte.Tame 0 := by
  refine tame_of_cases fun r => ?_
  unfold readByte
  cases r.bytes[r.pos]? with
  | none => exact .inr ⟨_, r, rfl, rfl, le_refl _⟩
  | some b => exact .inl ⟨b, _, rfl, rfl, by simp⟩

/-- After a byte has been read the reader may be moved back over it. -/
theorem Tame.readByte_bind {m : String → String} {f : UInt8 → Parser α} (hf : ∀ b, (f b).Tame 1) :
    (readByte.mapErr m >>= f).Tame 0 := by
  have hread := tame_readByte.mapErr m
  refine ⟨hread.safe.bind fun b => (hf b).safe, fun r r' h => ?_⟩
  rcases leaves_bind h with h | ⟨b, r₁, hb, h⟩
  · exact hread.moves r r' h
  · obtain ⟨-, rfl⟩ := readByte_eq_ok (mapErr_inv hb)
    obtain ⟨hbytes, hpos⟩ := (hf b).moves _ r' h
    exact ⟨hbytes, by simp only [Reader.advance_pos] at hpos; omega⟩

theorem Moves.readByte_bind_len {m : String → String} {f : UInt8 → Parser α}
    (hf : ∀ b, (f b).Moves 0) {a : α} (h : (readByte.mapErr m >>= f) r = .ok a r') :
    r'.len < r.len := by
  obtain ⟨b, r₁, hb, h⟩ := bind_inv h
  have := readByte_len (mapErr_inv hb)
  have := (hf b).len_le (.inl ⟨a, h⟩)
  omega

theorem readByteOrEOF_eq_ok (h : readByteOrEOF r = .ok (some b) r') : readByte r = .ok b r' := by
  unfold readByteOrEOF at h
  unfold readByte
  split at h <;> cases h
  simp only

theorem readByteOrEOF_of_readByte (h : readByte r = .ok b r') :
    readByteOrEOF r = .ok (some b) r' := by
  obtain ⟨hb, rfl⟩ := readByte_eq_ok h
  simp only [readByteOrEOF, hb]

instance tame_readByteOrEOF : readByteOrEOF.Tame 0 := by
  refine tame_of_cases fun r => ?_
  unfold readByteOrEOF
  cases r.bytes[r.pos]? with
  | none => exact .inl ⟨_, r, rfl, rfl, le_refl _⟩
  | some b => exact .inl ⟨_, _, rfl, rfl, by simp⟩

instance Tame.recoverEOF [hx : x.Tame k] (a : α) : (x.recoverEOF a).Tame k := by
  refine tame_of_cases fun r => ?_
  unfold Parser.recoverEOF
  cases hr : x r with
  | ok b r' => exact .inl ⟨b, r', rfl, hx.moves r r' (.inl ⟨b, hr⟩)⟩
  | err m r' =>
    have hmoves := hx.moves r r' (.inr ⟨m, hr⟩)
    by_cases hm : m = "EOF"
    · exact .inl ⟨a, r', by simp [hm], hmoves⟩
    · exact .inr ⟨m, r', by simp [hm], hmoves⟩
  | crash c => exact absurd ⟨c, hr⟩ (hx.safe r)

theorem Tame.attempt (hx : x.Tame k) : (attempt x).Tame k := by
  have heq (r : Reader) : (∃ c, Parser.attempt x r = .crash c) → ∃ c, x r = .crash c := by
    unfold Parser.attempt
    cases x r <;> simp
  refine ⟨fun r h => hx.safe r (heq r h), fun r r' h => hx.moves r r' ?_⟩
  unfold Leaves Parser.attempt at *
  cases hr : x r <;> simp_all

theorem tame_unreadByte : unreadByte.Tame 1 := by
  refine tame_of_cases fun r => ?_
  unfold unreadByte
  split
  · exact .inr ⟨_, r, rfl, rfl, by omega⟩
  · exact .inl ⟨_, _, rfl, rfl, by simp only; omega⟩

theorem safe_seekBack (n : Nat) : (seekBack n).Safe := by
  rintro r ⟨c, hc⟩
  unfold seekBack at hc
  split at hc <;> cases hc

theorem seekBack_advance (r : Reader) (n : Nat) : seekBack n (r.advance n) = .ok () r := by
  have h : ¬ (r.advance n).pos < n := by simp
  rw [seekBack, if_neg h, Reader.advance_bytes, Reader.advance_pos, Nat.add_sub_cancel]

instance tame_readFull (n : Nat) : (readFull n).Tame 0 := by
  refine tame_of_cases fun r => ?_
  unfold readFull
  split
  · exact .inl ⟨_, _, rfl, rfl, by simp⟩
  · exact .inr ⟨_, _, rfl, rfl, by simp⟩

instance tame_read (n : Nat) : (read n).Tame 0 := by
  refine tame_of_cases fun r => ?_
  unfold read
  split
  · exact .inr ⟨_, _, rfl, rfl, by simp⟩
  · exact .inl ⟨_, _, rfl, rfl, by simp⟩

instance tame_skip (n : Nat) : (skip n).Tame 0 := by
  refine tame_of_cases fun r => ?_
  unfold skip
  split
  · exact .inl ⟨_, _, rfl, rfl, by simp⟩
  · exact .inr ⟨_, _, rfl, rfl, by simp⟩

instance tame_readAt (n i : Nat) : (readAt n i).Tame 0 := by
  refine tame_of_cases fun r => ?_
  unfold readAt
  split_ifs
  · exact .inr ⟨_, r, rfl, rfl, le_refl _⟩
  · exact .inr ⟨_, r, rfl, rfl, le_refl _⟩
  · exact .inl ⟨_, r, rfl, rfl, le_refl _⟩

theorem readAt_eq_ok {n i : Nat} {bytes : List UInt8} (h : readAt n i r = .ok bytes r') :
    bytes = r.slice i n ∧ bytes.length = n := by
  unfold readAt at h
  split_ifs at h with hi hn
  cases h
  refine ⟨rfl, ?_⟩
  have : (r.slice i n).length ≤ n := length_take_le _ _
  omega

variable {step : Nat → σ → Parser σ}

instance tame_iterate [hstep : ∀ i s, (step i s).Tame 0] (i n : Nat) (s : σ) :
    (iterate step i n s).Tame 0 := by
  induction n generalizing i s with
  | zero => exact tame_pure s
  | succ n ih => exact (hstep i s).bind fun s => ih (i + 1) s

theorem moves_iterate (hstep : ∀ i s, (step i s).Moves 0) (i n : Nat) (s : σ) :
    (iterate step i n s).Moves 0 := by
  induction n generalizing i s with
  | zero => exact (tame_pure s).moves
  | succ n ih => exact (hstep i s).bind fun s => ih (i + 1) s

variable {item : Nat → Parser α}

instance [∀ i, (item i).Tame 0] (n : Nat) : (times n item).Tame 0 :=
  tame_iterate 0 n []

theorem moves_times (hitem : ∀ i, (item i).Moves 0) (n : Nat) : (times n item).Moves 0 :=
  moves_iterate (fun i _ => (hitem i).bind fun _ => (tame_pure _).moves) 0 n []

/-- Reading the items from the `i`-th on, `n` of them, from `r`, comes to the `j`-th at `r'`. -/
inductive Reads (item : Nat → Parser α) : (i n : Nat) → Reader → (j : Nat) → Reader → Prop where
  | here (i n : Nat) (r : Reader) : Reads item i (n + 1) r i r
  | next {i n j : Nat} {r r₁ r' : Reader} {a : α} (ha : item i r = .ok a r₁)
      (hrest : Reads item (i + 1) n r₁ j r') : Reads item i (n + 1) r j r'

theorem crashes_times_iff {n : Nat} :
    (times n item).Crashes r ↔ ∃ j r', Reads item 0 n r j r' ∧ (item j).Crashes r' := by
  unfold times
  generalize 0 = i
  generalize ([] : List α) = items
  induction n generalizing i items r with
  | zero =>
    refine ⟨fun h => absurd h ((tame_pure _).safe r), ?_⟩
    rintro ⟨j, r', h, -⟩
    cases h
  | succ n ih =>
    simp only [iterate, crashes_bind]
    constructor
    · rintro ((h | ⟨a, r₁, ha, h⟩) | ⟨items', r₁, hitem, h⟩)
      · exact ⟨i, r, .here i n r, h⟩
      · exact absurd h ((tame_pure _).safe r₁)
      · obtain ⟨a, r₂, ha, hpure⟩ := bind_inv hitem
        cases hpure
        obtain ⟨j, r', hreads, h⟩ := (ih _ _).mp h
        exact ⟨j, r', .next ha hreads, h⟩
    · rintro ⟨j, r', hreads, h⟩
      cases hreads with
      | here => exact .inl (.inl h)
      | next ha hrest =>
        exact .inr ⟨_, _, bind_eq_ok_iff.mpr ⟨_, _, ha, rfl⟩, (ih _ _).mpr ⟨j, r', hrest, h⟩⟩

theorem iterate_invariant {P : Nat → σ → Reader → Prop}
    (hstep : ∀ i s r s' r', P i s r → step i s r = .ok s' r' → P (i + 1) s' r') {i n : Nat}
    {s s' : σ} (hP : P i s r) (h : iterate step i n s r = .ok s' r') : P (i + n) s' r' := by
  induction n generalizing i s r with
  | zero =>
    cases h
    exact hP
  | succ n ih =>
    obtain ⟨s₁, r₁, hs₁, h⟩ := bind_inv h
    have := ih (hstep i s r s₁ r₁ hP hs₁) h
    rwa [add_assoc, add_comm 1] at this

variable {P : α → Prop}

theorem ensures_pure {a : α} (ha : P a) : (pure a : Parser α).Ensures P := by
  rintro r _ _ ⟨⟩
  exact ha

theorem ensures_fail (m : String) : (fail m : Parser α).Ensures P := by
  rintro r _ _ ⟨⟩

theorem Ensures.bind {Q : β → Prop} (hx : x.Ensures P) (hf : ∀ a, P a → (f a).Ensures Q) :
    (x >>= f).Ensures Q := by
  intro r b r' h
  obtain ⟨a, r₁, ha, h⟩ := bind_inv h
  exact hf a (hx r a r₁ ha) r₁ b r' h

theorem ensures_bind {Q : β → Prop} (hf : ∀ a, (f a).Ensures Q) : (x >>= f).Ensures Q := by
  intro r b r' h
  obtain ⟨a, r₁, -, h⟩ := bind_inv h
  exact hf a r₁ b r' h

theorem ensures_bind₂ {Q : σ → Prop} {g : α → β → Parser σ}
    (hg : ∀ a b, (g a b).Ensures Q) : (x >>= fun a => f a >>= g a).Ensures Q :=
  ensures_bind fun a => ensures_bind (hg a)

theorem Ensures.mapErr (hx : x.Ensures P) (f : String → String) : (x.mapErr f).Ensures P :=
  fun r a r' h => hx r a r' (mapErr_inv h)

theorem Ensures.ite {p : Prop} [Decidable p] {x y : Parser α} (hx : x.Ensures P)
    (hy : y.Ensures P) :
    (if p then x else y).Ensures P := by
  split
  · exact hx
  · exact hy

theorem Ensures.sliced (hx : x.Ensures P) : (sliced x).Ensures P := by
  intro r a r' h
  unfold Parser.sliced at h
  split at h
  · exact hx r a r' h
  · cases h

theorem ensures_times (hitem : ∀ i, (item i).Ensures P) (n : Nat) :
    (times n item).Ensures fun items => items.length = n ∧ ∀ a ∈ items, P a := by
  intro r items r' h
  have := iterate_invariant (P := fun i items _ => items.length = i ∧ ∀ a ∈ items, P a)
    (fun i items r items' r' hitems hstep => ?_) ⟨rfl, by simp⟩ h
  · simpa only [zero_add] using this
  · obtain ⟨a, r₁, ha, hstep⟩ := bind_inv hstep
    cases hstep
    refine ⟨by simp [hitems.1], fun b hb => ?_⟩
    simp only [concat_eq_append, mem_append, mem_singleton] at hb
    rcases hb with hb | rfl
    · exact hitems.2 b hb
    · exact hitem i r b _ ha

instance fits_pure (a : α) : (pure a : Parser α).Fits := by
  refine ⟨fun r _ => (tame_pure a).safe r, ?_⟩
  rintro r _ _ hr ⟨⟩
  exact ⟨rfl, le_refl _, hr⟩

theorem Fits.bind (hx : x.Fits) (hf : ∀ a, (f a).Fits) : (x >>= f).Fits := by
  constructor
  · intro r hr h
    rcases crashes_bind.mp h with h | ⟨a, r₁, ha, h⟩
    · exact hx.returns r hr h
    · exact (hf a).returns r₁ (hx.inside r a r₁ hr ha).2.2 h
  · intro r b r' hr h
    obtain ⟨a, r₁, ha, h⟩ := bind_inv h
    obtain ⟨hbytes₁, hpos₁, hin₁⟩ := hx.inside r a r₁ hr ha
    obtain ⟨hbytes, hpos, hin⟩ := (hf a).inside r₁ b r' hin₁ h
    exact ⟨hbytes.trans hbytes₁, le_trans hpos₁ hpos, hin⟩

theorem Fits.mapErr (hx : x.Fits) (f : String → String) : (x.mapErr f).Fits :=
  ⟨fun r hr h => hx.returns r hr (crashes_mapErr.mp h),
    fun r a r' hr h => hx.inside r a r' hr (mapErr_inv h)⟩

theorem Fits.ite {p : Prop} [Decidable p] {x y : Parser α} (hx : x.Fits) (hy : y.Fits) :
    (if p then x else y).Fits := by
  split
  · exact hx
  · exact hy

instance [hx : x.Fits] [hf : ∀ a, (f a).Fits] : (x >>= f).Fits :=
  hx.bind hf

instance {g : α → β} [hx : x.Fits] : (g <$> x).Fits :=
  hx.bind fun a => fits_pure (g a)

instance {f : String → String} [hx : x.Fits] : (x.mapErr f).Fits :=
  hx.mapErr f

instance {p : Prop} [Decidable p] {y : Parser α} [hx : x.Fits] [hy : y.Fits] :
    (if p then x else y).Fits :=
  hx.ite hy

instance [hx : x.Fits] : (sliced x).Fits := by
  constructor
  · intro r hr
    simpa only [Crashes, Parser.sliced, if_pos hr] using hx.returns r hr
  · intro r a r' hr h
    simp only [Parser.sliced, if_pos hr] at h
    exact hx.inside r a r' hr h

instance fits_fail (m : String) : (fail m : Parser α).Fits :=
  ⟨fun r _ => (tame_fail m).safe r, fun _ _ _ _ h => by cases h⟩

instance fits_reader : reader.Fits := by
  refine ⟨fun r _ => tame_reader.safe r, ?_⟩
  rintro r _ _ hr ⟨⟩
  exact ⟨rfl, le_refl _, hr⟩

instance fits_require (holds : Bool) (m : String) : (require holds m).Fits :=
  Fits.ite (fits_pure ()) (fits_fail m)

instance fits_peek : peek.Fits := by
  refine ⟨?_, ?_⟩
  · rintro r - ⟨c, h⟩
    cases h
  · rintro r _ _ hr ⟨⟩
    exact ⟨rfl, le_refl _, hr⟩

instance fits_readByte : readByte.Fits := by
  refine ⟨fun r _ => tame_readByte.safe r, fun r b r' _ h => ?_⟩
  obtain ⟨hb, rfl⟩ := readByte_eq_ok h
  have hlt := (List.getElem?_eq_some_iff.mp hb).1
  exact ⟨rfl, by simp, hlt⟩

instance fits_readFull (n : Nat) : (readFull n).Fits := by
  refine ⟨fun r _ => (tame_readFull n).safe r, fun r b r' hr h => ?_⟩
  unfold readFull at h
  split at h
  next hn =>
    cases h
    simp only [Reader.len] at hn
    exact ⟨rfl, by simp, by simp only [Reader.advance_pos, Reader.advance_bytes]; omega⟩
  next => cases h

instance fits_iterate [hstep : ∀ i s, (step i s).Fits] (i n : Nat) (s : σ) :
    (iterate step i n s).Fits := by
  induction n generalizing i s with
  | zero => exact fits_pure s
  | succ n ih => exact (hstep i s).bind fun s => ih (i + 1) s

instance [∀ i, (item i).Fits] (n : Nat) : (times n item).Fits :=
  fits_iterate 0 n []

theorem indexByte_eq_ok_iff :
    indexByte r = .ok b r' ↔ r.bytes[r.pos]? = some b ∧ r' = r.advance 1 := by
  unfold indexByte
  split
  next c hc => simp [hc, eq_comm]
  next hc => simp [hc]

theorem crashes_indexByte : indexByte.Crashes r ↔ r.bytes.length ≤ r.pos := by
  unfold Crashes indexByte
  split
  next c hc =>
    have := (List.getElem?_eq_some_iff.mp hc).1
    simp only [reduceCtorEq, exists_false, false_iff]
    omega
  next hc => simpa using getElem?_eq_none_iff.mp hc

theorem moves_makeSlice (n : Int) : (makeSlice n).Moves 0 :=
  Moves.ite (moves_crash _) (tame_pure _).moves

theorem crashes_makeSlice {n : Int} : (makeSlice n).Crashes r ↔ n < 0 := by
  unfold Crashes makeSlice
  split
  next h => simpa [raise] using h
  next h => simpa using h

theorem makeSlice_eq_ok_iff {n : Int} :
    makeSlice n r = .ok k r' ↔ 0 ≤ n ∧ k = n.toNat ∧ r' = r := by
  unfold makeSlice
  split
  next h =>
    simp only [raise, reduceCtorEq, false_iff]
    omega
  next h =>
    simp only [pure_run, Result.ok.injEq]
    constructor
    · rintro ⟨rfl, rfl⟩
      exact ⟨by omega, rfl, rfl⟩
    · rintro ⟨-, rfl, rfl⟩
      exact ⟨rfl, rfl⟩

end Parser

end Andsifr.Lib
