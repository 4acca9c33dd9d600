import Andsifr.Lib.Parser
import Mathlib.Data.List.Forall2

namespace Andsifr.Lib

open List

/-- Why a check does not return a value: it reports an error, or it crashes. -/
inductive Failure where
  | err (message : String)
  | crash (c : Crash)
  deriving DecidableEq, Repr

abbrev Check (α : Type) := Except Failure α

namespace Check

variable {α β γ : Type}

def fail (message : String) : Check α :=
  .error (.err message)

def raise (message : String) : Check α :=
  .error (.crash (.panic message))

def outOfFuel : Check α :=
  .error (.crash .outOfFuel)

def require (holds : Bool) (message : String) : Check Unit :=
  if holds then pure () else fail message

def mapErr (f : String → String) (x : Check α) : Check α :=
  match x with
  | .error (.err m) => .error (.err (f m))
  | other => other

/-- Turns an error, but not a crash, into the value `a`. -/
def recover (a : α) (x : Check α) : Check α :=
  match x with
  | .error (.err _) => .ok a
  | other => other

/-- An index expression. -/
def index (xs : List α) (i : Nat) : Check α :=
  match xs[i]? with
  | some a => pure a
  | none => raise s!"runtime error: index out of range [{i}] with length {xs.length}"

/-- The slice expression `xs[:n]`. -/
def sliceTo (xs : List α) (n : Nat) : Check (List α) :=
  if n ≤ xs.length then pure (xs.take n)
  else raise s!"runtime error: slice bounds out of range [:{n}] with length {xs.length}"

/-- Runs the check on every element with its position. -/
def forEach (f : Nat → α → Check Unit) : (i : Nat) → List α → Check Unit
  | _, [] => pure ()
  | i, a :: as => do
    f i a
    forEach f (i + 1) as

/-- Runs the step on every element with its position, threading a state. -/
def fold (f : Nat → β → α → Check β) : (i : Nat) → β → List α → Check β
  | _, b, [] => pure b
  | i, b, a :: as => do
    let b ← f i b a
    fold f (i + 1) b as

def Crashes (x : Check α) : Prop :=
  ∃ c, x = .error (.crash c)

/-- The check returns a value or an error. -/
def Returns (x : Check α) : Prop :=
  ¬ Crashes x

@[simp] theorem bind_ok (a : α) (f : α → Check β) : ((.ok a : Check α) >>= f) = f a := rfl

@[simp] theorem bind_error (e : Failure) (f : α → Check β) :
    ((.error e : Check α) >>= f) = .error e := rfl

variable {x : Check α} {f : α → Check β}

theorem bind_eq_ok_iff {ε : Type} {x : Except ε α} {f : α → Except ε β} {b : β} :
    (x >>= f) = .ok b ↔ ∃ a, x = .ok a ∧ f a = .ok b := by
  cases x <;> simp [bind, Except.bind]

theorem bind_inv {ε : Type} {x : Except ε α} {f : α → Except ε β} {b : β} (h : (x >>= f) = .ok b) :
    ∃ a, x = .ok a ∧ f a = .ok b :=
  bind_eq_ok_iff.mp h

theorem crashes_bind : Crashes (x >>= f) ↔ Crashes x ∨ ∃ a, x = .ok a ∧ Crashes (f a) := by
  cases x <;> simp [Crashes]

theorem crashes_mapErr {f : String → String} : Crashes (mapErr f x) ↔ Crashes x := by
  unfold Crashes mapErr
  rcases x with (m | c) | a <;> simp

theorem mapErr_eq_ok_iff {f : String → String} {a : α} : mapErr f x = .ok a ↔ x = .ok a := by
  unfold mapErr
  rcases x with (m | c) | a <;> simp

theorem mapErr_inv {f : String → String} {a : α} (h : mapErr f x = .ok a) : x = .ok a :=
  mapErr_eq_ok_iff.mp h

theorem crashes_recover {a : α} : Crashes (recover a x) ↔ Crashes x := by
  unfold Crashes recover
  rcases x with (m | c) | b <;> simp

theorem returns_iff : Returns x ↔ (∃ a, x = .ok a) ∨ ∃ m, x = .error (.err m) := by
  unfold Returns Crashes
  rcases x with (m | c) | a <;> simp

@[simp] theorem returns_pure (a : α) : Returns (pure a : Check α) := by
  rintro ⟨c, h⟩
  cases h

@[simp] theorem returns_ok (a : α) : Returns (.ok a : Check α) :=
  returns_pure a

@[simp] theorem returns_fail (m : String) : Returns (fail m : Check α) := by
  rintro ⟨c, h⟩
  cases h

@[simp] theorem returns_require (holds : Bool) (m : String) : Returns (require holds m) := by
  unfold require
  cases holds <;> simp

theorem require_eq_ok_iff {holds : Bool} {m : String} {u : Unit} :
    require holds m = .ok u ↔ holds = true := by
  unfold require
  cases holds <;> simp [fail, pure, Except.pure]

theorem Returns.bind (hx : Returns x) (hf : ∀ a, x = .ok a → Returns (f a)) :
    Returns (x >>= f) := by
  intro h
  rcases crashes_bind.mp h with h | ⟨a, ha, h⟩
  · exact hx h
  · exact hf a ha h

theorem returns_require_bind (holds : Bool) (m : String) {f : Unit → Check β}
    (hf : Returns (f ())) : Returns (require holds m >>= f) :=
  (returns_require holds m).bind fun _ _ => hf

theorem returns_bind (hx : Returns x) (hf : ∀ a, Returns (f a)) : Returns (x >>= f) :=
  hx.bind fun a _ => hf a

@[simp] theorem returns_bind_iff (hx : Returns x) :
    Returns (x >>= f) ↔ ∀ a, x = .ok a → Returns (f a) :=
  ⟨fun h a ha hcrash => h (crashes_bind.mpr (.inr ⟨a, ha, hcrash⟩)), hx.bind⟩

@[simp] theorem returns_map {f : α → β} : Returns (f <$> x) ↔ Returns x := by
  cases x <;> simp [Returns, Crashes, Functor.map, Except.map]

@[simp] theorem returns_mapErr {f : String → String} : Returns (mapErr f x) ↔ Returns x :=
  not_congr crashes_mapErr

theorem Returns.mapErr (hx : Returns x) (f : String → String) : Returns (mapErr f x) :=
  fun h => hx (crashes_mapErr.mp h)

theorem Returns.recover (hx : Returns x) (a : α) : Returns (recover a x) :=
  fun h => hx (crashes_recover.mp h)

theorem Returns.ite {p : Prop} [Decidable p] {x y : Check α} (hx : p → Returns x)
    (hy : ¬ p → Returns y) : Returns (if p then x else y) := by
  split
  next h => exact hx h
  next h => exact hy h

@[simp] theorem returns_ite {p : Prop} [Decidable p] {x y : Check α} :
    Returns (if p then x else y) ↔ (p → Returns x) ∧ (¬ p → Returns y) := by
  split
  next h => simp [h]
  next h => simp [h]

/-- Every value that the check returns has the property. -/
def Ensures (P : α → Prop) (x : Check α) : Prop :=
  ∀ a, x = .ok a → P a

theorem ensures_pure {P : α → Prop} {a : α} (h : P a) : Ensures P (pure a : Check α) := by
  rintro _ ⟨⟩
  exact h

theorem ensures_fail {P : α → Prop} (m : String) : Ensures P (fail m : Check α) := by
  rintro _ ⟨⟩

theorem Ensures.bind {P : β → Prop} {Q : α → Prop} (hx : Ensures Q x)
    (hf : ∀ a, Q a → Ensures P (f a)) : Ensures P (x >>= f) := by
  intro b h
  obtain ⟨a, ha, h⟩ := bind_inv h
  exact hf a (hx a ha) b h

theorem ensures_bind {P : β → Prop} (hf : ∀ a, Ensures P (f a)) : Ensures P (x >>= f) := by
  intro b h
  obtain ⟨a, -, h⟩ := bind_inv h
  exact hf a b h

theorem ensures_bind₂ {P : γ → Prop} {g : α → β → Check γ}
    (hg : ∀ a b, Ensures P (g a b)) : Ensures P (x >>= fun a => f a >>= g a) :=
  ensures_bind fun a => ensures_bind (hg a)

theorem Ensures.mapErr {P : α → Prop} {f : String → String} (hx : Ensures P x) :
    Ensures P (mapErr f x) :=
  fun a h => hx a (mapErr_inv h)

theorem Ensures.ite {P : α → Prop} {p : Prop} [Decidable p] {x y : Check α} (hx : Ensures P x)
    (hy : Ensures P y) : Ensures P (if p then x else y) := by
  split
  · exact hx
  · exact hy

variable {xs : List α} {i : Nat}

theorem index_of_lt (h : i < xs.length) : index xs i = .ok xs[i] := by
  simp [index, getElem?_eq_getElem h, pure, Except.pure]

theorem index_eq_ok_iff {a : α} : index xs i = .ok a ↔ xs[i]? = some a := by
  unfold index
  cases xs[i]? <;> simp [raise, pure, Except.pure]

theorem crashes_index : Crashes (index xs i) ↔ xs.length ≤ i := by
  unfold Crashes index
  cases h : xs[i]? with
  | none =>
    rw [getElem?_eq_none_iff] at h
    simp [raise, h]
  | some a =>
    have := (List.getElem?_eq_some_iff.mp h).1
    simp [pure, Except.pure]
    omega

theorem returns_index (h : i < xs.length) : Returns (index xs i) := by
  rw [index_of_lt h]
  exact returns_ok _

theorem returns_sliceTo {n : Nat} (h : n ≤ xs.length) : Returns (sliceTo xs n) := by
  rw [sliceTo, if_pos h]
  exact returns_pure _

theorem sliceTo_eq_ok_iff {xs ys : List α} {n : Nat} :
    sliceTo xs n = .ok ys ↔ n ≤ xs.length ∧ ys = xs.take n := by
  unfold sliceTo
  split
  next h => simp [pure, Except.pure, h, eq_comm]
  next h => simp [raise, h]

variable {as : List α}

theorem returns_forEach {f : Nat → α → Check Unit} (i : Nat) (hf : ∀ j, ∀ a ∈ as, Returns (f j a)) :
    Returns (forEach f i as) := by
  induction as generalizing i with
  | nil => exact returns_pure ()
  | cons a as ih =>
    refine (hf i a (by simp)).bind fun _ _ => ih (i + 1) fun j b hb => ?_
    exact hf j b (by simp [hb])

theorem of_forEach_eq_ok {f : Nat → α → Check Unit} {u : Unit} (h : forEach f i as = .ok u) {a : α}
    (ha : a ∈ as) : ∃ j, f j a = .ok () := by
  induction as generalizing i with
  | nil => simp at ha
  | cons b as ih =>
    obtain ⟨_, hb, hrest⟩ := bind_inv h
    rcases mem_cons.mp ha with rfl | ha
    · exact ⟨i, hb⟩
    · exact ih hrest ha

theorem forEach_eq_ok {f : Nat → α → Check Unit} {u : Unit} (h : forEach f i as = .ok u) {j : Nat}
    {a : α} (ha : as[j]? = some a) : f (i + j) a = .ok () := by
  induction as generalizing i j with
  | nil => cases ha
  | cons b as ih =>
    obtain ⟨_, hb, hrest⟩ := bind_inv h
    cases j with
    | zero =>
      cases ha
      exact hb
    | succ j =>
      rw [show i + (j + 1) = i + 1 + j by omega]
      exact ih hrest ha

theorem forEach_take {f : Nat → α → Check Unit} {u : Unit} (h : forEach f i as = .ok u) (n : Nat) :
    forEach f i (as.take n) = .ok () := by
  induction as generalizing i n with
  | nil =>
    rw [take_nil]
    rfl
  | cons a as ih =>
    obtain ⟨_, ha, hrest⟩ := bind_inv h
    cases n with
    | zero => rfl
    | succ n => exact bind_eq_ok_iff.mpr ⟨(), ha, ih hrest n⟩

theorem returns_fold {f : Nat → β → α → Check β} (i : Nat) (b : β)
    (hf : ∀ j b, ∀ a ∈ as, Returns (f j b a)) : Returns (fold f i b as) := by
  induction as generalizing i b with
  | nil => exact returns_pure b
  | cons a as ih =>
    refine (hf i b a (by simp)).bind fun b' _ => ih (i + 1) b' fun j c d hd => ?_
    exact hf j c d (by simp [hd])

theorem of_fold_eq_ok {f : Nat → β → α → Check β} {b b' : β} (h : fold f i b as = .ok b') {a : α}
    (ha : a ∈ as) : ∃ j c c', f j c a = .ok c' := by
  induction as generalizing i b with
  | nil => cases ha
  | cons d as ih =>
    obtain ⟨b₁, hd, hrest⟩ := bind_inv h
    rcases mem_cons.mp ha with rfl | ha
    · exact ⟨i, b, b₁, hd⟩
    · exact ih hrest ha

theorem mapM_eq_ok_iff {bs : List β} :
    as.mapM f = .ok bs ↔ List.Forall₂ (fun a b => f a = .ok b) as bs := by
  induction as generalizing bs with
  | nil =>
    rw [forall₂_nil_left_iff]
    exact ⟨fun h => (Except.ok.inj h).symm, fun h => h ▸ rfl⟩
  | cons a as ih =>
    rw [mapM_cons, bind_eq_ok_iff, forall₂_cons_left_iff]
    constructor
    · rintro ⟨b, hb, h⟩
      obtain ⟨rest, hrest, h⟩ := bind_inv h
      cases h
      exact ⟨b, rest, hb, ih.mp hrest, rfl⟩
    · rintro ⟨b, rest, hb, hrest, rfl⟩
      exact ⟨b, hb, bind_eq_ok_iff.mpr ⟨rest, ih.mpr hrest, rfl⟩⟩

theorem crashes_forEach_iff {f : Nat → α → Check Unit} : Crashes (forEach f i as) ↔
      ∃ j, ∃ h : j < as.length, forEach f i (as.take j) = .ok () ∧ Crashes (f (i + j) as[j]) := by
  induction as generalizing i with
  | nil =>
    refine ⟨fun h => absurd h (returns_pure ()), ?_⟩
    rintro ⟨j, h, -⟩
    simp at h
  | cons a as ih =>
    simp only [forEach, crashes_bind, ih]
    constructor
    · rintro (h | ⟨u, ha, j, hj, hpre, h⟩)
      · exact ⟨0, by simp, rfl, h⟩
      · refine ⟨j + 1, by simpa using hj, ?_, ?_⟩
        · rw [take_succ_cons, forEach, ha]
          exact hpre
        · rwa [add_right_comm, add_assoc] at h
    · rintro ⟨j, hj, hpre, h⟩
      cases j with
      | zero => exact .inl h
      | succ j =>
        rw [take_succ_cons, forEach, bind_eq_ok_iff] at hpre
        obtain ⟨u, ha, hpre⟩ := hpre
        refine .inr ⟨u, ha, j, by simpa using hj, hpre, ?_⟩
        rwa [add_right_comm, add_assoc]

end Check

namespace Parser

variable {α β : Type}

/-- Runs a check between two reads. -/
def lift (x : Check α) : Parser α :=
  fun r =>
    match x with
    | .ok a => .ok a r
    | .error (.err m) => .err m r
    | .error (.crash c) => .crash c

theorem lift_eq_ok_iff {x : Check α} {r r' : Reader} {a : α} :
    lift x r = .ok a r' ↔ x = .ok a ∧ r' = r := by
  unfold lift
  rcases x with (m | c) | b <;> simp [eq_comm]

theorem ensures_lift {P : α → Prop} {x : Check α} (hx : Check.Ensures P x) : (lift x).Ensures P :=
  fun _ a _ h => hx a (lift_eq_ok_iff.mp h).1

theorem crashes_lift {x : Check α} {r : Reader} : (lift x).Crashes r ↔ Check.Crashes x := by
  unfold Crashes Check.Crashes lift
  rcases x with (m | c) | a <;> simp

theorem tame_lift {x : Check α} (hx : Check.Returns x) : (lift x).Tame 0 := by
  refine ⟨fun r h => hx (crashes_lift.mp h), ?_⟩
  rintro r r' (⟨a, h⟩ | ⟨m, h⟩)
  · obtain ⟨-, rfl⟩ := lift_eq_ok_iff.mp h
    exact ⟨rfl, le_refl _⟩
  · unfold lift at h
    split at h <;> cases h
    exact ⟨rfl, le_refl _⟩

theorem fits_lift {x : Check α} (hx : Check.Returns x) : (lift x).Fits := by
  refine ⟨fun r _ h => hx (crashes_lift.mp h), fun r a r' hr h => ?_⟩
  obtain ⟨-, rfl⟩ := lift_eq_ok_iff.mp h
  exact ⟨rfl, le_refl _, hr⟩

/-- The outcome of a parser, without its reader. -/
def run (x : Parser α) (bytes : List UInt8) : Check α :=
  match x ⟨bytes, 0⟩ with
  | .ok a _ => .ok a
  | .err m _ => .error (.err m)
  | .crash c => .error (.crash c)

theorem crashes_run {x : Parser α} {bytes : List UInt8} :
    Check.Crashes (x.run bytes) ↔ x.Crashes ⟨bytes, 0⟩ := by
  unfold Check.Crashes Crashes run
  cases x ⟨bytes, 0⟩ <;> simp

theorem run_eq_ok_iff {x : Parser α} {bytes : List UInt8} {a : α} :
    x.run bytes = .ok a ↔ ∃ r, x ⟨bytes, 0⟩ = .ok a r := by
  unfold run
  cases x ⟨bytes, 0⟩ <;> simp

end Parser

end Andsifr.Lib
