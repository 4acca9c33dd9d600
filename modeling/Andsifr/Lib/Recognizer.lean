import Andsifr.Lib.Check

namespace Andsifr.Lib.Parser

open List

variable {α β : Type}

/-- For values in `S`: the computation returns `a` exactly on inputs that start with bytes which `Q`
relates to `a`, and reads just these bytes. -/
def Recognizes (S : α → Prop) (x : Parser α) (Q : α → List UInt8 → Prop) : Prop :=
  ∀ before input a r', S a →
    (x ⟨before ++ input, before.length⟩ = .ok a r' ↔
      ∃ bs rest, input = bs ++ rest ∧ Q a bs ∧ r' = ⟨before ++ input, (before ++ bs).length⟩)

/-- Every value is of interest. -/
def Any (_ : α) : Prop := True

variable {S : β → Prop}

theorem recognizes_pure (b : β) : Recognizes S (pure b) fun b' bs => b' = b ∧ bs = [] := by
  intro before input b' r' _
  constructor
  · rintro ⟨⟩
    exact ⟨[], input, rfl, ⟨rfl, rfl⟩, by rw [append_nil]⟩
  · rintro ⟨bs, rest, rfl, ⟨rfl, rfl⟩, rfl⟩
    rw [append_nil]
    rfl

theorem recognizes_fail (m : String) : Recognizes S (fail m) fun _ _ => False := by
  intro before input b r' _
  constructor
  · rintro ⟨⟩
  · rintro ⟨bs, rest, rfl, hQ, -⟩
    exact hQ.elim

variable {x : Parser α} {Q : α → List UInt8 → Prop}

variable {R : α → β → List UInt8 → Prop}

/-- The rest of the computation gives values in `S` only after values in `T`. -/
theorem Recognizes.bind_of {T : α → Prop} {f : α → Parser β} (hx : Recognizes T x Q)
    (hf : ∀ a, T a → Recognizes S (f a) (R a))
    (hout : ∀ a, ¬ T a → ∀ r b r', f a r = .ok b r' → ¬ S b) :
    Recognizes S (x >>= f) fun b bs =>
      ∃ a bs₁ bs₂, bs = bs₁ ++ bs₂ ∧ T a ∧ Q a bs₁ ∧ R a b bs₂ := by
  intro before input b r' hb
  rw [bind_eq_ok_iff]
  constructor
  · rintro ⟨a, r₁, hr₁, h⟩
    have hT : T a := by
      by_contra hT
      exact hout a hT r₁ b r' h hb
    obtain ⟨bs₁, rest, rfl, hQ, rfl⟩ := (hx before input a r₁ hT).mp hr₁
    rw [← append_assoc] at h
    obtain ⟨bs₂, rest, rfl, hR, rfl⟩ := (hf a hT (before ++ bs₁) rest b r' hb).mp h
    refine ⟨bs₁ ++ bs₂, rest, by rw [append_assoc], ⟨a, bs₁, bs₂, rfl, hT, hQ, hR⟩, ?_⟩
    simp only [append_assoc]
  · rintro ⟨bs, rest, rfl, ⟨a, bs₁, bs₂, rfl, hT, hQ, hR⟩, rfl⟩
    refine ⟨a, _, (hx before _ a _ hT).mpr ⟨bs₁, bs₂ ++ rest, by rw [append_assoc], hQ, rfl⟩, ?_⟩
    have h := (hf a hT (before ++ bs₁) (bs₂ ++ rest) b _ hb).mpr ⟨bs₂, rest, rfl, hR, rfl⟩
    simpa only [append_assoc] using h

theorem Recognizes.bind {f : α → Parser β}
    (hx : Recognizes Any x Q) (hf : ∀ a, Recognizes S (f a) (R a)) :
    Recognizes S (x >>= f) fun b bs => ∃ a bs₁ bs₂, bs = bs₁ ++ bs₂ ∧ Q a bs₁ ∧ R a b bs₂ := by
  have h := hx.bind_of (fun a _ => hf a) (fun a ha => absurd trivial ha)
  intro before input b r' hb
  simpa only [Any, true_and] using h before input b r' hb

theorem Recognizes.congr {x : Parser β} {Q R : β → List UInt8 → Prop} (hx : Recognizes S x Q)
    (h : ∀ b bs, S b → (Q b bs ↔ R b bs)) : Recognizes S x R := by
  intro before input b r' hb
  rw [hx before input b r' hb]
  refine exists_congr fun bs => exists_congr fun rest => and_congr_right fun _ => ?_
  rw [h b bs hb]

theorem Recognizes.bind_pure (hx : Recognizes Any x Q) (f : α → β) :
    Recognizes S (x >>= fun a => pure (f a)) fun b bs => ∃ a, b = f a ∧ Q a bs := by
  refine (hx.bind fun a => recognizes_pure (f a)).congr fun b bs _ => ?_
  constructor
  · rintro ⟨a, bs, _, rfl, hQ, rfl, rfl⟩
    rw [append_nil]
    exact ⟨a, rfl, hQ⟩
  · rintro ⟨a, rfl, hQ⟩
    exact ⟨a, bs, [], (append_nil bs).symm, hQ, rfl, rfl⟩

theorem Recognizes.bind_some {x : Parser (Option α)} {f : Option α → Parser (Option β)}
    (hx : Recognizes (fun o => o.isSome) x fun o bs => ∃ a, o = some a ∧ Q a bs)
    (hf : ∀ a, Recognizes (fun o => o.isSome) (f (some a)) fun o bs => ∃ b, o = some b ∧ R a b bs)
    (hnone : f none = pure none) :
    Recognizes (fun o => o.isSome) (x >>= f) fun o bs =>
      ∃ b, o = some b ∧ ∃ a bs₁ bs₂, bs = bs₁ ++ bs₂ ∧ Q a bs₁ ∧ R a b bs₂ := by
  refine (hx.bind_of (R := fun o' o bs => ∃ a b, o' = some a ∧ o = some b ∧ R a b bs) ?_
    ?_).congr ?_
  · intro o ho
    obtain ⟨a, rfl⟩ := Option.isSome_iff_exists.mp ho
    exact (hf a).congr fun o bs _ => by simp
  · intro o ho r o' r' h
    obtain rfl : o = none := by simpa using ho
    rw [hnone] at h
    cases h
    exact Bool.false_ne_true
  · intro o bs _
    constructor
    · rintro ⟨_, bs₁, bs₂, rfl, -, ⟨a, rfl, hQ⟩, _, b, ⟨rfl⟩, rfl, hR⟩
      exact ⟨b, rfl, a, bs₁, bs₂, rfl, hQ, hR⟩
    · rintro ⟨b, rfl, a, bs₁, bs₂, rfl, hQ, hR⟩
      exact ⟨some a, bs₁, bs₂, rfl, rfl, ⟨a, rfl, hQ⟩, a, b, rfl, rfl, hR⟩

theorem recognizes_attempt (hx : Recognizes Any x Q) :
    Recognizes (fun o => o.isSome) (attempt x) fun o bs => ∃ a, o = some a ∧ Q a bs := by
  intro before input o r' ho
  obtain ⟨a, rfl⟩ := Option.isSome_iff_exists.mp ho
  have h := hx before input a r' trivial
  simp only [Option.some.injEq, exists_eq_left']
  rw [← h, attempt]
  cases x ⟨before ++ input, before.length⟩ <;> simp

variable {x : Parser β} {Q : β → List UInt8 → Prop}

theorem Recognizes.mapErr (hx : Recognizes S x Q)
    (f : String → String) : Recognizes S (x.mapErr f) Q := by
  intro before input b r' hb
  rw [mapErr_eq_ok_iff]
  exact hx before input b r' hb

theorem Recognizes.ite {y : Parser β} {R : β → List UInt8 → Prop} {p : Prop} [Decidable p]
    (hx : p → Recognizes S x Q) (hy : ¬ p → Recognizes S y R) :
    Recognizes S (if p then x else y) fun b bs => (p ∧ Q b bs) ∨ ¬ p ∧ R b bs := by
  by_cases h : p
  · rw [if_pos h]
    exact (hx h).congr fun b bs _ => by simp [h]
  · rw [if_neg h]
    exact (hy h).congr fun b bs _ => by simp [h]

theorem recognizes_require (holds : Bool) (m : String) :
    Recognizes Any (require holds m) fun _ bs => holds = true ∧ bs = [] := by
  cases holds with
  | true => exact (recognizes_pure ()).congr fun _ bs _ => by simp
  | false => exact (recognizes_fail m).congr fun _ bs _ => by simp

theorem recognizes_lift (x : Check β) : Recognizes S (lift x) fun b bs => x = .ok b ∧ bs = [] := by
  intro before input b r' _
  rw [lift_eq_ok_iff]
  constructor
  · rintro ⟨hx, rfl⟩
    exact ⟨[], input, rfl, ⟨hx, rfl⟩, by rw [append_nil]⟩
  · rintro ⟨bs, rest, rfl, ⟨hx, rfl⟩, rfl⟩
    rw [append_nil]
    exact ⟨hx, rfl⟩

theorem len_append (before input : List UInt8) :
    Reader.len ⟨before ++ input, before.length⟩ = input.length := by
  simp [Reader.len]

theorem slice_append (before input : List UInt8) (n : Nat) :
    Reader.slice ⟨before ++ input, before.length⟩ before.length n = input.take n := by
  simp [Reader.slice]

theorem recognizes_readFull (n : Nat) :
    Recognizes Any (readFull n) fun a bs => a = bs ∧ bs.length = n := by
  intro before input a r' _
  rw [readFull]
  simp only [len_append, slice_append]
  constructor
  · intro h
    split at h
    next hle =>
      cases h
      have htake : (input.take n).length = n := by rw [length_take]; omega
      refine ⟨input.take n, input.drop n, (take_append_drop n input).symm, ⟨rfl, htake⟩, ?_⟩
      rw [length_append, htake]
      rfl
    next => cases h
  · rintro ⟨bs, rest, rfl, ⟨rfl, rfl⟩, rfl⟩
    rw [if_pos (by simp), take_left, length_append]
    rfl

/-- A read of at most `n` bytes, after which fewer are an error, returns as a read of exactly
`n`. -/
theorem read_bind_eq_ok_iff {n : Nat} (hn : 0 < n) {f : List UInt8 → Parser β}
    (hshort : ∀ bs, bs.length < n → ∀ r b r', f bs r ≠ .ok b r') (g : String → String)
    {r r' : Reader} {b : β} :
    ((read n).mapErr g >>= f) r = .ok b r' ↔ (readFull n >>= f) r = .ok b r' := by
  have hmap : ((read n).mapErr g >>= f) r = .ok b r' ↔ (read n >>= f) r = .ok b r' := by
    simp only [bind_eq_ok_iff, mapErr_eq_ok_iff]
  rw [hmap, bind_run, bind_run, read, readFull]
  by_cases hle : n ≤ r.len
  · rw [if_neg (by omega), if_pos hle, min_eq_left hle]
  rw [if_neg hle]
  by_cases hzero : r.len = 0
  · rw [if_pos hzero]
    simp
  · have hlen : (r.slice r.pos n).length < n := by
      simp only [Reader.slice, length_take, length_drop, Reader.len] at hle ⊢
      omega
    rw [if_neg hzero]
    simp [hshort _ hlen]

theorem Recognizes.read_bind {n : Nat} (hn : 0 < n) {f : List UInt8 → Parser β}
    (hshort : ∀ bs, bs.length < n → ∀ r b r', f bs r ≠ .ok b r') (g : String → String)
    {R : List UInt8 → β → List UInt8 → Prop} (hf : ∀ bs, Recognizes S (f bs) (R bs)) :
    Recognizes S ((read n).mapErr g >>= f) fun b bs =>
      ∃ bs₁ bs₂, bs = bs₁ ++ bs₂ ∧ bs₁.length = n ∧ R bs₁ b bs₂ := by
  intro before input b r' hb
  rw [read_bind_eq_ok_iff hn hshort]
  refine Iff.trans (((recognizes_readFull n).bind hf) before input b r' hb) ?_
  refine exists_congr fun bs => exists_congr fun rest => and_congr_right fun _ =>
    and_congr_left fun _ => ?_
  constructor
  · rintro ⟨_, bs₁, bs₂, rfl, ⟨rfl, hlen⟩, hR⟩
    exact ⟨_, bs₂, rfl, hlen, hR⟩
  · rintro ⟨bs₁, bs₂, rfl, hlen, hR⟩
    exact ⟨bs₁, bs₁, bs₂, rfl, ⟨rfl, hlen⟩, hR⟩

/-- The bytes of items that come one after the other, the first with the number `i`. -/
inductive Sequence (Q : Nat → α → List UInt8 → Prop) : (i : Nat) → List α → List UInt8 → Prop where
  | nil (i : Nat) : Sequence Q i [] []
  | cons {i : Nat} {a : α} {as : List α} {bs rest : List UInt8} (head : Q i a bs)
      (tail : Sequence Q (i + 1) as rest) : Sequence Q i (a :: as) (bs ++ rest)

theorem recognizes_times {item : Nat → Parser α} {Q : Nat → α → List UInt8 → Prop}
    (h : ∀ i, Recognizes Any (item i) (Q i)) (n : Nat) :
    Recognizes Any (times n item) fun as bs => as.length = n ∧ Sequence Q 0 as bs := by
  have hiterate (n i : Nat) (items : List α) : Recognizes Any (iterate (fun i items => do
          let a ← item i
          return items.concat a) i n items) fun as bs =>
        ∃ more, as = items ++ more ∧ more.length = n ∧ Sequence Q i more bs := by
    induction n generalizing i items with
    | zero =>
      refine (recognizes_pure items).congr fun as bs _ => ?_
      constructor
      · rintro ⟨rfl, rfl⟩
        exact ⟨[], (append_nil _).symm, rfl, .nil i⟩
      · rintro ⟨more, rfl, hlen, hseq⟩
        obtain rfl := eq_nil_of_length_eq_zero hlen
        cases hseq
        exact ⟨append_nil _, rfl⟩
    | succ n ih =>
      refine (((h i).bind fun a => recognizes_pure (items.concat a)).bind
        fun items => ih (i + 1) items).congr fun as bs _ => ?_
      constructor
      · rintro ⟨_, _, rest, rfl, ⟨a, bs, _, rfl, hQ, rfl, rfl⟩, more, rfl, hlen, hseq⟩
        refine ⟨a :: more, by simp, by simp [hlen], ?_⟩
        rw [append_nil]
        exact .cons hQ hseq
      · rintro ⟨more, rfl, hlen, hseq⟩
        cases hseq with
        | nil => simp at hlen
        | @cons _ a more bs rest hQ hseq =>
          exact ⟨_, bs, rest, rfl, ⟨a, bs, [], by rw [append_nil], hQ, rfl, rfl⟩, more,
            by simp, by simpa using hlen, hseq⟩
  refine (hiterate n 0 []).congr fun as bs _ => ?_
  simp

/-- The value and the position do not change when bytes follow. -/
theorem Recognizes.run_append (hx : Recognizes S x Q)
    {bytes : List UInt8} {b : β} {r : Reader} (hb : S b) (h : x ⟨bytes, 0⟩ = .ok b r)
    (more : List UInt8) :
    r.pos ≤ bytes.length ∧ x ⟨bytes ++ more, 0⟩ = .ok b ⟨bytes ++ more, r.pos⟩ := by
  obtain ⟨bs, rest, rfl, hQ, rfl⟩ := (hx [] bytes b r hb).mp h
  refine ⟨by simp, (hx [] _ b _ hb).mpr ⟨bs, rest ++ more, append_assoc _ _ _, hQ, rfl⟩⟩

end Andsifr.Lib.Parser
