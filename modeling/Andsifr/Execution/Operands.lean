import Andsifr.Execution.Typing
import Andsifr.Validation.Blocks

namespace Andsifr.Execution

open Lib Wasm Validation List Check Stacks

variable {types : List FunctionType} {s s' : Stacks}

/-- A check takes operands of the given types, the topmost first, from a stack of known types. -/
structure Takes (types : List FunctionType) (s s' : Stacks) (want : List ValueType) : Prop where
  only : OnlyStack s s'
  within : Within s s'
  stack : ∃ found, s.stack = found ++ s'.stack ∧ Subtypes types found want
  known : unknown ∉ s'.stack

theorem Takes.refl (hs : unknown ∉ s.stack) : Takes types s s [] :=
  ⟨.refl s, .refl s, ⟨[], rfl, .nil⟩, hs⟩

variable {want : List ValueType}

theorem Takes.trans {s₁ s₂ s₃ : Stacks} {want' : List ValueType}
    (h₁ : Takes types s₁ s₂ want) (h₂ : Takes types s₂ s₃ want') :
    Takes types s₁ s₃ (want ++ want') := by
  obtain ⟨found, hfound, hsub⟩ := h₁.stack
  obtain ⟨found', hfound', hsub'⟩ := h₂.stack
  refine ⟨h₁.only.trans h₂.only, h₁.within.trans h₂.within,
    ⟨found ++ found', ?_, rel_append hsub hsub'⟩, h₂.known⟩
  rw [hfound, hfound', append_assoc]

section

variable (hwf : WellFormedTypes types)

include hwf

theorem Takes.typed (h : Takes types s s' want) {args below : List Value}
    (hvalues : Typed types (args ++ below) s.stack) (hlength : args.length = want.length) :
    Typed types args want ∧ Typed types below s'.stack := by
  obtain ⟨found, hfound, hsub⟩ := h.stack
  rw [hfound] at hvalues
  obtain ⟨hargs, hbelow⟩ := hvalues.split_of_length (hlength.trans hsub.length_eq.symm)
  exact ⟨hargs.subsume hwf hsub, hbelow⟩

theorem Takes.split
    (h : Takes types s s' want) {values : List Value} (hvalues : Typed types values s.stack) :
    ∃ args below, values = args ++ below ∧ Typed types args want ∧ Typed types below s'.stack := by
  obtain ⟨found, hfound, hsub⟩ := h.stack
  rw [hfound] at hvalues
  obtain ⟨hargs, hbelow⟩ := hvalues.split
  exact ⟨_, _, (take_append_drop _ _).symm, hargs.subsume hwf hsub, hbelow⟩

theorem Takes.top
    (h : Takes types s s' want) {values : List Value} (hvalues : Typed types values s.stack) :
    Top types values want := by
  obtain ⟨args, below, hsplit, hargs, -⟩ := h.split hwf hvalues
  exact ⟨args, below, hsplit, hargs⟩

end

theorem tryPop_known {t : ValueType} (hs : unknown ∉ s.stack) (h : s.tryPop = some (t, s')) :
    s.stack = t :: s'.stack ∧ OnlyStack s s' := by
  obtain ⟨-, ⟨hpoly, -⟩ | ⟨rest, hstack, rfl⟩⟩ := tryPop_eq_some h
  · simp only [polymorphic, Bool.and_eq_true, beq_iff_eq] at hpoly
    exact absurd (mem_of_head? hpoly.2) hs
  · exact ⟨hstack, rfl⟩

theorem takes_pop {t : ValueType} (hs : unknown ∉ s.stack) (h : s.pop = .ok (t, s')) :
    Takes types s s' [t] ∧ t ≠ unknown := by
  have hwithin := (quiet_pop _ h).toWithin
  unfold pop at h
  split at h
  next hpop =>
    cases h
    obtain ⟨hstack, honly⟩ := tryPop_known hs hpop
    rw [hstack, mem_cons, not_or] at hs
    exact ⟨⟨honly, hwithin, ⟨[t], hstack, .cons (isRefSubtypeOf_self types t) .nil⟩, hs.2⟩,
      Ne.symm hs.1⟩
  · cases h

theorem matchesType_known {actual expected : ValueType} (hactual : actual ≠ unknown)
    (hexpected : expected ≠ unknown) (h : matchesType types actual expected = .ok true) :
    isRefSubtypeOf types actual expected = .ok true := by
  unfold matchesType at h
  rwa [if_neg (by simp [hactual, hexpected])] at h

theorem takes_popAndVerifyType {expected : ValueType} (hs : unknown ∉ s.stack)
    (hexpected : expected ≠ unknown) (h : s.popAndVerifyType types expected = .ok s') :
    Takes types s s' [expected] := by
  obtain ⟨t, hpop, hmatch⟩ := popAndVerifyType_eq_ok h
  obtain ⟨hstack, honly⟩ := tryPop_known hs hpop
  rw [hstack, mem_cons, not_or] at hs
  exact ⟨honly, (quiet_popAndVerifyType _ h).toWithin,
    ⟨[t], hstack, .cons (matchesType_known (Ne.symm hs.1) hexpected hmatch) .nil⟩, hs.2⟩

theorem takes_popAll {wrap : Nat → String → String} (hs : unknown ∉ s.stack)
    (hwant : unknown ∉ want) (h : s.popAll types wrap want = .ok s') : Takes types s s' want := by
  induction want generalizing s with
  | nil =>
    cases h
    exact .refl hs
  | cons t want ih =>
    obtain ⟨s₁, hpop, h⟩ := bind_inv h
    rw [mem_cons, not_or] at hwant
    have hfirst := takes_popAndVerifyType hs (Ne.symm hwant.1) (mapErr_inv hpop)
    exact hfirst.trans (ih hfirst.known hwant.2 h)

theorem tryPops_known {n : Nat} {popped popped' : List ValueType} (hs : unknown ∉ s.stack)
    (h : tryPops n popped s = .ok (popped', s')) :
    ∃ found, popped' = popped ++ found ∧ s.stack = found ++ s'.stack ∧ found.length = n := by
  induction n generalizing popped s with
  | zero =>
    cases h
    exact ⟨[], by simp⟩
  | succ n ih =>
    unfold tryPops at h
    split at h
    · cases h
    next t s₁ hpop =>
      obtain ⟨hstack, -⟩ := tryPop_known hs hpop
      obtain ⟨found, hpopped, hrest, hlength⟩ := ih (by grind) h
      exact ⟨t :: found, by simp [hpopped], by simp [hstack, hrest], by simp [hlength]⟩

theorem subtypes_of_verifyTypes {isParam : Bool} {context : String} {i : Nat}
    {found : List ValueType} (hfound : unknown ∉ found) (hwant : unknown ∉ want)
    (hlength : found.length = want.length)
    (h : verifyTypes types isParam context i (found.zip want) = .ok ()) :
    Subtypes types found want := by
  induction found generalizing i want with
  | nil =>
    obtain rfl := length_eq_zero_iff.mp hlength.symm
    exact .nil
  | cons t found ih =>
    cases want with
    | nil => cases hlength
    | cons w want =>
      obtain ⟨b, hb, h⟩ := bind_inv h
      cases b with
      | true =>
        exact .cons (matchesType_known (by grind) (by grind) hb)
          (ih (by grind) (by grind) (by simpa using hlength) h)
      | false => cases h

theorem takes_requireStackValues {isParam aboveLimit : Bool} {context : String}
    (hs : unknown ∉ s.stack) (hwant : unknown ∉ want)
    (h : requireStackValues types isParam context want aboveLimit s = .ok s') :
    Takes types s s' want.reverse ∧ (aboveLimit = true → s'.stack.length = s.limit) := by
  obtain ⟨popped, hpops, habove, hverify⟩ := requireStackValues_eq_ok h
  have honly := onlyStack_requireStackValues h
  obtain ⟨found, hpopped, hstack, hlength⟩ := tryPops_known hs hpops
  rw [hpopped] at hverify
  have hsub : Subtypes types found want.reverse :=
    subtypes_of_verifyTypes (by grind) (by simpa using hwant) (by simpa using hlength) hverify
  refine ⟨⟨honly, (quiet_requireStackValues _ h).toWithin, ⟨found, hstack, hsub⟩, by grind⟩,
    fun hlimit => ?_⟩
  have hlimits : s'.limit = s.limit := by
    unfold limit
    rw [honly.limits]
  rcases habove hlimit with heq | hpoly
  · exact heq.symm.trans hlimits
  · simp only [polymorphic, Bool.and_eq_true, beq_iff_eq] at hpoly
    have := mem_of_head? hpoly.2
    grind

end Andsifr.Execution
