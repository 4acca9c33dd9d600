import Andsifr.Frontend.Body
import Mathlib.Algebra.Order.BigOperators.Group.List

namespace Andsifr.Frontend

open Wasm Lib.Flow Relation List

/-- Where an activation of a function is, and the handlers it has pushed, innermost first: for each
the blocks of its clauses. -/
structure Activation where
  position : Position
  handlers : List (List BlockID)
  deriving DecidableEq, Repr

namespace CompiledFunction

variable (f : CompiledFunction)

/-- What an activation does until it returns. Calls are made and come back. -/
inductive Step : Activation → Activation → Prop
  | next {p : Position} {handlers : List (List BlockID)} {i : Inst} (hi : f.instAt p = some i)
      (hfalls : i.fallsThrough = true) (hleave : i ≠ .tryTableLeave) :
      Step ⟨p, handlers⟩ ⟨p.next, handlers⟩
  | leave {p : Position} {clauses : List BlockID} {handlers : List (List BlockID)}
      (hi : f.instAt p = some .tryTableLeave) : Step ⟨p, clauses :: handlers⟩ ⟨p.next, handlers⟩
  | branch {p : Position} {handlers : List (List BlockID)} {i : Inst} {target : BlockID}
      (hi : f.instAt p = some i) (hbranch : i.isBranch = true) (htarget : target ∈ i.targets) :
      Step ⟨p, handlers⟩ ⟨⟨target, 0⟩, handlers⟩
  | enter {p : Position} {handlers : List (List BlockID)} {info : TryTableInfo}
      {clauses : List BlockID} {body : BlockID}
      (hi : f.instAt p = some (.tryTableEnter info clauses body)) :
      Step ⟨p, handlers⟩ ⟨⟨body, 0⟩, clauses :: handlers⟩
  | caught {p : Position} {inner outer : List (List BlockID)} {i : Inst} {clauses : List BlockID}
      {handler : BlockID} (hi : f.instAt p = some i) (hthrow : i.mayThrow = true)
      (hhandler : handler ∈ clauses) :
      Step ⟨p, inner ++ clauses :: outer⟩ ⟨⟨handler, 0⟩, outer⟩

def start : Activation :=
  ⟨⟨entryBlock, 0⟩, []⟩

/-- The function is about to make a tail call of itself: by its index, or through a pointer with one
of the types `own`, under which tables and references may hold it. -/
def AtSelfCall (own : Index → Prop) (x : Activation) : Prop :=
  ∃ callee, f.instAt x.position = some (.tailCall callee) ∧
    match callee with
    | .function index => index = f.compiler.functionIndex
    | .imported => False
    | .pointer typeIndex => own typeIndex

def UncheckedStep (x y : Activation) : Prop :=
  f.instAt x.position ≠ some .terminationCheck ∧ f.Step x y

/-- What the function does without a termination check. A tail call of the function itself starts it
anew. -/
def Unchecked (own : Index → Prop) (x y : Activation) : Prop :=
  f.UncheckedStep x y ∨ f.AtSelfCall own x ∧ y = start

end CompiledFunction

/-- The activation is where it was, with at least the handlers it had then, so that it can go on as
before. -/
def Activation.Repeats (x y : Activation) : Prop :=
  y.position = x.position ∧ x.handlers.Sublist y.handlers

namespace CompiledFunction

variable {f : CompiledFunction} {facts : BlockID → Facts} {height : BlockID → Nat}
  {x y z : Activation}

/-- The position is in a loop header, before its check. -/
def beforeCheck (f : CompiledFunction) (facts : BlockID → Facts) (p : Position) : Bool :=
  (exitFacts Facts.after (facts p.block) ((f.code p.block).take p.index)).any (·.header)

/-- A bound for the steps from the position to the next check, up to those inside of blocks. -/
def level (f : CompiledFunction) (facts : BlockID → Facts) (height : BlockID → Nat)
    (p : Position) : Nat :=
  if f.beforeCheck facts p then 0 else height p.block + 1

/-- The highest of the levels where the handlers begin. -/
def clausesLevel (f : CompiledFunction) (facts : BlockID → Facts) (height : BlockID → Nat)
    (clauses : List BlockID) : Nat :=
  (clauses.map fun b => f.level facts height ⟨b, 0⟩).foldr max 0

/-- Entering a `try_table` replaces one level by two lower ones. -/
def weight (f : CompiledFunction) (facts : BlockID → Facts) (height : BlockID → Nat)
    (x : Activation) : Nat :=
  3 ^ f.level facts height x.position +
    (x.handlers.map fun clauses => 3 ^ f.clausesLevel facts height clauses).sum

theorem level_le_clausesLevel {b : BlockID} {clauses : List BlockID} (hb : b ∈ clauses) :
    f.level facts height ⟨b, 0⟩ ≤ f.clausesLevel facts height clauses := by
  induction clauses with
  | nil => simp at hb
  | cons b' clauses ih =>
    obtain rfl | hb := mem_cons.1 hb
    · exact le_max_left _ _
    · exact (ih hb).trans (le_max_right _ _)

theorem clausesLevel_le {clauses : List BlockID} {n : Nat}
    (h : ∀ b ∈ clauses, f.level facts height ⟨b, 0⟩ ≤ n) :
    f.clausesLevel facts height clauses ≤ n := by
  induction clauses with
  | nil => exact Nat.zero_le _
  | cons b clauses ih =>
    exact max_le (h b (by simp)) (ih fun b' hb' => h b' (by simp [hb']))

theorem beforeCheck_iff {p : Position} : f.beforeCheck facts p = true ↔
    ∃ a, f.FactsAt facts p a ∧ a.header = true := by
  unfold beforeCheck FactsAt
  cases exitFacts Facts.after (facts p.block) ((f.code p.block).take p.index) <;> simp

theorem level_zero {b : BlockID} :
    f.level facts height ⟨b, 0⟩ = if (facts b).header then 0 else height b + 1 :=
  rfl

theorem Facts.after_of_ne_check {a a' : Facts} {i : Inst} (h : a.after i = some a')
    (hi : i ≠ .terminationCheck) : a'.header = a.header ∧ a'.checked = a.checked := by
  cases i with
  | terminationCheck => exact absurd rfl hi
  | throw | tryTableEnter | jump | brTable | ret | exit => simp [Facts.after] at h
  | defineVariable index =>
    simp only [Facts.after] at h
    split at h <;> (cases h; exact ⟨rfl, rfl⟩)
  | _ =>
    cases h
    exact ⟨rfl, rfl⟩

theorem level_next {p : Position} {i : Inst} (hi : f.instAt p = some i)
    (hcheck : i ≠ .terminationCheck) (hfalls : i.fallsThrough = true) :
    f.level facts height p.next = f.level facts height p := by
  have hbefore : f.beforeCheck facts p.next = f.beforeCheck facts p := by
    unfold beforeCheck Position.next
    rw [exitFacts_take_succ hi]
    cases exitFacts Facts.after (facts p.block) ((f.code p.block).take p.index) with
    | none => rfl
    | some a =>
      obtain ⟨a', ha'⟩ := Facts.exists_after hfalls a
      simp [ha', (Facts.after_of_ne_check ha' hcheck).1]
  unfold level
  rw [hbefore]
  rfl

section

variable {p : Position} {i : Inst}

theorem Sound.isSourceOffset_of_beforeCheck (hs : f.Sound facts height)
    (hp : f.beforeCheck facts p = true) (hi : f.instAt p = some i) :
    i.isSourceOffset = true ∨ i = .terminationCheck := by
  obtain ⟨a, ha, hheader⟩ := beforeCheck_iff.1 hp
  exact (hs.ok ha hi).2.1 hheader

theorem Sound.level_eq (hs : f.Sound facts height) (hi : f.instAt p = some i)
    (hsource : i.isSourceOffset = false) (hcheck : i ≠ .terminationCheck) :
    f.level facts height p = height p.block + 1 := by
  unfold level
  rw [if_neg]
  intro hp
  obtain h | h := hs.isSourceOffset_of_beforeCheck hp hi
  · simp [hsource] at h
  · exact hcheck h

/-- A branch goes down, unless it is the one of a fill loop. -/
theorem Sound.level_target (hs : f.Sound facts height)
    (hterm : f.compiler.ensureTermination = true) (hi : f.instAt p = some i) {target : BlockID}
    (ht : target ∈ i.targets) :
    f.level facts height ⟨target, 0⟩ < height p.block + 1 ∨
      target = p.block ∧ IsFillLoop f.code p.block ∧
        f.level facts height ⟨target, 0⟩ ≤ height p.block + 1 := by
  rw [level_zero]
  obtain hlt | hheader | ⟨heq, hfill⟩ :=
    hs.forward hterm p.block i (mem_of_getElem? hi) target ht
  · split <;> omega
  · rw [if_pos hheader]
    omega
  · right
    refine ⟨heq, hfill, ?_⟩
    rw [heq]
    split <;> omega

theorem isBranch_of_isFillLoop {b : BlockID} (h : IsFillLoop f.code b) (hi : i ∈ f.code b) :
    i = .plain ∨ i.isBranch = true := by
  obtain ⟨pc, target, pc', hcode⟩ := h
  obtain rfl | rfl | rfl : i = .plain ∨ i = .brnz b pc ∨ i = .jump target pc' := by
    simpa [hcode] using hi
  · exact .inl rfl
  · exact .inr rfl
  · exact .inr rfl

theorem Sound.weight_step (hs : f.Sound facts height)
    (hterm : f.compiler.ensureTermination = true) (hstep : f.Step x y)
    (hcheck : f.instAt x.position ≠ some .terminationCheck) :
    f.weight facts height y < f.weight facts height x ∨
      f.weight facts height y ≤ f.weight facts height x ∧ y.position.block = x.position.block ∧
        (x.position.index < y.position.index ∨ IsFillLoop f.code x.position.block) := by
  cases hstep with
  | next hi hfalls hleave =>
    have hlevel := @level_next f facts height _ _ hi (fun h => hcheck (h ▸ hi)) hfalls
    right
    refine ⟨?_, rfl, .inl (Nat.lt_succ_self _)⟩
    simp [weight, hlevel]
  | @leave p clauses handlers hi =>
    have hlevel := @level_next f facts height _ _ hi (by simp) rfl
    have hpos : 0 < 3 ^ f.clausesLevel facts height clauses := Nat.pow_pos (by decide)
    left
    simp [weight, hlevel]
  | @branch p handlers i target hi hbranch htarget =>
    have hlevel : f.level facts height p = height p.block + 1 :=
      hs.level_eq hi (by cases i <;> simp [Inst.isBranch] at hbranch <;> rfl)
        (fun h => hcheck (h ▸ hi))
    obtain hlt | ⟨rfl, hfill, hle⟩ := hs.level_target hterm hi htarget
    · have hpow := Nat.pow_lt_pow_right (show 1 < 3 by decide) hlt
      simp only [weight, hlevel]
      omega
    · right
      refine ⟨?_, rfl, .inr hfill⟩
      have hpow := Nat.pow_le_pow_right (show 0 < 3 by decide) hle
      simp only [weight, hlevel]
      omega
  | @enter p handlers info clauses body hi =>
    have hlevel : f.level facts height p = height p.block + 1 := hs.level_eq hi rfl (by simp)
    have hdown : ∀ b ∈ clauses ++ [body], f.level facts height ⟨b, 0⟩ ≤ height p.block := by
      intro b hb
      obtain hlt | ⟨-, hfill, -⟩ := hs.level_target hterm hi hb
      · exact Nat.le_of_lt_succ hlt
      · obtain h | h := isBranch_of_isFillLoop hfill (mem_of_getElem? hi)
        · simp at h
        · simp [Inst.isBranch] at h
    have hbody := Nat.pow_le_pow_right (show 0 < 3 by decide) (hdown body (by simp))
    have hclauses : f.clausesLevel facts height clauses ≤ height p.block :=
      clausesLevel_le fun b hb => hdown b (by simp [hb])
    replace hclauses := Nat.pow_le_pow_right (show 0 < 3 by decide) hclauses
    have hpos : 0 < 3 ^ height p.block := Nat.pow_pos (by decide)
    simp only [weight, hlevel, pow_succ, map_cons, sum_cons]
    omega
  | @caught p inner outer i clauses handler hi hthrow hhandler =>
    have hpow := Nat.pow_le_pow_right (show 0 < 3 by decide)
      (@level_le_clausesLevel f facts height _ _ hhandler)
    have hpos : 0 < 3 ^ f.level facts height p := Nat.pow_pos (by decide)
    simp only [weight, map_append, sum_append, map_cons, sum_cons]
    omega

/-- What an activation does without a check and without calling itself. -/
theorem Sound.weight_run (hs : f.Sound facts height) (hterm : f.compiler.ensureTermination = true)
    (hrun : TransGen f.UncheckedStep x y) :
    f.weight facts height y < f.weight facts height x ∨
      f.weight facts height y ≤ f.weight facts height x ∧ y.position.block = x.position.block ∧
        (x.position.index < y.position.index ∨ IsFillLoop f.code x.position.block) := by
  induction hrun with
  | single hstep => exact hs.weight_step hterm hstep.2 hstep.1
  | tail _ hstep ih =>
    obtain hlt | ⟨hle, hblock, hindex⟩ := ih
    · left
      obtain hlt' | ⟨hle', -, -⟩ := hs.weight_step hterm hstep.2 hstep.1
      · exact hlt'.trans hlt
      · exact hle'.trans_lt hlt
    obtain hlt' | ⟨hle', hblock', hindex'⟩ := hs.weight_step hterm hstep.2 hstep.1
    · exact .inl (hlt'.trans_le hle)
    right
    refine ⟨hle'.trans hle, hblock'.trans hblock, ?_⟩
    rw [hblock] at hindex'
    obtain hindex | hfill := hindex
    · exact hindex'.imp_left hindex.trans
    · exact .inr hfill

theorem weight_le_of_repeats (h : x.Repeats y) :
    f.weight facts height x ≤ f.weight facts height y := by
  obtain ⟨hposition, hsub⟩ := h
  have hsum := (hsub.map fun clauses => 3 ^ f.clausesLevel facts height clauses).sum_le_sum
    fun n _ => Nat.zero_le n
  simp only [weight, hposition]
  omega

theorem UncheckedStep.repeats {x' : Activation} (h : f.UncheckedStep x y) (hx : x.Repeats x') :
    ∃ y', f.UncheckedStep x' y' ∧ y.Repeats y' := by
  obtain ⟨hcheck, hstep⟩ := h
  obtain ⟨p', handlers'⟩ := x'
  obtain ⟨hp, hsub⟩ := hx
  obtain rfl : p' = x.position := hp
  cases hstep with
  | next hi hfalls hleave => exact ⟨_, ⟨hcheck, .next hi hfalls hleave⟩, rfl, hsub⟩
  | leave hi =>
    cases handlers' with
    | nil => simp at hsub
    | cons clauses handlers' => exact ⟨_, ⟨hcheck, .leave hi⟩, rfl, hsub.tail⟩
  | branch hi hbranch htarget => exact ⟨_, ⟨hcheck, .branch hi hbranch htarget⟩, rfl, hsub⟩
  | enter hi => exact ⟨_, ⟨hcheck, .enter hi⟩, rfl, hsub.cons_cons _⟩
  | @caught p inner outer i clauses handler hi hthrow hhandler =>
    obtain ⟨inner', rest, rfl, -, hrest⟩ := append_sublist_iff.1 hsub
    obtain ⟨skipped, outer', rfl, hclauses, houter⟩ := cons_sublist_iff.1 hrest
    obtain ⟨before, after, rfl⟩ := append_of_mem hclauses
    refine ⟨⟨⟨handler, 0⟩, after ++ outer'⟩, ⟨hcheck, ?_⟩, rfl, ?_⟩
    · have hstack : inner' ++ ((before ++ clauses :: after) ++ outer') =
          (inner' ++ before) ++ clauses :: (after ++ outer') := by simp
      rw [hstack]
      exact .caught hi hthrow hhandler
    · exact houter.trans (sublist_append_right _ _)

/-- What has been done once can be done again from an activation that repeats the first one. -/
theorem reflTransGen_repeats {x' : Activation} (h : ReflTransGen f.UncheckedStep x y)
    (hx : x.Repeats x') : ∃ y', ReflTransGen f.UncheckedStep x' y' ∧ y.Repeats y' := by
  induction h with
  | refl => exact ⟨x', .refl, hx⟩
  | tail _ hstep ih =>
    obtain ⟨y', hrun, hy'⟩ := ih
    obtain ⟨z', hstep', hz'⟩ := hstep.repeats hy'
    exact ⟨z', hrun.tail hstep', hz'⟩

/-- A run either never gets to a tail call of the function itself, or there is a first one. -/
theorem transGen_unchecked_cases {own : Index → Prop} (h : TransGen (f.Unchecked own) x y) :
    TransGen f.UncheckedStep x y ∨ ∃ z, ReflTransGen f.UncheckedStep x z ∧ f.AtSelfCall own z ∧
      ReflTransGen (f.Unchecked own) start y := by
  induction h with
  | single hstep =>
    obtain hstep | ⟨hself, rfl⟩ := hstep
    · exact .inl (.single hstep)
    · exact .inr ⟨x, .refl, hself, .refl⟩
  | tail _ hstep ih =>
    obtain hrun | ⟨z, hz, hself, hrun⟩ := ih
    · obtain hstep | ⟨hself, rfl⟩ := hstep
      · exact .inl (hrun.tail hstep)
      · exact .inr ⟨_, hrun.to_reflTransGen, hself, .refl⟩
    · exact .inr ⟨z, hz, hself, hrun.tail hstep⟩

/-- No check has been passed on the way to the position, nor on the way to a handler. -/
structure NotChecked (f : CompiledFunction) (facts : BlockID → Facts) (x : Activation) : Prop where
  position : ∃ a, f.FactsAt facts x.position a ∧ a.checked = false
  handlers : ∀ clauses ∈ x.handlers, ∀ b ∈ clauses, (facts b).checked = false

theorem NotChecked.next {handlers handlers' : List (List BlockID)}
    (h : f.NotChecked facts ⟨p, handlers⟩) (hi : f.instAt p = some i)
    (hcheck : i ≠ .terminationCheck) (hfalls : i.fallsThrough = true)
    (hsub : ∀ clauses ∈ handlers', clauses ∈ handlers) :
    f.NotChecked facts ⟨p.next, handlers'⟩ := by
  obtain ⟨⟨a, ha, hchecked⟩, hhandlers⟩ := h
  obtain ⟨a', ha'⟩ := Facts.exists_after hfalls a
  exact ⟨⟨a', ha.next hi ha', (Facts.after_of_ne_check ha' hcheck).2.trans hchecked⟩,
    fun clauses hc => hhandlers clauses (hsub clauses hc)⟩

theorem Facts.checked_of_allows {c : Compiler} {body : List Instruction} {a : Facts}
    {target : BlockID} (h : a.Allows c body facts i) (hbranch : i.isBranch = true)
    (ht : target ∈ i.targets) (ha : a.checked = false) : (facts target).checked = false := by
  have henters : a.Enters (facts target) → (facts target).checked = false := fun he => by
    by_contra hc
    rw [Bool.not_eq_false] at hc
    simp [he.checked hc] at ha
  cases i with
  | jump t pc =>
    obtain rfl : target = t := by simpa [Inst.targets] using ht
    simp only [Facts.Allows] at h
    split at h
    next => exact h.2.2.2.1
    next => exact henters h
  | brz t pc | brnz t pc =>
    obtain rfl : target = t := by simpa [Inst.targets] using ht
    exact henters h
  | brTable targets pc => exact henters (h target ht)
  | _ => simp [Inst.isBranch] at hbranch

section

variable (hs : f.Sound facts height)

include hs

theorem Sound.notChecked_step (h : f.NotChecked facts x)
    (hstep : f.UncheckedStep x y) : f.NotChecked facts y := by
  obtain ⟨hcheck, hstep⟩ := hstep
  obtain ⟨⟨a, ha, hchecked⟩, hhandlers⟩ := id h
  cases hstep with
  | next hi hfalls hleave => exact h.next hi (fun heq => hcheck (heq ▸ hi)) hfalls fun _ hc => hc
  | leave hi => exact h.next hi (by simp) rfl fun _ hc => by simp [hc]
  | @branch p handlers i target hi hbranch htarget =>
    exact ⟨⟨_, factsAt_zero,
      Facts.checked_of_allows (hs.allows ha hi) hbranch htarget hchecked⟩, hhandlers⟩
  | @enter p handlers info clauses body hi =>
    obtain ⟨-, -, -, -, hclauses, hbody⟩ := hs.allows ha hi
    refine ⟨⟨_, factsAt_zero, by rw [hbody]⟩, fun clauses' hc => ?_⟩
    obtain rfl | hc := mem_cons.1 hc
    · intro b hb
      rw [hclauses b hb]
    · exact hhandlers clauses' hc
  | @caught p inner outer i clauses handler hi hthrow hhandler =>
    exact ⟨⟨_, factsAt_zero, hhandlers clauses (by simp) handler hhandler⟩,
      fun clauses' hc => hhandlers clauses' (by simp [hc])⟩

theorem Sound.notChecked_start : f.NotChecked facts start :=
  ⟨⟨_, factsAt_zero, by rw [hs.entry]⟩, by simp [start]⟩

theorem Sound.notChecked_run {own : Index → Prop} (hrun : ReflTransGen (f.Unchecked own) start x) :
    f.NotChecked facts x := by
  induction hrun with
  | refl => exact hs.notChecked_start
  | tail _ hstep ih =>
    obtain hstep | ⟨-, rfl⟩ := hstep
    · exact hs.notChecked_step ih hstep
    · exact hs.notChecked_start

/-- Without imported functions every tail call of the function by its index comes after a check. -/
theorem Sound.not_atSelfCall {own : Index → Prop} (hterm : f.compiler.ensureTermination = true)
    (himports : f.compiler.importFunctionCount = 0)
    (hrun : ReflTransGen (f.Unchecked own) start x) : ¬ f.AtSelfCall (fun _ => False) x := by
  rintro ⟨callee, hcall, hself⟩
  obtain ⟨⟨a, ha, hchecked⟩, -⟩ := hs.notChecked_run hrun
  obtain ⟨-, -, hallows⟩ := hs.allows ha hcall
  cases callee with
  | function index => simp [hallows (congrArg _ hself) hterm himports] at hchecked
  | imported => exact hself
  | pointer typeIndex => exact hself

end

end

/-- Every cycle of a function that is compiled to terminate passes a check, apart from the loops of
the fill instructions, exactly if without passing a check the function cannot get to a tail call of
itself, neither through a pointer nor, unless the module imports no functions, by its index. -/
theorem cycles_checked_iff (f : CompiledFunction) (own : Index → Prop)
    (hterm : f.compiler.ensureTermination = true) :
    (∀ x y, TransGen (f.Unchecked own) x y → x.Repeats y →
        IsFillLoop f.code x.position.block) ↔
      ∀ x, ReflTransGen (f.Unchecked own) start x → f.AtSelfCall own x →
        f.compiler.importFunctionCount = 0 ∧ f.AtSelfCall (fun _ => False) x := by
  obtain ⟨facts, height, hs⟩ := f.exists_sound
  constructor
  · intro hcycles x hrun hself
    have hcycle : TransGen (f.Unchecked own) x x := .head' (.inr ⟨hself, rfl⟩) hrun
    have hfill := hcycles x x hcycle ⟨rfl, .refl _⟩
    obtain ⟨callee, hcall, -⟩ := hself
    obtain h | h := isBranch_of_isFillLoop hfill (mem_of_getElem? hcall)
    · simp at h
    · simp [Inst.isBranch] at h
  · intro hself x y hrun hrepeats
    have hnone : ∀ x, ReflTransGen (f.Unchecked own) start x → ¬ f.AtSelfCall own x := by
      intro x hrun hat
      obtain ⟨himports, hindex⟩ := hself x hrun hat
      exact hs.not_atSelfCall hterm himports hrun hindex
    obtain hrun | ⟨z, hz, hzself, hrun⟩ := transGen_unchecked_cases hrun
    · have hle := @weight_le_of_repeats f facts height x y hrepeats
      obtain hlt | ⟨-, -, hindex | hfill⟩ := hs.weight_run hterm hrun
      · omega
      · rw [hrepeats.1] at hindex
        omega
      · exact hfill
    · -- the cycle can be run once more, up to the tail call
      obtain ⟨z', hz', hzrepeats⟩ := reflTransGen_repeats hz hrepeats
      have hzself' : f.AtSelfCall own z' := by
        rw [AtSelfCall, hzrepeats.1]
        exact hzself
      exact absurd hzself' (hnone z' (hrun.trans (ReflTransGen.mono (fun _ _ => .inl) _ _ hz')))

/-- A function that only makes a tail call, with the given number of imported functions before
it. -/
def onlyCalls (imports : Nat) (call : Instruction)
    (hcall : ∀ i, call ≠ .localSet i ∧ call ≠ .localTee i)
    (h : (lowerToSSA ⟨imports, 0, 0, true, false⟩ [call, .endOp]).isSome = true)
    (hclosed : ((lowerToSSA ⟨imports, 0, 0, true, false⟩ [call,
      .endOp]).get h).controlFrames = []) :
    CompiledFunction :=
  .of ⟨imports, 0, 0, true, false⟩ [call] (fun i hi => by simp [eq_comm, hcall i] at hi) h hclosed

/-- With an imported function before it, a function that calls itself runs forever without a check,
and without imported functions one that calls itself through a table does. -/
theorem cycle_unchecked :
    (∃ f : CompiledFunction, f.compiler = ⟨1, 0, 0, true, false⟩ ∧
      f.body = [.returnCall 1, .endOp] ∧ TransGen (f.Unchecked fun _ => False) start start ∧
      ¬ IsFillLoop f.code start.position.block) ∧
    ∃ f : CompiledFunction, f.compiler = ⟨0, 0, 0, true, false⟩ ∧
      f.body = [.returnCallIndirect 0 0, .endOp] ∧ TransGen (f.Unchecked (· = 0)) start start ∧
      ¬ IsFillLoop f.code start.position.block := by
  constructor
  · refine ⟨onlyCalls 1 (.returnCall 1) (by simp) rfl rfl, rfl, rfl, ?_, ?_⟩
    · exact .tail (.single (.inl ⟨by decide, .next rfl rfl (by decide)⟩))
        (.inr ⟨⟨.function 1, rfl, rfl⟩, rfl⟩)
    · rintro ⟨pc, target, pc', hcode⟩
      cases hcode
  · refine ⟨onlyCalls 0 (.returnCallIndirect 0 0) (by simp) rfl rfl, rfl, rfl, ?_, ?_⟩
    · refine .tail (.tail (.single (.inl ⟨by decide, .next rfl rfl (by decide)⟩))
        (.inl ⟨by decide, .next rfl rfl (by decide)⟩)) (.inr ⟨⟨.pointer 0, rfl, rfl⟩, rfl⟩)
    · rintro ⟨pc, target, pc', hcode⟩
      cases hcode

/-- Without imported functions the tail call comes after a check. -/
theorem cycles_checked_without_imports :
    (onlyCalls 0 (.returnCall 0) (by simp) rfl rfl).compiler.ensureTermination = true ∧
      ∀ x y, TransGen ((onlyCalls 0 (.returnCall 0) (by simp) rfl rfl).Unchecked
          fun _ => False) x y → x.Repeats y →
        IsFillLoop (onlyCalls 0 (.returnCall 0) (by simp) rfl rfl).code x.position.block :=
  ⟨rfl, (cycles_checked_iff _ _ rfl).2 fun _ _ hself => ⟨rfl, hself⟩⟩

end CompiledFunction

end Andsifr.Frontend
