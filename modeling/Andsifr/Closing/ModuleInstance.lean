import Mathlib.Data.List.Basic

namespace Andsifr.Closing

open Function Option

/-- The fields that `ensureResourcesClosed` releases, in its order. -/
inductive Resource where
  | closeNotifier
  | sys
  | codeCloser
  deriving DecidableEq

def Resource.next : Resource → Option Resource
  | .closeNotifier => some .sys
  | .sys => some .codeCloser
  | .codeCloser => none

/-- What is done with each field: it is compared with nil, the close notification is given or the
file system or code closed, and the field is set to nil. -/
inductive Phase where
  | check
  | use
  | clear

inductive ExitCodeFlag where
  | resourceClosed
  | resourceNotClosed

/-- The next atomic step of a goroutine; `release` is in `ensureResourcesClosed`, with the exit
error that `FailIfClosed` returns after it. -/
inductive Pc where
  | idle
  | panicked
  | setExitCode (exitCode : UInt32) (flag : ExitCodeFlag)
  | load
  | release (r : Resource) (p : Phase) (exitError : Option UInt32)

/-- `closeWithExitCodeWithoutClosingResource` is what a canceled context or a timeout runs. -/
inductive Call where
  | closeWithExitCode (exitCode : UInt32)
  | closeWithExitCodeWithoutClosingResource (exitCode : UInt32)
  | failIfClosed

def Call.start : Call → Pc
  | .closeWithExitCode exitCode => .setExitCode exitCode .resourceClosed
  | .closeWithExitCodeWithoutClosingResource exitCode => .setExitCode exitCode .resourceNotClosed
  | .failIfClosed => .load

/-- A module, whose field `r` is not nil if `holds r`, the goroutines, and what they have done: how
often each resource was used, whether a `CloseWithExitCode` or a failing `FailIfClosed` has returned
and the exit errors it returned. -/
structure State where
  closed : Option (UInt32 × ExitCodeFlag)
  holds : Resource → Bool
  used : Resource → Nat
  threads : Nat → Pc
  returned : Bool
  exitErrors : List UInt32

def State.init (has : Resource → Bool) : State :=
  ⟨none, has, fun _ => 0, fun _ => .idle, false, []⟩

namespace State

def goto (s : State) (t : Nat) (pc : Pc) : State :=
  { s with threads := update s.threads t pc }

theorem goto_self (s : State) (t : Nat) (pc : Pc) : (s.goto t pc).threads t = pc := by
  simp only [goto, update_self]

theorem goto_of_ne (s : State) {t u : Nat} (pc : Pc) (h : u ≠ t) :
    (s.goto t pc).threads u = s.threads u := by
  simp only [goto, update_of_ne h]

def ret (s : State) (t : Nat) (exitError : Option UInt32) : State :=
  { s.goto t .idle with returned := true, exitErrors := exitError.toList ++ s.exitErrors }

def proceed (s : State) (t : Nat) (r : Resource) (e : Option UInt32) : State :=
  match r.next with
  | some r => s.goto t (.release r .check e)
  | none => s.ret t e

def ensureResourcesClosed (s : State) (t : Nat) (r : Resource) (e : Option UInt32) : Phase → State
  | .check => if s.holds r then s.goto t (.release r .use e) else s.proceed t r e
  | .use =>
    -- the notifier and the system context are in local variables, the code closer is read again
    if r = .codeCloser ∧ s.holds r = false then
      s.goto t .panicked
    else
      { s with used := update s.used r (s.used r + 1) }.goto t (.release r .clear e)
  | .clear => { s with holds := update s.holds r false }.proceed t r e

def setExitCode (s : State) (t : Nat) (exitCode : UInt32) (flag : ExitCodeFlag) : State :=
  match s.closed, flag with
  | none, .resourceClosed =>
    { s with closed := some (exitCode, flag) }.goto t (.release .closeNotifier .check none)
  | none, .resourceNotClosed => { s with closed := some (exitCode, flag) }.goto t .idle
  | some _, .resourceClosed => s.ret t none
  | some _, .resourceNotClosed => s.goto t .idle

def failIfClosed (s : State) (t : Nat) : State :=
  match s.closed with
  | none => s.goto t .idle
  | some (exitCode, .resourceClosed) => s.ret t (some exitCode)
  | some (exitCode, .resourceNotClosed) => s.goto t (.release .closeNotifier .check (some exitCode))

end State

inductive Action where
  | call (t : Nat) (c : Call)
  | step (t : Nat)

def State.step (s : State) : Action → Option State
  | .call t c =>
    match s.threads t with
    | .idle => some (s.goto t c.start)
    | _ => none
  | .step t =>
    match s.threads t with
    | .idle => none
    | .panicked => none
    | .setExitCode exitCode flag => some (s.setExitCode t exitCode flag)
    | .load => some (s.failIfClosed t)
    | .release r p e => some (s.ensureResourcesClosed t r e p)

def State.run (s : State) (actions : List Action) : Option State :=
  actions.foldlM State.step s

/-- A goroutine is in `CloseWithExitCode` or in `FailIfClosed`. -/
def Pc.InProgress : Pc → Prop
  | .setExitCode _ .resourceClosed => True
  | .load => True
  | .release _ _ _ => True
  | _ => False

structure Orderly (has : Resource → Bool) (s : State) : Prop where
  once : ∀ r, s.used r ≤ 1
  complete : s.returned = true → (∀ t, ¬ (s.threads t).InProgress) → ∀ r, s.used r = (has r).toNat
  exitCode : ∀ e ∈ s.exitErrors, ∃ flag, s.closed = some (e, flag)

/-- The canceled context or the timeout is the first to close the module. -/
def State.Cancels (s : State) : Action → Prop
  | .call _ _ => False
  | .step t => s.closed = none ∧ ∃ exitCode, s.threads t = .setExitCode exitCode .resourceNotClosed

def State.NeverCancels : State → List Action → Prop
  | _, [] => True
  | s, a :: actions => ¬ s.Cancels a ∧ ∀ s', s.step a = some s' → s'.NeverCancels actions

section Invariant

def Pc.Releasing : Pc → Prop
  | .release _ _ _ => True
  | _ => False

def Resource.rank : Resource → Nat
  | .closeNotifier => 0
  | .sys => 1
  | .codeCloser => 2

variable {r : Resource}

theorem Resource.rank_injective {q : Resource} (h : q.rank = r.rank) : q = r := by
  cases q <;> cases r <;> first | rfl | exact absurd h (by decide)

variable (has : Resource → Bool)

def Untouched (s : State) (r : Resource) : Prop :=
  s.holds r = has r ∧ s.used r = 0

def Released (s : State) (r : Resource) : Prop :=
  s.used r = (has r).toNat

/-- `ensureResourcesClosed` has come to a phase of a resource. -/
structure Progress (s : State) (r : Resource) (p : Phase) : Prop where
  before : ∀ q, q.rank < r.rank → Released has s q
  after : ∀ q, r.rank < q.rank → Untouched has s q
  here : match p with
    | .check => Untouched has s r
    | .use => has r = true ∧ s.holds r = true ∧ s.used r = 0
    | .clear => has r = true ∧ s.used r = 1

/-- The goroutine that closed the module is the only one that releases anything. -/
inductive Inv (s : State) : Prop where
  | opened (hclosed : s.closed = none) (hidle : ∀ t, ¬ (s.threads t).Releasing)
      (hres : ∀ r, Untouched has s r) (hret : s.returned = false) (herr : s.exitErrors = [])
  | releasing (exitCode : UInt32) (t : Nat) (r : Resource) (p : Phase)
      (hclosed : s.closed = some (exitCode, .resourceClosed))
        (hpc : s.threads t = .release r p none)
      (hidle : ∀ u, u ≠ t → ¬ (s.threads u).Releasing) (hres : Progress has s r p)
      (herr : ∀ e ∈ s.exitErrors, e = exitCode)
  | released (exitCode : UInt32) (hclosed : s.closed = some (exitCode, .resourceClosed))
      (hidle : ∀ t, ¬ (s.threads t).Releasing) (hres : ∀ r, Released has s r)
      (herr : ∀ e ∈ s.exitErrors, e = exitCode)

variable {has} {s s' : State} {t : Nat}

theorem Progress.used_le {p : Phase} (h : Progress has s r p) (q : Resource) : s.used q ≤ 1 := by
  rcases Nat.lt_trichotomy q.rank r.rank with hlt | heq | hgt
  · rw [h.before q hlt]
    exact Bool.toNat_le (has q)
  · cases Resource.rank_injective heq
    have hhere := h.here
    cases p with
    | check => exact hhere.2 ▸ Nat.zero_le 1
    | use => exact hhere.2.2 ▸ Nat.zero_le 1
    | clear => exact Nat.le_of_eq hhere.2
  · exact (h.after q hgt).2 ▸ Nat.zero_le 1

theorem Inv.orderly (h : Inv has s) : Orderly has s := by
  cases h with
  | opened hclosed hidle hres hret herr =>
    refine ⟨fun r => (hres r).2 ▸ Nat.zero_le 1, fun hr => ?_, fun e he => ?_⟩
    · rw [hret] at hr
      cases hr
    · rw [herr] at he
      cases he
  | releasing exitCode t r p hclosed hpc hidle hres herr =>
    refine ⟨hres.used_le, fun _ hnone => ?_, fun e he => ⟨_, herr e he ▸ hclosed⟩⟩
    exact absurd (show (s.threads t).InProgress from hpc ▸ trivial) (hnone t)
  | released exitCode hclosed hidle hres herr =>
    exact ⟨fun r => hres r ▸ Bool.toNat_le (has r), fun _ _ => hres, fun e he =>
      ⟨_, herr e he ▸ hclosed⟩⟩

theorem not_releasing_update {threads : Nat → Pc} (pc : Pc) (hpc : ¬ pc.Releasing) {u : Nat}
    (h : u ≠ t → ¬ (threads u).Releasing) : ¬ (update threads t pc u).Releasing := by
  by_cases hu : u = t
  · rwa [hu, update_self]
  · rw [update_of_ne hu]
    exact h hu

theorem Inv.goto (h : Inv has s) (ht : ¬ (s.threads t).Releasing) (pc : Pc) (hpc : ¬ pc.Releasing) :
    Inv has (s.goto t pc) := by
  cases h with
  | opened hclosed hidle hres hret herr =>
    exact .opened hclosed (fun u => not_releasing_update pc hpc fun _ => hidle u) hres hret herr
  | releasing exitCode t' r p hclosed hpc' hidle hres herr =>
    have hne : t' ≠ t := by
      rintro rfl
      exact ht (hpc' ▸ trivial)
    exact .releasing exitCode t' r p hclosed ((State.goto_of_ne s pc hne).trans hpc')
      (fun u hu => not_releasing_update pc hpc fun _ => hidle u hu)
        ⟨hres.before, hres.after, hres.here⟩ herr
  | released exitCode hclosed hidle hres herr =>
    exact .released exitCode hclosed (fun u => not_releasing_update pc hpc fun _ => hidle u)
      hres herr

variable {exitCode : UInt32}

theorem Inv.ret (h : Inv has s) {flag : ExitCodeFlag} (hclosed : s.closed = some (exitCode, flag))
    (ht : ¬ (s.threads t).Releasing) {e : Option UInt32} (he : ∀ x ∈ e, x = exitCode) :
    Inv has (s.ret t e) := by
  have herrors {code : UInt32} (hcode : s.closed = some (code, .resourceClosed))
      (herr : ∀ x ∈ s.exitErrors, x = code) : ∀ x ∈ e.toList ++ s.exitErrors, x = code := by
    intro x hx
    rw [hclosed] at hcode
    cases hcode
    rcases List.mem_append.1 hx with hx | hx
    · exact he x (mem_toList.1 hx)
    · exact herr x hx
  have hgoto := h.goto ht .idle not_false
  cases hgoto with
  | opened hnone =>
    rw [show (s.goto t .idle).closed = s.closed from rfl, hclosed] at hnone
    cases hnone
  | releasing code t' r p hcode hpc hidle hres herr =>
    exact .releasing code t' r p hcode hpc hidle ⟨hres.before, hres.after, hres.here⟩
      (herrors hcode herr)
  | released code hcode hidle hres herr =>
    exact .released code hcode hidle hres (herrors hcode herr)

theorem not_releasing_start (c : Call) : ¬ c.start.Releasing := by
  cases c <;> exact not_false

theorem Inv.setExitCode (h : Inv has s) {flag : ExitCodeFlag}
    (hpc : s.threads t = .setExitCode exitCode flag) (hcancel : ¬ s.Cancels (.step t)) :
    Inv has (s.setExitCode t exitCode flag) := by
  have ht : ¬ (s.threads t).Releasing := hpc ▸ not_false
  cases hclosed : s.closed with
  | none =>
    cases flag with
    | resourceNotClosed => exact absurd ⟨hclosed, exitCode, hpc⟩ hcancel
    | resourceClosed =>
      simp only [State.setExitCode, hclosed]
      cases h with
      | opened _ hidle hres hret herr =>
        refine .releasing exitCode t .closeNotifier .check rfl (State.goto_self _ _ _)
          (fun u hu => (State.goto_of_ne _ _ hu).symm ▸ hidle u)
          ⟨fun q hq => absurd hq (Nat.not_lt_zero _), fun q _ => hres q, hres _⟩ fun e he => ?_
        rw [herr] at he
        cases he
      | releasing code t' r p hcode => exact absurd (hclosed.symm.trans hcode) (by simp)
      | released code hcode => exact absurd (hclosed.symm.trans hcode) (by simp)
  | some x =>
    cases flag with
    | resourceNotClosed =>
      simp only [State.setExitCode, hclosed]
      exact h.goto ht .idle not_false
    | resourceClosed =>
      simp only [State.setExitCode, hclosed]
      exact h.ret hclosed ht fun x hx => absurd hx (by simp)

theorem Inv.failIfClosed (h : Inv has s) (hpc : s.threads t = .load) :
    Inv has (s.failIfClosed t) := by
  have ht : ¬ (s.threads t).Releasing := hpc ▸ not_false
  unfold State.failIfClosed
  split
  · exact h.goto ht .idle not_false
  · rename_i exitCode hsome
    exact h.ret hsome ht (fun x hx => (mem_some.1 hx).symm)
  · rename_i exitCode hsome
    cases h with
    | opened hclosed => exact absurd (hclosed.symm.trans hsome) (by simp)
    | releasing code t' r p hclosed => exact absurd (hclosed.symm.trans hsome) (by simp)
    | released code hclosed => exact absurd (hclosed.symm.trans hsome) (by simp)

theorem Inv.proceed (hclosed : s.closed = some (exitCode, .resourceClosed))
    (hidle : ∀ u, u ≠ t → ¬ (s.threads u).Releasing)
    (hbefore : ∀ q, q.rank ≤ r.rank → Released has s q)
    (hafter : ∀ q, r.rank < q.rank → Untouched has s q) (herr : ∀ e ∈ s.exitErrors, e = exitCode) :
    Inv has (s.proceed t r none) := by
  have hothers (pc : Pc) : ∀ u, u ≠ t → ¬ (update s.threads t pc u).Releasing := by
    intro u hu
    rw [update_of_ne hu]
    exact hidle u hu
  have hnext (r' : Resource) (hrank : r'.rank = r.rank + 1) :
      Inv has (s.goto t (.release r' .check none)) := by
    refine .releasing exitCode t r' .check hclosed (State.goto_self _ _ _) (hothers _)
      ⟨?_, ?_, ?_⟩ herr
    · exact fun q hq => hbefore q (by omega)
    · exact fun q hq => hafter q (by omega)
    · exact hafter r' (by omega)
  cases r with
  | closeNotifier => exact hnext .sys rfl
  | sys => exact hnext .codeCloser rfl
  | codeCloser =>
    refine .released exitCode hclosed (fun u => not_releasing_update .idle not_false (hidle u))
      (fun q => hbefore q ?_) herr
    cases q <;> decide

theorem Inv.ensureResourcesClosed (h : Inv has s) {p : Phase} {e : Option UInt32}
    (hpc : s.threads t = .release r p e) : Inv has (s.ensureResourcesClosed t r e p) := by
  cases h with
  | opened _ hidle => exact absurd (hpc ▸ trivial) (hidle t)
  | released _ _ hidle => exact absurd (hpc ▸ trivial) (hidle t)
  | releasing exitCode t' r' p' hclosed hpc' hidle hres herr =>
    have ht : t = t' := by
      by_contra hne
      exact hidle t hne (hpc ▸ trivial)
    subst ht
    rw [hpc] at hpc'
    cases hpc'
    have hothers (pc : Pc) : ∀ u, u ≠ t → ¬ (update s.threads t pc u).Releasing := by
      intro u hu
      rw [update_of_ne hu]
      exact hidle u hu
    have hsplit {P : Resource → Prop} (hlt : ∀ q, q.rank < r.rank → P q) (hr : P r) (q : Resource)
        (hq : q.rank ≤ r.rank) : P q := by
      rcases Nat.lt_or_eq_of_le hq with h | h
      · exact hlt q h
      · rwa [Resource.rank_injective h]
    have hne {q : Resource} (hq : q.rank ≠ r.rank) : q ≠ r := fun h => hq (congrArg _ h)
    have hhere := hres.here
    cases p with
    | check =>
      rw [State.ensureResourcesClosed]
      split
      · rename_i hholds
        exact .releasing exitCode t r .use hclosed (State.goto_self _ _ _) (hothers _)
          ⟨hres.before, hres.after, hhere.1 ▸ hholds, hholds, hhere.2⟩ herr
      · rename_i hholds
        refine Inv.proceed hclosed hidle (hsplit hres.before ?_) hres.after herr
        rw [Released, hhere.2, ← hhere.1, (Bool.not_eq_true _).mp hholds]
        rfl
    | use =>
      obtain ⟨hhas, hholds, hused⟩ := hhere
      rw [State.ensureResourcesClosed, if_neg (by rw [hholds]; simp)]
      refine .releasing exitCode t r .clear hclosed (State.goto_self _ _ _) (hothers _)
        ⟨?_, ?_, hhas, ?_⟩ herr
      · intro q hq
        exact (update_of_ne (hne (Nat.ne_of_lt hq)) _ _).trans (hres.before q hq)
      · intro q hq
        exact ⟨(hres.after q hq).1,
          (update_of_ne (hne (Nat.ne_of_gt hq)) _ _).trans (hres.after q hq).2⟩
      · exact (update_self r _ _).trans (by rw [hused])
    | clear =>
      refine Inv.proceed hclosed hidle (hsplit hres.before ?_) (fun q hq => ?_) herr
      · exact hhere.2.trans (by rw [hhere.1]; rfl)
      · exact ⟨(update_of_ne (hne (Nat.ne_of_gt hq)) _ _).trans (hres.after q hq).1,
          (hres.after q hq).2⟩

theorem Inv.step (h : Inv has s) {a : Action} (hcancel : ¬ s.Cancels a)
    (hstep : s.step a = some s') :
    Inv has s' := by
  cases a with
  | call t c =>
    simp only [State.step] at hstep
    split at hstep
    · rename_i hpc
      cases hstep
      exact h.goto (hpc ▸ not_false) c.start (not_releasing_start c)
    · cases hstep
  | step t =>
    simp only [State.step] at hstep
    split at hstep
    · cases hstep
    · cases hstep
    · rename_i hpc
      cases hstep
      exact h.setExitCode hpc hcancel
    · rename_i hpc
      cases hstep
      exact h.failIfClosed hpc
    · rename_i hpc
      cases hstep
      exact h.ensureResourcesClosed hpc

theorem Inv.run (h : Inv has s) {actions : List Action} (hcancel : s.NeverCancels actions)
    (hrun : s.run actions = some s') : Inv has s' := by
  induction actions generalizing s with
  | nil =>
    cases hrun
    exact h
  | cons a actions ih =>
    obtain ⟨s₁, hstep, hrest⟩ := bind_eq_some_iff.1 (List.foldlM_cons.symm.trans hrun)
    exact ih (h.step hcancel.1 hstep) (hcancel.2 s₁ hstep) hrest

end Invariant

/-- If no canceled context or timeout is the first to close the module, then in every state reached
each resource was used at most once, each was used once all calls have returned, and every exit
error has the exit code of the first close. -/
theorem close_once (has : Resource → Bool) (actions : List Action) {s : State}
    (hcancel : (State.init has).NeverCancels actions)
    (hrun : (State.init has).run actions = some s) :
    Orderly has s := by
  have hinit : Inv has (State.init has) :=
    .opened rfl (fun _ => not_false) (fun _ => ⟨rfl, rfl⟩) rfl rfl
  exact (hinit.run hcancel hrun).orderly

/-- A timeout comes after a close, and a call finds the module closed while it is released. -/
theorem close_once_late_timeout : ∃ s, (State.init fun _ => true).run
    [.call 0 (.closeWithExitCode 7), .call 1 (.closeWithExitCodeWithoutClosingResource 9),
      .call 2 .failIfClosed, .step 0, .step 1, .step 2, .step 0] = some s ∧ s.exitErrors = [7] ∧
        Orderly (fun _ => true) s := by
  refine ⟨_, rfl, rfl, close_once (fun _ => true)
    [.call 0 (.closeWithExitCode 7), .call 1 (.closeWithExitCodeWithoutClosingResource 9),
      .call 2 .failIfClosed, .step 0, .step 1, .step 2, .step 0] ?_ rfl⟩
  simp [State.NeverCancels, State.Cancels, State.step, State.init, State.goto, Call.start,
    State.setExitCode, State.failIfClosed, State.ret, update]

/-- After a timeout, two calls that find the module closed both give the notification. -/
theorem canceled_notifies_twice : ∃ s, (State.init fun _ => true).run
    [.call 0 (.closeWithExitCodeWithoutClosingResource 1), .step 0, .call 1 .failIfClosed,
      .call 2 .failIfClosed,
      .step 1, .step 2, .step 1, .step 2, .step 1, .step 2] = some s ∧ s.used .closeNotifier = 2 ∧
      ¬ Orderly (fun _ => true) s :=
  ⟨_, rfl, rfl, fun h => absurd (h.once .closeNotifier) (by decide)⟩

end Andsifr.Closing
