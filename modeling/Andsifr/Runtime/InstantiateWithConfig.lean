import Mathlib.Data.List.Basic

namespace Andsifr.Runtime

open List

/-- How the module instance was closed: by `CloseWithExitCode`, or by a canceled context or a
timeout, which leaves the resources to `FailIfClosed`. -/
inductive Closed where
  | resourceClosed
  | resourceNotClosed
  deriving DecidableEq

/-- What instantiation touches: the compiled module with its `closeOnce`, the listeners and files
that are open, the fields `Sys` and `CodeCloser` of the instance, and its entries in the store. -/
structure World where
  closeOnce : Bool
  released : Nat
  openFiles : Nat
  closed : Option Closed
  sys : Bool
  codeCloser : Bool
  inModuleList : Bool
  inNameToModule : Bool

inductive GuestEvent where
  | openFile
  | closeWithExitCode
  | canceledOrTimeout
  | failIfClosed
  deriving DecidableEq

/-- How a call ends; `exits` is an exit error with code zero. -/
inductive CallResult where
  | returns
  | exits
  | fails
  deriving DecidableEq

structure GuestCall where
  events : List GuestEvent
  result : CallResult

/-- The configuration, the module and the environment, as far as they decide which step fails. -/
structure Setup where
  runtimeClosed : Bool
  environInvalid : Bool
  listeners : Nat
  listenFails : Bool
  newContextFails : Bool
  named : Bool
  nameTaken : Bool
  linkingFails : Bool
  startSection : GuestCall
  registerFails : Bool
  startFunctions : List GuestCall

namespace World

def closeCompiledModule (w : World) : World :=
  if w.closeOnce then w else { w with closeOnce := true, released := w.released + 1 }

def closeFS (w : World) : World :=
  { w with openFiles := 0 }

def ensureResourcesClosed (w : World) : World :=
  let w := if w.sys then { w.closeFS with sys := false } else w
  if w.codeCloser then { w.closeCompiledModule with codeCloser := false } else w

def deleteModule (w : World) : World :=
  { w with inModuleList := false, inNameToModule := false }

def close (w : World) : World :=
  if w.closed.isSome then w
  else { w.deleteModule with closed := some .resourceClosed }.ensureResourcesClosed

def event (w : World) : GuestEvent → World
  | .openFile => { w with openFiles := w.openFiles + 1 }
  | .closeWithExitCode => w.close
  | .canceledOrTimeout =>
    if w.closed.isSome then w else { w.deleteModule with closed := some .resourceNotClosed }
  | .failIfClosed => if w.closed = some .resourceNotClosed then w.ensureResourcesClosed else w

def call (w : World) (c : GuestCall) : World :=
  c.events.foldl event w

end World

section Source

/-- A step that ends with an error, or the world after it. -/
abbrev Step := Except World World

def toSysContext (s : Setup) (w : World) : Step :=
  if s.environInvalid then .error w
  else if s.listenFails then .error w -- the listeners that were opened are closed again
  else
    let w := { w with openFiles := s.listeners }
    if s.newContextFails then .error w else .ok w

/-- The deferred function closes the instance, which has no hooks yet. -/
def storeInstantiate (s : Setup) (w : World) : Step :=
  let w := { w with sys := true }
  if s.linkingFails then .error w.close
  else
    let w := w.call s.startSection
    if s.startSection.result = .returns then .ok w else .error w.close

def registerModule (s : Setup) (w : World) : Step :=
  if s.registerFails then .error w
  else .ok { w with inModuleList := true, inNameToModule := s.named }

/-- `Store.Instantiate`: the hooks are attached before the module is registered. -/
def instantiate (s : Setup) (w : World) : Step :=
  if s.nameTaken then .error w
  else do
    let w ← storeInstantiate s w
    (registerModule s { w with codeCloser := true }).mapError World.close

def runStartFunctions (w : World) : List GuestCall → Step
  | [] => .ok w
  | c :: cs =>
    match c.result with
    | .returns => runStartFunctions (w.call c) cs
    | .exits => .ok (w.call c).close
    | .fails => .error (w.call c).close

def instantiateModule (s : Setup) (w : World) : Step :=
  if s.runtimeClosed then .error w
  else do
    let w ← toSysContext s w
    Except.mapError World.closeFS do
      let w ← (instantiate s w).mapError World.closeCompiledModule
      runStartFunctions w s.startFunctions

/-- The module is compiled, and nothing else has happened. -/
def instantiateWithConfig (s : Setup) : Step :=
  instantiateModule s ⟨false, 0, 0, none, false, false, false, false⟩

end Source

structure CleanedUp (w : World) : Prop where
  released : w.released = 1
  openFiles : w.openFiles = 0
  inModuleList : w.inModuleList = false
  inNameToModule : w.inNameToModule = false

/-- The first event that closes the module is a canceled context or a timeout, and no `FailIfClosed`
comes after it. -/
def leftUnreleased : List GuestEvent → Bool
  | [] => false
  | .closeWithExitCode :: _ => false
  | .canceledOrTimeout :: es => !es.contains .failIfClosed
  | _ :: es => leftUnreleased es

def closes (e : GuestEvent) : Bool :=
  e = .closeWithExitCode || e = .canceledOrTimeout

/-- The events of the start functions up to and including the one that fails. -/
def eventsUntilFailure : List GuestCall → List GuestEvent
  | [] => []
  | c :: cs => if c.result = .fails then c.events else c.events ++ eventsUntilFailure cs

/-- The steps before the module is linked succeed, and if an exported start function is the one that
fails, the start section has not closed the module and no closing is left to `FailIfClosed`. -/
def Released (s : Setup) : Prop :=
  s.runtimeClosed = false ∧ s.environInvalid = false ∧ s.listenFails = false ∧
    s.newContextFails = false ∧
    (s.nameTaken = true ∨ s.linkingFails = true ∨ s.startSection.result ≠ .returns ∨
      s.registerFails = true ∨
      s.startSection.events.any closes = false ∧ leftUnreleased
        (eventsUntilFailure s.startFunctions) = false)

section Events

variable {w w' : World} {es : List GuestEvent} {e : GuestEvent}

/-- The module is open and has its hooks. -/
structure Live (w : World) : Prop where
  closed : w.closed = none
  hooks : w.sys = true ∧ w.codeCloser = true
  code : w.closeOnce = false ∧ w.released = 0

/-- The module was closed and what it has is left to `FailIfClosed`. -/
structure Pending (w : World) : Prop where
  closed : w.closed = some .resourceNotClosed
  hooks : w.codeCloser = true
  code : w.closeOnce = false ∧ w.released = 0
  store : w.inModuleList = false ∧ w.inNameToModule = false

structure Done (w : World) : Prop where
  closed : w.closed ≠ none
  hooks : w.sys = false ∧ w.codeCloser = false
  code : w.closeOnce = true ∧ w.released = 1
  store : w.inModuleList = false ∧ w.inNameToModule = false

theorem Live.close (h : Live w) : Done w.close := by
  obtain ⟨hclosed, ⟨hsys, hcloser⟩, honce, hreleased⟩ := h
  constructor <;> simp [World.close, World.ensureResourcesClosed, World.deleteModule, World.closeFS,
    World.closeCompiledModule, hclosed, hsys, hcloser, honce, hreleased]

theorem Done.event (h : Done w) : Done (w.event e) := by
  obtain ⟨hclosed, ⟨hsys, hcloser⟩, hcode, hstore⟩ := h
  have hsome := Option.isSome_iff_ne_none.2 hclosed
  cases e with
  | openFile => exact ⟨hclosed, ⟨hsys, hcloser⟩, hcode, hstore⟩
  | closeWithExitCode =>
    rw [World.event, World.close, if_pos hsome]
    exact ⟨hclosed, ⟨hsys, hcloser⟩, hcode, hstore⟩
  | canceledOrTimeout =>
    rw [World.event, if_pos hsome]
    exact ⟨hclosed, ⟨hsys, hcloser⟩, hcode, hstore⟩
  | failIfClosed =>
    have hnone : w.ensureResourcesClosed = w := by simp [World.ensureResourcesClosed, hsys, hcloser]
    rw [World.event, hnone, ite_self]
    exact ⟨hclosed, ⟨hsys, hcloser⟩, hcode, hstore⟩

theorem Done.events (h : Done w) : Done (es.foldl World.event w) := by
  induction es generalizing w with
  | nil => exact h
  | cons e es ih => exact ih h.event

theorem Pending.events (h : Pending w) (es : List GuestEvent) :
    if es.contains .failIfClosed then Done (es.foldl World.event w) else Pending
    (es.foldl World.event w) := by
  induction es generalizing w with
  | nil => exact h
  | cons e es ih =>
    have hsome : w.closed.isSome = true := by rw [h.closed]; rfl
    cases e with
    | openFile => exact ih ⟨h.closed, h.hooks, h.code, h.store⟩
    | closeWithExitCode =>
      have hsame : w.event .closeWithExitCode = w := if_pos hsome
      rw [foldl_cons, hsame]
      exact ih h
    | canceledOrTimeout =>
      have hsame : w.event .canceledOrTimeout = w := if_pos hsome
      rw [foldl_cons, hsame]
      exact ih h
    | failIfClosed =>
      rw [foldl_cons]
      refine Done.events ?_
      obtain ⟨hclosed, hcloser, ⟨honce, hreleased⟩, hlist, hnames⟩ := h
      rw [World.event]
      cases hsys : w.sys <;> constructor <;> simp [World.ensureResourcesClosed, World.closeFS,
        World.closeCompiledModule, hclosed, hsys, hcloser, honce, hreleased, hlist, hnames]

theorem Live.events (h : Live w) (es : List GuestEvent) :
    if leftUnreleased es then Pending (es.foldl World.event w)
    else Live (es.foldl World.event w) ∨ Done (es.foldl World.event w) := by
  induction es generalizing w with
  | nil => exact Or.inl h
  | cons e es ih =>
    cases e with
    | openFile => exact ih ⟨h.closed, h.hooks, h.code⟩
    | closeWithExitCode =>
      have hdone : Done (w.event .closeWithExitCode) := h.close
      exact Or.inr hdone.events
    | canceledOrTimeout =>
      have hpending : Pending (w.event .canceledOrTimeout) := by
        rw [World.event, if_neg (by simp [h.closed])]
        exact ⟨rfl, h.hooks.2, h.code, rfl, rfl⟩
      have hrest := hpending.events es
      rw [leftUnreleased]
      cases hcontains : es.contains .failIfClosed with
      | true =>
        rw [hcontains] at hrest
        exact Or.inr hrest
      | false =>
        rw [hcontains] at hrest
        exact hrest
    | failIfClosed =>
      have hsame : w.event .failIfClosed = w := if_neg (by simp [h.closed])
      rw [foldl_cons, hsame]
      exact ih h

/-- The module has no code closer yet, and is not in the store. -/
structure Unhooked (w : World) : Prop where
  codeCloser : w.codeCloser = false
  code : w.closeOnce = false ∧ w.released = 0
  store : w.inModuleList = false ∧ w.inNameToModule = false

theorem Unhooked.ensureResourcesClosed (h : Unhooked w) : Unhooked w.ensureResourcesClosed := by
  obtain ⟨hcloser, hcode, hstore⟩ := h
  cases hsys : w.sys <;> constructor <;>
    simp [World.ensureResourcesClosed, World.closeFS, hsys, hcloser, hcode, hstore]

theorem Unhooked.close (h : Unhooked w) : Unhooked w.close := by
  rw [World.close]
  split
  · exact h
  · exact Unhooked.ensureResourcesClosed ⟨h.codeCloser, h.code, rfl, rfl⟩

theorem Unhooked.events (h : Unhooked w) (es : List GuestEvent) :
    Unhooked (es.foldl World.event w) := by
  induction es generalizing w with
  | nil => exact h
  | cons e es ih =>
    refine ih ?_
    cases e with
    | openFile => exact ⟨h.codeCloser, h.code, h.store⟩
    | closeWithExitCode => exact h.close
    | canceledOrTimeout =>
      rw [World.event]
      split
      · exact h
      · exact ⟨h.codeCloser, h.code, rfl, rfl⟩
    | failIfClosed =>
      rw [World.event]
      split
      · exact h.ensureResourcesClosed
      · exact h

theorem closed_ensureResourcesClosed (w : World) : w.ensureResourcesClosed.closed = w.closed := by
  cases hsys : w.sys <;> cases hcloser : w.codeCloser <;> cases honce : w.closeOnce <;>
    simp [World.ensureResourcesClosed, World.closeFS, World.closeCompiledModule, hsys,
      hcloser, honce]

theorem inModuleList_ensureResourcesClosed (w : World) :
    w.ensureResourcesClosed.inModuleList = w.inModuleList := by
  cases hsys : w.sys <;> cases hcloser : w.codeCloser <;> cases honce : w.closeOnce <;>
    simp [World.ensureResourcesClosed, World.closeFS, World.closeCompiledModule, hsys,
      hcloser, honce]

theorem stays_closed (h : w.closed.isSome = true) :
    (w.event e).closed = w.closed ∧ (w.event e).inModuleList = w.inModuleList := by
  cases e with
  | openFile => exact ⟨rfl, rfl⟩
  | closeWithExitCode => rw [World.event, World.close, if_pos h]; exact ⟨rfl, rfl⟩
  | canceledOrTimeout => rw [World.event, if_pos h]; exact ⟨rfl, rfl⟩
  | failIfClosed =>
    rw [World.event]
    split
    · exact ⟨closed_ensureResourcesClosed w, inModuleList_ensureResourcesClosed w⟩
    · exact ⟨rfl, rfl⟩

theorem stays_closed_events (es : List GuestEvent) (h : w.closed.isSome = true) :
    (es.foldl World.event w).closed = w.closed ∧
    (es.foldl World.event w).inModuleList = w.inModuleList := by
  induction es generalizing w with
  | nil => exact ⟨rfl, rfl⟩
  | cons e es ih =>
    obtain ⟨hclosed, hlist⟩ := stays_closed h
    obtain ⟨hclosed', hlist'⟩ := ih (hclosed ▸ h)
    exact ⟨hclosed'.trans hclosed, hlist'.trans hlist⟩

theorem open_events (es : List GuestEvent) (h : w.closed = none) (hsys : w.sys = true) :
    if es.any closes then (es.foldl World.event w).closed.isSome = true
    else (es.foldl World.event w).closed = none ∧ (es.foldl World.event w).sys = true := by
  induction es generalizing w with
  | nil => exact ⟨h, hsys⟩
  | cons e es ih =>
    cases e with
    | openFile => exact ih h hsys
    | failIfClosed =>
      have hsame : w.event .failIfClosed = w := if_neg (by simp [h])
      rw [foldl_cons, hsame]
      exact ih h hsys
    | closeWithExitCode =>
      have hclosed : (w.event .closeWithExitCode).closed.isSome = true := by
        rw [World.event, World.close, if_neg (by simp [h]), closed_ensureResourcesClosed]
        rfl
      rw [foldl_cons, (stays_closed_events es hclosed).1]
      exact hclosed
    | canceledOrTimeout =>
      have hclosed : (w.event .canceledOrTimeout).closed.isSome = true := by
        rw [World.event, if_neg (by simp [h])]
        rfl
      rw [foldl_cons, (stays_closed_events es hclosed).1]
      exact hclosed

theorem runStartFunctions_error {cs : List GuestCall} (h : runStartFunctions w cs = .error w') :
    w' = ((eventsUntilFailure cs).foldl World.event w).close := by
  induction cs generalizing w with
  | nil => cases h
  | cons c cs ih =>
    rw [runStartFunctions] at h
    cases hresult : c.result with
    | returns =>
      rw [hresult] at h
      rw [eventsUntilFailure, hresult, if_neg (by decide), foldl_append]
      exact ih h
    | exits =>
      rw [hresult] at h
      cases h
    | fails =>
      rw [hresult] at h
      cases h
      rw [eventsUntilFailure, hresult]
      rfl

end Events

section Store

variable {s : Setup} {w v : World}

theorem cleanedUp_closeCompiledModule
    (hcode : w.closeOnce = false ∧ w.released = 0 ∨ w.closeOnce = true ∧ w.released = 1)
    (hstore : w.inModuleList = false ∧ w.inNameToModule = false) :
    CleanedUp w.closeCompiledModule.closeFS := by
  rcases hcode with ⟨honce, hreleased⟩ | ⟨honce, hreleased⟩ <;>
    constructor <;> simp [World.closeCompiledModule, World.closeFS, honce, hreleased, hstore]

theorem close_of_closed (h : w.closed.isSome = true) : w.close = w :=
  if_pos h

theorem cleanedUp_register (hw : Unhooked w) {closes : Bool}
    (hopen : if closes then w.closed.isSome = true else w.closed = none ∧ w.sys = true) :
    CleanedUp (World.close { w with codeCloser := true }).closeCompiledModule.closeFS := by
  cases closes with
  | true =>
    rw [close_of_closed (w := { w with codeCloser := true }) hopen]
    exact cleanedUp_closeCompiledModule (.inl hw.code) hw.store
  | false =>
    have hdone : Done (World.close { w with codeCloser := true }) :=
      Live.close ⟨hopen.1, ⟨hopen.2, rfl⟩, hw.code⟩
    exact cleanedUp_closeCompiledModule (.inr hdone.code) hdone.store

theorem cleanedUp_instantiate (hw : Unhooked w) (hnone : w.closed = none)
    (h : instantiate s w = .error v) :
    CleanedUp v.closeCompiledModule.closeFS := by
  have hsys : Unhooked { w with sys := true } := ⟨hw.codeCloser, hw.code, hw.store⟩
  have hcall : Unhooked ({ w with sys := true }.call s.startSection) := hsys.events _
  rw [instantiate] at h
  split at h
  · cases h
    exact cleanedUp_closeCompiledModule (.inl hw.code) hw.store
  rw [storeInstantiate] at h
  split at h
  · cases h
    exact cleanedUp_closeCompiledModule (.inl hsys.close.code) hsys.close.store
  split at h
  · simp only [registerModule] at h
    split at h
    · cases h
      exact cleanedUp_register hcall (open_events s.startSection.events hnone rfl)
    · cases h
  · cases h
    exact cleanedUp_closeCompiledModule (.inl hcall.close.code) hcall.close.store

theorem instantiate_ok (h : instantiate s w = .ok v) :
    s.nameTaken = false ∧ s.linkingFails = false ∧ s.startSection.result = .returns ∧
      s.registerFails = false ∧
      v = { { w with sys := true }.call s.startSection with
        codeCloser := true, inModuleList := true, inNameToModule := s.named } := by
  rw [instantiate] at h
  split at h
  · cases h
  rw [storeInstantiate] at h
  split at h
  · cases h
  split at h
  · simp only [registerModule] at h
    split at h
    · cases h
    · rename_i hname hlinking hstart hregister
      cases h
      exact ⟨by simpa using hname, by simpa using hlinking, hstart,
        by simpa using hregister, rfl⟩
  · cases h

theorem cleanedUp_startFunctions_iff (hw : Unhooked w) (hnone : w.closed = none)
    (hsys : w.sys = true)
    (es fs : List GuestEvent) (named : Bool) :
    CleanedUp (fs.foldl World.event { es.foldl World.event w with
        codeCloser := true, inModuleList := true, inNameToModule := named }).close.closeFS ↔
      es.any closes = false ∧ leftUnreleased fs = false := by
  have hopen := open_events es hnone hsys
  have hunhooked := hw.events es
  generalize es.foldl World.event w = u at hopen hunhooked
  generalize hv : { u with codeCloser := true, inModuleList := true, inNameToModule := named } = v
  split at hopen
  · rename_i hcloses
    have hclosed : v.closed.isSome = true := hv ▸ hopen
    obtain ⟨hclosed', hlist⟩ := stays_closed_events fs hclosed
    rw [close_of_closed (hclosed' ▸ hclosed), hcloses]
    constructor
    · intro h
      have hlisted := hlist.symm.trans h.inModuleList
      rw [← hv] at hlisted
      cases hlisted
    · exact fun h => absurd h.1 (by decide)
  · rename_i hcloses
    have hlive : Live v := hv ▸ ⟨hopen.1, ⟨hopen.2, rfl⟩, hunhooked.code⟩
    have hevents := hlive.events fs
    rw [(Bool.not_eq_true _).mp hcloses]
    cases hleft : leftUnreleased fs with
    | true =>
      rw [hleft] at hevents
      have hpending : Pending (fs.foldl World.event v) := hevents
      rw [close_of_closed (by rw [hpending.closed]; rfl)]
      exact ⟨fun h => absurd (hpending.code.2.symm.trans h.released) (by decide), fun h =>
        absurd h.2 (by decide)⟩
    | false =>
      rw [hleft] at hevents
      have hdone : Done (fs.foldl World.event v).close := by
        rcases hevents with hlive | hdone
        · exact hlive.close
        · rw [close_of_closed (Option.isSome_iff_ne_none.2 hdone.closed)]
          exact hdone
      exact ⟨fun _ => ⟨rfl, rfl⟩, fun _ => ⟨hdone.code.2, rfl, hdone.store.1, hdone.store.2⟩⟩

/-- Nothing is left of an instance that fails in the store or in its start functions. -/
theorem cleanedUp_linked_iff (hw : Unhooked w) (hnone : w.closed = none)
    (h : Except.mapError World.closeFS (do
      let w ← (instantiate s w).mapError World.closeCompiledModule
      runStartFunctions w s.startFunctions) = .error v) :
    CleanedUp v ↔ s.nameTaken = true ∨ s.linkingFails = true ∨ s.startSection.result ≠ .returns ∨
      s.registerFails = true ∨
      s.startSection.events.any closes = false ∧ leftUnreleased
      (eventsUntilFailure s.startFunctions) = false := by
  cases hinst : instantiate s w with
  | error u =>
    rw [hinst] at h
    cases h
    refine iff_of_true (cleanedUp_instantiate hw hnone hinst) ?_
    by_contra hnot
    simp only [not_or, not_not, Bool.not_eq_true] at hnot
    obtain ⟨hname, hlinking, hstart, hregister, -⟩ := hnot
    simp [instantiate, storeInstantiate, registerModule, hname, hlinking, hstart, hregister,
      Except.mapError, bind, Except.bind] at hinst
  | ok u =>
    obtain ⟨hname, hlinking, hstart, hregister, hu⟩ := instantiate_ok hinst
    have hsys : Unhooked { w with sys := true } := ⟨hw.codeCloser, hw.code, hw.store⟩
    rw [hinst] at h
    cases hrun : runStartFunctions u s.startFunctions with
    | ok => simp [Except.mapError, bind, Except.bind, hrun] at h
    | error u' =>
      simp only [Except.mapError, bind, Except.bind, hrun, Except.error.injEq] at h
      rw [← h, runStartFunctions_error hrun, hu]
      simp only [hname, hlinking, hstart, hregister, Bool.false_eq_true, ne_eq, not_true_eq_false,
        false_or]
      exact cleanedUp_startFunctions_iff hsys hnone rfl _ _ _

end Store

/-- If `InstantiateWithConfig` returns an error after the module was compiled, everything is
released exactly if the steps before linking succeed, and a start function that fails finds the
module open or closed with all it has. -/
theorem instantiateWithConfig_cleansUp_iff (s : Setup) {w : World}
    (h : instantiateWithConfig s = .error w) :
    CleanedUp w ↔ Released s := by
  have hleaks {v : World} {p : Prop} (hv : v.released = 0) (hp : ¬ p) : CleanedUp v ↔ p :=
    iff_of_false (fun hclean => absurd (hv.symm.trans hclean.released) (by decide)) hp
  rw [instantiateWithConfig, instantiateModule, toSysContext] at h
  rw [Released]
  cases hclosed : s.runtimeClosed <;> rw [hclosed] at h
  case true =>
    cases h
    exact hleaks rfl (by simp)
  cases henviron : s.environInvalid <;> rw [henviron] at h
  case true =>
    cases h
    exact hleaks rfl (by simp)
  cases hlisten : s.listenFails <;> rw [hlisten] at h
  case true =>
    cases h
    exact hleaks rfl (by simp)
  cases hcontext : s.newContextFails <;> rw [hcontext] at h
  case true =>
    cases h
    exact hleaks rfl (by simp)
  simp only [true_and]
  exact cleanedUp_linked_iff
    ⟨rfl, ⟨rfl, rfl⟩, rfl, rfl⟩ rfl h

/-- The start function opens a file and traps while a listener is open. -/
def startTraps : Setup :=
  ⟨false, false, 1, false, false, true, false, false, ⟨[], .returns⟩, false,
    [⟨[.openFile], .fails⟩]⟩

theorem instantiateWithConfig_cleansUp_trap :
    ∃ w, instantiateWithConfig startTraps = .error w ∧ CleanedUp w := by
  have hs : Released startTraps := ⟨rfl, rfl, rfl, rfl, .inr (.inr (.inr (.inr ⟨rfl, rfl⟩)))⟩
  exact ⟨_, rfl, (instantiateWithConfig_cleansUp_iff startTraps rfl).2 hs⟩

/-- With an invalid environment the compiled module is never released. -/
theorem invalid_environ_leaks :
    ∃ w, instantiateWithConfig ⟨false, true, 0, false, false, false, false, false,
      ⟨[], .returns⟩, false, []⟩ =
      .error w ∧ w.released = 0 ∧ ¬ CleanedUp w :=
  ⟨_, rfl, rfl, fun h => absurd h.released (by decide)⟩

end Andsifr.Runtime
