import Andsifr.CallEngine.Machine
import Andsifr.Frontend.Body

namespace Andsifr.CallEngine

open Wasm Frontend Relation List Option

noncomputable def blockFacts (f : CompiledFunction) : BlockID → Facts :=
  f.exists_sound.choose

theorem sound_blockFacts (f : CompiledFunction) : ∃ height, f.Sound (blockFacts f) height :=
  f.exists_sound.choose_spec

variable {V : Type*}

def Frame.At (frame : Frame V) (a : Facts) : Prop :=
  frame.function.FactsAt (blockFacts frame.function) frame.position a

section

variable {frame entered : Frame V} {callers frames : List (Frame V)} {h : TryHandler V}
  {own outer handlers : List (TryHandler V)} {a a' : Facts} {i : Inst} {depth : Nat}

theorem Frame.At.unique (ha : frame.At a) (ha' : frame.At a') : a = a' :=
  some_injective _ (ha.symm.trans ha')

theorem Frame.At.ok (ha : frame.At a) (hi : frame.inst = some i) :
    a.Ok frame.function.compiler frame.function.body (blockFacts frame.function) i := by
  obtain ⟨height, hs⟩ := sound_blockFacts frame.function
  exact hs.ok ha hi

theorem Frame.At.allows (ha : frame.At a) (hi : frame.inst = some i) :
    a.Allows frame.function.compiler frame.function.body (blockFacts frame.function) i :=
  (ha.ok hi).2.2

theorem Frame.At.next (ha : frame.At a) (hi : frame.inst = some i)
    (hafter : a.after i = some a') : frame.next.At a' :=
  CompiledFunction.FactsAt.next ha hi hafter

theorem Frame.at_goTo {b : BlockID} : (frame.goTo ⟨b, 0⟩).At (blockFacts frame.function b) :=
  CompiledFunction.factsAt_zero

theorem Frame.at_entry {id : Nat} {function : CompiledFunction} {args : Index → V} :
    (⟨id, function, ⟨entryBlock, 0⟩, args⟩ : Frame V).At { depth := 0 } := by
  obtain ⟨height, hsound⟩ := sound_blockFacts function
  exact hsound.entry ▸ CompiledFunction.factsAt_zero

/-- The handler was pushed by the frame, when the frame had `depth` other handlers. -/
structure Entered (frame : Frame V) (callers : List (Frame V)) (depth : Nat) (h : TryHandler V)
    (entered : Frame V) (info : TryTableInfo) (blocks : List BlockID) : Prop where
  stack : h.stack = entered :: callers
  id : entered.id = frame.id
  function : entered.function = frame.function
  inst : ∃ body, entered.inst = some (.tryTableEnter info blocks body)
  facts : ∃ a, entered.At a ∧ a.depth = depth
  catchClauses : h.catchClauses = info.catchClauses
  localsSaveArea : h.localsSaveArea.isSome = (0 < info.numLocals && !info.reuseLocals)

/-- The handlers of a frame, innermost first. -/
def Owned (frame : Frame V) (callers : List (Frame V)) : List (TryHandler V) → Prop
  | [] => True
  | h :: own =>
    (∃ entered info blocks, Entered frame callers own.length h entered info blocks) ∧
      Owned frame callers own

/-- The handlers of the frames below the running one: as many for each frame as the code at its
position expects. -/
def Suspended : List (Frame V) → List (TryHandler V) → Prop
  | [], handlers => handlers = []
  | frame :: callers, handlers => ∃ own outer a, handlers = own ++ outer ∧
      Owned frame callers own ∧ frame.At a ∧ a.depth = own.length ∧ a.Clean ∧
      Suspended callers outer

def Stacked : List (Frame V) → List (TryHandler V) → Prop
  | [], handlers => handlers = []
  | frame :: callers, handlers => ∃ own outer a, handlers = own ++ outer ∧
      Owned frame callers own ∧ frame.At a ∧ a.depth = own.length ∧ Suspended callers outer

theorem Owned.congr {frame' : Frame V} (ho : Owned frame callers own)
    (hid : frame'.id = frame.id) (hfunction : frame'.function = frame.function) :
    Owned frame' callers own := by
  induction own with
  | nil => trivial
  | cons h own ih =>
    obtain ⟨⟨entered, info, blocks, he⟩, ho⟩ := ho
    exact ⟨⟨entered, info, blocks, { he with
      id := he.id.trans hid.symm
      function := he.function.trans hfunction.symm }⟩, ih ho⟩

theorem Suspended.stacked (hs : Suspended frames handlers) : Stacked frames handlers := by
  cases frames with
  | nil => exact hs
  | cons frame callers =>
    obtain ⟨own, outer, a, heq, ho, ha, hdepth, -, hs⟩ := hs
    exact ⟨own, outer, a, heq, ho, ha, hdepth, hs⟩

theorem Owned.owner (ho : Owned frame callers own) {h : TryHandler V} (hh : h ∈ own) :
    h.owner = some frame.id := by
  induction own with
  | nil => simp at hh
  | cons h' own ih =>
    obtain rfl | hh := mem_cons.1 hh
    · obtain ⟨⟨entered, info, blocks, he⟩, -⟩ := ho
      simp [TryHandler.owner, he.stack, he.id]
    · exact ih ho.2 hh

theorem Suspended.owner (hs : Suspended frames handlers) {h : TryHandler V}
    (hh : h ∈ handlers) : ∃ frame ∈ frames, h.owner = some frame.id := by
  induction frames generalizing handlers with
  | nil =>
    obtain rfl : handlers = [] := hs
    simp at hh
  | cons frame callers ih =>
    obtain ⟨own, outer, a, rfl, ho, -, -, -, hs⟩ := hs
    obtain hh | hh := mem_append.1 hh
    · exact ⟨frame, by simp, ho.owner hh⟩
    · obtain ⟨frame', hmem, howner⟩ := ih hs hh
      exact ⟨frame', by simp [hmem], howner⟩

/-- A handler that catches an exception: the frame it belongs to, and what remains below. -/
structure Catching (frames : List (Frame V)) (h : TryHandler V) (below : List (TryHandler V))
    (frame : Frame V) (callers : List (Frame V)) (own outer : List (TryHandler V)) : Prop where
  frames : frame :: callers <:+ frames
  below : below = own ++ outer
  entered : ∃ entered info blocks, Entered frame callers own.length h entered info blocks
  owned : Owned frame callers own
  facts : ∃ a, frame.At a ∧ a.Clean ∧ 0 < a.depth
  suspended : Suspended callers outer

theorem Suspended.catching {tag clauseIdx : Nat} {below : List (TryHandler V)}
    (hs : Suspended frames handlers)
    (hsearch : searchHandlers tag handlers = some (h, clauseIdx, below)) :
    ∃ frame callers own outer, Catching frames h below frame callers own outer := by
  induction frames generalizing handlers with
  | nil =>
    obtain rfl : handlers = [] := hs
    cases hsearch
  | cons frame callers ih =>
    obtain ⟨own, outer, a, rfl, ho, ha, hdepth, hclean, hs⟩ := hs
    replace hdepth : own.length ≤ a.depth := hdepth.ge
    induction own with
    | nil =>
      obtain ⟨frame', callers', own', outer', hc⟩ := ih hs hsearch
      exact ⟨frame', callers', own', outer', { hc with
        frames := hc.frames.trans (suffix_cons _ _) }⟩
    | cons h' own ihown =>
      rw [cons_append, searchHandlers] at hsearch
      split at hsearch
      next =>
        cases hsearch
        exact ⟨frame, callers, own, outer, suffix_refl _, rfl, ho.1, ho.2,
          ⟨a, ha, hclean, Nat.zero_lt_of_lt hdepth⟩, hs⟩
      next => exact ihown hsearch ho.2 (Nat.le_of_succ_le hdepth)

theorem Entered.handler {info : TryTableInfo} {blocks : List BlockID} {clauseIdx : Nat}
    {b : BlockID} (he : Entered frame callers depth h entered info blocks)
    (hb : blocks[clauseIdx]? = some b) :
    blockFacts entered.function b =
      { depth, stale := { x | x < frame.function.compiler.numLocals } } := by
  obtain ⟨body, hi⟩ := he.inst
  obtain ⟨a, ha, hdepth⟩ := he.facts
  obtain ⟨-, -, -, -, hblocks, -⟩ := ha.allows hi
  rw [hblocks b (mem_of_getElem? hb), hdepth, he.function]

theorem Entered.resume {info : TryTableInfo} {blocks : List BlockID} {clauseIdx : Nat}
    {stack : List (Frame V)} (he : Entered frame callers depth h entered info blocks)
    (hresume : CallEngine.resume clauseIdx h.stack = some stack) :
    ∃ b, blocks[clauseIdx]? = some b ∧ stack = entered.goTo ⟨b, 0⟩ :: callers := by
  obtain ⟨body, hi⟩ := he.inst
  rw [he.stack, CallEngine.resume, hi] at hresume
  obtain ⟨b, hb, rfl⟩ := map_eq_some_iff.1 hresume
  exact ⟨b, hb, rfl⟩

end

/-- What holds of the call engine as long as no `br_table` leaves a handler behind. -/
structure Orderly (s : State V) : Prop where
  stacked : Stacked s.stack s.tryHandlers
  distinct : (s.stack.map Frame.id).Nodup
  fresh : ∀ frame ∈ s.stack, frame.id < s.nextId

section

variable {L : Linking} {s s' : State V} {frame : Frame V} {callers : List (Frame V)}
  {own outer : List (TryHandler V)} {a a' : Facts} {i : Inst}

theorem Orderly.running (h : Orderly s) (hstack : s.stack = frame :: callers) :
    ∃ own outer a, s.tryHandlers = own ++ outer ∧ Owned frame callers own ∧ frame.At a ∧
      a.depth = own.length ∧ Suspended callers outer := by
  have hs := h.stacked
  rw [hstack] at hs
  exact hs

theorem Orderly.pushed_eq (h : Orderly s) (hstack : s.stack = frame :: callers)
    (ha : frame.At a) : s.pushed frame.id = a.depth := by
  obtain ⟨own, outer, a', heq, ho, ha', hdepth, hs⟩ := h.running hstack
  obtain rfl := ha.unique ha'
  have hdistinct := h.distinct
  rw [hstack, map_cons, nodup_cons] at hdistinct
  have hown : own.countP (·.owner = some frame.id) = own.length :=
    countP_eq_length.2 fun h hh => by simpa using ho.owner hh
  have houter : outer.countP (·.owner = some frame.id) = 0 := by
    refine countP_eq_zero.2 fun h hh => ?_
    obtain ⟨frame', hmem, howner⟩ := hs.owner hh
    have hne : frame'.id ≠ frame.id := fun heq =>
      hdistinct.1 (heq ▸ mem_map_of_mem hmem)
    simpa [howner] using hne
  rw [State.pushed, heq, countP_append, hown, houter, hdepth, add_zero]

theorem Orderly.balanced (h : Orderly s) : s.Balanced := by
  intro frame callers hstack
  obtain ⟨own, outer, a, -, -, ha, -, -⟩ := h.running hstack
  rw [h.pushed_eq hstack ha]
  exact ⟨fun pc hi => (ha.allows hi).1, fun hi => ha.allows hi, fun callee hi => (ha.allows hi).1⟩

theorem Frame.At.setLocal {index : Index} {value : V} (ha : frame.At a) :
    (frame.setLocal index value).At a :=
  ha

theorem Orderly.of_sublist (h : Orderly s) (hstacked : Stacked s'.stack s'.tryHandlers)
    (hids : (s'.stack.map Frame.id).Sublist (s.stack.map Frame.id)) (hnext : s'.nextId = s.nextId) :
    Orderly s' where
  stacked := hstacked
  distinct := hids.nodup h.distinct
  fresh := by
    intro f hf
    obtain ⟨f', hf', hid⟩ := mem_map.1 (hids.subset (mem_map_of_mem hf))
    rw [hnext, ← hid]
    exact h.fresh f' hf'

theorem Orderly.goOn {frame' : Frame V} (h : Orderly s) (hstack : s.stack = frame :: callers)
    (hstack' : s'.stack = frame' :: callers) (hid : frame'.id = frame.id)
    (hfunction : frame'.function = frame.function) (hhandlers : s'.tryHandlers = s.tryHandlers)
    (hnext : s'.nextId = s.nextId)
    (hfacts : ∀ a, frame.At a → ∃ a', frame'.At a' ∧ a'.depth = a.depth) : Orderly s' := by
  obtain ⟨own, outer, a, heq, ho, ha, hdepth, hs⟩ := h.running hstack
  obtain ⟨a', ha', hdepth'⟩ := hfacts a ha
  refine h.of_sublist ?_ ?_ hnext
  · rw [hstack', hhandlers, heq]
    exact ⟨own, outer, a', rfl, ho.congr hid hfunction, ha', hdepth'.trans hdepth, hs⟩
  · rw [hstack, hstack', map_cons, hid]
    exact .refl _

/-- Two points of a function with the same handlers and the same locals to store and to reload. -/
structure SameFacts (a a' : Facts) : Prop where
  depth : a'.depth = a.depth
  dirty : a'.dirty = a.dirty
  stale : a'.stale = a.stale

theorem sameFacts_of_enters (h : a.Enters a') : SameFacts a a' :=
  ⟨h.depth, h.dirty, h.stale⟩

theorem exists_after_of_advances {a : Facts} (hi : advances i = true) :
    ∃ a', a.after i = some a' ∧ SameFacts a a' := by
  cases i with
  | call callee | tailCall callee => exact ⟨a, rfl, rfl, rfl, rfl⟩
  | sourceOffset | plain | callListener | terminationCheck | checkModuleExitCode | brz | brnz =>
    exact ⟨_, rfl, rfl, rfl, rfl⟩
  | _ => cases hi

/-- A branch arrives with the facts it left with, unless it leaves handlers behind. -/
theorem sameFacts_of_allows {c : Compiler} {body : List Instruction}
    {facts : BlockID → Facts} {target : BlockID} (h : a.Allows c body facts i)
    (hbranch : i.isBranch = true) (ht : target ∈ i.targets)
    (hexit : ∀ t pc, i = .jump t pc → defaultExits body pc = false) :
    SameFacts a (facts target) := by
  cases i with
  | jump t pc =>
    obtain rfl : target = t := by simpa [Inst.targets] using ht
    simp only [Facts.Allows, hexit target pc rfl] at h
    exact sameFacts_of_enters h
  | brz t pc | brnz t pc =>
    obtain rfl : target = t := by simpa [Inst.targets] using ht
    exact sameFacts_of_enters h
  | brTable targets pc => exact sameFacts_of_enters (h target ht)
  | _ => simp [Inst.isBranch] at hbranch

theorem Frame.At.branch {target : BlockID} (ha : frame.At a) (hstack : s.stack = frame :: callers)
    (hi : frame.inst = some i) (hbranch : i.isBranch = true) (ht : target ∈ i.targets)
    (hexit : ¬ s.ExitsByDefault) : SameFacts a (blockFacts frame.function target) := by
  refine sameFacts_of_allows (ha.allows hi) hbranch ht ?_
  rintro t pc rfl
  by_contra hbad
  exact hexit ⟨frame, callers, t, pc, hstack, hi, by simpa using hbad⟩

theorem Orderly.pushFrame {function : CompiledFunction} {args : Index → V}
    (h : Orderly s) {frames : List (Frame V)} (hframes : Suspended frames s.tryHandlers)
    (hids : (frames.map Frame.id).Sublist (s.stack.map Frame.id)) :
    Orderly (s.pushFrame function args frames) := by
  have hold : ∀ id ∈ frames.map Frame.id, id < s.nextId := by
    intro id hid
    obtain ⟨f, hf, rfl⟩ := mem_map.1 (hids.subset hid)
    exact h.fresh f hf
  refine ⟨⟨[], s.tryHandlers, { depth := 0 }, rfl, trivial, Frame.at_entry, rfl, hframes⟩, ?_, ?_⟩
  · exact nodup_cons.2 ⟨fun hmem => lt_irrefl _ (hold _ hmem), hids.nodup h.distinct⟩
  · intro f hf
    obtain rfl | hf := mem_cons.1 hf
    · exact Nat.lt_succ_self _
    · exact (hold f.id (mem_map_of_mem hf)).trans (Nat.lt_succ_self _)

theorem tryHandlers_tryTableEnter {moduleTags : Index → Nat} {info : TryTableInfo} :
    ∃ area, (s.tryTableEnter moduleTags info frame callers).tryHandlers =
        ⟨frame :: callers, info.catchClauses, moduleTags, area⟩ :: s.tryHandlers ∧
      area.isSome = (0 < info.numLocals && !info.reuseLocals) := by
  unfold State.tryTableEnter
  split
  next h => exact ⟨_, rfl, by simpa using h⟩
  next h => exact ⟨_, rfl, by simpa using h⟩

theorem nextId_tryTableEnter {moduleTags : Index → Nat} {info : TryTableInfo} :
    (s.tryTableEnter moduleTags info frame callers).nextId = s.nextId := by
  unfold State.tryTableEnter
  split <;> rfl

theorem tryTableLeave_cons {h : TryHandler V} {below : List (TryHandler V)}
    (hh : s.tryHandlers = h :: below) :
    s.tryTableLeave = { s with
      tryHandlers := below
      localsSaveAreaPtr := restoreLocalsSaveAreaPtr below
      caughtBy := none } := by
  unfold State.tryTableLeave
  rw [hh]

theorem doHandleException_eq_some {tag : Nat} (h : s.doHandleException tag = some s') :
    ∃ handler clauseIdx below stack, searchHandlers tag s.tryHandlers =
        some (handler, clauseIdx, below) ∧ resume clauseIdx handler.stack = some stack ∧
      s' = { s with
        stack
        tryHandlers := below
        localsSaveAreaPtr := restoreLocalsSaveAreaPtr (handler :: below)
        caughtBy := handler.localsSaveArea.bind fun _ => handler.owner } := by
  obtain ⟨⟨handler, clauseIdx, below⟩, hsearch, h⟩ := bind_eq_some_iff.1 h
  obtain ⟨stack, hresume, h⟩ := bind_eq_some_iff.1 h
  cases h
  exact ⟨handler, clauseIdx, below, stack, hsearch, hresume, rfl⟩

/-- One step keeps the handlers in order, unless it leaves some behind. -/
theorem Orderly.step (h : Orderly s) (hstep : Step L s s') (hexit : ¬ s.ExitsByDefault) :
    Orderly s' := by
  cases hstep with
  | advance hstack hi hadvances =>
    refine h.goOn hstack rfl rfl rfl rfl rfl fun a ha => ?_
    obtain ⟨a', hafter, hsame⟩ := exists_after_of_advances hadvances
    exact ⟨a', ha.next hi hafter, hsame.depth⟩
  | branch hstack hi hbranch htarget =>
    refine h.goOn hstack rfl rfl rfl rfl rfl fun a ha => ⟨_, Frame.at_goTo, ?_⟩
    exact (ha.branch hstack hi hbranch htarget hexit).depth
  | @defineVariable frame callers index hstack hi value =>
    refine h.goOn hstack rfl rfl rfl rfl rfl fun a ha => ?_
    refine ⟨_, (ha.next hi rfl).setLocal, ?_⟩
    split <;> rfl
  | storeLocal hstack hi harea =>
    exact h.goOn hstack rfl rfl rfl rfl rfl fun a ha => ⟨_, ha.next hi rfl, rfl⟩
  | reloadLocal hstack hi harea =>
    exact h.goOn hstack rfl rfl rfl rfl rfl fun a ha => ⟨_, (ha.next hi rfl).setLocal, rfl⟩
  | @call frame callers callee function hstack hi hcalls args =>
    obtain ⟨own, outer, a, heq, ho, ha, hdepth, hs⟩ := h.running hstack
    have hnext : frame.next.At a ∧ a.Clean := by
      obtain hi | hi := hi
      · exact ⟨ha.next hi rfl, ha.allows hi⟩
      · exact ⟨ha.next hi rfl, (ha.allows hi).2.1⟩
    refine h.pushFrame ⟨own, outer, a, heq, ho.congr rfl rfl, hnext.1, hdepth, hnext.2, hs⟩ ?_
    rw [hstack]
    exact .refl _
  | @tailCall frame callers callee function hstack hi hcalls args =>
    obtain ⟨own, outer, a, heq, ho, ha, hdepth, hs⟩ := h.running hstack
    have hzero : own = [] := by
      rw [← length_eq_zero_iff, ← hdepth]
      exact (ha.allows hi).1
    refine h.pushFrame ?_ ?_
    · rw [heq, hzero]
      exact hs
    · rw [hstack]
      exact sublist_cons_self _ _
  | @enter frame callers info blocks body hstack hi =>
    obtain ⟨own, outer, a, heq, ho, ha, hdepth, hs⟩ := h.running hstack
    obtain ⟨-, -, -, -, -, hbody⟩ := ha.allows hi
    obtain ⟨area, hhandlers, harea⟩ := @tryHandlers_tryTableEnter V s frame callers
      (L.tags frame.function) info
    refine h.of_sublist ⟨⟨frame :: callers, info.catchClauses, L.tags frame.function, area⟩ :: own,
      outer, _, ?_, ⟨⟨frame, info, blocks, ?_⟩, ho.congr rfl rfl⟩, Frame.at_goTo, ?_, hs⟩ ?_
      nextId_tryTableEnter
    · exact hhandlers.trans (by rw [heq]; rfl)
    · exact ⟨rfl, rfl, rfl, ⟨body, hi⟩, ⟨a, ha, hdepth⟩, rfl, harea⟩
    · rw [hbody, length_cons, ← hdepth]
    · rw [hstack]
      exact .refl _
  | @leave frame callers hstack hi =>
    obtain ⟨own, outer, a, heq, ho, ha, hdepth, hs⟩ := h.running hstack
    cases own with
    | nil =>
      have := (ha.allows hi).1
      simp [hdepth] at this
    | cons hh own =>
      rw [tryTableLeave_cons heq]
      refine h.of_sublist ⟨own, outer, _, rfl, ho.2.congr rfl rfl, ha.next hi rfl, ?_, hs⟩ ?_ rfl
      · simp [hdepth]
      · rw [hstack]
        exact .refl _
  | @caught _ frame callers tag hstack hi hcaught =>
    obtain ⟨own, outer, a, heq, ho, ha, hdepth, hs⟩ := h.running hstack
    have hall : Suspended s.stack s.tryHandlers := by
      rw [hstack]
      exact ⟨own, outer, a, heq, ho, ha, hdepth, ha.allows hi, hs⟩
    obtain ⟨handler, clauseIdx, below, stack, hsearch, hresume, rfl⟩ :=
      doHandleException_eq_some hcaught
    obtain ⟨catcher, callers', own', outer', hc⟩ := hall.catching hsearch
    obtain ⟨entered, info, blocks, he⟩ := hc.entered
    obtain ⟨b, hb, rfl⟩ := he.resume hresume
    refine h.of_sublist ⟨own', outer', _, hc.below, hc.owned.congr he.id he.function,
      Frame.at_goTo, ?_, hc.suspended⟩ ?_ rfl
    · rw [he.handler hb]
    · have hids := (hc.frames.map Frame.id).sublist
      rwa [map_cons, ← he.id] at hids
  | @ret frame callers hstack hi =>
    obtain ⟨own, outer, a, heq, ho, ha, hdepth, hs⟩ := h.running hstack
    have hzero : own = [] := by
      rw [← length_eq_zero_iff, ← hdepth]
      exact ha.allows hi
    refine h.of_sublist ?_ ?_ rfl
    · rw [heq, hzero]
      exact hs.stacked
    · rw [hstack]
      exact sublist_cons_self _ _

theorem Orderly.exists_unbalanced (h : Orderly s) (hexit : s.ExitsByDefault) :
    ∃ s', Step L s s' ∧ ¬ s'.Balanced := by
  obtain ⟨frame, callers, target, pc, hstack, hi, hbad⟩ := hexit
  refine ⟨_, .branch hstack hi rfl (mem_singleton_self target), fun hbalanced => ?_⟩
  obtain ⟨own, outer, a, -, -, ha, -, -⟩ := h.running hstack
  obtain ⟨height, hsound⟩ := sound_blockFacts frame.function
  have hallows := ha.allows hi
  simp only [Facts.Allows, hbad, if_true] at hallows
  obtain ⟨-, -, hlt, -, hstart⟩ := hallows
  obtain ⟨hmark, hret, -⟩ := hbalanced _ _ rfl
  have hpushed := h.pushed_eq hstack ha
  obtain hlabel | rfl := hstart
  · -- the block of a label begins with a source offset
    have hcode := hsound.targets frame.position.block _ (mem_of_getElem? hi) target
      (mem_singleton_self _)
    obtain ⟨i, is, hcode⟩ := exists_cons_of_ne_nil hcode
    have hfirst : (frame.goTo ⟨target, 0⟩).inst = some i := by
      simp [Frame.inst, Frame.goTo, CompiledFunction.instAt, hcode]
    have hat : (frame.goTo ⟨target, 0⟩).At (blockFacts frame.function target) := Frame.at_goTo
    have hok := hat.ok hfirst
    have hoffset := hok.1 hlabel
    cases i with
    | sourceOffset pc' =>
      have hdepth : (blockFacts frame.function target).depth =
        enclosing frame.function.body pc' := hok.2.2.1
      have heq : s.pushed frame.id = enclosing frame.function.body pc' := hmark pc' hfirst
      omega
    | _ => simp [Inst.isSourceOffset] at hoffset
  · -- the return block returns at once
    have hzero : s.pushed frame.id = 0 := hret rfl
    omega

theorem orderly_initial (function : CompiledFunction) (args : Index → V) (ptr : Option Nat)
    (saveAreas : Nat → Index → V) : Orderly (State.initial function args ptr saveAreas) := by
  refine ⟨⟨[], [], { depth := 0 }, rfl, trivial, Frame.at_entry, rfl, rfl⟩, ?_, ?_⟩
  · simp [State.initial]
  · simp [State.initial]

/-- A run that stops in the first bad state that it comes to. -/
def Avoids (L : Linking) (Bad : State V → Prop) : State V → State V → Prop :=
  ReflTransGen fun s s' => Step L s s' ∧ ¬ Bad s

theorem keeps_of_avoids {P Bad : State V → Prop} {s₀ : State V} (h₀ : P s₀)
    (hkeeps : ∀ s s', P s → Step L s s' → ¬ Bad s → P s') (hrun : Avoids L Bad s₀ s) : P s := by
  induction hrun with
  | refl => exact h₀
  | tail _ hstep ih => exact hkeeps _ _ ih hstep.1 hstep.2

theorem Avoids.run {Bad : State V → Prop} {s₀ : State V} (hrun : Avoids L Bad s₀ s) :
    ReflTransGen (Step L) s₀ s :=
  ReflTransGen.mono (fun _ _ hstep => hstep.1) _ _ hrun

theorem avoids_or_exists_bad (Bad : State V → Prop) {s₀ : State V}
    (hrun : ReflTransGen (Step L) s₀ s) :
    (Avoids L Bad s₀ s ∧ ¬ Bad s) ∨ ∃ s₁, Avoids L Bad s₀ s₁ ∧ Bad s₁ := by
  have hnow : ∀ s, Avoids L Bad s₀ s →
      (Avoids L Bad s₀ s ∧ ¬ Bad s) ∨ ∃ s₁, Avoids L Bad s₀ s₁ ∧ Bad s₁ := by
    intro s hrun
    by_cases hbad : Bad s
    · exact .inr ⟨s, hrun, hbad⟩
    · exact .inl ⟨hrun, hbad⟩
  induction hrun with
  | refl => exact hnow _ .refl
  | tail _ hstep ih =>
    obtain ⟨hrun, hbad⟩ | hfirst := ih
    · exact hnow _ (hrun.tail ⟨hstep, hbad⟩)
    · exact .inr hfirst

theorem orderly_of_avoids {function : CompiledFunction} {args : Index → V} {ptr : Option Nat}
    {saveAreas : Nat → Index → V}
    (hrun : Avoids L State.ExitsByDefault (.initial function args ptr saveAreas) s) : Orderly s :=
  keeps_of_avoids (orderly_initial function args ptr saveAreas)
    (fun _ _ h hstep hexit => h.step hstep hexit) hrun

/-- The running function has pushed one handler for each `try_table` with catch clauses around it up
to the first state of a run that takes the default of a `br_table` without other labels out of such
a `try_table`; and it has in every state of every run exactly if no run comes to such a state. -/
theorem balanced_iff_not_exitsByDefault (L : Linking) (function : CompiledFunction)
    (args : Index → V) (ptr : Option Nat) (saveAreas : Nat → Index → V) :
    (∀ s, Avoids L State.ExitsByDefault (.initial function args ptr saveAreas) s → s.Balanced) ∧
      ((∀ s, ReflTransGen (Step L) (.initial function args ptr saveAreas) s → s.Balanced) ↔
        ∀ s, ReflTransGen (Step L) (.initial function args ptr saveAreas) s →
          ¬ s.ExitsByDefault) := by
  have hbalanced : ∀ s, Avoids L State.ExitsByDefault (.initial function args ptr saveAreas) s →
      s.Balanced := fun s hrun => (orderly_of_avoids hrun).balanced
  refine ⟨hbalanced, fun hall s hrun hexit => ?_, fun hexit s hrun => ?_⟩
  · -- at the first such step the handlers are still in order
    obtain ⟨-, hnot⟩ | ⟨s₁, hrun₁, hexit₁⟩ := avoids_or_exists_bad State.ExitsByDefault hrun
    · exact hnot hexit
    · obtain ⟨s₂, hstep, hunbalanced⟩ := (orderly_of_avoids hrun₁).exists_unbalanced hexit₁
      exact hunbalanced (hall s₂ (hrun₁.run.tail hstep))
  · obtain ⟨hrun', -⟩ | ⟨s₁, hrun₁, hexit₁⟩ := avoids_or_exists_bad State.ExitsByDefault hrun
    · exact hbalanced s hrun'
    · exact absurd hexit₁ (hexit s₁ hrun₁.run)

/-- No handler is left when the called function has returned, if the run has not left one behind. -/
theorem handlers_cleared (L : Linking) (function : CompiledFunction) (args : Index → V)
    (ptr : Option Nat) (saveAreas : Nat → Index → V) :
    (∀ s, Avoids L State.ExitsByDefault (.initial function args ptr saveAreas) s → s.stack = [] →
      s.tryHandlers = []) ∧
    ((∃ s, ReflTransGen (Step L) (.initial function args ptr saveAreas) s ∧ s.ExitsByDefault) ∨
      ∀ s, ReflTransGen (Step L) (.initial function args ptr saveAreas) s → s.stack = [] →
        s.tryHandlers = []) := by
  have hcleared : ∀ s, Avoids L State.ExitsByDefault (.initial function args ptr saveAreas) s →
      s.stack = [] → s.tryHandlers = [] := by
    intro s hrun hstack
    have hstacked := (orderly_of_avoids hrun).stacked
    rwa [hstack] at hstacked
  refine ⟨hcleared, or_iff_not_imp_left.mpr fun hexit s hrun hstack => ?_⟩
  obtain ⟨hrun', -⟩ | ⟨s₁, hrun₁, hexit₁⟩ := avoids_or_exists_bad State.ExitsByDefault hrun
  · exact hcleared s hrun' hstack
  · exact absurd ⟨s₁, hrun₁.run, hexit₁⟩ hexit

end

/-- The options of a function without locals in a module without imports. -/
def plainCompiler : Compiler :=
  ⟨0, 0, 0, false, false⟩

/-- A function that takes the default of a `br_table` out of a `try_table`. -/
def leavesByDefault : CompiledFunction :=
  .of plainCompiler [.tryTable ⟨[], []⟩ [.catchAll 0], .brTable [] 0, .endOp]
    (by simp [LocalsDeclared]) rfl rfl

/-- Behind the `try_table` its handler is still there. -/
theorem unbalanced_leavesByDefault : ∃ s : State Unit,
    ReflTransGen (Step ⟨fun _ _ _ => False, fun _ _ => 0⟩)
      (.initial leavesByDefault (fun _ => ()) none fun _ _ => ()) s ∧ ¬ s.Balanced := by
  refine ⟨_, .tail (.tail (.tail (.tail (.tail (.tail .refl
    (.advance rfl rfl rfl)) (.advance rfl rfl rfl)) (.enter rfl rfl)) (.advance rfl rfl rfl))
    (.advance rfl rfl rfl)) (.branch rfl rfl rfl (mem_singleton_self _)), fun h => ?_⟩
  have hpushed := (h _ _ rfl).1 3 rfl
  exact absurd hpushed (by decide)

end Andsifr.CallEngine
