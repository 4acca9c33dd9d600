import Andsifr.CallEngine.Handlers

namespace Andsifr.CallEngine

open Wasm Frontend Relation List Function Option

variable {V : Type*}

def Frame.numLocals (frame : Frame V) : Nat :=
  frame.function.compiler.numLocals

/-- Whenever the running function stores or reloads a local, the pointer designates the save area of
its own activation. -/
def State.UsesOwnArea (s : State V) : Prop :=
  ∀ frame callers index, s.stack = frame :: callers →
    frame.inst = some (.storeLocal index) ∨ frame.inst = some (.reloadLocal index) →
      ∃ area, s.localsSaveAreaPtr = some area ∧ s.ownArea frame.id = some area

/-- At the start of each instruction of the source, the locals of the running function have the
values that were last assigned to them. -/
def State.LocalsCurrent (s : State V) : Prop :=
  ∀ frame callers pc, s.stack = frame :: callers → frame.inst = some (.sourceOffset pc) →
    ∀ x < frame.numLocals, frame.locals x = s.assigned frame.id x

/-- The running function is about to store a local, and the pointer was last set when an exception
was caught by the outermost `try_table` of an activation. -/
def State.StoresAfterCatch (s : State V) : Prop :=
  ∃ frame callers index, s.stack = frame :: callers ∧
    frame.inst = some (.storeLocal index) ∧ s.caughtBy ≠ none

/-- What the pointer designates: the area of the innermost handler that owns one, or else the area
of an activation whose handler has caught an exception and is gone. -/
def State.PointerOk (s : State V) : Prop :=
  match s.caughtBy with
  | none => ∀ area, restoreLocalsSaveAreaPtr s.tryHandlers = some area →
      s.localsSaveAreaPtr = some area
  | some id => id < s.nextId ∧ s.localsSaveAreaPtr = s.ownArea id ∧
      ∀ h ∈ s.tryHandlers, h.owner = some id → h.localsSaveArea = none

/-- What holds of a frame: its locals, except for those that are still to be reloaded, have the
values last assigned to them, and so has its save area, except for those that are still to be
stored. -/
structure FrameSaved (s : State V) (frame : Frame V) (a : Facts) : Prop where
  locals : ∀ x < frame.numLocals, x ∉ a.stale → frame.locals x = s.assigned frame.id x
  mirrored : 0 < a.depth ∨ a.stale.Nonempty → ∀ area, s.ownArea frame.id = some area →
    ∀ x < frame.numLocals, x ∉ a.dirty → s.saveAreas area x = s.assigned frame.id x

/-- What holds of the call engine as long as no local is stored after such a catch. -/
structure Saved (s : State V) : Prop where
  areas : ∀ h ∈ s.tryHandlers, ∀ area, h.localsSaveArea = some area →
    ∃ id, h.owner = some id ∧ s.ownArea id = some area
  bound : ∀ id area, s.ownArea id = some area → area < s.nextArea
  injective : ∀ id id' area, s.ownArea id = some area → s.ownArea id' = some area → id = id'
  pointer : s.PointerOk
  frames : ∀ frame ∈ s.stack, ∀ a, frame.At a → FrameSaved s frame a
  reloading : ∀ frame callers a, s.stack = frame :: callers → frame.At a → a.stale.Nonempty →
    a.dirty = ∅ ∧ ∃ area, s.localsSaveAreaPtr = some area ∧ s.ownArea frame.id = some area

section

variable {L : Linking} {s s' : State V} {frame entered : Frame V} {callers : List (Frame V)}
  {own outer : List (TryHandler V)} {h : TryHandler V} {a a' : Facts} {i : Inst}
  {info : TryTableInfo} {blocks : List BlockID} {depth : Nat}

/-- Only the outermost handler of an activation owns its save area. -/
theorem Entered.isSome_localsSaveArea (he : Entered frame callers depth h entered info blocks) :
    h.localsSaveArea.isSome = true ↔ 0 < frame.numLocals ∧ depth = 0 := by
  obtain ⟨body, hi⟩ := he.inst
  obtain ⟨a, ha, hdepth⟩ := he.facts
  obtain ⟨-, hlocals, hreuse, -⟩ := ha.allows hi
  rw [he.localsSaveArea, hlocals, hreuse, hdepth, he.function]
  simp [Frame.numLocals]

theorem restoreLocalsSaveAreaPtr_cons :
    restoreLocalsSaveAreaPtr (h :: own) = h.localsSaveArea.or (restoreLocalsSaveAreaPtr own) := by
  unfold restoreLocalsSaveAreaPtr
  rw [findSome?_cons]
  cases h.localsSaveArea <;> rfl

/-- The area that the handlers of a frame lead to is the one of its outermost handler. -/
theorem Owned.restore (outer : List (TryHandler V)) (ho : Owned frame callers own) (hne : own ≠ [])
    (hlocals : 0 < frame.numLocals) :
    ∃ h ∈ own, ∃ area, h.localsSaveArea = some area ∧
      restoreLocalsSaveAreaPtr (own ++ outer) = some area := by
  induction own with
  | nil => exact absurd rfl hne
  | cons h own ih =>
    obtain ⟨⟨entered, info, blocks, he⟩, ho⟩ := ho
    rw [cons_append, restoreLocalsSaveAreaPtr_cons]
    cases own with
    | nil =>
      obtain ⟨area, harea⟩ := isSome_iff_exists.1 (he.isSome_localsSaveArea.2 ⟨hlocals, rfl⟩)
      exact ⟨h, by simp, area, harea, by simp [harea]⟩
    | cons h' own =>
      have hnone : h.localsSaveArea = none := by
        rw [← not_isSome_iff_eq_none, he.isSome_localsSaveArea]
        simp
      obtain ⟨h'', hmem, area, harea, hrestore⟩ := ih ho (by simp)
      exact ⟨h'', by simp [hmem], area, harea, by simpa [hnone] using hrestore⟩

theorem suffix_of_searchHandlers {tag clauseIdx : Nat} {handlers below : List (TryHandler V)}
    (hsearch : searchHandlers tag handlers = some (h, clauseIdx, below)) :
    h :: below <:+ handlers := by
  induction handlers with
  | nil => cases hsearch
  | cons h' handlers ih =>
    rw [searchHandlers] at hsearch
    split at hsearch
    next =>
      cases hsearch
      exact suffix_refl _
    next => exact (ih hsearch).trans (suffix_cons _ _)

theorem Saved.restore_owned (hs : Saved s) (outer : List (TryHandler V))
    (ho : Owned frame callers own) (hsubset : own ⊆ s.tryHandlers) (hne : own ≠ [])
    (hlocals : 0 < frame.numLocals) :
    ∃ area, restoreLocalsSaveAreaPtr (own ++ outer) = some area ∧
      s.ownArea frame.id = some area := by
  obtain ⟨h, hmem, area, harea, hrestore⟩ := ho.restore outer hne hlocals
  obtain ⟨id, howner, hown⟩ := hs.areas h (hsubset hmem) area harea
  obtain rfl : frame.id = id := some_injective _ ((ho.owner hmem).symm.trans howner)
  exact ⟨area, hrestore, hown⟩

variable {index : Index}

theorem Saved.storing (hs : Saved s) (ho : Orderly s)
    (hstack : s.stack = frame :: callers) (hi : frame.inst = some (.storeLocal index)) :
    (∃ h ∈ s.tryHandlers, h.owner = some frame.id ∧ h.localsSaveArea ≠ none) ∧
      ∃ area, restoreLocalsSaveAreaPtr s.tryHandlers = some area ∧
        s.ownArea frame.id = some area := by
  obtain ⟨own, outer, a, heq, howned, ha, hdepth, -⟩ := ho.running hstack
  obtain ⟨hpos, -, hindex⟩ := ha.allows hi
  have hne : own ≠ [] := ne_nil_of_length_pos (hdepth ▸ hpos)
  have hlocals : 0 < frame.numLocals := Nat.zero_lt_of_lt hindex
  obtain ⟨h, hmem, area, harea, -⟩ := howned.restore outer hne hlocals
  refine ⟨⟨h, by simp [heq, hmem], howned.owner hmem, by simp [harea]⟩, ?_⟩
  rw [heq]
  exact hs.restore_owned outer howned (by simp [heq]) hne hlocals

/-- As long as the pointer was not set by such a catch, a function stores into its own area. -/
theorem Saved.storesInto (hs : Saved s) (ho : Orderly s)
    (hstack : s.stack = frame :: callers) (hi : frame.inst = some (.storeLocal index))
    (hcaught : ¬ s.StoresAfterCatch) :
    ∃ area, s.localsSaveAreaPtr = some area ∧ s.ownArea frame.id = some area := by
  have hnone : s.caughtBy = none := by
    by_contra hne
    exact hcaught ⟨frame, callers, index, hstack, hi, hne⟩
  obtain ⟨-, area, hrestore, hown⟩ := hs.storing ho hstack hi
  have hpointer := hs.pointer
  rw [State.PointerOk, hnone] at hpointer
  exact ⟨area, hpointer area hrestore, hown⟩

theorem Orderly.owner_lt {id : Nat} (ho : Orderly s) (hh : h ∈ s.tryHandlers)
    (howner : h.owner = some id) : id < s.nextId := by
  have hstacked := ho.stacked
  have hfresh := ho.fresh
  cases hstack : s.stack with
  | nil =>
    rw [hstack] at hstacked
    have hnil : s.tryHandlers = [] := hstacked
    simp [hnil] at hh
  | cons frame callers =>
    rw [hstack] at hfresh
    obtain ⟨own, outer, a, heq, howned, -, -, hsuspended⟩ := ho.running hstack
    rw [heq] at hh
    obtain hh | hh := mem_append.1 hh
    · obtain rfl : frame.id = id := some_injective _ ((howned.owner hh).symm.trans howner)
      exact hfresh frame (by simp)
    · obtain ⟨f, hf, hid⟩ := hsuspended.owner hh
      obtain rfl : f.id = id := some_injective _ (hid.symm.trans howner)
      exact hfresh f (by simp [hf])

theorem Saved.usesOwnArea (hs : Saved s) (ho : Orderly s) (hcaught : ¬ s.StoresAfterCatch) :
    s.UsesOwnArea := by
  intro frame callers index hstack hi
  obtain hi | hi := hi
  · exact hs.storesInto ho hstack hi hcaught
  · obtain ⟨-, -, a, -, -, ha, -, -⟩ := ho.running hstack
    exact (hs.reloading frame callers a hstack ha ⟨index, ha.allows hi⟩).2

theorem Saved.localsCurrent (hs : Saved s) (ho : Orderly s) : s.LocalsCurrent := by
  intro frame callers pc hstack hi x hx
  obtain ⟨-, -, a, -, -, ha, -, -⟩ := ho.running hstack
  have hstale : a.stale = ∅ := (ha.allows hi).2.2
  exact (hs.frames frame (by simp [hstack]) a ha).locals x hx (by simp [hstale])

theorem FrameSaved.congr (hf : FrameSaved s frame a)
    (hassigned : s'.assigned frame.id = s.assigned frame.id)
    (hown : s'.ownArea frame.id = s.ownArea frame.id)
    (hareas : ∀ area, s.ownArea frame.id = some area → s'.saveAreas area = s.saveAreas area) :
    FrameSaved s' frame a where
  locals := by
    intro x hx hstale
    rw [hassigned]
    exact hf.locals x hx hstale
  mirrored := by
    intro hinside area harea x hx hdirty
    rw [hown] at harea
    rw [hassigned, hareas area harea]
    exact hf.mirrored hinside area harea x hx hdirty

theorem resume_eq_some {clauseIdx : Nat} {stack stack' : List (Frame V)}
    (hresume : resume clauseIdx stack = some stack') :
    ∃ frame b frames, stack = frame :: frames ∧ stack' = frame.goTo ⟨b, 0⟩ :: frames := by
  unfold resume at hresume
  split at hresume
  next => cases hresume
  next frame frames =>
    split at hresume
    next =>
      obtain ⟨b, -, rfl⟩ := map_eq_some_iff.1 hresume
      exact ⟨frame, b, frames, rfl, rfl⟩
    next => cases hresume

theorem FrameSaved.goTo {p : Position} (hf : FrameSaved s frame a) (hsame : SameFacts a a') :
    FrameSaved s (frame.goTo p) a' where
  locals := by
    rw [hsame.stale]
    exact hf.locals
  mirrored := by
    rw [hsame.depth, hsame.stale, hsame.dirty]
    exact hf.mirrored

/-- The running frame may be looked at with the facts of where it stands. -/
theorem Saved.of_running (hareas : ∀ h ∈ s.tryHandlers, ∀ area, h.localsSaveArea = some area →
      ∃ id, h.owner = some id ∧ s.ownArea id = some area)
    (hbound : ∀ id area, s.ownArea id = some area → area < s.nextArea)
    (hinjective : ∀ id id' area, s.ownArea id = some area → s.ownArea id' = some area → id = id')
    (hpointer : s.PointerOk) (hstack : s.stack = frame :: callers) (ha : frame.At a)
    (hframe : FrameSaved s frame a)
    (hcallers : ∀ f ∈ callers, ∀ b, f.At b → FrameSaved s f b)
    (hreload : a.stale.Nonempty → a.dirty = ∅ ∧
      ∃ area, s.localsSaveAreaPtr = some area ∧ s.ownArea frame.id = some area) : Saved s := by
  refine ⟨hareas, hbound, hinjective, hpointer, ?_, ?_⟩
  · intro f hf b hb
    rw [hstack, mem_cons] at hf
    obtain rfl | hf := hf
    · exact hb.unique ha ▸ hframe
    · exact hcallers f hf b hb
  · intro f cs b hf hb hstale
    obtain ⟨rfl, -⟩ := List.cons.inj (hstack.symm.trans hf)
    obtain rfl := hb.unique ha
    exact hreload hstale

/-- What a step of the running frame inside its function leaves alone. -/
structure SameHandlers (s s' : State V) : Prop where
  tryHandlers : s'.tryHandlers = s.tryHandlers
  localsSaveAreaPtr : s'.localsSaveAreaPtr = s.localsSaveAreaPtr
  nextArea : s'.nextArea = s.nextArea
  nextId : s'.nextId = s.nextId
  ownArea : s'.ownArea = s.ownArea
  caughtBy : s'.caughtBy = s.caughtBy

/-- The running frame goes on. It changes no locals and no save area but its own. -/
theorem Saved.goOn {frame' : Frame V} (hs : Saved s) (ho : Orderly s)
    (hstack : s.stack = frame :: callers) (hstack' : s'.stack = frame' :: callers)
    (hid : frame'.id = frame.id) (hsame : SameHandlers s s')
    (hassigned : ∀ id, id ≠ frame.id → s'.assigned id = s.assigned id)
    (hareas : ∀ area, s.ownArea frame.id ≠ some area → s'.saveAreas area = s.saveAreas area)
    (hframe : ∀ a, frame.At a → FrameSaved s frame a → ∃ a', frame'.At a' ∧
      FrameSaved s' frame' a' ∧ (a'.stale.Nonempty → a'.stale ⊆ a.stale ∧ a'.dirty ⊆ a.dirty)) :
    Saved s' := by
  obtain ⟨own, outer, a, -, -, ha, -, -⟩ := ho.running hstack
  have hmem : frame ∈ s.stack := by simp [hstack]
  obtain ⟨a', ha', hf', hreload⟩ := hframe a ha (hs.frames frame hmem a ha)
  have hdistinct := ho.distinct
  rw [hstack, map_cons, nodup_cons] at hdistinct
  refine .of_running ?_ ?_ ?_ ?_ hstack' ha' hf' ?_ ?_
  · rw [hsame.tryHandlers, hsame.ownArea]
    exact hs.areas
  · rw [hsame.ownArea, hsame.nextArea]
    exact hs.bound
  · rw [hsame.ownArea]
    exact hs.injective
  · have hpointer := hs.pointer
    unfold State.PointerOk at hpointer ⊢
    rw [hsame.caughtBy, hsame.tryHandlers, hsame.localsSaveAreaPtr, hsame.nextId, hsame.ownArea]
    exact hpointer
  · intro f hf b hb
    have hne : f.id ≠ frame.id := fun heq => hdistinct.1 (heq ▸ mem_map_of_mem hf)
    refine (hs.frames f (by simp [hstack, hf]) b hb).congr (hassigned _ hne)
      (congrFun hsame.ownArea _) fun area harea => hareas area fun hown => hne ?_
    exact hs.injective _ _ area harea hown
  · intro hstale
    obtain ⟨hstale', hdirty'⟩ := hreload hstale
    obtain ⟨hdirty, hptr⟩ := hs.reloading frame callers a hstack ha (hstale.mono hstale')
    refine ⟨Set.subset_eq_empty hdirty' hdirty, ?_⟩
    rw [hsame.localsSaveAreaPtr, hsame.ownArea, hid]
    exact hptr

theorem FrameSaved.defineVariable {value : V} (hf : FrameSaved s frame a) (hclean : a.Clean)
    (hassigned : s'.assigned frame.id = update (s.assigned frame.id) index value)
    (hown : s'.ownArea = s.ownArea) (hareas : s'.saveAreas = s.saveAreas) :
    FrameSaved s' (frame.next.setLocal index value)
      (if 0 < a.depth then { a with dirty := insert index a.dirty } else a) where
  locals := by
    intro x hx _
    change update frame.locals index value x = s'.assigned frame.id x
    rw [hassigned]
    by_cases hxi : x = index
    · subst hxi
      simp
    · rw [update_of_ne hxi, update_of_ne hxi]
      exact hf.locals x hx (by simp [hclean.2])
  mirrored := by
    intro hinside area harea x hx hdirty
    by_cases hpos : 0 < a.depth
    · obtain ⟨hxi, hdirty⟩ : x ≠ index ∧ x ∉ a.dirty := by simpa [hpos] using hdirty
      rw [hown] at harea
      change s'.saveAreas area x = s'.assigned frame.id x
      rw [hassigned, hareas, update_of_ne hxi]
      exact hf.mirrored (.inl hpos) area harea x hx hdirty
    · simp [hpos, hclean.2] at hinside

theorem FrameSaved.storeLocal {area : Nat} (hf : FrameSaved s frame a)
    (hstale : a.stale = ∅) (hindex : index < frame.numLocals) (hassigned : s'.assigned = s.assigned)
    (hown : s'.ownArea = s.ownArea) (harea : s.ownArea frame.id = some area)
    (hareas : s'.saveAreas = update s.saveAreas area
      (update (s.saveAreas area) index (frame.locals index))) :
    FrameSaved s' frame.next { a with dirty := a.dirty \ {index} } where
  locals := by
    rw [hassigned]
    exact hf.locals
  mirrored := by
    intro hinside area' harea' x hx hdirty
    obtain rfl : area = area' := by
      rw [hown] at harea'
      exact some_injective _ (harea.symm.trans harea')
    rw [hassigned, hareas, update_self]
    by_cases hxi : x = index
    · subst hxi
      rw [update_self]
      exact hf.locals x hindex (by simp [hstale])
    · rw [update_of_ne hxi]
      exact hf.mirrored hinside area harea x hx fun hd => hdirty ⟨hd, hxi⟩

theorem FrameSaved.reloadLocal {area : Nat} (hf : FrameSaved s frame a)
    (hindex : index ∈ a.stale) (hdirty : a.dirty = ∅) (harea : s.ownArea frame.id = some area)
    (hassigned : s'.assigned = s.assigned) (hown : s'.ownArea = s.ownArea)
    (hareas : s'.saveAreas = s.saveAreas) :
    FrameSaved s' (frame.next.setLocal index (s.saveAreas area index))
      { a with stale := a.stale \ {index} } where
  locals := by
    intro x hx hstale
    change update frame.locals index (s.saveAreas area index) x = s'.assigned frame.id x
    rw [hassigned]
    by_cases hxi : x = index
    · subst hxi
      rw [update_self]
      exact hf.mirrored (.inr ⟨x, hindex⟩) area harea x hx (by simp [hdirty])
    · rw [update_of_ne hxi]
      exact hf.locals x hx fun hs => hstale ⟨hs, hxi⟩
  mirrored := by
    rw [hassigned, hown, hareas]
    exact fun hinside => hf.mirrored (hinside.imp_right fun h => h.mono Set.sdiff_subset)

section

variable (hs : Saved s)

include hs

section

variable (ho : Orderly s)

include ho

theorem Saved.pushFrame {function : CompiledFunction} {args : Index → V} {frames : List (Frame V)}
    (hframes : ∀ f ∈ frames, f.id < s.nextId ∧ ∀ a, f.At a → FrameSaved s f a) :
    Saved (s.pushFrame function args frames) := by
  have hown : ∀ id area, (s.pushFrame function args frames).ownArea id = some area →
      id ≠ s.nextId ∧ s.ownArea id = some area := by
    intro id area harea
    by_cases hid : id = s.nextId
    · simp [State.pushFrame, hid] at harea
    · exact ⟨hid, by simpa [State.pushFrame, hid] using harea⟩
  have hold : ∀ id < s.nextId, (s.pushFrame function args frames).ownArea id = s.ownArea id ∧
      (s.pushFrame function args frames).assigned id = s.assigned id := by
    intro id hid
    simp [State.pushFrame, update_of_ne hid.ne]
  refine .of_running ?_ ?_ ?_ ?_ rfl Frame.at_entry ?_ ?_ (by simp)
  · intro h hh area harea
    obtain ⟨id, howner, hid⟩ := hs.areas h hh area harea
    exact ⟨id, howner, (hold id (ho.owner_lt hh howner)).1.trans hid⟩
  · exact fun id area harea => hs.bound id area (hown id area harea).2
  · exact fun id id' area harea harea' =>
      hs.injective id id' area (hown id area harea).2 (hown id' area harea').2
  · have hpointer := hs.pointer
    unfold State.PointerOk at hpointer ⊢
    change match s.caughtBy with | none => _ | some id => _
    cases hcaught : s.caughtBy with
    | none =>
      rw [hcaught] at hpointer
      exact hpointer
    | some id =>
      rw [hcaught] at hpointer
      obtain ⟨hid, hptr, hgone⟩ := hpointer
      exact ⟨hid.trans (Nat.lt_succ_self _), hptr.trans (hold id hid).1.symm, hgone⟩
  · exact ⟨fun x _ _ => by simp [State.pushFrame], fun hinside => by simp at hinside⟩
  · intro f hf a ha
    obtain ⟨hid, hsaved⟩ := hframes f hf
    exact (hsaved a ha).congr (hold _ hid).2 (hold _ hid).1 fun _ _ => rfl

section

variable (hstack : s.stack = frame :: callers)

include hstack

/-- The first `try_table` of a frame has a save area of its own, in which no local is stored yet. -/
theorem Saved.enterArea {moduleTags : Index → Nat} {body : BlockID}
    (hi : frame.inst = some (.tryTableEnter info blocks body))
    (hfirst : (0 < info.numLocals && !info.reuseLocals) = true) :
    Saved { s.tryTableEnter moduleTags info frame callers with
      stack := frame.goTo ⟨body, 0⟩ :: callers } := by
  obtain ⟨own, outer, a, heq, howned, ha, hdepth, hsuspended⟩ := ho.running hstack
  obtain ⟨hclean, -, hreuse, -, -, hbody⟩ := ha.allows hi
  have hdistinct := ho.distinct
  rw [hstack, map_cons, nodup_cons] at hdistinct
  -- the frame has no other handler, so no handler refers to an earlier area of it
  have hzero : a.depth = 0 := by
    rw [hreuse] at hfirst
    simp only [Bool.and_eq_true, Bool.not_eq_true', decide_eq_true_eq, decide_eq_false_iff_not,
      Nat.not_lt, Nat.le_zero] at hfirst
    exact hfirst.2
  obtain rfl : own = [] := length_eq_zero_iff.1 (hdepth ▸ hzero)
  have hother : ∀ h ∈ s.tryHandlers, h.owner ≠ some frame.id := by
    intro h hh howner
    rw [heq] at hh
    obtain ⟨f, hf, hid⟩ := hsuspended.owner hh
    have hid : f.id = frame.id := some_injective _ (hid.symm.trans howner)
    exact hdistinct.1 (hid ▸ mem_map_of_mem hf)
  have hown : ∀ id area, update s.ownArea frame.id (some s.nextArea) id = some area →
      id = frame.id ∧ area = s.nextArea ∨ id ≠ frame.id ∧ s.ownArea id = some area := by
    intro id area harea
    by_cases hid : id = frame.id
    · subst hid
      exact .inl ⟨rfl, by simpa using harea.symm⟩
    · exact .inr ⟨hid, by simpa [hid] using harea⟩
  rw [State.tryTableEnter, if_pos hfirst]
  refine .of_running ?_ ?_ ?_ (fun _ => id) rfl (hbody ▸ Frame.at_goTo) ?_ ?_ (by simp)
  · intro h hh area harea
    obtain rfl | hh := mem_cons.1 hh
    · cases harea
      exact ⟨frame.id, rfl, update_self ..⟩
    · obtain ⟨id, howner, hid⟩ := hs.areas h hh area harea
      have hne : id ≠ frame.id := fun heq => hother h hh (heq ▸ howner)
      exact ⟨id, howner, (update_of_ne hne ..).trans hid⟩
  · intro id area harea
    obtain ⟨-, rfl⟩ | ⟨-, harea⟩ := hown id area harea
    · exact Nat.lt_succ_self _
    · exact (hs.bound id area harea).trans (Nat.lt_succ_self _)
  · intro id id' area harea harea'
    obtain ⟨rfl, rfl⟩ | ⟨-, harea⟩ := hown id area harea
    · obtain ⟨rfl, -⟩ | ⟨-, harea'⟩ := hown id' _ harea'
      · rfl
      · exact absurd (hs.bound id' _ harea') (lt_irrefl _)
    · obtain ⟨-, rfl⟩ | ⟨-, harea'⟩ := hown id' area harea'
      · exact absurd (hs.bound id _ harea) (lt_irrefl _)
      · exact hs.injective id id' area harea harea'
  · refine ⟨fun x hx _ => ?_, fun _ _ _ x hx hdirty => absurd hx hdirty⟩
    exact (hs.frames frame (by simp [hstack]) a ha).locals x hx (by simp [hclean.2])
  · intro f hf b hb
    have hne : f.id ≠ frame.id := fun heq => hdistinct.1 (heq ▸ mem_map_of_mem hf)
    exact (hs.frames f (by simp [hstack, hf]) b hb).congr rfl (update_of_ne hne ..) fun _ _ => rfl

theorem Saved.enterNested {moduleTags : Index → Nat} {body : BlockID}
    (hi : frame.inst = some (.tryTableEnter info blocks body))
    (hnested : ¬ (0 < info.numLocals && !info.reuseLocals) = true) :
    Saved { s.tryTableEnter moduleTags info frame callers with
      stack := frame.goTo ⟨body, 0⟩ :: callers } := by
  obtain ⟨own, outer, a, -, -, ha, -, -⟩ := ho.running hstack
  obtain ⟨hclean, -, -, -, -, hbody⟩ := ha.allows hi
  rw [State.tryTableEnter, if_neg hnested]
  refine .of_running ?_ hs.bound hs.injective ?_ rfl (hbody ▸ Frame.at_goTo) ?_ ?_ (by simp)
  · intro h hh area harea
    obtain rfl | hh := mem_cons.1 hh
    · cases harea
    · exact hs.areas h hh area harea
  · have hpointer := hs.pointer
    unfold State.PointerOk at hpointer ⊢
    cases hcaught : s.caughtBy with
    | none =>
      rw [hcaught] at hpointer
      exact hpointer
    | some id =>
      rw [hcaught] at hpointer
      obtain ⟨hid, hptr, hgone⟩ := hpointer
      refine ⟨hid, hptr, fun h hh howner => ?_⟩
      obtain rfl | hh := mem_cons.1 hh
      · rfl
      · exact hgone h hh howner
  · refine ⟨fun x hx _ => ?_, fun _ _ _ x hx hdirty => absurd hx hdirty⟩
    exact (hs.frames frame (by simp [hstack]) a ha).locals x hx (by simp [hclean.2])
  · intro f hf b hb
    exact (hs.frames f (by simp [hstack, hf]) b hb).congr rfl rfl fun _ _ => rfl

theorem Saved.leave (hi : frame.inst = some .tryTableLeave) :
    Saved { s.tryTableLeave with stack := frame.next :: callers } := by
  obtain ⟨own, outer, a, heq, -, ha, hdepth, -⟩ := ho.running hstack
  obtain ⟨hpos, hclean⟩ := ha.allows hi
  obtain ⟨h, own, rfl⟩ := exists_cons_of_length_pos (hdepth ▸ hpos)
  rw [cons_append] at heq
  have hsaved := hs.frames frame (by simp [hstack]) a ha
  rw [tryTableLeave_cons heq]
  refine .of_running (fun h' hh' => hs.areas h' (by simp [heq, hh'])) hs.bound hs.injective
    (fun _ => id) rfl (ha.next hi rfl)
    ⟨hsaved.locals, fun _ => hsaved.mirrored (.inl hpos)⟩ ?_ (by simp [hclean.2])
  intro f hf b hb
  exact (hs.frames f (by simp [hstack, hf]) b hb).congr rfl rfl fun _ _ => rfl

/-- The frame that catches an exception has its locals in the save area, and the pointer designates
it. -/
theorem Saved.caught {tag : Nat} (hi : frame.inst = some .throw)
    (hcaught : s.doHandleException tag = some s') : Saved s' := by
  obtain ⟨own, outer, a, heq, howned, ha, hdepth, hsuspended⟩ := ho.running hstack
  have hall : Suspended s.stack s.tryHandlers := by
    rw [hstack]
    exact ⟨own, outer, a, heq, howned, ha, hdepth, ha.allows hi, hsuspended⟩
  obtain ⟨handler, clauseIdx, below, stack, hsearch, hresume, rfl⟩ :=
    doHandleException_eq_some hcaught
  obtain ⟨catcher, callers', own', outer', hc⟩ := hall.catching hsearch
  obtain ⟨entered, info, blocks, he⟩ := hc.entered
  obtain ⟨b, hb, rfl⟩ := he.resume hresume
  obtain ⟨c, hcat, hclean, hpos⟩ := hc.facts
  have hsuffix := suffix_of_searchHandlers hsearch
  have hmem : catcher ∈ s.stack := hc.frames.subset (by simp)
  have hhandler := he.handler hb
  have hnumLocals : (entered.goTo ⟨b, 0⟩).numLocals = catcher.numLocals := by
    simp [Frame.numLocals, Frame.goTo, he.function]
  have hsaved := hs.frames catcher hmem c hcat
  refine .of_running (fun h hh => hs.areas h (hsuffix.subset (by simp [hh]))) hs.bound hs.injective
    ?_ rfl (hhandler ▸ Frame.at_goTo) ?_ ?_ ?_
  · cases harea : handler.localsSaveArea with
    | none =>
      -- the pointer goes on to designate the area of the handlers below
      intro area hbelow
      rw [restoreLocalsSaveAreaPtr_cons, harea]
      exact hbelow
    | some area =>
      -- the handler was the outermost one of its frame
      obtain ⟨id, howner, hid⟩ := hs.areas handler (hsuffix.subset (by simp)) area harea
      have hzero : own' = [] := length_eq_zero_iff.1
        (he.isSome_localsSaveArea.1 (by simp [harea])).2
      obtain rfl : catcher.id = id := by
        simpa [TryHandler.owner, he.stack, he.id] using howner
      rw [howner]
      refine ⟨ho.fresh catcher hmem, ?_, fun h hh hown => ?_⟩
      · rw [restoreLocalsSaveAreaPtr_cons, harea, hid]
        rfl
      · have hids := (hc.frames.map Frame.id).sublist.nodup ho.distinct
        rw [map_cons, nodup_cons] at hids
        have hh : h ∈ outer' := by simpa [hc.below, hzero] using hh
        obtain ⟨f, hf, hfid⟩ := hc.suspended.owner hh
        have heq : f.id = catcher.id := some_injective _ (hfid.symm.trans hown)
        exact absurd (heq ▸ mem_map_of_mem hf) hids.1
  · refine ⟨fun x hx hstale => absurd (hnumLocals ▸ hx : x < catcher.numLocals) hstale,
      fun _ area harea x hx _ => ?_⟩
    change s.ownArea entered.id = some area at harea
    change s.saveAreas area x = s.assigned entered.id x
    rw [he.id] at harea ⊢
    exact hsaved.mirrored (.inl hpos) area harea x (hnumLocals ▸ hx) (by simp [hclean.1])
  · intro f hf b hb
    exact (hs.frames f (hc.frames.subset (by simp [hf])) b hb).congr rfl rfl fun _ _ => rfl
  · rintro ⟨x, hx⟩
    refine ⟨rfl, ?_⟩
    have howned' : Owned catcher callers' (handler :: own') :=
      ⟨⟨entered, info, blocks, he⟩, hc.owned⟩
    have hsubset : handler :: own' ⊆ s.tryHandlers := by
      rw [hc.below] at hsuffix
      exact List.Subset.trans (subset_append_left _ _) hsuffix.subset
    obtain ⟨area, hrestore, harea⟩ := hs.restore_owned outer' howned' hsubset (by simp)
      (Nat.zero_lt_of_lt hx)
    refine ⟨area, by rw [hc.below]; exact hrestore, ?_⟩
    change s.ownArea entered.id = some area
    rw [he.id]
    exact harea

end

/-- One step keeps the locals and the save areas, unless it stores a local after such a catch. -/
theorem Saved.step (hstep : Step L s s')
    (hexit : ¬ s.ExitsByDefault) (hcaught : ¬ s.StoresAfterCatch) : Saved s' := by
  cases hstep with
  | advance hstack hi hadvances =>
    refine hs.goOn ho hstack rfl rfl ⟨rfl, rfl, rfl, rfl, rfl, rfl⟩ (fun _ _ => rfl)
      (fun _ _ => rfl) fun a ha hf => ?_
    obtain ⟨a', hafter, hsame⟩ := exists_after_of_advances hadvances
    exact ⟨a', ha.next hi hafter, (hf.goTo hsame).congr rfl rfl fun _ _ => rfl,
      fun _ => ⟨hsame.stale.subset, hsame.dirty.subset⟩⟩
  | branch hstack hi hbranch htarget =>
    refine hs.goOn ho hstack rfl rfl ⟨rfl, rfl, rfl, rfl, rfl, rfl⟩ (fun _ _ => rfl)
      (fun _ _ => rfl) fun a ha hf => ?_
    have hsame := ha.branch hstack hi hbranch htarget hexit
    exact ⟨_, Frame.at_goTo, (hf.goTo hsame).congr rfl rfl fun _ _ => rfl,
      fun _ => ⟨hsame.stale.subset, hsame.dirty.subset⟩⟩
  | @defineVariable frame callers index hstack hi value =>
    refine hs.goOn ho hstack rfl rfl ⟨rfl, rfl, rfl, rfl, rfl, rfl⟩
      (fun id hid => update_of_ne hid ..) (fun _ _ => rfl) fun a ha hf => ?_
    have hclean := ha.allows hi
    refine ⟨_, (ha.next hi rfl).setLocal,
      hf.defineVariable hclean (update_self ..) rfl rfl, fun hstale => ?_⟩
    split at hstale <;> simp [hclean.2] at hstale
  | @storeLocal frame callers index area hstack hi harea =>
    obtain ⟨area', hptr, hown⟩ := hs.storesInto ho hstack hi hcaught
    obtain rfl : area = area' := some_injective _ (harea.symm.trans hptr)
    refine hs.goOn ho hstack rfl rfl ⟨rfl, rfl, rfl, rfl, rfl, rfl⟩ (fun _ _ => rfl)
      (fun area' hne => ?_) fun a ha hf => ?_
    · refine update_of_ne (fun heq => hne ?_) ..
      rw [heq, hown]
    · obtain ⟨-, hstale, hindex⟩ := ha.allows hi
      exact ⟨_, ha.next hi rfl, hf.storeLocal hstale hindex rfl rfl hown rfl,
        fun _ => ⟨subset_rfl, Set.sdiff_subset⟩⟩
  | @reloadLocal frame callers index area hstack hi harea =>
    refine hs.goOn ho hstack rfl rfl ⟨rfl, rfl, rfl, rfl, rfl, rfl⟩ (fun _ _ => rfl)
      (fun _ _ => rfl) fun a ha hf => ?_
    have hindex : index ∈ a.stale := ha.allows hi
    obtain ⟨hdirty, area', hptr, hown⟩ := hs.reloading frame callers a hstack ha ⟨index, hindex⟩
    obtain rfl : area = area' := some_injective _ (harea.symm.trans hptr)
    exact ⟨_, (ha.next hi rfl).setLocal, hf.reloadLocal hindex hdirty hown rfl rfl rfl,
      fun _ => ⟨Set.sdiff_subset, subset_rfl⟩⟩
  | @call frame callers callee function hstack hi hcalls args =>
    refine hs.pushFrame ho fun f hf => ?_
    obtain rfl | hf := mem_cons.1 hf
    · refine ⟨ho.fresh frame (by simp [hstack]), fun b hb => ?_⟩
      obtain ⟨-, -, a, -, -, ha, -, -⟩ := ho.running hstack
      have hnext : frame.next.At a := by
        obtain hi | hi := hi
        · exact ha.next hi rfl
        · exact ha.next hi rfl
      obtain rfl := hb.unique hnext
      exact (hs.frames frame (by simp [hstack]) _ ha).goTo ⟨rfl, rfl, rfl⟩
    · have hmem : f ∈ s.stack := by simp [hstack, hf]
      exact ⟨ho.fresh f hmem, hs.frames f hmem⟩
  | tailCall hstack hi hcalls args =>
    refine hs.pushFrame ho fun f hf => ?_
    have hmem : f ∈ s.stack := by simp [hstack, hf]
    exact ⟨ho.fresh f hmem, hs.frames f hmem⟩
  | @enter frame callers info blocks body hstack hi =>
    by_cases hfirst : (0 < info.numLocals && !info.reuseLocals) = true
    · exact hs.enterArea ho hstack hi hfirst
    · exact hs.enterNested ho hstack hi hfirst
  | leave hstack hi => exact hs.leave ho hstack hi
  | caught hstack hi hcaught => exact hs.caught ho hstack hi hcaught
  | @ret frame callers hstack hi =>
    obtain ⟨own, outer, a, heq, -, ha, hdepth, hsuspended⟩ := ho.running hstack
    refine ⟨hs.areas, hs.bound, hs.injective, hs.pointer, ?_, ?_⟩
    · intro f hf b hb
      exact (hs.frames f (by simp [hstack, show f ∈ callers from hf]) b hb).congr rfl rfl
        fun _ _ => rfl
    · -- the caller was suspended at a call, with nothing to reload
      intro f cs b hf hb hstale
      obtain rfl : callers = f :: cs := hf
      obtain ⟨-, -, c, -, -, hc, -, hclean, -⟩ := hsuspended
      obtain rfl := hb.unique hc
      simp [hclean.2] at hstale

end

end

theorem saved_initial (function : CompiledFunction) (args : Index → V) (ptr : Option Nat)
    (saveAreas : Nat → Index → V) : Saved (State.initial function args ptr saveAreas) := by
  refine .of_running (by simp [State.initial]) (by simp [State.initial]) (by simp [State.initial])
    (fun _ harea => by cases harea) rfl Frame.at_entry ?_ (by simp) (by simp)
  exact ⟨fun _ _ _ => rfl, fun hinside => by simp at hinside⟩

theorem Saved.not_usesOwnArea (hs : Saved s) (ho : Orderly s) (hcaught : s.StoresAfterCatch) :
    ¬ s.UsesOwnArea := by
  intro huses
  obtain ⟨frame, callers, index, hstack, hi, hne⟩ := hcaught
  obtain ⟨area, hptr, hown⟩ := huses frame callers index hstack (.inl hi)
  obtain ⟨⟨h, hh, howner, harea⟩, -⟩ := hs.storing ho hstack hi
  obtain ⟨id, hid⟩ := ne_none_iff_exists'.1 hne
  have hpointer := hs.pointer
  rw [State.PointerOk, hid] at hpointer
  obtain ⟨-, hptr', hgone⟩ := hpointer
  obtain rfl : id = frame.id := hs.injective id frame.id area (hptr'.symm.trans hptr) hown
  exact harea (hgone h hh howner)

/-- Only functions with the property run or wait for an exception. -/
def State.Within (P : CompiledFunction → Prop) (s : State V) : Prop :=
  (∀ frame ∈ s.stack, P frame.function) ∧ ∀ h ∈ s.tryHandlers, ∀ frame ∈ h.stack, P frame.function

theorem State.Within.step {P : CompiledFunction → Prop}
    (hclosed : ∀ f callee g, P f → L.calls f callee g → P g) (hs : s.Within P)
    (hstep : Step L s s') : s'.Within P := by
  obtain ⟨hframes, hhandlers⟩ := hs
  cases hstep with
  | advance hstack | branch hstack | defineVariable hstack | storeLocal hstack
  | reloadLocal hstack =>
    rw [hstack, forall_mem_cons] at hframes
    exact ⟨forall_mem_cons.2 hframes, hhandlers⟩
  | call hstack hi hcalls args =>
    rw [hstack, forall_mem_cons] at hframes
    exact ⟨forall_mem_cons.2 ⟨hclosed _ _ _ hframes.1 hcalls, forall_mem_cons.2 hframes⟩, hhandlers⟩
  | tailCall hstack hi hcalls args =>
    rw [hstack, forall_mem_cons] at hframes
    exact ⟨forall_mem_cons.2 ⟨hclosed _ _ _ hframes.1 hcalls, hframes.2⟩, hhandlers⟩
  | @enter frame callers info blocks body hstack hi =>
    rw [hstack] at hframes
    obtain ⟨area, heq, -⟩ := @tryHandlers_tryTableEnter V s frame callers
      (L.tags frame.function) info
    refine ⟨forall_mem_cons.2 (forall_mem_cons.1 hframes), fun h hh => ?_⟩
    rw [heq] at hh
    obtain rfl | hh := mem_cons.1 hh
    · exact hframes
    · exact hhandlers h hh
  | leave hstack hi =>
    rw [hstack, forall_mem_cons] at hframes
    refine ⟨forall_mem_cons.2 hframes, fun h hh => hhandlers h ?_⟩
    cases heq : s.tryHandlers with
    | nil => simp [State.tryTableLeave, heq] at hh
    | cons h' below =>
      rw [tryTableLeave_cons heq] at hh
      exact mem_cons_of_mem _ hh
  | caught hstack hi hcaught =>
    obtain ⟨handler, clauseIdx, below, stack, hsearch, hresume, rfl⟩ :=
      doHandleException_eq_some hcaught
    have hsuffix := suffix_of_searchHandlers hsearch
    refine ⟨?_, fun h hh => hhandlers h (hsuffix.subset (by simp [show h ∈ below from hh]))⟩
    have hstack' := hhandlers handler (hsuffix.subset (by simp))
    obtain ⟨frame, b, frames, heq, rfl⟩ := resume_eq_some hresume
    rw [heq, forall_mem_cons] at hstack'
    exact forall_mem_cons.2 hstack'
  | ret hstack hi =>
    rw [hstack, forall_mem_cons] at hframes
    exact ⟨hframes.2, hhandlers⟩

theorem brTable_mem_of_defaultExits {body : List Instruction} {pc : Nat}
    (h : defaultExits body pc = true) : ∃ label, .brTable [] label ∈ body := by
  unfold defaultExits at h
  split at h
  next label heq => exact ⟨label, mem_of_getElem? heq⟩
  next => cases h

theorem not_exitsByDefault_of_within {s₀ : State V}
    (hclosed : ∀ f callee g, (∀ label, .brTable [] label ∉ f.body) → L.calls f callee g →
      ∀ label, .brTable [] label ∉ g.body)
    (hs : s₀.Within fun f => ∀ label, .brTable [] label ∉ f.body)
    (hrun : ReflTransGen (Step L) s₀ s) : ¬ s.ExitsByDefault := by
  have hwithin : s.Within fun f => ∀ label, .brTable [] label ∉ f.body := by
    induction hrun with
    | refl => exact hs
    | tail _ hstep ih => exact ih.step hclosed hstep
  rintro ⟨frame, callers, target, pc, hstack, -, hexits⟩
  obtain ⟨label, hmem⟩ := brTable_mem_of_defaultExits hexits
  exact hwithin.1 frame (by simp [hstack]) label hmem

/-- The next step leaves a handler behind, or stores a local into the area of another activation. -/
def State.Spoils (s : State V) : Prop :=
  s.ExitsByDefault ∨ s.StoresAfterCatch

theorem saved_of_avoids {function : CompiledFunction} {args : Index → V} {ptr : Option Nat}
    {saveAreas : Nat → Index → V}
    (hrun : Avoids L State.Spoils (.initial function args ptr saveAreas) s) :
    Orderly s ∧ Saved s := by
  refine keeps_of_avoids (P := fun s => Orderly s ∧ Saved s)
    ⟨orderly_initial function args ptr saveAreas, saved_initial function args ptr saveAreas⟩ ?_ hrun
  rintro s₁ s₂ ⟨ho, hs⟩ hstep hbad
  obtain ⟨hexit, hcaught⟩ := not_or.mp hbad
  exact ⟨ho.step hstep hexit, hs.step ho hstep hexit hcaught⟩

/-- As long as a run leaves no handler behind and stores no local while the pointer is left from a
catch by the outermost handler of an activation, the running function stores and reloads its locals
through its own save area, and its locals are the ones last assigned. If no run leaves handlers
behind, then this is so in every state of every run exactly if no run makes such a store. -/
theorem localsCurrent_iff_not_storesAfterCatch (L : Linking) (function : CompiledFunction)
    (args : Index → V) (ptr : Option Nat) (saveAreas : Nat → Index → V) :
    (∀ s, Avoids L State.Spoils (.initial function args ptr saveAreas) s → ¬ s.StoresAfterCatch →
      s.UsesOwnArea ∧ s.LocalsCurrent) ∧
    ((∀ s, ReflTransGen (Step L) (.initial function args ptr saveAreas) s → ¬ s.ExitsByDefault) →
      ((∀ s, ReflTransGen (Step L) (.initial function args ptr saveAreas) s →
        s.UsesOwnArea ∧ s.LocalsCurrent) ↔
        ∀ s, ReflTransGen (Step L) (.initial function args ptr saveAreas) s →
          ¬ s.StoresAfterCatch)) := by
  have hkeeps : ∀ s, Avoids L State.Spoils (.initial function args ptr saveAreas) s →
      ¬ s.StoresAfterCatch → s.UsesOwnArea ∧ s.LocalsCurrent := by
    intro s hrun hnot
    obtain ⟨ho, hs⟩ := saved_of_avoids hrun
    exact ⟨hs.usesOwnArea ho hnot, hs.localsCurrent ho⟩
  refine ⟨hkeeps, fun hexit => ⟨fun hcurrent s hrun hcaught => ?_, fun hcaught s hrun => ?_⟩⟩
  · obtain ⟨-, hnot⟩ | ⟨s₁, hrun₁, hbad⟩ := avoids_or_exists_bad State.Spoils hrun
    · exact hnot (.inr hcaught)
    · obtain ⟨ho, hs⟩ := saved_of_avoids hrun₁
      have hcaught₁ := hbad.resolve_left (hexit s₁ hrun₁.run)
      exact hs.not_usesOwnArea ho hcaught₁ (hcurrent s₁ hrun₁.run).1
  · obtain ⟨hrun', -⟩ | ⟨s₁, hrun₁, hbad⟩ := avoids_or_exists_bad State.Spoils hrun
    · exact hkeeps s hrun' (hcaught s hrun)
    · exact absurd hbad (not_or.mpr ⟨hexit s₁ hrun₁.run, hcaught s₁ hrun₁.run⟩)

end

/-- The options of a function with one local in a module without imports. -/
def compilerOfLocal (index : Index) : Compiler :=
  ⟨0, index, 1, false, false⟩

/-- A function that throws an exception and catches it. -/
def catchesItsThrow : CompiledFunction :=
  .of (compilerOfLocal 1) [.tryTable ⟨[], []⟩ [.catchAll 0], .throw 0, .endOp]
    (by simp [LocalsDeclared]) rfl rfl

/-- A function that calls the other one in a `try_table`, sets its local there and throws. -/
def setsLocalAfterCall : CompiledFunction :=
  .of (compilerOfLocal 0) [.block ⟨[], []⟩, .tryTable ⟨[], []⟩ [.catchAll 0], .call 1, .const 0x41,
    .localSet 0, .throw 0, .endOp, .endOp] (by simp [LocalsDeclared, compilerOfLocal]) rfl rfl

def callsTheOther : Linking where
  calls caller callee function :=
    caller = setsLocalAfterCall ∧ callee = .function 1 ∧ function = catchesItsThrow
  tags _ index := index

/-- The two functions leave no handlers behind. -/
theorem localsCurrent_iff_of_callsTheOther :
    (∀ s : State Bool, ReflTransGen (Step callsTheOther)
      (.initial setsLocalAfterCall (fun _ => false) none fun _ _ => false) s →
        ¬ s.ExitsByDefault) ∧
    ((∀ s : State Bool, ReflTransGen (Step callsTheOther)
      (.initial setsLocalAfterCall (fun _ => false) none fun _ _ => false) s →
        s.UsesOwnArea ∧ s.LocalsCurrent) ↔
      ∀ s : State Bool, ReflTransGen (Step callsTheOther)
        (.initial setsLocalAfterCall (fun _ => false) none fun _ _ => false) s →
          ¬ s.StoresAfterCatch) := by
  have hexit : ∀ s : State Bool, ReflTransGen (Step callsTheOther)
      (.initial setsLocalAfterCall (fun _ => false) none fun _ _ => false) s →
        ¬ s.ExitsByDefault := by
    intro s hrun
    refine not_exitsByDefault_of_within ?_ ⟨?_, ?_⟩ hrun
    · rintro f callee g - ⟨-, -, rfl⟩ label
      simp [catchesItsThrow, CompiledFunction.of]
    · simp [State.initial, setsLocalAfterCall, CompiledFunction.of]
    · simp [State.initial]
  exact ⟨hexit, (localsCurrent_iff_not_storesAfterCatch callsTheOther setsLocalAfterCall _ none _).2
    hexit⟩

theorem calls_catchesItsThrow :
    callsTheOther.calls setsLocalAfterCall (.function 1) catchesItsThrow :=
  And.intro rfl (And.intro rfl rfl)

def callerAt (index : Nat) (value : Bool) : Frame Bool :=
  ⟨0, setsLocalAfterCall, ⟨.block 3, index⟩, fun _ => value⟩

def callerHandler : TryHandler Bool :=
  ⟨[⟨0, setsLocalAfterCall, ⟨.block 0, 3⟩, fun _ => false⟩], [.catchAll 0], id, some 0⟩

variable (areas assigned : Nat → Index → Bool)

/-- The called function, before it throws. -/
def throwing (ownArea : Nat → Option Nat) : State Bool where
  stack := [⟨1, catchesItsThrow, ⟨.block 2, 4⟩, fun _ => false⟩, callerAt 4 false]
  tryHandlers := [⟨[⟨1, catchesItsThrow, ⟨.block 0, 2⟩, fun _ => false⟩, callerAt 4 false],
    [.catchAll 0], id, some 1⟩, callerHandler]
  localsSaveAreaPtr := some 1
  saveAreas := areas
  nextArea := 2
  nextId := 2
  assigned
  ownArea

theorem exists_throwing : ∃ areas assigned ownArea, areas 0 0 = false ∧ ownArea 0 = some 0 ∧
    ReflTransGen (Step callsTheOther)
      (.initial setsLocalAfterCall (fun _ => false) none fun _ _ => false)
      (throwing areas assigned ownArea) := by
  refine ⟨?_, ?_, ?_, ?_, ?_, ?_⟩
  rotate_left 5
  iterate 3 refine .head (.advance rfl rfl rfl) ?_
  refine .head (.enter rfl rfl) ?_
  refine .head (.advance rfl rfl rfl) ?_
  refine .head (.storeLocal rfl rfl rfl) ?_
  refine .head (.advance rfl rfl rfl) ?_
  refine .head (.call rfl (.inl rfl) calls_catchesItsThrow fun _ => false) ?_
  iterate 2 refine .head (.advance rfl rfl rfl) ?_
  refine .head (.enter rfl rfl) ?_
  refine .head (.advance rfl rfl rfl) ?_
  refine .head (.storeLocal rfl rfl rfl) ?_
  iterate 2 refine .head (.advance rfl rfl rfl) ?_
  exact .refl
  · rfl
  · rfl

/-- The caller, before it stores its local: the pointer still designates the area of the function
that has returned. -/
def storing (ownArea : Nat → Option Nat) : State Bool where
  stack := [⟨0, setsLocalAfterCall, ⟨.block 3, 9⟩, update (fun _ => false) 0 true⟩]
  tryHandlers := [callerHandler]
  localsSaveAreaPtr := some 1
  saveAreas := areas
  nextArea := 2
  nextId := 2
  assigned
  ownArea
  caughtBy := some 1

theorem storing_of_throwing (ownArea : Nat → Option Nat) :
    ∃ assigned', assigned' 0 0 = true ∧ ReflTransGen (Step callsTheOther)
      (throwing areas assigned ownArea) (storing areas assigned' ownArea) := by
  refine ⟨?_, ?_, ?_⟩
  rotate_left 2
  refine .head (.caught rfl rfl (rfl : State.doHandleException 0 _ = some _)) ?_
  refine .head (.advance rfl rfl rfl) ?_
  refine .head (.reloadLocal rfl rfl rfl) ?_
  refine .head (.advance rfl rfl rfl) ?_
  refine .head (.branch rfl rfl rfl (mem_singleton_self _)) ?_
  refine .head (.ret rfl rfl) ?_
  iterate 4 refine .head (.advance rfl rfl rfl) ?_
  refine .head (.defineVariable rfl rfl true) ?_
  exact .refl
  · rfl

theorem exists_caught_of_storing (ownArea : Nat → Option Nat) (hareas : areas 0 0 = false) :
    ∃ s' frame, s'.stack = [frame] ∧ frame.inst = some (.sourceOffset 8) ∧ frame.numLocals = 1 ∧
      frame.id = 0 ∧ frame.locals 0 = false ∧ s'.assigned = assigned ∧
      ReflTransGen (Step callsTheOther) (storing areas assigned ownArea) s' := by
  refine ⟨?_, ?_, ?_, ?_, ?_, ?_, ?_, ?_, ?_⟩
  rotate_left 8
  refine .head (.storeLocal rfl rfl rfl) ?_
  iterate 2 refine .head (.advance rfl rfl rfl) ?_
  refine .head (.caught rfl rfl (rfl : State.doHandleException 0 _ = some _)) ?_
  refine .head (.advance rfl rfl rfl) ?_
  refine .head (.reloadLocal rfl rfl rfl) ?_
  refine .head (.advance rfl rfl rfl) ?_
  refine .head (.branch rfl rfl rfl (mem_singleton_self _)) ?_
  exact .refl
  rotate_left
  iterate 4 rfl
  · exact hareas
  · rfl

/-- The local is set through the save area of the function that has returned, and it has its old
value when the exception is caught. -/
theorem not_localsCurrent_setsLocalAfterCall : ∃ s s' : State Bool,
    ReflTransGen (Step callsTheOther)
      (.initial setsLocalAfterCall (fun _ => false) none fun _ _ => false) s ∧ ¬ s.UsesOwnArea ∧
    ReflTransGen (Step callsTheOther) s s' ∧ ¬ s'.LocalsCurrent := by
  obtain ⟨areas, assigned, ownArea, hareas, hown, hrun⟩ := exists_throwing
  obtain ⟨assigned', hassigned, hrun₁⟩ := storing_of_throwing areas assigned ownArea
  obtain ⟨s', frame, hstack, hi, hnum, hid, hlocal, hsame, hrun₂⟩ :=
    exists_caught_of_storing areas assigned' ownArea hareas
  refine ⟨_, s', hrun.trans hrun₁, fun h => ?_, hrun₂, fun h => ?_⟩
  · obtain ⟨area, hptr, harea⟩ := h _ _ 0 rfl (.inl rfl)
    change some 1 = some area at hptr
    change ownArea 0 = some area at harea
    simp [hown, ← hptr] at harea
  · have hvalue := h frame [] 8 hstack hi 0 (by simp [hnum])
    simp [hlocal, hsame, hid, hassigned] at hvalue

end Andsifr.CallEngine
