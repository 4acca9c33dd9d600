import Mathlib.Algebra.Order.BigOperators.Group.List
import Mathlib.Algebra.Order.Group.Nat
import Andsifr.Lib.Dominators

namespace Andsifr.Ssa

open Lib List

/-- The fields of the builder and of its blocks that `passBuildLoopNestingForest` reads. The entry
block is 0, and a nil dominator makes the code panic. -/
structure LoopBuilder where
  reversePostOrderedBasicBlocks : List Nat
  dominators : Nat → Option Nat
  loopHeader : Nat → Bool

structure LoopNestingForest where
  roots : List Nat := []
  children : Nat → List Nat := fun _ => []

def LoopNestingForest.addChild (f : LoopNestingForest) (n blk : Nat) : LoopNestingForest :=
  { f with children := Function.update f.children n (f.children n ++ [blk]) }

def remember (path : List Nat) (r : Nat) (nearest : Nat → Option Nat) : Nat → Option Nat :=
  path.foldl (fun nearest p => Function.update nearest p (some r)) nearest

namespace LoopBuilder

def addRoot (b : LoopBuilder) (f : LoopNestingForest) (blk : Nat) : LoopNestingForest :=
  if b.loopHeader blk then { f with roots := f.roots ++ [blk] } else f

def nearestLoopHeaderAtOrAbove (b : LoopBuilder) :
    Nat → List Nat → Nat → (Nat → Option Nat) → Option (Nat × (Nat → Option Nat))
  | 0, _, _, _ => none
  | fuel + 1, path, n, nearest =>
    match nearest n with
    | some r => some (r, remember path r nearest)
    | none =>
      if b.loopHeader n ∨ n = 0 then
        some (n, remember path n (Function.update nearest n (some n)))
      else
        (b.dominators n).bind fun d => b.nearestLoopHeaderAtOrAbove fuel (path ++ [n]) d nearest

def attach (b : LoopBuilder) (fuel : Nat) (s : (Nat → Option Nat) × LoopNestingForest) (blk : Nat) :
    Option ((Nat → Option Nat) × LoopNestingForest) :=
  (b.dominators blk).bind fun idom =>
    if idom = 0 then
      some (s.1, b.addRoot s.2 blk)
    else
      (b.nearestLoopHeaderAtOrAbove fuel [] idom s.1).map fun (n, nearest) =>
        (nearest, if n = 0 then b.addRoot s.2 blk else s.2.addChild n blk)

def passBuildLoopNestingForest (b : LoopBuilder) (fuel : Nat) : Option LoopNestingForest :=
  (b.reversePostOrderedBasicBlocks.foldlM (b.attach fuel) (fun _ => none, {})).map Prod.snd

/-- The walk of `nearestLoopHeaderAtOrAbove` without the memo. -/
inductive AtOrAbove (b : LoopBuilder) : Nat → Nat → Prop
  | here {n : Nat} (h : b.loopHeader n ∨ n = 0) : AtOrAbove b n n
  | above {n d r : Nat} (h : ¬ (b.loopHeader n ∨ n = 0)) (hd : b.dominators n = some d)
    (hr : AtOrAbove b d r) :
      AtOrAbove b n r

/-- What the pass is given: the reachable blocks in some order, and in each slot a strict dominator
that all loop headers above the block dominate. It is the immediate dominator, or else its next
dominator that is not a trampoline of a split edge. -/
structure HoldsDominators (b : LoopBuilder) (edge : Nat → Nat → Prop) : Prop where
  nodup : b.reversePostOrderedBasicBlocks.Nodup
  mem_iff : ∀ {blk}, blk ∈ b.reversePostOrderedBasicBlocks ↔ Reachable edge 0 blk
  entry : b.dominators 0 = some 0
  slot : ∀ blk, Reachable edge 0 blk → blk ≠ 0 → ∃ d, b.dominators blk = some d ∧ d ≠ blk ∧
    Dominates edge 0 d blk ∧ ∀ h, b.loopHeader h → h ≠ blk → Dominates edge 0 h blk →
      Dominates edge 0 h d

/-- `h` is the nearest strict dominator that is a loop header, the entry block apart. -/
def Encloses (b : LoopBuilder) (edge : Nat → Nat → Prop) (h blk : Nat) : Prop :=
  NearestDominator edge 0 (fun c => b.loopHeader c ∧ c ≠ 0) h blk

/-- The blocks are attached to what encloses them. -/
structure Nests (b : LoopBuilder) (edge : Nat → Nat → Prop) (blocks : List Nat)
    (f : LoopNestingForest) : Prop where
  children : ∀ {h blk}, blk ∈ f.children h ↔ blk ∈ blocks ∧ b.Encloses edge h blk
  roots : ∀ {blk}, blk ∈ f.roots ↔ blk ∈ blocks ∧ b.loopHeader blk ∧ ∀ h, ¬ b.Encloses edge h blk
  children_nodup : ∀ h, (f.children h).Nodup
  roots_nodup : f.roots.Nodup

def Remembers (b : LoopBuilder) (nearest : Nat → Option Nat) : Prop :=
  ∀ n r, nearest n = some r → b.AtOrAbove n r

variable {b : LoopBuilder} {edge : Nat → Nat → Prop} {nearest : Nat → Option Nat}
    {fuel blk n d r c : Nat}
  {path blocks : List Nat} {f : LoopNestingForest}

theorem Remembers.update (hm : b.Remembers nearest) (hn : b.AtOrAbove n r) :
    b.Remembers (Function.update nearest n (some r)) := by
  intro m r' hr'
  by_cases hmn : m = n
  · subst hmn
    rw [Function.update_self] at hr'
    exact Option.some.inj hr' ▸ hn
  · rw [Function.update_of_ne hmn] at hr'
    exact hm m r' hr'

theorem Remembers.remember (hm : b.Remembers nearest) (hpath : ∀ p ∈ path, b.AtOrAbove p r) :
    b.Remembers (remember path r nearest) := by
  induction path generalizing nearest with
  | nil => exact hm
  | cons p path ih =>
    rw [forall_mem_cons] at hpath
    exact ih (hm.update hpath.1) hpath.2

section

variable (h : b.HoldsDominators edge)

include h

theorem HoldsDominators.climb (hm : b.Remembers nearest) (hn : Reachable edge 0 n)
    (hpath : ∀ p ∈ path, ∀ r, b.AtOrAbove n r → b.AtOrAbove p r)
    (hfuel : distance edge 0 n < fuel) :
    ∃ r nearest', b.nearestLoopHeaderAtOrAbove fuel path n nearest = some (r, nearest') ∧
      b.AtOrAbove n r ∧ b.Remembers nearest' := by
  induction fuel generalizing n path with
  | zero => exact absurd hfuel (Nat.not_lt_zero _)
  | succ fuel ih =>
    unfold nearestLoopHeaderAtOrAbove
    split
    next r hr =>
      have hnr := hm n r hr
      exact ⟨r, _, rfl, hnr, hm.remember fun p hp => hpath p hp r hnr⟩
    split
    next hstop =>
      have hnn : b.AtOrAbove n n := .here hstop
      exact ⟨n, _, rfl, hnn, (hm.update hnn).remember fun p hp => hpath p hp n hnn⟩
    next hgo =>
      obtain ⟨d, hd, hne, hdom, -⟩ := h.slot n hn fun hzero => hgo (Or.inr hzero)
      obtain ⟨hreach, hlt⟩ := hdom.distance_lt hn hne
      have hpath' : ∀ p ∈ path ++ [n], ∀ r, b.AtOrAbove d r → b.AtOrAbove p r := by
        intro p hp r hr
        have hnr : b.AtOrAbove n r := .above hgo hd hr
        rcases mem_append.1 hp with hp | hp
        · exact hpath p hp r hnr
        · exact mem_singleton.1 hp ▸ hnr
      obtain ⟨r, nearest', hclimb, hr, hm'⟩ := ih hreach hpath' (by omega)
      exact ⟨r, nearest', by rw [hd]; exact hclimb, .above hgo hd hr, hm'⟩

theorem HoldsDominators.atOrAbove (hr : b.AtOrAbove n r) (hn : Reachable edge 0 n) :
    Reachable edge 0 r ∧ (r ≠ 0 → b.loopHeader r) ∧ Dominates edge 0 r n ∧
      ∀ c, b.loopHeader c → Dominates edge 0 c n → Dominates edge 0 c r := by
  induction hr with
  | here hstop => exact ⟨hn, hstop.resolve_right, .refl _, fun _ _ hc => hc⟩
  | @above n d r hgo hd _ ih =>
    obtain ⟨d', hd', hne, hdom, hall⟩ := h.slot n hn fun hzero => hgo (Or.inr hzero)
    obtain rfl := Option.some.inj (hd.symm.trans hd')
    obtain ⟨hreach, hheader, hrd, hnearest⟩ := ih (hdom.distance_lt hn hne).1
    refine ⟨hreach, hheader, hrd.trans hdom, fun c hc hcn => hnearest c hc (hall c hc ?_ hcn)⟩
    rintro rfl
    exact hgo (Or.inl hc)

/-- What the walk finds encloses the block, if it is not the entry block. -/
theorem HoldsDominators.encloses_iff (hblk : Reachable edge 0 blk) (hd : b.dominators blk = some d)
    (hr : b.AtOrAbove d r) : b.Encloses edge c blk ↔ c = r ∧ r ≠ 0 := by
  by_cases hzero : blk = 0
  · subst hzero
    obtain rfl := Option.some.inj (h.entry.symm.trans hd)
    have hr0 : r = 0 := by
      cases hr with
      | here => rfl
      | above hgo => exact absurd (Or.inr rfl) hgo
    exact ⟨fun hc => absurd hc.dominates.entry_eq hc.ne, fun hc => absurd hr0 hc.2⟩
  obtain ⟨d', hd', hne, hdom, hall⟩ := h.slot blk hblk hzero
  obtain rfl := Option.some.inj (hd.symm.trans hd')
  obtain ⟨hreach, hheader, hrd, hnearest⟩ := h.atOrAbove hr (hdom.distance_lt hblk hne).1
  have hrb : r ≠ blk := by
    rintro rfl
    exact hne (hdom.antisymm hrd hblk)
  constructor
  · intro hc
    have hcr := hnearest c hc.prop.1 (hall c hc.prop.1 hc.ne hc.dominates)
    have hr0 : r ≠ 0 := by
      rintro rfl
      exact hc.prop.2 hcr.entry_eq
    exact ⟨hcr.antisymm (hc.nearest r ⟨hheader hr0, hr0⟩ hrb (hrd.trans hdom)) hreach, hr0⟩
  · rintro ⟨rfl, hr0⟩
    exact ⟨⟨hheader hr0, hr0⟩, hrb, hrd.trans hdom, fun a ha hab hdomab =>
      hnearest a ha.1 (hall a ha.1 hab hdomab)⟩

end

theorem Nests.addRoot (h : b.Nests edge blocks f) (hblk : blk ∉ blocks)
    (hnone : ∀ c, ¬ b.Encloses edge c blk) :
    b.Nests edge (blocks ++ [blk]) (b.addRoot f blk) := by
  have hsame : ∀ (P : Nat → Prop) {a}, ¬ P blk → (a ∈ blocks ∧ P a ↔ a ∈ blocks ++ [blk] ∧
    P a) := by
    intro P a hP
    rw [mem_append, mem_singleton]
    refine and_congr_left fun ha => (or_iff_left ?_).symm
    rintro rfl
    exact hP ha
  unfold LoopBuilder.addRoot
  split
  case isTrue hheader =>
    refine ⟨fun {c a} => h.children.trans (hsame _ (hnone c)), fun {a} => ?_, h.children_nodup, ?_⟩
    · rw [mem_append, mem_append, h.roots, or_and_right, mem_singleton]
      refine or_congr_right (iff_self_and.2 ?_)
      rintro rfl
      exact ⟨hheader, hnone⟩
    · exact concat_eq_append ▸ h.roots_nodup.concat fun ha => hblk (h.roots.1 ha).1
  case isFalse hheader =>
    refine ⟨fun {c a} => h.children.trans (hsame _ (hnone c)), fun {a} => h.roots.trans ?_,
      h.children_nodup, h.roots_nodup⟩
    exact hsame (fun a => b.loopHeader a ∧ ∀ c, ¬ b.Encloses edge c a) fun ha => hheader ha.1

theorem Nests.addChild (h : b.Nests edge blocks f) (hblk : blk ∉ blocks)
    (hr : ∀ c, b.Encloses edge c blk ↔ c = r) :
    b.Nests edge (blocks ++ [blk]) (f.addChild r blk) := by
  have hmem : ∀ {c a}, a ∈ (f.addChild r blk).children c ↔ a ∈ f.children c ∨ a = blk ∧ c = r := by
    intro c a
    unfold LoopNestingForest.addChild
    by_cases hc : c = r
    · subst hc
      simp
    · simp [hc]
  refine ⟨fun {c a} => ?_, fun {a} => ?_, fun c => ?_, h.roots_nodup⟩
  · rw [hmem, h.children, mem_append, or_and_right, mem_singleton]
    refine or_congr_right (and_congr_right ?_)
    rintro rfl
    exact (hr c).symm
  · rw [mem_append, mem_singleton]
    refine h.roots.trans (and_congr_left fun ha => (or_iff_left ?_).symm)
    rintro rfl
    exact ha.2 r ((hr r).2 rfl)
  · dsimp only [LoopNestingForest.addChild]
    by_cases hc : c = r
    · subst hc
      rw [Function.update_self]
      exact concat_eq_append ▸ (h.children_nodup c).concat fun ha => hblk (h.children.1 ha).1
    · rw [Function.update_of_ne hc]
      exact h.children_nodup c

theorem Nests.attach (h : b.Nests edge blocks f) (hd : b.HoldsDominators edge)
    (hm : b.Remembers nearest)
    (hfuel : ∀ n, Reachable edge 0 n → distance edge 0 n < fuel) (hblk : Reachable edge 0 blk)
    (hnew : blk ∉ blocks) :
    ∃ nearest' f', b.attach fuel (nearest, f) blk = some (nearest', f') ∧
      b.Remembers nearest' ∧ b.Nests edge (blocks ++ [blk]) f' := by
  obtain ⟨idom, hidom, hreach⟩ : ∃ idom, b.dominators blk = some idom ∧ Reachable edge 0 idom := by
    by_cases hzero : blk = 0
    · exact ⟨0, hzero ▸ hd.entry, [0], .entry⟩
    · obtain ⟨d, hd, hne, hdom, -⟩ := hd.slot blk hblk hzero
      exact ⟨d, hd, (hdom.distance_lt hblk hne).1⟩
  rw [LoopBuilder.attach, hidom, Option.bind_some]
  split
  case isTrue hzero =>
    refine ⟨nearest, _, rfl, hm, h.addRoot hnew fun c hc => ?_⟩
    exact ((hd.encloses_iff hblk hidom (.here (Or.inr hzero))).1 hc).2 hzero
  case isFalse =>
    obtain ⟨r, nearest', hclimb, hr, hm'⟩ := hd.climb hm hreach (forall_mem_nil _)
      (hfuel idom hreach)
    rw [hclimb]
    refine ⟨nearest', _, rfl, hm', ?_⟩
    split
    next hzero => exact h.addRoot hnew fun c hc => ((hd.encloses_iff hblk hidom hr).1 hc).2 hzero
    next hne =>
      exact h.addChild hnew fun c => (hd.encloses_iff hblk hidom hr).trans (and_iff_left hne)

theorem Nests.foldlM (hd : b.HoldsDominators edge)
    (hfuel : ∀ n, Reachable edge 0 n → distance edge 0 n < fuel)
    {rest : List Nat} (horder : b.reversePostOrderedBasicBlocks = blocks ++ rest)
    (h : b.Nests edge blocks f)
    (hm : b.Remembers nearest) :
    ∃ nearest' f', rest.foldlM (b.attach fuel) (nearest, f) = some (nearest', f') ∧
      b.Nests edge b.reversePostOrderedBasicBlocks f' := by
  induction rest generalizing blocks nearest f with
  | nil =>
    rw [horder, append_nil]
    exact ⟨nearest, f, rfl, h⟩
  | cons blk rest ih =>
    have hblk : blk ∈ b.reversePostOrderedBasicBlocks := by simp [horder]
    have hnew : blk ∉ blocks := fun hmem =>
      (nodup_append.1 (horder ▸ hd.nodup)).2.2 blk hmem blk mem_cons_self rfl
    obtain ⟨nearest', f', hattach, hm', h'⟩ := h.attach hd hm hfuel (hd.mem_iff.1 hblk) hnew
    rw [foldlM_cons, hattach]
    exact ih (by rw [horder, append_assoc]; rfl) h' hm'

/-- The forest attaches every block to its nearest strict dominator that is a loop header and not
the entry block, or else to the roots if it is a loop header itself, and no block twice. -/
theorem passBuildLoopNestingForest_nests (hd : b.HoldsDominators edge) :
    ∃ n, ∀ fuel, n ≤ fuel → ∃ f, b.passBuildLoopNestingForest fuel = some f ∧
      b.Nests edge b.reversePostOrderedBasicBlocks f ∧
      ∀ h h' blk, blk ∈ f.children h → blk ∈ f.children h' → h = h' := by
  refine ⟨(b.reversePostOrderedBasicBlocks.map (distance edge 0)).sum + 1, fun fuel hfuel => ?_⟩
  have hlt : ∀ n, Reachable edge 0 n → distance edge 0 n < fuel := fun n hn =>
    Nat.lt_of_lt_of_le (Nat.lt_succ_of_le (le_sum_of_mem (mem_map_of_mem (hd.mem_iff.2 hn)))) hfuel
  have hempty : b.Nests edge [] {} :=
    ⟨by simp, by simp, fun _ => nodup_nil, nodup_nil⟩
  have hnone : b.Remembers fun _ => none := fun _ _ hr => nomatch hr
  obtain ⟨nearest, f, hfold, h⟩ := Nests.foldlM hd hlt rfl hempty hnone
  refine ⟨f, by rw [passBuildLoopNestingForest, hfold]; rfl, h, fun c c' blk hc hc' => ?_⟩
  obtain ⟨hblk, hc⟩ := h.children.1 hc
  exact hc.unique (h.children.1 hc').2 (hd.mem_iff.1 hblk)

section Row

variable {n : Nat} {header : Nat → Bool}

theorem visits_of_le (hedge : ∀ a c, edge a c → c ≤ a + 1 ∧ c < n) {blk d : Nat}
    {visited : List Nat} (hwalk : Walk edge 0 blk visited) (hle : d ≤ blk) : d ∈ visited := by
  induction hwalk with
  | entry => exact mem_singleton.2 (Nat.le_zero.1 hle)
  | @step a c _ _ hac ih =>
    rcases lt_or_eq_of_le hle with hlt | rfl
    · exact mem_cons_of_mem _ (ih (by have := (hedge a c hac).1; omega))
    · exact mem_cons_self

theorem exists_walk (hnext : ∀ a, a + 1 < n → edge a (a + 1)) {blk : Nat} (hlt : blk < n) :
    ∃ visited, Walk edge 0 blk visited ∧ ∀ d ∈ visited, d ≤ blk := by
  induction blk with
  | zero => exact ⟨_, .entry, by simp⟩
  | succ blk ih =>
    obtain ⟨visited, hwalk, hle⟩ := ih (by omega)
    refine ⟨_, .step hwalk (hnext blk hlt), fun d hd => ?_⟩
    rcases mem_cons.1 hd with rfl | hd
    · exact le_refl _
    · exact Nat.le_succ_of_le (hle d hd)

/-- Blocks in a row, each of which goes on to the next one or back, dominate those behind them. -/
theorem holdsDominators_row (hn : 0 < n) (hnext : ∀ a, a + 1 < n → edge a (a + 1))
    (hedge : ∀ a c, edge a c → c ≤ a + 1 ∧ c < n) :
    (LoopBuilder.mk (range n) (fun blk => some (blk - 1)) header).HoldsDominators edge := by
  have hreach {blk : Nat} : Reachable edge 0 blk → blk < n := by
    rintro ⟨_, hwalk⟩
    cases hwalk with
    | entry => exact hn
    | step _ hac => exact (hedge _ _ hac).2
  refine ⟨nodup_range, fun {blk} => ⟨fun hblk => ?_, fun h => mem_range.2 (hreach h)⟩, rfl,
    fun blk hblk hne => ⟨blk - 1, rfl, by omega, fun _ hwalk => ?_, fun h _ hh hdom _ hwalk => ?_⟩⟩
  · obtain ⟨visited, hwalk, -⟩ := exists_walk hnext (mem_range.1 hblk)
    exact ⟨visited, hwalk⟩
  · exact visits_of_le hedge hwalk (Nat.sub_le _ _)
  · obtain ⟨visited, hstraight, hle⟩ := exists_walk hnext (hreach hblk)
    have := hle h (hdom visited hstraight)
    exact visits_of_le hedge hwalk (by omega)

end Row

/-- Six blocks in a row, with a loop of 1 and 2 and behind it a loop of 3 and 4. -/
def twoLoops : LoopBuilder :=
  ⟨range 6, fun blk => some (blk - 1), fun blk => blk == 1 || blk == 3⟩

def twoLoopsEdge (a c : Nat) : Prop :=
  c = a + 1 ∧ c < 6 ∨ a = 2 ∧ c = 1 ∨ a = 4 ∧ c = 3

/-- Block 3 is attached to the header that was remembered for block 2, and block 5 to that of block
4. -/
theorem passBuildLoopNestingForest_nests_twoLoops : twoLoops.HoldsDominators twoLoopsEdge ∧
    ∃ n, ∀ fuel, n ≤ fuel → ∃ f, twoLoops.passBuildLoopNestingForest fuel = some f ∧
      f.roots = [1] ∧ f.children 1 = [2, 3] ∧ f.children 3 = [4, 5] ∧
      twoLoops.Nests twoLoopsEdge (range 6) f := by
  have hdoms : twoLoops.HoldsDominators twoLoopsEdge :=
    holdsDominators_row (by decide) (fun a ha => .inl ⟨rfl, ha⟩)
      (fun a c h => by unfold twoLoopsEdge at h; omega)
  obtain ⟨n, hn⟩ := passBuildLoopNestingForest_nests hdoms
  refine ⟨hdoms, n + 6, fun fuel hfuel => ?_⟩
  obtain ⟨k, rfl⟩ := Nat.exists_eq_add_of_le' (Nat.le_of_add_left_le hfuel)
  obtain ⟨f, hf, hnests, -⟩ := hn (k + 6) (Nat.le_of_add_right_le hfuel)
  obtain ⟨g, hg, hroots, hone, hthree⟩ : ∃ g, twoLoops.passBuildLoopNestingForest (k + 6) = some g ∧
      g.roots = [1] ∧ g.children 1 = [2, 3] ∧ g.children 3 = [4, 5] :=
    ⟨_, rfl, rfl, rfl, rfl⟩
  obtain rfl := Option.some.inj (hf.symm.trans hg)
  exact ⟨f, hf, hroots, hone, hthree, hnests⟩

/-- The entry block and a block that jumps back to it. -/
def backToEntry : LoopBuilder :=
  ⟨[0, 1], fun _ => some 0, (· == 0)⟩

theorem holdsDominators_backToEntry : backToEntry.HoldsDominators fun a c => a + c = 1 := by
  have hrow : (LoopBuilder.mk (range 2) (fun blk => some (blk - 1)) (· == 0)).HoldsDominators
      fun a c => a + c = 1 :=
    holdsDominators_row (by decide) (by omega) (by omega)
  refine ⟨hrow.nodup, hrow.mem_iff, rfl, fun blk hblk hne => ?_⟩
  have hlt : blk < 2 := mem_range.1 (hrow.mem_iff.2 hblk)
  obtain rfl : blk = 1 := by omega
  exact hrow.slot 1 hblk hne

/-- The entry block is the nearest loop header above the other block, but nothing is attached to
it. -/
theorem entry_loopHeader_childless : (backToEntry.HoldsDominators fun a c => a + c = 1) ∧
    NearestDominator (fun a c => a + c = 1) 0 (fun c => backToEntry.loopHeader c) 0 1 ∧
    ∀ fuel, backToEntry.passBuildLoopNestingForest fuel = some { roots := [0] } := by
  have hone : Reachable (fun a c => a + c = 1) 0 1 := ⟨_, .step .entry rfl⟩
  obtain ⟨d, hd, hne, hdom, hall⟩ := holdsDominators_backToEntry.slot 1 hone (by decide)
  obtain rfl := Option.some.inj hd
  exact ⟨holdsDominators_backToEntry, ⟨rfl, hne, hdom, hall⟩, fun _ => rfl⟩

end LoopBuilder

end Andsifr.Ssa
