import Mathlib.Order.Lattice.Nat

namespace Andsifr.Lib

open List

variable {α : Type*}

/-- A walk from `entry` along the edges, with the nodes it has visited. -/
inductive Walk (edge : α → α → Prop) (entry : α) : α → List α → Prop where
  | entry : Walk edge entry entry [entry]
  | step {a b : α} {visited : List α} : Walk edge entry a visited → edge a b →
    Walk edge entry b (b :: visited)

section Walk

variable (edge : α → α → Prop) (entry : α)

def Reachable (b : α) : Prop :=
  ∃ visited, Walk edge entry b visited

def Dominates (d b : α) : Prop :=
  ∀ visited, Walk edge entry b visited → d ∈ visited

/-- `d` strictly dominates `b`, has the property, and is dominated by all others that do so. -/
structure NearestDominator (P : α → Prop) (d b : α) : Prop where
  prop : P d
  ne : d ≠ b
  dominates : Dominates edge entry d b
  nearest : ∀ c, P c → c ≠ b → Dominates edge entry c b → Dominates edge entry c d

/-- The number of nodes on a shortest walk. -/
noncomputable def distance (b : α) : Nat :=
  sInf {n | ∃ visited, Walk edge entry b visited ∧ visited.length = n}

variable {edge entry} {a b d : α} {visited : List α}

theorem Walk.mem (h : Walk edge entry b visited) : b ∈ visited := by
  cases h <;> exact mem_cons_self

theorem Walk.exists_shorter (h : Walk edge entry b visited) (hd : d ∈ visited) (hne : d ≠ b) :
    ∃ visited', Walk edge entry d visited' ∧ visited'.length < visited.length := by
  induction h with
  | entry => exact absurd (mem_singleton.1 hd) hne
  | @step a b visited hwalk _ ih =>
    have hd := (mem_cons.1 hd).resolve_left hne
    by_cases hda : d = a
    · exact ⟨visited, hda ▸ hwalk, Nat.lt_succ_self _⟩
    · obtain ⟨visited', hwalk', hlt⟩ := ih hd hda
      exact ⟨visited', hwalk', hlt.trans (Nat.lt_succ_self _)⟩

theorem Dominates.refl (b : α) : Dominates edge entry b b :=
  fun _ hwalk => hwalk.mem

theorem Dominates.entry_eq (h : Dominates edge entry d entry) : d = entry :=
  mem_singleton.1 (h _ .entry)

theorem Dominates.distance_lt (h : Dominates edge entry d b) (hb : Reachable edge entry b)
    (hne : d ≠ b) :
    Reachable edge entry d ∧ distance edge entry d < distance edge entry b := by
  obtain ⟨visited, hwalk⟩ := hb
  obtain ⟨visited, hwalk, hlength⟩ := Nat.sInf_mem
    (show {n | ∃ visited, Walk edge entry b visited ∧ visited.length = n}.Nonempty
      from ⟨_, visited, hwalk, rfl⟩)
  obtain ⟨visited', hwalk', hlt⟩ := hwalk.exists_shorter (h visited hwalk) hne
  refine ⟨⟨visited', hwalk'⟩, Nat.lt_of_le_of_lt (Nat.sInf_le ⟨visited', hwalk', rfl⟩) ?_⟩
  rwa [hlength] at hlt

theorem Dominates.trans (h : Dominates edge entry a d) (h' : Dominates edge entry d b) :
    Dominates edge entry a b := by
  intro visited hwalk
  induction hwalk with
  | entry =>
    rw [h'.entry_eq] at h
    exact h _ .entry
  | @step c b visited hwalk hedge ih =>
    by_cases hdb : d = b
    · exact hdb ▸ h _ (hdb ▸ .step hwalk hedge)
    · refine mem_cons_of_mem _ (ih ?_)
      exact fun _ hwalk' => (mem_cons.1 (h' _ (.step hwalk' hedge))).resolve_left hdb

theorem Dominates.antisymm (h : Dominates edge entry a b) (h' : Dominates edge entry b a)
    (hb : Reachable edge entry b) : a = b := by
  by_contra hne
  obtain ⟨ha, hlt⟩ := h.distance_lt hb hne
  exact absurd (h'.distance_lt ha (Ne.symm hne)).2 (lt_asymm hlt)

theorem NearestDominator.unique {P : α → Prop} {c : α} (h : NearestDominator edge entry P d b)
    (h' : NearestDominator edge entry P c b) (hb : Reachable edge entry b) : d = c :=
  (h'.nearest d h.prop h.ne h.dominates).antisymm (h.nearest c h'.prop h'.ne h'.dominates)
    (h'.dominates.distance_lt hb h'.ne).1

end Walk

end Andsifr.Lib
