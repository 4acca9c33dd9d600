import Andsifr.Lib.Slice
import Mathlib.Data.List.Induction

namespace Andsifr.Lib

namespace Slice

variable {α β : Type}

/-- Stores at the given places, one after the other. -/
def writeAll (s : Slice α) (ws : List (Nat × List α)) : Slice α :=
  ws.foldl (fun s w => s.overwrite w.1 w.2) s

theorem writeAll_append (s : Slice α) (ws vs : List (Nat × List α)) :
    s.writeAll (ws ++ vs) = (s.writeAll ws).writeAll vs :=
  List.foldl_append

@[simp] theorem writeAll_len (s : Slice α) (ws : List (Nat × List α)) :
    (s.writeAll ws).len = s.len := by
  induction ws generalizing s with
  | nil => rfl
  | cons w ws ih => exact ih (s.overwrite w.1 w.2)

/-- Two stores touch different elements. -/
def Apart (w v : Nat × List α) : Prop :=
  w.1 + w.2.length ≤ v.1 ∨ v.1 + v.2.length ≤ w.1

variable {s : Slice α} {w : Nat × List α} {ws : List (Nat × List α)}

/-- A store of which every other one is apart stays, also if it is repeated. -/
theorem extract_writeAll (hw : w ∈ ws)
    (hfits : ∀ v ∈ ws, v.1 + v.2.length ≤ s.len) (hapart : ∀ v ∈ ws, v = w ∨ Apart w v) :
    (s.writeAll ws).extract w.1 w.2.length = w.2 := by
  induction ws using List.reverseRecOn with
  | nil => cases hw
  | append_singleton ws v ih =>
    have hv : v.1 + v.2.length ≤ (s.writeAll ws).len := by simpa using hfits v (by simp)
    rw [writeAll_append]
    by_cases heq : v = w
    · subst heq
      exact extract_overwrite_same hv
    · refine (extract_overwrite_apart hv ((hapart v (by simp)).resolve_left heq)).trans (ih ?_
        (fun u hu => hfits u (by simp [hu])) fun u hu => hapart u (by simp [hu]))
      simpa [Ne.symm heq] using hw

theorem getElem?_writeAll {i : Nat} (hfits : ∀ v ∈ ws, v.1 + v.2.length ≤ s.len)
    (houtside : ∀ v ∈ ws, ¬ (v.1 ≤ i ∧ i < v.1 + v.2.length)) :
    (s.writeAll ws).toList[i]? = s.toList[i]? := by
  induction ws generalizing s with
  | nil => rfl
  | cons v ws ih =>
    have hrest := ih (s := s.overwrite v.1 v.2) (fun u hu => hfits u (by simp [hu]))
      fun u hu => houtside u (by simp [hu])
    refine hrest.trans ?_
    rw [getElem?_toList_overwrite (hfits v (by simp)), if_neg (houtside v (by simp))]

/-- A loop of which every step stores, as one list of stores. -/
theorem fold_writes {f : Nat → Slice α → β → Check (Slice α)} {w : Nat → β → List (Nat × List α)}
    {l : List β} {i n : Nat} (hlen : s.len = n)
    (hf : ∀ k b, l[k]? = some b → ∀ s : Slice α, s.len = n →
      f (i + k) s b = .ok (s.writeAll (w (i + k) b))) :
    Check.fold f i s l = .ok (s.writeAll ((l.zipIdx i).flatMap fun b => w b.2 b.1)) := by
  induction l generalizing i s with
  | nil => rfl
  | cons b l ih =>
    have hb : f i s b = .ok (s.writeAll (w i b)) := hf 0 b rfl s hlen
    rw [Check.fold, hb, List.zipIdx_cons, List.flatMap_cons, writeAll_append]
    refine ih (by rw [writeAll_len, hlen]) fun k c hc s hs => ?_
    have hstep := hf (k + 1) c (by rw [List.getElem?_cons_succ, hc]) s hs
    rwa [add_assoc, add_comm 1 k]

end Slice

theorem Check.step_of_fold_eq_ok {α β : Type} {f : Nat → β → α → Check β} {as : List α} {i k : Nat}
    {b b' : β} {a : α}
    (h : Check.fold f i b as = .ok b') (hk : as[k]? = some a) : ∃ c c', f (i + k) c a = .ok c' := by
  induction as generalizing i k b with
  | nil => simp at hk
  | cons d as ih =>
    obtain ⟨b₁, hd, hrest⟩ := Check.bind_inv h
    cases k with
    | zero =>
      cases hk
      exact ⟨b, b₁, hd⟩
    | succ k =>
      obtain ⟨c, c', hc⟩ := ih hrest hk
      exact ⟨c, c', by rwa [add_assoc, add_comm 1 k] at hc⟩

end Andsifr.Lib
