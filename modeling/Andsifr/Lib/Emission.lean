import Mathlib.Data.List.Basic

namespace Andsifr.Lib.Emission

variable {I V : Type}

abbrev Regs (V : Type) := Nat → V

def Regs.set (s : Regs V) (rd : Nat) (v : V) : Regs V :=
  fun r => if r = rd then v else s r

@[simp] theorem Regs.set_same (s : Regs V) (rd : Nat) (v : V) : s.set rd v rd = v :=
  if_pos rfl

theorem Regs.set_of_ne (s : Regs V) {rd r : Nat} (v : V) (h : r ≠ rd) : s.set rd v r = s r :=
  if_neg h

theorem Regs.set_set (s : Regs V) (rd : Nat) (v w : V) : (s.set rd v).set rd w = s.set rd w := by
  funext r
  by_cases hr : r = rd
  · rw [hr, Regs.set_same, Regs.set_same]
  · rw [Regs.set_of_ne _ _ hr, Regs.set_of_ne _ _ hr, Regs.set_of_ne _ _ hr]

theorem Regs.set_eq_self {s : Regs V} {rd : Nat} {v : V} (h : s rd = v) : s.set rd v = s := by
  funext r
  by_cases hr : r = rd
  · rw [hr, Regs.set_same, h]
  · rw [Regs.set_of_ne _ _ hr]

/-- The code emitted so far, the next register that is not in use and the values whose own
instruction is not needed any more. -/
structure Buffer (I : Type) where
  code : List I
  next : Nat
  lowered : List Nat

namespace Buffer

variable (b : Buffer I)

def insert (is : List I) : Buffer I :=
  { b with code := b.code ++ is }

def allocate : Buffer I :=
  { b with next := b.next + 1 }

def markLowered (v : Nat) : Buffer I :=
  { b with lowered := b.lowered ++ [v] }

@[simp] theorem insert_next (is : List I) : (b.insert is).next = b.next := rfl
@[simp] theorem insert_lowered (is : List I) : (b.insert is).lowered = b.lowered := rfl
@[simp] theorem allocate_next : b.allocate.next = b.next + 1 := rfl
@[simp] theorem allocate_lowered : b.allocate.lowered = b.lowered := rfl
@[simp] theorem markLowered_next (v : Nat) : (b.markLowered v).next = b.next := rfl
@[simp] theorem markLowered_lowered (v : Nat) : (b.markLowered v).lowered = b.lowered ++ [v] := rfl

end Buffer

variable {step : Regs V → I → Option (Regs V)} {b b' b'' : Buffer I} {s s' s'' : Regs V}

/-- The code between two buffers runs and leaves the registers that were in use alone. -/
structure Emits (step : Regs V → I → Option (Regs V)) (b b' : Buffer I) (s s' : Regs V) : Prop where
  code : ∃ is, b'.code = b.code ++ is ∧ is.foldlM step s = some s'
  next_le : b.next ≤ b'.next
  keeps : ∀ r < b.next, s' r = s r

theorem Emits.refl (step : Regs V → I → Option (Regs V)) (b : Buffer I) (s : Regs V) :
    Emits step b b s s :=
  ⟨⟨[], by simp, rfl⟩, Nat.le_refl _, fun _ _ => rfl⟩

theorem Emits.trans (h : Emits step b b' s s') (h' : Emits step b' b'' s' s'') :
    Emits step b b'' s s'' := by
  obtain ⟨is, hcode, hrun⟩ := h.code
  obtain ⟨js, hcode', hrun'⟩ := h'.code
  refine ⟨⟨is ++ js, by rw [hcode', hcode, List.append_assoc], ?_⟩, ?_, ?_⟩
  · rw [List.foldlM_append, hrun]
    exact hrun'
  · exact Nat.le_trans h.next_le h'.next_le
  · intro r hr
    rw [h'.keeps r (Nat.lt_of_lt_of_le hr h.next_le), h.keeps r hr]

theorem Emits.markLowered (h : Emits step b b' s s') (v : Nat) :
    Emits step b (b'.markLowered v) s s' :=
  ⟨h.code, h.next_le, h.keeps⟩

theorem Emits.det (h : Emits step b b' s s') (h' : Emits step b b' s s'') : s' = s'' := by
  obtain ⟨is, hcode, hrun⟩ := h.code
  obtain ⟨js, hcode', hrun'⟩ := h'.code
  rw [List.append_cancel_left (hcode.symm.trans hcode'), hrun'] at hrun
  exact (Option.some.inj hrun).symm

theorem emits_fresh {is : List I} (hrun : is.foldlM step s = some s')
    (hkeeps : ∀ r, r ≠ b.next → s' r = s r) : Emits step b (b.allocate.insert is) s s' :=
  ⟨⟨is, rfl, hrun⟩, Nat.le_succ _, fun r hr => hkeeps r (Nat.ne_of_lt hr)⟩

end Andsifr.Lib.Emission
