import Andsifr.Wasm.Module

namespace Andsifr.Frontend

open Wasm List

inductive Ty where
  | i32 | i64 | f32 | f64 | v128
deriving DecidableEq, Repr

def Ty.bits : Ty → Nat
  | .i32 | .f32 => 32
  | .i64 | .f64 => 64
  | .v128 => 128

/-- A load or store relative to the parameters of an exception. -/
structure ParamAccess where
  offset : UInt32
  type : Ty
  deriving DecidableEq, Repr

namespace ParamAccess

def start (a : ParamAccess) : Nat :=
  a.offset.toNat

def stop (a : ParamAccess) : Nat :=
  a.start + a.type.bits / 8

def Apart (a b : ParamAccess) : Prop :=
  a.stop ≤ b.start ∨ b.stop ≤ a.start

end ParamAccess

/-- A type that is not known is a panic. -/
def wasmTypeToSSAType (vt : ValueType) : Option Ty :=
  if vt = .i32 then some .i32
  else if vt = .i64 ∨ vt = .externref ∨ vt = .funcref ∨ vt = .exnref then some .i64
  else if vt = .f32 then some .f32
  else if vt = .f64 then some .f64
  else if vt = .v128 then some .v128
  else if vt.isRef then some .i64
  else none

/-- The `uint64` slots that the runtime allocates. -/
def exceptionParamSlots (params : List ValueType) : Nat :=
  params.foldl (fun slots p => if p = .v128 then slots + 2 else slots + 1) 0

/-- The stores of a `throw`, of values of the given types; floats are stored as integers. -/
def throwStores (slot : Nat) : List Ty → List ParamAccess
  | [] => []
  | t :: ts =>
    let offset := UInt32.ofNat slot * 8
    match t with
    | .f32 => ⟨offset, .i32⟩ :: throwStores (slot + 1) ts
    | .f64 => ⟨offset, .i64⟩ :: throwStores (slot + 1) ts
    | .v128 => ⟨offset, .v128⟩ :: throwStores (slot + 2) ts
    | t => ⟨offset, t⟩ :: throwStores (slot + 1) ts

def loadExceptionParams (slot : Nat) : List ValueType → Option (List ParamAccess)
  | [] => some []
  | vt :: params => do
    let offset := UInt32.ofNat slot * 8
    match ← wasmTypeToSSAType vt with
    | .f32 => return ⟨offset, .i32⟩ :: (← loadExceptionParams (slot + 1) params)
    | .f64 => return ⟨offset, .i64⟩ :: (← loadExceptionParams (slot + 1) params)
    | .v128 => return ⟨offset, .v128⟩ :: (← loadExceptionParams (slot + 2) params)
    | t => return ⟨offset, t⟩ :: (← loadExceptionParams (slot + 1) params)

/-- The ranges are inside a buffer and no two overlap. -/
def LaidOut (slots : Nat) (accesses : List ParamAccess) : Prop :=
  accesses.Pairwise ParamAccess.Apart ∧ ∀ a ∈ accesses, a.stop ≤ 8 * slots

def slotsOf : Ty → Nat
  | .v128 => 2
  | _ => 1

/-- The type as which a parameter is stored. -/
def storedAs : Ty → Ty
  | .f32 => .i32
  | .f64 => .i64
  | t => t

theorem throwStores_cons (slot : Nat) (t : Ty) (ts : List Ty) : throwStores slot (t :: ts) =
      ⟨UInt32.ofNat slot * 8, storedAs t⟩ :: throwStores (slot + slotsOf t) ts := by
  cases t <;> rfl

theorem bits_storedAs (t : Ty) : 0 < (storedAs t).bits / 8 ∧ (storedAs t).bits / 8 ≤ 8 * slotsOf t ∧
    8 * slotsOf t < (storedAs t).bits / 8 + 8 := by
  cases t <;> decide

variable {slot : Nat}

theorem toNat_offset : (UInt32.ofNat slot * 8).toNat = 8 * (slot % 2 ^ 29) := by
  rw [UInt32.toNat_mul, UInt32.toNat_ofNat']
  simp only [UInt32.reduceToNat]
  omega

variable {ts : List Ty}

theorem throwStores_append (ts us : List Ty) (slot : Nat) :
    throwStores slot (ts ++ us) = throwStores slot ts ++ throwStores
    (slot + (ts.map slotsOf).sum) us := by
  induction ts generalizing slot with
  | nil => rfl
  | cons t ts ih =>
    rw [cons_append, throwStores_cons, ih, throwStores_cons, add_assoc]
    rfl

/-- While the offsets do not wrap around, each parameter has the bytes of its slots. -/
theorem mem_throwStores (hfits : slot + (ts.dropLast.map slotsOf).sum < 2 ^ 29) {a : ParamAccess}
    (ha : a ∈ throwStores slot ts) : 8 * slot ≤ a.start ∧
      a.stop ≤ 8 * (slot + (ts.map slotsOf).sum) := by
  induction ts generalizing slot with
  | nil => cases ha
  | cons t ts ih =>
    rw [throwStores_cons] at ha
    have hslot : 8 * (slot % 2 ^ 29) = 8 * slot := by omega
    rcases mem_cons.1 ha with rfl | ha
    · have hbits := bits_storedAs t
      simp only [ParamAccess.stop, ParamAccess.start, toNat_offset, hslot, map_cons, sum_cons]
      omega
    cases ts with
    | nil => cases ha
    | cons u ts =>
      rw [dropLast_cons_cons, map_cons, sum_cons, ← add_assoc] at hfits
      obtain ⟨hstart, hstop⟩ := ih hfits ha
      rw [map_cons, sum_cons]
      omega

theorem pairwise_throwStores (hfits : slot + (ts.dropLast.map slotsOf).sum < 2 ^ 29) :
    (throwStores slot ts).Pairwise ParamAccess.Apart := by
  induction ts generalizing slot with
  | nil => exact .nil
  | cons t ts ih =>
    cases ts with
    | nil => exact throwStores_cons slot t [] ▸ pairwise_singleton _ _
    | cons u ts =>
      rw [dropLast_cons_cons, map_cons, sum_cons, ← add_assoc] at hfits
      rw [throwStores_cons]
      refine pairwise_cons.2 ⟨fun a ha => .inl ?_, ih hfits⟩
      have hbits := bits_storedAs t
      have hslot : 8 * (slot % 2 ^ 29) = 8 * slot := by omega
      refine le_trans ?_ (mem_throwStores hfits ha).1
      simp only [ParamAccess.stop, ParamAccess.start, toNat_offset, hslot]
      omega

/-- Every slot that the offsets can name is used. -/
theorem exists_throwStores {s : Nat} (hslot : slot ≤ s) (hs : s < slot + (ts.map slotsOf).sum)
    (hlt : s < 2 ^ 29) : ∃ a ∈ throwStores slot ts, a.start ≤ 8 * s ∧ 8 * s < a.stop := by
  induction ts generalizing slot with
  | nil => exact absurd hs (not_lt.2 hslot)
  | cons t ts ih =>
    rw [throwStores_cons]
    rcases lt_or_ge s (slot + slotsOf t) with hhead | htail
    · have hbits := bits_storedAs t
      have hmod : 8 * (slot % 2 ^ 29) = 8 * slot := by omega
      refine ⟨_, mem_cons_self, ?_⟩
      simp only [ParamAccess.stop, ParamAccess.start, toNat_offset, hmod]
      omega
    · rw [map_cons, sum_cons, ← add_assoc] at hs
      obtain ⟨a, ha, hin⟩ := ih htail hs
      exact ⟨a, mem_cons_of_mem _ ha, hin⟩

theorem laidOut_throwStores_iff :
    LaidOut (ts.map slotsOf).sum (throwStores 0 ts) ↔ (ts.dropLast.map slotsOf).sum < 2 ^ 29 := by
  constructor
  · rintro ⟨hpairwise, -⟩
    rcases eq_nil_or_concat ts with rfl | ⟨us, t, rfl⟩
    · exact Nat.two_pow_pos 29
    rw [concat_eq_append] at hpairwise ⊢
    rw [dropLast_concat]
    by_contra hover
    -- The last offset has wrapped around to a slot of an earlier parameter.
    rw [throwStores_append, throwStores_cons, pairwise_append] at hpairwise
    have hearlier : (us.map slotsOf).sum % 2 ^ 29 < 0 + (us.map slotsOf).sum := by omega
    obtain ⟨a, ha, hstart, hstop⟩ :=
      exists_throwStores (Nat.zero_le _) hearlier (Nat.mod_lt _ (Nat.two_pow_pos 29))
    have hbits := bits_storedAs t
    have hapart := hpairwise.2.2 a ha _ mem_cons_self
    simp only [ParamAccess.Apart, ParamAccess.stop, ParamAccess.start, toNat_offset]
      at hapart hstart hstop
    omega
  · intro hfits
    rw [← zero_add (sum _)] at hfits
    refine ⟨pairwise_throwStores hfits, fun a ha => ?_⟩
    simpa using (mem_throwStores hfits ha).2

theorem wasmTypeToSSAType_proper {vt : ValueType} (h : vt.Proper) :
    ∃ t, wasmTypeToSSAType vt = some t ∧ slotsOf t = if vt = .v128 then 2 else 1 := by
  by_cases hv : vt = .v128
  · exact ⟨.v128, by rw [hv]; rfl, (if_pos hv).symm⟩
  unfold wasmTypeToSSAType
  split_ifs with hi32 hi64 hf32 hf64 href
  all_goals first
    | exact ⟨_, rfl, rfl⟩
    | skip
  rcases h with h | h
  · exact absurd h href
  · simp_all

variable {params : List ValueType}

/-- A handler loads what a `throw` has stored. -/
theorem loadExceptionParams_eq (h : ∀ vt ∈ params, vt.Proper) (slot : Nat) :
    ∃ ts, params.mapM wasmTypeToSSAType = some ts ∧
      loadExceptionParams slot params = some (throwStores slot ts) ∧
      ts.map slotsOf = params.map fun vt => if vt = .v128 then 2 else 1 := by
  induction params generalizing slot with
  | nil => exact ⟨[], rfl, rfl, rfl⟩
  | cons vt params ih =>
    obtain ⟨t, ht, hslots⟩ := wasmTypeToSSAType_proper (h vt mem_cons_self)
    obtain ⟨ts, hts, hload, hsum⟩ := ih (fun vt hvt => h vt (mem_cons_of_mem _ hvt))
      (slot + slotsOf t)
    refine ⟨t :: ts, ?_, ?_, ?_⟩
    · simp [ht, hts]
    · rw [throwStores_cons, loadExceptionParams, ht]
      cases t <;> simp only [slotsOf] at hload <;> simp [hload, slotsOf, storedAs]
    · rw [map_cons, map_cons, hslots, hsum]

theorem exceptionParamSlots_eq (params : List ValueType) :
    exceptionParamSlots params = (params.map fun vt => if vt = .v128 then 2 else 1).sum := by
  have hfold (n : Nat) :
      params.foldl (fun slots p => if p = .v128 then slots + 2 else slots + 1) n =
      n + (params.map fun vt => if vt = .v128 then 2 else 1).sum := by
    induction params generalizing n with
    | nil => rfl
    | cons p params ih =>
      rw [foldl_cons, ih, map_cons, sum_cons]
      split <;> omega
  rw [exceptionParamSlots, hfold, zero_add]

/-- A `throw` and its handlers agree on where the parameters are. These are apart and inside the
buffer exactly if the last offset fits in 32 bits. -/
theorem exceptionParams_laidOut_iff (h : ∀ vt ∈ params, vt.Proper) :
    ∃ ts accesses, params.mapM wasmTypeToSSAType = some ts ∧ throwStores 0 ts = accesses ∧
      loadExceptionParams 0 params = some accesses ∧
      (LaidOut (exceptionParamSlots params) accesses ↔
        exceptionParamSlots params.dropLast < 2 ^ 29) := by
  obtain ⟨ts, hts, hload, hslots⟩ := loadExceptionParams_eq h 0
  refine ⟨ts, _, hts, rfl, hload, ?_⟩
  rw [exceptionParamSlots_eq, exceptionParamSlots_eq, map_dropLast, ← hslots, ← map_dropLast]
  exact laidOut_throwStores_iff

theorem exceptionParams_laidOut_iff_vector : (∀ vt ∈ [ValueType.i32, .v128], vt.Proper) ∧
    ∃ ts accesses, [ValueType.i32, .v128].mapM wasmTypeToSSAType = some ts ∧
      throwStores 0 ts = accesses ∧
      loadExceptionParams 0 [.i32, .v128] = some accesses ∧
      (LaidOut (exceptionParamSlots [.i32, .v128]) accesses ↔
        exceptionParamSlots [ValueType.i32, .v128].dropLast < 2 ^ 29) :=
  ⟨by decide, exceptionParams_laidOut_iff (by decide)⟩

/-- Of so many parameters the last has the offset of the first. -/
theorem not_laidOut_wrapped : ¬ ∃ accesses,
    loadExceptionParams 0 (replicate (2 ^ 29 + 1) .i32) = some accesses ∧
      LaidOut (exceptionParamSlots (replicate (2 ^ 29 + 1) .i32)) accesses := by
  generalize hn : 2 ^ 29 + 1 = n
  rintro ⟨accesses, hload, hlaid⟩
  have hproper : ∀ vt ∈ replicate n ValueType.i32, vt.Proper := by
    intro vt hvt
    rw [eq_of_mem_replicate hvt]
    decide
  obtain ⟨ts, -, hload', hslots⟩ := loadExceptionParams_eq hproper 0
  rw [hload, Option.some.injEq] at hload'
  rw [exceptionParamSlots_eq, ← hslots, hload', laidOut_throwStores_iff, map_dropLast,
    hslots] at hlaid
  simp only [map_replicate, dropLast_replicate, sum_replicate_nat] at hlaid
  rw [if_neg (by decide)] at hlaid
  omega

end Andsifr.Frontend
