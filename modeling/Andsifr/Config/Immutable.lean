import Andsifr.Lib.Lists
import Andsifr.Config.ModuleConfig

namespace Andsifr.Config

open Lib List
open Andsifr.Lib.KeyedList (put Indexes)

variable {F : Type}

abbrev Mounts (F : Type) := List (String × Option F × String)

/-- The effect of the calls on the path from the root to a configuration. -/
structure Settings (F : Type) where
  args : List String
  environ : List (String × String)
  mounts : Mounts F

def pairs (l : List (String × String)) : List String :=
  l.flatMap fun e => [e.1, e.2]

def Settings.yield (e : Settings F) : Yield F :=
  ⟨e.args, pairs e.environ, e.mounts.map (·.2.1), e.mounts.map (·.2.2), []⟩

/-- Nil takes a mount away and never adds a path. -/
def withMount (cleaned : String) (fs : Option F) (guestPath : String) (m : Mounts F) : Mounts F :=
  if fs.isSome ∨ cleaned ∈ m.map Prod.fst then put cleaned (fs, guestPath) m else m

/-- The configurations as values: what a call makes depends on the value it is called on alone. -/
structure Values (F : Type) where
  fsConfigs : List (Mounts F)
  configs : List (Settings F)

def Values.withCall (t : Values F) (e : Settings F) : WithCall → Option (Settings F)
  | .withArgs args => some { e with args := args }
  | .withEnv key value => some { e with environ := put key value e.environ }
  | .withFSConfig none => some { e with mounts := [] }
  | .withFSConfig (some f) => t.fsConfigs[f]?.map fun m => { e with mounts := m }
  | .onClone => some e
  | .onCopy => some e

def Values.step (strip : String → String) (t : Values F) : Op F → Option (Values F)
  | .newModuleConfig => some { t with configs := t.configs ++ [⟨[], [], []⟩] }
  | .newFSConfig => some { t with fsConfigs := t.fsConfigs ++ [[]] }
  | .withCall config call => do
    let ret ← t.withCall (← t.configs[config]?) call
    return { t with configs := t.configs ++ [ret] }
  | .withSysFSMount config fs guestPath => do
    let m ← t.fsConfigs[config]?
    match fs with
    | .unimplementedFS => return t
    | .mount fs =>
      return { t with fsConfigs := t.fsConfigs ++ [withMount (strip guestPath) fs guestPath m] }
  | .instantiateModule config _ _ => t.configs[config]?.map fun _ => t

def Values.run (strip : String → String) (t : Values F) (ops : List (Op F)) : Option (Values F) :=
  ops.foldlM (Values.step strip) t

/-- Every configuration yields what the calls on its own path gave it. -/
structure YieldOwn (h : Heap F) (t : Values F) : Prop where
  configs : h.configs.map h.yields = t.configs.map fun e => some e.yield
  fsConfigs : h.fsConfigs.map (fun c => (c.fs, c.guestPaths)) =
    t.fsConfigs.map fun m => (m.map (·.2.1), m.map (·.2.2))

/-- A guest module is instantiated under a context that has addresses to listen on. -/
def Op.Listens : Op F → Prop
  | .instantiateModule _ isHostModule sockConfig => isHostModule = false ∧ sockConfig.getD [] ≠ []
  | _ => False

section Environ

theorem pairs_append (l m : List (String × String)) : pairs (l ++ m) = pairs l ++ pairs m :=
  flatMap_append

theorem length_pairs (l : List (String × String)) : (pairs l).length = 2 * l.length := by
  induction l with
  | nil => rfl
  | cons e es ih =>
    rw [pairs, flatMap_cons, length_append]
    change 2 + (pairs es).length = 2 * (es.length + 1)
    omega

theorem pairs_set {l : List (String × String)} {j : Nat} {k w : String} (h : l[j]? = some (k, w))
    (v : String) : (pairs l).set (2 * j + 1) v = pairs (l.set j (k, v)) := by
  induction l generalizing j with
  | nil => simp at h
  | cons e es ih =>
    cases j with
    | zero =>
      have he : e = (k, w) := by simpa using h
      rw [he]
      rfl
    | succ j =>
      have hes := ih (by simpa using h)
      change e.1 :: e.2 :: (pairs es).set (2 * j + 1) v = e.1 :: e.2 :: pairs (es.set j (k, v))
      rw [hes]

end Environ

/-- A file system configuration stands for its mounts. -/
structure Mounted (c : FSConfig F) (m : Mounts F) : Prop where
  fs : c.fs = m.map (·.2.1)
  guestPaths : c.guestPaths = m.map (·.2.2)
  index : Indexes 1 c.guestPathToFS m

/-- A configuration stands for its settings. Nothing says who else has the array and the map: they
are never written again. -/
structure Represents (h : Heap F) (c : ModuleConfig) (e : Settings F) : Prop where
  args : c.args = e.args
  environLen : c.environLen = 2 * e.environ.length
  environ : ∃ array, h.arrays[c.environ]? = some array ∧ array.take c.environLen = pairs e.environ
  keys : ∃ keys, h.maps[c.environKeys]? = some keys ∧ Indexes 2 keys e.environ
  mounts : match c.fsConfig with
    | none => e.mounts = []
    | some f => ∃ fs, h.fsConfigs[f]? = some fs ∧ Mounted fs e.mounts
  sock : c.sockConfig.getD [] = []

structure Matches (h : Heap F) (t : Values F) : Prop where
  fsConfigs : List.Forall₂ Mounted h.fsConfigs t.fsConfigs
  configs : List.Forall₂ (Represents h) h.configs t.configs

/-- What is at an address stays there. -/
structure Extends (h h' : Heap F) : Prop where
  arrays : h.arrays <+: h'.arrays
  maps : h.maps <+: h'.maps
  fsConfigs : h.fsConfigs <+: h'.fsConfigs

theorem set_concat_length {A : Type} (l : List A) (x y : A) :
    (l ++ [x]).set l.length y = l ++ [y] := by
  simp

theorem Represents.mono {h h' : Heap F} {c : ModuleConfig} {e : Settings F} (r : Represents h c e)
    (hext : Extends h h') : Represents h' c e := by
  obtain ⟨array, harray, htake⟩ := r.environ
  obtain ⟨keys, hkeys, hindex⟩ := r.keys
  refine ⟨r.args, r.environLen, ⟨array, getElem?_mono hext.arrays harray, htake⟩,
    ⟨keys, getElem?_mono hext.maps hkeys, hindex⟩, ?_, r.sock⟩
  have hmounts := r.mounts
  cases hfs : c.fsConfig with
  | none => simpa only [hfs] using hmounts
  | some f =>
    rw [hfs] at hmounts
    obtain ⟨fs, hf, hm⟩ := hmounts
    exact ⟨fs, getElem?_mono hext.fsConfigs hf, hm⟩

theorem Represents.yields {h : Heap F} {c : ModuleConfig} {e : Settings F} (r : Represents h c e) :
    h.yields c = some e.yield := by
  obtain ⟨array, harray, htake⟩ := r.environ
  have hpreopens : h.preopens c.fsConfig = some (e.mounts.map (·.2.1), e.mounts.map (·.2.2)) := by
    have hmounts := r.mounts
    split at hmounts
    · rename_i hfs
      rw [hfs, hmounts]
      rfl
    · rename_i f hfs
      obtain ⟨fs, hf, hm⟩ := hmounts
      rw [hfs, Heap.preopens, hf, Option.map_some, hm.fs, hm.guestPaths]
  simp only [Heap.yields, harray, hpreopens, Option.bind_eq_bind, Option.bind_some, htake,
    r.args, r.sock]
  rfl

theorem Matches.yieldOwn {h : Heap F} {t : Values F} (m : Matches h t) : YieldOwn h t where
  configs := by
    have hall := m.configs
    generalize t.configs = es at hall ⊢
    generalize h.configs = cs at hall ⊢
    induction hall with
    | nil => rfl
    | cons hr _ ih => rw [map_cons, map_cons, hr.yields, ih]
  fsConfigs := by
    have hall := m.fsConfigs
    generalize h.fsConfigs = cs at hall ⊢
    generalize t.fsConfigs = ms at hall ⊢
    induction hall with
    | nil => rfl
    | cons hr _ ih => rw [map_cons, map_cons, hr.fs, hr.guestPaths, ih]

section Clone

variable {h : Heap F} {c : ModuleConfig} {e : Settings F}

section

variable (r : Represents h c e)

include r

/-- A clone has an array and a map that nothing else has, and no room to append in place. -/
theorem Represents.clone : ∃ keys, Indexes 2 keys e.environ ∧ h.clone c = some
    ({ h with maps := h.maps ++ [keys], arrays := h.arrays ++ [pairs e.environ] },
      { c with environKeys := h.maps.length, environ := h.arrays.length }) := by
  obtain ⟨array, harray, htake⟩ := r.environ
  obtain ⟨keys, hkeys, hindex⟩ := r.keys
  refine ⟨keys, hindex, ?_⟩
  simp only [Heap.clone, hkeys, harray, Option.bind_eq_bind, Option.bind_some, htake]
  rfl

/-- With a fresh array and a fresh map that hold the environment, a copy stands for its settings. -/
theorem Represents.fresh {keys : String → Option Nat} {environ : List (String × String)}
    (hindex : Indexes 2 keys environ) (old : List (List String)) (extra : List String) :
    Represents
      { h with maps := h.maps ++ [keys], arrays := h.arrays ++ old ++ [pairs environ ++ extra] }
      { c with environKeys := h.maps.length, environ := (h.arrays ++ old).length,
               environLen := 2 * environ.length }
      { e with environ := environ } where
  args := r.args
  environLen := rfl
  environ := ⟨_, getElem?_concat_length, by
    rw [← length_pairs, take_left']
    rfl⟩
  keys := ⟨keys, getElem?_concat_length, hindex⟩
  mounts := r.mounts
  sock := r.sock

theorem Represents.withEnv (spare : Nat → Nat) (key value : String) :
    ∃ h' c', h.withEnv spare c key value = some (h', c') ∧ Extends h h' ∧
      h'.fsConfigs = h.fsConfigs ∧
      h'.configs = h.configs ∧ Represents h' c' { e with environ := put key value e.environ } := by
  obtain ⟨keys, hindex, hclone⟩ := r.clone
  have hkeys : (h.maps ++ [keys])[h.maps.length]? = some keys := getElem?_concat_length
  have harray : (h.arrays ++ [pairs e.environ])[h.arrays.length]? = some (pairs e.environ) :=
    getElem?_concat_length
  cases hkey : keys key with
  | some i =>
    -- the key has its place, and the value after it is overwritten in the fresh array
    obtain ⟨j, w, hj, rfl⟩ := (hindex key i).1 hkey
    have hput := hindex.put_eq_set Nat.zero_lt_two hj value
    have hlen : 2 * (e.environ.set j (key, value)).length = c.environLen := by
      rw [length_set, r.environLen]
    have hrep := r.fresh (hindex.set hj value) [] []
    rw [append_nil, append_nil, hlen, ← hput] at hrep
    refine ⟨_, _, ?_, ?_, ?_, ?_, hrep⟩
    · simp only [Heap.withEnv, hclone, Option.bind_eq_bind, Option.bind_some, hkeys, hkey, harray,
        pairs_set hj, set_concat_length, hput]
      rfl
    · exact ⟨prefix_append _ _, prefix_append _ _, prefix_rfl⟩
    · rfl
    · rfl
  | none =>
    have hrep := r.fresh (hindex.append hkey value) [pairs e.environ]
      (replicate (spare (pairs (e.environ ++ [(key, value)])).length) "")
    have hput := hindex.put_eq_append hkey value
    have hlen : 2 * (e.environ ++ [(key, value)]).length = c.environLen + 2 := by
      rw [length_append, length_singleton, r.environLen]
      omega
    rw [hlen, ← hput, ← r.environLen] at hrep
    refine ⟨_, _, ?_, ?_, ?_, ?_, hrep⟩
    · have htake : (pairs e.environ).take c.environLen = pairs e.environ := by
        rw [r.environLen, ← length_pairs, take_length]
      have hall : (pairs e.environ).take c.environLen ++ [key, value] =
          pairs (e.environ ++ [(key, value)]) := by
        rw [htake, pairs_append]
        rfl
      have hfull : ¬ (pairs (e.environ ++ [(key, value)])).length ≤ (pairs e.environ).length := by
        rw [length_pairs, length_pairs, length_append, length_singleton]
        omega
      simp only [Heap.withEnv, hclone, Option.bind_eq_bind, Option.bind_some, hkeys, hkey,
        Heap.append, harray, hall, if_neg hfull, set_concat_length, hput]
      rfl
    · exact ⟨(prefix_append _ _).trans (prefix_append _ _), prefix_append _ _, prefix_rfl⟩
    · rfl
    · rfl

/-- What a call makes stands for what the call gives on values, and nothing that was there is
written. -/
theorem Represents.withCall {t : Values F}
    (hfs : List.Forall₂ Mounted h.fsConfigs t.fsConfigs) {spare : Nat → Nat}
    {call : WithCall} {h' : Heap F}
    {c' : ModuleConfig} (hcall : h.withCall spare c call = some (h', c')) :
    Extends h h' ∧ h'.fsConfigs = h.fsConfigs ∧ h'.configs = h.configs ∧
      ∃ e', t.withCall e call = some e' ∧ Represents h' c' e' := by
  obtain ⟨keys, hindex, hclone⟩ := r.clone
  have hext : Extends h { h with maps := h.maps ++ [keys], arrays :=
    h.arrays ++ [pairs e.environ] } :=
    ⟨prefix_append _ _, prefix_append _ _, prefix_rfl⟩
  have hrep := r.fresh hindex [] []
  rw [append_nil, append_nil, ← r.environLen] at hrep
  cases call with
  | withArgs args =>
    simp only [Heap.withCall, hclone, Option.bind_eq_bind, Option.bind_some,
      Option.pure_def] at hcall
    cases hcall
    exact ⟨hext, rfl, rfl, _, rfl, { hrep with args := rfl }⟩
  | withEnv key value =>
    obtain ⟨h₁, c₁, hrun, hext, hfsConfigs, hconfigs, hrep⟩ := r.withEnv spare key value
    rw [Heap.withCall, hrun] at hcall
    cases hcall
    exact ⟨hext, hfsConfigs, hconfigs, _, rfl, hrep⟩
  | withFSConfig config =>
    simp only [Heap.withCall, hclone, Option.bind_eq_bind, Option.bind_some, Option.pure_def,
      guard] at hcall
    split at hcall
    · rename_i hvalid
      cases hcall
      cases config with
      | none => exact ⟨hext, rfl, rfl, _, rfl, { hrep with mounts := rfl }⟩
      | some f =>
        obtain ⟨fs, hf⟩ : ∃ fs, h.fsConfigs[f]? = some fs :=
          ⟨_, getElem?_eq_getElem (hvalid f rfl)⟩
        obtain ⟨m, hm, hmounted⟩ := exists_of_forall₂ hfs hf
        refine ⟨hext, rfl, rfl, { e with mounts := m }, ?_,
          { hrep with mounts := ⟨fs, hf, hmounted⟩ }⟩
        rw [Values.withCall, hm]
        rfl
    · cases hcall
  | onClone =>
    rw [Heap.withCall, hclone] at hcall
    cases hcall
    exact ⟨hext, rfl, rfl, _, rfl, hrep⟩
  | onCopy =>
    cases hcall
    exact ⟨⟨prefix_rfl, prefix_rfl, prefix_rfl⟩, rfl, rfl, _, rfl, r⟩

end

end Clone

theorem Mounted.withSysFSMount {c : FSConfig F} {m : Mounts F} (hm : Mounted c m)
    (strip : String → String)
    (fs : Option F) (guestPath : String) :
    Mounted (c.withSysFSMount strip fs guestPath) (withMount (strip guestPath) fs guestPath m) := by
  unfold withMount
  cases hkey : c.guestPathToFS (strip guestPath) with
  | some i =>
    obtain ⟨j, v, hj, rfl⟩ := (hm.index _ i).1 hkey
    have hmem : strip guestPath ∈ m.map Prod.fst := mem_map_of_mem (mem_of_getElem? hj)
    rw [if_pos (Or.inr hmem), hm.index.put_eq_set Nat.one_pos hj]
    simp only [FSConfig.withSysFSMount, hkey, Nat.one_mul]
    exact ⟨by rw [hm.fs, map_set], by rw [hm.guestPaths, map_set], hm.index.set hj _⟩
  | none =>
    have habsent : strip guestPath ∉ m.map Prod.fst := by
      rw [mem_map]
      rintro ⟨x, hx, hkx⟩
      exact hm.index.absent hkey x hx hkx
    cases fs with
    | none =>
      rw [if_neg (by simpa using habsent)]
      simp only [FSConfig.withSysFSMount, hkey]
      exact hm
    | some fs =>
      rw [hm.index.put_eq_append hkey]
      have hlen : c.fs.length = 1 * m.length := by rw [hm.fs, length_map, Nat.one_mul]
      have hindex := hm.index.append hkey (some fs, guestPath)
      rw [← hlen] at hindex
      simp only [FSConfig.withSysFSMount, hkey, Option.isSome_some, if_true]
      exact ⟨by simp [hm.fs], by simp [hm.guestPaths], hindex⟩

section Run

variable {strip : String → String} {spare : Nat → Nat} {h h' : Heap F} {t : Values F} {op : Op F}

theorem Represents.withConfigs {c : ModuleConfig} {e : Settings F} (r : Represents h c e)
    (cs : List ModuleConfig) : Represents { h with configs := cs } c e :=
  r.mono ⟨prefix_rfl, prefix_rfl, prefix_rfl⟩

theorem Matches.extend (m : Matches h t) (hext : Extends h h') {c : ModuleConfig} {e : Settings F}
    (hfs : h'.fsConfigs = h.fsConfigs) (hconfigs : h'.configs = h.configs) (r : Represents h' c e) :
    Matches { h' with configs := h'.configs ++ [c] } { t with configs := t.configs ++ [e] } where
  fsConfigs := by
    rw [hfs]
    exact m.fsConfigs
  configs := by
    rw [hconfigs]
    exact rel_append (m.configs.imp fun _ _ hr => (hr.mono hext).withConfigs _)
      (List.Forall₂.cons (r.withConfigs _) .nil)

theorem Matches.addMounts (m : Matches h t) {c : FSConfig F} {mounts : Mounts F}
    (hm : Mounted c mounts) :
    Matches { h with fsConfigs := h.fsConfigs ++ [c] }
    { t with fsConfigs := t.fsConfigs ++ [mounts] } where
  fsConfigs := rel_append m.fsConfigs (List.Forall₂.cons hm .nil)
  configs := m.configs.imp fun _ _ hr =>
    hr.mono ⟨prefix_rfl, prefix_rfl, prefix_append _ _⟩

theorem Matches.step (m : Matches h t) (hop : ¬ op.Listens)
    (hstep : h.step strip spare op = some h') :
    ∃ t', t.step strip op = some t' ∧ Matches h' t' := by
  cases op with
  | newModuleConfig =>
    cases hstep
    have hext : Extends h { h with arrays := h.arrays ++ [[]], maps :=
      h.maps ++ [fun _ => none] } :=
      ⟨prefix_append _ _, prefix_append _ _, prefix_rfl⟩
    refine ⟨_, rfl, m.extend hext rfl rfl ⟨rfl, rfl, ⟨[], getElem?_concat_length, rfl⟩,
      ⟨_, getElem?_concat_length, ?_⟩, rfl, rfl⟩⟩
    intro k i
    simp
  | newFSConfig =>
    cases hstep
    exact ⟨_, rfl, m.addMounts ⟨rfl, rfl, fun k i => by simp⟩⟩
  | withCall config call =>
    simp only [Heap.step, Option.bind_eq_bind, Option.bind_eq_some_iff] at hstep
    obtain ⟨c, hc, ⟨h₁, c₁⟩, hcall, hret⟩ := hstep
    cases hret
    obtain ⟨e, he, r⟩ := exists_of_forall₂ m.configs hc
    obtain ⟨hext, hfs, hconfigs, e₁, hcall', r₁⟩ := r.withCall m.fsConfigs hcall
    refine ⟨_, ?_, m.extend hext hfs hconfigs r₁⟩
    simp only [Values.step, he, Option.bind_eq_bind, Option.bind_some, hcall']
    rfl
  | withSysFSMount config fs guestPath =>
    simp only [Heap.step, Option.bind_eq_bind, Option.bind_eq_some_iff] at hstep
    obtain ⟨c, hc, hret⟩ := hstep
    obtain ⟨mounts, hmounts, hm⟩ := exists_of_forall₂ m.fsConfigs hc
    simp only [Values.step, hmounts, Option.bind_eq_bind, Option.bind_some]
    cases fs with
    | unimplementedFS =>
      cases hret
      exact ⟨t, rfl, m⟩
    | mount fs =>
      cases hret
      exact ⟨_, rfl, m.addMounts (hm.withSysFSMount strip fs guestPath)⟩
  | instantiateModule config isHostModule sockConfig =>
    simp only [Heap.step, Option.bind_eq_bind, Option.bind_eq_some_iff] at hstep
    obtain ⟨c, hc, hret⟩ := hstep
    obtain ⟨e, he, r⟩ := exists_of_forall₂ m.configs hc
    refine ⟨t, by rw [Values.step, he]; rfl, ?_⟩
    split at hret
    · rename_i hguest
      cases hret
      have hempty : sockConfig.getD [] = [] := by
        by_contra hne
        exact hop ⟨by simp at hguest; exact hguest.1, hne⟩
      refine ⟨m.fsConfigs, (forall₂_set m.configs hc ?_).imp fun _ _ hr => hr.withConfigs _⟩
      exact fun e hr => { hr with sock := hempty }
    · cases hret
      exact m

theorem Matches.run {ops : List (Op F)} (m : Matches h t) (hops : ∀ op ∈ ops, ¬ op.Listens)
    (hrun : h.run strip spare ops = some h') : ∃ t', t.run strip ops = some t' ∧ Matches h' t' := by
  induction ops generalizing h t with
  | nil =>
    cases hrun
    exact ⟨t, rfl, m⟩
  | cons op ops ih =>
    obtain ⟨h₁, hstep, hrest⟩ := Option.bind_eq_some_iff.1 (foldlM_cons.symm.trans hrun)
    obtain ⟨t₁, hstep', m₁⟩ := m.step (hops op mem_cons_self) hstep
    obtain ⟨t₂, hrest', m₂⟩ := ih m₁ (fun o ho => hops o (mem_cons_of_mem op ho)) hrest
    exact ⟨t₂, by rw [Values.run, foldlM_cons, hstep']; exact hrest', m₂⟩

/-- The configuration of a guest module keeps the addresses of the context. -/
theorem listening_of_step (hop : op.Listens) (hstep : h.step strip spare op = some h') :
    ∃ c ∈ h'.configs, c.sockConfig.getD [] ≠ [] := by
  cases op with
  | instantiateModule config isHostModule sockConfig =>
    obtain ⟨hguest, hne⟩ := hop
    cases sockConfig with
    | none => exact absurd rfl hne
    | some addresses =>
      simp only [Heap.step, Option.bind_eq_bind, Option.bind_eq_some_iff] at hstep
      obtain ⟨c, hc, hret⟩ := hstep
      rw [hguest] at hret
      cases hret
      exact ⟨_, mem_set (List.getElem?_eq_some_iff.1 hc).1 _, hne⟩
  | _ => exact hop.elim

theorem not_yieldOwn_of_listening (hc : ∃ c ∈ h.configs, c.sockConfig.getD [] ≠ []) :
    ¬ YieldOwn h t := by
  obtain ⟨c, hmem, hne⟩ := hc
  intro hown
  have hyield : h.yields c ∈ t.configs.map fun e => some e.yield :=
    hown.configs ▸ mem_map_of_mem hmem
  obtain ⟨e, -, he⟩ := mem_map.1 hyield
  obtain ⟨array, -, hrest⟩ := Option.bind_eq_some_iff.1 he.symm
  obtain ⟨fs, -, hret⟩ := Option.bind_eq_some_iff.1 hrest
  exact hne (congrArg Yield.tcpAddresses (Option.some.inj hret))

end Run

/-- In every state of every run all configurations yield the effect of their own calls, exactly if
no guest module is instantiated under a context with addresses to listen on. -/
theorem configs_immutable_iff (strip : String → String) (spare : Nat → Nat)
    (ops : List (Op F)) {h : Heap F}
    (hrun : Heap.run strip spare ⟨[], [], [], []⟩ ops = some h) :
    (∀ n h', Heap.run strip spare ⟨[], [], [], []⟩ (ops.take n) = some h' →
      ∃ t, Values.run strip ⟨[], []⟩ (ops.take n) = some t ∧ YieldOwn h' t) ↔
    ∀ op ∈ ops, ¬ op.Listens := by
  constructor
  · intro hown op hmem hop
    obtain ⟨before, after, rfl⟩ := append_of_mem hmem
    rw [append_cons, Heap.run, foldlM_append] at hrun
    obtain ⟨h₂, hrun₂, -⟩ := Option.bind_eq_some_iff.1 hrun
    have htake : (before ++ op :: after).take (before.length + 1) = before ++ [op] := by
      rw [append_cons, take_left' (by simp)]
    obtain ⟨t, -, ht⟩ := hown (before.length + 1) h₂ (by rw [htake]; exact hrun₂)
    rw [foldlM_append] at hrun₂
    obtain ⟨h₁, -, hlast⟩ := Option.bind_eq_some_iff.1 hrun₂
    obtain ⟨h₃, hstep, hret⟩ := Option.bind_eq_some_iff.1 (foldlM_cons.symm.trans hlast)
    cases hret
    exact not_yieldOwn_of_listening (listening_of_step hop hstep) ht
  · intro hops n h' hrun'
    have m : Matches (⟨[], [], [], []⟩ : Heap F) ⟨[], []⟩ := ⟨.nil, .nil⟩
    obtain ⟨t, ht, m'⟩ := m.run (fun op hop => hops op (mem_of_mem_take hop)) hrun'
    exact ⟨t, ht, m'.yieldOwn⟩

/-- Two configurations that share the environment of their parent, one of them written on. -/
theorem configs_immutable_siblings : (∃ h', Heap.run id (fun _ => 2) (⟨[], [], [], []⟩ : Heap Unit)
    [.newModuleConfig, .withCall 0 (.withEnv "k" "1"), .withCall 1 .onCopy,
      .withCall 1 (.withEnv "k" "2"),
      .instantiateModule 2 false none] = some h') ∧ ∀ n h', Heap.run id (fun _ => 2) (⟨[], [], [],
      []⟩ : Heap Unit)
    ([.newModuleConfig, .withCall 0 (.withEnv "k" "1"), .withCall 1 .onCopy,
      .withCall 1 (.withEnv "k" "2"), .instantiateModule 2 false none].take n) = some h' →
      ∃ t, Values.run id ⟨[], []⟩ ([.newModuleConfig, .withCall 0 (.withEnv "k" "1"),
        .withCall 1 .onCopy,
        .withCall 1 (.withEnv "k" "2"), .instantiateModule 2 false none].take n) = some t ∧
          YieldOwn h' t :=
  ⟨⟨_, rfl⟩, (configs_immutable_iff id (fun _ => 2) _ rfl).2 (by simp [Op.Listens])⟩

/-- After one instantiation under a context with a listener, the configuration listens for good. -/
theorem instantiated_config_listens : ∃ h, Heap.run id (fun _ => 0) (⟨[], [], [], []⟩ : Heap Unit)
    [.newModuleConfig, .instantiateModule 0 false (some [⟨"localhost", 8080⟩])] = some h ∧
      ¬ ∃ t, Values.run id ⟨[], []⟩
        [.newModuleConfig, .instantiateModule 0 false (some [⟨"localhost", 8080⟩])] = some t ∧
          YieldOwn h t :=
  ⟨_, rfl, fun ⟨_, _, hown⟩ => not_yieldOwn_of_listening ⟨_, mem_singleton_self _, by decide⟩ hown⟩

end Andsifr.Config
