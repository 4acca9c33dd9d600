import Andsifr.Wasi.AtPath

namespace Andsifr.Wasi

open Lib Wasm Descriptor Sys Sysfs Check List Bool MemoryInstance

/-- What a path of the host starts from. On Windows, two separators stand before the name of a
server and of what it shares, and `\\.`, `\\?` or `\??` before that of a device. A drive, or a
device, is followed by the root of its files if there is a separator; without it the name of a drive
stands for its current directory. -/
inductive Start where
  | relative
  | rooted
  | share
  | drive (letter : UInt8) (rooted : Bool)
  | devices
  | device (name : Path) (rooted : Bool)
  deriving DecidableEq, Repr

section

variable (host : Host)

def hostElements (p : Path) : List Path :=
  p.splitOnP host.isPathSeparator

/-- The names that lead to what the path denotes, from where it starts. -/
def location (p : Path) : List Path :=
  walk (fun e => e == [] || e == [dot]) (· == [dot, dot]) [] (hostElements host p)

def question : UInt8 := 0x3f

/-- After a first separator, `c` and `c'` open a path of a device. -/
def isDevices (c c' : UInt8) : Bool :=
  host.isPathSeparator c && (c' == dot || c' == question) || c == question && c' == question

/-- Where a path of Windows starts, after its first separator. -/
def windowsStart : Path → Start
  | [] => .rooted
  | [c] => if host.isPathSeparator c then .share else .rooted
  | [c, c'] =>
    if isDevices host c c' then .devices else if host.isPathSeparator c then .share else .rooted
  | c :: c' :: c'' :: rest =>
    if isDevices host c c' && host.isPathSeparator c'' then
      .device (rest.takeWhile (!host.isPathSeparator ·)) (rest.any host.isPathSeparator)
    else if host.isPathSeparator c then .share else .rooted

def start : Path → Start
  | [] => .relative
  | c :: rest =>
    if host.isPathSeparator c then if host.windows then windowsStart host rest else .rooted
    else if host.windows && rest.head? == some colon then
      .drive c (rest[1]?.any host.isPathSeparator)
    else .relative

def NoParent (p : Path) : Prop :=
  ∀ e ∈ hostElements host p, e ≠ [dot, dot]

end

/-- The path, joined to the directory, does not leave it. -/
structure Inside {host : Host} (d : DirFS host) (path : Path) : Prop where
  start : start host (d.join path) = start host d.dir
  below : location host d.dir <+: location host (d.join path)

section

variable {host : Host} {p q : Path} {c : UInt8}

theorem isPathSeparator_slash : host.isPathSeparator slash = true := by
  simp [Host.isPathSeparator]

theorem isPathSeparator_pathSeparator : host.isPathSeparator host.pathSeparator = true := by
  unfold Host.isPathSeparator Host.pathSeparator
  cases host.windows <;> rfl

theorem hostElements_append (hc : host.isPathSeparator c = true) :
    hostElements host (p ++ c :: q) = hostElements host p ++ hostElements host q :=
  splitOnP_append_cons p q hc

theorem NoParent.append (hp : NoParent host p) (hq : NoParent host q)
    (hc : host.isPathSeparator c = true) : NoParent host (p ++ c :: q) := by
  intro e he
  rw [hostElements_append hc] at he
  obtain he | he := mem_append.1 he
  · exact hp e he
  · exact hq e he

theorem noParent_nil : NoParent host [] := by
  intro e he
  rw [hostElements, splitOnP_nil, mem_singleton] at he
  rw [he]
  decide

theorem location_concat (hc : host.isPathSeparator c = true) :
    location host (p ++ [c]) = location host p := by
  rw [location, hostElements_append hc, walk_append]
  rfl

theorem prefix_location_append (hc : host.isPathSeparator c = true) (hq : NoParent host q) :
    location host p <+: location host (p ++ c :: q) := by
  rw [location, location, hostElements_append hc, walk_append]
  exact prefix_walk fun e he => beq_eq_false_iff_ne.2 (hq e he)

theorem start_append_of_not_windows (hwindows : host.windows = false) (h : p ≠ []) :
    start host (p ++ q) = start host p := by
  match p, h with
  | c :: p, _ => simp [start, hwindows]

/-- The path is nothing but the name of a volume, or empty. -/
def isVolume (host : Host) : Path → Bool
  | [] => true
  | [c] => host.isPathSeparator c
  | [c, c'] => !host.isPathSeparator c && c' == colon
  | [c, c', c''] => host.isPathSeparator c && isDevices host c' c''
  | c :: c' :: c'' :: s :: name => host.isPathSeparator c && isDevices host c' c'' &&
    host.isPathSeparator s && !name.any host.isPathSeparator

theorem takeWhile_append_of_any {name : Path} (h : name.any host.isPathSeparator = true) :
    (name ++ q).takeWhile (!host.isPathSeparator ·) =
      name.takeWhile (!host.isPathSeparator ·) := by
  induction name with
  | nil => cases h
  | cons c name ih =>
    rw [cons_append, takeWhile_cons, takeWhile_cons]
    cases hc : host.isPathSeparator c with
    | true => rfl
    | false =>
      rw [any_cons, hc, Bool.false_or] at h
      simp [ih h]

theorem ne_of_isPathSeparator (hc : host.isPathSeparator c = true) :
    c ≠ colon ∧ c ≠ dot ∧ c ≠ question := by
  simp only [Host.isPathSeparator, or_eq_true, and_eq_true, beq_iff_eq] at hc
  obtain rfl | ⟨-, rfl⟩ := hc <;> decide

/-- A separator after anything more than the name of a volume does not change where it starts. -/
theorem start_append (hvolume : isVolume host p = false) (hc : host.isPathSeparator c = true) :
    start host (p ++ c :: q) = start host p := by
  obtain ⟨hcolon, hdot, hquestion⟩ := ne_of_isPathSeparator hc
  match p, hvolume with
  | [b], hvolume =>
    have hb : host.isPathSeparator b = false := hvolume
    simp [start, hb, hcolon]
  | [b, b'], hvolume =>
    have hdevices : isDevices host b' c = false := by simp [isDevices, hdot, hquestion]
    cases hb : host.isPathSeparator b with
    | true => cases q <;> simp [start, windowsStart, hb, hdevices]
    | false =>
      have hb' : ¬ b' = colon := by simpa [isVolume, hb] using hvolume
      simp [start, hb, hb']
  | [b, b', b''], hvolume =>
    cases hb : host.isPathSeparator b with
    | true =>
      have hdevices : isDevices host b' b'' = false := by simpa [isVolume, hb] using hvolume
      simp [start, windowsStart, hb, hdevices]
    | false => simp [start, hb]
  | b :: b' :: b'' :: s :: name, hvolume =>
    cases hb : host.isPathSeparator b with
    | true =>
      cases hdevices : isDevices host b' b'' && host.isPathSeparator s with
      | true =>
        have hname : name.any host.isPathSeparator = true := by
          rw [isVolume, hb, Bool.true_and, hdevices, Bool.true_and] at hvolume
          simpa using hvolume
        simp [start, windowsStart, hb, hdevices, hname, takeWhile_append_of_any hname]
      | false => simp [start, windowsStart, hb, hdevices]
    | false => simp [start, hb]

/-- Splitting at the separators of the host or at slashes is the same, if there is no other one. -/
theorem hostElements_eq (h : host.windows = true → ∀ c ∈ p, c ≠ backslash) :
    hostElements host p = slashElements p := by
  unfold hostElements slashElements splitOn
  induction p with
  | nil => rfl
  | cons c p ih =>
    have hc : host.isPathSeparator c = (c == slash) := by
      unfold Host.isPathSeparator
      cases hwindows : host.windows with
      | false => simp
      | true => simp [h hwindows c mem_cons_self]
    rw [splitOnP_cons_eq_if_modifyHead, splitOnP_cons_eq_if_modifyHead, hc,
      ih fun hwindows c' hc' => h hwindows c' (mem_cons_of_mem c hc')]

theorem noParent_of_validPath (hvalid : validPath p = true)
    (hescape : pathEscapesOnWindows host p = false) : NoParent host p := by
  have hbackslash : host.windows = true → ∀ c ∈ p, c ≠ backslash := by
    rintro hwindows c hc rfl
    rw [pathEscapesOnWindows, hwindows, Bool.true_and, windowsPathNeedsEscape, Bool.or_eq_false_iff,
      any_eq_false] at hescape
    exact hescape.1 backslash hc rfl
  intro e he
  rw [hostElements_eq hbackslash] at he
  rw [validPath, and_eq_true, or_eq_true, beq_iff_eq, all_eq_true] at hvalid
  obtain rfl | hall := hvalid.2
  · rw [slashElements, splitOn_eq_singleton (by decide), mem_singleton] at he
    rw [he]
    decide
  · have hne := hall e he
    simp only [and_eq_true, bne_iff_ne] at hne
    exact hne.2

end

section

variable {host : Host} {d : DirFS host} {path : Path}

/-- The directory without the separator at its end, if it has one. -/
def base (d : DirFS host) : Path :=
  if host.isPathSeparator (d.dir.getLast d.dir_ne_nil) then d.dir.dropLast else d.dir

theorem exists_separator (d : DirFS host) : ∃ c, d.cleanedDir = base d ++ [c] ∧
    host.isPathSeparator c = true ∧ (d.dir = base d ∨ d.dir = base d ++ [c]) := by
  unfold DirFS.cleanedDir base
  split
  next h =>
    exact ⟨d.dir.getLast d.dir_ne_nil, (dropLast_append_getLast _).symm, h,
      .inr (dropLast_append_getLast _).symm⟩
  next => exact ⟨host.pathSeparator, rfl, isPathSeparator_pathSeparator, .inl rfl⟩

/-- The directory is a separator or the name of a volume, perhaps with a separator after it. -/
def Bare (d : DirFS host) : Prop :=
  isVolume host (base d) = true

theorem start_base (hbare : host.windows = true → ¬ Bare d) (hbase : base d ≠ [])
    (hc : host.isPathSeparator c = true) :
    start host (base d ++ c :: path) = start host (base d) := by
  cases hwindows : host.windows with
  | false => exact start_append_of_not_windows hwindows hbase
  | true => exact start_append (eq_false_iff.mpr (hbare hwindows)) hc

theorem inside_of_noParent (hbare : host.windows = true → ¬ Bare d) (hp : NoParent host path) :
    Inside d path := by
  obtain ⟨c, hcleaned, hc, hdir⟩ := exists_separator d
  have hlocation : location host d.dir = location host (base d) := by
    obtain hdir | hdir := hdir
    · rw [← hdir]
    · rw [hdir, location_concat hc]
  have hempty : base d = [] → d.dir = [c] ∧ host.windows = false := by
    intro hbase
    rw [hbase] at hdir
    refine ⟨hdir.resolve_left d.dir_ne_nil, eq_false_iff.mpr fun hwindows => ?_⟩
    exact hbare hwindows (by rw [Bare, hbase, isVolume])
  have hstart : base d ≠ [] → start host d.dir = start host (base d) := by
    intro hbase
    obtain hdir | hdir := hdir
    · rw [← hdir]
    · rw [hdir, start_base hbare hbase hc]
  obtain hjoin | ⟨hjoin, hbase⟩ | hjoin : d.join path = d.dir ∨
      d.join path = base d ∧ base d ≠ [] ∨ d.join path = base d ++ c :: path := by
    unfold DirFS.join
    rw [hcleaned, dropLast_concat, append_assoc, singleton_append]
    split
    next =>
      split
      next hroot =>
        obtain ⟨hbase, hslash⟩ : base d = [] ∧ c = slash := by
          simpa using append_inj' (hroot.trans (nil_append [slash]).symm) rfl
        exact .inl (by rw [(hempty hbase).1, hslash])
      next hroot =>
        refine .inr (.inl ⟨rfl, fun hbase => hroot ?_⟩)
        have hslash : c = slash := by simpa [Host.isPathSeparator, (hempty hbase).2] using hc
        rw [hbase, hslash, nil_append]
    next => exact .inr (.inr rfl)
  · exact ⟨by rw [hjoin], hjoin ▸ prefix_refl _⟩
  · exact ⟨by rw [hjoin, hstart hbase], hjoin ▸ hlocation ▸ prefix_refl _⟩
  · refine ⟨?_, hjoin ▸ hlocation ▸ prefix_location_append hc hp⟩
    rw [hjoin]
    by_cases hbase : base d = []
    · rw [hbase, (hempty hbase).1, nil_append]
      exact @start_append_of_not_windows host [c] path (hempty hbase).2 (cons_ne_nil _ _)
    · rw [start_base hbare hbase hc, hstart hbase]

end

/-- What holds of the open files: no name, except of one that was open from the start, leads out of
its file system. -/
structure Contained (host : Host) (fsc : FSContext) : Prop where
  small : fsc.openedFiles.Small
  names : ∀ fd f, fsc.lookupFile fd = some f → f.isPreopen = false → NoParent host f.name

section

variable {host : Host} {fsc fsc' : FSContext}

section

variable (h : Contained host fsc)

include h

theorem Contained.insert {e : FileEntry} {key : Int} {ok : Bool}
    {t : Table FileEntry} (hname : e.isPreopen = false → NoParent host e.name)
    (hinsert : fsc.openedFiles.insert e = .ok (key, ok, t)) : Contained host ⟨t⟩ := by
  obtain ⟨-, -, -, hsmall, hlookup⟩ := Table.insert_eq_ok h.small hinsert
  refine ⟨hsmall, fun fd f hf hpreopen => ?_⟩
  rw [FSContext.lookupFile, hlookup] at hf
  split at hf
  next =>
    cases hf
    exact hname hpreopen
  next => exact h.names fd f hf hpreopen

theorem Contained.delete (fd : Int) : Contained host ⟨fsc.openedFiles.delete fd⟩ := by
  refine ⟨Table.small_delete h.small fd, fun fd' f hf hpreopen => ?_⟩
  rw [FSContext.lookupFile, Table.lookup_delete] at hf
  split at hf
  next => cases hf
  next => exact h.names fd' f hf hpreopen

theorem Contained.closeFile (fd : Int) (closed : Errno) :
    Contained host (fsc.closeFile fd closed).1 := by
  unfold FSContext.closeFile
  split
  next => exact h
  split
  next => exact h
  next => exact h.delete fd

theorem Contained.renumber (source target : Int) :
    Contained host (fsc.renumber source target).1 := by
  unfold FSContext.renumber
  split
  next => exact h
  next fromFile hfrom =>
    split
    next => exact h
    next hrange =>
      split
      next => exact h
      next hpreopen =>
        split
        next => exact h
        have hdelete := h.delete source
        have hmax : (maxFileDescriptor : Int) < 2 ^ 31 := by decide
        obtain ⟨hok, hsmall, hlookup⟩ :=
          @Table.insertAt_of_nonneg _ _ (fsc.openedFiles.delete source) fromFile target
            (by omega) (by omega) hdelete.small
        simp only [hok, Bool.not_true, Bool.false_eq_true, if_false]
        refine ⟨hsmall, fun fd f hf hpre => ?_⟩
        rw [FSContext.lookupFile, hlookup] at hf
        split at hf
        next =>
          cases hf
          exact h.names source _ hfrom hpre
        next => exact hdelete.names fd f hf hpre

theorem Contained.openFile {fs : Option Nat} {path : Path} {opened errno : Errno}
    {fd : Int} (hpath : NoParent host path)
    (hopen : fsc.openFile fs path opened = .ok (fsc', fd, errno)) : Contained host fsc' := by
  unfold FSContext.openFile at hopen
  split at hopen
  next =>
    cases hopen
    exact h
  cases fs with
  | none => cases hopen
  | some fs =>
    dsimp only at hopen
    split at hopen
    next =>
      cases hopen
      exact h
    obtain ⟨⟨key, ok, t⟩, hinsert, hopen⟩ := bind_inv hopen
    have ht : Contained host ⟨t⟩ := by
      refine h.insert (fun _ => ?_) hinsert
      split
      next => exact noParent_nil
      next => exact hpath
    split at hopen <;> cases hopen <;> exact ht

theorem Contained.sockAccept {fd fd' : Int} {accepted : Option Errno}
    {nonblock errno : Errno}
    (haccept : fsc.sockAccept fd accepted nonblock = .ok (fsc', fd', errno)) :
    Contained host fsc' := by
  unfold FSContext.sockAccept at haccept
  split at haccept
  iterate 2
    · cases haccept
      exact h
  split_ifs at haccept
  iterate 4
    · cases haccept
      exact h
  obtain ⟨⟨key, ok, t⟩, hinsert, haccept⟩ := bind_inv haccept
  have ht : Contained host ⟨t⟩ := h.insert (fun _ => noParent_nil) hinsert
  dsimp only at haccept
  split at haccept <;> cases haccept <;> exact ht

end

variable {mem : MemoryInstance} {fd : Int} {pathLen : UInt32}

/-- A path that is handed out: one that is valid, after the name of the directory if that was opened
by the guest. -/
theorem atPath_eq_ok {p : UInt32} {isDir : Bool × Errno} {fs : Option Nat} {path : Path}
    (h : atPath host fsc mem fd p pathLen isDir = .ok (fs, path, .success)) :
    ∃ f q, fsc.lookupFile fd = some f ∧ fs = f.fs ∧ NoParent host q ∧
      path = if f.isPreopen then q else f.name ++ slash :: q := by
  obtain ⟨⟨b, ok⟩, -, h⟩ := bind_inv h
  cases ok with
  | false => cases h
  | true =>
    dsimp only at h
    rw [if_neg (by decide)] at h
    split at h
    next => cases h
    next hcheck =>
      rw [not_eq_true, Bool.or_eq_false_iff, not_eq_false_eq_eq_true] at hcheck
      have hclean := noParent_of_validPath hcheck.1 hcheck.2
      have hname : NoParent host
          (if b.getLast? = some slash then clean b ++ [slash] else clean b) := by
        split
        next => exact hclean.append noParent_nil isPathSeparator_slash
        next => exact hclean
      cases hf : fsc.lookupFile fd with
      | none =>
        rw [hf] at h
        cases h
      | some f =>
        simp only [hf] at h
        split at h
        next hne => exact absurd (Prod.mk.inj (Prod.mk.inj (Except.ok.inj h)).2).2 hne
        split at h
        next => cases h
        refine ⟨f, if b.getLast? = some slash then clean b ++ [slash] else clean b, rfl, ?_⟩
        cases hpre : f.isPreopen with
        | true =>
          rw [hpre] at h
          cases h
          exact ⟨rfl, hname, rfl⟩
        | false =>
          rw [hpre] at h
          cases h
          exact ⟨rfl, hname, by simp⟩

theorem Contained.atPath (h : Contained host fsc)
    {p : UInt32} {isDir : Bool × Errno} {fs : Option Nat} {path : Path}
    (hat : Wasi.atPath host fsc mem fd p pathLen isDir = .ok (fs, path, .success)) :
    NoParent host path := by
  obtain ⟨f, q, hf, -, hq, rfl⟩ := atPath_eq_ok hat
  cases hpre : f.isPreopen with
  | true => exact hq
  | false => exact (h.names fd f hf hpre).append hq isPathSeparator_slash

theorem Contained.pathOpen (h : Contained host fsc) {mem' : MemoryInstance}
    {p : UInt32} {oflags : UInt16} {resultOpenedFD : UInt32} {answers : OpenAnswers}
    {errno : Errno}
    (hopen : Wasi.pathOpen host fsc mem fd p pathLen oflags resultOpenedFD answers =
      .ok (fsc', mem', errno)) : Contained host fsc' := by
  obtain ⟨⟨fs, path, errno₁⟩, hat, hopen⟩ := bind_inv hopen
  dsimp only at hopen
  split at hopen
  · cases hopen
    exact h
  rename_i hsuccess
  obtain rfl := Decidable.not_not.mp hsuccess
  iterate 2
    split at hopen
    · cases hopen
      exact h
  obtain ⟨⟨fsc₁, newFD, errno₂⟩, hfile, hopen⟩ := bind_inv hopen
  have h₁ := h.openFile (h.atPath hat) hfile
  have hclosed := h₁.closeFile newFD answers.closed
  dsimp only at hopen
  iterate 2
    split at hopen
    · cases hopen
      exact h₁
  iterate 2
    split at hopen
    · cases hopen
      exact hclosed
  obtain ⟨⟨ok, m⟩, -, hopen⟩ := bind_inv hopen
  split at hopen
  · cases hopen
    exact hclosed
  · cases hopen
    exact h₁

theorem Contained.step (h : Contained host fsc) {op : Operation}
    (hstep : op.apply host fsc = .ok fsc') : Contained host fsc' := by
  cases op with
  | pathOpen mem fd p pathLen oflags resultOpenedFD answers =>
    obtain ⟨⟨fsc₁, mem', errno⟩, hopen, hstep⟩ := bind_inv hstep
    cases hstep
    exact h.pathOpen hopen
  | fdRenumber source target =>
    cases hstep
    exact h.renumber source target
  | fdClose fd closed =>
    cases hstep
    exact h.closeFile fd closed
  | sockAccept mem fd resultFd accepted nonblock closed =>
    obtain ⟨⟨fsc₁, mem', errno⟩, hsock, hstep⟩ := bind_inv hstep
    cases hstep
    obtain ⟨⟨fsc₂, connFD, errno₁⟩, haccept, hsock⟩ := bind_inv hsock
    have h₂ := h.sockAccept haccept
    dsimp only at hsock
    split at hsock
    · cases hsock
      exact h₂
    obtain ⟨⟨ok, m⟩, -, hsock⟩ := bind_inv hsock
    split at hsock
    · cases hsock
      exact h₂.closeFile connFD closed
    · cases hsock
      exact h₂
  | close =>
    cases hstep
    refine ⟨Nat.zero_le _, fun fd f hf => ?_⟩
    rw [FSContext.lookupFile, FSContext.close, Table.lookup_empty] at hf
    cases hf

theorem contained_insertAll {t t' : Table FileEntry} {entries : List FileEntry}
    (h : Contained host ⟨t⟩) (hpreopen : ∀ e ∈ entries, e.isPreopen = true)
    (hinsert : insertAll t entries = .ok t') : Contained host ⟨t'⟩ := by
  induction entries generalizing t with
  | nil =>
    cases hinsert
    exact h
  | cons e entries ih =>
    obtain ⟨⟨key, ok, t₁⟩, he, hinsert⟩ := bind_inv hinsert
    have he' := hpreopen e mem_cons_self
    refine ih (h.insert (fun hfalse => ?_) he)
      (fun e' he' => hpreopen e' (mem_cons_of_mem e he')) hinsert
    rw [he'] at hfalse
    cases hfalse

theorem isPreopen_initialEntries {guestPaths : List Path} {tcpListeners : Nat} {e : FileEntry}
    (h : e ∈ initialEntries guestPaths tcpListeners) : e.isPreopen = true := by
  rw [initialEntries, mem_append, mem_append, mem_map, mem_mapIdx] at h
  obtain (⟨name, -, rfl⟩ | ⟨i, hi, rfl⟩) | h := h
  · rfl
  · rfl
  · rw [eq_of_mem_replicate h]

theorem Reachable.contained {config : FSConfig host} (h : Reachable config fsc) :
    Contained host fsc := by
  induction h with
  | init h =>
    obtain ⟨t, hinsert, h⟩ := bind_inv h
    cases h
    refine contained_insertAll ⟨Nat.zero_le _, fun fd f hf => ?_⟩
      (fun e he => isPreopen_initialEntries he) hinsert
    rw [FSContext.lookupFile, Table.lookup_empty] at hf
    cases hf
  | step op _ hstep ih => exact ih.step hstep

end

section

variable {host : Host}

/-- In any run of any guest, a path that is handed to a file system has no element `..`, and if the
file system is the directory, then the path is inside of it. -/
def HandsInside (d : DirFS host) : Prop :=
  ∀ (config : FSConfig host) fsc, Reachable config fsc → ∀ mem fd p pathLen isDir i path,
    atPath host fsc mem fd p pathLen isDir = .ok (some i, path, .success) →
      NoParent host path ∧
        ∀ guestPath, config.mounts[i]? = some (some d, guestPath) → Inside d path

theorem handsInside_of_not_bare {d : DirFS host} (h : host.windows = true → ¬ Bare d) :
    HandsInside d :=
  fun _ _ hreachable _ _ _ _ _ _ _ hat =>
    have hp := hreachable.contained.atPath hat
    ⟨hp, fun _ _ => inside_of_noParent h hp⟩

theorem atPath_of_valid {fsc : FSContext} {mem : MemoryInstance} {fd : Int} {p pathLen : UInt32}
    {b : Path} {f : FileEntry} (hread : mem.read p pathLen = .ok (b, true))
    (hslash : b.getLast? ≠ some slash) (hvalid : validPath (clean b) = true)
    (hescape : pathEscapesOnWindows host (clean b) = false) (hf : fsc.lookupFile fd = some f) :
    atPath host fsc mem fd p pathLen (true, .success) =
      .ok (f.fs, if f.isPreopen then clean b else f.name ++ [slash] ++ clean b, .success) := by
  rw [atPath, hread, bind_ok]
  simp only [Bool.not_true, Bool.false_eq_true, if_false, hvalid, hescape, Bool.or_self, hf,
    ne_eq, not_true_eq_false, hslash]
  cases f.isPreopen <;> rfl

variable {c : UInt8}

theorem clean_letter (hslash : c ≠ slash) : clean [c] = [c] := by
  have helements : slashElements [c] = [[c]] :=
    splitOn_eq_singleton (by simpa using hslash.symm)
  by_cases hdot : c = dot
  · subst hdot
    simp [clean, helements, cleanElement, hslash]
  · simp [clean, helements, cleanElement, hslash, hdot]

theorem valid_letter (hslash : c ≠ slash) (hascii : c < 0x80) : validPath [c] = true := by
  have helements : slashElements [c] = [[c]] :=
    splitOn_eq_singleton (by simpa using hslash.symm)
  rw [validPath, validString_singleton hascii, helements]
  by_cases hdot : c = dot
  · simp [hdot]
  · simp [hdot]

/-- A page with the two paths that lead out of a directory on Windows. -/
def twoPaths : MemoryInstance :=
  pageOf [dot, 0x61]

theorem read_twoPaths {offset : UInt32} (h : offset.toNat + 1 ≤ 2) :
    twoPaths.read offset 1 = .ok (([dot, 0x61].drop offset.toNat).take 1, true) := by
  have hlen : twoPaths.buffer.len = 65536 := len_pageOf (by decide)
  have hone : (1 : UInt32).toNat = 1 := rfl
  have hextract : twoPaths.buffer.extract offset.toNat 1 = _ := extract_pageOf h
  rw [read_eq (by omega) (by omega), if_pos (by omega), hone, hextract]

theorem openFile_oneMount : (do
    let fsc ← initFSContext [[slash]] 0
    let (fsc', fd, errno) ← fsc.openFile (some 0) [dot] .success
    return (fsc.lookupFile 3, fd, errno, fsc'.lookupFile 4) : Check _) =
      .ok (some ⟨[slash], true, some 0⟩, 4, .success, some ⟨[], false, some 0⟩) := by
  decide +kernel

theorem not_escapes_letter (hc : c = dot ∨ c = 0x61) : pathEscapesOnWindows host [c] = false := by
  have hslash : slash ∉ [c] := by
    obtain rfl | rfl := hc <;> decide
  rw [pathEscapesOnWindows]
  obtain rfl | rfl := hc <;> simp <;> intro _ <;> decide

theorem exists_reachable (d : DirFS host) :
    ∃ (config : FSConfig host) (fsc fsc' : FSContext), config.mounts[0]? = some (some d, [slash]) ∧
      Reachable config fsc ∧ fsc.lookupFile 3 = some ⟨[slash], true, some 0⟩ ∧
      Reachable config fsc' ∧ fsc'.lookupFile 4 = some ⟨[], false, some 0⟩ := by
  obtain ⟨fsc, hinit, hrun⟩ := bind_inv openFile_oneMount
  obtain ⟨⟨fsc', fd, errno⟩, hopen, hrun⟩ := bind_inv hrun
  simp only [pure, Except.pure, Except.ok.injEq, Prod.mk.injEq] at hrun
  obtain ⟨h3, rfl, rfl, h4⟩ := hrun
  have hreachable : Reachable (⟨[(some d, [slash])], 0⟩ : FSConfig host) fsc := .init hinit
  refine ⟨_, fsc, fsc', rfl, hreachable, h3, .step (.pathOpen twoPaths 3 0 1 0 8
    ⟨(true, .success), .success, (true, .success), .success⟩) hreachable ?_, h4⟩
  have hclean := clean_letter (show dot ≠ slash by decide)
  have hat := @atPath_of_valid host fsc twoPaths 3 0 1 [dot] _ (read_twoPaths (by decide))
    (by decide)
    (by rw [hclean]; exact valid_letter (by decide) (by decide))
    (by rw [hclean]; exact not_escapes_letter (.inl rfl)) h3
  have hlen : twoPaths.buffer.len = 65536 := len_pageOf (by decide)
  rw [Operation.apply, pathOpen, hat, bind_ok]
  simp only [hclean, if_true, ne_eq, not_true_eq_false, if_false]
  have hwrite := @writeUintLe_eq twoPaths (by omega) 8 4 (by decide) (by decide)
    (UInt32.ofNat (4 : Int).toNat).toNat
  rw [if_pos (by rw [hlen]; decide)] at hwrite
  rw [hopen, bind_ok]
  rw [writeUint32Le, hwrite]
  rfl

theorem start_volume_ne {p q : Path} (hwindows : host.windows = true)
    (hvolume : isVolume host p = true) (hp : p ≠ []) (hc : host.isPathSeparator c = true)
    (hq : q = [] ∨ q = [0x61]) : start host (p ++ c :: q) ≠ start host p := by
  match p, hvolume with
  | [b], hvolume =>
    have hb : host.isPathSeparator b = true := hvolume
    obtain rfl | rfl := hq
    · simp [start, windowsStart, hwindows, hb, hc]
    · have hdevices : isDevices host c 0x61 = false := by simp [isDevices, dot, question]
      simp [start, windowsStart, hwindows, hb, hc, hdevices]
  | [b, b'], hvolume =>
    simp only [isVolume, and_eq_true, not_eq_true', beq_iff_eq] at hvolume
    simp [start, hwindows, hvolume, hc]
  | [b, b', b''], hvolume =>
    simp only [isVolume, and_eq_true] at hvolume
    simp [start, windowsStart, hwindows, hvolume, hc]
  | b :: b' :: b'' :: s :: name, hvolume =>
    simp only [isVolume, and_eq_true, not_eq_true'] at hvolume
    simp [start, windowsStart, hwindows, hvolume, hc]

theorem bare_left {d : DirFS host} (hwindows : host.windows = true) (hbare : Bare d) :
    ¬ HandsInside d := by
  intro hinside
  obtain ⟨config, fsc, fsc', hmount, hreachable, h3, hreachable', h4⟩ := exists_reachable d
  have hletter : ∀ c : UInt8, c = dot ∨ c = 0x61 → clean [c] = [c] ∧
      validPath (clean [c]) = true ∧ pathEscapesOnWindows host (clean [c]) = false := by
    intro c hc
    have hslash : c ≠ slash := by
      obtain rfl | rfl := hc <;> decide
    have hascii : c < 0x80 := by
      obtain rfl | rfl := hc <;> decide
    rw [clean_letter hslash]
    exact ⟨rfl, valid_letter hslash hascii, not_escapes_letter hc⟩
  obtain ⟨sep, hcleaned, hsep, hdir⟩ := exists_separator d
  obtain ⟨hclean, hvalid, hescape⟩ := hletter dot (.inl rfl)
  have hdot := @atPath_of_valid host fsc twoPaths 3 0 1 [dot] _ (read_twoPaths (by decide))
    (by decide) hvalid hescape h3
  obtain ⟨hclean', hvalid', hescape'⟩ := hletter 0x61 (.inr rfl)
  have hname := @atPath_of_valid host fsc twoPaths 3 1 1 [0x61] _ (read_twoPaths (by decide))
    (by decide) hvalid' hescape' h3
  have hrooted := @atPath_of_valid host fsc' twoPaths 4 1 1 [0x61] _ (read_twoPaths (by decide))
    (by decide) hvalid' hescape' h4
  have hdot := ((hinside config fsc hreachable twoPaths 3 0 1 _ 0 _ hdot).2 _ hmount).start
  have hname := ((hinside config fsc hreachable twoPaths 3 1 1 _ 0 _ hname).2 _ hmount).start
  have hrooted := ((hinside config fsc' hreachable' twoPaths 4 1 1 _ 0 _ hrooted).2 _ hmount).start
  rw [if_pos rfl, hclean, DirFS.join, if_pos (by simp), hcleaned, dropLast_concat] at hdot
  rw [if_pos rfl, hclean', DirFS.join, if_neg (by decide), hcleaned, append_assoc,
    singleton_append] at hname
  rw [hclean', DirFS.join, if_neg (by decide), hcleaned, append_assoc] at hrooted
  obtain hdir | hdir := hdir
  · rw [hdir] at hname
    exact start_volume_ne hwindows hbare (hdir ▸ d.dir_ne_nil) hsep (.inr rfl) hname
  by_cases hbase : base d = []
  · rw [hdir, hbase] at hrooted
    exact start_volume_ne hwindows (show isVolume host [sep] = true from hsep) (cons_ne_nil _ _)
      isPathSeparator_slash (.inr rfl) hrooted
  · have hroot : base d ++ [sep] ≠ [slash] := by
      intro h
      exact hbase (append_inj' (h.trans (nil_append [slash]).symm) rfl).1
    rw [if_neg hroot, hdir] at hdot
    exact start_volume_ne hwindows hbare hbase hsep (.inl rfl) hdot.symm

/-- Every path that is handed to a file system has no element `..`, and one that is handed to a
directory of the host is inside of the directory, exactly if the host is not Windows or the
directory is more than a volume. -/
theorem handsInside_iff (d : DirFS host) :
    HandsInside d ↔ (host.windows = true → ¬ Bare d) :=
  ⟨fun hinside hwindows hbare => bare_left hwindows hbare hinside, handsInside_of_not_bare⟩

end

/-- The root directory of the current drive. -/
theorem not_handsInside_slash : ¬ HandsInside (⟨[slash], by decide⟩ : DirFS ⟨true⟩) :=
  bare_left rfl rfl

end Andsifr.Wasi
