/-
# Content reads and the records that answer for them

What a process reads is a dependency, and a descriptor can come to it in three ways: through a
hooked open, which leaves a path; from the process that started it; or through a call that leaves
nothing in the tables (`fopen`, `pipe`, `socket`, `accept`).  This file follows any sequence of such
calls, of `close`, `fclose` and reads, beside the descriptors the kernel really has, and asks of
every read that returned bytes whether something emitted in the lifetime of the descriptor answers
for it: a file-read record with a name of the file, external content for a channel that was
inherited, or an event loss.  Only a fifo, a socket or another thing that is no regular file, made
by the process itself, needs no answer.

  * `step_sound` -- what is known of a descriptor stays true of the file behind it;
  * `content_read_attributed` -- the answer is there whenever the reads and the opens of the run are
    COVERED.

Two things are not covered.  The start-up loop asks about the descriptors up to 1024 only, so that
an inherited channel with a larger number looks like one the process made, and its reads are
skipped.  And an open of a regular file keeps the text `pathForAt` makes of its path, which is no
name of the file when the working directory or the directory descriptor is unknown, when the file
has no name (`O_TMPFILE`), or when `..` follows a symbolic link.

The kernel may fail any of the calls the shim makes of its own.
-/
import IoMon.Shim.FdTables

namespace IoMon.Descriptors

open ByteText DirectIndex

/-! ## 1. The kernel's side -/

/-- A file, pipe, socket or device: its identity, and the paths that name it. -/
structure File where
  identity : FdIdentity
  names : List NimStr
  deriving DecidableEq, Repr

/-- Where a descriptor came from; `answered` says whether `fstat` answered for it at start-up. -/
inductive Source
  | inherited (answered : Bool)
  | created
  deriving DecidableEq, Repr

structure Descriptor where
  file : File
  source : Source
  deriving DecidableEq, Repr

/-- A call of the process.  `openat` is the hooks `open`, `open64`, `openat` and `openat64`, with
`AT_FDCWD` for the first two and a negative `fd` for a failure; `create` is every other way to get a
descriptor; `fclose` is passed the descriptor of the stream, -1 if it has none; `read` is the hooks
`read`, `pread`, `readv` and `preadv`. -/
inductive FdCall
  | openat (dirfd : Int32) (path : Option NimStr) (flags fd : Int32) (file : File) (k : Answers)
  | create (fd : Int32) (file : File)
  | close (fd : Int32)
  | fclose (fd : Int32)
  | read (fd : Int32) (bytes : Int64) (k : Answers)

/-- The process: its descriptors, the shim's tables, and the calls so far with what they emitted,
the latest first. -/
structure Session where
  opens : Int32 → Option Descriptor
  tables : FdTables
  past : List (FdCall × List ShimEvent)

def start (inherited : Int32 → Option File) (k : Answers) : Session where
  opens := fun fd => (inherited fd).map fun f => ⟨f, .inherited (k.identityKind fd).isSome⟩
  tables := rememberInheritedOpenFds k {}
  past := []

/-- What the call does to the descriptors. -/
def FdCall.kernel (opens : Int32 → Option Descriptor) : FdCall → Int32 → Option Descriptor
  | openat _ _ _ fd file _ =>
    if fd < 0 then opens else Function.update opens fd (some ⟨file, .created⟩)
  | create fd file => Function.update opens fd (some ⟨file, .created⟩)
  | close fd | fclose fd => Function.update opens fd none
  | read .. => opens

/-- What the hook does.  `repro_hook_close` removes the path on either of its branches. -/
def FdCall.hook (t : FdTables) : FdCall → Effect
  | openat dirfd path flags fd _ k => recordOpen k t path flags fd dirfd
  | create .. => (t, [])
  | close fd => (removeFdPath t fd, [])
  | fclose fd => (if 0 ≤ fd then removeFdPath t fd else t, [])
  | read fd bytes k => recordFdRead k t fd bytes

def step (s : Session) (c : FdCall) : Session where
  opens := c.kernel s.opens
  tables := (c.hook s.tables).1
  past := (c, (c.hook s.tables).2) :: s.past

/-- What the kernel promises: a new descriptor has a number that is free, only an open descriptor
is read, `fstat` answers with the file's identity or fails, and a link target in `/proc/self/fd`
that is absolute and not deleted names the file. -/
def Legal (s : Session) : FdCall → Prop
  | .openat _ _ _ fd _ _ => 0 ≤ fd → s.opens fd = none
  | .create fd _ => 0 ≤ fd ∧ s.opens fd = none
  | .close _ | .fclose _ => True
  | .read fd bytes k => 0 < bytes → ∃ d, s.opens fd = some d ∧
      (∀ id, k.identityKind fd = some id → id = d.file.identity) ∧
      (∀ path, k.procPath fd = some path → namesFile path = true → path ∈ d.file.names)

/-- The states of the runs whose steps are all `ok`. -/
inductive Reached (ok : Session → FdCall → Prop) (inherited : Int32 → Option File) (k : Answers) :
    Session → Prop
  | start : Reached ok inherited k (start inherited k)
  | step {s : Session} {c : FdCall} (hs : Reached ok inherited k s) (hc : ok s c) :
      Reached ok inherited k (step s c)

/-! ## 2. What answers for a read -/

/-- A fifo, a socket or another thing that is no regular file, and that the process made itself. -/
def Exempt (d : Descriptor) : Prop := d.source = .created ∧ d.file.identity.kind ≠ .fkRegular

/-- The events that answer for the reads of a descriptor. -/
inductive Attributes (d : Descriptor) (fd : Int32) : ShimEvent → Prop
  | fileRead {path : NimStr} (detail : NimStr) (result : Int64) (hname : path ∈ d.file.names) :
      Attributes d fd (.fileRead path detail result fd.toUInt32)
  | externalContent (peer : UInt64) (hsource : d.source ≠ .created)
      (hkind : d.file.identity.kind ≠ .fkRegular) :
      Attributes d fd (.externalContent (str "opaque") (str "read") (localFdKey d.file.identity)
        fd.toUInt32 peer)
  | unresolved : Attributes d fd (unresolvedFdLoss fd)
  | unnamed : Attributes d fd (unnamedFdLoss fd d.file.identity)

/-- The calls at which a lifetime of the descriptor number starts or ends. -/
def FdCall.bounds (fd : Int32) : FdCall → Bool
  | openat _ _ _ fd' _ _ | create fd' _ | close fd' | fclose fd' => fd' == fd
  | read .. => false

/-- The events since the descriptor was made. -/
def lifetime (fd : Int32) (past : List (FdCall × List ShimEvent)) : List ShimEvent :=
  (past.takeWhile fun entry => !entry.1.bounds fd).flatMap (·.2)

def Settled (d : Descriptor) (fd : Int32) (past : List (FdCall × List ShimEvent)) : Prop :=
  Exempt d ∨ ∃ e ∈ lifetime fd past, Attributes d fd e

/-! ## 3. The covered steps -/

/-- The read is of a descriptor the process made, or of a regular file, or something tells the shim
what it is: the bit of start-up, an earlier read, or an answer of the kernel now. -/
def ReadCovered (s : Session) (fd : Int32) (k : Answers) (d : Descriptor) : Prop :=
  d.source ≠ .created → d.file.identity.kind ≠ .fkRegular →
    (d.source = .inherited true ∧ fd ≤ 1024) ∨ pathForFd s.tables fd ≠ [] ∨
      emptyFdAlreadyClassified s.tables fd = true ∨ k.identityKind fd = none ∨
      recoveredPath k fd d.file.identity.kind ≠ none

/-- The path an open keeps for a regular file names the file. -/
def OpenCovered (s : Session) (dirfd : Int32) (path : Option NimStr) (fd : Int32) (file : File)
    (k : Answers) : Prop :=
  file.identity.kind = .fkRegular → InRange fdPathCap fd.toInt → k.allocated = true →
    pathForAt k s.tables dirfd path ≠ [] → pathForAt k s.tables dirfd path ∈ file.names

def Covered (s : Session) : FdCall → Prop
  | .openat dirfd path _ fd file k => OpenCovered s dirfd path fd file k
  | .read fd bytes k => 0 < bytes → ∀ d, s.opens fd = some d → ReadCovered s fd k d
  | .create .. | .close _ | .fclose _ => True

/-! ## 4. The lifetime of a descriptor -/

section Lifetime

variable {d : Descriptor} {x : Int32} {c : FdCall} {events : List ShimEvent}
  {past : List (FdCall × List ShimEvent)}

theorem lifetime_cons (h : c.bounds x = false) :
    lifetime x ((c, events) :: past) = events ++ lifetime x past := by
  rw [lifetime, List.takeWhile_cons_of_pos (by simp [h]), List.flatMap_cons]
  rfl

theorem Settled.cons (h : c.bounds x = false) (hs : Settled d x past) :
    Settled d x ((c, events) :: past) := by
  rcases hs with hex | ⟨e, he, ha⟩
  · exact Or.inl hex
  · refine Or.inr ⟨e, ?_, ha⟩
    rw [lifetime_cons h]
    exact List.mem_append_right events he

theorem Settled.of_event {e : ShimEvent} (h : c.bounds x = false) (ha : Attributes d x e) :
    Settled d x ((c, [e]) :: past) := by
  refine Or.inr ⟨e, ?_, ha⟩
  rw [lifetime_cons h]
  exact List.mem_append_left _ List.mem_cons_self

end Lifetime

/-! ## 5. The invariant -/

/-- **What the tables say of an open descriptor is true of it**: a path names the file, a bit that
keeps a later read silent stands for an answer, and the bit of start-up is there. -/
structure Sound (t : FdTables) (past : List (FdCall × List ShimEvent)) (x : Int32)
    (d : Descriptor) : Prop where
  nonneg : 0 ≤ x
  path : pathForFd t x ≠ [] → Exempt d ∨ pathForFd t x ∈ d.file.names
  empty : emptyFdAlreadyClassified t x = true → Settled d x past
  seen : fileReadIsNew t x = false → Settled d x past
  remembered : d.source = .inherited true → x ≤ 1024 → inheritedFd t x = true

theorem Sound.of_agreeAt {t u : FdTables} {past past' : List (FdCall × List ShimEvent)} {x : Int32}
    {d : Descriptor} (h : Sound t past x d) (ha : AgreeAt t u x)
    (hpast : Settled d x past → Settled d x past') : Sound u past' x d where
  nonneg := h.nonneg
  path := ha.path ▸ h.path
  empty := fun he => hpast (h.empty (ha.empty ▸ he))
  seen := fun hs => hpast (h.seen (ha.isNew ▸ hs))
  remembered := fun hi hx => ha.inherited.trans (h.remembered hi hx)

/-- A descriptor of which nothing is known. -/
theorem Sound.of_blank {t : FdTables} {past : List (FdCall × List ShimEvent)} {x : Int32}
    {d : Descriptor} (h : Blank t x) (hnonneg : 0 ≤ x)
    (hremembered : d.source = .inherited true → x ≤ 1024 → inheritedFd t x = true) :
    Sound t past x d where
  nonneg := hnonneg
  path := fun hp => absurd h.path hp
  empty := fun he => absurd (h.empty.symm.trans he) (by simp)
  seen := fun hs => absurd (h.isNew.symm.trans hs) (by simp)
  remembered := hremembered

/-- Nothing is known of a descriptor that is closed, and only the truth of one that is open. -/
structure KnownAt (s : Session) (x : Int32) : Prop where
  closed : s.opens x = none → Blank s.tables x
  opened : ∀ d, s.opens x = some d → Sound s.tables s.past x d

def Inv (s : Session) : Prop := ∀ x, KnownAt s x

theorem KnownAt.of_closed {s : Session} {x : Int32} (hclosed : s.opens x = none)
    (h : Blank s.tables x) : KnownAt s x where
  closed := fun _ => h
  opened := fun d hd => absurd (hclosed.symm.trans hd) (by simp)

theorem KnownAt.of_opened {s : Session} {x : Int32} {d : Descriptor} (hopened : s.opens x = some d)
    (h : Sound s.tables s.past x d) : KnownAt s x where
  closed := fun hnone => absurd (hopened.symm.trans hnone) (by simp)
  opened := by
    intro d' hd'
    cases hopened.symm.trans hd'
    exact h

theorem inv_start (inherited : Int32 → Option File) (k : Answers)
    (hfd : ∀ fd, inherited fd ≠ none → 0 ≤ fd) : Inv (start inherited k) := by
  intro x
  have hblank : Blank (rememberInheritedOpenFds k {}) x := (blank_empty x).remember k
  refine ⟨fun _ => hblank, fun d hd => ?_⟩
  obtain ⟨f, hf, rfl⟩ := Option.map_eq_some_iff.mp hd
  have hnonneg : 0 ≤ x := hfd x (by rw [hf]; simp)
  refine Sound.of_blank hblank hnonneg (fun hsource hlow => ?_)
  injection hsource with hanswered
  exact inheritedFd_rememberInheritedOpenFds k {} hnonneg hlow hanswered

/-! ## 6. One read -/

/-- The outcome of a read, as far as its own descriptor goes. -/
structure ReadResult (d : Descriptor) (x : Int32) (c : FdCall)
    (past : List (FdCall × List ShimEvent)) (e : Effect) : Prop where
  sound : Sound e.1 ((c, e.2) :: past) x d
  settled : Settled d x ((c, e.2) :: past)

section Read

variable {t : FdTables} {past : List (FdCall × List ShimEvent)} {x : Int32} {d : Descriptor}
  {c : FdCall}

/-- A read that emits nothing, of a descriptor that is settled. -/
theorem ReadResult.of_silent (h : Sound t past x d) (hc : c.bounds x = false)
    (hs : Settled d x past) : ReadResult d x c past (t, []) where
  sound := h.of_agreeAt (AgreeAt.refl t x) fun h' => h'.cons hc
  settled := hs.cons hc

/-- A read that classifies the descriptor and so settles it. -/
theorem ReadResult.of_classified (h : Sound t past x d) (hc : c.bounds x = false)
    {events : List ShimEvent} (hs : Settled d x ((c, events) :: past)) :
    ReadResult d x c past (markEmptyFdClassified t x, events) where
  sound :=
    { nonneg := h.nonneg
      path := h.path
      empty := fun _ => hs
      seen := fun hseen => (h.seen hseen).cons hc
      remembered := h.remembered }
  settled := hs

/-- A read that is recorded under the path of the descriptor. -/
theorem ReadResult.of_marked (h : Sound t past x d) (hc : c.bounds x = false)
    {events : List ShimEvent} (hs : Settled d x ((c, events) :: past)) :
    ReadResult d x c past (podFileReadMark t x, events) where
  sound :=
    { nonneg := h.nonneg
      path := h.path
      empty := fun hempty => (h.empty hempty).cons hc
      seen := fun _ => hs
      remembered := h.remembered }
  settled := hs

/-- A read that gives the descriptor a path. -/
theorem ReadResult.of_recovered (h : Sound t past x d) (hc : c.bounds x = false) (k : Answers)
    {path : NimStr} (hname : path ∈ d.file.names) {events : List ShimEvent}
    (hs : Settled d x ((c, events) :: past)) :
    ReadResult d x c past (podFileReadMark (updateFdPath k t x path) x, events) where
  sound :=
    { nonneg := h.nonneg
      path := by
        intro hpath
        have hcell : pathForFd (podFileReadMark (updateFdPath k t x path) x) x =
            if InRange fdPathCap x.toInt ∧ k.allocated = true then path else [] :=
          pathForFd_updateFdPath k t x path
        rw [hcell] at hpath ⊢
        by_cases hkept : InRange fdPathCap x.toInt ∧ k.allocated = true
        · rw [if_pos hkept]
          exact Or.inr hname
        · exact absurd (if_neg hkept) hpath
      empty := fun hempty =>
        (h.empty ((emptyFdAlreadyClassified_updateFdPath k t x x path).symm.trans hempty)).cons hc
      seen := fun _ => hs
      remembered := fun hsource hlow =>
        (inheritedFd_updateFdPath k t x x path).trans (h.remembered hsource hlow) }
  settled := hs

/-- **One read.**  If it is covered, it is settled when it returns, and what the tables say of the
descriptor is still true. -/
theorem read_result {s : Session} {bytes : Int64} {k : Answers} (hbytes : 0 < bytes)
    (h : Sound s.tables s.past x d)
    (hstat : ∀ id, k.identityKind x = some id → id = d.file.identity)
    (hproc : ∀ path, k.procPath x = some path → namesFile path = true → path ∈ d.file.names)
    (hcov : ReadCovered s x k d) :
    ReadResult d x (.read x bytes k) s.past (recordFdRead k s.tables x bytes) := by
  have hc : (FdCall.read x bytes k).bounds x = false := rfl
  have hout := recordFdRead_outcome k s.tables x hbytes
  generalize recordFdRead k s.tables x bytes = e at hout ⊢
  cases hout with
  | recorded hpath hseen => exact .of_silent h hc (h.seen hseen)
  | named hpath hnew =>
      refine .of_marked h hc ?_
      rcases h.path hpath with hex | hname
      · exact Or.inl hex
      · exact Settled.of_event hc (.fileRead [] bytes hname)
  | noDescriptor hpath hneg =>
      exact absurd hneg (Int32.not_lt.mpr h.nonneg)
  | classified hpath hempty => exact .of_silent h hc (h.empty hempty)
  | unresolved hpath hempty hfd hnone =>
      exact .of_classified h hc (Settled.of_event hc .unresolved)
  | @recovered hpath hempty hfd id path hid hrec =>
      have hlink : k.procPath x = some path ∧ namesFile path = true := by
        rw [recoveredPath] at hrec
        split at hrec
        · exact Option.filter_eq_some_iff.mp hrec
        · cases hrec
      have hname := hproc path hlink.1 hlink.2
      exact .of_recovered h hc k hname (Settled.of_event hc (.fileRead _ 0 hname))
  | @unnamed hpath hempty hfd id hid hrec hkind =>
      cases hstat id hid
      exact .of_classified h hc (Settled.of_event hc .unnamed)
  | @channel hpath hempty hfd id hid hrec hkind hinh =>
      cases hstat id hid
      refine .of_classified h hc ?_
      by_cases hsource : d.source = .created
      · exact Or.inl ⟨hsource, hkind⟩
      · exact Settled.of_event hc (.externalContent _ hsource hkind)
  | @skipped hpath hempty hfd id hid hrec hkind hinh =>
      cases hstat id hid
      refine .of_classified h hc (Or.inl ⟨?_, hkind⟩)
      -- an inherited channel would have to be one of those the read is covered for
      by_contra hsource
      rcases hcov hsource hkind with hlow | hp | he | hn | hr
      · exact absurd (hinh.symm.trans (h.remembered hlow.1 hlow.2)) (by simp)
      · exact hp hpath
      · exact absurd (hempty.symm.trans he) (by simp)
      · exact absurd (hid.symm.trans hn) (by simp)
      · exact hr hrec

end Read

/-! ## 7. One call, and a run -/

/-- A call that is about other descriptors. -/
theorem KnownAt.frame {s : Session} {x : Int32} (h : KnownAt s x) {c : FdCall}
    (hopens : c.kernel s.opens x = s.opens x)
    (hbounds : (s.opens x).isSome = true → c.bounds x = false)
    (hagree : AgreeAt s.tables (c.hook s.tables).1 x) : KnownAt (step s c) x where
  closed := fun hnone => (h.closed (hopens.symm.trans hnone)).of_agreeAt hagree
  opened := by
    intro d hd
    have hd' : s.opens x = some d := hopens.symm.trans hd
    have hb : c.bounds x = false := hbounds (by rw [hd']; rfl)
    exact (h.opened d hd').of_agreeAt hagree fun hs => hs.cons hb

/-- A number below zero is no descriptor. -/
theorem KnownAt.closed_of_neg {s : Session} {x : Int32} (h : KnownAt s x) (hneg : ¬ 0 ≤ x) :
    s.opens x = none := by
  by_contra hsome
  obtain ⟨d, hd⟩ := Option.ne_none_iff_exists'.mp hsome
  exact hneg (h.opened d hd).nonneg

/-- The descriptor of an open that succeeded. -/
theorem opened_sound {s : Session} {fd : Int32} (hblank : Blank s.tables fd) (hfd : 0 ≤ fd)
    {dirfd : Int32} {path : Option NimStr} (flags : Int32) {file : File} {k : Answers}
    (hcov : OpenCovered s dirfd path fd file k) (past : List (FdCall × List ShimEvent)) :
    Sound (recordOpen k s.tables path flags fd dirfd).1 past fd ⟨file, .created⟩ := by
  rw [recordOpen]
  cases hres : (pathForAt k s.tables dirfd path).isEmpty with
  | true =>
      simp only [if_true]
      exact Sound.of_blank hblank hfd (fun h => nomatch h)
  | false =>
      simp only [Bool.false_eq_true, if_false]
      have hne : pathForAt k s.tables dirfd path ≠ [] := by
        intro h
        rw [h] at hres
        exact absurd hres (by simp)
      refine ⟨hfd, ?_, ?_, ?_, fun h => nomatch h⟩
      · intro hpath
        rw [pathForFd_updateFdPath] at hpath ⊢
        by_cases hkept : InRange fdPathCap fd.toInt ∧ k.allocated = true
        · rw [if_pos hkept]
          by_cases hkind : file.identity.kind = .fkRegular
          · exact Or.inr (hcov hkind hkept.1 hkept.2 hne)
          · exact Or.inl ⟨rfl, hkind⟩
        · exact absurd (if_neg hkept) hpath
      · intro hempty
        rw [emptyFdAlreadyClassified_updateFdPath, hblank.empty] at hempty
        cases hempty
      · intro hseen
        rw [fileReadIsNew_updateFdPath k s.tables hfd] at hseen
        cases hseen

theorem recordOpen_agreeAt (k : Answers) (t : FdTables) (path : Option NimStr)
    (flags dirfd : Int32) {x fd : Int32} (h : x ≠ fd ∨ fd < 0) :
    AgreeAt t (recordOpen k t path flags fd dirfd).1 x := by
  rw [recordOpen]
  simp only
  split
  · exact AgreeAt.refl t x
  · rcases h with hne | hneg
    · exact updateFdPath_agreeAt k _ hne
    · rw [updateFdPath, if_pos hneg]
      exact AgreeAt.refl t x

theorem openat_known {s : Session} {x : Int32} (h : KnownAt s x) {dirfd flags fd : Int32}
    {path : Option NimStr} {file : File} {k : Answers}
    (hlegal : Legal s (.openat dirfd path flags fd file k))
    (hcov : OpenCovered s dirfd path fd file k) :
    KnownAt (step s (.openat dirfd path flags fd file k)) x := by
  by_cases hneg : fd < 0
  · refine h.frame (congrFun (if_pos hneg) x) ?_
      (recordOpen_agreeAt k s.tables path flags dirfd (Or.inr hneg))
    intro hsome
    refine beq_false_of_ne ?_
    rintro rfl
    rw [h.closed_of_neg (Int32.not_le.mpr hneg)] at hsome
    cases hsome
  · have hfd : 0 ≤ fd := Int32.not_lt.mp hneg
    have hkernel : (FdCall.openat dirfd path flags fd file k).kernel s.opens =
        Function.update s.opens fd (some ⟨file, .created⟩) := if_neg hneg
    by_cases hx : x = fd
    · subst hx
      exact KnownAt.of_opened ((congrFun hkernel x).trans (Function.update_self x _ s.opens))
        (opened_sound (h.closed (hlegal hfd)) hfd flags hcov _)
    · exact h.frame ((congrFun hkernel x).trans (Function.update_of_ne hx _ _))
        (fun _ => beq_false_of_ne (Ne.symm hx))
        (recordOpen_agreeAt k s.tables path flags dirfd (Or.inl hx))

theorem fclose_known {s : Session} {x : Int32} (h : KnownAt s x) (fd : Int32) :
    KnownAt (step s (.fclose fd)) x := by
  by_cases hx : x = fd
  · subst hx
    refine KnownAt.of_closed (Function.update_self x _ s.opens) ?_
    show Blank (if 0 ≤ x then removeFdPath s.tables x else s.tables) x
    split
    · exact removeFdPath_blank s.tables x
    · next hneg => exact h.closed (h.closed_of_neg hneg)
  · refine h.frame (Function.update_of_ne hx _ _) (fun _ => beq_false_of_ne (Ne.symm hx)) ?_
    show AgreeAt s.tables (if 0 ≤ fd then removeFdPath s.tables fd else s.tables) x
    split
    · exact removeFdPath_agreeAt hx
    · exact AgreeAt.refl _ x

theorem read_known {s : Session} {x : Int32} (h : KnownAt s x) {fd : Int32} {bytes : Int64}
    {k : Answers} (hlegal : Legal s (.read fd bytes k)) (hcov : Covered s (.read fd bytes k)) :
    KnownAt (step s (.read fd bytes k)) x := by
  by_cases hpos : 0 < bytes
  · by_cases hx : x = fd
    · subst hx
      obtain ⟨d, hd, hstat, hproc⟩ := hlegal hpos
      exact KnownAt.of_opened hd
        (read_result hpos (h.opened d hd) hstat hproc (hcov hpos d hd)).sound
    · exact h.frame rfl (fun _ => rfl) (recordFdRead_agreeAt k s.tables hx bytes)
  · refine h.frame rfl (fun _ => rfl) ?_
    show AgreeAt s.tables (recordFdRead k s.tables fd bytes).1 x
    rw [recordFdRead, if_neg hpos]
    exact AgreeAt.refl _ x

/-- **One call keeps the invariant.** -/
theorem step_sound {s : Session} {c : FdCall} (h : Inv s) (hlegal : Legal s c)
    (hcov : Covered s c) : Inv (step s c) := by
  intro x
  cases c with
  | openat dirfd path flags fd file k => exact openat_known (h x) hlegal hcov
  | create fd file =>
      by_cases hx : x = fd
      · subst hx
        exact KnownAt.of_opened (Function.update_self x _ s.opens)
          (Sound.of_blank ((h x).closed hlegal.2) hlegal.1 (fun hs => nomatch hs))
      · exact (h x).frame (Function.update_of_ne hx _ _) (fun _ => beq_false_of_ne (Ne.symm hx))
          (AgreeAt.refl _ x)
  | close fd =>
      by_cases hx : x = fd
      · subst hx
        exact KnownAt.of_closed (Function.update_self x _ s.opens) (removeFdPath_blank s.tables x)
      · exact (h x).frame (Function.update_of_ne hx _ _) (fun _ => beq_false_of_ne (Ne.symm hx))
          (removeFdPath_agreeAt hx)
  | fclose fd => exact fclose_known (h x) fd
  | read fd bytes k => exact read_known (h x) hlegal hcov

/-- The steps of a run the results are about. -/
def LegalCovered (s : Session) (c : FdCall) : Prop := Legal s c ∧ Covered s c

theorem Reached.inv {inherited : Int32 → Option File} {k : Answers} {s : Session}
    (hfd : ∀ fd, inherited fd ≠ none → 0 ≤ fd) (h : Reached LegalCovered inherited k s) :
    Inv s := by
  induction h with
  | start => exact inv_start inherited k hfd
  | step _ hc ih => exact step_sound ih hc.1 hc.2

/-- **Every content read is attributed.**  In a run whose steps are covered, a read that returned
bytes is of an open descriptor, and unless the process made that descriptor and it is no regular
file, something emitted in its lifetime, by the read at the latest, answers for it. -/
theorem content_read_attributed {inherited : Int32 → Option File} {k₀ : Answers} {s : Session}
    (hfd : ∀ fd, inherited fd ≠ none → 0 ≤ fd) (hrun : Reached LegalCovered inherited k₀ s)
    {fd : Int32} {bytes : Int64} {k : Answers} (hstep : LegalCovered s (.read fd bytes k))
    (hbytes : 0 < bytes) :
    ∃ d, s.opens fd = some d ∧ Settled d fd (step s (.read fd bytes k)).past := by
  obtain ⟨d, hd, hstat, hproc⟩ := hstep.1 hbytes
  have hsound := (hrun.inv hfd fd).opened d hd
  exact ⟨d, hd, (read_result hbytes hsound hstat hproc (hstep.2 hbytes d hd)).settled⟩

/-! ## 8. Inherited channels above 1024 -/

def onlyAt (fd : Int32) (f : File) : Int32 → Option File := fun x => if x = fd then some f else none

/-- A kernel that answers `fstat` for the one descriptor. -/
def answersAt (fd : Int32) (f : File) : Answers where
  identityKind := fun x => (onlyAt fd f x).map (·.identity)

def feederPipe : File := ⟨⟨14, 7041, .fkFifo⟩, []⟩

def configFile : File := ⟨⟨259, 1187, .fkRegular⟩, [str "/etc/tool.conf"]⟩

/-- The read of a file the process opened. -/
theorem content_read_attributed_config :
    ∃ d, (step (start (onlyAt 0 feederPipe) (answersAt 0 feederPipe))
        (.openat LinuxAtFdcwd (some (str "/etc/tool.conf")) 0 3 configFile {})).opens 3 = some d ∧
      Settled d 3 (step (step (start (onlyAt 0 feederPipe) (answersAt 0 feederPipe))
        (.openat LinuxAtFdcwd (some (str "/etc/tool.conf")) 0 3 configFile {}))
        (.read 3 12 {})).past := by
  have hstart : Reached LegalCovered (onlyAt 0 feederPipe) (answersAt 0 feederPipe)
      (start (onlyAt 0 feederPipe) (answersAt 0 feederPipe)) := .start
  refine content_read_attributed ?_ (hstart.step ⟨?_, ?_⟩) ⟨?_, ?_⟩ (by decide)
  · intro fd hfd
    by_cases h : fd = 0
    · rw [h]
      decide
    · exact absurd (if_neg h) hfd
  · exact fun _ => rfl
  · intro _ _ _ _
    have habsolute : NimPath.isAbsolute (str "/etc/tool.conf") = true := by decide +kernel
    rw [pathForAt_absolute habsolute]
    exact List.mem_cons_self
  · intro _
    exact ⟨⟨configFile, .created⟩, rfl, by rintro id ⟨⟩, by rintro path ⟨⟩⟩
  · intro _ d hd hsource
    cases hd
    exact absurd rfl hsource

/-- The first read of a channel inherited with a number above 1024 emits nothing. -/
theorem start_read_silent (inherited : Int32 → Option File) (k₀ k : Answers) {fd : Int32} {f : File}
    (hhigh : 1024 < fd) (hstat : k.identityKind fd = some f.identity)
    (hkind : f.identity.kind = .fkFifo ∨ f.identity.kind = .fkSocket) (bytes : Int64) :
    (recordFdRead k (start inherited k₀).tables fd bytes).2 = [] := by
  by_cases hbytes : 0 < bytes
  · have hblank : Blank (start inherited k₀).tables fd := (blank_empty fd).remember k₀
    have hinh : inheritedFd (start inherited k₀).tables fd = false :=
      inheritedFd_rememberInheritedOpenFds_of_gt k₀ {} hhigh
    have hnone : recoveredPath k fd f.identity.kind = none := by
      rw [recoveredPath, if_neg]
      rcases hkind with h | h <;> simp [h]
    have hout := recordFdRead_outcome k (start inherited k₀).tables fd hbytes
    generalize recordFdRead k (start inherited k₀).tables fd bytes = e at hout ⊢
    cases hout with
    | recorded | noDescriptor | classified | skipped => rfl
    | named hpath => exact absurd hblank.path hpath
    | unresolved _ _ _ h => exact absurd (hstat.symm.trans h) (by simp)
    | recovered _ _ _ h hrec =>
        cases hstat.symm.trans h
        exact absurd (hnone.symm.trans hrec) (by simp)
    | unnamed _ _ _ h _ hregular =>
        cases hstat.symm.trans h
        rcases hkind with h | h <;> simp [h] at hregular
    | channel _ _ _ _ _ _ h => exact absurd (hinh.symm.trans h) (by simp)
  · rw [recordFdRead, if_neg hbytes]

/-- A pipe that the launcher left on descriptor 1025 feeds the process, and nothing says so. -/
theorem inherited_pipe_at_1025_unattributed :
    ¬ ∀ (inherited : Int32 → Option File) (k₀ : Answers) (s : Session),
      (∀ fd, inherited fd ≠ none → 0 ≤ fd) → Reached Legal inherited k₀ s →
      ∀ (fd : Int32) (bytes : Int64) (k : Answers), Legal s (.read fd bytes k) → 0 < bytes →
        ∃ d, s.opens fd = some d ∧ Settled d fd (step s (.read fd bytes k)).past := by
  intro h
  have hfd : ∀ fd, onlyAt 1025 feederPipe fd ≠ none → 0 ≤ fd := by
    intro fd hfd
    by_cases h : fd = 1025
    · rw [h]
      decide
    · exact absurd (if_neg h) hfd
  have hlegal : Legal (start (onlyAt 1025 feederPipe) (answersAt 1025 feederPipe))
      (.read 1025 1 (answersAt 1025 feederPipe)) := by
    intro _
    refine ⟨⟨feederPipe, .inherited true⟩, rfl, ?_, by rintro path ⟨⟩⟩
    intro id hid
    exact (Option.some.inj hid).symm
  obtain ⟨d, hd, hsettled⟩ := h _ _ _ hfd .start 1025 1 (answersAt 1025 feederPipe) hlegal
    (by decide)
  have hopen : (start (onlyAt 1025 feederPipe) (answersAt 1025 feederPipe)).opens 1025 =
      some ⟨feederPipe, .inherited true⟩ := rfl
  cases hopen.symm.trans hd
  rcases hsettled with hexempt | ⟨e, he, -⟩
  · exact nomatch hexempt.1
  · have hsilent := start_read_silent (onlyAt 1025 feederPipe) (answersAt 1025 feederPipe)
      (answersAt 1025 feederPipe) (show (1024 : Int32) < 1025 by decide) (f := feederPipe) rfl
      (Or.inl rfl) 1
    rw [step, FdCall.hook, hsilent, lifetime_cons rfl] at he
    cases he

end IoMon.Descriptors
