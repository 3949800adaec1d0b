/-
# A tree of processes and what its shims tell

The shim of every process of a build records the processes it starts, the images it execs, the peers
it dials, the pipes and socket pairs it makes, and the first read of a channel its image came up
with.  This file runs a whole tree of such processes, in any interleaving, beside what the kernel
really gives them: who was started by whom, which image each of them is in, and which pipe, socket
or file stands behind each descriptor.

An image OBSERVES when it loaded the shim and is not muted.  The child that a process with several
threads forks is muted until it execs, and an image that cannot load the shim is bare; what happens
in either leaves no event.  The history a run leaves behind is kept apart from the events:

  * `Trace.paired` -- what `pipe`, `pipe2` and `socketpair` made in observing images;
  * `Trace.consumed` -- the channels an observing image inherited, at a descriptor the start-up loop
    asks about, and read through that descriptor;
  * `Trace.dialled`, `Trace.started`, `Trace.recorded` -- the peers of `connect`, the processes that
    ever observed, and the processes with a spawn record.

`told_of_run` connects the two for the channels, in every run: a channel event is about something
the history holds, and nothing of the history is without one, although an image reports a channel
at its first read only.

A descriptor that `dup` made carries what the tables say of its number, which may be about an
earlier descriptor: there is no hook for it.  What is read through one has to be a channel the tree
made, or a file or device with a name (`Covered`).  A process id is not used twice.
-/
import IoMon.Lib.GuardedRuns
import IoMon.Shim.FdReads

namespace IoMon.ProcessTree

open ByteText DirectIndex

/-! ## 1. Descriptors and images -/

/-- What a descriptor refers to: what `fstat` says of it, its link target in `/proc/self/fd`, and
the process `SO_PEERCRED` names, 0 when there is none. -/
structure Obj where
  identity : FdIdentity
  link : Option NimStr := none
  peer : UInt64 := 0
  deriving DecidableEq, Repr

def Obj.key (o : Obj) : NimStr := localFdKey o.identity

def Obj.inode (o : Obj) : UInt64 × UInt64 := (o.identity.dev, o.identity.ino)

/-- The link target stands for the object. -/
def Obj.named (o : Obj) : Bool := o.link.any namesFile

/-- Anything but a regular file, unless it is a device with a name. -/
def Obj.isChannel (o : Obj) : Bool :=
  o.identity.kind != .fkRegular && !(o.identity.kind == .fkOther && o.named)

/-- The process at the other end, where the kernel can name it. -/
def Obj.producer (o : Obj) : UInt64 := if o.identity.kind ≠ .fkSocket then 0 else o.peer

/-- How the descriptor came to its number in the present image. -/
inductive Source
  | inherited | made | duplicated
  deriving DecidableEq, Repr

structure Descriptor where
  obj : Obj
  source : Source
  deriving DecidableEq, Repr

abbrev Descriptors := Int32 → Option Descriptor

inductive Image
  | observing | muted | bare
  deriving DecidableEq, Repr

structure Proc where
  image : Image
  opens : Descriptors
  tables : FdTables

/-- What the kernel answers to a shim whose process has these descriptors. -/
def answers (opens : Descriptors) (cwd : NimStr) (allocated : Bool) : Answers where
  getcwd := cwd
  identityKind := fun fd => (opens fd).map (·.obj.identity)
  procPath := fun fd => (opens fd).bind (·.obj.link)
  socketPeerPid := fun fd => ((opens fd).map (·.obj.peer)).getD 0
  allocated := allocated

/-- The descriptors of a fresh image. -/
def arrive (objs : Int32 → Option Obj) : Descriptors := fun fd =>
  if 0 ≤ fd then (objs fd).map fun o => ⟨o, .inherited⟩ else none

/-- A process in a fresh image, which loads the shim or cannot. -/
def freshProc (loads : Bool) (objs : Int32 → Option Obj) : Proc where
  image := if loads then .observing else .bare
  opens := arrive objs
  tables := rememberInheritedOpenFds (answers (arrive objs) [] true) {}

/-! ## 2. The recorders -/

def recordLocalFdCreate (k : Answers) (fd : Int32) : List ShimEvent :=
  if fd < 0 then []
  else
    match k.identityKind fd with
    | none => []
    | some id => [.externalContent (str "localfd") (str "create") (localFdKey id) fd.toUInt32 0]

def recordLocalFdPair (k : Answers) (fd₀ fd₁ : Int32) : List ShimEvent :=
  recordLocalFdCreate k fd₀ ++ recordLocalFdCreate k fd₁

/-- The text of a unix address: up to its first NUL, or for an abstract name with `@` for every
NUL. -/
def sockaddrUnPath : NimStr → NimStr
  | 0 :: name => 64 :: name.map fun c => if c = 0 then 64 else c
  | path => path.takeWhile (· != 0)

/-- The process, user and address a connection is recorded with; only a unix socket has them, and
its address is at most the 108 bytes of `sun_path`. -/
def recordIpcConnect (family : Option SocketFamily) (peer : UInt64) (peerUid : Option UInt64)
    (sunPath : NimStr) (fd : Int64) : List ShimEvent :=
  match family with
  | none => []
  | some .afUnix => [.ipcConnect .afUnix peer peerUid (sockaddrUnPath (sunPath.take 108)) fd]
  | some other => [.ipcConnect other 0 none [] fd]

/-! ## 3. The calls -/

/-- The events of the hooks this file does not follow: files, probes, listings, libraries, inputs
that are no files, and the losses a shim reports itself. -/
def isNote : ShimEvent → Bool
  | .fileRead .. | .fileWrite .. | .fileOpen .. | .fopen .. | .probe .. | .readdir .. | .nonFile ..
  | .libraryLoad .. | .eventLoss .. => true
  | _ => false

/-- A call that concerns the process alone.  `pair` is `pipe`, `pipe2` and `socketpair`; `create` is
every way to get a descriptor that no hook follows; `openat` is the four hooks of `open`; `dup` is
`dup`, `dup2`, `dup3` and `F_DUPFD`; `read` is `read`, `pread`, `readv`, `preadv` and the reading
side of `sendfile`, `copy_file_range` and `splice`; `connect` has returned or is under way. -/
inductive Own
  | pair (fd₀ fd₁ : Int32) (o₀ o₁ : Obj)
  | create (fd : Int32) (o : Obj)
  | openat (dirfd : Int32) (path : Option NimStr) (flags fd : Int32) (o : Obj) (cwd : NimStr)
      (allocated : Bool)
  | dup (old new : Int32)
  | close (fd : Int32)
  | fclose (fd : Int32)
  | read (fd : Int32) (bytes : Int64) (allocated : Bool)
  | connect (family : Option SocketFamily) (peer : UInt64) (peerUid : Option UInt64)
      (sunPath : NimStr) (fd : Int64)
  | note (event : ShimEvent)

/-- Where an exec goes: nowhere, or into an image that loads the shim or cannot, with the
descriptors that are not close-on-exec. -/
inductive Landing
  | failed (errno : UInt64)
  | landed (loads : Bool) (keeps : Int32 → Bool) (start : Origin)

/-- A call of a process.  `posixSpawn` may search a path, and records the child only where the
caller asked for its pid. -/
inductive Call
  | own (c : Own)
  | fork (child : Origin) (singleThreaded : Bool)
  | posixSpawn (searches : Bool) (path : NimStr) (child : Origin) (named loads : Bool)
      (objs : Int32 → Option Obj)
  | execve (path : NimStr) (landing : Landing)

/-- What the kernel requires of the call: new descriptors have free numbers, and a descriptor that
is duplicated or read is open. -/
def Own.allowed (opens : Descriptors) : Own → Bool
  | .pair fd₀ fd₁ .. =>
    0 ≤ fd₀ && 0 ≤ fd₁ && fd₀ != fd₁ && (opens fd₀).isNone && (opens fd₁).isNone
  | .create fd _ => 0 ≤ fd && (opens fd).isNone
  | .openat _ _ _ fd .. => fd < 0 || (opens fd).isNone
  | .dup old new => 0 ≤ new && (opens old).isSome
  | .read fd .. => (opens fd).isSome
  | .note event => isNote event
  | .close _ | .fclose _ | .connect .. => true

def Own.kernel (opens : Descriptors) : Own → Descriptors
  | .pair fd₀ fd₁ o₀ o₁ =>
    Function.update (Function.update opens fd₀ (some ⟨o₀, .made⟩)) fd₁ (some ⟨o₁, .made⟩)
  | .create fd o => Function.update opens fd (some ⟨o, .made⟩)
  | .openat _ _ _ fd o .. => if fd < 0 then opens else Function.update opens fd (some ⟨o, .made⟩)
  | .dup old new => Function.update opens new ((opens old).map fun d => ⟨d.obj, .duplicated⟩)
  | .close fd | .fclose fd => Function.update opens fd none
  | .read .. | .connect .. | .note _ => opens

/-- What the hooks of an observing image do. -/
def Own.hook (opens : Descriptors) (t : FdTables) : Own → Effect
  | .pair fd₀ fd₁ o₀ o₁ =>
    (t, recordLocalFdPair (answers (Own.kernel opens (.pair fd₀ fd₁ o₀ o₁)) [] true) fd₀ fd₁)
  | .create .. | .dup .. => (t, [])
  | .openat dirfd path flags fd _ cwd allocated =>
    recordOpen (answers opens cwd allocated) t path flags fd dirfd
  | .close fd => (removeFdPath t fd, [])
  | .fclose fd => (if 0 ≤ fd then removeFdPath t fd else t, [])
  | .read fd bytes allocated => recordFdRead (answers opens [] allocated) t fd bytes
  | .connect family peer peerUid sunPath fd => (t, recordIpcConnect family peer peerUid sunPath fd)
  | .note event => (t, [event])

/-! ## 4. The system -/

/-- What has happened, the latest first: the events, and the history they are about. -/
structure Trace where
  events : List (Origin × ShimEvent) := []
  recorded : List UInt64 := []
  started : List UInt64 := []
  dialled : List UInt64 := []
  paired : List Obj := []
  consumed : List Obj := []

def Trace.add (d t : Trace) : Trace where
  events := d.events ++ t.events
  recorded := d.recorded ++ t.recorded
  started := d.started ++ t.started
  dialled := d.dialled ++ t.dialled
  paired := d.paired ++ t.paired
  consumed := d.consumed ++ t.consumed

structure System where
  procs : UInt64 → Option Proc
  trace : Trace

def Own.pairs : Own → List Obj
  | .pair _ _ o₀ o₁ => [o₀, o₁]
  | _ => []

/-- A read that returned bytes of a channel the image came up with. -/
def Own.consumes (opens : Descriptors) : Own → List Obj
  | .read fd bytes _ =>
    match opens fd with
    | some ⟨o, .inherited⟩ => if 0 < bytes ∧ fd ≤ 1024 ∧ o.isChannel then [o] else []
    | _ => []
  | _ => []

def Own.dials : Own → List UInt64
  | .connect (some .afUnix) peer .. => [peer]
  | .connect (some _) .. => [0]
  | _ => []

/-- What an own call of an observing image adds. -/
def Own.trace (o : Origin) (p : Proc) (c : Own) : Trace where
  events := (c.hook p.opens p.tables).2.map fun event => (o, event)
  dialled := c.dials
  paired := c.pairs
  consumed := c.consumes p.opens

/-- What a start of the shim adds, if it loads. -/
def startTrace (loads : Bool) (o : Origin) : Trace :=
  if loads then { events := [(o, .processStart)], started := [o.osPid] } else {}

/-- What a spawn record adds. -/
def spawnTrace (recorded : Bool) (o : Origin) (via : SpawnCall) (path : NimStr) (child : UInt64)
    (result : Int64) : Trace :=
  if recorded then { events := [(o, .spawn via path child result)], recorded := [child] } else {}

def execTrace (o : Origin) (path : NimStr) : Trace := { events := [(o, .exec path)] }

def execFailedTrace (o : Origin) (path : NimStr) (errno : UInt64) : Trace :=
  { events := [(o, .execFailed path errno), (o, .exec path)] }

/-- A new process has a pid of its own. -/
def Call.allowed (s : System) (p : Proc) : Call → Bool
  | .own c => c.allowed p.opens
  | .fork child _ => child.osPid != 0 && (s.procs child.osPid).isNone
  | .posixSpawn _ _ child .. => child.osPid != 0 && (s.procs child.osPid).isNone
  | .execve .. => true

/-- The call of process `o.osPid`, which is `p`. -/
def take (s : System) (o : Origin) (p : Proc) : Call → System
  | .own c =>
    if p.image = .observing then
      { procs := Function.update s.procs o.osPid
          (some { p with opens := c.kernel p.opens, tables := (c.hook p.opens p.tables).1 })
        trace := (c.trace o p).add s.trace }
    else
      { s with
        procs := Function.update s.procs o.osPid (some { p with opens := c.kernel p.opens }) }
  | .fork child singleThreaded =>
    if p.image = .observing then
      { procs := Function.update s.procs child.osPid
          (some { p with image := if singleThreaded then .observing else .muted })
        trace := (startTrace singleThreaded child).add
          ((spawnTrace true o .fork [] child.osPid child.osPid.toInt64).add s.trace) }
    else { s with procs := Function.update s.procs child.osPid (some p) }
  | .posixSpawn searches path child named loads objs =>
    { procs := Function.update s.procs child.osPid (some (freshProc loads objs))
      trace := (startTrace loads child).add
        ((spawnTrace (named && p.image == .observing) o
          (if searches then .posixSpawnp else .posixSpawn) path child.osPid 0).add s.trace) }
  | .execve path (.failed errno) =>
    if p.image = .observing then
      { s with trace := (execFailedTrace o path errno).add s.trace }
    else s
  | .execve path (.landed loads keeps start) =>
    { procs := Function.update s.procs o.osPid
        (some (freshProc loads fun fd => if keeps fd then (p.opens fd).map (·.obj) else none))
      trace := (startTrace loads { start with osPid := o.osPid }).add
        ((if p.image = .observing then execTrace o path else {}).add s.trace) }

def step (s : System) (a : Origin × Call) : Option System :=
  (s.procs a.1.osPid).bind fun p => if a.2.allowed s p then some (take s a.1 p a.2) else none

/-- The root, as the host launches it. -/
def launch (root : Origin) (loads : Bool) (objs : Int32 → Option Obj) : System where
  procs := fun pid => if pid = root.osPid then some (freshProc loads objs) else none
  trace := (startTrace loads root).add { recorded := [root.osPid] }

theorem step_eq {s s' : System} {a : Origin × Call} : step s a = some s' ↔
    ∃ p, s.procs a.1.osPid = some p ∧ a.2.allowed s p = true ∧ s' = take s a.1 p a.2 := by
  rw [step, Option.bind_eq_some_iff]
  refine exists_congr fun p => and_congr_right fun _ => ?_
  rw [Option.ite_none_right_eq_some, Option.some.injEq]
  exact and_congr_right fun _ => eq_comm

/-! ## 5. What the tables know of a descriptor -/

/-- A descriptor the image came up with: the start-up bit says so, a path is only known of something
that is no channel, and a channel whose reads are passed over has been reported. -/
structure InheritedAt (t : FdTables) (consumed : List Obj) (x : Int32) (o : Obj) : Prop where
  bit : inheritedFd t x = decide (x ≤ 1024)
  path : pathForFd t x ≠ [] → o.isChannel = false
  empty : emptyFdAlreadyClassified t x = true → x ≤ 1024 → o.isChannel = true → o ∈ consumed

/-- **What the tables of an observing image know of a descriptor number.**  Nothing is said of a
duplicate. -/
structure FollowsAt (d : Option Descriptor) (t : FdTables) (consumed : List Obj) (x : Int32) :
    Prop where
  nonneg : d ≠ none → 0 ≤ x
  closed : d = none → Blank t x ∧ inheritedFd t x = false
  inherited : ∀ o, d = some ⟨o, .inherited⟩ → InheritedAt t consumed x o
  made : ∀ o, d = some ⟨o, .made⟩ → inheritedFd t x = false

def Follows (opens : Descriptors) (t : FdTables) (consumed : List Obj) : Prop :=
  ∀ x, FollowsAt (opens x) t consumed x

section FollowsAt

variable {d : Option Descriptor} {t u : FdTables} {consumed more : List Obj} {x : Int32}

theorem FollowsAt.mono (h : FollowsAt d t consumed x) (hsub : consumed ⊆ more) :
    FollowsAt d t more x where
  nonneg := h.nonneg
  closed := h.closed
  inherited := fun o ho =>
    have hi := h.inherited o ho
    ⟨hi.bit, hi.path, fun he hx hc => hsub (hi.empty he hx hc)⟩
  made := h.made

theorem FollowsAt.of_agreeAt (h : FollowsAt d t consumed x) (ha : AgreeAt t u x) :
    FollowsAt d u consumed x where
  nonneg := h.nonneg
  closed := fun hd => ⟨(h.closed hd).1.of_agreeAt ha, ha.inherited.trans (h.closed hd).2⟩
  inherited := fun o ho =>
    have hi := h.inherited o ho
    ⟨ha.inherited.trans hi.bit, fun hp => hi.path (ha.path ▸ hp),
      fun he => hi.empty (ha.empty ▸ he)⟩
  made := fun o ho => ha.inherited.trans (h.made o ho)

theorem FollowsAt.of_made {o : Obj} (hx : 0 ≤ x) (hbit : inheritedFd t x = false) :
    FollowsAt (some ⟨o, .made⟩) t consumed x where
  nonneg := fun _ => hx
  closed := nofun
  inherited := fun _ ho => nomatch ho
  made := fun _ _ => hbit

theorem FollowsAt.of_duplicated {o : Obj} (hx : 0 ≤ x) :
    FollowsAt (some ⟨o, .duplicated⟩) t consumed x where
  nonneg := fun _ => hx
  closed := nofun
  inherited := fun _ ho => nomatch ho
  made := fun _ ho => nomatch ho

theorem FollowsAt.of_closed (hblank : Blank t x) (hbit : inheritedFd t x = false) :
    FollowsAt none t consumed x where
  nonneg := fun h => absurd rfl h
  closed := fun _ => ⟨hblank, hbit⟩
  inherited := fun _ ho => nomatch ho
  made := fun _ ho => nomatch ho

theorem FollowsAt.of_removed : FollowsAt none (removeFdPath t x) consumed x :=
  .of_closed (removeFdPath_blank t x) (Table.get_set_default _ _)

end FollowsAt

/-- **The start-up bit.** -/
theorem inheritedFd_remember (k : Answers) (t : FdTables) (fd : Int32) :
    inheritedFd (rememberInheritedOpenFds k t) fd =
      decide (0 ≤ fd ∧ fd ≤ 1024 ∧ (k.identityKind fd).isSome = true) := by
  by_cases hfd : 0 ≤ fd ∧ fd ≤ 1024 ∧ (k.identityKind fd).isSome = true
  · rw [decide_eq_true hfd]
    exact inheritedFd_rememberInheritedOpenFds k t hfd.1 hfd.2.1 hfd.2.2
  · rw [decide_eq_false hfd, inheritedFd, rememberInheritedOpenFds,
      Table.get_foldl_set (fun fd => (k.identityKind (Int32.ofInt fd)).isSome), if_neg,
      Table.get_empty]
    · rfl
    · rintro ⟨hrange, hmem, hopen⟩
      obtain ⟨n, hn, heq⟩ := List.mem_map.mp hmem
      have hlt := List.mem_range.mp hn
      have hcast : (n : Int) = fd.toInt := heq
      rw [Int32.ofInt_toInt] at hopen
      exact hfd ⟨Int32.le_iff_toInt_le.mpr hrange.1,
        Int32.le_iff_toInt_le.mpr (show fd.toInt ≤ 1024 by omega), hopen⟩

/-- A fresh image knows what it came up with. -/
theorem follows_arrive (objs : Int32 → Option Obj) (consumed : List Obj) :
    Follows (arrive objs) (rememberInheritedOpenFds (answers (arrive objs) [] true) {})
      consumed := by
  intro x
  have hblank : Blank (rememberInheritedOpenFds (answers (arrive objs) [] true) {}) x :=
    (blank_empty x).remember _
  have hbit := inheritedFd_remember (answers (arrive objs) [] true) {} x
  have hopen : (answers (arrive objs) [] true).identityKind x =
      (arrive objs x).map (·.obj.identity) := rfl
  rw [hopen, Option.isSome_map] at hbit
  have hnonneg : arrive objs x ≠ none → 0 ≤ x := by
    intro hd
    by_contra hneg
    exact hd (if_neg hneg)
  refine ⟨hnonneg, fun hd => ⟨hblank, ?_⟩, fun o ho => ⟨?_, fun hp => absurd hblank.path hp,
    fun he => absurd (hblank.empty.symm.trans he) (by simp)⟩, fun o ho => ?_⟩
  · rw [hbit, hd]
    simp
  · have hx : 0 ≤ x := hnonneg (by rw [ho]; simp)
    rw [hbit, ho]
    simp [hx]
  · rw [arrive] at ho
    split at ho
    · obtain ⟨o', -, ho'⟩ := Option.map_eq_some_iff.mp ho
      cases ho'
    · cases ho

/-! ## 6. One read -/

/-- The record of the first read of a channel. -/
def readEvent (o : Obj) (fd : UInt32) : ShimEvent :=
  .externalContent (str "opaque") (str "read") o.key fd o.producer

/-- The record of an end of a pipe or socket pair. -/
def createEvent (o : Obj) (fd : UInt32) : ShimEvent :=
  .externalContent (str "localfd") (str "create") o.key fd 0

/-- The tree made this channel, as far as its inode can tell. -/
def MadeIn (paired : List Obj) (o : Obj) : Prop := ∃ o' ∈ paired, o'.inode = o.inode

/-- A channel event that the history answers for. -/
inductive ChannelEvent (paired consumed : List Obj) : ShimEvent → Prop
  | create {o : Obj} (fd : UInt32) (h : o ∈ paired) :
      ChannelEvent paired consumed (createEvent o fd)
  | read {o : Obj} (fd : UInt32) (h : o ∈ consumed ∨ MadeIn paired o) :
      ChannelEvent paired consumed (readEvent o fd)

/-- What is read through a duplicate is a channel the tree made, or has a name. -/
def Own.Covered (opens : Descriptors) (paired : List Obj) : Own → Prop
  | .read fd bytes _ => 0 < bytes → ∀ o, opens fd = some ⟨o, .duplicated⟩ → o.isChannel = true →
      MadeIn paired o
  | _ => True

/-- What a call of an observing image leaves, as far as the channels go. -/
structure CallTold (opens : Descriptors) (paired consumed : List Obj) (c : Own) (e : Effect) :
    Prop where
  follows : Follows (c.kernel opens) e.1 (c.consumes opens ++ consumed)
  events : ∀ ev ∈ e.2, isNote ev = true ∨
    (∃ family peer uid endpoint fd, ev = .ipcConnect family peer uid endpoint fd) ∨
    ChannelEvent (c.pairs ++ paired) (c.consumes opens ++ consumed) ev
  paired : ∀ o ∈ c.pairs, ∃ fd, createEvent o fd ∈ e.2
  consumed : ∀ o ∈ c.consumes opens, o ∈ consumed ∨ ∃ fd, readEvent o fd ∈ e.2

section Read

variable {opens : Descriptors} {cwd : NimStr} {allocated : Bool} {t : FdTables}
  {paired consumed more : List Obj} {x : Int32} {d : Descriptor}

/-- Something that no path stands for and that is no regular file is a channel. -/
theorem isChannel_of_unrecovered (hd : opens x = some d)
    (hrec : recoveredPath (answers opens cwd allocated) x d.obj.identity.kind = none)
    (hkind : d.obj.identity.kind ≠ .fkRegular) : d.obj.isChannel = true := by
  have hlink : (answers opens cwd allocated).procPath x = d.obj.link := by
    simp only [answers, hd, Option.bind_some]
  rw [recoveredPath, hlink] at hrec
  rw [Obj.isChannel, bne_iff_ne.mpr hkind, Bool.true_and, Bool.not_eq_true', Bool.and_eq_false_iff]
  by_cases hother : d.obj.identity.kind = .fkOther
  · rw [if_pos (.inr hother), Option.filter_eq_none_iff] at hrec
    refine .inr ?_
    rw [Obj.named, Option.any_eq_false]
    intro path hpath
    exact Bool.not_eq_true _ ▸ hrec path hpath
  · exact .inl (beq_false_of_ne hother)

/-- What a path stands for is no channel. -/
theorem isChannel_of_recovered (hd : opens x = some d) {path : NimStr}
    (hrec : recoveredPath (answers opens cwd allocated) x d.obj.identity.kind = some path) :
    d.obj.isChannel = false := by
  have hlink : (answers opens cwd allocated).procPath x = d.obj.link := by
    simp only [answers, hd, Option.bind_some]
  rw [recoveredPath, hlink] at hrec
  split at hrec
  · next hkind =>
    obtain ⟨hpath, hnames⟩ := Option.filter_eq_some_iff.mp hrec
    have hnamed : d.obj.named = true := by
      rw [Obj.named, hpath]
      exact hnames
    rcases hkind with h | h
    · simp [Obj.isChannel, h]
    · simp [Obj.isChannel, h, hnamed]
  · cases hrec

theorem opaqueRead_answers (hd : opens x = some d) :
    opaqueRead (answers opens cwd allocated) x d.obj.identity = readEvent d.obj x.toUInt32 := by
  have hpeer : (answers opens cwd allocated).socketPeerPid x = d.obj.peer := by
    simp only [answers, hd, Option.map_some, Option.getD_some]
  rw [opaqueRead, channelPeerPid, hpeer]
  rfl

/-- A step that leaves the path and the bits of an open descriptor alone, but for a mark that its
reads need no more attention. -/
theorem FollowsAt.of_fields (h : FollowsAt (some d) t consumed x) {u : FdTables}
    (hsub : consumed ⊆ more) (hbit : inheritedFd u x = inheritedFd t x)
    (hpath : pathForFd u x ≠ [] → pathForFd t x ≠ [] ∨ d.obj.isChannel = false)
    (hempty : emptyFdAlreadyClassified u x = true → emptyFdAlreadyClassified t x = true ∨
      (d.source = .inherited → x ≤ 1024 → d.obj.isChannel = true → d.obj ∈ more)) :
    FollowsAt (some d) u more x where
  nonneg := h.nonneg
  closed := nofun
  inherited := by
    rintro o ⟨⟩
    have hi := h.inherited o rfl
    refine ⟨hbit.trans hi.bit, fun hp => (hpath hp).elim hi.path id, fun he hx hc => ?_⟩
    rcases hempty he with he | hmore
    · exact hsub (hi.empty he hx hc)
    · exact hmore rfl hx hc
  made := fun o ho => hbit.trans (h.made o ho)

/-- A read of an open descriptor, as far as that descriptor goes. -/
structure ReadTold (paired consumed : List Obj) (x : Int32) (d : Descriptor) (consumes : List Obj)
    (e : Effect) : Prop where
  follows : FollowsAt (some d) e.1 (consumes ++ consumed) x
  events : ∀ ev ∈ e.2, isNote ev = true ∨ ChannelEvent paired (consumes ++ consumed) ev
  consumed : ∀ o ∈ consumes, o ∈ consumed ∨ ∃ fd, readEvent o fd ∈ e.2

/-- A read that has nothing to say of a channel. -/
theorem ReadTold.of_note {consumes : List Obj} {e : Effect} (hfollows : FollowsAt (some d) e.1
    (consumes ++ consumed) x) (hevents : ∀ ev ∈ e.2, isNote ev = true)
    (hconsumed : consumes ⊆ consumed) : ReadTold paired consumed x d consumes e where
  follows := hfollows
  events := fun ev hev => .inl (hevents ev hev)
  consumed := fun _ ho => .inl (hconsumed ho)

theorem consumes_read (hd : opens x = some d) (allocated : Bool) {bytes : Int64}
    (hbytes : 0 < bytes) :
    (Own.read x bytes allocated).consumes opens =
      if d.source = .inherited ∧ x ≤ 1024 ∧ d.obj.isChannel = true then [d.obj] else [] := by
  obtain ⟨o, source⟩ := d
  cases source <;> simp [Own.consumes, hd, hbytes]

/-- **One read.**  A channel is reported at its first read through the descriptor, and later reads
are passed over. -/
theorem readTold (h : FollowsAt (some d) t consumed x) (hd : opens x = some d) {bytes : Int64}
    (hbytes : 0 < bytes) (hcov : (Own.read x bytes allocated).Covered opens paired) :
    ReadTold paired consumed x d ((Own.read x bytes allocated).consumes opens)
      (recordFdRead (answers opens [] allocated) t x bytes) := by
  have hsub : consumed ⊆ (Own.read x bytes allocated).consumes opens ++ consumed :=
    List.subset_append_right _ _
  have hidentity : (answers opens [] allocated).identityKind x = some d.obj.identity := by
    simp only [answers, hd, Option.map_some]
  have hconsumes := consumes_read hd allocated hbytes
  -- nothing is consumed unless an inherited channel is read
  have hnone : (d.source = .inherited → x ≤ 1024 → d.obj.isChannel = true → False) →
      (Own.read x bytes allocated).consumes opens ⊆ consumed := by
    intro hno
    rw [hconsumes, if_neg fun h => hno h.1 h.2.1 h.2.2]
    exact List.nil_subset _
  have hout := recordFdRead_outcome (answers opens [] allocated) t x hbytes
  generalize recordFdRead (answers opens [] allocated) t x bytes = e at hout ⊢
  cases hout with
  | recorded hpath hseen =>
    refine .of_note (h.mono hsub) (by simp) (hnone fun hs _ hc => ?_)
    obtain ⟨o, source⟩ := d
    obtain rfl : source = .inherited := hs
    exact absurd hc (by rw [(h.inherited o rfl).path hpath]; simp)
  | named hpath hnew =>
    refine .of_note (h.of_fields hsub rfl .inl .inl) (by simp [isNote])
      (hnone fun hs _ hc => ?_)
    obtain ⟨o, source⟩ := d
    obtain rfl : source = .inherited := hs
    exact absurd hc (by rw [(h.inherited o rfl).path hpath]; simp)
  | noDescriptor hpath hneg => exact absurd hneg (Int32.not_lt.mpr (h.nonneg (by simp)))
  | classified hpath hempty =>
    refine .of_note (h.mono hsub) (by simp) ?_
    rw [hconsumes]
    split
    · next hcase =>
      obtain ⟨o, source⟩ := d
      obtain rfl : source = .inherited := hcase.1
      have hold := (h.inherited o rfl).empty hempty hcase.2.1 hcase.2.2
      exact List.cons_subset.mpr ⟨hold, List.nil_subset _⟩
    · exact List.nil_subset _
  | unresolved hpath hempty hfd hstat => exact absurd (hidentity.symm.trans hstat) (by simp)
  | @recovered hpath hempty hfd id path hstat hproc =>
    obtain rfl := Option.some.inj (hidentity.symm.trans hstat)
    have hchannel := isChannel_of_recovered hd hproc
    refine .of_note (h.of_fields hsub (inheritedFd_updateFdPath ..) (fun _ => .inr hchannel)
      fun he => .inl ((emptyFdAlreadyClassified_updateFdPath ..).symm.trans he))
      (by simp [inheritedFdRead, isNote]) (hnone fun _ _ hc => ?_)
    exact absurd hc (by simp [hchannel])
  | @unnamed hpath hempty hfd id hstat hproc hkind =>
    obtain rfl := Option.some.inj (hidentity.symm.trans hstat)
    have hchannel : d.obj.isChannel = false := by simp [Obj.isChannel, hkind]
    refine .of_note (h.of_fields hsub rfl .inl fun _ => .inr fun _ _ hc => ?_)
      (by simp [unnamedFdLoss, isNote]) (hnone fun _ _ hc => ?_)
    · exact absurd hc (by simp [hchannel])
    · exact absurd hc (by simp [hchannel])
  | @channel hpath hempty hfd id hstat hproc hkind hinherited =>
    obtain rfl := Option.some.inj (hidentity.symm.trans hstat)
    have hchannel := isChannel_of_unrecovered hd hproc hkind
    rw [opaqueRead_answers hd]
    -- the start-up bit rules out a descriptor the image made itself
    have hcase : (d.source = .inherited ∧ x ≤ 1024) ∨ d.source = .duplicated := by
      obtain ⟨o, source⟩ := d
      cases source with
      | inherited =>
        exact .inl ⟨rfl, of_decide_eq_true ((h.inherited o rfl).bit.symm.trans hinherited)⟩
      | made => exact absurd ((h.made o rfl).symm.trans hinherited) (by simp)
      | duplicated => exact .inr rfl
    rcases hcase with hin | hdup
    · rw [if_pos ⟨hin.1, hin.2, hchannel⟩] at hconsumes
      rw [hconsumes]
      have hself : d.obj ∈ [d.obj] ++ consumed := List.mem_cons_self
      refine ⟨h.of_fields (List.subset_append_right _ _) rfl .inl fun _ => .inr fun _ _ _ => hself,
        fun ev hev => ?_, fun o ho => ?_⟩
      · rw [List.mem_singleton.mp hev]
        exact .inr (.read _ (.inl hself))
      · rw [List.mem_singleton.mp ho]
        exact .inr ⟨_, List.mem_singleton.mpr rfl⟩
    · rw [if_neg (by rw [hdup]; simp)] at hconsumes
      rw [hconsumes]
      obtain ⟨o, source⟩ := d
      obtain rfl : source = .duplicated := hdup
      refine ⟨h.of_fields (List.subset_append_right _ _) rfl .inl fun _ => .inr nofun,
        fun ev hev => ?_, fun o ho => absurd ho List.not_mem_nil⟩
      rw [List.mem_singleton.mp hev]
      exact .inr (.read _ (.inr (hcov hbytes o hd hchannel)))
  | @skipped hpath hempty hfd id hstat hproc hkind hinherited =>
    have hlow : d.source = .inherited → x ≤ 1024 → False := by
      intro hs hx
      obtain ⟨o, source⟩ := d
      obtain rfl : source = .inherited := hs
      have hbit := (h.inherited o rfl).bit.symm.trans hinherited
      exact of_decide_eq_false hbit hx
    exact .of_note (h.of_fields hsub rfl .inl fun _ => .inr fun hs hx _ => absurd hx (hlow hs))
      (by simp) (hnone fun hs hx _ => hlow hs hx)

end Read

/-! ## 7. One call -/

section Calls

variable {opens : Descriptors} {t u : FdTables} {paired consumed : List Obj} {x : Int32}

/-- A call that changes one descriptor number. -/
theorem Follows.update (h : Follows opens t consumed) (d : Option Descriptor)
    (hother : ∀ y, y ≠ x → AgreeAt t u y) (hx : FollowsAt d u consumed x) :
    Follows (Function.update opens x d) u consumed := by
  intro y
  by_cases hy : y = x
  · subst hy
    rw [Function.update_self]
    exact hx
  · rw [Function.update_of_ne hy]
    exact (h y).of_agreeAt (hother y hy)

/-- A call that reports no channel. -/
theorem CallTold.of_quiet {c : Own} {e : Effect} (hfollows : Follows (c.kernel opens) e.1 consumed)
    (hevents : ∀ ev ∈ e.2, isNote ev = true ∨
      ∃ family peer uid endpoint fd, ev = .ipcConnect family peer uid endpoint fd)
    (hpairs : c.pairs = []) (hconsumes : c.consumes opens = []) :
    CallTold opens paired consumed c e where
  follows := by rwa [hconsumes, List.nil_append]
  events := fun ev hev => (hevents ev hev).imp_right .inl
  paired := fun o ho => absurd ho (by simp [hpairs])
  consumed := fun o ho => absurd ho (by simp [hconsumes])

theorem recordLocalFdCreate_answers {d : Descriptor} (hd : opens x = some d) (hx : 0 ≤ x) :
    recordLocalFdCreate (answers opens [] true) x = [createEvent d.obj x.toUInt32] := by
  have hidentity : (answers opens [] true).identityKind x = some d.obj.identity := by
    simp only [answers, hd, Option.map_some]
  rw [recordLocalFdCreate, if_neg (Int32.not_lt.mpr hx), hidentity]
  rfl

/-- Both ends are reported, whatever inodes they have. -/
theorem recordLocalFdPair_eq (opens : Descriptors) {fd₀ fd₁ : Int32} (o₀ o₁ : Obj) (h₀ : 0 ≤ fd₀)
    (h₁ : 0 ≤ fd₁) (hne : fd₀ ≠ fd₁) :
    recordLocalFdPair (answers (Own.kernel opens (.pair fd₀ fd₁ o₀ o₁)) [] true) fd₀ fd₁ =
      [createEvent o₀ fd₀.toUInt32, createEvent o₁ fd₁.toUInt32] := by
  have hfirst : Own.kernel opens (.pair fd₀ fd₁ o₀ o₁) fd₀ = some ⟨o₀, .made⟩ := by
    rw [Own.kernel, Function.update_of_ne hne, Function.update_self]
  have hsecond : Own.kernel opens (.pair fd₀ fd₁ o₀ o₁) fd₁ = some ⟨o₁, .made⟩ := by
    rw [Own.kernel, Function.update_self]
  rw [recordLocalFdPair, recordLocalFdCreate_answers hfirst h₀,
    recordLocalFdCreate_answers hsecond h₁]
  rfl

theorem recordIpcConnect_event {family : Option SocketFamily} {peer : UInt64}
    {peerUid : Option UInt64} {sunPath : NimStr} {fd : Int64} {ev : ShimEvent}
    (h : ev ∈ recordIpcConnect family peer peerUid sunPath fd) :
    ∃ family peer uid endpoint fd, ev = .ipcConnect family peer uid endpoint fd := by
  unfold recordIpcConnect at h
  split at h
  · exact absurd h List.not_mem_nil
  · exact ⟨_, _, _, _, _, List.mem_singleton.mp h⟩
  · exact ⟨_, _, _, _, _, List.mem_singleton.mp h⟩

/-- A free number stays unknown to the bit of start-up. -/
theorem FollowsAt.made_of_free (h : FollowsAt none t consumed x) (hx : 0 ≤ x) (o : Obj)
    (hbit : inheritedFd u x = inheritedFd t x) : FollowsAt (some ⟨o, .made⟩) u consumed x :=
  .of_made hx (hbit.trans (h.closed rfl).2)

theorem follows_removed (h : Follows opens t consumed) (fd : Int32) :
    Follows (Function.update opens fd none) (removeFdPath t fd) consumed :=
  h.update none (fun _ hy => removeFdPath_agreeAt hy) .of_removed

theorem inheritedFd_recordOpen (k : Answers) (t : FdTables) (path : Option NimStr)
    (flags fd dirfd x : Int32) :
    inheritedFd (recordOpen k t path flags fd dirfd).1 x = inheritedFd t x := by
  rw [recordOpen]
  simp only
  split
  · rfl
  · exact inheritedFd_updateFdPath ..

/-- **One call of an observing image.** -/
theorem callTold (h : Follows opens t consumed) {c : Own} (hok : c.allowed opens = true)
    (hcov : c.Covered opens paired) : CallTold opens paired consumed c (c.hook opens t) := by
  cases c with
  | pair fd₀ fd₁ o₀ o₁ =>
    simp only [Own.allowed, Bool.and_eq_true, decide_eq_true_eq, bne_iff_ne,
      Option.isNone_iff_eq_none] at hok
    obtain ⟨⟨⟨⟨h₀, h₁⟩, hne⟩, hfree₀⟩, hfree₁⟩ := hok
    have hevents := recordLocalFdPair_eq opens o₀ o₁ h₀ h₁ hne
    have hfirst : Follows (Function.update opens fd₀ (some ⟨o₀, .made⟩)) t consumed :=
      h.update _ (fun _ _ => .refl t _) ((hfree₀ ▸ h fd₀).made_of_free h₀ o₀ rfl)
    refine ⟨hfirst.update _ (fun _ _ => .refl t _) ((hfree₁ ▸ h fd₁).made_of_free h₁ o₁ rfl),
      ?_, ?_, fun o ho => absurd ho List.not_mem_nil⟩
    · intro ev hev
      rw [Own.hook, hevents] at hev
      rcases List.mem_pair.mp hev with rfl | rfl
      · exact .inr (.inr (.create _ (by simp [Own.pairs])))
      · exact .inr (.inr (.create _ (by simp [Own.pairs])))
    · intro o ho
      rw [Own.hook, hevents]
      rcases List.mem_pair.mp ho with rfl | rfl
      · exact ⟨_, List.mem_cons_self⟩
      · exact ⟨_, List.mem_cons_of_mem _ List.mem_cons_self⟩
  | create fd o =>
    simp only [Own.allowed, Bool.and_eq_true, decide_eq_true_eq, Option.isNone_iff_eq_none] at hok
    exact .of_quiet (h.update _ (fun _ _ => .refl t _) ((hok.2 ▸ h fd).made_of_free hok.1 o rfl))
      (by simp [Own.hook]) rfl rfl
  | openat dirfd path flags fd o cwd allocated =>
    refine .of_quiet ?_ (by simp [Own.hook, recordOpen, isNote]) rfl rfl
    simp only [Own.allowed, Bool.or_eq_true, decide_eq_true_eq, Option.isNone_iff_eq_none] at hok
    rw [Own.kernel, Own.hook]
    by_cases hneg : fd < 0
    · rw [if_pos hneg]
      exact fun y => (h y).of_agreeAt
        (Descriptors.recordOpen_agreeAt _ t path flags dirfd (.inr hneg))
    · rw [if_neg hneg]
      exact h.update _
        (fun y hy => Descriptors.recordOpen_agreeAt _ t path flags dirfd (.inl hy))
        ((hok.resolve_left hneg ▸ h fd).made_of_free (Int32.not_lt.mp hneg) o
          (inheritedFd_recordOpen ..))
  | dup old new =>
    simp only [Own.allowed, Bool.and_eq_true, decide_eq_true_eq] at hok
    obtain ⟨d, hd⟩ := Option.isSome_iff_exists.mp hok.2
    refine .of_quiet ?_ (by simp [Own.hook]) rfl rfl
    rw [Own.kernel, hd]
    exact h.update _ (fun _ _ => .refl t _) (.of_duplicated hok.1)
  | close fd => exact .of_quiet (follows_removed h fd) (by simp [Own.hook]) rfl rfl
  | fclose fd =>
    refine .of_quiet ?_ (by simp [Own.hook]) rfl rfl
    rw [Own.kernel, Own.hook]
    by_cases hfd : 0 ≤ fd
    · rw [if_pos hfd]
      exact follows_removed h fd
    · rw [if_neg hfd]
      -- no stream, no descriptor
      have hclosed : opens fd = none := by
        by_contra hd
        exact hfd ((h fd).nonneg hd)
      exact h.update none (fun _ _ => .refl t _) (hclosed ▸ h fd)
  | read fd bytes allocated =>
    by_cases hbytes : 0 < bytes
    · obtain ⟨d, hd⟩ := Option.isSome_iff_exists.mp hok
      have hread := readTold (hd ▸ h fd) hd hbytes hcov
      refine ⟨fun y => ?_, fun ev hev => (hread.events ev hev).imp_right .inr,
        fun o ho => absurd ho List.not_mem_nil, hread.consumed⟩
      by_cases hy : y = fd
      · rw [hy, Own.kernel, hd]
        exact hread.follows
      · exact ((h y).of_agreeAt (recordFdRead_agreeAt _ t hy bytes)).mono
          (List.subset_append_right _ _)
    · have hnone : (Own.read fd bytes allocated).consumes opens = [] := by
        rw [Own.consumes]
        split
        · rw [if_neg fun h => hbytes h.1]
        · rfl
      refine .of_quiet ?_ ?_ rfl hnone
      · rw [Own.kernel, Own.hook, recordFdRead, if_neg hbytes]
        exact h
      · rw [Own.hook, recordFdRead, if_neg hbytes]
        simp
  | connect family peer peerUid sunPath fd =>
    exact .of_quiet h (fun ev hev => .inr (recordIpcConnect_event hev)) rfl rfl
  | note event =>
    refine .of_quiet h (fun ev hev => .inl ?_) rfl rfl
    rw [List.mem_singleton.mp hev]
    exact hok

end Calls

/-! ## 8. Runs of the tree -/

def isContent : ShimEvent → Bool
  | .externalContent .. => true
  | _ => false

theorem isContent_of_isNote {ev : ShimEvent} (h : isNote ev = true) : isContent ev = false := by
  cases ev <;> first | rfl | exact absurd h (by simp [isNote])

theorem ChannelEvent.mono {paired paired' consumed consumed' : List Obj} {ev : ShimEvent}
    (h : ChannelEvent paired consumed ev) (hp : paired ⊆ paired') (hc : consumed ⊆ consumed') :
    ChannelEvent paired' consumed' ev := by
  cases h with
  | create fd ho => exact .create fd (hp ho)
  | read fd ho =>
    refine .read fd (ho.imp (fun h => hc h) ?_)
    rintro ⟨o', ho', hinode⟩
    exact ⟨o', hp ho', hinode⟩

/-- **The channel events are the history**: each of them is about something that was made or
consumed, and everything that was made or consumed has one. -/
structure Told (t : Trace) : Prop where
  channels : ∀ e ∈ t.events, isContent e.2 = true → ChannelEvent t.paired t.consumed e.2
  paired : ∀ o ∈ t.paired, ∃ e ∈ t.events, ∃ fd, e.2 = createEvent o fd
  consumed : ∀ o ∈ t.consumed, ∃ e ∈ t.events, ∃ fd, e.2 = readEvent o fd

theorem Told.add {t : Trace} (h : Told t) (d : Trace)
    (hchannels : ∀ e ∈ d.events, isContent e.2 = true →
      ChannelEvent (d.paired ++ t.paired) (d.consumed ++ t.consumed) e.2)
    (hpaired : ∀ o ∈ d.paired, ∃ e ∈ d.events, ∃ fd, e.2 = createEvent o fd)
    (hconsumed : ∀ o ∈ d.consumed, o ∈ t.consumed ∨ ∃ e ∈ d.events, ∃ fd, e.2 = readEvent o fd) :
    Told (d.add t) where
  channels := by
    intro e he hcontent
    rcases List.mem_append.mp he with he | he
    · exact hchannels e he hcontent
    · exact (h.channels e he hcontent).mono (List.subset_append_right _ _)
        (List.subset_append_right _ _)
  paired := by
    intro o ho
    rcases List.mem_append.mp ho with ho | ho
    · obtain ⟨e, he, hev⟩ := hpaired o ho
      exact ⟨e, List.mem_append_left _ he, hev⟩
    · obtain ⟨e, he, hev⟩ := h.paired o ho
      exact ⟨e, List.mem_append_right _ he, hev⟩
  consumed := by
    have hold : ∀ o ∈ t.consumed, ∃ e ∈ (d.add t).events, ∃ fd, e.2 = readEvent o fd := by
      intro o ho
      obtain ⟨e, he, hev⟩ := h.consumed o ho
      exact ⟨e, List.mem_append_right _ he, hev⟩
    intro o ho
    rcases List.mem_append.mp ho with ho | ho
    · rcases hconsumed o ho with ho | ⟨e, he, hev⟩
      · exact hold o ho
      · exact ⟨e, List.mem_append_left _ he, hev⟩
    · exact hold o ho

/-- What is no event of a channel adds nothing to the history of the channels. -/
theorem Told.add_quiet {t : Trace} (h : Told t) (d : Trace)
    (hevents : ∀ e ∈ d.events, isContent e.2 = false) (hpaired : d.paired = [])
    (hconsumed : d.consumed = []) : Told (d.add t) :=
  h.add d (fun e he hcontent => absurd hcontent (by simp [hevents e he]))
    (by simp [hpaired]) (by simp [hconsumed])

theorem Told.start {t : Trace} (h : Told t) (loads : Bool) (o : Origin) :
    Told ((startTrace loads o).add t) := by
  cases loads
  · exact h.add_quiet _ nofun rfl rfl
  · exact h.add_quiet _ (by simp [startTrace, isContent]) rfl rfl

theorem Told.spawn {t : Trace} (h : Told t) (recorded : Bool) (o : Origin) (via : SpawnCall)
    (path : NimStr) (child : UInt64) (result : Int64) :
    Told ((spawnTrace recorded o via path child result).add t) := by
  cases recorded
  · exact h.add_quiet _ nofun rfl rfl
  · exact h.add_quiet _ (by simp [spawnTrace, isContent]) rfl rfl

theorem startTrace_consumed (loads : Bool) (o : Origin) : (startTrace loads o).consumed = [] := by
  cases loads <;> rfl

theorem spawnTrace_consumed (recorded : Bool) (o : Origin) (via : SpawnCall) (path : NimStr)
    (child : UInt64) (result : Int64) :
    (spawnTrace recorded o via path child result).consumed = [] := by
  cases recorded <;> rfl

/-- The calls a run is about. -/
def Covered (s : System) (a : Origin × Call) : Prop :=
  ∀ p c, s.procs a.1.osPid = some p → p.image = .observing → a.2 = .own c →
    c.Covered p.opens s.trace.paired

structure Sound (s : System) : Prop where
  told : Told s.trace
  follows : ∀ {pid p}, s.procs pid = some p → p.image = .observing →
    Follows p.opens p.tables s.trace.consumed

/-- A step that gives one process a new state, and consumes nothing. -/
theorem Sound.update {s : System} (h : Sound s) (pid : UInt64) (q : Proc) {t : Trace}
    (htold : Told t) (hconsumed : t.consumed = s.trace.consumed)
    (hq : q.image = .observing → Follows q.opens q.tables s.trace.consumed) :
    Sound { procs := Function.update s.procs pid (some q), trace := t } where
  told := htold
  follows := by
    intro pid' p hp hobserving
    change Function.update s.procs pid (some q) pid' = some p at hp
    rw [show (System.trace _).consumed = t.consumed from rfl, hconsumed]
    by_cases hpid : pid' = pid
    · subst hpid
      rw [Function.update_self] at hp
      obtain rfl := Option.some.inj hp
      exact hq hobserving
    · rw [Function.update_of_ne hpid] at hp
      exact h.follows hp hobserving

theorem sound_launch (root : Origin) (loads : Bool) (objs : Int32 → Option Obj) :
    Sound (launch root loads objs) where
  told := Told.start ⟨fun _ he => absurd he List.not_mem_nil,
    fun _ ho => absurd ho List.not_mem_nil, fun _ ho => absurd ho List.not_mem_nil⟩ loads root
  follows := by
    intro pid p hp _
    obtain ⟨-, hfresh⟩ := Option.ite_none_right_eq_some.mp hp
    obtain rfl := Option.some.inj hfresh
    exact follows_arrive objs _

/-- **One step of the tree.** -/
theorem Sound.step {s s' : System} {a : Origin × Call} (h : Sound s) (hcov : Covered s a)
    (hstep : ProcessTree.step s a = some s') : Sound s' := by
  obtain ⟨o, call⟩ := a
  obtain ⟨p, hp, hok, rfl⟩ := step_eq.mp hstep
  cases call with
  | own c =>
    by_cases hobserving : p.image = .observing
    · have hcall := callTold (h.follows hp hobserving) hok (hcov p c hp hobserving rfl)
      rw [take, if_pos hobserving]
      refine ⟨h.told.add (c.trace o p) ?_ ?_ ?_, ?_⟩
      · intro e he hcontent
        obtain ⟨ev, hev, rfl⟩ := List.mem_map.mp he
        rcases hcall.events ev hev with hnote | ⟨_, _, _, _, _, rfl⟩ | hchannel
        · exact absurd hcontent (by simp [isContent_of_isNote hnote])
        · exact absurd hcontent (by simp [isContent])
        · exact hchannel
      · intro obj hobj
        obtain ⟨fd, hfd⟩ := hcall.paired obj hobj
        exact ⟨_, List.mem_map_of_mem hfd, fd, rfl⟩
      · intro obj hobj
        refine (hcall.consumed obj hobj).imp_right ?_
        rintro ⟨fd, hfd⟩
        exact ⟨_, List.mem_map_of_mem hfd, fd, rfl⟩
      · intro pid q hq hqobserving
        change Function.update s.procs o.osPid _ pid = some q at hq
        by_cases hpid : pid = o.osPid
        · subst hpid
          rw [Function.update_self] at hq
          obtain rfl := Option.some.inj hq
          exact hcall.follows
        · rw [Function.update_of_ne hpid] at hq
          exact fun x => (h.follows hq hqobserving x).mono (List.subset_append_right _ _)
    · rw [take, if_neg hobserving]
      exact h.update _ _ h.told rfl fun hq => absurd hq hobserving
  | fork child singleThreaded =>
    by_cases hobserving : p.image = .observing
    · have hfollows : Follows p.opens p.tables s.trace.consumed := h.follows hp hobserving
      rw [take, if_pos hobserving]
      refine h.update _ _ ((h.told.spawn true o .fork [] _ _).start singleThreaded child) ?_
        fun _ => hfollows
      rw [Trace.add, startTrace_consumed]
      rfl
    · rw [take, if_neg hobserving]
      exact h.update _ _ h.told rfl fun hq => absurd hq hobserving
  | posixSpawn searches path child named loads objs =>
    refine h.update _ _ ((h.told.spawn _ o _ path _ 0).start loads child) ?_
      fun _ => follows_arrive objs _
    simp only [Trace.add, startTrace_consumed, spawnTrace_consumed, List.nil_append]
  | execve path landing =>
    cases landing with
    | failed errno =>
      rw [take]
      split
      · exact ⟨h.told.add_quiet _ (by simp [execFailedTrace, isContent]) rfl rfl, h.follows⟩
      · exact h
    | landed loads keeps start =>
      have htold : Told ((if p.image = .observing then execTrace o path else {}).add s.trace) := by
        split
        · exact h.told.add_quiet _ (by simp [execTrace, isContent]) rfl rfl
        · exact h.told.add_quiet _ nofun rfl rfl
      refine h.update _ _ (htold.start loads _) ?_ fun _ => follows_arrive _ _
      have hnone : (if p.image = .observing then execTrace o path else {}).consumed = [] := by
        split <;> rfl
      simp only [Trace.add, startTrace_consumed, hnone, List.nil_append]

/-- **What the channel events of a tree say is what happened**, in every run of every tree. -/
theorem told_of_run {root : Origin} {loads : Bool} {objs : Int32 → Option Obj}
    {calls : List (Origin × Call)} {s : System}
    (hcov : GuardedRuns.Meets ProcessTree.step Covered (launch root loads objs) calls)
    (hrun : GuardedRuns.run ProcessTree.step (launch root loads objs) calls = some s) :
    Told s.trace :=
  (GuardedRuns.invariant_of_meets (fun h hq hstep => Sound.step h hq hstep) calls
    (sound_launch root loads objs) hcov hrun).told

end IoMon.ProcessTree
