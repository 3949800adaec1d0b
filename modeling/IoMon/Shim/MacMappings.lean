/-
# Mapping calls on macOS

A file that is mapped MAP_SHARED can be written without a `write`: at once, where the mapping is
writable, or after a later `mprotect`.  The shim keeps the shared file mappings it has seen with the
path of their descriptor, and records a write on the first of these.  The mapping calls are made
from inside the allocator too, where no Nim code may run, so that thunks in C decide first whether
a call is of interest: by a byte for each descriptor, set where the descriptor has a path, and by a
table of address ranges.  The paths stay on the Nim side.

The kernel is beside the shim: what each descriptor is open on, and which file each piece of memory
is a shared mapping of.  `File.names` are the paths that are a name of the file.  A call is complete
before the next is made.
-/
import IoMon.Lib.GuardedRuns
import IoMon.Lib.Intervals
import IoMon.Shim.AnonymousRanges
import IoMon.Shim.Emit

namespace IoMon.SharedMappings

open ByteText Intervals

/-! ## 1. The tables -/

def intreeFdCap : Nat := 65536
def sharedMmapCap : Nat := 4096

def ProtWrite : UInt32 := 0x02
def ProtExec : UInt32 := 0x04
def MapShared : UInt32 := 0x0001
def MapAnon : UInt32 := 0x1000

def MapFailed : Nat := 0xFFFFFFFFFFFFFFFF

inductive FdKind
  | fkRegular | fkCharDevice | fkBlockDevice | fkFifo | fkSocket | fkDirectory | fkOther
  deriving DecidableEq, Repr

/-- What `ct_macos_fd_dev_ino_kind` reads off `fstat`. -/
structure FdIdentity where
  dev : UInt64
  ino : UInt64
  kind : FdKind
  deriving DecidableEq, Repr

/-- What the shim is told while one hook runs: by `fstat` and by F_GETPATH. -/
structure Answers where
  identity : Option FdIdentity := none
  realPath : Option NimStr := none
  deriving DecidableEq, Repr

/-- `SharedMmapRange`; the range is from `start` to `finish`. -/
structure SharedMmapRange where
  range : Range Nat
  path : NimStr
  mprotectWriteEmitted : Bool
  deriving DecidableEq, Repr

/-- The tables of the Nim side, and the two of the thunks.  A slot of `gate` is free where its
start is 0. -/
structure ShimState where
  fdPaths : Int32 → Option NimStr := fun _ => none
  shmFds : Int32 → Option NimStr := fun _ => none
  classifiedEmptyFds : Int32 → Bool := fun _ => false
  sharedMmaps : List SharedMmapRange := []
  intreeFds : Int → Bool := fun _ => false
  gate : List (Range Nat) := List.replicate sharedMmapCap ⟨0, 0⟩

def pathForFd (s : ShimState) (fd : Int32) : NimStr := (s.fdPaths fd).getD []

def shmNameForFd (s : ShimState) (fd : Int32) : NimStr := (s.shmFds fd).getD []

/-- `repro_intree_fd_mark` and `repro_intree_fd_clear`. -/
def setIntree (s : ShimState) (fd : Int32) (value : Bool) : ShimState :=
  if 0 ≤ fd.toInt ∧ fd.toInt < intreeFdCap then
    { s with intreeFds := Function.update s.intreeFds fd.toInt value }
  else s

/-- `repro_intree_fd_has`: a descriptor above the table counts as known. -/
def intreeFdHas (s : ShimState) (fd : Int32) : Bool :=
  if fd.toInt < 0 then false
  else if (intreeFdCap : Int) ≤ fd.toInt then true
  else s.intreeFds fd.toInt

def updateFdPath (s : ShimState) (fd : Int32) (path : NimStr) : ShimState :=
  if fd < 0 then s
  else setIntree { s with fdPaths := Function.update s.fdPaths fd (some path) } fd true

def removeFdPath (s : ShimState) (fd : Int32) : ShimState :=
  let s := setIntree { s with fdPaths := Function.update s.fdPaths fd none } fd false
  { s with
    shmFds := Function.update s.shmFds fd none
    classifiedEmptyFds := Function.update s.classifiedEmptyFds fd false }

/-- A duplicate is cleared first: `dup2` closes it in the kernel alone. -/
def copyFdPath (s : ShimState) (oldfd newfd : Int32) : ShimState :=
  if newfd < 0 then s
  else
    let srcPath := pathForFd s oldfd
    let srcShm := shmNameForFd s oldfd
    setIntree { s with
      fdPaths := Function.update s.fdPaths newfd (if srcPath = [] then none else some srcPath)
      shmFds := Function.update s.shmFds newfd (if srcShm = [] then none else some srcShm)
      classifiedEmptyFds := Function.update s.classifiedEmptyFds newfd false }
      newfd (srcPath ≠ [])

def markEmptyFdClassified (s : ShimState) (fd : Int32) : ShimState :=
  if fd < 0 then s
  else { s with classifiedEmptyFds := Function.update s.classifiedEmptyFds fd true }

/-! ## 2. Ranges of addresses -/

/-- `repro_range_from_addr_len`, in the arithmetic of addresses. -/
def rangeFromAddrLen (addr len : Nat) : Option (Range Nat) :=
  if len = 0 ∨ addrAdd addr len ≤ addr then none else some ⟨addr, addrAdd addr len⟩

/-- `repro_range_valid`. -/
def rangeValid (r : Range Nat) : Bool := decide (r.start ≠ 0) && decide (r.start < r.stop)

def meets (a b : Range Nat) : Bool := rangesIntersect a.start a.stop b.start b.stop

/-- `repro_range_intersects`. -/
def rangeIntersects (a b : Range Nat) : Bool := rangeValid a && rangeValid b && meets a b

/-- The first free slot, if there is one. -/
def fillFree (r : Range Nat) : List (Range Nat) → Option (List (Range Nat))
  | [] => none
  | slot :: rest => if slot.start = 0 then some (r :: rest) else (fillFree r rest).map (slot :: ·)

/-- `repro_shared_mmap_add`; `none` is the result 0. -/
def sharedMmapAdd (gate : List (Range Nat)) (addr len : Nat) : Option (List (Range Nat)) :=
  match rangeFromAddrLen addr len with
  | none => none
  | some r => if r ∈ gate then some gate else fillFree r gate

def sharedMmapOverlaps (gate : List (Range Nat)) (addr len : Nat) : Bool :=
  match rangeFromAddrLen addr len with
  | none => false
  | some r => gate.any (rangeIntersects r)

def sharedMmapRemoveOverlaps (gate : List (Range Nat)) (addr len : Nat) : List (Range Nat) :=
  match rangeFromAddrLen addr len with
  | none => gate
  | some r => gate.map fun slot => if rangeIntersects r slot then ⟨0, 0⟩ else slot

/-! ## 3. The recorders -/

/-- The range of a call on the Nim side, where nil and an empty range are no calls. -/
def callRange (addr len : Nat) : Option (Range Nat) :=
  if addr = 0 then none else rangeFromAddrLen addr len

/-- The entry of a mapping that is in the list is used again. -/
def rememberRange (r : Range Nat) (path : NimStr) (write : Bool) :
    List SharedMmapRange → List SharedMmapRange
  | [] => [⟨r, path, write⟩]
  | m :: rest =>
    if m.range = r ∧ m.path = path then
      (if write then { m with mprotectWriteEmitted := true } else m) :: rest
    else m :: rememberRange r path write rest

def rememberSharedMmap (s : ShimState) (callResult len : Nat) (prot : UInt32) (path : NimStr) :
    ShimState :=
  if path = [] then s
  else
    match callRange callResult len with
    | none => s
    | some r =>
      match sharedMmapAdd s.gate callResult len with
      | none => s
      | some gate =>
        { s with
          gate := gate
          sharedMmaps := rememberRange r path (prot &&& ProtWrite != 0) s.sharedMmaps }

def promotedWrite (path : NimStr) : ShimEvent :=
  .fileWrite path (str "mprotect MAP_SHARED promoted writable") 0 0

/-- Whether `mprotect` on this range writes the first record of a mapping. -/
def promotes (r : Range Nat) (m : SharedMmapRange) : Bool :=
  !m.mprotectWriteEmitted && meets r m.range

def emitMprotectPromotions (s : ShimState) (addr len : Nat) : ShimState × List ShimEvent :=
  match callRange addr len with
  | none => (s, [])
  | some r =>
    ({ s with
        sharedMmaps := s.sharedMmaps.map fun m =>
          if promotes r m then { m with mprotectWriteEmitted := true } else m },
      (s.sharedMmaps.filter (promotes r)).map fun m => promotedWrite m.path)

/-- An entry goes wherever a part of it is unmapped. -/
def forgetSharedMmaps (s : ShimState) (addr len : Nat) : ShimState :=
  match callRange addr len with
  | none => s
  | some r => { s with sharedMmaps := s.sharedMmaps.filter fun m => !meets r m.range }

/-- `recoverNamedFdFile`; `none` is the result false. -/
def recoverNamedFdFile (k : Answers) (s : ShimState) (fd : Int32) (kind : FdKind)
    (detail : NimStr) : Option (ShimState × List ShimEvent) :=
  if kind = .fkRegular ∨ kind = .fkCharDevice ∨ kind = .fkBlockDevice then
    match k.realPath with
    | none => none
    | some resolved =>
      if resolved = [] then none
      else some (updateFdPath s fd resolved, [.fileRead resolved detail 0 fd.toUInt32])
  else none

def localFdKey (id : FdIdentity) : NimStr :=
  str "localfd:" ++ decimal id.dev ++ str ":" ++ decimal id.ino

def classifyEmptyFdRead (k : Answers) (s : ShimState) (fd : Int32) :
    ShimState × List ShimEvent :=
  if fd < 0 ∨ s.classifiedEmptyFds fd = true then (s, [])
  else
    match k.identity with
    | none => (markEmptyFdClassified s fd, [])
    | some id =>
      match id.kind with
      | .fkRegular | .fkCharDevice | .fkBlockDevice =>
        (recoverNamedFdFile k s fd id.kind (str "inherited-fd")).getD
          (markEmptyFdClassified s fd, [])
      | .fkSocket | .fkFifo | .fkOther =>
        (markEmptyFdClassified s fd,
          [.externalContent (str "opaque") (str "read") (localFdKey id) fd.toUInt32 0])
      | .fkDirectory => (markEmptyFdClassified s fd, [])

def recordFdRead (k : Answers) (s : ShimState) (fd : Int32) (nbytes : Int64) :
    ShimState × List ShimEvent :=
  if pathForFd s fd = [] then classifyEmptyFdRead k s fd
  else (s, [.fileRead (pathForFd s fd) [] nbytes fd.toUInt32])

/-- The descriptor of a mapping that is no code gets its path, if it has none yet. -/
def recoverMapped (k : Answers) (s : ShimState) (prot : UInt32) (fd : Int32) :
    ShimState × List ShimEvent :=
  if prot &&& ProtExec = 0 ∧ pathForFd s fd = [] then
    match k.identity with
    | none => (s, [])
    | some id => (recoverNamedFdFile k s fd id.kind (str "mmap-inherited-fd")).getD (s, [])
  else (s, [])

def mappedWrite (path : NimStr) (fd : Int32) : ShimEvent :=
  .fileWrite path (str "mmap-write MAP_SHARED|PROT_WRITE") 0 fd.toUInt32

def shmRead (name : NimStr) (fd : Int32) : ShimEvent :=
  .fileRead (str "shm:" ++ name) (str "shm-mmap MAP_SHARED|PROT_READ") 0 fd.toUInt32

def recordMmap (k : Answers) (s : ShimState) (callResult len : Nat) (prot flags : UInt32)
    (fd : Int32) : ShimState × List ShimEvent :=
  if callResult = MapFailed ∨ fd < 0 then (s, [])
  else if flags &&& MapAnon ≠ 0 then (s, [])
  else if shmNameForFd s fd ≠ [] then
    -- a shared-memory object is no file; its writer's side is no dependency
    (s, if prot &&& ProtWrite = 0 then [shmRead (shmNameForFd s fd) fd] else [])
  else
    let (s, reads) := recoverMapped k s prot fd
    let mappedPath := pathForFd s fd
    if flags &&& MapShared ≠ 0 ∧ mappedPath ≠ [] then
      (rememberSharedMmap s callResult len prot mappedPath,
        reads ++ if prot &&& ProtWrite ≠ 0 then [mappedWrite mappedPath fd] else [])
    else (s, reads)

/-- The table's part of `recordCanonicalTarget`. -/
def recordCanonicalTarget (k : Answers) (s : ShimState) (fd : Int32) (original : NimStr) :
    ShimState :=
  if fd < 0 then s
  else
    match k.realPath with
    | none => s
    | some canonical =>
      if canonical = [] ∨ canonical = original then s else updateFdPath s fd canonical

def SystemShmExactNames : List NimStr :=
  [str "apple.cfprefs.daemonv1", str "apple.shm.notification_center",
    str "com.apple.AppleDatabaseChanged"]

def isSystemShmName (name : NimStr) : Bool :=
  let n := if name.head? = some 47 then name.tail else name
  let userPart := (n.drop 14).take (n.length - 16)
  SystemShmExactNames.contains n ||
    (startsWith n (str "apple.cfprefs.") && endsWith n (str "v1") && 16 < n.length &&
      userPart.all isDigit)

/-- The table's part of `recordShmOpen`. -/
def recordShmOpen (s : ShimState) (fd : Int32) (name : NimStr) : ShimState :=
  if fd < 0 ∨ isSystemShmName name = true then s
  else { s with shmFds := Function.update s.shmFds fd (some name) }

/-! ## 4. Calls -/

/-- A file, by the paths that are a name of it. -/
structure File where
  names : List NimStr
  deriving DecidableEq, Repr

/-- A call with its result. -/
inductive Call
  | openat (path : NimStr) (result : Int32) (file : File)
  | close (fd : Int32)
  /-- `dup`, `dup2` and the two commands of `fcntl` that duplicate -/
  | dup (oldfd result : Int32)
  | shmOpen (name : NimStr) (result : Int32) (object : File)
  | read (fd : Int32) (nbytes : Int64)
  | mmap (result len : Nat) (prot flags : UInt32) (fd : Int32)
  | mprotect (addr len : Nat) (prot : UInt32) (succeeds : Bool)
  | munmap (addr len : Nat) (succeeds : Bool)
  deriving DecidableEq, Repr

/-- A call, and how the shim meets it: a hook that is not initialised or muted on its thread makes
the real call alone. -/
structure Event where
  call : Call
  muted : Bool := false
  answers : Answers := {}
  deriving DecidableEq, Repr

/-- `repro_wrap_mmap`: which mappings enter Nim. -/
def entersMmap (s : ShimState) (prot flags : UInt32) (fd : Int32) : Bool :=
  decide (0 ≤ fd) &&
    !(flags &&& MapShared == 0 && (prot &&& ProtExec != 0 || intreeFdHas s fd))

/-- The thunks and hooks; `mmapGate` and `rangeGate` are the decisions of the thunks. -/
def hookWith (mmapGate : ShimState → UInt32 → UInt32 → Int32 → Bool)
    (rangeGate : List (Range Nat) → Nat → Nat → Bool) (s : ShimState) (e : Event) :
    ShimState × List ShimEvent :=
  match e.call with
  | .openat path result _ =>
    if e.muted then (s, [])
    else (recordCanonicalTarget e.answers (updateFdPath s result path) result path, [])
  | .close fd => (if e.muted then s else removeFdPath s fd, [])
  | .dup oldfd result => (if e.muted ∨ result < 0 then s else copyFdPath s oldfd result, [])
  | .shmOpen name result _ => (if e.muted then s else recordShmOpen s result name, [])
  | .read fd nbytes =>
    if e.muted ∨ nbytes < 0 then (s, []) else recordFdRead e.answers s fd nbytes
  | .mmap result len prot flags fd =>
    if e.muted ∨ mmapGate s prot flags fd = false then (s, [])
    else recordMmap e.answers s result len prot flags fd
  | .mprotect addr len prot succeeds =>
    if succeeds ∧ prot &&& ProtWrite ≠ 0 ∧ rangeGate s.gate addr len = true ∧ e.muted = false then
      emitMprotectPromotions s addr len
    else (s, [])
  | .munmap addr len succeeds =>
    if succeeds ∧ rangeGate s.gate addr len = true then
      let s := { s with gate := sharedMmapRemoveOverlaps s.gate addr len }
      (if e.muted then s else forgetSharedMmaps s addr len, [])
    else (s, [])

def hook : ShimState → Event → ShimState × List ShimEvent := hookWith entersMmap sharedMmapOverlaps

/-- The hooks without the decisions of the thunks: every call enters Nim. -/
def plainHook : ShimState → Event → ShimState × List ShimEvent :=
  hookWith (fun _ _ _ _ => true) (fun _ _ _ => true)

/-! ## 5. The kernel -/

def vmPage : Nat := 16384

/-- A length in whole pages. -/
def wholePages (len : Nat) : Nat := (len + (vmPage - 1)) / vmPage * vmPage

/-- The memory a call is about. -/
def pages (addr len : Nat) : Range Nat := ⟨addr, addr + wholePages len⟩

/-- A call that succeeds is about whole pages behind the first, below the end of the addresses. -/
def OnPages (addr len : Nat) : Prop :=
  addr % vmPage = 0 ∧ addr ≠ 0 ∧ len ≠ 0 ∧ addr + wholePages len < 0x10000000000000000

instance (addr len : Nat) : Decidable (OnPages addr len) :=
  inferInstanceAs (Decidable (_ ∧ _ ∧ _ ∧ _))

/-- A piece of memory that is a shared mapping of a file. -/
structure Piece where
  range : Range Nat
  file : File
  deriving DecidableEq, Repr

structure Session where
  shim : ShimState := {}
  opens : Int32 → Option File
  pieces : List Piece := []
  events : List ShimEvent := []

def start (inherited : Int32 → Option File) : Session := { opens := inherited }

/-- What is left of the pieces outside a range. -/
def cutPieces (r : Range Nat) (pieces : List Piece) : List Piece :=
  pieces.flatMap fun p => (cut r.start r.stop p.range).map fun rest => ⟨rest, p.file⟩

/-- F_GETPATH answers with a name of the file. -/
def Answers.truthful (k : Answers) (file : Option File) : Bool :=
  match file, k.realPath with
  | some file, some path => path == [] || file.names.contains path
  | _, _ => true

/-- A mapping of a file is shared memory with it. -/
def sharedPiece (opens : Int32 → Option File) (result len : Nat) (flags : UInt32) (fd : Int32) :
    List Piece :=
  match opens fd with
  | some file =>
    if flags &&& MapShared ≠ 0 ∧ 0 ≤ fd ∧ flags &&& MapAnon = 0 then
      [⟨pages result len, file⟩]
    else []
  | none => []

/-- Whether the kernel can answer so. -/
def Session.allows (s : Session) (e : Event) : Bool :=
  match e.call with
  | .openat path result file =>
    result < 0 || ((s.opens result).isNone && path != [] && file.names.contains path &&
      e.answers.truthful (some file))
  | .close _ => true
  | .dup oldfd result => result < 0 || (s.opens oldfd).isSome
  | .shmOpen _ result _ => result < 0 || (s.opens result).isNone
  | .read fd nbytes =>
    nbytes < 0 || ((s.opens fd).isSome && e.answers.truthful (s.opens fd))
  | .mmap result len _ flags fd =>
    result == MapFailed || (OnPages result len &&
      (fd < 0 || flags &&& MapAnon != 0 || ((s.opens fd).isSome &&
        e.answers.truthful (s.opens fd))))
  | .mprotect addr len _ succeeds => !succeeds || OnPages addr len
  | .munmap addr len succeeds => !succeeds || OnPages addr len

/-- The kernel's side of a call. -/
def Session.kernel (s : Session) (c : Call) : (Int32 → Option File) × List Piece :=
  match c with
  | .openat _ result file | .shmOpen _ result file =>
    (if result < 0 then s.opens else Function.update s.opens result (some file), s.pieces)
  | .close fd => (Function.update s.opens fd none, s.pieces)
  | .dup oldfd result =>
    (if result < 0 then s.opens else Function.update s.opens result (s.opens oldfd), s.pieces)
  | .read _ _ | .mprotect _ _ _ _ => (s.opens, s.pieces)
  | .mmap result len _ flags fd =>
    -- a mapping at a fixed address takes the place of what was there
    (s.opens, if result = MapFailed then s.pieces
      else cutPieces (pages result len) s.pieces ++ sharedPiece s.opens result len flags fd)
  | .munmap addr len succeeds =>
    (s.opens, if succeeds then cutPieces (pages addr len) s.pieces else s.pieces)

def stepWith (hook : ShimState → Event → ShimState × List ShimEvent) (s : Session) (e : Event) :
    Option Session :=
  if s.allows e then
    let (shim, events) := hook s.shim e
    some {
      shim := shim
      opens := (s.kernel e.call).1
      pieces := (s.kernel e.call).2
      events := s.events ++ events }
  else none

def step : Session → Event → Option Session := stepWith hook

def plainStep : Session → Event → Option Session := stepWith plainHook

/-- The shim sees every call that opens, duplicates or closes a descriptor and every `munmap`, and
no mapping is laid over a shared one. -/
def Seen (s : Session) (e : Event) : Prop :=
  match e.call with
  | .openat _ result _ | .dup _ result | .shmOpen _ result _ => 0 ≤ result → e.muted = false
  | .close _ => e.muted = false
  | .mmap result len _ _ _ =>
    result ≠ MapFailed → ∀ p ∈ s.pieces, meets (pages result len) p.range = false
  | .munmap _ _ succeeds => succeeds = true → e.muted = false
  | .read _ _ | .mprotect _ _ _ _ => True

/-! ## 6. Whole pages -/

theorem le_wholePages (len : Nat) : len ≤ wholePages len := by
  unfold wholePages vmPage
  omega

theorem OnPages.addrAdd_eq {addr len : Nat} (h : OnPages addr len) :
    addrAdd addr len = addr + len := by
  obtain ⟨-, -, -, hinside⟩ := h
  have hle := le_wholePages len
  exact Nat.mod_eq_of_lt (by omega)

theorem OnPages.rangeFromAddrLen {addr len : Nat} (h : OnPages addr len) :
    rangeFromAddrLen addr len = some ⟨addr, addr + len⟩ := by
  have hlen := h.2.2.1
  rw [SharedMappings.rangeFromAddrLen, h.addrAdd_eq, if_neg (by omega)]

theorem OnPages.callRange {addr len : Nat} (h : OnPages addr len) :
    callRange addr len = some ⟨addr, addr + len⟩ := by
  rw [SharedMappings.callRange, if_neg h.2.1, h.rangeFromAddrLen]

/-- **Lengths as given are as good as whole pages**, where both ranges begin with a page. -/
theorem meets_pages {a la b lb : Nat} (ha : a % vmPage = 0) (hb : b % vmPage = 0) :
    meets (pages a la) (pages b lb) = meets ⟨a, a + la⟩ ⟨b, b + lb⟩ := by
  unfold meets rangesIntersect pages wholePages
  unfold vmPage at *
  rw [Bool.eq_iff_iff]
  simp only [Bool.and_eq_true, decide_eq_true_eq]
  omega

end IoMon.SharedMappings
