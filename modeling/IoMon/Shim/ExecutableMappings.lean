/-
# Executable anonymous memory

Code that a program generates lies in private anonymous memory, and the inline-syscall scanner has
to look at it when it becomes executable.  The hooks of `mmap`, `mprotect`, `munmap` and `mremap`
decide when to scan, when to raise a loss and when to do neither, from the table of
`AnonymousRanges.lean` and from `/proc/self/maps`, which may be unreadable.

The kernel's side is a memory of pages.  `ScannedOrFlagged` is what is wanted of one call: each
private anonymous byte it made executable is scanned with a reported status, or it emits a loss,
and it emits one if it leaves such memory writable and executable.  `Handled` is what a call
and the state it finds must look like for that, read off the branches of the hooks;
`scannedOrFlagged_iff_handled` says that this is exact, and
`executable_memory_scanned_or_flagged` carries it over whole runs.

Reading the map and patching the sites of a range belong to the hook library: they are the
parameters of `ScanWorld`, and the one thing used of a map that could be read is that it lists the
memory as it is (`MapReading.Truthful`).
-/
import IoMon.Lib.Strings
import IoMon.Shim.AnonymousRanges

namespace IoMon

open Intervals ByteText

/-! ## 1. The scanner -/

/-- `LinuxRawSyscallDiagnostic`: the two values the hooks name, and the others. -/
inductive ScanDiagnostic
  | lrsOk
  | lrsInvalidArgument
  | other (name : NimStr)
  deriving DecidableEq

def ScanDiagnostic.name : ScanDiagnostic → NimStr
  | lrsOk => str "lrsOk"
  | lrsInvalidArgument => str "lrsInvalidArgument"
  | other name => name

/-- `LinuxPatchStage` by its name. -/
abbrev PatchStage := NimStr

def lpsNone : PatchStage := str "lpsNone"

/-- `InlineSyscallPatchStatus`, the fields a report reads. -/
structure InlineSyscallPatchStatus where
  handlerInstalled : Bool
  patchedSites : UInt64
  scanDiagnostic : ScanDiagnostic
  installDiagnostic : ScanDiagnostic
  firstPatchDiagnostic : ScanDiagnostic
  firstPatchStage : PatchStage
  firstPatchErrno : Int

/-- `LinuxExecutableMapping`: one line of the map. -/
structure LinuxExecutableMapping where
  start : Nat
  stop : Nat
  readable : Bool
  executable : Bool
  privateMapping : Bool
  path : NimStr

/-- What `enumerateLinuxExecutableMappings` returned; an exception counts as
`lrsInvalidArgument`. -/
structure MapReading where
  diagnostic : ScanDiagnostic
  mappings : List LinuxExecutableMapping

/-- The outcome of patching one site. -/
structure SitePatch where
  diagnostic : ScanDiagnostic
  patchLive : Bool
  stage : PatchStage
  errno : Int

/-- What the hook library answers during one call: the two readings of the map, the sites of a
range, the number of patched sites and whether the site table overflowed. -/
structure ScanWorld where
  coverageMaps : MapReading
  scanMaps : MapReading
  sites : Nat → Nat → List SitePatch
  siteCount : UInt64
  overflowed : Bool

/-- What a hook does besides keeping its table: scan a range, report a status, emit a loss. -/
inductive ScanEvent
  | scanned (start stop : Nat)
  | reported (status : InlineSyscallPatchStatus)
  | loss (detail : NimStr)

def linuxInlineAnonScanMaxBytes : Nat := 64 * 1024 * 1024

def mappingLooksOwnedAnonymousExecutable (mapping : LinuxExecutableMapping) : Bool :=
  mapping.readable && mapping.executable && mapping.privateMapping && mapping.path.isEmpty &&
    decide (mapping.stop > mapping.start)

/-- The first site that could not be patched is remembered. -/
def patchSite (status : InlineSyscallPatchStatus) (site : SitePatch) : InlineSyscallPatchStatus :=
  if site.diagnostic == .lrsOk && site.patchLive then status
  else if status.firstPatchDiagnostic == .lrsOk then
    { status with
      firstPatchDiagnostic := site.diagnostic
      firstPatchStage := site.stage
      firstPatchErrno := site.errno }
  else status

def patchOwnedAnonymousInlineSyscallRange (w : ScanWorld) (status : InlineSyscallPatchStatus)
    (start stop : Nat) : InlineSyscallPatchStatus × List ScanEvent :=
  if stop ≤ start then (status, [])
  else if stop - start > linuxInlineAnonScanMaxBytes then
    if status.firstPatchDiagnostic == .lrsOk then
      ({ status with
        firstPatchDiagnostic := .lrsInvalidArgument
        firstPatchStage := lpsNone }, [])
    else (status, [])
  else ((w.sites start stop).foldl patchSite status, [.scanned start stop])

/-- The end of both scans. -/
def closeScan (w : ScanWorld) (status : InlineSyscallPatchStatus) : InlineSyscallPatchStatus :=
  let status := { status with patchedSites := w.siteCount }
  if w.overflowed && status.firstPatchDiagnostic == .lrsOk then
    { status with firstPatchDiagnostic := .lrsInvalidArgument }
  else status

/-- The guard of both scans: `not status.handlerInstalled or status.scanDiagnostic != lrsOk`. -/
def scannerDown (status : InlineSyscallPatchStatus) : Bool :=
  !status.handlerInstalled || status.scanDiagnostic != .lrsOk

def scanInlineSyscallPatchesForOwnedAnonymousRange (w : ScanWorld)
    (status : InlineSyscallPatchStatus) (start length : Nat) :
    InlineSyscallPatchStatus × List ScanEvent :=
  if length < 3 then (status, [])
  else if scannerDown status then (status, [])
  else
    let (status, events) :=
      patchOwnedAnonymousInlineSyscallRange w status start (addrAdd start length)
    (closeScan w status, events)

/-- The tracked ranges inside the requested one. -/
def trackedInside (t : AnonymousRanges) (start stop : Nat) : List (Range Nat) :=
  ((t.ranges.filter fun r => rangesIntersect start stop r.start r.stop).map
    (clip start stop)).take anonymousRangeCap

/-- The ranges the nested loops over live mappings and tracked ranges hand to the patcher. -/
def scanPieces (mappings : List LinuxExecutableMapping) (tracked : List (Range Nat)) :
    List (Range Nat) :=
  (mappings.filter mappingLooksOwnedAnonymousExecutable).flatMap fun mapping =>
    (tracked.filter fun owned =>
        rangesIntersect mapping.start mapping.stop owned.start owned.stop).map
      (clip mapping.start mapping.stop)

def patchPieces (w : ScanWorld) : InlineSyscallPatchStatus → List (Range Nat) →
    InlineSyscallPatchStatus × List ScanEvent
  | status, [] => (status, [])
  | status, piece :: pieces =>
      let (status, events) :=
        patchOwnedAnonymousInlineSyscallRange w status piece.start piece.stop
      let (status, events') := patchPieces w status pieces
      (status, events ++ events')

def scanInlineSyscallPatchesForTrackedMprotectRange (w : ScanWorld) (t : AnonymousRanges)
    (status : InlineSyscallPatchStatus) (start length : Nat) :
    InlineSyscallPatchStatus × List ScanEvent :=
  if length < 3 then (status, [])
  else if scannerDown status then (status, [])
  else
    let tracked := trackedInside t start (addrAdd start length)
    if tracked.isEmpty then (status, [])
    else
      let status := { status with scanDiagnostic := w.scanMaps.diagnostic }
      if w.scanMaps.diagnostic != .lrsOk then (status, [])
      else
        let (status, events) := patchPieces w status (scanPieces w.scanMaps.mappings tracked)
        (closeScan w status, events)

/-- The three diagnostics a report looks at. -/
def InlineSyscallPatchStatus.clean (status : InlineSyscallPatchStatus) : Bool :=
  status.handlerInstalled && status.scanDiagnostic == .lrsOk &&
    status.firstPatchDiagnostic == .lrsOk

def recordLateInlineSyscallScanCoverage (status : InlineSyscallPatchStatus) (source : NimStr) :
    List ScanEvent :=
  .reported status ::
    if status.clean then []
    else [.loss (str "linux late inline raw-syscall scanner unavailable source=" ++ source ++
      str " scan=" ++ status.scanDiagnostic.name ++
      str " install=" ++ status.installDiagnostic.name ++
      str " patched-sites=" ++ decimal status.patchedSites ++
      str " first-patch=" ++ status.firstPatchDiagnostic.name ++
      str " stage=" ++ status.firstPatchStage ++
      str " errno=" ++ signedDecimal status.firstPatchErrno)]

/-! ## 2. The kernel's memory -/

/-- A page: whether its memory is private and anonymous, the name the map shows for it (`[heap]`,
a file; empty for memory from `mmap`) and its protection. -/
structure PageAttrs where
  privateAnonymous : Bool
  label : NimStr
  prot : UInt32

/-- The pages that are mapped, by page number. -/
abbrev Memory := Nat → Option PageAttrs

def linuxProtRead : UInt32 := 0x1
def linuxProtWrite : UInt32 := 0x2
def linuxProtExec : UInt32 := 0x4
def linuxMapPrivate : UInt32 := 0x02
def linuxMapAnonymous : UInt32 := 0x20
/-- The kernel's `MAP_TYPE`: the bits of the flags that say how a mapping is shared. -/
def linuxMapType : UInt32 := 0x0f

def protIncludesExec (prot : UInt32) : Bool := prot &&& linuxProtExec != 0
def protIncludesWrite (prot : UInt32) : Bool := prot &&& linuxProtWrite != 0
def protIncludesRead (prot : UInt32) : Bool := prot &&& linuxProtRead != 0

inductive MemoryCall
  | mmap (result length : Nat) (prot flags : UInt32) (fd : Int)
  | mprotect (address length : Nat) (prot : UInt32)
  | munmap (address length : Nat)
  | mremap (oldAddress oldSize result newSize : Nat) (keepsOld : Bool)

/-- The page lies in the whole pages of the call. -/
def inPages (address length page : Nat) : Bool :=
  decide (address ≤ page * pageSize) && decide (page * pageSize < address + pageRound length)

/-- The memory after a call.  What an mremap moves has the attributes of its first page. -/
def memoryStep (mem : Memory) : MemoryCall → Memory
  | .mmap result length prot _ _ => fun page =>
      if inPages result length page then some ⟨true, [], prot⟩ else mem page
  | .mprotect address length prot => fun page =>
      if inPages address length page then (mem page).map fun p => { p with prot := prot }
      else mem page
  | .munmap address length => fun page => if inPages address length page then none else mem page
  | .mremap oldAddress oldSize result newSize keepsOld => fun page =>
      if inPages result newSize page then mem (oldAddress / pageSize)
      else if inPages oldAddress oldSize page && !keepsOld then none
      else mem page

/-- The call succeeded.  An mmap is private and anonymous; an mprotect found every page mapped and
may have length 0. -/
def MemoryCall.Succeeded (mem : Memory) : MemoryCall → Prop
  | .mmap result length _ flags _ => PageCall result length ∧
      flags &&& linuxMapType = linuxMapPrivate ∧ flags &&& linuxMapAnonymous ≠ 0
  | .mprotect address length _ => (length = 0 ∨ PageCall address length) ∧
      ∀ page, inPages address length page = true → (mem page).isSome = true
  | .munmap address length => PageCall address length
  | .mremap oldAddress oldSize result newSize _ => PageCall oldAddress oldSize ∧
      PageCall result newSize ∧ (mem (oldAddress / pageSize)).isSome = true

/-- A byte of private anonymous memory whose attributes satisfy `P`. -/
def AnonAt (mem : Memory) (P : PageAttrs → Prop) (x : Nat) : Prop :=
  ∃ p, mem (x / pageSize) = some p ∧ p.privateAnonymous = true ∧ P p

/-- A byte the map shows as live anonymous code: readable, executable and without a name. -/
def LiveAt (mem : Memory) (x : Nat) : Prop :=
  AnonAt mem (fun p => p.label = [] ∧ protIncludesRead p.prot = true ∧
    protIncludesExec p.prot = true) x

/-- **A map that could be read lists the memory as it is.** -/
def MapReading.Truthful (reading : MapReading) (mem : Memory) : Prop :=
  reading.diagnostic = .lrsOk → ∀ x, LiveAt mem x ↔
    ∃ m ∈ reading.mappings, mappingLooksOwnedAnonymousExecutable m = true ∧
      m.start ≤ x ∧ x < m.stop

/-- **The private anonymous bytes the call made executable.** -/
def madeExecutable (mem : Memory) : MemoryCall → Set Nat
  | .mmap result length prot _ _ => {x | protIncludesExec prot = true ∧ x ∈ mapped result length}
  | .mprotect address length prot => {x | protIncludesExec prot = true ∧
      x ∈ mapped address length ∧ AnonAt mem (fun p => protIncludesExec p.prot = false) x}
  | .munmap _ _ => ∅
  | .mremap oldAddress oldSize result newSize _ => {x | x ∈ mapped result newSize ∧
      x ∉ mapped oldAddress oldSize ∧
      AnonAt mem (fun p => protIncludesExec p.prot = true) oldAddress}

/-- **The call leaves private anonymous memory writable and executable.** -/
def LeavesWritableExecutable (mem : Memory) : MemoryCall → Prop
  | .mmap _ _ prot _ _ => protIncludesWrite prot = true ∧ protIncludesExec prot = true
  | .mprotect address length prot => protIncludesWrite prot = true ∧
      protIncludesExec prot = true ∧ ∃ x ∈ mapped address length, AnonAt mem (fun _ => True) x
  | .munmap _ _ => False
  | .mremap oldAddress _ _ _ _ => AnonAt mem (fun p => protIncludesWrite p.prot = true ∧
      protIncludesExec p.prot = true) oldAddress

/-! ## 3. The hooks -/

/-- The shim's side: the range table and the last scan status. -/
structure ScanState where
  table : AnonymousRanges
  status : InlineSyscallPatchStatus

def isAnonymousPrivateMmap (flags : UInt32) (fd : Int) : Bool :=
  flags &&& linuxMapAnonymous != 0 && flags &&& linuxMapPrivate != 0 && fd == -1

def writableMmapLoss : NimStr :=
  str "linux anonymous executable mmap is writable; raw syscall scan requires a later mprotect " ++
    str "transition source=mmap-anonymous-exec"

def untrackedMprotectLoss : NimStr :=
  str "linux anonymous executable mprotect is not owned by the preload mmap lifecycle " ++
    str "source=mprotect-anonymous-untracked"

def impreciseMremapLoss : NimStr :=
  str "linux anonymous executable mremap could not preserve precise mmap lifecycle ownership " ++
    str "source=mremap-anonymous"

def partialMremapLoss : NimStr :=
  str "linux anonymous executable mremap touched only part of a preload-owned mapping " ++
    str "source=mremap-anonymous"

def reproHookMmap (w : ScanWorld) (s : ScanState) (result length : Nat) (prot flags : UInt32)
    (fd : Int) : ScanState × List ScanEvent :=
  if isAnonymousPrivateMmap flags fd then
    let table := recordAnonymousPrivateMmap s.table result length
    if protIncludesExec prot then
      let writable := if protIncludesWrite prot then [.loss writableMmapLoss] else []
      let (status, events) :=
        scanInlineSyscallPatchesForOwnedAnonymousRange w s.status result length
      (⟨table, status⟩, writable ++
        (events ++ recordLateInlineSyscallScanCoverage status (str "mmap-anonymous-exec")))
    else ({ s with table := table }, [])
  else (s, [])

/-- `liveAnonymousExecutableCoverage`: `mapsAvailable`, `liveIntersects`, `fullyTracked`. -/
structure LiveCoverage where
  mapsAvailable : Bool
  liveIntersects : Bool
  fullyTracked : Bool

/-- The live mappings that meet `[start, stop)`. -/
def liveMeeting (mappings : List LinuxExecutableMapping) (start stop : Nat) :
    List LinuxExecutableMapping :=
  mappings.filter fun m =>
    mappingLooksOwnedAnonymousExecutable m && rangesIntersect start stop m.start m.stop

def liveAnonymousExecutableCoverage (t : AnonymousRanges) (reading : MapReading)
    (start length : Nat) : LiveCoverage :=
  if start == 0 || length == 0 then ⟨false, false, false⟩
  else if addrAdd start length ≤ start then ⟨false, false, false⟩
  else if reading.diagnostic != .lrsOk then ⟨false, false, false⟩
  else
    let live := liveMeeting reading.mappings start (addrAdd start length)
    ⟨true, !live.isEmpty, live.all fun m =>
      rangeFullyTrackedLocked t (max start m.start) (min (addrAdd start length) m.stop)⟩

def liveAnonymousExecutableMappingIntersects (reading : MapReading) (start length : Nat) : Bool :=
  if start == 0 || length == 0 then false
  else if addrAdd start length ≤ start then false
  else if reading.diagnostic != .lrsOk then false
  else !(liveMeeting reading.mappings start (addrAdd start length)).isEmpty

def reproHookMprotect (w : ScanWorld) (s : ScanState) (address length : Nat) (prot : UInt32) :
    ScanState × List ScanEvent :=
  if protIncludesExec prot then
    let coverage := liveAnonymousExecutableCoverage s.table w.coverageMaps address length
    if coverage.liveIntersects && coverage.mapsAvailable && coverage.fullyTracked then
      let (status, events) :=
        scanInlineSyscallPatchesForTrackedMprotectRange w s.table s.status address length
      ({ s with status := status },
        events ++ recordLateInlineSyscallScanCoverage status (str "mprotect-anonymous-exec"))
    else if coverage.liveIntersects then (s, [.loss untrackedMprotectLoss])
    else (s, [])
  else (s, [])

def reproHookMunmap (s : ScanState) (address length : Nat) : ScanState × List ScanEvent :=
  ({ s with table := removeAnonymousPrivateRange s.table address length }, [])

def anonymousPrivateRangeFullyTracked (t : AnonymousRanges) (address length : Nat) : Bool :=
  if address == 0 || length == 0 then false
  else if addrAdd address length ≤ address then false
  else rangeFullyTrackedLocked t address (addrAdd address length)

def anonymousPrivateRangeIntersects (t : AnonymousRanges) (address length : Nat) : Bool :=
  if address == 0 || length == 0 then false
  else if addrAdd address length ≤ address then false
  else t.ranges.any fun r => rangesIntersect address (addrAdd address length) r.start r.stop

def reproHookMremap (w : ScanWorld) (s : ScanState) (oldAddress oldSize result newSize : Nat) :
    ScanState × List ScanEvent :=
  let oldWasTracked := anonymousPrivateRangeFullyTracked s.table oldAddress oldSize
  let oldHadTrackedOverlap := anonymousPrivateRangeIntersects s.table oldAddress oldSize
  if isSuccessfulMmapResult result then
    if oldWasTracked then
      let (movedPrecisely, table) :=
        remapAnonymousPrivateRange s.table oldAddress oldSize result newSize
      if movedPrecisely then
        if liveAnonymousExecutableMappingIntersects w.coverageMaps result newSize then
          let (status, events) :=
            scanInlineSyscallPatchesForTrackedMprotectRange w table s.status result newSize
          (⟨table, status⟩,
            events ++ recordLateInlineSyscallScanCoverage status (str "mremap-anonymous-exec"))
        else ({ s with table := table }, [])
      else ({ s with table := table }, [.loss impreciseMremapLoss])
    else if oldHadTrackedOverlap then
      ({ s with table := removeAnonymousPrivateRange s.table oldAddress oldSize },
        [.loss partialMremapLoss])
    else (s, [])
  else (s, [])

/-- The hook of a successful call. -/
def hookStep (w : ScanWorld) (s : ScanState) : MemoryCall → ScanState × List ScanEvent
  | .mmap result length prot flags fd => reproHookMmap w s result length prot flags fd
  | .mprotect address length prot => reproHookMprotect w s address length prot
  | .munmap address length => reproHookMunmap s address length
  | .mremap oldAddress oldSize result newSize _ =>
      reproHookMremap w s oldAddress oldSize result newSize

/-! ## 4. What a call accounts for -/

def EmitsLoss (events : List ScanEvent) : Prop := ∃ detail, ScanEvent.loss detail ∈ events

def Reports (events : List ScanEvent) : Prop := ∃ status, ScanEvent.reported status ∈ events

def scannedBytes (events : List ScanEvent) : Set Nat :=
  {x | ∃ start stop, ScanEvent.scanned start stop ∈ events ∧ start ≤ x ∧ x < stop}

/-- **Scanned or flagged.** -/
def ScannedOrFlagged (mem : Memory) (call : MemoryCall) (events : List ScanEvent) : Prop :=
  (∀ x ∈ madeExecutable mem call,
    (x ∈ scannedBytes events ∧ Reports events) ∨ EmitsLoss events) ∧
  (LeavesWritableExecutable mem call → EmitsLoss events)

/-- There is nothing to scan and nothing to flag. -/
def NothingToAccount (mem : Memory) (call : MemoryCall) : Prop :=
  madeExecutable mem call = ∅ ∧ ¬ LeavesWritableExecutable mem call

theorem scannedOrFlagged_of_loss {mem : Memory} {call : MemoryCall} {events : List ScanEvent}
    (h : EmitsLoss events) : ScannedOrFlagged mem call events :=
  ⟨fun _ _ => .inr h, fun _ => h⟩

theorem scannedOrFlagged_nil {mem : Memory} {call : MemoryCall} :
    ScannedOrFlagged mem call [] ↔ NothingToAccount mem call := by
  simp [ScannedOrFlagged, NothingToAccount, EmitsLoss, Reports, Set.eq_empty_iff_forall_notMem]

/-- **A scan with its report.**  Its status raises the loss; otherwise the bytes have to be among
those scanned. -/
theorem scannedOrFlagged_scan_iff {mem : Memory} {call : MemoryCall} {events : List ScanEvent}
    (hquiet : ¬ EmitsLoss events) (status : InlineSyscallPatchStatus) (source : NimStr) :
    ScannedOrFlagged mem call (events ++ recordLateInlineSyscallScanCoverage status source) ↔
      status.clean = false ∨
        (madeExecutable mem call ⊆ scannedBytes events ∧
          ¬ LeavesWritableExecutable mem call) := by
  have hreports : Reports (events ++ recordLateInlineSyscallScanCoverage status source) :=
    ⟨status, by simp [recordLateInlineSyscallScanCoverage]⟩
  have hloss : EmitsLoss (events ++ recordLateInlineSyscallScanCoverage status source) ↔
      status.clean = false := by
    unfold EmitsLoss at hquiet ⊢
    simp only [List.mem_append, exists_or, hquiet, false_or]
    cases hc : status.clean <;> simp [recordLateInlineSyscallScanCoverage, hc]
  have hscanned : scannedBytes (events ++ recordLateInlineSyscallScanCoverage status source) =
      scannedBytes events := by
    unfold scannedBytes recordLateInlineSyscallScanCoverage
    split <;> simp
  simp only [ScannedOrFlagged, hloss, hscanned, hreports, and_true]
  constructor
  · intro h
    by_cases hc : status.clean = false
    · exact .inl hc
    · exact .inr ⟨fun x hx => (h.1 x hx).resolve_right hc, fun hwx => hc (h.2 hwx)⟩
  · rintro (hc | ⟨hsub, hwx⟩)
    · exact ⟨fun _ _ => .inr hc, fun _ => hc⟩
    · exact ⟨fun x hx => .inl (hsub hx), fun h => absurd h hwx⟩

/-! ## 5. What a scan covers -/

/-- The range is small enough and every site in it takes its patch. -/
def PieceClean (w : ScanWorld) (piece : Range Nat) : Prop :=
  piece.stop ≤ piece.start ∨ (piece.stop - piece.start ≤ linuxInlineAnonScanMaxBytes ∧
    ∀ site ∈ w.sites piece.start piece.stop, site.diagnostic = .lrsOk)

theorem InlineSyscallPatchStatus.clean_iff (status : InlineSyscallPatchStatus) :
    status.clean = true ↔ scannerDown status = false ∧ status.firstPatchDiagnostic = .lrsOk := by
  simp [clean, scannerDown]

theorem patchSite_spec (status : InlineSyscallPatchStatus) (site : SitePatch) :
    scannerDown (patchSite status site) = scannerDown status ∧
    ((patchSite status site).firstPatchDiagnostic = .lrsOk ↔
      status.firstPatchDiagnostic = .lrsOk ∧ site.diagnostic = .lrsOk) := by
  unfold patchSite
  split
  · next h =>
      simp only [Bool.and_eq_true, beq_iff_eq] at h
      simp [h.1]
  · split
    · next h =>
        simp only [beq_iff_eq] at h
        exact ⟨rfl, by simp [h]⟩
    · next h =>
        simp only [beq_iff_eq] at h
        exact ⟨rfl, by simp [h]⟩

theorem patchSites_spec (sites : List SitePatch) :
    ∀ status : InlineSyscallPatchStatus,
      scannerDown (sites.foldl patchSite status) = scannerDown status ∧
      ((sites.foldl patchSite status).firstPatchDiagnostic = .lrsOk ↔
        status.firstPatchDiagnostic = .lrsOk ∧ ∀ site ∈ sites, site.diagnostic = .lrsOk) := by
  induction sites with
  | nil => intro status; simp
  | cons site sites ih =>
      intro status
      obtain ⟨hd, hf⟩ := patchSite_spec status site
      obtain ⟨hd', hf'⟩ := ih (patchSite status site)
      rw [List.foldl_cons, hd', hd, hf', hf]
      simp [and_assoc]

/-- One piece: clean as before if the piece is, and then it was looked at. -/
theorem patchOwned_spec (w : ScanWorld) (status : InlineSyscallPatchStatus) (start stop : Nat) :
    let out := patchOwnedAnonymousInlineSyscallRange w status start stop
    ¬ EmitsLoss out.2 ∧ scannerDown out.1 = scannerDown status ∧
    (out.1.firstPatchDiagnostic = .lrsOk ↔
      status.firstPatchDiagnostic = .lrsOk ∧ PieceClean w ⟨start, stop⟩) ∧
    (PieceClean w ⟨start, stop⟩ → scannedBytes out.2 = Set.Ico start stop) := by
  dsimp only
  unfold patchOwnedAnonymousInlineSyscallRange PieceClean
  split
  · next h =>
      refine ⟨by simp [EmitsLoss], rfl, by simp [h], fun _ => ?_⟩
      rw [Set.Ico_eq_empty (by omega)]
      ext x
      simp [scannedBytes]
  · next h =>
      split
      · next hbig =>
          have hbig' : ¬ stop - start ≤ linuxInlineAnonScanMaxBytes := by omega
          simp only [h, hbig', false_and, or_self, and_false, iff_false]
          split
          · exact ⟨by simp [EmitsLoss], rfl, by simp, fun h => h.elim⟩
          · next hbad => exact ⟨by simp [EmitsLoss], rfl, by simpa using hbad, fun h => h.elim⟩
      · next hsmall =>
          obtain ⟨hd, hf⟩ := patchSites_spec (w.sites start stop) status
          refine ⟨by simp [EmitsLoss], hd, ?_, fun _ => ?_⟩
          · rw [hf]
            simp only [h, false_or, show stop - start ≤ linuxInlineAnonScanMaxBytes by omega,
              true_and]
          · ext x
            simp [scannedBytes]

theorem scannedBytes_append (events events' : List ScanEvent) :
    scannedBytes (events ++ events') = scannedBytes events ∪ scannedBytes events' := by
  ext x
  simp only [scannedBytes, List.mem_append, Set.mem_union, Set.mem_ofPred_eq, or_and_right,
    exists_or]

/-- The pieces of one scan, one after the other. -/
theorem patchPieces_spec (w : ScanWorld) (pieces : List (Range Nat)) :
    ∀ status : InlineSyscallPatchStatus,
      ¬ EmitsLoss (patchPieces w status pieces).2 ∧
      scannerDown (patchPieces w status pieces).1 = scannerDown status ∧
      ((patchPieces w status pieces).1.firstPatchDiagnostic = .lrsOk ↔
        status.firstPatchDiagnostic = .lrsOk ∧ ∀ piece ∈ pieces, PieceClean w piece) ∧
      ((∀ piece ∈ pieces, PieceClean w piece) →
        scannedBytes (patchPieces w status pieces).2 = cover pieces) := by
  induction pieces with
  | nil =>
      intro status
      refine ⟨by simp [patchPieces, EmitsLoss], rfl, by simp [patchPieces], fun _ => ?_⟩
      ext x
      simp [patchPieces, scannedBytes]
  | cons piece pieces ih =>
      intro status
      obtain ⟨hq, hd, hf, hs⟩ := patchOwned_spec w status piece.start piece.stop
      obtain ⟨hq', hd', hf', hs'⟩ :=
        ih (patchOwnedAnonymousInlineSyscallRange w status piece.start piece.stop).1
      simp only [patchPieces]
      refine ⟨?_, hd'.trans hd, ?_, fun hall => ?_⟩
      · rintro ⟨detail, hmem⟩
        rcases List.mem_append.mp hmem with h | h
        · exact hq ⟨detail, h⟩
        · exact hq' ⟨detail, h⟩
      · rw [hf', hf]
        simp [and_assoc]
      · rw [scannedBytes_append, hs (hall piece (List.mem_cons_self ..)),
          hs' fun p hp => hall p (List.mem_cons_of_mem _ hp), cover_cons]

theorem closeScan_spec (w : ScanWorld) (status : InlineSyscallPatchStatus) :
    scannerDown (closeScan w status) = scannerDown status ∧
    ((closeScan w status).firstPatchDiagnostic = .lrsOk ↔
      status.firstPatchDiagnostic = .lrsOk ∧ w.overflowed = false) := by
  unfold closeScan
  dsimp only
  split
  · next h =>
      simp only [Bool.and_eq_true, beq_iff_eq] at h
      exact ⟨rfl, by simp [h.1]⟩
  · next h =>
      simp only [Bool.and_eq_true, beq_iff_eq, not_and] at h
      refine ⟨rfl, ?_⟩
      cases ho : w.overflowed with
      | false => simp
      | true => simpa using h ho

/-- The scan of a whole mmap comes back clean. -/
def OwnedScanClean (w : ScanWorld) (status : InlineSyscallPatchStatus) (start length : Nat) :
    Prop :=
  status.clean = true ∧
    (3 ≤ length → PieceClean w ⟨start, start + length⟩ ∧ w.overflowed = false)

theorem scanOwned_spec (w : ScanWorld) (status : InlineSyscallPatchStatus) {start length : Nat}
    (hc : PageCall start length) :
    let out := scanInlineSyscallPatchesForOwnedAnonymousRange w status start length
    ¬ EmitsLoss out.2 ∧ (out.1.clean = true ↔ OwnedScanClean w status start length) ∧
    (OwnedScanClean w status start length →
      scannedBytes out.2 = if 3 ≤ length then Set.Ico start (start + length) else ∅) := by
  dsimp only
  unfold scanInlineSyscallPatchesForOwnedAnonymousRange OwnedScanClean
  split
  · next hshort =>
      have h3 : ¬ 3 ≤ length := by omega
      refine ⟨by simp [EmitsLoss], by simp [h3], fun _ => ?_⟩
      rw [if_neg h3]
      ext x
      simp [scannedBytes]
  · next hlong =>
      have h3 : 3 ≤ length := by omega
      split
      · next hdown =>
          have hbad : status.clean = false := by
            rw [Bool.eq_false_iff, ne_eq, status.clean_iff]
            simp [hdown]
          refine ⟨by simp [EmitsLoss], by simp [hbad], fun h => ?_⟩
          rw [hbad] at h
          cases h.1
      · next hup =>
          have hup : scannerDown status = false := by simpa using hup
          rw [hc.addrAdd_eq]
          obtain ⟨hq, hd, hf, hs⟩ := patchOwned_spec w status start (start + length)
          obtain ⟨hd', hf'⟩ := closeScan_spec w
            (patchOwnedAnonymousInlineSyscallRange w status start (start + length)).1
          refine ⟨hq, ?_, fun h => ?_⟩
          · rw [InlineSyscallPatchStatus.clean_iff, status.clean_iff, hd', hd, hf', hf, hup]
            simp [h3, and_assoc]
          · exact hs (h.2 h3).1

theorem cover_trackedInside (t : AnonymousRanges) (start stop : Nat) :
    cover (trackedInside t start stop) = cover t.ranges ∩ Set.Ico start stop := by
  have hlen : ((t.ranges.filter fun r => rangesIntersect start stop r.start r.stop).map
      (clip start stop)).length ≤ anonymousRangeCap := by
    rw [List.length_map]
    exact (List.length_filter_le ..).trans t.bounded
  rw [trackedInside, List.take_of_length_le hlen]
  ext x
  simp only [mem_cover, List.mem_map, List.mem_filter, Set.mem_inter_iff, Set.mem_Ico]
  constructor
  · rintro ⟨_, ⟨r, ⟨hr, -⟩, rfl⟩, hx⟩
    obtain ⟨hin, hx'⟩ := mem_clip.mp hx
    exact ⟨⟨r, hr, hx'⟩, hin⟩
  · rintro ⟨⟨r, hr, hx⟩, hin⟩
    exact ⟨_, ⟨r, ⟨hr, rangesIntersect_of_mem hin hx⟩, rfl⟩, mem_clip.mpr ⟨hin, hx⟩⟩

/-- The pieces are the live bytes that are tracked. -/
theorem mem_cover_scanPieces {mappings : List LinuxExecutableMapping} {tracked : List (Range Nat)}
    {x : Nat} :
    x ∈ cover (scanPieces mappings tracked) ↔
      (∃ m ∈ mappings, mappingLooksOwnedAnonymousExecutable m = true ∧
        m.start ≤ x ∧ x < m.stop) ∧ x ∈ cover tracked := by
  simp only [mem_cover, scanPieces, List.mem_flatMap, List.mem_map, List.mem_filter]
  constructor
  · rintro ⟨_, ⟨m, ⟨hm, hlive⟩, r, ⟨hr, -⟩, rfl⟩, hx⟩
    obtain ⟨hin, hx'⟩ := mem_clip.mp hx
    exact ⟨⟨m, hm, hlive, hin⟩, r, hr, hx'⟩
  · rintro ⟨⟨m, hm, hlive, hin⟩, r, hr, hx⟩
    exact ⟨_, ⟨m, ⟨hm, hlive⟩, r, ⟨hr, rangesIntersect_of_mem hin hx⟩, rfl⟩,
      mem_clip.mpr ⟨hin, hx⟩⟩

/-- The scan of the live tracked part of a range comes back clean. -/
def TrackedScanClean (w : ScanWorld) (t : AnonymousRanges) (status : InlineSyscallPatchStatus)
    (start length : Nat) : Prop :=
  status.clean = true ∧ (3 ≤ length → w.scanMaps.diagnostic = .lrsOk ∧
    (∀ piece ∈ scanPieces w.scanMaps.mappings (trackedInside t start (start + length)),
      PieceClean w piece) ∧ w.overflowed = false)

/-- **The scan of a range with a tracked byte.**  If it comes back clean it has looked at the live
tracked bytes of the range. -/
theorem scanTracked_spec (w : ScanWorld) {t : AnonymousRanges} {mem : Memory}
    (htrue : w.scanMaps.Truthful mem) (status : InlineSyscallPatchStatus) {start length : Nat}
    (hc : PageCall start length)
    (hsome : ∃ x ∈ Set.Ico start (start + length), x ∈ cover t.ranges) :
    let out := scanInlineSyscallPatchesForTrackedMprotectRange w t status start length
    ¬ EmitsLoss out.2 ∧ (out.1.clean = true ↔ TrackedScanClean w t status start length) ∧
    (TrackedScanClean w t status start length → scannedBytes out.2 =
      {x | 3 ≤ length ∧ x ∈ Set.Ico start (start + length) ∧ LiveAt mem x ∧
        x ∈ cover t.ranges}) := by
  dsimp only
  unfold scanInlineSyscallPatchesForTrackedMprotectRange TrackedScanClean
  by_cases h3 : 3 ≤ length
  swap
  · rw [if_pos (by omega)]
    refine ⟨by simp [EmitsLoss], by simp [h3], fun _ => ?_⟩
    ext x
    simp [scannedBytes, h3]
  rw [if_neg (by omega)]
  by_cases hdown : scannerDown status = true
  · have hbad : status.clean = false := by
      rw [Bool.eq_false_iff, ne_eq, status.clean_iff]
      simp [hdown]
    rw [if_pos hdown]
    refine ⟨by simp [EmitsLoss], by simp [hbad], fun h => ?_⟩
    rw [hbad] at h
    cases h.1
  have hup : scannerDown status = false := by simpa using hdown
  have htracked : (trackedInside t start (start + length)).isEmpty = false := by
    obtain ⟨x, hin, hx⟩ := hsome
    have hmem : x ∈ cover (trackedInside t start (start + length)) := by
      rw [cover_trackedInside]
      exact ⟨hx, hin⟩
    obtain ⟨r, hr, -⟩ := hmem
    simpa using List.ne_nil_of_mem hr
  rw [if_neg hdown, hc.addrAdd_eq]
  simp only [htracked, Bool.false_eq_true, if_false]
  by_cases hmaps : w.scanMaps.diagnostic = .lrsOk
  swap
  · rw [if_pos (by simpa using hmaps)]
    refine ⟨by simp [EmitsLoss], ?_, fun h => absurd (h.2 h3).1 hmaps⟩
    rw [InlineSyscallPatchStatus.clean_iff]
    simp [scannerDown, hmaps, h3]
  rw [if_neg (by simpa using hmaps)]
  -- the map was read: the status carries on with the same diagnostics
  have hsame : scannerDown { status with scanDiagnostic := w.scanMaps.diagnostic } = false := by
    simp only [scannerDown, hmaps]
    simp only [scannerDown, Bool.or_eq_false_iff] at hup
    simp [hup.1]
  obtain ⟨hq, hd, hf, hs⟩ := patchPieces_spec w
    (scanPieces w.scanMaps.mappings (trackedInside t start (start + length)))
    { status with scanDiagnostic := w.scanMaps.diagnostic }
  obtain ⟨hd', hf'⟩ := closeScan_spec w (patchPieces w
    { status with scanDiagnostic := w.scanMaps.diagnostic }
    (scanPieces w.scanMaps.mappings (trackedInside t start (start + length)))).1
  refine ⟨hq, ?_, fun h => ?_⟩
  · rw [InlineSyscallPatchStatus.clean_iff, status.clean_iff, hd', hd, hf', hf, hsame, hup]
    simp [h3, hmaps, and_assoc]
  · rw [hs (h.2 h3).2.1]
    ext x
    rw [mem_cover_scanPieces, cover_trackedInside, ← htrue hmaps x]
    simp only [Set.mem_inter_iff, Set.mem_ofPred_eq, h3, true_and]
    tauto

/-! ## 6. What the live map says -/

/-- Some byte of the range is live. -/
def SomeLive (mem : Memory) (start length : Nat) : Prop :=
  ∃ x ∈ requested start length, LiveAt mem x

section Live

variable {reading : MapReading} {mem : Memory} (htrue : reading.Truthful mem)
  {start length : Nat} (hc : PageCall start length) (h0 : start ≠ 0)

include htrue hc h0

/-- A mapping of the list meets the range exactly if a live byte lies in it. -/
theorem liveMeeting_iff (hok : reading.diagnostic = .lrsOk) :
    liveMeeting reading.mappings start (start + length) ≠ [] ↔
      ∃ x ∈ requested start length, LiveAt mem x := by
  have hnz := hc.nonzero
  constructor
  · intro hne
    obtain ⟨m, hm⟩ := List.exists_mem_of_ne_nil _ hne
    obtain ⟨hmem, hlive⟩ := List.mem_filter.mp hm
    rw [Bool.and_eq_true] at hlive
    have hmeet := hlive.2
    have howned := hlive.1
    simp only [rangesIntersect, Bool.and_eq_true, decide_eq_true_eq] at hmeet
    simp only [mappingLooksOwnedAnonymousExecutable, Bool.and_eq_true, decide_eq_true_eq] at howned
    have hx : m.start ≤ max start m.start ∧ max start m.start < m.stop :=
      ⟨le_max_right .., max_lt hmeet.1 howned.2⟩
    refine ⟨max start m.start, ⟨h0, le_max_left .., max_lt (by omega) hmeet.2⟩, ?_⟩
    exact (htrue hok _).mpr ⟨m, hmem, hlive.1, hx⟩
  · rintro ⟨x, ⟨-, h1, h2⟩, hx⟩
    obtain ⟨m, hm, howned, hin⟩ := (htrue hok x).mp hx
    refine List.ne_nil_of_mem (a := m) (List.mem_filter.mpr ⟨hm, ?_⟩)
    rw [howned, Bool.true_and]
    exact rangesIntersect_of_mem (r := ⟨m.start, m.stop⟩) ⟨h1, h2⟩ hin

/-- Every live mapping is tracked inside the range exactly if every live byte is. -/
theorem liveTracked_iff (hok : reading.diagnostic = .lrsOk) (t : AnonymousRanges) :
    ((liveMeeting reading.mappings start (start + length)).all fun m =>
      rangeFullyTrackedLocked t (max start m.start) (min (start + length) m.stop)) = true ↔
      ∀ x ∈ requested start length, LiveAt mem x → x ∈ cover t.ranges := by
  have hnz := hc.nonzero
  rw [List.all_eq_true]
  constructor
  · rintro h x ⟨-, h1, h2⟩ hx
    obtain ⟨m, hm, howned, hin⟩ := (htrue hok x).mp hx
    have hmem : m ∈ liveMeeting reading.mappings start (start + length) := by
      refine List.mem_filter.mpr ⟨hm, ?_⟩
      rw [howned, Bool.true_and]
      exact rangesIntersect_of_mem (r := ⟨m.start, m.stop⟩) ⟨h1, h2⟩ hin
    have htr := (rangeFullyTrackedLocked_iff ..).mp (h m hmem)
    exact htr.2 ⟨max_le h1 hin.1, lt_min h2 hin.2⟩
  · intro h m hm
    obtain ⟨hmem, hlive⟩ := List.mem_filter.mp hm
    rw [Bool.and_eq_true] at hlive
    have hmeet := hlive.2
    have howned := hlive.1
    simp only [rangesIntersect, Bool.and_eq_true, decide_eq_true_eq] at hmeet
    simp only [mappingLooksOwnedAnonymousExecutable, Bool.and_eq_true, decide_eq_true_eq] at howned
    rw [rangeFullyTrackedLocked_iff]
    refine ⟨max_lt (lt_min (by omega) hmeet.1) (lt_min hmeet.2 howned.2), ?_⟩
    rintro x ⟨h1, h2⟩
    have hx1 := max_le_iff.mp h1
    have hx2 := lt_min_iff.mp h2
    exact h x ⟨h0, hx1.1, hx2.1⟩ ((htrue hok x).mpr ⟨m, hmem, hlive.1, hx1.2, hx2.2⟩)

end Live

/-- A range of length 0 has no live byte, and neither has one at `nil`. -/
theorem not_someLive (mem : Memory) {start length : Nat} (h : start = 0 ∨ length = 0) :
    ¬ SomeLive mem start length := by
  rintro ⟨x, ⟨hne, h1, h2⟩, -⟩
  rcases h with h | h
  · exact hne h
  · omega

/-- **What `liveAnonymousExecutableCoverage` answers.** -/
theorem liveCoverage_spec {reading : MapReading} {mem : Memory} (htrue : reading.Truthful mem)
    {start length : Nat} (hlen : length = 0 ∨ PageCall start length) (t : AnonymousRanges) :
    ((liveAnonymousExecutableCoverage t reading start length).liveIntersects = true ↔
      reading.diagnostic = .lrsOk ∧ SomeLive mem start length) ∧
    ((liveAnonymousExecutableCoverage t reading start length).liveIntersects = true →
      (liveAnonymousExecutableCoverage t reading start length).mapsAvailable = true ∧
      ((liveAnonymousExecutableCoverage t reading start length).fullyTracked = true ↔
        ∀ x ∈ requested start length, LiveAt mem x → x ∈ cover t.ranges)) := by
  by_cases h0 : start = 0 ∨ length = 0
  · have hnone : liveAnonymousExecutableCoverage t reading start length =
        ⟨false, false, false⟩ := by
      rw [liveAnonymousExecutableCoverage, if_pos]
      rcases h0 with rfl | rfl <;> simp
    simp [hnone, not_someLive mem h0]
  obtain ⟨h0, hl⟩ := not_or.mp h0
  have hc := hlen.resolve_left hl
  have hguard : (start == 0 || length == 0) = false := by simp [h0, hl]
  rw [liveAnonymousExecutableCoverage, hguard, if_neg Bool.false_ne_true, if_neg hc.addrAdd_gt,
    hc.addrAdd_eq]
  by_cases hdiag : reading.diagnostic = .lrsOk
  swap
  · rw [if_pos (by simpa using hdiag)]
    simp [hdiag]
  rw [if_neg (by simpa using hdiag)]
  refine ⟨?_, fun _ => ⟨rfl, liveTracked_iff htrue hc h0 hdiag t⟩⟩
  have hmeet := liveMeeting_iff htrue hc h0 hdiag
  simpa [hdiag, SomeLive] using hmeet

theorem liveIntersects_iff {reading : MapReading} {mem : Memory} (htrue : reading.Truthful mem)
    {start length : Nat} (hc : PageCall start length) :
    liveAnonymousExecutableMappingIntersects reading start length = true ↔
      reading.diagnostic = .lrsOk ∧ SomeLive mem start length := by
  by_cases h0 : start = 0
  · simp [liveAnonymousExecutableMappingIntersects, h0, not_someLive mem (.inl rfl)]
  have hguard : (start == 0 || length == 0) = false := by simp [h0, hc.nonzero]
  rw [liveAnonymousExecutableMappingIntersects, hguard, if_neg Bool.false_ne_true,
    if_neg hc.addrAdd_gt, hc.addrAdd_eq]
  by_cases hdiag : reading.diagnostic = .lrsOk
  swap
  · rw [if_pos (by simpa using hdiag)]
    simp [hdiag]
  rw [if_neg (by simpa using hdiag)]
  have hmeet := liveMeeting_iff htrue hc h0 hdiag
  simpa [hdiag, SomeLive] using hmeet

/-! ## 7. One call -/

/-- **What the hooks handle.**  An executable mmap has to be called with `fd = -1`, and to be
writable, a whole number of pages long, or scanned with a bad status.  An executable mprotect has
to make nothing executable, or to find the map readable with a live byte in the requested range
and then an untracked one, a bad scan status, or no byte outside what it scans.  An mremap has to
have nothing to account for, or to move a partly tracked range, or a tracked one under the same
conditions. -/
def Handled (mem : Memory) (w : ScanWorld) (s : ScanState) (call : MemoryCall) : Prop :=
  match call with
  | .mmap result length prot _ fd => protIncludesExec prot = true →
      fd = -1 ∧ (protIncludesWrite prot = true ∨ pageSize ∣ length ∨
        ¬ OwnedScanClean w s.status result length)
  | .mprotect address length _ => NothingToAccount mem call ∨
      (w.coverageMaps.diagnostic = .lrsOk ∧ SomeLive (memoryStep mem call) address length ∧
        ((∃ x ∈ requested address length, LiveAt (memoryStep mem call) x ∧
            x ∉ cover s.table.ranges) ∨
          ¬ TrackedScanClean w s.table s.status address length ∨
          (¬ LeavesWritableExecutable mem call ∧ 3 ≤ length ∧
            ∀ x ∈ madeExecutable mem call,
              x ∈ requested address length ∧ LiveAt (memoryStep mem call) x)))
  | .munmap _ _ => True
  | .mremap oldAddress oldSize result newSize _ => NothingToAccount mem call ∨
      (result ≠ 0 ∧
        ((anonymousPrivateRangeFullyTracked s.table oldAddress oldSize = false ∧
            anonymousPrivateRangeIntersects s.table oldAddress oldSize = true) ∨
          (anonymousPrivateRangeFullyTracked s.table oldAddress oldSize = true ∧
            w.coverageMaps.diagnostic = .lrsOk ∧
            SomeLive (memoryStep mem call) result newSize ∧
            (¬ TrackedScanClean w (rangeStep s.table (.mremap oldAddress oldSize result newSize))
                s.status result newSize ∨
              (¬ LeavesWritableExecutable mem call ∧ 3 ≤ newSize ∧
                ∀ x ∈ madeExecutable mem call,
                  x ∈ requested result newSize ∧ LiveAt (memoryStep mem call) x)))))

theorem mapped_subset_iff {address length : Nat} :
    mapped address length ⊆ Set.Ico address (address + length) ↔ pageSize ∣ length := by
  constructor
  · intro h
    by_contra hnot
    have hlt : length < pageRound length := by
      have hle := le_pageRound length
      rcases Nat.lt_or_ge length (pageRound length) with hlt | hge
      · exact hlt
      · exact absurd ⟨(length + (pageSize - 1)) / pageSize, by
          rw [Nat.mul_comm]; exact le_antisymm hle hge⟩ hnot
    have hx := h (show address + length ∈ mapped address length from
      ⟨Nat.le_add_right .., Nat.add_lt_add_left hlt address⟩)
    exact absurd hx.2 (lt_irrefl _)
  · rintro ⟨n, rfl⟩
    have hround : pageRound (pageSize * n) = pageSize * n := by
      unfold pageRound pageSize
      omega
    rw [mapped, hround]

theorem flags_anonymousPrivate {flags : UInt32} (ht : flags &&& linuxMapType = linuxMapPrivate)
    (ha : flags &&& linuxMapAnonymous ≠ 0) (fd : Int) :
    isAnonymousPrivateMmap flags fd = decide (fd = -1) := by
  have hp : flags &&& linuxMapPrivate ≠ 0 := by
    intro h
    have h2 : flags &&& linuxMapType &&& linuxMapPrivate = flags &&& linuxMapPrivate := by
      rw [UInt32.and_assoc]
      rfl
    rw [ht, h] at h2
    exact absurd h2 (by decide)
  have ha' : (flags &&& linuxMapAnonymous != 0) = true := by simpa using ha
  have hp' : (flags &&& linuxMapPrivate != 0) = true := by simpa using hp
  rw [isAnonymousPrivateMmap, ha', hp', Bool.and_self, Bool.true_and]
  exact Bool.eq_iff_iff.mpr (by simp)

theorem mmap_iff (mem : Memory) (w : ScanWorld) (s : ScanState) {result length : Nat}
    {prot flags : UInt32} {fd : Int}
    (hok : (MemoryCall.mmap result length prot flags fd).Succeeded mem) :
    ScannedOrFlagged mem (.mmap result length prot flags fd)
        (reproHookMmap w s result length prot flags fd).2 ↔
      Handled mem w s (.mmap result length prot flags fd) := by
  obtain ⟨hc, ht, ha⟩ := hok
  have hmade : protIncludesExec prot = true →
      madeExecutable mem (.mmap result length prot flags fd) = mapped result length := by
    intro hx
    ext y
    simp [madeExecutable, hx]
  rw [reproHookMmap, flags_anonymousPrivate ht ha, Handled]
  cases hx : protIncludesExec prot with
  | false =>
      have hnothing : NothingToAccount mem (.mmap result length prot flags fd) := by
        constructor
        · ext y
          simp [madeExecutable, hx]
        · simp [LeavesWritableExecutable, hx]
      have hevents : ((if decide (fd = -1) = true then
          (({ s with table := recordAnonymousPrivateMmap s.table result length } : ScanState),
            ([] : List ScanEvent)) else (s, []))).2 = [] := by
        split <;> rfl
      simp only [Bool.false_eq_true, if_false, false_implies, iff_true]
      rw [hevents, scannedOrFlagged_nil]
      exact hnothing
  | true =>
      have hsome : ¬ NothingToAccount mem (.mmap result length prot flags fd) := by
        rintro ⟨h, -⟩
        rw [hmade hx] at h
        have hle := le_pageRound length
        have hnz := hc.nonzero
        exact Set.eq_empty_iff_forall_notMem.mp h result ⟨le_refl _, by omega⟩
      by_cases hfd : fd = -1
      swap
      · simp only [hfd, decide_false, Bool.false_eq_true, if_false, false_and, imp_false,
          not_true_eq_false, iff_false]
        rw [scannedOrFlagged_nil]
        exact hsome
      obtain ⟨hq, hclean, hscan⟩ := scanOwned_spec w s.status hc
      simp only [hfd, decide_true, if_true, true_and, forall_const]
      cases hw : protIncludesWrite prot with
      | true =>
          simp only [if_true, true_or, iff_true]
          exact scannedOrFlagged_of_loss ⟨writableMmapLoss, by simp⟩
      | false =>
          simp only [Bool.false_eq_true, if_false, List.nil_append, false_or]
          have hwx : ¬ LeavesWritableExecutable mem (.mmap result length prot flags (-1)) := by
            simp [LeavesWritableExecutable, hw]
          have hmade' := hmade hx
          rw [hfd] at hmade'
          rw [scannedOrFlagged_scan_iff hq, hmade']
          by_cases hoc : OwnedScanClean w s.status result length
          · have hct := hclean.mpr hoc
            simp only [hct, Bool.true_eq_false, false_or, hoc, not_true_eq_false, or_false, hwx,
              not_false_eq_true, and_true, hscan hoc]
            split
            · exact mapped_subset_iff
            · next h3 =>
                constructor
                · intro h
                  have hle := le_pageRound length
                  have hnz := hc.nonzero
                  exact (h (show result ∈ mapped result length from ⟨le_refl _, by omega⟩)).elim
                · rintro ⟨n, rfl⟩
                  have hnz := hc.nonzero
                  unfold pageSize at h3 hnz
                  omega
          · have hcf : (scanInlineSyscallPatchesForOwnedAnonymousRange w s.status result
                length).1.clean = false := by
              rw [Bool.eq_false_iff]
              exact fun h => hoc (hclean.mp h)
            simp [hcf, hoc]

/-- **The scan of a range whose live bytes are all tracked**, as mprotect and mremap call it. -/
theorem tracked_scan_iff {mem mem' : Memory} {call : MemoryCall} {w : ScanWorld}
    (htrue : w.scanMaps.Truthful mem') {t : AnonymousRanges} (status : InlineSyscallPatchStatus)
    {start length : Nat} (hc : PageCall start length) (hlive : SomeLive mem' start length)
    (htracked : ∀ x ∈ requested start length, LiveAt mem' x → x ∈ cover t.ranges)
    (source : NimStr) :
    ScannedOrFlagged mem call
        ((scanInlineSyscallPatchesForTrackedMprotectRange w t status start length).2 ++
          recordLateInlineSyscallScanCoverage
            (scanInlineSyscallPatchesForTrackedMprotectRange w t status start length).1 source) ↔
      NothingToAccount mem call ∨ ¬ TrackedScanClean w t status start length ∨
        (¬ LeavesWritableExecutable mem call ∧ 3 ≤ length ∧
          ∀ x ∈ madeExecutable mem call, x ∈ requested start length ∧ LiveAt mem' x) := by
  obtain ⟨x₀, hx₀, hl₀⟩ := hlive
  have h0 : start ≠ 0 := hx₀.1
  have hsome : ∃ x ∈ Set.Ico start (start + length), x ∈ cover t.ranges :=
    ⟨x₀, ⟨hx₀.2.1, hx₀.2.2⟩, htracked x₀ hx₀ hl₀⟩
  obtain ⟨hq, hclean, hscan⟩ := scanTracked_spec w htrue status hc hsome
  rw [scannedOrFlagged_scan_iff hq]
  by_cases htsc : TrackedScanClean w t status start length
  · rw [hscan htsc, hclean.mpr htsc]
    simp only [Bool.true_eq_false, false_or, htsc, not_true_eq_false]
    constructor
    · rintro ⟨hsub, hwx⟩
      by_cases hne : madeExecutable mem call = ∅
      · exact .inl ⟨hne, hwx⟩
      · obtain ⟨y, hy⟩ := Set.nonempty_iff_ne_empty.mpr hne
        refine .inr ⟨hwx, (hsub hy).1, fun x hx => ?_⟩
        obtain ⟨-, hin, hl, -⟩ := hsub hx
        exact ⟨⟨h0, hin.1, hin.2⟩, hl⟩
    · rintro (⟨hnone, hwx⟩ | ⟨hwx, h3, hall⟩)
      · exact ⟨by rw [hnone]; exact Set.empty_subset _, hwx⟩
      · refine ⟨fun x hx => ?_, hwx⟩
        obtain ⟨hreq, hl⟩ := hall x hx
        exact ⟨h3, ⟨hreq.2.1, hreq.2.2⟩, hl, htracked x hreq hl⟩
  · have hcf : (scanInlineSyscallPatchesForTrackedMprotectRange w t status start
        length).1.clean = false := by
      rw [Bool.eq_false_iff]
      exact fun h => htsc (hclean.mp h)
    simp [hcf, htsc]

theorem mprotect_iff {mem : Memory} {w : ScanWorld} (s : ScanState) {address length : Nat}
    {prot : UInt32} (hok : (MemoryCall.mprotect address length prot).Succeeded mem)
    (hcov : w.coverageMaps.Truthful (memoryStep mem (.mprotect address length prot)))
    (hscan : w.scanMaps.Truthful (memoryStep mem (.mprotect address length prot))) :
    ScannedOrFlagged mem (.mprotect address length prot)
        (reproHookMprotect w s address length prot).2 ↔
      Handled mem w s (.mprotect address length prot) := by
  rw [reproHookMprotect, Handled]
  cases hx : protIncludesExec prot with
  | false =>
      have hnothing : NothingToAccount mem (.mprotect address length prot) := by
        constructor
        · ext y
          simp [madeExecutable, hx]
        · simp [LeavesWritableExecutable, hx]
      simp only [Bool.false_eq_true, if_false]
      rw [scannedOrFlagged_nil]
      exact ⟨fun _ => .inl hnothing, fun _ => hnothing⟩
  | true =>
      obtain ⟨hlive, htracked⟩ := liveCoverage_spec hcov hok.1 s.table
      simp only [if_true]
      cases hl : (liveAnonymousExecutableCoverage s.table w.coverageMaps address
          length).liveIntersects with
      | false =>
          -- the hook does nothing
          have hnot : ¬ (w.coverageMaps.diagnostic = .lrsOk ∧
              SomeLive (memoryStep mem (.mprotect address length prot)) address length) := by
            rw [← hlive, hl]
            exact Bool.false_ne_true
          simp only [Bool.false_and, Bool.false_eq_true, if_false]
          rw [scannedOrFlagged_nil]
          constructor
          · exact .inl
          · rintro (h | ⟨h1, h2, -⟩)
            · exact h
            · exact absurd ⟨h1, h2⟩ hnot
      | true =>
          obtain ⟨hdiag, hsome⟩ := hlive.mp hl
          obtain ⟨havail, hall⟩ := htracked hl
          have hc : PageCall address length :=
            hok.1.resolve_left fun h => not_someLive _ (.inr h) hsome
          simp only [havail, Bool.and_self, Bool.true_and, hdiag, hsome, true_and]
          by_cases htr : ∀ x ∈ requested address length,
              LiveAt (memoryStep mem (.mprotect address length prot)) x → x ∈ cover s.table.ranges
          · rw [if_pos (hall.mpr htr), tracked_scan_iff hscan s.status hc hsome htr]
            have hnone : ¬ ∃ x ∈ requested address length,
                LiveAt (memoryStep mem (.mprotect address length prot)) x ∧
                  x ∉ cover s.table.ranges := by
              rintro ⟨x, hreq, hx', hnot⟩
              exact hnot (htr x hreq hx')
            simp only [hnone, false_or]
          · rw [if_neg fun h => htr (hall.mp h)]
            have hloss : EmitsLoss [ScanEvent.loss untrackedMprotectLoss] :=
              ⟨untrackedMprotectLoss, List.mem_singleton_self _⟩
            push Not at htr
            simp only [if_true, scannedOrFlagged_of_loss hloss, htr, true_or, or_true]

/-- The range just recorded is covered, in a full table too. -/
theorem requested_subset_record (t : AnonymousRanges) {address length : Nat}
    (hc : PageCall address length) (h0 : address ≠ 0) :
    requested address length ⊆ cover (recordAnonymousPrivateMmap t address length).ranges := by
  rw [hc.record_eq h0, requested_eq_Ico h0, AnonymousRanges.push]
  split
  · rw [cover_append, cover_cons, cover_nil, Set.union_empty]
    exact Set.subset_union_right
  · rw [cover_append, cover_cons, cover_nil, Set.union_empty]
    exact Set.subset_union_right

/-- Nothing changes the table between the hook's own question and the one of
`remapAnonymousPrivateRange`: a tracked range is moved precisely. -/
theorem remap_of_tracked {t : AnonymousRanges} {oldAddress oldSize : Nat}
    (hold : PageCall oldAddress oldSize)
    (htr : anonymousPrivateRangeFullyTracked t oldAddress oldSize = true)
    (newAddress newSize : Nat) :
    remapAnonymousPrivateRange t oldAddress oldSize newAddress newSize =
      (true, recordAnonymousPrivateMmap (removeAnonymousPrivateRange t oldAddress oldSize)
        newAddress newSize) := by
  unfold anonymousPrivateRangeFullyTracked at htr
  unfold remapAnonymousPrivateRange
  split at htr
  · cases htr
  · next hguard =>
      rw [if_neg hold.addrAdd_gt] at htr
      rw [if_neg hguard, if_neg hold.addrAdd_gt]
      simp [htr]

theorem mremap_iff {mem : Memory} {w : ScanWorld} (s : ScanState)
    {oldAddress oldSize result newSize : Nat} {keepsOld : Bool}
    (hok : (MemoryCall.mremap oldAddress oldSize result newSize keepsOld).Succeeded mem)
    (hcov : w.coverageMaps.Truthful
      (memoryStep mem (.mremap oldAddress oldSize result newSize keepsOld)))
    (hscan : w.scanMaps.Truthful
      (memoryStep mem (.mremap oldAddress oldSize result newSize keepsOld))) :
    ScannedOrFlagged mem (.mremap oldAddress oldSize result newSize keepsOld)
        (reproHookMremap w s oldAddress oldSize result newSize).2 ↔
      Handled mem w s (.mremap oldAddress oldSize result newSize keepsOld) := by
  obtain ⟨hold, hnew, -⟩ := hok
  rw [reproHookMremap, Handled]
  by_cases hn : result = 0
  · subst hn
    have hfail : isSuccessfulMmapResult 0 = false := rfl
    simp only [hfail, Bool.false_eq_true, if_false, ne_eq, not_true_eq_false, false_and, or_false]
    exact scannedOrFlagged_nil
  simp only [hnew.successful hn, if_true, hn, ne_eq, not_false_eq_true, true_and]
  cases htr : anonymousPrivateRangeFullyTracked s.table oldAddress oldSize with
  | false =>
      simp only [Bool.false_eq_true, if_false, false_and, or_false, true_and]
      cases hover : anonymousPrivateRangeIntersects s.table oldAddress oldSize with
      | false =>
          simp only [Bool.false_eq_true, if_false, or_false]
          exact scannedOrFlagged_nil
      | true =>
          have hloss : EmitsLoss [ScanEvent.loss partialMremapLoss] :=
            ⟨partialMremapLoss, List.mem_singleton_self _⟩
          simp only [if_true, or_true, iff_true]
          exact scannedOrFlagged_of_loss hloss
  | true =>
      have hmoved := remap_of_tracked hold htr result newSize
      have hlive := liveIntersects_iff hcov hnew
      simp only [rangeStep, hmoved, if_true, Bool.true_eq_false, false_and, false_or, true_and]
      cases hl : liveAnonymousExecutableMappingIntersects w.coverageMaps result newSize with
      | false =>
          have hnot : ¬ (w.coverageMaps.diagnostic = .lrsOk ∧ SomeLive
              (memoryStep mem (.mremap oldAddress oldSize result newSize keepsOld))
              result newSize) := by
            rw [← hlive, hl]
            exact Bool.false_ne_true
          simp only [Bool.false_eq_true, if_false]
          rw [scannedOrFlagged_nil]
          constructor
          · exact .inl
          · rintro (h | ⟨h1, h2, -⟩)
            · exact h
            · exact absurd ⟨h1, h2⟩ hnot
      | true =>
          obtain ⟨hdiag, hsome⟩ := hlive.mp hl
          simp only [if_true, hdiag, hsome, true_and]
          exact tracked_scan_iff hscan s.status hnew hsome
            (fun x hx _ => requested_subset_record _ hnew hn hx) _

/-- **One call is accounted for exactly if the hooks handle it.** -/
theorem scannedOrFlagged_iff_handled {mem : Memory} {w : ScanWorld} (s : ScanState)
    {call : MemoryCall} (hok : call.Succeeded mem)
    (hcov : w.coverageMaps.Truthful (memoryStep mem call))
    (hscan : w.scanMaps.Truthful (memoryStep mem call)) :
    ScannedOrFlagged mem call (hookStep w s call).2 ↔ Handled mem w s call := by
  cases call with
  | mmap result length prot flags fd => exact mmap_iff mem w s hok
  | mprotect address length prot => exact mprotect_iff s hok hcov hscan
  | munmap address length =>
      simp only [Handled, iff_true]
      exact scannedOrFlagged_nil.mpr ⟨rfl, id⟩
  | mremap oldAddress oldSize result newSize keepsOld => exact mremap_iff s hok hcov hscan

/-! ## 8. Whole runs -/

/-- Every step of a run from `mem` and `s` satisfies `P` in the state it finds. -/
def EveryCall (P : Memory → ScanState → MemoryCall × ScanWorld → Prop) :
    Memory → ScanState → List (MemoryCall × ScanWorld) → Prop
  | _, _, [] => True
  | mem, s, (call, w) :: rest => P mem s (call, w) ∧
      EveryCall P (memoryStep mem call) (hookStep w s call).1 rest

/-- The call succeeded, and the maps that could be read are those of the memory after it. -/
def CallHappened (mem : Memory) (_s : ScanState) (step : MemoryCall × ScanWorld) : Prop :=
  step.1.Succeeded mem ∧ step.2.coverageMaps.Truthful (memoryStep mem step.1) ∧
    step.2.scanMaps.Truthful (memoryStep mem step.1)

/-- **Executable anonymous memory is scanned or flagged in a run exactly if every call of it is
handled.** -/
theorem executable_memory_scanned_or_flagged (steps : List (MemoryCall × ScanWorld)) :
    ∀ (mem : Memory) (s : ScanState), EveryCall CallHappened mem s steps →
      (EveryCall (fun mem s step =>
          ScannedOrFlagged mem step.1 (hookStep step.2 s step.1).2) mem s steps ↔
        EveryCall (fun mem s step => Handled mem step.2 s step.1) mem s steps) := by
  induction steps with
  | nil => intro mem s _; exact Iff.rfl
  | cons step rest ih =>
      obtain ⟨call, w⟩ := step
      rintro mem s ⟨⟨hok, hcov, hscan⟩, hrest⟩
      simp only [EveryCall]
      rw [scannedOrFlagged_iff_handled s hok hcov hscan, ih _ _ hrest]

/-- A working scanner over an empty table, with nothing mapped yet. -/
def freshScanner : ScanState where
  table := emptyRanges
  status :=
    { handlerInstalled := true, patchedSites := 0, scanDiagnostic := .lrsOk
      installDiagnostic := .lrsOk, firstPatchDiagnostic := .lrsOk, firstPatchStage := lpsNone
      firstPatchErrno := 0 }

/-- No site to patch, and a map that cannot be read. -/
def unreadableMaps : ScanWorld where
  coverageMaps := ⟨.lrsInvalidArgument, []⟩
  scanMaps := ⟨.lrsInvalidArgument, []⟩
  sites := fun _ _ => []
  siteCount := 0
  overflowed := false

/-- `mmap` of `length` private anonymous bytes at a fixed page. -/
def anonymousMmap (length : Nat) (prot : UInt32) : MemoryCall := .mmap 65536 length prot 0x22 (-1)

theorem callHappened_unreadable {mem : Memory} {s : ScanState} {call : MemoryCall}
    (h : call.Succeeded mem) : CallHappened mem s (call, unreadableMaps) :=
  ⟨h, by rintro ⟨⟩, by rintro ⟨⟩⟩

theorem anonymousMmap_succeeded {mem : Memory} {length : Nat} (prot : UInt32)
    (h : PageCall 65536 length) : (anonymousMmap length prot).Succeeded mem :=
  ⟨h, by decide, by decide⟩

/-- The map of a process whose one page of code is at 65536. -/
def codePage : MapReading := ⟨.lrsOk, [⟨65536, 69632, true, true, true, []⟩]⟩

/-- A code generator: a page is mapped for writing, made executable, and given back. -/
def generatorRun : List (MemoryCall × ScanWorld) :=
  [(anonymousMmap 4096 3, unreadableMaps),
   (.mprotect 65536 4096 5, { unreadableMaps with coverageMaps := codePage, scanMaps := codePage }),
   (.munmap 65536 4096, unreadableMaps)]

/-- The memory after the first two calls. -/
def generatorMemory : Memory :=
  memoryStep (memoryStep (fun _ => none) (anonymousMmap 4096 3)) (.mprotect 65536 4096 5)

theorem generatorMemory_live (x : Nat) :
    LiveAt generatorMemory x ↔ 65536 ≤ x ∧ x < 69632 := by
  have hpage : inPages 65536 4096 (x / pageSize) = true ↔ 65536 ≤ x ∧ x < 69632 := by
    rw [inPages, Bool.and_eq_true, decide_eq_true_iff, decide_eq_true_iff, pageRound, pageSize]
    omega
  rw [LiveAt, AnonAt, ← hpage]
  cases hin : inPages 65536 4096 (x / pageSize) with
  | true =>
    have hmem : generatorMemory (x / pageSize) = some ⟨true, [], 5⟩ := by
      simp [generatorMemory, memoryStep, anonymousMmap, hin]
    exact iff_of_true ⟨_, hmem, rfl, rfl, by decide, by decide⟩ rfl
  | false =>
    have hmem : generatorMemory (x / pageSize) = none := by
      simp [generatorMemory, memoryStep, anonymousMmap, hin]
    refine iff_of_false ?_ Bool.false_ne_true
    rintro ⟨p, hp, -⟩
    rw [hmem] at hp
    cases hp

theorem codePage_truthful : codePage.Truthful generatorMemory := by
  intro _ x
  rw [generatorMemory_live]
  constructor
  · exact fun h => ⟨_, List.mem_singleton_self _, by decide, h⟩
  · rintro ⟨m, hm, -, h⟩
    rw [List.mem_singleton.mp hm] at h
    exact h

theorem generatorRun_happened :
    EveryCall CallHappened (fun _ => none) freshScanner generatorRun := by
  have hpage : PageCall 65536 4096 := ⟨rfl, by decide, by decide⟩
  refine ⟨callHappened_unreadable (anonymousMmap_succeeded 3 hpage),
    ⟨⟨.inr hpage, fun page hin => ?_⟩, codePage_truthful, codePage_truthful⟩,
    callHappened_unreadable hpage, trivial⟩
  simp only [memoryStep, anonymousMmap, hin, if_true, Option.isSome_some]

/-- The page is scanned when it becomes executable. -/
theorem executable_memory_scanned_generator :
    EveryCall CallHappened (fun _ => none) freshScanner generatorRun ∧
    EveryCall (fun mem s step => ScannedOrFlagged mem step.1 (hookStep step.2 s step.1).2)
      (fun _ => none) freshScanner generatorRun := by
  refine ⟨generatorRun_happened,
    (executable_memory_scanned_or_flagged _ _ _ generatorRun_happened).mpr
      ⟨fun hexec => absurd hexec (by decide), .inr ⟨rfl, ?_, .inr (.inr ⟨?_, by decide, ?_⟩)⟩,
        trivial, trivial⟩⟩
  · exact ⟨65536, ⟨by decide, by decide, by decide⟩, (generatorMemory_live _).mpr (by decide)⟩
  · rintro ⟨hwrite, -⟩
    exact absurd hwrite (by decide)
  · rintro x ⟨-, hx, -⟩
    exact ⟨⟨by decide, hx⟩, (generatorMemory_live x).mpr hx⟩
/-- **Code that is neither scanned nor flagged**: the rest of the page of an mmap of 100 bytes; and
a page that an mprotect makes executable while the map cannot be read. -/
theorem executable_memory_unscanned :
    (EveryCall CallHappened (fun _ => none) freshScanner [(anonymousMmap 100 5, unreadableMaps)] ∧
      ¬ EveryCall (fun mem s step => ScannedOrFlagged mem step.1 (hookStep step.2 s step.1).2)
        (fun _ => none) freshScanner [(anonymousMmap 100 5, unreadableMaps)]) ∧
    (EveryCall CallHappened (fun _ => none) freshScanner
        [(anonymousMmap 4096 3, unreadableMaps), (.mprotect 65536 4096 5, unreadableMaps)] ∧
      ¬ EveryCall (fun mem s step => ScannedOrFlagged mem step.1 (hookStep step.2 s step.1).2)
        (fun _ => none) freshScanner
        [(anonymousMmap 4096 3, unreadableMaps), (.mprotect 65536 4096 5, unreadableMaps)]) := by
  have hpage : PageCall 65536 4096 := ⟨rfl, by decide, by decide⟩
  have hmapped : ∀ page, inPages 65536 4096 page = true →
      (memoryStep (fun _ => none) (anonymousMmap 4096 3) page).isSome = true := by
    intro page hin
    simp only [memoryStep, anonymousMmap, hin, if_true, Option.isSome_some]
  refine ⟨⟨⟨callHappened_unreadable (anonymousMmap_succeeded 5 ⟨rfl, by decide, by decide⟩),
    trivial⟩, ?_⟩, ⟨callHappened_unreadable (anonymousMmap_succeeded 3 hpage),
      callHappened_unreadable ⟨.inr hpage, hmapped⟩, trivial⟩, ?_⟩
  · rintro ⟨h, -⟩
    obtain ⟨-, h⟩ := (mmap_iff _ _ _ (anonymousMmap_succeeded 5
      ⟨rfl, by decide, by decide⟩)).mp h (by decide)
    rcases h with h | h | h
    · exact absurd h (by decide)
    · exact absurd h (by decide)
    · refine h ⟨rfl, fun _ => ⟨.inr ⟨by decide, fun site hsite => ?_⟩, rfl⟩⟩
      cases hsite
  · rintro ⟨-, h, -⟩
    rcases (mprotect_iff _ ⟨.inr hpage, hmapped⟩ (by rintro ⟨⟩) (by rintro ⟨⟩)).mp h with
      ⟨hnone, -⟩ | ⟨hdiag, -⟩
    · refine Set.eq_empty_iff_forall_notMem.mp hnone 65536 ⟨by decide, ⟨by decide, by decide⟩, ?_⟩
      exact ⟨⟨true, [], 3⟩, rfl, rfl, by decide⟩
    · cases hdiag

end IoMon
