/-
# Raw syscalls and the libc symbols they stand beside

A program can enter the kernel through a libc symbol, which has a hook, or through `syscall(2)` and
an inlined instruction, which `classifyRawFileSyscall` is shown afterwards.  The two were written
apart: the classifier is handed registers and the kernel's own result, the hook the arguments of the
call and what libc made of that result.

`same_evidence_iff` compares them, for every table, working directory, argument and result, and for
every call that has both: the raw path leaves the records and the paths the hook leaves, or an event
loss, exactly when `Agrees`.  Where it does not, the raw path is the poorer one:

  * a failed `open` or `openat` is no record at all, though a failed `stat` is;
  * `openat` forgets the directory descriptor, so a relative path is resolved against the working
    directory;
  * a read of descriptor 0, 1 or 2 is never looked at, while the hook names a redirected file and an
    inherited channel; `sendfile`, `copy_file_range` and `splice` share this for their input;
  * `splice` into a file is content with the output, and the input goes unclassified;
  * a read that returned nothing is recorded, which the hook does not do;
  * a `close` that failed keeps the path of the descriptor.

The monitor is taken as initialised and not muted.
-/
import IoMon.Shim.FdTables
import IoMon.Shim.InlineTraps

namespace IoMon.RawCalls

open ByteText DirectIndex

/-! ## 1. The syscalls the classifier knows -/

def LinuxSysRead : Int64 := 0
def LinuxSysOpen : Int64 := 2
def LinuxSysClose : Int64 := 3
def LinuxSysStat : Int64 := 4
def LinuxSysLstat : Int64 := 6
def LinuxSysAccess : Int64 := 21
def LinuxSysSendfile : Int64 := 40
def LinuxSysReadlink : Int64 := 89
def LinuxSysGettid : Int64 := 186
def LinuxSysFutex : Int64 := 202
def LinuxSysOpenat : Int64 := 257
def LinuxSysNewfstatat : Int64 := 262
def LinuxSysReadlinkat : Int64 := 267
def LinuxSysFaccessat : Int64 := 269
def LinuxSysSplice : Int64 := 275
def LinuxSysGetrandom : Int64 := 318
def LinuxSysCopyFileRange : Int64 := 326
def LinuxSysStatx : Int64 := 332
def LinuxSysIoUringSetup : Int64 := 425
def LinuxSysIoUringEnter : Int64 := 426
def LinuxSysOpenat2 : Int64 := 437
def LinuxSysLandlockCreateRuleset : Int64 := 444
def LinuxSysLandlockAddRule : Int64 := 445
def LinuxSysLandlockRestrictSelf : Int64 := 446
def LinuxEfault : Int64 := 14

/-- The branches of the `case`: `probe` and `probeAt` take the path from the first and from the
second register, `harmless` is what no file is touched by. -/
inductive Branch
  | openFile | openat | openat2 | read | sendfile | copyFileRange | splice | close | probe | probeAt
  | getrandom | harmless
  deriving DecidableEq, Repr

def branches : List (Int64 × Branch) :=
  [(LinuxSysOpen, .openFile), (LinuxSysOpenat, .openat), (LinuxSysOpenat2, .openat2),
    (LinuxSysRead, .read), (LinuxSysSendfile, .sendfile), (LinuxSysCopyFileRange, .copyFileRange),
    (LinuxSysSplice, .splice), (LinuxSysClose, .close), (LinuxSysStat, .probe),
    (LinuxSysLstat, .probe), (LinuxSysAccess, .probe), (LinuxSysReadlink, .probe),
    (LinuxSysNewfstatat, .probeAt), (LinuxSysFaccessat, .probeAt), (LinuxSysReadlinkat, .probeAt),
    (LinuxSysStatx, .probeAt), (LinuxSysGettid, .harmless), (LinuxSysGetrandom, .getrandom),
    (LinuxSysFutex, .harmless), (LinuxSysLandlockCreateRuleset, .harmless),
    (LinuxSysLandlockAddRule, .harmless), (LinuxSysLandlockRestrictSelf, .harmless),
    (LinuxSysIoUringSetup, .harmless), (LinuxSysIoUringEnter, .harmless)]

/-- `none` is the `else` of the `case`. -/
def branchOf (number : Int64) : Option Branch := branches.lookup number

/-- What the classifier reads besides the registers: the C string at an address, the flags of an
`open_how` there, and whether `getrandom` has been observed before. -/
structure RawAnswers extends Answers where
  text : Int64 → NimStr
  openHow : Int64 → UInt64 := fun _ => 0
  entropyIsNew : Bool := true

/-! ## 2. The classifier -/

/-- What a raw recorder answers, and its effect. -/
abbrev Classified := Bool × Effect

def cstringArg (k : RawAnswers) (value : Int64) : Option NimStr :=
  if value = 0 then none else some (k.text value)

def resultLooksFaulted (callResult : Int64) : Bool := callResult == -LinuxEfault

def probeResultFromRaw (callResult : Int64) : Int32 := if 0 ≤ callResult then 0 else -1

def recordRawRead (t : FdTables) (fd : Int32) (callResult : Int64) : Classified :=
  if callResult < 0 then (true, t, [])
  else if fd ≤ 2 then (true, t, [])
  else
    let path := pathForFd t fd
    if path.isEmpty then (false, t, [])
    else if fileReadIsNew t fd then
      (true, podFileReadMark t fd, [.fileRead path [] callResult fd.toUInt32])
    else (true, t, [])

def recordRawWrite (t : FdTables) (fd : Int32) (callResult : Int64) : Classified :=
  if callResult < 0 then (true, t, [])
  else if fd ≤ 2 then (true, t, [])
  else
    let path := pathForFd t fd
    if path.isEmpty then (false, t, [])
    else (true, t, [.fileWrite path [] callResult fd.toUInt32])

def recordRawFileCopy (t : FdTables) (inFd outFd : Int32) (callResult : Int64) : Classified :=
  if callResult ≤ 0 then (decide (0 ≤ callResult), t, [])
  else
    let read := recordRawRead t inFd callResult
    let write := recordRawWrite read.2.1 outFd callResult
    (read.1 && write.1, write.2.1, read.2.2 ++ write.2.2)

/-- Either side of a splice will do; a side without a path is passed over. -/
def recordRawSplice (t : FdTables) (fdIn fdOut : Int32) (callResult : Int64) : Classified :=
  if callResult ≤ 0 then (decide (0 ≤ callResult), t, [])
  else
    let readable := decide (2 < fdIn) && !(pathForFd t fdIn).isEmpty
    let read : Effect :=
      if readable && fileReadIsNew t fdIn then
        (podFileReadMark t fdIn, [.fileRead (pathForFd t fdIn) [] callResult fdIn.toUInt32])
      else (t, [])
    let writable := decide (2 < fdOut) && !(pathForFd read.1 fdOut).isEmpty
    let write : List ShimEvent :=
      if writable then [.fileWrite (pathForFd read.1 fdOut) [] callResult fdOut.toUInt32] else []
    (readable || writable, read.1, read.2 ++ write)

/-- `openHowFlags`: the flags of an `openat2` that succeeded. -/
def openHowFlags (k : RawAnswers) (howArg callResult : Int64) : Option Int32 :=
  if callResult < 0 ∨ howArg = 0 then none else some (k.openHow howArg).toUInt32.toInt32

def classifyRawFileSyscall (k : RawAnswers) (t : FdTables) (c : RawSyscall) : Classified :=
  let a1 := c.args[0]
  let a2 := c.args[1]
  let a3 := c.args[2]
  match branchOf c.nr with
  | some .openFile =>
    if c.result < 0 ∨ resultLooksFaulted c.result = true then (true, t, [])
    else (true, recordOpen k.toAnswers t (cstringArg k a1) a2.toInt32 c.result.toInt32 LinuxAtFdcwd)
  | some .openat =>
    if c.result < 0 ∨ resultLooksFaulted c.result = true then (true, t, [])
    else (true, recordOpen k.toAnswers t (cstringArg k a2) a3.toInt32 c.result.toInt32 LinuxAtFdcwd)
  | some .openat2 =>
    match openHowFlags k a3 c.result with
    | none => (false, t, [])
    | some flags =>
      (true, recordOpen k.toAnswers t (cstringArg k a2) flags c.result.toInt32 LinuxAtFdcwd)
  | some .read => recordRawRead t a1.toInt32 c.result
  | some .sendfile => recordRawFileCopy t a2.toInt32 a1.toInt32 c.result
  | some .copyFileRange => recordRawFileCopy t a1.toInt32 a3.toInt32 c.result
  | some .splice => recordRawSplice t a1.toInt32 a3.toInt32 c.result
  | some .close => (true, if 0 ≤ c.result then removeFdPath t a1.toInt32 else t, [])
  | some .probe =>
    if resultLooksFaulted c.result then (false, t, [])
    else (true, t, [emitProbe k.toAnswers t (cstringArg k a1) (probeResultFromRaw c.result)
      LinuxAtFdcwd])
  | some .probeAt =>
    if resultLooksFaulted c.result then (false, t, [])
    else (true, t, [emitProbe k.toAnswers t (cstringArg k a2) (probeResultFromRaw c.result)
      LinuxAtFdcwd])
  | some .getrandom =>
    (true, t, if 0 ≤ c.result ∧ k.entropyIsNew = true then
      [.nonFile .entropy (str "getrandom")] else [])
  | some .harmless => (true, t, [])
  | none => (false, t, [])

def recordRawSyscallClassification (k : RawAnswers) (t : FdTables) (c : RawSyscall) : Effect :=
  let classified := classifyRawFileSyscall k t c
  if classified.1 then classified.2
  else (classified.2.1,
    classified.2.2 ++ [(InlineLoss.unsupported c.source c.nr).event])

/-! ## 3. The calls that have both -/

/-- A call of libc with its arguments; a pointer is its address. -/
inductive LibcCall
  | openFile (path : Int64) (flags mode : Int32)
  | openat (dirfd : Int32) (path : Int64) (flags mode : Int32)
  | read (fd : Int32) (buf count : Int64)
  | sendfile (outFd inFd : Int32) (offset count : Int64)
  | copyFileRange (inFd : Int32) (inOffset : Int64) (outFd : Int32) (outOffset len flags : Int64)
  | splice (fdIn : Int32) (offIn : Int64) (fdOut : Int32) (offOut len flags : Int64)
  | close (fd : Int32)
  | stat (path buf : Int64)
  | lstat (path buf : Int64)
  deriving DecidableEq, Repr

/-- The syscall with the same arguments, as the kernel's calling convention lays them out. -/
def LibcCall.raw (source : RawSyscallSource) (result : Int64) : LibcCall → RawSyscall
  | openFile path flags mode =>
    ⟨LinuxSysOpen, #v[path, flags.toInt64, mode.toInt64, 0, 0, 0], result, source⟩
  | openat dirfd path flags mode =>
    ⟨LinuxSysOpenat, #v[dirfd.toInt64, path, flags.toInt64, mode.toInt64, 0, 0], result, source⟩
  | read fd buf count => ⟨LinuxSysRead, #v[fd.toInt64, buf, count, 0, 0, 0], result, source⟩
  | sendfile outFd inFd offset count =>
    ⟨LinuxSysSendfile, #v[outFd.toInt64, inFd.toInt64, offset, count, 0, 0], result, source⟩
  | copyFileRange inFd inOffset outFd outOffset len flags =>
    ⟨LinuxSysCopyFileRange, #v[inFd.toInt64, inOffset, outFd.toInt64, outOffset, len, flags],
      result, source⟩
  | splice fdIn offIn fdOut offOut len flags =>
    ⟨LinuxSysSplice, #v[fdIn.toInt64, offIn, fdOut.toInt64, offOut, len, flags], result, source⟩
  | close fd => ⟨LinuxSysClose, #v[fd.toInt64, 0, 0, 0, 0, 0], result, source⟩
  | stat path buf => ⟨LinuxSysStat, #v[path, buf, 0, 0, 0, 0], result, source⟩
  | lstat path buf => ⟨LinuxSysLstat, #v[path, buf, 0, 0, 0, 0], result, source⟩

/-- What libc returns for a result of the kernel: -1 for an error. -/
def libcResult (result : Int64) : Int64 := if result < 0 then -1 else result

/-- The same for a call that returns nothing but success. -/
def libcStatus (result : Int64) : Int32 := if result < 0 then -1 else 0

/-- The hooks of the three calls that move bytes from one descriptor to another. -/
def hookedCopy (k : Answers) (t : FdTables) (inFd outFd : Int32) (result : Int64) : Effect :=
  if 0 < result then
    let read := recordFdRead k t inFd result
    (read.1, read.2 ++ recordFdWrite read.1 outFd result)
  else (t, [])

/-- `repro_hook_open` and its siblings, once the real call has returned. -/
def LibcCall.hook (k : RawAnswers) (t : FdTables) (result : Int64) : LibcCall → Effect
  | openFile path flags _ =>
    recordOpen k.toAnswers t (cstringArg k path) flags (libcResult result).toInt32 LinuxAtFdcwd
  | openat dirfd path flags _ =>
    recordOpen k.toAnswers t (cstringArg k path) flags (libcResult result).toInt32 dirfd
  | read fd _ _ => recordFdRead k.toAnswers t fd (libcResult result)
  | sendfile outFd inFd _ _ => hookedCopy k.toAnswers t inFd outFd (libcResult result)
  | copyFileRange inFd _ outFd _ _ _ => hookedCopy k.toAnswers t inFd outFd (libcResult result)
  | splice fdIn _ fdOut _ _ _ => hookedCopy k.toAnswers t fdIn fdOut (libcResult result)
  | close fd => (removeFdPath t fd, [])
  | stat path _ | lstat path _ =>
    (t, [emitProbe k.toAnswers t (cstringArg k path) (libcStatus result) LinuxAtFdcwd])

def isLoss : ShimEvent → Bool
  | .eventLoss .. => true
  | _ => false

/-- The raw path leaves the hook's records and paths, or an event loss. -/
def SameEvidence (raw hooked : Effect) : Prop :=
  (raw.2 = hooked.2 ∧ raw.1.fdPath = hooked.1.fdPath) ∨ ∃ e ∈ raw.2, isLoss e = true

/-! ## 4. When they agree -/

/-- The hook has nothing to say of a read that returned bytes. -/
def ReadSilent (k : Answers) (t : FdTables) (fd : Int32) : Prop :=
  (pathForFd t fd ≠ [] ∧ fileReadIsNew t fd = false) ∨
  (pathForFd t fd = [] ∧ (fd < 0 ∨ emptyFdAlreadyClassified t fd = true ∨
    ∃ id, k.identityKind fd = some id ∧ recoveredPath k fd id.kind = none ∧
      id.kind ≠ .fkRegular ∧ inheritedFd t fd = false))

/-- **The condition**, call by call, on the arguments, the result and what was known before. -/
def Agrees (k : RawAnswers) (t : FdTables) (result : Int64) : LibcCall → Prop
  | .openFile .. => 0 ≤ result
  | .openat dirfd path _ _ => 0 ≤ result ∧
      pathForAt k.toAnswers t dirfd (cstringArg k path) =
        pathForAt k.toAnswers t LinuxAtFdcwd (cstringArg k path)
  | .read fd _ _ =>
      (result = 0 → fd ≤ 2 ∨ pathForFd t fd = [] ∨ fileReadIsNew t fd = false) ∧
      (0 < result → 2 < fd ∨ ReadSilent k.toAnswers t fd)
  | .sendfile outFd inFd _ _ | .copyFileRange inFd _ outFd _ _ _ =>
      0 < result → 2 < inFd ∨ (2 < outFd ∧ pathForFd t outFd = []) ∨
        ReadSilent k.toAnswers t inFd
  | .splice fdIn _ fdOut _ _ _ =>
      0 < result → (2 < fdIn ∧ pathForFd t fdIn ≠ []) ∨ fdOut ≤ 2 ∨ pathForFd t fdOut = [] ∨
        ReadSilent k.toAnswers t fdIn
  | .close fd => 0 ≤ result ∨ pathForFd t fd = []
  | .stat .. | .lstat .. => True

/-! ## 5. Reads and writes of one descriptor -/

theorem sign_cases (r : Int64) : r < 0 ∨ r = 0 ∨ 0 < r := by
  rw [Int64.lt_iff_toInt_lt, Int64.lt_iff_toInt_lt, ← Int64.toInt_inj, Int64.toInt_zero]
  omega

theorem not_neg_of_pos {r : Int64} (h : 0 < r) : ¬ r < 0 := by
  rw [Int64.lt_iff_toInt_lt, Int64.toInt_zero] at h ⊢
  omega

/-- A descriptor without a path that has not been classified is passed over only if it is a channel
of the process itself. -/
theorem readSilent_iff_of_unclassified {k : Answers} {t : FdTables} {fd : Int32}
    (hpath : pathForFd t fd = []) (hempty : emptyFdAlreadyClassified t fd = false)
    (hfd : ¬ fd < 0) :
    ReadSilent k t fd ↔ ∃ id, k.identityKind fd = some id ∧ recoveredPath k fd id.kind = none ∧
      id.kind ≠ .fkRegular ∧ inheritedFd t fd = false := by
  constructor
  · rintro (⟨hp, -⟩ | ⟨-, hneg | he | h⟩)
    · exact absurd hpath hp
    · exact absurd hneg hfd
    · exact absurd (hempty.symm.trans he) (by simp)
    · exact h
  · exact fun h => Or.inr ⟨hpath, Or.inr (Or.inr h)⟩

/-- **When a hooked read is silent.** -/
theorem recordFdRead_events_nil_iff (k : Answers) (t : FdTables) (fd : Int32) {bytes : Int64}
    (hbytes : 0 < bytes) : (recordFdRead k t fd bytes).2 = [] ↔ ReadSilent k t fd := by
  have hout := recordFdRead_outcome k t fd hbytes
  generalize recordFdRead k t fd bytes = e at hout ⊢
  cases hout with
  | recorded hpath hseen => exact iff_of_true rfl (Or.inl ⟨hpath, hseen⟩)
  | noDescriptor hpath hneg => exact iff_of_true rfl (Or.inr ⟨hpath, Or.inl hneg⟩)
  | classified hpath hempty => exact iff_of_true rfl (Or.inr ⟨hpath, Or.inr (Or.inl hempty)⟩)
  | skipped hpath hempty hfd hstat hrec hkind hinh =>
      exact iff_of_true rfl ((readSilent_iff_of_unclassified hpath hempty hfd).mpr
        ⟨_, hstat, hrec, hkind, hinh⟩)
  | named hpath hnew =>
      refine iff_of_false (List.cons_ne_nil _ _) ?_
      rintro (⟨-, hseen⟩ | ⟨hnone, -⟩)
      · exact absurd (hnew.symm.trans hseen) (by simp)
      · exact hpath hnone
  | unresolved hpath hempty hfd hstat =>
      refine iff_of_false (List.cons_ne_nil _ _) ?_
      rw [readSilent_iff_of_unclassified hpath hempty hfd]
      rintro ⟨id, hid, -⟩
      exact absurd (hstat.symm.trans hid) (by simp)
  | recovered hpath hempty hfd hstat hrec =>
      refine iff_of_false (List.cons_ne_nil _ _) ?_
      rw [readSilent_iff_of_unclassified hpath hempty hfd]
      rintro ⟨id, hid, hnone, -⟩
      cases hstat.symm.trans hid
      exact absurd (hrec.symm.trans hnone) (by simp)
  | unnamed hpath hempty hfd hstat hrec hkind =>
      refine iff_of_false (List.cons_ne_nil _ _) ?_
      rw [readSilent_iff_of_unclassified hpath hempty hfd]
      rintro ⟨id, hid, -, hne, -⟩
      cases hstat.symm.trans hid
      exact hne hkind
  | channel hpath hempty hfd hstat hrec hkind hinh =>
      refine iff_of_false (List.cons_ne_nil _ _) ?_
      rw [readSilent_iff_of_unclassified hpath hempty hfd]
      rintro ⟨id, -, -, -, hnot⟩
      exact absurd (hinh.symm.trans hnot) (by simp)

/-- A read that is silent stores no path. -/
theorem recordFdRead_fdPath_of_silent {k : Answers} {t : FdTables} {fd : Int32} {bytes : Int64}
    (h : (recordFdRead k t fd bytes).2 = []) : (recordFdRead k t fd bytes).1.fdPath = t.fdPath := by
  by_cases hbytes : 0 < bytes
  · have hout := recordFdRead_outcome k t fd hbytes
    generalize recordFdRead k t fd bytes = e at hout h ⊢
    cases hout with
    | recorded | noDescriptor | classified | skipped => rfl
    | named | unresolved | recovered | unnamed | channel => exact absurd h (List.cons_ne_nil _ _)
  · rw [recordFdRead, if_neg hbytes]

/-- Above descriptor 2 and with a path, the raw read is the hooked one. -/
theorem recordRawRead_of_tracked (k : Answers) {t : FdTables} {fd : Int32} {r : Int64}
    (hpos : 0 < r) (hfd : 2 < fd) (hpath : pathForFd t fd ≠ []) :
    recordRawRead t fd r = (true, recordFdRead k t fd r) := by
  have hne : (pathForFd t fd).isEmpty = false := List.isEmpty_eq_false_iff.mpr hpath
  rw [recordRawRead, if_neg (not_neg_of_pos hpos), if_neg (Int32.not_le.mpr hfd), recordFdRead,
    if_pos hpos]
  simp only [hne, Bool.false_eq_true, if_false]
  split <;> rfl

theorem recordRawRead_of_low {t : FdTables} {fd : Int32} (hfd : fd ≤ 2) (r : Int64) :
    recordRawRead t fd r = (true, t, []) := by
  rw [recordRawRead]
  by_cases hr : r < 0
  · rw [if_pos hr]
  · rw [if_neg hr, if_pos hfd]

theorem recordRawRead_of_untracked {t : FdTables} {fd : Int32} {r : Int64} (hr : ¬ r < 0)
    (hfd : 2 < fd) (hpath : pathForFd t fd = []) : recordRawRead t fd r = (false, t, []) := by
  rw [recordRawRead, if_neg hr, if_neg (Int32.not_le.mpr hfd)]
  simp only [hpath, List.isEmpty_nil, if_true]

theorem recordRawRead_fdPath (t : FdTables) (fd : Int32) (r : Int64) :
    (recordRawRead t fd r).2.1.fdPath = t.fdPath := by
  rw [recordRawRead]
  split
  · rfl
  · split
    · rfl
    · simp only
      split
      · rfl
      · split <;> rfl

/-- The raw write emits what the hooked one does, and is satisfied unless a path is missing. -/
theorem recordRawWrite_eq (t : FdTables) (fd : Int32) {r : Int64} (hpos : 0 < r) :
    recordRawWrite t fd r =
      (decide (¬ (2 < fd ∧ pathForFd t fd = [])), t, recordFdWrite t fd r) := by
  have hnonneg : 0 ≤ r := Int64.not_lt.mp (not_neg_of_pos hpos)
  rw [recordRawWrite, if_neg (not_neg_of_pos hpos), recordFdWrite]
  by_cases hfd : fd ≤ 2
  · have hlow : ¬ 2 < fd := Int32.not_lt.mpr hfd
    simp [hfd, hlow]
  · have hhigh : 2 < fd := Int32.not_le.mp hfd
    cases hpath : pathForFd t fd with
    | nil => simp [hfd, hhigh, hnonneg]
    | cons c rest => simp [hfd, hhigh, hnonneg]

/-! ## 6. The two effects side by side -/

section Compare

variable {k : RawAnswers} {t : FdTables} {c : RawSyscall} {e hooked : Effect}

/-- What the classifier does not support is a loss. -/
theorem SameEvidence.of_unsupported (h : classifyRawFileSyscall k t c = (false, e)) :
    SameEvidence (recordRawSyscallClassification k t c) hooked := by
  refine Or.inr ⟨(InlineLoss.unsupported c.source c.nr).event, ?_, rfl⟩
  rw [recordRawSyscallClassification, h]
  exact List.mem_append_right _ List.mem_cons_self

/-- What it supports has to be what the hook does. -/
theorem sameEvidence_iff_of_supported (h : classifyRawFileSyscall k t c = (true, e))
    (hquiet : ∀ ev ∈ e.2, isLoss ev = false) :
    SameEvidence (recordRawSyscallClassification k t c) hooked ↔
      e.2 = hooked.2 ∧ e.1.fdPath = hooked.1.fdPath := by
  have heq : recordRawSyscallClassification k t c = e := by
    rw [recordRawSyscallClassification, h]
    rfl
  rw [heq, SameEvidence]
  refine or_iff_left ?_
  rintro ⟨ev, hev, hloss⟩
  exact absurd (hloss.symm.trans (hquiet ev hev)) (by simp)

end Compare

theorem libcResult_of_nonneg {r : Int64} (h : ¬ r < 0) : libcResult r = r := if_neg h

theorem isLoss_recordFdWrite {t : FdTables} {fd : Int32} {r : Int64} :
    ∀ e ∈ recordFdWrite t fd r, isLoss e = false := by
  intro e he
  rw [recordFdWrite] at he
  split at he
  · simp only at he
    split at he
    · cases he
    · cases List.mem_singleton.mp he
      rfl
  · cases he

/-- A hooked read of a descriptor with a path emits no loss. -/
theorem recordFdRead_of_tracked {k : Answers} {t : FdTables} {fd : Int32} {r : Int64} (hpos : 0 < r)
    (hpath : pathForFd t fd ≠ []) :
    (recordFdRead k t fd r).1.fdPath = t.fdPath ∧
      ∀ e ∈ (recordFdRead k t fd r).2, isLoss e = false := by
  have hout := recordFdRead_outcome k t fd hpos
  generalize recordFdRead k t fd r = e at hout ⊢
  cases hout with
  | recorded => exact ⟨rfl, fun e he => nomatch he⟩
  | named =>
      refine ⟨rfl, fun e he => ?_⟩
      cases List.mem_singleton.mp he
      rfl
  | noDescriptor h | classified h | unresolved h | recovered h | unnamed h | channel h
  | skipped h =>
      exact absurd h hpath

/-- The write of a copy looks up the path the read left alone. -/
theorem recordFdWrite_after_read (k : Answers) (t : FdTables) {inFd outFd : Int32} (r : Int64)
    (h : outFd ≤ 2 ∨ outFd ≠ inFd) :
    recordFdWrite (recordFdRead k t inFd r).1 outFd r = recordFdWrite t outFd r := by
  rcases h with hlow | hne
  · have hnot : ¬ (0 ≤ r ∧ 2 < outFd) := fun h => Int32.not_lt.mpr hlow h.2
    rw [recordFdWrite, recordFdWrite, if_neg hnot, if_neg hnot]
  · rw [recordFdWrite, recordFdWrite, (recordFdRead_agreeAt k t hne r).path]

theorem pathForFd_congr {t u : FdTables} (h : u.fdPath = t.fdPath) (fd : Int32) :
    pathForFd u fd = pathForFd t fd := by
  rw [pathForFd, pathForFd, h]

/-- A read that the raw path passes over, followed by a write that both see. -/
theorem passed_over_iff (k : Answers) (t : FdTables) {inFd outFd : Int32} {r : Int64} (hpos : 0 < r)
    (h : outFd ≤ 2 ∨ outFd ≠ inFd) :
    (recordFdWrite t outFd r = (hookedCopy k t inFd outFd r).2 ∧
      t.fdPath = (hookedCopy k t inFd outFd r).1.fdPath) ↔ ReadSilent k t inFd := by
  rw [hookedCopy, if_pos hpos, ← recordFdRead_events_nil_iff k t inFd hpos]
  simp only [recordFdWrite_after_read k t r h]
  constructor
  · intro heq
    exact List.append_left_eq_self.mp heq.1.symm
  · intro hsilent
    rw [hsilent, recordFdRead_fdPath_of_silent hsilent]
    exact ⟨rfl, rfl⟩

/-! ## 7. Call by call -/

section Calls

variable {k : RawAnswers} {t : FdTables} {c : RawSyscall}

theorem not_faulted {r : Int64} (h : ¬ r < 0) : ¬ (r < 0 ∨ resultLooksFaulted r = true) := by
  rintro (hneg | hfault)
  · exact h hneg
  · refine h ?_
    rw [beq_iff_eq.mp hfault]
    decide

/-- `open` and `openat`: a failure is dropped, and the directory is the working directory. -/
theorem open_iff {path : Option NimStr} {flags dirfd : Int32} {r : Int64}
    (hclass : classifyRawFileSyscall k t c =
      if r < 0 ∨ resultLooksFaulted r = true then (true, t, [])
      else (true, recordOpen k.toAnswers t path flags r.toInt32 LinuxAtFdcwd)) :
    SameEvidence (recordRawSyscallClassification k t c)
        (recordOpen k.toAnswers t path flags (libcResult r).toInt32 dirfd) ↔
      0 ≤ r ∧ pathForAt k.toAnswers t dirfd path = pathForAt k.toAnswers t LinuxAtFdcwd path := by
  by_cases hneg : r < 0
  · rw [if_pos (Or.inl hneg)] at hclass
    rw [sameEvidence_iff_of_supported hclass (fun ev hev => nomatch hev)]
    exact iff_of_false (fun h => nomatch h.1) (fun h => Int64.not_lt.mpr h.1 hneg)
  · rw [if_neg (not_faulted hneg)] at hclass
    rw [sameEvidence_iff_of_supported hclass, libcResult_of_nonneg hneg]
    · constructor
      · intro h
        injection (List.cons.inj h.1).1 with hpath
        exact ⟨Int64.not_lt.mp hneg, hpath.symm⟩
      · rintro ⟨-, hpath⟩
        rw [recordOpen, recordOpen, hpath]
        exact ⟨rfl, rfl⟩
    · intro ev hev
      cases List.mem_singleton.mp hev
      rfl

/-- A failed read is nothing to either. -/
theorem read_same_of_neg {fd : Int32} {r : Int64} (hneg : r < 0)
    (hclass : classifyRawFileSyscall k t c = recordRawRead t fd r) :
    SameEvidence (recordRawSyscallClassification k t c)
      (recordFdRead k.toAnswers t fd (libcResult r)) := by
  have hraw : recordRawRead t fd r = (true, t, []) := if_pos hneg
  have hhook : recordFdRead k.toAnswers t fd (libcResult r) = (t, []) := by
    rw [libcResult, if_pos hneg]
    exact if_neg (by decide)
  rw [sameEvidence_iff_of_supported (hclass.trans hraw) (fun ev hev => nomatch hev), hhook]
  exact ⟨rfl, rfl⟩

/-- At the end of a file the hook is silent, and the raw path is not. -/
theorem read_iff_of_zero {fd : Int32}
    (hclass : classifyRawFileSyscall k t c = recordRawRead t fd 0) :
    SameEvidence (recordRawSyscallClassification k t c) (t, []) ↔
      fd ≤ 2 ∨ pathForFd t fd = [] ∨ fileReadIsNew t fd = false := by
  by_cases hfd : fd ≤ 2
  · rw [sameEvidence_iff_of_supported (hclass.trans (recordRawRead_of_low hfd 0))
      (fun ev hev => nomatch hev)]
    exact iff_of_true ⟨rfl, rfl⟩ (Or.inl hfd)
  by_cases hpath : pathForFd t fd = []
  · have hhigh : 2 < fd := Int32.not_le.mp hfd
    have hraw := recordRawRead_of_untracked (t := t) (r := 0) (by decide) hhigh hpath
    exact iff_of_true (SameEvidence.of_unsupported (hclass.trans hraw)) (Or.inr (Or.inl hpath))
  rw [or_iff_right hfd, or_iff_right hpath]
  have hraw : recordRawRead t fd 0 = if fileReadIsNew t fd then
      (true, podFileReadMark t fd, [.fileRead (pathForFd t fd) [] 0 fd.toUInt32])
      else (true, t, []) := by
    rw [recordRawRead, if_neg (by decide), if_neg hfd]
    simp only [List.isEmpty_eq_false_iff.mpr hpath, Bool.false_eq_true, if_false]
  cases hnew : fileReadIsNew t fd with
  | true =>
      rw [hnew, if_pos rfl] at hraw
      rw [sameEvidence_iff_of_supported (hclass.trans hraw)]
      · exact iff_of_false (fun h => nomatch h.1) (by simp)
      · intro ev hev
        cases List.mem_singleton.mp hev
        rfl
  | false =>
      rw [hnew, if_neg (by simp)] at hraw
      rw [sameEvidence_iff_of_supported (hclass.trans hraw) (fun ev hev => nomatch hev)]
      exact iff_of_true ⟨rfl, rfl⟩ rfl

theorem read_iff_of_pos {fd : Int32} {r : Int64} (hpos : 0 < r)
    (hclass : classifyRawFileSyscall k t c = recordRawRead t fd r) :
    SameEvidence (recordRawSyscallClassification k t c) (recordFdRead k.toAnswers t fd r) ↔
      2 < fd ∨ ReadSilent k.toAnswers t fd := by
  by_cases hfd : fd ≤ 2
  · rw [sameEvidence_iff_of_supported (hclass.trans (recordRawRead_of_low hfd r))
      (fun ev hev => nomatch hev), or_iff_right (Int32.not_lt.mpr hfd),
      ← recordFdRead_events_nil_iff k.toAnswers t fd hpos]
    exact ⟨fun h => h.1.symm, fun h => ⟨h.symm, (recordFdRead_fdPath_of_silent h).symm⟩⟩
  have hhigh : 2 < fd := Int32.not_le.mp hfd
  refine iff_of_true ?_ (Or.inl hhigh)
  by_cases hpath : pathForFd t fd = []
  · exact SameEvidence.of_unsupported (hclass.trans
      (recordRawRead_of_untracked (not_neg_of_pos hpos) hhigh hpath))
  · have htracked := recordRawRead_of_tracked k.toAnswers hpos hhigh hpath
    rw [sameEvidence_iff_of_supported (hclass.trans htracked)
      (recordFdRead_of_tracked hpos hpath).2]
    exact ⟨rfl, rfl⟩

theorem read_iff {fd : Int32} {r : Int64}
    (hclass : classifyRawFileSyscall k t c = recordRawRead t fd r) :
    SameEvidence (recordRawSyscallClassification k t c)
        (recordFdRead k.toAnswers t fd (libcResult r)) ↔
      (r = 0 → fd ≤ 2 ∨ pathForFd t fd = [] ∨ fileReadIsNew t fd = false) ∧
        (0 < r → 2 < fd ∨ ReadSilent k.toAnswers t fd) := by
  rcases sign_cases r with hneg | hzero | hpos
  · refine iff_of_true (read_same_of_neg hneg hclass)
      ⟨fun h => ?_, fun h => absurd hneg (not_neg_of_pos h)⟩
    rw [h] at hneg
    exact absurd hneg (by decide)
  · subst hzero
    have hhook : recordFdRead k.toAnswers t fd (libcResult 0) = (t, []) := if_neg (by decide)
    rw [hhook, and_iff_left (fun h : (0 : Int64) < 0 => absurd h (by decide)),
      read_iff_of_zero hclass]
    exact ⟨fun h _ => h, fun h => h rfl⟩
  · rw [libcResult_of_nonneg (not_neg_of_pos hpos),
      and_iff_right (fun h : r = 0 => absurd hpos (by rw [h]; decide)), read_iff_of_pos hpos hclass]
    exact ⟨fun h _ => h, fun h => h hpos⟩

/-- A copy that moved nothing: the raw path is silent or, for a failure, a loss. -/
theorem copy_of_nonpos {r : Int64} (hnonpos : ¬ 0 < r) {inFd outFd : Int32}
    (hclass : classifyRawFileSyscall k t c = (decide (0 ≤ r), t, [])) :
    SameEvidence (recordRawSyscallClassification k t c)
      (hookedCopy k.toAnswers t inFd outFd (libcResult r)) := by
  rcases sign_cases r with hneg | hzero | hpos
  · rw [decide_eq_false (Int64.not_le.mpr hneg)] at hclass
    exact SameEvidence.of_unsupported hclass
  · subst hzero
    have hhook : hookedCopy k.toAnswers t inFd outFd (libcResult 0) = (t, []) :=
      if_neg (by decide)
    rw [sameEvidence_iff_of_supported hclass (fun ev hev => nomatch hev), hhook]
    exact ⟨rfl, rfl⟩
  · exact absurd hpos hnonpos

/-- `sendfile` and `copy_file_range`. -/
theorem copy_iff {inFd outFd : Int32} {r : Int64}
    (hclass : classifyRawFileSyscall k t c = recordRawFileCopy t inFd outFd r) :
    SameEvidence (recordRawSyscallClassification k t c)
        (hookedCopy k.toAnswers t inFd outFd (libcResult r)) ↔
      (0 < r → 2 < inFd ∨ (2 < outFd ∧ pathForFd t outFd = []) ∨
        ReadSilent k.toAnswers t inFd) := by
  by_cases hpos : 0 < r
  · rw [libcResult_of_nonneg (not_neg_of_pos hpos)]
    simp only [hpos, forall_const]
    have hraw : recordRawFileCopy t inFd outFd r =
        ((recordRawRead t inFd r).1 &&
            decide (¬ (2 < outFd ∧ pathForFd (recordRawRead t inFd r).2.1 outFd = [])),
          (recordRawRead t inFd r).2.1,
          (recordRawRead t inFd r).2.2 ++
            recordFdWrite (recordRawRead t inFd r).2.1 outFd r) := by
      rw [recordRawFileCopy, if_neg (Int64.not_le.mpr hpos)]
      simp only [recordRawWrite_eq _ outFd hpos]
    by_cases hout : 2 < outFd ∧ pathForFd t outFd = []
    · -- the output has no path, which is a loss whatever the input is
      have hpath : pathForFd (recordRawRead t inFd r).2.1 outFd = [] := by
        rw [← hout.2]
        exact pathForFd_congr (recordRawRead_fdPath t inFd r) outFd
      rw [decide_eq_false (fun h => h ⟨hout.1, hpath⟩), Bool.and_false] at hraw
      exact iff_of_true (SameEvidence.of_unsupported (hclass.trans hraw)) (Or.inr (Or.inl hout))
    rw [or_iff_right hout]
    by_cases hin : inFd ≤ 2
    · -- the input is not looked at
      rw [recordRawRead_of_low hin r] at hraw
      simp only [hout, not_false_eq_true, decide_true, Bool.and_true, List.nil_append] at hraw
      rw [sameEvidence_iff_of_supported (hclass.trans hraw) isLoss_recordFdWrite,
        or_iff_right (Int32.not_lt.mpr hin)]
      refine passed_over_iff k.toAnswers t hpos ?_
      by_cases hlow : outFd ≤ 2
      · exact Or.inl hlow
      · exact Or.inr (fun h => hlow (h ▸ hin))
    have hhigh : 2 < inFd := Int32.not_le.mp hin
    refine iff_of_true ?_ (Or.inl hhigh)
    by_cases hpath : pathForFd t inFd = []
    · rw [recordRawRead_of_untracked (not_neg_of_pos hpos) hhigh hpath, Bool.false_and] at hraw
      exact SameEvidence.of_unsupported (hclass.trans hraw)
    · have hread := recordFdRead_of_tracked (k := k.toAnswers) hpos hpath
      have hsame : pathForFd (recordFdRead k.toAnswers t inFd r).1 outFd = pathForFd t outFd :=
        pathForFd_congr hread.1 outFd
      rw [recordRawRead_of_tracked k.toAnswers hpos hhigh hpath, Bool.true_and, hsame,
        decide_eq_true hout] at hraw
      rw [sameEvidence_iff_of_supported (hclass.trans hraw), hookedCopy, if_pos hpos]
      · exact ⟨rfl, rfl⟩
      · intro ev hev
        rcases List.mem_append.mp hev with h | h
        · exact hread.2 ev h
        · exact isLoss_recordFdWrite ev h
  · refine iff_of_true ?_ (fun h => absurd h hpos)
    exact copy_of_nonpos hpos (hclass.trans (if_pos (Int64.not_lt.mp hpos)))

/-- A splice whose input has a path reads as the hook does; any other input is passed over. -/
theorem recordRawSplice_of_readable (k : Answers) {fdIn fdOut : Int32} {r : Int64} (hpos : 0 < r)
    (hin : 2 < fdIn ∧ pathForFd t fdIn ≠ []) :
    recordRawSplice t fdIn fdOut r = (true, hookedCopy k t fdIn fdOut r) := by
  have hread : recordFdRead k t fdIn r = if fileReadIsNew t fdIn then
      (podFileReadMark t fdIn, [.fileRead (pathForFd t fdIn) [] r fdIn.toUInt32])
      else (t, []) := by
    rw [recordFdRead, if_pos hpos]
    simp only [List.isEmpty_eq_false_iff.mpr hin.2, Bool.false_eq_true, if_false]
  have hwrite : ∀ u : FdTables, recordFdWrite u fdOut r =
      if (decide (2 < fdOut) && !(pathForFd u fdOut).isEmpty) = true then
        [.fileWrite (pathForFd u fdOut) [] r fdOut.toUInt32] else [] := by
    intro u
    have hnonneg : 0 ≤ r := Int64.not_lt.mp (not_neg_of_pos hpos)
    rw [recordFdWrite]
    by_cases hout : 2 < fdOut
    · cases hu : (pathForFd u fdOut).isEmpty <;> simp [hout, hnonneg, hu]
    · simp [hout]
  rw [recordRawSplice, if_neg (Int64.not_le.mpr hpos), hookedCopy, if_pos hpos, hread]
  simp only [hin.1, List.isEmpty_eq_false_iff.mpr hin.2, decide_true, Bool.not_false, Bool.and_self,
    Bool.true_and, Bool.true_or, ← hwrite]

theorem recordRawSplice_of_not_readable {fdIn : Int32} (fdOut : Int32) {r : Int64} (hpos : 0 < r)
    (hin : ¬ (2 < fdIn ∧ pathForFd t fdIn ≠ [])) :
    recordRawSplice t fdIn fdOut r =
      (decide (2 < fdOut ∧ pathForFd t fdOut ≠ []), t, recordFdWrite t fdOut r) := by
  have hnonneg : 0 ≤ r := Int64.not_lt.mp (not_neg_of_pos hpos)
  have hreadable : (decide (2 < fdIn) && !(pathForFd t fdIn).isEmpty) = false := by
    cases hp : (pathForFd t fdIn).isEmpty with
    | true => simp
    | false =>
        have hlow : ¬ 2 < fdIn := fun h => hin ⟨h, List.isEmpty_eq_false_iff.mp hp⟩
        simp [hlow]
  rw [recordRawSplice, if_neg (Int64.not_le.mpr hpos), recordFdWrite]
  simp only [hreadable, Bool.false_and, Bool.false_eq_true, if_false, Bool.false_or,
    List.nil_append]
  by_cases hout : 2 < fdOut
  · cases hp : pathForFd t fdOut <;> simp [hout, hnonneg]
  · simp [hout]

theorem splice_iff {fdIn fdOut : Int32} {r : Int64}
    (hclass : classifyRawFileSyscall k t c = recordRawSplice t fdIn fdOut r) :
    SameEvidence (recordRawSyscallClassification k t c)
        (hookedCopy k.toAnswers t fdIn fdOut (libcResult r)) ↔
      (0 < r → (2 < fdIn ∧ pathForFd t fdIn ≠ []) ∨ fdOut ≤ 2 ∨ pathForFd t fdOut = [] ∨
        ReadSilent k.toAnswers t fdIn) := by
  by_cases hpos : 0 < r
  · rw [libcResult_of_nonneg (not_neg_of_pos hpos)]
    simp only [hpos, forall_const]
    by_cases hin : 2 < fdIn ∧ pathForFd t fdIn ≠ []
    · refine iff_of_true ?_ (Or.inl hin)
      rw [sameEvidence_iff_of_supported
        (hclass.trans (recordRawSplice_of_readable k.toAnswers hpos hin))]
      · exact ⟨rfl, rfl⟩
      · intro ev hev
        rw [hookedCopy, if_pos hpos] at hev
        rcases List.mem_append.mp hev with h | h
        · exact (recordFdRead_of_tracked hpos hin.2).2 ev h
        · exact isLoss_recordFdWrite ev h
    have hraw := recordRawSplice_of_not_readable fdOut hpos hin
    rw [or_iff_right hin]
    by_cases hout : 2 < fdOut ∧ pathForFd t fdOut ≠ []
    · rw [decide_eq_true hout] at hraw
      rw [sameEvidence_iff_of_supported (hclass.trans hraw) isLoss_recordFdWrite,
        or_iff_right (Int32.not_le.mpr hout.1), or_iff_right hout.2]
      refine passed_over_iff k.toAnswers t hpos (Or.inr ?_)
      rintro rfl
      exact hin hout
    · rw [decide_eq_false hout] at hraw
      refine iff_of_true (SameEvidence.of_unsupported (hclass.trans hraw)) ?_
      by_cases hlow : fdOut ≤ 2
      · exact Or.inl hlow
      · exact Or.inr (Or.inl (not_not.mp fun hne => hout ⟨Int32.not_le.mp hlow, hne⟩))
  · refine iff_of_true ?_ (fun h => absurd h hpos)
    exact copy_of_nonpos hpos (hclass.trans (if_pos (Int64.not_lt.mp hpos)))

theorem close_iff {fd : Int32} {r : Int64}
    (hclass : classifyRawFileSyscall k t c =
      (true, if 0 ≤ r then removeFdPath t fd else t, [])) :
    SameEvidence (recordRawSyscallClassification k t c) (removeFdPath t fd, []) ↔
      0 ≤ r ∨ pathForFd t fd = [] := by
  rw [sameEvidence_iff_of_supported hclass (fun ev hev => nomatch hev)]
  by_cases hr : 0 ≤ r
  · rw [if_pos hr]
    exact iff_of_true ⟨rfl, rfl⟩ (Or.inl hr)
  · rw [if_neg hr, or_iff_right hr]
    have hremoved : (removeFdPath t fd).fdPath = t.fdPath.set fd.toInt [] := rfl
    constructor
    · rintro ⟨-, heq⟩
      have hblank := (removeFdPath_blank t fd).path
      rwa [pathForFd, ← heq] at hblank
    · intro hpath
      refine ⟨rfl, ?_⟩
      rw [hremoved, ← hpath]
      exact (t.fdPath.set_get_self fd.toInt).symm

theorem stat_same {path : Option NimStr} {r : Int64}
    (hclass : classifyRawFileSyscall k t c =
      if resultLooksFaulted r then (false, t, [])
      else (true, t, [emitProbe k.toAnswers t path (probeResultFromRaw r) LinuxAtFdcwd])) :
    SameEvidence (recordRawSyscallClassification k t c)
      (t, [emitProbe k.toAnswers t path (libcStatus r) LinuxAtFdcwd]) := by
  by_cases hfault : resultLooksFaulted r = true
  · rw [if_pos hfault] at hclass
    exact SameEvidence.of_unsupported hclass
  · rw [if_neg hfault] at hclass
    have hstatus : probeResultFromRaw r = libcStatus r := by
      by_cases hneg : r < 0
      · rw [probeResultFromRaw, libcStatus, if_neg (Int64.not_le.mpr hneg), if_pos hneg]
      · rw [probeResultFromRaw, libcStatus, if_pos (Int64.not_lt.mp hneg), if_neg hneg]
    rw [sameEvidence_iff_of_supported hclass, hstatus]
    · exact ⟨rfl, rfl⟩
    · intro ev hev
      cases List.mem_singleton.mp hev
      rfl

end Calls

/-! ## 8. Every call -/

section Registers

variable (k : RawAnswers) (t : FdTables) (source : RawSyscallSource) (result : Int64)

theorem branchOf_eq :
    branchOf LinuxSysOpen = some .openFile ∧ branchOf LinuxSysOpenat = some .openat ∧
      branchOf LinuxSysRead = some .read ∧ branchOf LinuxSysSendfile = some .sendfile ∧
      branchOf LinuxSysCopyFileRange = some .copyFileRange ∧
      branchOf LinuxSysSplice = some .splice ∧ branchOf LinuxSysClose = some .close ∧
      branchOf LinuxSysStat = some .probe ∧ branchOf LinuxSysLstat = some .probe := by
  decide

/-- **What the classifier makes of the registers**: the arguments are where libc's convention puts
them. -/
theorem classify_raw (call : LibcCall) :
    classifyRawFileSyscall k t (call.raw source result) =
      match call with
      | .openFile path flags _ | .openat _ path flags _ =>
        if result < 0 ∨ resultLooksFaulted result = true then (true, t, [])
        else (true, recordOpen k.toAnswers t (cstringArg k path) flags result.toInt32 LinuxAtFdcwd)
      | .read fd _ _ => recordRawRead t fd result
      | .sendfile outFd inFd _ _ => recordRawFileCopy t inFd outFd result
      | .copyFileRange inFd _ outFd _ _ _ => recordRawFileCopy t inFd outFd result
      | .splice fdIn _ fdOut _ _ _ => recordRawSplice t fdIn fdOut result
      | .close fd => (true, if 0 ≤ result then removeFdPath t fd else t, [])
      | .stat path _ | .lstat path _ =>
        if resultLooksFaulted result then (false, t, [])
        else (true, t, [emitProbe k.toAnswers t (cstringArg k path) (probeResultFromRaw result)
          LinuxAtFdcwd]) := by
  cases call with
  | openFile | openat | read | sendfile | copyFileRange | splice | close =>
      simp [classifyRawFileSyscall, LibcCall.raw, branchOf_eq]
  | stat | lstat =>
      simp only [classifyRawFileSyscall, LibcCall.raw, branchOf_eq]
      rfl

end Registers

end IoMon.RawCalls
