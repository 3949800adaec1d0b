/-
# Descriptors and what is known of them

The shim remembers, for each descriptor below `fdPathCap`, the path it was opened with, and three
bits: that a read of it has been classified although no path is known, that it was open when the
shim started, and that a read of it has been recorded.  Every hook that opens, reads, writes, copies
or closes goes through the functions of this file, whether the call came in through a libc symbol or
as a raw syscall.

`Answers` holds what the kernel and the allocator tell the shim while one hook runs: these are the
shim's own raw calls (`fstat`, `readlink` of `/proc/self/fd`, `getcwd`, `SO_PEERCRED`), and any of
them may fail.

A `cint` is an `Int32` and a `clong` an `Int64`.  A `cstring` is an `Option NimStr`, `none` for nil.
An entry of the path table is empty where the array holds nil: no path that is stored is empty.  The
effect of a recorder is the tables it leaves and the events it hands to `emitRecord`.
-/
import IoMon.Lib.DirectIndex
import IoMon.Lib.Paths
import IoMon.Shim.Emit

namespace IoMon

open ByteText DirectIndex

/-! ## 1. The tables -/

def fdPathCap : Nat := 65536

structure FdTables where
  fdPath : Table fdPathCap NimStr := Table.empty
  emptyFd : Table fdPathCap Bool := Table.empty
  inheritedFd : Table fdPathCap Bool := Table.empty
  fileReadSeen : Table fdPathCap Bool := Table.empty

inductive FdKind
  | fkRegular | fkFifo | fkSocket | fkDirectory | fkOther
  deriving DecidableEq, Repr

/-- What `repro_linux_fd_identity_kind` reads off `fstat`. -/
structure FdIdentity where
  dev : UInt64
  ino : UInt64
  kind : FdKind
  deriving DecidableEq, Repr

/-- What the shim is told while one hook runs: the working directory, empty when `getcwd` fails;
what `fstat` says; the link target in `/proc/self/fd`; the peer of a socket, 0 when there is none;
and whether the allocation of a stored path succeeds. -/
structure Answers where
  getcwd : NimStr := []
  identityKind : Int32 → Option FdIdentity := fun _ => none
  procPath : Int32 → Option NimStr := fun _ => none
  socketPeerPid : Int32 → UInt64 := fun _ => 0
  allocated : Bool := true

/-- The tables a recorder leaves, and its events. -/
abbrev Effect := FdTables × List ShimEvent

def podFdPathSet (k : Answers) (t : FdTables) (fd : Int32) (path : NimStr) : FdTables :=
  { t with fdPath := t.fdPath.set fd.toInt (if k.allocated then path else []) }

def podFdPathDel (t : FdTables) (fd : Int32) : FdTables :=
  { t with fdPath := t.fdPath.set fd.toInt [] }

def podEmptyFdExcl (t : FdTables) (fd : Int32) : FdTables :=
  { t with emptyFd := t.emptyFd.set fd.toInt false }

def podInheritedFdExcl (t : FdTables) (fd : Int32) : FdTables :=
  { t with inheritedFd := t.inheritedFd.set fd.toInt false }

def podFileReadExcl (t : FdTables) (fd : Int32) : FdTables :=
  { t with fileReadSeen := t.fileReadSeen.set fd.toInt false }

/-- The answer of `podFileReadMarkIsNew`; above the table every read is new. -/
def fileReadIsNew (t : FdTables) (fd : Int32) : Bool := !t.fileReadSeen.get fd.toInt

/-- The mark `podFileReadMarkIsNew` leaves. -/
def podFileReadMark (t : FdTables) (fd : Int32) : FdTables :=
  { t with fileReadSeen := t.fileReadSeen.set fd.toInt true }

def updateFdPath (k : Answers) (t : FdTables) (fd : Int32) (path : NimStr) : FdTables :=
  if fd < 0 then t else podFdPathSet k (podFileReadExcl t fd) fd path

def removeFdPath (t : FdTables) (fd : Int32) : FdTables :=
  podFileReadExcl (podInheritedFdExcl (podEmptyFdExcl (podFdPathDel t fd) fd) fd) fd

def pathForFd (t : FdTables) (fd : Int32) : NimStr := t.fdPath.get fd.toInt

def markEmptyFdClassified (t : FdTables) (fd : Int32) : FdTables :=
  { t with emptyFd := t.emptyFd.set fd.toInt true }

def emptyFdAlreadyClassified (t : FdTables) (fd : Int32) : Bool := t.emptyFd.get fd.toInt

def inheritedFd (t : FdTables) (fd : Int32) : Bool := t.inheritedFd.get fd.toInt

/-- The descriptors the start-up loop asks about. -/
def startupFds : List Int := (List.range 1025).map Int.ofNat

def rememberInheritedOpenFds (k : Answers) (t : FdTables) : FdTables :=
  { t with
    inheritedFd := startupFds.foldl
      (fun bits fd => if (k.identityKind (Int32.ofInt fd)).isSome then bits.set fd true else bits)
      Table.empty }

/-! ## 2. Paths -/

def LinuxAtFdcwd : Int32 := -100

def pathForAt (k : Answers) (t : FdTables) (dirfd : Int32) (path : Option NimStr) : NimStr :=
  match path with
  | none => []
  | some raw =>
    if raw.isEmpty || NimPath.isAbsolute raw then raw
    else if dirfd = LinuxAtFdcwd then
      if k.getcwd.isEmpty then raw else NimPath.joinPath k.getcwd raw
    else
      let base := pathForFd t dirfd
      if base.isEmpty then raw else NimPath.joinPath base raw

theorem pathForAt_absolute {raw : NimStr} (h : NimPath.isAbsolute raw = true) (k : Answers)
    (t : FdTables) (dirfd : Int32) : pathForAt k t dirfd (some raw) = raw := by
  rw [pathForAt, if_pos]
  rw [h, Bool.or_true]

/-! ## 3. Reads of descriptors without a path -/

def localFdKey (id : FdIdentity) : NimStr :=
  str "localfd:" ++ decimal id.dev ++ str ":" ++ decimal id.ino

def channelPeerPid (k : Answers) (fd : Int32) (kind : FdKind) : UInt64 :=
  if kind ≠ .fkSocket then 0 else k.socketPeerPid fd

/-- `recordExternalContent("opaque", "read", ...)`. -/
def opaqueRead (k : Answers) (fd : Int32) (id : FdIdentity) : ShimEvent :=
  .externalContent (str "opaque") (str "read") (localFdKey id) fd.toUInt32
    (channelPeerPid k fd id.kind)

def isLinuxDeletedProcFdTarget (path : NimStr) : Bool := endsWith path (str " (deleted)")

/-- A link target that can stand for the file: absolute and not deleted. -/
def namesFile (resolved : NimStr) : Bool :=
  NimPath.isAbsolute resolved && !startsWith resolved (str "anon_inode:") &&
    !isLinuxDeletedProcFdTarget resolved

/-- The path `recoverNamedFdRead` finds, if any. -/
def recoveredPath (k : Answers) (fd : Int32) (kind : FdKind) : Option NimStr :=
  if kind = .fkRegular ∨ kind = .fkOther then (k.procPath fd).filter namesFile else none

def inheritedFdRead (fd : Int32) (path : NimStr) : ShimEvent :=
  .fileRead path (str "inherited-fd") 0 fd.toUInt32

def unresolvedFdLoss (fd : Int32) : ShimEvent :=
  .eventLoss (str "linux inherited fd read unresolved fd=" ++ signedDecimal fd.toInt) 0

def unnamedFdLoss (fd : Int32) (id : FdIdentity) : ShimEvent :=
  .eventLoss (str "linux inherited regular fd read unnamed key=" ++ localFdKey id ++ str " fd=" ++
    signedDecimal fd.toInt) 0

/-- A fifo, a socket, a directory and anything else are treated alike: a channel that was there
before the shim is external content, one that was not is no dependency. -/
def classifyEmptyFdRead (k : Answers) (t : FdTables) (fd : Int32) : Effect :=
  if fd < 0 ∨ emptyFdAlreadyClassified t fd = true then (t, [])
  else
    match k.identityKind fd with
    | none => (markEmptyFdClassified t fd, [unresolvedFdLoss fd])
    | some id =>
      match recoveredPath k fd id.kind with
      | some path => (podFileReadMark (updateFdPath k t fd path) fd, [inheritedFdRead fd path])
      | none =>
        if id.kind = .fkRegular then (markEmptyFdClassified t fd, [unnamedFdLoss fd id])
        else if inheritedFd t fd then (markEmptyFdClassified t fd, [opaqueRead k fd id])
        else (markEmptyFdClassified t fd, [])

/-! ## 4. The recorders -/

/-- The mode of the open is passed along and not used. -/
def recordOpen (k : Answers) (t : FdTables) (path : Option NimStr) (flags fd dirfd : Int32) :
    Effect :=
  let resolved := pathForAt k t dirfd path
  (if resolved.isEmpty then t else updateFdPath k t fd resolved,
    [.fileOpen resolved flags.toUInt32 fd.toInt64])

def recordFdRead (k : Answers) (t : FdTables) (fd : Int32) (bytes : Int64) : Effect :=
  if 0 < bytes then
    let path := pathForFd t fd
    if path.isEmpty then classifyEmptyFdRead k t fd
    else if fileReadIsNew t fd then
      (podFileReadMark t fd, [.fileRead path [] bytes fd.toUInt32])
    else (t, [])
  else (t, [])

/-- The record of a write; no table changes. -/
def recordFdWrite (t : FdTables) (fd : Int32) (bytes : Int64) : List ShimEvent :=
  if 0 ≤ bytes ∧ 2 < fd then
    let path := pathForFd t fd
    if path.isEmpty then [] else [.fileWrite path [] bytes fd.toUInt32]
  else []

def emitProbe (k : Answers) (t : FdTables) (path : Option NimStr) (callResult dirfd : Int32) :
    ShimEvent :=
  .probe (pathForAt k t dirfd path) callResult.toInt64

/-! ## 5. What one operation does to one descriptor -/

theorem toInt_ne {x fd : Int32} (h : x ≠ fd) : x.toInt ≠ fd.toInt := fun h' =>
  h (Int32.toInt_inj.mp h')

/-- The tables know the same of a descriptor. -/
structure AgreeAt (t u : FdTables) (x : Int32) : Prop where
  path : pathForFd u x = pathForFd t x
  empty : emptyFdAlreadyClassified u x = emptyFdAlreadyClassified t x
  inherited : inheritedFd u x = inheritedFd t x
  isNew : fileReadIsNew u x = fileReadIsNew t x

theorem AgreeAt.refl (t : FdTables) (x : Int32) : AgreeAt t t x := ⟨rfl, rfl, rfl, rfl⟩

theorem AgreeAt.trans {t u v : FdTables} {x : Int32} (h : AgreeAt t u x) (h' : AgreeAt u v x) :
    AgreeAt t v x :=
  ⟨h'.path.trans h.path, h'.empty.trans h.empty, h'.inherited.trans h.inherited,
    h'.isNew.trans h.isNew⟩

section Frames

variable {t : FdTables} {x fd : Int32}

theorem podFileReadMark_agreeAt (h : x ≠ fd) : AgreeAt t (podFileReadMark t fd) x := by
  refine ⟨rfl, rfl, rfl, ?_⟩
  rw [fileReadIsNew, fileReadIsNew, podFileReadMark, Table.get_set_of_ne _ (toInt_ne h)]

theorem markEmptyFdClassified_agreeAt (h : x ≠ fd) : AgreeAt t (markEmptyFdClassified t fd) x :=
  ⟨rfl, Table.get_set_of_ne _ (toInt_ne h) _, rfl, rfl⟩

theorem updateFdPath_agreeAt (k : Answers) (path : NimStr) (h : x ≠ fd) :
    AgreeAt t (updateFdPath k t fd path) x := by
  rw [updateFdPath]
  split
  · exact AgreeAt.refl t x
  · refine ⟨Table.get_set_of_ne _ (toInt_ne h) _, rfl, rfl, ?_⟩
    rw [fileReadIsNew, fileReadIsNew, podFdPathSet, podFileReadExcl,
      Table.get_set_of_ne _ (toInt_ne h)]

theorem removeFdPath_agreeAt (h : x ≠ fd) : AgreeAt t (removeFdPath t fd) x := by
  refine ⟨Table.get_set_of_ne _ (toInt_ne h) _, Table.get_set_of_ne _ (toInt_ne h) _,
    Table.get_set_of_ne _ (toInt_ne h) _, ?_⟩
  rw [fileReadIsNew, fileReadIsNew, removeFdPath, podFileReadExcl,
    Table.get_set_of_ne _ (toInt_ne h)]
  rfl

end Frames

/-- Nothing is known of the descriptor that a read goes by. -/
structure Blank (t : FdTables) (fd : Int32) : Prop where
  path : pathForFd t fd = []
  empty : emptyFdAlreadyClassified t fd = false
  isNew : fileReadIsNew t fd = true

theorem Blank.of_agreeAt {t u : FdTables} {x : Int32} (h : Blank t x) (ha : AgreeAt t u x) :
    Blank u x :=
  ⟨ha.path.trans h.path, ha.empty.trans h.empty, ha.isNew.trans h.isNew⟩

theorem blank_empty (x : Int32) : Blank {} x := by
  refine ⟨?_, ?_, ?_⟩
  · rw [pathForFd, Table.get_empty]
    rfl
  · rw [emptyFdAlreadyClassified, Table.get_empty]
    rfl
  · rw [fileReadIsNew, Table.get_empty]
    rfl

/-- Start-up writes the inherited bits and nothing else. -/
theorem Blank.remember {t : FdTables} {x : Int32} (h : Blank t x) (k : Answers) :
    Blank (rememberInheritedOpenFds k t) x := by
  refine ⟨?_, ?_, ?_⟩
  · simp only [pathForFd, rememberInheritedOpenFds]
    exact h.path
  · simp only [emptyFdAlreadyClassified, rememberInheritedOpenFds]
    exact h.empty
  · simp only [fileReadIsNew, rememberInheritedOpenFds]
    exact h.isNew

theorem removeFdPath_blank (t : FdTables) (fd : Int32) : Blank (removeFdPath t fd) fd := by
  refine ⟨Table.get_set_default _ _, Table.get_set_default _ _, ?_⟩
  have hseen : (removeFdPath t fd).fileReadSeen.get fd.toInt = false := Table.get_set_default _ _
  rw [fileReadIsNew, hseen]
  rfl

theorem emptyFdAlreadyClassified_updateFdPath (k : Answers) (t : FdTables) (fd x : Int32)
    (path : NimStr) :
    emptyFdAlreadyClassified (updateFdPath k t fd path) x = emptyFdAlreadyClassified t x := by
  rw [updateFdPath]
  split <;> rfl

theorem inheritedFd_updateFdPath (k : Answers) (t : FdTables) (fd x : Int32) (path : NimStr) :
    inheritedFd (updateFdPath k t fd path) x = inheritedFd t x := by
  rw [updateFdPath]
  split <;> rfl

/-- An update forgets that the descriptor was read. -/
theorem fileReadIsNew_updateFdPath (k : Answers) (t : FdTables) {fd : Int32} (hfd : 0 ≤ fd)
    (path : NimStr) : fileReadIsNew (updateFdPath k t fd path) fd = true := by
  have hseen : (podFileReadExcl t fd).fileReadSeen.get fd.toInt = false :=
    Table.get_set_default _ _
  rw [updateFdPath, if_neg (Int32.not_lt.mpr hfd), fileReadIsNew, podFdPathSet, hseen]
  rfl

/-- The path after an update is the new one, where it can be stored. -/
theorem pathForFd_updateFdPath (k : Answers) (t : FdTables) (fd : Int32) (path : NimStr) :
    pathForFd (updateFdPath k t fd path) fd =
      if InRange fdPathCap fd.toInt ∧ k.allocated = true then path else [] := by
  by_cases hr : InRange fdPathCap fd.toInt
  · have hnonneg : ¬ fd < 0 := by
      rw [Int32.not_lt, Int32.le_iff_toInt_le]
      exact hr.1
    rw [updateFdPath, if_neg hnonneg, pathForFd, podFdPathSet, Table.get_set, if_pos ⟨hr, rfl⟩]
    simp only [hr, true_and]
  · rw [if_neg (fun h => hr h.1)]
    exact Table.get_of_not_inRange _ hr

/-- **The inherited bit after start-up.** -/
theorem inheritedFd_rememberInheritedOpenFds (k : Answers) (t : FdTables) {fd : Int32}
    (hnonneg : 0 ≤ fd) (hlow : fd ≤ 1024) (hopen : (k.identityKind fd).isSome = true) :
    inheritedFd (rememberInheritedOpenFds k t) fd = true := by
  have h₀ : (0 : Int) ≤ fd.toInt := Int32.le_iff_toInt_le.mp hnonneg
  have h₁ : fd.toInt ≤ 1024 := Int32.le_iff_toInt_le.mp hlow
  have hrange : InRange fdPathCap fd.toInt := ⟨h₀, by rw [fdPathCap]; omega⟩
  have hmem : fd.toInt ∈ startupFds := by
    rw [startupFds, List.mem_map]
    exact ⟨fd.toInt.toNat, List.mem_range.mpr (by omega), Int.toNat_of_nonneg h₀⟩
  rw [inheritedFd, rememberInheritedOpenFds,
    Table.get_foldl_set (fun fd => (k.identityKind (Int32.ofInt fd)).isSome)]
  refine if_pos ⟨hrange, hmem, ?_⟩
  rw [Int32.ofInt_toInt]
  exact hopen

/-- The start-up loop stops at 1024. -/
theorem inheritedFd_rememberInheritedOpenFds_of_gt (k : Answers) (t : FdTables) {fd : Int32}
    (hhigh : 1024 < fd) : inheritedFd (rememberInheritedOpenFds k t) fd = false := by
  have h₁ : (1024 : Int) < fd.toInt := Int32.lt_iff_toInt_lt.mp hhigh
  rw [inheritedFd, rememberInheritedOpenFds,
    Table.get_foldl_set (fun fd => (k.identityKind (Int32.ofInt fd)).isSome), if_neg,
    Table.get_empty]
  · rfl
  · rintro ⟨-, hmem, -⟩
    obtain ⟨n, hn, heq⟩ := List.mem_map.mp hmem
    have hlt := List.mem_range.mp hn
    have hcast : (n : Int) = fd.toInt := heq
    omega

/-! ## 6. What one read does -/

/-- **The outcomes of a read that returned bytes.** -/
inductive ReadOutcome (k : Answers) (t : FdTables) (fd : Int32) (bytes : Int64) : Effect → Prop
  | recorded (hpath : pathForFd t fd ≠ []) (hseen : fileReadIsNew t fd = false) :
      ReadOutcome k t fd bytes (t, [])
  | named (hpath : pathForFd t fd ≠ []) (hnew : fileReadIsNew t fd = true) :
      ReadOutcome k t fd bytes
        (podFileReadMark t fd, [.fileRead (pathForFd t fd) [] bytes fd.toUInt32])
  | noDescriptor (hpath : pathForFd t fd = []) (hneg : fd < 0) : ReadOutcome k t fd bytes (t, [])
  | classified (hpath : pathForFd t fd = []) (hempty : emptyFdAlreadyClassified t fd = true) :
      ReadOutcome k t fd bytes (t, [])
  | unresolved (hpath : pathForFd t fd = []) (hempty : emptyFdAlreadyClassified t fd = false)
      (hfd : ¬ fd < 0) (hstat : k.identityKind fd = none) :
      ReadOutcome k t fd bytes (markEmptyFdClassified t fd, [unresolvedFdLoss fd])
  | recovered (hpath : pathForFd t fd = []) (hempty : emptyFdAlreadyClassified t fd = false)
      (hfd : ¬ fd < 0) {id : FdIdentity} {path : NimStr} (hstat : k.identityKind fd = some id)
      (hproc : recoveredPath k fd id.kind = some path) :
      ReadOutcome k t fd bytes
        (podFileReadMark (updateFdPath k t fd path) fd, [inheritedFdRead fd path])
  | unnamed (hpath : pathForFd t fd = []) (hempty : emptyFdAlreadyClassified t fd = false)
      (hfd : ¬ fd < 0) {id : FdIdentity} (hstat : k.identityKind fd = some id)
      (hproc : recoveredPath k fd id.kind = none) (hkind : id.kind = .fkRegular) :
      ReadOutcome k t fd bytes (markEmptyFdClassified t fd, [unnamedFdLoss fd id])
  | channel (hpath : pathForFd t fd = []) (hempty : emptyFdAlreadyClassified t fd = false)
      (hfd : ¬ fd < 0) {id : FdIdentity} (hstat : k.identityKind fd = some id)
      (hproc : recoveredPath k fd id.kind = none) (hkind : id.kind ≠ .fkRegular)
      (hinherited : inheritedFd t fd = true) :
      ReadOutcome k t fd bytes (markEmptyFdClassified t fd, [opaqueRead k fd id])
  | skipped (hpath : pathForFd t fd = []) (hempty : emptyFdAlreadyClassified t fd = false)
      (hfd : ¬ fd < 0) {id : FdIdentity} (hstat : k.identityKind fd = some id)
      (hproc : recoveredPath k fd id.kind = none) (hkind : id.kind ≠ .fkRegular)
      (hinherited : inheritedFd t fd = false) :
      ReadOutcome k t fd bytes (markEmptyFdClassified t fd, [])

theorem recordFdRead_outcome (k : Answers) (t : FdTables) (fd : Int32) {bytes : Int64}
    (hbytes : 0 < bytes) : ReadOutcome k t fd bytes (recordFdRead k t fd bytes) := by
  rw [recordFdRead, if_pos hbytes]
  by_cases hpath : pathForFd t fd = []
  · simp only [hpath, List.isEmpty_nil, if_true]
    rw [classifyEmptyFdRead]
    by_cases hneg : fd < 0
    · rw [if_pos (Or.inl hneg)]
      exact .noDescriptor hpath hneg
    by_cases hempty : emptyFdAlreadyClassified t fd = true
    · rw [if_pos (Or.inr hempty)]
      exact .classified hpath hempty
    have hopen : emptyFdAlreadyClassified t fd = false := Bool.not_eq_true _ ▸ hempty
    rw [if_neg (fun h => h.elim hneg hempty)]
    cases hstat : k.identityKind fd with
    | none => exact .unresolved hpath hopen hneg hstat
    | some id =>
        simp only
        cases hproc : recoveredPath k fd id.kind with
        | some path => exact .recovered hpath hopen hneg hstat hproc
        | none =>
            simp only
            by_cases hkind : id.kind = .fkRegular
            · rw [if_pos hkind]
              exact .unnamed hpath hopen hneg hstat hproc hkind
            · rw [if_neg hkind]
              cases hinh : inheritedFd t fd with
              | true => exact .channel hpath hopen hneg hstat hproc hkind hinh
              | false => exact .skipped hpath hopen hneg hstat hproc hkind hinh
  · have hnonempty : (pathForFd t fd).isEmpty = false := by
      cases h : pathForFd t fd with
      | nil => exact absurd h hpath
      | cons c rest => rfl
    simp only [hnonempty, Bool.false_eq_true, if_false]
    cases hnew : fileReadIsNew t fd with
    | true => exact .named hpath hnew
    | false => exact .recorded hpath hnew

/-- A read leaves the other descriptors alone. -/
theorem recordFdRead_agreeAt (k : Answers) (t : FdTables) {x fd : Int32} (h : x ≠ fd)
    (bytes : Int64) : AgreeAt t (recordFdRead k t fd bytes).1 x := by
  by_cases hbytes : 0 < bytes
  · have hout := recordFdRead_outcome k t fd hbytes
    generalize recordFdRead k t fd bytes = e at hout ⊢
    cases hout with
    | recorded | noDescriptor | classified => exact AgreeAt.refl t x
    | named => exact podFileReadMark_agreeAt h
    | unresolved | unnamed | channel | skipped => exact markEmptyFdClassified_agreeAt h
    | recovered => exact (updateFdPath_agreeAt k _ h).trans (podFileReadMark_agreeAt h)
  · rw [recordFdRead, if_neg hbytes]
    exact AgreeAt.refl t x

end IoMon
