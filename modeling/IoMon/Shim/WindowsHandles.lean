/-
# What the Windows shim knows of a handle

Three tables are keyed by the handle value: the path a file was opened with, the path behind a
section, and whether a handle without a path was looked at as a channel.  They are written by the
opens at two layers, since the real `CreateFileW` calls `NtCreateFile`, read by the reads at two
layers, and pruned by `CloseHandle`, before it is known whether the handle is closed.  The hooks of
the two NT listing calls keep their state in the first table: they put `[enum]:` in front of the
path.  They are compiled in but the shim does not register them, so whether they run is a parameter
here.

`HandleWorld` is the system's handles beside the tables, `handleStep` one call with every hook that
runs in it, and `HandleRun` a run.  `RowFits` is the invariant, one handle at a time, and
`attributed_of_run` what it gives: in every run, a read or view that the tables can follow is
attributed.
-/
import Mathlib.Logic.Function.Basic
import IoMon.Shim.Emit

namespace IoMon

open ByteText MonitorRecordKind MonitorObservationKind ProbeResult

/-! ## 1. The tables -/

abbrev Handle := UInt64

def INVALID_HANDLE_VALUE : Handle := 0xFFFFFFFFFFFFFFFF

/-- A handle that is neither nil nor `INVALID_HANDLE_VALUE`. -/
def realHandle (h : Handle) : Bool := h != 0 && h != INVALID_HANDLE_VALUE

structure HandleTables where
  handlePaths : Handle → Option NimStr
  mappingPaths : Handle → Option NimStr
  channelClassified : Handle → Bool

def emptyHandleTables : HandleTables := ⟨fun _ => none, fun _ => none, fun _ => false⟩

def rememberHandlePath (t : HandleTables) (h : Handle) (path : NimStr) : HandleTables :=
  if realHandle h = false ∨ path.length = 0 then t
  else { t with handlePaths := Function.update t.handlePaths h (some path) }

def forgetHandlePath (t : HandleTables) (h : Handle) : HandleTables :=
  if realHandle h = false then t
  else { t with handlePaths := Function.update t.handlePaths h none }

def pathForHandle (t : HandleTables) (h : Handle) : NimStr :=
  if realHandle h = false then [] else (t.handlePaths h).getD []

def rememberMappingPath (t : HandleTables) (h : Handle) (path : NimStr) : HandleTables :=
  if realHandle h = false ∨ path.length = 0 then t
  else { t with mappingPaths := Function.update t.mappingPaths h (some path) }

def forgetMappingPath (t : HandleTables) (h : Handle) : HandleTables :=
  if realHandle h = false then t
  else { t with mappingPaths := Function.update t.mappingPaths h none }

def pathForMapping (t : HandleTables) (h : Handle) : NimStr :=
  if realHandle h = false then [] else (t.mappingPaths h).getD []

/-- The table with the mark, and whether it was there already. -/
def markHandleChannelClassified (t : HandleTables) (h : Handle) : HandleTables × Bool :=
  if realHandle h = false then (t, true)
  else
    ({ t with channelClassified := Function.update t.channelClassified h true },
      t.channelClassified h)

def forgetHandleChannelClass (t : HandleTables) (h : Handle) : HandleTables :=
  if realHandle h = false then t
  else { t with channelClassified := Function.update t.channelClassified h false }

/-! ## 2. The system's handles -/

inductive ObjectKind
  | diskFile
  | directory
  | pipe (identity : NimStr) (producer : UInt64)
  | mapping
  deriving DecidableEq, Repr

/-- What a handle refers to.  `path` is the one of the hooked open that created the handle, of a
mapping the one of the open of the file behind it.  `followed` says that this open was one the
tables are told of and that no close was tried since, nor a registered listing hook on a file;
`scanned` that entries were asked for. -/
structure KernelObject where
  kind : ObjectKind
  path : Option NimStr
  followed : Bool
  scanned : Bool
  deriving DecidableEq, Repr

structure HandleWorld where
  objects : Handle → Option KernelObject
  tables : HandleTables
  win32ReadDepth : Nat

/-- The system hands out a handle. -/
def HandleWorld.opened (w : HandleWorld) (made : Option (Handle × ObjectKind)) (path : NimStr)
    (followed : Bool) : HandleWorld :=
  match made with
  | none => w
  | some (h, kind) =>
    { w with
      objects := Function.update w.objects h (some ⟨kind, some path, followed, false⟩) }

/-- The section over a file handle. -/
def HandleWorld.sectionOver (w : HandleWorld) (hFile : Handle) : KernelObject :=
  match w.objects hFile with
  | some ⟨.diskFile, path, followed, _⟩ => ⟨.mapping, path, followed, false⟩
  | _ => ⟨.mapping, none, false, false⟩

/-! ## 3. Opens -/

def GENERIC_READ : UInt32 := 0x80000000
def GENERIC_WRITE : UInt32 := 0x40000000
def GENERIC_ALL : UInt32 := 0x10000000

/-- The bits of an access mask without which an open at the NT layer is taken for a probe. -/
def dataAccessBits : UInt32 :=
  0x1 ||| 0x2 ||| 0x4 ||| GENERIC_READ ||| GENERIC_WRITE ||| GENERIC_ALL

/-- A write access, or `CREATE_NEW`, `CREATE_ALWAYS`, `OPEN_ALWAYS`, `TRUNCATE_EXISTING`. -/
def observationForCreateFile (desiredAccess creationDisposition : UInt32) :
    MonitorObservationKind :=
  if desiredAccess &&& GENERIC_WRITE ≠ 0 ∨ creationDisposition = 2 ∨ creationDisposition = 1 ∨
      creationDisposition = 4 ∨ creationDisposition = 5 then moFileWrite
  else moFileOpen

inductive OpenArm
  | createFileW
  | createFileA
  deriving DecidableEq, Repr

def OpenArm.name : OpenArm → NimStr
  | createFileW => str "CreateFileW"
  | createFileA => str "CreateFileA"

/-- The arguments of an `NtCreateFile` and its status. -/
structure NtOpen where
  objectName : NimStr
  desiredAccess : UInt32
  createDisposition : UInt32
  status : Int32
  deriving DecidableEq, Repr

/-- `objectAttributesToString`: the name without its NT prefix. -/
def objectAttributesToString (raw : NimStr) : NimStr :=
  if startsWith raw (str "\\??\\") then raw.drop 4
  else if startsWith raw (str "\\DosDevices\\") then raw.drop 12
  else raw

/-- The pre-filter of the named-pipe test. -/
def mayBeNamedPipe (path : NimStr) : Bool :=
  decide (path.length ≥ 6) &&
    (path.head? == some 92 || path.head? == some 47 || path.head? == some 112 ||
      path.head? == some 80)

/-- Lower case, with one kind of separator. -/
def normalizedPathKey (path : NimStr) : NimStr :=
  path.map fun c => if c = 47 then 92 else if 65 ≤ c ∧ c ≤ 90 then c + 32 else c

def isNamedPipePath (path : NimStr) : Bool :=
  let n := normalizedPathKey path
  decide (path.length ≥ 6) &&
    (startsWith n (str "\\device\\namedpipe") || startsWith n (str "\\??\\pipe\\") ||
      match splitFirst 92 (n.drop 2) with
      | some (host, rest) =>
        startsWith n (str "\\\\") && host != [] && startsWith rest (str "pipe\\")
      | none => false)

/-- The suffix of a path from the colon on that no drive letter stands before. -/
def adsStreamOf (path : NimStr) : NimStr :=
  let i := if startsWith path (str "\\\\?\\") || startsWith path (str "\\\\.\\") then 4 else 0
  let i := if path[i + 1]? = some 58 then i + 2 else i
  (path.drop i).dropWhile (· != 58)

def emitIpcConnect (o : Origin) (dest : NimStr) (peerPid : UInt64) (family : UInt16)
    (callResult : Int64) (kind : NimStr) : List MonitorRecord :=
  if dest.length = 0 then []
  else
    [{ baseRecord o mrIpcConnect moIpcConnect with
      result := callResult
      flags := family.toUInt32
      childOsPid := peerPid
      path := dest
      detail := str "connect " ++ kind ++
        (if peerPid ≠ 0 then str " peer=" ++ decimal peerPid else str " peer=unknown") }]

def emitExternalContent (o : Origin) (chan role identity : NimStr) (producerPid : UInt64)
    (callResult : Int64) : List MonitorRecord :=
  if identity.length = 0 then []
  else
    [{ baseRecord o mrExternalContent moExternalContent with
      path := identity
      childOsPid := producerPid
      result := callResult
      detail := str "chan=" ++ chan ++ str " role=" ++ role }]

/-- `serverPid` is the process at the other end of a named pipe, zero if the system does not say. -/
def classifyOpenedPath (serverPid : Handle → UInt64) (o : Origin) (path : NimStr) (h : Handle)
    (desiredAccess : UInt32) (spelledPath : NimStr) : List MonitorRecord :=
  if path.length = 0 ∨ realHandle h = false then []
  else
    let asSpelled := if spelledPath.length > 0 then spelledPath else path
    if mayBeNamedPipe asSpelled && isNamedPipePath asSpelled then
      emitIpcConnect o path (serverPid h) 0 h.toInt64 (str "named-pipe")
    else if (adsStreamOf path).length > 0 then
      emitExternalContent o (str "ads")
        (if desiredAccess &&& GENERIC_WRITE ≠ 0 then str "write" else str "read") path 0 0
    else []

/-- **`snoopCreateFileW` and `snoopCreateFileA`** behind the real call. -/
def snoopCreateFile (serverPid : Handle → UInt64) (o : Origin) (arm : OpenArm) (t : HandleTables)
    (path : NimStr) (access disposition : UInt32) (h : Handle) :
    HandleTables × List MonitorRecord :=
  (if h ≠ INVALID_HANDLE_VALUE then rememberHandlePath t h path else t,
    { baseRecord o mrFileOpen (observationForCreateFile access disposition) with
      result := h.toInt64
      flags := access
      path := path
      detail := arm.name } :: classifyOpenedPath serverPid o path h access [])

/-- **`snoopNtCreateFile`** behind the real call; `made` is what `*FileHandle` holds. -/
def snoopNtCreateFile (serverPid : Handle → UInt64) (o : Origin) (t : HandleTables) (nt : NtOpen)
    (made : Option Handle) : HandleTables × List MonitorRecord :=
  let path := objectAttributesToString nt.objectName
  let writeAccess := nt.desiredAccess &&& (0x2 ||| 0x4 ||| GENERIC_WRITE) != 0
  let writeDisposition :=
    nt.createDisposition == 2 || nt.createDisposition == 3 || nt.createDisposition == 5
  let isWrite := writeAccess || writeDisposition
  if nt.desiredAccess &&& dataAccessBits = 0 then
    (t, [{ baseRecord o mrPathProbe moPathProbe with
      path := path, result := nt.status.toInt64, detail := str "NtCreateFile" }])
  else
    let record :=
      { baseRecord o (if isWrite then mrFileWrite else mrFileOpen)
          (if isWrite then moFileWrite else moFileOpen) with
        path := path, result := nt.status.toInt64, detail := str "NtCreateFile" }
    match made with
    | none => (t, [record])
    | some h =>
      if path.length > 0 ∧ 0 ≤ nt.status ∧ realHandle h = true then
        (rememberHandlePath t h path, record :: classifyOpenedPath serverPid o path h
          nt.desiredAccess (if mayBeNamedPipe path then nt.objectName else []))
      else (t, [record])

/-- The `NtCreateFile` within a real `CreateFile`, if it goes there. -/
def loweredOpen (serverPid : Handle → UInt64) (o : Origin) (t : HandleTables)
    (lowered : Option NtOpen) (made : Option Handle) : HandleTables × List MonitorRecord :=
  match lowered with
  | none => (t, [])
  | some nt => snoopNtCreateFile serverPid o t nt made

/-! ## 4. Reads -/

/-- How a read ends: with so many bytes, later, or not at all. -/
inductive ReadStatus
  | completed (bytes : Int64)
  | pending
  | failed
  deriving DecidableEq, Repr

def ReadStatus.isCompleted : ReadStatus → Bool
  | completed _ => true
  | _ => false

/-- A read that transfers data, now or when it completes. -/
def ReadStatus.transfers : ReadStatus → Bool
  | failed => false
  | _ => true

/-- The byte count a hook reports; `counted` says that the caller passed a place for it. -/
def bytesRead (status : ReadStatus) (counted : Bool) : Int64 :=
  match status with
  | .completed bytes => if counted then bytes else -1
  | _ => -1

/-- The content channel of a handle the shim has no path of. -/
def opaquePipeRead (o : Origin) (object : Option KernelObject) : List MonitorRecord :=
  match object.map KernelObject.kind with
  | some (.pipe identity producer) =>
    emitExternalContent o (str "opaque") (str "read") identity producer 0
  | _ => []

def readRecord (o : Origin) (path : NimStr) (bytes : Int64) (detail : NimStr) : MonitorRecord :=
  { baseRecord o mrFileRead moFileRead with path := path, result := bytes, detail := detail }

/-- **`emitReadObservation`**: the body behind both read hooks. -/
def emitReadObservation (o : Origin) (w : HandleWorld) (hFile : Handle) (callOk : Bool)
    (bytes : Int64) (detail : NimStr) : HandleWorld × List MonitorRecord :=
  let path := pathForHandle w.tables hFile
  if callOk = true ∧ path.length = 0 then
    let mark := markHandleChannelClassified w.tables hFile
    ({ w with tables := mark.1 },
      (if mark.2 then [] else opaquePipeRead o (w.objects hFile)) ++
        [readRecord o path bytes detail])
  else (w, [readRecord o path bytes detail])

/-- **`snoopNtReadFile`** behind the real call: silent below a `ReadFile`. -/
def snoopNtReadFile (o : Origin) (w : HandleWorld) (hFile : Handle) (status : ReadStatus)
    (counted : Bool) : HandleWorld × List MonitorRecord :=
  if w.win32ReadDepth > 0 then (w, [])
  else
    emitReadObservation o w hFile status.isCompleted (bytesRead status counted) (str "NtReadFile")

/-- **`snoopReadFile`**, around a real call that goes through `NtReadFile` or does not. -/
def snoopReadFile (o : Origin) (w : HandleWorld) (hFile : Handle) (status : ReadStatus)
    (counted lowered : Bool) : HandleWorld × List MonitorRecord :=
  let raised := { w with win32ReadDepth := w.win32ReadDepth + 1 }
  let inner := if lowered then snoopNtReadFile o raised hFile status counted else (raised, [])
  let back := { inner.1 with win32ReadDepth := inner.1.win32ReadDepth - 1 }
  let outer :=
    emitReadObservation o back hFile status.isCompleted (bytesRead status counted) (str "ReadFile")
  (outer.1, inner.2 ++ outer.2)

/-! ## 5. Sections and views -/

def FILE_MAP_COPY : UInt32 := 0x1
def FILE_MAP_WRITE : UInt32 := 0x2
def FILE_MAP_READ : UInt32 := 0x4
def FILE_MAP_ALL_ACCESS : UInt32 := 0x000F001F

/-- What `CreateFileMapping` comes back with: a section over the file, or one that existed under
the name, over a file of its own. -/
inductive MappingOutcome
  | failed
  | created (h : Handle)
  | joined (h : Handle) (file : Option NimStr)
  deriving DecidableEq, Repr

/-- The handle that is returned, nil if there is none. -/
def MappingOutcome.handle : MappingOutcome → Handle
  | failed => 0
  | created h => h
  | joined h _ => h

def MappingOutcome.existed : MappingOutcome → Bool
  | joined _ _ => true
  | _ => false

def recordFileMappingCreate (o : Origin) (t : HandleTables) (hFile h : Handle) (name : NimStr)
    (alreadyExisted : Bool) : HandleTables × List MonitorRecord :=
  if realHandle h = false then (t, [])
  else
    (if realHandle hFile ∧ (pathForHandle t hFile).length > 0 then
        rememberMappingPath t h (pathForHandle t hFile)
      else t,
      if name.length > 0 then
        emitExternalContent o (str "shm") (if alreadyExisted then str "attach" else str "create")
          name 0 h.toInt64
      else [])

def recordFileMappingOpen (o : Origin) (h : Handle) (name : NimStr) : List MonitorRecord :=
  if realHandle h = false ∨ name.length = 0 then []
  else emitExternalContent o (str "shm") (str "attach") name 0 h.toInt64

/-- **`recordMappedView`**; `view` says that the call returned one. -/
def recordMappedView (o : Origin) (t : HandleTables) (hMap : Handle) (access : UInt32)
    (view : Bool) (detail : NimStr) : List MonitorRecord :=
  let p := pathForMapping t hMap
  if view = false ∨ p.length = 0 then []
  else
    (if access &&& (FILE_MAP_READ ||| FILE_MAP_COPY ||| FILE_MAP_ALL_ACCESS) ≠ 0 then
      [{ baseRecord o mrFileRead moFileRead with
        path := p, flags := access, detail := detail ++ str ":read" }]
    else []) ++
    (if access &&& FILE_MAP_WRITE ≠ 0 then
      [{ baseRecord o mrFileWrite moFileWrite with
        path := p, flags := access, detail := detail ++ str ":write" }]
    else [])

/-! ## 6. Listings -/

def enumMark : NimStr := str "[enum]:"

/-- Where a listing call comes in: at one of the two exports, or through the pointer that
`GetProcAddress` returned. -/
inductive ListingEntry
  | ntQueryDirectoryFileEx
  | ntQueryDirectoryFile
  | lookedUp
  deriving DecidableEq, Repr

def ListingEntry.name : ListingEntry → NimStr
  | ntQueryDirectoryFileEx => str "NtQueryDirectoryFileEx"
  | _ => str "NtQueryDirectoryFile"

def listingRecord (o : Origin) (dirPath : NimStr) (nt : Int32) (detail : NimStr) :
    List MonitorRecord :=
  if dirPath.length > 0 then
    [{ baseRecord o mrDirectoryEnumerate moDirectoryEnumerate with
      path := dirPath, result := nt.toInt64, detail := detail }]
  else []

/-- **`snoopNtQueryDirectoryFileEx` and `snoopNtQueryDirectoryFile`** behind the real call: the
first call for a handle is recorded, and each one that restarts the scan. -/
def snoopNtQueryDirectory (o : Origin) (t : HandleTables) (h : Handle) (restartScan : Bool)
    (nt : Int32) (detail : NimStr) : HandleTables × List MonitorRecord :=
  match t.handlePaths h with
  | none => (t, [])
  | some dirPath =>
    if startsWith dirPath enumMark = false then
      ({ t with handlePaths := Function.update t.handlePaths h (some (enumMark ++ dirPath)) },
        listingRecord o dirPath nt detail)
    else if restartScan then (t, listingRecord o (dirPath.drop enumMark.length) nt detail)
    else (t, [])

/-- **`shimNtQueryDirectoryFile`**: a call through the looked-up pointer. -/
def shimNtQueryDirectoryFile (o : Origin) (t : HandleTables) (h : Handle) (restartScan : Bool)
    (nt : Int32) : List MonitorRecord :=
  if restartScan then listingRecord o ((t.handlePaths h).getD []) nt (str "NtQueryDirectoryFile")
  else []

/-! ## 7. Calls -/

/-- One call of the monitored process, with what the system makes of it. -/
inductive HandleOp
  | createFile (arm : OpenArm) (path : NimStr) (access disposition : UInt32)
      (lowered : Option NtOpen) (made : Option (Handle × ObjectKind))
  | ntCreateFile (nt : NtOpen) (made : Option (Handle × ObjectKind))
  | readFile (h : Handle) (status : ReadStatus) (counted lowered : Bool)
  | ntReadFile (h : Handle) (status : ReadStatus) (counted : Bool)
  | createFileMapping (hFile : Handle) (name : NimStr) (outcome : MappingOutcome)
  | openFileMapping (name : NimStr) (made : Option (Handle × Option NimStr))
  | mapViewOfFile (hMap : Handle) (access : UInt32) (view : Bool) (detail : NimStr)
  | queryDirectory (entry : ListingEntry) (h : Handle) (restartScan : Bool) (nt : Int32)
  | closeHandle (h : Handle) (ok : Bool)
  deriving DecidableEq, Repr

/-- `snoopCloseHandle`: everything about the handle is forgotten, before the real call. -/
def snoopCloseHandle (t : HandleTables) (h : Handle) : HandleTables :=
  forgetHandleChannelClass (forgetMappingPath (forgetHandlePath t h) h) h

/-- The section handle that a mapping call makes. -/
def HandleWorld.mapped (w : HandleWorld) (hFile : Handle) : MappingOutcome → HandleWorld
  | .failed => w
  | .created h =>
    { w with
      objects := Function.update w.objects h (some (w.sectionOver hFile)) }
  | .joined h file =>
    { w with
      objects := Function.update w.objects h
        (some ⟨.mapping, file,
          decide (file = (w.sectionOver hFile).path) && (w.sectionOver hFile).followed, false⟩) }

/-- The entries of a handle were asked for; `hooked` says that a registered hook saw it. -/
def KernelObject.scan (object : KernelObject) (hooked : Bool) : KernelObject :=
  { object with
    scanned := true
    followed := object.followed && !(hooked && decide (object.kind = .diskFile)) }

def HandleWorld.scan (w : HandleWorld) (h : Handle) (hooked : Bool) : HandleWorld :=
  { w with
    objects := Function.update w.objects h ((w.objects h).map fun object => object.scan hooked) }

/-- **One call**, with every hook that runs in it; `snoops` says whether the hooks of the
listing exports are registered, which the shim leaves out.  They stand at the imports then: a detour
of the export itself, which a call through the looked-up pointer would run into too, is not part of
the model. -/
def handleStep (snoops : Bool) (serverPid : Handle → UInt64) (o : Origin)
    (w : HandleWorld) : HandleOp → HandleWorld × List MonitorRecord
  | .createFile arm path access disposition lowered made =>
    let w := w.opened made path true
    let inner := loweredOpen serverPid o w.tables lowered (made.map (·.1))
    let outer := snoopCreateFile serverPid o arm inner.1 path access disposition
      ((made.map (·.1)).getD INVALID_HANDLE_VALUE)
    ({ w with tables := outer.1 }, inner.2 ++ outer.2)
  | .ntCreateFile nt made =>
    let w := w.opened made (objectAttributesToString nt.objectName)
      (nt.desiredAccess &&& dataAccessBits != 0)
    let snooped := snoopNtCreateFile serverPid o w.tables nt (made.map (·.1))
    ({ w with tables := snooped.1 }, snooped.2)
  | .readFile h status counted lowered => snoopReadFile o w h status counted lowered
  | .ntReadFile h status counted => snoopNtReadFile o w h status counted
  | .createFileMapping hFile name outcome =>
    let snooped :=
      recordFileMappingCreate o w.tables hFile outcome.handle name outcome.existed
    ({ w.mapped hFile outcome with tables := snooped.1 }, snooped.2)
  | .openFileMapping name made =>
    ({ w with
        objects := (made.map fun m =>
          Function.update w.objects m.1 (some ⟨.mapping, m.2, false, false⟩)).getD w.objects },
      recordFileMappingOpen o ((made.map (·.1)).getD 0) name)
  | .mapViewOfFile hMap access view detail =>
    (w, recordMappedView o w.tables hMap access view detail)
  | .queryDirectory .lookedUp h restartScan nt =>
    (w.scan h false, shimNtQueryDirectoryFile o w.tables h restartScan nt)
  | .queryDirectory entry h restartScan nt =>
    if snoops then
      let snooped := snoopNtQueryDirectory o w.tables h restartScan nt entry.name
      ({ w.scan h true with tables := snooped.1 }, snooped.2)
    else (w.scan h false, [])
  | .closeHandle h ok =>
    ({ w with
        tables := snoopCloseHandle w.tables h
        objects := Function.update w.objects h
          (if ok then none
            else (w.objects h).map fun object => { object with followed := false }) }, [])

/-! ## 8. Runs -/

/-- A handle value the system can hand out. -/
def HandleWorld.Free (w : HandleWorld) (h : Handle) : Prop :=
  realHandle h = true ∧ w.objects h = none

/-- A pipe this process did not open. -/
def HandleWorld.ForeignPipe (w : HandleWorld) (h : Handle) (identity : NimStr) : Prop :=
  ∃ object producer, w.objects h = some object ∧ object.kind = .pipe identity producer ∧
    object.path = none

/-- A handle of this kind that a hooked open created under this path. -/
def HandleWorld.OpenedUnder (w : HandleWorld) (h : Handle) (kind : ObjectKind) (p : NimStr)
    (followed : Bool) : Prop :=
  ∃ scanned, w.objects h = some ⟨kind, some p, followed, scanned⟩

/-- **What the system can make of a call**: it hands out free handles only, to what was asked for,
completes reads on open handles only, and closes what is open. -/
def HandleOp.Possible (w : HandleWorld) : HandleOp → Prop
  | .createFile _ path _ _ _ made =>
    path ≠ [] ∧ ∀ m, made = some m → w.Free m.1 ∧ m.2 ≠ .mapping
  | .ntCreateFile nt made =>
    objectAttributesToString nt.objectName ≠ [] ∧
      ∀ m, made = some m → w.Free m.1 ∧ m.2 ≠ .mapping ∧ 0 ≤ nt.status
  | .readFile h status _ _ => status.isCompleted = true → (w.objects h).isSome = true
  | .ntReadFile h status _ => status.isCompleted = true → (w.objects h).isSome = true
  | .createFileMapping _ _ (.created h) => w.Free h
  | .createFileMapping _ _ (.joined h file) => w.Free h ∧ file ≠ some []
  | .openFileMapping _ made => ∀ m, made = some m → w.Free m.1 ∧ m.2 ≠ some []
  | .closeHandle h ok => ok = true → (w.objects h).isSome = true
  | _ => True

/-- The part of it that is about a read. -/
def TrackableRead (w : HandleWorld) (h : Handle) (status : ReadStatus) : Prop :=
  (status.transfers = true → ∀ p followed, w.OpenedUnder h .diskFile p followed →
    followed = true) ∧
  (status = .pending → ∀ identity, w.ForeignPipe h identity → w.tables.channelClassified h = true)

/-- **What the tables can follow**: data is read and viewed through handles that are followed, a
read of a pipe from elsewhere that is left pending is not the first one, and a view is asked for
reading, copying or writing. -/
def HandleOp.Trackable (w : HandleWorld) : HandleOp → Prop
  | .readFile h status _ _ => TrackableRead w h status
  | .ntReadFile h status _ => TrackableRead w h status
  | .mapViewOfFile hMap access view _ => view = true → ∀ p followed,
    w.OpenedUnder hMap .mapping p followed → followed = true ∧
      access &&& (FILE_MAP_READ ||| FILE_MAP_COPY ||| FILE_MAP_ALL_ACCESS) ≠ 0
  | _ => True

/-- The record of a read from a channel with this identity. -/
def IsOpaqueRead (identity : NimStr) (record : MonitorRecord) : Prop :=
  record.kind = mrExternalContent ∧ record.path = identity ∧
    record.detail = str "chan=opaque role=read"

/-- **An attributed read**: of a file, exactly one read record, with the path of the open that
created the handle; of a pipe from elsewhere, a record of the channel, now or before. -/
def AttributedRead (w : HandleWorld) (history out : List MonitorRecord) (h : Handle) : Prop :=
  (∀ p followed, w.OpenedUnder h .diskFile p followed →
    (out.filter fun record => record.kind = mrFileRead).map (·.path) = [p]) ∧
  ∀ identity, w.ForeignPipe h identity → identity ≠ [] →
    ∃ record ∈ history ++ out, IsOpaqueRead identity record

/-- **A call whose content is attributed.**  Every view of a section over a file has a read or
write record with the path of that file's open. -/
def Attributed (w : HandleWorld) (history out : List MonitorRecord) : HandleOp → Prop
  | .readFile h status _ _ => status.transfers = true → AttributedRead w history out h
  | .ntReadFile h status _ => status.transfers = true → AttributedRead w history out h
  | .mapViewOfFile hMap _ view _ => view = true →
    ∀ p followed, w.OpenedUnder hMap .mapping p followed →
      ∃ record ∈ out, (record.kind = mrFileRead ∨ record.kind = mrFileWrite) ∧ record.path = p
  | _ => True

/-- A process as it starts: with handles it inherited, and nothing known of them. -/
structure HandleWorld.Initial (w : HandleWorld) : Prop where
  tables : w.tables = emptyHandleTables
  depth : w.win32ReadDepth = 0
  inherited : ∀ h object, w.objects h = some object → realHandle h = true ∧ object.path = none

/-- The runs, with the records they made. -/
inductive HandleRun (snoops : Bool) (serverPid : Handle → UInt64) (o : Origin) :
    HandleWorld → List MonitorRecord → Prop
  | start {w : HandleWorld} (hinit : w.Initial) : HandleRun snoops serverPid o w []
  | call {w : HandleWorld} {history : List MonitorRecord} {op : HandleOp}
      (hrun : HandleRun snoops serverPid o w history) (hpossible : op.Possible w) :
      HandleRun snoops serverPid o (handleStep snoops serverPid o w op).1
        (history ++ (handleStep snoops serverPid o w op).2)

/-! ## 9. The invariant -/

/-- **What the tables hold for an open handle.**  The path of a followed file or directory, with the
mark of a listing in front of it once the entries were asked for; the path behind a followed
section; nothing for a pipe from elsewhere, whose channel is recorded once it is marked. -/
structure ObjectFits (snoops : Bool) (history : List MonitorRecord) (object : KernelObject)
    (path mapping : Option NimStr) (classified : Bool) : Prop where
  named : object.path ≠ some []
  file : ∀ p, object.path = some p → object.followed = true → object.kind = .diskFile →
    path = some p
  directory : ∀ p, object.path = some p → object.followed = true → object.kind = .directory →
    path = some p ∨
      (snoops = true ∧ object.scanned = true ∧ path = some (enumMark ++ p))
  behind : ∀ p, object.path = some p → object.followed = true → object.kind = .mapping →
    mapping = some p
  foreign : ∀ identity producer, object.path = none → object.kind = .pipe identity producer →
    path = none ∧ (classified = true → identity ≠ [] →
      ∃ record ∈ history, IsOpaqueRead identity record)

/-- **The invariant at one handle**: nothing is known of a closed one. -/
def RowFits (snoops : Bool) (history : List MonitorRecord) (w : HandleWorld) (h : Handle) : Prop :=
  match w.objects h with
  | none =>
    w.tables.handlePaths h = none ∧ w.tables.mappingPaths h = none ∧
      w.tables.channelClassified h = false
  | some object =>
    ObjectFits snoops history object (w.tables.handlePaths h) (w.tables.mappingPaths h)
      (w.tables.channelClassified h)

structure Tracked (snoops : Bool) (history : List MonitorRecord) (w : HandleWorld) : Prop where
  rows : ∀ h, RowFits snoops history w h
  real : ∀ h object, w.objects h = some object → realHandle h = true
  depth : w.win32ReadDepth = 0

/-- Two worlds agree about a handle. -/
structure SameRow (w w' : HandleWorld) (h : Handle) : Prop where
  object : w'.objects h = w.objects h
  path : w'.tables.handlePaths h = w.tables.handlePaths h
  mapping : w'.tables.mappingPaths h = w.tables.mappingPaths h
  classified : w'.tables.channelClassified h = w.tables.channelClassified h

section Rows

variable {snoops : Bool} {history history' : List MonitorRecord} {w : HandleWorld} {h : Handle}

theorem ObjectFits.mono (hsub : history ⊆ history') {object : KernelObject}
    {path mapping : Option NimStr} {classified : Bool}
    (h : ObjectFits snoops history object path mapping classified) :
    ObjectFits snoops history' object path mapping classified := by
  refine ⟨h.named, h.file, h.directory, h.behind, fun identity producer hnone hkind => ?_⟩
  obtain ⟨hpath, hrecord⟩ := h.foreign identity producer hnone hkind
  refine ⟨hpath, fun hclass hne => ?_⟩
  obtain ⟨record, hmem, hopaque⟩ := hrecord hclass hne
  exact ⟨record, hsub hmem, hopaque⟩

/-- Of a handle that is not followed, only that a pipe from elsewhere was recorded is required. -/
theorem ObjectFits.of_unfollowed {object : KernelObject} {path mapping : Option NimStr}
    {classified : Bool} (hunfollowed : object.followed = false)
    (hnamed : object.path ≠ some [])
    (hforeign : ∀ identity producer, object.path = none → object.kind = .pipe identity producer →
      path = none ∧ (classified = true → identity ≠ [] →
        ∃ record ∈ history, IsOpaqueRead identity record)) :
    ObjectFits snoops history object path mapping classified := by
  have habsurd : object.followed ≠ true := by
    rw [hunfollowed]
    decide
  exact ⟨hnamed, fun _ _ hfollowed => absurd hfollowed habsurd,
    fun _ _ hfollowed => absurd hfollowed habsurd, fun _ _ hfollowed => absurd hfollowed habsurd,
    hforeign⟩

theorem RowFits.of_open {object : KernelObject} (hobject : w.objects h = some object)
    (hfits : ObjectFits snoops history object (w.tables.handlePaths h) (w.tables.mappingPaths h)
      (w.tables.channelClassified h)) : RowFits snoops history w h := by
  rw [RowFits, hobject]
  exact hfits

theorem RowFits.fits {object : KernelObject} (hrow : RowFits snoops history w h)
    (hobject : w.objects h = some object) :
    ObjectFits snoops history object (w.tables.handlePaths h) (w.tables.mappingPaths h)
      (w.tables.channelClassified h) := by
  rw [RowFits, hobject] at hrow
  exact hrow

theorem RowFits.of_closed (hclosed : w.objects h = none) (hpath : w.tables.handlePaths h = none)
    (hmapping : w.tables.mappingPaths h = none)
    (hclass : w.tables.channelClassified h = false) : RowFits snoops history w h := by
  rw [RowFits, hclosed]
  exact ⟨hpath, hmapping, hclass⟩

theorem RowFits.closed (hrow : RowFits snoops history w h) (hclosed : w.objects h = none) :
    w.tables.handlePaths h = none ∧ w.tables.mappingPaths h = none ∧
      w.tables.channelClassified h = false := by
  rw [RowFits, hclosed] at hrow
  exact hrow

theorem RowFits.congr (hsub : history ⊆ history') {w' : HandleWorld} (hsame : SameRow w w' h)
    (hrow : RowFits snoops history w h) : RowFits snoops history' w' h := by
  cases hobject : w.objects h with
  | none =>
    obtain ⟨hpath, hmapping, hclass⟩ := hrow.closed hobject
    exact RowFits.of_closed (hsame.object.trans hobject) (hsame.path.trans hpath)
      (hsame.mapping.trans hmapping) (hsame.classified.trans hclass)
  | some object =>
    refine RowFits.of_open (hsame.object.trans hobject) ?_
    rw [hsame.path, hsame.mapping, hsame.classified]
    exact (hrow.fits hobject).mono hsub

/-- **One handle at a time**: a call that changes what is known of one handle keeps the invariant
if it does there. -/
theorem Tracked.update {w' : HandleWorld} (htracked : Tracked snoops history w)
    (hsub : history ⊆ history') {h : Handle} (hothers : ∀ h', h' ≠ h → SameRow w w' h')
    (hrow : RowFits snoops history' w' h)
    (hreal : ∀ object, w'.objects h = some object → realHandle h = true)
    (hdepth : w'.win32ReadDepth = w.win32ReadDepth) : Tracked snoops history' w' := by
  refine ⟨?_, ?_, hdepth.trans htracked.depth⟩
  · intro h'
    by_cases heq : h' = h
    · rw [heq]
      exact hrow
    · exact (htracked.rows h').congr hsub (hothers h' heq)
  · intro h' object hobject
    by_cases heq : h' = h
    · rw [heq] at hobject ⊢
      exact hreal object hobject
    · rw [(hothers h' heq).object] at hobject
      exact htracked.real h' object hobject

end Rows

/-! ## 10. What each call does to the tables -/

theorem rememberHandlePath_real {h : Handle} (hreal : realHandle h = true) {path : NimStr}
    (hpath : path ≠ []) (t : HandleTables) : rememberHandlePath t h path =
      { t with handlePaths := Function.update t.handlePaths h (some path) } := by
  rw [rememberHandlePath, if_neg]
  rintro (h0 | hnil)
  · exact absurd (hreal.symm.trans h0) (by decide)
  · exact hpath (List.eq_nil_of_length_eq_zero hnil)

theorem snoopNtCreateFile_tables (serverPid : Handle → UInt64) (o : Origin) (t : HandleTables)
    (nt : NtOpen) (made : Option Handle) :
    (snoopNtCreateFile serverPid o t nt made).1 = t ∨ ∃ h path, made = some h ∧
      realHandle h = true ∧ path ≠ [] ∧
      (snoopNtCreateFile serverPid o t nt made).1 = rememberHandlePath t h path := by
  unfold snoopNtCreateFile
  dsimp only
  split
  · exact Or.inl rfl
  · cases made with
    | none => exact Or.inl rfl
    | some h =>
      dsimp only
      split
      · rename_i hcond
        refine Or.inr ⟨h, _, rfl, hcond.2.2, ?_, rfl⟩
        exact List.length_pos_iff.mp hcond.1
      · exact Or.inl rfl

theorem loweredOpen_tables (serverPid : Handle → UInt64) (o : Origin) (t : HandleTables)
    (lowered : Option NtOpen) (made : Option Handle) :
    (loweredOpen serverPid o t lowered made).1 = t ∨ ∃ h path, made = some h ∧
      realHandle h = true ∧ path ≠ [] ∧
      (loweredOpen serverPid o t lowered made).1 = rememberHandlePath t h path := by
  cases lowered with
  | none => exact Or.inl rfl
  | some nt => exact snoopNtCreateFile_tables serverPid o t nt made

theorem snoopNtCreateFile_probe (serverPid : Handle → UInt64) (o : Origin) (t : HandleTables)
    {nt : NtOpen} (made : Option Handle) (haccess : nt.desiredAccess &&& dataAccessBits = 0) :
    (snoopNtCreateFile serverPid o t nt made).1 = t := by
  unfold snoopNtCreateFile
  dsimp only
  rw [if_pos haccess]

/-- An open at the NT layer that asks for data access is remembered. -/
theorem snoopNtCreateFile_remembers (serverPid : Handle → UInt64) (o : Origin) (t : HandleTables)
    {nt : NtOpen} {h : Handle} (haccess : nt.desiredAccess &&& dataAccessBits ≠ 0)
    (hpath : objectAttributesToString nt.objectName ≠ []) (hstatus : 0 ≤ nt.status)
    (hreal : realHandle h = true) : (snoopNtCreateFile serverPid o t nt (some h)).1 =
      rememberHandlePath t h (objectAttributesToString nt.objectName) := by
  unfold snoopNtCreateFile
  dsimp only
  rw [if_neg haccess, if_pos ⟨List.length_pos_iff.mpr hpath, hstatus, hreal⟩]

/-- **The two read layers.**  The `NtReadFile` within a `ReadFile` is silent, and the depth is back
where it was. -/
theorem snoopReadFile_eq (o : Origin) (w : HandleWorld) (hFile : Handle) (status : ReadStatus)
    (counted lowered : Bool) : snoopReadFile o w hFile status counted lowered =
      emitReadObservation o w hFile status.isCompleted (bytesRead status counted)
        (str "ReadFile") := by
  have hsilent : snoopNtReadFile o { w with win32ReadDepth := w.win32ReadDepth + 1 } hFile status
      counted = ({ w with win32ReadDepth := w.win32ReadDepth + 1 }, []) := by
    rw [snoopNtReadFile, if_pos (Nat.succ_pos _)]
  cases lowered with
  | false => rfl
  | true =>
    simp only [snoopReadFile, if_true, hsilent, Nat.add_sub_cancel, List.nil_append]

theorem snoopNtReadFile_outermost (o : Origin) {w : HandleWorld} (hdepth : w.win32ReadDepth = 0)
    (hFile : Handle) (status : ReadStatus) (counted : Bool) :
    snoopNtReadFile o w hFile status counted =
      emitReadObservation o w hFile status.isCompleted (bytesRead status counted)
        (str "NtReadFile") := by
  rw [snoopNtReadFile, hdepth, if_neg (Nat.lt_irrefl 0)]

/-- A pipe with an identity yields a record of its channel. -/
theorem opaquePipeRead_mem (o : Origin) {object : KernelObject} {identity : NimStr}
    {producer : UInt64} (hkind : object.kind = .pipe identity producer) (hne : identity ≠ []) :
    ∃ record ∈ opaquePipeRead o (some object), IsOpaqueRead identity record := by
  have hread : opaquePipeRead o (some object) =
      emitExternalContent o (str "opaque") (str "read") identity producer 0 := by
    rw [opaquePipeRead, Option.map_some, hkind]
  have hlength : ¬ identity.length = 0 := fun h0 => hne (List.eq_nil_of_length_eq_zero h0)
  rw [hread, emitExternalContent, if_neg hlength]
  exact ⟨_, List.mem_singleton_self _, rfl, rfl, rfl⟩

theorem pathForHandle_of_row {t : HandleTables} {h : Handle} {p : NimStr}
    (hreal : realHandle h = true) (hrow : t.handlePaths h = some p) : pathForHandle t h = p := by
  rw [pathForHandle, if_neg (by rw [hreal]; decide), hrow, Option.getD_some]

section Steps

variable {snoops : Bool} {serverPid : Handle → UInt64} {o : Origin}
  {history : List MonitorRecord} {w : HandleWorld}

/-- A new handle under the path of its open, whatever was remembered of it in between. -/
theorem Tracked.opens (htracked : Tracked snoops history w) {h : Handle} (hfree : w.Free h)
    {kind : ObjectKind} (hkind : kind ≠ .mapping) {path : NimStr} (hpath : path ≠ [])
    {followed : Bool} {t : HandleTables} (hat : followed = true → t.handlePaths h = some path)
    (hothers : ∀ h', h' ≠ h → t.handlePaths h' = w.tables.handlePaths h')
    (hmapping : t.mappingPaths = w.tables.mappingPaths)
    (hclass : t.channelClassified = w.tables.channelClassified) (out : List MonitorRecord) :
    Tracked snoops (history ++ out)
      { w.opened (some (h, kind)) path followed with tables := t } := by
  refine htracked.update (List.subset_append_left _ _) (h := h) ?_ ?_ (fun _ _ => hfree.1) rfl
  · intro h' hne
    exact ⟨Function.update_of_ne hne _ _, hothers h' hne, congrFun hmapping h',
      congrFun hclass h'⟩
  · have hobject : (w.opened (some (h, kind)) path followed).objects h =
        some ⟨kind, some path, followed, false⟩ := Function.update_self _ _ _
    refine RowFits.of_open hobject ⟨?_, ?_, ?_, ?_, ?_⟩
    · exact fun hnil => hpath (Option.some.inj hnil)
    · exact fun p hp hfollowed _ => (hat hfollowed).trans hp
    · exact fun p hp hfollowed _ => Or.inl ((hat hfollowed).trans hp)
    · exact fun p _ _ hk => absurd hk hkind
    · exact fun _ _ hnone _ => absurd hnone (Option.some_ne_none path)

/-- Nothing is known that was not known before. -/
theorem Tracked.records (htracked : Tracked snoops history w) (out : List MonitorRecord) :
    Tracked snoops (history ++ out) w :=
  htracked.update (List.subset_append_left _ _) (h := 0) (fun _ _ => ⟨rfl, rfl, rfl, rfl⟩)
    ((htracked.rows 0).congr (List.subset_append_left _ _) ⟨rfl, rfl, rfl, rfl⟩)
    (htracked.real 0) rfl

theorem Tracked.createFile (htracked : Tracked snoops history w) {arm : OpenArm} {path : NimStr}
    {access disposition : UInt32} {lowered : Option NtOpen}
    {made : Option (Handle × ObjectKind)}
    (hpossible : (HandleOp.createFile arm path access disposition lowered made).Possible w) :
    let after := handleStep snoops serverPid o w
      (.createFile arm path access disposition lowered made)
    Tracked snoops (history ++ after.2) after.1 := by
  obtain ⟨hpath, hmade⟩ := hpossible
  simp only [handleStep]
  have hinner := loweredOpen_tables serverPid o (w.opened made path true).tables lowered
    (made.map (·.1))
  generalize loweredOpen serverPid o (w.opened made path true).tables lowered
    (made.map (·.1)) = inner at hinner ⊢
  cases made with
  | none =>
    rcases hinner with hinner | ⟨h, _, hm, _⟩
    · rw [Option.map_none, Option.getD_none, snoopCreateFile, if_neg (not_not.mpr rfl), hinner]
      exact htracked.records _
    · exact absurd hm (Option.some_ne_none h).symm
  | some m =>
    obtain ⟨h, kind⟩ := m
    obtain ⟨hfree, hkind⟩ := hmade _ rfl
    have hreal : realHandle h = true := hfree.1
    have hne : h ≠ INVALID_HANDLE_VALUE := by
      intro heq
      rw [heq] at hreal
      exact absurd hreal (by decide)
    have htables : (snoopCreateFile serverPid o arm inner.1 path access disposition h).1 =
        { inner.1 with
          handlePaths := Function.update inner.1.handlePaths h (some path) } := by
      rw [snoopCreateFile, if_pos hne, rememberHandlePath_real hreal hpath]
    rw [Option.map_some, Option.getD_some, htables]
    -- what the lower layer remembered of the handle is overwritten
    refine htracked.opens hfree hkind hpath (fun _ => Function.update_self _ _ _) ?_ ?_ ?_ _
    · intro h' hne'
      refine (Function.update_of_ne hne' _ _).trans ?_
      rcases hinner with hinner | ⟨h₁, path₁, hm, hreal₁, hpath₁, hinner⟩
      · rw [hinner]
        rfl
      · obtain rfl : h = h₁ := Option.some.inj hm
        rw [hinner, rememberHandlePath_real hreal₁ hpath₁]
        exact Function.update_of_ne hne' _ _
    · rcases hinner with hinner | ⟨h₁, path₁, _, hreal₁, hpath₁, hinner⟩
      · rw [hinner]
        rfl
      · rw [hinner, rememberHandlePath_real hreal₁ hpath₁]
        rfl
    · rcases hinner with hinner | ⟨h₁, path₁, _, hreal₁, hpath₁, hinner⟩
      · rw [hinner]
        rfl
      · rw [hinner, rememberHandlePath_real hreal₁ hpath₁]
        rfl

theorem Tracked.ntCreateFile (htracked : Tracked snoops history w) {nt : NtOpen}
    {made : Option (Handle × ObjectKind)}
    (hpossible : (HandleOp.ntCreateFile nt made).Possible w) :
    let after := handleStep snoops serverPid o w (.ntCreateFile nt made)
    Tracked snoops (history ++ after.2) after.1 := by
  obtain ⟨hpath, hmade⟩ := hpossible
  simp only [handleStep]
  generalize hfollowed : (nt.desiredAccess &&& dataAccessBits != 0) = followed
  cases made with
  | none =>
    have htables : (snoopNtCreateFile serverPid o w.tables nt none).1 = w.tables := by
      rcases snoopNtCreateFile_tables serverPid o w.tables nt none with hsame | ⟨h, _, hm, _⟩
      · exact hsame
      · exact absurd hm (Option.some_ne_none h).symm
    simp only [HandleWorld.opened, Option.map_none, htables]
    exact htracked.records _
  | some m =>
    obtain ⟨h, kind⟩ := m
    obtain ⟨hfree, hkind, hstatus⟩ := hmade _ rfl
    -- a probe leaves the tables as they are, and the handle is not followed
    obtain ⟨t, ht, hat, hothers, hmapping, hclass⟩ : ∃ t : HandleTables,
        (snoopNtCreateFile serverPid o w.tables nt (some h)).1 = t ∧
        (followed = true →
          t.handlePaths h = some (objectAttributesToString nt.objectName)) ∧
        (∀ h', h' ≠ h → t.handlePaths h' = w.tables.handlePaths h') ∧
        t.mappingPaths = w.tables.mappingPaths ∧
        t.channelClassified = w.tables.channelClassified := by
      by_cases haccess : nt.desiredAccess &&& dataAccessBits = 0
      · rw [snoopNtCreateFile_probe serverPid o w.tables (some h) haccess]
        rw [haccess] at hfollowed
        exact ⟨_, rfl, fun hf => absurd (hfollowed.trans hf) (by decide), fun _ _ => rfl, rfl, rfl⟩
      · rw [snoopNtCreateFile_remembers serverPid o _ haccess hpath hstatus hfree.1,
          rememberHandlePath_real hfree.1 hpath]
        exact ⟨_, rfl, fun _ => Function.update_self _ _ _,
          fun h' hne => Function.update_of_ne hne _ _, rfl, rfl⟩
    have hsnooped : (snoopNtCreateFile serverPid o
        (w.opened (some (h, kind)) (objectAttributesToString nt.objectName) followed).tables nt
          (some h)).1 = t := ht
    rw [Option.map_some, hsnooped]
    exact htracked.opens hfree hkind hpath hat hothers hmapping hclass _

/-- **A completed read** marks a handle without a path, and if it is a pipe from elsewhere that was
not marked before, its channel is recorded. -/
theorem Tracked.reads (htracked : Tracked snoops history w) {h : Handle} {callOk : Bool}
    (hopen : callOk = true → (w.objects h).isSome = true) (bytes : Int64) (detail : NimStr) :
    let after := emitReadObservation o w h callOk bytes detail
    Tracked snoops (history ++ after.2) after.1 := by
  intro after
  by_cases hcond : callOk = true ∧ (pathForHandle w.tables h).length = 0
  · obtain ⟨object, hobject⟩ := Option.isSome_iff_exists.mp (hopen hcond.1)
    have hreal : realHandle h = true := htracked.real h object hobject
    have hmark : markHandleChannelClassified w.tables h =
        ({ w.tables with
            channelClassified := Function.update w.tables.channelClassified h true },
          w.tables.channelClassified h) := by
      rw [markHandleChannelClassified, if_neg (by rw [hreal]; decide)]
    have hafter : after = ({ w with
          tables := { w.tables with
            channelClassified := Function.update w.tables.channelClassified h true } },
        (if w.tables.channelClassified h then [] else opaquePipeRead o (w.objects h)) ++
          [readRecord o (pathForHandle w.tables h) bytes detail]) := by
      simp only [after, emitReadObservation, if_pos hcond, hmark]
    rw [hafter]
    refine htracked.update (List.subset_append_left _ _) (h := h) ?_ ?_ (fun _ _ => hreal) rfl
    · exact fun h' hne => ⟨rfl, rfl, rfl, Function.update_of_ne hne _ _⟩
    · have hrow := (htracked.rows h).fits hobject
      refine RowFits.of_open hobject ⟨hrow.named, hrow.file, hrow.directory, hrow.behind, ?_⟩
      intro identity producer hpath hkind
      obtain ⟨hnone, hrecord⟩ := hrow.foreign identity producer hpath hkind
      refine ⟨hnone, fun _ hne => ?_⟩
      by_cases hclass : w.tables.channelClassified h = true
      · obtain ⟨record, hmem, hopaque⟩ := hrecord hclass hne
        exact ⟨record, List.mem_append_left _ hmem, hopaque⟩
      · obtain ⟨record, hmem, hopaque⟩ := opaquePipeRead_mem o hkind hne
        refine ⟨record, List.mem_append_right _ (List.mem_append_left _ ?_), hopaque⟩
        rwa [if_neg hclass, hobject]
  · have hafter : after = (w, [readRecord o (pathForHandle w.tables h) bytes detail]) := by
      simp only [after, emitReadObservation, if_neg hcond]
    rw [hafter]
    exact htracked.records _

theorem Tracked.readFile (htracked : Tracked snoops history w) {h : Handle} {status : ReadStatus}
    {counted lowered : Bool}
    (hpossible : (HandleOp.readFile h status counted lowered).Possible w) :
    let after := handleStep snoops serverPid o w (.readFile h status counted lowered)
    Tracked snoops (history ++ after.2) after.1 := by
  simp only [handleStep, snoopReadFile_eq]
  exact htracked.reads hpossible _ _

theorem Tracked.ntReadFile (htracked : Tracked snoops history w) {h : Handle} {status : ReadStatus}
    {counted : Bool} (hpossible : (HandleOp.ntReadFile h status counted).Possible w) :
    let after := handleStep snoops serverPid o w (.ntReadFile h status counted)
    Tracked snoops (history ++ after.2) after.1 := by
  simp only [handleStep, snoopNtReadFile_outermost o htracked.depth]
  exact htracked.reads hpossible _ _

/-- A section over a followed file has the path that the tables hold for the file. -/
theorem Tracked.sectionOver (htracked : Tracked snoops history w) {hFile : Handle} {p : NimStr}
    (hpath : (w.sectionOver hFile).path = some p)
    (hfollowed : (w.sectionOver hFile).followed = true) :
    realHandle hFile = true ∧ w.tables.handlePaths hFile = some p ∧ p ≠ [] := by
  unfold HandleWorld.sectionOver at hpath hfollowed
  split at hpath
  · rename_i path followed scanned hobject
    rw [hobject] at hfollowed
    dsimp only at hpath hfollowed
    have hfits := (htracked.rows hFile).fits hobject
    refine ⟨htracked.real hFile _ hobject, hfits.file p hpath hfollowed rfl, fun hnil => ?_⟩
    exact hfits.named (by rw [hpath, hnil])
  · exact absurd hpath.symm (Option.some_ne_none p)

theorem HandleWorld.sectionOver_kind (w : HandleWorld) (hFile : Handle) :
    (w.sectionOver hFile).kind = .mapping := by
  unfold HandleWorld.sectionOver
  split <;> rfl

/-- The path of a section is one that a hooked open was given. -/
theorem Tracked.sectionOver_named (htracked : Tracked snoops history w) (hFile : Handle) :
    (w.sectionOver hFile).path ≠ some [] := by
  unfold HandleWorld.sectionOver
  split
  · rename_i path followed scanned hobject
    exact ((htracked.rows hFile).fits hobject).named
  · exact (Option.some_ne_none _).symm

/-- **A new section handle**: what is remembered of the file handle is what the section is over, if
the section is a followed one. -/
theorem Tracked.maps (htracked : Tracked snoops history w) {h hFile : Handle} (hfree : w.Free h)
    {object : KernelObject} (hkind : object.kind = .mapping) (hnamed : object.path ≠ some [])
    (hover : ∀ p, object.path = some p → object.followed = true →
      (w.sectionOver hFile).path = some p ∧ (w.sectionOver hFile).followed = true)
    (name : NimStr) (existed : Bool) :
    let snooped := recordFileMappingCreate o w.tables hFile h name existed
    Tracked snoops (history ++ snooped.2)
      { w with objects := Function.update w.objects h (some object), tables := snooped.1 } := by
  intro snooped
  -- only the row of the new handle, and there only the path behind it
  obtain ⟨mappings, htables, hothers, hbehind⟩ : ∃ mappings : Handle → Option NimStr,
      snooped.1 = { w.tables with mappingPaths := mappings } ∧
      (∀ h', h' ≠ h → mappings h' = w.tables.mappingPaths h') ∧
      ∀ p, realHandle hFile = true → w.tables.handlePaths hFile = some p → p ≠ [] →
        mappings h = some p := by
    have hsnooped : snooped.1 =
        if realHandle hFile ∧ (pathForHandle w.tables hFile).length > 0 then
          rememberMappingPath w.tables h (pathForHandle w.tables hFile)
        else w.tables := by
      simp only [snooped, recordFileMappingCreate, if_neg (show ¬ realHandle h = false by
        rw [hfree.1]; decide)]
    by_cases hcond : realHandle hFile = true ∧ (pathForHandle w.tables hFile).length > 0
    · have hne : ¬ (realHandle h = false ∨ (pathForHandle w.tables hFile).length = 0) := by
        rintro (hfalse | hzero)
        · exact absurd (hfree.1.symm.trans hfalse) (by decide)
        · exact absurd hcond.2 (by omega)
      refine ⟨Function.update w.tables.mappingPaths h (some (pathForHandle w.tables hFile)), ?_,
        fun h' hne' => Function.update_of_ne hne' _ _, fun p hreal hpath _ => ?_⟩
      · rw [hsnooped, if_pos hcond, rememberMappingPath, if_neg hne]
      · rw [Function.update_self, pathForHandle_of_row hreal hpath]
    · refine ⟨w.tables.mappingPaths, ?_, fun _ _ => rfl, fun p hreal hpath hne => ?_⟩
      · rw [hsnooped, if_neg hcond]
      · refine absurd ⟨hreal, ?_⟩ hcond
        rw [pathForHandle_of_row hreal hpath]
        exact List.length_pos_iff.mpr hne
  rw [htables]
  refine htracked.update (List.subset_append_left _ _) (h := h) ?_ ?_ (fun _ _ => hfree.1) rfl
  · exact fun h' hne => ⟨Function.update_of_ne hne _ _, rfl, hothers h' hne, rfl⟩
  · refine RowFits.of_open (Function.update_self _ _ _) ⟨hnamed, ?_, ?_, ?_, ?_⟩
    · exact fun _ _ _ hk => absurd (hkind.symm.trans hk) (by decide)
    · exact fun _ _ _ hk => absurd (hkind.symm.trans hk) (by decide)
    · intro p hpath hfollowed _
      obtain ⟨hsection, hsectionFollowed⟩ := hover p hpath hfollowed
      obtain ⟨hreal, hrow, hne⟩ := htracked.sectionOver hsection hsectionFollowed
      exact hbehind p hreal hrow hne
    · exact fun _ _ _ hk => ObjectKind.noConfusion (hkind.symm.trans hk)

theorem Tracked.createFileMapping (htracked : Tracked snoops history w) {hFile : Handle}
    {name : NimStr} {outcome : MappingOutcome}
    (hpossible : (HandleOp.createFileMapping hFile name outcome).Possible w) :
    let after := handleStep snoops serverPid o w (.createFileMapping hFile name outcome)
    Tracked snoops (history ++ after.2) after.1 := by
  cases outcome with
  | failed =>
    have hnil : recordFileMappingCreate o w.tables hFile 0 name false = (w.tables, []) := rfl
    simp only [handleStep, MappingOutcome.handle, MappingOutcome.existed, HandleWorld.mapped, hnil]
    exact htracked.records []
  | created h =>
    exact htracked.maps hpossible (w.sectionOver_kind hFile) (htracked.sectionOver_named hFile)
      (fun p hpath hfollowed => ⟨hpath, hfollowed⟩) name false
  | joined h file =>
    refine htracked.maps hpossible.1 rfl hpossible.2 (fun p hpath hfollowed => ?_) name true
    dsimp only at hpath hfollowed
    rw [Bool.and_eq_true, decide_eq_true_eq] at hfollowed
    exact ⟨hfollowed.1.symm.trans hpath, hfollowed.2⟩

theorem Tracked.openFileMapping (htracked : Tracked snoops history w) {name : NimStr}
    {made : Option (Handle × Option NimStr)}
    (hpossible : (HandleOp.openFileMapping name made).Possible w) :
    let after := handleStep snoops serverPid o w (.openFileMapping name made)
    Tracked snoops (history ++ after.2) after.1 := by
  cases made with
  | none => exact htracked.records _
  | some m =>
    obtain ⟨hfree, hnamed⟩ := hpossible m rfl
    refine htracked.update (List.subset_append_left _ _) (h := m.1) ?_ ?_ (fun _ _ => hfree.1) rfl
    · exact fun h' hne => ⟨Function.update_of_ne hne _ _, rfl, rfl, rfl⟩
    · refine RowFits.of_open (Function.update_self _ _ _)
        (ObjectFits.of_unfollowed rfl hnamed fun _ _ _ hk => ?_)
      exact ObjectKind.noConfusion hk

/-- The entries of a handle were asked for, and the path it is remembered under was marked by a
registered hook or left as it was. -/
theorem Tracked.scans (htracked : Tracked snoops history w) {h : Handle} (hooked : Bool)
    {paths : Handle → Option NimStr} (hothers : ∀ h', h' ≠ h → paths h' = w.tables.handlePaths h')
    (hat : paths h = w.tables.handlePaths h ∨ ∃ dirPath, snoops = true ∧ hooked = true ∧
      w.tables.handlePaths h = some dirPath ∧ startsWith dirPath enumMark = false ∧
      paths h = some (enumMark ++ dirPath)) (out : List MonitorRecord) :
    Tracked snoops (history ++ out)
      { w.scan h hooked with tables := { w.tables with handlePaths := paths } } := by
  have hscan : (w.scan h hooked).objects h = (w.objects h).map fun object => object.scan hooked :=
    Function.update_self _ _ _
  refine htracked.update (List.subset_append_left _ _) (h := h) ?_ ?_ ?_ rfl
  · exact fun h' hne => ⟨Function.update_of_ne hne _ _, hothers h' hne, rfl, rfl⟩
  · have hclosed : w.tables.handlePaths h = none → paths h = none := by
      intro hpath
      rcases hat with hsame | ⟨dirPath, _, _, hdir, _⟩
      · exact hsame.trans hpath
      · exact absurd (hdir.symm.trans hpath) (Option.some_ne_none dirPath)
    cases hobject : w.objects h with
    | none =>
      rw [hobject] at hscan
      obtain ⟨hpath, hmapping, hclass⟩ := (htracked.rows h).closed hobject
      exact RowFits.of_closed hscan (hclosed hpath) hmapping hclass
    | some object =>
      rw [hobject] at hscan
      have hfits := ((htracked.rows h).fits hobject).mono
        (List.subset_append_left history out)
      have hfollows : (object.scan hooked).followed = true → object.followed = true ∧
          (hooked && decide (object.kind = .diskFile)) = false := by
        intro hfollowed
        simp only [KernelObject.scan, Bool.and_eq_true_iff, Bool.not_eq_true'] at hfollowed
        exact hfollowed
      refine RowFits.of_open hscan ⟨hfits.named, ?_, ?_, ?_, ?_⟩
      · intro p hp hfollowed hk
        obtain ⟨hbefore, hnoFile⟩ := hfollows hfollowed
        rcases hat with hsame | ⟨_, _, rfl, _⟩
        · exact hsame.trans (hfits.file p hp hbefore hk)
        · rw [Bool.true_and] at hnoFile
          exact absurd hk (of_decide_eq_false hnoFile)
      · intro p hp hfollowed hk
        have hdirectory := hfits.directory p hp (hfollows hfollowed).1 hk
        rcases hat with hsame | ⟨dirPath, hsnoops, _, hdir, hunmarked, hmarked⟩
        · rcases hdirectory with hpath | ⟨hsnoops, _, hpath⟩
          · exact Or.inl (hsame.trans hpath)
          · exact Or.inr ⟨hsnoops, rfl, hsame.trans hpath⟩
        · rcases hdirectory with hpath | ⟨_, _, hpath⟩
          · obtain rfl : dirPath = p := Option.some.inj (hdir.symm.trans hpath)
            exact Or.inr ⟨hsnoops, rfl, hmarked⟩
          · obtain rfl : dirPath = enumMark ++ p := Option.some.inj (hdir.symm.trans hpath)
            rw [startsWith_append] at hunmarked
            exact absurd hunmarked (by decide)
      · exact fun p hp hfollowed hk => hfits.behind p hp (hfollows hfollowed).1 hk
      · intro identity producer hnone hk
        obtain ⟨hpath, hrecord⟩ := hfits.foreign identity producer hnone hk
        exact ⟨hclosed hpath, hrecord⟩
  · intro object hscanned
    obtain ⟨before, hbefore, _⟩ := Option.map_eq_some_iff.mp (hscan.symm.trans hscanned)
    exact htracked.real h before hbefore

theorem Tracked.queryDirectory (htracked : Tracked snoops history w) {entry : ListingEntry}
    {h : Handle} {restartScan : Bool} {nt : Int32} :
    let after := handleStep snoops serverPid o w (.queryDirectory entry h restartScan nt)
    Tracked snoops (history ++ after.2) after.1 := by
  have hquiet : ∀ hooked out, Tracked snoops (history ++ out) (w.scan h hooked) :=
    fun hooked => htracked.scans hooked (fun _ _ => rfl) (Or.inl rfl)
  have hhook : snoops = true → ∀ detail,
      Tracked snoops (history ++ (snoopNtQueryDirectory o w.tables h restartScan nt detail).2)
        { w.scan h true with
          tables := (snoopNtQueryDirectory o w.tables h restartScan nt detail).1 } := by
    intro hsnoops detail
    unfold snoopNtQueryDirectory
    split
    · exact hquiet true _
    · rename_i dirPath hdir
      split
      · rename_i hunmarked
        refine htracked.scans true (fun h' hne => Function.update_of_ne hne _ _) (Or.inr ?_) _
        exact ⟨dirPath, hsnoops, rfl, hdir, hunmarked, Function.update_self _ _ _⟩
      · split <;> exact hquiet true _
  cases entry with
  | lookedUp => exact hquiet false _
  | ntQueryDirectoryFile =>
    cases snoops with
    | false => exact hquiet false _
    | true => exact hhook rfl _
  | ntQueryDirectoryFileEx =>
    cases snoops with
    | false => exact hquiet false _
    | true => exact hhook rfl _

theorem snoopCloseHandle_real {h : Handle} (hreal : realHandle h = true) (t : HandleTables) :
    snoopCloseHandle t h =
      ⟨Function.update t.handlePaths h none, Function.update t.mappingPaths h none,
        Function.update t.channelClassified h false⟩ := by
  have hne : ¬ realHandle h = false := by
    rw [hreal]
    decide
  simp only [snoopCloseHandle, forgetHandlePath, forgetMappingPath, forgetHandleChannelClass,
    if_neg hne]

theorem snoopCloseHandle_unreal {h : Handle} (hreal : realHandle h = false) (t : HandleTables) :
    snoopCloseHandle t h = t := by
  simp only [snoopCloseHandle, forgetHandlePath, forgetMappingPath, forgetHandleChannelClass,
    if_pos hreal]

/-- **A close** empties the row.  Of a handle that stays open for it, nothing is followed. -/
theorem Tracked.closeHandle (htracked : Tracked snoops history w) (h : Handle) (ok : Bool) :
    let after := handleStep snoops serverPid o w (.closeHandle h ok)
    Tracked snoops (history ++ after.2) after.1 := by
  simp only [handleStep]
  have hafter : (Function.update w.objects h (if ok then none
      else (w.objects h).map fun object => { object with followed := false })) h =
      if ok then none else (w.objects h).map fun object => { object with followed := false } :=
    Function.update_self _ _ _
  have hopen : w.objects h = none ∨ realHandle h = true := by
    cases hobject : w.objects h with
    | none => exact Or.inl rfl
    | some object => exact Or.inr (htracked.real h object hobject)
  -- the row is empty behind the call, whether it was emptied or was empty before
  obtain ⟨hpath, hmapping, hclass⟩ : (snoopCloseHandle w.tables h).handlePaths h = none ∧
      (snoopCloseHandle w.tables h).mappingPaths h = none ∧
      (snoopCloseHandle w.tables h).channelClassified h = false := by
    cases hreal : realHandle h with
    | true =>
      rw [snoopCloseHandle_real hreal]
      exact ⟨Function.update_self _ _ _, Function.update_self _ _ _, Function.update_self _ _ _⟩
    | false =>
      rw [snoopCloseHandle_unreal hreal]
      refine (htracked.rows h).closed (hopen.resolve_right ?_)
      rw [hreal]
      decide
  refine htracked.update (List.subset_append_left _ _) (h := h) ?_ ?_ ?_ rfl
  · intro h' hne
    cases hreal : realHandle h with
    | true =>
      simp only [snoopCloseHandle_real hreal]
      exact ⟨Function.update_of_ne hne _ _, Function.update_of_ne hne _ _,
        Function.update_of_ne hne _ _, Function.update_of_ne hne _ _⟩
    | false =>
      simp only [snoopCloseHandle_unreal hreal]
      exact ⟨Function.update_of_ne hne _ _, rfl, rfl, rfl⟩
  · cases ok with
    | true => exact RowFits.of_closed hafter hpath hmapping hclass
    | false =>
      cases hobject : w.objects h with
      | none =>
        rw [hobject] at hafter
        exact RowFits.of_closed hafter hpath hmapping hclass
      | some object =>
        rw [hobject] at hafter
        have hfits := (htracked.rows h).fits hobject
        refine RowFits.of_open hafter
          (ObjectFits.of_unfollowed rfl hfits.named fun _ _ _ _ => ⟨hpath, fun hmarked => ?_⟩)
        exact absurd (hclass.symm.trans hmarked) (by decide)
  · intro object hobject
    refine hopen.resolve_left fun hnone => ?_
    have hclosed : (if ok then none
        else (w.objects h).map fun object => { object with followed := false }) = none := by
      rw [hnone, Option.map_none, ite_self]
    exact absurd (hobject.symm.trans (hafter.trans hclosed)) (Option.some_ne_none object)

/-- **One call keeps the invariant.** -/
theorem Tracked.step (htracked : Tracked snoops history w) {op : HandleOp}
    (hpossible : op.Possible w) :
    let after := handleStep snoops serverPid o w op
    Tracked snoops (history ++ after.2) after.1 := by
  cases op with
  | createFile => exact htracked.createFile hpossible
  | ntCreateFile => exact htracked.ntCreateFile hpossible
  | readFile => exact htracked.readFile hpossible
  | ntReadFile => exact htracked.ntReadFile hpossible
  | createFileMapping => exact htracked.createFileMapping hpossible
  | openFileMapping => exact htracked.openFileMapping hpossible
  | mapViewOfFile => exact htracked.records _
  | queryDirectory => exact htracked.queryDirectory
  | closeHandle h ok => exact htracked.closeHandle h ok

/-! ## 11. Reads and views -/

/-- A followed file's path is the one of its only read record, and a pipe from elsewhere is in the
records, by this read or by the one that marked it. -/
theorem Tracked.attributedRead (htracked : Tracked snoops history w) {h : Handle}
    {status : ReadStatus} (htrack : TrackableRead w h status) (htransfers : status.transfers = true)
    (bytes : Int64) (detail : NimStr) :
    AttributedRead w history (emitReadObservation o w h status.isCompleted bytes detail).2 h := by
  constructor
  · intro p followed hopened
    have hfollowed : followed = true := htrack.1 htransfers p followed hopened
    obtain ⟨scanned, hobject⟩ := hopened
    have hfits := (htracked.rows h).fits hobject
    have hpath : pathForHandle w.tables h = p :=
      pathForHandle_of_row (htracked.real h _ hobject) (hfits.file p rfl hfollowed rfl)
    have hknown : ¬ (status.isCompleted = true ∧ (pathForHandle w.tables h).length = 0) := by
      rintro ⟨_, hzero⟩
      rw [hpath] at hzero
      exact hfits.named (congrArg some (List.eq_nil_of_length_eq_zero hzero))
    rw [emitReadObservation, if_neg hknown, hpath]
    rfl
  · rintro identity hforeign hne
    have hpending := fun hstatus => htrack.2 hstatus identity hforeign
    obtain ⟨object, producer, hobject, hkind, hnone⟩ := hforeign
    have hfits := (htracked.rows h).fits hobject
    obtain ⟨hrow, hrecord⟩ := hfits.foreign identity producer hnone hkind
    have hreal : ¬ realHandle h = false := by
      rw [htracked.real h _ hobject]
      decide
    by_cases hclass : w.tables.channelClassified h = true
    · obtain ⟨record, hmem, hopaque⟩ := hrecord hclass hne
      exact ⟨record, List.mem_append_left _ hmem, hopaque⟩
    · -- not marked, so the read is not left pending, and it is the one that classifies
      have hcompleted : status.isCompleted = true := by
        cases status with
        | completed => rfl
        | pending => exact absurd (hpending rfl) hclass
        | failed => exact absurd htransfers (by decide)
      have hempty : (pathForHandle w.tables h).length = 0 := by
        rw [pathForHandle, if_neg hreal, hrow]
        rfl
      have hout : (emitReadObservation o w h status.isCompleted bytes detail).2 =
          opaquePipeRead o (some object) ++
            [readRecord o (pathForHandle w.tables h) bytes detail] := by
        simp only [emitReadObservation, if_pos (And.intro hcompleted hempty),
          markHandleChannelClassified, if_neg hreal, if_neg hclass, hobject]
      obtain ⟨record, hmem, hopaque⟩ := opaquePipeRead_mem o hkind hne
      refine ⟨record, List.mem_append_right _ ?_, hopaque⟩
      rw [hout]
      exact List.mem_append_left _ hmem

/-- A view of a followed section, asked for reading, copying or writing, has a read record. -/
theorem Tracked.attributedView (htracked : Tracked snoops history w) {hMap : Handle}
    {access : UInt32} {p : NimStr} (hopened : w.OpenedUnder hMap .mapping p true)
    (haccess : access &&& (FILE_MAP_READ ||| FILE_MAP_COPY ||| FILE_MAP_ALL_ACCESS) ≠ 0)
    (detail : NimStr) :
    ∃ record ∈ recordMappedView o w.tables hMap access true detail,
      (record.kind = mrFileRead ∨ record.kind = mrFileWrite) ∧ record.path = p := by
  obtain ⟨scanned, hobject⟩ := hopened
  have hfits := (htracked.rows hMap).fits hobject
  have hpath : pathForMapping w.tables hMap = p := by
    rw [pathForMapping, if_neg (by rw [htracked.real hMap _ hobject]; decide),
      hfits.behind p rfl rfl rfl, Option.getD_some]
  have hknown : ¬ ((true : Bool) = false ∨ p.length = 0) := by
    rintro (hfalse | hzero)
    · exact absurd hfalse (by decide)
    · exact hfits.named (congrArg some (List.eq_nil_of_length_eq_zero hzero))
  simp only [recordMappedView, hpath, if_neg hknown, if_pos haccess]
  exact ⟨_, List.mem_append_left _ (List.mem_singleton_self _), Or.inl rfl, rfl⟩

end Steps

/-! ## 12. Runs -/

theorem tracked_of_initial (snoops : Bool) {w : HandleWorld} (hinit : w.Initial) :
    Tracked snoops [] w := by
  have hempty : ∀ h, w.tables.handlePaths h = none ∧ w.tables.mappingPaths h = none ∧
      w.tables.channelClassified h = false := by
    rw [hinit.tables]
    exact fun _ => ⟨rfl, rfl, rfl⟩
  refine ⟨fun h => ?_, fun h object hobject => (hinit.inherited h object hobject).1, hinit.depth⟩
  obtain ⟨hpath, hmapping, hclass⟩ := hempty h
  cases hobject : w.objects h with
  | none => exact RowFits.of_closed hobject hpath hmapping hclass
  | some object =>
    have hnone : object.path = none := (hinit.inherited h object hobject).2
    have hnot : ∀ p, object.path ≠ some p := by
      intro p hp
      exact absurd (hnone.symm.trans hp).symm (Option.some_ne_none p)
    refine RowFits.of_open hobject ⟨hnot [], ?_, ?_, ?_, fun _ _ _ _ => ⟨hpath, fun hmarked => ?_⟩⟩
    · exact fun p hp => absurd hp (hnot p)
    · exact fun p hp => absurd hp (hnot p)
    · exact fun p hp => absurd hp (hnot p)
    · exact absurd (hclass.symm.trans hmarked) (by decide)

theorem tracked_of_run {snoops : Bool} {serverPid : Handle → UInt64} {o : Origin}
    {w : HandleWorld} {history : List MonitorRecord}
    (hrun : HandleRun snoops serverPid o w history) : Tracked snoops history w := by
  induction hrun with
  | start hinit => exact tracked_of_initial snoops hinit
  | call _ hpossible ih => exact ih.step hpossible

/-- **Every read is attributed, once and to the right file**, and every view and pipe read: in every
run, the calls that the tables can follow. -/
theorem attributed_of_run {snoops : Bool} {serverPid : Handle → UInt64} {o : Origin}
    {w : HandleWorld} {history : List MonitorRecord}
    (hrun : HandleRun snoops serverPid o w history) {op : HandleOp} (htrack : op.Trackable w) :
    Attributed w history (handleStep snoops serverPid o w op).2 op := by
  have htracked : Tracked snoops history w := tracked_of_run hrun
  cases op with
  | readFile h status counted lowered =>
    intro htransfers
    simp only [handleStep, snoopReadFile_eq]
    exact htracked.attributedRead htrack htransfers _ _
  | ntReadFile h status counted =>
    intro htransfers
    simp only [handleStep, snoopNtReadFile_outermost o htracked.depth]
    exact htracked.attributedRead htrack htransfers _ _
  | mapViewOfFile hMap access view detail =>
    rintro rfl p followed hopened
    obtain ⟨rfl, haccess⟩ := htrack rfl p followed hopened
    exact htracked.attributedView hopened haccess detail
  | createFile => exact trivial
  | ntCreateFile => exact trivial
  | createFileMapping => exact trivial
  | openFileMapping => exact trivial
  | queryDirectory => exact trivial
  | closeHandle => exact trivial

/-- A process without handles. -/
def bareHandles : HandleWorld := ⟨fun _ => none, emptyHandleTables, 0⟩

theorem bareHandles_initial : bareHandles.Initial :=
  ⟨rfl, rfl, fun _ _ hobject => nomatch hobject⟩

/-- A header is opened. -/
def openHeader : HandleOp :=
  .createFile .createFileW (str "C:\\inc\\a.h") GENERIC_READ 3 none (some (0x80, .diskFile))

theorem attributed_of_run_header :
    let w := (handleStep false (fun _ => 0) { osPid := 7 } bareHandles openHeader).1
    let read : HandleOp := .readFile 0x80 (.completed 5) true true
    ∃ history, Attributed w history (handleStep false (fun _ => 0) { osPid := 7 } w read).2 read ∧
      w.OpenedUnder 0x80 .diskFile (str "C:\\inc\\a.h") true := by
  intro w read
  have hopen : openHeader.Possible bareHandles := by
    refine ⟨by decide, fun m hm => ?_⟩
    obtain rfl : (0x80, ObjectKind.diskFile) = m := Option.some.inj hm
    exact ⟨⟨by decide, rfl⟩, by decide⟩
  have hobject : w.objects 0x80 = some ⟨.diskFile, some (str "C:\\inc\\a.h"), true, false⟩ := rfl
  refine ⟨_, attributed_of_run (.call (.start bareHandles_initial) hopen)
    ⟨fun _ p followed hopened => ?_, fun hstatus => nomatch hstatus⟩, false, hobject⟩
  obtain ⟨scanned, hopened⟩ := hopened
  injection hopened.symm.trans hobject with hsame
  injection hsame

/-- A process that inherited one end of a pipe. -/
def inheritedPipe : HandleWorld :=
  ⟨Function.update (fun _ => none) 4 (some ⟨.pipe (str "pipe:1:2") 1, none, false, false⟩),
    emptyHandleTables, 0⟩

/-- **A first read that is left pending** leaves no trace of the channel, and the reads behind it
need not come. -/
theorem pendingRead_unattributed :
    ¬ ∀ (serverPid : Handle → UInt64) (o : Origin) (w : HandleWorld)
      (history : List MonitorRecord), HandleRun false serverPid o w history →
      ∀ op : HandleOp, op.Possible w →
        Attributed w history (handleStep false serverPid o w op).2 op := by
  intro hall
  have hobject : inheritedPipe.objects 4 = some ⟨.pipe (str "pipe:1:2") 1, none, false, false⟩ :=
    rfl
  have hinit : inheritedPipe.Initial := by
    refine ⟨rfl, rfl, fun h object hopen => ?_⟩
    by_cases heq : h = 4
    · rw [heq, hobject] at hopen
      rw [heq, ← Option.some.inj hopen]
      exact ⟨by decide, rfl⟩
    · have hclosed : inheritedPipe.objects h = none := by
        simp only [inheritedPipe, Function.update_of_ne heq]
      exact absurd (hopen.symm.trans hclosed) (Option.some_ne_none object)
  have hread := hall (fun _ => 0) { osPid := 2 } inheritedPipe [] (.start hinit)
    (.ntReadFile 4 .pending true) (fun hcompleted => nomatch hcompleted) rfl
  obtain ⟨record, hmem, hkind, _⟩ := hread.2 (str "pipe:1:2") ⟨_, 1, hobject, rfl, rfl⟩ (by decide)
  have hout : (handleStep false (fun _ => 0) { osPid := 2 } inheritedPipe
      (.ntReadFile 4 .pending true)).2 = [readRecord { osPid := 2 } [] (-1) (str "NtReadFile")] :=
    rfl
  rw [List.nil_append, hout, List.mem_singleton] at hmem
  rw [hmem] at hkind
  exact absurd hkind (by decide)

end IoMon
