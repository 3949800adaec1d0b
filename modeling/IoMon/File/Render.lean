/-
# Inspecting a depfile

`render.nim` prints a depfile that was read: as text, one line a record, and as JSON.  The text
form prints the unsigned fields of a record as they are (`$record.osPid`); the JSON form first
converts each of them to a signed 64-bit integer (`%int(record.osPid)`), and that conversion
raises a range defect on a value of 2^63 or more.

The reader bounds only one of these fields: a sequence number is the record's position, and a
file is shorter than 2^63 bytes.  The process and thread ids are whatever the eight bytes say.

  * `recordJson_ok_iff` -- a record can be shown exactly when its four ids are below 2^63;
  * `recordJson_injective` -- and then the JSON value determines the record;
  * `depFile_inspectable_iff` -- the same for a whole accepted file, with its printed text.
-/
import IoMon.Lib.Json
import IoMon.File.RoundTrip

namespace IoMon

open ByteText ByteCodec JsonText JsonNode MonitorRecordKind MonitorObservationKind ProbeResult
  MonitorCompleteness MonitorBackendFamily MonitorCapability

/-! ## 1. The profile's diagnostics -/

inductive MonitorDiagnosticLevel
  | mdlInfo | mdlWarning | mdlError
  deriving DecidableEq, Repr

open MonitorDiagnosticLevel

structure MonitorDiagnostic where
  level : MonitorDiagnosticLevel
  message : NimStr
  deriving DecidableEq, Repr

/-- What `linuxPreloadMonitorProfile` says about itself, and about each capability that is
required and not supported. -/
def linuxPreloadDiagnostics (required : Finset MonitorCapability) : List MonitorDiagnostic :=
  [⟨mdlInfo, str ("selected Linux LD_PRELOAD/hooks backend; future native eBPF " ++
      "backend is unavailable in M14")⟩,
    ⟨mdlInfo, str ("Linux raw syscall coverage is stackable-backed; io-mon " ++
      "classifies common file/probe syscalls from libc, main-executable, " ++
      "startup non-system application-DSO, and late dlopen/dlmopen " ++
      "application-DSO raw syscall sites, plus tracked anonymous/private " ++
      "mmap/mprotect executable ranges with munmap/mremap lifecycle " ++
      "bookkeeping; libc-visible pread/readv/preadv/sendfile/" ++
      "copy_file_range/splice content movers record source reads and " ++
      "destination writes; libc-visible link/linkat and rename/renameat/" ++
      "renameat2 record hardlink source/alias and final rename destinations; " ++
      "libc-visible getenv/uname/sysconf are observed inputs, " ++
      "clock_gettime/gettimeofday/time are time-read evidence, and " ++
      "getrandom/getentropy/arc4random/arc4random_buf/arc4random_uniform are " ++
      "entropy evidence (deduped per process per source) left to caller " ++
      "invalidation policy; " ++
      "and io-mon fails closed for unsupported raw syscall numbers, " ++
      "untracked or partially tracked anonymous executable mprotect, " ++
      "partial-overlap mremap ownership escapes, or anonymous writable+" ++
      "executable mappings")⟩,
    ⟨mdlWarning, str ("Linux LD_PRELOAD completeness excludes adversarial residuals " ++
      "unless they are represented by event-loss at runtime: excluded-prefix " ++
      "startup DSOs, executable mappings outside the preload mmap lifecycle, " ++
      "direct raw zero-copy/mutation syscalls, pre-existing hardlink/inode " ++
      "aliases, direct raw/vDSO non-file determinism paths, and broader Linux " ++
      "non-file APIs beyond getenv/uname/sysconf/clock/gettimeofday/time/" ++
      "getrandom/getentropy/arc4random(_buf|_uniform). " ++
      "Consumers that require those " ++
      "threat models must request the corresponding capability and treat the " ++
      "gap as incomplete.")⟩] ++
  (capabilityList (required.filter (· ∉ LinuxPreloadSupportedCapabilities))).map fun c =>
    ⟨mdlError, str "required monitor capability is unsupported by " ++
      backendFamilyId mbfLinuxPreloadHooks ++ str ": " ++ capabilityId c⟩

/-- `parseCapabilityList`'s second result: the ids of a list this build cannot name, each once. -/
def collectUnnamable (unnamable : List NimStr) (value : NimStr) : List NimStr :=
  (splitAt 44 value).foldl (fun ids item =>
    if item.isEmpty ∨ (tryCapabilityFromId item).isSome ∨ item ∈ ids then ids
    else ids ++ [item]) unnamable

/-- The ids that the `supported` and `required` parts of a profile detail name in vain. -/
def collectUnnamablePart (unnamable : List NimStr) (part : NimStr) : List NimStr :=
  match splitFirst 61 part with
  | none => unnamable
  | some (key, value) =>
    if key = str "supported" ∨ key = str "required" then collectUnnamable unnamable value
    else unnamable

def unnamableIds (records : List MonitorRecord) : List NimStr :=
  (records.filter (·.kind == mrBackendProfile)).foldl
    (fun ids r => (splitAt 59 r.detail).foldl collectUnnamablePart ids) []

/-- The diagnostics `profileFromRecords` leaves in the profile: its own, then a malformed gap
record each, then an id that cannot be named each. -/
def profileDiagnostics (records : List MonitorRecord) (required : Finset MonitorCapability) :
    List MonitorDiagnostic :=
  linuxPreloadDiagnostics required ++
  (records.filter fun r =>
      r.kind == mrCapabilityGap && (parseGapDetail r.detail).isNone).map (fun r =>
    ⟨mdlWarning, str "malformed monitor capability gap record: " ++ r.detail⟩) ++
  (unnamableIds records).map fun id =>
    ⟨mdlWarning, str ("monitor capability id declared by the producer that this " ++
      "io-mon build cannot name: ") ++ id ++
      str (" — this capture was written by a " ++
      "newer io-mon; the id is reported rather than dropped, and is counted " ++
      "as UNSUPPORTED here, which under-claims the backend rather than " ++
      "over-claiming it")⟩

/-! ## 2. Names -/

def recordKindName (record : MonitorRecord) : NimStr :=
  match record.kind with
  | mrProcessStart => str "process-start"
  | mrProcessExec => str "process-exec"
  | mrProcessSpawn => str "process-spawn"
  | mrFileOpen => str "file-open"
  | mrFileRead => str "file-read"
  | mrPathProbe => str "path-probe"
  | mrFileWrite => str "file-write"
  | mrEventLoss => str "event-loss"
  | mrDirectoryEnumerate => str "directory-enumerate"
  | mrBackendProfile => str "backend-profile"
  | mrCapabilityGap => str "capability-gap"
  | mrIpcConnect => str "ipc-connect"
  | mrLibraryLoad => str "library-load"
  | mrEnvRead => str "env-read"
  | mrSysctlRead => str "sysctl-read"
  | mrNonDeterministic => str "non-deterministic"
  | mrTimeRead => str "time-read"
  | mrExternalContent => str "external-content"
  | mrPathMutation => str "path-mutation"

def observationKindName (record : MonitorRecord) : NimStr :=
  match record.observationKind with
  | moProcessStart => str "process-start"
  | moExecute => str "execute"
  | moFileOpen => str "file-open"
  | moFileRead => str "file-read"
  | moPathProbe => str "path-probe"
  | moFileWrite => str "file-write"
  | moEventLoss => str "event-loss"
  | moDirectoryEnumerate => str "directory-enumerate"
  | moBackendProfile => str "backend-profile"
  | moCapabilityGap => str "capability-gap"
  | moIpcConnect => str "ipc-connect"
  | moEnvRead => str "env-read"
  | moSysctlRead => str "sysctl-read"
  | moNonDeterministic => str "non-deterministic"
  | moTimeRead => str "time-read"
  | moExternalContent => str "external-content"
  | moPathMutation => str "path-mutation"

/-- `$record.probeResult`. -/
def probeResultText : ProbeResult → NimStr
  | prUnknown => str "prUnknown"
  | prAbsent => str "prAbsent"
  | prExistingFile => str "prExistingFile"
  | prExistingDirectory => str "prExistingDirectory"
  | prExistingOther => str "prExistingOther"

/-- `$dep.completeness`. -/
def completenessText : MonitorCompleteness → NimStr
  | mcComplete => str "mcComplete"
  | mcIncomplete => str "mcIncomplete"

/-- `$diagnostic.level`. -/
def diagnosticLevelText : MonitorDiagnosticLevel → NimStr
  | mdlInfo => str "mdlInfo"
  | mdlWarning => str "mdlWarning"
  | mdlError => str "mdlError"

/-! ## 3. JSON -/

/-- How a rendering can fail: with the defect of a checked conversion. -/
inductive RenderDefect
  | rangeDefect
  deriving DecidableEq, Repr

abbrev Render := Except RenderDefect

/-- `%int(value)` of an unsigned value of at most 64 bits. -/
def intNode (value : Nat) : Render JsonNode :=
  if value < 2 ^ 63 then .ok (JInt (Int64.ofNat value)) else .error .rangeDefect

def summaryJson (summary : MonitorSummary) : Render JsonNode := do
  let recordCount ← intNode summary.recordCount
  let processCount ← intNode summary.processCount
  let observationCount ← intNode summary.observationCount
  let eventLossCount ← intNode summary.eventLossCount
  return JObject [(str "recordCount", recordCount), (str "processCount", processCount),
    (str "observationCount", observationCount), (str "eventLossCount", eventLossCount)]

def capabilitySetJson (capabilities : Finset MonitorCapability) : JsonNode :=
  JArray ((capabilityList capabilities).map fun capability => JString (capabilityId capability))

def diagnosticJson (diagnostic : MonitorDiagnostic) : JsonNode :=
  JObject [(str "level", JString (diagnosticLevelText diagnostic.level)),
    (str "message", JString diagnostic.message)]

def capabilityGapJson (gap : MonitorCapabilityGap) : JsonNode :=
  JObject [(str "backendFamily", JString (backendFamilyId gap.backendFamily)),
    (str "capability", JString (capabilityId gap.capability)),
    (str "required", JBool gap.required),
    (str "inputChannel", JBool gap.inputChannel),
    (str "reason", JString gap.reason)]

def backendProfileJson (profile : MonitorBackendProfile) (diagnostics : List MonitorDiagnostic) :
    JsonNode :=
  JObject [(str "profileName", JString profile.profileName),
    (str "backendFamily", JString (backendFamilyId profile.backendFamily)),
    (str "supportedCapabilities", capabilitySetJson profile.supportedCapabilities),
    (str "requiredCapabilities", capabilitySetJson profile.requiredCapabilities),
    (str "evidenceComplete", JBool profile.evidenceComplete),
    (str "gaps", JArray (profile.gaps.map capabilityGapJson)),
    (str "diagnostics", JArray (diagnostics.map diagnosticJson))]

def recordJson (record : MonitorRecord) : Render JsonNode := do
  let seq ← intNode record.seq.toNat
  let osPid ← intNode record.osPid.toNat
  let parentOsPid ← intNode record.parentOsPid.toNat
  let threadId ← intNode record.threadId.toNat
  let childOsPid ← intNode record.childOsPid.toNat
  let flags ← intNode record.flags.toNat
  return JObject [(str "seq", seq),
    (str "recordKind", JString (recordKindName record)),
    (str "observationKind", JString (observationKindName record)),
    (str "osPid", osPid),
    (str "parentOsPid", parentOsPid),
    (str "threadId", threadId),
    (str "childOsPid", childOsPid),
    (str "result", JInt record.result),
    (str "flags", flags),
    (str "probeResult", JString (probeResultText record.probeResult)),
    (str "path", JString record.path),
    (str "detail", JString record.detail)]

/-- The root that `renderMonitorDepFileJson` builds.  The diagnostics are those the reader left in
the profile. -/
def depFileJson (dep : MonitorDepFile) : Render JsonNode := do
  let version ← intNode dep.version.toNat
  let summary ← summaryJson dep.summary
  let records ← dep.records.mapM recordJson
  return JObject [(str "format", JString (str "iomon")),
    (str "version", version),
    (str "producerVersion", JString dep.producerVersion),
    (str "backendFamily", JString (backendFamilyId dep.backendFamily)),
    (str "completeness", JString (completenessText dep.completeness)),
    (str "backendProfile", backendProfileJson dep.profile
      (profileDiagnostics dep.records InputEvidenceCapabilities)),
    (str "capabilityGaps", JArray (dep.capabilityGaps.map capabilityGapJson)),
    (str "summary", summary),
    (str "records", JArray records)]

def renderMonitorDepFileJson (dep : MonitorDepFile) : Render NimStr := do
  let root ← depFileJson dep
  return toUgly root

/-! ## 4. Text -/

def renderMonitorRecordText (record : MonitorRecord) : NimStr :=
  joinStr (str " ") ([str "#" ++ decimal record.seq, recordKindName record,
      str "pid=" ++ decimal record.osPid, str "tid=" ++ decimal record.threadId] ++
    (if record.childOsPid ≠ 0 then [str "child=" ++ decimal record.childOsPid] else []) ++
    (if record.path.length > 0 then [str "path=" ++ record.path] else []) ++
    (if record.probeResult ≠ prUnknown then [str "probe=" ++ probeResultText record.probeResult]
      else []) ++
    (if record.result ≠ 0 then [str "result=" ++ signedDecimal record.result.toInt] else []) ++
    (if record.detail.length > 0 then [str "detail=" ++ record.detail] else []))

/-- `$count` of one of the counters. -/
def countText (count : Nat) : NimStr := decimal (UInt64.ofNat count)

/-- The text form converts nothing, so there is no defect for it to raise. -/
def renderMonitorDepFileText (dep : MonitorDepFile) : Render NimStr :=
  return joinStr (str "\n") ([str "iomon version=" ++ decimal (UInt64.ofNat dep.version.toNat) ++
      str " records=" ++ countText dep.summary.recordCount ++
      str " completeness=" ++ completenessText dep.completeness] ++
    dep.records.map renderMonitorRecordText ++
    [str "summary records=" ++ countText dep.summary.recordCount ++
      str " processes=" ++ countText dep.summary.processCount ++
      str " observations=" ++ countText dep.summary.observationCount ++
      str " eventLoss=" ++ countText dep.summary.eventLossCount])

/-! ## 5. One record -/

/-- The numbers of a record, under the keys of the JSON form. -/
def recordNumbers (record : MonitorRecord) : List (NimStr × Int) :=
  [(str "seq", record.seq.toNat), (str "osPid", record.osPid.toNat),
    (str "parentOsPid", record.parentOsPid.toNat), (str "threadId", record.threadId.toNat),
    (str "childOsPid", record.childOsPid.toNat), (str "result", record.result.toInt),
    (str "flags", record.flags.toNat)]

/-- The numbers among the fields of a JSON object. -/
def jsonNumbers : JsonNode → List (NimStr × Int)
  | JObject fields => fields.filterMap fun f =>
    match f.2 with
    | JInt num => some (f.1, num.toInt)
    | _ => none
  | _ => []

/-- The ids the JSON form converts and the reader does not bound. -/
def SignedIds (record : MonitorRecord) : Prop :=
  record.osPid.toNat < 2 ^ 63 ∧ record.parentOsPid.toNat < 2 ^ 63 ∧
    record.threadId.toNat < 2 ^ 63 ∧ record.childOsPid.toNat < 2 ^ 63

instance (record : MonitorRecord) : Decidable (SignedIds record) := by
  unfold SignedIds; infer_instance

theorem intNode_of_lt {value : Nat} (h : value < 2 ^ 63) :
    intNode value = .ok (JInt (Int64.ofNat value)) := if_pos h

theorem intNode_ok_iff {value : Nat} {node : JsonNode} :
    intNode value = .ok node ↔ value < 2 ^ 63 ∧ node = JInt (Int64.ofNat value) := by
  unfold intNode
  split
  · rename_i h
    simp only [Except.ok.injEq, h, true_and]
    exact eq_comm
  · rename_i h
    simp only [reduceCtorEq, h, false_and]

theorem toInt_ofNat_of_lt {value : Nat} (h : value < 2 ^ 63) :
    (Int64.ofNat value).toInt = value := Int64.toInt_ofNat_of_lt h

/-- The record's object once its numbers have been converted. -/
def recordObject (record : MonitorRecord) : JsonNode :=
  JObject [(str "seq", JInt (Int64.ofNat record.seq.toNat)),
    (str "recordKind", JString (recordKindName record)),
    (str "observationKind", JString (observationKindName record)),
    (str "osPid", JInt (Int64.ofNat record.osPid.toNat)),
    (str "parentOsPid", JInt (Int64.ofNat record.parentOsPid.toNat)),
    (str "threadId", JInt (Int64.ofNat record.threadId.toNat)),
    (str "childOsPid", JInt (Int64.ofNat record.childOsPid.toNat)),
    (str "result", JInt record.result),
    (str "flags", JInt (Int64.ofNat record.flags.toNat)),
    (str "probeResult", JString (probeResultText record.probeResult)),
    (str "path", JString record.path),
    (str "detail", JString record.detail)]

/-- **What a record needs to be shown**: a sequence number and four ids below 2^63. -/
theorem recordJson_ok_iff {record : MonitorRecord} {node : JsonNode} :
    recordJson record = .ok node ↔
      record.seq.toNat < 2 ^ 63 ∧ SignedIds record ∧ node = recordObject record := by
  have hflags : record.flags.toNat < 2 ^ 63 := by
    have h := record.flags.toNat_lt
    omega
  simp only [recordJson, bind_eq_ok_iff, intNode_ok_iff]
  constructor
  · rintro ⟨_, ⟨hseq, rfl⟩, _, ⟨hpid, rfl⟩, _, ⟨hparent, rfl⟩, _, ⟨hthread, rfl⟩, _,
      ⟨hchild, rfl⟩, _, ⟨_, rfl⟩, hnode⟩
    exact ⟨hseq, ⟨hpid, hparent, hthread, hchild⟩, (Except.ok.inj hnode).symm⟩
  · rintro ⟨hseq, ⟨hpid, hparent, hthread, hchild⟩, rfl⟩
    exact ⟨_, ⟨hseq, rfl⟩, _, ⟨hpid, rfl⟩, _, ⟨hparent, rfl⟩, _, ⟨hthread, rfl⟩, _,
      ⟨hchild, rfl⟩, _, ⟨hflags, rfl⟩, rfl⟩

/-- **The numbers survive**: what a shown record holds under each key is the field's value. -/
theorem jsonNumbers_recordJson {record : MonitorRecord} {node : JsonNode}
    (h : recordJson record = .ok node) : jsonNumbers node = recordNumbers record := by
  obtain ⟨hseq, ⟨hpid, hparent, hthread, hchild⟩, rfl⟩ := recordJson_ok_iff.mp h
  have hflags : record.flags.toNat < 2 ^ 63 := by
    have h := record.flags.toNat_lt
    omega
  simp only [recordObject, jsonNumbers, recordNumbers, List.filterMap_cons, List.filterMap_nil,
    toInt_ofNat_of_lt hseq, toInt_ofNat_of_lt hpid, toInt_ofNat_of_lt hparent,
    toInt_ofNat_of_lt hthread, toInt_ofNat_of_lt hchild, toInt_ofNat_of_lt hflags]

/-! ## 6. The record from its JSON value -/

def MonitorRecordKind.all : List MonitorRecordKind :=
  [mrProcessStart, mrProcessExec, mrProcessSpawn, mrFileOpen, mrFileRead, mrPathProbe,
    mrFileWrite, mrEventLoss, mrDirectoryEnumerate, mrBackendProfile, mrCapabilityGap,
    mrIpcConnect, mrLibraryLoad, mrEnvRead, mrSysctlRead, mrNonDeterministic, mrTimeRead,
    mrExternalContent, mrPathMutation]

def MonitorObservationKind.all : List MonitorObservationKind :=
  [moProcessStart, moExecute, moFileOpen, moFileRead, moPathProbe, moFileWrite, moEventLoss,
    moDirectoryEnumerate, moBackendProfile, moCapabilityGap, moIpcConnect, moEnvRead,
    moSysctlRead, moNonDeterministic, moTimeRead, moExternalContent, moPathMutation]

def ProbeResult.all : List ProbeResult :=
  [prUnknown, prAbsent, prExistingFile, prExistingDirectory, prExistingOther]

/-- No two kinds share a name. -/
theorem names_nodup :
    (MonitorRecordKind.all.map fun k => recordKindName ⟨k, moProcessStart, 0, 0, 0, 0, 0, 0, 0,
        prUnknown, [], []⟩).Nodup ∧
      (MonitorObservationKind.all.map fun k => observationKindName ⟨mrProcessStart, k, 0, 0, 0,
        0, 0, 0, 0, prUnknown, [], []⟩).Nodup ∧
      (ProbeResult.all.map probeResultText).Nodup := by
  decide +kernel

theorem recordKindName_injective {r r' : MonitorRecord}
    (h : recordKindName r = recordKindName r') : r.kind = r'.kind := by
  have hall : ∀ k, k ∈ MonitorRecordKind.all := by
    intro k
    cases k <;> decide
  exact List.inj_on_of_nodup_map names_nodup.1 (hall r.kind) (hall r'.kind) h

theorem observationKindName_injective {r r' : MonitorRecord}
    (h : observationKindName r = observationKindName r') :
    r.observationKind = r'.observationKind := by
  have hall : ∀ k, k ∈ MonitorObservationKind.all := by
    intro k
    cases k <;> decide
  exact List.inj_on_of_nodup_map names_nodup.2.1 (hall r.observationKind)
    (hall r'.observationKind) h

theorem probeResultText_injective {p q : ProbeResult}
    (h : probeResultText p = probeResultText q) : p = q := by
  have hall : ∀ p, p ∈ ProbeResult.all := by
    intro p
    cases p <;> decide
  exact List.inj_on_of_nodup_map names_nodup.2.2 (hall p) (hall q) h

theorem toNat_eq_of_jInt {m n : Nat} (hm : m < 2 ^ 63) (hn : n < 2 ^ 63)
    (h : Int64.ofNat m = Int64.ofNat n) : m = n := by
  have hint := congrArg Int64.toInt h
  rw [toInt_ofNat_of_lt hm, toInt_ofNat_of_lt hn] at hint
  exact Int.ofNat.inj hint

/-- **The JSON value determines the record.** -/
theorem recordJson_injective {r r' : MonitorRecord} {node : JsonNode}
    (h : recordJson r = .ok node) (h' : recordJson r' = .ok node) : r = r' := by
  obtain ⟨hseq, ⟨hpid, hparent, hthread, hchild⟩, rfl⟩ := recordJson_ok_iff.mp h
  obtain ⟨hseq', ⟨hpid', hparent', hthread', hchild'⟩, heq⟩ := recordJson_ok_iff.mp h'
  have hflags : ∀ f : UInt32, f.toNat < 2 ^ 63 := by
    intro f
    have hf := f.toNat_lt
    omega
  simp only [recordObject, JObject.injEq, List.cons.injEq, Prod.mk.injEq, JInt.injEq,
    JString.injEq, true_and, and_true] at heq
  obtain ⟨eseq, ekind, eobs, epid, eparent, ethread, echild, eresult, eflags, eprobe, epath,
    edetail⟩ := heq
  have hkind := recordKindName_injective ekind
  have hobs := observationKindName_injective eobs
  have hprobe := probeResultText_injective eprobe
  have nseq := UInt64.toNat_inj.mp (toNat_eq_of_jInt hseq hseq' eseq)
  have npid := UInt64.toNat_inj.mp (toNat_eq_of_jInt hpid hpid' epid)
  have nparent := UInt64.toNat_inj.mp (toNat_eq_of_jInt hparent hparent' eparent)
  have nthread := UInt64.toNat_inj.mp (toNat_eq_of_jInt hthread hthread' ethread)
  have nchild := UInt64.toNat_inj.mp (toNat_eq_of_jInt hchild hchild' echild)
  have nflags := UInt32.toNat_inj.mp (toNat_eq_of_jInt (hflags _) (hflags _) eflags)
  cases r
  cases r'
  simp only at hkind hobs hprobe nseq npid nparent nthread nchild nflags eresult epath edetail
  rw [hkind, hobs, hprobe, nseq, npid, nparent, nthread, nchild, nflags, eresult, epath, edetail]

/-! ## 7. The whole file -/

/-- A list of conversions succeeds when each of them does. -/
theorem mapM_ok_iff {ε α β : Type} {f : α → Except ε β} {as : List α} {bs : List β} :
    as.mapM f = .ok bs ↔ List.Forall₂ (fun a b => f a = .ok b) as bs := by
  induction as generalizing bs with
  | nil =>
    rw [List.mapM_nil, List.forall₂_nil_left_iff]
    exact ⟨fun h => (Except.ok.inj h).symm, fun h => congrArg Except.ok h.symm⟩
  | cons a as ih =>
    rw [List.mapM_cons, bind_eq_ok_iff, List.forall₂_cons_left_iff]
    constructor
    · rintro ⟨b, hb, hrest⟩
      obtain ⟨bs', hbs', hpure⟩ := bind_eq_ok_iff.mp hrest
      exact ⟨b, bs', hb, ih.mp hbs', (Except.ok.inj hpure).symm⟩
    · rintro ⟨b, bs', hb, hbs', rfl⟩
      exact ⟨b, hb, bind_eq_ok_iff.mpr ⟨bs', ih.mpr hbs', rfl⟩⟩

/-- The root once the counters and the records have been converted. -/
def depFileRoot (dep : MonitorDepFile) (summary : JsonNode) (records : List JsonNode) : JsonNode :=
  JObject [(str "format", JString (str "iomon")),
    (str "version", JInt (Int64.ofNat dep.version.toNat)),
    (str "producerVersion", JString dep.producerVersion),
    (str "backendFamily", JString (backendFamilyId dep.backendFamily)),
    (str "completeness", JString (completenessText dep.completeness)),
    (str "backendProfile", backendProfileJson dep.profile
      (profileDiagnostics dep.records InputEvidenceCapabilities)),
    (str "capabilityGaps", JArray (dep.capabilityGaps.map capabilityGapJson)),
    (str "summary", summary),
    (str "records", JArray records)]

theorem depFileJson_ok_iff {dep : MonitorDepFile} {root : JsonNode} :
    depFileJson dep = .ok root ↔
      ∃ summary records, summaryJson dep.summary = .ok summary ∧
        List.Forall₂ (fun r node => recordJson r = .ok node) dep.records records ∧
        root = depFileRoot dep summary records := by
  have hversion : dep.version.toNat < 2 ^ 63 := by
    have h := dep.version.toNat_lt
    omega
  simp only [depFileJson, bind_eq_ok_iff, mapM_ok_iff, intNode_ok_iff]
  constructor
  · rintro ⟨_, ⟨_, rfl⟩, summary, hsummary, records, hrecords, hroot⟩
    exact ⟨summary, records, hsummary, hrecords, (Except.ok.inj hroot).symm⟩
  · rintro ⟨summary, records, hsummary, hrecords, rfl⟩
    exact ⟨_, ⟨hversion, rfl⟩, summary, hsummary, records, hrecords, rfl⟩

theorem renderMonitorDepFileJson_ok_iff {dep : MonitorDepFile} {text : NimStr} :
    renderMonitorDepFileJson dep = .ok text ↔
      ∃ root, depFileJson dep = .ok root ∧ text = toUgly root := by
  rw [renderMonitorDepFileJson, bind_eq_ok_iff]
  constructor
  · rintro ⟨root, hroot, htext⟩
    exact ⟨root, hroot, (Except.ok.inj htext).symm⟩
  · rintro ⟨root, hroot, rfl⟩
    exact ⟨root, hroot, rfl⟩

/-- Files with the same JSON form hold the same records. -/
theorem records_eq_of_json {dep dep' : MonitorDepFile} {text : NimStr}
    (h : renderMonitorDepFileJson dep = .ok text)
    (h' : renderMonitorDepFileJson dep' = .ok text) : dep.records = dep'.records := by
  obtain ⟨root, hroot, rfl⟩ := renderMonitorDepFileJson_ok_iff.mp h
  obtain ⟨root', hroot', htext⟩ := renderMonitorDepFileJson_ok_iff.mp h'
  obtain rfl := toUgly_injective htext
  obtain ⟨summary, nodes, _, hnodes, rfl⟩ := depFileJson_ok_iff.mp hroot
  obtain ⟨summary', nodes', _, hnodes', heq⟩ := depFileJson_ok_iff.mp hroot'
  simp only [depFileRoot, JObject.injEq, List.cons.injEq, Prod.mk.injEq, JArray.injEq, true_and,
    and_true] at heq
  obtain rfl : nodes = nodes' := heq.2.2.2.2.2.2.2
  clear hroot hroot' h h' htext heq
  generalize dep.records = rs at hnodes
  generalize dep'.records = rs' at hnodes'
  induction hnodes generalizing rs' with
  | nil => exact (List.forall₂_nil_right_iff.mp hnodes').symm
  | cons hr _ ih =>
    obtain ⟨r', rs', hr', hrest, rfl⟩ := List.forall₂_cons_right_iff.mp hnodes'
    rw [recordJson_injective hr hr', ih rs' hrest]

/-- What the reader bounds: the number of records, and with it every sequence number. -/
theorem accepted_bounds {options : MonitorDepFileReaderOptions} {bytes : List UInt8}
    {dep : MonitorDepFile} (h : decodeMonitorDepFile options bytes = .ok dep) :
    dep.records.length < 2 ^ 63 ∧ dep.summary = summarizeRecords dep.records ∧
      ∀ r ∈ dep.records, r.seq.toNat < 2 ^ 63 := by
  obtain ⟨_, l, rs, henv, hscan, _, hnum, rfl⟩ := decodeMonitorDepFile_ok_iff.mp h
  have hlen : rs.length < 2 ^ 63 := by
    have hle := scan_length_le decodeRecordPayload (bodyOf bytes l)
    have hbody : (bodyOf bytes l).length ≤ l := by
      rw [bodyOf]
      exact List.length_take_le _ _
    have hfits := henv.fits
    rw [hscan] at hle
    dsimp only at hle
    omega
  refine ⟨hlen, rfl, ?_⟩
  intro r hr
  obtain ⟨i, hi, rfl⟩ := List.getElem_of_mem hr
  have hi' : i < rs.length := hi
  have hseq : rs[i].seq = UInt64.ofNat (0 + i + 1) := hnum i hi'
  show rs[i].seq.toNat < 2 ^ 63
  rw [hseq, UInt64.toNat_ofNat', Nat.mod_eq_of_lt (by omega)]
  omega

theorem summaryJson_ok {rs : List MonitorRecord} (hlen : rs.length < 2 ^ 63) :
    ∃ node, summaryJson (summarizeRecords rs) = .ok node := by
  have hprocess : ((rs.map (·.osPid)).filter (· ≠ 0)).dedup.length < 2 ^ 63 := by
    have hdedup := ((rs.map (·.osPid)).filter (· ≠ 0)).dedup_sublist.length_le
    have hfilter := List.length_filter_le (fun p : UInt64 => decide (p ≠ 0)) (rs.map (·.osPid))
    rw [List.length_map] at hfilter
    omega
  have hobservation : (rs.filter fun r => !isLoss r).length < 2 ^ 63 :=
    Nat.lt_of_le_of_lt (List.length_filter_le _ _) hlen
  have hloss : (rs.filter isLoss).length < 2 ^ 63 :=
    Nat.lt_of_le_of_lt (List.length_filter_le _ _) hlen
  simp only [summaryJson, summarizeRecords, intNode_of_lt hlen, intNode_of_lt hprocess,
    intNode_of_lt hobservation, intNode_of_lt hloss]
  exact ⟨_, rfl⟩

/-- **A depfile can be inspected**: both forms are printed, the JSON form holds the number of
every record field, and no accepted file with other records has the same JSON form. -/
structure Inspectable (dep : MonitorDepFile) : Prop where
  text : ∃ text, renderMonitorDepFileText dep = .ok text
  json : ∃ text, renderMonitorDepFileJson dep = .ok text
  numbers : ∀ root, depFileJson dep = .ok root →
    ∃ nodes, root.field (str "records") = some (JArray nodes) ∧
      nodes.map jsonNumbers = dep.records.map recordNumbers
  faithful : ∀ options bytes dep' text, decodeMonitorDepFile options bytes = .ok dep' →
    renderMonitorDepFileJson dep = .ok text → renderMonitorDepFileJson dep' = .ok text →
    dep'.records = dep.records

/-- **What an accepted file needs to be inspected**: that none of its records holds an id of 2^63
or more. -/
theorem depFile_inspectable_iff (options : MonitorDepFileReaderOptions) (bytes : List UInt8)
    (dep : MonitorDepFile) (hread : decodeMonitorDepFile options bytes = .ok dep) :
    Inspectable dep ↔ ∀ r ∈ dep.records, SignedIds r := by
  obtain ⟨hlen, hsummary, hseq⟩ := accepted_bounds hread
  constructor
  · intro h r hr
    obtain ⟨text, htext⟩ := h.json
    obtain ⟨root, hroot, _⟩ := renderMonitorDepFileJson_ok_iff.mp htext
    obtain ⟨_, nodes, _, hnodes, _⟩ := depFileJson_ok_iff.mp hroot
    obtain ⟨i, hi, rfl⟩ := List.getElem_of_mem hr
    have hnode := hnodes.get hi (hnodes.length_eq ▸ hi)
    exact (recordJson_ok_iff.mp hnode).2.1
  · intro hids
    refine ⟨⟨_, rfl⟩, ?_, ?_, ?_⟩
    · obtain ⟨summary, hjson⟩ := summaryJson_ok hlen
      rw [← hsummary] at hjson
      have hnodes : List.Forall₂ (fun r node => recordJson r = .ok node) dep.records
          (dep.records.map recordObject) := by
        rw [List.forall₂_map_right_iff, List.forall₂_same]
        exact fun r hr => recordJson_ok_iff.mpr ⟨hseq r hr, hids r hr, rfl⟩
      exact ⟨_, renderMonitorDepFileJson_ok_iff.mpr
        ⟨_, depFileJson_ok_iff.mpr ⟨summary, _, hjson, hnodes, rfl⟩, rfl⟩⟩
    · intro root hroot
      obtain ⟨summary, nodes, _, hnodes, rfl⟩ := depFileJson_ok_iff.mp hroot
      refine ⟨nodes, rfl, ?_⟩
      clear hroot hids hseq hsummary hlen hread
      generalize dep.records = rs at hnodes
      induction hnodes with
      | nil => rfl
      | cons hr _ ih => rw [List.map_cons, List.map_cons, jsonNumbers_recordJson hr, ih]
    · intro _ _ dep' text _ h h'
      exact records_eq_of_json h' h

theorem depFile_inspectable_iff_hostsRun :
    ∃ dep, decodeMonitorDepFile defaultMonitorDepFileReaderOptions (encodeCanonical hostsRun) =
        .ok dep ∧ dep.records.length = 4 ∧ Inspectable dep :=
  have hread := @decode_encodeCanonical hostsRun (by decide) (by decide)
  ⟨_, hread, by decide, (depFile_inspectable_iff defaultMonitorDepFileReaderOptions
    (encodeCanonical hostsRun) _ hread).mpr (by decide)⟩

/-- A read by a process whose id is 2^63. -/
def highPidRead : MonitorRecord := { hostsRead with osPid := 0x8000000000000000 }

/-- **An accepted file that cannot be shown as JSON**, though its text form prints. -/
theorem highPidRead_not_inspectable :
    ∃ dep, decodeMonitorDepFile defaultMonitorDepFileReaderOptions
        (encodeCanonical [highPidRead]) = .ok dep ∧
      (∃ text, renderMonitorDepFileText dep = .ok text) ∧
      renderMonitorDepFileJson dep = .error .rangeDefect ∧ ¬ Inspectable dep := by
  have hread := @decode_encodeCanonical [highPidRead] (by decide) (by decide)
  have hjson : renderMonitorDepFileJson (depFileFromRecords (canonicalize [highPidRead])) =
      .error .rangeDefect := by rfl
  refine ⟨_, hread, ⟨_, rfl⟩, hjson, ?_⟩
  intro h
  obtain ⟨text, htext⟩ := h.json
  rw [hjson] at htext
  exact absurd htext (by simp)

end IoMon
