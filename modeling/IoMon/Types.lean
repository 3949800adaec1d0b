/-
# The record model of io-mon

The data types of `io_mon/types.nim`: the monitor record with its enumerations, the event
categories a capture can be narrowed to, the evidence scope, and the predicates the producer's
gates are made of.

Nim strings are byte lists (`NimStr`), literals of the source go through `str`, and machine
integers keep their widths.
-/
import Mathlib.Data.Finset.Basic
import IoMon.Lib.Strings

namespace IoMon

open ByteText

/-! ## 1. Enumerations -/

/-- `MonitorRecordKind`, in wire order: `mrProcessStart = 1` up to `mrPathMutation = 19`. -/
inductive MonitorRecordKind
  | mrProcessStart | mrProcessExec | mrProcessSpawn | mrFileOpen | mrFileRead | mrPathProbe
  | mrFileWrite | mrEventLoss | mrDirectoryEnumerate | mrBackendProfile | mrCapabilityGap
  | mrIpcConnect | mrLibraryLoad | mrEnvRead | mrSysctlRead | mrNonDeterministic | mrTimeRead
  | mrExternalContent | mrPathMutation
  deriving DecidableEq, Repr

/-- `MonitorObservationKind`, in wire order: `moProcessStart = 1` up to `moPathMutation = 17`. -/
inductive MonitorObservationKind
  | moProcessStart | moExecute | moFileOpen | moFileRead | moPathProbe | moFileWrite | moEventLoss
  | moDirectoryEnumerate | moBackendProfile | moCapabilityGap | moIpcConnect | moEnvRead
  | moSysctlRead | moNonDeterministic | moTimeRead | moExternalContent | moPathMutation
  deriving DecidableEq, Repr

inductive ProbeResult
  | prUnknown | prAbsent | prExistingFile | prExistingDirectory | prExistingOther
  deriving DecidableEq, Repr

inductive MonitorCompleteness
  | mcComplete | mcIncomplete
  deriving DecidableEq, Repr

/-- The categories a caller can narrow a capture to. -/
inductive EventCategory
  | ecFileReads | ecPathProbes | ecFileWrites | ecProcessTree | ecLibraryLoads | ecEnvReads
  | ecEntropy | ecAmbientReads
  deriving DecidableEq, Repr

/-- How much of each category is evidence.  `esUnrecognized` exists on the read side only. -/
inductive EvidenceScope
  | esFull | esReadsOnly | esUnrecognized
  deriving DecidableEq, Repr

open MonitorRecordKind MonitorObservationKind ProbeResult MonitorCompleteness EventCategory
  EvidenceScope

/-- `ord(kind)`. -/
def MonitorRecordKind.ord : MonitorRecordKind → Nat
  | mrProcessStart => 1 | mrProcessExec => 2 | mrProcessSpawn => 3 | mrFileOpen => 4
  | mrFileRead => 5 | mrPathProbe => 6 | mrFileWrite => 7 | mrEventLoss => 8
  | mrDirectoryEnumerate => 9 | mrBackendProfile => 10 | mrCapabilityGap => 11
  | mrIpcConnect => 12 | mrLibraryLoad => 13 | mrEnvRead => 14 | mrSysctlRead => 15
  | mrNonDeterministic => 16 | mrTimeRead => 17 | mrExternalContent => 18 | mrPathMutation => 19

/-- `ord(observationKind)`. -/
def MonitorObservationKind.ord : MonitorObservationKind → Nat
  | moProcessStart => 1 | moExecute => 2 | moFileOpen => 3 | moFileRead => 4 | moPathProbe => 5
  | moFileWrite => 6 | moEventLoss => 7 | moDirectoryEnumerate => 8 | moBackendProfile => 9
  | moCapabilityGap => 10 | moIpcConnect => 11 | moEnvRead => 12 | moSysctlRead => 13
  | moNonDeterministic => 14 | moTimeRead => 15 | moExternalContent => 16 | moPathMutation => 17

def ProbeResult.ord : ProbeResult → Nat
  | prUnknown => 0 | prAbsent => 1 | prExistingFile => 2 | prExistingDirectory => 3
  | prExistingOther => 4

/-- `MonitorRecordKind(n)` behind its range check. -/
def MonitorRecordKind.ofOrd : Nat → Option MonitorRecordKind
  | 1 => some mrProcessStart | 2 => some mrProcessExec | 3 => some mrProcessSpawn
  | 4 => some mrFileOpen | 5 => some mrFileRead | 6 => some mrPathProbe | 7 => some mrFileWrite
  | 8 => some mrEventLoss | 9 => some mrDirectoryEnumerate | 10 => some mrBackendProfile
  | 11 => some mrCapabilityGap | 12 => some mrIpcConnect | 13 => some mrLibraryLoad
  | 14 => some mrEnvRead | 15 => some mrSysctlRead | 16 => some mrNonDeterministic
  | 17 => some mrTimeRead | 18 => some mrExternalContent | 19 => some mrPathMutation
  | _ => none

/-- `MonitorObservationKind(n)` behind its range check. -/
def MonitorObservationKind.ofOrd : Nat → Option MonitorObservationKind
  | 1 => some moProcessStart | 2 => some moExecute | 3 => some moFileOpen | 4 => some moFileRead
  | 5 => some moPathProbe | 6 => some moFileWrite | 7 => some moEventLoss
  | 8 => some moDirectoryEnumerate | 9 => some moBackendProfile | 10 => some moCapabilityGap
  | 11 => some moIpcConnect | 12 => some moEnvRead | 13 => some moSysctlRead
  | 14 => some moNonDeterministic | 15 => some moTimeRead | 16 => some moExternalContent
  | 17 => some moPathMutation
  | _ => none

/-- `ProbeResult(n)` behind its range check. -/
def ProbeResult.ofOrd : Nat → Option ProbeResult
  | 0 => some prUnknown | 1 => some prAbsent | 2 => some prExistingFile
  | 3 => some prExistingDirectory | 4 => some prExistingOther
  | _ => none

@[simp] theorem MonitorRecordKind.ofOrd_ord (k : MonitorRecordKind) : ofOrd k.ord = some k := by
  cases k <;> rfl

@[simp] theorem MonitorObservationKind.ofOrd_ord (k : MonitorObservationKind) :
    ofOrd k.ord = some k := by
  cases k <;> rfl

@[simp] theorem ProbeResult.ofOrd_ord (p : ProbeResult) : ofOrd p.ord = some p := by
  cases p <;> rfl

theorem MonitorRecordKind.ord_lt (k : MonitorRecordKind) : k.ord < 256 ^ 2 := by
  cases k <;> decide

theorem MonitorObservationKind.ord_lt (k : MonitorObservationKind) : k.ord < 256 ^ 2 := by
  cases k <;> decide

theorem ProbeResult.ord_lt (p : ProbeResult) : p.ord < 256 ^ 4 := by
  cases p <;> decide

/-! ## 2. Records -/

/-- One observation.  `childOsPid` is the child of a spawn and the peer of an IPC connect;
`detail` carries space-separated `key=value` tokens. -/
structure MonitorRecord where
  kind : MonitorRecordKind
  observationKind : MonitorObservationKind
  seq : UInt64 := 0
  osPid : UInt64 := 0
  parentOsPid : UInt64 := 0
  threadId : UInt64 := 0
  childOsPid : UInt64 := 0
  result : Int64 := 0
  flags : UInt32 := 0
  probeResult : ProbeResult := prUnknown
  path : NimStr := []
  detail : NimStr := []
  deriving DecidableEq, Repr

structure MonitorSummary where
  recordCount : Nat
  processCount : Nat
  observationCount : Nat
  eventLossCount : Nat
  deriving DecidableEq, Repr

/-! ## 3. Interest and evidence scope -/

/-- The members of `EventCategory` in declaration order, which is how a Nim `for` visits them. -/
def EventCategory.all : List EventCategory :=
  [ecFileReads, ecPathProbes, ecFileWrites, ecProcessTree, ecLibraryLoads, ecEnvReads, ecEntropy,
    ecAmbientReads]

/-- `FullInterest`: every category. -/
def FullInterest : Finset EventCategory := EventCategory.all.toFinset

@[simp] theorem mem_FullInterest (c : EventCategory) : c ∈ FullInterest := by
  cases c <;> decide

/-- The category of a record kind.  The kinds with none are never gated: IPC connects, content
channels, and the records that speak about the capture itself. -/
def categoryOf : MonitorRecordKind → Option EventCategory
  | mrFileOpen | mrFileRead => some ecFileReads
  | mrPathProbe | mrDirectoryEnumerate => some ecPathProbes
  | mrFileWrite | mrPathMutation => some ecFileWrites
  | mrProcessStart | mrProcessExec | mrProcessSpawn => some ecProcessTree
  | mrLibraryLoad => some ecLibraryLoads
  | mrEnvRead => some ecEnvReads
  | mrNonDeterministic => some ecEntropy
  | mrTimeRead | mrSysctlRead => some ecAmbientReads
  | mrIpcConnect | mrExternalContent => none
  | mrEventLoss | mrBackendProfile | mrCapabilityGap => none

/-- The empty interest means everything. -/
def normalizeInterest (interest : Finset EventCategory) : Finset EventCategory :=
  if interest = ∅ then FullInterest else interest

def recordWanted (interest : Finset EventCategory) (kind : MonitorRecordKind) : Bool :=
  match categoryOf kind with
  | none => true
  | some c => decide (c ∈ normalizeInterest interest)

/-- A lookup that found nothing.  Only probes, opens and directory enumerations can be one. -/
def recordIsFailedExistenceLookup (record : MonitorRecord) : Bool :=
  if (categoryOf record.kind).isNone then false
  else
    match record.kind with
    | mrPathProbe =>
      record.probeResult == prAbsent ||
        (record.probeResult == prUnknown && decide (record.result < 0))
    | mrFileOpen | mrDirectoryEnumerate => decide (record.result < 0)
    | _ => false

def recordInEvidenceScope (scope : EvidenceScope) (record : MonitorRecord) : Bool :=
  match scope with
  | esFull | esUnrecognized => true
  | esReadsOnly => !recordIsFailedExistenceLookup record

/-- The wire token of an evidence scope; `esUnrecognized` has none. -/
def evidenceScopeToken : EvidenceScope → NimStr
  | esFull => str "full"
  | esReadsOnly => str "reads-only"
  | esUnrecognized => []

/-- The wire token of a category. -/
def interestToken : EventCategory → NimStr
  | ecFileReads => str "file-reads"
  | ecPathProbes => str "path-probes"
  | ecFileWrites => str "file-writes"
  | ecProcessTree => str "proc"
  | ecLibraryLoads => str "lib"
  | ecEnvReads => str "env"
  | ecEntropy => str "entropy"
  | ecAmbientReads => str "ambient"

/-- The comma-joined tokens of an interest. -/
def interestToTokens (interest : Finset EventCategory) : NimStr :=
  let normalized := normalizeInterest interest
  joinStr (str ",") ((EventCategory.all.filter fun c => decide (c ∈ normalized)).map interestToken)

end IoMon
