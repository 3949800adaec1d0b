/-
# The depfile of a record list

`depFileFromOwnedRecords` turns the merged records into the value a consumer reads: the summary
counts, the profile, the scope the capture states about itself and the verdict.  The verdict is
`mcComplete` exactly when the declared profile is complete and no record counts as event loss
(`complete_iff`); a record counts as loss by its kind **or** by its observation kind.

Before that, `writeCanonicalInPlace` puts the records in canonical order and renumbers them; the
verdict does not see that (`complete_canonicalize`).
-/
import Mathlib.Data.List.Sort
import IoMon.Capabilities

namespace IoMon

open ByteText MonitorRecordKind MonitorObservationKind MonitorCompleteness EventCategory
  EvidenceScope MonitorBackendFamily

/-! ## 1. Canonical order -/

/-- `canonicalOrder`: pid, thread, sequence, kind, path.  The detail is not compared. -/
def canonicalLe (a b : MonitorRecord) : Bool :=
  if a.osPid ≠ b.osPid then decide (a.osPid < b.osPid)
  else if a.threadId ≠ b.threadId then decide (a.threadId < b.threadId)
  else if a.seq ≠ b.seq then decide (a.seq < b.seq)
  else if a.kind.ord ≠ b.kind.ord then decide (a.kind.ord < b.kind.ord)
  else leStr a.path b.path

/-- `ordered[i].seq = uint64(i + 1)`. -/
def renumber (records : List MonitorRecord) : List MonitorRecord :=
  records.mapIdx fun i r => { r with seq := UInt64.ofNat (i + 1) }

/-- The in-memory effect of `writeCanonicalInPlace`: a stable sort and new sequence numbers. -/
def canonicalize (records : List MonitorRecord) : List MonitorRecord :=
  renumber (records.insertionSort fun a b => canonicalLe a b = true)

/-! ## 2. The stated scope -/

/-- The pre-split category tokens that older shims still read. -/
inductive LegacyEventCategory
  | lecFileDeps | lecProcessTree | lecLibraryLoads | lecNonDeterminism | lecIpc
  deriving DecidableEq, Repr

open LegacyEventCategory

def legacyInterestToken : LegacyEventCategory → NimStr
  | lecFileDeps => str "file"
  | lecProcessTree => str "proc"
  | lecLibraryLoads => str "lib"
  | lecNonDeterminism => str "nondet"
  | lecIpc => str "ipc"

def legacyMemberKinds : LegacyEventCategory → List MonitorRecordKind
  | lecFileDeps =>
    [mrFileOpen, mrFileRead, mrFileWrite, mrPathProbe, mrDirectoryEnumerate, mrPathMutation]
  | lecProcessTree => [mrProcessStart, mrProcessExec, mrProcessSpawn]
  | lecLibraryLoads => [mrLibraryLoad]
  | lecNonDeterminism =>
    [mrNonDeterministic, mrTimeRead, mrEnvRead, mrSysctlRead, mrExternalContent]
  | lecIpc => [mrIpcConnect]

def legacyInterestExpansion (legacy : LegacyEventCategory) : Finset EventCategory :=
  ((legacyMemberKinds legacy).filterMap categoryOf).toFinset

def LegacyEventCategory.all : List LegacyEventCategory :=
  [lecFileDeps, lecProcessTree, lecLibraryLoads, lecNonDeterminism, lecIpc]

def LegacyPaddingToken : NimStr := str "legacy-padding"

/-- The categories one token grants; behind a padding fence the legacy spellings grant none. -/
def interestOfToken (fenced : Bool) (tok : NimStr) : Finset EventCategory :=
  (EventCategory.all.filter fun c => tok == interestToken c).toFinset ∪
    (if fenced then ∅
     else ((LegacyEventCategory.all.filter fun l => tok == legacyInterestToken l).map
       legacyInterestExpansion).foldl (· ∪ ·) ∅)

def parseInterestTokens (s : NimStr) : Finset EventCategory :=
  let trimmed := strip s
  if trimmed.isEmpty then FullInterest
  else
    let toks := (splitAt 44 trimmed).map strip
    let fenced := toks.contains LegacyPaddingToken
    (toks.map (interestOfToken fenced)).foldl (· ∪ ·) ∅

def EvidenceScope.all : List EvidenceScope := [esFull, esReadsOnly, esUnrecognized]

def parseEvidenceScopeToken (s : NimStr) : EvidenceScope :=
  let trimmed := strip s
  if trimmed.isEmpty then esFull
  else (EvidenceScope.all.find? fun scope => evidenceScopeToken scope == trimmed).getD
    esUnrecognized

/-- The value of the first `key=value` part of a backend-profile detail that has this key. -/
def stampValue (key : NimStr) (records : List MonitorRecord) : Option NimStr :=
  ((records.filter (·.kind == mrBackendProfile)).flatMap fun r =>
    (splitAt 59 r.detail).filterMap fun part =>
      match splitFirst 61 part with
      | some (k, v) => if k = key then some v else none
      | none => none).head?

/-- Whether an interest is stated, its raw tokens, and the categories it names. -/
def observedInterestFromRecords (records : List MonitorRecord) :
    Bool × NimStr × Finset EventCategory :=
  match stampValue (str "interest") records with
  | none => (false, [], ∅)
  | some v => (true, v, if (strip v).isEmpty then ∅ else parseInterestTokens v)

/-- Whether an evidence scope is stated, its raw token, and the scope it names. -/
def observedEvidenceScopeFromRecords (records : List MonitorRecord) :
    Bool × NimStr × EvidenceScope :=
  match stampValue (str "evidence") records with
  | none => (false, [], esFull)
  | some v => (true, v, if (strip v).isEmpty then esUnrecognized else parseEvidenceScopeToken v)

/-! ## 3. Summary and verdict -/

/-- A record that `summarizeRecords` counts as event loss. -/
def isLoss (r : MonitorRecord) : Bool :=
  r.kind == mrEventLoss || r.observationKind == moEventLoss

def summarizeRecords (records : List MonitorRecord) : MonitorSummary where
  recordCount := records.length
  processCount := ((records.map (·.osPid)).filter (· ≠ 0)).dedup.length
  observationCount := (records.filter fun r => !isLoss r).length
  eventLossCount := (records.filter isLoss).length

structure MonitorDepFile where
  version : UInt16
  producerVersion : NimStr
  backendFamily : MonitorBackendFamily
  requiredFeatures : Finset MonitorCapability
  completeness : MonitorCompleteness
  profile : MonitorBackendProfile
  capabilityGaps : List MonitorCapabilityGap
  summary : MonitorSummary
  observedInterest : Finset EventCategory
  observedInterestStated : Bool
  observedInterestTokens : NimStr
  observedEvidenceScope : EvidenceScope
  observedEvidenceScopeStated : Bool
  observedEvidenceScopeToken : NimStr
  records : List MonitorRecord
  deriving DecidableEq

def IomonVersion : UInt16 := 1

def IoMonDepfileProducer : NimStr := str "iomon_depfile_v1"

def depFileFromOwnedRecords (records : List MonitorRecord) : MonitorDepFile :=
  let summary := summarizeRecords records
  let scope := observedInterestFromRecords records
  let evidence := observedEvidenceScopeFromRecords records
  let declared := profileFromRecords records InputEvidenceCapabilities
  let profile := if summary.eventLossCount ≠ 0 then { declared with evidenceComplete := false }
    else declared
  { version := IomonVersion
    producerVersion := IoMonDepfileProducer
    backendFamily := profile.backendFamily
    requiredFeatures := profile.requiredCapabilities
    completeness := if profile.evidenceComplete ∧ summary.eventLossCount = 0 then mcComplete
      else mcIncomplete
    profile := profile
    capabilityGaps := profile.gaps
    summary := summary
    observedInterest := scope.2.2
    observedInterestStated := scope.1
    observedInterestTokens := scope.2.1
    observedEvidenceScope := evidence.2.2
    observedEvidenceScopeStated := evidence.1
    observedEvidenceScopeToken := evidence.2.1
    records := records }

/-! ## 4. The verdict -/

/-- The declared profile supports what a depfile requires and calls itself complete. -/
def profileComplete (records : List MonitorRecord) : Prop :=
  (profileFromRecords records InputEvidenceCapabilities).evidenceComplete = true

/-- **The verdict.**  Complete means: a complete profile, and no record that counts as loss. -/
theorem complete_iff (records : List MonitorRecord) :
    (depFileFromOwnedRecords records).completeness = mcComplete ↔
      profileComplete records ∧ ∀ r ∈ records, isLoss r = false := by
  have hcount : (summarizeRecords records).eventLossCount = 0 ↔
      ∀ r ∈ records, isLoss r = false := by
    simp only [summarizeRecords, List.length_eq_zero_iff, List.filter_eq_nil_iff,
      Bool.not_eq_true]
  unfold depFileFromOwnedRecords profileComplete
  dsimp only
  rw [← hcount]
  by_cases h0 : (summarizeRecords records).eventLossCount = 0
  · simp only [h0, ne_eq, not_true_eq_false, if_false, and_true]
    split <;> simp_all
  · simp only [h0, ne_eq, not_false_eq_true, if_true, and_false, if_false, reduceCtorEq]

/-! ## 5. Canonical order and the verdict

The merge holds a single backend-profile record, so sorting cannot change which profile is
declared; renumbering touches a field the verdict does not read. -/

/-- The details of the backend-profile records, in order. -/
def profileDetails (records : List MonitorRecord) : List NimStr :=
  records.filterMap fun r => if r.kind == mrBackendProfile then some r.detail else none

theorem declaredProfile_eq (records : List MonitorRecord) (required : Finset MonitorCapability) :
    declaredProfile records required =
      (profileDetails records).foldl applyProfileDetail (defaultHooksMonitorProfile required) := by
  have hmap : profileDetails records =
      (records.filter (·.kind == mrBackendProfile)).map (·.detail) := by
    unfold profileDetails
    induction records with
    | nil => rfl
    | cons r rs ih =>
      by_cases hk : (r.kind == mrBackendProfile) = true
      · simp only [List.filterMap_cons, List.filter_cons, hk, if_true, List.map_cons, ih]
      · simp only [List.filterMap_cons, List.filter_cons, hk, Bool.false_eq_true, if_false, ih]
  rw [declaredProfile, hmap, List.foldl_map]

/-- The profile's half of the verdict depends on the profile details alone. -/
theorem profileComplete_congr {rs rs' : List MonitorRecord}
    (h : profileDetails rs = profileDetails rs') : profileComplete rs ↔ profileComplete rs' := by
  unfold profileComplete
  rw [evidenceComplete_profileFromRecords, evidenceComplete_profileFromRecords,
    declaredProfile_eq, declaredProfile_eq, h]

theorem map_renumber {β : Type} (f : MonitorRecord → β)
    (hf : ∀ r n, f { r with seq := n } = f r) (records : List MonitorRecord) :
    (renumber records).map f = records.map f := by
  apply List.ext_getElem
  · simp only [renumber, List.length_map, List.length_mapIdx]
  · intro i hi hi'
    simp only [renumber, List.getElem_map, List.getElem_mapIdx, hf]

theorem profileDetails_renumber (records : List MonitorRecord) :
    profileDetails (renumber records) = profileDetails records := by
  have hkey : ∀ rs : List MonitorRecord, profileDetails rs =
      (rs.map fun r =>
        if r.kind == mrBackendProfile then some r.detail else none).filterMap id := by
    intro rs
    rw [List.filterMap_map]
    rfl
  rw [hkey, hkey, map_renumber _ (fun _ _ => rfl)]

theorem profileDetails_perm {rs rs' : List MonitorRecord} (h : rs.Perm rs') {d : NimStr}
    (hd : profileDetails rs = [d]) : profileDetails rs' = [d] := by
  have : (profileDetails rs').Perm [d] := hd ▸ (h.symm.filterMap _)
  exact List.perm_singleton.mp this

theorem all_notLoss_canonicalize (records : List MonitorRecord) :
    (∀ r ∈ canonicalize records, isLoss r = false) ↔ ∀ r ∈ records, isLoss r = false := by
  have hmap : (canonicalize records).map isLoss =
      (records.insertionSort fun a b => canonicalLe a b = true).map isLoss :=
    map_renumber isLoss (fun _ _ => rfl) _
  have hperm := (List.perm_insertionSort (fun a b => canonicalLe a b = true) records).map isLoss
  have hall : ∀ rs : List MonitorRecord,
      (∀ r ∈ rs, isLoss r = false) ↔ ∀ b ∈ rs.map isLoss, b = false := by
    intro rs
    simp only [List.mem_map, forall_exists_index, and_imp, forall_apply_eq_imp_iff₂]
  rw [hall, hall, hmap]
  simp only [hperm.mem_iff]

/-- **Canonical order does not change the verdict** of a list with one backend profile. -/
theorem complete_canonicalize {records : List MonitorRecord} {d : NimStr}
    (hd : profileDetails records = [d]) :
    (depFileFromOwnedRecords (canonicalize records)).completeness = mcComplete ↔
      profileComplete records ∧ ∀ r ∈ records, isLoss r = false := by
  have hprofile : profileDetails (canonicalize records) = [d] := by
    rw [canonicalize, profileDetails_renumber]
    exact profileDetails_perm (List.perm_insertionSort _ records).symm hd
  rw [complete_iff, all_notLoss_canonicalize, profileComplete_congr (hprofile.trans hd.symm)]

end IoMon
