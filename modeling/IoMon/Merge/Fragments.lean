/-
# The merge

`mergeFragments` reads every fragment of the directory, adds the records decoded from the shared
set, and runs the passes of the other files in this order: stale-run dropping, the fact fold,
losses for damaged fragments, the read-tail net, legacy sidecars, the root spawn, breakaway
reports, the subtree and content inference, the platform profile with its scope stamps.  Each
stage is a definition of its own, so that a theorem about the verdict can name the list it is
about.

**The read-tail net.**  A process that buffers records writes a durable *pending* marker, and a
*committed* marker once the buffer is on disk.  The merge strips both kinds and counts, for each
`(pid, thread)`, by how much pending markers outnumber committed ones.
-/
import IoMon.Depfile
import IoMon.Merge.Scope
import IoMon.Merge.Inference
import IoMon.Merge.Breakaway

namespace IoMon

open ByteText MonitorRecordKind MonitorObservationKind MonitorCompleteness EvidenceScope

/-! ## 1. The read-tail net -/

def ReadTailPendingDetail : NimStr := str "read-tail-pending"

def ReadTailCommittedDetail : NimStr := str "read-tail-committed"

def KillDiagCtxTag : NimStr := str " ctx="

/-- The process and thread a fragment belongs to. -/
abbrev ThreadKey := UInt64 × UInt64

def threadKey (r : MonitorRecord) : ThreadKey := (r.osPid, r.threadId)

def isPendingMarker (r : MonitorRecord) : Bool :=
  r.kind == mrEventLoss && startsWith r.detail ReadTailPendingDetail

def isCommittedMarker (r : MonitorRecord) : Bool :=
  r.kind == mrEventLoss && startsWith r.detail ReadTailCommittedDetail

def isReadTailMarker (r : MonitorRecord) : Bool := isPendingMarker r || isCommittedMarker r

def pendingCount (records : List MonitorRecord) (key : ThreadKey) : Nat :=
  records.countP fun r => isPendingMarker r && threadKey r == key

def committedCount (records : List MonitorRecord) (key : ThreadKey) : Nat :=
  records.countP fun r => isCommittedMarker r && threadKey r == key

/-- What stands behind the first occurrence of `needle`. -/
def afterFirst (needle : NimStr) : NimStr → Option NimStr
  | [] => if needle.isEmpty then some [] else none
  | c :: t =>
    if needle.isPrefixOf (c :: t) then some ((c :: t).drop needle.length) else afterFirst needle t

/-- The diagnostic context of the thread's last pending marker that carries one. -/
def lastPendingCtx (records : List MonitorRecord) (key : ThreadKey) : NimStr :=
  (((records.filter fun r => isPendingMarker r && threadKey r == key).filterMap fun r =>
    afterFirst KillDiagCtxTag r.detail).getLast?).getD []

def killBeforeFlushDetail : NimStr :=
  str "process killed with an un-flushed read batch (kill-before-flush)"

/-- The loss one unmatched pending marker becomes. -/
def readTailLoss (records : List MonitorRecord) (key : ThreadKey) : MonitorRecord :=
  let ctx := lastPendingCtx records key
  { lossRecord (killBeforeFlushDetail ++
      (if ctx.isEmpty then [] else str " diag-ctx=[" ++ ctx ++ str "]")) with
    osPid := key.1, threadId := key.2 }

/-- The keys of the pending table. -/
def pendingKeys (records : List MonitorRecord) : List ThreadKey :=
  ((records.filter isPendingMarker).map threadKey).dedup

/-- Strip the markers and add one loss for each pending marker beyond the committed ones. -/
def netReadTail (records : List MonitorRecord) : List MonitorRecord :=
  (records.filter fun r => !isReadTailMarker r) ++
    (pendingKeys records).flatMap fun key =>
      List.replicate (pendingCount records key - committedCount records key)
        (readTailLoss records key)

/-! ## 2. The input of a merge -/

/-- One entry of the fragment directory: its content when it can be read, and whether it is still
there after a failed read. -/
structure FragmentEntry where
  isFile : Bool
  path : NimStr
  content : Option (List UInt8)
  stillExists : Bool
  deriving DecidableEq, Repr

/-- The arguments of `mergeFragments` and what it reads of its environment: the entries of the
fragment directory, of the report directory it settles on, and `REPRO_MONITOR_SESSION`. -/
structure MergeInput where
  fragmentDir : NimStr := []
  entries : List FragmentEntry := []
  reports : List ReportEntry := []
  expectedRootPid : UInt64 := 0
  currentRunId : NimStr := []
  sessionEnv : NimStr := []
  setRecords : List MonitorRecord := []
  observedInterest : Finset EventCategory := ∅
  observedEvidenceScope : EvidenceScope := esFull
  deriving DecidableEq

def fragmentExt : NimStr := str ".iomon-frag"

def ReadingSentinelExt : NimStr := str ".io-mon-reading"

/-- The fragment files of the directory. -/
def MergeInput.fragments (m : MergeInput) : List FragmentEntry :=
  m.entries.filter fun e => e.isFile && endsWith e.path fragmentExt

/-- The records of one fragment: all before the first damage. -/
def FragmentEntry.records (e : FragmentEntry) : List MonitorRecord :=
  match e.content with
  | some bytes => (decodeFramesTolerant bytes).1
  | none => []

/-- A readable fragment that does not decode to its end. -/
def FragmentEntry.corrupt (e : FragmentEntry) : Bool :=
  match e.content with
  | some bytes => !(decodeFramesTolerant bytes).2
  | none => false

/-- A fragment that is there and cannot be read; one that vanished is no evidence at all. -/
def FragmentEntry.unreadable (e : FragmentEntry) : Bool := e.content.isNone && e.stillExists

def MergeInput.runScope (m : MergeInput) : NimStr :=
  if m.currentRunId.isEmpty then m.sessionEnv else m.currentRunId

/-! ## 3. The passes -/

section Passes

variable (m : MergeInput)

/-- Everything that was captured, over both transports. -/
def capturedRecords : List MonitorRecord :=
  m.fragments.flatMap FragmentEntry.records ++ m.setRecords

/-- Run-scoped and folded. -/
def scopedRecords : List MonitorRecord :=
  foldObservationIdentity (dropStaleRunRecords (capturedRecords m) m.runScope)

def fragmentLosses : List MonitorRecord :=
  List.replicate (m.fragments.countP FragmentEntry.corrupt)
      (lossRecord (str "corrupt or partial iomon fragment in " ++ m.fragmentDir)) ++
    List.replicate (m.fragments.countP FragmentEntry.unreadable)
      (lossRecord (str "unreadable iomon fragment in " ++ m.fragmentDir))

def nettedRecords : List MonitorRecord := netReadTail (scopedRecords m ++ fragmentLosses m)

/-- The sidecar files an older shim leaves when it is killed. -/
def killedReaders : Nat :=
  m.entries.countP fun e => e.isFile && endsWith e.path ReadingSentinelExt

/-- The synthetic spawn that names the launcher's root. -/
def rootSpawn : List MonitorRecord :=
  if m.expectedRootPid ≠ 0 then
    [{ kind := mrProcessSpawn, observationKind := moExecute, osPid := 0
       childOsPid := m.expectedRootPid
       detail := str "io-mon-root-spawn launcher-expected-root" }]
  else []

/-- The list the breakaway reports are authenticated against. -/
def treeRecords : List MonitorRecord :=
  nettedRecords m ++ List.replicate (killedReaders m) (lossRecord killBeforeFlushDetail) ++
    rootSpawn m

def breakawayFold : BreakawayFold :=
  loadBreakawayReports m.reports (monitoredStartPids (treeRecords m))
    (breakawayAuthContext (treeRecords m))

/-- The list the inference runs on. -/
def inferenceRecords : List MonitorRecord := treeRecords m ++ (breakawayFold m).reads

def subtreeLossIntro : NimStr :=
  str ("unmonitored subtree/peer (un-injectable spawn child, SETEXEC " ++
    "into a hardened image, or IPC connect to an out-of-tree breakaway " ++ "daemon): ")

def contentLossDetail : NimStr :=
  str ("out-of-tree content channel consumed (POSIX shm not created " ++
    "in-tree, FIFO with no in-tree writer, or an inherited pipe/socket with " ++
    "no in-tree create) — the real input is invisible, re-run")

def subtreeLossRecords : List MonitorRecord :=
  (unmonitoredSubtreeLossDetails (inferenceRecords m) (breakawayFold m).trustedPeerPids).map
    fun loss => lossRecord (subtreeLossIntro ++ loss)

def contentLossRecords : List MonitorRecord :=
  List.replicate (externalContentLossCount (inferenceRecords m ++ subtreeLossRecords m)
    (breakawayFold m).trustedPeerPids) (lossRecord contentLossDetail)

/-- The `;interest=` and `;evidence=` suffix of the backend-profile details. -/
def scopeStamp : NimStr :=
  (if m.observedInterest = ∅ then []
   else str ";interest=" ++ interestToTokens m.observedInterest) ++
  (if m.observedEvidenceScope = esFull ∨ m.observedEvidenceScope = esUnrecognized then []
   else str ";evidence=" ++ evidenceScopeToken m.observedEvidenceScope)

def stampProfile (r : MonitorRecord) : MonitorRecord :=
  if r.kind == mrBackendProfile then { r with detail := r.detail ++ scopeStamp m } else r

/-- What the merge writes and returns, before canonical order. -/
def mergedRecords : List MonitorRecord :=
  (inferenceRecords m ++ subtreeLossRecords m ++ contentLossRecords m ++
    profileRecords platformProfile).map (stampProfile m)

/-- **`mergeFragments`.** -/
def mergeFragments : MonitorDepFile := depFileFromOwnedRecords (canonicalize (mergedRecords m))

end Passes

end IoMon
