/-
# Breakaway reports: trusted daemons and how they are authenticated

A monitored client may be served by a daemon outside the tree.  A cooperating daemon writes a
small text report naming the client, itself, the run and the files it read; the merge folds the
reads in as dependencies and stops counting the connection as a loss.

The report is checked against what the shim observed: it must not have been written inside the
tree, its client must be a monitored pid, its run must be this run, the connection from that
client to that daemon must have been recorded, a nonce must be one the shim recorded, and it
must claim completeness and list a read.  What later passes see of an accepted report is the
**daemon pid alone** (`BreakawayFold.trustedPeerPids`).
-/
import IoMon.Detail

namespace IoMon

open ByteText MonitorRecordKind MonitorObservationKind

/-! ## 1. What the shim observed -/

def BreakawayReportExt : NimStr := str ".io-mon-report"

def BreakawayReportMagic : NimStr := str "io-mon-breakaway-report v1"

def BreakawayReportCompleteToken : NimStr := str "complete"

/-- The facts of this invocation a report is checked against. -/
structure BreakawayAuthContext where
  runId : NimStr
  connectedPeers : List NimStr
  validNonces : List NimStr
  inTreeOutputPaths : List NimStr
  inTreeOutputInos : List NimStr
  deriving DecidableEq, Repr

/-- `comparableReportPath` outside Windows: paths compare as they are spelled. -/
def comparableReportPath (path : NimStr) : NimStr := path

/-- `client:daemon`, both in decimal. -/
def peerPair (client daemon : UInt64) : NimStr := decimal client ++ str ":" ++ decimal daemon

/-- A record of something a monitored process wrote. -/
def isOutputWrite (r : MonitorRecord) : Bool :=
  r.observationKind == moFileWrite && !r.path.isEmpty

/-- The `dev:ino` identity a write record carries. -/
def outputIno (r : MonitorRecord) : Option NimStr :=
  let dev := detailToken r.detail (str "dev")
  let ino := detailToken r.detail (str "ino")
  if !dev.isEmpty && !ino.isEmpty then some (dev ++ str ":" ++ ino) else none

/-- The run id a process-start or a connection was stamped with. -/
def recordRunId (r : MonitorRecord) : Option NimStr :=
  if r.kind == mrProcessStart || r.kind == mrIpcConnect then
    let run := trustedDetailToken r.detail RunIdToken
    if run.isEmpty then none else some run
  else none

def connectedPeer (r : MonitorRecord) : Option NimStr :=
  if r.kind == mrIpcConnect && r.childOsPid != 0 then some (peerPair r.osPid r.childOsPid)
  else none

def connectionNonce (r : MonitorRecord) : Option NimStr :=
  if r.kind == mrIpcConnect then
    let nonce := trustedDetailToken r.detail NonceToken
    if nonce.isEmpty then none else some nonce
  else none

/-- `breakawayAuthContext`: the run id is the first one recorded, the rest are sets. -/
def breakawayAuthContext (records : List MonitorRecord) : BreakawayAuthContext where
  runId := ((records.filterMap recordRunId).head?).getD []
  connectedPeers := records.filterMap connectedPeer
  validNonces := records.filterMap connectionNonce
  inTreeOutputPaths := (records.filter isOutputWrite).flatMap fun r =>
    [r.path, comparableReportPath r.path]
  inTreeOutputInos := (records.filter isOutputWrite).filterMap outputIno

/-! ## 2. A report file -/

/-- One entry of the report directory as the merge can see it: its path, its real path and
`(device, inode)` when those calls succeed, and its content when it can be read. -/
structure ReportEntry where
  isFile : Bool
  path : NimStr
  realPath : Option NimStr
  fileId : Option (UInt64 × UInt64)
  content : Option NimStr
  deriving DecidableEq, Repr

/-- The report was written by a monitored process, by path or by file identity. -/
def reportAuthoredInTree (e : ReportEntry) (auth : BreakawayAuthContext) : Bool :=
  if auth.inTreeOutputPaths.isEmpty && auth.inTreeOutputInos.isEmpty then false
  else
    auth.inTreeOutputPaths.contains e.path ||
      auth.inTreeOutputPaths.contains (comparableReportPath e.path) ||
      (match e.realPath with
        | some real => auth.inTreeOutputPaths.contains real
        | none => false) ||
      (!auth.inTreeOutputInos.isEmpty &&
        match e.fileId with
        | some (dev, ino) => auth.inTreeOutputInos.contains (decimal dev ++ str ":" ++ decimal ino)
        | none => false)

/-- The fields of a report, with the flags that reject a repeated directive. -/
structure BreakawayReport where
  clientPid : UInt64 := 0
  daemonPid : UInt64 := 0
  reportRun : NimStr := []
  reportNonce : NimStr := []
  declaredComplete : Bool := false
  sawClient : Bool := false
  sawDaemon : Bool := false
  sawRun : Bool := false
  sawNonce : Bool := false
  readPaths : List NimStr := []
  deriving DecidableEq, Repr

/-- One directive `key value`; `none` makes the report malformed. -/
def reportDirective (rep : BreakawayReport) (key value : NimStr) : Option BreakawayReport :=
  if key = str "client" then
    if rep.sawClient then none
    else (parseBiggestUInt value).map fun pid => { rep with sawClient := true, clientPid := pid }
  else if key = str "daemon" then
    if rep.sawDaemon then none
    else (parseBiggestUInt value).map fun pid => { rep with sawDaemon := true, daemonPid := pid }
  else if key = str "run" then
    if rep.sawRun then none else some { rep with sawRun := true, reportRun := value }
  else if key = str "nonce" then
    if rep.sawNonce then none else some { rep with sawNonce := true, reportNonce := value }
  else none

/-- One line of a report.  A read path may hold blanks, so it is cut from the line itself. -/
def reportLine (rep : BreakawayReport) (rawLine : NimStr) : Option BreakawayReport :=
  let line := strip rawLine
  if line.isEmpty || line == BreakawayReportMagic then some rep
  else if line == BreakawayReportCompleteToken then
    if rep.declaredComplete then none else some { rep with declaredComplete := true }
  else
    match tokens line with
    | key :: value :: rest =>
      if key = str "read" then
        let readPath := strip (line.drop 4)
        if readPath.isEmpty then none
        else some { rep with readPaths := rep.readPaths ++ [readPath] }
      else if !rest.isEmpty then none
      else reportDirective rep key value
    | _ => none

/-- The first line that is not blank is the magic, as it is spelled. -/
def hasMagic (content : NimStr) : Bool :=
  match (splitLines content).find? fun line => !(strip line).isEmpty with
  | some line => line == BreakawayReportMagic
  | none => false

def parseReport (content : NimStr) : Option BreakawayReport :=
  if hasMagic content then (splitLines content).foldlM reportLine {} else none

/-! ## 3. Authentication -/

/-- The five criteria, in the order of the source. -/
def reportAuthentic (monitored : List UInt64) (auth : BreakawayAuthContext)
    (rep : BreakawayReport) : Bool :=
  (rep.clientPid != 0 && monitored.contains rep.clientPid) &&
  (!auth.runId.isEmpty && rep.reportRun == auth.runId) &&
  (rep.daemonPid != 0 && auth.connectedPeers.contains (peerPair rep.clientPid rep.daemonPid)) &&
  (rep.reportNonce.isEmpty || auth.validNonces.contains rep.reportNonce) &&
  (rep.declaredComplete && rep.readPaths.any fun p => !p.isEmpty)

/-- The report of a directory entry, if the entry is a report that is trusted. -/
def acceptedReport (monitored : List UInt64) (auth : BreakawayAuthContext) (e : ReportEntry) :
    Option BreakawayReport :=
  if !e.isFile || !endsWith e.path BreakawayReportExt then none
  else if reportAuthoredInTree e auth then none
  else
    match e.content with
    | none => none
    | some content =>
      match parseReport content with
      | none => none
      | some rep => if reportAuthentic monitored auth rep then some rep else none

/-- What the merge keeps of the accepted reports. -/
structure BreakawayFold where
  reads : List MonitorRecord
  trustedPeerPids : List UInt64
  deriving DecidableEq, Repr

/-- The dependencies an accepted report contributes. -/
def reportReads (rep : BreakawayReport) : List MonitorRecord :=
  (rep.readPaths.filter fun p => !p.isEmpty).map fun p =>
    { kind := mrFileRead, observationKind := moFileRead, osPid := rep.clientPid, path := p
      detail := str "breakaway-daemon-report daemon=" ++ decimal rep.daemonPid }

def acceptedReports (reportDir : List ReportEntry) (monitored : List UInt64)
    (auth : BreakawayAuthContext) : List BreakawayReport :=
  reportDir.filterMap (acceptedReport monitored auth)

def loadBreakawayReports (reportDir : List ReportEntry) (monitored : List UInt64)
    (auth : BreakawayAuthContext) : BreakawayFold where
  reads := (acceptedReports reportDir monitored auth).flatMap reportReads
  trustedPeerPids := (acceptedReports reportDir monitored auth).map (·.daemonPid)

/-! ## 4. What acceptance rests on -/

/-- The trusted pids are the daemon pids of the accepted reports. -/
theorem mem_trustedPeerPids {dir : List ReportEntry} {monitored : List UInt64}
    {auth : BreakawayAuthContext} {pid : UInt64} :
    pid ∈ (loadBreakawayReports dir monitored auth).trustedPeerPids ↔
      ∃ rep ∈ acceptedReports dir monitored auth, rep.daemonPid = pid := by
  simp only [loadBreakawayReports, List.mem_map]

theorem acceptedReport_authentic {monitored : List UInt64} {auth : BreakawayAuthContext}
    {e : ReportEntry} {rep : BreakawayReport} (h : acceptedReport monitored auth e = some rep) :
    reportAuthentic monitored auth rep = true ∧ reportAuthoredInTree e auth = false := by
  unfold acceptedReport at h
  split at h
  · exact absurd h (by simp)
  split at h
  · exact absurd h (by simp)
  rename_i htree
  split at h
  · exact absurd h (by simp)
  split at h
  · exact absurd h (by simp)
  split at h
  · rename_i hauth
    rw [Option.some.injEq] at h
    exact ⟨h ▸ hauth, by simpa using htree⟩
  · exact absurd h (by simp)

/-- Two pid pairs with one spelling are one pair: the colon is no digit. -/
theorem peerPair_injective {c d c' d' : UInt64} (h : peerPair c d = peerPair c' d') :
    c = c' ∧ d = d' := by
  have hcolon : ∀ n : UInt64, (58 : UInt8) ∉ decimal n := decimal_not_mem (by decide)
  have hsplit : ∀ a b : UInt64, splitFirst 58 (peerPair a b) = some (decimal a, decimal b) := by
    intro a b
    have : peerPair a b = decimal a ++ 58 :: decimal b := by
      rw [peerPair, show str ":" = [58] from by decide, List.append_assoc, List.singleton_append]
    rw [this, splitFirst_append 58 _ _ (hcolon a)]
  have := hsplit c d
  rw [h, hsplit c' d', Option.some.injEq, Prod.mk.injEq] at this
  exact ⟨(decimal_injective this.1).symm, (decimal_injective this.2).symm⟩

/-- **A connected pair was observed**: some connection record has exactly these two pids. -/
theorem mem_connectedPeers {records : List MonitorRecord} {client daemon : UInt64} :
    peerPair client daemon ∈ (breakawayAuthContext records).connectedPeers ↔
      ∃ r ∈ records, r.kind = mrIpcConnect ∧ r.childOsPid ≠ 0 ∧ r.osPid = client ∧
        r.childOsPid = daemon := by
  simp only [breakawayAuthContext, List.mem_filterMap, connectedPeer]
  constructor
  · rintro ⟨r, hr, h⟩
    split at h
    · rename_i hk
      simp only [Bool.and_eq_true, beq_iff_eq, bne_iff_ne, ne_eq] at hk
      obtain ⟨h1, h2⟩ := peerPair_injective (Option.some.inj h)
      exact ⟨r, hr, hk.1, hk.2, h1, h2⟩
    · exact absurd h (by simp)
  · rintro ⟨r, hr, hk, hne, rfl, rfl⟩
    exact ⟨r, hr, by rw [if_pos (by simp [hk, hne])]⟩

/-- **What an accepted report rests on**: a monitored client, this run, and a recorded connection
from that client to that daemon. -/
theorem reportAuthentic_spec {monitored : List UInt64} {records : List MonitorRecord}
    {rep : BreakawayReport}
    (h : reportAuthentic monitored (breakawayAuthContext records) rep = true) :
    rep.clientPid ∈ monitored ∧ rep.reportRun = (breakawayAuthContext records).runId ∧
      rep.declaredComplete = true ∧
      ∃ r ∈ records, r.kind = mrIpcConnect ∧ r.osPid = rep.clientPid ∧
        r.childOsPid = rep.daemonPid := by
  simp only [reportAuthentic, Bool.and_eq_true, beq_iff_eq, List.contains_iff_mem] at h
  obtain ⟨⟨⟨⟨⟨_, hclient⟩, _, hrun⟩, _, hpeer⟩, _⟩, hcomplete, _⟩ := h
  obtain ⟨r, hr, hk, _, hc, hd⟩ := mem_connectedPeers.mp hpeer
  exact ⟨hclient, hrun, hcomplete, r, hr, hk, hc, hd⟩

/-! ## 5. What authentication reads

The context is a run id, two lists taken from the connections, and two sets; reports are judged
alike by two contexts that agree on those. -/

/-- The two contexts agree up to the order and multiplicity of the output sets. -/
structure BreakawayAuthContext.Agrees (a b : BreakawayAuthContext) : Prop where
  runId : a.runId = b.runId
  connectedPeers : a.connectedPeers = b.connectedPeers
  validNonces : a.validNonces = b.validNonces
  paths : ∀ p, p ∈ a.inTreeOutputPaths ↔ p ∈ b.inTreeOutputPaths
  inos : ∀ i, i ∈ a.inTreeOutputInos ↔ i ∈ b.inTreeOutputInos

theorem contains_congr {α : Type} [BEq α] [LawfulBEq α] {l l' : List α}
    (h : ∀ p, p ∈ l ↔ p ∈ l') (p : α) : l.contains p = l'.contains p := by
  rw [Bool.eq_iff_iff, List.contains_iff_mem, List.contains_iff_mem, h]

theorem isEmpty_congr {l l' : List NimStr} (h : ∀ p, p ∈ l ↔ p ∈ l') :
    l.isEmpty = l'.isEmpty := by
  rw [Bool.eq_iff_iff, List.isEmpty_iff, List.isEmpty_iff, List.eq_nil_iff_forall_not_mem,
    List.eq_nil_iff_forall_not_mem]
  simp only [h]

/-- The two contexts agree on the run, and as sets on everything else. -/
structure BreakawayAuthContext.SameFacts (a b : BreakawayAuthContext) : Prop where
  runId : a.runId = b.runId
  connectedPeers : ∀ p, p ∈ a.connectedPeers ↔ p ∈ b.connectedPeers
  validNonces : ∀ n, n ∈ a.validNonces ↔ n ∈ b.validNonces
  paths : ∀ p, p ∈ a.inTreeOutputPaths ↔ p ∈ b.inTreeOutputPaths
  inos : ∀ i, i ∈ a.inTreeOutputInos ↔ i ∈ b.inTreeOutputInos

/-- **Acceptance reads sets**, apart from the run id. -/
theorem acceptedReport_of_sameFacts {a b : BreakawayAuthContext} (h : a.SameFacts b)
    {monitored monitored' : List UInt64} (hmon : ∀ pid, pid ∈ monitored ↔ pid ∈ monitored')
    (e : ReportEntry) : acceptedReport monitored a e = acceptedReport monitored' b e := by
  have htree : reportAuthoredInTree e a = reportAuthoredInTree e b := by
    simp only [reportAuthoredInTree, contains_congr h.paths, contains_congr h.inos,
      isEmpty_congr h.paths, isEmpty_congr h.inos]
  have hauth : ∀ rep, reportAuthentic monitored a rep = reportAuthentic monitored' b rep := by
    intro rep
    simp only [reportAuthentic, contains_congr hmon, h.runId, contains_congr h.connectedPeers,
      contains_congr h.validNonces]
  simp only [acceptedReport, htree, hauth]

theorem acceptedReport_congr {a b : BreakawayAuthContext} (h : a.Agrees b)
    (monitored : List UInt64) (e : ReportEntry) :
    acceptedReport monitored a e = acceptedReport monitored b e := by
  refine acceptedReport_of_sameFacts ⟨h.runId, fun p => ?_, fun n => ?_, h.paths, h.inos⟩
    (fun _ => Iff.rfl) e
  · rw [h.connectedPeers]
  · rw [h.validNonces]

end IoMon
