/-
# What an exemption rests on

A connection to a peer outside the tree is a loss, unless the peer is a trusted daemon.  Trust
starts as an authenticated report (client, daemon, run) and ends as a set of bare pids that two
later passes consult.  This module relates the two ends: every exemption either pass grants has
an accepted report behind it, whose client is a monitored process of this run and was seen
connecting to that daemon pid.

What is lost on the way is the client and the start time.  One report exempts every client's
connection to the daemon pid, and every process that holds the pid.
-/
import IoMon.Merge.Passes

namespace IoMon

open ByteText Keyed MonitorRecordKind MonitorObservationKind

/-! ## 1. The fold as the two passes see it -/

/-- The reports of the directory that authenticate against these records. -/
def trustedReports (records : List MonitorRecord) (dir : List ReportEntry) :
    List BreakawayReport :=
  acceptedReports dir (monitoredStartPids records) (breakawayAuthContext records)

/-- The fold of the directory over these records. -/
def reportFold (records : List MonitorRecord) (dir : List ReportEntry) : BreakawayFold :=
  loadBreakawayReports dir (monitoredStartPids records) (breakawayAuthContext records)

/-- The records with the daemons' reads added. -/
def foldedRecords (records : List MonitorRecord) (dir : List ReportEntry) :
    List MonitorRecord :=
  records ++ (reportFold records dir).reads

/-- The connection's peer is no monitored process. -/
def peerOutOfTree (records : List MonitorRecord) (r : MonitorRecord) : Bool :=
  r.kind == mrIpcConnect &&
    !childIsMonitored r.childOsPid (trustedDetailToken r.detail PeerStartTimeToken)
      (processStartIdentities records)

/-- The channel has no producer inside the tree. -/
def producerOutOfTree (records : List MonitorRecord) (r : MonitorRecord) : Bool :=
  !(consumeKey records r).isEmpty &&
    !childIsMonitored r.childOsPid (detailToken r.detail PeerStartTimeToken)
      (processStartIdentities records)

/-- The subtree pass reports no external-peer loss for the record's peer. -/
def peerExempt (records : List MonitorRecord) (trusted : List UInt64) (r : MonitorRecord) : Bool :=
  (ipcLosses records trusted).all fun loss => loss.1 != peerKey r

/-- The content pass reports no loss for the record's channel. -/
def channelExempt (records : List MonitorRecord) (trusted : List UInt64) (r : MonitorRecord) :
    Bool :=
  (externalContentLosses records trusted).all fun loss => loss.1 != consumeKey records r

/-- **The report behind an exemption** of a daemon pid. -/
structure Vouches (records : List MonitorRecord) (dir : List ReportEntry) (daemon : UInt64)
    (rep : BreakawayReport) : Prop where
  accepted : rep ∈ trustedReports records dir
  daemonPid : rep.daemonPid = daemon
  client : rep.clientPid ∈ monitoredStartPids records
  run : rep.reportRun = (breakawayAuthContext records).runId
  complete : rep.declaredComplete = true
  connected : ∃ r ∈ records, r.kind = mrIpcConnect ∧ r.osPid = rep.clientPid ∧
    r.childOsPid = daemon

/-! ## 2. From a trusted pid back to its report -/

/-- **A trusted pid is vouched for.** -/
theorem exists_vouches {records : List MonitorRecord} {dir : List ReportEntry} {pid : UInt64}
    (h : pid ∈ (reportFold records dir).trustedPeerPids) : ∃ rep, Vouches records dir pid rep := by
  obtain ⟨rep, hrep, rfl⟩ := mem_trustedPeerPids.mp h
  obtain ⟨e, _, he⟩ := List.mem_filterMap.mp hrep
  obtain ⟨hclient, hrun, hcomplete, hconn⟩ := reportAuthentic_spec (acceptedReport_authentic he).1
  exact ⟨rep, hrep, rfl, hclient, hrun, hcomplete, hconn⟩

/-- A connection the pass is silent about was accounted for. -/
theorem peerAccounted_of_exempt {records : List MonitorRecord} {trusted : List UInt64}
    {r : MonitorRecord} (hr : r ∈ records) (hk : r.kind = mrIpcConnect)
    (h : peerExempt records trusted r = true) :
    peerAccounted (processStartIdentities records) trusted r = true := by
  by_contra hna
  have hloss : ipcLoss (processStartIdentities records) trusted r =
      some (peerKey r, .ipcPeer r.osPid r.childOsPid
        (trustedDetailToken r.detail PeerStartTimeToken)
        (trustedDetailToken r.detail PeerUidToken) r.path) := by
    rw [ipcLoss, if_pos (by simp [hk, hna])]
  obtain ⟨q, hq, hkey⟩ := exists_mem_firstPerKey (List.mem_filterMap.mpr ⟨r, hr, hloss⟩)
  have := List.all_eq_true.mp h q hq
  exact absurd hkey (by simpa using this)

/-- A channel the pass is silent about has an accounted producer. -/
theorem producerAccounted_of_exempt {records : List MonitorRecord} {trusted : List UInt64}
    {r : MonitorRecord} (hr : r ∈ records) (hk : (consumeKey records r).isEmpty = false)
    (h : channelExempt records trusted r = true) :
    producerAccounted (processStartIdentities records) trusted r = true := by
  by_contra hna
  have hloss : contentLoss records trusted r = some (consumeKey records r, r) := by
    rw [contentLoss, if_neg (by simp [hk]), if_neg hna]
  obtain ⟨q, hq, hkey⟩ := exists_mem_firstPerKey (List.mem_filterMap.mpr ⟨r, hr, hloss⟩)
  have := List.all_eq_true.mp h q hq
  exact absurd hkey (by simpa using this)

theorem trusted_of_peerAccounted {records : List MonitorRecord} {trusted : List UInt64}
    {r : MonitorRecord} (hout : peerOutOfTree records r = true)
    (h : peerAccounted (processStartIdentities records) trusted r = true) :
    r.childOsPid ∈ trusted := by
  simp only [peerOutOfTree, Bool.and_eq_true, Bool.not_eq_true'] at hout
  simp only [peerAccounted, hout.2, Bool.false_or, Bool.and_eq_true, List.contains_iff_mem] at h
  exact h.2

theorem trusted_of_producerAccounted {records : List MonitorRecord} {trusted : List UInt64}
    {r : MonitorRecord} (hout : producerOutOfTree records r = true)
    (h : producerAccounted (processStartIdentities records) trusted r = true) :
    r.childOsPid ∈ trusted := by
  simp only [producerOutOfTree, Bool.and_eq_true, Bool.not_eq_true'] at hout
  simp only [producerAccounted, hout.2, Bool.false_or, Bool.and_eq_true,
    List.contains_iff_mem] at h
  exact h.2

/-! ## 3. Every exemption is vouched for -/

/-- **Every exemption has an accepted report for that daemon pid**, in both passes: its client
is a monitored process that was itself recorded connecting to the pid, and its run is this
run. -/
theorem exemption_vouched (records : List MonitorRecord) (dir : List ReportEntry) :
    (∀ r ∈ foldedRecords records dir, peerOutOfTree (foldedRecords records dir) r = true →
      peerExempt (foldedRecords records dir) (reportFold records dir).trustedPeerPids r = true →
      ∃ rep, Vouches records dir r.childOsPid rep) ∧
    (∀ r ∈ foldedRecords records dir, producerOutOfTree (foldedRecords records dir) r = true →
      channelExempt (foldedRecords records dir) (reportFold records dir).trustedPeerPids r = true →
      ∃ rep, Vouches records dir r.childOsPid rep) := by
  constructor
  · intro r hr hout hexempt
    have hk : r.kind = mrIpcConnect := by
      simp only [peerOutOfTree, Bool.and_eq_true, beq_iff_eq] at hout
      exact hout.1
    have hacc := peerAccounted_of_exempt hr hk hexempt
    exact exists_vouches (trusted_of_peerAccounted hout hacc)
  · intro r hr hout hexempt
    have hk : (consumeKey (foldedRecords records dir) r).isEmpty = false := by
      simp only [producerOutOfTree, Bool.and_eq_true, Bool.not_eq_true'] at hout
      exact hout.1
    have hacc := producerAccounted_of_exempt hr hk hexempt
    exact exists_vouches (trusted_of_producerAccounted hout hacc)

/-! ## 4. The exemption is by daemon pid alone -/

/-- Process-starts of the clients 10 and 11 in run `R`. -/
def clientStarts : List MonitorRecord :=
  [10, 11].map fun pid =>
    { kind := mrProcessStart, observationKind := moProcessStart, osPid := pid
      detail := str "run=R" }

/-- A connection to pid 99, stamped with the start time its holder had. -/
def connectTo99 (client : UInt64) (start : NimStr) : MonitorRecord where
  kind := mrIpcConnect
  observationKind := moIpcConnect
  osPid := client
  childOsPid := 99
  path := str "/run/d.sock"
  detail := str "peerstart=" ++ start

/-- The report of daemon 99 for client 10. -/
def reportForClient10 : ReportEntry where
  isFile := true
  path := str "/r/d.io-mon-report"
  realPath := some (str "/r/d.io-mon-report")
  fileId := none
  content := some (str
    "io-mon-breakaway-report v1\nrun R\nclient 10\ndaemon 99\nread /src/a.h\ncomplete\n")

/-- Client 10 and client 11 reach the same daemon. -/
def sharedDaemon : List MonitorRecord :=
  clientStarts ++ [connectTo99 10 (str "500"), connectTo99 11 (str "500")]

/-- Client 10 reaches pid 99, and later another process that was given pid 99. -/
def recycledDaemon : List MonitorRecord :=
  clientStarts ++ [connectTo99 10 (str "500"), connectTo99 10 (str "900")]

/-- What the fold makes of the report: one dependency and one pid. -/
theorem reportFold_client10 {records : List MonitorRecord}
    (h : (trustedReports records [reportForClient10]).map
      (fun rep => (rep.clientPid, rep.daemonPid, rep.readPaths)) = [(10, 99, [str "/src/a.h"])]) :
    (∀ rep ∈ trustedReports records [reportForClient10], rep.clientPid = 10) ∧
    (reportFold records [reportForClient10]).trustedPeerPids = [99] ∧
    foldedRecords records [reportForClient10] = records ++
      [{ kind := mrFileRead, observationKind := moFileRead, osPid := 10, path := str "/src/a.h"
         detail := str "breakaway-daemon-report daemon=" ++ decimal 99 }] := by
  obtain ⟨rep, hrep, hfields⟩ := List.map_eq_singleton_iff.mp h
  obtain ⟨hc, hd, hp⟩ : rep.clientPid = 10 ∧ rep.daemonPid = 99 ∧
      rep.readPaths = [str "/src/a.h"] := by simpa using hfields
  have hnonempty : (!(str "/src/a.h").isEmpty) = true := by decide
  rw [foldedRecords, reportFold, loadBreakawayReports]
  rw [show acceptedReports _ _ _ = [rep] from hrep]
  refine ⟨?_, ?_, ?_⟩
  · intro rep' hrep'
    rw [hrep, List.mem_singleton] at hrep'
    rw [hrep', hc]
  · rw [List.map_singleton, hd]
  · rw [List.flatMap_singleton, reportReads, hp, hc, hd, List.filter_singleton, hnonempty,
      cond_true, List.map_singleton]

theorem sharedDaemon_reports : (trustedReports sharedDaemon [reportForClient10]).map
    (fun rep => (rep.clientPid, rep.daemonPid, rep.readPaths)) = [(10, 99, [str "/src/a.h"])] := by
  decide +kernel

theorem recycledDaemon_reports : (trustedReports recycledDaemon [reportForClient10]).map
    (fun rep => (rep.clientPid, rep.daemonPid, rep.readPaths)) = [(10, 99, [str "/src/a.h"])] := by
  decide +kernel

theorem exemption_vouched_sharedDaemon :
    ∃ rep, Vouches sharedDaemon [reportForClient10] 99 rep := by
  obtain ⟨_, htrusted, hfold⟩ := reportFold_client10 sharedDaemon_reports
  refine (exemption_vouched sharedDaemon [reportForClient10]).1 (connectTo99 11 (str "500"))
    ?_ ?_ ?_
  · rw [hfold]; decide +kernel
  · rw [hfold]; decide +kernel
  · rw [hfold, htrusted]; decide +kernel

/-- The report for client 10 exempts client 11, and it exempts two processes that held pid 99
one after the other. -/
theorem exemption_perClient_refuted :
    (¬ ∀ (records : List MonitorRecord) (dir : List ReportEntry),
      ∀ r ∈ foldedRecords records dir, r.osPid ∈ monitoredStartPids records →
        peerOutOfTree (foldedRecords records dir) r = true →
        peerExempt (foldedRecords records dir) (reportFold records dir).trustedPeerPids r = true →
        ∃ rep ∈ trustedReports records dir,
          rep.clientPid = r.osPid ∧ rep.daemonPid = r.childOsPid) ∧
    (¬ ∀ (records : List MonitorRecord) (dir : List ReportEntry),
      (trustedReports records dir).length = 1 →
      ∀ r ∈ foldedRecords records dir, ∀ r' ∈ foldedRecords records dir,
        peerOutOfTree (foldedRecords records dir) r = true →
        peerOutOfTree (foldedRecords records dir) r' = true →
        peerExempt (foldedRecords records dir) (reportFold records dir).trustedPeerPids r = true →
        peerExempt (foldedRecords records dir) (reportFold records dir).trustedPeerPids r' = true →
        r.childOsPid = r'.childOsPid →
        trustedDetailToken r.detail PeerStartTimeToken =
          trustedDetailToken r'.detail PeerStartTimeToken) := by
  constructor
  · intro hclaim
    obtain ⟨honly, htrusted, hfold⟩ := reportFold_client10 sharedDaemon_reports
    obtain ⟨rep, hrep, hclient, _⟩ := hclaim sharedDaemon [reportForClient10]
      (connectTo99 11 (str "500")) (by rw [hfold]; decide +kernel) (by decide +kernel)
      (by rw [hfold]; decide +kernel) (by rw [hfold, htrusted]; decide +kernel)
    rw [honly rep hrep] at hclient
    exact absurd hclient (by decide)
  · intro hclaim
    obtain ⟨_, htrusted, hfold⟩ := reportFold_client10 recycledDaemon_reports
    have := hclaim recycledDaemon [reportForClient10]
      (by rw [← List.length_map, recycledDaemon_reports]; rfl)
      (connectTo99 10 (str "500")) (by rw [hfold]; decide +kernel)
      (connectTo99 10 (str "900")) (by rw [hfold]; decide +kernel)
      (by rw [hfold]; decide +kernel) (by rw [hfold]; decide +kernel)
      (by rw [hfold, htrusted]; decide +kernel) (by rw [hfold, htrusted]; decide +kernel) rfl
    exact absurd this (by decide +kernel)

end IoMon
