/-
# Loss inference: earning the verdict

The merge sees every monitored process's records, so it can look for evidence that some part of
the build ran unobserved.  `unmonitoredSubtreeLossDetails` has three signals:

  * **(a)** a spawn whose child never emitted a process-start;
  * **(b)** a pid whose exec tally has caught up with its process-start count, so that its last
    image never loaded the shim -- for pids whose spawn was recorded only;
  * **(c)** an IPC connect to a peer that is neither monitored nor a trusted daemon.

`externalContentLossCount` adds the content channels (shared memory, fifos, inherited pipes and
sockets) that were consumed in the tree and fed from outside it.

Each pass reports a subject once; the sections below give the passes as the source runs them and,
for each, the condition under which it reports nothing.
-/
import IoMon.Lib.Keyed
import IoMon.Detail

namespace IoMon

open ByteText Keyed MonitorRecordKind

/-! ## 1. Losses and their texts -/

/-- One piece of evidence that something ran unobserved. -/
inductive SubtreeLoss
  | spawnChild (parent child : UInt64) (childStart path : NimStr)
  | execImage (pid : UInt64) (execs starts : Nat) (image : NimStr)
  | ipcPeer (pid peer : UInt64) (peerStart peerUid path : NimStr)
  deriving DecidableEq, Repr

/-- The text the merge puts behind its event-loss prefix. -/
def SubtreeLoss.detail : SubtreeLoss → NimStr
  | spawnChild parent child childStart path =>
    str "spawn child missing process-start parent=" ++ decimal parent ++ str " child=" ++
      decimal child ++ str " childstart=" ++ childStart ++ str " path=" ++ path
  | execImage pid execs starts image =>
    str "exec without post-exec process-start pid=" ++ decimal pid ++ str " execs=" ++
      decimal (UInt64.ofNat execs) ++ str " starts=" ++ decimal (UInt64.ofNat starts) ++
      (if image.isEmpty then [] else str " image=" ++ image)
  | ipcPeer pid peer peerStart peerUid path =>
    str "ipc peer outside monitored tree pid=" ++ decimal pid ++ str " peer=" ++ decimal peer ++
      str " peerstart=" ++ peerStart ++
      (if peerUid.isEmpty then [] else str " peeruid=" ++ peerUid) ++ str " path=" ++ path

/-! ## 2. Signal (a): spawned children -/

/-- A spawn record that names a child other than its own process. -/
def namesChild (r : MonitorRecord) : Bool :=
  r.kind == mrProcessSpawn && r.childOsPid != 0 && r.childOsPid != r.osPid

/-- The child of this spawn is accounted for. -/
def spawnAccounted (m : MonitoredProcs) (r : MonitorRecord) : Bool :=
  !detailTokenDuplicate r.detail ChildStartTimeToken &&
    childIsMonitored r.childOsPid (trustedDetailToken r.detail ChildStartTimeToken) m

def spawnLoss (m : MonitoredProcs) (r : MonitorRecord) : Option (ProcIdentity × SubtreeLoss) :=
  if namesChild r && !spawnAccounted m r then
    let childStart := trustedDetailToken r.detail ChildStartTimeToken
    some ((r.childOsPid, childStart), .spawnChild r.osPid r.childOsPid childStart r.path)
  else none

def spawnLosses (records : List MonitorRecord) : List SubtreeLoss :=
  (firstPerKey (records.filterMap (spawnLoss (processStartIdentities records)))).map (·.2)

/-! ## 3. Signal (b): exec accounting -/

/-- The follow-up record of an exec that returned. -/
def execFailed (r : MonitorRecord) : Bool :=
  detailToken r.detail ExecStatusToken == str "failed"

def startCount (records : List MonitorRecord) (pid : UInt64) : Nat :=
  records.countP fun r => r.kind == mrProcessStart && r.osPid == pid

def execCount (records : List MonitorRecord) (pid : UInt64) : Nat :=
  records.countP fun r => r.kind == mrProcessExec && r.osPid == pid && !execFailed r

def execFailedCount (records : List MonitorRecord) (pid : UInt64) : Nat :=
  records.countP fun r => r.kind == mrProcessExec && r.osPid == pid && execFailed r

/-- The image of the pid's last exec record that is no failure follow-up. -/
def lastExecPath (records : List MonitorRecord) (pid : UInt64) : NimStr :=
  (((records.filter fun r => r.kind == mrProcessExec && r.osPid == pid && !execFailed r &&
    !r.path.isEmpty).map (·.path)).getLast?).getD []

/-- `pidsWithAnchoredSpawn`: some spawn record names the pid as its child. -/
def anchored (records : List MonitorRecord) (pid : UInt64) : Bool :=
  records.any fun r => namesChild r && r.childOsPid == pid

/-- The exec tally: failed execs do not count. -/
def effectiveExecs (records : List MonitorRecord) (pid : UInt64) : Int :=
  (execCount records pid : Int) - execFailedCount records pid

/-- Signal (b) at one pid. -/
def execTrips (records : List MonitorRecord) (pid : UInt64) : Bool :=
  anchored records pid && decide (0 < effectiveExecs records pid) &&
    decide ((startCount records pid : Int) ≤ effectiveExecs records pid)

def execLoss (records : List MonitorRecord) (pid : UInt64) : Option SubtreeLoss :=
  if execTrips records pid then
    some (.execImage pid (effectiveExecs records pid).toNat (startCount records pid)
      (lastExecPath records pid))
  else none

/-- The keys of the exec table. -/
def execPids (records : List MonitorRecord) : List UInt64 :=
  ((records.filter fun r => r.kind == mrProcessExec && !execFailed r).map (·.osPid)).dedup

def execLosses (records : List MonitorRecord) : List SubtreeLoss :=
  (execPids records).filterMap (execLoss records)

/-! ## 4. Signal (c): IPC peers -/

/-- The peer is inside the tree, or a daemon that accounted for its reads. -/
def peerAccounted (m : MonitoredProcs) (trustedPeerPids : List UInt64) (r : MonitorRecord) :
    Bool :=
  r.childOsPid != 0 && !detailTokenDuplicate r.detail PeerStartTimeToken &&
    (childIsMonitored r.childOsPid (trustedDetailToken r.detail PeerStartTimeToken) m ||
      trustedPeerPids.contains r.childOsPid)

/-- The subject of an IPC loss: the peer with its start time and, when known, the endpoint. -/
def peerKey (r : MonitorRecord) : NimStr :=
  if r.childOsPid ≠ 0 then
    str "pid:" ++ decimal r.childOsPid ++ str "@" ++
      trustedDetailToken r.detail PeerStartTimeToken ++
      (if r.path.isEmpty then [] else str "|dest:" ++ r.path)
  else str "dest:" ++ r.path

def ipcLoss (m : MonitoredProcs) (trustedPeerPids : List UInt64) (r : MonitorRecord) :
    Option (NimStr × SubtreeLoss) :=
  if r.kind == mrIpcConnect && !peerAccounted m trustedPeerPids r then
    some (peerKey r, .ipcPeer r.osPid r.childOsPid
      (trustedDetailToken r.detail PeerStartTimeToken)
      (trustedDetailToken r.detail PeerUidToken) r.path)
  else none

def ipcLosses (records : List MonitorRecord) (trustedPeerPids : List UInt64) :
    List (NimStr × SubtreeLoss) :=
  firstPerKey (records.filterMap (ipcLoss (processStartIdentities records) trustedPeerPids))

/-! ## 5. The three signals together -/

def unmonitoredSubtreeLosses (records : List MonitorRecord) (trustedPeerPids : List UInt64) :
    List SubtreeLoss :=
  spawnLosses records ++ execLosses records ++ (ipcLosses records trustedPeerPids).map (·.2)

def unmonitoredSubtreeLossDetails (records : List MonitorRecord)
    (trustedPeerPids : List UInt64) : List NimStr :=
  (unmonitoredSubtreeLosses records trustedPeerPids).map SubtreeLoss.detail

/-- No spawn, no exec and no connection of the list is evidence of an unobserved process. -/
structure TreeAccounted (records : List MonitorRecord) (trustedPeerPids : List UInt64) : Prop where
  spawns : ∀ r ∈ records, namesChild r = true →
    spawnAccounted (processStartIdentities records) r = true
  execs : ∀ pid, execTrips records pid = false
  peers : ∀ r ∈ records, r.kind = mrIpcConnect →
    peerAccounted (processStartIdentities records) trustedPeerPids r = true

theorem spawnLosses_eq_nil {records : List MonitorRecord} :
    spawnLosses records = [] ↔ ∀ r ∈ records, namesChild r = true →
      spawnAccounted (processStartIdentities records) r = true := by
  simp only [spawnLosses, List.map_eq_nil_iff, firstPerKey_eq_nil, List.filterMap_eq_nil_iff,
    spawnLoss]
  refine forall_congr' fun r => forall_congr' fun _ => ?_
  cases namesChild r <;> cases spawnAccounted (processStartIdentities records) r <;> simp

theorem execCount_pos_iff {records : List MonitorRecord} {pid : UInt64} :
    0 < execCount records pid ↔ pid ∈ execPids records := by
  simp only [execCount, execPids, List.countP_pos_iff, List.mem_dedup, List.mem_map,
    List.mem_filter, Bool.and_eq_true, beq_iff_eq]
  constructor
  · rintro ⟨r, hr, ⟨hk, hp⟩, hf⟩
    exact ⟨r, ⟨hr, hk, hf⟩, hp⟩
  · rintro ⟨r, ⟨hr, hk, hf⟩, hp⟩
    exact ⟨r, hr, ⟨hk, hp⟩, hf⟩

/-- Signal (b) can only trip at a key of the exec table, so visiting the keys is enough. -/
theorem mem_execPids_of_trips {records : List MonitorRecord} {pid : UInt64}
    (h : execTrips records pid = true) : pid ∈ execPids records := by
  simp only [execTrips, Bool.and_eq_true] at h
  have hpos : 0 < effectiveExecs records pid := of_decide_eq_true h.1.2
  unfold effectiveExecs at hpos
  rw [← execCount_pos_iff]
  omega

theorem execLosses_eq_nil {records : List MonitorRecord} :
    execLosses records = [] ↔ ∀ pid, execTrips records pid = false := by
  simp only [execLosses, List.filterMap_eq_nil_iff, execLoss]
  constructor
  · intro h pid
    cases ht : execTrips records pid with
    | false => rfl
    | true =>
      have := h pid (mem_execPids_of_trips ht)
      rw [if_pos ht] at this
      exact absurd this (by simp)
  · intro h pid _
    rw [if_neg (by simp [h pid])]

theorem ipcLosses_eq_nil {records : List MonitorRecord} {trusted : List UInt64} :
    ipcLosses records trusted = [] ↔ ∀ r ∈ records, r.kind = mrIpcConnect →
      peerAccounted (processStartIdentities records) trusted r = true := by
  simp only [ipcLosses, firstPerKey_eq_nil, List.filterMap_eq_nil_iff, ipcLoss]
  refine forall_congr' fun r => forall_congr' fun _ => ?_
  by_cases hk : r.kind = mrIpcConnect <;>
    cases peerAccounted (processStartIdentities records) trusted r <;> simp [hk]

/-- **When the subtree pass reports nothing.** -/
theorem unmonitoredSubtreeLosses_eq_nil {records : List MonitorRecord} {trusted : List UInt64} :
    unmonitoredSubtreeLosses records trusted = [] ↔ TreeAccounted records trusted := by
  simp only [unmonitoredSubtreeLosses, List.append_eq_nil_iff, List.map_eq_nil_iff,
    spawnLosses_eq_nil, execLosses_eq_nil, ipcLosses_eq_nil]
  constructor
  · rintro ⟨⟨ha, hb⟩, hc⟩
    exact ⟨ha, hb, hc⟩
  · rintro ⟨ha, hb, hc⟩
    exact ⟨⟨ha, hb⟩, hc⟩

/-! ## 6. Content channels -/

/-- The record describes this side of this channel class. -/
def isChannel (chan role : NimStr) (r : MonitorRecord) : Bool :=
  r.kind == mrExternalContent && detailToken r.detail ChanToken == chan &&
    detailToken r.detail RoleToken == role

/-- The paths at which the tree itself produced the channel. -/
def channelPaths (chan role : NimStr) (records : List MonitorRecord) : List NimStr :=
  (records.filter (isChannel chan role)).map (·.path)

/-- The dedup key of a consume with no in-tree producer side; empty when it is paired, when it is
no consume, and for an inherited descriptor whose identity is unknown. -/
def consumeKey (records : List MonitorRecord) (r : MonitorRecord) : NimStr :=
  if isChannel (str "shm") (str "attach") r then
    if (channelPaths (str "shm") (str "create") records).contains r.path then []
    else str "shm:" ++ r.path
  else if isChannel (str "fifo") (str "read") r then
    if (channelPaths (str "fifo") (str "write") records).contains r.path then []
    else str "fifo:" ++ r.path
  else if isChannel (str "opaque") (str "read") r then
    if (channelPaths (str "localfd") (str "create") records).contains r.path then []
    else r.path
  else []

/-- The kernel named the producer and it is inside the tree, or a trusted daemon. -/
def producerAccounted (m : MonitoredProcs) (trustedPeerPids : List UInt64) (r : MonitorRecord) :
    Bool :=
  r.childOsPid != 0 && !detailTokenDuplicate r.detail PeerStartTimeToken &&
    (childIsMonitored r.childOsPid (detailToken r.detail PeerStartTimeToken) m ||
      trustedPeerPids.contains r.childOsPid)

def contentLoss (records : List MonitorRecord) (trustedPeerPids : List UInt64)
    (r : MonitorRecord) : Option (NimStr × MonitorRecord) :=
  let key := consumeKey records r
  if key.isEmpty then none
  else if producerAccounted (processStartIdentities records) trustedPeerPids r then none
  else some (key, r)

def externalContentLosses (records : List MonitorRecord) (trustedPeerPids : List UInt64) :
    List (NimStr × MonitorRecord) :=
  firstPerKey (records.filterMap (contentLoss records trustedPeerPids))

def externalContentLossCount (records : List MonitorRecord) (trustedPeerPids : List UInt64) :
    Nat :=
  (externalContentLosses records trustedPeerPids).length

/-- Every consumed channel is paired in the tree or has an accounted producer. -/
def ContentAccounted (records : List MonitorRecord) (trustedPeerPids : List UInt64) : Prop :=
  ∀ r ∈ records, consumeKey records r ≠ [] →
    producerAccounted (processStartIdentities records) trustedPeerPids r = true

/-- **When the content pass reports nothing.** -/
theorem externalContentLossCount_eq_zero {records : List MonitorRecord} {trusted : List UInt64} :
    externalContentLossCount records trusted = 0 ↔ ContentAccounted records trusted := by
  simp only [externalContentLossCount, externalContentLosses, List.length_eq_zero_iff,
    firstPerKey_eq_nil, List.filterMap_eq_nil_iff, contentLoss, ContentAccounted]
  refine forall_congr' fun r => forall_congr' fun _ => ?_
  cases hk : consumeKey records r <;>
    cases producerAccounted (processStartIdentities records) trusted r <;> simp

/-! ## 7. What the passes read

Both passes read the records of five kinds only, so any list operation that keeps those records
and their order keeps the losses. -/

/-- The kinds the inference looks at. -/
def isEvidence (r : MonitorRecord) : Bool :=
  match r.kind with
  | mrProcessStart | mrProcessExec | mrProcessSpawn | mrIpcConnect | mrExternalContent => true
  | _ => false

def evidence (records : List MonitorRecord) : List MonitorRecord := records.filter isEvidence

theorem evidence_append (rs rs' : List MonitorRecord) :
    evidence (rs ++ rs') = evidence rs ++ evidence rs' := List.filter_append ..

theorem filter_evidence {p : MonitorRecord → Bool} (h : ∀ r, p r = true → isEvidence r = true)
    (rs : List MonitorRecord) : (evidence rs).filter p = rs.filter p := by
  rw [evidence, List.filter_filter]
  refine List.filter_congr fun r _ => ?_
  cases hp : p r with
  | false => rfl
  | true => rw [h r hp]; rfl

theorem filterMap_evidence {β : Type} {g : MonitorRecord → Option β}
    (h : ∀ r, isEvidence r = false → g r = none) (rs : List MonitorRecord) :
    (evidence rs).filterMap g = rs.filterMap g := by
  rw [evidence, List.filterMap_filter]
  refine List.filterMap_congr fun r _ => ?_
  cases he : isEvidence r with
  | false => rw [h r he]; rfl
  | true => rfl

theorem countP_evidence {p : MonitorRecord → Bool} (h : ∀ r, p r = true → isEvidence r = true)
    (rs : List MonitorRecord) : (evidence rs).countP p = rs.countP p := by
  rw [List.countP_eq_length_filter, List.countP_eq_length_filter, filter_evidence h]

section Reads

variable (rs : List MonitorRecord)

theorem isEvidence_of_kind {r : MonitorRecord} {k : MonitorRecordKind} (hk : r.kind = k)
    (h : k = mrProcessStart ∨ k = mrProcessExec ∨ k = mrProcessSpawn ∨ k = mrIpcConnect ∨
      k = mrExternalContent) : isEvidence r = true := by
  unfold isEvidence
  rw [hk]
  rcases h with rfl | rfl | rfl | rfl | rfl <;> rfl

theorem processStartIdentities_evidence :
    processStartIdentities (evidence rs) = processStartIdentities rs := by
  have hstart : identifiedStarts (evidence rs) = identifiedStarts rs := by
    refine filter_evidence (fun r h => ?_) rs
    simp only [Bool.and_eq_true, beq_iff_eq] at h
    exact isEvidence_of_kind h.1 (by simp)
  simp only [processStartIdentities, hstart]

theorem namesChild_isEvidence {r : MonitorRecord} (h : namesChild r = true) :
    isEvidence r = true := by
  simp only [namesChild, Bool.and_eq_true, beq_iff_eq] at h
  exact isEvidence_of_kind h.1.1 (by simp)

theorem isChannel_isEvidence {chan role : NimStr} {r : MonitorRecord}
    (h : isChannel chan role r = true) : isEvidence r = true := by
  simp only [isChannel, Bool.and_eq_true, beq_iff_eq] at h
  exact isEvidence_of_kind h.1.1 (by simp)

theorem execTrips_evidence (pid : UInt64) : execTrips (evidence rs) pid = execTrips rs pid := by
  have hanchor : anchored (evidence rs) pid = anchored rs pid := by
    simp only [anchored, evidence, List.any_filter]
    refine congrArg (List.any rs) (funext fun r => ?_)
    cases hn : namesChild r with
    | false => simp
    | true => rw [namesChild_isEvidence hn]; rfl
  have hexec : execCount (evidence rs) pid = execCount rs pid := by
    refine countP_evidence (fun r h => ?_) rs
    simp only [Bool.and_eq_true, beq_iff_eq] at h
    exact isEvidence_of_kind h.1.1 (by simp)
  have hfail : execFailedCount (evidence rs) pid = execFailedCount rs pid := by
    refine countP_evidence (fun r h => ?_) rs
    simp only [Bool.and_eq_true, beq_iff_eq] at h
    exact isEvidence_of_kind h.1.1 (by simp)
  have hstart : startCount (evidence rs) pid = startCount rs pid := by
    refine countP_evidence (fun r h => ?_) rs
    simp only [Bool.and_eq_true, beq_iff_eq] at h
    exact isEvidence_of_kind h.1 (by simp)
  have heff : effectiveExecs (evidence rs) pid = effectiveExecs rs pid := by
    rw [effectiveExecs, effectiveExecs, hexec, hfail]
  rw [execTrips, execTrips, hanchor, heff, hstart]

/-- **The subtree pass reads the evidence only.** -/
theorem treeAccounted_evidence (trusted : List UInt64) :
    TreeAccounted (evidence rs) trusted ↔ TreeAccounted rs trusted := by
  have hmem : ∀ {r : MonitorRecord}, isEvidence r = true → (r ∈ evidence rs ↔ r ∈ rs) := by
    intro r hr
    simp only [evidence, List.mem_filter, hr, and_true]
  constructor
  · rintro ⟨ha, hb, hc⟩
    rw [processStartIdentities_evidence] at ha hc
    refine ⟨fun r hr hn => ha r ((hmem (namesChild_isEvidence hn)).mpr hr) hn, fun pid => ?_,
      fun r hr hk => hc r ((hmem (isEvidence_of_kind hk (by simp))).mpr hr) hk⟩
    rw [← execTrips_evidence]
    exact hb pid
  · rintro ⟨ha, hb, hc⟩
    refine ⟨fun r hr hn => ?_, fun pid => ?_, fun r hr hk => ?_⟩
    · rw [processStartIdentities_evidence]
      exact ha r ((hmem (namesChild_isEvidence hn)).mp hr) hn
    · rw [execTrips_evidence]
      exact hb pid
    · rw [processStartIdentities_evidence]
      exact hc r ((hmem (isEvidence_of_kind hk (by simp))).mp hr) hk

theorem consumeKey_evidence (r : MonitorRecord) :
    consumeKey (evidence rs) r = consumeKey rs r := by
  have hpaths : ∀ chan role, channelPaths chan role (evidence rs) = channelPaths chan role rs := by
    intro chan role
    simp only [channelPaths, filter_evidence (fun r h => isChannel_isEvidence h)]
  simp only [consumeKey, hpaths]

theorem isEvidence_of_consumeKey {r : MonitorRecord} (h : consumeKey rs r ≠ []) :
    isEvidence r = true := by
  unfold consumeKey at h
  split at h
  · rename_i hc; exact isChannel_isEvidence hc
  split at h
  · rename_i hc; exact isChannel_isEvidence hc
  split at h
  · rename_i hc; exact isChannel_isEvidence hc
  · exact absurd rfl h

/-- **The content pass reads the evidence only.** -/
theorem contentAccounted_evidence (trusted : List UInt64) :
    ContentAccounted (evidence rs) trusted ↔ ContentAccounted rs trusted := by
  unfold ContentAccounted
  simp only [consumeKey_evidence, processStartIdentities_evidence]
  constructor
  · intro h r hr hk
    exact h r (List.mem_filter.mpr ⟨hr, isEvidence_of_consumeKey rs hk⟩) hk
  · intro h r hr hk
    exact h r (List.mem_filter.mp hr).1 hk

end Reads

end IoMon
