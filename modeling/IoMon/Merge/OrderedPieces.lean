/-
# The pieces that depend on the order

Six pieces of the merged list can come out differently when the directory is enumerated in another
order: the captured records that go into the file as they are, the contexts of the read-tail losses,
the reads of the accepted reports, and the texts of the three signals of the subtree pass.  The
first is a matter of ties in the canonical order, the others of which record is first or last.

`outputs_eq_iff`: two enumerations of one directory give the same depfile and the same file exactly
when these six agree.  Nothing is lost on the way back: every other piece is as long in one order as
in the other, and the texts can be read back.
-/
import IoMon.Merge.Enumeration

namespace IoMon

open ByteText Keyed StableSort MonitorRecordKind MonitorObservationKind

/-! ## 1. The read-tail losses -/

theorem canonicalKey_readTailLoss (rs : List MonitorRecord) (key : ThreadKey) :
    canonicalKey (readTailLoss rs key) = lossKey key := rfl

/-- The text of a read-tail loss gives its context away. -/
theorem readTailLoss_eq_iff {rs rs' : List MonitorRecord} {key : ThreadKey} :
    readTailLoss rs key = readTailLoss rs' key ↔
      lastPendingCtx rs key = lastPendingCtx rs' key := by
  refine ⟨fun h => ?_, fun h => by rw [readTailLoss, readTailLoss, h]⟩
  have hdetail := congrArg MonitorRecord.detail h
  simp only [readTailLoss, lossRecord, List.append_cancel_left_eq] at hdetail
  cases hctx : lastPendingCtx rs key with
  | nil =>
    cases hctx' : lastPendingCtx rs' key with
    | nil => rfl
    | cons c ctx =>
      rw [hctx, hctx', List.isEmpty_nil, if_pos rfl, List.isEmpty_cons, if_neg (by simp)] at hdetail
      have hnil := (List.append_eq_nil_iff.mp (List.append_eq_nil_iff.mp hdetail.symm).1).1
      exact absurd hnil (by decide)
  | cons c ctx =>
    cases hctx' : lastPendingCtx rs' key with
    | nil =>
      rw [hctx, hctx', List.isEmpty_nil, if_pos rfl, List.isEmpty_cons, if_neg (by simp)] at hdetail
      have hnil := (List.append_eq_nil_iff.mp (List.append_eq_nil_iff.mp hdetail).1).1
      exact absurd hnil (by decide)
    | cons d ctx' =>
      rw [hctx, hctx', List.isEmpty_cons, List.isEmpty_cons, if_neg (by simp)] at hdetail
      exact List.append_cancel_left (List.append_cancel_right hdetail)

section ReadTail

variable {rs rs' : List MonitorRecord} (h : rs.Perm rs')
include h

theorem pendingKeys_perm : (pendingKeys rs).Perm (pendingKeys rs') := ((h.filter _).map _).dedup

theorem pendingCount_perm (key : ThreadKey) : pendingCount rs key = pendingCount rs' key :=
  h.countP_eq _

theorem committedCount_perm (key : ThreadKey) : committedCount rs key = committedCount rs' key :=
  h.countP_eq _

end ReadTail

section Pieces

variable {m : MergeInput} {entries : List FragmentEntry} (h : entries.Perm m.entries)
include h

theorem readTailKeys_perm :
    ((readTailLosses (enumerated m entries)).map canonicalKey).Perm
      ((readTailLosses m).map canonicalKey) := by
  have hkept := keptRecords_perm h
  have hkeys : ∀ m : MergeInput, (readTailLosses m).map canonicalKey =
      (pendingKeys (keptRecords m)).flatMap fun key => List.replicate
        (pendingCount (keptRecords m) key - committedCount (keptRecords m) key) (lossKey key) := by
    intro m
    simp only [readTailLosses, List.map_flatMap, List.map_replicate, canonicalKey_readTailLoss]
  rw [hkeys, hkeys]
  simp only [pendingCount_perm hkept, committedCount_perm hkept]
  exact (pendingKeys_perm hkept).flatMap_right _

/-- **The read-tail losses agree** exactly when the contexts of the threads that have one do. -/
theorem readTailLosses_iff :
    (∀ k, ofKey canonicalKey k (readTailLosses (enumerated m entries)) =
        ofKey canonicalKey k (readTailLosses m)) ↔
      ∀ key, committedCount (keptRecords m) key < pendingCount (keptRecords m) key →
        lastPendingCtx (keptRecords (enumerated m entries)) key =
          lastPendingCtx (keptRecords m) key := by
  have hkept := keptRecords_perm h
  have hfamily : ∀ (rs : List MonitorRecord) (key : ThreadKey), ∀ r ∈ List.replicate
      (pendingCount (keptRecords m) key - committedCount (keptRecords m) key)
      (readTailLoss rs key), canonicalKey r = lossKey key := by
    intro rs key r hr
    rw [(List.mem_replicate.mp hr).2, canonicalKey_readTailLoss]
  rw [readTailLosses, readTailLosses]
  simp only [pendingCount_perm hkept, committedCount_perm hkept]
  rw [ofKey_families_iff lossKey_injective (hfamily _) (hfamily _) (pendingKeys_perm hkept)
    (List.nodup_dedup _)]
  simp only [List.replicate_inj, true_and, readTailLoss_eq_iff]
  constructor
  · intro hall key hlt
    have hmem : key ∈ pendingKeys (keptRecords (enumerated m entries)) := by
      rw [mem_pendingKeys, pendingCount_perm hkept]
      omega
    rcases hall key hmem with hzero | hctx
    · omega
    · exact hctx
  · intro hall key _
    by_cases hlt : committedCount (keptRecords m) key < pendingCount (keptRecords m) key
    · exact .inr (hall key hlt)
    · exact .inl (by omega)

end Pieces

/-! ## 2. The accepted reports -/

/-- The detail of a read an accepted report contributes. -/
def daemonDetail (daemon : UInt64) : NimStr :=
  str "breakaway-daemon-report daemon=" ++ decimal daemon

/-- **The reads name the trusted daemons**: an accepted report lists a read, and its detail names
the daemon. -/
theorem mem_trustedPeerPids_iff_reads {dir : List ReportEntry} {monitored : List UInt64}
    {auth : BreakawayAuthContext} {daemon : UInt64} :
    daemon ∈ (loadBreakawayReports dir monitored auth).trustedPeerPids ↔
      ∃ r ∈ (loadBreakawayReports dir monitored auth).reads, r.detail = daemonDetail daemon := by
  rw [mem_trustedPeerPids]
  constructor
  · rintro ⟨rep, hrep, rfl⟩
    obtain ⟨e, _, hacc⟩ := List.mem_filterMap.mp hrep
    have hauth := (acceptedReport_authentic hacc).1
    simp only [reportAuthentic, Bool.and_eq_true, List.any_eq_true] at hauth
    obtain ⟨path, hpath, hne⟩ := hauth.2.2
    exact ⟨_, List.mem_flatMap.mpr ⟨rep, hrep, List.mem_map.mpr
      ⟨path, List.mem_filter.mpr ⟨hpath, hne⟩, rfl⟩⟩, rfl⟩
  · rintro ⟨r, hr, hdetail⟩
    obtain ⟨rep, hrep, hr⟩ := List.mem_flatMap.mp hr
    obtain ⟨path, _, rfl⟩ := List.mem_map.mp hr
    exact ⟨rep, hrep, decimal_injective (List.append_cancel_left hdetail)⟩

theorem mem_of_ofKey_eq {l l' : List MonitorRecord}
    (h : ∀ k, ofKey canonicalKey k l = ofKey canonicalKey k l') (r : MonitorRecord) :
    r ∈ l ↔ r ∈ l' := by
  have hk := congrArg (r ∈ ·) (h (canonicalKey r))
  simpa only [mem_ofKey, and_true, eq_iff_iff] using hk

/-- Reads that agree come from reports that trust the same daemons. -/
theorem trustedPeerPids_of_reads {m m' : MergeInput}
    (h : ∀ k, ofKey canonicalKey k (breakawayFold m').reads =
      ofKey canonicalKey k (breakawayFold m).reads) (daemon : UInt64) :
    daemon ∈ (breakawayFold m').trustedPeerPids ↔ daemon ∈ (breakawayFold m).trustedPeerPids := by
  unfold breakawayFold at h ⊢
  rw [mem_trustedPeerPids_iff_reads, mem_trustedPeerPids_iff_reads]
  exact exists_congr fun r => and_congr_left fun _ => mem_of_ofKey_eq h r

/-- The run the reports are checked against. -/
def firstRun (kept : List MonitorRecord) : NimStr := (kept.filterMap recordRunId).head?.getD []

/-- The reads of the reports that are accepted if the run is this one. -/
def readsUnder (m : MergeInput) (run : NimStr) : List MonitorRecord :=
  (loadBreakawayReports m.reports (monitoredStartPids (observedRecords m))
    { breakawayAuthContext (observedRecords m) with runId := run }).reads

/-- **The run id is all that the report pass takes from the order.** -/
theorem reads_readsUnder {m : MergeInput} {entries : List FragmentEntry}
    (h : entries.Perm m.entries) : (breakawayFold (enumerated m entries)).reads =
      readsUnder m (firstRun (keptRecords (enumerated m entries))) := by
  have hrun : (breakawayAuthContext (observedRecords (enumerated m entries))).runId =
      firstRun (keptRecords (enumerated m entries)) := by
    rw [breakawayAuthContext, ← (authLists_evidence (observedRecords _)).1,
      evidence_observedRecords, (authLists_evidence _).1, firstRun]
  have hset : SameEvidenceSet (observedRecords (enumerated m entries)) (observedRecords m) :=
    observedRecords_sameEvidence (sameEvidenceSet_of_perm (keptRecords_perm h))
  have hsame : ∀ e, acceptedReport (monitoredStartPids (treeRecords (enumerated m entries)))
      (breakawayAuthContext (treeRecords (enumerated m entries))) e =
      acceptedReport (monitoredStartPids (observedRecords m))
        { breakawayAuthContext (observedRecords m) with
          runId := (breakawayAuthContext (observedRecords (enumerated m entries))).runId } e := by
    intro e
    rw [monitoredStartPids_treeRecords, acceptedReport_congr (authContext_agrees _)]
    exact acceptedReport_of_sameFacts (sameFacts_withRun hset _)
      (mem_monitoredStartPids_sameEvidence hset) e
  simp only [breakawayFold, readsUnder, loadBreakawayReports, acceptedReports, hsame, hrun]
  rfl

/-! ## 3. The subtree and content losses -/

/-- The kept records as the inference reads them: their evidence, and the root spawn. -/
def withRoot (m : MergeInput) (kept : List MonitorRecord) : List MonitorRecord :=
  evidence kept ++ rootSpawn m

/-- What the inference reads of the capture. -/
def inferenceEvidence (m : MergeInput) : List MonitorRecord := withRoot m (keptRecords m)

/-- The first loss of each unaccounted child, given who is monitored in `m`. -/
def spawnSubjects (m : MergeInput) (records : List MonitorRecord) :
    List (ProcIdentity × SubtreeLoss) :=
  firstPerKey (records.filterMap (spawnLoss (processStartIdentities (inferenceEvidence m))))

/-- The pids that trip in `m`, in the order the exec table gives them out. -/
def execOrder (table : TableOrder) (m : MergeInput) (records : List MonitorRecord) : List UInt64 :=
  (table.iterate (execInserts records)).filter (execTrips (inferenceEvidence m))

/-- The first loss of each unaccounted peer, given who is monitored in `m`. -/
def peerSubjects (m : MergeInput) (trusted : List UInt64) (records : List MonitorRecord) :
    List (NimStr × SubtreeLoss) :=
  firstPerKey (records.filterMap (ipcLoss (processStartIdentities (inferenceEvidence m)) trusted))

/-- The texts of the subtree pass, signal by signal. -/
theorem subtreeLossDetailsBy_eq (table : TableOrder) (m : MergeInput) (trusted : List UInt64) :
    subtreeLossDetailsBy table (inferenceRecords m) trusted =
      (spawnLosses (inferenceEvidence m)).map SubtreeLoss.detail ++
        ((execLossesBy table (inferenceEvidence m)).map SubtreeLoss.detail ++
          ((ipcLosses (inferenceEvidence m) trusted).map (·.2)).map SubtreeLoss.detail) := by
  have hinserts : execInserts (evidence (inferenceRecords m)) =
      execInserts (inferenceRecords m) := by
    rw [execInserts, execInserts, filter_evidence]
    intro r hr
    rw [Bool.and_eq_true, beq_iff_eq] at hr
    exact isEvidence_of_kind hr.1 (by simp)
  rw [inferenceEvidence, withRoot, ← evidence_inferenceRecords, spawnLosses_evidence,
    ipcLosses_evidence, execLossesBy, hinserts, execLoss_evidence, ← execLossesBy,
    subtreeLossDetailsBy, List.map_append, List.map_append, List.append_assoc]

theorem contentLossRecordsBy_eq (table : TableOrder) (m : MergeInput) :
    contentLossRecordsBy table m = List.replicate (externalContentLossCount (inferenceEvidence m)
      (breakawayFold m).trustedPeerPids) (lossRecord contentLossDetail) := by
  have hlosses : evidence (subtreeLossRecordsBy table m) = [] := by
    refine evidence_eq_nil fun r hr => ?_
    obtain ⟨loss, _, rfl⟩ := List.mem_map.mp hr
    rfl
  rw [contentLossRecordsBy, externalContentLossCount, ← externalContentLosses_evidence,
    evidence_append, hlosses, List.append_nil, evidence_inferenceRecords, ← withRoot,
    ← inferenceEvidence, ← externalContentLossCount]

section Losses

variable {m : MergeInput} {entries : List FragmentEntry} (h : entries.Perm m.entries)
include h

theorem inferenceEvidence_perm :
    (inferenceEvidence (enumerated m entries)).Perm (inferenceEvidence m) :=
  ((keptRecords_perm h).filter _).append_right _

/-- The content pass counts keys, so only the trusted daemons matter to it. -/
theorem externalContentLossCount_enumerated {trusted trusted' : List UInt64}
    (ht : ∀ pid, pid ∈ trusted' ↔ pid ∈ trusted) :
    externalContentLossCount (inferenceEvidence (enumerated m entries)) trusted' =
      externalContentLossCount (inferenceEvidence m) trusted := by
  rw [externalContentLossCount, externalContentLossCount, externalContentLosses,
    externalContentLosses, contentLoss_perm (inferenceEvidence_perm h) ht]
  exact Reorder.length_firstPerKey_perm ((inferenceEvidence_perm h).filterMap _)

theorem execInserts_perm :
    (execInserts (inferenceEvidence (enumerated m entries))).Perm
      (execInserts (inferenceEvidence m)) :=
  ((inferenceEvidence_perm h).filter _).map _

/-- Each unaccounted child is reported once, in every order. -/
theorem length_spawnLosses :
    (spawnLosses (inferenceEvidence (enumerated m entries))).length =
      (spawnLosses (inferenceEvidence m)).length := by
  have hev := inferenceEvidence_perm h
  rw [spawnLosses, spawnLosses, spawnLoss_perm hev, List.length_map, List.length_map]
  exact Reorder.length_firstPerKey_perm (hev.filterMap _)

/-- The same pids trip, in every order. -/
theorem length_execLossesBy (table : TableOrder) :
    (execLossesBy table (inferenceEvidence (enumerated m entries))).length =
      (execLossesBy table (inferenceEvidence m)).length := by
  have hiterate : (table.iterate (execInserts (inferenceEvidence (enumerated m entries)))).Perm
      (table.iterate (execInserts (inferenceEvidence m))) :=
    (table.perm _).trans ((execInserts_perm h).dedup.trans (table.perm _).symm)
  have hsame : ∀ pid, (execLoss (inferenceEvidence (enumerated m entries)) pid).isSome =
      (execLoss (inferenceEvidence m) pid).isSome := by
    intro pid
    rw [execLoss, execLoss, execTrips_perm (inferenceEvidence_perm h)]
    split <;> rfl
  simp only [execLossesBy, List.length_filterMap_eq_countP, hsame]
  exact hiterate.countP_eq _

/-- **The texts of the subtree pass agree** exactly when the reported spawns, the tripping pids
with their images, and the reported peers do. -/
theorem subtreeLossDetailsBy_iff (table : TableOrder) {trusted trusted' : List UInt64}
    (ht : ∀ pid, pid ∈ trusted' ↔ pid ∈ trusted) :
    subtreeLossDetailsBy table (inferenceRecords (enumerated m entries)) trusted' =
        subtreeLossDetailsBy table (inferenceRecords m) trusted ↔
      spawnSubjects m (inferenceEvidence (enumerated m entries)) =
          spawnSubjects m (inferenceEvidence m) ∧
        (execOrder table m (inferenceEvidence (enumerated m entries)) =
            execOrder table m (inferenceEvidence m) ∧
          ∀ pid, execTrips (inferenceEvidence m) pid = true →
            lastExecPath (inferenceEvidence (enumerated m entries)) pid =
              lastExecPath (inferenceEvidence m) pid) ∧
        peerSubjects m trusted (inferenceEvidence (enumerated m entries)) =
          peerSubjects m trusted (inferenceEvidence m) := by
  have hev := inferenceEvidence_perm h
  rw [subtreeLossDetailsBy_eq, subtreeLossDetailsBy_eq]
  have hsplit : ∀ {a a' b b' c c' : List NimStr}, a.length = a'.length → b.length = b'.length →
      (a ++ (b ++ c) = a' ++ (b' ++ c') ↔ a = a' ∧ b = b' ∧ c = c') := by
    intro a a' b b' c c' ha hb
    refine ⟨fun heq => ?_, fun ⟨h1, h2, h3⟩ => by rw [h1, h2, h3]⟩
    obtain ⟨h1, h2⟩ := List.append_inj heq ha
    exact ⟨h1, List.append_inj h2 hb⟩
  rw [hsplit (by rw [List.length_map, List.length_map, length_spawnLosses h])
    (by rw [List.length_map, List.length_map, length_execLossesBy h])]
  refine and_congr ?_ (and_congr ?_ ?_)
  · rw [spawnLosses, spawnLosses, spawnLoss_perm hev]
    exact spawnDetails_eq_iff
  · rw [execLossesBy, execLossesBy, eq_comm, execDetails_eq_iff hev.symm]
    refine and_congr eq_comm ⟨fun himage pid htrip => ?_, fun himage pid _ htrip =>
      (himage pid htrip).symm⟩
    refine (himage pid ?_ htrip).symm
    exact (table.perm _).mem_iff.mpr (mem_execPids_of_trips htrip)
  · rw [ipcLosses, ipcLosses, ipcLoss_perm hev ht]
    exact ipcDetails_eq_iff

end Losses

/-! ## 4. The output -/

/-- The kept records, in the order another enumeration gives them, agree with those of `m` on the
pieces that depend on the order. -/
structure SamePieces (table : TableOrder) (m : MergeInput) (kept : List MonitorRecord) : Prop where
  plain : ∀ k, ofKey canonicalKey k (kept.filter isPlain) = ofKey canonicalKey k (plainRecords m)
  contexts : ∀ key, committedCount (keptRecords m) key < pendingCount (keptRecords m) key →
    lastPendingCtx kept key = lastPendingCtx (keptRecords m) key
  reads : ∀ k, ofKey canonicalKey k (readsUnder m (firstRun kept)) =
    ofKey canonicalKey k (readsUnder m (firstRun (keptRecords m)))
  spawns : spawnSubjects m (withRoot m kept) = spawnSubjects m (inferenceEvidence m)
  execs : execOrder table m (withRoot m kept) = execOrder table m (inferenceEvidence m)
  images : ∀ pid, execTrips (inferenceEvidence m) pid = true →
    lastExecPath (withRoot m kept) pid = lastExecPath (inferenceEvidence m) pid
  peers : peerSubjects m (trustedDaemons m) (withRoot m kept) =
    peerSubjects m (trustedDaemons m) (inferenceEvidence m)

/-- The output is the sorted and renumbered list, told twice. -/
theorem mergeOutput_eq_iff (table : TableOrder) (m m' : MergeInput) :
    mergeOutput table m' = mergeOutput table m ↔
      canonicalize (mergedRecordsBy table m') = canonicalize (mergedRecordsBy table m) := by
  have hrecords : ∀ n : MergeInput,
      (mergeOutput table n).1.records = canonicalize (mergedRecordsBy table n) := fun n => by
    rw [mergeOutput, depFileFromOwnedRecords]
  refine ⟨fun h => by rw [← hrecords, h, hrecords], fun h => ?_⟩
  rw [mergeOutput, mergeOutput, writeCanonicalInPlace_eq, writeCanonicalInPlace_eq, encodeCanonical,
    encodeCanonical, h]

/-- What the passes add after the reads are losses and profiles, never a file read. -/
theorem not_read_of_added {table : TableOrder} {m : MergeInput} {r : MonitorRecord}
    (h : r ∈ subtreeLossRecordsBy table m ++ (contentLossRecordsBy table m ++
      profileRecords platformProfile)) : r.kind ≠ mrFileRead := by
  rcases List.mem_append.mp h with h | h
  · obtain ⟨loss, _, rfl⟩ := List.mem_map.mp h
    exact (by decide : mrEventLoss ≠ mrFileRead)
  rcases List.mem_append.mp h with h | h
  · rw [(List.mem_replicate.mp h).2]
    exact (by decide : mrEventLoss ≠ mrFileRead)
  · rcases List.mem_cons.mp h with rfl | h
    · exact (by decide : mrBackendProfile ≠ mrFileRead)
    · obtain ⟨gap, _, rfl⟩ := List.mem_map.mp h
      exact (by decide : mrCapabilityGap ≠ mrFileRead)

/-- The kind is part of the canonical key. -/
def keyKind (k : CanonicalKey) : Nat := (ofLex (ofLex (ofLex (ofLex k).2).2).2).1

theorem keyKind_canonicalKey (r : MonitorRecord) : keyKind (canonicalKey r) = r.kind.ord := rfl

theorem canonicalKey_lossRecord (detail : NimStr) :
    canonicalKey (lossRecord detail) = lossKey (0, 0) := rfl

/-- Losses of the subtree pass all have the same canonical key, so the file keeps them in the order
the pass made them. -/
theorem subtreeLossRecordsBy_iff {table : TableOrder} {m m' : MergeInput} :
    (∀ k, ofKey canonicalKey k (subtreeLossRecordsBy table m') =
        ofKey canonicalKey k (subtreeLossRecordsBy table m)) ↔
      subtreeLossDetailsBy table (inferenceRecords m') (breakawayFold m').trustedPeerPids =
        subtreeLossDetailsBy table (inferenceRecords m) (breakawayFold m).trustedPeerPids := by
  have hkey : ∀ n : MergeInput, ∀ r ∈ subtreeLossRecordsBy table n,
      canonicalKey r = lossKey (0, 0) := by
    intro n r hr
    obtain ⟨loss, _, rfl⟩ := List.mem_map.mp hr
    exact canonicalKey_lossRecord _
  have hinj : Function.Injective fun loss : NimStr => lossRecord (subtreeLossIntro ++ loss) := by
    intro a b hab
    exact List.append_cancel_left (congrArg MonitorRecord.detail hab)
  constructor
  · intro h
    have h0 := h (lossKey (0, 0))
    rw [ofKey_eq_self (hkey m'), ofKey_eq_self (hkey m)] at h0
    exact List.map_injective_iff.mpr hinj h0
  · intro h k
    rw [subtreeLossRecordsBy, h, ← subtreeLossRecordsBy]

section Output

variable {m : MergeInput} {entries : List FragmentEntry} (h : entries.Perm m.entries)
include h

/-- **The added records agree** when the read-tail contexts, the reads and the subtree losses do. -/
theorem addedRecords_iff (table : TableOrder) :
    (∀ k, ofKey canonicalKey k (addedRecords table (enumerated m entries)) =
        ofKey canonicalKey k (addedRecords table m)) ↔
      (∀ k, ofKey canonicalKey k (readTailLosses (enumerated m entries)) =
          ofKey canonicalKey k (readTailLosses m)) ∧
        (∀ k, ofKey canonicalKey k (breakawayFold (enumerated m entries)).reads =
          ofKey canonicalKey k (breakawayFold m).reads) ∧
        ∀ k, ofKey canonicalKey k (subtreeLossRecordsBy table (enumerated m entries)) =
          ofKey canonicalKey k (subtreeLossRecordsBy table m) := by
  have hreadKind : ∀ n : MergeInput, ∀ r ∈ (breakawayFold n).reads,
      keyKind (canonicalKey r) = mrFileRead.ord := by
    intro n r hr
    rw [keyKind_canonicalKey, (mem_reads hr).1]
  have hord : ∀ k : MonitorRecordKind, k.ord = mrFileRead.ord → k = mrFileRead := by
    intro k hk
    cases k <;> first | rfl | exact absurd hk (by decide)
  have hafter : ∀ n : MergeInput, ∀ r ∈ subtreeLossRecordsBy table n ++
      (contentLossRecordsBy table n ++ profileRecords platformProfile),
      ¬ keyKind (canonicalKey r) = mrFileRead.ord := by
    intro n r hr heq
    exact not_read_of_added hr (hord _ heq)
  have hscope : (enumerated m entries).runScope = m.runScope := rfl
  have hroot : rootSpawn (enumerated m entries) = rootSpawn m := rfl
  rw [addedRecords, addedRecords, hscope, hroot,
    ofKey_append_iff ((staleLosses_perm (capturedRecords_enumerated h) _).map _),
    and_iff_right (ofKey_staleLosses_perm (capturedRecords_enumerated h) _),
    factRecords_enumerated h, ofKey_append_iff (List.Perm.refl _), and_iff_right (fun _ => rfl),
    fragmentLosses_enumerated h, ofKey_append_iff (List.Perm.refl _), and_iff_right (fun _ => rfl),
    ofKey_append_iff (readTailKeys_perm h), killedReaders_enumerated h,
    ofKey_append_iff (List.Perm.refl _), and_iff_right (fun _ => rfl),
    ofKey_append_iff (List.Perm.refl _), and_iff_right (fun _ => rfl),
    ofKey_append_iff_of_apart (P := fun k => keyKind k = mrFileRead.ord) (hreadKind _)
      (hreadKind _) (hafter _) (hafter _)]
  refine and_congr_right fun _ => and_congr_right fun hreads => ?_
  -- the reads settle the trusted daemons, and those settle the content losses
  have hcontent : contentLossRecordsBy table (enumerated m entries) =
      contentLossRecordsBy table m := by
    rw [contentLossRecordsBy_eq, contentLossRecordsBy_eq,
      externalContentLossCount_enumerated h (trustedPeerPids_of_reads hreads)]
  rw [hcontent]
  simp only [ofKey_append, List.append_cancel_right_eq]

/-- **When two enumerations give the same output**: exactly when the pieces that depend on the order
agree. -/
theorem outputs_eq_iff (table : TableOrder) :
    mergeOutput table (enumerated m entries) = mergeOutput table m ↔
      SamePieces table m (keptRecords (enumerated m entries)) := by
  have hstamp : stampProfile (enumerated m entries) = stampProfile m := rfl
  have hseq : ∀ n : MergeInput, ∀ r ∈ (addedRecords table n).map (stampProfile m), r.seq = 0 := by
    intro n r hr
    obtain ⟨r₀, hr₀, rfl⟩ := List.mem_map.mp hr
    rw [seq_stampProfile, addedRecords_seq table n hr₀]
  have hmap : ∀ k (l l' : List MonitorRecord),
      ofKey canonicalKey k (l.map (stampProfile m)) =
          ofKey canonicalKey k (l'.map (stampProfile m)) ↔
        ofKey canonicalKey k l = ofKey canonicalKey k l' := by
    intro k l l'
    rw [ofKey_map (canonicalKey_stampProfile m), ofKey_map (canonicalKey_stampProfile m),
      (List.map_injective_iff.mpr (stampProfile_injective m)).eq_iff]
  rw [mergeOutput_eq_iff, mergedRecordsBy_eq, mergedRecordsBy_eq, hstamp, List.map_append,
    List.map_append, canonicalize_eq_iff ((plainRecords_perm h).map _) (hseq _) (hseq _)]
  simp only [← List.map_append, hmap]
  have hself : (breakawayFold m).reads = readsUnder m (firstRun (keptRecords m)) :=
    reads_readsUnder (List.Perm.refl m.entries)
  rw [ofKey_append_iff ((plainRecords_perm h).map _), addedRecords_iff h, readTailLosses_iff h]
  have htrusted : (∀ k, ofKey canonicalKey k (breakawayFold (enumerated m entries)).reads =
      ofKey canonicalKey k (breakawayFold m).reads) → ∀ daemon,
      daemon ∈ (breakawayFold (enumerated m entries)).trustedPeerPids ↔
        daemon ∈ trustedDaemons m := by
    intro hreads daemon
    rw [← trustedPeerPids_eq m]
    exact trustedPeerPids_of_reads hreads daemon
  rw [reads_readsUnder h, hself] at htrusted ⊢
  constructor
  · rintro ⟨hplain, hctx, hreads, hsub⟩
    rw [subtreeLossRecordsBy_iff, trustedPeerPids_eq m,
      subtreeLossDetailsBy_iff h table (htrusted hreads)] at hsub
    obtain ⟨hspawns, ⟨hexecs, himages⟩, hpeers⟩ := hsub
    exact ⟨hplain, hctx, hreads, hspawns, hexecs, himages, hpeers⟩
  · intro hp
    refine ⟨hp.plain, hp.contexts, hp.reads, ?_⟩
    rw [subtreeLossRecordsBy_iff, trustedPeerPids_eq m,
      subtreeLossDetailsBy_iff h table (htrusted hp.reads)]
    exact ⟨hp.spawns, ⟨hp.execs, hp.images⟩, hp.peers⟩

end Output

end IoMon
