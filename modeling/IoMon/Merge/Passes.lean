/-
# What each pass of the merge sees

The passes of `mergeFragments` remove, rewrite and add records that later passes read.  To say
what the composition decides in terms of the records kept after stale-run dropping, this file
finds out, pass by pass, which of those records are still visible:

  * the markers survive the fold in number, so the net counts the kept ones
    (`nettedRecords_noLoss`);
  * the fold, the net and the synthetic losses leave the five kinds the inference reads alone
    (`evidence_inferenceRecords`), so its conditions can be stated on the kept records
    (`treeAccounted_kept`, `contentAccounted_kept`);
  * the report authentication sees the same writes and connections (`authContext_agrees`).
-/
import IoMon.Merge.Fragments

namespace IoMon

open ByteText MonitorRecordKind MonitorObservationKind MonitorCompleteness EvidenceScope

/-! ## 1. The kept records -/

/-- The captured records that belong to this run. -/
def keptRecords (m : MergeInput) : List MonitorRecord :=
  staleKept (capturedRecords m) m.runScope

/-- The kept records other than the read-tail markers. -/
def observedRecords (m : MergeInput) : List MonitorRecord :=
  (keptRecords m).filter fun r => !isReadTailMarker r

/-- The daemons whose report is accepted against what was observed. -/
def trustedDaemons (m : MergeInput) : List UInt64 :=
  (acceptedReports m.reports (monitoredStartPids (observedRecords m))
    (breakawayAuthContext (observedRecords m))).map (·.daemonPid)

/-- The pid is named as a child: by a spawn record, or by the launcher. -/
def namedAsChild (m : MergeInput) (pid : UInt64) : Prop :=
  (∃ r ∈ keptRecords m, namesChild r = true ∧ r.childOsPid = pid) ∨
    (m.expectedRootPid ≠ 0 ∧ m.expectedRootPid = pid)

/-! ## 2. Markers and losses -/

theorem kind_of_isReadTailMarker {r : MonitorRecord} (h : isReadTailMarker r = true) :
    r.kind = mrEventLoss := by
  simp only [isReadTailMarker, isPendingMarker, isCommittedMarker, Bool.or_eq_true,
    Bool.and_eq_true, beq_iff_eq] at h
  rcases h with h | h <;> exact h.1

theorem isReadTailMarker_congr {r r' : MonitorRecord} (h : SameContent r r') :
    isReadTailMarker r = isReadTailMarker r' := by
  obtain ⟨hk, _, _, hd⟩ := h
  simp only [isReadTailMarker, isPendingMarker, isCommittedMarker, hk, hd]

theorem isLoss_congr {r r' : MonitorRecord} (h : SameContent r r') : isLoss r = isLoss r' := by
  obtain ⟨hk, ho, _, _⟩ := h
  simp only [isLoss, hk, ho]

/-- A detail that does not begin with an `r` is no marker's. -/
theorem not_marker_of_head {r : MonitorRecord} {c : UInt8} (hd : r.detail.head? = some c)
    (hc : c ≠ 114) : isReadTailMarker r = false := by
  obtain ⟨rest, hrest⟩ := List.head?_eq_some_iff.mp hd
  have hp : startsWith r.detail ReadTailPendingDetail = false := by
    rw [hrest, show ReadTailPendingDetail = 114 :: (ReadTailPendingDetail.drop 1) from by decide]
    simp [startsWith, List.isPrefixOf, Ne.symm hc]
  have hq : startsWith r.detail ReadTailCommittedDetail = false := by
    rw [hrest, show ReadTailCommittedDetail = 114 :: (ReadTailCommittedDetail.drop 1) from by
      decide]
    simp [startsWith, List.isPrefixOf, Ne.symm hc]
  simp only [isReadTailMarker, isPendingMarker, isCommittedMarker, hp, hq, Bool.and_false,
    Bool.or_self]

theorem head?_append_of_some {s t : NimStr} {c : UInt8} (h : s.head? = some c) :
    (s ++ t).head? = some c := by
  rw [List.head?_append, h, Option.some_or]

theorem staleLosses_not_marker {records : List MonitorRecord} {run : NimStr} {r : MonitorRecord}
    (h : r ∈ staleLosses records run) : isReadTailMarker r = false := by
  rcases List.mem_append.mp h with h | h <;> obtain ⟨pid, _, rfl⟩ := List.mem_map.mp h
  · have hd : (ambiguousLossDetail run).head? = some 97 :=
      head?_append_of_some (by decide)
    exact not_marker_of_head hd (by decide)
  · have hd : (duplicateIdentityLossDetail run).head? = some 100 := by
      unfold duplicateIdentityLossDetail
      split
      · decide
      · exact head?_append_of_some (by decide)
    exact not_marker_of_head hd (by decide)

theorem mem_fragmentLosses {m : MergeInput} {r : MonitorRecord} (h : r ∈ fragmentLosses m) :
    isLoss r = true ∧ isReadTailMarker r = false ∧ isEvidence r = false := by
  rcases List.mem_append.mp h with h | h
  · have hr := (List.mem_replicate.mp h).2
    have hd : r.detail.head? = some 99 := by
      rw [hr]; exact head?_append_of_some (by decide)
    exact ⟨by rw [hr]; rfl, not_marker_of_head hd (by decide), by rw [hr]; rfl⟩
  · have hr := (List.mem_replicate.mp h).2
    have hd : r.detail.head? = some 117 := by
      rw [hr]; exact head?_append_of_some (by decide)
    exact ⟨by rw [hr]; rfl, not_marker_of_head hd (by decide), by rw [hr]; rfl⟩

theorem fragmentLosses_eq_nil {m : MergeInput} : fragmentLosses m = [] ↔
    ∀ e ∈ m.fragments, e.corrupt = false ∧ e.unreadable = false := by
  simp only [fragmentLosses, List.append_eq_nil_iff, List.replicate_eq_nil_iff, List.countP_eq_zero,
    Bool.not_eq_true]
  constructor
  · rintro ⟨hc, hu⟩ e he
    exact ⟨hc e he, hu e he⟩
  · intro h
    exact ⟨fun e he => (h e he).1, fun e he => (h e he).2⟩

/-! ## 3. The net sees the kept markers -/

/-- A filter for markers sees the kept records only: the fold does not touch markers and the
losses added so far are none. -/
theorem filter_marker {p : MonitorRecord → Bool} (hp : ∀ r, p r = true → isReadTailMarker r = true)
    (m : MergeInput) :
    (scopedRecords m ++ fragmentLosses m).filter p = (keptRecords m).filter p := by
  have hkeep : ∀ r, p r = true → depIdentityKeepsIncarnation r.kind = true := by
    intro r hr
    rw [kind_of_isReadTailMarker (hp r hr)]
    rfl
  have hstale : (staleLosses (capturedRecords m) m.runScope).filter p = [] := by
    rw [List.filter_eq_nil_iff]
    intro r hr hpr
    have := staleLosses_not_marker hr
    rw [hp r hpr] at this
    exact absurd this (by simp)
  have hfrag : (fragmentLosses m).filter p = [] := by
    rw [List.filter_eq_nil_iff]
    intro r hr hpr
    have := (mem_fragmentLosses hr).2.1
    rw [hp r hpr] at this
    exact absurd this (by simp)
  rw [List.filter_append, hfrag, List.append_nil, scopedRecords,
    filter_foldObservationIdentity hkeep, dropStaleRunRecords, List.filter_append, hstale,
    List.append_nil, keptRecords]

theorem pendingCount_scoped (m : MergeInput) (key : ThreadKey) :
    pendingCount (scopedRecords m ++ fragmentLosses m) key = pendingCount (keptRecords m) key := by
  simp only [pendingCount, List.countP_eq_length_filter]
  rw [filter_marker]
  intro r hr
  simp only [Bool.and_eq_true] at hr
  simp only [isReadTailMarker, hr.1, Bool.true_or]

theorem committedCount_scoped (m : MergeInput) (key : ThreadKey) :
    committedCount (scopedRecords m ++ fragmentLosses m) key =
      committedCount (keptRecords m) key := by
  simp only [committedCount, List.countP_eq_length_filter]
  rw [filter_marker]
  intro r hr
  simp only [Bool.and_eq_true] at hr
  simp only [isReadTailMarker, hr.1, Bool.or_true]

theorem mem_pendingKeys {rs : List MonitorRecord} {key : ThreadKey} :
    key ∈ pendingKeys rs ↔ 0 < pendingCount rs key := by
  simp only [pendingKeys, pendingCount, List.mem_dedup, List.mem_map, List.mem_filter,
    List.countP_pos_iff, Bool.and_eq_true, beq_iff_eq]
  constructor
  · rintro ⟨r, ⟨hr, hp⟩, hk⟩
    exact ⟨r, hr, hp, hk⟩
  · rintro ⟨r, hr, hp, hk⟩
    exact ⟨r, ⟨hr, hp⟩, hk⟩

/-- **When the net leaves no loss**: no other loss goes in, and no thread has an excess of
pending markers. -/
theorem netReadTail_noLoss (rs : List MonitorRecord) :
    (∀ r ∈ netReadTail rs, isLoss r = false) ↔
      (∀ r ∈ rs, isLoss r = true → isReadTailMarker r = true) ∧
        ∀ key, pendingCount rs key ≤ committedCount rs key := by
  simp only [netReadTail, List.mem_append, List.mem_filter, List.mem_flatMap, List.mem_replicate,
    Bool.not_eq_true']
  constructor
  · intro h
    refine ⟨fun r hr hl => ?_, fun key => ?_⟩
    · by_contra hm
      have := h r (.inl ⟨hr, by simpa using hm⟩)
      rw [hl] at this
      exact absurd this (by simp)
    · by_contra hlt
      have hpos : 0 < pendingCount rs key := by omega
      have := h (readTailLoss rs key)
        (.inr ⟨key, mem_pendingKeys.mpr hpos, by omega, rfl⟩)
      exact absurd this (by simp [readTailLoss, isLoss, lossRecord])
  · rintro ⟨hl, hc⟩ r (⟨hr, hm⟩ | ⟨key, _, hne, _⟩)
    · cases hlr : isLoss r with
      | false => rfl
      | true =>
        have := hl r hr hlr
        rw [hm] at this
        exact absurd this (by simp)
    · have := hc key
      omega

/-- The first four conditions of the specification are what the passes up to the net decide. -/
theorem nettedRecords_noLoss (m : MergeInput) :
    (∀ r ∈ nettedRecords m, isLoss r = false) ↔
      (∀ e ∈ m.fragments, e.corrupt = false ∧ e.unreadable = false) ∧
      staleLosses (capturedRecords m) m.runScope = [] ∧
      (∀ r ∈ keptRecords m, isLoss r = true → isReadTailMarker r = true) ∧
      ∀ key, pendingCount (keptRecords m) key ≤ committedCount (keptRecords m) key := by
  have hcontent : ∀ r r', SameContent r r' → ((isLoss r = true → isReadTailMarker r = true) ↔
      (isLoss r' = true → isReadTailMarker r' = true)) := by
    intro r r' h
    rw [isLoss_congr h, isReadTailMarker_congr h]
  have hfrag : (∀ r ∈ fragmentLosses m, isLoss r = true → isReadTailMarker r = true) ↔
      fragmentLosses m = [] := by
    rw [List.eq_nil_iff_forall_not_mem]
    refine forall_congr' fun r => ⟨fun h hr => ?_, fun h hr => absurd hr h⟩
    have := h hr (mem_fragmentLosses hr).1
    rw [(mem_fragmentLosses hr).2.1] at this
    exact absurd this (by simp)
  have hstale : (∀ r ∈ staleLosses (capturedRecords m) m.runScope,
      isLoss r = true → isReadTailMarker r = true) ↔
        staleLosses (capturedRecords m) m.runScope = [] := by
    rw [List.eq_nil_iff_forall_not_mem]
    refine forall_congr' fun r => ⟨fun h hr => ?_, fun h hr => absurd hr h⟩
    have := h hr (by simp [isLoss, (staleLosses_kind hr).1])
    rw [staleLosses_not_marker hr] at this
    exact absurd this (by simp)
  rw [nettedRecords, netReadTail_noLoss]
  simp only [pendingCount_scoped, committedCount_scoped, List.forall_mem_append, hfrag,
    fragmentLosses_eq_nil]
  rw [scopedRecords, forall_foldObservationIdentity hcontent, dropStaleRunRecords,
    List.forall_mem_append, hstale, ← keptRecords]
  tauto

/-! ## 4. The inference sees the kept evidence -/

theorem evidence_eq_nil {rs : List MonitorRecord} (h : ∀ r ∈ rs, isEvidence r = false) :
    evidence rs = [] := by
  rw [evidence, List.filter_eq_nil_iff]
  intro r hr he
  rw [h r hr] at he
  exact absurd he (by simp)

theorem keeps_of_isEvidence {r : MonitorRecord} (h : isEvidence r = true) :
    depIdentityKeepsIncarnation r.kind = true := by
  unfold isEvidence at h
  split at h <;> first | (rename_i hk; rw [hk]; rfl) | exact absurd h (by simp)

theorem not_marker_of_isEvidence {r : MonitorRecord} (h : isEvidence r = true) :
    isReadTailMarker r = false := by
  cases hm : isReadTailMarker r with
  | false => rfl
  | true =>
    rw [isEvidence, kind_of_isReadTailMarker hm] at h
    exact absurd h (by simp)

theorem evidence_netReadTail (rs : List MonitorRecord) :
    evidence (netReadTail rs) = evidence rs := by
  have hlosses : evidence ((pendingKeys rs).flatMap fun key => List.replicate
      (pendingCount rs key - committedCount rs key) (readTailLoss rs key)) = [] := by
    refine evidence_eq_nil fun r hr => ?_
    obtain ⟨key, _, hr⟩ := List.mem_flatMap.mp hr
    rw [(List.mem_replicate.mp hr).2]
    rfl
  rw [netReadTail, evidence_append, hlosses, List.append_nil, evidence, List.filter_filter]
  refine List.filter_congr fun r _ => ?_
  cases he : isEvidence r with
  | false => rfl
  | true => rw [not_marker_of_isEvidence he]; rfl

theorem evidence_nettedRecords (m : MergeInput) :
    evidence (nettedRecords m) = evidence (keptRecords m) := by
  have hfrag : evidence (fragmentLosses m) = [] :=
    evidence_eq_nil fun r hr => (mem_fragmentLosses hr).2.2
  have hstale : evidence (staleLosses (capturedRecords m) m.runScope) = [] := by
    refine evidence_eq_nil fun r hr => ?_
    rw [isEvidence, (staleLosses_kind hr).1]
  have hfold : evidence (scopedRecords m) =
      evidence (dropStaleRunRecords (capturedRecords m) m.runScope) :=
    filter_foldObservationIdentity (fun r h => keeps_of_isEvidence h) _
  rw [nettedRecords, evidence_netReadTail, evidence_append, hfrag, List.append_nil, hfold,
    dropStaleRunRecords, evidence_append, hstale, List.append_nil, keptRecords]

theorem rootSpawn_kind {m : MergeInput} {r : MonitorRecord} (h : r ∈ rootSpawn m) :
    r.kind = mrProcessSpawn ∧ r.observationKind = moExecute := by
  unfold rootSpawn at h
  split at h
  · rw [List.mem_singleton.mp h]
    exact ⟨rfl, rfl⟩
  · exact absurd h (by simp)

theorem evidence_rootSpawn (m : MergeInput) : evidence (rootSpawn m) = rootSpawn m := by
  unfold rootSpawn
  split <;> rfl

theorem evidence_treeRecords (m : MergeInput) :
    evidence (treeRecords m) = evidence (keptRecords m) ++ rootSpawn m := by
  have hkilled : evidence (List.replicate (killedReaders m) (lossRecord killBeforeFlushDetail)) =
      [] := by
    refine evidence_eq_nil fun r hr => ?_
    rw [(List.mem_replicate.mp hr).2]
    rfl
  rw [treeRecords, evidence_append, evidence_append, hkilled, List.append_nil,
    evidence_nettedRecords, evidence_rootSpawn]

theorem mem_reads {m : MergeInput} {r : MonitorRecord} (h : r ∈ (breakawayFold m).reads) :
    r.kind = mrFileRead ∧ r.observationKind = moFileRead := by
  obtain ⟨rep, _, hr⟩ := List.mem_flatMap.mp h
  obtain ⟨p, _, rfl⟩ := List.mem_map.mp hr
  exact ⟨rfl, rfl⟩

/-- **The backend profiles among the records of the inference** are the kept ones: every pass before
it leaves them alone and in their order. -/
theorem profiles_inferenceRecords (m : MergeInput) :
    (inferenceRecords m).filter (·.kind == mrBackendProfile) =
      (keptRecords m).filter (·.kind == mrBackendProfile) := by
  have hnone (rs : List MonitorRecord) (h : ∀ r ∈ rs, r.kind ≠ mrBackendProfile) :
      rs.filter (·.kind == mrBackendProfile) = [] :=
    List.filter_eq_nil_iff.mpr fun r hr => by simpa using h r hr
  have hkilled := hnone (List.replicate (killedReaders m) (lossRecord killBeforeFlushDetail))
    fun r hr => by
      rw [(List.mem_replicate.mp hr).2]
      simp [lossRecord]
  have hspawn := hnone (rootSpawn m) fun r hr => by
    rw [(rootSpawn_kind hr).1]
    simp
  have hreads := hnone (breakawayFold m).reads fun r hr => by
    rw [(mem_reads hr).1]
    simp
  have hfrag := hnone (fragmentLosses m) fun r hr => by
    rcases List.mem_append.mp hr with hr | hr <;> rw [(List.mem_replicate.mp hr).2] <;>
      simp [lossRecord]
  have hstale := hnone (staleLosses (capturedRecords m) m.runScope) fun r hr => by
    rw [(staleLosses_kind hr).1]
    simp
  have hnet (rs : List MonitorRecord) : (netReadTail rs).filter (·.kind == mrBackendProfile) =
      rs.filter (·.kind == mrBackendProfile) := by
    rw [netReadTail, List.filter_append, List.filter_filter, hnone, List.append_nil]
    · refine List.filter_congr fun r _ => ?_
      cases hm : isReadTailMarker r with
      | false => simp
      | true => simp [kind_of_isReadTailMarker hm]
    · intro r hr
      obtain ⟨key, -, hr⟩ := List.mem_flatMap.mp hr
      rw [(List.mem_replicate.mp hr).2]
      simp [readTailLoss, lossRecord]
  have hfold := filter_foldObservationIdentity (p := fun r => r.kind == mrBackendProfile)
    (fun r h => by rw [beq_iff_eq] at h; rw [h]; rfl)
    (dropStaleRunRecords (capturedRecords m) m.runScope)
  rw [inferenceRecords, treeRecords, List.filter_append, List.filter_append, List.filter_append,
    hkilled, hspawn, hreads, List.append_nil, List.append_nil, List.append_nil, nettedRecords, hnet,
    List.filter_append, hfrag, List.append_nil, scopedRecords, hfold, dropStaleRunRecords,
    List.filter_append, hstale, List.append_nil, keptRecords]

/-- **The inference runs on the kept evidence and the root spawn.** -/
theorem evidence_inferenceRecords (m : MergeInput) :
    evidence (inferenceRecords m) = evidence (keptRecords m) ++ rootSpawn m := by
  have hreads : evidence (breakawayFold m).reads = [] := by
    refine evidence_eq_nil fun r hr => ?_
    rw [isEvidence, (mem_reads hr).1]
  rw [inferenceRecords, evidence_append, hreads, List.append_nil, evidence_treeRecords]

theorem evidence_observedRecords (m : MergeInput) :
    evidence (observedRecords m) = evidence (keptRecords m) := by
  rw [observedRecords, evidence, List.filter_filter]
  refine List.filter_congr fun r _ => ?_
  cases he : isEvidence r with
  | false => rfl
  | true => rw [not_marker_of_isEvidence he]; rfl

/-! ## 5. The authentication sees the same writes and connections -/

theorem monitoredStartPids_evidence (rs : List MonitorRecord) :
    monitoredStartPids (evidence rs) = monitoredStartPids rs := by
  rw [monitoredStartPids, monitoredStartPids, filter_evidence]
  intro r hr
  exact isEvidence_of_kind (beq_iff_eq.mp hr) (by simp)

/-- The root spawn is no process-start, so it does not make its child monitored. -/
theorem monitoredStartPids_treeRecords (m : MergeInput) :
    monitoredStartPids (treeRecords m) = monitoredStartPids (observedRecords m) := by
  have hroot : (rootSpawn m).filter (fun r => r.kind == mrProcessStart) = [] := by
    unfold rootSpawn
    split <;> rfl
  rw [← monitoredStartPids_evidence, evidence_treeRecords,
    ← monitoredStartPids_evidence (observedRecords m), evidence_observedRecords,
    monitoredStartPids, List.filter_append, hroot, List.append_nil, monitoredStartPids]

theorem isOutputWrite_congr {r r' : MonitorRecord} (h : SameContent r r') :
    isOutputWrite r = isOutputWrite r' := by
  obtain ⟨_, ho, hp, _⟩ := h
  simp only [isOutputWrite, ho, hp]

/-- A loss or the root spawn is no write, so the writes before the report pass are writes of
observed records. -/
theorem write_of_treeRecords {m : MergeInput} {r : MonitorRecord} (hr : r ∈ treeRecords m)
    (hw : isOutputWrite r = true) : ∃ r₀ ∈ observedRecords m, SameContent r r₀ := by
  have hobs : r.observationKind = moFileWrite := by
    simp only [isOutputWrite, Bool.and_eq_true, beq_iff_eq] at hw
    exact hw.1
  simp only [treeRecords, nettedRecords, netReadTail, List.mem_append, List.mem_filter,
    Bool.not_eq_true'] at hr
  rcases hr with ((⟨hr | hr, hm⟩ | hr) | hr) | hr
  · obtain ⟨r₀, hr₀, hsame, _⟩ := foldObservationIdentity_sound hr
    rcases List.mem_append.mp hr₀ with hr₀ | hr₀
    · exact ⟨r₀, List.mem_filter.mpr ⟨hr₀, by rw [← isReadTailMarker_congr hsame, hm]; rfl⟩, hsame⟩
    · have := hsame.2.1
      rw [hobs, (staleLosses_kind hr₀).2] at this
      exact absurd this (by simp)
  · rcases List.mem_append.mp hr with hr | hr <;> rw [(List.mem_replicate.mp hr).2] at hobs <;>
      exact absurd hobs (by simp [lossRecord])
  · obtain ⟨key, _, hr⟩ := List.mem_flatMap.mp hr
    rw [(List.mem_replicate.mp hr).2] at hobs
    exact absurd hobs (by simp [readTailLoss, lossRecord])
  · rw [(List.mem_replicate.mp hr).2] at hobs
    exact absurd hobs (by simp [lossRecord])
  · rw [(rootSpawn_kind hr).2] at hobs
    exact absurd hobs (by simp)

/-- And every observed record is still there with its content. -/
theorem treeRecords_of_observed {m : MergeInput} {r₀ : MonitorRecord}
    (h : r₀ ∈ observedRecords m) : ∃ r ∈ treeRecords m, SameContent r r₀ := by
  obtain ⟨hkept, hm⟩ := List.mem_filter.mp h
  obtain ⟨r, hr, hsame, _⟩ := foldObservationIdentity_keeps
    (List.mem_append_left (staleLosses (capturedRecords m) m.runScope) hkept)
  have hm' : isReadTailMarker r = false := by
    rw [isReadTailMarker_congr hsame]; simpa using hm
  have hnet : r ∈ nettedRecords m :=
    List.mem_append_left _ (List.mem_filter.mpr ⟨List.mem_append_left _ hr, by rw [hm']; rfl⟩)
  exact ⟨r, List.mem_append_left _ (List.mem_append_left _ hnet), hsame⟩

/-- What the context takes from connections and process-starts is taken from the evidence. -/
theorem authLists_evidence (rs : List MonitorRecord) :
    (evidence rs).filterMap recordRunId = rs.filterMap recordRunId ∧
      (evidence rs).filterMap connectedPeer = rs.filterMap connectedPeer ∧
      (evidence rs).filterMap connectionNonce = rs.filterMap connectionNonce := by
  have hkinds : ∀ r : MonitorRecord, isEvidence r = false →
      (r.kind == mrProcessStart) = false ∧ (r.kind == mrIpcConnect) = false := by
    intro r hr
    constructor <;>
    · rw [beq_eq_false_iff_ne]
      intro hk
      rw [isEvidence, hk] at hr
      exact absurd hr (by simp)
  refine ⟨filterMap_evidence (fun r hr => ?_) rs, filterMap_evidence (fun r hr => ?_) rs,
    filterMap_evidence (fun r hr => ?_) rs⟩
  · simp only [recordRunId, (hkinds r hr).1, (hkinds r hr).2, Bool.or_self, Bool.false_eq_true,
      if_false]
  · simp only [connectedPeer, (hkinds r hr).2, Bool.false_and, Bool.false_eq_true, if_false]
  · simp only [connectionNonce, (hkinds r hr).2, Bool.false_eq_true, if_false]

/-- **The authentication context is the one of the observed records.** -/
theorem authContext_agrees (m : MergeInput) :
    (breakawayAuthContext (treeRecords m)).Agrees (breakawayAuthContext (observedRecords m)) := by
  -- a list that looks at connections and process-starts gets nothing from the root spawn
  have hlist : ∀ (g : MonitorRecord → Option NimStr),
      (∀ rs, (evidence rs).filterMap g = rs.filterMap g) →
      (∀ r, r.kind = mrProcessSpawn → g r = none) →
      (treeRecords m).filterMap g = (observedRecords m).filterMap g := by
    intro g hg hspawn
    have hnil : (rootSpawn m).filterMap g = [] :=
      List.filterMap_eq_nil_iff.mpr fun r hr => hspawn r (rootSpawn_kind hr).1
    rw [← hg (treeRecords m), evidence_treeRecords, List.filterMap_append, hnil, List.append_nil,
      ← hg (observedRecords m), evidence_observedRecords]
  have hout : ∀ (Q : MonitorRecord → Prop), (∀ r r', SameContent r r' → (Q r → Q r')) →
      ((∃ r ∈ treeRecords m, isOutputWrite r = true ∧ Q r) ↔
        ∃ r ∈ observedRecords m, isOutputWrite r = true ∧ Q r) := by
    intro Q hQ
    constructor
    · rintro ⟨r, hr, hw, hq⟩
      obtain ⟨r₀, hr₀, hsame⟩ := write_of_treeRecords hr hw
      exact ⟨r₀, hr₀, by rw [← isOutputWrite_congr hsame]; exact hw, hQ _ _ hsame hq⟩
    · rintro ⟨r₀, hr₀, hw, hq⟩
      obtain ⟨r, hr, hsame⟩ := treeRecords_of_observed hr₀
      refine ⟨r, hr, by rw [isOutputWrite_congr hsame]; exact hw, hQ _ _ ?_ hq⟩
      exact ⟨hsame.1.symm, hsame.2.1.symm, hsame.2.2.1.symm, hsame.2.2.2.symm⟩
  constructor
  · have := hlist recordRunId (fun rs => (authLists_evidence rs).1)
      (fun r hk => by simp [recordRunId, hk])
    simp only [breakawayAuthContext, this]
  · exact hlist connectedPeer (fun rs => (authLists_evidence rs).2.1)
      (fun r hk => by simp [connectedPeer, hk])
  · exact hlist connectionNonce (fun rs => (authLists_evidence rs).2.2)
      (fun r hk => by simp [connectionNonce, hk])
  · intro p
    simp only [breakawayAuthContext, List.mem_flatMap, List.mem_filter, and_assoc]
    refine hout (fun r => p ∈ [r.path, comparableReportPath r.path]) fun r r' h hp => ?_
    rw [← h.2.2.1]
    exact hp
  · intro i
    simp only [breakawayAuthContext, List.mem_filterMap, List.mem_filter, and_assoc]
    refine hout (fun r => outputIno r = some i) fun r r' h hi => ?_
    rw [outputIno, ← h.2.2.2]
    exact hi

theorem trustedPeerPids_eq (m : MergeInput) :
    (breakawayFold m).trustedPeerPids = trustedDaemons m := by
  have : acceptedReport (monitoredStartPids (treeRecords m))
      (breakawayAuthContext (treeRecords m)) =
      acceptedReport (monitoredStartPids (observedRecords m))
        (breakawayAuthContext (observedRecords m)) := by
    funext e
    rw [acceptedReport_congr (authContext_agrees m), monitoredStartPids_treeRecords]
  simp only [breakawayFold, loadBreakawayReports, trustedDaemons, acceptedReports, this]

/-! ## 6. The inference conditions on the kept records -/

theorem processStartIdentities_root (m : MergeInput) (rs : List MonitorRecord) :
    processStartIdentities (rs ++ rootSpawn m) = processStartIdentities rs := by
  have hroot : identifiedStarts (rootSpawn m) = [] := by
    unfold rootSpawn
    split <;> rfl
  have : identifiedStarts (rs ++ rootSpawn m) = identifiedStarts rs := by
    rw [identifiedStarts, List.filter_append, ← identifiedStarts, ← identifiedStarts, hroot,
      List.append_nil]
  simp only [processStartIdentities, this]

/-- The root spawn is accounted for when some process-start has the root's pid. -/
theorem rootSpawn_accounted (m : MergeInput) (procs : MonitoredProcs) :
    (∀ r ∈ rootSpawn m, namesChild r = true → spawnAccounted procs r = true) ↔
      (m.expectedRootPid ≠ 0 → childIsMonitored m.expectedRootPid [] procs = true) := by
  have htok : matchingTokens (str "io-mon-root-spawn launcher-expected-root")
      ChildStartTimeToken = [] := by decide
  unfold rootSpawn
  by_cases h0 : m.expectedRootPid = 0
  · simp only [h0, ne_eq, not_true_eq_false, if_false, List.not_mem_nil, false_implies,
      implies_true]
  · simp only [ne_eq, h0, not_false_eq_true, if_true, List.mem_singleton, forall_eq, true_implies,
      namesChild, spawnAccounted, detailTokenDuplicate, trustedDetailToken, detailToken, htok]
    simp [h0]

theorem countP_root {p : MonitorRecord → Bool} (hp : ∀ r, p r = true → r.kind ≠ mrProcessSpawn)
    (m : MergeInput) (rs : List MonitorRecord) : (rs ++ rootSpawn m).countP p = rs.countP p := by
  have hroot : (rootSpawn m).countP p = 0 := by
    rw [List.countP_eq_zero]
    intro r hr hpr
    exact hp r hpr (rootSpawn_kind hr).1
  rw [List.countP_append, hroot, Nat.add_zero]

theorem anchored_root (m : MergeInput) (pid : UInt64) :
    anchored (keptRecords m ++ rootSpawn m) pid = true ↔ namedAsChild m pid := by
  have hroot : (∃ r ∈ rootSpawn m, namesChild r = true ∧ r.childOsPid = pid) ↔
      (m.expectedRootPid ≠ 0 ∧ m.expectedRootPid = pid) := by
    unfold rootSpawn
    by_cases h0 : m.expectedRootPid = 0
    · simp [h0]
    · simp [h0, namesChild]
  simp only [anchored, List.any_append, Bool.or_eq_true, List.any_eq_true, Bool.and_eq_true,
    beq_iff_eq, namedAsChild, hroot]

theorem effectiveExecs_root (m : MergeInput) (rs : List MonitorRecord) (pid : UInt64) :
    effectiveExecs (rs ++ rootSpawn m) pid = effectiveExecs rs pid ∧
      startCount (rs ++ rootSpawn m) pid = startCount rs pid := by
  have hexec : execCount (rs ++ rootSpawn m) pid = execCount rs pid := by
    refine countP_root (fun r hr hk => ?_) m rs
    simp [hk] at hr
  have hfail : execFailedCount (rs ++ rootSpawn m) pid = execFailedCount rs pid := by
    refine countP_root (fun r hr hk => ?_) m rs
    simp [hk] at hr
  refine ⟨by rw [effectiveExecs, effectiveExecs, hexec, hfail], ?_⟩
  refine countP_root (fun r hr hk => ?_) m rs
  simp [hk] at hr

/-- The conditions the subtree pass checks, on the kept records. -/
theorem treeAccounted_kept (m : MergeInput) (trusted : List UInt64) :
    TreeAccounted (inferenceRecords m) trusted ↔
      (m.expectedRootPid ≠ 0 →
        childIsMonitored m.expectedRootPid [] (processStartIdentities (keptRecords m)) = true) ∧
      (∀ r ∈ keptRecords m, namesChild r = true →
        spawnAccounted (processStartIdentities (keptRecords m)) r = true) ∧
      (∀ pid, namedAsChild m pid → 0 < effectiveExecs (keptRecords m) pid →
        effectiveExecs (keptRecords m) pid < startCount (keptRecords m) pid) ∧
      (∀ r ∈ keptRecords m, r.kind = mrIpcConnect →
        peerAccounted (processStartIdentities (keptRecords m)) trusted r = true) := by
  have hev : evidence (inferenceRecords m) = evidence (keptRecords m ++ rootSpawn m) := by
    rw [evidence_inferenceRecords, evidence_append, evidence_rootSpawn]
  have hexec : ∀ pid, execTrips (keptRecords m ++ rootSpawn m) pid = false ↔
      (namedAsChild m pid → 0 < effectiveExecs (keptRecords m) pid →
        effectiveExecs (keptRecords m) pid < startCount (keptRecords m) pid) := by
    intro pid
    obtain ⟨he, hs⟩ := effectiveExecs_root m (keptRecords m) pid
    rw [← Bool.not_eq_true, execTrips, he, hs]
    simp only [Bool.and_eq_true, decide_eq_true_eq, anchored_root, not_and, not_le, and_imp]
  rw [← treeAccounted_evidence, hev, treeAccounted_evidence]
  constructor
  · rintro ⟨ha, hb, hc⟩
    rw [processStartIdentities_root] at ha hc
    refine ⟨(rootSpawn_accounted m _).mp fun r hr => ha r (List.mem_append_right _ hr),
      fun r hr => ha r (List.mem_append_left _ hr), fun pid => (hexec pid).mp (hb pid),
      fun r hr => hc r (List.mem_append_left _ hr)⟩
  · rintro ⟨hr0, ha, hb, hc⟩
    refine ⟨fun r hr hn => ?_, fun pid => (hexec pid).mpr (hb pid), fun r hr hk => ?_⟩
    · rw [processStartIdentities_root]
      rcases List.mem_append.mp hr with hr | hr
      · exact ha r hr hn
      · exact (rootSpawn_accounted m _).mpr hr0 r hr hn
    · rw [processStartIdentities_root]
      rcases List.mem_append.mp hr with hr | hr
      · exact hc r hr hk
      · rw [(rootSpawn_kind hr).1] at hk
        exact absurd hk (by simp)

/-- The condition the content pass checks, on the kept records. -/
theorem contentAccounted_kept (m : MergeInput) (trusted : List UInt64) :
    ContentAccounted (inferenceRecords m) trusted ↔
      ∀ r ∈ keptRecords m, consumeKey (keptRecords m) r ≠ [] →
        producerAccounted (processStartIdentities (keptRecords m)) trusted r = true := by
  have hev : evidence (inferenceRecords m) = evidence (keptRecords m ++ rootSpawn m) := by
    rw [evidence_inferenceRecords, evidence_append, evidence_rootSpawn]
  have hpaths : ∀ chan role, channelPaths chan role (keptRecords m ++ rootSpawn m) =
      channelPaths chan role (keptRecords m) := by
    intro chan role
    have hnil : (rootSpawn m).filter (isChannel chan role) = [] := by
      rw [List.filter_eq_nil_iff]
      intro r hr
      simp [isChannel, (rootSpawn_kind hr).1]
    rw [channelPaths, List.filter_append, hnil, List.append_nil, channelPaths]
  have hkey : ∀ r, consumeKey (keptRecords m ++ rootSpawn m) r = consumeKey (keptRecords m) r := by
    intro r
    simp only [consumeKey, hpaths]
  have hroot : ∀ r ∈ rootSpawn m, consumeKey (keptRecords m) r = [] := by
    intro r hr
    simp [consumeKey, isChannel, (rootSpawn_kind hr).1]
  rw [← contentAccounted_evidence, hev, contentAccounted_evidence, ContentAccounted]
  simp only [hkey, processStartIdentities_root, List.forall_mem_append]
  exact and_iff_left fun r hr hne => absurd (hroot r hr) hne

/-! ## 7. Kinds -/

/-- A record the inference runs on has the kind of a captured record, or is synthetic. -/
theorem kind_inferenceRecords {m : MergeInput} {r : MonitorRecord} (h : r ∈ inferenceRecords m) :
    (∃ r₀ ∈ capturedRecords m, r.kind = r₀.kind) ∨ r.kind = mrEventLoss ∨
      r.kind = mrProcessSpawn ∨ r.kind = mrFileRead := by
  simp only [inferenceRecords, treeRecords, nettedRecords, netReadTail, List.mem_append,
    List.mem_filter] at h
  rcases h with (((⟨h | h, _⟩ | h) | h) | h) | h
  · obtain ⟨r₀, hr₀, hsame, _⟩ := foldObservationIdentity_sound h
    rcases List.mem_append.mp hr₀ with hr₀ | hr₀
    · exact .inl ⟨r₀, (mem_staleKept.mp hr₀).1, hsame.1⟩
    · exact .inr (.inl (hsame.1.trans (staleLosses_kind hr₀).1))
  · rcases List.mem_append.mp h with h | h <;> rw [(List.mem_replicate.mp h).2] <;>
      exact .inr (.inl rfl)
  · obtain ⟨key, _, h⟩ := List.mem_flatMap.mp h
    rw [(List.mem_replicate.mp h).2]
    exact .inr (.inl rfl)
  · rw [(List.mem_replicate.mp h).2]
    exact .inr (.inl rfl)
  · exact .inr (.inr (.inl (rootSpawn_kind h).1))
  · exact .inr (.inr (.inr (mem_reads h).1))

end IoMon
