/-
# The verdict of a merge and its specification

`VerdictSpec` lists, in terms of the records kept after stale-run dropping, everything that has
to hold of a capture for the merge to call it complete, and `mergedRecords_noLoss` proves that
the composition of the passes decides exactly that.  The Linux profile the merge appends is
complete whatever scope is stamped on it (`platformProfileComplete_linux`), so in the end the
specification is the verdict.
-/
import IoMon.File.Canonical
import IoMon.Merge.Passes

namespace IoMon

open ByteText MonitorRecordKind MonitorObservationKind MonitorCompleteness EvidenceScope

/-! ## 1. The specification -/

/-- What a complete merge means apart from the platform profile and the read-tail markers.  `loss`
is the test that makes a record count as event loss. -/
structure CaptureSpec (loss : MonitorRecord → Bool) (m : MergeInput) : Prop where
  /-- every fragment was readable and decoded to its end -/
  fragments : ∀ e ∈ m.fragments, e.corrupt = false ∧ e.unreadable = false
  /-- stale-run dropping could decide every record -/
  scope : staleLosses (capturedRecords m) m.runScope = []
  /-- no event loss other than read-tail markers -/
  noLoss : ∀ r ∈ keptRecords m, loss r = true → isReadTailMarker r = true
  /-- no sidecar of an older shim -/
  sidecars : killedReaders m = 0
  /-- the launcher's root loaded the shim -/
  root : m.expectedRootPid ≠ 0 →
    childIsMonitored m.expectedRootPid [] (processStartIdentities (keptRecords m)) = true
  /-- so did every spawned child, and no spawn is ambiguous about its child -/
  spawns : ∀ r ∈ keptRecords m, namesChild r = true →
    detailTokenDuplicate r.detail ChildStartTimeToken = false ∧
      childIsMonitored r.childOsPid (trustedDetailToken r.detail ChildStartTimeToken)
        (processStartIdentities (keptRecords m)) = true
  /-- no child's exec tally has caught up with its process-starts -/
  execs : ∀ pid, namedAsChild m pid → 0 < effectiveExecs (keptRecords m) pid →
    effectiveExecs (keptRecords m) pid < startCount (keptRecords m) pid
  /-- every IPC peer is monitored or a trusted daemon -/
  peers : ∀ r ∈ keptRecords m, r.kind = mrIpcConnect →
    peerAccounted (processStartIdentities (keptRecords m)) (trustedDaemons m) r = true
  /-- every consumed channel is paired in the tree or has an accounted producer -/
  content : ∀ r ∈ keptRecords m, consumeKey (keptRecords m) r ≠ [] →
    producerAccounted (processStartIdentities (keptRecords m)) (trustedDaemons m) r = true

/-- **What a complete merge means**, apart from the platform profile. -/
structure VerdictSpec (loss : MonitorRecord → Bool) (m : MergeInput) : Prop
    extends CaptureSpec loss m where
  /-- no thread has more pending than committed markers -/
  readTail : ∀ key, pendingCount (keptRecords m) key ≤ committedCount (keptRecords m) key

/-- The backend profiles that the merge declares: the kept ones and the platform's, stamped. -/
def declaredProfiles (m : MergeInput) : List MonitorRecord :=
  ((keptRecords m).filter (·.kind == mrBackendProfile) ++
    [backendProfileRecord platformProfile]).map (stampProfile m)

/-- The profile record the merge appends, with its scope stamp, evaluates to complete. -/
def platformProfileComplete (m : MergeInput) : Prop :=
  profileComplete ((profileRecords platformProfile).map (stampProfile m))

/-! ## 2. The platform profile -/

theorem profileDetails_append (rs rs' : List MonitorRecord) :
    profileDetails (rs ++ rs') = profileDetails rs ++ profileDetails rs' := by
  rw [profileDetails, List.filterMap_append, ← profileDetails, ← profileDetails]

theorem profileDetails_eq_nil {rs : List MonitorRecord} (h : ∀ r ∈ rs, r.kind ≠ mrBackendProfile) :
    profileDetails rs = [] := by
  refine List.filterMap_eq_nil_iff.mpr fun r hr => ?_
  simp [h r hr]

theorem stampProfile_of_ne {m : MergeInput} {r : MonitorRecord} (h : r.kind ≠ mrBackendProfile) :
    stampProfile m r = r := by
  simp [stampProfile, h]

/-- The stamped platform records declare exactly one profile. -/
theorem profileDetails_platform (m : MergeInput) :
    profileDetails ((profileRecords platformProfile).map (stampProfile m)) =
      [(backendProfileRecord platformProfile).detail ++ scopeStamp m] := by
  have hgaps : profileDetails ((platformProfile.gaps.map capabilityGapRecord).map
      (stampProfile m)) = [] := by
    refine profileDetails_eq_nil fun r hr => ?_
    obtain ⟨g, hg, rfl⟩ := List.mem_map.mp hr
    obtain ⟨gap, _, rfl⟩ := List.mem_map.mp hg
    have hk : (capabilityGapRecord gap).kind ≠ mrBackendProfile := by simp [capabilityGapRecord]
    rw [stampProfile_of_ne hk]
    exact hk
  have hhead : stampProfile m (backendProfileRecord platformProfile) =
      { backendProfileRecord platformProfile with
        detail := (backendProfileRecord platformProfile).detail ++ scopeStamp m } := rfl
  rw [profileRecords, List.map_cons, profileDetails, List.filterMap_cons, hhead]
  exact congrArg (List.cons _) hgaps

/-- A scope token holds no `;`, so a stamp is one part of the detail. -/
theorem stamp_noSemicolon (interest : Finset EventCategory) (scope : EvidenceScope) :
    (59 : UInt8) ∉ interestToTokens interest ∧ (59 : UInt8) ∉ evidenceScopeToken scope := by
  constructor
  · refine not_mem_joinStr (by decide) _ fun p hp => ?_
    obtain ⟨c, _, rfl⟩ := List.mem_map.mp hp
    cases c <;> decide
  · cases scope <;> decide

theorem applyProfileDetail_interest (p : MonitorBackendProfile) (detail : NimStr)
    (interest : Finset EventCategory) :
    applyProfileDetail p (detail ++ (str ";interest=" ++ interestToTokens interest)) =
      applyProfileDetail p detail := by
  have hlit : str ";interest=" = 59 :: (str "interest" ++ [61]) := by decide
  rw [hlit, List.cons_append, applyProfileDetail_append, List.append_assoc,
    List.singleton_append, applyProfileDetail_unknown _ (by decide) (by decide)
      (stamp_noSemicolon interest esFull).1 (by decide) (by decide) (by decide) (by decide)]

theorem applyProfileDetail_evidence (p : MonitorBackendProfile) (detail : NimStr)
    (scope : EvidenceScope) :
    applyProfileDetail p (detail ++ (str ";evidence=" ++ evidenceScopeToken scope)) =
      applyProfileDetail p detail := by
  have hlit : str ";evidence=" = 59 :: (str "evidence" ++ [61]) := by decide
  rw [hlit, List.cons_append, applyProfileDetail_append, List.append_assoc,
    List.singleton_append, applyProfileDetail_unknown _ (by decide) (by decide)
      (stamp_noSemicolon ∅ scope).2 (by decide) (by decide) (by decide) (by decide)]

theorem applyProfileDetail_scopeStamp (m : MergeInput) (p : MonitorBackendProfile)
    (detail : NimStr) :
    applyProfileDetail p (detail ++ scopeStamp m) = applyProfileDetail p detail := by
  rw [scopeStamp, ← List.append_assoc]
  split <;> split
  · rw [List.append_nil, List.append_nil]
  · rw [List.append_nil, applyProfileDetail_evidence]
  · rw [List.append_nil, applyProfileDetail_interest]
  · rw [applyProfileDetail_evidence, applyProfileDetail_interest]

/-- **The Linux profile is complete** under every scope stamp. -/
theorem platformProfileComplete_linux (m : MergeInput) : platformProfileComplete m := by
  obtain ⟨h1, h2⟩ := platformProfile_evidenceComplete
  have hdecl : declaredProfile ((profileRecords platformProfile).map (stampProfile m))
      InputEvidenceCapabilities =
      applyProfileDetail (defaultHooksMonitorProfile InputEvidenceCapabilities)
        (backendProfileRecord platformProfile).detail := by
    rw [declaredProfile_eq, profileDetails_platform, List.foldl_cons, List.foldl_nil,
      applyProfileDetail_scopeStamp]
  rw [platformProfileComplete, profileComplete, evidenceComplete_profileFromRecords, hdecl, h1, h2]
  rfl

/-! ## 3. The verdict -/

theorem isLoss_stampProfile (m : MergeInput) (r : MonitorRecord) :
    isLoss (stampProfile m r) = isLoss r := by
  unfold stampProfile
  split <;> rfl

theorem profileRecords_noLoss (p : MonitorBackendProfile) :
    ∀ r ∈ profileRecords p, isLoss r = false := by
  intro r hr
  rcases List.mem_cons.mp hr with rfl | hr
  · rfl
  · obtain ⟨gap, _, rfl⟩ := List.mem_map.mp hr
    rfl

/-- The records up to the inference hold no loss: the first five conditions. -/
theorem inferenceRecords_noLoss (m : MergeInput) :
    (∀ r ∈ inferenceRecords m, isLoss r = false) ↔
      (∀ r ∈ nettedRecords m, isLoss r = false) ∧ killedReaders m = 0 := by
  have hreads : ∀ r ∈ (breakawayFold m).reads, isLoss r = false := by
    intro r hr
    simp [isLoss, (mem_reads hr).1, (mem_reads hr).2]
  have hroot : ∀ r ∈ rootSpawn m, isLoss r = false := by
    intro r hr
    simp [isLoss, (rootSpawn_kind hr).1, (rootSpawn_kind hr).2]
  have hkilled : (∀ r ∈ List.replicate (killedReaders m) (lossRecord killBeforeFlushDetail),
      isLoss r = false) ↔ killedReaders m = 0 := by
    constructor
    · intro h
      by_contra hne
      exact absurd (h _ (List.mem_replicate.mpr ⟨hne, rfl⟩)) (by simp [isLoss, lossRecord])
    · intro h0 r hr
      rw [h0] at hr
      exact absurd hr (by simp)
  simp only [inferenceRecords, treeRecords, List.forall_mem_append, hkilled]
  exact ⟨fun h => h.1.1, fun h => ⟨⟨h, hroot⟩, hreads⟩⟩

theorem subtreeLossRecords_noLoss (m : MergeInput) :
    (∀ r ∈ subtreeLossRecords m, isLoss r = false) ↔
      TreeAccounted (inferenceRecords m) (trustedDaemons m) := by
  rw [← unmonitoredSubtreeLosses_eq_nil, ← trustedPeerPids_eq]
  have hnil : subtreeLossRecords m = [] ↔ unmonitoredSubtreeLosses (inferenceRecords m)
      (breakawayFold m).trustedPeerPids = [] := by
    simp only [subtreeLossRecords, unmonitoredSubtreeLossDetails, List.map_eq_nil_iff]
  rw [← hnil, List.eq_nil_iff_forall_not_mem]
  refine forall_congr' fun r => ⟨fun h hr => ?_, fun h hr => absurd hr h⟩
  obtain ⟨loss, _, rfl⟩ := List.mem_map.mp hr
  exact absurd (h hr) (by simp [isLoss, lossRecord])

theorem contentLossRecords_noLoss (m : MergeInput) :
    (∀ r ∈ contentLossRecords m, isLoss r = false) ↔
      ContentAccounted (inferenceRecords m) (trustedDaemons m) := by
  have hev : evidence (inferenceRecords m ++ subtreeLossRecords m) =
      evidence (inferenceRecords m) := by
    have : evidence (subtreeLossRecords m) = [] := by
      refine evidence_eq_nil fun r hr => ?_
      obtain ⟨loss, _, rfl⟩ := List.mem_map.mp hr
      rfl
    rw [evidence_append, this, List.append_nil]
  rw [← contentAccounted_evidence, ← hev, contentAccounted_evidence,
    ← externalContentLossCount_eq_zero, ← trustedPeerPids_eq]
  constructor
  · intro h
    by_contra hne
    exact absurd (h _ (List.mem_replicate.mpr ⟨hne, rfl⟩)) (by simp [isLoss, lossRecord])
  · intro h0 r hr
    rw [contentLossRecords, h0] at hr
    exact absurd hr (by simp)

/-- No record of the merge counts as loss exactly when the specification holds. -/
theorem mergedRecords_noLoss (m : MergeInput) :
    (∀ r ∈ mergedRecords m, isLoss r = false) ↔ VerdictSpec isLoss m := by
  have hstamp : (∀ r ∈ mergedRecords m, isLoss r = false) ↔
      ∀ r ∈ inferenceRecords m ++ subtreeLossRecords m ++ contentLossRecords m ++
        profileRecords platformProfile, isLoss r = false := by
    simp only [mergedRecords, List.mem_map, forall_exists_index, and_imp, forall_apply_eq_imp_iff₂,
      isLoss_stampProfile]
  rw [hstamp]
  simp only [List.forall_mem_append, inferenceRecords_noLoss, subtreeLossRecords_noLoss,
    contentLossRecords_noLoss, nettedRecords_noLoss, treeAccounted_kept, contentAccounted_kept,
    and_iff_left (profileRecords_noLoss platformProfile), spawnAccounted, Bool.and_eq_true,
    Bool.not_eq_true']
  constructor
  · rintro ⟨⟨⟨⟨h1, h2, h3, h4⟩, h5⟩, h6, h7, h8, h9⟩, h10⟩
    exact ⟨⟨h1, h2, h3, h5, h6, h7, h8, h9, h10⟩, h4⟩
  · rintro ⟨⟨h1, h2, h3, h5, h6, h7, h8, h9, h10⟩, h4⟩
    exact ⟨⟨⟨⟨h1, h2, h3, h4⟩, h5⟩, h6, h7, h8, h9⟩, h10⟩

/-- The merge holds one backend profile, the platform's, if none was captured. -/
theorem profileDetails_mergedRecords {m : MergeInput}
    (h : ∀ r ∈ capturedRecords m, r.kind ≠ mrBackendProfile) :
    profileDetails (mergedRecords m) =
      profileDetails ((profileRecords platformProfile).map (stampProfile m)) := by
  have hnil : profileDetails ((inferenceRecords m ++ subtreeLossRecords m ++
      contentLossRecords m).map (stampProfile m)) = [] := by
    refine profileDetails_eq_nil fun r hr => ?_
    obtain ⟨r₀, hr₀, rfl⟩ := List.mem_map.mp hr
    have hk : r₀.kind ≠ mrBackendProfile := by
      rcases List.mem_append.mp hr₀ with hr₀ | hr₀
      · rcases List.mem_append.mp hr₀ with hr₀ | hr₀
        · rcases kind_inferenceRecords hr₀ with ⟨r₁, hr₁, hk⟩ | hk | hk | hk
          · rw [hk]; exact h r₁ hr₁
          all_goals rw [hk]; simp
        · obtain ⟨loss, _, rfl⟩ := List.mem_map.mp hr₀
          simp [lossRecord]
      · rw [(List.mem_replicate.mp hr₀).2]
        simp [lossRecord]
    rw [stampProfile_of_ne hk]
    exact hk
  rw [mergedRecords, List.map_append, profileDetails_append, hnil, List.nil_append]

/-- The merge declares the kept profiles and the platform's. -/
theorem profiles_mergedRecords (m : MergeInput) :
    (mergedRecords m).filter (·.kind == mrBackendProfile) = declaredProfiles m := by
  have hstamp : ∀ r : MonitorRecord, ((·.kind == mrBackendProfile) ∘ stampProfile m) r =
      (r.kind == mrBackendProfile) := by
    intro r
    rw [Function.comp_apply, stampProfile]
    split <;> rfl
  have hsubtree : (subtreeLossRecords m).filter (·.kind == mrBackendProfile) = [] := by
    refine List.filter_eq_nil_iff.mpr fun r hr => ?_
    obtain ⟨loss, -, rfl⟩ := List.mem_map.mp hr
    simp [lossRecord]
  have hcontent : (contentLossRecords m).filter (·.kind == mrBackendProfile) = [] := by
    refine List.filter_eq_nil_iff.mpr fun r hr => ?_
    rw [(List.mem_replicate.mp hr).2]
    simp [lossRecord]
  have hplatform : (profileRecords platformProfile).filter (·.kind == mrBackendProfile) =
      [backendProfileRecord platformProfile] := by
    have hgaps : (platformProfile.gaps.map capabilityGapRecord).filter
        (·.kind == mrBackendProfile) = [] := by
      refine List.filter_eq_nil_iff.mpr fun r hr => ?_
      obtain ⟨gap, -, rfl⟩ := List.mem_map.mp hr
      simp [capabilityGapRecord]
    rw [profileRecords, List.filter_cons_of_pos rfl, hgaps]
  rw [mergedRecords, List.filter_map, List.filter_congr fun r _ => hstamp r, List.filter_append,
    List.filter_append, List.filter_append, hsubtree, hcontent, hplatform, List.append_nil,
    List.append_nil, profiles_inferenceRecords, declaredProfiles]

/-- The profile's half of the verdict looks at the backend profiles alone. -/
theorem profileComplete_filter (records : List MonitorRecord) :
    profileComplete (canonicalize records) ↔
      profileComplete (canonicalize (records.filter (·.kind == mrBackendProfile))) := by
  have hfilter (rs : List MonitorRecord) : profileDetails rs =
      profileDetails (rs.filter (·.kind == mrBackendProfile)) := by
    rw [profileDetails, profileDetails, List.filterMap_filter]
    refine List.filterMap_congr fun r _ => ?_
    cases r.kind == mrBackendProfile <;> rfl
  refine profileComplete_congr ?_
  rw [canonicalize_eq, canonicalize_eq, profileDetails_renumber, profileDetails_renumber, hfilter,
    StableSort.filter_sortBy_comm]

/-- The verdict for an arbitrary capture: the declared profiles and the specification. -/
theorem mergeFragments_complete_iff_profile (m : MergeInput) :
    (mergeFragments m).completeness = mcComplete ↔
      profileComplete (canonicalize (declaredProfiles m)) ∧ VerdictSpec isLoss m := by
  rw [mergeFragments, complete_iff, all_notLoss_canonicalize, mergedRecords_noLoss,
    profileComplete_filter, profiles_mergedRecords]

/-- **The verdict of a merge** whose capture holds no backend profile of its own. -/
theorem mergeFragments_complete_iff {m : MergeInput}
    (h : ∀ r ∈ capturedRecords m, r.kind ≠ mrBackendProfile) :
    (mergeFragments m).completeness = mcComplete ↔ VerdictSpec isLoss m := by
  have hdetails := profileDetails_mergedRecords h
  rw [mergeFragments, complete_canonicalize (hdetails.trans (profileDetails_platform m)),
    mergedRecords_noLoss, profileComplete_congr hdetails]
  exact and_iff_right (platformProfileComplete_linux m)

/-- **The merge verdict equals its specification.**  A record counts as event loss by its kind
or by its observation kind. -/
theorem mergeFragments_verdict_spec (m : MergeInput)
    (h : ∀ r ∈ capturedRecords m, r.kind ≠ mrBackendProfile ∧ r.kind ≠ mrCapabilityGap) :
    (mergeFragments m).completeness = mcComplete ↔
      platformProfileComplete m ∧ VerdictSpec isLoss m := by
  rw [mergeFragments_complete_iff fun r hr => (h r hr).1]
  exact (and_iff_right (platformProfileComplete_linux m)).symm

/-- A shell spawns a child that executes the compiler, which reads a source file.  Each of the two
processes leaves one fragment. -/
def compileCapture : MergeInput where
  entries :=
    [⟨true, str "p7.iomon-frag", some (ByteCodec.stream encodeRecordPayload
       [{ kind := mrProcessStart, observationKind := moProcessStart, osPid := 7, threadId := 7 },
        { kind := mrProcessSpawn, observationKind := moExecute, osPid := 7, threadId := 7
          childOsPid := 8, path := str "/usr/bin/cc" }]), true⟩,
     ⟨true, str "p8.iomon-frag", some (ByteCodec.stream encodeRecordPayload
       [{ kind := mrProcessStart, observationKind := moProcessStart, osPid := 8, parentOsPid := 7 },
        { kind := mrProcessExec, observationKind := moExecute, osPid := 8
          path := str "/usr/bin/cc" },
        { kind := mrProcessStart, observationKind := moProcessStart, osPid := 8, parentOsPid := 7 },
        { kind := mrFileRead, observationKind := moFileRead, osPid := 8
          path := str "/src/a.c" }]), true⟩]
  expectedRootPid := 7

theorem mergeFragments_verdict_spec_compileCapture :
    VerdictSpec isLoss compileCapture ∧
      (mergeFragments compileCapture).completeness = mcComplete := by
  have hspec : VerdictSpec isLoss compileCapture :=
    (mergedRecords_noLoss compileCapture).mp (by decide +kernel)
  exact ⟨hspec, (mergeFragments_verdict_spec compileCapture (by decide +kernel)).mpr
    ⟨platformProfileComplete_linux compileCapture, hspec⟩⟩

/-! ## 4. A loss by observation kind

The summary counts a record as loss when either of its two kinds says so.  A fragment is bytes,
so it can hold a file-read frame whose observation kind is event loss. -/

/-- A file-read frame whose observation kind is event loss. -/
def mislabelledRead : MonitorRecord where
  kind := mrFileRead
  observationKind := moEventLoss
  osPid := 7
  path := str "/etc/hosts"

/-- A capture made of one fragment that holds these frames. -/
def frameCapture (frames : List MonitorRecord) : MergeInput where
  entries := [⟨true, str "p7.iomon-frag", some (ByteCodec.stream encodeRecordPayload frames), true⟩]

/-- Such a fragment is read back whole. -/
theorem frameCapture_records {frames : List MonitorRecord} (h : ∀ r ∈ frames, FitsWire r) :
    (frameCapture frames).fragments = (frameCapture frames).entries ∧
      capturedRecords (frameCapture frames) = frames ∧
      ∀ e ∈ (frameCapture frames).fragments, e.records = frames ∧ e.corrupt = false ∧
        e.unreadable = false := by
  have hfrag : (frameCapture frames).fragments = (frameCapture frames).entries := by
    refine List.filter_eq_self.mpr fun e he => ?_
    rw [List.mem_singleton.mp he]
    exact (by decide : (true && endsWith (str "p7.iomon-frag") fragmentExt) = true)
  have hdec : decodeFramesTolerant (ByteCodec.stream encodeRecordPayload frames) =
      (frames, true) := by
    have := decodeFramesTolerant_stream h []
    simpa [decodeFramesTolerant] using this
  refine ⟨hfrag, ?_, ?_⟩
  · rw [capturedRecords, hfrag]
    simp only [frameCapture, List.flatMap_cons, List.flatMap_nil, FragmentEntry.records, hdec,
      List.append_nil]
  · rw [hfrag]
    simp only [frameCapture, List.mem_singleton, forall_eq, FragmentEntry.records,
      FragmentEntry.corrupt, FragmentEntry.unreadable, hdec, Option.isNone_some, Bool.false_and,
      Bool.not_true, and_self]

/-- With the kind alone as the loss test the specification accepts that capture, the merge does
not. -/
theorem kindOnly_spec_refuted : ¬ ∀ m : MergeInput,
    (∀ r ∈ capturedRecords m, r.kind ≠ mrBackendProfile ∧ r.kind ≠ mrCapabilityGap) →
    ((mergeFragments m).completeness = mcComplete ↔
      platformProfileComplete m ∧ VerdictSpec (fun r => r.kind == mrEventLoss) m) := by
  intro hclaim
  let mislabelledCapture := frameCapture [mislabelledRead]
  obtain ⟨-, hcap, hent⟩ := frameCapture_records
    (show ∀ r ∈ [mislabelledRead], FitsWire r by decide)
  have hkept : keptRecords mislabelledCapture = [mislabelledRead] := by
    rw [keptRecords, hcap]; decide
  have hspec : VerdictSpec (fun r => r.kind == mrEventLoss) mislabelledCapture := by
    refine ⟨?_, fun key => by rw [hkept]; simp [pendingCount, isPendingMarker, mislabelledRead]⟩
    constructor
    · exact fun e he => (hent e he).2
    · rw [hcap]; decide
    · rw [hkept]; decide
    · decide
    · decide
    · rw [hkept]; decide
    · intro pid hnamed
      rcases hnamed with ⟨r, hr, hn, _⟩ | ⟨hne, _⟩
      · rw [hkept, List.mem_singleton] at hr
        rw [hr] at hn
        exact absurd hn (by decide)
      · exact absurd rfl hne
    · rw [hkept]
      simp [mislabelledRead]
    · rw [hkept]
      simp [consumeKey, isChannel, mislabelledRead]
  have hprof : ∀ r ∈ capturedRecords mislabelledCapture,
      r.kind ≠ mrBackendProfile ∧ r.kind ≠ mrCapabilityGap := by
    rw [hcap]; decide
  have hcomplete := (hclaim mislabelledCapture hprof).mpr
    ⟨platformProfileComplete_linux mislabelledCapture, hspec⟩
  have hloss := ((mergeFragments_complete_iff fun r hr => (hprof r hr).1).mp hcomplete).noLoss
    mislabelledRead (by rw [hkept]; exact List.mem_singleton_self _) (by decide)
  exact absurd hloss (by decide)

end IoMon
