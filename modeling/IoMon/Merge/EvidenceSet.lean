/-
# What the verdict reads as a set

The specification of the verdict has two clauses that count: the exec tally and the read-tail
tally.  Every other clause asks whether some record, or every record, of the list has a property,
and reads of a record only its kind, observation kind, path and detail and, on the five kinds of
the inference, its two pids.  Neither the order nor the multiplicity of the records matters to
them.

  * `SameEvidence` -- two records that these clauses cannot tell apart;
  * `setSpec_congr` -- two captures with the same evidence as a set satisfy them alike.
-/
import IoMon.Merge.Verdict

namespace IoMon

open ByteText MonitorRecordKind MonitorObservationKind

/-! ## 1. Records that say the same -/

/-- The two records are one piece of evidence: the same content and, on the kinds the inference
reads, the same two processes. -/
structure SameEvidence (r r' : MonitorRecord) : Prop where
  content : SameContent r r'
  pids : isEvidence r = true → r.osPid = r'.osPid ∧ r.childOsPid = r'.childOsPid

theorem SameEvidence.refl (r : MonitorRecord) : SameEvidence r r :=
  ⟨SameContent.refl r, fun _ => ⟨rfl, rfl⟩⟩

theorem SameEvidence.isEvidence {r r' : MonitorRecord} (h : SameEvidence r r') :
    isEvidence r = isEvidence r' := by
  unfold IoMon.isEvidence
  rw [h.content.1]

theorem SameEvidence.symm {r r' : MonitorRecord} (h : SameEvidence r r') : SameEvidence r' r := by
  obtain ⟨hk, ho, hp, hd⟩ := h.content
  refine ⟨⟨hk.symm, ho.symm, hp.symm, hd.symm⟩, fun he => ?_⟩
  obtain ⟨hpid, hchild⟩ := h.pids (h.isEvidence.trans he)
  exact ⟨hpid.symm, hchild.symm⟩

/-- The identity form drops the observer of the kinds the inference does not read. -/
theorem SameEvidence.identityRecord (r : MonitorRecord) : SameEvidence r (identityRecord r) := by
  refine SameEvidence.symm ⟨SameContent.identityRecord r, fun he => ?_⟩
  have hscope : depIdentityScope r.kind = .disProcessScoped := by
    unfold IoMon.isEvidence at he
    rw [identityRecord_kind] at he
    split at he <;> first | (rename_i hk; rw [hk]; rfl) | exact absurd he (by simp)
  unfold IoMon.identityRecord scopedRecord
  simp only [if_true, hscope]
  exact ⟨rfl, rfl⟩

/-- The same evidence, whatever its order and multiplicity. -/
structure SameEvidenceSet (l l' : List MonitorRecord) : Prop where
  left : ∀ r ∈ l, ∃ r' ∈ l', SameEvidence r r'
  right : ∀ r' ∈ l', ∃ r ∈ l, SameEvidence r r'

/-- A property of single records that does not tell one piece of evidence from itself. -/
def OfEvidence (Q : MonitorRecord → Prop) : Prop := ∀ r r', SameEvidence r r' → (Q r ↔ Q r')

theorem ofEvidence_of_content {Q : MonitorRecord → Prop}
    (h : ∀ r r', SameContent r r' → (Q r ↔ Q r')) : OfEvidence Q :=
  fun r r' hsame => h r r' hsame.content

namespace SameEvidenceSet

variable {l l' : List MonitorRecord} (h : SameEvidenceSet l l')
include h

protected theorem symm : SameEvidenceSet l' l := by
  refine ⟨fun r' hr' => ?_, fun r hr => ?_⟩
  · obtain ⟨r, hr, hsame⟩ := h.right r' hr'
    exact ⟨r, hr, hsame.symm⟩
  · obtain ⟨r', hr', hsame⟩ := h.left r hr
    exact ⟨r', hr', hsame.symm⟩

theorem exists_iff {Q Q' : MonitorRecord → Prop}
    (hQ : ∀ r r', SameEvidence r r' → (Q r ↔ Q' r')) : (∃ r ∈ l, Q r) ↔ ∃ r ∈ l', Q' r := by
  constructor
  · rintro ⟨r, hr, hq⟩
    obtain ⟨r', hr', hsame⟩ := h.left r hr
    exact ⟨r', hr', (hQ r r' hsame).mp hq⟩
  · rintro ⟨r', hr', hq⟩
    obtain ⟨r, hr, hsame⟩ := h.right r' hr'
    exact ⟨r, hr, (hQ r r' hsame).mpr hq⟩

theorem forall_iff {Q Q' : MonitorRecord → Prop}
    (hQ : ∀ r r', SameEvidence r r' → (Q r ↔ Q' r')) : (∀ r ∈ l, Q r) ↔ ∀ r ∈ l', Q' r := by
  constructor
  · intro hq r' hr'
    obtain ⟨r, hr, hsame⟩ := h.right r' hr'
    exact (hQ r r' hsame).mp (hq r hr)
  · intro hq r hr
    obtain ⟨r', hr', hsame⟩ := h.left r hr
    exact (hQ r r' hsame).mpr (hq r' hr')

theorem filter {p : MonitorRecord → Bool} (hp : OfEvidence fun r => p r = true) :
    SameEvidenceSet (l.filter p) (l'.filter p) := by
  refine ⟨fun r hr => ?_, fun r' hr' => ?_⟩
  · obtain ⟨hr, hpr⟩ := List.mem_filter.mp hr
    obtain ⟨r', hr', hsame⟩ := h.left r hr
    exact ⟨r', List.mem_filter.mpr ⟨hr', (hp r r' hsame).mp hpr⟩, hsame⟩
  · obtain ⟨hr', hpr⟩ := List.mem_filter.mp hr'
    obtain ⟨r, hr, hsame⟩ := h.right r' hr'
    exact ⟨r, List.mem_filter.mpr ⟨hr, (hp r r' hsame).mpr hpr⟩, hsame⟩

end SameEvidenceSet

/-! ## 2. The predicates of the inference -/

theorem ofEvidence_kind {k : MonitorRecordKind} (hk : k = mrProcessStart ∨ k = mrProcessExec ∨
      k = mrProcessSpawn ∨ k = mrIpcConnect ∨ k = mrExternalContent)
    {Q : MonitorRecord → Prop} (hQ : ∀ r r', SameContent r r' → r.osPid = r'.osPid →
      r.childOsPid = r'.childOsPid → (Q r ↔ Q r')) :
    OfEvidence fun r => r.kind = k ∧ Q r := by
  intro r r' hsame
  dsimp only
  rw [← hsame.content.1]
  refine and_congr_right fun hkind => ?_
  obtain ⟨hpid, hchild⟩ := hsame.pids (isEvidence_of_kind hkind hk)
  exact hQ r r' hsame.content hpid hchild

theorem namesChild_sameEvidence {r r' : MonitorRecord} (h : SameEvidence r r') :
    namesChild r = namesChild r' := by
  have hk := h.content.1
  by_cases hspawn : r.kind = mrProcessSpawn
  · obtain ⟨hpid, hchild⟩ := h.pids (isEvidence_of_kind hspawn (by simp))
    simp only [namesChild, hk, hpid, hchild]
  · have hno : (r'.kind == mrProcessSpawn) = false := beq_eq_false_iff_ne.mpr (hk ▸ hspawn)
    simp only [namesChild, hk, hno, Bool.false_and]

section Inference

variable {l l' : List MonitorRecord} (h : SameEvidenceSet l l')
include h

/-- Who is monitored is a question about the set. -/
theorem childIsMonitored_sameEvidence (pid : UInt64) (start : NimStr) :
    childIsMonitored pid start (processStartIdentities l) =
      childIsMonitored pid start (processStartIdentities l') := by
  rw [Bool.eq_iff_iff, childIsMonitored_iff, childIsMonitored_iff]
  refine h.exists_iff (ofEvidence_kind (.inl rfl) fun r r' hc hpid _ => ?_)
  rw [hc.2.2.2, hpid]

theorem mem_monitoredStartPids_sameEvidence (pid : UInt64) :
    pid ∈ monitoredStartPids l ↔ pid ∈ monitoredStartPids l' := by
  simp only [monitoredStartPids, List.mem_map, List.mem_filter, beq_iff_eq, and_assoc]
  refine h.exists_iff (ofEvidence_kind (.inl rfl) fun r r' _ hpid _ => ?_)
  rw [hpid]

theorem consumeKey_sameEvidence {r r' : MonitorRecord} (hsame : SameContent r r') :
    consumeKey l r = consumeKey l' r' := by
  obtain ⟨hk, _, hp, hd⟩ := hsame
  have hchan : ∀ chan role, isChannel chan role r = isChannel chan role r' := by
    intro chan role
    simp only [isChannel, hk, hd]
  have hpaths : ∀ chan role, (channelPaths chan role l).contains r'.path =
      (channelPaths chan role l').contains r'.path := by
    intro chan role
    rw [Bool.eq_iff_iff, List.contains_iff_mem, List.contains_iff_mem]
    simp only [channelPaths, List.mem_map, List.mem_filter, and_assoc]
    refine h.exists_iff (ofEvidence_of_content fun s s' hs => ?_)
    simp only [isChannel, hs.1, hs.2.2.1, hs.2.2.2]
  simp only [consumeKey, hchan, hp, hpaths]

/-- **The context of the report authentication is a set**, apart from the run id. -/
theorem sameFacts_withRun (run : NimStr) :
    ({ breakawayAuthContext l with runId := run } : BreakawayAuthContext).SameFacts
      { breakawayAuthContext l' with runId := run } := by
  have hconnect : ∀ (g : MonitorRecord → Option NimStr) (x : NimStr),
      (∀ r, r.kind ≠ mrIpcConnect → g r = none) →
      (∀ r r', SameContent r r' → r.osPid = r'.osPid → r.childOsPid = r'.childOsPid →
        g r = g r') → (x ∈ l.filterMap g ↔ x ∈ l'.filterMap g) := by
    intro g x hother hg
    have hkind : ∀ r, g r = some x ↔ r.kind = mrIpcConnect ∧ g r = some x := by
      intro r
      refine ⟨fun hx => ⟨?_, hx⟩, fun hx => hx.2⟩
      by_contra hne
      rw [hother r hne] at hx
      exact absurd hx (by simp)
    have hmem : ∀ ls : List MonitorRecord, x ∈ ls.filterMap g ↔
        ∃ r ∈ ls, r.kind = mrIpcConnect ∧ g r = some x := by
      intro ls
      rw [List.mem_filterMap]
      exact exists_congr fun r => and_congr_right fun _ => hkind r
    rw [hmem, hmem]
    refine h.exists_iff (ofEvidence_kind (by simp) fun r r' hc hpid hchild => ?_)
    rw [hg r r' hc hpid hchild]
  refine ⟨rfl, fun p => ?_, fun n => ?_, fun p => ?_, fun i => ?_⟩
  · refine hconnect connectedPeer p (fun r hk => ?_) fun r r' hc hpid hchild => ?_
    · simp [connectedPeer, hk]
    · simp only [connectedPeer, hc.1, hpid, hchild]
  · refine hconnect connectionNonce n (fun r hk => ?_) fun r r' hc _ _ => ?_
    · simp [connectionNonce, hk]
    · simp only [connectionNonce, hc.1, hc.2.2.2]
  · simp only [breakawayAuthContext, List.mem_flatMap, List.mem_filter, and_assoc]
    refine h.exists_iff (ofEvidence_of_content fun r r' hc => ?_)
    rw [isOutputWrite_congr hc, hc.2.2.1]
  · simp only [breakawayAuthContext, List.mem_filterMap, List.mem_filter, and_assoc]
    refine h.exists_iff (ofEvidence_of_content fun r r' hc => ?_)
    rw [isOutputWrite_congr hc, outputIno, outputIno, hc.2.2.2]

theorem sameFacts_of_sameEvidence
    (hrun : (breakawayAuthContext l).runId = (breakawayAuthContext l').runId) :
    (breakawayAuthContext l).SameFacts (breakawayAuthContext l') := by
  have hfacts := sameFacts_withRun h (breakawayAuthContext l).runId
  exact ⟨hrun, hfacts.connectedPeers, hfacts.validNonces, hfacts.paths, hfacts.inos⟩

end Inference

/-! ## 3. The clauses that do not count -/

/-- What the specification of the verdict asks besides its two tallies. -/
structure SetSpec (m : MergeInput) : Prop where
  fragments : ∀ e ∈ m.fragments, e.corrupt = false ∧ e.unreadable = false
  scope : staleLosses (capturedRecords m) m.runScope = []
  noLoss : ∀ r ∈ keptRecords m, isLoss r = true → isReadTailMarker r = true
  sidecars : killedReaders m = 0
  root : m.expectedRootPid ≠ 0 →
    childIsMonitored m.expectedRootPid [] (processStartIdentities (keptRecords m)) = true
  spawns : ∀ r ∈ keptRecords m, namesChild r = true →
    detailTokenDuplicate r.detail ChildStartTimeToken = false ∧
      childIsMonitored r.childOsPid (trustedDetailToken r.detail ChildStartTimeToken)
        (processStartIdentities (keptRecords m)) = true
  peers : ∀ r ∈ keptRecords m, r.kind = mrIpcConnect →
    peerAccounted (processStartIdentities (keptRecords m)) (trustedDaemons m) r = true
  content : ∀ r ∈ keptRecords m, consumeKey (keptRecords m) r ≠ [] →
    producerAccounted (processStartIdentities (keptRecords m)) (trustedDaemons m) r = true

/-- The two tallies. -/
structure Tallies (m : MergeInput) : Prop where
  execs : ∀ pid, namedAsChild m pid → 0 < effectiveExecs (keptRecords m) pid →
    effectiveExecs (keptRecords m) pid < startCount (keptRecords m) pid
  readTail : ∀ key, pendingCount (keptRecords m) key ≤ committedCount (keptRecords m) key

theorem verdictSpec_iff_tallies (m : MergeInput) :
    VerdictSpec isLoss m ↔ SetSpec m ∧ Tallies m := by
  constructor
  · intro h
    exact ⟨⟨h.fragments, h.scope, h.noLoss, h.sidecars, h.root, h.spawns, h.peers, h.content⟩,
      ⟨h.execs, h.readTail⟩⟩
  · rintro ⟨h, ht⟩
    exact ⟨⟨h.fragments, h.scope, h.noLoss, h.sidecars, h.root, h.spawns, ht.execs, h.peers,
      h.content⟩, ht.readTail⟩

section Congruence

variable {m m' : MergeInput} (hkept : SameEvidenceSet (keptRecords m) (keptRecords m'))
  (hroot : m.expectedRootPid = m'.expectedRootPid)
include hkept

theorem observedRecords_sameEvidence :
    SameEvidenceSet (observedRecords m) (observedRecords m') := by
  refine hkept.filter (ofEvidence_of_content fun r r' hc => ?_)
  rw [isReadTailMarker_congr hc]

/-- The same reports are accepted. -/
theorem trustedDaemons_sameEvidence (hreports : m.reports = m'.reports)
    (hrun : (breakawayAuthContext (observedRecords m)).runId =
      (breakawayAuthContext (observedRecords m')).runId) :
    trustedDaemons m = trustedDaemons m' := by
  have hobs := observedRecords_sameEvidence hkept
  have hfacts := sameFacts_of_sameEvidence hobs hrun
  have hsame : acceptedReport (monitoredStartPids (observedRecords m))
      (breakawayAuthContext (observedRecords m)) =
      acceptedReport (monitoredStartPids (observedRecords m'))
        (breakawayAuthContext (observedRecords m')) :=
    funext fun e => acceptedReport_of_sameFacts hfacts (mem_monitoredStartPids_sameEvidence hobs) e
  rw [trustedDaemons, trustedDaemons, acceptedReports, acceptedReports, hreports, hsame]

include hroot

theorem namedAsChild_sameEvidence (pid : UInt64) : namedAsChild m pid ↔ namedAsChild m' pid := by
  unfold namedAsChild
  rw [hroot]
  refine or_congr_left (hkept.exists_iff fun r r' hsame => ?_)
  rw [namesChild_sameEvidence hsame]
  refine and_congr_right fun hnames => ?_
  rw [(hsame.symm.pids (namesChild_isEvidence hnames)).2]

/-- **The clauses that do not count hold alike** of two captures with the same evidence. -/
theorem setSpec_congr (hfragments : (∀ e ∈ m.fragments, e.corrupt = false ∧ e.unreadable = false) ↔
      ∀ e ∈ m'.fragments, e.corrupt = false ∧ e.unreadable = false)
    (hscope : staleLosses (capturedRecords m) m.runScope = [] ↔
      staleLosses (capturedRecords m') m'.runScope = [])
    (hsidecars : killedReaders m = killedReaders m')
    (hdaemons : trustedDaemons m = trustedDaemons m') : SetSpec m ↔ SetSpec m' := by
  have hchild := childIsMonitored_sameEvidence hkept
  have hloss : (∀ r ∈ keptRecords m, isLoss r = true → isReadTailMarker r = true) ↔
      ∀ r ∈ keptRecords m', isLoss r = true → isReadTailMarker r = true := by
    refine hkept.forall_iff (ofEvidence_of_content fun r r' hc => ?_)
    rw [isLoss_congr hc, isReadTailMarker_congr hc]
  have hspawns : (∀ r ∈ keptRecords m, namesChild r = true →
        detailTokenDuplicate r.detail ChildStartTimeToken = false ∧
          childIsMonitored r.childOsPid (trustedDetailToken r.detail ChildStartTimeToken)
            (processStartIdentities (keptRecords m)) = true) ↔
      ∀ r ∈ keptRecords m', namesChild r = true →
        detailTokenDuplicate r.detail ChildStartTimeToken = false ∧
          childIsMonitored r.childOsPid (trustedDetailToken r.detail ChildStartTimeToken)
            (processStartIdentities (keptRecords m')) = true := by
    refine hkept.forall_iff fun r r' hsame => ?_
    rw [namesChild_sameEvidence hsame]
    refine forall_congr' fun hnames => ?_
    obtain ⟨_, hpid⟩ := hsame.symm.pids (namesChild_isEvidence hnames)
    rw [hchild, hpid, hsame.content.2.2.2]
  have hpeers : (∀ r ∈ keptRecords m, r.kind = mrIpcConnect →
        peerAccounted (processStartIdentities (keptRecords m)) (trustedDaemons m) r = true) ↔
      ∀ r ∈ keptRecords m', r.kind = mrIpcConnect →
        peerAccounted (processStartIdentities (keptRecords m')) (trustedDaemons m') r = true := by
    refine hkept.forall_iff fun r r' hsame => ?_
    rw [← hsame.content.1]
    refine forall_congr' fun hk => ?_
    obtain ⟨_, hpeer⟩ := hsame.pids (isEvidence_of_kind hk (by simp))
    simp only [peerAccounted, hchild, hpeer, hsame.content.2.2.2, hdaemons]
  have hcontent : (∀ r ∈ keptRecords m, consumeKey (keptRecords m) r ≠ [] →
        producerAccounted (processStartIdentities (keptRecords m)) (trustedDaemons m) r = true) ↔
      ∀ r ∈ keptRecords m', consumeKey (keptRecords m') r ≠ [] →
        producerAccounted (processStartIdentities (keptRecords m')) (trustedDaemons m') r =
          true := by
    refine hkept.forall_iff fun r r' hsame => ?_
    rw [consumeKey_sameEvidence hkept hsame.content]
    refine forall_congr' fun hkey => ?_
    obtain ⟨_, hpeer⟩ := hsame.symm.pids (isEvidence_of_consumeKey (keptRecords m') hkey)
    simp only [producerAccounted, hchild, ← hpeer, hsame.content.2.2.2, hdaemons]
  constructor
  · rintro ⟨h1, h2, h3, h4, h5, h6, h7, h8⟩
    rw [hsidecars] at h4
    rw [hroot, hchild] at h5
    exact ⟨hfragments.mp h1, hscope.mp h2, hloss.mp h3, h4, h5, hspawns.mp h6, hpeers.mp h7,
      hcontent.mp h8⟩
  · rintro ⟨h1, h2, h3, h4, h5, h6, h7, h8⟩
    rw [← hsidecars] at h4
    rw [← hroot, ← hchild] at h5
    exact ⟨hfragments.mpr h1, hscope.mpr h2, hloss.mpr h3, h4, h5, hspawns.mpr h6, hpeers.mpr h7,
      hcontent.mpr h8⟩

end Congruence

end IoMon
