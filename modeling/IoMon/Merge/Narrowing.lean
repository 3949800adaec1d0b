/-
# Narrowing a capture and the verdict

The gates of `emitRecord` run in the producer, before the merge infers anything.  A record that
is gated away can take a loss with it that the merge would have inferred from it, or an output
write that would have exposed a forged report.  This file says which records a merge verdict does
not depend on (`Neutral`), and from that which requests cannot upgrade a verdict: those that keep
the process tree, the file reads and the file writes, and do not drop failed lookups.

Every other request has a stream on which the narrowed capture is complete and the whole one is
not.
-/
import IoMon.Merge.Trust
import IoMon.Merge.Verdict
import IoMon.Shim.Emit

namespace IoMon

open ByteText MonitorRecordKind MonitorObservationKind MonitorCompleteness EvidenceScope
  EventCategory

/-! ## 1. Records the verdict does not depend on -/

/-- The record is no evidence, no output and no loss, and stale-run dropping decides it. -/
structure Neutral (records : List MonitorRecord) (run : NimStr) (r : MonitorRecord) : Prop where
  notEvidence : isEvidence r = false
  notWrite : isOutputWrite r = false
  notLoss : isLoss r = false
  decided : staleAction records run r = .keep ∨ staleAction records run r = .drop

/-- `m'` is `m` without some neutral records. -/
structure NarrowedBy (keep : MonitorRecord → Bool) (m' m : MergeInput) : Prop where
  reports : m'.reports = m.reports
  root : m'.expectedRootPid = m.expectedRootPid
  runScope : m'.runScope = m.runScope
  captured : capturedRecords m' = (capturedRecords m).filter keep
  neutral : ∀ r ∈ capturedRecords m, keep r = false → Neutral (capturedRecords m) m.runScope r

theorem filter_filter_of_imp {α : Type} {keep p : α → Bool} {l : List α}
    (h : ∀ r ∈ l, p r = true → keep r = true) : (l.filter keep).filter p = l.filter p := by
  rw [List.filter_filter]
  refine List.filter_congr fun r hr => ?_
  cases hp : p r with
  | false => rfl
  | true => rw [h r hr hp]; rfl

theorem countP_filter_of_imp {α : Type} {keep p : α → Bool} {l : List α}
    (h : ∀ r ∈ l, p r = true → keep r = true) : (l.filter keep).countP p = l.countP p := by
  rw [List.countP_eq_length_filter, List.countP_eq_length_filter, filter_filter_of_imp h]

section Narrowed

variable {keep : MonitorRecord → Bool} {m' m : MergeInput}

/-- Evidence is never dropped. -/
theorem NarrowedBy.keeps_evidence (h : NarrowedBy keep m' m) {r : MonitorRecord}
    (hr : r ∈ capturedRecords m) (he : isEvidence r = true) : keep r = true := by
  cases hk : keep r with
  | true => rfl
  | false =>
    rw [(h.neutral r hr hk).notEvidence] at he
    exact absurd he (by simp)

/-- Neither is a loss. -/
theorem NarrowedBy.keeps_loss (h : NarrowedBy keep m' m) {r : MonitorRecord}
    (hr : r ∈ capturedRecords m) (hl : isLoss r = true) : keep r = true := by
  cases hk : keep r with
  | true => rfl
  | false =>
    rw [(h.neutral r hr hk).notLoss] at hl
    exact absurd hl (by simp)

/-- Nor an output write. -/
theorem NarrowedBy.keeps_write (h : NarrowedBy keep m' m) {r : MonitorRecord}
    (hr : r ∈ capturedRecords m) (hw : isOutputWrite r = true) : keep r = true := by
  cases hk : keep r with
  | true => rfl
  | false =>
    rw [(h.neutral r hr hk).notWrite] at hw
    exact absurd hw (by simp)

theorem NarrowedBy.fragmentRunIds (h : NarrowedBy keep m' m) (pid : UInt64) :
    fragmentRunIds (capturedRecords m') pid = fragmentRunIds (capturedRecords m) pid := by
  have hstarts : (capturedRecords m').filter (fun r => r.kind == mrProcessStart &&
      r.osPid == pid && !hasDuplicateIdentityToken r.detail) =
      (capturedRecords m).filter (fun r => r.kind == mrProcessStart && r.osPid == pid &&
        !hasDuplicateIdentityToken r.detail) := by
    rw [h.captured]
    refine filter_filter_of_imp fun r hr hp => h.keeps_evidence hr ?_
    simp only [Bool.and_eq_true, beq_iff_eq] at hp
    exact isEvidence_of_kind hp.1.1 (by simp)
  simp only [IoMon.fragmentRunIds, hstarts]

/-- Stale-run dropping reads process-starts only, so it treats what is left alike. -/
theorem NarrowedBy.staleAction (h : NarrowedBy keep m' m) (r : MonitorRecord) :
    staleAction (capturedRecords m') m'.runScope r =
      staleAction (capturedRecords m) m.runScope r := by
  simp only [IoMon.staleAction, h.fragmentRunIds, h.runScope]

theorem NarrowedBy.keptRecords (h : NarrowedBy keep m' m) :
    keptRecords m' = (keptRecords m).filter keep := by
  have hact : (fun r => IoMon.staleAction (capturedRecords m') m'.runScope r == .keep) =
      fun r => IoMon.staleAction (capturedRecords m) m.runScope r == .keep := by
    funext r
    rw [h.staleAction]
  rw [IoMon.keptRecords, IoMon.keptRecords, staleKept, hact, h.captured, staleKept,
    List.filter_filter, List.filter_filter]
  exact List.filter_congr fun r _ => Bool.and_comm _ _

theorem captured_of_kept {r : MonitorRecord} (h : r ∈ keptRecords m) : r ∈ capturedRecords m :=
  (mem_staleKept.mp h).1

theorem NarrowedBy.evidence_kept (h : NarrowedBy keep m' m) :
    evidence (IoMon.keptRecords m') = evidence (IoMon.keptRecords m) := by
  rw [h.keptRecords]
  exact filter_filter_of_imp fun r hr he => h.keeps_evidence (captured_of_kept hr) he

theorem NarrowedBy.mem_kept (h : NarrowedBy keep m' m) {r : MonitorRecord}
    (hr : r ∈ IoMon.keptRecords m) (he : isEvidence r = true) : r ∈ IoMon.keptRecords m' := by
  rw [h.keptRecords]
  exact List.mem_filter.mpr ⟨hr, h.keeps_evidence (captured_of_kept hr) he⟩

/-- A count over evidence or losses is the count before narrowing. -/
theorem NarrowedBy.countP_kept (h : NarrowedBy keep m' m) {p : MonitorRecord → Bool}
    (hp : ∀ r, p r = true → isEvidence r = true ∨ isLoss r = true) :
    (IoMon.keptRecords m').countP p = (IoMon.keptRecords m).countP p := by
  rw [h.keptRecords]
  refine countP_filter_of_imp fun r hr hpr => ?_
  rcases hp r hpr with he | hl
  · exact h.keeps_evidence (captured_of_kept hr) he
  · exact h.keeps_loss (captured_of_kept hr) hl

theorem NarrowedBy.startIdentities (h : NarrowedBy keep m' m) :
    processStartIdentities (IoMon.keptRecords m') =
      processStartIdentities (IoMon.keptRecords m) := by
  rw [← processStartIdentities_evidence, h.evidence_kept, processStartIdentities_evidence]

/-! ## 2. The reports are judged alike -/

theorem NarrowedBy.authContext (h : NarrowedBy keep m' m) :
    (breakawayAuthContext (observedRecords m')).Agrees
      (breakawayAuthContext (observedRecords m)) := by
  have hev : evidence (observedRecords m') = evidence (observedRecords m) := by
    rw [evidence_observedRecords, evidence_observedRecords, h.evidence_kept]
  have hlist : ∀ g : MonitorRecord → Option NimStr,
      (∀ rs, (evidence rs).filterMap g = rs.filterMap g) →
      (observedRecords m').filterMap g = (observedRecords m).filterMap g := by
    intro g hg
    rw [← hg, hev, hg]
  have hwrites : (observedRecords m').filter isOutputWrite =
      (observedRecords m).filter isOutputWrite := by
    rw [observedRecords, observedRecords, h.keptRecords, List.filter_filter, List.filter_filter,
      List.filter_filter]
    refine List.filter_congr fun r hr => ?_
    cases hw : isOutputWrite r with
    | false => rfl
    | true => rw [h.keeps_write (captured_of_kept hr) hw, Bool.and_true]
  constructor
  · simp only [breakawayAuthContext, hlist recordRunId fun rs => (authLists_evidence rs).1]
  · exact hlist connectedPeer fun rs => (authLists_evidence rs).2.1
  · exact hlist connectionNonce fun rs => (authLists_evidence rs).2.2
  · intro p
    simp only [breakawayAuthContext, hwrites]
  · intro i
    simp only [breakawayAuthContext, hwrites]

theorem NarrowedBy.trustedDaemons (h : NarrowedBy keep m' m) :
    trustedDaemons m' = trustedDaemons m := by
  have hstarts : monitoredStartPids (observedRecords m') =
      monitoredStartPids (observedRecords m) := by
    rw [← monitoredStartPids_evidence, evidence_observedRecords, h.evidence_kept,
      ← evidence_observedRecords, monitoredStartPids_evidence]
  have haccept : acceptedReport (monitoredStartPids (observedRecords m'))
      (breakawayAuthContext (observedRecords m')) =
      acceptedReport (monitoredStartPids (observedRecords m))
        (breakawayAuthContext (observedRecords m)) := by
    funext e
    rw [acceptedReport_congr h.authContext, hstarts]
  simp only [IoMon.trustedDaemons, acceptedReports, haccept, h.reports]

/-! ## 3. The specification is carried back -/

theorem NarrowedBy.effectiveExecs (h : NarrowedBy keep m' m) (pid : UInt64) :
    effectiveExecs (IoMon.keptRecords m') pid = effectiveExecs (IoMon.keptRecords m) pid := by
  have hexec : ∀ q : MonitorRecord → Bool,
      (IoMon.keptRecords m').countP (fun r => r.kind == mrProcessExec && r.osPid == pid && q r) =
        (IoMon.keptRecords m).countP
          (fun r => r.kind == mrProcessExec && r.osPid == pid && q r) := by
    intro q
    refine h.countP_kept fun r hr => .inl ?_
    simp only [Bool.and_eq_true, beq_iff_eq] at hr
    exact isEvidence_of_kind hr.1.1 (by simp)
  rw [IoMon.effectiveExecs, IoMon.effectiveExecs, execCount, execCount, execFailedCount,
    execFailedCount, hexec, hexec]

theorem NarrowedBy.startCount (h : NarrowedBy keep m' m) (pid : UInt64) :
    startCount (IoMon.keptRecords m') pid = startCount (IoMon.keptRecords m) pid := by
  refine h.countP_kept fun r hr => .inl ?_
  simp only [Bool.and_eq_true, beq_iff_eq] at hr
  exact isEvidence_of_kind hr.1 (by simp)

/-- A marker count is a count of losses. -/
theorem isLoss_of_kind {r : MonitorRecord} (h : r.kind = mrEventLoss) : isLoss r = true := by
  simp [isLoss, h]

/-- **Dropping neutral records does not upgrade a verdict.** -/
theorem NarrowedBy.verdictSpec (h : NarrowedBy keep m' m)
    (hfrag : ∀ e ∈ m.fragments, e.corrupt = false ∧ e.unreadable = false)
    (hside : killedReaders m = 0) (hspec : VerdictSpec isLoss m') : VerdictSpec isLoss m := by
  constructor
  · constructor
    case fragments => exact hfrag
    case scope =>
      refine staleLosses_eq_nil.mpr fun r hr => ?_
      cases hk : keep r with
      | false => exact (h.neutral r hr hk).decided
      | true =>
        rw [← h.staleAction]
        refine staleLosses_eq_nil.mp hspec.scope r ?_
        rw [h.captured]
        exact List.mem_filter.mpr ⟨hr, hk⟩
    case noLoss =>
      intro r hr hl
      refine hspec.noLoss r ?_ hl
      rw [h.keptRecords]
      exact List.mem_filter.mpr ⟨hr, h.keeps_loss (captured_of_kept hr) hl⟩
    case sidecars => exact hside
    case root =>
      intro hroot
      have := hspec.root (by rw [h.root]; exact hroot)
      rwa [h.root, h.startIdentities] at this
    case spawns =>
      intro r hr hn
      have := hspec.spawns r (h.mem_kept hr (namesChild_isEvidence hn)) hn
      rwa [h.startIdentities] at this
    case execs =>
      intro pid hnamed hpos
      have hnamed' : namedAsChild m' pid := by
        rcases hnamed with ⟨r, hr, hn, hc⟩ | ⟨hne, heq⟩
        · exact .inl ⟨r, h.mem_kept hr (namesChild_isEvidence hn), hn, hc⟩
        · exact .inr (by rw [h.root]; exact ⟨hne, heq⟩)
      have := hspec.execs pid hnamed' (by rw [h.effectiveExecs]; exact hpos)
      rwa [h.effectiveExecs, h.startCount] at this
    case peers =>
      intro r hr hk
      have := hspec.peers r (h.mem_kept hr (isEvidence_of_kind hk (by simp))) hk
      rwa [h.startIdentities, h.trustedDaemons] at this
    case content =>
      intro r hr hk
      have hkey : consumeKey (IoMon.keptRecords m') r = consumeKey (IoMon.keptRecords m) r := by
        rw [← consumeKey_evidence, h.evidence_kept, consumeKey_evidence]
      have := hspec.content r (h.mem_kept hr (isEvidence_of_consumeKey _ hk)) (by rwa [hkey])
      rwa [h.startIdentities, h.trustedDaemons] at this
  · intro key
    have hpending : pendingCount (IoMon.keptRecords m') key =
        pendingCount (IoMon.keptRecords m) key := by
      refine h.countP_kept fun r hr => .inr (isLoss_of_kind ?_)
      simp only [isPendingMarker, Bool.and_eq_true, beq_iff_eq] at hr
      exact hr.1.1
    have hcommitted : committedCount (IoMon.keptRecords m') key =
        committedCount (IoMon.keptRecords m) key := by
      refine h.countP_kept fun r hr => .inr (isLoss_of_kind ?_)
      simp only [isCommittedMarker, Bool.and_eq_true, beq_iff_eq] at hr
      exact hr.1.1
    have := hspec.readTail key
    rwa [hpending, hcommitted] at this

end Narrowed

/-! ## 4. Which records of a shim stream are neutral -/

/-- The categories whose records the inference never reads. -/
def quietCategory (c : EventCategory) : Bool :=
  c != ecProcessTree && c != ecFileReads && c != ecFileWrites

/-- A record of a quiet category has a fixed detail without tokens. -/
theorem records_quiet {ev : ShimEvent} {o : Origin} {r : MonitorRecord} {c : EventCategory}
    (hr : r ∈ ev.records o) (hc : categoryOf r.kind = some c) (hq : quietCategory c = true) :
    (61 : UInt8) ∉ r.detail ∧ isEvidence r = false ∧ isOutputWrite r = false ∧
      isLoss r = false := by
  -- the kinds that are always kept: the category is absent or not a quiet one
  have hkind : ∀ {k : MonitorRecordKind}, r.kind = k →
      (match categoryOf k with | some c => quietCategory c | none => false) = false → False := by
    intro k hk hno
    rw [← hk, hc] at hno
    exact absurd hq (by rw [show quietCategory c = false from hno]; simp)
  cases ev with
  | fopen path mode =>
    rcases recordFopen_kind hr with hk | hk <;> exact (hkind hk rfl).elim
  | libraryLoad path reason =>
    rw [List.mem_singleton.mp hr]
    exact ⟨libraryLoad_detail_noEq reason, rfl, rfl, rfl⟩
  | probe path callResult =>
    rw [List.mem_singleton.mp hr]
    exact ⟨by simp [baseRecord], rfl, rfl, rfl⟩
  | readdir path =>
    rw [List.mem_singleton.mp hr]
    have hdetail : (61 : UInt8) ∉ str "readdir" := by decide
    exact ⟨hdetail, rfl, rfl, rfl⟩
  | nonFile input path =>
    rw [List.mem_singleton.mp hr]
    refine ⟨nonFile_detail_noEq input, ?_, ?_, ?_⟩ <;> cases input <;> rfl
  | _ =>
    exact (hkind (by rw [List.mem_singleton.mp hr]) rfl).elim

/-- A process-start carries the run id and nothing else. -/
theorem processStart_stamp {run : RunId} {events : List (Origin × ShimEvent)} {r : MonitorRecord}
    (hr : r ∈ wholeStream run events) (hk : r.kind = mrProcessStart) :
    trustedDetailToken r.detail RunIdToken = run.text := by
  obtain ⟨⟨o, ev⟩, _, r₀, hr₀, rfl⟩ := mem_wholeStream.mp hr
  have hk₀ : r₀.kind = mrProcessStart := by
    unfold stampRunId at hk
    split at hk <;> exact hk
  cases ev with
  | processStart =>
    have hdetail : (61 : UInt8) ∉ str "linux-preload-hooks" := by decide
    refine runId_stamp ?_
    rw [List.mem_singleton.mp hr₀]
    exact hdetail
  | fopen path mode =>
    rcases recordFopen_kind hr₀ with hk | hk <;> rw [hk] at hk₀ <;> exact absurd hk₀ (by simp)
  | nonFile input path =>
    rw [List.mem_singleton.mp hr₀] at hk₀
    cases input <;> exact absurd hk₀ (by simp [baseRecord, NonFile.kind])
  | _ =>
    rw [List.mem_singleton.mp hr₀] at hk₀
    exact absurd hk₀ (by simp [baseRecord])

/-- **A quiet record is decided by stale-run dropping**, whatever run the merge is for. -/
theorem staleAction_quiet {run : RunId} {events : List (Origin × ShimEvent)} {r₀ : MonitorRecord}
    (h : (61 : UInt8) ∉ r₀.detail) (scope : NimStr) :
    staleAction (wholeStream run events) scope (stampRunId run.text r₀) = .keep ∨
      staleAction (wholeStream run events) scope (stampRunId run.text r₀) = .drop := by
  rw [staleAction, noDuplicate_stamp h, runId_stamp h]
  simp only [Bool.false_eq_true, if_false]
  by_cases hscope : scope.isEmpty = true
  · exact .inl (by rw [if_pos hscope])
  rw [if_neg hscope]
  by_cases hrun : run.text = []
  · have hnone : fragmentRunIds (wholeStream run events) (stampRunId run.text r₀).osPid = [] := by
      rw [fragmentRunIds, List.dedup_eq_nil, List.filter_eq_nil_iff]
      intro id hid
      obtain ⟨r, hr, rfl⟩ := List.mem_map.mp hid
      obtain ⟨hr, hp⟩ := List.mem_filter.mp hr
      simp only [Bool.and_eq_true, beq_iff_eq] at hp
      rw [processStart_stamp hr hp.1.1, hrun]
      simp
    rw [if_neg (by simp [hrun])]
    exact .inl (if_neg fun hruns => hruns.2 hnone)
  · have hne : (!run.text.isEmpty) = true := by simpa using hrun
    rw [if_pos hne]
    split
    · exact .inr rfl
    · exact .inl rfl

/-- The categories that carry evidence for a loss are requested. -/
def keepsEvidence (interest : Finset EventCategory) : Prop :=
  ecProcessTree ∈ normalizeInterest interest ∧ ecFileReads ∈ normalizeInterest interest ∧
    ecFileWrites ∈ normalizeInterest interest

theorem quiet_of_unpublished {interest : Finset EventCategory} {scope : EvidenceScope}
    (hi : keepsEvidence interest) (hs : scope ≠ esReadsOnly) {r : MonitorRecord}
    (h : recordPublished interest scope r = false) :
    ∃ c, categoryOf r.kind = some c ∧ quietCategory c = true := by
  have hscope : recordInEvidenceScope scope r = true := by
    cases scope with
    | esReadsOnly => exact absurd rfl hs
    | _ => rfl
  rw [recordPublished, hscope, Bool.and_true, recordWanted] at h
  cases hc : categoryOf r.kind with
  | none =>
    rw [hc] at h
    exact absurd h (by simp)
  | some c =>
    rw [hc] at h
    have hnot : c ∉ normalizeInterest interest := by simpa using h
    refine ⟨c, rfl, ?_⟩
    obtain ⟨hproc, hread, hwrite⟩ := hi
    simp only [quietCategory, Bool.and_eq_true, bne_iff_ne, ne_eq]
    refine ⟨⟨?_, ?_⟩, ?_⟩ <;> rintro rfl
    · exact hnot hproc
    · exact hnot hread
    · exact hnot hwrite

/-- **What a request with these categories drops is neutral.** -/
theorem neutral_of_unpublished {interest : Finset EventCategory} {scope : EvidenceScope}
    (hi : keepsEvidence interest) (hs : scope ≠ esReadsOnly) {run : RunId}
    {events : List (Origin × ShimEvent)} {r : MonitorRecord} (hr : r ∈ wholeStream run events)
    (h : recordPublished interest scope r = false) (runScope : NimStr) :
    Neutral (wholeStream run events) runScope r := by
  obtain ⟨⟨o, ev⟩, _, r₀, hr₀, rfl⟩ := mem_wholeStream.mp hr
  rw [stampRunId_gate] at h
  obtain ⟨c, hc, hq⟩ := quiet_of_unpublished hi hs h
  obtain ⟨hdetail, hev, hw, hl⟩ := records_quiet hr₀ hc hq
  have hfields : ∀ q : MonitorRecord → Bool,
      (∀ a b : MonitorRecord, a.kind = b.kind → a.observationKind = b.observationKind →
        a.path = b.path → q a = q b) → q (stampRunId run.text r₀) = q r₀ := by
    intro q hq
    unfold stampRunId
    split
    · rfl
    · exact hq _ _ rfl rfl rfl
  refine ⟨?_, ?_, ?_, staleAction_quiet hdetail runScope⟩
  · rw [hfields isEvidence fun a b hk _ _ => by rw [isEvidence, isEvidence, hk], hev]
  · rw [hfields isOutputWrite fun a b _ ho hp => by rw [isOutputWrite, isOutputWrite, ho, hp], hw]
  · rw [hfields isLoss fun a b hk ho _ => by rw [isLoss, isLoss, hk, ho], hl]

/-! ## 5. Which requests can upgrade a verdict -/

/-- The merge of what the shims publish under a request, over the shared set.  `env` gives the
reports, the expected root and the run the merge is for. -/
def streamCapture (env : MergeInput) (interest : Finset EventCategory) (scope : EvidenceScope)
    (run : RunId) (events : List (Origin × ShimEvent)) : MergeInput :=
  { env with
    entries := []
    setRecords := shimStream interest scope run events
    observedInterest := interest
    observedEvidenceScope := scope }

/-- Under this request a complete narrowed capture means a complete whole one. -/
def NeverUpgrades (interest : Finset EventCategory) (scope : EvidenceScope) : Prop :=
  ∀ (env : MergeInput) (run : RunId) (events : List (Origin × ShimEvent)),
    (mergeFragments (streamCapture env interest scope run events)).completeness = mcComplete →
    (mergeFragments (streamCapture env FullInterest esFull run events)).completeness = mcComplete

section Stream

variable (env : MergeInput) (interest : Finset EventCategory) (scope : EvidenceScope)
  (run : RunId) (events : List (Origin × ShimEvent))

theorem capturedRecords_stream :
    capturedRecords (streamCapture env interest scope run events) =
      shimStream interest scope run events := rfl

/-- No hook emits a backend profile. -/
theorem records_ne_profile {ev : ShimEvent} {o : Origin} {r : MonitorRecord}
    (hr : r ∈ ev.records o) : r.kind ≠ mrBackendProfile := by
  cases ev with
  | fopen path mode => rcases recordFopen_kind hr with hk | hk <;> rw [hk] <;> simp
  | nonFile input path =>
    rw [List.mem_singleton.mp hr]
    cases input <;> simp [baseRecord, NonFile.kind]
  | _ =>
    rw [List.mem_singleton.mp hr]
    simp [baseRecord]

theorem stream_complete_iff :
    (mergeFragments (streamCapture env interest scope run events)).completeness = mcComplete ↔
      VerdictSpec isLoss (streamCapture env interest scope run events) := by
  refine mergeFragments_complete_iff fun r hr => ?_
  rw [capturedRecords_stream, shimStream_eq_filter] at hr
  obtain ⟨⟨o, ev⟩, _, r₀, hr₀, rfl⟩ := mem_wholeStream.mp (List.mem_filter.mp hr).1
  have hk := records_ne_profile hr₀
  unfold stampRunId
  split <;> exact hk

end Stream

/-- **A request that keeps the evidence never upgrades a verdict.** -/
theorem neverUpgrades_of_keepsEvidence {interest : Finset EventCategory} {scope : EvidenceScope}
    (hi : keepsEvidence interest) (hs : scope ≠ esReadsOnly) : NeverUpgrades interest scope := by
  intro env run events hcomplete
  rw [stream_complete_iff] at hcomplete ⊢
  have hnarrow : NarrowedBy (recordPublished interest scope)
      (streamCapture env interest scope run events)
      (streamCapture env FullInterest esFull run events) := by
    refine ⟨rfl, rfl, rfl, ?_, fun r hr hk => ?_⟩
    · rw [capturedRecords_stream, capturedRecords_stream, shimStream_eq_filter, wholeStream]
    · exact neutral_of_unpublished hi hs hr hk _
  refine hnarrow.verdictSpec (fun e he => ?_) rfl hcomplete
  exact absurd he (by simp [streamCapture, MergeInput.fragments])

/-! ## 6. The requests that can

Two kinds of stream are enough.  Without the process tree a fork whose child never loaded the
shim leaves no trace.  Without the file reads, the file writes or the failed lookups, some open
or write of a report by its own client is gone, and the forged report is trusted. -/

def runR : RunId := ⟨str "R", by decide +kernel⟩

/-- Process 7 forks a child that never loads the shim. -/
def silentFork : List (Origin × ShimEvent) :=
  [({ osPid := 7 }, .processStart), ({ osPid := 7 }, .spawn .fork [] 8 8)]

/-- Client 10 connects to a daemon outside the tree. -/
def served : List (Origin × ShimEvent) :=
  [({ osPid := 10 }, .processStart),
    ({ osPid := 10 }, .ipcConnect .afUnix 99 none (str "/run/d.sock") 3)]

/-- The same client touches the daemon's report itself. -/
def forgedBy (x : ShimEvent) : List (Origin × ShimEvent) := served ++ [({ osPid := 10 }, x)]

/-- The merge of run `R` with the daemon's report at hand. -/
def reportEnv : MergeInput where
  reports := [reportForClient10]
  currentRunId := str "R"

def reportWrite : ShimEvent := .fileWrite (str "/r/d.io-mon-report") [] 80 5

/-- An open of the report for writing; `fd` is -1 when it fails. -/
def reportOpen (fd : Int64) : ShimEvent := .fileOpen (str "/r/d.io-mon-report") OWrOnly fd

/-- A merge of nothing is complete. -/
theorem verdictSpec_empty {m : MergeInput} (hcap : capturedRecords m = [])
    (hfrag : m.fragments = []) (hside : killedReaders m = 0) (hroot : m.expectedRootPid = 0) :
    VerdictSpec isLoss m := by
  have hkept : keptRecords m = [] := by rw [keptRecords, hcap]; rfl
  constructor
  · constructor
    case fragments => rw [hfrag]; simp
    case scope => rw [hcap]; rfl
    case sidecars => exact hside
    case root => exact fun h => absurd hroot h
    case execs =>
      rintro pid (⟨r, hr, _⟩ | ⟨hne, _⟩) _
      · rw [hkept] at hr
        exact absurd hr (by simp)
      · exact absurd hroot hne
    all_goals
      rw [hkept]
      simp
  · intro key
    rw [hkept]
    exact Nat.zero_le _

theorem silentFork_upgrades {interest : Finset EventCategory} {scope : EvidenceScope}
    (h : ecProcessTree ∉ normalizeInterest interest) : ¬ NeverUpgrades interest scope := by
  intro hnever
  have hproc : ∀ r : MonitorRecord, categoryOf r.kind = some ecProcessTree →
      recordPublished interest scope r = false := by
    intro r hc
    rw [recordPublished, recordWanted, hc]
    simp [h]
  have hset : shimStream interest scope runR silentFork = [] := by
    rw [shimStream_eq_filter, List.filter_eq_nil_iff]
    have hkinds : ∀ r ∈ wholeStream runR silentFork, categoryOf r.kind = some ecProcessTree := by
      decide +kernel
    intro r hr
    rw [hproc r (hkinds r hr)]
    simp
  have hwhole := hnever {} runR silentFork
    ((stream_complete_iff ..).mpr (verdictSpec_empty hset rfl rfl rfl))
  have hspec := (stream_complete_iff ..).mp hwhole
  have hfork : ∃ r ∈ keptRecords (streamCapture {} FullInterest esFull runR silentFork),
      namesChild r = true ∧ childIsMonitored r.childOsPid
        (trustedDetailToken r.detail ChildStartTimeToken) (processStartIdentities
          (keptRecords (streamCapture {} FullInterest esFull runR silentFork))) = false := by
    decide +kernel
  obtain ⟨r, hr, hn, hno⟩ := hfork
  rw [(hspec.spawns r hr hn).2] at hno
  exact absurd hno (by simp)

/-- With nothing but the connection on record the report is trusted. -/
theorem served_complete :
    VerdictSpec isLoss (streamCapture reportEnv FullInterest esFull runR served) := by
  have hnone : ∀ r ∈ keptRecords (streamCapture reportEnv FullInterest esFull runR served),
      namesChild r = false ∧ isPendingMarker r = false ∧ isLoss r = false := by decide +kernel
  constructor
  · constructor
    case fragments => exact fun e he => absurd he (List.not_mem_nil (a := e))
    case scope => decide +kernel
    case noLoss => intro r hr hl; rw [(hnone r hr).2.2] at hl; exact absurd hl (by simp)
    case sidecars => rfl
    case root => exact fun h => absurd rfl h
    case spawns => intro r hr hn; rw [(hnone r hr).1] at hn; exact absurd hn (by simp)
    case execs =>
      rintro pid (⟨r, hr, hn, _⟩ | ⟨hne, _⟩) _
      · rw [(hnone r hr).1] at hn
        exact absurd hn (by simp)
      · exact absurd rfl hne
    case peers => decide +kernel
    case content => decide +kernel
  · intro key
    have hzero : pendingCount (keptRecords (streamCapture reportEnv FullInterest esFull runR
        served)) key = 0 := by
      refine List.countP_eq_zero.mpr fun r hr => ?_
      rw [(hnone r hr).2.1]
      simp
    rw [hzero]
    exact Nat.zero_le _

/-- The client's own access to the report is gated away: the forgery is trusted. -/
theorem forged_complete {interest : Finset EventCategory} {scope : EvidenceScope} {x : ShimEvent}
    (hproc : ecProcessTree ∈ normalizeInterest interest)
    (hx : ∀ r ∈ x.records { osPid := 10 }, recordPublished interest scope r = false) :
    VerdictSpec isLoss (streamCapture reportEnv interest scope runR (forgedBy x)) := by
  have hall : ∀ r ∈ wholeStream runR served, recordPublished interest scope r = true := by
    intro r hr
    have hkinds : ∀ r ∈ wholeStream runR served,
        r.kind = mrProcessStart ∨ r.kind = mrIpcConnect := by decide +kernel
    have hin : recordIsFailedExistenceLookup r = false := by
      rcases hkinds r hr with hk | hk <;> simp [recordIsFailedExistenceLookup, hk, categoryOf]
    have hscope : recordInEvidenceScope scope r = true := by
      cases scope <;> simp [recordInEvidenceScope, hin]
    rcases hkinds r hr with hk | hk <;>
      simp [recordPublished, recordWanted, hk, categoryOf, hscope, hproc]
  have hset : shimStream interest scope runR (forgedBy x) = wholeStream runR served := by
    have hsplit : shimStream interest scope runR (forgedBy x) =
        shimStream interest scope runR served ++
          (x.records { osPid := 10 }).filterMap (emitRecord interest scope runR.text) := by
      simp only [shimStream, forgedBy, List.flatMap_append, List.filterMap_append,
        List.flatMap_singleton]
    have hnil : (x.records { osPid := 10 }).filterMap
        (emitRecord interest scope runR.text) = [] := by
      refine List.filterMap_eq_nil_iff.mpr fun r hr => ?_
      rw [emitRecord_eq, hx r hr]
      rfl
    rw [hsplit, hnil, List.append_nil, shimStream_eq_filter, List.filter_eq_self.mpr hall]
  have hsame : NarrowedBy (fun _ => true)
      (streamCapture reportEnv FullInterest esFull runR served)
      (streamCapture reportEnv interest scope runR (forgedBy x)) := by
    refine ⟨rfl, rfl, rfl, ?_, fun r _ hk => absurd hk (by simp)⟩
    rw [capturedRecords_stream, capturedRecords_stream, hset, List.filter_true]
    rfl
  exact hsame.verdictSpec (fun e he => absurd he (by simp [streamCapture, MergeInput.fragments]))
    rfl served_complete

/-- On the whole stream the access is an output write at the report's path. -/
theorem forged_incomplete {x : ShimEvent}
    (h : ∃ r ∈ keptRecords (streamCapture reportEnv FullInterest esFull runR (forgedBy x)),
      r.kind = mrIpcConnect ∧ peerAccounted (processStartIdentities (keptRecords
        (streamCapture reportEnv FullInterest esFull runR (forgedBy x))))
        (trustedDaemons (streamCapture reportEnv FullInterest esFull runR (forgedBy x))) r =
          false) :
    ¬ VerdictSpec isLoss (streamCapture reportEnv FullInterest esFull runR (forgedBy x)) := by
  intro hspec
  obtain ⟨r, hr, hk, hno⟩ := h
  rw [hspec.peers r hr hk] at hno
  exact absurd hno (by simp)

theorem forged_upgrades {interest : Finset EventCategory} {scope : EvidenceScope} {x : ShimEvent}
    (hproc : ecProcessTree ∈ normalizeInterest interest)
    (hx : ∀ r ∈ x.records { osPid := 10 }, recordPublished interest scope r = false)
    (hwhole : ¬ VerdictSpec isLoss
      (streamCapture reportEnv FullInterest esFull runR (forgedBy x))) :
    ¬ NeverUpgrades interest scope := by
  intro hnever
  exact hwhole ((stream_complete_iff ..).mp (hnever reportEnv runR (forgedBy x)
    ((stream_complete_iff ..).mpr (forged_complete hproc hx))))

/-- **Exactly which requests cannot upgrade a verdict**: those that keep the process tree, the
file reads and the file writes, and keep failed lookups. -/
theorem neverUpgrades_iff (interest : Finset EventCategory) (scope : EvidenceScope) :
    NeverUpgrades interest scope ↔
      (ecProcessTree ∈ normalizeInterest interest ∧ ecFileReads ∈ normalizeInterest interest ∧
        ecFileWrites ∈ normalizeInterest interest) ∧ scope ≠ esReadsOnly := by
  constructor
  · intro hnever
    have hproc : ecProcessTree ∈ normalizeInterest interest := by
      by_contra h
      exact silentFork_upgrades h hnever
    refine ⟨⟨hproc, ?_, ?_⟩, ?_⟩
    · by_contra h
      refine forged_upgrades (x := reportOpen 4) hproc (fun r hr => ?_)
        (forged_incomplete (by decide +kernel)) hnever
      rw [List.mem_singleton.mp hr]
      simp [recordPublished, recordWanted, baseRecord, categoryOf, h]
    · by_contra h
      refine forged_upgrades (x := reportWrite) hproc (fun r hr => ?_)
        (forged_incomplete (by decide +kernel)) hnever
      rw [List.mem_singleton.mp hr]
      simp [recordPublished, recordWanted, baseRecord, categoryOf, h]
    · rintro rfl
      refine forged_upgrades (x := reportOpen (-1)) hproc (fun r hr => ?_)
        (forged_incomplete (by decide +kernel)) hnever
      have hlookup : recordInEvidenceScope esReadsOnly r = false := by
        rw [List.mem_singleton.mp hr]
        decide
      rw [recordPublished, hlookup, Bool.and_false]
  · rintro ⟨hi, hs⟩
    exact neverUpgrades_of_keepsEvidence hi hs

/-- Asking for file reads only turns the silent fork's incomplete capture into a complete one. -/
theorem narrowing_refuted : ¬ ∀ (interest : Finset EventCategory) (scope : EvidenceScope),
    NeverUpgrades interest scope :=
  fun hclaim => silentFork_upgrades (by decide) (hclaim {ecFileReads} esFull)

end IoMon
