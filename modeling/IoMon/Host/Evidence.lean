/-
# Evidence over the shared set

On Linux a record travels as an element of a grow-only shared set.  The producer publishes one
element per record and, when it cannot, a loss element in its place; the host takes one snapshot
at the end, decodes it and merges what it decoded.

What the set answers is an input of each append.  Three answers lose a record without a trace in
the set: a saturated insert, a loss element that is not stored itself, and a producer that has no
mapping.  The host counts the first kind, and writes the count to its standard error.

  * `publishedSnapshot` -- what the published records become in the snapshot;
  * `DepSet.Holds` -- what a set holds, over the records that were published;
  * `noSilentLoss_iff` -- exactly when a lost record makes the verdict incomplete.
-/
import IoMon.Merge.Verdict

namespace IoMon

open ByteText MonitorRecordKind MonitorObservationKind MonitorCompleteness EvidenceScope
  DepSetElemFit

/-! ## 1. The set -/

inductive EmitStatus
  | emInserted | emExists | emSaturated | emConsumerGone | emOversize | emUnavailable
  deriving DecidableEq, Repr

open EmitStatus

/-- The consumer's snapshot and its growth-failure counter. -/
structure DepSet where
  elements : List (List UInt8) := []
  growthFailures : Nat := 0
  deriving DecidableEq, Repr

/-- What the set does when it gives this answer: an element that was inserted, or was there, is in
the snapshot; a saturated insert is counted. -/
def DepSet.emit (s : DepSet) (status : EmitStatus) (element : List UInt8) : DepSet :=
  match status with
  | emInserted | emExists => { s with elements := s.elements.insert element }
  | emSaturated => { s with growthFailures := s.growthFailures + 1 }
  | emConsumerGone | emOversize | emUnavailable => s

def EmitStatus.stores : EmitStatus → Bool
  | emInserted | emExists => true
  | _ => false

/-! ## 2. The producers -/

def SetProducerBufBytes : Nat := 16384

def DepFixedHeaderLen : Nat := RecordFixedHeaderLen

/-- The record of the loss element. -/
def depSetLoss : MonitorRecord :=
  { kind := mrEventLoss, observationKind := moEventLoss, detail := str "dep-set-capture-loss" }

/-- `rebuildDepSetLossElem`: the image suffix is clipped to the buffer. -/
def setLossElem (setElemImage : NimStr) : Option (List UInt8) :=
  encodeDepSetElement setElemImage depSetLoss (DepFixedHeaderLen + 64) dseTruncateSuffix

/-- One call of `appendFragmentRecord` in set mode: who makes it, with which record, and what the
set answers to the element and to a loss element in its place. -/
structure SetAppend where
  setElemImage : NimStr
  available : Bool := true
  record : MonitorRecord
  status : EmitStatus
  lossStatus : EmitStatus := emInserted
  deriving DecidableEq, Repr

def SetAppend.element (a : SetAppend) : Option (List UInt8) :=
  encodeDepSetElement a.setElemImage a.record SetProducerBufBytes dseRequireFit

/-- A loss element in the record's place. -/
def publishLoss (s : DepSet) (a : SetAppend) : DepSet :=
  match setLossElem a.setElemImage with
  | some e => s.emit a.lossStatus e
  | none => s

/-- The set path of `appendFragmentRecord`. -/
def appendToSet (s : DepSet) (a : SetAppend) : DepSet :=
  if !a.available then s
  else
    match a.element with
    | some e =>
      match a.status with
      | emInserted | emExists | emSaturated | emConsumerGone => s.emit a.status e
      | emOversize | emUnavailable => publishLoss (s.emit a.status e) a
    | none => publishLoss s a

/-- The set after all appends, in the order they were made. -/
def setRun (appends : List SetAppend) : DepSet := appends.foldl appendToSet {}

/-! ## 3. The host -/

/-- The loss the launcher publishes itself, over descendants that outlive the root. -/
structure LauncherLoss where
  hostPid : UInt64
  detail : NimStr
  status : EmitStatus
  deriving DecidableEq, Repr

/-- What the host knows of the monitored edge: the arguments and the environment of the merge,
without the set's records, and what the request asked for. -/
structure MonitorHandle where
  merge : MergeInput := {}
  interest : Finset EventCategory := ∅
  evidenceScope : EvidenceScope := esFull

def LauncherLoss.record (h : MonitorHandle) (l : LauncherLoss) : MonitorRecord :=
  { kind := mrEventLoss, observationKind := moEventLoss, osPid := l.hostPid
    detail := l.detail ++ str " run=" ++ h.merge.currentRunId }

/-- `settleMonitorDescendants` on the set.  A loss the set does not take goes to a fragment file,
which is among the entries of the merge. -/
def settleMonitorDescendants (h : MonitorHandle) (loss : Option LauncherLoss) (s : DepSet) :
    DepSet :=
  match loss with
  | none => s
  | some l =>
    match encodeDepSetElement [] (l.record h) 512 dseRequireFit with
    | some e => s.emit l.status e
    | none => s

/-- The elements that decode. -/
def decodeElements : List (List UInt8) → Except NimDefect (List MonitorRecord)
  | [] => .ok []
  | e :: rest =>
    match decodeDepRecord e with
    | .error d => .error d
    | .ok decoded =>
      match decodeElements rest with
      | .error d => .error d
      | .ok rs => .ok (decoded.toList ++ rs)

/-- The snapshot in byte order, decoded. -/
def DepSet.drained (s : DepSet) : Except NimDefect (List MonitorRecord) :=
  decodeElements (s.elements.mergeSort leStr)

/-- The host's own narrowing: records and summary, not the verdict. -/
def hostFilter (interest : Finset EventCategory) (scope : EvidenceScope) (d : MonitorDepFile) :
    MonitorDepFile :=
  if normalizeInterest interest ≠ FullInterest ∨ scope ≠ esFull then
    let kept := d.records.filter fun r =>
      recordWanted interest r.kind && recordInEvidenceScope scope r
    if kept.length < d.records.length then
      { d with records := kept, summary := summarizeRecords kept }
    else d
  else d

def growthFailedLine (growthFailed : Nat) : NimStr :=
  str "io-mon: dep-set growth failed " ++ decimal (UInt64.ofNat growthFailed) ++
    str " time(s); dependency capture may be incomplete for this edge"

/-- The merge the host asks for. -/
def MonitorHandle.mergeInput (h : MonitorHandle) (depDrained : List MonitorRecord) : MergeInput :=
  { h.merge with
    setRecords := depDrained
    observedInterest := normalizeInterest h.interest
    observedEvidenceScope := h.evidenceScope }

/-- The depfile, and what went to the standard error. -/
structure Evidence where
  depFile : MonitorDepFile
  stderr : List NimStr

/-- `collectMonitorEvidence`; the set is `none` when it is not live. -/
def collectMonitorEvidence (h : MonitorHandle) (loss : Option LauncherLoss)
    (depSet : Option DepSet) : Except NimDefect Evidence :=
  match depSet with
  | none =>
    .ok ⟨hostFilter h.interest h.evidenceScope (mergeFragments (h.mergeInput [])), []⟩
  | some s =>
    let s := settleMonitorDescendants h loss s
    match s.drained with
    | .error d => .error d
    | .ok depDrained =>
      .ok ⟨hostFilter h.interest h.evidenceScope (mergeFragments (h.mergeInput depDrained)),
        if 0 < s.growthFailures then [growthFailedLine s.growthFailures] else []⟩

/-! ## 4. What is published -/

/-- What an append leaves in the set: the record, a loss, or nothing. -/
def SetAppend.published (a : SetAppend) : Option MonitorRecord :=
  if !a.available then none
  else
    match a.element, a.status with
    | some _, emInserted | some _, emExists => some a.record
    | some _, emSaturated | some _, emConsumerGone => none
    | _, _ => if a.lossStatus.stores then some depSetLoss else none

/-- The launcher's loss, when the set takes it. -/
def launcherPublished (h : MonitorHandle) (loss : Option LauncherLoss) : List MonitorRecord :=
  match loss with
  | none => []
  | some l =>
    match encodeDepSetElement [] (l.record h) 512 dseRequireFit with
    | some _ => if l.status.stores then [l.record h] else []
    | none => []

/-- Everything that is in the final snapshot. -/
def publishedRecords (h : MonitorHandle) (appends : List SetAppend) (loss : Option LauncherLoss) :
    List MonitorRecord :=
  appends.filterMap SetAppend.published ++ launcherPublished h loss

/-- What an append leaves in the set, with its element. -/
def SetAppend.stored (a : SetAppend) : Option (MonitorRecord × List UInt8) :=
  if !a.available then none
  else
    match a.element, a.status with
    | some e, emInserted | some e, emExists => some (a.record, e)
    | some _, emSaturated | some _, emConsumerGone => none
    | _, _ =>
      if a.lossStatus.stores then (setLossElem a.setElemImage).map fun e => (depSetLoss, e) else none

def launcherStored (h : MonitorHandle) (loss : Option LauncherLoss) :
    List (MonitorRecord × List UInt8) :=
  match loss with
  | none => []
  | some l =>
    match encodeDepSetElement [] (l.record h) 512 dseRequireFit with
    | some e => if l.status.stores then [(l.record h, e)] else []
    | none => []

/-- The identity forms of these records, one for each element, in the order of the elements. -/
def snapshotRecords (ps : List (MonitorRecord × List UInt8)) : List MonitorRecord :=
  ((ps.map fun p => (identityRecord p.1, p.2)).dedup.mergeSort fun p q => leStr p.2 q.2).map Prod.fst

/-- **What the published records become in the final snapshot.** -/
def publishedSnapshot (h : MonitorHandle) (appends : List SetAppend) (loss : Option LauncherLoss) :
    List MonitorRecord :=
  snapshotRecords (appends.filterMap SetAppend.stored ++ launcherStored h loss)

/-- The element says this about the record. -/
def Encodes (e : List UInt8) (r : MonitorRecord) : Prop :=
  decodeDepRecord e = .ok (some (identityRecord r))

/-- **The set holds these records**: its elements are theirs, each once. -/
structure DepSet.Holds (s : DepSet) (ps : List (MonitorRecord × List UInt8)) : Prop where
  nodup : s.elements.Nodup
  stored : ∀ e, e ∈ s.elements ↔ ∃ p ∈ ps, p.2 = e
  encodes : ∀ p ∈ ps, Encodes p.2 p.1

section Holds

variable {s : DepSet} {ps : List (MonitorRecord × List UInt8)} {e : List UInt8} {r : MonitorRecord}

theorem holds_start : DepSet.Holds {} [] := ⟨List.nodup_nil, by simp, by simp⟩

/-- One emit adds its record, or nothing. -/
theorem DepSet.Holds.emit (h : s.Holds ps) (he : Encodes e r) (status : EmitStatus) :
    (s.emit status e).Holds (ps ++ if status.stores then [(r, e)] else []) := by
  have hkeep : (s.emit status e).elements =
      if status.stores then s.elements.insert e else s.elements := by
    cases status <;> rfl
  cases hs : status.stores with
  | false =>
    rw [hs] at hkeep
    simp only [Bool.false_eq_true, if_false, List.append_nil] at hkeep ⊢
    exact ⟨hkeep ▸ h.nodup, hkeep ▸ h.stored, h.encodes⟩
  | true =>
    rw [hs] at hkeep
    simp only [if_true] at hkeep ⊢
    refine ⟨hkeep ▸ h.nodup.insert, fun e' => ?_, fun p hp => ?_⟩
    · rw [hkeep, List.mem_insert_iff, h.stored]
      constructor
      · rintro (rfl | ⟨p, hp, hpe⟩)
        · exact ⟨(r, e'), List.mem_append_right _ (List.mem_singleton_self _), rfl⟩
        · exact ⟨p, List.mem_append_left _ hp, hpe⟩
      · rintro ⟨p, hp, hpe⟩
        rcases List.mem_append.mp hp with hold | hnew
        · exact .inr ⟨p, hold, hpe⟩
        · rw [List.mem_singleton.mp hnew] at hpe
          exact .inl hpe.symm
    · rcases List.mem_append.mp hp with hold | hnew
      · exact h.encodes p hold
      · rw [List.mem_singleton.mp hnew]
        exact he

/-- The loss element always encodes. -/
theorem setLossElem_encodes (image : NimStr) :
    ∃ e, setLossElem image = some e ∧ Encodes e depSetLoss := by
  have hsome : ∃ e, setLossElem image = some e := by
    have hbuf : encodeDepRecordIdentity depSetLoss (DepFixedHeaderLen + 64) ≠ none := by
      decide +kernel
    obtain ⟨buf, hbuf⟩ := Option.ne_none_iff_exists'.mp hbuf
    have hkeeps : depIdentityKeepsIncarnation depSetLoss.kind = true := rfl
    rw [setLossElem, encodeDepSetElement, hbuf, Option.bind_some, hkeeps]
    exact ⟨_, rfl⟩
  obtain ⟨e, he⟩ := hsome
  exact ⟨e, he, decode_encodeDepSetElement (by decide) he⟩

theorem DepSet.Holds.publishLoss (h : s.Holds ps) (a : SetAppend) :
    (publishLoss s a).Holds (ps ++ (if a.lossStatus.stores then
      (setLossElem a.setElemImage).map fun e => (depSetLoss, e) else none).toList) := by
  obtain ⟨e, he, hdec⟩ := setLossElem_encodes a.setElemImage
  have hloss := h.emit hdec a.lossStatus
  rw [IoMon.publishLoss, he]
  cases hs : a.lossStatus.stores <;> simpa [hs] using hloss

/-- **The step lemma**: an append leaves what `stored` says. -/
theorem DepSet.Holds.append (h : s.Holds ps) (a : SetAppend) :
    (appendToSet s a).Holds (ps ++ a.stored.toList) := by
  unfold appendToSet SetAppend.stored
  cases a.available with
  | false => simpa using h
  | true =>
    simp only [Bool.not_true, Bool.false_eq_true, if_false]
    cases hel : a.element with
    | none => exact h.publishLoss a
    | some e =>
      have henc : Encodes e a.record := decode_encodeDepSetElement (by decide) hel
      have hrec := h.emit henc a.status
      cases hst : a.status with
      | emInserted | emExists | emSaturated | emConsumerGone =>
        rw [hst] at hrec
        simpa [EmitStatus.stores] using hrec
      | emOversize | emUnavailable => exact h.publishLoss a

/-- **The run lemma.** -/
theorem DepSet.Holds.run (appends : List SetAppend) :
    ∀ {s : DepSet} {ps : List (MonitorRecord × List UInt8)}, s.Holds ps →
      (appends.foldl appendToSet s).Holds (ps ++ appends.filterMap SetAppend.stored) := by
  induction appends with
  | nil => intro s ps h; simpa using h
  | cons a rest ih =>
    intro s ps h
    have hstep := ih (h.append a)
    rw [List.foldl_cons, List.filterMap_cons]
    cases hp : a.stored with
    | none => simpa [hp] using hstep
    | some r => simpa [hp] using hstep

theorem DepSet.Holds.settle (hs : s.Holds ps) (h : MonitorHandle) (loss : Option LauncherLoss) :
    (settleMonitorDescendants h loss s).Holds (ps ++ launcherStored h loss) := by
  cases loss with
  | none => simpa [settleMonitorDescendants, launcherStored] using hs
  | some l =>
    simp only [settleMonitorDescendants, launcherStored]
    cases hel : encodeDepSetElement [] (l.record h) 512 dseRequireFit with
    | none => simpa using hs
    | some e => exact hs.emit (decode_encodeDepSetElement (by decide) hel) l.status

theorem leStr_trans (a b c : NimStr) (h : leStr a b = true) (h' : leStr b c = true) :
    leStr a c = true := (leStr_iff a c).mpr (((leStr_iff a b).mp h).trans ((leStr_iff b c).mp h'))

theorem leStr_total (a b : NimStr) : (leStr a b || leStr b a) = true := by
  rw [Bool.or_eq_true, leStr_iff, leStr_iff]
  exact le_total _ _

theorem leStr_antisymm {a b : NimStr} (h : leStr a b = true) (h' : leStr b a = true) : a = b :=
  List.map_injective_iff.mpr (fun _ _ => UInt8.toNat_inj.mp)
    (le_antisymm ((leStr_iff a b).mp h) ((leStr_iff b a).mp h'))

/-- Elements that decode, decoded. -/
theorem decodeElements_pairs (ps : List (MonitorRecord × List UInt8))
    (h : ∀ p ∈ ps, decodeDepRecord p.2 = .ok (some p.1)) :
    decodeElements (ps.map Prod.snd) = .ok (ps.map Prod.fst) := by
  induction ps with
  | nil => rfl
  | cons p rest ih =>
    rw [List.map_cons, decodeElements, h p List.mem_cons_self,
      ih fun q hq => h q (List.mem_cons_of_mem p hq)]
    rfl

/-- **The host decodes exactly what the set holds.** -/
theorem DepSet.Holds.drains (h : s.Holds ps) : s.drained = .ok (snapshotRecords ps) := by
  have hdecode : ∀ p ∈ (ps.map fun p => (identityRecord p.1, p.2)).dedup,
      decodeDepRecord p.2 = .ok (some p.1) := by
    intro p hp
    obtain ⟨q, hq, rfl⟩ := List.mem_map.mp (List.mem_dedup.mp hp)
    exact h.encodes q hq
  have hmem : ∀ e, e ∈ ((ps.map fun p => (identityRecord p.1, p.2)).dedup).map Prod.snd ↔
      e ∈ s.elements := by
    intro e
    rw [h.stored]
    simp only [List.mem_map, List.mem_dedup]
    constructor
    · rintro ⟨_, ⟨p, hp, rfl⟩, rfl⟩
      exact ⟨p, hp, rfl⟩
    · rintro ⟨p, hp, rfl⟩
      exact ⟨_, ⟨p, hp, rfl⟩, rfl⟩
  have hnodup := List.nodup_dedup (ps.map fun p => (identityRecord p.1, p.2))
  rw [DepSet.drained, snapshotRecords]
  generalize (ps.map fun p => (identityRecord p.1, p.2)).dedup = qs at hdecode hmem hnodup
  -- an element says what its record is, so there are as many elements as pairs
  have honce : (qs.map Prod.snd).Nodup := by
    refine hnodup.map_on fun p hp q hq helement => Prod.ext ?_ helement
    have hsame := (hdecode p hp).symm.trans ((congrArg decodeDepRecord helement).trans
      (hdecode q hq))
    exact Option.some.inj (Except.ok.inj hsame)
  have hsorted : s.elements.mergeSort leStr = (qs.map Prod.snd).mergeSort leStr := by
    have hperm : s.elements.Perm (qs.map Prod.snd) :=
      (List.perm_ext_iff_of_nodup h.nodup honce).mpr fun e => (hmem e).symm
    refine List.Perm.eq_of_pairwise (fun _ _ _ _ => leStr_antisymm)
      (List.pairwise_mergeSort leStr_trans leStr_total _)
      (List.pairwise_mergeSort leStr_trans leStr_total _) ?_
    exact ((List.mergeSort_perm _ _).trans hperm).trans (List.mergeSort_perm _ _).symm
  have hmap : (qs.mergeSort fun p q => leStr p.2 q.2).map Prod.snd =
      (qs.map Prod.snd).mergeSort leStr := List.map_mergeSort fun _ _ _ _ => rfl
  rw [hsorted, ← hmap]
  exact decodeElements_pairs _ fun p hp => hdecode p (List.mem_mergeSort.mp hp)

theorem mem_snapshotRecords {x : MonitorRecord} :
    x ∈ snapshotRecords ps ↔ ∃ p ∈ ps, identityRecord p.1 = x := by
  simp only [snapshotRecords, List.mem_map, List.mem_mergeSort, List.mem_dedup]
  constructor
  · rintro ⟨_, ⟨p, hp, rfl⟩, rfl⟩
    exact ⟨p, hp, rfl⟩
  · rintro ⟨p, hp, rfl⟩
    exact ⟨_, ⟨p, hp, rfl⟩, rfl⟩

end Holds

/-! ## 5. The verdict -/

/-- What the verdict of the merge needs of the records it is given. -/
def MergeAccounted (m : MergeInput) : Prop :=
  profileComplete (canonicalize (declaredProfiles m)) ∧ VerdictSpec isLoss m

@[simp] theorem hostFilter_completeness (interest : Finset EventCategory) (scope : EvidenceScope)
    (d : MonitorDepFile) : (hostFilter interest scope d).completeness = d.completeness := by
  unfold hostFilter
  split
  · simp only
    split <;> rfl
  · rfl

/-- A loss element in the set is a loss of this run. -/
theorem depSetLoss_incomplete {m : MergeInput}
    (h : identityRecord depSetLoss ∈ m.setRecords) : ¬ MergeAccounted m := by
  rintro ⟨_, hspec⟩
  have hdup : hasDuplicateIdentityToken (identityRecord depSetLoss).detail = false := by
    decide +kernel
  have hrun : trustedDetailToken (identityRecord depSetLoss).detail RunIdToken = [] := by
    decide +kernel
  have hkeep : staleAction (capturedRecords m) m.runScope (identityRecord depSetLoss) = .keep := by
    rw [staleAction, hdup, hrun]
    simp only [Bool.false_eq_true, if_false, List.isEmpty_nil, Bool.not_true]
    split
    · rfl
    · -- it names no process, so no other run's records can claim it
      rw [if_neg fun hpid => hpid.1 rfl]
  have hkept : identityRecord depSetLoss ∈ keptRecords m :=
    mem_staleKept.mpr ⟨List.mem_append_right _ h, hkeep⟩
  exact absurd (hspec.noLoss _ hkept rfl) (by decide +kernel)

/-- What the host returns, when its set holds these records. -/
theorem collectMonitorEvidence_of_holds {s : DepSet} {ps : List (MonitorRecord × List UInt8)}
    (hs : s.Holds ps) (h : MonitorHandle) (loss : Option LauncherLoss) :
    ∃ drained evidence, drained = snapshotRecords (ps ++ launcherStored h loss) ∧
      (settleMonitorDescendants h loss s).drained = .ok drained ∧
      collectMonitorEvidence h loss (some s) = .ok evidence ∧
      (evidence.depFile.completeness = mcComplete ↔ MergeAccounted (h.mergeInput drained)) := by
  have hdrained := (hs.settle h loss).drains
  generalize snapshotRecords (ps ++ launcherStored h loss) = drained at hdrained
  have hcollect : collectMonitorEvidence h loss (some s) =
      .ok ⟨hostFilter h.interest h.evidenceScope (mergeFragments (h.mergeInput drained)),
        if 0 < (settleMonitorDescendants h loss s).growthFailures then
          [growthFailedLine (settleMonitorDescendants h loss s).growthFailures] else []⟩ := by
    simp only [collectMonitorEvidence, hdrained]
  refine ⟨drained, _, rfl, hdrained, hcollect, ?_⟩
  rw [hostFilter_completeness]
  exact mergeFragments_complete_iff_profile _

theorem incomplete_iff {c : MonitorCompleteness} : c = mcIncomplete ↔ c ≠ mcComplete := by
  cases c <;> decide

/-- An append that published something did not lose its record, or left a loss. -/
theorem published_cases {a : SetAppend} {r : MonitorRecord} (h : a.published = some r) :
    r = a.record ∨ r = depSetLoss := by
  unfold SetAppend.published at h
  split at h
  · exact absurd h (by simp)
  split at h
  · exact .inl (Option.some.inj h).symm
  · exact .inl (Option.some.inj h).symm
  · exact absurd h (by simp)
  · exact absurd h (by simp)
  · split at h
    · exact .inr (Option.some.inj h).symm
    · exact absurd h (by simp)

/-- What is published is what is stored, without the element. -/
theorem stored_fst (a : SetAppend) : a.stored.map Prod.fst = a.published := by
  obtain ⟨e, he, -⟩ := setLossElem_encodes a.setElemImage
  unfold SetAppend.stored SetAppend.published
  rw [he]
  split
  · rfl
  split
  · rfl
  · rfl
  · rfl
  · rfl
  · split <;> rfl

theorem launcherStored_fst (h : MonitorHandle) (loss : Option LauncherLoss) :
    (launcherStored h loss).map Prod.fst = launcherPublished h loss := by
  unfold launcherStored launcherPublished
  split
  · rfl
  split
  · split <;> rfl
  · rfl

/-- The snapshot shows exactly the published records, in their identity form. -/
theorem mem_publishedSnapshot {h : MonitorHandle} {appends : List SetAppend}
    {loss : Option LauncherLoss} {x : MonitorRecord} :
    x ∈ publishedSnapshot h appends loss ↔
      ∃ r ∈ publishedRecords h appends loss, identityRecord r = x := by
  have hfst : (appends.filterMap SetAppend.stored ++ launcherStored h loss).map Prod.fst =
      publishedRecords h appends loss := by
    rw [List.map_append, launcherStored_fst, List.map_filterMap, publishedRecords]
    simp only [stored_fst]
  rw [publishedSnapshot, mem_snapshotRecords, ← hfst]
  simp only [List.mem_map, exists_exists_and_eq_and]

/-- **No silent loss, exactly when.**  The host decodes what was published, nothing else, and
returns evidence; and a record that is missing from what it decoded makes the verdict incomplete
if and only if every append that published nothing has a twin that was published, or the published
records do not account for the run anyway. -/
theorem noSilentLoss_iff (h : MonitorHandle) (appends : List SetAppend)
    (loss : Option LauncherLoss) :
    ∃ drained evidence,
      (settleMonitorDescendants h loss (setRun appends)).drained = .ok drained ∧
      (∀ x, x ∈ drained ↔ ∃ r ∈ publishedRecords h appends loss, identityRecord r = x) ∧
      collectMonitorEvidence h loss (some (setRun appends)) = .ok evidence ∧
      (((∃ a ∈ appends, identityRecord a.record ∉ drained) →
          evidence.depFile.completeness = mcIncomplete) ↔
        (∀ a ∈ appends, a.published = none → ∃ r ∈ publishedRecords h appends loss,
          identityRecord r = identityRecord a.record) ∨
        ¬ MergeAccounted (h.mergeInput (publishedSnapshot h appends loss))) := by
  have hholds : (setRun appends).Holds (appends.filterMap SetAppend.stored) := by
    have hrun := holds_start.run appends
    rwa [List.nil_append] at hrun
  obtain ⟨_, evidence, rfl, hdrained, hevidence, hverdict⟩ :=
    collectMonitorEvidence_of_holds hholds h loss
  have hmem := @mem_publishedSnapshot h appends loss
  refine ⟨publishedSnapshot h appends loss, evidence, hdrained, fun _ => hmem, hevidence, ?_⟩
  rw [incomplete_iff, ne_eq, hverdict]
  constructor
  · intro hlost
    by_cases htwins : ∀ a ∈ appends, a.published = none →
        ∃ r ∈ publishedRecords h appends loss, identityRecord r = identityRecord a.record
    · exact .inl htwins
    · rw [not_forall] at htwins
      obtain ⟨a, ha⟩ := htwins
      simp only [Classical.not_imp] at ha
      obtain ⟨ha, _, hno⟩ := ha
      exact .inr (hlost ⟨a, ha, fun hin => hno (hmem.mp hin)⟩)
  · rintro (htwins | hout)
    · rintro ⟨a, ha, hmiss⟩
      cases hp : a.published with
      | none => exact absurd (hmem.mpr (htwins a ha hp)) hmiss
      | some r =>
        have hr : r ∈ appends.filterMap SetAppend.published ++ launcherPublished h loss :=
          List.mem_append_left _ (List.mem_filterMap.mpr ⟨a, ha, hp⟩)
        rcases published_cases hp with rfl | rfl
        · exact absurd (hmem.mpr ⟨_, hr, rfl⟩) hmiss
        · exact depSetLoss_incomplete (hmem.mpr ⟨_, hr, rfl⟩)
    · exact fun _ => hout

/-! ## 6. A saturated insert -/

def setHandle : MonitorHandle := { merge := { expectedRootPid := 7 } }

def rootStart : MonitorRecord :=
  { kind := mrProcessStart, observationKind := moProcessStart, osPid := 7 }

def saturatedRead : MonitorRecord :=
  { kind := mrFileRead, observationKind := moFileRead, osPid := 7, path := str "/a" }

/-- The root reports itself, and the set is full when it reads a file. -/
def saturatedRun : List SetAppend :=
  [{ setElemImage := str "/bin/cc", record := rootStart, status := emInserted },
    { setElemImage := str "/bin/cc", record := saturatedRead, status := emSaturated }]

theorem saturatedRun_drained :
    (settleMonitorDescendants setHandle none (setRun saturatedRun)).drained = .ok [rootStart] := by
  decide +kernel

theorem rootStart_spec : VerdictSpec isLoss (setHandle.mergeInput [rootStart]) := by
  have hkept : keptRecords (setHandle.mergeInput [rootStart]) = [rootStart] := by decide +kernel
  constructor
  · constructor
    case fragments => exact fun e he => absurd he (List.not_mem_nil (a := e))
    case scope => decide +kernel
    case sidecars => rfl
    case root => exact fun _ => by decide +kernel
    case execs =>
      intro pid _ hpos
      have hnone : effectiveExecs (keptRecords (setHandle.mergeInput [rootStart])) pid = 0 := by
        rw [hkept]
        simp [effectiveExecs, execCount, execFailedCount, rootStart]
      omega
    all_goals
      rw [hkept]
      decide +kernel
  · intro key
    rw [hkept]
    exact Nat.zero_le _

/-- **A saturated insert is a silent loss**: the read is in no depfile, and the verdict is
complete. -/
theorem noSilentLoss_refuted :
    ¬ ∀ (h : MonitorHandle) (appends : List SetAppend) (loss : Option LauncherLoss)
        (drained : List MonitorRecord) (evidence : Evidence),
      (settleMonitorDescendants h loss (setRun appends)).drained = .ok drained →
      collectMonitorEvidence h loss (some (setRun appends)) = .ok evidence →
      (∃ a ∈ appends, identityRecord a.record ∉ drained) →
      evidence.depFile.completeness = mcIncomplete := by
  intro hclaim
  have hcollect : collectMonitorEvidence setHandle none (some (setRun saturatedRun)) =
      .ok ⟨hostFilter ∅ esFull (mergeFragments (setHandle.mergeInput [rootStart])),
        [growthFailedLine 1]⟩ := by
    simp only [collectMonitorEvidence, saturatedRun_drained]
    rfl
  have hlost : ∃ a ∈ saturatedRun, identityRecord a.record ∉ [rootStart] := by decide +kernel
  have hverdict := hclaim setHandle saturatedRun none [rootStart] _ saturatedRun_drained hcollect
    hlost
  have hcomplete : (mergeFragments (setHandle.mergeInput [rootStart])).completeness =
      mcComplete := by
    have hprofile : ∀ r ∈ capturedRecords (setHandle.mergeInput [rootStart]),
        r.kind ≠ mrBackendProfile := by decide +kernel
    exact (mergeFragments_complete_iff hprofile).mpr rootStart_spec
  rw [hostFilter_completeness, hcomplete] at hverdict
  exact absurd hverdict (by decide)

end IoMon
