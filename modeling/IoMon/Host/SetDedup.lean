/-
# Deduplication by the shared set

The shared set keeps one element per key, so the merge sees each published fact once however often
it was emitted.  Most of the verdict does not mind: it reads the evidence as a set.  Two of its
clauses count, and what they count is deduplicated under different keys: an exec attempt is keyed
by the image that made it and the path it tried, its failure by the error number as well.  A second
attempt of the same path is one element with the first, while its failure may be a second element.

  * `full_complete_iff`, `delivered_complete_iff` -- the verdicts over everything emitted and over
    what the set delivers differ in what the two tallies count, and in nothing else;
  * `setDedup_verdict_iff` -- when they agree.
-/
import IoMon.Merge.EvidenceSet
import IoMon.Host.Evidence
import IoMon.Shim.Emit

namespace IoMon

open ByteText MonitorRecordKind MonitorObservationKind MonitorCompleteness DepSetElemFit EmitStatus

/-! ## 1. Emissions -/

/-- An image of a process: what its elements are told apart by. -/
structure ProcessImage where
  osPid : UInt64
  path : NimStr
  execGen : Int64
  deriving DecidableEq, Repr

/-- The incarnation string: the image path, a unit separator, the exec generation. -/
def ProcessImage.setElemImage (i : ProcessImage) : NimStr :=
  i.path ++ 0x1f :: signedDecimal i.execGen.toInt

/-- A record of this run that an image publishes, with its element key.  The profile records of a
depfile are the merge's own, no image emits them. -/
structure Emission (run : RunId) where
  image : ProcessImage
  record : MonitorRecord
  key : List UInt8
  encoded : encodeDepSetElement image.setElemImage record SetProducerBufBytes dseRequireFit =
    some key
  ofImage : record.osPid = image.osPid
  stamped : detailToken record.detail RunIdToken = run.text
  noProfile : record.kind ≠ mrBackendProfile

variable {run : RunId}

/-- The append that publishes it; the set takes every element. -/
def Emission.append (e : Emission run) : SetAppend where
  setElemImage := e.image.setElemImage
  record := e.record
  status := emInserted

theorem Emission.decodes (e : Emission run) :
    decodeDepRecord e.key = .ok (some (identityRecord e.record)) :=
  decode_encodeDepSetElement (by decide) e.encoded

/-- The merge of these records, in the run: no fragment, and everything else as given. -/
def setCapture (base : MergeInput) (run : RunId) (records : List MonitorRecord) : MergeInput :=
  { base with entries := [], currentRunId := run.text, setRecords := records }

/-! ## 2. What the set delivers -/

/-- The record of an element. -/
def elementRecord (key : List UInt8) : Option MonitorRecord :=
  match decodeDepRecord key with
  | .ok decoded => decoded
  | .error _ => none

theorem decodeElements_eq {keys : List (List UInt8)}
    (h : ∀ k ∈ keys, ∃ r, decodeDepRecord k = .ok (some r)) :
    decodeElements keys = .ok (keys.filterMap elementRecord) := by
  induction keys with
  | nil => rfl
  | cons k keys ih =>
    obtain ⟨r, hr⟩ := h k (List.mem_cons_self ..)
    have hrec : elementRecord k = some r := by rw [elementRecord, hr]
    rw [decodeElements, hr, ih fun k' hk' => h k' (List.mem_cons_of_mem _ hk'),
      List.filterMap_cons, hrec]
    rfl

/-- The snapshot of a run holds the keys, each once. -/
theorem setRun_elements (es : List (Emission run)) :
    (setRun (es.map Emission.append)).elements.Nodup ∧
      ∀ k, k ∈ (setRun (es.map Emission.append)).elements ↔ k ∈ es.map Emission.key := by
  have hstep : ∀ (s : DepSet) (e : Emission run),
      (appendToSet s e.append).elements = s.elements.insert e.key := by
    intro s e
    have hel : e.append.element = some e.key := e.encoded
    have havail : e.append.available = true := rfl
    have hstatus : e.append.status = emInserted := rfl
    rw [appendToSet, havail, hel, hstatus]
    rfl
  have hrun : ∀ s : DepSet, s.elements.Nodup →
      ((es.map Emission.append).foldl appendToSet s).elements.Nodup ∧
        ∀ k, k ∈ ((es.map Emission.append).foldl appendToSet s).elements ↔
          k ∈ s.elements ∨ k ∈ es.map Emission.key := by
    induction es with
    | nil => exact fun s hs => ⟨hs, fun k => by simp⟩
    | cons e es ih =>
      intro s hs
      obtain ⟨hnodup, hmem⟩ := ih (appendToSet s e.append) (by rw [hstep]; exact hs.insert)
      refine ⟨hnodup, fun k => ?_⟩
      rw [List.map_cons, List.foldl_cons, hmem, hstep, List.mem_insert_iff, List.map_cons,
        List.mem_cons]
      tauto
  obtain ⟨hnodup, hmem⟩ := hrun {} List.nodup_nil
  exact ⟨hnodup, fun k => (hmem k).trans (or_iff_right List.not_mem_nil)⟩

/-- The keys in the order the consumer decodes them. -/
def snapshotKeys (es : List (Emission run)) : List (List UInt8) :=
  (setRun (es.map Emission.append)).elements.mergeSort leStr

/-- The records the consumer gets. -/
def deliveredRecords (es : List (Emission run)) : List MonitorRecord :=
  (snapshotKeys es).filterMap elementRecord

theorem snapshotKeys_nodup (es : List (Emission run)) : (snapshotKeys es).Nodup :=
  (List.mergeSort_perm _ _).nodup_iff.mpr (setRun_elements es).1

theorem mem_snapshotKeys {es : List (Emission run)} {k : List UInt8} :
    k ∈ snapshotKeys es ↔ ∃ e ∈ es, e.key = k := by
  rw [snapshotKeys, List.mem_mergeSort, (setRun_elements es).2, List.mem_map]

theorem Emission.elementRecord (e : Emission run) :
    IoMon.elementRecord e.key = some (identityRecord e.record) := by
  rw [IoMon.elementRecord, e.decodes]

/-- **The drain succeeds**, and decodes one record for each distinct key. -/
theorem drained_eq (es : List (Emission run)) :
    (setRun (es.map Emission.append)).drained = .ok (deliveredRecords es) := by
  refine decodeElements_eq fun k hk => ?_
  obtain ⟨e, _, rfl⟩ := mem_snapshotKeys.mp hk
  exact ⟨_, e.decodes⟩

theorem mem_deliveredRecords {es : List (Emission run)} {r : MonitorRecord} :
    r ∈ deliveredRecords es ↔ ∃ e ∈ es, identityRecord e.record = r := by
  simp only [deliveredRecords, List.mem_filterMap, mem_snapshotKeys]
  constructor
  · rintro ⟨_, ⟨e, he, rfl⟩, hr⟩
    rw [e.elementRecord] at hr
    exact ⟨e, he, Option.some.inj hr⟩
  · rintro ⟨e, he, rfl⟩
    exact ⟨e.key, ⟨e, he, rfl⟩, e.elementRecord⟩

/-! ## 3. Counting emissions and counting keys -/

/-- How many emissions have the property. -/
def emittedCount (es : List (Emission run)) (p : MonitorRecord → Bool) : Nat :=
  es.countP fun e => p e.record

/-- How many distinct keys the emissions with the property have. -/
def distinctKeyCount (es : List (Emission run)) (p : MonitorRecord → Bool) : Nat :=
  ((es.filter fun e => p e.record).map Emission.key).dedup.length

/-- A property that the identity form of a record has exactly when the record has it. -/
def IdentityInvariant (p : MonitorRecord → Bool) : Prop := ∀ r, p (identityRecord r) = p r

/-- **The merge counts keys**: a delivered record for each distinct key. -/
theorem countP_deliveredRecords {p : MonitorRecord → Bool} (hp : IdentityInvariant p)
    (es : List (Emission run)) : (deliveredRecords es).countP p = distinctKeyCount es p := by
  rw [deliveredRecords, List.countP_filterMap, List.countP_eq_length_filter, distinctKeyCount]
  refine List.Perm.length_eq ((List.perm_ext_iff_of_nodup
    ((snapshotKeys_nodup es).filter _) (List.nodup_dedup _)).mpr fun k => ?_)
  rw [List.mem_filter, mem_snapshotKeys, List.mem_dedup, List.mem_map]
  constructor
  · rintro ⟨⟨e, he, rfl⟩, hpe⟩
    rw [e.elementRecord, Option.map_some, Option.getD_some, hp] at hpe
    exact ⟨e, List.mem_filter.mpr ⟨he, hpe⟩, rfl⟩
  · rintro ⟨e, he, rfl⟩
    obtain ⟨he, hpe⟩ := List.mem_filter.mp he
    refine ⟨⟨e, he, rfl⟩, ?_⟩
    rw [e.elementRecord, Option.map_some, Option.getD_some, hp]
    exact hpe

/-- The two counts agree when the counted emissions have different keys. -/
theorem distinctKeyCount_of_nodup {es : List (Emission run)} {p : MonitorRecord → Bool}
    (h : ((es.filter fun e => p e.record).map Emission.key).Nodup) :
    distinctKeyCount es p = emittedCount es p := by
  rw [distinctKeyCount, h.dedup, List.length_map, emittedCount, List.countP_eq_length_filter]

/-- A process-scoped record keeps everything but its sequence number. -/
theorem identityRecord_processScoped {r : MonitorRecord}
    (h : depIdentityScope r.kind = .disProcessScoped) : identityRecord r = { r with seq := 0 } := by
  unfold identityRecord scopedRecord
  simp only [if_true, h]
  rfl

/-- What is counted is process-scoped, and no count looks at the sequence number. -/
theorem identityInvariant_of_processScoped {p : MonitorRecord → Bool}
    (hkind : ∀ r, p r = true → depIdentityScope r.kind = .disProcessScoped)
    (hseq : ∀ r, p { r with seq := 0 } = p r) : IdentityInvariant p := by
  intro r
  by_cases hr : depIdentityScope r.kind = .disProcessScoped
  · rw [identityRecord_processScoped hr, hseq]
  · have hno : p r = false := by
      by_contra hp
      exact hr (hkind r (by simpa using hp))
    have hno' : p (identityRecord r) = false := by
      by_contra hp
      refine hr ?_
      rw [← identityRecord_kind]
      exact hkind _ (by simpa using hp)
    rw [hno, hno']

/-! ## 4. The tallies -/

def isStartOf (pid : UInt64) (r : MonitorRecord) : Bool :=
  r.kind == mrProcessStart && r.osPid == pid

def isExecOf (pid : UInt64) (r : MonitorRecord) : Bool :=
  r.kind == mrProcessExec && r.osPid == pid && !execFailed r

def isFailedExecOf (pid : UInt64) (r : MonitorRecord) : Bool :=
  r.kind == mrProcessExec && r.osPid == pid && execFailed r

def isPendingOf (key : ThreadKey) (r : MonitorRecord) : Bool :=
  isPendingMarker r && threadKey r == key

def isCommittedOf (key : ThreadKey) (r : MonitorRecord) : Bool :=
  isCommittedMarker r && threadKey r == key

/-- The two tallies of the verdict under a way of counting: no child's execs less its failed ones
have caught up with its process-starts, and no thread has more pending than committed markers. -/
structure TalliesBy (count : (MonitorRecord → Bool) → Nat) (child : UInt64 → Prop) : Prop where
  execs : ∀ pid, child pid → 0 < (count (isExecOf pid) : Int) - count (isFailedExecOf pid) →
    (count (isExecOf pid) : Int) - count (isFailedExecOf pid) < count (isStartOf pid)
  readTail : ∀ key, count (isPendingOf key) ≤ count (isCommittedOf key)

/-- The properties the tallies count. -/
inductive IsTallied : (MonitorRecord → Bool) → Prop
  | start (pid : UInt64) : IsTallied (isStartOf pid)
  | exec (pid : UInt64) : IsTallied (isExecOf pid)
  | failedExec (pid : UInt64) : IsTallied (isFailedExecOf pid)
  | pending (key : ThreadKey) : IsTallied (isPendingOf key)
  | committed (key : ThreadKey) : IsTallied (isCommittedOf key)

theorem TalliesBy.of_eq {count count' : (MonitorRecord → Bool) → Nat} {child : UInt64 → Prop}
    (h : ∀ p, IsTallied p → count p = count' p) (ht : TalliesBy count child) :
    TalliesBy count' child := by
  refine ⟨fun pid hchild => ?_, fun key => ?_⟩
  · rw [← h _ (.exec pid), ← h _ (.failedExec pid), ← h _ (.start pid)]
    exact ht.execs pid hchild
  · rw [← h _ (.pending key), ← h _ (.committed key)]
    exact ht.readTail key

theorem talliesBy_congr {count count' : (MonitorRecord → Bool) → Nat} {child : UInt64 → Prop}
    (h : ∀ p, IsTallied p → count p = count' p) :
    TalliesBy count child ↔ TalliesBy count' child :=
  ⟨fun ht => ht.of_eq h, fun ht => ht.of_eq fun p hp => (h p hp).symm⟩

theorem IsTallied.identityInvariant {p : MonitorRecord → Bool} (h : IsTallied p) :
    IdentityInvariant p := by
  refine identityInvariant_of_processScoped (fun r hr => ?_) fun r => ?_
  · cases h with
    | start pid | exec pid | failedExec pid =>
      simp only [isStartOf, isExecOf, isFailedExecOf, Bool.and_eq_true, beq_iff_eq] at hr
      first | rw [hr.1] | rw [hr.1.1]
      rfl
    | pending key | committed key =>
      simp only [isPendingOf, isCommittedOf, isPendingMarker, isCommittedMarker, Bool.and_eq_true,
        beq_iff_eq] at hr
      rw [hr.1.1]
      rfl
  · cases h <;> rfl

theorem tallies_iff (m : MergeInput) :
    Tallies m ↔ TalliesBy (fun p => (keptRecords m).countP p) (namedAsChild m) :=
  ⟨fun h => ⟨h.execs, h.readTail⟩, fun h => ⟨h.execs, h.readTail⟩⟩

/-! ## 5. The two captures

Every record is stamped with the run, so the run scoping keeps it or, when one of its identity
tokens occurs twice, reports it. -/

/-- Records of this run. -/
def StampedAll (run : RunId) (records : List MonitorRecord) : Prop :=
  ∀ r ∈ records, detailToken r.detail RunIdToken = run.text

theorem staleAction_stamped (hrun : run.text ≠ []) (records : List MonitorRecord)
    {r : MonitorRecord} (h : detailToken r.detail RunIdToken = run.text) :
    staleAction records run.text r =
      if hasDuplicateIdentityToken r.detail then .duplicateIdentity else .keep := by
  rw [staleAction_of_named hrun records (h ▸ hrun), if_pos h]

section Captures

variable (base : MergeInput) {records records' : List MonitorRecord} (hrun : run.text ≠ [])

theorem capturedRecords_setCapture (records : List MonitorRecord) :
    capturedRecords (setCapture base run records) = records := by
  rw [capturedRecords]
  rfl

include hrun

theorem runScope_setCapture (records : List MonitorRecord) :
    (setCapture base run records).runScope = run.text := by
  have hcur : run.text.isEmpty = false := by simpa using hrun
  rw [MergeInput.runScope]
  simp only [setCapture, hcur, Bool.false_eq_true, if_false]

theorem keptRecords_setCapture (hstamped : StampedAll run records) :
    keptRecords (setCapture base run records) =
      records.filter fun r => !hasDuplicateIdentityToken r.detail := by
  rw [keptRecords, capturedRecords_setCapture, runScope_setCapture base hrun, staleKept]
  refine List.filter_congr fun r hr => ?_
  rw [staleAction_stamped hrun records (hstamped r hr)]
  cases hasDuplicateIdentityToken r.detail <;> rfl

theorem scope_setCapture (hstamped : StampedAll run records) :
    staleLosses (capturedRecords (setCapture base run records))
        (setCapture base run records).runScope = [] ↔
      ∀ r ∈ records, hasDuplicateIdentityToken r.detail = false := by
  rw [capturedRecords_setCapture, runScope_setCapture base hrun, staleLosses_eq_nil]
  refine forall_congr' fun r => forall_congr' fun hr => ?_
  rw [staleAction_stamped hrun records (hstamped r hr)]
  cases hasDuplicateIdentityToken r.detail <;> simp

/-- What the run id of the reports is compared with: the run, once a process-start or a connection
was seen. -/
theorem recordRunId_kept (hstamped : StampedAll run records) {r : MonitorRecord}
    (hr : r ∈ observedRecords (setCapture base run records)) {x : NimStr}
    (hx : recordRunId r = some x) : x = run.text := by
  rw [observedRecords, keptRecords_setCapture base hrun hstamped] at hr
  obtain ⟨hr, hdup⟩ := List.mem_filter.mp (List.mem_filter.mp hr).1
  rw [Bool.not_eq_true'] at hdup
  unfold recordRunId at hx
  split at hx
  · rw [trustedRun_of_unambiguous hdup, hstamped r hr] at hx
    dsimp only at hx
    split at hx
    · exact absurd hx (by simp)
    · exact (Option.some.inj hx).symm
  · exact absurd hx (by simp)

omit hrun in
/-- A run id that all records agree on is read off any of them. -/
theorem runId_sameEvidence {l l' : List MonitorRecord} (h : SameEvidenceSet l l') {a : NimStr}
    (hl : ∀ r ∈ l, ∀ x, recordRunId r = some x → x = a)
    (hl' : ∀ r ∈ l', ∀ x, recordRunId r = some x → x = a) :
    (breakawayAuthContext l).runId = (breakawayAuthContext l').runId := by
  have hvalue : ∀ ls : List MonitorRecord, (∀ r ∈ ls, ∀ x, recordRunId r = some x → x = a) →
      (breakawayAuthContext ls).runId =
        if ∃ r ∈ ls, recordRunId r ≠ none then a else [] := by
    intro ls hls
    unfold breakawayAuthContext
    cases hf : ls.filterMap recordRunId with
    | nil =>
      rw [if_neg]
      · rfl
      · rintro ⟨r, hr, hne⟩
        exact hne (List.filterMap_eq_nil_iff.mp hf r hr)
    | cons x xs =>
      have hx : x ∈ ls.filterMap recordRunId := hf ▸ List.mem_cons_self ..
      obtain ⟨r, hr, hrx⟩ := List.mem_filterMap.mp hx
      rw [if_pos ⟨r, hr, by rw [hrx]; simp⟩]
      exact hls r hr x hrx
  have hsome : (∃ r ∈ l, recordRunId r ≠ none) ↔ ∃ r ∈ l', recordRunId r ≠ none := by
    refine h.exists_iff (ofEvidence_of_content fun r r' hc => ?_)
    rw [recordRunId, recordRunId, hc.1, hc.2.2.2]
  rw [hvalue l hl, hvalue l' hl']
  simp only [hsome]

/-- **Two captures of one run with the same evidence** differ in their tallies only. -/
theorem setSpec_setCapture (hstamped : StampedAll run records) (hstamped' : StampedAll run records')
    (hsame : SameEvidenceSet records records') :
    SetSpec (setCapture base run records) ↔ SetSpec (setCapture base run records') := by
  have hkept : SameEvidenceSet (keptRecords (setCapture base run records))
      (keptRecords (setCapture base run records')) := by
    rw [keptRecords_setCapture base hrun hstamped, keptRecords_setCapture base hrun hstamped']
    refine hsame.filter (ofEvidence_of_content fun r r' hc => ?_)
    rw [hc.2.2.2]
  refine setSpec_congr hkept rfl Iff.rfl ?_ rfl (trustedDaemons_sameEvidence hkept rfl ?_)
  · rw [scope_setCapture base hrun hstamped, scope_setCapture base hrun hstamped']
    refine hsame.forall_iff (ofEvidence_of_content fun r r' hc => ?_)
    rw [hc.2.2.2]
  · exact runId_sameEvidence (observedRecords_sameEvidence hkept)
      (fun r hr x => recordRunId_kept base hrun hstamped hr)
      (fun r hr x => recordRunId_kept base hrun hstamped' hr)

/-- Where the run scoping had nothing to report, the tallies count every record. -/
theorem tallies_setCapture (hstamped : StampedAll run records)
    (hspec : SetSpec (setCapture base run records)) :
    Tallies (setCapture base run records) ↔
      TalliesBy (fun p => records.countP p) (namedAsChild (setCapture base run records)) := by
  have hall : keptRecords (setCapture base run records) = records := by
    rw [keptRecords_setCapture base hrun hstamped, List.filter_eq_self]
    intro r hr
    rw [(scope_setCapture base hrun hstamped).mp hspec.scope r hr]
    rfl
  rw [tallies_iff, hall]

end Captures

/-! ## 6. The verdicts -/

/-- The capture of everything that was emitted. -/
def fullCapture (base : MergeInput) (es : List (Emission run)) : MergeInput :=
  setCapture base run (es.map (·.record))

section Verdicts

variable (base : MergeInput) (hrun : run.text ≠ []) (es : List (Emission run))

theorem stampedAll_emitted : StampedAll run (es.map (·.record)) := by
  intro r hr
  obtain ⟨e, _, rfl⟩ := List.mem_map.mp hr
  exact e.stamped

theorem stampedAll_delivered : StampedAll run (deliveredRecords es) := by
  intro r hr
  obtain ⟨e, _, rfl⟩ := mem_deliveredRecords.mp hr
  rw [identityRecord_detail]
  exact e.stamped

theorem sameEvidence_delivered : SameEvidenceSet (es.map (·.record)) (deliveredRecords es) := by
  refine ⟨fun r hr => ?_, fun r' hr' => ?_⟩
  · obtain ⟨e, he, rfl⟩ := List.mem_map.mp hr
    exact ⟨_, mem_deliveredRecords.mpr ⟨e, he, rfl⟩, SameEvidence.identityRecord e.record⟩
  · obtain ⟨e, he, rfl⟩ := mem_deliveredRecords.mp hr'
    exact ⟨_, List.mem_map_of_mem he, SameEvidence.identityRecord e.record⟩

include hrun

/-- **The verdict over everything emitted**: the tallies count emissions. -/
theorem full_complete_iff :
    (mergeFragments (fullCapture base es)).completeness = mcComplete ↔
      SetSpec (fullCapture base es) ∧
        TalliesBy (emittedCount es) (namedAsChild (fullCapture base es)) := by
  have hcount : (fun p => (es.map (·.record)).countP p) = emittedCount es := by
    funext p
    rw [List.countP_map]
    rfl
  have hprofile : ∀ r ∈ capturedRecords (fullCapture base es), r.kind ≠ mrBackendProfile := by
    intro r hr
    rw [fullCapture, capturedRecords_setCapture] at hr
    obtain ⟨e, _, rfl⟩ := List.mem_map.mp hr
    exact e.noProfile
  rw [mergeFragments_complete_iff hprofile, verdictSpec_iff_tallies]
  refine and_congr_right fun hspec => ?_
  rw [fullCapture, tallies_setCapture base hrun (stampedAll_emitted es) hspec, hcount]

/-- **The verdict over what the set delivers**: they count distinct keys. -/
theorem delivered_complete_iff :
    (mergeFragments (setCapture base run (deliveredRecords es))).completeness = mcComplete ↔
      SetSpec (fullCapture base es) ∧
        TalliesBy (distinctKeyCount es) (namedAsChild (fullCapture base es)) := by
  have hsame := sameEvidence_delivered es
  have hprofile : ∀ r ∈ capturedRecords (setCapture base run (deliveredRecords es)),
      r.kind ≠ mrBackendProfile := by
    intro r hr
    rw [capturedRecords_setCapture] at hr
    obtain ⟨e, _, rfl⟩ := mem_deliveredRecords.mp hr
    rw [identityRecord_kind]
    exact e.noProfile
  have hkept : SameEvidenceSet (keptRecords (fullCapture base es))
      (keptRecords (setCapture base run (deliveredRecords es))) := by
    rw [fullCapture, keptRecords_setCapture base hrun (stampedAll_emitted es),
      keptRecords_setCapture base hrun (stampedAll_delivered es)]
    refine hsame.filter (ofEvidence_of_content fun r r' hc => ?_)
    rw [hc.2.2.2]
  have hchild : namedAsChild (fullCapture base es) =
      namedAsChild (setCapture base run (deliveredRecords es)) :=
    funext fun pid => propext (namedAsChild_sameEvidence hkept rfl pid)
  have hspec := setSpec_setCapture base hrun (stampedAll_emitted es) (stampedAll_delivered es) hsame
  rw [mergeFragments_complete_iff hprofile, verdictSpec_iff_tallies, ← hspec, ← fullCapture]
  refine and_congr_right fun h => ?_
  rw [tallies_setCapture base hrun (stampedAll_delivered es) (hspec.mp h), hchild]
  exact talliesBy_congr fun p hp => countP_deliveredRecords hp.identityInvariant es

end Verdicts

theorem completeness_eq_iff {a b : MonitorCompleteness} :
    a = b ↔ (a = mcComplete ↔ b = mcComplete) := by
  cases a <;> cases b <;> decide

/-- **When deduplication does not change the verdict.**  For everything the images of a run emit,
the merge of what the set delivers is as complete as the merge of the full list if and only if the
full list has a loss of another kind, or the exec and read-tail tallies come out alike over the
emissions and over their distinct keys. -/
theorem setDedup_verdict_iff (base : MergeInput) (hrun : run.text ≠ []) (es : List (Emission run)) :
    ∃ delivered, (setRun (es.map Emission.append)).drained = .ok delivered ∧
      ((mergeFragments (setCapture base run delivered)).completeness =
          (mergeFragments (fullCapture base es)).completeness ↔
        (SetSpec (fullCapture base es) →
          (TalliesBy (distinctKeyCount es) (namedAsChild (fullCapture base es)) ↔
            TalliesBy (emittedCount es) (namedAsChild (fullCapture base es))))) := by
  refine ⟨deliveredRecords es, drained_eq es, ?_⟩
  rw [completeness_eq_iff, delivered_complete_iff base hrun es, full_complete_iff base hrun es,
    and_congr_right_iff]

/-- Emissions that never repeat a key are counted alike. -/
theorem talliesBy_of_nodup {es : List (Emission run)} (h : (es.map Emission.key).Nodup)
    (child : UInt64 → Prop) :
    TalliesBy (distinctKeyCount es) child ↔ TalliesBy (emittedCount es) child :=
  talliesBy_congr fun _ _ => distinctKeyCount_of_nodup (h.sublist (List.filter_sublist.map _))

/-! ## 7. Two attempts of one path -/

def attemptRun : RunId := ⟨str "9f3a", by decide +kernel⟩

/-- The root process, in its first image. -/
def shellImage : ProcessImage := ⟨7, str "/bin/sh", 0⟩

def shellOrigin : Origin := { osPid := 7 }

/-- What the root emits for one event. -/
def shellEmission (record : MonitorRecord)
    (hfit : (encodeDepSetElement shellImage.setElemImage record SetProducerBufBytes
      dseRequireFit).isSome = true)
    (hpid : record.osPid = 7) (hstamped : detailToken record.detail RunIdToken = attemptRun.text)
    (hkind : record.kind ≠ mrBackendProfile) : Emission attemptRun where
  image := shellImage
  record := record
  key := Option.get _ hfit
  encoded := (Option.some_get hfit).symm
  ofImage := hpid
  stamped := hstamped
  noProfile := hkind

def attemptStart : Emission attemptRun :=
  shellEmission
    { kind := mrProcessStart, observationKind := moProcessStart, osPid := 7
      detail := str "linux-preload-hooks run=9f3a" }
    (by decide +kernel) rfl (by decide +kernel) (by decide)

def toolExec : Emission attemptRun :=
  shellEmission
    { kind := mrProcessExec, observationKind := moExecute, osPid := 7, path := str "/opt/tool"
      detail := str "run=9f3a" }
    (by decide +kernel) rfl (by decide +kernel) (by decide)

def toolExecFailed : Emission attemptRun :=
  shellEmission
    { kind := mrProcessExec, observationKind := moExecute, osPid := 7, path := str "/opt/tool"
      result := -2, detail := str "execstatus=failed errno=2 run=9f3a" }
    (by decide +kernel) rfl (by decide +kernel) (by decide)

/-- The launcher spawned the shell. -/
def shellRoot : MergeInput := { expectedRootPid := 7 }

/-- One failed attempt: no key repeats. -/
theorem setDedup_verdict_iff_oneAttempt :
    attemptRun.text ≠ [] ∧ ∃ delivered,
      (setRun ([attemptStart, toolExec, toolExecFailed].map Emission.append)).drained =
          .ok delivered ∧
        (mergeFragments (setCapture shellRoot attemptRun delivered)).completeness =
          (mergeFragments (fullCapture shellRoot
            [attemptStart, toolExec, toolExecFailed])).completeness := by
  have hrun : attemptRun.text ≠ [] := by decide +kernel
  have hnodup : ([attemptStart, toolExec, toolExecFailed].map Emission.key).Nodup := by
    decide +kernel
  obtain ⟨delivered, hdrained, hiff⟩ :=
    setDedup_verdict_iff shellRoot hrun [attemptStart, toolExec, toolExecFailed]
  exact ⟨hrun, delivered, hdrained, hiff.mpr fun _ => talliesBy_of_nodup hnodup _⟩

/-- The second attempt succeeds, into an image that cannot load the shim. -/
def twoAttempts : List (Emission attemptRun) := [attemptStart, toolExec, toolExecFailed, toolExec]

theorem attemptRun_ne_nil : attemptRun.text ≠ [] := by decide +kernel

theorem unambiguous_twoAttempts :
    ∀ r ∈ twoAttempts.map (·.record), hasDuplicateIdentityToken r.detail = false := by
  decide +kernel

/-- No identity token occurs twice, so the run scoping keeps everything. -/
theorem keptRecords_twoAttempts :
    keptRecords (fullCapture shellRoot twoAttempts) = twoAttempts.map (·.record) := by
  rw [fullCapture, keptRecords_setCapture shellRoot attemptRun_ne_nil (stampedAll_emitted _),
    List.filter_eq_self]
  intro r hr
  rw [unambiguous_twoAttempts r hr]
  rfl

theorem namedAsChild_twoAttempts {pid : UInt64}
    (h : namedAsChild (fullCapture shellRoot twoAttempts) pid) : pid = 7 := by
  rcases h with ⟨r, hr, hnames, _⟩ | ⟨_, hpid⟩
  · have hno : ∀ r ∈ twoAttempts.map (·.record), namesChild r = false := by decide
    rw [keptRecords_twoAttempts] at hr
    rw [hno r hr] at hnames
    exact absurd hnames (by simp)
  · exact hpid.symm

theorem setSpec_twoAttempts : SetSpec (fullCapture shellRoot twoAttempts) := by
  constructor
  case fragments => exact fun e he => absurd he List.not_mem_nil
  case scope =>
    rw [fullCapture, scope_setCapture shellRoot attemptRun_ne_nil (stampedAll_emitted _)]
    exact unambiguous_twoAttempts
  case sidecars => rfl
  all_goals
    rw [keptRecords_twoAttempts]
    decide +kernel

theorem noMarkers_twoAttempts (p : MonitorRecord → Bool)
    (hp : ∀ r, p r = true → r.kind = mrEventLoss) : distinctKeyCount twoAttempts p = 0 := by
  have hnone : twoAttempts.filter (fun e => p e.record) = [] := by
    have hkinds : ∀ e ∈ twoAttempts, e.record.kind ≠ mrEventLoss := by decide +kernel
    exact List.filter_eq_nil_iff.mpr fun e he hpe => hkinds e he (hp _ hpe)
  rw [distinctKeyCount, hnone]
  rfl

/-- **A second attempt of the same path hides an exec.**  The shell tries a path, fails, tries it
again and succeeds, into an image that never reports.  The full list has two attempts and one
failure, one exec too many for its one process-start; the set delivers one of each. -/
theorem second_attempt_hides_exec :
    twoAttempts.map (·.record) = wholeStream attemptRun [(shellOrigin, .processStart),
        (shellOrigin, .exec (str "/opt/tool")), (shellOrigin, .execFailed (str "/opt/tool") 2),
        (shellOrigin, .exec (str "/opt/tool"))] ∧
      ∃ delivered, (setRun (twoAttempts.map Emission.append)).drained = .ok delivered ∧
        (mergeFragments (setCapture shellRoot attemptRun delivered)).completeness = mcComplete ∧
        (mergeFragments (fullCapture shellRoot twoAttempts)).completeness = mcIncomplete := by
  refine ⟨by decide +kernel, deliveredRecords twoAttempts, drained_eq twoAttempts, ?_, ?_⟩
  · rw [delivered_complete_iff shellRoot attemptRun_ne_nil]
    refine ⟨setSpec_twoAttempts, fun pid hchild => ?_, fun key => ?_⟩
    · rw [namedAsChild_twoAttempts hchild]
      decide +kernel
    · rw [noMarkers_twoAttempts]
      · exact Nat.zero_le _
      · intro r hr
        simp only [isPendingOf, isPendingMarker, Bool.and_eq_true, beq_iff_eq] at hr
        exact hr.1.1
  · have hno : (mergeFragments (fullCapture shellRoot twoAttempts)).completeness ≠ mcComplete := by
      rw [ne_eq, full_complete_iff shellRoot attemptRun_ne_nil]
      rintro ⟨_, htallies⟩
      have hexecs := htallies.execs 7 (.inr ⟨by decide, rfl⟩)
      exact absurd hexecs (by decide +kernel)
    cases hc : (mergeFragments (fullCapture shellRoot twoAttempts)).completeness with
    | mcComplete => exact absurd hc hno
    | mcIncomplete => rfl

end IoMon
