/-
# The depfile on disk and the depfile in memory

The merge writes the file it returns.  The host then narrows the returned records to what the
request asked for and, when it dropped any, writes the file again from what it kept.  The second
write puts the kept records in canonical order and renumbers them; the returned value keeps the
numbers of the merge and the verdict of the merge.

  * `hostFile_eq` -- whichever write came last, the file is the file of the kept records;
  * `renumber_hostKept_iff` -- the kept records are numbered from one exactly when nothing was
    dropped in front of one of them;
  * `inMemory_eq_file_iff` -- when reading the file gives back the returned value.
-/
import IoMon.Host.Evidence
import IoMon.File.RoundTrip

namespace IoMon

open ByteText ByteCodec StableSort MonitorRecordKind MonitorObservationKind MonitorCompleteness
  EvidenceScope

/-! ## 1. What the host writes -/

/-- The records the host keeps. -/
def hostKept (interest : Finset EventCategory) (scope : EvidenceScope)
    (records : List MonitorRecord) : List MonitorRecord :=
  records.filter fun r => recordWanted interest r.kind && recordInEvidenceScope scope r

def writeCanonical (records : List MonitorRecord) : List UInt8 := writeCanonicalInPlace records

/-- The content of the depfile path once the host is done: what the merge wrote, or what the host
wrote over it because it dropped a record. -/
def hostFile (interest : Finset EventCategory) (scope : EvidenceScope) (m : MergeInput) :
    List UInt8 :=
  let merged := writeCanonicalInPlace (mergedRecords m)
  if normalizeInterest interest ≠ FullInterest ∨ scope ≠ esFull then
    let kept := hostKept interest scope (mergeFragments m).records
    if kept.length < (mergeFragments m).records.length then writeCanonical kept else merged
  else merged

/-- The merge that `collectMonitorEvidence` asks for, once it has drained the set. -/
def collectInput (h : MonitorHandle) (loss : Option LauncherLoss) (depSet : Option DepSet) :
    Except NimDefect MergeInput :=
  match depSet with
  | none => .ok (h.mergeInput [])
  | some s =>
    match (settleMonitorDescendants h loss s).drained with
    | .error d => .error d
    | .ok depDrained => .ok (h.mergeInput depDrained)

/-- The file `collectMonitorEvidence` leaves behind. -/
def collectMonitorFile (h : MonitorHandle) (loss : Option LauncherLoss)
    (depSet : Option DepSet) : Except NimDefect (List UInt8) :=
  match collectInput h loss depSet with
  | .error d => .error d
  | .ok m => .ok (hostFile h.interest h.evidenceScope m)

/-- The host succeeds exactly when it can drain the set, and then narrows that merge. -/
theorem collectMonitorEvidence_input {h : MonitorHandle} {loss : Option LauncherLoss}
    {depSet : Option DepSet} {e : Evidence} (hc : collectMonitorEvidence h loss depSet = .ok e) :
    ∃ m, collectInput h loss depSet = .ok m ∧
      e.depFile = hostFilter h.interest h.evidenceScope (mergeFragments m) := by
  unfold collectMonitorEvidence at hc
  unfold collectInput
  cases depSet with
  | none =>
    obtain rfl := Except.ok.inj hc
    exact ⟨_, rfl, rfl⟩
  | some s =>
    dsimp only at hc ⊢
    cases hd : (settleMonitorDescendants h loss s).drained with
    | error d =>
      rw [hd] at hc
      exact absurd hc (by simp)
    | ok drained =>
      rw [hd] at hc
      obtain rfl := Except.ok.inj hc
      exact ⟨_, rfl, rfl⟩

/-! ## 2. Narrowing -/

section Narrowing

variable {interest : Finset EventCategory} {scope : EvidenceScope}

/-- A request for everything keeps everything. -/
theorem hostKept_full (hfull : ¬ (normalizeInterest interest ≠ FullInterest ∨ scope ≠ esFull))
    (records : List MonitorRecord) : hostKept interest scope records = records := by
  simp only [ne_eq, not_or, not_not] at hfull
  refine List.filter_eq_self.mpr fun r _ => ?_
  have hwanted : recordWanted interest r.kind = true := by
    unfold recordWanted
    rw [hfull.1]
    split <;> simp
  rw [hwanted, hfull.2]
  rfl

theorem mem_of_mem_hostKept {records : List MonitorRecord} {r : MonitorRecord}
    (h : r ∈ hostKept interest scope records) : r ∈ records := List.mem_of_mem_filter h

theorem hostKept_eq_self {records : List MonitorRecord}
    (h : ¬ (hostKept interest scope records).length < records.length) :
    hostKept interest scope records = records :=
  List.filter_sublist.eq_of_length_le (Nat.not_lt.mp h)

/-- **What the host returns**: the merge with its records and summary narrowed. -/
theorem hostFilter_depFile (merged : List MonitorRecord) :
    hostFilter interest scope (depFileFromOwnedRecords merged) =
      { depFileFromOwnedRecords merged with
        records := hostKept interest scope merged
        summary := summarizeRecords (hostKept interest scope merged) } := by
  have hself : hostKept interest scope merged = merged → depFileFromOwnedRecords merged =
      { depFileFromOwnedRecords merged with
        records := hostKept interest scope merged
        summary := summarizeRecords (hostKept interest scope merged) } := by
    intro h
    rw [h]
    rfl
  unfold hostFilter
  by_cases hnarrow : normalizeInterest interest ≠ FullInterest ∨ scope ≠ esFull
  · rw [if_pos hnarrow]
    by_cases hdrop : (hostKept interest scope merged).length < merged.length
    · exact if_pos hdrop
    · exact (if_neg hdrop).trans (hself (hostKept_eq_self hdrop))
  · rw [if_neg hnarrow]
    exact hself (hostKept_full hnarrow _)

theorem mergeFragments_records (m : MergeInput) :
    (mergeFragments m).records = canonicalize (mergedRecords m) := by
  rw [mergeFragments]
  generalize canonicalize (mergedRecords m) = merged
  rfl

/-- **The file of the kept records**, whichever write came last. -/
theorem hostFile_eq {m : MergeInput} (hlen : (mergeFragments m).records.length < 2 ^ 64) :
    hostFile interest scope m =
      encodeCanonical (hostKept interest scope (mergeFragments m).records) := by
  have hmerged : encodeCanonical (mergeFragments m).records =
      encodeCanonical (mergedRecords m) := by
    rw [mergeFragments_records, canonicalize_length] at hlen
    rw [mergeFragments_records, encodeCanonical, encodeCanonical, canonicalize_canonicalize hlen]
  unfold hostFile
  dsimp only
  rw [writeCanonical, writeCanonicalInPlace_eq, writeCanonicalInPlace_eq, ← hmerged]
  by_cases hnarrow : normalizeInterest interest ≠ FullInterest ∨ scope ≠ esFull
  · rw [if_pos hnarrow]
    split
    · rfl
    · rename_i hdrop
      rw [hostKept_eq_self hdrop]
  · rw [if_neg hnarrow, hostKept_full hnarrow]

/-! ## 3. Numbers -/

/-- What a filter keeps is the front of the list if it drops all behind the first it drops. -/
theorem filter_front {α : Type} {p : α → Bool} {l : List α} (h : ∀ x ∈ l.dropWhile p, ¬ p x) :
    l.filter p <+: l := by
  have hfront : (l.takeWhile p).filter p = l.takeWhile p :=
    List.filter_eq_self.mpr fun x hx => List.all_eq_true.mp List.all_takeWhile x hx
  calc l.filter p = (l.takeWhile p ++ l.dropWhile p).filter p := by
        rw [List.takeWhile_append_dropWhile]
    _ = l.takeWhile p := by
        rw [List.filter_append, List.filter_eq_nil_iff.mpr h, List.append_nil, hfront]
    _ <+: l := List.takeWhile_prefix p

/-- A part of a numbered list that is numbered itself is its front. -/
theorem prefix_of_numbered {kept records : List MonitorRecord} (hsub : kept.Sublist records)
    {n : Nat} (hlen : n + records.length < 2 ^ 64) (hrecords : NumberedFrom n records)
    (hkept : NumberedFrom n kept) : kept <+: records := by
  induction hsub generalizing n with
  | slnil => exact List.prefix_rfl
  | @cons kept records r hsub ih =>
    -- the first record is left out: then nothing kept can carry its number
    cases kept with
    | nil => exact List.nil_prefix
    | cons k rest =>
      exfalso
      obtain ⟨i, hi, hget⟩ := List.mem_iff_getElem.mp (hsub.subset (List.mem_cons_self ..))
      have hfirst := (numberedFrom_cons.mp hkept).1
      have hlater := (numberedFrom_cons.mp hrecords).2 i hi
      rw [hget, hfirst] at hlater
      have hnat := congrArg UInt64.toNat hlater
      rw [List.length_cons] at hlen
      rw [UInt64.toNat_ofNat', UInt64.toNat_ofNat', Nat.mod_eq_of_lt (by omega),
        Nat.mod_eq_of_lt (by omega)] at hnat
      omega
  | @cons_cons kept records r hsub ih =>
    rw [List.length_cons] at hlen
    refine List.prefix_cons_inj r |>.mpr (ih (by omega) (numberedFrom_cons.mp hrecords).2
      (numberedFrom_cons.mp hkept).2)

theorem numberedFrom_of_prefix {kept records : List MonitorRecord} (h : kept <+: records) {n : Nat}
    (hrecords : NumberedFrom n records) : NumberedFrom n kept := by
  intro i hi
  rw [h.getElem hi]
  exact hrecords i (Nat.lt_of_lt_of_le hi h.length_le)

theorem mergeFragments_numbered (m : MergeInput) : NumberedFrom 0 (mergeFragments m).records := by
  rw [mergeFragments_records, canonicalize_eq]
  exact numberedFrom_renumber _

/-- **Kept numbers are file numbers** exactly when nothing was dropped in front of a kept
record. -/
theorem renumber_hostKept_iff {m : MergeInput}
    (hlen : (mergeFragments m).records.length < 2 ^ 64) (interest : Finset EventCategory)
    (scope : EvidenceScope) :
    renumber (hostKept interest scope (mergeFragments m).records) =
        hostKept interest scope (mergeFragments m).records ↔
      hostKept interest scope (mergeFragments m).records <+: (mergeFragments m).records := by
  rw [renumber_eq_self]
  constructor
  · exact prefix_of_numbered List.filter_sublist (by omega) (mergeFragments_numbered m)
  · exact fun h => numberedFrom_of_prefix h (mergeFragments_numbered m)

end Narrowing

/-! ## 4. The verdict -/

/-- A record that describes the backend. -/
def isMeta (r : MonitorRecord) : Bool := r.kind == mrBackendProfile || r.kind == mrCapabilityGap

theorem scanProfileRecord_of_not_meta {required : Finset MonitorCapability} {s : ProfileScan}
    {r : MonitorRecord} (h : isMeta r = false) : scanProfileRecord required s r = s := by
  unfold isMeta at h
  unfold scanProfileRecord
  cases hk : r.kind <;> simp_all

theorem foldl_scanProfileRecord_meta (required : Finset MonitorCapability)
    (records : List MonitorRecord) (s : ProfileScan) :
    records.foldl (scanProfileRecord required) s =
      (records.filter isMeta).foldl (scanProfileRecord required) s := by
  induction records generalizing s with
  | nil => rfl
  | cons r rs ih =>
    by_cases hr : isMeta r = true
    · rw [List.filter_cons_of_pos hr, List.foldl_cons, List.foldl_cons, ih]
    · rw [List.filter_cons_of_neg hr, List.foldl_cons,
        scanProfileRecord_of_not_meta (Bool.not_eq_true _ ▸ hr), ih]

theorem stampValue_meta (key : NimStr) (records : List MonitorRecord) :
    stampValue key records = stampValue key (records.filter isMeta) := by
  have hfilter : (records.filter isMeta).filter (·.kind == mrBackendProfile) =
      records.filter (·.kind == mrBackendProfile) := by
    rw [List.filter_filter]
    refine List.filter_congr fun r _ => ?_
    unfold isMeta
    cases hk : (r.kind == mrBackendProfile) <;> simp
  rw [stampValue, stampValue, hfilter]

section SameMeta

variable {merged kept : List MonitorRecord} (hmeta : kept.filter isMeta = merged.filter isMeta)

include hmeta

theorem profileFromRecords_congr_meta (required : Finset MonitorCapability) :
    profileFromRecords kept required = profileFromRecords merged required := by
  unfold profileFromRecords
  rw [foldl_scanProfileRecord_meta required kept, hmeta, ← foldl_scanProfileRecord_meta]

theorem observedScopes_congr_meta :
    observedInterestFromRecords kept = observedInterestFromRecords merged ∧
      observedEvidenceScopeFromRecords kept = observedEvidenceScopeFromRecords merged := by
  unfold observedInterestFromRecords observedEvidenceScopeFromRecords
  rw [stampValue_meta _ kept, stampValue_meta _ merged, stampValue_meta (str "evidence") kept,
    stampValue_meta (str "evidence") merged, hmeta]
  exact ⟨rfl, rfl⟩

/-- **The kept verdict is the file's verdict** unless the only losses were dropped and nothing
else speaks against completeness. -/
theorem narrowed_eq_iff (hsub : ∀ r ∈ kept, r ∈ merged) :
    { depFileFromOwnedRecords merged with records := kept, summary := summarizeRecords kept } =
        depFileFromOwnedRecords kept ↔
      ((∀ r ∈ kept, isLoss r = false) → profileComplete merged →
        ∀ r ∈ merged, isLoss r = false) := by
  have hcount : ∀ rs : List MonitorRecord, (summarizeRecords rs).eventLossCount = 0 ↔
      ∀ r ∈ rs, isLoss r = false := by
    intro rs
    simp only [summarizeRecords, List.length_eq_zero_iff, List.filter_eq_nil_iff,
      Bool.not_eq_true]
  have hless : (summarizeRecords merged).eventLossCount = 0 →
      (summarizeRecords kept).eventLossCount = 0 := by
    intro h
    exact (hcount kept).mpr fun r hr => (hcount merged).mp h r (hsub r hr)
  unfold profileComplete
  rw [← hcount, ← hcount]
  unfold depFileFromOwnedRecords
  dsimp only
  rw [profileFromRecords_congr_meta hmeta, (observedScopes_congr_meta hmeta).1,
    (observedScopes_congr_meta hmeta).2]
  generalize profileFromRecords merged InputEvidenceCapabilities = declared
  by_cases hm : (summarizeRecords merged).eventLossCount = 0
  · rw [hm, hless hm]
    simp
  by_cases hk : (summarizeRecords kept).eventLossCount = 0
  · -- all losses were dropped: the two agree only if the profile is incomplete by itself
    obtain ⟨name, family, supported, required, gaps, complete⟩ := declared
    cases complete <;> simp [hm, hk]
  · simp [hm, hk]

end SameMeta

/-! ## 5. Memory and disk -/

theorem hostKept_meta (interest : Finset EventCategory) (scope : EvidenceScope)
    (records : List MonitorRecord) :
    (hostKept interest scope records).filter isMeta = records.filter isMeta := by
  unfold hostKept
  rw [List.filter_filter]
  refine List.filter_congr fun r _ => ?_
  by_cases hr : isMeta r = true
  · have hkind : categoryOf r.kind = none := by
      simp only [isMeta, Bool.or_eq_true, beq_iff_eq] at hr
      rcases hr with h | h <;> rw [h] <;> rfl
    have hwanted : recordWanted interest r.kind = true := by
      rw [recordWanted, hkind]
    have hscope : recordInEvidenceScope scope r = true := by
      cases scope <;> simp [recordInEvidenceScope, recordIsFailedExistenceLookup, hkind]
    simp only [hr, hwanted, hscope, Bool.and_self]
  · simp only [Bool.not_eq_true _ ▸ hr, Bool.false_and]

/-- **When the file holds what the host returned**, on the merged records the host narrows: the
kept records fit their frames and the reader's limit, none of them has a dropped record in front
of it, and dropping did not remove the only losses of a capture whose profile is complete. -/
structure FileAgrees (interest : Finset EventCategory) (scope : EvidenceScope)
    (merged : List MonitorRecord) : Prop where
  fits : ∀ r ∈ hostKept interest scope merged, FitsWire r
  count : (hostKept interest scope merged).length ≤
    defaultMonitorDepFileReaderOptions.maxObservationCount.toNat
  inFront : hostKept interest scope merged <+: merged
  verdict : (∀ r ∈ hostKept interest scope merged, isLoss r = false) → profileComplete merged →
    ∀ r ∈ merged, isLoss r = false

/-- The kept records are in order already, so the second write only renumbers them. -/
theorem canonicalize_hostKept {m : MergeInput}
    (hlen : (mergeFragments m).records.length < 2 ^ 64) (interest : Finset EventCategory)
    (scope : EvidenceScope) :
    canonicalize (hostKept interest scope (mergeFragments m).records) =
      renumber (hostKept interest scope (mergeFragments m).records) := by
  refine canonicalize_of_sorted (List.Pairwise.sublist List.filter_sublist ?_)
  rw [mergeFragments_records, canonicalize_length] at hlen
  rw [mergeFragments_records]
  exact sorted_canonicalize hlen

theorem decode_hostFile_iff {m : MergeInput}
    (hlen : (mergeFragments m).records.length < 2 ^ 64) (interest : Finset EventCategory)
    (scope : EvidenceScope) :
    decodeMonitorDepFile defaultMonitorDepFileReaderOptions (hostFile interest scope m) =
        .ok (hostFilter interest scope (mergeFragments m)) ↔
      FileAgrees interest scope (mergeFragments m).records := by
  have hcanon := canonicalize_hostKept hlen interest scope
  have hnumbers := renumber_hostKept_iff hlen interest scope
  have hreturned : hostFilter interest scope (mergeFragments m) =
      { depFileFromOwnedRecords (mergeFragments m).records with
        records := hostKept interest scope (mergeFragments m).records
        summary := summarizeRecords (hostKept interest scope (mergeFragments m).records) } := by
    rw [mergeFragments_records, mergeFragments, hostFilter_depFile]
  have hnarrow := narrowed_eq_iff (hostKept_meta interest scope (mergeFragments m).records)
    fun r hr => mem_of_mem_hostKept hr
  rw [hostFile_eq hlen, hreturned]
  generalize (mergeFragments m).records = merged at hcanon hnumbers hnarrow ⊢
  constructor
  · intro h
    have hfits := fitsWire_of_read h
    have hcount := length_le_of_decoded h
    have hread := decode_encodeCanonical hcount hfits
    rw [h, Except.ok.injEq, hcanon] at hread
    have hsame : hostKept interest scope merged = renumber (hostKept interest scope merged) :=
      congrArg MonitorDepFile.records hread
    rw [← hsame] at hread
    exact ⟨hfits, hcount, hnumbers.mp hsame.symm, hnarrow.mp hread⟩
  · intro h
    rw [decode_encodeCanonical h.count h.fits, hcanon, hnumbers.mpr h.inFront, Except.ok.injEq]
    exact (hnarrow.mpr h.verdict).symm

/-- **The in-memory result is the file**, exactly: what `collectMonitorEvidence` returned is what
reading its file yields if and only if `FileAgrees` holds of the merged records. -/
theorem inMemory_eq_file_iff {h : MonitorHandle} {loss : Option LauncherLoss}
    {depSet : Option DepSet} {m : MergeInput} {e : Evidence} {bytes : List UInt8} (path : NimStr)
    (hm : collectInput h loss depSet = .ok m) (hc : collectMonitorEvidence h loss depSet = .ok e)
    (hf : collectMonitorFile h loss depSet = .ok bytes)
    (hlen : (mergeFragments m).records.length < 2 ^ 64) :
    readMonitorDepFile defaultMonitorDepFileReaderOptions path (some bytes) = .ok e.depFile ↔
      FileAgrees h.interest h.evidenceScope (mergeFragments m).records := by
  obtain ⟨m', hm', hdep⟩ := collectMonitorEvidence_input hc
  obtain rfl : m' = m := Except.ok.inj (hm'.symm.trans hm)
  rw [collectMonitorFile, hm] at hf
  obtain rfl := Except.ok.inj hf
  rw [hdep]
  exact decode_hostFile_iff hlen h.interest h.evidenceScope

/-- A process starts and writes one file. -/
def shellStart : MonitorRecord where
  kind := mrProcessStart
  observationKind := moProcessStart
  seq := 1
  osPid := 7
  path := str "/bin/sh"

def outputWrite : MonitorRecord where
  kind := mrFileWrite
  observationKind := moFileWrite
  seq := 2
  osPid := 7
  path := str "/tmp/out"

/-- The capture of that process, under a request for these categories. -/
def writerHandle (interest : Finset EventCategory) : MonitorHandle where
  merge := frameCapture [shellStart, outputWrite]
  interest := interest

/-- What the host merges, returns and leaves behind when there is no live set. -/
theorem collect_without_set (h : MonitorHandle) :
    collectInput h none none = .ok (h.mergeInput []) ∧
      collectMonitorEvidence h none none =
        .ok ⟨hostFilter h.interest h.evidenceScope (mergeFragments (h.mergeInput [])), []⟩ ∧
      collectMonitorFile h none none =
        .ok (hostFile h.interest h.evidenceScope (h.mergeInput [])) := ⟨rfl, rfl, rfl⟩

/-- The records the host narrows for that capture. -/
def writerMerged (interest : Finset EventCategory) : List MonitorRecord :=
  (mergeFragments ((writerHandle interest).mergeInput [])).records

theorem writerMerged_length (interest : Finset EventCategory)
    (h : (writerMerged interest).length < 2 ^ 64) :
    (mergeFragments ((writerHandle interest).mergeInput [])).records.length < 2 ^ 64 := by
  rwa [writerMerged] at h

/-- The texts of the Linux gaps are short. -/
theorem linuxUnsupportedReason_length (c : MonitorCapability) :
    (linuxUnsupportedReason c).length ≤ 1000 := by
  unfold linuxUnsupportedReason
  split <;> rw [str_length] <;> decide +kernel

/-- Every gap record of the platform fits a frame. -/
theorem fitsWire_platformGap {gap : MonitorCapabilityGap} (h : gap ∈ platformProfile.gaps) :
    FitsWire (capabilityGapRecord gap) := by
  obtain ⟨c, -, rfl⟩ := List.mem_map.mp h
  have hreason := linuxUnsupportedReason_length c
  have hid : (capabilityId c).length ≤ 100 := by
    unfold capabilityId
    split <;> rw [str_length] <;> decide +kernel
  have hbool (b : Bool) : (boolText b).length ≤ 5 := by cases b <;> decide
  have hkeys : (str "backend=").length + (backendFamilyId .mbfLinuxPreloadHooks).length +
      (str ";capability=").length + (str ";required=").length + (str ";input=").length +
      (str ";reason=").length ≤ 100 := by decide +kernel
  have hrequired := hbool (decide (c ∈ LinuxPreloadSupportedCapabilities ∧
    c ∉ LinuxPreloadSupportedCapabilities))
  have hinput := hbool (decide (c ∈ InputChannelCapabilities))
  simp only [FitsWire, capabilityGapRecord, gapDetail, List.length_append, RecordFixedHeaderLen]
  omega

/-- A request for the process tree alone. -/
def treeOnly : Finset EventCategory := {.ecProcessTree}

/-- Nothing of that capture is too long for a frame. -/
theorem writerMerged_fits : ∀ r ∈ writerMerged treeOnly, FitsWire r := by
  let m := (writerHandle treeOnly).mergeInput []
  have hcaptured : ∀ r ∈ inferenceRecords m ++ subtreeLossRecords m ++ contentLossRecords m,
      FitsWire (stampProfile m r) := by decide +kernel
  rw [writerMerged, mergeFragments_records]
  refine forall_fitsWire_canonicalize.mpr fun r hr => ?_
  obtain ⟨r₀, hr₀, rfl⟩ := List.mem_map.mp hr
  rcases List.mem_append.mp hr₀ with hr₀ | hr₀
  · exact hcaptured r₀ hr₀
  · rcases List.mem_cons.mp hr₀ with rfl | hr₀
    · decide +kernel
    · obtain ⟨gap, hgap, rfl⟩ := List.mem_map.mp hr₀
      rw [stampProfile_of_ne (by simp [capabilityGapRecord])]
      exact fitsWire_platformGap hgap

/-- What is dropped, the write, lies behind all that is kept. -/
theorem writerMerged_agrees : FileAgrees treeOnly .esFull (writerMerged treeOnly) where
  fits := fun r hr => writerMerged_fits r (mem_of_mem_hostKept hr)
  count := by decide +kernel
  inFront := filter_front (by decide +kernel)
  verdict := by
    have hloss : ∀ r ∈ writerMerged treeOnly, isLoss r = false := by decide +kernel
    exact fun _ _ => hloss

/-- A request that drops the last record alone: the file reads back as what was returned. -/
theorem inMemory_eq_file_iff_treeOnly :
    ∃ e bytes, collectMonitorEvidence (writerHandle treeOnly) none none = .ok e ∧
      collectMonitorFile (writerHandle treeOnly) none none = .ok bytes ∧
      e.depFile.records.length < (writerMerged treeOnly).length ∧
      readMonitorDepFile defaultMonitorDepFileReaderOptions (str "out.iomon") (some bytes) =
        .ok e.depFile := by
  obtain ⟨hm, hc, hf⟩ := collect_without_set (writerHandle treeOnly)
  have hlen := writerMerged_length treeOnly (by decide +kernel)
  exact ⟨_, _, hc, hf, by decide +kernel,
    (inMemory_eq_file_iff (str "out.iomon") hm hc hf hlen).mpr writerMerged_agrees⟩

/-- Something dropped in front of something kept, and the file differs from what was returned. -/
theorem file_differs_without_set (h : MonitorHandle) (path : NimStr)
    (hlen : (mergeFragments (h.mergeInput [])).records.length < 2 ^ 64)
    (hfront : ¬ hostKept h.interest h.evidenceScope (mergeFragments (h.mergeInput [])).records <+:
      (mergeFragments (h.mergeInput [])).records) :
    ∃ e bytes, collectMonitorEvidence h none none = .ok e ∧
      collectMonitorFile h none none = .ok bytes ∧
      readMonitorDepFile defaultMonitorDepFileReaderOptions path (some bytes) ≠ .ok e.depFile := by
  obtain ⟨_, hc, hf⟩ := collect_without_set h
  refine ⟨_, _, hc, hf, fun hread => hfront ?_⟩
  exact ((decode_hostFile_iff hlen h.interest h.evidenceScope).mp hread).inFront

/-- A request for file writes alone. -/
def writesOnly : Finset EventCategory := {.ecFileWrites}

/-- **It drops the process start** in front of the write: the returned write keeps its number, the
written one gets a lower one. -/
theorem writes_only_file_differs :
    ∃ e bytes, collectMonitorEvidence (writerHandle writesOnly) none none = .ok e ∧
      collectMonitorFile (writerHandle writesOnly) none none = .ok bytes ∧
      readMonitorDepFile defaultMonitorDepFileReaderOptions (str "out.iomon") (some bytes) ≠
        .ok e.depFile := by
  have hnumbers : ¬ (hostKept (writerHandle writesOnly).interest
        (writerHandle writesOnly).evidenceScope (writerMerged writesOnly)).map (·.seq) <+:
      (writerMerged writesOnly).map (·.seq) := by decide +kernel
  refine file_differs_without_set (writerHandle writesOnly) (str "out.iomon")
    (writerMerged_length writesOnly (by decide +kernel)) ?_
  rw [← writerMerged]
  exact fun hpre => hnumbers (hpre.map _)

end IoMon
