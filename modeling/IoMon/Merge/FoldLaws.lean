/-
# The laws of the identity fold

`foldObservationIdentity` writes each fact-scoped observation down once.  The kinds it folds are the
four whose element key carries no incarnation; their key is the identity form of the record and
nothing else, so the record that stands for a key can be read off the key.

  * `foldKey_fact` -- the key of every record whose buffer has a length;
  * `foldObservationIdentity_idem` -- folding twice is folding once;
  * `length_ofFoldKey` -- one record for each key of the input, none for any other;
  * `fold_loses_nothing` -- these, the order of everything that is not folded, the same
    observations for every order of the input, and the same verdict.
-/
import IoMon.File.RoundTrip
import IoMon.Merge.Enumeration

namespace IoMon

open ByteText ByteCodec Keyed MonitorRecordKind MonitorObservationKind MonitorCompleteness

/-! ## 1. The key of a fact -/

/-- The kinds the fold writes down once: the observation is the whole fact. -/
def isFact (r : MonitorRecord) : Bool := !depIdentityKeepsIncarnation r.kind

theorem isFact_iff {r : MonitorRecord} :
    isFact r = true ↔ depIdentityKeepsIncarnation r.kind = false := by
  rw [isFact, Bool.not_eq_true']

@[simp] theorem isFact_identityRecord (r : MonitorRecord) :
    isFact (identityRecord r) = isFact r := by
  rw [isFact, isFact, identityRecord_kind]

/-- The size of the buffer the fold makes for the record. -/
def foldBufferLen (r : MonitorRecord) : Nat :=
  RecordFixedHeaderLen + 20 + r.path.length + r.detail.length

theorem varint_length_le (v : Nat) : (varint v).length ≤ 10 := by
  have hgroups : ∀ n v, (putVarint n v).length ≤ n := by
    intro n
    induction n with
    | zero => exact fun v => Nat.le_refl 0
    | succ n ih =>
      intro v
      rw [putVarint]
      split
      · exact Nat.succ_le_succ (Nat.zero_le n)
      · exact Nat.succ_le_succ (ih (v / 128))
  exact hgroups 10 v

theorem depRecordBytes_length_le (r : MonitorRecord) :
    (depRecordBytes r).length ≤ foldBufferLen r := by
  have hpath := varint_length_le r.path.length
  have hdetail := varint_length_le r.detail.length
  simp only [depRecordBytes, foldBufferLen, List.length_append, storeRecordFixedHeader_length]
  omega

/-- **The key of a fact is its identity form**, and the buffer is always large enough for it. -/
theorem foldKey_fact {r : MonitorRecord} (h : isFact r = true) :
    foldKey r = if foldBufferLen r < 2 ^ 63 then some (depRecordBytes (identityRecord r))
      else none := by
  have hkeeps := isFact_iff.mp h
  have hfits : putBytes (foldBufferLen r) [] (depRecordBytes (identityRecord r)) =
      some (depRecordBytes (identityRecord r)) := by
    have hle := depRecordBytes_length_le (identityRecord r)
    rw [foldBufferLen, identityRecord_path, identityRecord_detail, ← foldBufferLen] at hle
    exact putBytes_eq_some.mpr ⟨rfl, hle⟩
  rw [foldKey, ← foldBufferLen, encodeDepSetElement, encodeDepRecordIdentity,
    encodeDepRecordWithSeq_eq, ← identityRecord, hfits, Option.bind_some, hkeeps,
    if_neg Bool.false_ne_true]

/-- The identity form of an identity form is itself. -/
theorem identityRecord_idem (r : MonitorRecord) :
    identityRecord (identityRecord r) = identityRecord r := by
  cases r with
  | mk kind => cases kind <;> simp [identityRecord, scopedRecord, depIdentityScope,
      identityNormalizedOutcome] <;> split <;> rfl

theorem foldKey_identityRecord {r : MonitorRecord} (h : isFact r = true) :
    foldKey (identityRecord r) = foldKey r := by
  rw [foldKey_fact h, foldKey_fact ((isFact_identityRecord r).trans h), identityRecord_idem,
    foldBufferLen, identityRecord_path, identityRecord_detail, ← foldBufferLen]

/-! ## 2. What is folded -/

/-- The keys of the facts with the record that was first seen for each, in byte order. -/
def sortedSeen (records : List MonitorRecord) : List (List UInt8 × MonitorRecord) :=
  (firstSeen records).insertionSort fun p q => leStr p.1 q.1 = true

/-- A fact that has a key. -/
def isFolded (r : MonitorRecord) : Bool := isFact r && (foldKey r).isSome

theorem foldObservationIdentity_eq (records : List MonitorRecord) :
    foldObservationIdentity records = records.filter (fun r => !isFolded r) ++
      (sortedSeen records).map foldedRecord := by
  have hkept : (fun r : MonitorRecord => depIdentityKeepsIncarnation r.kind ||
      (foldKey r).isNone) = fun r => !isFolded r := by
    funext r
    rw [isFolded, isFact, Bool.not_and, Bool.not_not, Option.not_isSome]
  rw [foldObservationIdentity, hkept, sortedSeen]

theorem pairwise_sortedSeen (records : List MonitorRecord) :
    (sortedSeen records).Pairwise fun p q => leStr p.1 q.1 = true := by
  have htotal : Std.Total fun p q : List UInt8 × MonitorRecord => leStr p.1 q.1 = true :=
    ⟨fun p q => by simpa only [leStr_iff] using le_total _ _⟩
  have htrans : IsTrans (List UInt8 × MonitorRecord) fun p q => leStr p.1 q.1 = true :=
    ⟨fun p q r hpq hqr => (leStr_iff p.1 r.1).mpr (((leStr_iff p.1 q.1).mp hpq).trans
      ((leStr_iff q.1 r.1).mp hqr))⟩
  exact List.pairwise_insertionSort _ _

theorem nodup_sortedSeen (records : List MonitorRecord) :
    ((sortedSeen records).map (·.1)).Nodup :=
  (((List.perm_insertionSort _ _).map _).nodup_iff).mpr (Reorder.nodup_firstPerKey _)

section Seen

variable {records : List MonitorRecord} {p : List UInt8 × MonitorRecord}

theorem mem_sortedSeen (h : p ∈ sortedSeen records) : p ∈ firstSeen records :=
  (List.mem_insertionSort _).mp h

/-- The record that stands for a key is a fact and has that key. -/
theorem keyedFact_foldedRecord (h : p ∈ sortedSeen records) :
    keyedFact (foldedRecord p) = some (p.1, foldedRecord p) := by
  obtain ⟨-, hkeeps, hkey⟩ := mem_firstSeen (mem_sortedSeen h)
  have hfact : isFact p.2 = true := isFact_iff.mpr hkeeps
  rw [foldedRecord_eq (mem_sortedSeen h)]
  refine keyedFact_eq_some.mpr ⟨?_, ?_, rfl⟩
  · rw [identityRecord_kind, hkeeps]
  · rw [foldKey_identityRecord hfact, hkey]

theorem foldKey_foldedRecord (h : p ∈ sortedSeen records) :
    isFact (foldedRecord p) = true ∧ foldKey (foldedRecord p) = some p.1 := by
  obtain ⟨hkeeps, hkey, -⟩ := keyedFact_eq_some.mp (keyedFact_foldedRecord h)
  exact ⟨isFact_iff.mpr hkeeps, hkey⟩

theorem isFolded_foldedRecord (h : p ∈ sortedSeen records) : isFolded (foldedRecord p) = true := by
  obtain ⟨hfact, hkey⟩ := foldKey_foldedRecord h
  rw [isFolded, hfact, hkey]
  rfl

end Seen

theorem filter_folded_eq_nil (records : List MonitorRecord) :
    ((sortedSeen records).map foldedRecord).filter (fun r => !isFolded r) = [] := by
  rw [List.filter_eq_nil_iff]
  intro r hr
  obtain ⟨p, hp, rfl⟩ := List.mem_map.mp hr
  rw [isFolded_foldedRecord hp]
  simp

theorem keyedFact_of_not_folded {r : MonitorRecord} (h : isFolded r = false) :
    keyedFact r = none := by
  rw [isFolded, Bool.and_eq_false_iff] at h
  rw [keyedFact]
  rcases h with h | h
  · rw [isFact, Bool.not_eq_false'] at h
    rw [if_pos h]
  · rw [Option.isSome_eq_false_iff, Option.isNone_iff_eq_none] at h
    rw [h, Option.map_none, ite_self]

/-- Reading the keys off the folded records gives them back in order. -/
theorem filterMap_foldedRecord (records : List MonitorRecord) :
    ((sortedSeen records).map foldedRecord).filterMap keyedFact =
      (sortedSeen records).map fun p => (p.1, foldedRecord p) := by
  rw [List.filterMap_map, ← List.filterMap_eq_map]
  exact List.filterMap_congr fun p hp => keyedFact_foldedRecord hp

/-! ## 3. Folding twice -/

/-- **Folding twice is folding once.** -/
theorem foldObservationIdentity_idem (records : List MonitorRecord) :
    foldObservationIdentity (foldObservationIdentity records) =
      foldObservationIdentity records := by
  have hkept := filter_folded_eq_nil records
  have hunkeyed : (records.filter fun r => !isFolded r).filterMap keyedFact = [] := by
    rw [List.filterMap_eq_nil_iff]
    intro r hr
    exact keyedFact_of_not_folded (by simpa using (List.mem_filter.mp hr).2)
  have hnodup : (((sortedSeen records).map fun p => (p.1, foldedRecord p)).map (·.1)).Nodup := by
    rw [List.map_map]
    exact nodup_sortedSeen records
  have hseen : firstSeen (foldObservationIdentity records) =
      (sortedSeen records).map fun p => (p.1, foldedRecord p) := by
    rw [firstSeen, foldObservationIdentity_eq, List.filterMap_append, hunkeyed, List.nil_append,
      filterMap_foldedRecord, Reorder.firstPerKey_of_nodup hnodup]
  -- the keys come out sorted, so sorting them again changes nothing
  have hsorted : sortedSeen (foldObservationIdentity records) =
      (sortedSeen records).map fun p => (p.1, foldedRecord p) := by
    rw [sortedSeen, hseen, ← List.map_insertionSort (fun p q => leStr p.1 q.1 = true)
      (fun p q => leStr p.1 q.1 = true) (fun p => (p.1, foldedRecord p)) (sortedSeen records)
      (fun _ _ _ _ => Iff.rfl), (pairwise_sortedSeen records).insertionSort_eq]
  have hsame : ((sortedSeen records).map fun p => (p.1, foldedRecord p)).map foldedRecord =
      (sortedSeen records).map foldedRecord := by
    rw [List.map_map]
    refine List.map_congr_left fun p hp => ?_
    rw [Function.comp_apply, foldedRecord, foldedRecord]
    rw [decode_foldKey (mem_firstSeen (mem_sortedSeen hp)).2.2]
  have honce := foldObservationIdentity_eq records
  calc foldObservationIdentity (foldObservationIdentity records)
      = (foldObservationIdentity records).filter (fun r => !isFolded r) ++
          (sortedSeen (foldObservationIdentity records)).map foldedRecord :=
        foldObservationIdentity_eq _
    _ = records.filter (fun r => !isFolded r) ++ (sortedSeen records).map foldedRecord := by
        rw [hsorted, hsame, honce, List.filter_append, hkept, List.append_nil, List.filter_filter]
        simp only [Bool.and_self]
    _ = foldObservationIdentity records := honce.symm

/-! ## 4. One record for each key -/

/-- The facts with this key. -/
def ofFoldKey (key : List UInt8) (records : List MonitorRecord) : List MonitorRecord :=
  records.filter fun r => isFact r && foldKey r == some key

theorem mem_ofFoldKey {key : List UInt8} {records : List MonitorRecord} {r : MonitorRecord} :
    r ∈ ofFoldKey key records ↔ r ∈ records ∧ isFact r = true ∧ foldKey r = some key := by
  simp only [ofFoldKey, List.mem_filter, Bool.and_eq_true, beq_iff_eq]

theorem mem_keys_sortedSeen {key : List UInt8} {records : List MonitorRecord} :
    key ∈ (sortedSeen records).map (·.1) ↔ ofFoldKey key records ≠ [] := by
  constructor
  · intro h
    obtain ⟨p, hp, rfl⟩ := List.mem_map.mp h
    obtain ⟨hmem, hkeeps, hkey⟩ := mem_firstSeen (mem_sortedSeen hp)
    exact List.ne_nil_of_mem (mem_ofFoldKey.mpr ⟨hmem, isFact_iff.mpr hkeeps, hkey⟩)
  · intro h
    obtain ⟨r, hr⟩ := List.exists_mem_of_ne_nil _ h
    obtain ⟨hmem, hfact, hkey⟩ := mem_ofFoldKey.mp hr
    obtain ⟨p, hp, rfl⟩ := firstSeen_covers hmem (isFact_iff.mp hfact) hkey
    exact List.mem_map_of_mem ((List.mem_insertionSort _).mpr hp)

/-- **One record for each key of the input, none for any other.** -/
theorem length_ofFoldKey (key : List UInt8) (records : List MonitorRecord) :
    (ofFoldKey key (foldObservationIdentity records)).length =
      if ofFoldKey key records ≠ [] then 1 else 0 := by
  have hkept : ofFoldKey key (records.filter fun r => !isFolded r) = [] := by
    rw [ofFoldKey, List.filter_filter, List.filter_eq_nil_iff]
    intro r _ h
    simp only [isFolded, Bool.and_eq_true, beq_iff_eq, Bool.not_eq_true'] at h
    rw [h.1.1, h.1.2] at h
    exact absurd h.2 (by simp)
  have hkeys : ∀ l : List (List UInt8 × MonitorRecord), (∀ p ∈ l, p ∈ sortedSeen records) →
      (ofFoldKey key (l.map foldedRecord)).length = (l.map (·.1)).count key := by
    intro l
    induction l with
    | nil => exact fun _ => rfl
    | cons p l ih =>
      intro hl
      have ih := ih fun q hq => hl q (List.mem_cons_of_mem _ hq)
      obtain ⟨hfact, hkey⟩ := foldKey_foldedRecord (hl p (List.mem_cons_self ..))
      rw [ofFoldKey] at ih ⊢
      rw [List.map_cons, List.map_cons, List.filter_cons, hfact, hkey, List.count_cons,
        Bool.true_and]
      by_cases heq : p.1 = key
      · rw [heq, beq_self_eq_true, beq_self_eq_true, if_pos rfl, if_pos rfl, List.length_cons, ih]
      · have hne : (p.1 == key) = false := beq_eq_false_iff_ne.mpr heq
        rw [Option.some_beq_some, hne, if_neg Bool.false_ne_true, if_neg Bool.false_ne_true, ih]
        rfl
  rw [foldObservationIdentity_eq, ofFoldKey, List.filter_append, ← ofFoldKey, ← ofFoldKey, hkept,
    List.nil_append, hkeys _ fun p hp => hp]
  split
  · rename_i hsome
    exact List.count_eq_one_of_mem (nodup_sortedSeen records) (mem_keys_sortedSeen.mpr hsome)
  · rename_i hnone
    exact List.count_eq_zero.mpr fun h => hnone (mem_keys_sortedSeen.mp h)

/-! ## 5. The laws together -/

/-- The observations are the same for every order of the input. -/
theorem mem_fold_perm {rs rs' : List MonitorRecord} (h : rs.Perm rs') (r : MonitorRecord) :
    r ∈ foldObservationIdentity rs ↔ r ∈ foldObservationIdentity rs' := by
  have hfolded := foldedRecords_perm h
  rw [← sortedSeen, ← sortedSeen] at hfolded
  rw [foldObservationIdentity_eq, foldObservationIdentity_eq, hfolded, List.mem_append,
    List.mem_append, (h.filter _).mem_iff]

/-- The fold touches nothing the verdict reads. -/
theorem completeness_fold (records : List MonitorRecord) :
    (depFileFromRecords (foldObservationIdentity records)).completeness =
      (depFileFromRecords records).completeness := by
  have hprofiles : profileDetails (foldObservationIdentity records) = profileDetails records := by
    have hsame := filter_foldObservationIdentity (p := fun r => r.kind == mrBackendProfile)
      (fun r h => by rw [beq_iff_eq] at h; rw [h]; rfl) records
    have hfilter : ∀ rs : List MonitorRecord, profileDetails rs =
        (rs.filter fun r => r.kind == mrBackendProfile).map (·.detail) := by
      intro rs
      rw [profileDetails, ← List.filterMap_eq_map, List.filterMap_filter]
      rfl
    rw [hfilter, hfilter, hsame]
  have hloss : (∀ r ∈ foldObservationIdentity records, isLoss r = false) ↔
      ∀ r ∈ records, isLoss r = false := by
    refine forall_foldObservationIdentity (fun r r' hsame => ?_) records
    rw [isLoss, isLoss, hsame.1, hsame.2.1]
  have hiff : (depFileFromRecords (foldObservationIdentity records)).completeness = mcComplete ↔
      (depFileFromRecords records).completeness = mcComplete := by
    rw [depFileFromRecords, depFileFromRecords, complete_iff, complete_iff,
      profileComplete_congr hprofiles, hloss]
  generalize (depFileFromRecords (foldObservationIdentity records)).completeness = c at hiff ⊢
  generalize (depFileFromRecords records).completeness = c' at hiff ⊢
  cases c <;> cases c' <;> simp_all

/-- **Folding loses nothing.**  It is idempotent; what is not folded, every record of another kind
included, comes out unchanged and in its order; each key of the observations stands for one record
and no other key appears, where every observation whose buffer has a length has a key; the
observations do not depend on the order of the input; and the verdict is the same. -/
theorem fold_loses_nothing (rs : List MonitorRecord) :
    foldObservationIdentity (foldObservationIdentity rs) = foldObservationIdentity rs ∧
    (foldObservationIdentity rs).filter (fun r => !isFact r) = rs.filter (fun r => !isFact r) ∧
    (foldObservationIdentity rs).filter (fun r => !isFolded r) =
      rs.filter (fun r => !isFolded r) ∧
    (∀ key, (ofFoldKey key (foldObservationIdentity rs)).length =
      if ofFoldKey key rs ≠ [] then 1 else 0) ∧
    (∀ r, isFact r = true → foldBufferLen r < 2 ^ 63 →
      foldKey r = some (depRecordBytes (identityRecord r))) ∧
    (∀ rs', rs.Perm rs' → ∀ r, isFact r = true →
      (r ∈ foldObservationIdentity rs ↔ r ∈ foldObservationIdentity rs')) ∧
    (depFileFromRecords (foldObservationIdentity rs)).completeness =
      (depFileFromRecords rs).completeness := by
  refine ⟨foldObservationIdentity_idem rs, ?_, ?_, fun key => length_ofFoldKey key rs, ?_,
    fun rs' h r _ => mem_fold_perm h r, completeness_fold rs⟩
  · refine filter_foldObservationIdentity (fun r h => ?_) rs
    rwa [isFact, Bool.not_not] at h
  · have hfolded : ((sortedSeen rs).map foldedRecord).filter (fun r => !isFolded r) = [] :=
      filter_folded_eq_nil rs
    rw [foldObservationIdentity_eq, List.filter_append, hfolded, List.append_nil,
      List.filter_filter]
    simp only [Bool.and_self]
  · intro r hfact hlen
    rw [foldKey_fact hfact, if_pos hlen]

end IoMon
