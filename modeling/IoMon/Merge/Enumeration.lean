/-
# The order in which the fragments are read

`walkDir` returns the entries of the fragment directory in no particular order, and the merge
concatenates what it reads as it reads it.  The canonical sort at the end puts most of that right:
only records with the same canonical key stay in the order they came in.  What else comes in an
order are the texts of synthetic losses: the first spawn that names a child, the last image a pid
exec'd, the context of a thread's last pending marker.

This file takes the list the merge sorts apart into the pieces its passes add
(`mergedRecordsBy_eq`), says what the file shows of that list (`canonicalize_eq_iff`), and settles
the pieces a different enumeration does nothing to: the fragment losses, the stale-run losses and
the folded facts.

A Nim hash table is iterated in the order of its slots, which depends on the keys and on the order
they went in; the exec table is the one whose order can be seen, so its iteration order is a
parameter here.
-/
import IoMon.File.Canonical
import IoMon.Merge.LossTexts
import IoMon.Merge.ReadTail

namespace IoMon

open ByteText Keyed StableSort MonitorRecordKind MonitorObservationKind

/-! ## 1. The merge over a hash table -/

/-- How a hash table over pids is iterated, given the insertions that made it: every key once. -/
structure TableOrder where
  iterate : List UInt64 → List UInt64
  perm : ∀ inserted, (iterate inserted).Perm inserted.dedup

/-- A table that is iterated in the order of the last insertions, as `execPids` is. -/
def TableOrder.byLast : TableOrder := ⟨List.dedup, fun _ => List.Perm.refl _⟩

/-- The insertions into the exec table. -/
def execInserts (records : List MonitorRecord) : List UInt64 :=
  (records.filter fun r => r.kind == mrProcessExec && !execFailed r).map (·.osPid)

section Merge

variable (table : TableOrder)

def execLossesBy (records : List MonitorRecord) : List SubtreeLoss :=
  (table.iterate (execInserts records)).filterMap (execLoss records)

def subtreeLossDetailsBy (records : List MonitorRecord) (trustedPeerPids : List UInt64) :
    List NimStr :=
  (spawnLosses records ++ execLossesBy table records ++
    (ipcLosses records trustedPeerPids).map (·.2)).map SubtreeLoss.detail

def subtreeLossRecordsBy (m : MergeInput) : List MonitorRecord :=
  (subtreeLossDetailsBy table (inferenceRecords m) (breakawayFold m).trustedPeerPids).map
    fun loss => lossRecord (subtreeLossIntro ++ loss)

def contentLossRecordsBy (m : MergeInput) : List MonitorRecord :=
  List.replicate (externalContentLossCount (inferenceRecords m ++ subtreeLossRecordsBy table m)
    (breakawayFold m).trustedPeerPids) (lossRecord contentLossDetail)

def mergedRecordsBy (m : MergeInput) : List MonitorRecord :=
  (inferenceRecords m ++ subtreeLossRecordsBy table m ++ contentLossRecordsBy table m ++
    profileRecords platformProfile).map (stampProfile m)

/-- What a merge leaves behind: the depfile it returns and the file it writes. -/
def mergeOutput (m : MergeInput) : MonitorDepFile × List UInt8 :=
  (depFileFromOwnedRecords (canonicalize (mergedRecordsBy table m)),
    writeCanonicalInPlace (mergedRecordsBy table m))

end Merge

theorem mergeOutput_byLast (m : MergeInput) :
    mergeOutput .byLast m = (mergeFragments m, writeCanonicalInPlace (mergedRecords m)) := by
  have hexec : ∀ records, execLossesBy .byLast records = execLosses records := fun _ => rfl
  have hsubtree : subtreeLossRecordsBy .byLast m = subtreeLossRecords m := by
    rw [subtreeLossRecordsBy, subtreeLossRecords, subtreeLossDetailsBy, hexec,
      unmonitoredSubtreeLossDetails, unmonitoredSubtreeLosses]
  have hmerged : mergedRecordsBy .byLast m = mergedRecords m := by
    rw [mergedRecordsBy, mergedRecords, contentLossRecordsBy, contentLossRecords, hsubtree]
  rw [mergeOutput, mergeFragments, hmerged]

/-- The same merge over another enumeration of the directory. -/
def enumerated (m : MergeInput) (entries : List FragmentEntry) : MergeInput :=
  { m with entries := entries }

/-! ## 2. The pieces of the merged list -/

/-- Neither folded nor netted away. -/
def isPlain (r : MonitorRecord) : Bool :=
  (depIdentityKeepsIncarnation r.kind || (foldKey r).isNone) && !isReadTailMarker r

/-- The captured records that go into the file as they are. -/
def plainRecords (m : MergeInput) : List MonitorRecord := (keptRecords m).filter isPlain

/-- The folded facts, in key order. -/
def factRecords (m : MergeInput) : List MonitorRecord :=
  ((firstSeen (dropStaleRunRecords (capturedRecords m) m.runScope)).insertionSort fun p q =>
    leStr p.1 q.1 = true).map foldedRecord

/-- The losses of the read-tail net. -/
def readTailLosses (m : MergeInput) : List MonitorRecord :=
  (pendingKeys (keptRecords m)).flatMap fun key =>
    List.replicate (pendingCount (keptRecords m) key - committedCount (keptRecords m) key)
      (readTailLoss (keptRecords m) key)

theorem isPlain_of_loss {r : MonitorRecord} (hk : r.kind = mrEventLoss)
    (hm : isReadTailMarker r = false) : isPlain r = true := by
  rw [isPlain, hk, hm]
  rfl

theorem readTailLosses_scoped (m : MergeInput) :
    ((pendingKeys (scopedRecords m ++ fragmentLosses m)).flatMap fun key =>
      List.replicate (pendingCount (scopedRecords m ++ fragmentLosses m) key -
          committedCount (scopedRecords m ++ fragmentLosses m) key)
        (readTailLoss (scopedRecords m ++ fragmentLosses m) key)) = readTailLosses m := by
  have hpending : ∀ r, isPendingMarker r = true → isReadTailMarker r = true := by
    intro r hr
    rw [isReadTailMarker, hr, Bool.true_or]
  have hkeys : pendingKeys (scopedRecords m ++ fragmentLosses m) = pendingKeys (keptRecords m) := by
    rw [pendingKeys, pendingKeys, filter_marker hpending]
  have hloss : ∀ key, readTailLoss (scopedRecords m ++ fragmentLosses m) key =
      readTailLoss (keptRecords m) key := by
    intro key
    have hctx : lastPendingCtx (scopedRecords m ++ fragmentLosses m) key =
        lastPendingCtx (keptRecords m) key := by
      rw [lastPendingCtx, lastPendingCtx, filter_marker]
      intro r hr
      rw [Bool.and_eq_true] at hr
      exact hpending r hr.1
    rw [readTailLoss, readTailLoss, hctx]
  simp only [hkeys, hloss, pendingCount_scoped, committedCount_scoped, readTailLosses]

/-- **The netted list, piece by piece.** -/
theorem nettedRecords_eq (m : MergeInput) :
    nettedRecords m = plainRecords m ++ (staleLosses (capturedRecords m) m.runScope ++
      (factRecords m ++ (fragmentLosses m ++ readTailLosses m))) := by
  have hstale : (staleLosses (capturedRecords m) m.runScope).filter isPlain =
      staleLosses (capturedRecords m) m.runScope :=
    List.filter_eq_self.mpr fun r hr =>
      isPlain_of_loss (staleLosses_kind hr).1 (staleLosses_not_marker hr)
  have hfacts : (factRecords m).filter (fun r => !isReadTailMarker r) = factRecords m := by
    refine List.filter_eq_self.mpr fun r hr => ?_
    obtain ⟨p, hp, rfl⟩ := List.mem_map.mp hr
    have hp := (List.mem_insertionSort _).mp hp
    have hkind : (foldedRecord p).kind = p.2.kind := by
      rw [foldedRecord_eq hp, identityRecord_kind]
    have hno : isReadTailMarker (foldedRecord p) = false := by
      cases hm : isReadTailMarker (foldedRecord p) with
      | false => rfl
      | true =>
        have := (mem_firstSeen hp).2.1
        rw [← hkind, kind_of_isReadTailMarker hm] at this
        exact absurd this (by decide)
    rw [hno]
    rfl
  have hfrag : (fragmentLosses m).filter (fun r => !isReadTailMarker r) = fragmentLosses m := by
    refine List.filter_eq_self.mpr fun r hr => ?_
    rw [(mem_fragmentLosses hr).2.1]
    rfl
  have hplain : ((dropStaleRunRecords (capturedRecords m) m.runScope).filter fun r =>
      depIdentityKeepsIncarnation r.kind || (foldKey r).isNone).filter
        (fun r => !isReadTailMarker r) =
      plainRecords m ++ staleLosses (capturedRecords m) m.runScope := by
    rw [List.filter_filter, dropStaleRunRecords, List.filter_append, plainRecords, keptRecords]
    have hfun : (fun r => !isReadTailMarker r && (depIdentityKeepsIncarnation r.kind ||
        (foldKey r).isNone)) = isPlain := by
      funext r
      rw [isPlain, Bool.and_comm]
    rw [hfun, hstale]
  rw [nettedRecords, netReadTail, readTailLosses_scoped, List.filter_append, hfrag, scopedRecords,
    foldObservationIdentity, List.filter_append, hplain, ← factRecords, hfacts]
  simp only [List.append_assoc]

section Pieces

variable (table : TableOrder) (m : MergeInput)

/-- What the passes add to the plain records: losses, folded facts, spawns, reads, profiles.  None
of it has a sequence number. -/
def addedRecords : List MonitorRecord :=
  staleLosses (capturedRecords m) m.runScope ++ (factRecords m ++ (fragmentLosses m ++
    (readTailLosses m ++ (List.replicate (killedReaders m) (lossRecord killBeforeFlushDetail) ++
      (rootSpawn m ++ ((breakawayFold m).reads ++ (subtreeLossRecordsBy table m ++
        (contentLossRecordsBy table m ++ profileRecords platformProfile))))))))

theorem mergedRecordsBy_eq :
    mergedRecordsBy table m = (plainRecords m ++ addedRecords table m).map (stampProfile m) := by
  rw [mergedRecordsBy, inferenceRecords, treeRecords, nettedRecords_eq, addedRecords]
  simp only [List.append_assoc]

theorem identityRecord_seq (r : MonitorRecord) : (identityRecord r).seq = 0 := by
  unfold identityRecord scopedRecord
  simp only [if_true]
  split <;> rfl

theorem addedRecords_seq {r : MonitorRecord} (h : r ∈ addedRecords table m) : r.seq = 0 := by
  simp only [addedRecords, List.mem_append] at h
  rcases h with h | h | h | h | h | h | h | h | h | h
  · rcases List.mem_append.mp h with h | h <;> obtain ⟨pid, _, rfl⟩ := List.mem_map.mp h <;> rfl
  · obtain ⟨p, hp, rfl⟩ := List.mem_map.mp h
    rw [foldedRecord_eq ((List.mem_insertionSort _).mp hp), identityRecord_seq]
  · rcases List.mem_append.mp h with h | h <;> rw [(List.mem_replicate.mp h).2] <;> rfl
  · obtain ⟨key, _, h⟩ := List.mem_flatMap.mp h
    rw [(List.mem_replicate.mp h).2]
    rfl
  · rw [(List.mem_replicate.mp h).2]
    rfl
  · unfold rootSpawn at h
    split at h
    · rw [List.mem_singleton.mp h]
    · exact absurd h List.not_mem_nil
  · obtain ⟨rep, _, h⟩ := List.mem_flatMap.mp h
    obtain ⟨p, _, rfl⟩ := List.mem_map.mp h
    rfl
  · obtain ⟨loss, _, rfl⟩ := List.mem_map.mp h
    rfl
  · rw [(List.mem_replicate.mp h).2]
    rfl
  · rcases List.mem_cons.mp h with rfl | h
    · rfl
    · obtain ⟨gap, _, rfl⟩ := List.mem_map.mp h
      rfl

end Pieces

/-! ## 3. What the file shows of the list -/

/-- Without its sequence number. -/
def withoutSeq (r : MonitorRecord) : MonitorRecord := { r with seq := 0 }

theorem renumber_withoutSeq (rs : List MonitorRecord) :
    (renumber rs).map withoutSeq = rs.map withoutSeq := by
  refine List.ext_getElem (by simp) fun i hi hi' => ?_
  simp only [renumber, List.getElem_map, List.getElem_mapIdx, withoutSeq]

theorem eq_of_withoutSeq {a b : MonitorRecord} (h : withoutSeq a = withoutSeq b)
    (hkey : canonicalKey a = canonicalKey b) : a = b := by
  have hseq : a.seq = b.seq := by
    simp only [canonicalKey, EmbeddingLike.apply_eq_iff_eq, Prod.mk.injEq] at hkey
    exact UInt64.toNat_inj.mp hkey.2.2.1
  cases a
  cases b
  simp only [withoutSeq, MonitorRecord.mk.injEq] at h hseq ⊢
  tauto

/-- **The renumbering hides nothing.**  The canonical file replaces the sequence numbers, but where
the numbered records of two lists are the same up to order, equal files come from equal sorted
lists. -/
theorem canonicalize_eq_iff {c c' z z' : List MonitorRecord} (hc : c.Perm c')
    (hz : ∀ r ∈ z, r.seq = 0) (hz' : ∀ r ∈ z', r.seq = 0) :
    canonicalize (c ++ z) = canonicalize (c' ++ z') ↔
      ∀ k, ofKey canonicalKey k (c ++ z) = ofKey canonicalKey k (c' ++ z') := by
  rw [← sortBy_eq_iff, canonicalize_eq, canonicalize_eq]
  refine ⟨fun h => ?_, fun h => by rw [h]⟩
  have herase : (sortBy canonicalKey (c ++ z)).map withoutSeq =
      (sortBy canonicalKey (c' ++ z')).map withoutSeq := by
    rw [← renumber_withoutSeq, h, renumber_withoutSeq]
  have hself : ∀ l : List MonitorRecord, (∀ r ∈ l, r.seq = 0) → l.map withoutSeq = l := by
    intro l hl
    refine (List.map_congr_left fun r hr => ?_).trans (List.map_id l)
    rw [withoutSeq, ← hl r hr]
    rfl
  -- the unnumbered records are the same up to order, and so is everything
  have hadded : z.Perm z' := by
    have hall : ((c ++ z).map withoutSeq).Perm ((c' ++ z').map withoutSeq) := by
      have hsort : (sortBy canonicalKey (c ++ z)).Perm (c ++ z) := sortBy_perm _
      refine (hsort.map withoutSeq).symm.trans ?_
      rw [herase]
      exact (sortBy_perm (c' ++ z')).map withoutSeq
    rw [List.map_append, List.map_append, hself z hz, hself z' hz'] at hall
    exact (List.perm_append_left_iff _).mp
      (((hc.map withoutSeq).append_right z).symm.trans hall)
  have hperm : (sortBy canonicalKey (c ++ z)).Perm (sortBy canonicalKey (c' ++ z')) :=
    (sortBy_perm _).trans ((hc.append hadded).trans (sortBy_perm _).symm)
  -- sorted alike, they have the same keys in the same places
  have hkeys : (sortBy canonicalKey (c ++ z)).map canonicalKey =
      (sortBy canonicalKey (c' ++ z')).map canonicalKey := by
    have hsorted : ∀ l : List MonitorRecord,
        ((sortBy canonicalKey l).map canonicalKey).Pairwise (· ≤ ·) := by
      intro l
      rw [List.pairwise_map]
      exact sorted_sortBy l
    exact List.Perm.eq_of_pairwise (fun a b _ _ => le_antisymm) (hsorted _) (hsorted _)
      (hperm.map canonicalKey)
  refine List.ext_getElem hperm.length_eq fun i hi hi' => eq_of_withoutSeq ?_ ?_
  · have := List.getElem_of_eq herase (i := i) (by simpa using hi)
    simpa only [List.getElem_map] using this
  · have := List.getElem_of_eq hkeys (i := i) (by simpa using hi)
    simpa only [List.getElem_map] using this

theorem canonicalKey_stampProfile (m : MergeInput) (r : MonitorRecord) :
    canonicalKey (stampProfile m r) = canonicalKey r := by
  unfold stampProfile
  split <;> rfl

theorem seq_stampProfile (m : MergeInput) (r : MonitorRecord) : (stampProfile m r).seq = r.seq := by
  unfold stampProfile
  split <;> rfl

theorem stampProfile_injective (m : MergeInput) : Function.Injective (stampProfile m) := by
  intro a b h
  have hkind : ∀ r, (stampProfile m r).kind = r.kind := by
    intro r
    unfold stampProfile
    split <;> rfl
  have hk : a.kind = b.kind := by rw [← hkind a, h, hkind]
  unfold stampProfile at h
  rw [hk] at h
  split at h
  · cases a
    cases b
    simp only [MonitorRecord.mk.injEq, List.append_cancel_right_eq] at h ⊢
    tauto
  · exact h

/-! ## 4. Another enumeration of the same directory -/

section Enumerated

variable {m : MergeInput} {entries : List FragmentEntry} (h : entries.Perm m.entries)

include h

theorem fragments_enumerated : (enumerated m entries).fragments.Perm m.fragments := h.filter _

theorem capturedRecords_enumerated :
    (capturedRecords (enumerated m entries)).Perm (capturedRecords m) :=
  ((fragments_enumerated h).flatMap_right _).append_right _

theorem killedReaders_enumerated : killedReaders (enumerated m entries) = killedReaders m :=
  h.countP_eq _

theorem fragmentLosses_enumerated : fragmentLosses (enumerated m entries) = fragmentLosses m := by
  have hfrag := fragments_enumerated h
  rw [fragmentLosses, fragmentLosses, hfrag.countP_eq, hfrag.countP_eq]
  rfl

omit h in
/-- What the run scoping does with a record does not depend on the order of the others. -/
theorem staleAction_perm {rs rs' : List MonitorRecord} (hperm : rs.Perm rs') (run : NimStr)
    (r : MonitorRecord) : staleAction rs run r = staleAction rs' run r := by
  have hruns : (fragmentRunIds rs r.osPid).Perm (fragmentRunIds rs' r.osPid) :=
    (((hperm.filter _).map _).filter _).dedup
  have hnil : fragmentRunIds rs r.osPid = [] ↔ fragmentRunIds rs' r.osPid = [] := by
    rw [← List.length_eq_zero_iff, ← List.length_eq_zero_iff, hruns.length_eq]
  simp only [staleAction, ne_eq, hnil, hruns.mem_iff, hruns.length_eq]

/-- Kept by the run scoping of this directory. -/
def keepsRecord (m : MergeInput) (r : MonitorRecord) : Bool :=
  staleAction (capturedRecords m) m.runScope r == .keep

theorem keepsRecord_enumerated : keepsRecord (enumerated m entries) = keepsRecord m := by
  funext r
  rw [keepsRecord, keepsRecord, staleAction_perm (capturedRecords_enumerated h)]
  rfl

omit h in
theorem keptRecords_eq (m : MergeInput) :
    keptRecords m = m.fragments.flatMap (keptFrames m) ++ m.setRecords.filter (keepsRecord m) := by
  rw [keptRecords, staleKept, capturedRecords, List.filter_append, List.filter_flatMap]
  rfl

/-- **The kept records of an enumeration** are the same blocks in another order. -/
theorem keptRecords_enumerated :
    keptRecords (enumerated m entries) =
      (enumerated m entries).fragments.flatMap (keptFrames m) ++
        m.setRecords.filter (keepsRecord m) := by
  have hframes : keptFrames (enumerated m entries) = keptFrames m :=
    funext fun e => congrArg (e.records.filter ·) (keepsRecord_enumerated h)
  rw [keptRecords_eq, hframes, keepsRecord_enumerated h]
  rfl

theorem keptRecords_perm : (keptRecords (enumerated m entries)).Perm (keptRecords m) := by
  rw [keptRecords_enumerated h, keptRecords_eq]
  exact ((fragments_enumerated h).flatMap_right _).append_right _

theorem plainRecords_perm : (plainRecords (enumerated m entries)).Perm (plainRecords m) :=
  (keptRecords_perm h).filter _

end Enumerated

/-! ## 5. The pieces that do not depend on the order -/

/-- The canonical key of a synthetic loss of a thread. -/
def lossKey (key : ThreadKey) : CanonicalKey :=
  canonicalKey { lossRecord [] with osPid := key.1, threadId := key.2 }

theorem lossKey_injective : Function.Injective lossKey := by
  intro a b h
  simp only [lossKey, canonicalKey, EmbeddingLike.apply_eq_iff_eq, Prod.mk.injEq,
    UInt64.toNat_inj] at h
  exact Prod.ext h.1 h.2.1

theorem staleLossPids_perm {rs rs' : List MonitorRecord} (h : rs.Perm rs') (run : NimStr)
    (a : StaleAction) : (staleLossPids rs run a).Perm (staleLossPids rs' run a) := by
  have hact : (fun r => staleAction rs run r == a) = fun r => staleAction rs' run r == a := by
    funext r
    rw [staleAction_perm h]
  rw [staleLossPids, staleLossPids, hact]
  exact ((h.filter _).map _).dedup

/-- Losses that name their process, one for each: the file sorts them apart. -/
theorem ofKey_pidLosses (detail : NimStr) {pids pids' : List UInt64} (h : pids.Perm pids')
    (hnodup : pids.Nodup) (k : CanonicalKey) :
    ofKey canonicalKey k (pids.map fun pid => { lossRecord detail with osPid := pid }) =
      ofKey canonicalKey k (pids'.map fun pid => { lossRecord detail with osPid := pid }) := by
  have hc : Function.Injective fun pid : UInt64 => lossKey (pid, 0) := by
    intro a b hab
    exact (Prod.mk.inj (lossKey_injective hab)).1
  have hf : ∀ pid : UInt64, ∀ r ∈ [({ lossRecord detail with osPid := pid } : MonitorRecord)],
      canonicalKey r = lossKey (pid, 0) := by
    intro pid r hr
    rw [List.mem_singleton.mp hr]
    rfl
  rw [← List.flatMap_pure_eq_map, ← List.flatMap_pure_eq_map]
  exact (ofKey_families_iff hc hf hf h hnodup).mpr (fun _ _ => rfl) k

theorem ofKey_staleLosses_perm {rs rs' : List MonitorRecord} (h : rs.Perm rs') (run : NimStr)
    (k : CanonicalKey) :
    ofKey canonicalKey k (staleLosses rs run) = ofKey canonicalKey k (staleLosses rs' run) := by
  rw [staleLosses, staleLosses, ofKey_append, ofKey_append,
    ofKey_pidLosses _ (staleLossPids_perm h run _) (List.nodup_dedup _),
    ofKey_pidLosses _ (staleLossPids_perm h run _) (List.nodup_dedup _)]

theorem staleLosses_perm {rs rs' : List MonitorRecord} (h : rs.Perm rs') (run : NimStr) :
    (staleLosses rs run).Perm (staleLosses rs' run) :=
  ((staleLossPids_perm h run _).map _).append ((staleLossPids_perm h run _).map _)

theorem dropStaleRunRecords_perm {rs rs' : List MonitorRecord} (h : rs.Perm rs') (run : NimStr) :
    (dropStaleRunRecords rs run).Perm (dropStaleRunRecords rs' run) := by
  have hact : (fun r => staleAction rs run r == .keep) =
      fun r => staleAction rs' run r == .keep := by
    funext r
    rw [staleAction_perm h]
  rw [dropStaleRunRecords, dropStaleRunRecords, staleKept, staleKept, hact]
  exact (h.filter _).append (staleLosses_perm h run)

/-- Byte order, as the sort of the fold uses it, puts a set of keys in one order. -/
theorem insertionSort_leStr_perm {ks ks' : List NimStr} (h : ks.Perm ks') :
    (ks.insertionSort fun a b => leStr a b = true) =
      ks'.insertionSort fun a b => leStr a b = true := by
  have htotal : Std.Total fun a b : NimStr => leStr a b = true :=
    ⟨fun a b => by simpa only [leStr_iff] using le_total _ _⟩
  have htrans : IsTrans NimStr fun a b => leStr a b = true :=
    ⟨fun a b c hab hbc => (leStr_iff a c).mpr (((leStr_iff a b).mp hab).trans
      ((leStr_iff b c).mp hbc))⟩
  refine List.Perm.eq_of_pairwise (fun a b _ _ hab hba => ?_) (List.pairwise_insertionSort _ ks)
    (List.pairwise_insertionSort _ ks')
    ((List.perm_insertionSort _ ks).trans (h.trans (List.perm_insertionSort _ ks').symm))
  have hbytes := le_antisymm ((leStr_iff a b).mp hab) ((leStr_iff b a).mp hba)
  exact List.map_injective_iff.mpr (fun _ _ => UInt8.toNat_inj.mp) hbytes

/-- A folded record is read off its key. -/
theorem foldedRecords_eq (rs : List MonitorRecord) :
    ((firstSeen rs).insertionSort fun p q => leStr p.1 q.1 = true).map foldedRecord =
      (((firstSeen rs).map (·.1)).insertionSort fun a b => leStr a b = true).map
        fun key => foldedRecord (key, lossRecord []) := by
  rw [← List.map_insertionSort (fun p q : List UInt8 × MonitorRecord => leStr p.1 q.1 = true)
    (fun a b : NimStr => leStr a b = true) (fun p => p.1) (firstSeen rs)
    (fun _ _ _ _ => Iff.rfl), List.map_map]
  refine List.map_congr_left fun p hp => ?_
  have hp := (List.mem_insertionSort _).mp hp
  simp only [foldedRecord, Function.comp_apply, decode_foldKey (mem_firstSeen hp).2.2]

/-- **The folded facts are the same in every order.** -/
theorem foldedRecords_perm {rs rs' : List MonitorRecord} (h : rs.Perm rs') :
    ((firstSeen rs).insertionSort fun p q => leStr p.1 q.1 = true).map foldedRecord =
      ((firstSeen rs').insertionSort fun p q => leStr p.1 q.1 = true).map foldedRecord := by
  have hkeys : ((firstSeen rs).map (·.1)).Perm ((firstSeen rs').map (·.1)) := by
    refine (List.perm_ext_iff_of_nodup (Reorder.nodup_firstPerKey _)
      (Reorder.nodup_firstPerKey _)).mpr fun k => ?_
    rw [Reorder.mem_map_fst_firstPerKey, Reorder.mem_map_fst_firstPerKey]
    exact ((h.filterMap _).map _).mem_iff
  rw [foldedRecords_eq, foldedRecords_eq, insertionSort_leStr_perm hkeys]

theorem factRecords_enumerated {m : MergeInput} {entries : List FragmentEntry}
    (h : entries.Perm m.entries) : factRecords (enumerated m entries) = factRecords m :=
  foldedRecords_perm (dropStaleRunRecords_perm (capturedRecords_enumerated h) _)

end IoMon
