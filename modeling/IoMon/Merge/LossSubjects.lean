/-
# What a loss is about does not depend on the order

The texts of the synthetic losses may come from whichever record was met first, so they depend on
the order of the records; `OrderedPieces` says exactly how.  What does not is how many losses there
are and what each is about: the signal, and the child, the process or the peer it names.  Every
table the two passes fill is a set or a counter, and where one subject is reported once the key it
is remembered under determines it.

  * `peerKey_determines_peer` -- the one key that is a text: two connects with one key have one
    peer, whatever their start times and endpoints are made of;
  * `lossInference_perm` -- both passes, for every order of the records, every list of the same
    trusted peers and every iteration order of the exec table.
-/
import IoMon.Merge.Enumeration

namespace IoMon

open ByteText Keyed MonitorRecordKind

/-! ## 1. Subjects -/

/-- The three signals of the subtree pass. -/
inductive LossSignal
  | spawnChild | execImage | ipcPeer
  deriving DecidableEq, Repr

/-- The signal, and the child, the process or the peer. -/
def SubtreeLoss.subject : SubtreeLoss → LossSignal × UInt64
  | .spawnChild _ child _ _ => (.spawnChild, child)
  | .execImage pid _ _ _ => (.execImage, pid)
  | .ipcPeer _ peer _ _ _ => (.ipcPeer, peer)

/-- The losses of the subtree pass when the exec table is iterated in this order. -/
def subtreeLossesBy (table : TableOrder) (records : List MonitorRecord)
    (trustedPeerPids : List UInt64) : List SubtreeLoss :=
  spawnLosses records ++ execLossesBy table records ++
    (ipcLosses records trustedPeerPids).map (·.2)

theorem subtreeLossDetailsBy_eq_map (table : TableOrder) (records : List MonitorRecord)
    (trustedPeerPids : List UInt64) : subtreeLossDetailsBy table records trustedPeerPids =
      (subtreeLossesBy table records trustedPeerPids).map SubtreeLoss.detail := rfl

/-! ## 2. Keys determine subjects -/

/-- **A peer key has one peer**: the pid stands in front of the first `@`. -/
theorem peerKey_determines_peer {r s : MonitorRecord} (h : peerKey r = peerKey s) :
    r.childOsPid = s.childOsPid := by
  have hnoAt : ∀ n : UInt64, (64 : UInt8) ∉ decimal n := decimal_not_mem (by decide)
  have hpid : str "pid:" = 112 :: str "id:" := by decide
  have hdest : str "dest:" = 100 :: str "est:" := by decide
  have hat : str "@" = [64] := by decide
  unfold peerKey at h
  by_cases hr : r.childOsPid ≠ 0
  · by_cases hs : s.childOsPid ≠ 0
    · rw [if_pos hr, if_pos hs, hat] at h
      simp only [List.append_assoc, List.append_cancel_left_eq, List.singleton_append] at h
      have hsplit := congrArg (splitFirst 64) h
      rw [List.cons_append, List.cons_append, splitFirst_append 64 _ _ (hnoAt _),
        splitFirst_append 64 _ _ (hnoAt _)] at hsplit
      exact decimal_injective (Prod.mk.inj (Option.some.inj hsplit)).1
    · rw [if_pos hr, if_neg hs, hpid, hdest] at h
      exact absurd h (by simp)
  · by_cases hs : s.childOsPid ≠ 0
    · rw [if_neg hr, if_pos hs, hpid, hdest] at h
      exact absurd h (by simp)
    · rw [not_not] at hr hs
      rw [hr, hs]

section Losses

variable {rs rs' : List MonitorRecord} (h : rs.Perm rs')

include h

theorem spawnSubjects_perm :
    ((spawnLosses rs).map SubtreeLoss.subject).Perm
      ((spawnLosses rs').map SubtreeLoss.subject) := by
  rw [spawnLosses, spawnLosses, ← spawnLoss_perm h, List.map_map, List.map_map]
  refine Reorder.map_firstPerKey_perm (f := SubtreeLoss.subject) (h.filterMap _) ?_
  intro p hp q hq hkey
  obtain ⟨r, -, hr⟩ := List.mem_filterMap.mp hp
  obtain ⟨s, -, hs⟩ := List.mem_filterMap.mp hq
  obtain ⟨start, -, rfl⟩ := spawnLoss_eq_some hr
  obtain ⟨start', -, rfl⟩ := spawnLoss_eq_some hs
  exact congrArg (Prod.mk LossSignal.spawnChild) (Prod.mk.inj hkey).1

theorem ipcSubjects_perm {trusted trusted' : List UInt64}
    (ht : ∀ pid, pid ∈ trusted ↔ pid ∈ trusted') :
    (((ipcLosses rs trusted).map (·.2)).map SubtreeLoss.subject).Perm
      (((ipcLosses rs' trusted').map (·.2)).map SubtreeLoss.subject) := by
  rw [ipcLosses, ipcLosses, ← ipcLoss_perm h ht, List.map_map, List.map_map]
  refine Reorder.map_firstPerKey_perm (f := SubtreeLoss.subject) (h.filterMap _) ?_
  intro p hp q hq hkey
  obtain ⟨r, -, hr⟩ := List.mem_filterMap.mp hp
  obtain ⟨s, -, hs⟩ := List.mem_filterMap.mp hq
  obtain rfl := ipcLoss_eq_some hr
  obtain rfl := ipcLoss_eq_some hs
  exact congrArg (Prod.mk LossSignal.ipcPeer) (peerKey_determines_peer hkey)

/-- The pids that trip, whichever way the table is iterated. -/
theorem execSubjects_perm (table table' : TableOrder) :
    ((execLossesBy table rs).map SubtreeLoss.subject).Perm
      ((execLossesBy table' rs').map SubtreeLoss.subject) := by
  have hsubjects : ∀ (l : List MonitorRecord) (pids : List UInt64),
      (pids.filterMap (execLoss l)).map SubtreeLoss.subject =
        (pids.filter (execTrips l)).map (Prod.mk LossSignal.execImage) := by
    intro l pids
    induction pids with
    | nil => rfl
    | cons pid pids ih =>
      rw [List.filterMap_cons, List.filter_cons, execLoss]
      cases execTrips l pid with
      | true => simp only [if_true, List.map_cons, ih, SubtreeLoss.subject]
      | false => simpa only [Bool.false_eq_true, if_false] using ih
  have htrips : execTrips rs' = execTrips rs := funext fun pid => (execTrips_perm h pid).symm
  have hinserts : (execInserts rs).Perm (execInserts rs') := (h.filter _).map _
  have hiterate : (table.iterate (execInserts rs)).Perm (table'.iterate (execInserts rs')) :=
    (table.perm _).trans (hinserts.dedup.trans (table'.perm _).symm)
  rw [execLossesBy, execLossesBy, hsubjects, hsubjects, htrips]
  exact (hiterate.filter _).map _

end Losses

/-! ## 3. Both passes -/

/-- **Loss inference is order independent.**  For every order of the records, every list of the
same trusted peers and every iteration order of the exec table: as many losses, about the same
subjects, each as often, and the same count of external content. -/
theorem lossInference_perm {rs rs' : List MonitorRecord} (h : rs.Perm rs')
    {trusted trusted' : List UInt64} (ht : ∀ pid, pid ∈ trusted ↔ pid ∈ trusted')
    (table table' : TableOrder) :
    (subtreeLossDetailsBy table rs trusted).length =
        (subtreeLossDetailsBy table' rs' trusted').length ∧
      ((subtreeLossesBy table rs trusted).map SubtreeLoss.subject).Perm
        ((subtreeLossesBy table' rs' trusted').map SubtreeLoss.subject) ∧
      externalContentLossCount rs trusted = externalContentLossCount rs' trusted' := by
  have hsubjects : ((subtreeLossesBy table rs trusted).map SubtreeLoss.subject).Perm
      ((subtreeLossesBy table' rs' trusted').map SubtreeLoss.subject) := by
    rw [subtreeLossesBy, subtreeLossesBy]
    simp only [List.map_append]
    exact ((spawnSubjects_perm h).append (execSubjects_perm h table table')).append
      (ipcSubjects_perm h ht)
  refine ⟨?_, hsubjects, ?_⟩
  · rw [subtreeLossDetailsBy_eq_map, subtreeLossDetailsBy_eq_map]
    simpa only [List.length_map] using hsubjects.length_eq
  · rw [externalContentLossCount, externalContentLossCount, externalContentLosses,
      externalContentLosses, ← contentLoss_perm h ht]
    exact Reorder.length_firstPerKey_perm (h.filterMap _)

/-- Two spawns of one missing child, read in both orders. -/
theorem lossInference_perm_twoSpawns :
    (subtreeLossDetailsBy .byLast
        [{ kind := mrProcessSpawn, observationKind := .moExecute, osPid := 10, childOsPid := 11 },
          { kind := mrProcessSpawn, observationKind := .moExecute, osPid := 20, childOsPid := 11 }]
        [7, 7]).length =
      (subtreeLossDetailsBy .byLast
        [{ kind := mrProcessSpawn, observationKind := .moExecute, osPid := 20, childOsPid := 11 },
          { kind := mrProcessSpawn, observationKind := .moExecute, osPid := 10, childOsPid := 11 }]
        [7]).length :=
  (lossInference_perm (List.Perm.swap _ _ _) (fun pid => by simp) .byLast .byLast).1

end IoMon
