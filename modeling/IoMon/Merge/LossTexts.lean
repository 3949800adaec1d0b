/-
# The losses of the inference, in any order

The subtree pass writes one text for each loss.  The texts have their fields in a fixed order with
a blank in front of each name, and neither a number nor a token has a blank in it, so a text can be
read back: two losses of one signal with the same text are the same loss (`detail_injective`).

How much of the losses depends on the order of the records?  Who is monitored does not, nor do the
tallies, so whether a record or a pid is reported does not (`spawnLoss_perm`, `ipcLoss_perm`,
`execTrips_perm`).  What does is which of several losses of one subject comes first, and which image
of a pid comes last.
-/
import IoMon.Lib.Reorder
import IoMon.Merge.EvidenceSet

namespace IoMon

open ByteText Keyed MonitorRecordKind

/-! ## 1. Reading a text back -/

/-- Two fields without a blank, each followed by a blank, are read off their concatenation. -/
theorem field_injective {a b s t : NimStr} (ha : 32 ∉ a) (hb : 32 ∉ b)
    (hs : s.head? = some 32) (ht : t.head? = some 32) (h : a ++ s = b ++ t) : a = b ∧ s = t := by
  obtain ⟨s', rfl⟩ := List.head?_eq_some_iff.mp hs
  obtain ⟨t', rfl⟩ := List.head?_eq_some_iff.mp ht
  have hsplit := splitFirst_append 32 s' a ha
  rw [h, splitFirst_append 32 t' b hb, Option.some.injEq, Prod.mk.injEq] at hsplit
  exact ⟨hsplit.1.symm, by rw [hsplit.2]⟩

theorem not_mem_tokensFrom {c : UInt8} (hc : isSpace c = true) {tok : NimStr} (s cur : NimStr)
    (hcur : c ∉ cur) (h : tok ∈ tokensFrom cur s) : c ∉ tok := by
  induction s generalizing cur with
  | nil =>
    unfold tokensFrom at h
    split at h
    · exact absurd h List.not_mem_nil
    · exact List.mem_singleton.mp h ▸ hcur
  | cons d s ih =>
    unfold tokensFrom at h
    split at h
    · split at h
      · exact ih [] List.not_mem_nil h
      · rcases List.mem_cons.mp h with rfl | h
        · exact hcur
        · exact ih [] List.not_mem_nil h
    · rename_i hd
      refine ih (cur ++ [d]) ?_ h
      rw [List.mem_append, List.mem_singleton]
      rintro (hmem | rfl)
      · exact hcur hmem
      · exact hd hc

/-- A token has no blank in it. -/
theorem blank_not_mem_trustedDetailToken (detail key : NimStr) :
    32 ∉ trustedDetailToken detail key := by
  unfold trustedDetailToken
  split
  · exact List.not_mem_nil
  unfold detailToken
  split
  · exact List.not_mem_nil
  · rename_i tok rest heq
    have htok : tok ∈ matchingTokens detail key := heq ▸ List.mem_cons_self ..
    rw [matchingTokens_eq_filter] at htok
    have hno : (32 : UInt8) ∉ tok :=
      not_mem_tokensFrom (by decide) detail [] List.not_mem_nil (List.mem_filter.mp htok).1
    exact fun hmem => hno (List.mem_of_mem_drop hmem)

theorem blank_not_mem_decimal (n : UInt64) : 32 ∉ decimal n := decimal_not_mem (by decide) n

theorem head?_literal {lit : NimStr} (h : lit.head? = some 32) (s : NimStr) :
    (lit ++ s).head? = some 32 := by
  rw [List.head?_append, h, Option.some_or]

/-- A number in front of the next field is read off the text, and so is what follows the field's
name. -/
theorem number_injective {lit : NimStr} (hlit : lit.head? = some 32) {n k : UInt64} {s t : NimStr}
    (h : decimal n ++ (lit ++ s) = decimal k ++ (lit ++ t)) : n = k ∧ s = t := by
  obtain ⟨hnum, hrest⟩ := field_injective (blank_not_mem_decimal n) (blank_not_mem_decimal k)
    (head?_literal hlit s) (head?_literal hlit t) h
  exact ⟨decimal_injective hnum, List.append_cancel_left hrest⟩

theorem spawnDetail_injective {parent child parent' child' : UInt64}
    {start path start' path' : NimStr} (hs : 32 ∉ start) (hs' : 32 ∉ start')
    (h : (SubtreeLoss.spawnChild parent child start path).detail =
      (SubtreeLoss.spawnChild parent' child' start' path').detail) :
    SubtreeLoss.spawnChild parent child start path =
      SubtreeLoss.spawnChild parent' child' start' path' := by
  simp only [SubtreeLoss.detail, List.append_assoc, List.append_cancel_left_eq] at h
  obtain ⟨hparent, h⟩ := number_injective (by decide) h
  obtain ⟨hchild, h⟩ := number_injective (by decide) h
  obtain ⟨hstart, h⟩ := field_injective hs hs'
    (head?_literal (by decide) _) (head?_literal (by decide) _) h
  rw [List.append_cancel_left_eq] at h
  rw [hparent, hchild, hstart, h]

/-- The optional last field, `name=value` or nothing. -/
theorem optional_injective {lit a b : NimStr} (hlit : lit ≠ [])
    (h : (if a.isEmpty then [] else lit ++ a) = if b.isEmpty then [] else lit ++ b) : a = b := by
  cases a with
  | nil =>
    cases b with
    | nil => rfl
    | cons c b =>
      have hnil := (List.append_eq_nil_iff.mp h.symm).1
      exact absurd hnil hlit
  | cons c a =>
    cases b with
    | nil =>
      have hnil := (List.append_eq_nil_iff.mp h).1
      exact absurd hnil hlit
    | cons d b => exact List.append_cancel_left h

theorem execDetail_injective {pid pid' : UInt64} {execs starts execs' starts' : Nat}
    {image image' : NimStr} (h : (SubtreeLoss.execImage pid execs starts image).detail =
      (SubtreeLoss.execImage pid' execs' starts' image').detail) :
    pid = pid' ∧ image = image' := by
  have hlast : ∀ (n : UInt64) (s : NimStr), s = [] ∨ s.head? = some 32 →
      ∀ (k : UInt64) (t : NimStr), t = [] ∨ t.head? = some 32 →
      decimal n ++ s = decimal k ++ t → s = t := by
    intro n s hs k t ht heq
    -- pad both with a blank field, so that the number ends at a blank in each
    have hpad : ∀ (u : NimStr), u = [] ∨ u.head? = some 32 → (u ++ [32]).head? = some 32 := by
      rintro u (rfl | hu)
      · rfl
      · rw [List.head?_append, hu, Option.some_or]
    have := (field_injective (blank_not_mem_decimal n) (blank_not_mem_decimal k) (hpad s hs)
      (hpad t ht) (by rw [← List.append_assoc, heq, List.append_assoc])).2
    exact List.append_cancel_right this
  have htail : ∀ i : NimStr, (if i.isEmpty then [] else str " image=" ++ i) = [] ∨
      (if i.isEmpty then [] else str " image=" ++ i).head? = some 32 := by
    intro i
    split
    · exact .inl rfl
    · exact .inr (head?_literal (by decide) _)
  simp only [SubtreeLoss.detail, List.append_assoc, List.append_cancel_left_eq] at h
  obtain ⟨hpid, h⟩ := number_injective (by decide) h
  obtain ⟨_, h⟩ := number_injective (by decide) h
  exact ⟨hpid, optional_injective (by decide) (hlast _ _ (htail image) _ _ (htail image') h)⟩

/-- The field that is there only when the uid is known, and the path behind it. -/
def uidTail (uid path : NimStr) : NimStr :=
  (if uid.isEmpty then [] else str " peeruid=" ++ uid) ++ (str " path=" ++ path)

/-- With or without a uid, the tail begins with a blank. -/
theorem head?_uidTail (uid path : NimStr) : (uidTail uid path).head? = some 32 := by
  unfold uidTail
  split
  · rw [List.nil_append]
    exact head?_literal (by decide) _
  · rw [List.append_assoc]
    exact head?_literal (by decide) _

theorem path_ne_uid (s t : NimStr) : str " path=" ++ s ≠ str " peeruid=" ++ t := by
  intro heq
  have hthird := congrArg (fun l : NimStr => (l.drop 2).head?) heq
  rw [List.drop_append_of_le_length (by decide), List.drop_append_of_le_length (by decide),
    List.head?_append, List.head?_append, show ((str " path=").drop 2).head? = some 97 by decide,
    show ((str " peeruid=").drop 2).head? = some 101 by decide, Option.some_or, Option.some_or]
    at hthird
  exact absurd hthird (by decide)

theorem uidTail_injective {uid path uid' path' : NimStr} (hu : 32 ∉ uid) (hu' : 32 ∉ uid')
    (h : uidTail uid path = uidTail uid' path') : uid = uid' ∧ path = path' := by
  simp only [uidTail] at h
  cases uid with
  | nil =>
    cases uid' with
    | nil => exact ⟨rfl, List.append_cancel_left (List.append_cancel_left h)⟩
    | cons c u' =>
      simp only [List.isEmpty_nil, List.isEmpty_cons, if_true, Bool.false_eq_true, if_false,
        List.nil_append, List.append_assoc] at h
      exact absurd h (path_ne_uid _ _)
  | cons c u =>
    cases uid' with
    | nil =>
      simp only [List.isEmpty_nil, List.isEmpty_cons, if_true, Bool.false_eq_true, if_false,
        List.nil_append, List.append_assoc] at h
      exact absurd h.symm (path_ne_uid _ _)
    | cons d u' =>
      simp only [List.isEmpty_cons, Bool.false_eq_true, if_false, List.append_assoc,
        List.append_cancel_left_eq] at h
      obtain ⟨huid, h⟩ := field_injective hu hu' (head?_literal (by decide) _)
        (head?_literal (by decide) _) h
      exact ⟨huid, List.append_cancel_left h⟩

theorem ipcDetail_injective {pid peer pid' peer' : UInt64}
    {start uid path start' uid' path' : NimStr} (hs : 32 ∉ start ∧ 32 ∉ uid)
    (hs' : 32 ∉ start' ∧ 32 ∉ uid')
    (h : (SubtreeLoss.ipcPeer pid peer start uid path).detail =
      (SubtreeLoss.ipcPeer pid' peer' start' uid' path').detail) :
    SubtreeLoss.ipcPeer pid peer start uid path =
      SubtreeLoss.ipcPeer pid' peer' start' uid' path' := by
  simp only [SubtreeLoss.detail, List.append_assoc, List.append_cancel_left_eq] at h
  obtain ⟨hpid, h⟩ := number_injective (by decide) h
  obtain ⟨hpeer, h⟩ := number_injective (by decide) h
  obtain ⟨hstart, h⟩ := field_injective hs.1 hs'.1 (head?_uidTail uid path)
    (head?_uidTail uid' path') h
  obtain ⟨huid, hpath⟩ := uidTail_injective hs.2 hs'.2 h
  rw [hpid, hpeer, hstart, huid, hpath]

/-! ## 2. Losses with the same texts are the same losses -/

theorem spawnLoss_eq_some {procs : MonitoredProcs} {r : MonitorRecord}
    {p : ProcIdentity × SubtreeLoss} (h : spawnLoss procs r = some p) :
    ∃ start, 32 ∉ start ∧ p = ((r.childOsPid, start),
      .spawnChild r.osPid r.childOsPid start r.path) := by
  unfold spawnLoss at h
  split at h
  · exact ⟨_, blank_not_mem_trustedDetailToken _ _, (Option.some.inj h).symm⟩
  · exact absurd h (by simp)

theorem ipcLoss_eq_some {procs : MonitoredProcs} {trusted : List UInt64} {r : MonitorRecord}
    {p : NimStr × SubtreeLoss} (h : ipcLoss procs trusted r = some p) :
    p = (peerKey r, .ipcPeer r.osPid r.childOsPid (trustedDetailToken r.detail PeerStartTimeToken)
      (trustedDetailToken r.detail PeerUidToken) r.path) := by
  unfold ipcLoss at h
  split at h
  · exact (Option.some.inj h).symm
  · exact absurd h (by simp)

/-- The reported spawns are read off the texts of their losses. -/
theorem spawnDetails_eq_iff {procs : MonitoredProcs} {l l' : List MonitorRecord} :
    ((firstPerKey (l.filterMap (spawnLoss procs))).map (·.2)).map SubtreeLoss.detail =
        ((firstPerKey (l'.filterMap (spawnLoss procs))).map (·.2)).map SubtreeLoss.detail ↔
      firstPerKey (l.filterMap (spawnLoss procs)) =
        firstPerKey (l'.filterMap (spawnLoss procs)) := by
  refine ⟨fun h => ?_, fun h => by rw [h]⟩
  rw [List.map_map, List.map_map] at h
  refine Reorder.eq_of_map_eq (fun p hp q hq hpq => ?_) h
  obtain ⟨r, _, hr⟩ := List.mem_filterMap.mp (mem_of_mem_firstPerKey hp)
  obtain ⟨s, _, hs⟩ := List.mem_filterMap.mp (mem_of_mem_firstPerKey hq)
  obtain ⟨start, hstart, rfl⟩ := spawnLoss_eq_some hr
  obtain ⟨start', hstart', rfl⟩ := spawnLoss_eq_some hs
  have hloss := spawnDetail_injective hstart hstart' hpq
  simp only [SubtreeLoss.spawnChild.injEq] at hloss
  obtain ⟨hparent, hchild, rfl, hpath⟩ := hloss
  rw [hparent, hchild, hpath]

/-- The reported peers are read off the texts of their losses. -/
theorem ipcDetails_eq_iff {procs : MonitoredProcs} {trusted : List UInt64}
    {l l' : List MonitorRecord} :
    ((firstPerKey (l.filterMap (ipcLoss procs trusted))).map (·.2)).map SubtreeLoss.detail =
        ((firstPerKey (l'.filterMap (ipcLoss procs trusted))).map (·.2)).map SubtreeLoss.detail ↔
      firstPerKey (l.filterMap (ipcLoss procs trusted)) =
        firstPerKey (l'.filterMap (ipcLoss procs trusted)) := by
  refine ⟨fun h => ?_, fun h => by rw [h]⟩
  rw [List.map_map, List.map_map] at h
  refine Reorder.eq_of_map_eq (fun p hp q hq hpq => ?_) h
  obtain ⟨r, _, hr⟩ := List.mem_filterMap.mp (mem_of_mem_firstPerKey hp)
  obtain ⟨s, _, hs⟩ := List.mem_filterMap.mp (mem_of_mem_firstPerKey hq)
  rw [ipcLoss_eq_some hr, ipcLoss_eq_some hs] at hpq ⊢
  have hloss := ipcDetail_injective
    ⟨blank_not_mem_trustedDetailToken _ _, blank_not_mem_trustedDetailToken _ _⟩
    ⟨blank_not_mem_trustedDetailToken _ _, blank_not_mem_trustedDetailToken _ _⟩ hpq
  simp only [SubtreeLoss.ipcPeer.injEq] at hloss
  -- the subject of the loss is made of fields its text has
  have hkey : peerKey r = peerKey s := by
    simp only [peerKey, hloss.2.1, hloss.2.2.1, hloss.2.2.2.2]
  rw [hkey, hloss.1, hloss.2.1, hloss.2.2.1, hloss.2.2.2.1, hloss.2.2.2.2]

/-! ## 3. What the order does not change -/

theorem sameEvidenceSet_of_perm {l l' : List MonitorRecord} (h : l.Perm l') :
    SameEvidenceSet l l' :=
  ⟨fun r hr => ⟨r, h.mem_iff.mp hr, SameEvidence.refl r⟩,
    fun r hr => ⟨r, h.mem_iff.mpr hr, SameEvidence.refl r⟩⟩

/-- The texts of the exec losses: one for each pid that trips. -/
theorem execDetails_eq (rs : List MonitorRecord) (pids : List UInt64) :
    (pids.filterMap (execLoss rs)).map SubtreeLoss.detail = (pids.filter (execTrips rs)).map
      fun pid => (SubtreeLoss.execImage pid (effectiveExecs rs pid).toNat (startCount rs pid)
        (lastExecPath rs pid)).detail := by
  induction pids with
  | nil => rfl
  | cons pid pids ih =>
    rw [List.filterMap_cons, List.filter_cons, execLoss]
    cases execTrips rs pid with
    | true => simp only [if_true, List.map_cons, ih]
    | false => simpa only [Bool.false_eq_true, if_false] using ih

section Perm

variable {l l' : List MonitorRecord} (h : l.Perm l')
include h

theorem spawnLoss_perm :
    spawnLoss (processStartIdentities l) = spawnLoss (processStartIdentities l') := by
  funext r
  have hacc : spawnAccounted (processStartIdentities l) r =
      spawnAccounted (processStartIdentities l') r := by
    simp only [spawnAccounted, childIsMonitored_sameEvidence (sameEvidenceSet_of_perm h)]
  rw [spawnLoss, spawnLoss, hacc]

theorem ipcLoss_perm {trusted trusted' : List UInt64} (ht : ∀ pid, pid ∈ trusted ↔ pid ∈ trusted') :
    ipcLoss (processStartIdentities l) trusted = ipcLoss (processStartIdentities l') trusted' := by
  funext r
  have hacc : peerAccounted (processStartIdentities l) trusted r =
      peerAccounted (processStartIdentities l') trusted' r := by
    simp only [peerAccounted, childIsMonitored_sameEvidence (sameEvidenceSet_of_perm h),
      contains_congr ht]
  rw [ipcLoss, ipcLoss, hacc]

theorem contentLoss_perm {trusted trusted' : List UInt64}
    (ht : ∀ pid, pid ∈ trusted ↔ pid ∈ trusted') :
    contentLoss l trusted = contentLoss l' trusted' := by
  have hset := sameEvidenceSet_of_perm h
  funext r
  have hacc : producerAccounted (processStartIdentities l) trusted r =
      producerAccounted (processStartIdentities l') trusted' r := by
    simp only [producerAccounted, childIsMonitored_sameEvidence hset, contains_congr ht]
  rw [contentLoss, contentLoss, hacc, consumeKey_sameEvidence hset (SameContent.refl r)]

theorem startCount_perm (pid : UInt64) : startCount l pid = startCount l' pid := h.countP_eq _

theorem effectiveExecs_perm (pid : UInt64) : effectiveExecs l pid = effectiveExecs l' pid := by
  have hexec : execCount l pid = execCount l' pid := h.countP_eq _
  have hfail : execFailedCount l pid = execFailedCount l' pid := h.countP_eq _
  rw [effectiveExecs, effectiveExecs, hexec, hfail]

theorem execTrips_perm (pid : UInt64) : execTrips l pid = execTrips l' pid := by
  have hanchor : anchored l pid = anchored l' pid := by
    rw [Bool.eq_iff_iff, anchored, anchored, List.any_eq_true, List.any_eq_true]
    exact exists_congr fun r => and_congr_left fun _ => h.mem_iff
  rw [execTrips, execTrips, hanchor, effectiveExecs_perm h, startCount_perm h]

/-- **The exec losses of two orders**: the same pids trip, so the losses are the same exactly when
those pids come in the same order and have the same last image. -/
theorem execDetails_eq_iff {pids pids' : List UInt64} :
    (pids.filterMap (execLoss l)).map SubtreeLoss.detail =
        (pids'.filterMap (execLoss l')).map SubtreeLoss.detail ↔
      pids.filter (execTrips l) = pids'.filter (execTrips l) ∧
        ∀ pid ∈ pids, execTrips l pid = true → lastExecPath l pid = lastExecPath l' pid := by
  have htrips : execTrips l' = execTrips l := funext fun pid => (execTrips_perm h pid).symm
  rw [execDetails_eq, execDetails_eq, htrips]
  constructor
  · intro heq
    have hlen : ∀ {n : Nat} (hn : n < (pids.filter (execTrips l)).length)
        (hn' : n < (pids'.filter (execTrips l)).length),
        (pids.filter (execTrips l))[n] = (pids'.filter (execTrips l))[n] ∧
          lastExecPath l (pids.filter (execTrips l))[n] =
            lastExecPath l' (pids.filter (execTrips l))[n] := by
      intro n hn hn'
      have hat := List.getElem_of_eq heq (i := n) (by simpa using hn)
      simp only [List.getElem_map] at hat
      obtain ⟨hpid, himage⟩ := execDetail_injective hat
      exact ⟨hpid, by rw [himage, hpid]⟩
    have hcount : (pids.filter (execTrips l)).length = (pids'.filter (execTrips l)).length := by
      simpa only [List.length_map] using congrArg List.length heq
    refine ⟨List.ext_getElem hcount fun n hn hn' => (hlen hn hn').1, fun pid hpid htrip => ?_⟩
    obtain ⟨n, hn, rfl⟩ := List.mem_iff_getElem.mp (List.mem_filter.mpr ⟨hpid, htrip⟩)
    exact (hlen hn (hcount ▸ hn)).2
  · rintro ⟨hpids, himage⟩
    rw [← hpids]
    refine List.map_congr_left fun pid hpid => ?_
    obtain ⟨hmem, htrip⟩ := List.mem_filter.mp hpid
    rw [effectiveExecs_perm h, startCount_perm h, himage pid hmem htrip]

end Perm

/-! ## 4. What the other kinds do not change -/

section Evidence

variable (rs : List MonitorRecord)

theorem spawnLoss_of_not_evidence (procs : MonitoredProcs) (r : MonitorRecord)
    (h : isEvidence r = false) : spawnLoss procs r = none := by
  have hno : namesChild r = false := by
    cases hn : namesChild r with
    | false => rfl
    | true => rw [namesChild_isEvidence hn] at h; exact absurd h (by simp)
  simp only [spawnLoss, hno, Bool.false_and, Bool.false_eq_true, if_false]

theorem ipcLoss_of_not_evidence (procs : MonitoredProcs) (trusted : List UInt64)
    (r : MonitorRecord) (h : isEvidence r = false) : ipcLoss procs trusted r = none := by
  have hno : (r.kind == mrIpcConnect) = false := by
    rw [beq_eq_false_iff_ne]
    intro hk
    rw [isEvidence, hk] at h
    exact absurd h (by simp)
  simp only [ipcLoss, hno, Bool.false_and, Bool.false_eq_true, if_false]

theorem spawnLosses_evidence : spawnLosses (evidence rs) = spawnLosses rs := by
  rw [spawnLosses, spawnLosses, processStartIdentities_evidence,
    filterMap_evidence (spawnLoss_of_not_evidence _)]

theorem ipcLosses_evidence (trusted : List UInt64) :
    ipcLosses (evidence rs) trusted = ipcLosses rs trusted := by
  rw [ipcLosses, ipcLosses, processStartIdentities_evidence,
    filterMap_evidence (ipcLoss_of_not_evidence _ _)]

theorem execLoss_evidence : execLoss (evidence rs) = execLoss rs := by
  funext pid
  have hstart : startCount (evidence rs) pid = startCount rs pid := by
    refine countP_evidence (fun r hr => ?_) rs
    rw [Bool.and_eq_true, beq_iff_eq] at hr
    exact isEvidence_of_kind hr.1 (by simp)
  have hexec : execCount (evidence rs) pid = execCount rs pid := by
    refine countP_evidence (fun r hr => ?_) rs
    simp only [Bool.and_eq_true, beq_iff_eq] at hr
    exact isEvidence_of_kind hr.1.1 (by simp)
  have hfail : execFailedCount (evidence rs) pid = execFailedCount rs pid := by
    refine countP_evidence (fun r hr => ?_) rs
    simp only [Bool.and_eq_true, beq_iff_eq] at hr
    exact isEvidence_of_kind hr.1.1 (by simp)
  have hpath : lastExecPath (evidence rs) pid = lastExecPath rs pid := by
    rw [lastExecPath, lastExecPath, filter_evidence]
    intro r hr
    simp only [Bool.and_eq_true, beq_iff_eq] at hr
    exact isEvidence_of_kind hr.1.1.1 (by simp)
  rw [execLoss, execLoss, execTrips_evidence, effectiveExecs, effectiveExecs, hstart, hexec, hfail,
    hpath]

theorem externalContentLosses_evidence (trusted : List UInt64) :
    externalContentLosses (evidence rs) trusted = externalContentLosses rs trusted := by
  have hloss : contentLoss (evidence rs) trusted = contentLoss rs trusted := by
    funext r
    simp only [contentLoss, consumeKey_evidence, processStartIdentities_evidence]
  rw [externalContentLosses, externalContentLosses, hloss, filterMap_evidence]
  intro r hr
  have hnil : consumeKey rs r = [] := by
    by_contra hne
    rw [isEvidence_of_consumeKey rs hne] at hr
    exact absurd hr (by simp)
  simp only [contentLoss, hnil, List.isEmpty_nil, if_true]

end Evidence

end IoMon
