/-
# When the merge does not depend on the enumeration

The depfile is byte-reproducible on purpose: the fold sorts its facts because the order of
`walkDir` is not stable, and the canonical order sorts the rest.  Every pass that reports the
*first* record of a subject or the *last* text of a process undoes that: the losses of the subtree
pass carry no pid of their own, so all of them tie in the canonical order and stay as the fragments
came in.

Whether a directory is affected is decided two fragments at a time.  `OrderInsensitive` lists what
any two of them must agree on, and `enumerationIndependent_iff` proves that this is exact: a
directory whose fragments agree gives one output in every order, and two fragments that disagree
give two orders with different outputs.
-/
import IoMon.Merge.OrderedPieces

namespace IoMon

open ByteText Keyed StableSort Reorder MonitorRecordKind MonitorObservationKind

/-! ## 1. Block by block -/

section Blocks

variable (m : MergeInput)

/-- The kept records of the shared set, which come after the fragments. -/
def keptSet : List MonitorRecord := m.setRecords.filter (keepsRecord m)

/-- The kept records when the fragments are read in this order. -/
def keptIn (fs : List FragmentEntry) : List MonitorRecord := fs.flatMap (keptFrames m) ++ keptSet m

/-- The records of one fragment that go into the file as they are. -/
def plainOf (e : FragmentEntry) : List MonitorRecord := (keptFrames m e).filter isPlain

/-- The contexts a thread's pending markers carry, in order. -/
def pendingContexts (key : ThreadKey) (records : List MonitorRecord) : List NimStr :=
  (records.filter fun r => isPendingMarker r && threadKey r == key).filterMap fun r =>
    afterFirst KillDiagCtxTag r.detail

/-- The images a pid exec'd, in order. -/
def execImages (pid : UInt64) (records : List MonitorRecord) : List NimStr :=
  (records.filter fun r => r.kind == mrProcessExec && r.osPid == pid && !execFailed r &&
    !r.path.isEmpty).map (·.path)

theorem keptIn_fragments : keptIn m m.fragments = keptRecords m := (keptRecords_eq m).symm

end Blocks

section Orders

variable {m : MergeInput}

/-- Every order of the fragments is the order some enumeration gives them. -/
theorem forall_enumerations {Q : List FragmentEntry → Prop} :
    (∀ entries : List FragmentEntry, entries.Perm m.entries → Q (enumerated m entries).fragments) ↔
      ∀ fs : List FragmentEntry, fs.Perm m.fragments → Q fs := by
  refine ⟨fun h fs hfs => ?_, fun h entries hentries => h _ (fragments_enumerated hentries)⟩
  -- the other entries of the directory follow
  have hperm : (fs ++ m.entries.filter fun e => !(e.isFile && endsWith e.path fragmentExt)).Perm
      m.entries := (hfs.append_right _).trans (List.filter_append_perm _ _)
  have hfrag : (enumerated m (fs ++ m.entries.filter fun e =>
      !(e.isFile && endsWith e.path fragmentExt))).fragments = fs := by
    have hself : fs.filter (fun e => e.isFile && endsWith e.path fragmentExt) = fs :=
      List.filter_eq_self.mpr fun e he => (List.mem_filter.mp (hfs.mem_iff.mp he)).2
    have hnone : (m.entries.filter fun e => !(e.isFile && endsWith e.path fragmentExt)).filter
        (fun e => e.isFile && endsWith e.path fragmentExt) = [] := by
      refine List.filter_eq_nil_iff.mpr fun e he => ?_
      have hno := (List.mem_filter.mp he).2
      rw [Bool.not_eq_true'] at hno
      rw [hno]
      exact Bool.false_ne_true
    rw [MergeInput.fragments, enumerated, List.filter_append, hself, hnone, List.append_nil]
  have := h _ hperm
  rwa [hfrag] at this

end Orders

/-! ## 2. Two fragments at a time -/

section Pairs

variable (m : MergeInput)

/-- A pass over the kept records goes block by block. -/
theorem filterMap_keptIn {β : Type} (g : MonitorRecord → Option β) (fs : List FragmentEntry) :
    (keptIn m fs).filterMap g =
      (fs.flatMap fun e => (keptFrames m e).filterMap g) ++ (keptSet m).filterMap g := by
  rw [keptIn, List.filterMap_append, List.filterMap_flatMap]

theorem plain_orders_iff (k : CanonicalKey) :
    (∀ fs : List FragmentEntry, fs.Perm m.fragments →
        ofKey canonicalKey k ((keptIn m fs).filter isPlain) =
          ofKey canonicalKey k ((keptIn m m.fragments).filter isPlain)) ↔
      ∀ e f, TwoOf m.fragments e f → ofKey canonicalKey k (plainOf m e ++ plainOf m f) =
        ofKey canonicalKey k (plainOf m f ++ plainOf m e) := by
  have hblocks : ∀ fs : List FragmentEntry, ofKey canonicalKey k ((keptIn m fs).filter isPlain) =
      (fs.flatMap fun e => ofKey canonicalKey k (plainOf m e)) ++
        ofKey canonicalKey k ((keptSet m).filter isPlain) := by
    intro fs
    rw [keptIn, List.filter_append, ofKey_append, List.filter_flatMap, ofKey_flatMap]
    rfl
  simp only [hblocks, ofKey_append]
  exact flatMap_perm_iff

theorem contexts_orders_iff (key : ThreadKey) :
    (∀ fs : List FragmentEntry, fs.Perm m.fragments →
        lastPendingCtx (keptIn m fs) key = lastPendingCtx (keptIn m m.fragments) key) ↔
      (pendingContexts key (keptSet m) = [] → ∀ e f, TwoOf m.fragments e f →
        ∀ x ∈ (pendingContexts key (keptFrames m e)).getLast?,
          ∀ y ∈ (pendingContexts key (keptFrames m f)).getLast?, x = y) := by
  have hblocks : ∀ fs : List FragmentEntry, lastPendingCtx (keptIn m fs) key =
      ((fs.flatMap fun e => pendingContexts key (keptFrames m e)) ++
        pendingContexts key (keptSet m)).getLast?.getD [] := by
    intro fs
    simp only [lastPendingCtx, keptIn, List.filter_append, List.filter_flatMap,
      List.filterMap_append, List.filterMap_flatMap, pendingContexts]
  simp only [hblocks]
  exact getLast_perm_iff

theorem reads_orders_iff :
    (∀ fs : List FragmentEntry, fs.Perm m.fragments → ∀ k,
        ofKey canonicalKey k (readsUnder m (firstRun (keptIn m fs))) =
          ofKey canonicalKey k (readsUnder m (firstRun (keptIn m m.fragments)))) ↔
      ∀ e f, TwoOf m.fragments e f → ∀ x ∈ ((keptFrames m e).filterMap recordRunId).head?,
        ∀ y ∈ ((keptFrames m f).filterMap recordRunId).head?, ∀ k,
          ofKey canonicalKey k (readsUnder m x) = ofKey canonicalKey k (readsUnder m y) := by
  have hrule := head_perm_iff (g := fun e => (keptFrames m e).filterMap recordRunId)
    (l := m.fragments) (t := (keptSet m).filterMap recordRunId) (d := [])
    (F := fun run k => ofKey canonicalKey k (readsUnder m run))
  simp only [funext_iff] at hrule
  simp only [firstRun, filterMap_keptIn]
  exact hrule

/-- The images of a pid, block by block; the root spawn is no exec. -/
theorem images_orders_iff (pid : UInt64) :
    (∀ fs : List FragmentEntry, fs.Perm m.fragments →
        lastExecPath (withRoot m (keptIn m fs)) pid =
          lastExecPath (withRoot m (keptIn m m.fragments)) pid) ↔
      (execImages pid (keptSet m) = [] → ∀ e f, TwoOf m.fragments e f →
        ∀ x ∈ (execImages pid (keptFrames m e)).getLast?,
          ∀ y ∈ (execImages pid (keptFrames m f)).getLast?, x = y) := by
  have hroot : (rootSpawn m).filter (fun r => r.kind == mrProcessExec && r.osPid == pid &&
      !execFailed r && !r.path.isEmpty) = [] := by
    refine List.filter_eq_nil_iff.mpr fun r hr => ?_
    rw [(rootSpawn_kind hr).1]
    exact Bool.false_ne_true
  have hblocks : ∀ fs : List FragmentEntry, lastExecPath (withRoot m (keptIn m fs)) pid =
      ((fs.flatMap fun e => execImages pid (keptFrames m e)) ++
        execImages pid (keptSet m)).getLast?.getD [] := by
    intro fs
    rw [lastExecPath, withRoot, List.filter_append, hroot, List.append_nil, filter_evidence]
    · simp only [keptIn, List.filter_append, List.filter_flatMap, List.map_append,
        List.map_flatMap, execImages]
    · intro r hr
      simp only [Bool.and_eq_true, beq_iff_eq] at hr
      exact isEvidence_of_kind hr.1.1.1 (by simp)
  simp only [hblocks]
  exact getLast_perm_iff

/-- The first loss of each subject, for either of the signals that report once per subject. -/
theorem subjects_orders_iff {κ : Type} [DecidableEq κ]
    {g : MonitorRecord → Option (κ × SubtreeLoss)} (hg : ∀ r, isEvidence r = false → g r = none) :
    (∀ fs : List FragmentEntry, fs.Perm m.fragments →
        firstPerKey ((withRoot m (keptIn m fs)).filterMap g) =
          firstPerKey ((withRoot m (keptIn m m.fragments)).filterMap g)) ↔
      ∀ e f, TwoOf m.fragments e f →
        firstPerKey ((keptFrames m e ++ keptFrames m f).filterMap g) =
          firstPerKey ((keptFrames m f ++ keptFrames m e).filterMap g) := by
  have hblocks : ∀ fs : List FragmentEntry, (withRoot m (keptIn m fs)).filterMap g =
      (fs.flatMap fun e => (keptFrames m e).filterMap g) ++
        ((keptSet m).filterMap g ++ (rootSpawn m).filterMap g) := by
    intro fs
    rw [withRoot, List.filterMap_append, filterMap_evidence hg, filterMap_keptIn, List.append_assoc]
  simp only [hblocks, List.filterMap_append]
  exact firstPerKey_perm_iff

end Pairs

/-! ## 3. Every order at once -/

/-- **The merge does not depend on the enumeration**: any two orders of the directory give the same
depfile and the same file. -/
def EnumerationIndependent (table : TableOrder) (m : MergeInput) : Prop :=
  ∀ entries entries' : List FragmentEntry, entries.Perm m.entries → entries'.Perm m.entries →
    mergeOutput table (enumerated m entries) = mergeOutput table (enumerated m entries')

/-- What any two fragments of the directory agree on when the order does not matter.

  * `plain`: records with the same canonical key can be swapped;
  * `contexts`: a thread that was killed has one last context, unless the set gives it another;
  * `reads`: their run ids accept the same reports;
  * `spawns`, `peers`: the first loss of each subject is the same either way round;
  * `execs`, `images`: the exec table gives the tripping pids out in one order, and each has one
    last image. -/
structure OrderInsensitive (table : TableOrder) (m : MergeInput) : Prop where
  plain : ∀ e f, TwoOf m.fragments e f → ∀ k,
    ofKey canonicalKey k (plainOf m e ++ plainOf m f) =
      ofKey canonicalKey k (plainOf m f ++ plainOf m e)
  contexts : ∀ key, committedCount (keptRecords m) key < pendingCount (keptRecords m) key →
    pendingContexts key (keptSet m) = [] → ∀ e f, TwoOf m.fragments e f →
      ∀ x ∈ (pendingContexts key (keptFrames m e)).getLast?,
        ∀ y ∈ (pendingContexts key (keptFrames m f)).getLast?, x = y
  reads : ∀ e f, TwoOf m.fragments e f → ∀ x ∈ ((keptFrames m e).filterMap recordRunId).head?,
    ∀ y ∈ ((keptFrames m f).filterMap recordRunId).head?, ∀ k,
      ofKey canonicalKey k (readsUnder m x) = ofKey canonicalKey k (readsUnder m y)
  spawns : ∀ e f, TwoOf m.fragments e f →
    spawnSubjects m (keptFrames m e ++ keptFrames m f) =
      spawnSubjects m (keptFrames m f ++ keptFrames m e)
  execs : ∀ fs : List FragmentEntry, fs.Perm m.fragments →
    execOrder table m (withRoot m (keptIn m fs)) = execOrder table m (inferenceEvidence m)
  images : ∀ pid, execTrips (inferenceEvidence m) pid = true → execImages pid (keptSet m) = [] →
    ∀ e f, TwoOf m.fragments e f → ∀ x ∈ (execImages pid (keptFrames m e)).getLast?,
      ∀ y ∈ (execImages pid (keptFrames m f)).getLast?, x = y
  peers : ∀ e f, TwoOf m.fragments e f →
    peerSubjects m (trustedDaemons m) (keptFrames m e ++ keptFrames m f) =
      peerSubjects m (trustedDaemons m) (keptFrames m f ++ keptFrames m e)

/-- **One order at a time**: the pieces agree with those of `m` in every order of the fragments
exactly when the fragments agree two at a time. -/
theorem samePieces_orders_iff (table : TableOrder) (m : MergeInput) :
    (∀ fs : List FragmentEntry, fs.Perm m.fragments → SamePieces table m (keptIn m fs)) ↔
      OrderInsensitive table m := by
  have hkept := keptIn_fragments m
  have hplain : ∀ k, ofKey canonicalKey k (plainRecords m) =
      ofKey canonicalKey k ((keptIn m m.fragments).filter isPlain) := fun k => by
    rw [hkept, plainRecords]
  have hev : inferenceEvidence m = withRoot m (keptIn m m.fragments) := by
    rw [hkept, inferenceEvidence]
  constructor
  · intro hall
    refine ⟨fun e f htwo k => ?_, fun key hlt => ?_, ?_, ?_, fun fs hfs => (hall fs hfs).execs,
      fun pid htrip => ?_, ?_⟩
    · refine (plain_orders_iff m k).mp (fun fs hfs => ?_) e f htwo
      rw [(hall fs hfs).plain k, hplain]
    · refine (contexts_orders_iff m key).mp fun fs hfs => ?_
      rw [(hall fs hfs).contexts key hlt, hkept]
    · refine (reads_orders_iff m).mp fun fs hfs k => ?_
      rw [(hall fs hfs).reads k, hkept]
    · refine (subjects_orders_iff m (spawnLoss_of_not_evidence _)).mp fun fs hfs => ?_
      rw [← hev]
      exact (hall fs hfs).spawns
    · refine (images_orders_iff m pid).mp fun fs hfs => ?_
      rw [(hall fs hfs).images pid htrip, hev]
    · refine (subjects_orders_iff m (ipcLoss_of_not_evidence _ _)).mp fun fs hfs => ?_
      rw [← hev]
      exact (hall fs hfs).peers
  · intro hfree fs hfs
    refine ⟨fun k => ?_, fun key hlt => ?_, fun k => ?_, ?_, hfree.execs fs hfs,
      fun pid htrip => ?_, ?_⟩
    · rw [hplain]
      exact (plain_orders_iff m k).mpr (fun e f htwo => hfree.plain e f htwo k) fs hfs
    · rw [← hkept]
      exact (contexts_orders_iff m key).mpr (hfree.contexts key hlt) fs hfs
    · rw [← hkept]
      exact (reads_orders_iff m).mpr hfree.reads fs hfs k
    · have := (subjects_orders_iff m (spawnLoss_of_not_evidence _)).mpr hfree.spawns fs hfs
      rwa [← hev] at this
    · rw [hev]
      exact (images_orders_iff m pid).mpr (hfree.images pid htrip) fs hfs
    · have := (subjects_orders_iff m (ipcLoss_of_not_evidence _ _)).mpr hfree.peers fs hfs
      rwa [← hev] at this

/-- **When the output does not depend on the enumeration.** -/
theorem enumerationIndependent_iff (table : TableOrder) (m : MergeInput) :
    EnumerationIndependent table m ↔ OrderInsensitive table m := by
  rw [← samePieces_orders_iff, ← forall_enumerations]
  constructor
  · intro hind entries hentries
    have houtput := hind entries m.entries hentries (List.Perm.refl _)
    have hpieces := (outputs_eq_iff hentries table).mp houtput
    rwa [keptRecords_enumerated hentries] at hpieces
  · intro hpieces entries entries' hentries hentries'
    have hbase : ∀ es : List FragmentEntry, es.Perm m.entries →
        mergeOutput table (enumerated m es) = mergeOutput table m := by
      intro es hes
      refine (outputs_eq_iff hes table).mpr ?_
      rw [keptRecords_enumerated hes]
      exact hpieces es hes
    rw [hbase entries hentries, hbase entries' hentries']

/-! ## 4. Two children nobody saw

Two monitored processes each spawn a child that the shim never got into.  The two losses tie in the
canonical order, so the file has them in the order `walkDir` returned the fragments. -/

/-- Process `pid` starts and spawns `child`. -/
def spawnerFrames (pid child : UInt64) : List MonitorRecord :=
  [{ kind := mrProcessStart, observationKind := moExecute, osPid := pid, threadId := pid, seq := 1
     path := str "/bin/sh" },
   { kind := mrProcessSpawn, observationKind := moExecute, osPid := pid, threadId := pid, seq := 2
     childOsPid := child, path := str "/usr/bin/codesign" }]

/-- The fragment of that process. -/
def spawnerFragment (pid child : UInt64) : FragmentEntry where
  isFile := true
  path := str "/frag/p" ++ decimal pid ++ fragmentExt
  content := some (ByteCodec.stream encodeRecordPayload (spawnerFrames pid child))
  stillExists := true

/-- Both processes, the first one enumerated first. -/
def twoSpawners : MergeInput where
  entries := [spawnerFragment 10 11, spawnerFragment 20 21]

theorem spawn_order_shows :
    ¬ ∃ table : TableOrder, ∀ m : MergeInput, EnumerationIndependent table m := by
  rintro ⟨table, hclaim⟩
  have hswap : [spawnerFragment 20 21, spawnerFragment 10 11].Perm twoSpawners.entries :=
    List.Perm.swap _ _ _
  have hpieces := (outputs_eq_iff hswap table).mp
    (hclaim twoSpawners _ _ hswap (List.Perm.refl _))
  exact absurd hpieces.spawns (by decide +kernel)

end IoMon
