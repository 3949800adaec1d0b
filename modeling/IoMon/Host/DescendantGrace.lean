/-
# Waiting for descendants

When the root is done the host waits for processes that still carry the run's markers: it scans
`/proc`, sleeps, and scans again, until a scan finds none, a scan fails or the grace is over.  In
the last two cases it publishes an event loss of the run itself.

Time and the process table are the world's: `World` says what a scan begun at some millisecond
finds and when it is done, and that a sleep is no shorter than asked for.

  * `waitFrom_ends` -- the wait ends, in no more scans than the grace has milliseconds left, and
    one;
  * `wait_settles` -- it is silent only after a scan that found nobody, and reports only a failed
    scan or what a scan found that was done after the grace;
  * `incomplete_of_outlived` -- a run with a descendant in every scan is incomplete, if the set
    takes the loss or a fragment does.
-/
import IoMon.Host.DescendantScan
import IoMon.Host.Evidence
import IoMon.Shim.Emit

namespace IoMon.Grace

open ByteText MonitorRecordKind MonitorObservationKind MonitorCompleteness DepSetElemFit EmitStatus

/-! ## 1. The loop -/

/-- The world while the host waits, in milliseconds since it began to. -/
structure World where
  /-- the processes a scan begun then finds, or `none` if it fails -/
  listing : Nat → Option (List Listed)
  scanEnds : Nat → Nat
  /-- when a sleep begun then, of that length, is over -/
  wakes : Nat → Nat → Nat
  scanEnds_ge : ∀ t, t ≤ scanEnds t
  wakes_ge : ∀ t d, t + d ≤ wakes t d

/-- The two settings, as `envInt` leaves them. -/
structure Settings where
  graceMs : Nat
  pollMs : Nat
  poll_pos : 1 ≤ pollMs

def World.scan (w : World) (scan : Scan) (t : Nat) : List Nat × Bool :=
  liveInjectedDescendants scan ((w.listing t).map fun l => ⟨l.map Listed.entry, false⟩)

def scanFailedDetail : NimStr := str "linux injected-descendant /proc scan failed"

def stillLiveDetail (pids : List Nat) : NimStr :=
  str "linux injected descendants still live after root exit pids=" ++
    joinStr (str ",") (pids.map fun pid => decimal (UInt64.ofNat pid))

/-- The loop of `waitForLinuxInjectedDescendants`, from a scan begun at `now`: the detail of the
loss it publishes, if it does.  `none` if it has not ended within `fuel` scans. -/
def waitFrom (w : World) (scan : Scan) (cfg : Settings) : Nat → Nat → Option (Option NimStr)
  | 0, _ => none
  | fuel + 1, now =>
    let live := w.scan scan now
    if live.2 then some (some scanFailedDetail)
    else if live.1.isEmpty then some none
    else
      let elapsedMs := w.scanEnds now
      if cfg.graceMs ≤ elapsedMs then some (some (stillLiveDetail live.1))
      else waitFrom w scan cfg fuel (w.wakes elapsedMs (min cfg.pollMs (cfg.graceMs - elapsedMs)))

/-- The wait, with scans enough. -/
def waitForLinuxInjectedDescendants (w : World) (scan : Scan) (cfg : Settings) : Option NimStr :=
  (waitFrom w scan cfg (cfg.graceMs + 1) 0).getD none

/-- A process the scan reports. -/
def Reported (scan : Scan) (p : Process) : Prop :=
  p.Counts scan ∧ predatesRoot p.stat.startTicks scan.minStartTicks = false

instance (scan : Scan) (p : Process) : Decidable (Reported scan p) :=
  inferInstanceAs (Decidable (_ ∧ _))

section Loop

variable {w : World} {scan : Scan} {cfg : Settings}

theorem World.scan_some {t : Nat} {l : List Listed} (h : w.listing t = some l) :
    w.scan scan t =
      (((processes l).filter fun p => decide (Reported scan p)).map (·.stat.pid.toNat), false) := by
  rw [World.scan, h]
  exact scan_filter scan l

theorem World.scan_none {t : Nat} (h : w.listing t = none) : w.scan scan t = ([], true) := by
  rw [World.scan, h]
  rfl

/-- **The wait ends.**  Every sleep takes a millisecond of the grace at least. -/
theorem waitFrom_ends (w : World) (scan : Scan) (cfg : Settings) : ∀ {fuel now : Nat},
    cfg.graceMs < now + fuel → 0 < fuel → ∃ r, waitFrom w scan cfg fuel now = some r := by
  intro fuel
  induction fuel with
  | zero => exact fun _ h => absurd h (Nat.lt_irrefl 0)
  | succ fuel ih =>
    intro now hfuel _
    rw [waitFrom]
    dsimp only
    split
    · exact ⟨_, rfl⟩
    split
    · exact ⟨_, rfl⟩
    split
    · exact ⟨_, rfl⟩
    · rename_i hgrace
      have hscan := w.scanEnds_ge now
      have hsleep := w.wakes_ge (w.scanEnds now)
        (min cfg.pollMs (cfg.graceMs - w.scanEnds now))
      have hpoll := cfg.poll_pos
      exact ih (by omega) (by omega)

theorem waitForLinuxInjectedDescendants_eq (w : World) (scan : Scan) (cfg : Settings) :
    waitFrom w scan cfg (cfg.graceMs + 1) 0 =
      some (waitForLinuxInjectedDescendants w scan cfg) := by
  have hfuel : cfg.graceMs < 0 + (cfg.graceMs + 1) := by omega
  obtain ⟨r, hr⟩ := waitFrom_ends w scan cfg hfuel (Nat.succ_pos _)
  rw [waitForLinuxInjectedDescendants, hr]
  rfl

/-- What the wait may end with: nothing, after a scan that found nobody; or a loss, for a scan that
failed or for what a scan found that was done after the grace. -/
inductive Ended (w : World) (scan : Scan) (cfg : Settings) : Option NimStr → Prop
  | gone {t : Nat} {l : List Listed} (listed : w.listing t = some l)
    (nobody : ∀ p ∈ processes l, ¬ Reported scan p) : Ended w scan cfg none
  | failed {t : Nat} (listed : w.listing t = none) : Ended w scan cfg (some scanFailedDetail)
  | live {t : Nat} {l : List Listed} (listed : w.listing t = some l)
    (somebody : ∃ p ∈ processes l, Reported scan p) (late : cfg.graceMs ≤ w.scanEnds t) :
    Ended w scan cfg (some (stillLiveDetail
      (((processes l).filter fun p => decide (Reported scan p)).map (·.stat.pid.toNat))))

theorem ended_of_waitFrom {r : Option NimStr} : ∀ {fuel now : Nat},
    waitFrom w scan cfg fuel now = some r → Ended w scan cfg r := by
  intro fuel
  induction fuel with
  | zero => exact fun h => absurd h (by simp [waitFrom])
  | succ fuel ih =>
    intro now h
    rw [waitFrom] at h
    dsimp only at h
    cases hlist : w.listing now with
    | none =>
      rw [World.scan_none hlist, if_pos rfl] at h
      obtain rfl := Option.some.inj h
      exact .failed hlist
    | some l =>
      rw [World.scan_some hlist, if_neg Bool.false_ne_true] at h
      split at h
      · rename_i hempty
        obtain rfl := Option.some.inj h
        refine .gone hlist fun p hp hreported => ?_
        rw [List.isEmpty_iff, List.map_eq_nil_iff, List.filter_eq_nil_iff] at hempty
        exact hempty p hp (decide_eq_true hreported)
      · rename_i hsome
        split at h
        · rename_i hlate
          obtain rfl := Option.some.inj h
          refine .live hlist ?_ hlate
          by_contra hnobody
          refine hsome ?_
          rw [List.isEmpty_iff, List.map_eq_nil_iff, List.filter_eq_nil_iff]
          exact fun p hp hdec => hnobody ⟨p, hp, of_decide_eq_true hdec⟩
        · exact ih h

end Loop

theorem wait_ended (w : World) (scan : Scan) (cfg : Settings) :
    Ended w scan cfg (waitForLinuxInjectedDescendants w scan cfg) :=
  ended_of_waitFrom (waitForLinuxInjectedDescendants_eq w scan cfg)

/-- **The wait ends, and how**, for every table of processes and every clock: the scans that the
grace has milliseconds for, and one, are enough. -/
theorem wait_settles (w : World) (scan : Scan) (cfg : Settings) :
    waitFrom w scan cfg (cfg.graceMs + 1) 0 =
        some (waitForLinuxInjectedDescendants w scan cfg) ∧
      Ended w scan cfg (waitForLinuxInjectedDescendants w scan cfg) :=
  ⟨waitForLinuxInjectedDescendants_eq w scan cfg, wait_ended w scan cfg⟩

/-! ## 2. The loss in the merge -/

section Loss

variable {run : RunId}

theorem pids_noSpace (pids : List Nat) : ∀ c ∈ str "pids=" ++
    joinStr (str ",") (pids.map fun pid => decimal (UInt64.ofNat pid)), isSpace c = false := by
  intro c hc
  rcases List.mem_append.mp hc with hc | hc
  · have hall : ∀ c ∈ str "pids=", isSpace c = false := by decide +kernel
    exact hall c hc
  · by_contra hspace
    rw [Bool.not_eq_false] at hspace
    have hdigit : isDigit c = false := by
      by_contra hd
      rw [Bool.not_eq_false] at hd
      simp only [isDigit, Bool.and_eq_true, decide_eq_true_eq] at hd
      simp only [isSpace, Bool.or_eq_true, beq_iff_eq] at hspace
      rcases hspace with ((((rfl | rfl) | rfl) | rfl) | rfl) | rfl <;> exact absurd hd (by decide)
    have hcomma : c ∉ str "," := by
      intro hmem
      obtain rfl : c = 44 := List.mem_singleton.mp hmem
      exact absurd hspace (by decide)
    refine not_mem_joinStr hcomma _ (fun p hp => ?_) hc
    obtain ⟨pid, -, rfl⟩ := List.mem_map.mp hp
    exact decimal_not_mem hdigit _

/-- What the wait publishes names no run of its own. -/
theorem Ended.noRun {w : World} {scan : Scan} {cfg : Settings} {d : NimStr}
    (h : Ended w scan cfg (some d)) :
    matchingTokens d RunIdToken = [] ∧ ∃ rest, d = str "linux" ++ rest := by
  cases h with
  | failed _ =>
    exact ⟨matchingTokens_of_noEq (by decide), str " injected-descendant /proc scan failed", rfl⟩
  | @live t l hlisted hsome hlate =>
    generalize hpids : ((processes l).filter fun p => decide (Reported scan p)).map
      (·.stat.pid.toNat) = pids
    have hsplit : stillLiveDetail pids =
        str "linux injected descendants still live after root exit" ++ 32 :: (str "pids=" ++
          joinStr (str ",") (pids.map fun pid => decimal (UInt64.ofNat pid))) := by
      have hlit : str "linux injected descendants still live after root exit pids=" =
          str "linux injected descendants still live after root exit" ++ 32 :: str "pids=" := by
        decide
      rw [stillLiveDetail, hlit, List.append_assoc, List.cons_append]
    constructor
    · have hfirst : matchingTokens (str "linux injected descendants still live after root exit")
          RunIdToken = [] := matchingTokens_of_noEq (by decide)
      have hother : tokenStartsWith (RunIdToken ++ str "=") (str "pids=" ++
          joinStr (str ",") (pids.map fun pid => decimal (UInt64.ofNat pid))) = false := by
        have hlit : str "pids=" = 112 :: str "ids=" := by decide
        have hrun : RunIdToken ++ str "=" = 114 :: str "un=" := by decide
        rw [hlit, hrun, List.cons_append, tokenStartsWith, List.isPrefixOf]
        simp
      have hne : str "pids=" ++
          joinStr (str ",") (pids.map fun pid => decimal (UInt64.ofNat pid)) ≠ [] :=
        List.append_ne_nil_of_left_ne_nil (by decide) _
      rw [hsplit, matchingTokens_append_space (by decide), hfirst, List.nil_append,
        matchingTokens_eq_filter, tokens_of_noSpace (pids_noSpace pids) hne,
        List.filter_cons_of_neg (by rw [hother]; exact Bool.false_ne_true), List.filter_nil]
    · refine ⟨str " injected descendants still live after root exit pids=" ++
        joinStr (str ",") (pids.map fun pid => decimal (UInt64.ofNat pid)), ?_⟩
      rw [stillLiveDetail, ← List.append_assoc]
      rfl

/-- The run id behind a detail without one is the record's. -/
theorem detailToken_run {d : NimStr} (hd : matchingTokens d RunIdToken = [])
    (hrun : run.text ≠ []) :
    detailToken (d ++ str " run=" ++ run.text) RunIdToken = run.text := by
  have hlit : str " run=" = 32 :: str "run=" := by decide
  have hlen : (str "run=").length = RunIdToken.length + 1 := by decide
  rw [detailToken, hlit, List.append_assoc, List.cons_append,
    matchingTokens_append_space (by decide), hd, List.nil_append,
    matchingTokens_stampToken run hrun, if_pos (stampToken_isRun hrun)]
  exact List.drop_left' hlen

theorem not_marker {r : MonitorRecord} {rest : NimStr} (h : r.detail = str "linux" ++ rest) :
    isReadTailMarker r = false := by
  have hstart : ∀ {p : NimStr}, p ≠ [] → p.head? ≠ some 108 → startsWith r.detail p = false := by
    intro p hne hhead
    by_contra hstarts
    rw [Bool.not_eq_false] at hstarts
    obtain ⟨c, t, rfl⟩ := List.exists_cons_of_ne_nil hne
    have hsplit := eq_append_drop hstarts
    rw [h] at hsplit
    have hl : str "linux" = 108 :: str "inux" := by decide
    rw [hl, List.cons_append, List.cons_append] at hsplit
    exact hhead (congrArg some (List.cons.inj hsplit).1.symm)
  rw [isReadTailMarker, isPendingMarker, isCommittedMarker, hstart (by decide) (by decide),
    hstart (by decide) (by decide), Bool.and_false, Bool.or_self]

/-- **A loss of this run is not accounted for**, however the merge judges its identity. -/
theorem not_spec_of_loss {m : MergeInput} {r : MonitorRecord} (hr : r ∈ capturedRecords m)
    (hkind : r.kind = mrEventLoss) (hmarker : isReadTailMarker r = false)
    (hrun : m.currentRunId ≠ []) (htoken : detailToken r.detail RunIdToken = m.currentRunId) :
    ¬ VerdictSpec isLoss m := by
  intro hspec
  have hscope : m.runScope = m.currentRunId := by
    rw [MergeInput.runScope, if_neg (by simpa using hrun)]
  have haction : staleAction (capturedRecords m) m.runScope r =
      if hasDuplicateIdentityToken r.detail then .duplicateIdentity else .keep := by
    rw [hscope, staleAction_of_named hrun _ (htoken ▸ hrun), if_pos htoken]
  split at haction
  · rcases staleLosses_eq_nil.mp hspec.scope r hr with hkeep | hdrop
    · exact absurd (haction.symm.trans hkeep) (by simp)
    · exact absurd (haction.symm.trans hdrop) (by simp)
  · have hkept : r ∈ keptRecords m := mem_staleKept.mpr ⟨hr, haction⟩
    have hloss : isLoss r = true := by simp [isLoss, hkind]
    exact absurd (hmarker.symm.trans (hspec.noLoss r hkept hloss)) Bool.false_ne_true

end Loss

/-! ## 3. The verdict -/

/-- The loss reaches the merge: the set stores its element, or it is in a fragment. -/
def Taken (h : MonitorHandle) (l : LauncherLoss) : Prop :=
  (l.status.stores = true ∧
      (encodeDepSetElement [] (l.record h) 512 dseRequireFit).isSome = true) ∨
    ∃ e ∈ h.merge.fragments, l.record h ∈ e.records

/-- The loss of the wait, as the host publishes it. -/
def launcherLoss (hostPid : UInt64) (status : EmitStatus) (detail : Option NimStr) :
    Option LauncherLoss :=
  detail.map fun detail => ⟨hostPid, detail, status⟩

theorem incomplete_of_loss {w : World} {scan : Scan} {cfg : Settings} {h : MonitorHandle}
    {run : RunId} {l : LauncherLoss} (hended : Ended w scan cfg (some l.detail))
    (hrun : run.text ≠ []) (hid : h.merge.currentRunId = run.text) (htaken : Taken h l)
    (appends : List SetAppend) :
    ∃ evidence, collectMonitorEvidence h (some l) (some (setRun appends)) = .ok evidence ∧
      evidence.depFile.completeness = mcIncomplete := by
  have hholds : (setRun appends).Holds (appends.filterMap SetAppend.stored) := by
    have hrun := holds_start.run appends
    rwa [List.nil_append] at hrun
  obtain ⟨drained, evidence, hdrained, -, hevidence, hverdict⟩ :=
    collectMonitorEvidence_of_holds hholds h (some l)
  have hmem (x : MonitorRecord) : x ∈ drained ↔
      ∃ r ∈ publishedRecords h appends (some l), identityRecord r = x := by
    rw [hdrained]
    exact mem_publishedSnapshot
  refine ⟨evidence, hevidence, ?_⟩
  rw [incomplete_iff, ne_eq, hverdict]
  rintro ⟨-, hspec⟩
  obtain ⟨hnone, rest, hlinux⟩ := hended.noRun
  -- the record, or its identity form, is captured; both have its detail
  have hcaptured : ∃ r ∈ capturedRecords (h.mergeInput drained), r.kind = mrEventLoss ∧
      r.detail = l.detail ++ str " run=" ++ run.text := by
    have hdetail : (l.record h).detail = l.detail ++ str " run=" ++ run.text := by
      rw [← hid]
      rfl
    rcases htaken with ⟨hstores, hfits⟩ | ⟨e, he, hin⟩
    · refine ⟨identityRecord (l.record h), List.mem_append_right _ ((hmem _).mpr
        ⟨l.record h, List.mem_append_right _ ?_, rfl⟩), identityRecord_kind _, ?_⟩
      · obtain ⟨element, helement⟩ := Option.isSome_iff_exists.mp hfits
        simp only [launcherPublished, helement, hstores, if_true, List.mem_singleton]
      · rw [identityRecord_detail, hdetail]
    · exact ⟨l.record h, List.mem_append_left _ (List.mem_flatMap.mpr ⟨e, he, hin⟩), rfl, hdetail⟩
  obtain ⟨r, hr, hkind, hdetail⟩ := hcaptured
  have hmarker : isReadTailMarker r = false := by
    have hfull : r.detail = str "linux" ++ (rest ++ (str " run=" ++ run.text)) := by
      rw [hdetail, hlinux, List.append_assoc, List.append_assoc]
    exact not_marker hfull
  refine not_spec_of_loss hr hkind hmarker ?_ ?_ hspec
  · show h.merge.currentRunId ≠ []
    rw [hid]
    exact hrun
  · rw [hdetail, detailToken_run hnone hrun]
    exact hid.symm

/-- **A descendant that outlives the grace makes the run incomplete.**  No scan that succeeds finds
nobody, and the loss the wait publishes reaches the merge. -/
theorem incomplete_of_outlived (w : World) (scan : Scan) (cfg : Settings) (h : MonitorHandle)
    (run : RunId) (hostPid : UInt64) (status : EmitStatus) (appends : List SetAppend)
    (hrun : run.text ≠ []) (hid : h.merge.currentRunId = run.text)
    (hlive : ∀ t l, w.listing t = some l → ∃ p ∈ processes l, Reported scan p)
    (htaken : ∀ l,
      launcherLoss hostPid status (waitForLinuxInjectedDescendants w scan cfg) = some l →
      Taken h l) :
    ∃ evidence, collectMonitorEvidence h
        (launcherLoss hostPid status (waitForLinuxInjectedDescendants w scan cfg))
        (some (setRun appends)) = .ok evidence ∧
      evidence.depFile.completeness = mcIncomplete := by
  have hended := wait_ended w scan cfg
  generalize waitForLinuxInjectedDescendants w scan cfg = r at hended htaken
  cases r with
  | none =>
    -- silence is a scan without anybody
    cases hended with
    | gone hlisted hnobody =>
      obtain ⟨p, hp, hreported⟩ := hlive _ _ hlisted
      exact absurd hreported (hnobody p hp)
  | some detail => exact incomplete_of_loss hended hrun hid (htaken _ rfl) appends

/-- A daemon the root left behind, in every scan. -/
def daemonWorld : World where
  listing := fun _ => some [.process daemonProcess]
  scanEnds := fun t => t + 3
  wakes := fun t d => t + d
  scanEnds_ge := fun t => Nat.le_add_right t 3
  wakes_ge := fun _ _ => Nat.le_refl _

def daemonSettings : Settings := ⟨20, 5, by decide⟩

def daemonHandle : MonitorHandle := { merge := { currentRunId := str "r1" } }

theorem daemon_waits : waitForLinuxInjectedDescendants daemonWorld runScan daemonSettings =
    some (str "linux injected descendants still live after root exit pids=5000") := by
  decide +kernel

theorem daemon_taken : Taken daemonHandle
    ⟨100, str "linux injected descendants still live after root exit pids=5000", emInserted⟩ := by
  exact .inl ⟨rfl, by decide +kernel⟩

theorem incomplete_of_outlived_daemon :
    ∃ evidence, collectMonitorEvidence daemonHandle
        (launcherLoss 100 emInserted
          (waitForLinuxInjectedDescendants daemonWorld runScan daemonSettings))
        (some (setRun [])) = .ok evidence ∧
      evidence.depFile.completeness = mcIncomplete :=
  incomplete_of_outlived daemonWorld runScan daemonSettings daemonHandle
    ⟨str "r1", by decide +kernel⟩ 100 emInserted [] (by decide) rfl
    (fun _ l hl => ⟨daemonProcess, by
      obtain rfl := Option.some.inj hl
      exact List.mem_singleton.mpr rfl, by decide +kernel⟩)
    (fun l hl => by
      rw [daemon_waits] at hl
      obtain rfl := Option.some.inj hl
      exact daemon_taken)

end IoMon.Grace
