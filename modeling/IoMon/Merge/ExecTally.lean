/-
# The exec tally and process histories

Signal (b) of the subtree pass compares two counters of a pid: its process-starts, and its exec
records less the `execstatus=failed` ones.  Here the counters are computed for the records a pid
really emits over its history: it may be held by several processes one after the other, each a
chain of images, and an image that cannot load the shim emits nothing, not even its own execs.

Per process the two counters differ by one exactly when its last image was monitored
(`incarnation_balance`), so what the signal sees is how many of the processes that held the pid
ended in a monitored image.
-/
import IoMon.Merge.Inference
import IoMon.Shim.Emit

namespace IoMon

open ByteText MonitorRecordKind MonitorObservationKind

/-! ## 1. The accounting events of a stream -/

def ShimEvent.isStart : ShimEvent → Bool
  | processStart => true
  | _ => false

def ShimEvent.isExec : ShimEvent → Bool
  | exec _ => true
  | _ => false

def ShimEvent.isExecFailed : ShimEvent → Bool
  | execFailed _ _ => true
  | _ => false

/-- The events the two counters are made of. -/
def ShimEvent.isAccounting (ev : ShimEvent) : Bool := ev.isStart || ev.isExec || ev.isExecFailed

/-- The records of a pid the two counters are made of. -/
def accountsFor (pid : UInt64) (r : MonitorRecord) : Bool :=
  r.osPid == pid && (r.kind == mrProcessStart || r.kind == mrProcessExec)

/-- A list of accounting events of one pid. -/
structure AccountingOf (pid : UInt64) (events : List (Origin × ShimEvent)) : Prop where
  osPid : ∀ e ∈ events, e.1.osPid = pid
  accounting : ∀ e ∈ events, e.2.isAccounting = true

theorem wholeStream_cons (run : RunId) (e : Origin × ShimEvent)
    (events : List (Origin × ShimEvent)) :
    wholeStream run (e :: events) =
      (e.2.records e.1).map (stampRunId run.text) ++ wholeStream run events := by
  have hall : emitRecord FullInterest .esFull run.text = fun r => some (stampRunId run.text r) := by
    funext r
    rw [emitRecord_eq, recordPublished_full, if_pos rfl]
  simp only [wholeStream, shimStream, hall, List.flatMap_cons, List.filterMap_eq_map',
    List.map_append]

@[simp] theorem stampRunId_kind (run : NimStr) (r : MonitorRecord) :
    (stampRunId run r).kind = r.kind := by
  unfold stampRunId; split <;> rfl

@[simp] theorem stampRunId_osPid (run : NimStr) (r : MonitorRecord) :
    (stampRunId run r).osPid = r.osPid := by
  unfold stampRunId; split <;> rfl

/-! ## 2. The failure token survives the stamp -/

/-- A run stamp is no `execstatus` token. -/
theorem runToken_not_execStatus (run : NimStr) :
    tokenStartsWith (ExecStatusToken ++ str "=") (str "run=" ++ run) = false := by
  have hhead : ExecStatusToken ++ str "=" = 101 :: str "xecstatus=" := by decide
  have hrun : str "run=" ++ run = 114 :: (str "un=" ++ run) := by
    rw [show str "run=" = 114 :: str "un=" by decide]; rfl
  rw [hhead, hrun, tokenStartsWith, List.isPrefixOf_cons_cons]
  simp

/-- An exec record is no failure. -/
theorem execFailed_exec (run : RunId) (o : Origin) (path : NimStr) :
    execFailed (stampRunId run.text { baseRecord o mrProcessExec moExecute with path := path }) =
      false := by
  have hnone : ∀ d, matchingTokens d ExecStatusToken = [] → detailToken d ExecStatusToken = [] := by
    intro d h
    rw [detailToken, h]
  have hne : ([] == str "failed") = false := by decide
  rw [execFailed, hnone _ ?_, hne]
  by_cases hrun : run.text = []
  · rw [stampRunId, if_pos (by simp [hrun])]
    rfl
  · rw [matchingTokens_stamp (by simp [baseRecord]) hrun, runToken_not_execStatus, if_neg (by simp)]

/-- The first token of a failure record says so, stamped or not. -/
theorem matchingTokens_failed (errno : UInt64) (t : NimStr) :
    (matchingTokens ((str "execstatus=failed errno=" ++ decimal errno) ++ t)
      ExecStatusToken).head? = some (str "execstatus=failed") := by
  have hsplit : (str "execstatus=failed errno=" ++ decimal errno) ++ t =
      str "execstatus=failed" ++ 32 :: (str "errno=" ++ decimal errno ++ t) := by
    rw [show str "execstatus=failed errno=" = str "execstatus=failed" ++ 32 :: str "errno=" by
      decide]
    simp only [List.append_assoc, List.cons_append]
  have hfirst : matchingTokens (str "execstatus=failed") ExecStatusToken =
      [str "execstatus=failed"] := by decide
  rw [hsplit, matchingTokens_append_space (by decide), hfirst]
  rfl

theorem execFailed_execFailed (run : RunId) (o : Origin) (path : NimStr) (errno : UInt64) :
    execFailed (stampRunId run.text { baseRecord o mrProcessExec moExecute with
      path := path, result := -errno.toInt64
      detail := str "execstatus=failed errno=" ++ decimal errno }) = true := by
  have hdetail : ∀ d, (matchingTokens d ExecStatusToken).head? = some (str "execstatus=failed") →
      detailToken d ExecStatusToken = str "failed" := by
    intro d h
    obtain ⟨rest, hrest⟩ := List.head?_eq_some_iff.mp h
    rw [detailToken, hrest]
    exact (by decide : (str "execstatus=failed").drop (ExecStatusToken.length + 1) = str "failed")
  have hstamp : ∃ t, (stampRunId run.text { baseRecord o mrProcessExec moExecute with
      path := path, result := -errno.toInt64
      detail := str "execstatus=failed errno=" ++ decimal errno }).detail =
      (str "execstatus=failed errno=" ++ decimal errno) ++ t := by
    unfold stampRunId
    split
    · exact ⟨[], by simp⟩
    · rw [if_neg]
      · exact ⟨str " " ++ (str "run=" ++ run.text), by simp only [List.append_assoc]⟩
      · rw [show str "execstatus=failed errno=" = 101 :: str "xecstatus=failed errno=" by decide]
        simp
  obtain ⟨t, ht⟩ := hstamp
  rw [execFailed, ht, hdetail _ (matchingTokens_failed errno t)]
  decide

/-! ## 3. The counters over a stream -/

section Counters

variable (run : RunId) {pid : UInt64} {events : List (Origin × ShimEvent)}

/-- One accounting event is one record, counted by the counter of its own kind. -/
theorem counters_event {o : Origin} {ev : ShimEvent} (ho : o.osPid = pid)
    (ha : ev.isAccounting = true) :
    startCount ((ev.records o).map (stampRunId run.text)) pid = (if ev.isStart then 1 else 0) ∧
    execCount ((ev.records o).map (stampRunId run.text)) pid = (if ev.isExec then 1 else 0) ∧
    execFailedCount ((ev.records o).map (stampRunId run.text)) pid =
      (if ev.isExecFailed then 1 else 0) := by
  subst ho
  cases ev with
  | processStart =>
    simp [startCount, execCount, execFailedCount, ShimEvent.records, baseRecord,
      ShimEvent.isStart, ShimEvent.isExec, ShimEvent.isExecFailed]
  | exec path =>
    have hok := execFailed_exec run o path
    simp only [baseRecord] at hok
    simp [startCount, execCount, execFailedCount, ShimEvent.records, hok, baseRecord,
      ShimEvent.isStart, ShimEvent.isExec, ShimEvent.isExecFailed]
  | execFailed path errno =>
    have hfail := execFailed_execFailed run o path errno
    simp only [baseRecord] at hfail
    simp [startCount, execCount, execFailedCount, ShimEvent.records, hfail, baseRecord,
      ShimEvent.isStart, ShimEvent.isExec, ShimEvent.isExecFailed]
  | _ => exact absurd ha Bool.false_ne_true

/-- **The counters of a stream count its events.** -/
theorem counters_stream (h : AccountingOf pid events) :
    startCount (wholeStream run events) pid = events.countP (fun e => e.2.isStart) ∧
    execCount (wholeStream run events) pid = events.countP (fun e => e.2.isExec) ∧
    execFailedCount (wholeStream run events) pid = events.countP (fun e => e.2.isExecFailed) := by
  induction events with
  | nil => exact ⟨rfl, rfl, rfl⟩
  | cons e rest ih =>
    obtain ⟨hs, he, hf⟩ := ih ⟨fun e' h' => h.osPid e' (List.mem_cons_of_mem _ h'),
      fun e' h' => h.accounting e' (List.mem_cons_of_mem _ h')⟩
    obtain ⟨hs₀, he₀, hf₀⟩ := counters_event run (h.osPid e (List.mem_cons_self ..))
      (h.accounting e (List.mem_cons_self ..))
    rw [wholeStream_cons]
    simp only [startCount, execCount, execFailedCount, List.countP_append, List.countP_cons] at *
    omega

end Counters

/-! ## 4. Histories -/

/-- One image of a process: whether it can load the shim, the exec attempts that failed in it
(path and errno), and the path it was entered by. -/
structure Image where
  injectable : Bool
  path : NimStr
  failedExecs : List (NimStr × UInt64)
  deriving DecidableEq, Repr

/-- A process that held the pid: the images it went through. -/
structure Incarnation where
  images : List Image
  nonempty : images ≠ []

/-- What an image emits, given the image that replaces it.  One that cannot load the shim emits
nothing. -/
def Image.events (img : Image) (next : Option Image) : List ShimEvent :=
  if img.injectable then
    .processStart :: (img.failedExecs.flatMap fun f => [.exec f.1, .execFailed f.1 f.2]) ++
      (match next with
        | some image => [.exec image.path]
        | none => [])
  else []

/-- The images of a process, one replacing the other. -/
def imageEvents : List Image → List ShimEvent
  | [] => []
  | [img] => img.events none
  | img :: next :: rest => img.events (some next) ++ imageEvents (next :: rest)

/-- What the pid emits over its whole history. -/
def historyEvents (history : List Incarnation) : List ShimEvent :=
  history.flatMap fun inc => imageEvents inc.images

/-- The process ended in a monitored image. -/
def Incarnation.endsInjectable (inc : Incarnation) : Bool :=
  (inc.images.getLast inc.nonempty).injectable

/-- Among these records the pid's process-starts and exec records are, in some order, those its
history emits.  Records of other kinds and of other pids are arbitrary. -/
def ObservedAs (records : List MonitorRecord) (pid : UInt64) (history : List Incarnation) :
    Prop :=
  ∃ (run : RunId) (events : List (Origin × ShimEvent)), (∀ e ∈ events, e.1.osPid = pid) ∧
    events.map (·.2) = historyEvents history ∧
    (records.filter (accountsFor pid)).Perm (wholeStream run events)

/-! ## 5. The balance of a history -/

theorem countP_failures (p : ShimEvent → Bool) (failures : List (NimStr × UInt64)) (a b : Nat)
    (ha : ∀ path, (if p (.exec path) then 1 else 0) = a)
    (hb : ∀ path errno, (if p (.execFailed path errno) then 1 else 0) = b) :
    (failures.flatMap fun f => [ShimEvent.exec f.1, .execFailed f.1 f.2]).countP p =
      failures.length * (a + b) := by
  induction failures with
  | nil => simp
  | cons f rest ih =>
    simp only [List.flatMap_cons, List.countP_append, ih, List.countP_cons, List.countP_nil,
      List.length_cons, ha, hb]
    ring

/-- A monitored image starts once, and its failed execs cancel. -/
theorem image_balance (img : Image) (next : Option Image) :
    (img.events next).countP ShimEvent.isStart + (img.events next).countP ShimEvent.isExecFailed +
      (img.injectable && next.isSome).toNat =
    (img.events next).countP ShimEvent.isExec + img.injectable.toNat := by
  unfold Image.events
  cases hi : img.injectable with
  | false => simp
  | true =>
    have hs := countP_failures ShimEvent.isStart img.failedExecs 0 0 (fun _ => rfl) fun _ _ => rfl
    have he := countP_failures ShimEvent.isExec img.failedExecs 1 0 (fun _ => rfl) fun _ _ => rfl
    have hf := countP_failures ShimEvent.isExecFailed img.failedExecs 0 1 (fun _ => rfl)
      fun _ _ => rfl
    cases next <;>
      simp only [if_true, List.countP_append, List.countP_cons, List.countP_nil, hs, he, hf,
        ShimEvent.isStart, ShimEvent.isExec, ShimEvent.isExecFailed, Option.isSome_none,
        Option.isSome_some, Bool.and_true, Bool.and_false, Bool.false_eq_true, if_false,
        Bool.toNat_true, Bool.toNat_false] <;>
      omega

/-- **Per process the counters differ by one exactly when its last image was monitored.** -/
theorem incarnation_balance : ∀ (images : List Image) (hne : images ≠ []),
    (imageEvents images).countP ShimEvent.isStart +
      (imageEvents images).countP ShimEvent.isExecFailed =
    (imageEvents images).countP ShimEvent.isExec + (images.getLast hne).injectable.toNat
  | [img], _ => by
    have := image_balance img none
    simp only [imageEvents, List.getLast_singleton]
    simpa using this
  | img :: next :: rest, _ => by
    have hhead := image_balance img (some next)
    have htail := incarnation_balance (next :: rest) (by simp)
    simp only [imageEvents, List.countP_append, List.getLast_cons_cons] at htail ⊢
    simp only [Option.isSome_some, Bool.and_true] at hhead
    omega

/-- **The balance of a history** is the number of processes that ended monitored. -/
theorem history_balance (history : List Incarnation) :
    (historyEvents history).countP ShimEvent.isStart +
      (historyEvents history).countP ShimEvent.isExecFailed =
    (historyEvents history).countP ShimEvent.isExec +
      history.countP Incarnation.endsInjectable := by
  induction history with
  | nil => rfl
  | cons inc rest ih =>
    have hinc := incarnation_balance inc.images inc.nonempty
    have hends : (if inc.endsInjectable = true then 1 else 0) =
        (inc.images.getLast inc.nonempty).injectable.toNat := by
      unfold Incarnation.endsInjectable
      cases (inc.images.getLast inc.nonempty).injectable <;> rfl
    simp only [historyEvents, List.flatMap_cons, List.countP_append, List.countP_cons,
      hends] at ih ⊢
    omega

/-! ## 6. What signal (b) reports -/

/-- The subtree pass reports an exec loss for the pid. -/
def ExecLossReported (records : List MonitorRecord) (trusted : List UInt64) (pid : UInt64) :
    Prop :=
  ∃ execs starts image, .execImage pid execs starts image ∈ unmonitoredSubtreeLosses records trusted

theorem execLossReported_iff {records : List MonitorRecord} {trusted : List UInt64}
    {pid : UInt64} : ExecLossReported records trusted pid ↔ execTrips records pid = true := by
  have hother : ∀ execs starts image,
      .execImage pid execs starts image ∈ unmonitoredSubtreeLosses records trusted ↔
        .execImage pid execs starts image ∈ execLosses records := by
    intro execs starts image
    have hspawn : .execImage pid execs starts image ∉ spawnLosses records := by
      intro h
      obtain ⟨q, hq, heq⟩ := List.mem_map.mp h
      obtain ⟨r, _, hr⟩ := List.mem_filterMap.mp (Keyed.mem_of_mem_firstPerKey hq)
      unfold spawnLoss at hr
      split at hr
      · rw [← Option.some.inj hr] at heq
        exact absurd heq (by simp)
      · exact absurd hr (by simp)
    have hpeer : .execImage pid execs starts image ∉
        (ipcLosses records trusted).map (·.2) := by
      intro h
      obtain ⟨q, hq, heq⟩ := List.mem_map.mp h
      obtain ⟨r, _, hr⟩ := List.mem_filterMap.mp (Keyed.mem_of_mem_firstPerKey hq)
      unfold ipcLoss at hr
      split at hr
      · rw [← Option.some.inj hr] at heq
        exact absurd heq (by simp)
      · exact absurd hr (by simp)
    simp only [unmonitoredSubtreeLosses, List.mem_append, hspawn, hpeer, false_or, or_false]
  constructor
  · rintro ⟨execs, starts, image, h⟩
    obtain ⟨p, _, hp⟩ := List.mem_filterMap.mp ((hother ..).mp h)
    unfold execLoss at hp
    split at hp
    · rename_i htrips
      have : p = pid := by
        have := Option.some.inj hp
        simp only [SubtreeLoss.execImage.injEq] at this
        exact this.1
      rwa [this] at htrips
    · exact absurd hp (by simp)
  · intro h
    refine ⟨(effectiveExecs records pid).toNat, startCount records pid, lastExecPath records pid,
      (hother ..).mpr (List.mem_filterMap.mpr ⟨pid, mem_execPids_of_trips h, ?_⟩)⟩
    rw [execLoss, if_pos h]

/-- The counters read the pid's own records, in any order. -/
theorem counters_perm {records stream : List MonitorRecord} {pid : UInt64}
    (h : (records.filter (accountsFor pid)).Perm stream) :
    startCount records pid = startCount stream pid ∧
      execCount records pid = execCount stream pid ∧
      execFailedCount records pid = execFailedCount stream pid := by
  have hcount : ∀ p : MonitorRecord → Bool, (∀ r, p r = true → accountsFor pid r = true) →
      records.countP p = stream.countP p := by
    intro p hp
    rw [← h.countP_eq, List.countP_filter]
    refine List.countP_congr fun r _ => ?_
    cases hpr : p r with
    | false => simp
    | true => simp [hp r hpr]
  refine ⟨hcount _ fun r hr => ?_, hcount _ fun r hr => ?_, hcount _ fun r hr => ?_⟩
  · simp only [Bool.and_eq_true, beq_iff_eq] at hr
    simp [accountsFor, hr.1, hr.2]
  · simp only [Bool.and_eq_true, beq_iff_eq] at hr
    simp [accountsFor, hr.1.1, hr.1.2]
  · simp only [Bool.and_eq_true, beq_iff_eq] at hr
    simp [accountsFor, hr.1.1, hr.1.2]

theorem isAccounting_image (img : Image) (next : Option Image) :
    ∀ ev ∈ img.events next, ev.isAccounting = true := by
  intro ev hev
  unfold Image.events at hev
  split at hev
  · rcases List.mem_append.mp hev with hev | hev
    · rcases List.mem_cons.mp hev with rfl | hev
      · rfl
      · obtain ⟨f, _, hf⟩ := List.mem_flatMap.mp hev
        rcases List.mem_cons.mp hf with rfl | hf
        · rfl
        · rw [List.mem_singleton.mp hf]; rfl
    · cases next with
      | none => exact absurd hev (by simp)
      | some image => rw [List.mem_singleton.mp hev]; rfl
  · exact absurd hev (by simp)

theorem isAccounting_images : ∀ (images : List Image), ∀ ev ∈ imageEvents images,
    ev.isAccounting = true
  | [], ev, hev => absurd hev (by simp [imageEvents])
  | [img], ev, hev => isAccounting_image img none ev hev
  | img :: next :: rest, ev, hev => by
    rcases List.mem_append.mp hev with hev | hev
    · exact isAccounting_image img (some next) ev hev
    · exact isAccounting_images (next :: rest) ev hev

/-- **The counters of an observed pid**: starts exceed the exec tally by the number of processes
that ended monitored. -/
theorem effectiveExecs_history {records : List MonitorRecord} {pid : UInt64}
    {history : List Incarnation} (h : ObservedAs records pid history) :
    effectiveExecs records pid + history.countP Incarnation.endsInjectable =
      startCount records pid := by
  obtain ⟨run, events, hpid, hevents, hperm⟩ := h
  have hacc : AccountingOf pid events := by
    refine ⟨hpid, fun e he => ?_⟩
    have hmem : e.2 ∈ historyEvents history := hevents ▸ List.mem_map_of_mem he
    obtain ⟨inc, _, hinc⟩ := List.mem_flatMap.mp hmem
    exact isAccounting_images inc.images e.2 hinc
  obtain ⟨hs, he, hf⟩ := counters_perm hperm
  obtain ⟨hs', he', hf'⟩ := counters_stream run hacc
  have hcount : ∀ p : ShimEvent → Bool,
      events.countP (fun e => p e.2) = (historyEvents history).countP p := by
    intro p
    rw [← hevents, List.countP_map]
    rfl
  have hbal := history_balance history
  rw [← hcount, ← hcount, ← hcount] at hbal
  rw [effectiveExecs, he, hf, hs, hs', he', hf']
  omega

/-- **Exec accounting of a pid with a process-start.**  If a spawn names the pid and every
process that held it ended in an image that cannot load the shim, the loss is reported; if every
image was monitored, or no spawn names the pid, none is. -/
theorem execAccounting (records : List MonitorRecord) (trusted : List UInt64) (pid : UInt64)
    (history : List Incarnation) (hobs : ObservedAs records pid history)
    (hstart : 0 < startCount records pid) :
    (anchored records pid = true → (∀ inc ∈ history, inc.endsInjectable = false) →
      ExecLossReported records trusted pid) ∧
    ((∀ inc ∈ history, ∀ img ∈ inc.images, img.injectable = true) →
      ¬ ExecLossReported records trusted pid) ∧
    (anchored records pid = false → ¬ ExecLossReported records trusted pid) := by
  have hbal := effectiveExecs_history hobs
  simp only [execLossReported_iff, execTrips, Bool.and_eq_true, decide_eq_true_eq]
  refine ⟨fun hanchor hends => ?_, fun hall htrips => ?_, fun hanchor htrips => ?_⟩
  · have hzero : history.countP Incarnation.endsInjectable = 0 := by
      refine List.countP_eq_zero.mpr fun inc hinc => ?_
      rw [hends inc hinc]
      simp
    exact ⟨⟨hanchor, by omega⟩, by omega⟩
  · -- a process-start needs a process, and every process ends monitored
    have hne : history ≠ [] := by
      rintro rfl
      rw [List.countP_nil] at hbal
      obtain ⟨run, events, _, hevents, hperm⟩ := hobs
      have hnil : events = [] := List.map_eq_nil_iff.mp hevents
      have hzero := (counters_perm hperm).1
      rw [hnil] at hzero
      exact absurd hstart (by rw [hzero]; exact Nat.lt_irrefl 0)
    have hpos : 0 < history.countP Incarnation.endsInjectable := by
      obtain ⟨inc, hinc⟩ := List.exists_mem_of_ne_nil history hne
      refine List.countP_pos_iff.mpr ⟨inc, hinc, ?_⟩
      exact hall inc hinc _ (List.getLast_mem inc.nonempty)
    omega
  · rw [hanchor] at htrips
    exact absurd htrips.1.1 (by simp)

/-! ## 7. Histories the signal does not see

The signal is about the last image, and about pids some spawn names. -/

def monitoredImage : Image := ⟨true, str "/bin/sh", []⟩

def hardenedImage : Image := ⟨false, str "/usr/bin/sudo", []⟩

/-- A history of one process. -/
def oneProcess (first : Image) (rest : List Image) : List Incarnation := [⟨first :: rest, by simp⟩]

/-- What pid 7 emits over a history, each event from the same thread. -/
def pid7Events (history : List Incarnation) : List (Origin × ShimEvent) :=
  (historyEvents history).map fun ev => ({ osPid := 7 }, ev)

/-- A run without a run id. -/
def noRunId : RunId := ⟨[], by simp⟩

/-- The fork that made pid 7. -/
def spawnOf7 : MonitorRecord where
  kind := mrProcessSpawn
  observationKind := moExecute
  osPid := 1
  childOsPid := 7
  detail := str "fork"

theorem observedAs_pid7 {history : List Incarnation} (others : List MonitorRecord)
    (h : (others ++ wholeStream noRunId (pid7Events history)).filter (accountsFor 7) =
      wholeStream noRunId (pid7Events history)) :
    ObservedAs (others ++ wholeStream noRunId (pid7Events history)) 7 history := by
  refine ⟨noRunId, pid7Events history, fun e he => ?_, ?_, List.Perm.of_eq h⟩
  · obtain ⟨ev, _, rfl⟩ := List.mem_map.mp he
    rfl
  · rw [pid7Events, List.map_map]
    exact List.map_id _

theorem execAccounting_hardenedExec :
    ExecLossReported ([spawnOf7] ++ wholeStream noRunId
      (pid7Events (oneProcess monitoredImage [hardenedImage]))) [] 7 :=
  (execAccounting _ [] 7 (oneProcess monitoredImage [hardenedImage])
    (observedAs_pid7 [spawnOf7] (by decide +kernel)) (by decide +kernel)).1 (by decide +kernel)
    (by
      intro inc hinc
      rw [List.mem_singleton.mp hinc]
      rfl)

/-- A hardened image that execs a monitored one leaves no loss behind even when a spawn names the
pid, and without a spawn a hardened last image leaves none. -/
theorem execAccounting_refuted :
    (¬ ∀ (records : List MonitorRecord) (trusted : List UInt64) (pid : UInt64)
      (history : List Incarnation), ObservedAs records pid history →
      0 < startCount records pid → anchored records pid = true →
      (∃ inc ∈ history, ∃ img ∈ inc.images, img.injectable = false) →
      ExecLossReported records trusted pid) ∧
    (¬ ∀ (records : List MonitorRecord) (trusted : List UInt64) (pid : UInt64)
      (history : List Incarnation), ObservedAs records pid history →
      0 < startCount records pid →
      (∃ inc ∈ history, ∃ img ∈ inc.images, img.injectable = false) →
      ExecLossReported records trusted pid) := by
  constructor
  · intro hclaim
    have hloss := hclaim _ [] 7 (oneProcess monitoredImage [hardenedImage, monitoredImage])
      (observedAs_pid7 [spawnOf7] (by decide +kernel)) (by decide +kernel)
      (by decide +kernel) ⟨_, List.mem_singleton_self _, hardenedImage, by decide, rfl⟩
    exact absurd (execLossReported_iff.mp hloss) (by decide +kernel)
  · intro hclaim
    have hloss := hclaim _ [] 7 (oneProcess monitoredImage [hardenedImage])
      (observedAs_pid7 [] (by decide +kernel)) (by decide +kernel)
      ⟨_, List.mem_singleton_self _, hardenedImage, by decide, rfl⟩
    exact absurd (execLossReported_iff.mp hloss) (by decide +kernel)

end IoMon
