/-
# Lifecycle -- what a monitor handle may do, in which order

`startMonitor` brings a consumer up and launches a command, `pollMonitor` looks whether it has
exited, `finishMonitor` consumes the handle and collects the evidence, and a handle that is dropped
is ended by its destructor.  Finish, the destructor and the clean-up of a failed start share the
same two helpers, `waitForMonitorRoot` and `releaseMonitor`, which read the handle's flags to see
how far it got.  Every step may raise, and what a step that raised leaves in the flags is what the
next helper goes by.

The procedures are modelled for the three platforms.  Each returns the monitor it leaves and whether
it returned or raised; what happened is kept in the monitor's history.

  * `Allowed` -- the order the history has to keep;
  * `Inv` -- what ties it to the flags, with one lemma for each procedure;
  * `lifecycle_safe` -- any number of handles.

On Linux and macOS the order holds whatever fails.  On Windows the spawn is DEFERRED to
`waitForMonitorRoot`, and the clean-up of a failed start calls `waitForMonitorRoot`: a start that
fails behind its first two steps runs the command on its way out
(`failed_start_runs_command`).
-/
import IoMon.Lib.Histories
import IoMon.Lib.Strings

namespace IoMon.Lifecycle

open ByteText Histories

/-! ## 1. The handle -/

inductive Platform
  | linux | macosx | windows
  deriving DecidableEq, Repr

/-- What happens to a monitor that others can see.  `consumerGone` is `SetHost.finish`. -/
inductive LifeEvent
  | spawned | reaped | settled | collected | released | consumerGone | startRaised
  deriving DecidableEq, Repr

/-- The fields that the lifecycle reads and writes.  A moved or dropped handle is the default
one. -/
structure MonitorHandle where
  active : Bool := false
  exited : Bool := false
  settled : Bool := false
  exitCode : Int := 0
  rootPid : UInt64 := 0
  runId : NimStr := []
  fragmentDir : NimStr := []
  /-- Linux and macOS -/
  process : Option UInt64 := none
  /-- Linux -/
  depSetLive : Bool := false
  /-- macOS -/
  sandboxDir : NimStr := []
  /-- macOS -/
  ownsSandboxDir : Bool := false
  /-- Windows -/
  spawned : Bool := false
  deriving DecidableEq, Repr

/-- A monitor: the handle that owns it and what has happened to it. -/
structure Monitor where
  handle : MonitorHandle := {}
  history : List LifeEvent := []
  deriving DecidableEq, Repr

def Monitor.log (m : Monitor) (e : LifeEvent) : Monitor := { m with history := m.history ++ [e] }

/-- The monitor a procedure leaves, and whether it returned; `false` is a `CatchableError`. -/
abbrev Outcome := Monitor × Bool

/-- The next statement, unless the last one raised. -/
def Outcome.andThen (r : Outcome) (next : Monitor → Outcome) : Outcome :=
  if r.2 then next r.1 else r

/-! ## 2. Waiting, settling and releasing -/

/-- How `runWithMonitorShim` ends.  It spawns the command and waits for it in one call; when it
raises it has started nothing, or the command is gone again, or it is still running. -/
inductive Injection
  | completed (exitCode : Int) (rootPid : UInt64)
  | raisedUnstarted
  | raisedGone
  | raisedRunning
  deriving DecidableEq, Repr

/-- What a wait finds: the status of `waitForExit`, or `none` if it raises; on Windows the run. -/
structure WaitOutcome where
  exitCode : Option Int
  injection : Injection
  deriving DecidableEq, Repr

structure ReleaseOutcome where
  finishRaises : Bool
  sandboxRaises : Bool
  fragmentsRaise : Bool
  deriving DecidableEq, Repr

/-- What the safety teardown finds. -/
structure EndOutcome where
  wait : WaitOutcome
  release : ReleaseOutcome
  deriving DecidableEq, Repr

def recordRootExit (m : Monitor) (code : Int) : Monitor :=
  { m with handle := { m.handle with exitCode := code, exited := true, process := none } }

/-- The arm of Linux and macOS. -/
def waitForProcess (w : WaitOutcome) (m : Monitor) : Outcome :=
  if m.handle.process.isSome then
    match w.exitCode with
    | some code => (recordRootExit (m.log .reaped) code, true)
    | none => (m, false)
  else (m, true)

/-- The arm of Windows, where the command is spawned here. -/
def runInjected (w : WaitOutcome) (m : Monitor) : Outcome :=
  if m.handle.spawned then (m, true)
  else
    let m := { m with handle := { m.handle with spawned := true } }
    match w.injection with
    | .completed code pid =>
        let m := (m.log .spawned).log .reaped
        (recordRootExit { m with handle := { m.handle with rootPid := pid } } code, true)
    | .raisedUnstarted => (m, false)
    | .raisedGone => ((m.log .spawned).log .reaped, false)
    | .raisedRunning => (m.log .spawned, false)

def waitForMonitorRoot (p : Platform) (w : WaitOutcome) (m : Monitor) : Outcome :=
  if m.handle.exited then (m, true)
  else
    match p with
    | .linux | .macosx => waitForProcess w m
    | .windows => runInjected w m

/-- The flag is set before the grace of the Linux arm, which may raise. -/
def settleMonitorDescendants (p : Platform) (graceRaises : Bool) (m : Monitor) : Outcome :=
  if m.handle.settled then (m, true)
  else
    ({ m with handle := { m.handle with settled := true } }.log .settled,
      !(decide (p = .linux) && graceRaises))

/-- The set of the Linux arm. -/
def releaseConsumer (p : Platform) (r : ReleaseOutcome) (m : Monitor) : Outcome :=
  if p = .linux ∧ m.handle.depSetLive = true then
    ({ m with handle := { m.handle with depSetLive := false } }.log .consumerGone, !r.finishRaises)
  else (m, true)

/-- The sandbox tools of the macOS arm, if this invocation made them. -/
def releaseSandbox (p : Platform) (r : ReleaseOutcome) (m : Monitor) : Outcome :=
  if p = .macosx ∧ m.handle.ownsSandboxDir = true ∧ m.handle.sandboxDir ≠ [] then
    if r.sandboxRaises then (m, false)
    else ({ m with handle := { m.handle with sandboxDir := [], ownsSandboxDir := false } }, true)
  else (m, true)

def releaseFragments (r : ReleaseOutcome) (m : Monitor) : Outcome :=
  if m.handle.fragmentDir ≠ [] then
    if r.fragmentsRaise then (m, false)
    else ({ m with handle := { m.handle with fragmentDir := [] } }, true)
  else (m, true)

def releaseMonitor (p : Platform) (r : ReleaseOutcome) (m : Monitor) : Outcome :=
  if !m.handle.active then (m, true)
  else
    ((releaseConsumer p r
        ({ m with handle := { m.handle with active := false } }.log .released)).andThen
      (releaseSandbox p r)).andThen (releaseFragments r)

def endMonitor (p : Platform) (e : EndOutcome) (m : Monitor) : Outcome :=
  if !m.handle.active then (m, true)
  else (waitForMonitorRoot p e.wait m).andThen (releaseMonitor p e.release)

/-- `=destroy`: errors are printed and swallowed, and the fields are gone. -/
def destroy (p : Platform) (e : EndOutcome) (m : Monitor) : Monitor :=
  { (endMonitor p e m).1 with handle := {} }

/-! ## 3. Start, poll and finish -/

/-- What a start finds; `none` and `false` are raises.  `sandboxGiven` is the operator's
`CT_SANDBOX_TOOLS_DIR`. -/
structure StartOutcome where
  shimFound : Bool
  fragmentDir : Option NimStr
  parentDirMade : Bool
  sandboxGiven : NimStr
  sandboxDir : Option NimStr
  sandboxPopulated : Bool
  runId : NimStr
  nestedStarted : Bool
  depSetEnabled : Bool
  depSet : Option Bool
  childEnvBuilt : Bool
  commandRewritten : Bool
  process : Option UInt64
  cleanup : EndOutcome
  deriving DecidableEq, Repr

/-- What the three arms begin with. -/
def prepare (o : StartOutcome) (m : Monitor) : Outcome :=
  if !o.shimFound then (m, false)
  else
    match o.fragmentDir with
    | none => (m, false)
    | some dir =>
        ({ m with handle := { m.handle with fragmentDir := dir, active := true } }, o.parentDirMade)

def setRunId (o : StartOutcome) (m : Monitor) : Outcome :=
  ({ m with handle := { m.handle with runId := o.runId } }, true)

def prepareSandbox (o : StartOutcome) (m : Monitor) : Outcome :=
  let owns := o.sandboxGiven.isEmpty
  let m := { m with handle := { m.handle with ownsSandboxDir := owns } }
  if owns then
    match o.sandboxDir with
    | none => (m, false)
    | some dir => ({ m with handle := { m.handle with sandboxDir := dir } }, o.sandboxPopulated)
  else
    ({ m with handle := { m.handle with sandboxDir := o.sandboxGiven } }, o.sandboxPopulated)

def startDepSet (o : StartOutcome) (m : Monitor) : Outcome :=
  if o.depSetEnabled then
    match o.depSet with
    | none => (m, false)
    | some available => ({ m with handle := { m.handle with depSetLive := available } }, true)
  else (m, true)

/-- `startProcess`, which raises only if it started nothing. -/
def spawnRoot (o : StartOutcome) (m : Monitor) : Outcome :=
  match o.process with
  | none => (m, false)
  | some pid =>
      ({ m with handle := { m.handle with process := some pid, rootPid := pid } }.log .spawned,
        true)

def startMonitorInner (p : Platform) (o : StartOutcome) (m : Monitor) : Outcome :=
  match p with
  | .macosx =>
      ((((prepare o m).andThen (prepareSandbox o)).andThen (setRunId o)).andThen
        fun m => (m, o.nestedStarted && o.childEnvBuilt && o.commandRewritten)).andThen
          (spawnRoot o)
  | .linux =>
      ((((prepare o m).andThen (setRunId o)).andThen (startDepSet o)).andThen
        fun m => (m, o.childEnvBuilt)).andThen (spawnRoot o)
  | .windows =>
      ((prepare o m).andThen (setRunId o)).andThen fun m => (m, o.childEnvBuilt)

def startMonitor (p : Platform) (o : StartOutcome) : Outcome :=
  let r := startMonitorInner p o {}
  if r.2 then r else ((endMonitor p o.cleanup (r.1.log .startRaised)).1, false)

/-- What a poll finds: `peekExitCode`, below 0 while the root runs; on Windows the wait. -/
structure PollOutcome where
  code : Int
  wait : WaitOutcome
  deriving DecidableEq, Repr

/-- The answer is `none` where the call raises. -/
def pollMonitor (p : Platform) (o : PollOutcome) (m : Monitor) : Monitor × Option Bool :=
  if !m.handle.active then (m, none)
  else if m.handle.exited then (m, some true)
  else
    match p with
    | .linux | .macosx =>
        if m.handle.process.isNone then (m, some true)
        else if o.code < 0 then (m, some false)
        else (recordRootExit (m.log .reaped) o.code, some true)
    | .windows =>
        let r := waitForMonitorRoot p o.wait m
        (r.1, if r.2 then some true else none)

/-- What a finish finds; `drop` is for the destructor of the handle it has taken. -/
structure FinishOutcome where
  wait : WaitOutcome
  graceRaises : Bool
  merged : Bool
  rendered : Bool
  release : ReleaseOutcome
  drop : EndOutcome
  deriving DecidableEq, Repr

/-- The guard, the gate on its flag, and the merge. -/
def collectMonitorEvidence (p : Platform) (o : FinishOutcome) (m : Monitor) : Outcome :=
  (settleMonitorDescendants p o.graceRaises m).andThen fun m =>
    if !m.handle.settled then (m, false) else (m.log .collected, o.merged)

/-- The handle is taken by `sink`, so what is left of it at the end is destroyed. -/
def finishMonitor (p : Platform) (o : FinishOutcome) (m : Monitor) : Monitor × Option Int :=
  if !m.handle.active then (destroy p o.drop m, none)
  else
    let r := (((waitForMonitorRoot p o.wait m).andThen (collectMonitorEvidence p o)).andThen
      fun m => (m, o.rendered)).andThen (releaseMonitor p o.release)
    (destroy p o.drop r.1, if r.2 then some r.1.handle.exitCode else none)

/-! ## 4. The order, and the flags

### 4.1 What the history allows -/

/-- **The order.**  Nothing is spawned for a released monitor; the evidence is collected once, after
the descendants were settled; and a monitor is released once, after its root was reaped unless it
never had one. -/
def Allowed (before : List LifeEvent) : LifeEvent → Prop
  | .spawned => .released ∉ before ∧ .consumerGone ∉ before
  | .collected => .settled ∈ before ∧ .collected ∉ before
  | .released => .released ∉ before ∧ (.spawned ∈ before → .reaped ∈ before)
  | .consumerGone => .consumerGone ∉ before ∧ (.spawned ∈ before → .reaped ∈ before)
  | .reaped | .settled | .startRaised => True

/-- The root, if there was one, has been reaped. -/
def RootDone (m : Monitor) : Prop := .spawned ∈ m.history → .reaped ∈ m.history

/-- **The invariant.**  A live handle has not been released, and it still has the process it
spawned unless that was reaped. -/
structure Inv (p : Platform) (m : Monitor) : Prop where
  lawful : Lawful Allowed m.history
  unreleased : m.handle.active = true → .released ∉ m.history ∧ .consumerGone ∉ m.history
  owned : m.handle.active = true → .spawned ∈ m.history →
    .reaped ∈ m.history ∨ (p ≠ .windows ∧ m.handle.process.isSome = true)
  exited : m.handle.exited = true → .reaped ∈ m.history
  settled : m.handle.settled = true → .settled ∈ m.history

/-- A live handle has collected nothing. -/
def Uncollected (m : Monitor) : Prop := m.handle.active = true → .collected ∉ m.history

/-- A start that raised spawned nothing, and nothing that is left of it can. -/
def Honest (p : Platform) (m : Monitor) : Prop :=
  .startRaised ∈ m.history → .spawned ∉ m.history ∧
    (p = .windows → m.handle.active = false ∨ m.handle.spawned = true)

@[simp] theorem Monitor.log_handle (m : Monitor) (e : LifeEvent) : (m.log e).handle = m.handle :=
  rfl

@[simp] theorem Monitor.mem_log {m : Monitor} {e d : LifeEvent} :
    d ∈ (m.log e).history ↔ d ∈ m.history ∨ d = e := by
  simp [Monitor.log]

/-- One more event that is neither a spawn nor a release, and perhaps other flags. -/
theorem Inv.step {p : Platform} {m m' : Monitor} {e : LifeEvent} (h : Inv p m)
    (hist : m'.history = m.history ++ [e]) (he : Allowed m.history e)
    (hact : m'.handle.active = true → m.handle.active = true ∧ e ≠ .released ∧ e ≠ .consumerGone)
    (hown : m'.handle.active = true → .spawned ∈ m'.history →
      .reaped ∈ m'.history ∨ (p ≠ .windows ∧ m'.handle.process.isSome = true))
    (hexit : m'.handle.exited = true → m.handle.exited = true ∨ e = .reaped)
    (hset : m'.handle.settled = true → m.handle.settled = true ∨ e = .settled) : Inv p m' := by
  have hmem : ∀ {d}, d ∈ m.history ∨ e = d → d ∈ m'.history := by
    intro d hd
    rw [hist, List.mem_append, List.mem_singleton]
    exact hd.imp_right Eq.symm
  refine ⟨hist ▸ h.lawful.concat he, fun ha => ?_, hown, fun hx => ?_, fun hx => ?_⟩
  · obtain ⟨ha, hr, hc⟩ := hact ha
    obtain ⟨hnr, hnc⟩ := h.unreleased ha
    rw [hist]
    simp only [List.mem_append, List.mem_singleton, not_or]
    exact ⟨⟨hnr, Ne.symm hr⟩, hnc, Ne.symm hc⟩
  · exact hmem ((hexit hx).imp_left h.exited)
  · exact hmem ((hset hx).imp_left h.settled)

/-- Other flags, and no event. -/
theorem Inv.congr {p : Platform} {m m' : Monitor} (h : Inv p m) (hist : m'.history = m.history)
    (hact : m'.handle.active = true → m.handle.active = true)
    (hproc : m'.handle.process = m.handle.process)
    (hexit : m'.handle.exited = true → m.handle.exited = true)
    (hset : m'.handle.settled = true → m.handle.settled = true) : Inv p m' :=
  ⟨hist ▸ h.lawful, fun ha => hist ▸ h.unreleased (hact ha),
    fun ha => by rw [hist, hproc]; exact h.owned (hact ha), fun hx => hist ▸ h.exited (hexit hx),
    fun hx => hist ▸ h.settled (hset hx)⟩

/-! ### 4.2 Waiting -/

/-- On Windows the run never raises with the command still running. -/
def WaitOutcome.Meets (p : Platform) (w : WaitOutcome) : Prop :=
  p = .windows → w.injection ≠ .raisedRunning

/-- What a step on a live monitor leaves, if it does not release it. -/
structure Kept (p : Platform) (m : Monitor) (r : Outcome) : Prop where
  inv : Inv p r.1
  active : r.1.handle.active = m.handle.active
  collected : .collected ∈ r.1.history → .collected ∈ m.history
  honest : Honest p m → Honest p r.1

theorem Kept.refl {p : Platform} {m : Monitor} (h : Inv p m) (b : Bool) : Kept p m (m, b) :=
  ⟨h, rfl, id, id⟩

section Steps

variable {p : Platform} {m : Monitor}

/-- The root exits: `exited` is set, and the process is let go of. -/
theorem kept_recordRootExit (h : Inv p m) (code : Int) (b : Bool) :
    Kept p m (recordRootExit (m.log .reaped) code, b) := by
  refine ⟨h.step rfl trivial (fun ha => ⟨ha, by simp, by simp⟩) (fun _ _ => .inl (by
    simp [recordRootExit])) (fun _ => .inr rfl) .inl, rfl, ?_, ?_⟩
  · simp [recordRootExit]
  · intro hh hr
    simp only [recordRootExit, Monitor.mem_log, reduceCtorEq, or_false] at hr ⊢
    exact hh hr

/-- The deferred spawn of a live monitor, with its root reaped in the same call.  The flag that
says it has been made is set first. -/
theorem kept_injected (h : Inv p m) (ha : m.handle.active = true)
    (hfresh : m.handle.spawned = false) (hwin : p = .windows) {m' : Monitor}
    (hist : m'.history = (m.history ++ [.spawned]) ++ [.reaped])
    (hact : m'.handle.active = m.handle.active) (hset : m'.handle.settled = m.handle.settled)
    (b : Bool) : Kept p m (m', b) := by
  have hallowed : Allowed m.history .spawned := h.unreleased ha
  have hreaped : LifeEvent.reaped ∈ m'.history := by
    rw [hist]
    simp
  refine ⟨⟨?_, fun _ => ?_, fun _ _ => .inl hreaped, fun _ => hreaped, fun hx => ?_⟩, hact,
    fun hc => ?_, fun hh hr => ?_⟩
  · rw [hist]
    exact (h.lawful.concat hallowed).concat trivial
  · obtain ⟨hnr, hnc⟩ := h.unreleased ha
    rw [hist]
    simp [hnr, hnc]
  · rw [hist]
    have hs := h.settled (hset ▸ hx)
    simp [hs]
  · rw [hist] at hc
    simpa using hc
  · -- a raised start is not live and unspawned, so this spawn is not its own
    rw [hist] at hr
    obtain ⟨-, hdead⟩ := hh (by simpa using hr)
    rcases hdead hwin with hd | hd
    · rw [ha] at hd
      cases hd
    · rw [hfresh] at hd
      cases hd

theorem waitForProcess_spec (h : Inv p m) (ha : m.handle.active = true) (w : WaitOutcome) :
    Kept p m (waitForProcess w m) ∧
      ((waitForProcess w m).2 = true → RootDone (waitForProcess w m).1) := by
  unfold waitForProcess
  by_cases hproc : m.handle.process.isSome = true
  · rw [if_pos hproc]
    cases w.exitCode with
    | some code =>
        refine ⟨kept_recordRootExit h code true, fun _ _ => ?_⟩
        simp [recordRootExit]
    | none => exact ⟨.refl h false, by rintro ⟨⟩⟩
  · rw [if_neg hproc]
    refine ⟨.refl h true, fun _ hs => ?_⟩
    rcases h.owned ha hs with hr | ⟨-, hsome⟩
    · exact hr
    · exact absurd hsome hproc

theorem runInjected_spec (h : Inv .windows m) (ha : m.handle.active = true) {w : WaitOutcome}
    (hw : w.injection ≠ .raisedRunning) :
    Kept .windows m (runInjected w m) ∧
      ((runInjected w m).2 = true → RootDone (runInjected w m).1) := by
  unfold runInjected
  cases hs : m.handle.spawned with
  | true =>
      rw [if_pos rfl]
      refine ⟨.refl h true, fun _ hsp => ?_⟩
      rcases h.owned ha hsp with hr | ⟨hne, -⟩
      · exact hr
      · exact absurd rfl hne
  | false =>
      rw [if_neg Bool.false_ne_true]
      cases hi : w.injection with
      | completed code pid =>
          dsimp only
          refine ⟨kept_injected h ha hs rfl ?_ ?_ ?_ true, fun _ _ => ?_⟩
          · rfl
          · rfl
          · rfl
          · simp [recordRootExit]
      | raisedUnstarted =>
          refine ⟨⟨h.congr rfl id rfl id id, rfl, id, fun hh hr => ?_⟩, by rintro ⟨⟩⟩
          exact ⟨(hh hr).1, fun _ => .inr rfl⟩
      | raisedGone =>
          dsimp only
          refine ⟨kept_injected h ha hs rfl ?_ ?_ ?_ false, by rintro ⟨⟩⟩
          · rfl
          · rfl
          · rfl
      | raisedRunning => exact absurd hi hw

/-- **A wait that returns leaves no root unreaped.** -/
theorem waitForMonitorRoot_spec (h : Inv p m) (ha : m.handle.active = true) {w : WaitOutcome}
    (hw : w.Meets p) :
    Kept p m (waitForMonitorRoot p w m) ∧
      ((waitForMonitorRoot p w m).2 = true → RootDone (waitForMonitorRoot p w m).1) := by
  unfold waitForMonitorRoot
  by_cases hx : m.handle.exited = true
  · rw [if_pos hx]
    exact ⟨.refl h true, fun _ _ => h.exited hx⟩
  · rw [if_neg hx]
    cases p with
    | linux | macosx => exact waitForProcess_spec h ha w
    | windows => exact runInjected_spec h ha (hw rfl)

/-! ### 4.3 Settling and collecting -/

theorem settleMonitorDescendants_spec (h : Inv p m) (graceRaises : Bool) :
    Kept p m (settleMonitorDescendants p graceRaises m) ∧
      (settleMonitorDescendants p graceRaises m).1.handle.settled = true ∧
      (RootDone m → RootDone (settleMonitorDescendants p graceRaises m).1) := by
  unfold settleMonitorDescendants
  by_cases hs : m.handle.settled = true
  · rw [if_pos hs]
    exact ⟨.refl h true, hs, id⟩
  · rw [if_neg hs]
    refine ⟨⟨h.step rfl trivial (fun ha => ⟨ha, by simp, by simp⟩) (fun ha hsp => ?_) .inl
      (fun _ => .inr rfl), rfl, ?_, ?_⟩, rfl, ?_⟩
    · simp only [Monitor.mem_log, reduceCtorEq, or_false] at hsp ⊢
      exact h.owned ha hsp
    · simp
    · intro hh hr
      simp only [Monitor.mem_log, reduceCtorEq, or_false] at hr ⊢
      exact hh hr
    · intro hd hsp
      simp only [Monitor.mem_log, reduceCtorEq, or_false] at hsp ⊢
      exact hd hsp

/-- **The evidence is collected behind the gate.** -/
theorem collectMonitorEvidence_spec (h : Inv p m) (hnot : .collected ∉ m.history)
    (hd : RootDone m) (o : FinishOutcome) :
    Inv p (collectMonitorEvidence p o m).1 ∧ RootDone (collectMonitorEvidence p o m).1 ∧
      (collectMonitorEvidence p o m).1.handle.active = m.handle.active ∧
      (Honest p m → Honest p (collectMonitorEvidence p o m).1) := by
  obtain ⟨hk, hset, hdone⟩ := settleMonitorDescendants_spec h o.graceRaises
  unfold collectMonitorEvidence Outcome.andThen
  generalize settleMonitorDescendants p o.graceRaises m = r at hk hset hdone
  by_cases hr : r.2 = true
  · rw [if_pos hr]
    simp only [hset, Bool.not_true, Bool.false_eq_true, if_false]
    refine ⟨hk.inv.step rfl ⟨hk.inv.settled hset, fun hc => hnot (hk.collected hc)⟩
      (fun ha => ⟨ha, by simp, by simp⟩) (fun ha hsp => ?_) .inl .inl, fun hsp => ?_, hk.active,
      fun hh hst => ?_⟩
    · simp only [Monitor.mem_log, reduceCtorEq, or_false] at hsp ⊢
      exact hk.inv.owned ha hsp
    · simp only [Monitor.mem_log, reduceCtorEq, or_false] at hsp ⊢
      exact hdone hd hsp
    · simp only [Monitor.mem_log, reduceCtorEq, or_false] at hst ⊢
      exact hk.honest hh hst
  · rw [if_neg hr]
    exact ⟨hk.inv, hdone hd, hk.active, hk.honest⟩

/-! ### 4.4 Releasing and ending -/

/-- What a step leaves that can only let go. -/
structure LetGo (p : Platform) (m m' : Monitor) : Prop where
  inv : Inv p m'
  collected : .collected ∈ m'.history → .collected ∈ m.history
  honest : Honest p m → Honest p m'

theorem LetGo.trans {m₁ m₂ m₃ : Monitor} (h : LetGo p m₁ m₂) (h' : LetGo p m₂ m₃) :
    LetGo p m₁ m₃ :=
  ⟨h'.inv, fun hc => h.collected (h'.collected hc), fun hh => h'.honest (h.honest hh)⟩

/-- A handle that is no longer live, with the same history. -/
theorem LetGo.of_history {m' : Monitor} (h : Inv p m) (hist : m'.history = m.history)
    (hdead : m'.handle.active = false) (hexit : m'.handle.exited = true → m.handle.exited = true)
    (hset : m'.handle.settled = true → m.handle.settled = true) : LetGo p m m' := by
  have hlive : m'.handle.active = true → False := by
    intro ha
    rw [hdead] at ha
    cases ha
  refine ⟨⟨hist ▸ h.lawful, fun ha => (hlive ha).elim, fun ha => (hlive ha).elim,
    fun hx => hist ▸ h.exited (hexit hx), fun hx => hist ▸ h.settled (hset hx)⟩,
    fun hc => hist ▸ hc, fun hh hr => ?_⟩
  rw [hist] at hr ⊢
  exact ⟨(hh hr).1, fun _ => .inl hdead⟩

/-- One of the two events of a release, when the handle is no longer live. -/
theorem LetGo.event {e : LifeEvent} {m' : Monitor} (h : Inv p m) (hd : RootDone m)
    (he : e = .released ∨ e = .consumerGone) (hnot : e ∉ m.history)
    (hist : m'.history = m.history ++ [e]) (hdead : m'.handle.active = false)
    (hexit : m'.handle.exited = true → m.handle.exited = true)
    (hset : m'.handle.settled = true → m.handle.settled = true) :
    LetGo p m m' ∧ RootDone m' := by
  have hlive : m'.handle.active = true → False := by
    intro ha
    rw [hdead] at ha
    cases ha
  have hallowed : Allowed m.history e := by
    rcases he with rfl | rfl
    · exact ⟨hnot, hd⟩
    · exact ⟨hnot, hd⟩
  have hmem : ∀ {d}, d ≠ .released → d ≠ .consumerGone → (d ∈ m'.history ↔ d ∈ m.history) := by
    intro d hd1 hd2
    have hde : d ≠ e := by
      rcases he with rfl | rfl
      · exact hd1
      · exact hd2
    rw [hist, List.mem_append, List.mem_singleton, or_iff_left hde]
  refine ⟨⟨h.step hist hallowed (fun ha => (hlive ha).elim) (fun ha => (hlive ha).elim)
    (fun hx => .inl (hexit hx)) (fun hx => .inl (hset hx)), (hmem (by simp) (by simp)).mp,
    fun hh hr => ?_⟩, fun hsp => ?_⟩
  · rw [hmem (by simp) (by simp)] at hr
    rw [hmem (by simp) (by simp)]
    exact ⟨(hh hr).1, fun _ => .inl hdead⟩
  · rw [hmem (by simp) (by simp)] at hsp ⊢
    exact hd hsp

/-- The handle is dead and stays so. -/
def LetGoDead (p : Platform) (m m' : Monitor) : Prop := LetGo p m m' ∧ m'.handle.active = false

theorem LetGoDead.andThen {r : Outcome} {next : Monitor → Outcome} (hr : LetGoDead p m r.1)
    (hnext : LetGoDead p r.1 (next r.1).1) : LetGoDead p m (r.andThen next).1 := by
  unfold Outcome.andThen
  split
  · exact ⟨hr.1.trans hnext.1, hnext.2⟩
  · exact hr

theorem LetGoDead.refl (h : Inv p m) (hdead : m.handle.active = false) : LetGoDead p m m :=
  ⟨⟨h, id, id⟩, hdead⟩

/-- The removal of a directory: only where there is one, and it may raise. -/
theorem LetGoDead.of_removal {present raises : Prop} [Decidable present] [Decidable raises]
    {m' : Monitor} (h : Inv p m) (hdead : m.handle.active = false)
    (hremoved : LetGoDead p m m') :
    LetGoDead p m
      (if present then (if raises then (m, false) else (m', true)) else (m, true) : Outcome).1 := by
  split
  · split
    · exact .refl h hdead
    · exact hremoved
  · exact .refl h hdead

theorem releaseFragments_spec (h : Inv p m) (hdead : m.handle.active = false)
    (r : ReleaseOutcome) : LetGoDead p m (releaseFragments r m).1 :=
  .of_removal h hdead ⟨.of_history h rfl hdead id id, hdead⟩

theorem releaseSandbox_spec (h : Inv p m) (hdead : m.handle.active = false)
    (r : ReleaseOutcome) : LetGoDead p m (releaseSandbox p r m).1 :=
  .of_removal h hdead ⟨.of_history h rfl hdead id id, hdead⟩

theorem releaseConsumer_spec (h : Inv p m) (hd : RootDone m) (hnot : .consumerGone ∉ m.history)
    (hdead : m.handle.active = false) (r : ReleaseOutcome) :
    LetGoDead p m (releaseConsumer p r m).1 := by
  unfold releaseConsumer
  split
  · refine ⟨(LetGo.event h hd (.inr rfl) hnot ?_ ?_ ?_ ?_).1, hdead⟩
    · rfl
    · exact hdead
    · exact id
    · exact id
  · exact .refl h hdead

/-- **A release, once the root is done.** -/
theorem releaseMonitor_spec (h : Inv p m) (hd : RootDone m) (r : ReleaseOutcome) :
    LetGoDead p m (releaseMonitor p r m).1 := by
  unfold releaseMonitor
  by_cases ha : m.handle.active = true
  swap
  · rw [if_pos (by simpa using ha)]
    exact ⟨⟨h, id, id⟩, by simpa using ha⟩
  rw [if_neg (by simpa using ha)]
  obtain ⟨hnr, hnc⟩ := h.unreleased ha
  obtain ⟨hgo, hdone⟩ : LetGo p m
      ({ m with handle := { m.handle with active := false } }.log .released) ∧
      RootDone ({ m with handle := { m.handle with active := false } }.log .released) := by
    refine LetGo.event h hd (.inl rfl) hnr ?_ ?_ ?_ ?_
    · rfl
    · rfl
    · exact id
    · exact id
  have hconsumer := releaseConsumer_spec hgo.inv hdone (by simpa using hnc) rfl r
  have hfirst : LetGoDead p m (releaseConsumer p r
      ({ m with handle := { m.handle with active := false } }.log .released)).1 :=
    ⟨hgo.trans hconsumer.1, hconsumer.2⟩
  have hsecond := hfirst.andThen (releaseSandbox_spec hfirst.1.inv hfirst.2 r)
  exact hsecond.andThen (releaseFragments_spec hsecond.1.inv hsecond.2 r)

theorem endMonitor_spec (h : Inv p m) {e : EndOutcome} (he : e.wait.Meets p) :
    LetGo p m (endMonitor p e m).1 := by
  unfold endMonitor
  by_cases ha : m.handle.active = true
  swap
  · rw [if_pos (by simpa using ha)]
    exact ⟨h, id, id⟩
  rw [if_neg (by simpa using ha)]
  obtain ⟨hk, hdone⟩ := waitForMonitorRoot_spec h ha he
  have hwait : LetGo p m (waitForMonitorRoot p e.wait m).1 := ⟨hk.inv, hk.collected, hk.honest⟩
  unfold Outcome.andThen
  split
  · next hr => exact hwait.trans (releaseMonitor_spec hk.inv (hdone hr) e.release).1
  · exact hwait

theorem destroy_spec (h : Inv p m) {e : EndOutcome} (he : e.wait.Meets p) :
    LetGo p m (destroy p e m) := by
  have hend := endMonitor_spec h he
  exact hend.trans (.of_history hend.inv rfl rfl (by rintro ⟨⟩) (by rintro ⟨⟩))

/-! ### 4.5 Start, poll and finish -/

/-- **When a start that raises leaves the command alone.**  On Windows it has to fail in its first
two steps, or not at all, or its clean-up has to fail to spawn. -/
def StartOutcome.Meets (p : Platform) (o : StartOutcome) : Prop :=
  p = .windows → o.shimFound = false ∨ o.fragmentDir = none ∨
    (o.parentDirMade = true ∧ o.childEnvBuilt = true) ∨
    o.cleanup.wait.injection = .raisedUnstarted

/-- The steps of a start before the spawn leave these fields and the history alone. -/
structure Quiet (m m' : Monitor) : Prop where
  history : m'.history = m.history
  exited : m'.handle.exited = m.handle.exited
  settled : m'.handle.settled = m.handle.settled
  spawned : m'.handle.spawned = m.handle.spawned

theorem Quiet.andThen {r : Outcome} {next : Monitor → Outcome} (hr : Quiet m r.1)
    (hnext : ∀ m₁, Quiet m₁ (next m₁).1) : Quiet m (r.andThen next).1 := by
  unfold Outcome.andThen
  split
  · have h := hnext r.1
    exact ⟨h.history.trans hr.history, h.exited.trans hr.exited, h.settled.trans hr.settled,
      h.spawned.trans hr.spawned⟩
  · exact hr

theorem prepare_quiet (o : StartOutcome) (m : Monitor) : Quiet m (prepare o m).1 := by
  unfold prepare
  split
  · exact ⟨rfl, rfl, rfl, rfl⟩
  · split <;> exact ⟨rfl, rfl, rfl, rfl⟩

theorem prepareSandbox_quiet (o : StartOutcome) (m : Monitor) : Quiet m (prepareSandbox o m).1 := by
  unfold prepareSandbox
  dsimp only
  split
  · split <;> exact ⟨rfl, rfl, rfl, rfl⟩
  · exact ⟨rfl, rfl, rfl, rfl⟩

theorem startDepSet_quiet (o : StartOutcome) (m : Monitor) : Quiet m (startDepSet o m).1 := by
  unfold startDepSet
  split
  · split <;> exact ⟨rfl, rfl, rfl, rfl⟩
  · exact ⟨rfl, rfl, rfl, rfl⟩

/-- What a start has done by the time it returns or raises: if it raised, nothing was spawned. -/
structure Begun (p : Platform) (r : Outcome) : Prop where
  history : r.1.history = [] ∨ (r.1.history = [.spawned] ∧ r.2 = true ∧ p ≠ .windows ∧
    r.1.handle.process.isSome = true)
  exited : r.1.handle.exited = false
  settled : r.1.handle.settled = false
  spawned : r.1.handle.spawned = false

theorem begun_of_quiet {r : Outcome} (h : Quiet {} r.1) : Begun p r :=
  ⟨.inl h.history, h.exited, h.settled, h.spawned⟩

/-- The spawn is the last step. -/
theorem begun_spawnRoot {r : Outcome} (h : Quiet {} r.1) (hp : p ≠ .windows) (o : StartOutcome) :
    Begun p (r.andThen (spawnRoot o)) := by
  unfold Outcome.andThen
  split
  · unfold spawnRoot
    split
    · exact begun_of_quiet h
    · refine ⟨.inr ⟨?_, rfl, hp, rfl⟩, h.exited, h.settled, h.spawned⟩
      simp [Monitor.log, h.history]
  · exact begun_of_quiet h

theorem startMonitorInner_spec (p : Platform) (o : StartOutcome) :
    Begun p (startMonitorInner p o {}) := by
  have hset : ∀ m, Quiet m (setRunId o m).1 := fun m => ⟨rfl, rfl, rfl, rfl⟩
  have hraise : ∀ (b : Bool) (m : Monitor), Quiet m ((m, b) : Outcome).1 :=
    fun _ _ => ⟨rfl, rfl, rfl, rfl⟩
  unfold startMonitorInner
  cases p with
  | macosx =>
      refine begun_spawnRoot ?_ (by simp) o
      exact (((prepare_quiet o {}).andThen (prepareSandbox_quiet o)).andThen hset).andThen
        (hraise _)
  | linux =>
      refine begun_spawnRoot ?_ (by simp) o
      exact (((prepare_quiet o {}).andThen hset).andThen (startDepSet_quiet o)).andThen (hraise _)
  | windows =>
      exact begun_of_quiet (((prepare_quiet o {}).andThen hset).andThen (hraise _))

/-- What holds between the calls. -/
structure OpInv (p : Platform) (m : Monitor) : Prop where
  inv : Inv p m
  uncollected : Uncollected m
  honest : Honest p m

theorem OpInv.of_letGo {m' : Monitor} (h : OpInv p m) (hgo : LetGo p m m')
    (hact : m'.handle.active = true → m.handle.active = true) : OpInv p m' :=
  ⟨hgo.inv, fun ha hc => h.uncollected (hact ha) (hgo.collected hc), hgo.honest h.honest⟩

/-- A start that returned has the invariant. -/
theorem Begun.opInv {r : Outcome} (h : Begun p r) : OpInv p r.1 := by
  have hexit : r.1.handle.exited = true → False := by
    rw [h.exited]
    rintro ⟨⟩
  have hset : r.1.handle.settled = true → False := by
    rw [h.settled]
    rintro ⟨⟩
  rcases h.history with hnil | ⟨hsp, -, hp, hproc⟩
  · refine ⟨⟨hnil ▸ .nil, fun _ => by simp [hnil], fun _ hs => ?_, fun hx => (hexit hx).elim,
      fun hx => (hset hx).elim⟩, fun _ => by simp [hnil], fun hr => ?_⟩
    · simp [hnil] at hs
    · simp [hnil] at hr
  · have hlawful : Lawful Allowed r.1.history := by
      rw [hsp]
      exact Lawful.nil.concat (show Allowed [] .spawned from ⟨by simp, by simp⟩)
    refine ⟨⟨hlawful, fun _ => by simp [hsp], fun _ _ => .inr ⟨hp, hproc⟩,
      fun hx => (hexit hx).elim, fun hx => (hset hx).elim⟩, fun _ => by simp [hsp], fun hr => ?_⟩
    simp [hsp] at hr

/-- The arm of Windows raises with a live handle exactly behind its first two steps. -/
theorem windows_raised_live {o : StartOutcome}
    (hr : (startMonitorInner .windows o {}).2 = false) :
    (startMonitorInner .windows o {}).1.handle.active = true ↔
      o.shimFound = true ∧ o.fragmentDir ≠ none ∧
        ¬ (o.parentDirMade = true ∧ o.childEnvBuilt = true) := by
  cases hshim : o.shimFound with
  | false => simp [startMonitorInner, prepare, Outcome.andThen, hshim]
  | true =>
      cases hdir : o.fragmentDir with
      | none => simp [startMonitorInner, prepare, Outcome.andThen, hshim, hdir]
      | some dir =>
          cases hparent : o.parentDirMade with
          | false => simp [startMonitorInner, prepare, Outcome.andThen, hshim, hdir, hparent]
          | true =>
              have hchild : o.childEnvBuilt = false := by
                simpa [startMonitorInner, prepare, setRunId, Outcome.andThen, hshim, hdir,
                  hparent] using hr
              simp [startMonitorInner, prepare, setRunId, Outcome.andThen, hshim, hdir, hparent,
                hchild]

/-- A clean-up that fails to spawn leaves the monitor as it is, and marked as spawned. -/
theorem endMonitor_unstarted (ha : m.handle.active = true) (hx : m.handle.exited = false)
    (hs : m.handle.spawned = false) {e : EndOutcome}
    (hi : e.wait.injection = .raisedUnstarted) :
    (endMonitor .windows e m).1 = { m with handle := { m.handle with spawned := true } } := by
  simp [endMonitor, waitForMonitorRoot, runInjected, Outcome.andThen, ha, hx, hs, hi]

theorem startMonitor_spec {o : StartOutcome} (ho : o.Meets p) : OpInv p (startMonitor p o).1 := by
  have hbegun := startMonitorInner_spec p o
  unfold startMonitor
  dsimp only
  by_cases hr : (startMonitorInner p o {}).2 = true
  · rw [if_pos hr]
    exact hbegun.opInv
  rw [if_neg hr]
  have hr' : (startMonitorInner p o {}).2 = false := by simpa using hr
  have hlive : p = .windows → ((startMonitorInner p o {}).1.handle.active = true ↔
      o.shimFound = true ∧ o.fragmentDir ≠ none ∧
        ¬ (o.parentDirMade = true ∧ o.childEnvBuilt = true)) := by
    rintro rfl
    exact windows_raised_live hr'
  generalize startMonitorInner p o {} = r at hbegun hr' hlive
  have hnil : r.1.history = [] := by
    rcases hbegun.history with h | ⟨-, h, -⟩
    · exact h
    · rw [hr'] at h
      cases h
  have hop := hbegun.opInv
  have hinv : Inv p (r.1.log .startRaised) :=
    hop.inv.step rfl trivial (fun ha => ⟨ha, by simp, by simp⟩)
      (fun _ hs => by simp [hnil] at hs) .inl .inl
  have hunc : Uncollected (r.1.log .startRaised) := fun _ => by simp [hnil]
  by_cases hwin : p = .windows ∧ r.1.handle.active = true
  · -- the deferred spawn of the clean-up
    obtain ⟨rfl, ha⟩ := hwin
    obtain ⟨hshim, hdir, hmade⟩ := (hlive rfl).mp ha
    have hun : o.cleanup.wait.injection = .raisedUnstarted := by
      rcases ho rfl with h | h | h | h
      · rw [hshim] at h
        cases h
      · exact absurd h hdir
      · exact absurd h hmade
      · exact h
    rw [endMonitor_unstarted (m := r.1.log .startRaised) ha hbegun.exited hbegun.spawned hun]
    refine ⟨hinv.congr rfl id rfl id id, hunc, fun _ => ⟨?_, fun _ => .inr rfl⟩⟩
    simp [hnil]
  · have hhonest : Honest p (r.1.log .startRaised) := by
      refine fun _ => ⟨by simp [hnil], fun hp => .inl ?_⟩
      have hna := fun ha => hwin ⟨hp, ha⟩
      simpa using hna
    by_cases ha : r.1.handle.active = true
    · have hposix : p ≠ .windows := fun hp => hwin ⟨hp, ha⟩
      have hgo := endMonitor_spec hinv (e := o.cleanup) fun hp => absurd hp hposix
      exact OpInv.of_letGo ⟨hinv, hunc, hhonest⟩ hgo fun _ => ha
    · rw [endMonitor, if_pos (by simpa using ha)]
      exact ⟨hinv, hunc, hhonest⟩

theorem pollMonitor_spec (h : OpInv p m) {o : PollOutcome} (ho : o.wait.Meets p) :
    OpInv p (pollMonitor p o m).1 := by
  have hkept : ∀ {r : Outcome}, Kept p m r → OpInv p r.1 := by
    intro r hk
    exact ⟨hk.inv, fun ha hc => h.uncollected (hk.active ▸ ha) (hk.collected hc),
      hk.honest h.honest⟩
  unfold pollMonitor
  by_cases ha : m.handle.active = true
  swap
  · rw [if_pos (by simpa using ha)]
    exact h
  rw [if_neg (by simpa using ha)]
  split
  · exact h
  · cases p with
    | linux | macosx =>
        dsimp only
        split
        · exact h
        · split
          · exact h
          · exact hkept (kept_recordRootExit h.inv o.code true)
    | windows => exact hkept (waitForMonitorRoot_spec h.inv ha ho).1

theorem finishMonitor_spec (h : OpInv p m) {o : FinishOutcome} (hw : o.wait.Meets p)
    (hd : o.drop.wait.Meets p) : OpInv p (finishMonitor p o m).1 := by
  -- the handle is destroyed at the end, so only the history is left to look at
  have hdestroy : ∀ {m₁ : Monitor}, Inv p m₁ → Honest p m₁ → OpInv p (destroy p o.drop m₁) := by
    intro m₁ h₁ hh
    have hgo := destroy_spec h₁ hd
    exact ⟨hgo.inv, by rintro ⟨⟩, hgo.honest hh⟩
  unfold finishMonitor
  by_cases ha : m.handle.active = true
  swap
  · rw [if_pos (by simpa using ha)]
    exact hdestroy h.inv h.honest
  rw [if_neg (by simpa using ha)]
  dsimp only
  obtain ⟨hk, hdone⟩ := waitForMonitorRoot_spec h.inv ha hw
  generalize waitForMonitorRoot p o.wait m = r at hk hdone
  by_cases hr : r.2 = true
  swap
  · have hraised : ∀ next, r.andThen next = r := fun next => if_neg hr
    rw [hraised, hraised, hraised]
    exact hdestroy hk.inv (hk.honest h.honest)
  have hnext : ∀ next, r.andThen next = next r.1 := fun next => if_pos hr
  rw [hnext]
  obtain ⟨hci, hcd, -, hch⟩ := collectMonitorEvidence_spec hk.inv
    (fun hc => h.uncollected ha (hk.collected hc)) (hdone hr) o
  generalize collectMonitorEvidence p o r.1 = r₁ at hci hcd hch
  have hhonest := hch (hk.honest h.honest)
  have hrelease := (releaseMonitor_spec hci hcd o.release).1
  unfold Outcome.andThen
  cases hr₁ : r₁.2 with
  | false =>
      simp only [hr₁, Bool.false_eq_true, if_false]
      exact hdestroy hci hhonest
  | true =>
      cases hrend : o.rendered with
      | false =>
          simp only [if_true, Bool.false_eq_true, if_false]
          exact hdestroy hci hhonest
      | true =>
          simp only [if_true]
          exact hdestroy hrelease.inv (hrelease.honest hhonest)

end Steps

/-! ## 5. Any number of handles -/

/-- One call of a host.  A handle is named by its number among those started so far. -/
inductive HostOp
  | start (o : StartOutcome)
  | poll (i : Nat) (o : PollOutcome)
  | finish (i : Nat) (o : FinishOutcome)
  | drop (i : Nat) (e : EndOutcome)
  deriving DecidableEq, Repr

def hostStep (p : Platform) (monitors : List Monitor) : HostOp → List Monitor
  | .start o => monitors ++ [(startMonitor p o).1]
  | .poll i o => monitors.modify i fun m => (pollMonitor p o m).1
  | .finish i o => monitors.modify i fun m => (finishMonitor p o m).1
  | .drop i e => monitors.modify i (destroy p e)

/-- Any interleaving. -/
def hostRun (p : Platform) (ops : List HostOp) : List Monitor := ops.foldl (hostStep p) []

def HostOp.Meets (p : Platform) : HostOp → Prop
  | .start o => o.Meets p
  | .poll _ o => o.wait.Meets p
  | .finish _ o => o.wait.Meets p ∧ o.drop.wait.Meets p
  | .drop _ e => e.wait.Meets p

/-- A start that raised has spawned nothing, neither before nor in its clean-up. -/
def StartHonest (history : List LifeEvent) : Prop :=
  .startRaised ∈ history → .spawned ∉ history

/-- **The order of a monitor's life.** -/
structure LifeSafe (history : List LifeEvent) : Prop where
  releasedOnce : history.count .released ≤ 1 ∧ history.count .consumerGone ≤ 1
  releasedLast : ∀ before after, history = before ++ .released :: after ∨
      history = before ++ .consumerGone :: after →
    .reaped ∈ before ∨ .spawned ∉ history
  settledFirst : ∀ before after, history = before ++ .collected :: after → .settled ∈ before
  collectedOnce : history.count .collected ≤ 1
  startHonest : StartHonest history

/-- A lawful history released its monitor once its root was gone. -/
theorem lawful_releasedLast {history before after : List LifeEvent} {e : LifeEvent}
    (h : Lawful Allowed history) (he : e = .released ∨ e = .consumerGone)
    (heq : history = before ++ e :: after) : .reaped ∈ before ∨ .spawned ∉ history := by
  by_cases hsp : .spawned ∈ before
  · have hallowed := h before e after heq
    rcases he with rfl | rfl
    · exact .inl (hallowed.2 hsp)
    · exact .inl (hallowed.2 hsp)
  · right
    have hafter : LifeEvent.spawned ∉ after := by
      rcases he with rfl | rfl
      · exact Lawful.not_mem_after (fun first (ha : Allowed first .spawned) => ha.1) (heq ▸ h)
      · exact Lawful.not_mem_after (fun first (ha : Allowed first .spawned) => ha.2) (heq ▸ h)
    rw [heq, List.mem_append, List.mem_cons, not_or, not_or]
    refine ⟨hsp, ?_, hafter⟩
    rcases he with rfl | rfl <;> simp

theorem OpInv.lifeSafe {p : Platform} {m : Monitor} (h : OpInv p m) : LifeSafe m.history := by
  have hl := h.inv.lawful
  refine ⟨⟨hl.count_le_one fun _ ha => ha.1, hl.count_le_one fun _ ha => ha.1⟩, ?_, ?_,
    hl.count_le_one fun _ ha => ha.2, fun hr => (h.honest hr).1⟩
  · rintro before after (heq | heq)
    · exact lawful_releasedLast hl (.inl rfl) heq
    · exact lawful_releasedLast hl (.inr rfl) heq
  · intro before after heq
    exact (hl before .collected after heq).1

theorem mem_modify {α : Type} {f : α → α} {x : α} :
    ∀ {i : Nat} {xs : List α}, x ∈ xs.modify i f → x ∈ xs ∨ ∃ y ∈ xs, x = f y := by
  intro i xs
  induction xs generalizing i with
  | nil => intro h; simp at h
  | cons y ys ih =>
      intro h
      cases i with
      | zero =>
          rw [List.modify_zero_cons] at h
          rcases List.mem_cons.mp h with rfl | h
          · exact .inr ⟨y, List.mem_cons_self .., rfl⟩
          · exact .inl (List.mem_cons_of_mem _ h)
      | succ i =>
          rw [List.modify_succ_cons] at h
          rcases List.mem_cons.mp h with rfl | h
          · exact .inl (List.mem_cons_self ..)
          · rcases ih h with h | ⟨z, hz, rfl⟩
            · exact .inl (List.mem_cons_of_mem _ h)
            · exact .inr ⟨z, List.mem_cons_of_mem _ hz, rfl⟩

/-- The step lemma: one call keeps the invariant of every monitor. -/
theorem hostStep_inv {p : Platform} {monitors : List Monitor} (h : ∀ m ∈ monitors, OpInv p m)
    {op : HostOp} (hop : op.Meets p) : ∀ m ∈ hostStep p monitors op, OpInv p m := by
  intro m hm
  cases op with
  | start o =>
      rcases List.mem_append.mp hm with hm | hm
      · exact h m hm
      · rw [List.mem_singleton.mp hm]
        exact startMonitor_spec hop
  | poll i o =>
      rcases mem_modify hm with hm | ⟨m₀, hm₀, rfl⟩
      · exact h m hm
      · exact pollMonitor_spec (h m₀ hm₀) hop
  | finish i o =>
      rcases mem_modify hm with hm | ⟨m₀, hm₀, rfl⟩
      · exact h m hm
      · exact finishMonitor_spec (h m₀ hm₀) hop.1 hop.2
  | drop i e =>
      rcases mem_modify hm with hm | ⟨m₀, hm₀, rfl⟩
      · exact h m hm
      · exact (h m₀ hm₀).of_letGo (destroy_spec (h m₀ hm₀).inv hop) (by rintro ⟨⟩)

theorem hostRun_inv (p : Platform) (ops : List HostOp) (hops : ∀ op ∈ ops, op.Meets p) :
    ∀ m ∈ hostRun p ops, OpInv p m := by
  induction ops using List.reverseRecOn with
  | nil => intro m hm; cases hm
  | append_singleton ops op ih =>
      rw [hostRun, List.foldl_append, List.foldl_cons, List.foldl_nil]
      exact hostStep_inv (ih fun o ho => hops o (List.mem_append_left _ ho))
        (hops op (by simp))

/-- A handle that was finished is not live. -/
theorem finishMonitor_handle (p : Platform) (o : FinishOutcome) (m : Monitor) :
    (finishMonitor p o m).1.handle = {} := by
  unfold finishMonitor
  split <;> rfl

/-- **Finishing a finished handle** does nothing at all. -/
theorem finishMonitor_twice (p : Platform) (o o' : FinishOutcome) (m : Monitor) :
    finishMonitor p o' (finishMonitor p o m).1 = ((finishMonitor p o m).1, none) := by
  have hh := finishMonitor_handle p o m
  generalize (finishMonitor p o m).1 = m₁ at hh
  have hdead : m₁.handle.active = false := by rw [hh]
  simp only [finishMonitor, hdead, Bool.not_false, if_true, destroy, endMonitor, ← hh]

/-- A release forgets nothing. -/
theorem mem_releaseMonitor {p : Platform} {r : ReleaseOutcome} {m : Monitor} {e : LifeEvent}
    (h : e ∈ m.history) : e ∈ (releaseMonitor p r m).1.history := by
  have hthen : ∀ {q : Outcome} {next : Monitor → Outcome}, e ∈ q.1.history →
      (∀ m₁ : Monitor, e ∈ m₁.history → e ∈ (next m₁).1.history) →
      e ∈ (q.andThen next).1.history := by
    intro q next hq hnext
    unfold Outcome.andThen
    split
    · exact hnext _ hq
    · exact hq
  unfold releaseMonitor
  split
  · exact h
  · refine hthen (hthen ?_ fun m₁ h₁ => ?_) fun m₁ h₁ => ?_
    · unfold releaseConsumer
      split <;> simp [h]
    · unfold releaseSandbox
      split
      · split <;> exact h₁
      · exact h₁
    · unfold releaseFragments
      split
      · split <;> exact h₁
      · exact h₁

/-- **The clean-up of a failed start spawns** the command it did not start. -/
theorem mem_endMonitor_spawned {m : Monitor} (ha : m.handle.active = true)
    (hx : m.handle.exited = false) (hs : m.handle.spawned = false) {e : EndOutcome}
    (hi : e.wait.injection ≠ .raisedUnstarted) {d : LifeEvent} (hd : d ∈ m.history) :
    .spawned ∈ (endMonitor .windows e m).1.history ∧ d ∈ (endMonitor .windows e m).1.history := by
  have hwait : .spawned ∈ (waitForMonitorRoot .windows e.wait m).1.history ∧
      d ∈ (waitForMonitorRoot .windows e.wait m).1.history := by
    cases hin : e.wait.injection with
    | raisedUnstarted => exact absurd hin hi
    | completed code pid =>
        simp [waitForMonitorRoot, runInjected, recordRootExit, hx, hs, hin, hd]
    | raisedGone => simp [waitForMonitorRoot, runInjected, hx, hs, hin, hd]
    | raisedRunning => simp [waitForMonitorRoot, runInjected, hx, hs, hin, hd]
  rw [endMonitor, if_neg (by simp [ha])]
  unfold Outcome.andThen
  split
  · exact ⟨mem_releaseMonitor hwait.1, mem_releaseMonitor hwait.2⟩
  · exact hwait

theorem startHonest_iff (p : Platform) (o : StartOutcome) :
    StartHonest (startMonitor p o).1.history ↔ o.Meets p := by
  constructor
  · rintro hhonest rfl
    by_contra hnot
    simp only [not_or] at hnot
    obtain ⟨hshim, hdir, hmade, hi⟩ := hnot
    have hbegun := startMonitorInner_spec .windows o
    have hr : (startMonitorInner .windows o {}).2 = false := by
      obtain ⟨dir, hsome⟩ := Option.ne_none_iff_exists'.mp hdir
      cases hparent : o.parentDirMade with
      | false => simp [startMonitorInner, prepare, Outcome.andThen, hshim, hsome, hparent]
      | true =>
          have hchild : o.childEnvBuilt = false := by
            cases hc : o.childEnvBuilt with
            | true => exact absurd ⟨hparent, hc⟩ hmade
            | false => rfl
          simp [startMonitorInner, prepare, setRunId, Outcome.andThen, hshim, hsome, hparent,
            hchild]
    have ha := (windows_raised_live hr).mpr ⟨by simpa using hshim, hdir, hmade⟩
    obtain ⟨hspawned, hraised⟩ := mem_endMonitor_spawned (d := .startRaised)
      (m := (startMonitorInner .windows o {}).1.log .startRaised) ha hbegun.exited hbegun.spawned
      hi (by simp)
    have hstart : (startMonitor .windows o).1 =
        (endMonitor .windows o.cleanup
          ((startMonitorInner .windows o {}).1.log .startRaised)).1 := by
      simp [startMonitor, hr]
    rw [hstart] at hhonest
    exact hhonest hraised hspawned
  · exact fun ho => (startMonitor_spec ho).lifeSafe.startHonest

/-- **The lifecycle is safe in every interleaving whose calls meet the condition**, on Linux and
macOS therefore in every one; a start is honest exactly then; and a second finish does nothing. -/
theorem lifecycle_safe (p : Platform) (ops : List HostOp) :
    ((∀ op ∈ ops, op.Meets p) → ∀ m ∈ hostRun p ops, LifeSafe m.history) ∧
    (∀ o : StartOutcome, StartHonest (startMonitor p o).1.history ↔ o.Meets p) ∧
    ∀ (m : Monitor) (o o' : FinishOutcome),
      finishMonitor p o' (finishMonitor p o m).1 = ((finishMonitor p o m).1, none) :=
  ⟨fun hops m hm => (hostRun_inv p ops hops m hm).lifeSafe, startHonest_iff p,
    fun m o o' => finishMonitor_twice p o o' m⟩

/-- Nothing fails, and the command exits with status 0. -/
def smoothEnd : EndOutcome where
  wait := { exitCode := some 0, injection := .completed 0 7 }
  release := { finishRaises := false, sandboxRaises := false, fragmentsRaise := false }

def smoothStart : StartOutcome where
  shimFound := true
  fragmentDir := some (str "/tmp/f")
  parentDirMade := true
  sandboxGiven := []
  sandboxDir := some (str "/tmp/s")
  sandboxPopulated := true
  runId := str "9f3a"
  nestedStarted := true
  depSetEnabled := true
  depSet := some true
  childEnvBuilt := true
  commandRewritten := true
  process := some 7
  cleanup := smoothEnd

def smoothFinish : FinishOutcome where
  wait := smoothEnd.wait
  graceRaises := false
  merged := true
  rendered := true
  release := smoothEnd.release
  drop := smoothEnd

/-- Two monitors on Linux: one is finished twice, the other dropped after a wait that failed. -/
theorem lifecycle_safe_two :
    (∀ op ∈ [HostOp.start smoothStart, .start smoothStart, .finish 0 smoothFinish,
        .drop 1 { smoothEnd with wait := { smoothEnd.wait with exitCode := none } },
        .finish 0 smoothFinish], op.Meets .linux) ∧
    ∀ m ∈ hostRun .linux [.start smoothStart, .start smoothStart, .finish 0 smoothFinish,
        .drop 1 { smoothEnd with wait := { smoothEnd.wait with exitCode := none } },
        .finish 0 smoothFinish], LifeSafe m.history := by
  have hmeets : ∀ op ∈ [HostOp.start smoothStart, .start smoothStart, .finish 0 smoothFinish,
      .drop 1 { smoothEnd with wait := { smoothEnd.wait with exitCode := none } },
      .finish 0 smoothFinish], op.Meets .linux := by
    intro op hop
    simp only [List.mem_cons, List.not_mem_nil, or_false] at hop
    rcases hop with rfl | rfl | rfl | rfl | rfl
    · rintro ⟨⟩
    · rintro ⟨⟩
    · exact ⟨by rintro ⟨⟩, by rintro ⟨⟩⟩
    · rintro ⟨⟩
    · exact ⟨by rintro ⟨⟩, by rintro ⟨⟩⟩
  exact ⟨hmeets, (lifecycle_safe .linux _).1 hmeets⟩

/-- **A failed start that runs the command.**  On Windows the directory of the depfile cannot be
made; the clean-up spawns the command and waits for it. -/
theorem failed_start_runs_command :
    (startMonitor .windows { smoothStart with parentDirMade := false }).2 = false ∧
    ∃ m ∈ hostRun .windows [.start { smoothStart with parentDirMade := false }],
      m.history = [.startRaised, .spawned, .reaped, .released] ∧ ¬ LifeSafe m.history := by
  refine ⟨by decide, _, List.mem_singleton_self _, by decide, fun h => ?_⟩
  exact h.startHonest (by decide) (by decide)

end IoMon.Lifecycle
