/-
# Suspensions of spawned Windows children

The hooks of `CreateProcessW` and `CreateProcessA` create every child suspended, inject the shim
into it and resume it, unless the caller asked for a suspended child itself.  From the moment the
flag is forced the hook owes the child a `ResumeThread`, on every path out: the flags that switch
the hooks off can flip during the call, each step of the body can raise, an injection that went
wrong ends the child, and the real `CreateProcessA` can come back into the hook of
`CreateProcessW`.

`snoopBefore` and `snoopAfter` are the two halves of the hook around the real call.  `SpawnRuns` is
how calls nest: the real call makes the child, or fails, or goes through another hooked call.
`Settles` is what every call leaves behind, whichever side of a hook it is on; `snoopAfter_cases`
says what the second half can do, and the induction over the nesting needs nothing else.
-/
import IoMon.Shim.Emit

namespace IoMon

open ByteText MonitorRecordKind MonitorObservationKind

/-! ## 1. The world -/

/-- A child as the system has it.  `born` is the suspend count of its main thread at the start and
`resumes` counts what the hooks did since. -/
structure SpawnedChild where
  osPid : UInt64
  born : Nat
  suspendCount : Nat
  resumes : Nat
  terminated : Bool
  deriving DecidableEq, Repr

/-- The children in the order in which they were created, the thread's last-error value and the
records that were emitted. -/
structure SpawnWorld where
  children : List SpawnedChild
  lastError : UInt32
  records : List MonitorRecord
  deriving DecidableEq, Repr

/-- `ResumeThread` on a child's main thread. -/
def SpawnWorld.resumeThread (w : SpawnWorld) (i : Nat) : SpawnWorld :=
  { w with children := w.children.modify i fun c =>
      { c with suspendCount := c.suspendCount - 1, resumes := c.resumes + 1 } }

/-- The injector ends a child whose main thread it could not hand back. -/
def SpawnWorld.terminate (w : SpawnWorld) (i : Nat) : SpawnWorld :=
  { w with children := w.children.modify i fun c => { c with terminated := true } }

/-- The arguments of a call that the hooks look at. -/
structure SpawnArgs where
  lpApplicationName : Option NimStr
  lpCommandLine : Option NimStr
  dwCreationFlags : UInt32
  lpProcessInformation : Bool
  deriving DecidableEq, Repr

def CREATE_SUSPENDED : UInt32 := 4

def asksSuspended (args : SpawnArgs) : Bool := args.dwCreationFlags &&& CREATE_SUSPENDED != 0

/-- The suspend count the caller's flags ask for. -/
def asked (args : SpawnArgs) : Nat := if asksSuspended args then 1 else 0

/-- What a call returns: its register, the child it made and the last-error value that the real
call left. -/
structure CallResult where
  rax : UInt64
  made : Option Nat
  realError : UInt32
  deriving DecidableEq, Repr

/-- `callResultBool`: the low half of the register. -/
def callResultBool (raw : UInt64) : Int32 := (raw &&& 0xFFFFFFFF).toUInt32.toInt32

/-- The caller sees a spawn that succeeded. -/
def CallResult.succeeded (r : CallResult) : Bool := r.rax &&& 0xFFFFFFFF != 0

/-- The system makes the child. -/
def SpawnWorld.create (w : SpawnWorld) (args : SpawnArgs) (osPid : UInt64) (err : UInt32) :
    SpawnWorld :=
  { w with
    children := w.children ++ [⟨osPid, asked args, asked args, 0, false⟩]
    lastError := err }

/-! ## 2. The injection -/

/-- The outcomes of an injection; those the hooks do not tell apart go by their text. -/
inductive InjectOutcome
  | ioInjected
  | ioAlreadyPresent
  | ioChildTerminated
  | other (text : NimStr)
  deriving DecidableEq, Repr

def InjectOutcome.text : InjectOutcome → NimStr
  | ioInjected => str "ioInjected"
  | ioAlreadyPresent => str "ioAlreadyPresent"
  | ioChildTerminated => str "ioChildTerminated"
  | other text => text

structure InjectReport where
  outcome : InjectOutcome
  waitedMs : UInt64
  deriving DecidableEq, Repr

/-- The injector the hooks call, with what it can report when it is given this main thread. -/
structure Injector where
  SlowInjectionNoticeMs : UInt64
  failedSpawnError : UInt32
  CanReport : (mainThread : Option Nat) → InjectReport → Prop

/-- It ends a child only because it could not hand back a thread that it borrowed. -/
def Injector.BorrowsOnly (inj : Injector) : Prop :=
  ∀ report, inj.CanReport none report → report.outcome ≠ .ioChildTerminated

/-- What the two system calls say about the machine of a process. -/
inductive MachineQuery
  | information (processMachine : UInt16)
  | wow64 (processMachine nativeMachine : UInt16)
  | unknown
  deriving DecidableEq, Repr

def MachineQuery.machine : MachineQuery → Option UInt16
  | information processMachine => some processMachine
  | wow64 processMachine nativeMachine =>
    some (if processMachine = 0 then nativeMachine else processMachine)
  | unknown => none

/-- `toHex` of a `WORD`. -/
def toHexWord (n : UInt16) : NimStr :=
  (List.range 4).map fun i =>
    let digit := n.toNat / 16 ^ (3 - i) % 16
    UInt8.ofNat (if digit < 10 then 48 + digit else 55 + digit)

/-- The record with a note at the end of its detail. -/
def addDetail (record : MonitorRecord) (note : NimStr) : MonitorRecord :=
  { record with detail := record.detail ++ note }

/-- **`injectSpawnedChild`**: the annotated record, and whether the child was ended. -/
def injectSpawnedChild (inj : Injector) (record : MonitorRecord) (query : MachineQuery)
    (report : InjectReport) : MonitorRecord × Bool :=
  match query.machine with
  | none => (addDetail record (str " inject=unknown-process-machine"), false)
  | some machine =>
    if machine ≠ 0x8664 ∧ machine ≠ 0x014c then
      (addDetail record (str " inject=unsupported-process-machine:" ++ toHexWord machine), false)
    else
      let record :=
        if report.outcome ≠ .ioInjected ∧ report.outcome ≠ .ioAlreadyPresent then
          addDetail record (str " inject=" ++ report.outcome.text)
        else record
      let record :=
        if report.waitedMs ≥ inj.SlowInjectionNoticeMs then
          addDetail record (str " inject-wait-ms=" ++ decimal report.waitedMs)
        else record
      (record, decide (report.outcome = .ioChildTerminated))

/-! ## 3. The hook -/

inductive SpawnArm
  | createProcessW
  | createProcessA
  deriving DecidableEq, Repr

def SpawnArm.name : SpawnArm → NimStr
  | createProcessW => str "CreateProcessW"
  | createProcessA => str "CreateProcessA"

/-- The parts of the body that can raise. -/
inductive SpawnStep
  | build
  | inject
  | emit
  deriving DecidableEq, Repr

/-- The wide arm injects before it emits the record, the ANSI arm after. -/
def SpawnArm.steps : SpawnArm → List SpawnStep
  | createProcessW => [.build, .inject, .emit]
  | createProcessA => [.build, .emit, .inject]

/-- What one hooked call meets: whether the hooks are live, `initialized and disabled == 0`, and
the path of the shim is known, before the real call and after it; the step that raises; and the
answers of the system and the injector. -/
structure SpawnMoment where
  origin : Origin
  liveBefore : Bool
  dllBefore : Bool
  liveAfter : Bool
  dllAfter : Bool
  raises : Option SpawnStep
  forkRuntime : NimStr
  machine : MachineQuery
  report : InjectReport

/-- The hook up to `callNext`: the arguments it passes on, and `shimForcedSuspend`. -/
def snoopBefore (m : SpawnMoment) (args : SpawnArgs) : SpawnArgs × Bool :=
  if m.liveBefore && m.dllBefore && !asksSuspended args then
    ({ args with dwCreationFlags := args.dwCreationFlags ||| CREATE_SUSPENDED }, true)
  else (args, false)

/-- The local state behind `callNext`. -/
structure SpawnFrame where
  created : Bool
  childMainThread : Option Nat
  savedLastError : UInt32
  result : UInt64
  record : MonitorRecord
  world : SpawnWorld

/-- The record as the first part of the body builds it. -/
def spawnRecord (arm : SpawnArm) (m : SpawnMoment) (args : SpawnArgs) (created : Bool)
    (child : Option SpawnedChild) (result : UInt64) : MonitorRecord :=
  { baseRecord m.origin mrProcessSpawn moExecute with
    childOsPid := if created then (child.map (·.osPid)).getD 0 else 0
    result := (callResultBool result).toInt64
    path := (args.lpApplicationName.or args.lpCommandLine).getD []
    detail := arm.name ++
      if created ∧ m.forkRuntime.length > 0 then str " fork-runtime=" ++ m.forkRuntime else [] }

/-- One part of the body; `child` is what `lpProcessInformation` refers to. -/
def spawnStep (inj : Injector) (arm : SpawnArm) (m : SpawnMoment) (args : SpawnArgs)
    (child : Option Nat) (f : SpawnFrame) : SpawnStep → SpawnFrame
  | .build =>
    { f with
      record := spawnRecord arm m args f.created
        (child.bind fun i => f.world.children[i]?) f.result }
  | .inject =>
    if f.created && m.dllAfter then
      let injected := injectSpawnedChild inj f.record m.machine m.report
      if injected.2 then
        { f with
          childMainThread := none
          savedLastError := inj.failedSpawnError
          result := 0
          record := { injected.1 with result := 0 }
          world := (child.map f.world.terminate).getD f.world }
      else { f with record := injected.1 }
    else f
  | .emit => { f with world := { f.world with records := f.world.records ++ [f.record] } }

/-- The body: what follows a part that raises is not run. -/
def spawnSteps (inj : Injector) (arm : SpawnArm) (m : SpawnMoment) (args : SpawnArgs)
    (child : Option Nat) : List SpawnStep → SpawnFrame → SpawnFrame
  | [], f => f
  | step :: steps, f =>
    if m.raises = some step then f
    else spawnSteps inj arm m args child steps (spawnStep inj arm m args child f step)

/-- The `finally`: the resume that is owed, and behind it the last-error value. -/
def spawnFinally (f : SpawnFrame) : SpawnWorld :=
  { (f.childMainThread.map f.world.resumeThread).getD f.world with
    lastError := f.savedLastError }

/-- **The hook behind `callNext`.** -/
def snoopAfter (inj : Injector) (arm : SpawnArm) (m : SpawnMoment) (args : SpawnArgs)
    (shimForcedSuspend : Bool) (w : SpawnWorld) (r : CallResult) : SpawnWorld × CallResult :=
  let created := r.rax &&& 0xFFFFFFFF != 0 && args.lpProcessInformation
  let f : SpawnFrame :=
    { created := created
      childMainThread := if created && shimForcedSuspend then r.made else none
      savedLastError := w.lastError
      result := r.rax
      record := baseRecord m.origin mrProcessSpawn moExecute
      world := w }
  let f := if m.liveAfter then spawnSteps inj arm m args r.made arm.steps f else f
  (spawnFinally f, { r with rax := f.result })

/-! ## 4. Runs -/

/-- The two sides of a hook: a call that goes through it, and the real call behind it. -/
inductive SpawnLayer
  | hook
  | real

/-- **How a call runs.**  The real call makes a child, which needs a process information to
write to, or fails; other hooked calls can run within it; and it can go through another hooked
call, as the ANSI entry point goes through the wide one. -/
inductive SpawnRuns (inj : Injector) :
    SpawnLayer → SpawnArgs → SpawnWorld → SpawnWorld → CallResult → Prop
  | creates {args : SpawnArgs} {w : SpawnWorld} {rax osPid : UInt64} {err : UInt32}
      (hinfo : args.lpProcessInformation = true) (hrax : (rax &&& 0xFFFFFFFF != 0) = true) :
      SpawnRuns inj .real args w (w.create args osPid err) ⟨rax, some w.children.length, err⟩
  | fails {args : SpawnArgs} {w : SpawnWorld} {rax : UInt64} {err : UInt32}
      (hrax : (rax &&& 0xFFFFFFFF != 0) = false) :
      SpawnRuns inj .real args w { w with lastError := err } ⟨rax, none, err⟩
  | meanwhile {args args' : SpawnArgs} {w w₁ w₂ : SpawnWorld} {r r' : CallResult}
      (hother : SpawnRuns inj .hook args' w w₁ r') (hrest : SpawnRuns inj .real args w₁ w₂ r) :
      SpawnRuns inj .real args w w₂ r
  | forwards {args args' : SpawnArgs} {w w₁ : SpawnWorld} {r : CallResult} {rax : UInt64}
      {err : UInt32} (hcall : SpawnRuns inj .hook args' w w₁ r)
      (hasked : asksSuspended args' = asksSuspended args)
      (hinfo : args'.lpProcessInformation = args.lpProcessInformation)
      (hrax : (rax &&& 0xFFFFFFFF != 0) = r.succeeded) :
      SpawnRuns inj .real args w { w₁ with lastError := err } ⟨rax, r.made, err⟩
  | hooked {args : SpawnArgs} {w w₁ : SpawnWorld} {r : CallResult} (arm : SpawnArm)
      (m : SpawnMoment) (hreal : SpawnRuns inj .real (snoopBefore m args).1 w w₁ r)
      (hreport : m.liveAfter = true → m.dllAfter = true →
        inj.CanReport (if (snoopBefore m args).2 then r.made else none) m.report) :
      SpawnRuns inj .hook args w (snoopAfter inj arm m args (snoopBefore m args).2 w₁ r).1
        (snoopAfter inj arm m args (snoopBefore m args).2 w₁ r).2

/-- **A child that is settled**: it is as suspended as its creator asked for, the hooks having
resumed it as often as they suspended it; or the injector ended it, then it was never resumed and
the spawn failed. -/
def ChildSettled (args : SpawnArgs) (r : CallResult) (c : SpawnedChild) : Prop :=
  (c.terminated = false ∧ r.succeeded = true ∧ c.suspendCount = asked args ∧
      c.born = asked args + c.resumes) ∨
    (c.terminated = true ∧ c.resumes = 0 ∧ r.succeeded = false)

/-- What a call leaves behind.  That a child is born suspended at most once is what makes the
second resume of a nested call impossible. -/
structure Settles (args : SpawnArgs) (w w' : SpawnWorld) (r : CallResult) : Prop where
  others : ∀ i < w.children.length, w'.children[i]? = w.children[i]?
  grows : w.children.length ≤ w'.children.length
  child : ∀ i, r.made = some i → w.children.length ≤ i ∧
    ∃ c, w'.children[i]? = some c ∧ ChildSettled args r c ∧ c.born ≤ 1
  failed : r.made = none → r.succeeded = false
  info : r.succeeded = true → args.lpProcessInformation = true

/-! ## 5. What the two halves of a hook can do -/

theorem or_suspended_and (flags : UInt32) : (flags ||| CREATE_SUSPENDED) &&& CREATE_SUSPENDED =
    CREATE_SUSPENDED := by
  refine UInt32.toBitVec_inj.mp ?_
  rw [UInt32.toBitVec_and, UInt32.toBitVec_or]
  ext i hi
  simp only [BitVec.getElem_and, BitVec.getElem_or]
  grind

/-- **Up to the real call**: nothing, or the flag of a caller that did not ask for it. -/
theorem snoopBefore_cases (m : SpawnMoment) (args : SpawnArgs) :
    snoopBefore m args = (args, false) ∨
      ((snoopBefore m args).2 = true ∧ asked args = 0 ∧ asked (snoopBefore m args).1 = 1 ∧
        (snoopBefore m args).1.lpProcessInformation = args.lpProcessInformation) := by
  unfold snoopBefore
  split
  · rename_i h
    simp only [Bool.and_eq_true, Bool.not_eq_true'] at h
    refine Or.inr ⟨rfl, ?_, ?_, rfl⟩
    · rw [asked, h.2]
      rfl
    · rw [asked, asksSuspended, or_suspended_and]
      rfl
  · exact Or.inl rfl

theorem injectSpawnedChild_terminated {inj : Injector} {record : MonitorRecord}
    {query : MachineQuery} {report : InjectReport}
    (h : (injectSpawnedChild inj record query report).2 = true) :
    report.outcome = .ioChildTerminated := by
  unfold injectSpawnedChild at h
  split at h
  · exact absurd h Bool.false_ne_true
  · split at h
    · exact absurd h Bool.false_ne_true
    · exact of_decide_eq_true h

/-- A part of the body that only writes the record. -/
structure RecordsOnly (f f' : SpawnFrame) : Prop where
  created : f'.created = f.created
  childMainThread : f'.childMainThread = f.childMainThread
  savedLastError : f'.savedLastError = f.savedLastError
  result : f'.result = f.result
  children : f'.world.children = f.world.children

theorem RecordsOnly.refl (f : SpawnFrame) : RecordsOnly f f := ⟨rfl, rfl, rfl, rfl, rfl⟩

theorem RecordsOnly.trans {f g k : SpawnFrame} (h : RecordsOnly f g) (h' : RecordsOnly g k) :
    RecordsOnly f k :=
  ⟨h'.created.trans h.created, h'.childMainThread.trans h.childMainThread,
    h'.savedLastError.trans h.savedLastError, h'.result.trans h.result,
    h'.children.trans h.children⟩

/-- A body in which the injector ended the child: the resume is cancelled, the spawn fails. -/
structure Ended (inj : Injector) (m : SpawnMoment) (child : Option Nat) (f f' : SpawnFrame) :
    Prop where
  created : f.created = true
  dllAfter : m.dllAfter = true
  outcome : m.report.outcome = .ioChildTerminated
  childMainThread : f'.childMainThread = none
  savedLastError : f'.savedLastError = inj.failedSpawnError
  result : f'.result = 0
  children : f'.world.children = ((child.map f.world.terminate).getD f.world).children

section Body

variable {inj : Injector} {arm : SpawnArm} {m : SpawnMoment} {args : SpawnArgs}
  {child : Option Nat}

/-- What is done to a child depends on the children only. -/
theorem children_congr {op : SpawnWorld → Nat → SpawnWorld} {φ : SpawnedChild → SpawnedChild}
    (hop : ∀ w i, (op w i).children = w.children.modify i φ) {w w' : SpawnWorld}
    (h : w'.children = w.children) :
    ((child.map (op w')).getD w').children = ((child.map (op w)).getD w).children := by
  cases child with
  | none => exact h
  | some i =>
    rw [Option.map_some, Option.map_some, Option.getD_some, Option.getD_some, hop, hop, h]

theorem Ended.of_recordsOnly {f g k : SpawnFrame} (h : RecordsOnly f g)
    (h' : Ended inj m child g k) : Ended inj m child f k :=
  ⟨h.created ▸ h'.created, h'.dllAfter, h'.outcome, h'.childMainThread, h'.savedLastError,
    h'.result, h'.children.trans (children_congr (fun _ _ => rfl) h.children)⟩

theorem Ended.andRecords {f g k : SpawnFrame} (h : Ended inj m child f g) (h' : RecordsOnly g k) :
    Ended inj m child f k :=
  ⟨h.created, h.dllAfter, h.outcome, h'.childMainThread.trans h.childMainThread,
    h'.savedLastError.trans h.savedLastError, h'.result.trans h.result,
    h'.children.trans h.children⟩

theorem spawnStep_recordsOnly (f : SpawnFrame) {step : SpawnStep} (hstep : step ≠ .inject) :
    RecordsOnly f (spawnStep inj arm m args child f step) := by
  cases step with
  | build => exact ⟨rfl, rfl, rfl, rfl, rfl⟩
  | inject => exact absurd rfl hstep
  | emit => exact ⟨rfl, rfl, rfl, rfl, rfl⟩

theorem spawnStep_inject (f : SpawnFrame) :
    RecordsOnly f (spawnStep inj arm m args child f .inject) ∨
      Ended inj m child f (spawnStep inj arm m args child f .inject) := by
  simp only [spawnStep]
  split
  · rename_i h
    rw [Bool.and_eq_true] at h
    split
    · rename_i hended
      exact Or.inr ⟨h.1, h.2, injectSpawnedChild_terminated hended, rfl, rfl, rfl, rfl⟩
    · exact Or.inl ⟨rfl, rfl, rfl, rfl, rfl⟩
  · exact Or.inl (RecordsOnly.refl f)

/-- Parts without an injection leave everything but the records alone, wherever one raises. -/
theorem spawnSteps_recordsOnly {steps : List SpawnStep} (hsteps : SpawnStep.inject ∉ steps)
    (f : SpawnFrame) : RecordsOnly f (spawnSteps inj arm m args child steps f) := by
  induction steps generalizing f with
  | nil => exact RecordsOnly.refl f
  | cons step steps ih =>
    rw [spawnSteps]
    split
    · exact RecordsOnly.refl f
    · refine (spawnStep_recordsOnly f ?_).trans (ih (fun h => hsteps (List.mem_cons_of_mem _ h)) _)
      exact fun h => hsteps (h ▸ List.mem_cons_self)

/-- Parts with one injection among them. -/
theorem spawnSteps_cases {before after : List SpawnStep} (hbefore : SpawnStep.inject ∉ before)
    (hafter : SpawnStep.inject ∉ after) (f : SpawnFrame) :
    RecordsOnly f (spawnSteps inj arm m args child (before ++ .inject :: after) f) ∨
      Ended inj m child f (spawnSteps inj arm m args child (before ++ .inject :: after) f) := by
  induction before generalizing f with
  | nil =>
    rw [List.nil_append, spawnSteps]
    split
    · exact Or.inl (RecordsOnly.refl f)
    · have hstep : RecordsOnly f (spawnStep inj arm m args child f .inject) ∨
          Ended inj m child f (spawnStep inj arm m args child f .inject) := spawnStep_inject f
      rcases hstep with h | h
      · exact Or.inl (h.trans (spawnSteps_recordsOnly hafter _))
      · exact Or.inr (h.andRecords (spawnSteps_recordsOnly hafter _))
  | cons step steps ih =>
    rw [List.cons_append, spawnSteps]
    split
    · exact Or.inl (RecordsOnly.refl f)
    · have hstep : RecordsOnly f (spawnStep inj arm m args child f step) :=
        spawnStep_recordsOnly f fun h => hbefore (h ▸ List.mem_cons_self)
      rcases ih (fun h => hbefore (List.mem_cons_of_mem _ h))
        (spawnStep inj arm m args child f step) with h | h
      · exact Or.inl (hstep.trans h)
      · exact Or.inr (h.of_recordsOnly hstep)

theorem body_cases (f : SpawnFrame) :
    RecordsOnly f (spawnSteps inj arm m args child arm.steps f) ∨
      Ended inj m child f (spawnSteps inj arm m args child arm.steps f) := by
  cases arm with
  | createProcessW =>
    have hsteps : SpawnArm.createProcessW.steps = [.build] ++ .inject :: [.emit] := rfl
    rw [hsteps]
    exact spawnSteps_cases (by decide) (by decide) f
  | createProcessA =>
    have hsteps : SpawnArm.createProcessA.steps = [.build, .emit] ++ .inject :: [] := rfl
    rw [hsteps]
    exact spawnSteps_cases (by decide) (by decide) f

/-- **Behind the real call**: the last-error value is the real call's and the resume that is owed
is made, wherever the body was left; or the injector ended the child. -/
theorem snoopAfter_cases {forced : Bool} {w : SpawnWorld} {r : CallResult}
    {after : SpawnWorld × CallResult} (hafter : snoopAfter inj arm m args forced w r = after) :
    (after.2 = r ∧ after.1.lastError = w.lastError ∧
      after.1.children =
        (((if (r.succeeded && args.lpProcessInformation) && forced then r.made else none).map
          w.resumeThread).getD w).children) ∨
    ((r.succeeded && args.lpProcessInformation) = true ∧ m.liveAfter = true ∧
      m.dllAfter = true ∧ m.report.outcome = .ioChildTerminated ∧
      after.2 = { r with rax := 0 } ∧ after.1.lastError = inj.failedSpawnError ∧
      after.1.children = ((r.made.map w.terminate).getD w).children) := by
  subst hafter
  generalize hstart : (⟨r.rax &&& 0xFFFFFFFF != 0 && args.lpProcessInformation,
    if (r.rax &&& 0xFFFFFFFF != 0 && args.lpProcessInformation) && forced then r.made else none,
    w.lastError, r.rax, baseRecord m.origin mrProcessSpawn moExecute, w⟩ : SpawnFrame) = f
  have hbody : RecordsOnly f
        (if m.liveAfter then spawnSteps inj arm m args r.made arm.steps f else f) ∨
      (m.liveAfter = true ∧ Ended inj m r.made f
        (if m.liveAfter then spawnSteps inj arm m args r.made arm.steps f else f)) := by
    split
    · rename_i hlive
      exact (body_cases f).imp id fun h => ⟨hlive, h⟩
    · exact Or.inl (RecordsOnly.refl f)
  simp only [snoopAfter, hstart]
  generalize (if m.liveAfter then spawnSteps inj arm m args r.made arm.steps f else f) = f'
    at hbody ⊢
  subst hstart
  rcases hbody with h | ⟨hlive, h⟩
  · refine Or.inl ⟨?_, h.savedLastError, ?_⟩
    · rw [h.result]
    · have hthread := h.childMainThread
      simp only at hthread
      rw [spawnFinally, hthread]
      exact children_congr (fun _ _ => rfl) h.children
  · refine Or.inr ⟨h.created, hlive, h.dllAfter, h.outcome, ?_, h.savedLastError, ?_⟩
    · rw [h.result]
    · rw [spawnFinally, h.childMainThread]
      exact h.children

theorem spawnStep_inject_records (f : SpawnFrame) :
    (spawnStep inj arm m args child f .inject).world.records = f.world.records := by
  rw [spawnStep]
  split
  · dsimp only
    split
    · cases child <;> rfl
    · rfl
  · rfl

/-- An injection that changes the result of the call changes the one in the record. -/
theorem spawnStep_inject_record (f : SpawnFrame)
    (h : (spawnStep inj arm m args child f .inject).result ≠ f.result) :
    (spawnStep inj arm m args child f .inject).record.result = 0 := by
  rw [spawnStep] at h ⊢
  split
  · rename_i hcreated
    rw [if_pos hcreated] at h
    dsimp only at h ⊢
    split
    · rfl
    · rename_i hinjected
      rw [if_neg hinjected] at h
      exact absurd rfl h
  · rename_i hcreated
    rw [if_neg hcreated] at h
    exact absurd rfl h

/-- The ANSI arm's record is on file before the injection: it has the result of the real call,
whatever becomes of the child. -/
theorem records_createProcessA (hraises : m.raises = none) (f : SpawnFrame) :
    (spawnSteps inj .createProcessA m args child SpawnArm.createProcessA.steps f).world.records =
      f.world.records ++ [spawnRecord .createProcessA m args f.created
        (child.bind fun i => f.world.children[i]?) f.result] := by
  simp only [SpawnArm.steps, spawnSteps, hraises, reduceCtorEq, if_false]
  rw [spawnStep_inject_records]
  rfl

/-- The wide arm's record says that the spawn failed when the injector ended the child. -/
theorem records_createProcessW (hraises : m.raises = none) {f f' : SpawnFrame}
    (hf' : spawnSteps inj .createProcessW m args child SpawnArm.createProcessW.steps f = f')
    (hresult : f'.result ≠ f.result) :
    ∃ record, f'.world.records = f.world.records ++ [record] ∧ record.result = 0 := by
  subst hf'
  simp only [SpawnArm.steps, spawnSteps, hraises, reduceCtorEq, if_false] at hresult ⊢
  exact ⟨_, congrArg (· ++ [_]) (spawnStep_inject_records _), spawnStep_inject_record _ hresult⟩

end Body

/-! ## 6. What every call leaves behind -/

section Run

variable {inj : Injector} {args args' : SpawnArgs} {w w₁ w₂ : SpawnWorld} {r r' : CallResult}

/-- A register that was set to zero reads as a failed spawn. -/
theorem succeeded_zero (made : Option Nat) (realError : UInt32) :
    CallResult.succeeded ⟨0, made, realError⟩ = false := by
  change ((0 : UInt64) &&& 0xFFFFFFFF != 0) = false
  decide

theorem ChildSettled.congr {c : SpawnedChild} (h : ChildSettled args' r' c)
    (hasked : asked args' = asked args) (hsucc : r'.succeeded = r.succeeded) :
    ChildSettled args r c := by
  rwa [ChildSettled, ← hasked, ← hsucc]

theorem settles_creates {rax osPid : UInt64} {err : UInt32}
    (hinfo : args.lpProcessInformation = true) (hrax : (rax &&& 0xFFFFFFFF != 0) = true) :
    Settles args w (w.create args osPid err) ⟨rax, some w.children.length, err⟩ := by
  refine ⟨?_, ?_, ?_, fun h => absurd h (Option.some_ne_none _), fun _ => hinfo⟩
  · intro i hi
    exact List.getElem?_append_left hi
  · rw [SpawnWorld.create, List.length_append]
    exact Nat.le_add_right _ _
  · intro i hi
    obtain rfl := Option.some.inj hi
    refine ⟨Nat.le_refl _, ⟨osPid, asked args, asked args, 0, false⟩, ?_, ?_, ?_⟩
    · exact List.getElem?_concat_length
    · exact Or.inl ⟨rfl, hrax, rfl, rfl⟩
    · change asked args ≤ 1
      unfold asked
      split <;> decide

theorem Settles.meanwhile (hother : Settles args' w w₁ r') (hrest : Settles args w₁ w₂ r) :
    Settles args w w₂ r := by
  refine ⟨?_, hother.grows.trans hrest.grows, ?_, hrest.failed, hrest.info⟩
  · intro i hi
    rw [hrest.others i (Nat.lt_of_lt_of_le hi hother.grows), hother.others i hi]
  · intro i hi
    obtain ⟨hge, hc⟩ := hrest.child i hi
    exact ⟨Nat.le_trans hother.grows hge, hc⟩

theorem Settles.forwards (h : Settles args' w w₁ r) {rax : UInt64} {err : UInt32}
    (hasked : asksSuspended args' = asksSuspended args)
    (hinfo : args'.lpProcessInformation = args.lpProcessInformation)
    (hrax : (rax &&& 0xFFFFFFFF != 0) = r.succeeded) :
    Settles args w { w₁ with lastError := err } ⟨rax, r.made, err⟩ := by
  have hsucc : r.succeeded = CallResult.succeeded ⟨rax, r.made, err⟩ := hrax.symm
  have hcount : asked args' = asked args := by rw [asked, asked, hasked]
  refine ⟨h.others, h.grows, ?_, ?_, ?_⟩
  · intro i hi
    obtain ⟨hge, c, hc, hsettled, hborn⟩ := h.child i hi
    exact ⟨hge, c, hc, hsettled.congr hcount hsucc, hborn⟩
  · exact fun hnone => hsucc ▸ h.failed hnone
  · exact fun hs => hinfo ▸ h.info (hsucc.trans hs)

/-- A child that is as the real call left it, below a hook that did not force the flag. -/
theorem Settles.passed (h : Settles args w w₁ r) (hchildren : w₂.children = w₁.children) :
    Settles args w w₂ r := by
  refine ⟨?_, ?_, ?_, h.failed, h.info⟩
  · rw [hchildren]
    exact h.others
  · rw [hchildren]
    exact h.grows
  · rw [hchildren]
    exact h.child

/-- The children after one of them, not among the earlier ones, was changed. -/
theorem Settles.modify (h : Settles args w w₁ r) {i : Nat} (hi : r.made = some i)
    {φ : SpawnedChild → SpawnedChild} (hchildren : w₂.children = w₁.children.modify i φ) :
    (∀ j < w.children.length, w₂.children[j]? = w.children[j]?) ∧
      w.children.length ≤ w₂.children.length ∧ w.children.length ≤ i ∧
      ∃ c, w₂.children[i]? = some (φ c) ∧ ChildSettled args r c ∧ c.born ≤ 1 := by
  obtain ⟨hge, c, hc, hsettled, hborn⟩ := h.child i hi
  rw [hchildren]
  refine ⟨?_, ?_, hge, c, ?_, hsettled, hborn⟩
  · intro j hj
    rw [List.getElem?_modify_ne _ _ (by omega)]
    exact h.others j hj
  · rw [List.length_modify]
    exact h.grows
  · rw [List.getElem?_modify_eq, hc]
    rfl

/-- **A hook settles its child**: it resumes what it suspended and nothing else, and a child that
was ended had lent out a thread that nobody had resumed. -/
theorem Settles.hooked (hinj : inj.BorrowsOnly) {arm : SpawnArm} {m : SpawnMoment}
    (h : Settles (snoopBefore m args).1 w w₁ r)
    (hreport : m.liveAfter = true → m.dllAfter = true →
      inj.CanReport (if (snoopBefore m args).2 then r.made else none) m.report)
    {after : SpawnWorld × CallResult}
    (hafter : snoopAfter inj arm m args (snoopBefore m args).2 w₁ r = after) :
    Settles args w after.1 after.2 := by
  have hcases := snoopAfter_cases hafter
  rcases snoopBefore_cases m args with hkept | ⟨hforced, hasked, hasked', hinfo⟩
  · rw [hkept] at h hreport hcases
    rcases hcases with ⟨hr, _, hchildren⟩ | ⟨_, hlive, hdll, hended, _⟩
    · rw [hr]
      refine h.passed ?_
      rw [hchildren, Bool.and_false]
      rfl
    · exact absurd hended (hinj _ (hreport hlive hdll))
  · rw [hforced] at hcases
    cases hsucc : r.succeeded with
    | false =>
      rcases hcases with ⟨hr, _, hchildren⟩ | ⟨hcreated, _⟩
      · have hsame : after.1.children = w₁.children := by
          rw [hchildren, hsucc]
          rfl
        have hpassed := h.passed hsame
        rw [hr]
        refine ⟨hpassed.others, hpassed.grows, ?_, hpassed.failed, fun hs => ?_⟩
        · intro i hi
          obtain ⟨hge, c, hc, hsettled, hborn⟩ := hpassed.child i hi
          refine ⟨hge, c, hc, ?_, hborn⟩
          rcases hsettled with ⟨_, hs, _⟩ | hdead
          · exact absurd (hsucc.symm.trans hs) Bool.false_ne_true
          · exact Or.inr hdead
        · exact absurd (hsucc.symm.trans hs) Bool.false_ne_true
      · rw [hsucc] at hcreated
        exact absurd hcreated Bool.false_ne_true
    | true =>
      have hinfo' : args.lpProcessInformation = true := hinfo ▸ h.info hsucc
      obtain ⟨i, hi⟩ : ∃ i, r.made = some i := by
        cases hmade : r.made with
        | some i => exact ⟨i, rfl⟩
        | none => exact absurd (hsucc.symm.trans (h.failed hmade)) (by decide)
      have hone : ∀ j, r.made = some j → j = i := fun j hj => Option.some.inj (hj.symm.trans hi)
      rcases hcases with ⟨hr, _, hchildren⟩ | ⟨_, _, _, _, hr, _, hchildren⟩
      · -- the debt is paid: one resume, and the count is the caller's
        rw [hsucc, hinfo', hi] at hchildren
        obtain ⟨hothers, hgrows, hge, c, hc, hsettled, hborn⟩ := h.modify hi hchildren
        rw [hr]
        refine ⟨hothers, hgrows, ?_, h.failed, fun _ => hinfo'⟩
        intro j hj
        obtain rfl := hone j hj
        refine ⟨hge, _, hc, ?_, hborn⟩
        rcases hsettled with ⟨halive, hs, hcount, hpaid⟩ | ⟨_, _, hs⟩
        · rw [hasked'] at hcount hpaid
          refine Or.inl ⟨halive, hs, ?_, ?_⟩
          · change c.suspendCount - 1 = asked args
            omega
          · change c.born = asked args + (c.resumes + 1)
            omega
        · exact absurd (hsucc.symm.trans hs) (by decide)
      · -- the debt is cancelled: nobody has resumed the thread that was lent out
        rw [hi] at hchildren
        obtain ⟨hothers, hgrows, hge, c, hc, hsettled, hborn⟩ := h.modify hi hchildren
        have hfails : after.2.succeeded = false := by
          rw [hr]
          exact succeeded_zero _ _
        have hmade : after.2.made = r.made := by rw [hr]
        refine ⟨hothers, hgrows, ?_, fun _ => hfails, fun hs => ?_⟩
        · intro j hj
          obtain rfl := hone j (hmade.symm.trans hj)
          refine ⟨hge, _, hc, ?_, hborn⟩
          rcases hsettled with ⟨_, _, _, hpaid⟩ | ⟨_, _, hs⟩
          · rw [hasked'] at hpaid
            refine Or.inr ⟨rfl, ?_, hfails⟩
            change c.resumes = 0
            omega
          · exact absurd (hsucc.symm.trans hs) (by decide)
        · exact absurd (hfails.symm.trans hs) Bool.false_ne_true

/-- **Every call settles**, on both sides of a hook and however deep calls are nested. -/
theorem settles_of_runs (hinj : inj.BorrowsOnly) {layer : SpawnLayer}
    (h : SpawnRuns inj layer args w w₁ r) : Settles args w w₁ r := by
  induction h with
  | creates hinfo hrax => exact settles_creates hinfo hrax
  | fails hrax =>
    refine ⟨fun _ _ => rfl, Nat.le_refl _, fun i hi => absurd hi (Option.some_ne_none i).symm,
      fun _ => hrax, fun hs => ?_⟩
    exact absurd (hrax.symm.trans hs) Bool.false_ne_true
  | meanwhile _ _ ih₁ ih₂ => exact ih₁.meanwhile ih₂
  | forwards _ hasked hinfo hrax ih => exact ih.forwards hasked hinfo hrax
  | hooked arm m _ hreport ih => exact ih.hooked hinj hreport rfl

/-- The last-error value behind a real call is the one it reports. -/
theorem lastError_of_runs {layer : SpawnLayer} (h : SpawnRuns inj layer args w w₁ r)
    (hlayer : layer = .real) : w₁.lastError = r.realError := by
  induction h with
  | creates => rfl
  | fails => rfl
  | meanwhile _ _ _ ih => exact ih hlayer
  | forwards => rfl
  | hooked => exact absurd hlayer (fun h => nomatch h)

end Run

/-- An injector with the documented behaviour; its error is `ERROR_TIMEOUT`. -/
def timeoutInjector : Injector where
  SlowInjectionNoticeMs := 5000
  failedSpawnError := 1460
  CanReport := fun mainThread report =>
    mainThread = none → report.outcome ≠ .ioChildTerminated

/-- A call on live hooks whose injection goes well. -/
def quietMoment : SpawnMoment where
  origin := ⟨1, 100, 1, 100⟩
  liveBefore := true
  dllBefore := true
  liveAfter := true
  dllAfter := true
  raises := none
  forkRuntime := []
  machine := .information 0x8664
  report := ⟨.ioInjected, 3⟩

/-- `CreateProcessA("cc")`, no flags. -/
def plainArgs : SpawnArgs := ⟨some (str "cc"), none, 0, true⟩

end IoMon
