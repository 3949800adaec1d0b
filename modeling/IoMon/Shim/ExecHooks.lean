/-
# The hook guard and the exec dispatchers

Every interposed call of `linux_preload_runtime.nim` asks whether hooks are allowed and runs its
hook inside a bracket that raises a thread-local depth; while the depth is raised every
interposed call goes straight to libc.  The exec family brackets twice over: its bracket also
remembers the pid and the depth to resume at, because a successful exec never comes back to
close it and a vfork child shares the parent's thread-local memory.

The path-searching variants and `fexecve` call the execve hook first, on the name as it was
given, and then let libc search with hooks suppressed.  The hook records an exec, really tries
it, and records a failure when it comes back.  So an image entered by the search is recorded as
an exec that failed (`execTally_iff`).
-/
import IoMon.Merge.ExecTally

namespace IoMon

open ByteText MonitorRecordKind

/-! ## 1. The guard -/

/-- The thread-local guard: the hook depth of the hooks package, and what an open exec bracket
remembers (pid 0 when there is none). -/
structure GuardState where
  depth : Nat := 0
  execGuardPid : UInt64 := 0
  resumeDepth : Nat := 0
  deriving DecidableEq, Repr

def enterHook (s : GuardState) : GuardState := { s with depth := s.depth + 1 }

def exitHook (s : GuardState) : GuardState := { s with depth := s.depth - 1 }

def hooksAllowed (s : GuardState) : Bool := s.depth == 0

/-- `while (current_depth() > resume) exit_hook();` -/
def unwindTo (resume : Nat) : Nat → Nat
  | 0 => 0
  | d + 1 => if resume < d + 1 then unwindTo resume d else d + 1

/-- `ct_restore_vfork_exec_guard`, in the process `pid`. -/
def restoreVforkExecGuard (pid : UInt64) (s : GuardState) : GuardState :=
  if s.execGuardPid ≠ 0 ∧ s.execGuardPid ≠ pid then
    { depth := unwindTo s.resumeDepth s.depth, execGuardPid := 0, resumeDepth := 0 }
  else s

theorem unwindTo_eq (resume d : Nat) : unwindTo resume d = min resume d := by
  induction d with
  | zero => simp [unwindTo]
  | succ d ih =>
    unfold unwindTo
    split
    · rw [ih]
      omega
    · omega

@[simp] theorem restore_of_clean (pid : UInt64) {s : GuardState} (h : s.execGuardPid = 0) :
    restoreVforkExecGuard pid s = s := by
  simp [restoreVforkExecGuard, h]

@[simp] theorem restore_of_own {pid : UInt64} {s : GuardState} (h : s.execGuardPid = pid) :
    restoreVforkExecGuard pid s = s := by
  simp [restoreVforkExecGuard, h]

/-! ## 2. Exec attempts -/

def ENOENT : UInt64 := 2

/-- What an exec call meets: the kernel's answer to `execve` of a path (the errno, or `none` when
the image is replaced), whether the hook is registered in the image that makes the call, and
whether the shim publishes exec records there. -/
structure ExecEnv where
  kernel : NimStr → Option UInt64
  emptyPath : kernel [] = some ENOENT
  hooked : Bool
  recording : Bool

/-- How an exec attempt ended: the guard it leaves behind, the events it published, and the errno
when it returned. -/
structure ExecRun where
  state : GuardState
  events : List ShimEvent
  result : Option UInt64
  deriving DecidableEq, Repr

section Dispatch

variable (env : ExecEnv) (pid : UInt64)

/-- The real call. -/
def realExecve (path : NimStr) (s : GuardState) : ExecRun := ⟨s, [], env.kernel path⟩

/-- `repro_hook_execve`: record, try, and record the failure if control comes back. -/
def hookExecve (path : NimStr) (s : GuardState) : ExecRun :=
  if !env.recording then realExecve env path s
  else
    match env.kernel path with
    | none => ⟨s, [.exec path], none⟩
    | some errno => ⟨s, [.exec path, .execFailed path errno], some errno⟩

/-- `CT_CALL_HOOK`: a body that does not return leaves the bracket open. -/
def callHook (body : GuardState → ExecRun) (s : GuardState) : ExecRun :=
  let r := body (enterHook s)
  match r.result with
  | none => r
  | some _ => { r with state := exitHook r.state }

/-- The guard inside an exec bracket: an outer bracket's memory is kept. -/
def markExec (s : GuardState) : GuardState :=
  if s.execGuardPid = 0 then { s with execGuardPid := pid, resumeDepth := s.depth } else s

/-- `CT_CALL_EXEC_HOOK`. -/
def callExecHook (body : GuardState → ExecRun) (s₀ : GuardState) : ExecRun :=
  let s := restoreVforkExecGuard pid s₀
  let r := callHook body (markExec pid s)
  match r.result with
  | none => r
  | some _ =>
    { r with state := { r.state with
        execGuardPid := s.execGuardPid, resumeDepth := s.resumeDepth } }

/-- `CT_BYPASS() || hook == NULL`, on the guard `CT_BYPASS` has already restored. -/
def bypasses (s : GuardState) : Bool := !hooksAllowed s || !env.hooked

def dispatchExecve (path : NimStr) (s₀ : GuardState) : ExecRun :=
  let s := restoreVforkExecGuard pid s₀
  if bypasses env s then realExecve env path s
  else callExecHook pid (hookExecve env path) s

/-- libc's own search: it calls `execve`, the interposed one, on one candidate after another.  Its
errno is that of the last one; glibc answers EACCES if an earlier one was refused so, which no
event and no guard reads. -/
def realSearch : List NimStr → GuardState → ExecRun
  | [], s => ⟨s, [], some ENOENT⟩
  | path :: rest, s =>
    let r := dispatchExecve env pid path s
    match r.result with
    | none => r
    | some errno =>
      if rest.isEmpty then { r with result := some errno }
      else
        let more := realSearch rest r.state
        { more with events := r.events ++ more.events }

/-- The variants that search: the execve hook on the name as given, then libc's search. -/
def dispatchSearch (name : NimStr) (tries : List NimStr) (s₀ : GuardState) : ExecRun :=
  let s := restoreVforkExecGuard pid s₀
  if bypasses env s then realSearch env pid tries s
  else
    let first := callExecHook pid (hookExecve env name) s
    match first.result with
    | none => first
    | some _ =>
      let second := callExecHook pid (realSearch env pid tries) first.state
      { second with events := first.events ++ second.events }

end Dispatch

inductive ExecVariant
  | execve | execv | execl | execle | execvp | execvpe | execlp | fexecve
  deriving DecidableEq, Repr

/-- One exec-family call: the path or file name it was given, and the paths libc tries in turn
when it searches (for `fexecve` the descriptor's `/proc` path). -/
structure ExecCall where
  variant : ExecVariant
  name : NimStr
  tries : List NimStr
  env : ExecEnv

def ExecVariant.searches : ExecVariant → Bool
  | execve | execv | execl | execle => false
  | execvp | execvpe | execlp | fexecve => true

/-- The path the execve hook is given: `fexecve` has none and passes the empty string. -/
def ExecCall.hookPath (c : ExecCall) : NimStr :=
  match c.variant with
  | .fexecve => []
  | _ => c.name

def ExecCall.dispatch (c : ExecCall) (pid : UInt64) (s : GuardState) : ExecRun :=
  match c.variant with
  | .execve | .execv | .execl | .execle => dispatchExecve c.env pid c.name s
  | .execvp | .execvpe | .execlp => dispatchSearch c.env pid c.name c.tries s
  | .fexecve => dispatchSearch c.env pid [] c.tries s

theorem ExecCall.dispatch_eq (c : ExecCall) (pid : UInt64) (s : GuardState) :
    c.dispatch pid s =
      if c.variant.searches then dispatchSearch c.env pid c.hookPath c.tries s
      else dispatchExecve c.env pid c.hookPath s := by
  unfold ExecCall.dispatch ExecVariant.searches ExecCall.hookPath
  cases c.variant <;> rfl

/-! ## 3. What a dispatch does -/

/-- The errno of a search as `realSearch` has it, `none` when some candidate replaced the image. -/
def searchResult (env : ExecEnv) : List NimStr → Option UInt64
  | [] => some ENOENT
  | path :: rest =>
    match env.kernel path with
    | none => none
    | some errno => if rest.isEmpty then some errno else searchResult env rest

section Spec

variable {env : ExecEnv} {pid : UInt64} {s : GuardState}

/-- Under a raised depth in its own process an execve is the real one. -/
theorem dispatchExecve_bypassed (hpid : s.execGuardPid = 0 ∨ s.execGuardPid = pid)
    (hb : bypasses env s = true) (path : NimStr) :
    dispatchExecve env pid path s = ⟨s, [], env.kernel path⟩ := by
  have hs : restoreVforkExecGuard pid s = s := by
    rcases hpid with h | h
    · exact restore_of_clean pid h
    · exact restore_of_own h
  rw [dispatchExecve, hs, if_pos hb, realExecve]

/-- **A suppressed search records nothing.** -/
theorem realSearch_bypassed (hpid : s.execGuardPid = 0 ∨ s.execGuardPid = pid)
    (hb : bypasses env s = true) (tries : List NimStr) :
    realSearch env pid tries s = ⟨s, [], searchResult env tries⟩ := by
  induction tries with
  | nil => rfl
  | cons path rest ih =>
    simp only [realSearch, dispatchExecve_bypassed hpid hb, searchResult]
    cases hk : env.kernel path with
    | none => rfl
    | some errno =>
      simp only [ih, List.nil_append]
      split <;> rfl

/-- What the hook publishes about its own attempt. -/
def hookEvents (env : ExecEnv) (path : NimStr) : List ShimEvent :=
  if !env.recording then []
  else
    match env.kernel path with
    | none => [.exec path]
    | some errno => [.exec path, .execFailed path errno]

theorem hookExecve_eq (env : ExecEnv) (path : NimStr) (s : GuardState) :
    hookExecve env path s = ⟨s, hookEvents env path, env.kernel path⟩ := by
  unfold hookExecve hookEvents
  split
  · rfl
  · cases env.kernel path <;> rfl

/-- The guard inside the exec bracket of a process with no bracket open. -/
def execBracket (pid : UInt64) (s : GuardState) : GuardState :=
  { depth := s.depth + 1, execGuardPid := pid, resumeDepth := s.depth }

/-- **An exec bracket around a body that keeps the guard**: closed again when the body returns,
left open when it does not. -/
theorem callExecHook_clean {body : GuardState → ExecRun} (h : s.execGuardPid = 0)
    (hbody : (body (execBracket pid s)).state = execBracket pid s) :
    callExecHook pid body s =
      { body (execBracket pid s) with
        state := if (body (execBracket pid s)).result.isNone then execBracket pid s else s } := by
  have hin : enterHook (markExec pid s) = execBracket pid s := by
    simp [markExec, h, enterHook, execBracket]
  have hout : { exitHook (execBracket pid s) with
      execGuardPid := s.execGuardPid, resumeDepth := s.resumeDepth } = s := by
    simp [exitHook, execBracket]
  rw [callExecHook, restore_of_clean pid h]
  simp only [callHook, hin]
  generalize body (execBracket pid s) = r at hbody
  obtain ⟨state, events, result⟩ := r
  subst hbody
  cases result with
  | none => rfl
  | some errno =>
    simp only [Option.isNone_some, Bool.false_eq_true, if_false, hout]

theorem bypasses_bracket : bypasses env (execBracket pid s) = true := by
  simp [bypasses, hooksAllowed, execBracket]

/-- **An execve with no bracket open.** -/
theorem dispatchExecve_clean (h : s.execGuardPid = 0) (path : NimStr) :
    dispatchExecve env pid path s =
      if bypasses env s then ⟨s, [], env.kernel path⟩
      else ⟨if (env.kernel path).isNone then execBracket pid s else s, hookEvents env path,
        env.kernel path⟩ := by
  rw [dispatchExecve, restore_of_clean pid h]
  split
  · rfl
  · have hbody := hookExecve_eq env path (execBracket pid s)
    rw [callExecHook_clean h (by rw [hbody]), hbody]

/-- **A searching exec with no bracket open**: the records are those of the hook's own attempt,
whatever the search does. -/
theorem dispatchSearch_clean (h : s.execGuardPid = 0) (name : NimStr) (tries : List NimStr) :
    dispatchSearch env pid name tries s =
      if bypasses env s then ⟨s, [], searchResult env tries⟩
      else if (env.kernel name).isNone then ⟨execBracket pid s, hookEvents env name, none⟩
      else ⟨if (searchResult env tries).isNone then execBracket pid s else s, hookEvents env name,
        searchResult env tries⟩ := by
  rw [dispatchSearch, restore_of_clean pid h]
  split
  · rename_i hb
    rw [realSearch_bypassed (.inl h) hb]
  · have hbody := hookExecve_eq env name (execBracket pid s)
    have hsearch : realSearch env pid tries (execBracket pid s) =
        ⟨execBracket pid s, [], searchResult env tries⟩ :=
      realSearch_bypassed (.inr rfl) bypasses_bracket tries
    rw [callExecHook_clean h (by rw [hbody]), hbody]
    cases hk : env.kernel name with
    | none => rfl
    | some errno =>
      simp only [Option.isNone_some, Bool.false_eq_true, if_false]
      rw [callExecHook_clean h (by rw [hsearch]), hsearch]
      simp only [List.append_nil]

end Spec

/-! ## 4. Sequences of exec calls -/

/-- The call replaces the image: the hook's own attempt does when there is a hook, or the real
call does. -/
def ExecCall.replaces (c : ExecCall) : Bool :=
  if c.variant.searches then
    (c.env.hooked && (c.env.kernel c.hookPath).isNone) || (searchResult c.env c.tries).isNone
  else (c.env.kernel c.hookPath).isNone

/-- The image is replaced by the execve hook's own attempt, while the shim records. -/
def ExecCall.replacesInHook (c : ExecCall) : Bool :=
  c.env.hooked && c.env.recording && (c.env.kernel c.hookPath).isNone

/-- **One call from a fresh image.** -/
theorem dispatch_fresh (c : ExecCall) (pid : UInt64) :
    (c.dispatch pid {}).events = (if c.env.hooked then hookEvents c.env c.hookPath else []) ∧
    (c.dispatch pid {}).result.isNone = c.replaces ∧
    ((c.dispatch pid {}).result.isNone = false → (c.dispatch pid {}).state = {}) := by
  have hb : bypasses c.env {} = !c.env.hooked := by simp [bypasses, hooksAllowed]
  rw [ExecCall.dispatch_eq, dispatchSearch_clean rfl, dispatchExecve_clean rfl, hb]
  unfold ExecCall.replaces
  cases c.variant.searches <;> cases c.env.hooked <;>
    cases hk : (c.env.kernel c.hookPath).isNone <;>
    cases ht : (searchResult c.env c.tries).isNone <;> simp [hk, ht]

/-- The calls of one process in order.  A replaced image starts with a fresh guard. -/
def execRuns (pid : UInt64) : GuardState → List ExecCall → List ExecRun
  | _, [] => []
  | s, c :: rest =>
    let r := c.dispatch pid s
    r :: execRuns pid (if r.result.isNone then {} else r.state) rest

/-- **A process never carries a raised guard into its next exec call.** -/
theorem execRuns_fresh (pid : UInt64) (calls : List ExecCall) :
    execRuns pid {} calls = calls.map fun c => c.dispatch pid {} := by
  induction calls with
  | nil => rfl
  | cons c rest ih =>
    have hstate : (if (c.dispatch pid {}).result.isNone then ({} : GuardState)
        else (c.dispatch pid {}).state) = {} := by
      split
      · rfl
      · rename_i h
        exact (dispatch_fresh c pid).2.2 (Bool.not_eq_true _ |>.mp h)
    simp only [execRuns, hstate, ih, List.map_cons]

/-- The exec events the process publishes. -/
def execEvents (pid : UInt64) (calls : List ExecCall) : List ShimEvent :=
  (execRuns pid {} calls).flatMap (·.events)

/-- How many of the calls replaced the image. -/
def imageReplacements (pid : UInt64) (calls : List ExecCall) : Nat :=
  (execRuns pid {} calls).countP (·.result.isNone)

/-- The events as they are published, each from some thread of the process. -/
def emittedBy (pid : UInt64) (origin : Nat → Origin) (events : List ShimEvent) :
    List (Origin × ShimEvent) :=
  events.zipIdx.map fun e => ({ origin e.2 with osPid := pid }, e.1)

/-- The balance of one call: one when the hook's own attempt replaced the image, else none. -/
theorem dispatch_balance (c : ExecCall) (pid : UInt64) :
    (c.dispatch pid {}).events.countP ShimEvent.isExec =
      (c.dispatch pid {}).events.countP ShimEvent.isExecFailed + c.replacesInHook.toNat := by
  rw [(dispatch_fresh c pid).1, ExecCall.replacesInHook, hookEvents]
  cases c.env.hooked <;> cases c.env.recording <;> cases hk : c.env.kernel c.hookPath <;>
    simp [List.countP_cons, ShimEvent.isExec, ShimEvent.isExecFailed]

/-- **The balance of a sequence** counts the calls whose own attempt replaced the image. -/
theorem execEvents_balance (pid : UInt64) (calls : List ExecCall) :
    (execEvents pid calls).countP ShimEvent.isExec =
      (execEvents pid calls).countP ShimEvent.isExecFailed +
        calls.countP ExecCall.replacesInHook := by
  unfold execEvents
  rw [execRuns_fresh]
  induction calls with
  | nil => rfl
  | cons c rest ih =>
    have hc := dispatch_balance c pid
    have hbit : (if c.replacesInHook = true then 1 else 0) = c.replacesInHook.toNat := by
      cases c.replacesInHook <;> rfl
    simp only [List.map_cons, List.flatMap_cons, List.countP_append, List.countP_cons, hbit]
      at ih ⊢
    omega

theorem imageReplacements_eq (pid : UInt64) (calls : List ExecCall) :
    imageReplacements pid calls = calls.countP ExecCall.replaces := by
  rw [imageReplacements, execRuns_fresh, List.countP_map]
  refine List.countP_congr fun c _ => ?_
  rw [Function.comp_apply, (dispatch_fresh c pid).2.1]

theorem replaces_of_inHook {c : ExecCall} (h : c.replacesInHook = true) : c.replaces = true := by
  simp only [ExecCall.replacesInHook, Bool.and_eq_true] at h
  unfold ExecCall.replaces
  split
  · simp [h.1.1, h.2]
  · exact h.2

theorem isAccounting_execEvents (pid : UInt64) (calls : List ExecCall) :
    ∀ ev ∈ execEvents pid calls, ev.isAccounting = true := by
  intro ev hev
  rw [execEvents, execRuns_fresh] at hev
  obtain ⟨r, hr, hev⟩ := List.mem_flatMap.mp hev
  obtain ⟨c, _, rfl⟩ := List.mem_map.mp hr
  rw [(dispatch_fresh c pid).1, hookEvents] at hev
  cases hh : c.env.hooked <;> cases hrec : c.env.recording <;>
    cases hk : c.env.kernel c.hookPath <;> simp [hh, hrec, hk] at hev
  · rw [hev]; rfl
  · rcases hev with rfl | rfl <;> rfl

/-- The merge's exec tally of a process that made these calls. -/
theorem effectiveExecs_calls (run : RunId) (pid : UInt64) (origin : Nat → Origin)
    (calls : List ExecCall) :
    effectiveExecs (wholeStream run (emittedBy pid origin (execEvents pid calls))) pid =
      calls.countP ExecCall.replacesInHook := by
  have hmap : (emittedBy pid origin (execEvents pid calls)).map (·.2) = execEvents pid calls := by
    rw [emittedBy, List.map_map]
    exact List.zipIdx_map_fst 0 _
  have hacc : AccountingOf pid (emittedBy pid origin (execEvents pid calls)) := by
    constructor
    · intro e he
      obtain ⟨_, _, rfl⟩ := List.mem_map.mp he
      rfl
    · intro e he
      exact isAccounting_execEvents pid calls e.2 (hmap ▸ List.mem_map_of_mem he)
  obtain ⟨_, he, hf⟩ := counters_stream run hacc
  have hcount : ∀ p : ShimEvent → Bool,
      (emittedBy pid origin (execEvents pid calls)).countP (fun e => p e.2) =
        (execEvents pid calls).countP p := by
    intro p
    conv_rhs => rw [← hmap, List.countP_map]
    rfl
  have hbal := execEvents_balance pid calls
  rw [effectiveExecs, he, hf, hcount, hcount]
  omega

/-- **Exactly when the exec tally counts the image replacements**: every call that replaced the
image did so in the execve hook's own attempt, while the shim recorded. -/
theorem execTally_iff (run : RunId) (pid : UInt64) (origin : Nat → Origin)
    (calls : List ExecCall) :
    effectiveExecs (wholeStream run (emittedBy pid origin (execEvents pid calls))) pid =
        imageReplacements pid calls ↔
      ∀ c ∈ calls, c.replaces = true → c.replacesInHook = true := by
  rw [effectiveExecs_calls, imageReplacements_eq, Int.natCast_inj]
  constructor
  · intro heq c hc hrep
    -- the calls that replace in the hook are a sublist of equal length of those that replace
    have hsub : (calls.filter ExecCall.replacesInHook).Sublist
        (calls.filter ExecCall.replaces) := by
      refine List.monotone_filter_right _ fun c h => ?_
      exact replaces_of_inHook h
    have hsame := hsub.eq_of_length (by
      rw [← List.countP_eq_length_filter, ← List.countP_eq_length_filter, heq])
    have hmem : c ∈ calls.filter ExecCall.replacesInHook := by
      rw [hsame]
      exact List.mem_filter.mpr ⟨hc, hrep⟩
    exact (List.mem_filter.mp hmem).2
  · intro h
    refine List.countP_congr fun c hc => ⟨replaces_of_inHook, h c hc⟩

/-- `execvp("sh", ...)` with the shell in `/bin`. -/
def searchedShell : ExecCall where
  variant := .execvp
  name := str "sh"
  tries := [str "/usr/bin/sh", str "/bin/sh"]
  env :=
    { kernel := fun path => if path = str "/bin/sh" then none else some ENOENT
      emptyPath := by decide
      hooked := true
      recording := true }

/-- The shell is entered, and the tally is zero. -/
theorem execTally_refuted : ¬ ∀ (run : RunId) (pid : UInt64) (origin : Nat → Origin)
    (calls : List ExecCall),
    effectiveExecs (wholeStream run (emittedBy pid origin (execEvents pid calls))) pid =
      imageReplacements pid calls := by
  intro hclaim
  have := hclaim noRunId 7 (fun _ => { osPid := 7 }) [searchedShell]
  rw [effectiveExecs_calls, imageReplacements_eq] at this
  exact absurd this (by decide)

end IoMon
