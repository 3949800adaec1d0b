/-
# The hook guard across vfork

A vfork child runs on its suspended parent's thread-local memory until it execs or exits, so the
bracket a non-returning call leaves open is still open when the parent resumes.  The exec bracket
remembers whose it was and every later hooked call repairs it; the bracket of `_exit` remembers
nothing.

A run is a list of operations of whichever process of the vfork chain is running.  Each suspended
process is stored with the depth its hooked calls saw when it called vfork, and what has to hold
is that they see the same depth when it comes back (`GuardSurvives`).
-/
import IoMon.Shim.ExecHooks

namespace IoMon

/-! ## 1. The thread -/

/-- The thread's shared guard, the process running on it, the depth it had before the vfork it has
just come back from, and the suspended processes with theirs, innermost first. -/
structure ThreadState where
  guard : GuardState
  running : UInt64
  resumed : Option Nat
  suspended : List (UInt64 × Nat)
  deriving DecidableEq, Repr

/-- The depth a hooked call of the process sees. -/
def visibleDepth (pid : UInt64) (s : GuardState) : Nat := (restoreVforkExecGuard pid s).depth

/-- A hooked call that returns: bypassed, or bracketed.  The interposed calls it makes on the way
are under a raised depth and only look at the guard. -/
def hookedCall (pid : UInt64) (hooked : Bool) (nested : Nat) (s₀ : GuardState) : GuardState :=
  let s := restoreVforkExecGuard pid s₀
  if !hooksAllowed s || !hooked then (restoreVforkExecGuard pid)^[nested] s
  else exitHook ((restoreVforkExecGuard pid)^[nested] (enterHook s))

/-- The guard `_exit` leaves behind.  Its hook ends in the real `_exit`, so the bracket is never
closed. -/
def exitGuard (pid : UInt64) (exitHooked : Bool) (s₀ : GuardState) : GuardState :=
  let s := restoreVforkExecGuard pid s₀
  if hooksAllowed s && exitHooked then enterHook s else s

inductive ThreadOp
  | call (hooked : Bool) (nested : Nat)
  | exec (c : ExecCall)
  | vfork (child : UInt64)
  | exit

/-- The innermost suspended process resumes. -/
def ThreadState.resume (t : ThreadState) (guard : GuardState) : Option ThreadState :=
  match t.suspended with
  | [] => none
  | (pid, depth) :: rest =>
    some { guard := guard, running := pid, resumed := some depth, suspended := rest }

/-- One operation of the running process; `none` when the thread is gone, or when the kernel would
not hand out that pid. -/
def ThreadState.step (exitHooked : Bool) (t : ThreadState) : ThreadOp → Option ThreadState
  | .call hooked nested =>
    some { t with guard := hookedCall t.running hooked nested t.guard, resumed := none }
  | .exec c =>
    let r := c.dispatch t.running t.guard
    match r.result with
    | some _ => some { t with guard := r.state, resumed := none }
    | none => t.resume r.state
  | .vfork child =>
    if child = 0 ∨ child = t.running ∨ child ∈ t.suspended.map (·.1) then none
    else
      some { guard := t.guard, running := child, resumed := none
             suspended := (t.running, visibleDepth t.running t.guard) :: t.suspended }
  | .exit => t.resume (exitGuard t.running exitHooked t.guard)

def ThreadState.run (exitHooked : Bool) (t : ThreadState) (ops : List ThreadOp) :
    Option ThreadState :=
  ops.foldlM (ThreadState.step exitHooked) t

/-- A thread with no exec bracket open. -/
def threadStart (pid : UInt64) (depth : Nat) : ThreadState where
  guard := { depth := depth }
  running := pid
  resumed := none
  suspended := []

/-- **The guard survived**: a process that has just come back from a vfork sees the depth it had
before. -/
def GuardSurvives (t : ThreadState) : Prop :=
  ∀ depth, t.resumed = some depth → visibleDepth t.running t.guard = depth

/-! ## 2. The steps that keep the guard -/

/-- A vfork child does not leave through a hooked `_exit`; and a process that was given the pid an
outstanding exec bracket still remembers does not vfork. -/
def ThreadState.Safe (exitHooked : Bool) (t : ThreadState) : ThreadOp → Prop
  | .exit => exitHooked = true → hooksAllowed (restoreVforkExecGuard t.running t.guard) = false
  | .vfork _ => t.guard.execGuardPid = 0 ∨ t.guard.execGuardPid ≠ t.running
  | _ => True

/-- Every step of the run is safe. -/
def ThreadState.SafeRun (exitHooked : Bool) : ThreadState → List ThreadOp → Prop
  | _, [] => True
  | t, op :: rest =>
    t.Safe exitHooked op ∧ ∀ t', t.step exitHooked op = some t' → t'.SafeRun exitHooked rest

/-- No bracket is open, or one a process that execed away left open, and then the depth to resume
at is the base depth. -/
structure GuardAt (base : Nat) (s : GuardState) : Prop where
  clean : s.execGuardPid = 0 → s.depth = base
  outstanding : s.execGuardPid ≠ 0 → s.resumeDepth = base ∧ base < s.depth

/-- **The invariant of a safe run.** -/
structure ThreadInv (base : Nat) (t : ThreadState) : Prop where
  guard : GuardAt base t.guard
  /-- whoever left a bracket open is not waiting to resume -/
  gone : t.guard.execGuardPid ≠ 0 → t.guard.execGuardPid ∉ t.suspended.map (·.1)
  resumed : ∀ depth, t.resumed = some depth →
    depth = base ∧ (t.guard.execGuardPid = 0 ∨ t.guard.execGuardPid ≠ t.running)
  depths : ∀ p ∈ t.suspended, p.2 = base
  distinct : (t.running :: t.suspended.map (·.1)).Nodup
  nonzero : ∀ pid ∈ t.running :: t.suspended.map (·.1), pid ≠ 0

section Guard

variable {base : Nat} {pid : UInt64} {s : GuardState}

/-- **The repair**: after it the guard is clean at the base depth, or open in this very pid. -/
theorem restore_cases (pid : UInt64) (h : GuardAt base s) :
    ((restoreVforkExecGuard pid s).execGuardPid = 0 ∧
        (restoreVforkExecGuard pid s).depth = base) ∨
      (s.execGuardPid ≠ 0 ∧ s.execGuardPid = pid ∧ restoreVforkExecGuard pid s = s ∧
        base < s.depth) := by
  by_cases h0 : s.execGuardPid = 0
  · rw [restore_of_clean pid h0]
    exact .inl ⟨h0, h.clean h0⟩
  obtain ⟨hresume, hdepth⟩ := h.outstanding h0
  by_cases hp : s.execGuardPid = pid
  · exact .inr ⟨h0, hp, restore_of_own hp, hdepth⟩
  · refine .inl ?_
    rw [restoreVforkExecGuard, if_pos ⟨h0, hp⟩, unwindTo_eq, hresume]
    exact ⟨rfl, by simp only; omega⟩

theorem visibleDepth_eq (h : GuardAt base s)
    (hp : s.execGuardPid = 0 ∨ s.execGuardPid ≠ pid) : visibleDepth pid s = base := by
  rcases restore_cases pid h with ⟨_, hdepth⟩ | ⟨h0, hown, _⟩
  · exact hdepth
  · rcases hp with hp | hp
    · exact absurd hp h0
    · exact absurd hown hp

theorem guardAt_of_clean (h0 : s.execGuardPid = 0) (hd : s.depth = base) : GuardAt base s :=
  ⟨fun _ => hd, fun h => absurd h0 h⟩

theorem restore_iterate_of_fixed (h : restoreVforkExecGuard pid s = s) (n : Nat) :
    (restoreVforkExecGuard pid)^[n] s = s := Function.iterate_fixed h n

/-- A returning hooked call leaves the guard repaired and otherwise as it was. -/
theorem hookedCall_eq (h : GuardAt base s) (hooked : Bool) (nested : Nat) :
    hookedCall pid hooked nested s = restoreVforkExecGuard pid s := by
  have hfix : restoreVforkExecGuard pid (restoreVforkExecGuard pid s) =
      restoreVforkExecGuard pid s := by
    rcases restore_cases pid h with ⟨h0, _⟩ | ⟨_, _, heq, _⟩
    · exact restore_of_clean pid h0
    · rw [heq, heq]
  simp only [hookedCall]
  split
  · exact restore_iterate_of_fixed hfix nested
  · rename_i hallowed
    -- hooks are allowed, so the bracket belongs to nobody
    have hclean : (restoreVforkExecGuard pid s).execGuardPid = 0 := by
      rcases restore_cases pid h with ⟨h0, _⟩ | ⟨_, _, heq, hdepth⟩
      · exact h0
      · rw [heq] at hallowed
        simp only [hooksAllowed, Bool.or_eq_true, Bool.not_eq_true', beq_eq_false_iff_ne, not_or,
          not_not] at hallowed
        omega
    have hin : (enterHook (restoreVforkExecGuard pid s)).execGuardPid = 0 := hclean
    rw [restore_iterate_of_fixed (restore_of_clean pid hin)]
    simp [exitHook, enterHook]

/-- `_exit` with hooks suppressed, or with no hook, only repairs the guard. -/
theorem exitGuard_eq {exitHooked : Bool}
    (h : exitHooked = true → hooksAllowed (restoreVforkExecGuard pid s) = false) :
    exitGuard pid exitHooked s = restoreVforkExecGuard pid s := by
  simp only [exitGuard]
  split
  · rename_i hb
    simp only [Bool.and_eq_true] at hb
    rw [h hb.2] at hb
    exact absurd hb.1 (by simp)
  · rfl

/-! ## 3. Exec dispatches and the guard -/

theorem restore_idem : restoreVforkExecGuard pid (restoreVforkExecGuard pid s) =
    restoreVforkExecGuard pid s := by
  by_cases h : s.execGuardPid ≠ 0 ∧ s.execGuardPid ≠ pid
  · refine restore_of_clean pid ?_
    rw [restoreVforkExecGuard, if_pos h]
  · have heq : restoreVforkExecGuard pid s = s := by rw [restoreVforkExecGuard, if_neg h]
    rw [heq, heq]

/-- A dispatch begins with the repair. -/
theorem dispatch_restore (c : ExecCall) :
    c.dispatch pid (restoreVforkExecGuard pid s) = c.dispatch pid s := by
  rw [ExecCall.dispatch_eq, ExecCall.dispatch_eq, dispatchSearch, dispatchExecve, restore_idem,
    ← dispatchSearch, ← dispatchExecve]

/-- **With no bracket open** a dispatch that returns keeps the guard, and one that does not leaves
it alone or leaves its own bracket open. -/
theorem dispatch_clean (pid : UInt64) (c : ExecCall) (h : s.execGuardPid = 0) :
    ((c.dispatch pid s).result ≠ none → (c.dispatch pid s).state = s) ∧
      ((c.dispatch pid s).state = s ∨ (c.dispatch pid s).state = execBracket pid s) := by
  rw [ExecCall.dispatch_eq, dispatchSearch_clean h, dispatchExecve_clean h]
  cases c.variant.searches <;> cases bypasses c.env s <;>
    cases hk : c.env.kernel c.hookPath <;> cases ht : searchResult c.env c.tries <;> simp

/-- **Under a bracket of its own pid** every dispatch is bypassed. -/
theorem dispatch_own (c : ExecCall) (h : s.execGuardPid = pid) (hd : 0 < s.depth) :
    (c.dispatch pid s).state = s := by
  have hb : bypasses c.env s = true := by
    have : s.depth ≠ 0 := by omega
    simp [bypasses, hooksAllowed, this]
  rw [ExecCall.dispatch_eq]
  split
  · rw [dispatchSearch, restore_of_own h, if_pos hb, realSearch_bypassed (.inr h) hb]
  · rw [dispatchExecve_bypassed (.inr h) hb]

/-- **Every dispatch keeps the base depth**: the bracket it may leave open resumes there. -/
theorem dispatch_guardAt (c : ExecCall) (hpid : pid ≠ 0) (h : GuardAt base s) :
    ((c.dispatch pid s).result ≠ none →
        (c.dispatch pid s).state = restoreVforkExecGuard pid s) ∧
      GuardAt base (c.dispatch pid s).state ∧
      ((c.dispatch pid s).state.execGuardPid = 0 ∨
        (c.dispatch pid s).state.execGuardPid = pid) := by
  rcases restore_cases pid h with ⟨h0, hdepth⟩ | ⟨hne, hown, heq, hdepth⟩
  · rw [← dispatch_restore]
    obtain ⟨hret, hstate⟩ := dispatch_clean pid c h0
    refine ⟨hret, ?_⟩
    rcases hstate with hstate | hstate <;> rw [hstate]
    · exact ⟨guardAt_of_clean h0 hdepth, .inl h0⟩
    · have hopen : base < (execBracket pid (restoreVforkExecGuard pid s)).depth := by
        simp only [execBracket]
        omega
      exact ⟨⟨fun hz => absurd hz hpid, fun _ => ⟨hdepth, hopen⟩⟩, .inr rfl⟩
  · have hstate := dispatch_own c hown (by omega)
    rw [hstate, heq]
    exact ⟨fun _ => rfl, h, .inr hown⟩

end Guard

/-! ## 4. Safe runs -/

section Runs

variable {exitHooked : Bool} {base : Nat} {t t' : ThreadState}

/-- After the repair nobody in the chain but the running process can own the bracket. -/
theorem ThreadInv.restored (h : ThreadInv base t) :
    GuardAt base (restoreVforkExecGuard t.running t.guard) ∧
      ((restoreVforkExecGuard t.running t.guard).execGuardPid = 0 ∨
        (restoreVforkExecGuard t.running t.guard).execGuardPid = t.running) := by
  rcases restore_cases t.running h.guard with ⟨h0, hdepth⟩ | ⟨_, hown, heq, _⟩
  · exact ⟨guardAt_of_clean h0 hdepth, .inl h0⟩
  · rw [heq]
    exact ⟨h.guard, .inr hown⟩

theorem running_not_suspended (h : ThreadInv base t) : t.running ∉ t.suspended.map (·.1) :=
  (List.nodup_cons.mp h.distinct).1

/-- The running process goes on with a guard that is clean or open in its own pid. -/
theorem ThreadInv.continue (h : ThreadInv base t) {guard : GuardState} (hg : GuardAt base guard)
    (hown : guard.execGuardPid = 0 ∨ guard.execGuardPid = t.running) :
    ThreadInv base { t with guard := guard, resumed := none } := by
  refine ⟨hg, fun hne => ?_, fun depth hd => absurd hd (by simp), h.depths, h.distinct, h.nonzero⟩
  rcases hown with h0 | hp
  · exact absurd h0 hne
  · simp only [hp]
    exact running_not_suspended h

/-- **A resumed process finds the guard at its own depth** if the child left it clean or open in
the child's pid. -/
theorem ThreadInv.resume (h : ThreadInv base t) {guard : GuardState} (hg : GuardAt base guard)
    (hown : guard.execGuardPid = 0 ∨ guard.execGuardPid = t.running)
    (hres : t.resume guard = some t') : ThreadInv base t' := by
  unfold ThreadState.resume at hres
  cases hsus : t.suspended with
  | nil =>
    rw [hsus] at hres
    exact absurd hres (by simp)
  | cons p rest =>
    obtain ⟨pid, depth⟩ := p
    rw [hsus, Option.some.injEq] at hres
    have hdistinct := h.distinct
    have hdepths := h.depths
    have hnonzero := h.nonzero
    rw [hsus] at hdistinct hdepths hnonzero
    obtain ⟨hnot, hrest⟩ := List.nodup_cons.mp hdistinct
    subst hres
    refine ⟨hg, fun hne => ?_, fun d hd => ⟨?_, ?_⟩, fun q hq => ?_, hrest, fun q hq => ?_⟩
    · rcases hown with h0 | hp
      · exact absurd h0 hne
      · simp only [hp]
        exact fun hmem => hnot (List.mem_cons_of_mem _ hmem)
    · rw [← Option.some.inj hd]
      exact hdepths _ (List.mem_cons_self ..)
    · rcases hown with h0 | hp
      · exact .inl h0
      · refine .inr ?_
        simp only [hp]
        rintro rfl
        exact hnot (List.mem_cons_self ..)
    · exact hdepths q (List.mem_cons_of_mem _ hq)
    · exact hnonzero q (List.mem_cons_of_mem _ hq)

/-- **One safe step keeps the invariant.** -/
theorem ThreadInv.step (h : ThreadInv base t) {op : ThreadOp} (hsafe : t.Safe exitHooked op)
    (hstep : t.step exitHooked op = some t') : ThreadInv base t' := by
  have hpid : t.running ≠ 0 := h.nonzero _ (List.mem_cons_self ..)
  cases op with
  | call hooked nested =>
    simp only [ThreadState.step, hookedCall_eq h.guard, Option.some.injEq] at hstep
    subst hstep
    exact h.continue h.restored.1 h.restored.2
  | exec c =>
    obtain ⟨_, hg, hown⟩ := dispatch_guardAt c hpid h.guard
    simp only [ThreadState.step] at hstep
    split at hstep
    · rw [← Option.some.inj hstep]
      exact h.continue hg hown
    · exact h.resume hg hown hstep
  | vfork child =>
    simp only [ThreadState.step] at hstep
    split at hstep
    · exact absurd hstep (by simp)
    rename_i hfresh
    simp only [not_or] at hfresh
    obtain ⟨hne0, hnerun, hnesus⟩ := hfresh
    rw [Option.some.injEq] at hstep
    subst hstep
    refine ⟨h.guard, fun hne => ?_, fun d hd => absurd hd (by simp), fun p hp => ?_, ?_,
      fun p hp => ?_⟩
    · rw [List.map_cons, List.mem_cons, not_or]
      exact ⟨hsafe.resolve_left hne, h.gone hne⟩
    · rcases List.mem_cons.mp hp with rfl | hp
      · exact visibleDepth_eq h.guard hsafe
      · exact h.depths p hp
    · rw [List.map_cons]
      refine List.nodup_cons.mpr ⟨?_, h.distinct⟩
      rw [List.mem_cons, not_or]
      exact ⟨hnerun, hnesus⟩
    · rcases List.mem_cons.mp hp with rfl | hp
      · exact hne0
      · exact h.nonzero p hp
  | exit =>
    rw [ThreadState.step, exitGuard_eq hsafe] at hstep
    exact h.resume h.restored.1 h.restored.2 hstep

/-- **A safe run keeps the invariant.** -/
theorem ThreadInv.run {ops : List ThreadOp} (h : ThreadInv base t)
    (hsafe : t.SafeRun exitHooked ops) (hrun : t.run exitHooked ops = some t') :
    ThreadInv base t' := by
  induction ops generalizing t with
  | nil =>
    rw [← Option.some.inj hrun]
    exact h
  | cons op rest ih =>
    obtain ⟨hop, hrest⟩ := hsafe
    rw [ThreadState.run, List.foldlM_cons] at hrun
    obtain ⟨mid, hmid, hrun⟩ := Option.bind_eq_some_iff.mp hrun
    exact ih (h.step hop hmid) (hrest mid hmid) hrun

theorem threadInv_start {pid : UInt64} (hpid : pid ≠ 0) (depth : Nat) :
    ThreadInv depth (threadStart pid depth) := by
  refine ⟨guardAt_of_clean rfl rfl, fun h => absurd rfl h,
    fun d hd => absurd hd (by simp [threadStart]), ?_, ?_, ?_⟩
  · simp [threadStart]
  · simp [threadStart]
  · simp [threadStart, hpid]

/-- **The hook guard survives vfork in every safe run.** -/
theorem guardSurvives_of_safe (exitHooked : Bool) (pid : UInt64) (hpid : pid ≠ 0) (depth : Nat)
    (ops : List ThreadOp) (hsafe : (threadStart pid depth).SafeRun exitHooked ops)
    (t : ThreadState) (hrun : (threadStart pid depth).run exitHooked ops = some t) :
    GuardSurvives t := by
  have hinv := (threadInv_start hpid depth).run hsafe hrun
  intro d hd
  obtain ⟨rfl, hother⟩ := hinv.resumed d hd
  exact visibleDepth_eq hinv.guard hother

end Runs

/-- The child execs the shell its search finds. -/
def vforkExec : List ThreadOp := [.vfork 8, .exec searchedShell]

theorem guardSurvives_vforkExec :
    ∃ t, (threadStart 7 0).run true vforkExec = some t ∧ t.resumed = some 0 ∧ GuardSurvives t :=
  ⟨_, rfl, rfl, guardSurvives_of_safe true 7 (by decide) 0 vforkExec
    ⟨.inl rfl, fun _ h => by
      rw [← Option.some.inj h]
      exact ⟨trivial, fun _ _ => trivial⟩⟩ _ rfl⟩

/-- The child leaves through `_exit`, and the parent resumes one level deeper. -/
theorem guardSurvives_refuted : ¬ ∀ (exitHooked : Bool) (pid : UInt64), pid ≠ 0 →
    ∀ (depth : Nat) (ops : List ThreadOp) (t : ThreadState),
    (threadStart pid depth).run exitHooked ops = some t → GuardSurvives t := by
  intro hclaim
  have := hclaim true 7 (by decide) 0 [.vfork 8, .exit] _ rfl 0 rfl
  exact absurd this (by decide)

end IoMon
