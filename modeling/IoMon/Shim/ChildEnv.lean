/-
# The environment a child starts with

A child is monitored only if its environment preloads the shim.
`ct_linux_preload_env_with_exec_gen` and `ct_linux_preload_env_with_preload` build such an
environment from the caller's; the exec hook uses the first, the spawn hooks the second.

Two things stand between a caller and a monitored child.  Both builders look for the shim path as a
SUBSTRING of the list, so that `/opt/shim.so.old` counts as `/opt/shim.so`, and the second returns
the caller's array as it is as soon as one `LD_PRELOAD` entry has it.  And the exec variants that
search `PATH` call the hook for its record and then hand libc their own environment: the live one
for `execvp` and `execlp`, the caller's for `execvpe` and `fexecve`.  `child_env_has_shim_iff` says,
for each builder and each entry, when the child gets what it needs.

Allocations succeed here; an array is a list of entries.
-/
import IoMon.Shim.ExecHooks

namespace IoMon

open ByteText

/-! ## 1. Entries -/

def preloadKey : NimStr := str "LD_PRELOAD="

def execGenKey : NimStr := str "REPRO_MONITOR_EXEC_GEN="

def shimLibKey : NimStr := str "REPRO_MONITOR_SHIM_LIB="

/-- `ct_starts_with(entry, "LD_PRELOAD=")`. -/
def isPreload (entry : NimStr) : Bool := startsWith entry preloadKey

def isExecGen (entry : NimStr) : Bool := startsWith entry execGenKey

/-- `strstr(s, needle) != NULL`. -/
def strstr (s needle : NimStr) : Bool := s.tails.any fun t => startsWith t needle

/-- `getenv`: the value of the first entry with the name. -/
def getenv (environ : List NimStr) (key : NimStr) : Option NimStr :=
  (environ.find? fun entry => startsWith entry key).map fun entry => entry.drop key.length

/-- The shim path, when injection is configured: set and not empty. -/
def shimOf (environ : List NimStr) : Option NimStr :=
  (getenv environ shimLibKey).filter fun shim => !shim.isEmpty

/-- `setenv(name, value, 1)`: the first entry with the name is replaced, or one is added. -/
def setenv (key entry : NimStr) : List NimStr → List NimStr
  | [] => [entry]
  | e :: rest => if startsWith e key then entry :: rest else e :: setenv key entry rest

/-- `existing + strlen("LD_PRELOAD=")` for the last such entry, or the empty string. -/
def lastPreloadValue (env : List NimStr) : NimStr :=
  (((env.filter isPreload).getLast?).map fun entry => entry.drop preloadKey.length).getD []

/-- `REPRO_MONITOR_EXEC_GEN=<gen>`. -/
def execGenEntry (gen : Int) : NimStr := execGenKey ++ signedDecimal gen

/-! ## 2. The two builders -/

/-- The entry both builders make when they do not find the shim. -/
def prependShim (shim existingValue : NimStr) : NimStr :=
  if existingValue.isEmpty then preloadKey ++ shim
  else preloadKey ++ shim ++ str ":" ++ existingValue

/-- `ct_linux_preload_env_with_preload`. -/
def envWithPreload (environ env : List NimStr) : List NimStr :=
  match shimOf environ with
  | none => env
  | some shim =>
      if env.any fun entry => isPreload entry && strstr (entry.drop preloadKey.length) shim then env
      else env.filter (fun entry => !isPreload entry) ++ [prependShim shim (lastPreloadValue env)]

/-- The `LD_PRELOAD` entry of `ct_linux_preload_env_with_exec_gen`, if it makes one. -/
def execGenPreload (shim : Option NimStr) (env : List NimStr) : List NimStr :=
  match shim, (env.filter isPreload).getLast? with
  | some shim, existing =>
      if existing.isSome && strstr (lastPreloadValue env) shim then existing.toList
      else [prependShim shim (lastPreloadValue env)]
  | none, existing => existing.toList

/-- `ct_linux_preload_env_with_exec_gen`: the array it returns. -/
def envWithExecGen (environ env : List NimStr) (nextGen : Int) : List NimStr :=
  env.filter (fun entry => !isPreload entry && !isExecGen entry) ++
    (execGenPreload (shimOf environ) env ++ [execGenEntry nextGen])

/-- The same call's effect on the live environment. -/
def environAfterExecGen (environ : List NimStr) (nextGen : Int) : List NimStr :=
  setenv execGenKey (execGenEntry nextGen) environ

/-! ## 3. What each entry hands to the kernel -/

/-- The environment an exec call is made with: the variants without an argument for it use the
live one. -/
def callerEnv (variant : ExecVariant) (environ envp : List NimStr) : List NimStr :=
  match variant with
  | .execve | .execle | .execvpe | .fexecve => envp
  | .execv | .execl | .execvp | .execlp => environ

/-- The call goes past the exec hook: the guard is closed, there is no hook, or the shim is muted
or in the child of a threaded fork. -/
def execBypassed (c : ExecCall) (pid : UInt64) (s : GuardState) : Bool :=
  bypasses c.env (restoreVforkExecGuard pid s) || !c.env.recording

/-- **The environment of the attempt that an exec call comes down to.**  A variant that searches
gets past the hook's own attempt unless that one replaced the image. -/
def handedToKernel (c : ExecCall) (pid : UInt64) (s : GuardState) (environ envp : List NimStr)
    (execGen : Int) : List NimStr :=
  let env := callerEnv c.variant environ envp
  if execBypassed c pid s then env
  else if !c.variant.searches || (c.env.kernel c.hookPath).isNone then
    envWithExecGen environ env (execGen + 1)
  else
    match c.variant with
    | .execvp | .execlp => environAfterExecGen environ (execGen + 1)
    | _ => envp

/-! ## 4. What a child needs -/

/-- The elements of an `LD_PRELOAD` list. -/
def elements (value : NimStr) : List NimStr := (splitAt 58 value).filter fun e => !e.isEmpty

/-- **One `LD_PRELOAD` entry** with the shim among its elements and the caller's last list kept. -/
def HasShim (shim : NimStr) (source env : List NimStr) : Prop :=
  ∃ value, env.filter isPreload = [preloadKey ++ value] ∧ shim ∈ elements value ∧
    ∀ e ∈ elements (lastPreloadValue source), e ∈ elements value

/-- **What an exec'd child needs**: the shim, one generation entry with the generation, and the
other entries as they were. -/
structure ChildEnv (shim : NimStr) (gen : Int) (source env : List NimStr) : Prop where
  preload : HasShim shim source env
  generation : env.filter isExecGen = [execGenEntry gen]
  others : env.filter (fun e => !isPreload e && !isExecGen e) =
    source.filter (fun e => !isPreload e && !isExecGen e)

/-- No entry is both. -/
theorem isExecGen_of_isPreload {entry : NimStr} (h : isPreload entry = true) :
    isExecGen entry = false := by
  rw [eq_append_drop h]
  rfl

theorem isPreload_of_isExecGen {entry : NimStr} (h : isExecGen entry = true) :
    isPreload entry = false := by
  by_contra hp
  rw [isExecGen_of_isPreload (by simpa using hp)] at h
  cases h

theorem strstr_iff {s needle : NimStr} : strstr s needle = true ↔ needle <:+: s := by
  simp only [strstr, startsWith, List.any_eq_true, List.mem_tails, List.isPrefixOf_iff_prefix]
  constructor
  · rintro ⟨t, hsuf, hpre⟩
    exact hpre.isInfix.trans hsuf.isInfix
  · rintro ⟨a, b, rfl⟩
    exact ⟨needle ++ b, ⟨a, by simp⟩, List.prefix_append ..⟩

theorem not_mem_of_mem_splitAt {sep : UInt8} (s : NimStr) : ∀ p ∈ splitAt sep s, sep ∉ p := by
  induction s with
  | nil => simp [splitAt]
  | cons c s ih =>
      intro p hp
      unfold splitAt at hp
      split at hp
      · rcases List.mem_cons.mp hp with rfl | hmem
        · simp
        · exact ih p hmem
      · next hc =>
          cases hs : splitAt sep s with
          | nil => exact absurd hs (splitAt_ne_nil sep s)
          | cons q qs =>
              rw [hs] at hp ih
              rcases List.mem_cons.mp hp with rfl | hmem
              · have hq := ih q (List.mem_cons_self ..)
                simp only [List.mem_cons, not_or]
                exact ⟨fun h => hc h.symm, hq⟩
              · exact ih p (List.mem_cons_of_mem _ hmem)

/-- An element has no colon. -/
theorem not_mem_of_mem_elements {value e : NimStr} (h : e ∈ elements value) : (58 : UInt8) ∉ e :=
  not_mem_of_mem_splitAt value e (List.mem_filter.mp h).1

theorem elements_append (a b : NimStr) :
    elements (a ++ str ":" ++ b) = elements a ++ elements b := by
  have hstr : a ++ str ":" ++ b = a ++ 58 :: b := by
    rw [List.append_assoc]
    rfl
  rw [elements, hstr, splitAt_append_sep, List.filter_append]
  rfl

theorem elements_singleton {shim : NimStr} (hne : shim ≠ []) (hc : (58 : UInt8) ∉ shim) :
    elements shim = [shim] := by
  rw [elements, splitAt_of_not_mem 58 shim hc]
  simp [hne]

/-! ## 5. The list both builders make -/

/-- The list of the entry: the caller's if the shim is found in it, else the shim in front. -/
def mergedValue (shim value : NimStr) : NimStr :=
  if strstr value shim then value
  else if value.isEmpty then shim
  else shim ++ str ":" ++ value

/-- **The shim can be added to the list**: its path has no colon, and where the list has it as a
substring it has it as an element. -/
def ShimAddable (shim value : NimStr) : Prop :=
  (58 : UInt8) ∉ shim ∧ (strstr value shim = true → shim ∈ elements value)

theorem elements_nil : elements [] = [] := rfl

theorem mergedValue_keeps {shim value e : NimStr} (h : e ∈ elements value) :
    e ∈ elements (mergedValue shim value) := by
  unfold mergedValue
  split
  · exact h
  · split
    · next hempty =>
        rw [List.isEmpty_iff.mp hempty, elements_nil] at h
        cases h
    · rw [elements_append]
      exact List.mem_append_right _ h

theorem mem_mergedValue_iff {shim value : NimStr} (hne : shim ≠ []) :
    shim ∈ elements (mergedValue shim value) ↔ ShimAddable shim value := by
  unfold mergedValue ShimAddable
  split
  · next hfound =>
      simp only [hfound, true_implies]
      exact ⟨fun h => ⟨not_mem_of_mem_elements h, h⟩, fun h => h.2⟩
  · next hfound =>
      simp only [hfound, Bool.false_eq_true, false_implies, and_true]
      split
      · refine ⟨not_mem_of_mem_elements, fun hc => ?_⟩
        rw [elements_singleton hne hc]
        exact List.mem_singleton_self _
      · refine ⟨not_mem_of_mem_elements, fun hc => ?_⟩
        rw [elements_append, elements_singleton hne hc]
        exact List.mem_cons_self ..

theorem strstr_nil {shim : NimStr} (hne : shim ≠ []) : strstr [] shim = false := by
  rw [Bool.eq_false_iff, ne_eq, strstr_iff, List.infix_nil]
  exact hne

theorem prependShim_eq {shim value : NimStr} (h : strstr value shim = false) :
    prependShim shim value = preloadKey ++ mergedValue shim value := by
  simp only [prependShim, mergedValue, h, Bool.false_eq_true, if_false]
  split
  · rfl
  · simp only [List.append_assoc]

/-- The last `LD_PRELOAD` entry is its key and its value. -/
theorem getLast_eq {env : List NimStr} {entry : NimStr}
    (h : (env.filter isPreload).getLast? = some entry) :
    entry = preloadKey ++ lastPreloadValue env := by
  have hmem : entry ∈ env.filter isPreload := List.mem_of_getLast? h
  rw [lastPreloadValue, h]
  exact eq_append_drop (List.mem_filter.mp hmem).2

theorem execGenPreload_eq {shim : NimStr} (hne : shim ≠ []) (env : List NimStr) :
    execGenPreload (some shim) env =
      [preloadKey ++ mergedValue shim (lastPreloadValue env)] := by
  unfold execGenPreload
  cases hlast : (env.filter isPreload).getLast? with
  | none =>
      have hvalue : lastPreloadValue env = [] := by rw [lastPreloadValue, hlast]; rfl
      simp only [Option.isSome_none, Bool.false_and, Bool.false_eq_true, if_false, hvalue]
      rw [prependShim_eq (strstr_nil hne)]
  | some entry =>
      simp only [Option.isSome_some, Bool.true_and, Option.toList_some]
      split
      · next hfound => rw [mergedValue, if_pos hfound, ← getLast_eq hlast]
      · next hfound => rw [prependShim_eq (by simpa using hfound)]

theorem shimOf_ne_nil {environ : List NimStr} {shim : NimStr} (h : shimOf environ = some shim) :
    shim ≠ [] := by
  obtain ⟨-, hne⟩ := Option.filter_eq_some_iff.mp h
  simpa using hne

theorem isPreload_append (value : NimStr) : isPreload (preloadKey ++ value) = true :=
  startsWith_append ..

theorem isExecGen_execGenEntry (gen : Int) : isExecGen (execGenEntry gen) = true :=
  startsWith_append ..

/-! ## 6. The builders -/

/-- **`ct_linux_preload_env_with_exec_gen`** gives the child what it needs exactly if the shim can
be added to the caller's last list. -/
theorem envWithExecGen_iff {environ : List NimStr} {shim : NimStr}
    (hshim : shimOf environ = some shim) (env : List NimStr) (gen : Int) :
    ChildEnv shim gen env (envWithExecGen environ env gen) ↔
      ShimAddable shim (lastPreloadValue env) := by
  have hne := shimOf_ne_nil hshim
  have hgen := isExecGen_execGenEntry gen
  have hgen' := isPreload_of_isExecGen hgen
  have hpre := isPreload_append (mergedValue shim (lastPreloadValue env))
  have hpre' := isExecGen_of_isPreload hpre
  have hbuilt : envWithExecGen environ env gen =
      env.filter (fun entry => !isPreload entry && !isExecGen entry) ++
        [preloadKey ++ mergedValue shim (lastPreloadValue env), execGenEntry gen] := by
    rw [envWithExecGen, hshim, execGenPreload_eq hne]
    rfl
  have hpreloads : (envWithExecGen environ env gen).filter isPreload =
      [preloadKey ++ mergedValue shim (lastPreloadValue env)] := by
    have hkept : (env.filter fun entry => !isPreload entry && !isExecGen entry).filter
        isPreload = [] := by
      rw [List.filter_filter, List.filter_eq_nil_iff]
      intro e _
      cases isPreload e <;> simp
    rw [hbuilt, List.filter_append, hkept, List.filter_cons_of_pos hpre,
      List.filter_cons_of_neg (by simp [hgen'])]
    rfl
  constructor
  · intro h
    obtain ⟨value, hvalue, hmem, -⟩ := h.preload
    rw [hpreloads, List.cons.injEq, List.append_cancel_left_eq] at hvalue
    rw [← mem_mergedValue_iff hne, hvalue.1]
    exact hmem
  · intro h
    refine ⟨⟨_, hpreloads, (mem_mergedValue_iff hne).mpr h, fun e he => mergedValue_keeps he⟩,
      ?_, ?_⟩
    · have hkept : (env.filter fun entry => !isPreload entry && !isExecGen entry).filter
          isExecGen = [] := by
        rw [List.filter_filter, List.filter_eq_nil_iff]
        intro e _
        cases isExecGen e <;> simp
      rw [hbuilt, List.filter_append, hkept, List.filter_cons_of_neg (by simp [hpre']),
        List.filter_cons_of_pos hgen]
      rfl
    · rw [hbuilt, List.filter_append, List.filter_filter, List.filter_cons_of_neg (by simp [hpre]),
        List.filter_cons_of_neg (by simp [hgen])]
      simp

/-- The environment has one `LD_PRELOAD` entry, with the shim among its elements. -/
def ShimInPlace (shim : NimStr) (env : List NimStr) : Prop :=
  ∃ value, env.filter isPreload = [preloadKey ++ value] ∧ shim ∈ elements value

theorem hasShim_self_iff {shim : NimStr} {env : List NimStr} :
    HasShim shim env env ↔ ShimInPlace shim env := by
  constructor
  · rintro ⟨value, hvalue, hmem, -⟩
    exact ⟨value, hvalue, hmem⟩
  · rintro ⟨value, hvalue, hmem⟩
    have hlast : lastPreloadValue env = value := by
      rw [lastPreloadValue, hvalue]
      simp
    exact ⟨value, hvalue, hmem, fun e he => hlast ▸ he⟩

/-- Some `LD_PRELOAD` entry has the shim path as a substring. -/
def shimFound (shim : NimStr) (env : List NimStr) : Bool :=
  env.any fun entry => isPreload entry && strstr (entry.drop preloadKey.length) shim

/-- **`ct_linux_preload_env_with_preload`**: where it finds the shim path the caller's array has to
be in order already; otherwise the path must have no colon. -/
theorem envWithPreload_iff {environ : List NimStr} {shim : NimStr}
    (hshim : shimOf environ = some shim) (env : List NimStr) :
    HasShim shim env (envWithPreload environ env) ↔
      if shimFound shim env then ShimInPlace shim env else (58 : UInt8) ∉ shim := by
  have hne := shimOf_ne_nil hshim
  rw [envWithPreload, hshim]
  cases hfound : shimFound shim env with
  | true =>
      simp only [shimFound] at hfound
      simp only [hfound, if_true]
      exact hasShim_self_iff
  | false =>
      have hlast : strstr (lastPreloadValue env) shim = false := by
        cases hl : (env.filter isPreload).getLast? with
        | none =>
            have hvalue : lastPreloadValue env = [] := by rw [lastPreloadValue, hl]; rfl
            rw [hvalue, strstr_nil hne]
        | some entry =>
            have hmem := List.mem_filter.mp (List.mem_of_getLast? hl)
            have hno := List.any_eq_false.mp hfound entry hmem.1
            rw [hmem.2, Bool.true_and] at hno
            rw [lastPreloadValue, hl]
            simpa using hno
      have hpreloads : (env.filter (fun entry => !isPreload entry) ++
          [prependShim shim (lastPreloadValue env)]).filter isPreload =
          [preloadKey ++ mergedValue shim (lastPreloadValue env)] := by
        have hkept : (env.filter fun entry => !isPreload entry).filter isPreload = [] := by
          rw [List.filter_filter, List.filter_eq_nil_iff]
          intro e _
          cases isPreload e <;> simp
        rw [List.filter_append, hkept, prependShim_eq hlast,
          List.filter_cons_of_pos (isPreload_append _)]
        rfl
      simp only [shimFound] at hfound
      simp only [hfound, Bool.false_eq_true, if_false]
      have hadd : ShimAddable shim (lastPreloadValue env) ↔ (58 : UInt8) ∉ shim := by
        simp [ShimAddable, hlast]
      rw [← hadd, ← mem_mergedValue_iff hne]
      constructor
      · rintro ⟨value, hvalue, hmem, -⟩
        rw [hpreloads, List.cons.injEq, List.append_cancel_left_eq] at hvalue
        rw [hvalue.1]
        exact hmem
      · exact fun h => ⟨_, hpreloads, h, fun e he => mergedValue_keeps he⟩

/-! ## 7. The entries -/

/-- A child that is handed its caller's environment has what it needs if that environment has. -/
theorem childEnv_self_iff {shim : NimStr} {gen : Int} {env : List NimStr} :
    ChildEnv shim gen env env ↔
      ShimInPlace shim env ∧ env.filter isExecGen = [execGenEntry gen] := by
  rw [← hasShim_self_iff]
  exact ⟨fun h => ⟨h.preload, h.generation⟩, fun h => ⟨h.1, h.2, rfl⟩⟩

/-- `setenv` touches entries of its own name only. -/
theorem filter_setenv_of_ne {key entry : NimStr} {p : NimStr → Bool} (hentry : p entry = false)
    (hkey : ∀ e, startsWith e key = true → p e = false) (env : List NimStr) :
    (setenv key entry env).filter p = env.filter p := by
  induction env with
  | nil => simp [setenv, hentry]
  | cons e rest ih =>
      unfold setenv
      split
      · next h => rw [List.filter_cons_of_neg (by simp [hentry]),
          List.filter_cons_of_neg (by simp [hkey e h])]
      · rw [List.filter_cons, List.filter_cons, ih]

theorem filter_setenv_self {key entry : NimStr} (hentry : startsWith entry key = true)
    (env : List NimStr) :
    (setenv key entry env).filter (startsWith · key) =
      entry :: (env.filter (startsWith · key)).tail := by
  induction env with
  | nil => simp [setenv, hentry]
  | cons e rest ih =>
      unfold setenv
      split
      · next h =>
          simp only [List.filter_cons, hentry, h, if_true, List.tail_cons]
      · next h =>
          simp only [List.filter_cons, h]
          exact ih

/-- **The live environment after the bump** has what the child needs if the shim is in place there
and no second generation entry hides behind the first. -/
theorem environAfterExecGen_iff {shim : NimStr} {gen : Int} {environ : List NimStr} :
    ChildEnv shim gen environ (environAfterExecGen environ gen) ↔
      ShimInPlace shim environ ∧ (environ.filter isExecGen).length ≤ 1 := by
  have hgen := isExecGen_execGenEntry gen
  have hpreloads : (environAfterExecGen environ gen).filter isPreload =
      environ.filter isPreload :=
    filter_setenv_of_ne (isPreload_of_isExecGen hgen) (fun e he => isPreload_of_isExecGen he) _
  have hothers : (environAfterExecGen environ gen).filter
        (fun e => !isPreload e && !isExecGen e) =
      environ.filter (fun e => !isPreload e && !isExecGen e) := by
    refine filter_setenv_of_ne (by simp [hgen]) (fun e he => ?_) _
    have he' : isExecGen e = true := he
    simp [he']
  have hgens : (environAfterExecGen environ gen).filter isExecGen =
      execGenEntry gen :: (environ.filter isExecGen).tail := filter_setenv_self hgen environ
  have htail : (environ.filter isExecGen).tail = [] ↔ (environ.filter isExecGen).length ≤ 1 := by
    cases environ.filter isExecGen with
    | nil => simp
    | cons e rest => simp
  have hshim : HasShim shim environ (environAfterExecGen environ gen) ↔
      ShimInPlace shim environ := by
    rw [← hasShim_self_iff, HasShim, HasShim, hpreloads]
  rw [← hshim, ← htail]
  constructor
  · intro h
    have hone := h.generation
    rw [hgens, List.cons.injEq] at hone
    exact ⟨h.preload, hone.2⟩
  · rintro ⟨hpre, hone⟩
    exact ⟨hpre, by rw [hgens, hone], hothers⟩

/-- **When an exec call gives its child the shim.**  Past the hook the caller's environment must be
in order already.  A call that the hook's own attempt completes needs a list the shim can be added
to.  A search that goes on needs the live environment, or the caller's, in order. -/
def ChildGetsShim (c : ExecCall) (pid : UInt64) (s : GuardState) (environ envp : List NimStr)
    (execGen : Int) (shim : NimStr) : Prop :=
  if execBypassed c pid s then
    ShimInPlace shim (callerEnv c.variant environ envp) ∧
      (callerEnv c.variant environ envp).filter isExecGen = [execGenEntry (execGen + 1)]
  else if !c.variant.searches || (c.env.kernel c.hookPath).isNone then
    ShimAddable shim (lastPreloadValue (callerEnv c.variant environ envp))
  else
    match c.variant with
    | .execvp | .execlp => ShimInPlace shim environ ∧ (environ.filter isExecGen).length ≤ 1
    | _ => ShimInPlace shim envp ∧ envp.filter isExecGen = [execGenEntry (execGen + 1)]

theorem handedToKernel_iff {environ : List NimStr} {shim : NimStr}
    (hshim : shimOf environ = some shim) (envp : List NimStr) (c : ExecCall) (pid : UInt64)
    (s : GuardState) (execGen : Int) :
    ChildEnv shim (execGen + 1) (callerEnv c.variant environ envp)
        (handedToKernel c pid s environ envp execGen) ↔
      ChildGetsShim c pid s environ envp execGen shim := by
  unfold handedToKernel ChildGetsShim
  cases execBypassed c pid s with
  | true =>
      simp only [if_true]
      exact childEnv_self_iff
  | false =>
      simp only [Bool.false_eq_true, if_false]
      cases hhook : !c.variant.searches || (c.env.kernel c.hookPath).isNone with
      | true =>
          simp only [if_true]
          exact envWithExecGen_iff hshim _ _
      | false =>
          simp only [Bool.false_eq_true, if_false]
          have hsearch : c.variant.searches = true := by
            rw [Bool.or_eq_false_iff] at hhook
            simpa using hhook.1
          cases hv : c.variant with
          | execve | execv | execl | execle => rw [hv] at hsearch; cases hsearch
          | execvp | execlp => exact environAfterExecGen_iff
          | execvpe | fexecve => exact childEnv_self_iff

/-- **Children get the shim, exactly when.**  For every environment array: the array built with a
generation, the array each exec entry comes down to, and the array built for a spawn. -/
theorem child_env_has_shim_iff {environ : List NimStr} {shim : NimStr}
    (hshim : shimOf environ = some shim) (env : List NimStr) :
    (∀ gen, ChildEnv shim gen env (envWithExecGen environ env gen) ↔
      ShimAddable shim (lastPreloadValue env)) ∧
    (∀ c pid s execGen, ChildEnv shim (execGen + 1) (callerEnv c.variant environ env)
        (handedToKernel c pid s environ env execGen) ↔
      ChildGetsShim c pid s environ env execGen shim) ∧
    (HasShim shim env (envWithPreload environ env) ↔
      if shimFound shim env then ShimInPlace shim env else (58 : UInt8) ∉ shim) :=
  ⟨envWithExecGen_iff hshim env, handedToKernel_iff hshim env, envWithPreload_iff hshim env⟩

/-- The live environment of a monitored process, without its `LD_PRELOAD`. -/
def monitoredEnviron : List NimStr := [str "REPRO_MONITOR_SHIM_LIB=/opt/shim.so"]

/-- An execve with an environment of one's own, which preloads a tracer. -/
theorem child_env_has_shim_tracer :
    shimOf monitoredEnviron = some (str "/opt/shim.so") ∧
    envWithExecGen monitoredEnviron [str "PATH=/bin", str "LD_PRELOAD=/opt/trace.so"] 1 =
      [str "PATH=/bin", str "LD_PRELOAD=/opt/shim.so:/opt/trace.so",
        str "REPRO_MONITOR_EXEC_GEN=1"] ∧
    ChildEnv (str "/opt/shim.so") 1 [str "PATH=/bin", str "LD_PRELOAD=/opt/trace.so"]
      (envWithExecGen monitoredEnviron [str "PATH=/bin", str "LD_PRELOAD=/opt/trace.so"] 1) := by
  have hshim : shimOf monitoredEnviron = some (str "/opt/shim.so") := by decide +kernel
  refine ⟨hshim, by decide +kernel, ((child_env_has_shim_iff hshim _).1 1).mpr ⟨by decide, ?_⟩⟩
  intro h
  exact absurd h (by decide +kernel)

/-- `execvpe` of a command found through `PATH`, from a fresh image. -/
def searchedCommand : ExecCall where
  variant := .execvpe
  name := str "cc"
  tries := [str "/bin/cc"]
  env :=
    { kernel := fun path => if path = str "/bin/cc" then none else some ENOENT
      emptyPath := by decide
      hooked := true
      recording := true }

/-- **Children without the shim**: an execve whose `LD_PRELOAD` names another library with the shim
path in its name, and an `execvpe` with an environment of one's own. -/
theorem child_without_shim :
    (shimOf monitoredEnviron = some (str "/opt/shim.so") ∧
      ¬ ChildEnv (str "/opt/shim.so") 1 [str "LD_PRELOAD=/opt/shim.so.old"]
        (envWithExecGen monitoredEnviron [str "LD_PRELOAD=/opt/shim.so.old"] 1)) ∧
    ¬ ChildEnv (str "/opt/shim.so") 1 [str "PATH=/bin"]
      (handedToKernel searchedCommand 7 {} monitoredEnviron [str "PATH=/bin"] 0) := by
  have hshim : shimOf monitoredEnviron = some (str "/opt/shim.so") := by decide +kernel
  refine ⟨⟨hshim, fun h => ?_⟩, fun h => ?_⟩
  · obtain ⟨-, hadd⟩ := (envWithExecGen_iff hshim _ _).mp h
    exact absurd (hadd (by decide +kernel)) (by decide +kernel)
  · obtain ⟨value, hvalue, -⟩ := h.preload
    have hnone : (handedToKernel searchedCommand 7 {} monitoredEnviron [str "PATH=/bin"]
        0).filter isPreload = [] := by decide +kernel
    rw [hnone] at hvalue
    cases hvalue

end IoMon
