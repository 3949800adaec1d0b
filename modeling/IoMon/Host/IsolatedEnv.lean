/-
# The environment of a monitored child

A child starts with the hosting process's environment, the request's over it, and io-mon's own
variables over both; with `isolateEnv` the first layer is left out.  The last layer is where the
host comes back in.  Its values are composed from what the child would have had before, and
`requestEnvValue` takes that from the host whenever the request has no binding, isolated or not: the
host's preload list, its `REPRO_MONITOR_DEP_SHM_DISABLE` and its `REPRO_MONITOR_APP_ID` reach an
isolated child.  So does the capture that the host itself may run in: the macOS arm then asks its
shims for everything, whatever the request names.

What io-mon sets it sets once and over everything (`controls_once`).  Two things it does not set:
a run without a set of its own leaves whatever set the child was to have, and the shim is put before
a preload list that may name it already.  `environment_iff` says exactly when a run meets none of
this.
-/
import IoMon.Lib.NameTable
import IoMon.Host.Lifecycle
import IoMon.Host.NestedCapture
import IoMon.Host.ShimTokens
import IoMon.Shim.ChildEnv

namespace IoMon.Isolation

open ByteText NameTable MonitorRecordKind EvidenceScope
open Lifecycle (Platform)
open ShimTokens (interestToShimTokens interestToShimTokens_inj evidenceScopeToken_inj)

/-! ## 1. Names -/

/-- The variables io-mon sets in a child. -/
inductive ControlVar
  | ldPreload | dyldInsertLibraries | sandboxToolsDir | fragmentDir | output | session | depShm
  | appId | shimLib | interest | evidence
  deriving DecidableEq, Repr

open ControlVar

def ControlVar.name : ControlVar → NimStr
  | ldPreload => str "LD_PRELOAD"
  | dyldInsertLibraries => str "DYLD_INSERT_LIBRARIES"
  | sandboxToolsDir => str "CT_SANDBOX_TOOLS_DIR"
  | fragmentDir => str "REPRO_MONITOR_FRAGMENT_DIR"
  | output => str "REPRO_MONITOR_OUTPUT"
  | session => str "REPRO_MONITOR_SESSION"
  | depShm => str "REPRO_MONITOR_DEP_SHM"
  | appId => str "REPRO_MONITOR_APP_ID"
  | shimLib => str "REPRO_MONITOR_SHIM_LIB"
  | interest => str "REPRO_MONITOR_INTEREST"
  | evidence => str "REPRO_MONITOR_EVIDENCE"

def depShmDisable : NimStr := str "REPRO_MONITOR_DEP_SHM_DISABLE"

def toLowerAscii (c : UInt8) : UInt8 := if 65 ≤ c ∧ c ≤ 90 then c + 32 else c

/-- `ChildEnvMode`: how the child's table compares names. -/
def envFold : Platform → NimStr → NimStr
  | .windows => List.map toLowerAscii
  | .linux | .macosx => fun s => s

def ControlVar.all : List ControlVar :=
  [ldPreload, dyldInsertLibraries, sandboxToolsDir, fragmentDir, output, session, depShm, appId,
    shimLib, interest, evidence]

theorem nodup_folded_names : (ControlVar.all.map fun v => v.name.map toLowerAscii).Nodup := by
  decide +kernel

/-- No two of the names are one name, on any platform. -/
theorem fold_name_inj (p : Platform) (v w : ControlVar) :
    envFold p v.name = envFold p w.name ↔ v = w := by
  refine ⟨fun h => ?_, fun h => h ▸ rfl⟩
  have hlower : v.name.map toLowerAscii = w.name.map toLowerAscii := by
    cases p with
    | windows => exact h
    | linux => exact congrArg (List.map toLowerAscii) (show v.name = w.name from h)
    | macosx => exact congrArg (List.map toLowerAscii) (show v.name = w.name from h)
  have hv : v ∈ ControlVar.all := by cases v <;> decide
  have hw : w ∈ ControlVar.all := by cases w <;> decide
  exact List.inj_on_of_nodup_map nodup_folded_names hv hw hlower

/-! ## 2. The child's table -/

/-- What the environment is composed from: the fields of the request that `childEnv` and its
callers read. -/
structure FsSnoopRequest where
  env : List (NimStr × NimStr) := []
  isolateEnv : Bool := false
  interest : Finset EventCategory := ∅
  evidenceScope : EvidenceScope := esFull
  depFilePath : NimStr := []

/-- The hosting process's environment, as `envPairs` yields it. -/
abbrev HostEnv : Type := List (NimStr × NimStr)

def getEnv (host : HostEnv) (name : NimStr) : NimStr := (lookup (fun s => s) host name).getD []

/-- The request's binding of the name: the last one wins. -/
def requestBinding (request : FsSnoopRequest) (name : NimStr) : Option NimStr :=
  lookup (fun s => s) request.env.reverse name

def requestEnvValue (request : FsSnoopRequest) (host : HostEnv) (name : NimStr) : NimStr :=
  match requestBinding request name with
  | some value => value
  | none => getEnv host name

/-- A hidden Windows variable: its name begins with `=`, so that `envPairs` cuts it there. -/
def windowsHiddenEnvEntry (value : NimStr) : NimStr × NimStr :=
  match splitFirst 61 value with
  | none => ([], [])
  | some (name, rest) => (61 :: name, rest)

def addHostEnvEntry (p : Platform) (dest : List (NimStr × NimStr)) (entry : NimStr × NimStr) :
    List (NimStr × NimStr) :=
  if entry.1.isEmpty then
    let hidden := windowsHiddenEnvEntry entry.2
    if hidden.1.isEmpty then dest else put (envFold p) hidden.1 hidden.2 dest
  else put (envFold p) entry.1 entry.2 dest

/-- The child's table before io-mon's own variables. -/
def callerEnv (p : Platform) (request : FsSnoopRequest) (host : HostEnv) :
    List (NimStr × NimStr) :=
  putAll (envFold p) (if request.isolateEnv then [] else host.foldl (addHostEnvEntry p) [])
    request.env

def childEnv (p : Platform) (request : FsSnoopRequest) (host : HostEnv)
    (injected : List (NimStr × NimStr)) : List (NimStr × NimStr) :=
  let result := putAll (envFold p) (callerEnv p request host) injected
  let result := put (envFold p) interest.name (interestToShimTokens request.interest) result
  put (envFold p) ControlVar.evidence.name (evidenceScopeToken request.evidenceScope) result

/-- The shim before what the preload list would otherwise be; `PathSep` is a colon on both
platforms that preload. -/
def injectionValue (shimLib existing : NimStr) : NimStr :=
  if existing.isEmpty then shimLib else shimLib ++ str ":" ++ existing

/-! ## 3. What a run injects -/

/-- What a run has made before it composes the environment.  Without a shim library it does not
start. -/
structure MonitorRun where
  shimLib : NimStr
  found : shimLib ≠ []
  fragmentDir : NimStr
  runId : NimStr
  /-- the sandbox directory the run makes when none is given -/
  ownSandboxDir : NimStr
  shmGSetSupported : Bool
  /-- the name of the first shard under an application id, if the set comes up -/
  startHost : NimStr → Option NimStr

section Run

variable (p : Platform) (run : MonitorRun) (request : FsSnoopRequest) (host : HostEnv)

/-- The sandbox tools of the macOS arm. -/
def sandboxDir : NimStr :=
  let given := requestEnvValue request host sandboxToolsDir.name
  if given.isEmpty then run.ownSandboxDir else given

/-- The set of the Linux arm, with the application id it is made under. -/
def depSet : Option (NimStr × NimStr) :=
  let depSetEnabled :=
    run.shmGSetSupported && (requestEnvValue request host depShmDisable).isEmpty
  if depSetEnabled then
    let given := requestEnvValue request host appId.name
    let depSetAppId := if given.isEmpty then str "io-mon" else given
    (run.startHost depSetAppId).map fun path0 => (path0, depSetAppId)
  else none

def injected : Platform → List (ControlVar × NimStr)
  | .macosx =>
    [(sandboxToolsDir, sandboxDir run request host),
      (dyldInsertLibraries,
        injectionValue run.shimLib (requestEnvValue request host dyldInsertLibraries.name)),
      (fragmentDir, run.fragmentDir), (output, request.depFilePath), (session, run.runId),
      (shimLib, run.shimLib)]
  | .linux =>
    [(ldPreload, injectionValue run.shimLib (requestEnvValue request host ldPreload.name)),
      (fragmentDir, run.fragmentDir), (output, request.depFilePath), (session, run.runId)] ++
    (match depSet run request host with
      | some (path0, depSetAppId) => [(depShm, path0), (appId, depSetAppId)]
      | none => []) ++
    [(shimLib, run.shimLib)]
  | .windows =>
    [(fragmentDir, run.fragmentDir), (output, request.depFilePath), (session, run.runId),
      (shimLib, run.shimLib)]

def named (bs : List (ControlVar × NimStr)) : List (NimStr × NimStr) :=
  bs.map fun b => (b.1.name, b.2)

/-- The host runs inside a capture, whose monitor gets this run's evidence too.  Only the macOS arm
starts one. -/
def insideCapture : Bool :=
  match p with
  | .macosx =>
    (nestedCapture (getEnv host fragmentDir.name) (getEnv host session.name) run.runId).active
  | .linux | .windows => false

/-- The environment the arm spawns its command with.  A nested capture asks for enough for both
consumers. -/
def spawnEnv : List (NimStr × NimStr) :=
  let spawnEnv := childEnv p request host (named (injected run request host p))
  if insideCapture p run host then
    let spawnEnv := put (envFold p) interest.name (interestToShimTokens FullInterest) spawnEnv
    put (envFold p) ControlVar.evidence.name (evidenceScopeToken esFull) spawnEnv
  else spawnEnv

/-- What the shims are asked for. -/
def spawnInterest : Finset EventCategory :=
  if insideCapture p run host then FullInterest else request.interest

def spawnScope : EvidenceScope :=
  if insideCapture p run host then esFull else request.evidenceScope

/-- Everything io-mon sets in the child, with its values. -/
def controls : List (ControlVar × NimStr) :=
  injected run request host p ++
    [(interest, interestToShimTokens (spawnInterest p run request host)),
      (.evidence, evidenceScopeToken (spawnScope p run request host))]

/-! ## 4. What the environment owes the child, and what it is owed -/

/-- The variable the platform preloads the shim with. -/
def preloadVar : Platform → Option ControlVar
  | .linux => some ldPreload
  | .macosx => some dyldInsertLibraries
  | .windows => none

/-- The set io-mon names in the child. -/
def exportedSet : Option (NimStr × NimStr) :=
  if p = .linux then depSet run request host else none

/-- The sandbox directory is one of the directories a run is given. -/
def SameDirectories (host' : HostEnv) : Prop :=
  p = .macosx → sandboxDir run request host = sandboxDir run request host'

/-- **The environment is io-mon's.** -/
structure EnvironmentHolds (host' : HostEnv) : Prop where
  /-- an isolated child does not depend on the host -/
  isolated : request.isolateEnv = true → SameDirectories p run request host host' →
    ∀ b, b ∈ spawnEnv p run request host ↔ b ∈ spawnEnv p run request host'
  /-- what io-mon sets is bound once, to io-mon's value -/
  controls : ∀ c ∈ controls p run request host, ∃ name, envFold p name = envFold p c.1.name ∧
    (spawnEnv p run request host).filter (fun b => envFold p b.1 = envFold p c.1.name) =
      [(name, c.2)]
  /-- a run without a set leaves the child without one -/
  unset : p = .linux → exportedSet p run request host = none →
    ∀ b ∈ spawnEnv p run request host, b.1 ≠ depShm.name
  /-- the preload list names the shim once -/
  preloadedOnce : ∀ v ∈ preloadVar p, ∀ b ∈ spawnEnv p run request host,
    envFold p b.1 = envFold p v.name → (elements b.2).count run.shimLib = 1

/-- The preload list the shim is put before. -/
def preloadGiven : Option NimStr :=
  (preloadVar p).map fun v => requestEnvValue request host v.name

/-- The set and the application id the child gets: the exported ones, else the request's. -/
def setGiven : Option NimStr × Option NimStr :=
  (((exportedSet p run request host).map Prod.fst).or (requestBinding request depShm.name),
    ((exportedSet p run request host).map Prod.snd).or (requestBinding request appId.name))

/-- What the shims are asked for: the request's, or everything inside another capture. -/
def captureGiven : Finset EventCategory × EvidenceScope :=
  (normalizeInterest (spawnInterest p run request host), spawnScope p run request host)

/-- **When the environment is io-mon's**: the two hosts give an isolated child the same preload
list, the same set and the same capture; nothing names a set where the run has none; and the preload
list does not name the shim already. -/
structure HostUnheard (host' : HostEnv) : Prop where
  isolated : request.isolateEnv = true → SameDirectories p run request host host' →
    preloadGiven p request host = preloadGiven p request host' ∧
      setGiven p run request host = setGiven p run request host' ∧
      captureGiven p run request host = captureGiven p run request host'
  unset : p = .linux → exportedSet p run request host = none →
    requestBinding request depShm.name = none ∧
      (request.isolateEnv = false → ∀ b ∈ host, b.1 ≠ depShm.name)
  preloadedOnce : ∀ v ∈ preloadVar p, (58 : UInt8) ∉ run.shimLib ∧
    run.shimLib ∉ elements (requestEnvValue request host v.name)

end Run

/-! ## 5. What io-mon sets -/

section Controls

variable {p : Platform} {run : MonitorRun} {request : FsSnoopRequest} {host host' : HostEnv}

/-- **When the host runs inside a capture**: it is a macOS host whose own environment names the
fragments and the session of a run. -/
theorem insideCapture_iff : insideCapture p run host = true ↔
    p = .macosx ∧ getEnv host fragmentDir.name ≠ [] ∧ getEnv host session.name ≠ [] := by
  cases p with
  | linux | windows => simp [insideCapture]
  | macosx =>
    rw [insideCapture, nestedCapture]
    split
    · rename_i hnone
      rw [Bool.or_eq_true, List.isEmpty_iff, List.isEmpty_iff] at hnone
      simp only [NestedCapture.active, List.length_nil, true_and]
      tauto
    · rename_i hboth
      rw [Bool.or_eq_true, List.isEmpty_iff, List.isEmpty_iff, not_or] at hboth
      have hname : (str "-pending.iomon-frag").length = 19 := by decide
      simp only [NestedCapture.active, List.length_append, hname, decide_eq_true_eq, true_and]
      exact iff_of_true (by omega) hboth

/-- What a nested capture sets once more. -/
def nestedOverride (p : Platform) (run : MonitorRun) (host : HostEnv) :
    List (ControlVar × NimStr) :=
  if insideCapture p run host then
    [(interest, interestToShimTokens FullInterest), (.evidence, evidenceScopeToken esFull)]
  else []

/-- io-mon's variables are the last layers. -/
theorem spawnEnv_eq (p : Platform) (run : MonitorRun) (request : FsSnoopRequest)
    (host : HostEnv) : spawnEnv p run request host =
      putAll (envFold p) (callerEnv p request host)
        (named (injected run request host p ++
          [(interest, interestToShimTokens request.interest),
            (.evidence, evidenceScopeToken request.evidenceScope)] ++
          nestedOverride p run host)) := by
  unfold spawnEnv nestedOverride
  simp only [childEnv, named, List.map_append, List.map_cons, List.map_nil, putAll,
    List.foldl_append, List.foldl_cons, List.foldl_nil]
  split <;> rfl

/-- **What a name is bound to**: what io-mon sets, else what the caller has. -/
theorem lookup_spawnEnv_name (name : NimStr) :
    lookup (envFold p) (spawnEnv p run request host) name =
      (lookup (envFold p) (named (controls p run request host)).reverse name).or
        (lookup (envFold p) (callerEnv p request host) name) := by
  rw [spawnEnv_eq, lookup_putAll]
  congr 1
  simp only [named, controls, spawnInterest, spawnScope, nestedOverride, List.map_append,
    List.map_cons, List.map_nil, List.reverse_append, List.reverse_cons, List.reverse_nil,
    List.nil_append, List.cons_append, lookup_append, lookup_cons]
  cases insideCapture p run host with
  | false => rfl
  | true =>
    -- the last binding of the two names is the override's
    by_cases hevidence : envFold p ControlVar.evidence.name = envFold p name
    · simp [hevidence, lookup_cons]
    · by_cases hinterest : envFold p interest.name = envFold p name
      · simp [hevidence, hinterest, lookup_cons]
      · simp [hevidence, hinterest, lookup_cons]

theorem oncePerName_addHostEnvEntry {dest : List (NimStr × NimStr)}
    (h : OncePerName (envFold p) dest) (entry : NimStr × NimStr) :
    OncePerName (envFold p) (addHostEnvEntry p dest entry) := by
  unfold addHostEnvEntry
  split
  · simp only
    split
    · exact h
    · exact h.put _ _
  · exact h.put _ _

theorem oncePerName_host (host : HostEnv) : ∀ {dest : List (NimStr × NimStr)},
    OncePerName (envFold p) dest →
      OncePerName (envFold p) (host.foldl (addHostEnvEntry p) dest) := by
  induction host with
  | nil => exact fun h => h
  | cons entry host ih => exact fun h => ih (oncePerName_addHostEnvEntry h entry)

/-- **No name stands twice in a child's environment.** -/
theorem oncePerName_spawnEnv : OncePerName (envFold p) (spawnEnv p run request host) := by
  rw [spawnEnv_eq]
  refine OncePerName.putAll _ (OncePerName.putAll _ ?_)
  split
  · exact oncePerName_nil
  · exact oncePerName_host host oncePerName_nil

/-- No variable is set twice. -/
theorem oncePerName_controls :
    OncePerName (fun v : ControlVar => v) (controls p run request host).reverse := by
  unfold OncePerName
  rw [List.map_reverse, List.nodup_reverse]
  cases p with
  | linux => cases hset : depSet run request host <;> simp [controls, injected, hset]
  | macosx => simp [controls, injected]
  | windows => simp [controls, injected]

theorem lookup_named (bs : List (ControlVar × NimStr)) (v : ControlVar) :
    lookup (envFold p) (named bs).reverse v.name = lookup (fun v => v) bs.reverse v := by
  rw [named, ← List.map_reverse]
  exact lookup_map (fold_name_inj p) bs.reverse v

/-- What a variable is bound to: what io-mon sets, else what the caller has. -/
theorem lookup_spawnEnv (v : ControlVar) :
    lookup (envFold p) (spawnEnv p run request host) v.name =
      (lookup (fun v => v) (controls p run request host).reverse v).or
        (lookup (envFold p) (callerEnv p request host) v.name) := by
  rw [lookup_spawnEnv_name, lookup_named]

/-- **What io-mon sets is bound once, whatever the request or the host bind.** -/
theorem controls_once {c : ControlVar × NimStr} (hc : c ∈ controls p run request host) :
    ∃ name, envFold p name = envFold p c.1.name ∧
      (spawnEnv p run request host).filter (fun b => envFold p b.1 = envFold p c.1.name) =
        [(name, c.2)] := by
  refine filter_of_lookup oncePerName_spawnEnv ?_
  rw [lookup_spawnEnv, lookup_of_mem oncePerName_controls (List.mem_reverse.mpr hc)]
  rfl

end Controls

/-! ## 6. What an isolated child hears of the host -/

section Isolated

variable {p : Platform} {run : MonitorRun} {request : FsSnoopRequest} {host host' : HostEnv}

theorem injectionValue_inj {shim a b : NimStr} :
    injectionValue shim a = injectionValue shim b ↔ a = b := by
  refine ⟨fun h => ?_, fun h => h ▸ rfl⟩
  have hcolon : (str ":").length = 1 := by decide
  unfold injectionValue at h
  split at h <;> split at h
  · rename_i ha hb
    rw [List.isEmpty_iff.mp ha, List.isEmpty_iff.mp hb]
  · have hlen := congrArg List.length h
    simp only [List.length_append] at hlen
    omega
  · have hlen := congrArg List.length h
    simp only [List.length_append] at hlen
    omega
  · exact List.append_cancel_left h

/-- An isolated child has the request's bindings where io-mon sets none. -/
theorem lookup_isolated (hfold : envFold p = fun s => s) (hisolate : request.isolateEnv = true)
    (name : NimStr) : lookup (fun s => s) (spawnEnv p run request host) name =
      (lookup (fun s => s) (named (controls p run request host)).reverse name).or
        (requestBinding request name) := by
  have hbound := @lookup_spawnEnv_name p run request host name
  rwa [callerEnv, hisolate, if_pos rfl, hfold, lookup_putAll, lookup_nil, Option.or_none,
    ← requestBinding] at hbound

/-- Two isolated children have the same environment when io-mon's variables are the same. -/
theorem same_environment_iff (hfold : envFold p = fun s => s)
    (hisolate : request.isolateEnv = true) :
    (∀ b, b ∈ spawnEnv p run request host ↔ b ∈ spawnEnv p run request host') ↔
      ∀ v : ControlVar,
        (lookup (fun v => v) (controls p run request host).reverse v).or
            (requestBinding request v.name) =
          (lookup (fun v => v) (controls p run request host').reverse v).or
            (requestBinding request v.name) := by
  have honce : ∀ host, OncePerName (fun s : NimStr => s) (spawnEnv p run request host) :=
    fun host => hfold ▸ oncePerName_spawnEnv
  have hvar : ∀ host v, lookup (fun s => s) (named (controls p run request host)).reverse
      (ControlVar.name v) = lookup (fun v => v) (controls p run request host).reverse v :=
    fun host v => hfold ▸ lookup_named (p := p) (controls p run request host) v
  rw [same_bindings_iff (honce host) (honce host')]
  simp only [lookup_isolated hfold hisolate]
  constructor
  · intro h v
    rw [← hvar, ← hvar]
    exact h v.name
  · intro h name
    by_cases hname : ∃ v : ControlVar, v.name = name
    · obtain ⟨v, rfl⟩ := hname
      rw [hvar, hvar]
      exact h v
    · -- io-mon sets no other name
      have hnone : ∀ host,
          lookup (fun s => s) (named (controls p run request host)).reverse name = none := by
        refine fun host => lookup_eq_none.mpr fun b hb he => hname ?_
        obtain ⟨c, -, rfl⟩ := List.mem_map.mp (List.mem_reverse.mp hb)
        exact ⟨c.1, he⟩
      rw [hnone, hnone]

/-- Two captures ask for the same exactly when they are written alike. -/
theorem captureGiven_eq_iff :
    captureGiven p run request host = captureGiven p run request host' ↔
      interestToShimTokens (spawnInterest p run request host) =
          interestToShimTokens (spawnInterest p run request host') ∧
        evidenceScopeToken (spawnScope p run request host) =
          evidenceScopeToken (spawnScope p run request host') := by
  rw [interestToShimTokens_inj, evidenceScopeToken_inj, captureGiven, captureGiven, Prod.mk.injEq]

/-- What the Linux arm sets: only the preload list and the set are composed from the host. -/
theorem lookup_linux (v : ControlVar) :
    lookup (fun v => v) (controls .linux run request host).reverse v =
      match v with
      | ldPreload =>
        some (injectionValue run.shimLib (requestEnvValue request host ldPreload.name))
      | depShm => (depSet run request host).map Prod.fst
      | appId => (depSet run request host).map Prod.snd
      | fragmentDir => some run.fragmentDir
      | output => some request.depFilePath
      | session => some run.runId
      | shimLib => some run.shimLib
      | interest => some (interestToShimTokens request.interest)
      | .evidence => some (evidenceScopeToken request.evidenceScope)
      | dyldInsertLibraries | sandboxToolsDir => none := by
  have hinterest : spawnInterest .linux run request host = request.interest := rfl
  have hscope : spawnScope .linux run request host = request.evidenceScope := rfl
  cases hset : depSet run request host <;> cases v <;>
    simp [controls, injected, hset, hinterest, hscope, lookup_cons]

/-- **What an isolated child hears of the host** is the preload list, the set and the capture that
the host runs in. -/
theorem isolated_iff (hisolate : request.isolateEnv = true)
    (hdirs : SameDirectories p run request host host') :
    (∀ b, b ∈ spawnEnv p run request host ↔ b ∈ spawnEnv p run request host') ↔
      preloadGiven p request host = preloadGiven p request host' ∧
        setGiven p run request host = setGiven p run request host' ∧
        captureGiven p run request host = captureGiven p run request host' := by
  cases p with
  | windows =>
    -- no variable of this arm reads the host
    have hsame : spawnEnv .windows run request host = spawnEnv .windows run request host' := by
      rw [spawnEnv_eq, spawnEnv_eq, callerEnv, callerEnv, hisolate]
      rfl
    rw [hsame]
    exact ⟨fun _ => ⟨rfl, rfl, rfl⟩, fun _ _ => Iff.rfl⟩
  | macosx =>
    rw [same_environment_iff rfl hisolate, captureGiven_eq_iff]
    have hsandbox := hdirs rfl
    constructor
    · intro h
      have hpre := h dyldInsertLibraries
      have hinterest := h interest
      have hevidence := h .evidence
      simp only [controls, injected, List.reverse_cons, List.reverse_nil, List.nil_append,
        List.cons_append, lookup_cons, reduceCtorEq, if_false, if_true, Option.some_or,
        Option.some.injEq, injectionValue_inj] at hpre hinterest hevidence
      exact ⟨congrArg some hpre, rfl, hinterest, hevidence⟩
    · rintro ⟨hpre, -, hinterest, hevidence⟩ v
      have hlist := Option.some.inj hpre
      simp only [controls, injected, hsandbox, hlist, hinterest, hevidence]
  | linux =>
    rw [same_environment_iff rfl hisolate]
    simp only [lookup_linux, setGiven, exportedSet, if_true, Prod.mk.injEq]
    constructor
    · intro h
      have hpre := Option.some.inj (h ldPreload)
      exact ⟨congrArg some (injectionValue_inj.mp hpre), ⟨h depShm, h appId⟩, rfl⟩
    · rintro ⟨hpre, ⟨hshm, happ⟩, -⟩ v
      have hlist := Option.some.inj hpre
      cases v with
      | depShm => exact hshm
      | appId => exact happ
      | ldPreload => simp only [hlist]
      | _ => rfl

end Isolated

/-! ## 7. A run without a set -/

section Unset

variable {run : MonitorRun} {request : FsSnoopRequest} {host : HostEnv}

/-- A name that is not a hidden one comes from the host under its own spelling. -/
theorem lookup_addHostEnvEntry {name : NimStr} (hname : name ≠ []) (hhead : name.head? ≠ some 61)
    (dest : List (NimStr × NimStr)) (entry : NimStr × NimStr) :
    lookup (fun s => s) (addHostEnvEntry .linux dest entry) name = none ↔
      entry.1 ≠ name ∧ lookup (fun s => s) dest name = none := by
  unfold addHostEnvEntry
  split
  · rename_i hempty
    have hne : entry.1 ≠ name := by
      rw [List.isEmpty_iff.mp hempty]
      exact fun h => hname h.symm
    simp only
    split
    · exact ⟨fun h => ⟨hne, h⟩, fun h => h.2⟩
    · rename_i hhidden
      have hother : (windowsHiddenEnvEntry entry.2).1 ≠ name := by
        unfold windowsHiddenEnvEntry at hhidden ⊢
        cases hs : splitFirst 61 entry.2 with
        | none =>
          rw [hs] at hhidden
          exact absurd rfl hhidden
        | some pair => exact fun h => hhead (h ▸ rfl)
      rw [envFold, lookup_put, if_neg hother]
      exact ⟨fun h => ⟨hne, h⟩, fun h => h.2⟩
  · rw [envFold, lookup_put]
    by_cases he : entry.1 = name
    · simp [he]
    · simp [he]

theorem lookup_host {name : NimStr} (hname : name ≠ []) (hhead : name.head? ≠ some 61)
    (host : HostEnv) : ∀ dest : List (NimStr × NimStr),
    lookup (fun s => s) (host.foldl (addHostEnvEntry .linux) dest) name = none ↔
      (∀ b ∈ host, b.1 ≠ name) ∧ lookup (fun s => s) dest name = none := by
  induction host with
  | nil => exact fun dest => ⟨fun h => ⟨by simp, h⟩, fun h => h.2⟩
  | cons entry host ih =>
    intro dest
    rw [List.foldl_cons, ih, lookup_addHostEnvEntry hname hhead, List.forall_mem_cons]
    tauto

/-- **A run without a set** leaves its child the set the request names, or the host. -/
theorem unset_iff (hset : exportedSet .linux run request host = none) :
    (∀ b ∈ spawnEnv .linux run request host, b.1 ≠ depShm.name) ↔
      requestBinding request depShm.name = none ∧
        (request.isolateEnv = false → ∀ b ∈ host, b.1 ≠ depShm.name) := by
  have hnone : depSet run request host = none := by simpa [exportedSet] using hset
  have hunbound : lookup (fun s => s) (spawnEnv .linux run request host) depShm.name = none ↔
      ∀ b ∈ spawnEnv .linux run request host, b.1 ≠ depShm.name := lookup_eq_none
  have hlookup : lookup (fun s => s) (spawnEnv .linux run request host) depShm.name =
      lookup (fun s => s) (callerEnv .linux request host) depShm.name := by
    have hvar := @lookup_spawnEnv .linux run request host depShm
    rwa [lookup_linux, hnone, Option.map_none, Option.none_or] at hvar
  rw [← hunbound, hlookup, callerEnv, envFold, lookup_putAll, Option.or_eq_none_iff,
    ← requestBinding]
  refine and_congr_right fun _ => ?_
  cases request.isolateEnv with
  | true => simp
  | false =>
    rw [if_neg Bool.false_ne_true, lookup_host (by decide +kernel) (by decide +kernel)]
    simp

end Unset

/-! ## 8. The preload list -/

section Preload

variable {p : Platform} {run : MonitorRun} {request : FsSnoopRequest} {host host' : HostEnv}

/-- The shim stands once in the list it was put before, unless the list names it or its path
cannot be an element. -/
theorem count_injectionValue (run : MonitorRun) (existing : NimStr) :
    (elements (injectionValue run.shimLib existing)).count run.shimLib = 1 ↔
      (58 : UInt8) ∉ run.shimLib ∧ run.shimLib ∉ elements existing := by
  have hvalue : elements (injectionValue run.shimLib existing) =
      elements run.shimLib ++ elements existing := by
    unfold injectionValue
    split
    · rename_i hempty
      rw [List.isEmpty_iff.mp hempty, elements_nil, List.append_nil]
    · exact elements_append ..
  by_cases hcolon : (58 : UInt8) ∈ run.shimLib
  · -- no element holds a colon
    have hnone : run.shimLib ∉ elements (injectionValue run.shimLib existing) :=
      fun hmem => not_mem_of_mem_elements hmem hcolon
    rw [List.count_eq_zero_of_not_mem hnone]
    simp [hcolon]
  · rw [hvalue, elements_singleton run.found hcolon, List.count_append, List.count_singleton_self]
    constructor
    · intro h
      exact ⟨hcolon, List.count_eq_zero.mp (by omega)⟩
    · rintro ⟨-, hother⟩
      rw [List.count_eq_zero.mpr hother]

theorem preload_mem_controls {v : ControlVar} (hv : v ∈ preloadVar p) :
    (v, injectionValue run.shimLib (requestEnvValue request host v.name)) ∈
      controls p run request host := by
  cases p with
  | linux =>
    rw [← Option.some.inj hv]
    simp [controls, injected]
  | macosx =>
    rw [← Option.some.inj hv]
    simp [controls, injected]
  | windows => exact absurd hv (by simp [preloadVar])

/-- The preload variable is bound once, so its one value decides. -/
theorem preloadedOnce_iff {v : ControlVar} (hv : v ∈ preloadVar p) :
    (∀ b ∈ spawnEnv p run request host, envFold p b.1 = envFold p v.name →
        (elements b.2).count run.shimLib = 1) ↔
      (58 : UInt8) ∉ run.shimLib ∧
        run.shimLib ∉ elements (requestEnvValue request host v.name) := by
  obtain ⟨name, hname, hfilter⟩ := controls_once (@preload_mem_controls p run request host v hv)
  rw [← count_injectionValue]
  constructor
  · intro h
    have hmem := List.mem_filter.mp (hfilter ▸ List.mem_singleton_self _)
    exact h _ hmem.1 hname
  · intro h b hb he
    have hmem : b ∈ (spawnEnv p run request host).filter
        fun b => envFold p b.1 = envFold p v.name := List.mem_filter.mpr ⟨hb, decide_eq_true he⟩
    rw [hfilter, List.mem_singleton] at hmem
    rw [hmem]
    exact h

end Preload

/-- **When a child's environment is io-mon's**, whatever the request and the hosts. -/
theorem environment_iff (p : Platform) (run : MonitorRun) (request : FsSnoopRequest)
    (host host' : HostEnv) :
    EnvironmentHolds p run request host host' ↔ HostUnheard p run request host host' := by
  constructor
  · intro h
    refine ⟨fun hisolate hdirs => ?_, fun hp hset => ?_, fun v hv => ?_⟩
    · exact (isolated_iff hisolate hdirs).mp (h.isolated hisolate hdirs)
    · subst hp
      exact (unset_iff hset).mp (h.unset rfl hset)
    · exact (preloadedOnce_iff hv).mp (h.preloadedOnce v hv)
  · intro h
    refine ⟨fun hisolate hdirs => ?_, fun c hc => controls_once hc, fun hp hset => ?_,
      fun v hv => ?_⟩
    · exact (isolated_iff hisolate hdirs).mpr (h.isolated hisolate hdirs)
    · subst hp
      exact (unset_iff hset).mpr (h.unset rfl hset)
    · exact (preloadedOnce_iff hv).mpr (h.preloadedOnce v hv)

/-! ## 9. A host with a preload list of its own -/

/-- A run on Linux without a set. -/
def plainRun : MonitorRun where
  shimLib := str "/opt/shim.so"
  found := by decide +kernel
  fragmentDir := str "/tmp/fragments"
  runId := str "1-2-3"
  ownSandboxDir := []
  shmGSetSupported := false
  startHost := fun _ => none

def isolatedRequest : FsSnoopRequest where
  isolateEnv := true
  interest := FullInterest
  depFilePath := str "/out/dep"

/-- **The host's preload list reaches an isolated child.** -/
theorem isolated_child_hears_host :
    ¬ ∀ (p : Platform) (run : MonitorRun) (request : FsSnoopRequest) (host host' : HostEnv),
      EnvironmentHolds p run request host host' := by
  intro h
  have hholds := h .linux plainRun isolatedRequest [(str "LD_PRELOAD", str "/opt/trace.so")] []
  have hdirs : SameDirectories .linux plainRun isolatedRequest
      [(str "LD_PRELOAD", str "/opt/trace.so")] [] := fun hp => absurd hp (by decide)
  have hheard := ((isolated_iff rfl hdirs).mp (hholds.isolated rfl hdirs)).1
  exact absurd hheard (by decide +kernel)

end IoMon.Isolation
