/-
# Capabilities and the backend profile

`capabilities.nim`, as the Linux build compiles it.  A capture carries in-band what its backend
can observe: one backend-profile record whose detail is a `;`-joined list of `key=value` parts,
and one record for each capability gap.  `profileFromRecords` reads them back and decides
`evidenceComplete`, the half of the verdict that does not come from event loss.

The merge appends the platform's own profile records; `evidenceComplete_profileFromRecords` says
that the verdict reads the backend-profile records and nothing else, and
`platformProfile_complete` that the Linux profile is complete whatever scope is stamped on it.
-/
import IoMon.Types

namespace IoMon

open ByteText MonitorRecordKind MonitorObservationKind ProbeResult

/-! ## 1. Capabilities -/

inductive MonitorBackendFamily
  | mbfMacosHooks | mbfMacosEndpointSecurity | mbfMacosHybrid | mbfLinuxPreloadHooks
  | mbfWindowsInterposeHooks | mbfUnknown
  deriving DecidableEq, Repr

inductive MonitorCapability
  | mcapProcess | mcapFileRead | mcapFileWrite | mcapPathProbe | mcapDirectoryEnumerate
  | mcapEventLoss | mcapProcessTree | mcapProcessExec | mcapBackendProvenance | mcapFileCreate
  | mcapFileTruncate | mcapFileAppend | mcapEndpointSecurity | mcapHybrid | mcapRename
  | mcapSymlink | mcapLibraryLoad | mcapAuthorizationEnforcement | mcapPathMutation
  | mcapIpcConnect | mcapObservedEnv | mcapNonDeterminism | mcapExternalContent
  | mcapAdversarialRawSyscall | mcapExecutableMappingLifecycle | mcapPathIdentity
  | mcapObservationIdentityFold
  deriving DecidableEq, Repr

open MonitorBackendFamily MonitorCapability

/-- The members in declaration order, which is how a Nim `for` visits a set of them. -/
def MonitorCapability.all : List MonitorCapability :=
  [mcapProcess, mcapFileRead, mcapFileWrite, mcapPathProbe, mcapDirectoryEnumerate,
    mcapEventLoss, mcapProcessTree, mcapProcessExec, mcapBackendProvenance, mcapFileCreate,
    mcapFileTruncate, mcapFileAppend, mcapEndpointSecurity, mcapHybrid, mcapRename, mcapSymlink,
    mcapLibraryLoad, mcapAuthorizationEnforcement, mcapPathMutation, mcapIpcConnect,
    mcapObservedEnv, mcapNonDeterminism, mcapExternalContent, mcapAdversarialRawSyscall,
    mcapExecutableMappingLifecycle, mcapPathIdentity, mcapObservationIdentityFold]

def MonitorBackendFamily.all : List MonitorBackendFamily :=
  [mbfMacosHooks, mbfMacosEndpointSecurity, mbfMacosHybrid, mbfLinuxPreloadHooks,
    mbfWindowsInterposeHooks, mbfUnknown]

def LinuxPreloadSupportedCapabilities : Finset MonitorCapability :=
  {mcapObservationIdentityFold, mcapProcess, mcapFileRead, mcapFileWrite, mcapPathProbe,
    mcapDirectoryEnumerate, mcapEventLoss, mcapProcessTree, mcapProcessExec,
    mcapBackendProvenance, mcapFileCreate, mcapFileTruncate, mcapFileAppend, mcapRename,
    mcapIpcConnect, mcapLibraryLoad, mcapObservedEnv, mcapNonDeterminism}

def LinuxPreloadKnownUnsupportedCapabilities : Finset MonitorCapability :=
  {mcapEndpointSecurity, mcapHybrid, mcapSymlink, mcapAuthorizationEnforcement,
    mcapPathMutation, mcapAdversarialRawSyscall, mcapExecutableMappingLifecycle,
    mcapPathIdentity, mcapExternalContent}

def InputChannelCapabilities : Finset MonitorCapability :=
  {mcapFileRead, mcapPathProbe, mcapDirectoryEnumerate, mcapLibraryLoad, mcapObservedEnv,
    mcapIpcConnect, mcapExternalContent}

/-- What a depfile's own verdict requires of the backend. -/
def InputEvidenceCapabilities : Finset MonitorCapability :=
  {mcapProcess, mcapProcessTree, mcapProcessExec, mcapFileRead, mcapFileWrite, mcapPathProbe,
    mcapDirectoryEnumerate, mcapEventLoss, mcapLibraryLoad}

def backendFamilyId : MonitorBackendFamily → NimStr
  | mbfMacosHooks => str "macos-interpose-hooks"
  | mbfMacosEndpointSecurity => str "macos-endpoint-security"
  | mbfMacosHybrid => str "macos-hybrid"
  | mbfLinuxPreloadHooks => str "linux-preload-hooks"
  | mbfWindowsInterposeHooks => str "windows-interpose-hooks"
  | mbfUnknown => str "unknown"

def capabilityId : MonitorCapability → NimStr
  | mcapProcess => str "process"
  | mcapFileRead => str "file-read"
  | mcapFileWrite => str "file-write"
  | mcapPathProbe => str "path-probe"
  | mcapDirectoryEnumerate => str "directory-enumerate"
  | mcapEventLoss => str "event-loss"
  | mcapProcessTree => str "process-tree"
  | mcapProcessExec => str "process-exec"
  | mcapBackendProvenance => str "backend-provenance"
  | mcapFileCreate => str "file-create"
  | mcapFileTruncate => str "file-truncate"
  | mcapFileAppend => str "file-append"
  | mcapEndpointSecurity => str "endpoint-security"
  | mcapHybrid => str "hybrid"
  | mcapRename => str "rename"
  | mcapSymlink => str "symlink"
  | mcapLibraryLoad => str "library-load"
  | mcapAuthorizationEnforcement => str "authorization-enforcement"
  | mcapPathMutation => str "path-mutation"
  | mcapIpcConnect => str "ipc-connect"
  | mcapObservedEnv => str "observed-env"
  | mcapNonDeterminism => str "non-determinism"
  | mcapExternalContent => str "external-content"
  | mcapAdversarialRawSyscall => str "adversarial-raw-syscall"
  | mcapExecutableMappingLifecycle => str "executable-mapping-lifecycle"
  | mcapPathIdentity => str "path-identity"
  | mcapObservationIdentityFold => str "observation-identity-fold"

def tryCapabilityFromId (value : NimStr) : Option MonitorCapability :=
  MonitorCapability.all.find? fun c => capabilityId c == value

def backendFamilyFromId (value : NimStr) : MonitorBackendFamily :=
  (MonitorBackendFamily.all.find? fun f => backendFamilyId f == value).getD mbfUnknown

/-- The named capabilities of a comma-joined list; an id this build cannot name is skipped. -/
def parseCapabilityList (value : NimStr) : Finset MonitorCapability :=
  ((splitAt 44 value).filterMap tryCapabilityFromId).toFinset

/-- The macOS texts, which `profileFromRecords` also uses for every other family. -/
def unsupportedReason : MonitorCapability → NimStr
  | mcapEndpointSecurity =>
    str ("EndpointSecurity backend is designed + skeletoned (T3c) but not yet shipped; " ++
      "production client is gated on the Apple endpoint-security.client entitlement")
  | mcapHybrid =>
    str "hybrid EndpointSecurity plus interpose profile is not implemented in M14"
  | mcapRename =>
    str ("rename/renameat are hooked on the macOS interpose+body-patch shim; this reason " ++
      "applies only where rename is not yet advertised")
  | mcapSymlink =>
    str "macOS interpose shim does not hook symlink/symlinkat/readlink yet"
  | mcapLibraryLoad =>
    str "macOS interpose shim does not hook dlopen/library-load events yet"
  | mcapAuthorizationEnforcement =>
    str "macOS interpose shim observes only and cannot authorize or deny operations"
  | mcapPathMutation =>
    str ("mkdir/rmdir/unlink/unlinkat/symlink are hooked on the macOS " ++
      "interpose+body-patch shim; this reason applies only where path-mutation is not " ++
      "yet advertised")
  | mcapAdversarialRawSyscall =>
    str "direct/raw syscall completeness requires a native kernel-sourced backend"
  | mcapExecutableMappingLifecycle =>
    str "executable mapping lifecycle completeness requires a native mapping source"
  | mcapPathIdentity =>
    str ("path identity coverage for hardlink/inode aliases is not advertised by this " ++
      "profile")
  | mcapIpcConnect =>
    str ("connect(2) is hooked on the macOS interpose+body-patch shim; this reason " ++
      "applies only where IPC-connect is not yet advertised")
  | mcapObservedEnv =>
    str ("getenv/sysctl/uname are hooked on the macOS interpose shim; this reason applies " ++
      "only where observed-env recording is not yet advertised")
  | mcapNonDeterminism =>
    str ("entropy/time sources are hooked on the macOS interpose shim; this reason " ++
      "applies only where non-determinism handling is not yet advertised")
  | _ => str "capability is not advertised by the selected macOS interpose profile"

def linuxUnsupportedReason : MonitorCapability → NimStr
  | mcapEndpointSecurity =>
    str "EndpointSecurity is macOS-only; Linux native backend is future eBPF work"
  | mcapHybrid =>
    str "hybrid native plus preload profile is not implemented"
  | mcapRename =>
    str ("Linux preload shim hooks libc-visible rename/renameat/renameat2; this reason " ++
      "applies only where rename is not advertised")
  | mcapSymlink =>
    str "Linux preload shim does not yet normalize symlink/readlink as path mutations"
  | mcapLibraryLoad =>
    str ("Linux preload shim observes the loader's link map (dl_iterate_phdr) and emits " ++
      "library-load records; this reason applies only where library-load observation " ++
      "is not advertised")
  | mcapAuthorizationEnforcement =>
    str "Linux preload shim observes only and cannot authorize or deny operations"
  | mcapPathMutation =>
    str ("Linux preload shim records libc-visible link/linkat and " ++
      "rename/renameat/renameat2 path mutations, but does not cover the full raw " ++
      "mutation surface yet")
  | mcapAdversarialRawSyscall =>
    str ("Linux LD_PRELOAD covers libc syscall(2), selected application inline syscall " ++
      "sites, and tracked anonymous executable mappings, but does not claim " ++
      "adversarial/direct raw-syscall completeness for excluded runtime-prefix DSOs, " ++
      "executable mappings outside the preload mmap lifecycle, or unclassified syscall " ++
      "families")
  | mcapExecutableMappingLifecycle =>
    str ("Linux LD_PRELOAD scans executable mappings only when they are owned by the " ++
      "preload mmap/mprotect/munmap/mremap lifecycle; mappings created outside that " ++
      "lifecycle are not production-complete")
  | mcapPathIdentity =>
    str ("Linux preload shim records libc-visible hardlink creation source/alias and " ++
      "rename-staging final paths, but does not yet provide full pre-existing " ++
      "hardlink/inode alias or raw-mutation identity fidelity")
  | mcapIpcConnect =>
    str ("Linux preload shim hooks connect(2); this reason applies only where IPC-connect " ++
      "is not advertised")
  | mcapObservedEnv =>
    str ("Linux preload shim records libc-visible getenv/uname/sysconf observed inputs; " ++
      "this reason applies only where direct raw/vDSO or broader system-configuration " ++
      "coverage is required")
  | mcapNonDeterminism =>
    str ("Linux preload shim records libc-visible clock_gettime/gettimeofday/time as time " ++
      "reads and getrandom/getentropy/arc4random/arc4random_buf/arc4random_uniform as " ++
      "non-determinism; this reason applies only where direct raw or broader " ++
      "entropy/time APIs are required")
  | mcapExternalContent =>
    str ("Linux preload shim records libc-visible positioned/vector and zero-copy file " ++
      "movers, but broader external content channels and direct raw zero-copy syscalls " ++
      "are not advertised by this profile")
  | _ => str "capability is not advertised by the selected Linux preload profile"

/-! ## 2. Profiles and their records -/

structure MonitorCapabilityGap where
  backendFamily : MonitorBackendFamily
  capability : MonitorCapability
  required : Bool
  inputChannel : Bool
  reason : NimStr
  deriving DecidableEq, Repr

structure MonitorBackendProfile where
  profileName : NimStr
  backendFamily : MonitorBackendFamily
  supportedCapabilities : Finset MonitorCapability
  requiredCapabilities : Finset MonitorCapability
  gaps : List MonitorCapabilityGap
  evidenceComplete : Bool
  deriving DecidableEq

def boolText (b : Bool) : NimStr := if b then str "true" else str "false"

/-- The members of a capability set, in the order a Nim `for` visits them. -/
def capabilityList (s : Finset MonitorCapability) : List MonitorCapability :=
  MonitorCapability.all.filter fun c => decide (c ∈ s)

/-- The profile of the Linux build: everything `required` beyond the supported set is a gap and
makes the evidence incomplete. -/
def linuxPreloadMonitorProfile (required : Finset MonitorCapability) : MonitorBackendProfile where
  profileName := str "linux-preload-hooks-m14"
  backendFamily := mbfLinuxPreloadHooks
  supportedCapabilities := LinuxPreloadSupportedCapabilities
  requiredCapabilities := required
  gaps := (capabilityList (LinuxPreloadKnownUnsupportedCapabilities ∪
      required.filter (· ∉ LinuxPreloadSupportedCapabilities))).map fun c =>
    { backendFamily := mbfLinuxPreloadHooks
      capability := c
      required := decide (c ∈ required ∧ c ∉ LinuxPreloadSupportedCapabilities)
      inputChannel := decide (c ∈ InputChannelCapabilities)
      reason := linuxUnsupportedReason c }
  evidenceComplete := (capabilityList required).all fun c =>
    decide (c ∈ LinuxPreloadSupportedCapabilities)

/-- `defaultHooksMonitorProfile` of a Linux build. -/
def defaultHooksMonitorProfile (required : Finset MonitorCapability) : MonitorBackendProfile :=
  linuxPreloadMonitorProfile required

def gapDetail (gap : MonitorCapabilityGap) : NimStr :=
  str "backend=" ++ backendFamilyId gap.backendFamily ++
    str ";capability=" ++ capabilityId gap.capability ++
    str ";required=" ++ boolText gap.required ++
    str ";input=" ++ boolText gap.inputChannel ++
    str ";reason=" ++ gap.reason

def capabilityGapRecord (gap : MonitorCapabilityGap) : MonitorRecord where
  kind := mrCapabilityGap
  observationKind := moCapabilityGap
  path := capabilityId gap.capability
  detail := gapDetail gap

def backendProfileRecord (profile : MonitorBackendProfile) : MonitorRecord where
  kind := mrBackendProfile
  observationKind := moBackendProfile
  path := profile.profileName
  detail := str "backend=" ++ backendFamilyId profile.backendFamily ++
    str ";supported=" ++
      joinStr (str ",") ((capabilityList profile.supportedCapabilities).map capabilityId) ++
    str ";required=" ++
      joinStr (str ",") ((capabilityList profile.requiredCapabilities).map capabilityId) ++
    str ";evidenceComplete=" ++ boolText profile.evidenceComplete

def profileRecords (profile : MonitorBackendProfile) : List MonitorRecord :=
  backendProfileRecord profile :: profile.gaps.map capabilityGapRecord

/-! ## 3. Reading a profile back -/

/-- One `key=value` part of a gap detail; `none` is the `ValueError` of an unknown capability. -/
def applyGapPart (gap : MonitorCapabilityGap × Bool) (part : NimStr) :
    Option (MonitorCapabilityGap × Bool) :=
  match splitFirst 61 part with
  | none => some gap
  | some (key, value) =>
    if key = str "backend" then
      some ({ gap.1 with backendFamily := backendFamilyFromId value }, gap.2)
    else if key = str "capability" then
      (tryCapabilityFromId value).map fun c => ({ gap.1 with capability := c }, gap.2)
    else if key = str "required" then
      some ({ gap.1 with required := value == str "true" }, gap.2)
    else if key = str "input" then
      some ({ gap.1 with inputChannel := value == str "true" }, true)
    else if key = str "reason" then some ({ gap.1 with reason := value }, gap.2)
    else some gap

/-- `parseGapDetail`; the flag remembers whether an `input` part was present. -/
def parseGapDetail (detail : NimStr) : Option MonitorCapabilityGap :=
  let start : MonitorCapabilityGap × Bool :=
    ({ backendFamily := mbfUnknown, capability := mcapProcess, required := false,
       inputChannel := false, reason := [] }, false)
  ((splitAt 59 detail).foldlM applyGapPart start).map fun gap =>
    if gap.2 then gap.1
    else { gap.1 with inputChannel := decide (gap.1.capability ∈ InputChannelCapabilities) }

/-- One `key=value` part of a backend-profile detail.  Keys this build does not know, the scope
stamps among them, are skipped. -/
def applyProfilePart (profile : MonitorBackendProfile) (part : NimStr) : MonitorBackendProfile :=
  match splitFirst 61 part with
  | none => profile
  | some (key, value) =>
    if key = str "backend" then { profile with backendFamily := backendFamilyFromId value }
    else if key = str "supported" then
      { profile with supportedCapabilities := parseCapabilityList value }
    else if key = str "required" then
      { profile with requiredCapabilities := parseCapabilityList value }
    else if key = str "evidenceComplete" then
      { profile with evidenceComplete := value == str "true" }
    else profile

def applyProfileDetail (profile : MonitorBackendProfile) (detail : NimStr) :
    MonitorBackendProfile :=
  (splitAt 59 detail).foldl applyProfilePart profile

/-- The state of the scan: the profile so far, whether a profile record was seen, the gaps. -/
structure ProfileScan where
  profile : MonitorBackendProfile
  sawProfile : Bool
  gaps : List MonitorCapabilityGap

def scanProfileRecord (required : Finset MonitorCapability) (s : ProfileScan)
    (record : MonitorRecord) : ProfileScan :=
  match record.kind with
  | mrBackendProfile =>
    { s with profile := applyProfileDetail s.profile record.detail, sawProfile := true }
  | mrCapabilityGap =>
    match parseGapDetail record.detail with
    | none => s
    | some gap =>
      if gap.capability ∈ required ∧ gap.capability ∉ s.profile.supportedCapabilities then
        { s with gaps := s.gaps ++ [{ gap with required := true }] }
      else { s with gaps := s.gaps ++ [gap] }
  | _ => s

/-- The closing loop of `profileFromRecords`: a required capability that is not supported makes
the evidence incomplete and is listed as a required gap. -/
def requireCapability (profile : MonitorBackendProfile) (capability : MonitorCapability) :
    MonitorBackendProfile :=
  let profile := { profile with
    requiredCapabilities := insert capability profile.requiredCapabilities }
  if capability ∈ profile.supportedCapabilities then profile
  else
    let profile := { profile with evidenceComplete := false }
    if profile.gaps.any fun gap => gap.capability == capability then
      { profile with gaps := profile.gaps.map fun gap =>
          if gap.capability = capability then { gap with required := true } else gap }
    else
      { profile with gaps := profile.gaps ++
          [{ backendFamily := profile.backendFamily
             capability := capability
             required := true
             inputChannel := decide (capability ∈ InputChannelCapabilities)
             reason := if profile.backendFamily = mbfLinuxPreloadHooks then
                 linuxUnsupportedReason capability
               else unsupportedReason capability }] }

def profileFromRecords (records : List MonitorRecord) (required : Finset MonitorCapability) :
    MonitorBackendProfile :=
  let s := records.foldl (scanProfileRecord required)
    ⟨defaultHooksMonitorProfile required, false, []⟩
  let profile := if s.sawProfile && !s.gaps.isEmpty then { s.profile with gaps := s.gaps }
    else s.profile
  (capabilityList required).foldl requireCapability profile

/-! ## 4. What the verdict reads -/

theorem scanProfileRecord_profile (required : Finset MonitorCapability) (s : ProfileScan)
    (r : MonitorRecord) :
    (scanProfileRecord required s r).profile =
      if r.kind == mrBackendProfile then applyProfileDetail s.profile r.detail else s.profile := by
  unfold scanProfileRecord
  cases hk : r.kind <;> simp only [beq_self_eq_true, if_true, reduceCtorEq, beq_iff_eq, if_false]
  -- the capability-gap record may grow the gap list, never the profile
  cases parseGapDetail r.detail with
  | none => rfl
  | some gap => dsimp only; split <;> rfl

/-- The scan's profile is the fold of the backend-profile details; other records drop out. -/
theorem foldl_scanProfileRecord_profile (required : Finset MonitorCapability)
    (records : List MonitorRecord) (s : ProfileScan) :
    (records.foldl (scanProfileRecord required) s).profile =
      (records.filter (·.kind == mrBackendProfile)).foldl
        (fun p r => applyProfileDetail p r.detail) s.profile := by
  induction records generalizing s with
  | nil => rfl
  | cons r rs ih =>
    rw [List.foldl_cons, ih, scanProfileRecord_profile required s r]
    by_cases hk : (r.kind == mrBackendProfile) = true
    · rw [if_pos hk, List.filter_cons, if_pos hk, List.foldl_cons]
    · rw [if_neg hk, List.filter_cons, if_neg hk]

theorem requireCapability_supported (p : MonitorBackendProfile) (c : MonitorCapability) :
    (requireCapability p c).supportedCapabilities = p.supportedCapabilities := by
  unfold requireCapability
  dsimp only
  split
  · rfl
  · split <;> rfl

theorem requireCapability_evidenceComplete (p : MonitorBackendProfile) (c : MonitorCapability) :
    (requireCapability p c).evidenceComplete =
      (p.evidenceComplete && decide (c ∈ p.supportedCapabilities)) := by
  unfold requireCapability
  dsimp only
  split
  · rename_i h
    simp only [h, decide_true, Bool.and_true]
  · rename_i h
    simp only [h, decide_false, Bool.and_false]
    split <;> rfl

theorem foldl_requireCapability_evidenceComplete (cs : List MonitorCapability)
    (p : MonitorBackendProfile) :
    (cs.foldl requireCapability p).evidenceComplete =
      (p.evidenceComplete && cs.all fun c => decide (c ∈ p.supportedCapabilities)) := by
  induction cs generalizing p with
  | nil => simp only [List.foldl_nil, List.all_nil, Bool.and_true]
  | cons c cs ih =>
    rw [List.foldl_cons, ih, requireCapability_evidenceComplete, requireCapability_supported,
      List.all_cons, Bool.and_assoc]

/-- The profile that the backend-profile records of a list describe, over the build's own. -/
def declaredProfile (records : List MonitorRecord) (required : Finset MonitorCapability) :
    MonitorBackendProfile :=
  (records.filter (·.kind == mrBackendProfile)).foldl
    (fun p r => applyProfileDetail p r.detail) (defaultHooksMonitorProfile required)

/-- **The verdict of the profile** reads the backend-profile records, in order, and nothing
else. -/
theorem evidenceComplete_profileFromRecords (records : List MonitorRecord)
    (required : Finset MonitorCapability) :
    (profileFromRecords records required).evidenceComplete =
      ((declaredProfile records required).evidenceComplete &&
        (capabilityList required).all fun c =>
          decide (c ∈ (declaredProfile records required).supportedCapabilities)) := by
  have hscan := foldl_scanProfileRecord_profile required records
    ⟨defaultHooksMonitorProfile required, false, []⟩
  unfold profileFromRecords declaredProfile
  dsimp only
  rw [foldl_requireCapability_evidenceComplete]
  split <;> simp only [hscan]

/-! ## 5. Stamps -/

/-- A part appended behind a `;` is applied last. -/
theorem applyProfileDetail_append (p : MonitorBackendProfile) (detail part : NimStr) :
    applyProfileDetail p (detail ++ 59 :: part) =
      applyProfileDetail (applyProfileDetail p detail) part := by
  simp only [applyProfileDetail, splitAt_append_sep, List.foldl_append]

/-- A part whose key is none of the four known ones changes nothing. -/
theorem applyProfileDetail_unknown (p : MonitorBackendProfile) {key value : NimStr}
    (hkey : 61 ∉ key) (hk59 : 59 ∉ key) (hv59 : 59 ∉ value)
    (hb : key ≠ str "backend") (hs : key ≠ str "supported") (hr : key ≠ str "required")
    (he : key ≠ str "evidenceComplete") :
    applyProfileDetail p (key ++ 61 :: value) = p := by
  have hno : (59 : UInt8) ∉ key ++ 61 :: value := by
    simp only [List.mem_append, List.mem_cons, not_or]
    exact ⟨hk59, by decide, hv59⟩
  simp only [applyProfileDetail, splitAt_of_not_mem 59 _ hno, List.foldl_cons, List.foldl_nil,
    applyProfilePart, splitFirst_append 61 value key hkey, if_neg hb, if_neg hs, if_neg hr,
    if_neg he]

/-- The profile records the Linux merge appends. -/
def platformProfile : MonitorBackendProfile :=
  defaultHooksMonitorProfile LinuxPreloadSupportedCapabilities

/-- The platform's profile record evaluates to complete against what a depfile requires. -/
theorem platformProfile_evidenceComplete :
    let p := applyProfileDetail (defaultHooksMonitorProfile InputEvidenceCapabilities)
      (backendProfileRecord platformProfile).detail
    p.evidenceComplete = true ∧
      (capabilityList InputEvidenceCapabilities).all
        (fun c => decide (c ∈ p.supportedCapabilities)) = true := by
  decide +kernel

end IoMon
